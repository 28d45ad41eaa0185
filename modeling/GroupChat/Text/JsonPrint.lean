import GroupChat.Text.Json

/-!
# Writing JSON

`stringify` writes any value, and `parse_stringify` is its round trip, for values of any depth
and strings of any code units.  The only condition is on numbers, which are kept as they are
written: each has to be a number of the grammar (`Proper`), as the numeral of a natural number
is (`isNumber_toDigits`).

A number has no end of its own, so after the text of a value the reader may be in either of two
states (`Ends`).  They read the next comma or bracket alike, and finish alike.
-/

namespace GroupChat
namespace Text
namespace Json

/-! ## Writing -/

mutual

/-- `JSON.stringify` -/
def stringify : Json → List Char
  | null => ['n', 'u', 'l', 'l']
  | bool true => ['t', 'r', 'u', 'e']
  | bool false => ['f', 'a', 'l', 's', 'e']
  | number literal => literal
  | string s => quote s
  | array [] => ['[', ']']
  | array (item :: items) => '[' :: (stringify item ++ (writeItems items ++ [']']))
  | object [] => ['\x7b', '\x7d']
  | object ((name, v) :: members) =>
    '\x7b' :: (quote name ++ ':' :: (stringify v ++ (writeMembers members ++ ['\x7d'])))

/-- The items after the first. -/
def writeItems : List Json → List Char
  | [] => []
  | item :: items => ',' :: (stringify item ++ writeItems items)

/-- The members after the first. -/
def writeMembers : List (JsString × Json) → List Char
  | [] => []
  | (name, v) :: members => ',' :: (quote name ++ ':' :: (stringify v ++ writeMembers members))

end

/-! ## Numbers -/

/-- What a number begins with. -/
def startNumber (c : Char) : Option Phase :=
  if c = '-' then some .minus else if c = '0' then some .zero
  else if c.isDigit then some .integer else none

/-- The text is a number of the grammar. -/
def IsNumber : List Char → Prop
  | [] => False
  | c :: cs => ∃ first last, startNumber c = some first ∧ cs.foldlM Phase.next first = some last ∧
      last.complete = true

/-- All numbers in the value are numbers of the grammar. -/
inductive Proper : Json → Prop
  | null : Proper .null
  | bool (b : Bool) : Proper (.bool b)
  | number {literal : List Char} (h : IsNumber literal) : Proper (.number literal)
  | string (s : JsString) : Proper (.string s)
  | array {items : List Json} (h : ∀ item ∈ items, Proper item) : Proper (.array items)
  | object {members : List (JsString × Json)} (h : ∀ m ∈ members, Proper m.2) :
      Proper (.object members)

/-- The numerals of the positive numbers begin with another digit than zero, and go on with
digits. -/
theorem exists_toDigits {n : ℕ} (hn : 0 < n) :
    ∃ c cs, Nat.toDigits 10 n = c :: cs ∧ startNumber c = some .integer ∧
      cs.foldlM Phase.next .integer = some .integer := by
  induction n using Nat.strong_induction_on with
  | _ n ih =>
    by_cases hsmall : n < 10
    · refine ⟨n.digitChar, [], Nat.toDigits_of_lt_base hsmall, ?_, rfl⟩
      interval_cases n <;> rfl
    · obtain ⟨c, cs, hdigits, hc, hcs⟩ := ih (n / 10) (by omega) (by omega)
      have hdigit : ((n % 10).digitChar).isDigit = true := by
        have hlt : n % 10 < 10 := Nat.mod_lt n (by omega)
        interval_cases n % 10 <;> rfl
      have hnext : Phase.next .integer (n % 10).digitChar = some .integer := by
        unfold Phase.next
        dsimp only
        rw [if_pos hdigit]
      refine ⟨c, cs ++ [(n % 10).digitChar], ?_, hc, ?_⟩
      · rw [Nat.toDigits_of_base_le (by omega) (by omega), hdigits, List.cons_append]
      · rw [List.foldlM_append, hcs]
        show Phase.next .integer (n % 10).digitChar >>= _ = _
        rw [hnext]
        rfl

theorem isNumber_toDigits (n : ℕ) : IsNumber (Nat.toDigits 10 n) := by
  rcases Nat.eq_zero_or_pos n with rfl | hn
  · rw [Nat.toDigits_zero]
    exact ⟨.zero, .zero, rfl, rfl, rfl⟩
  · obtain ⟨c, cs, hdigits, hc, hcs⟩ := exists_toDigits hn
    rw [hdigits]
    exact ⟨.integer, .integer, hc, hcs, rfl⟩

/-! ## Where the text of a value ends -/

/-- A value has been read, though a number might still go on. -/
inductive Ends (fs : List Frame) : Json → State → Prop
  | after (v : Json) : Ends fs v ⟨.after v, fs⟩
  | number (literal : List Char) {phase : Phase} (h : phase.complete = true) :
      Ends fs (.number literal) ⟨.number literal phase, fs⟩

/-- The characters that may follow a value. -/
def IsDelimiter (c : Char) : Prop := c = ',' ∨ c = ']' ∨ c = '\x7d'

variable {v : Json} {fs : List Frame} {s : State}

/-- No number goes on with them. -/
theorem next_of_isDelimiter {c : Char} (hc : IsDelimiter c) (phase : Phase) :
    phase.next c = none := by
  rcases hc with rfl | rfl | rfl <;> cases phase <;> rfl

theorem Ends.step (h : Ends fs v s) {c : Char} (hc : IsDelimiter c) :
    step s c = afterValue v fs c := by
  cases h with
  | after => rfl
  | number literal hcomplete =>
    unfold Json.step
    dsimp only
    rw [next_of_isDelimiter hc]
    dsimp only
    rw [if_pos hcomplete]

theorem Ends.finish (h : Ends [] v s) : finish s = some v := by
  cases h with
  | after => rfl
  | number literal hcomplete =>
    unfold Json.finish
    dsimp only
    rw [if_pos hcomplete]

/-! ## Reading back -/

/-- The text of the value is read as the value, wherever one may stand. -/
def Reads (v : Json) : Prop :=
  ∀ fs, ∃ s, run ⟨.value, fs⟩ (stringify v) = some s ∧ Ends fs v s

theorem run_number (fs : List Frame) (literal : List Char) {phase last : Phase} {cs : List Char}
    (h : cs.foldlM Phase.next phase = some last) :
    run ⟨.number literal phase, fs⟩ cs = some ⟨.number (literal ++ cs) last, fs⟩ := by
  induction cs generalizing literal phase with
  | nil =>
    cases h
    rw [List.append_nil]
    rfl
  | cons c cs ih =>
    rw [List.foldlM_cons] at h
    cases hnext : phase.next c with
    | none =>
      rw [hnext] at h
      cases h
    | some phase' =>
      rw [hnext] at h
      have hstep : Json.step ⟨.number literal phase, fs⟩ c =
          some ⟨.number (literal ++ [c]) phase', fs⟩ := by
        unfold Json.step
        dsimp only
        rw [hnext]
      rw [run_cons hstep, ih (literal ++ [c]) h, List.append_assoc, List.singleton_append]

/-- A number does not begin with a character that begins no number. -/
theorem ne_of_startNumber {c d : Char} {phase : Phase} (h : startNumber c = some phase)
    (hd : startNumber d = none) : c ≠ d := by
  rintro rfl
  rw [hd] at h
  cases h

theorem not_isWhitespace_of_startNumber {c : Char} {phase : Phase}
    (h : startNumber c = some phase) : isWhitespace c = false := by
  have hne : ∀ d, startNumber d = none → c ≠ d := fun _ => ne_of_startNumber h
  unfold isWhitespace
  simp [hne ' ' rfl, hne '\t' rfl, hne '\n' rfl, hne '\r' rfl]

theorem startValue_of_startNumber (fs : List Frame) {c : Char} {phase : Phase}
    (h : startNumber c = some phase) : startValue fs c = some ⟨.number [c] phase, fs⟩ := by
  have hne : ∀ d, startNumber d = none → c ≠ d := fun _ => ne_of_startNumber h
  unfold startValue
  split
  · exact absurd rfl (hne '\x7b' rfl)
  · exact absurd rfl (hne '[' rfl)
  · exact absurd rfl (hne '"' rfl)
  · exact absurd rfl (hne 't' rfl)
  · exact absurd rfl (hne 'f' rfl)
  · exact absurd rfl (hne 'n' rfl)
  · cases h
    rfl
  · cases h
    rfl
  · next hminus hzero =>
    unfold startNumber at h
    rw [if_neg hminus, if_neg hzero] at h
    split_ifs at h with hdigit
    cases h
    rw [if_pos hdigit]

theorem reads_number {literal : List Char} (h : IsNumber literal) : Reads (.number literal) := by
  intro fs
  cases literal with
  | nil => exact h.elim
  | cons c cs =>
    obtain ⟨first, last, hfirst, hlast, hcomplete⟩ := h
    have hstep : Json.step ⟨.value, fs⟩ c = some ⟨.number [c] first, fs⟩ := by
      unfold Json.step
      dsimp only
      rw [not_isWhitespace_of_startNumber hfirst, if_neg (by decide),
        startValue_of_startNumber fs hfirst]
    refine ⟨⟨.number (c :: cs) last, fs⟩, ?_, .number (c :: cs) hcomplete⟩
    unfold stringify
    rw [run_cons hstep, run_number fs [c] hlast, List.singleton_append]

theorem reads_string (s : JsString) : Reads (.string s) := by
  intro fs
  refine ⟨⟨.after (.string s), fs⟩, ?_, .after _⟩
  have hopen : Json.step ⟨.value, fs⟩ '"' = some ⟨.string false [], fs⟩ := rfl
  unfold stringify quote
  rw [List.cons_append, run_cons hopen, run_quote]
  rfl

/-- A name, its colon, and what follows. -/
theorem run_name (empty : Bool) (members : List (JsString × Json)) (fs : List Frame)
    (name : JsString) (cs : List Char) :
    run ⟨.name empty, .object members :: fs⟩ (quote name ++ ':' :: cs) =
      run ⟨.value, .entry members name :: fs⟩ cs := by
  have hopen : Json.step ⟨.name empty, .object members :: fs⟩ '"' =
      some ⟨.string true [], .object members :: fs⟩ := rfl
  have hname := run_quote true (.object members :: fs) name
  rw [if_pos rfl] at hname
  have hcolon : Json.step ⟨.colon name, .object members :: fs⟩ ':' =
      some ⟨.value, .entry members name :: fs⟩ := rfl
  unfold quote
  rw [List.cons_append, List.cons_append, run_cons hopen, run_append_of_run hname,
    run_cons hcolon]

/-- The text of a value begins neither with white space nor with the end of an array. -/
theorem exists_stringify_cons (h : Proper v) :
    ∃ c cs, stringify v = c :: cs ∧ isWhitespace c = false ∧ c ≠ ']' := by
  cases h with
  | null => exact ⟨_, _, rfl, rfl, by decide⟩
  | bool b => cases b <;> exact ⟨_, _, rfl, rfl, by decide⟩
  | @number literal hnumber =>
    cases literal with
    | nil => exact hnumber.elim
    | cons c cs =>
      obtain ⟨first, last, hfirst, -⟩ := hnumber
      exact ⟨c, cs, rfl, not_isWhitespace_of_startNumber hfirst, ne_of_startNumber hfirst rfl⟩
  | string s => exact ⟨_, _, rfl, rfl, by decide⟩
  | @array items => cases items <;> exact ⟨_, _, rfl, rfl, by decide⟩
  | @object members => rcases members with - | ⟨⟨name, v⟩, members⟩ <;>
      exact ⟨_, _, rfl, rfl, by decide⟩

/-- So a value is read alike as the first item of an array and elsewhere. -/
theorem run_first (h : Proper v) (fs : List Frame) (cs : List Char) :
    run ⟨.first, fs⟩ (stringify v ++ cs) = run ⟨.value, fs⟩ (stringify v ++ cs) := by
  obtain ⟨c, ds, htext, hwhite, hclose⟩ := exists_stringify_cons h
  have hstep : Json.step ⟨.first, fs⟩ c = Json.step ⟨.value, fs⟩ c := by
    unfold Json.step
    dsimp only
    rw [hwhite, if_neg (by decide), if_neg hclose, if_neg (by decide)]
  rw [htext, List.cons_append]
  unfold run
  rw [List.foldlM_cons, List.foldlM_cons, hstep]

theorem run_writeItems {items : List Json} (hitems : ∀ item ∈ items, Reads item)
    (read : List Json) (hends : Ends (.array read :: fs) v s) :
    run s (writeItems items ++ [']']) = some ⟨.after (.array (read ++ v :: items)), fs⟩ := by
  induction items generalizing read v s with
  | nil =>
    have hclose := hends.step (c := ']') (.inr (.inl rfl))
    unfold writeItems
    rw [List.nil_append, run_cons hclose]
    rfl
  | cons item items ih =>
    obtain ⟨t, hrun, ht⟩ := hitems item List.mem_cons_self (.array (read ++ [v]) :: fs)
    have hcomma := hends.step (c := ',') (.inl rfl)
    unfold writeItems
    rw [List.cons_append, run_cons hcomma, List.append_assoc, run_append_of_run hrun,
      ih (fun x hx => hitems x (List.mem_cons_of_mem _ hx)) (read ++ [v]) ht,
      List.append_assoc, List.singleton_append]

theorem run_writeMembers {members : List (JsString × Json)} (hmembers : ∀ m ∈ members, Reads m.2)
    (read : List (JsString × Json)) (name : JsString) (hends : Ends (.entry read name :: fs) v s) :
    run s (writeMembers members ++ ['\x7d']) =
      some ⟨.after (.object (read ++ (name, v) :: members)), fs⟩ := by
  induction members generalizing read name v s with
  | nil =>
    have hclose := hends.step (c := '\x7d') (.inr (.inr rfl))
    unfold writeMembers
    rw [List.nil_append, run_cons hclose]
    rfl
  | cons m members ih =>
    obtain ⟨t, hrun, ht⟩ :=
      hmembers m List.mem_cons_self (.entry (read ++ [(name, v)]) m.1 :: fs)
    have hcomma := hends.step (c := ',') (.inl rfl)
    unfold writeMembers
    rw [List.cons_append, run_cons hcomma, List.append_assoc, List.cons_append, run_name,
      List.append_assoc, run_append_of_run hrun,
      ih (fun x hx => hmembers x (List.mem_cons_of_mem _ hx)) (read ++ [(name, v)]) m.1 ht,
      List.append_assoc, List.singleton_append]

/-- **Every value that is written is read as the value.** -/
theorem Proper.reads (h : Proper v) : Reads v := by
  induction h with
  | null => exact fun fs => ⟨_, rfl, .after _⟩
  | bool b => cases b <;> exact fun fs => ⟨_, rfl, .after _⟩
  | number h => exact reads_number h
  | string s => exact reads_string s
  | @array items hproper ih =>
    intro fs
    have hopen : Json.step ⟨.value, fs⟩ '[' = some ⟨.first, .array [] :: fs⟩ := rfl
    cases items with
    | nil => exact ⟨_, rfl, .after _⟩
    | cons item items =>
      obtain ⟨t, hrun, ht⟩ := ih item List.mem_cons_self (.array [] :: fs)
      refine ⟨_, ?_, .after _⟩
      unfold stringify
      rw [run_cons hopen, run_first (hproper item List.mem_cons_self), run_append_of_run hrun,
        run_writeItems (fun x hx => ih x (List.mem_cons_of_mem _ hx)) [] ht]
      rfl
  | @object members hproper ih =>
    intro fs
    have hopen : Json.step ⟨.value, fs⟩ '\x7b' = some ⟨.name true, .object [] :: fs⟩ := rfl
    rcases members with - | ⟨⟨name, v⟩, members⟩
    · exact ⟨_, rfl, .after _⟩
    · obtain ⟨t, hrun, ht⟩ := ih (name, v) List.mem_cons_self (.entry [] name :: fs)
      refine ⟨_, ?_, .after _⟩
      unfold stringify
      rw [run_cons hopen, run_name, run_append_of_run hrun,
        run_writeMembers (fun x hx => ih x (List.mem_cons_of_mem _ hx)) [] name ht]
      rfl

/-- **Round trip.** -/
theorem parse_stringify (h : Proper v) : parse (stringify v) = some v := by
  obtain ⟨s, hrun, hends⟩ := h.reads []
  unfold parse
  rw [hrun, Option.bind_some, hends.finish]

/-! ## Values of the language as JSON -/

/-- A text. -/
def ofText (s : String) : Json := .string (JsString.ofString s)

/-- A natural number. -/
def natural (n : ℕ) : Json := .number (Nat.toDigits 10 n)

/-- A value, or `null`. -/
def orNull {α : Type} (write : α → Json) : Option α → Json
  | none => .null
  | some a => write a

/-- An object literal. -/
def record (members : List (String × Json)) : Json :=
  .object (members.map fun m => (JsString.ofString m.1, m.2))

@[simp] theorem proper_bool (b : Bool) : Proper (.bool b) := .bool b

@[simp] theorem proper_string (s : JsString) : Proper (.string s) := .string s

@[simp] theorem proper_ofText (s : String) : Proper (ofText s) := .string _

@[simp] theorem proper_natural (n : ℕ) : Proper (natural n) := .number (isNumber_toDigits n)

theorem proper_orNull {α : Type} {write : α → Json} (h : ∀ a, Proper (write a)) (a : Option α) :
    Proper (orNull write a) := by
  cases a with
  | none => exact .null
  | some a => exact h a

theorem proper_array_map {α : Type} {write : α → Json} (h : ∀ a, Proper (write a))
    (as : List α) : Proper (.array (as.map write)) := by
  refine .array fun item hitem => ?_
  obtain ⟨a, -, rfl⟩ := List.mem_map.mp hitem
  exact h a

theorem proper_record {members : List (String × Json)} (h : ∀ m ∈ members, Proper m.2) :
    Proper (record members) := by
  refine .object fun m hm => ?_
  obtain ⟨x, hx, rfl⟩ := List.mem_map.mp hm
  exact h x hx

/-- Reading a property of an object literal. -/
theorem get?_record (members : List (String × Json)) (name : String) :
    (record members).get? name = (members.reverse.find? fun m => m.1 = name).map Prod.snd := by
  have hname : ∀ m : String × Json,
      decide (JsString.ofString m.1 = JsString.ofString name) = decide (m.1 = name) := fun m =>
    decide_eq_decide.mpr JsString.ofString_injective.eq_iff
  unfold get? record
  dsimp only
  rw [← List.map_reverse, List.find?_map, Option.map_map]
  exact congrArg (Option.map Prod.snd)
    (congrArg (fun p => members.reverse.find? p) (funext hname))

end Json
end Text
end GroupChat

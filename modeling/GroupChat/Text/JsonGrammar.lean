import GroupChat.Text.JsonPrint

/-!
# The grammar of JSON

`Derives` says which texts are the text of a value, by the productions of the language and
without a reader: a text is blanks, a value and blanks, and a value is a word, a number, a
string, or items or members between their brackets.

`parse_eq_some_iff` is that `parse` accepts exactly these texts, and with the value they
derive.  From left to right the reader is followed one character at a time: what has been
read is the text that leads up to the open arrays and objects (`Before`) and a part of what
is being read now (`Reading`).  From right to left it is run on the texts of each production.
-/

namespace GroupChat
namespace Text
namespace Json

/-! ## Blanks, numbers and strings -/

/-- Characters that mean nothing between tokens. -/
def IsBlank (ws : List Char) : Prop := ∀ c ∈ ws, isWhitespace c = true

/-- Any number of digits. -/
def AllDigits (cs : List Char) : Prop := ∀ c ∈ cs, c.isDigit = true

/-- A zero, or digits that do not begin with one. -/
inductive IsInteger : List Char → Prop
  | zero : IsInteger ['0']
  | positive {c : Char} {cs : List Char} (hc : c.isDigit = true) (hzero : c ≠ '0')
      (hcs : AllDigits cs) : IsInteger (c :: cs)

/-- A point and digits, or nothing. -/
inductive IsFraction : List Char → Prop
  | none : IsFraction []
  | some {cs : List Char} (hne : cs ≠ []) (hcs : AllDigits cs) : IsFraction ('.' :: cs)

/-- An exponent with or without a sign, or nothing. -/
inductive IsExponent : List Char → Prop
  | none : IsExponent []
  | some {mark : Char} {sign cs : List Char} (hmark : mark = 'e' ∨ mark = 'E')
      (hsign : sign = [] ∨ sign = ['+'] ∨ sign = ['-']) (hne : cs ≠ []) (hcs : AllDigits cs) :
      IsExponent (mark :: (sign ++ cs))

/-- A sign, digits, a fraction and an exponent. -/
inductive IsNumeral : List Char → Prop
  | intro {sign integer fraction exponent : List Char} (hsign : sign = [] ∨ sign = ['-'])
      (hinteger : IsInteger integer) (hfraction : IsFraction fraction)
      (hexponent : IsExponent exponent) :
      IsNumeral (sign ++ (integer ++ (fraction ++ exponent)))

/-- What stands between the quotation marks of a string. -/
inductive Body : JsString → List Char → Prop
  | nil : Body [] []
  | plain {s : JsString} {cs : List Char} {c : Char} (h : Body s cs) (hquote : c ≠ '"')
      (hslash : c ≠ '\\') (hcontrol : ¬c.toNat < 0x20) : Body (s ++ unitsOfChar c) (cs ++ [c])
  | escape {s : JsString} {cs : List Char} {c : Char} {u : CodeUnit} (h : Body s cs)
      (hc : unescape c = some u) : Body (s ++ [u]) (cs ++ ['\\', c])
  | hex {s : JsString} {cs ds : List Char} {n : ℕ} (h : Body s cs) (hlength : ds.length = 4)
      (hds : Text.parse 16 ds = some n) :
      Body (s ++ [UInt16.ofNat n]) (cs ++ '\\' :: 'u' :: ds)

/-! ## Values -/

/-- The parts a text is made of. -/
inductive Part where
  | value (v : Json)
  /-- A value with blanks around it. -/
  | element (v : Json)
  | elements (vs : List Json)
  | member (m : JsString × Json)
  | members (ms : List (JsString × Json))

/-- **The grammar.** -/
inductive Derives : Part → List Char → Prop
  | null : Derives (.value .null) ['n', 'u', 'l', 'l']
  | true : Derives (.value (.bool Bool.true)) ['t', 'r', 'u', 'e']
  | false : Derives (.value (.bool Bool.false)) ['f', 'a', 'l', 's', 'e']
  | number {cs : List Char} (h : IsNumeral cs) : Derives (.value (.number cs)) cs
  | string {s : JsString} {cs : List Char} (h : Body s cs) :
      Derives (.value (.string s)) ('"' :: (cs ++ ['"']))
  | emptyArray {ws : List Char} (h : IsBlank ws) :
      Derives (.value (.array [])) ('[' :: (ws ++ [']']))
  | array {vs : List Json} {cs : List Char} (h : Derives (.elements vs) cs) :
      Derives (.value (.array vs)) ('[' :: (cs ++ [']']))
  | emptyObject {ws : List Char} (h : IsBlank ws) :
      Derives (.value (.object [])) ('\x7b' :: (ws ++ ['\x7d']))
  | object {ms : List (JsString × Json)} {cs : List Char} (h : Derives (.members ms) cs) :
      Derives (.value (.object ms)) ('\x7b' :: (cs ++ ['\x7d']))
  | element {v : Json} {ws cs ws' : List Char} (hws : IsBlank ws) (h : Derives (.value v) cs)
      (hws' : IsBlank ws') : Derives (.element v) (ws ++ (cs ++ ws'))
  | one {v : Json} {cs : List Char} (h : Derives (.element v) cs) : Derives (.elements [v]) cs
  | more {vs : List Json} {v : Json} {cs ds : List Char} (hvs : Derives (.elements vs) cs)
      (hv : Derives (.element v) ds) : Derives (.elements (vs ++ [v])) (cs ++ ',' :: ds)
  | member {name : JsString} {v : Json} {ws cs ws' ds : List Char} (hws : IsBlank ws)
      (hname : Body name cs) (hws' : IsBlank ws') (hv : Derives (.element v) ds) :
      Derives (.member (name, v)) (ws ++ '"' :: (cs ++ '"' :: (ws' ++ ':' :: ds)))
  | oneMember {m : JsString × Json} {cs : List Char} (h : Derives (.member m) cs) :
      Derives (.members [m]) cs
  | moreMembers {ms : List (JsString × Json)} {m : JsString × Json} {cs ds : List Char}
      (hms : Derives (.members ms) cs) (hm : Derives (.member m) ds) :
      Derives (.members (ms ++ [m])) (cs ++ ',' :: ds)

/-! ## Numbers, a character at a time -/

/-- What has been read of a number in each of its phases. -/
inductive Phase.Read : Phase → List Char → Prop
  | minus : Read .minus ['-']
  | zero {sign : List Char} (hsign : sign = [] ∨ sign = ['-']) : Read .zero (sign ++ ['0'])
  | integer {sign cs : List Char} {c : Char} (hsign : sign = [] ∨ sign = ['-'])
      (hc : c.isDigit = true) (hzero : c ≠ '0') (hcs : AllDigits cs) :
      Read .integer (sign ++ c :: cs)
  | point {sign integer : List Char} (hsign : sign = [] ∨ sign = ['-'])
      (hinteger : IsInteger integer) : Read .point (sign ++ (integer ++ ['.']))
  | fraction {sign integer cs : List Char} (hsign : sign = [] ∨ sign = ['-'])
      (hinteger : IsInteger integer) (hne : cs ≠ []) (hcs : AllDigits cs) :
      Read .fraction (sign ++ (integer ++ '.' :: cs))
  | mark {sign integer fraction : List Char} {mark : Char} (hsign : sign = [] ∨ sign = ['-'])
      (hinteger : IsInteger integer) (hfraction : IsFraction fraction)
      (hmark : mark = 'e' ∨ mark = 'E') : Read .mark (sign ++ (integer ++ (fraction ++ [mark])))
  | sign {sign integer fraction : List Char} {mark c : Char} (hsign : sign = [] ∨ sign = ['-'])
      (hinteger : IsInteger integer) (hfraction : IsFraction fraction)
      (hmark : mark = 'e' ∨ mark = 'E') (hc : c = '+' ∨ c = '-') :
      Read .sign (sign ++ (integer ++ (fraction ++ [mark, c])))
  | exponent {sign integer fraction exponent : List Char} (hsign : sign = [] ∨ sign = ['-'])
      (hinteger : IsInteger integer) (hfraction : IsFraction fraction)
      (hne : exponent ≠ []) (hexponent : IsExponent exponent) :
      Read .exponent (sign ++ (integer ++ (fraction ++ exponent)))

theorem AllDigits.snoc {cs : List Char} {c : Char} (h : AllDigits cs) (hc : c.isDigit = true) :
    AllDigits (cs ++ [c]) := by
  intro d hd
  rcases List.mem_append.mp hd with hd | hd
  · exact h d hd
  · rw [List.mem_singleton.mp hd]
    exact hc

theorem allDigits_singleton {c : Char} (hc : c.isDigit = true) : AllDigits [c] := by
  intro d hd
  rw [List.mem_singleton.mp hd]
  exact hc

/-- The number goes on with a point or with the mark of an exponent. -/
theorem Phase.Read.afterInteger {sign integer : List Char} {c : Char} {phase : Phase}
    (hsign : sign = [] ∨ sign = ['-']) (hinteger : IsInteger integer)
    (h : Phase.next.fractionOrExponent c = some phase) :
    phase.Read (sign ++ (integer ++ [c])) := by
  unfold Phase.next.fractionOrExponent at h
  split_ifs at h with hpoint hmark
  · cases h
    rw [hpoint]
    exact .point hsign hinteger
  · cases h
    exact .mark hsign hinteger .none hmark

/-- **One more character of a number.** -/
theorem Phase.Read.step {phase phase' : Phase} {cs : List Char} {c : Char} (h : phase.Read cs)
    (hnext : phase.next c = some phase') : phase'.Read (cs ++ [c]) := by
  cases h with
  | minus =>
    unfold Phase.next at hnext
    dsimp only at hnext
    split_ifs at hnext with hzero hdigit
    · cases hnext
      rw [hzero]
      exact .zero (Or.inr rfl)
    · cases hnext
      exact @Phase.Read.integer ['-'] [] c (Or.inr rfl) hdigit hzero (List.forall_mem_nil _)
  | zero hsign =>
    rw [List.append_assoc]
    exact .afterInteger hsign .zero hnext
  | integer hsign hc hzero hcs =>
    unfold Phase.next at hnext
    dsimp only at hnext
    split_ifs at hnext with hdigit
    · cases hnext
      rw [List.append_assoc, List.cons_append]
      exact .integer hsign hc hzero (hcs.snoc hdigit)
    · rw [List.append_assoc]
      exact .afterInteger hsign (.positive hc hzero hcs) hnext
  | point hsign hinteger =>
    unfold Phase.next at hnext
    dsimp only at hnext
    split_ifs at hnext with hdigit
    cases hnext
    rw [List.append_assoc, List.append_assoc]
    exact .fraction hsign hinteger (List.cons_ne_nil c []) (allDigits_singleton hdigit)
  | fraction hsign hinteger hne hcs =>
    unfold Phase.next at hnext
    dsimp only at hnext
    split_ifs at hnext with hdigit hmark
    · cases hnext
      rw [List.append_assoc, List.append_assoc, List.cons_append]
      exact .fraction hsign hinteger (by simp) (hcs.snoc hdigit)
    · cases hnext
      rw [List.append_assoc, List.append_assoc]
      exact .mark hsign hinteger (.some hne hcs) hmark
  | @mark sign integer fraction mark hsign hinteger hfraction hmark =>
    unfold Phase.next at hnext
    dsimp only at hnext
    split_ifs at hnext with hdigit hplus
    · cases hnext
      rw [List.append_assoc, List.append_assoc, List.append_assoc]
      exact .exponent hsign hinteger hfraction (List.cons_ne_nil mark [c])
        (@IsExponent.some mark [] [c] hmark (Or.inl rfl) (List.cons_ne_nil c [])
          (allDigits_singleton hdigit))
    · cases hnext
      rw [List.append_assoc, List.append_assoc, List.append_assoc]
      exact .sign hsign hinteger hfraction hmark hplus
  | @sign sign integer fraction mark plus hsign hinteger hfraction hmark hplus =>
    unfold Phase.next at hnext
    dsimp only at hnext
    split_ifs at hnext with hdigit
    cases hnext
    rw [List.append_assoc, List.append_assoc, List.append_assoc]
    exact .exponent hsign hinteger hfraction (List.cons_ne_nil mark [plus, c])
      (@IsExponent.some mark [plus] [c] hmark
        (Or.inr (hplus.imp (congrArg (· :: [])) (congrArg (· :: [])))) (List.cons_ne_nil c [])
        (allDigits_singleton hdigit))
  | exponent hsign hinteger hfraction hne hexponent =>
    unfold Phase.next at hnext
    dsimp only at hnext
    split_ifs at hnext with hdigit
    cases hnext
    cases hexponent with
    | none => exact absurd rfl hne
    | @some mark sign cs hmark hexsign hne' hcs =>
      rw [List.append_assoc, List.append_assoc, List.append_assoc, List.cons_append,
        List.append_assoc]
      exact .exponent hsign hinteger hfraction (List.cons_ne_nil _ _)
        (.some hmark hexsign (by simp) (hcs.snoc hdigit))

/-- A number that may end is one. -/
theorem Phase.Read.isNumeral {phase : Phase} {cs : List Char} (h : phase.Read cs)
    (hcomplete : phase.complete = true) : IsNumeral cs := by
  cases h with
  | minus => cases hcomplete
  | zero hsign => exact .intro hsign .zero .none .none
  | @integer sign cs c hsign hc hzero hcs =>
    have h := IsNumeral.intro hsign (.positive hc hzero hcs) .none .none
    rwa [List.append_nil, List.append_nil] at h
  | point => cases hcomplete
  | @fraction sign integer cs hsign hinteger hne hcs =>
    have h := IsNumeral.intro hsign hinteger (.some hne hcs) .none
    rwa [List.append_nil] at h
  | mark => cases hcomplete
  | sign => cases hcomplete
  | exponent hsign hinteger hfraction _ hexponent =>
    exact .intro hsign hinteger hfraction hexponent

/-- The first character of a number. -/
theorem read_of_startNumber {c : Char} {phase : Phase} (h : startNumber c = some phase) :
    phase.Read [c] := by
  unfold startNumber at h
  split_ifs at h with hminus hzero hdigit
  · cases h
    rw [hminus]
    exact .minus
  · cases h
    rw [hzero]
    exact @Phase.Read.zero [] (Or.inl rfl)
  · cases h
    exact @Phase.Read.integer [] [] c (Or.inl rfl) hdigit hzero (List.forall_mem_nil _)

/-! ## What has been read -/

/-- The text that leads up to what is read now, when these arrays and objects are open. -/
inductive Before : List Frame → List Char → Prop
  | top : Before [] []
  | firstItem {fs : List Frame} {cs ws : List Char} (h : Before fs cs) (hws : IsBlank ws) :
      Before (.array [] :: fs) (cs ++ (ws ++ ['[']))
  | nextItem {fs : List Frame} {cs ws ds : List Char} {items : List Json} (h : Before fs cs)
      (hws : IsBlank ws) (hitems : Derives (.elements items) ds) :
      Before (.array items :: fs) (cs ++ (ws ++ '[' :: (ds ++ [','])))
  | firstMember {fs : List Frame} {cs ws : List Char} (h : Before fs cs) (hws : IsBlank ws) :
      Before (.object [] :: fs) (cs ++ (ws ++ ['\x7b']))
  | nextMember {fs : List Frame} {cs ws ds : List Char} {members : List (JsString × Json)}
      (h : Before fs cs) (hws : IsBlank ws) (hmembers : Derives (.members members) ds) :
      Before (.object members :: fs) (cs ++ (ws ++ '\x7b' :: (ds ++ [','])))
  | named {fs : List Frame} {cs ws ds ws' : List Char} {members : List (JsString × Json)}
      {name : JsString} (h : Before (.object members :: fs) cs) (hws : IsBlank ws)
      (hname : Body name ds) (hws' : IsBlank ws') :
      Before (.entry members name :: fs) (cs ++ (ws ++ '"' :: (ds ++ '"' :: (ws' ++ [':']))))

/-- What has been read of what is read now. -/
inductive Reading (fs : List Frame) : Mode → List Char → Prop
  | value {ws : List Char} (hws : IsBlank ws) : Reading fs .value ws
  | first {ws : List Char} (hws : IsBlank ws) (hfs : ∃ gs, fs = .array [] :: gs) :
      Reading fs .first ws
  | name {empty : Bool} {ws : List Char} (hws : IsBlank ws)
      (hfs : empty = Bool.true → ∃ gs, fs = .object [] :: gs) : Reading fs (.name empty) ws
  | colon {name : JsString} {ws cs ws' : List Char} (hws : IsBlank ws) (hname : Body name cs)
      (hws' : IsBlank ws') : Reading fs (.colon name) (ws ++ '"' :: (cs ++ '"' :: ws'))
  | after {v : Json} {cs : List Char} (h : Derives (.element v) cs) : Reading fs (.after v) cs
  | string {isName : Bool} {s : JsString} {ws cs : List Char} (hws : IsBlank ws)
      (h : Body s cs) : Reading fs (.string isName s) (ws ++ '"' :: cs)
  | escape {isName : Bool} {s : JsString} {ws cs : List Char} (hws : IsBlank ws)
      (h : Body s cs) : Reading fs (.escape isName s) (ws ++ '"' :: (cs ++ ['\\']))
  | hex {isName : Bool} {s : JsString} {ws cs ds : List Char} (hws : IsBlank ws) (h : Body s cs)
      (hds : ds.length < 4) :
      Reading fs (.hex isName s ds) (ws ++ '"' :: (cs ++ '\\' :: 'u' :: ds))
  | word {rest : List Char} {v : Json} {ws cs : List Char} (hws : IsBlank ws)
      (h : Derives (.value v) (cs ++ rest)) : Reading fs (.word rest v) (ws ++ cs)
  | number {literal ws : List Char} {phase : Phase} (hws : IsBlank ws) (h : phase.Read literal) :
      Reading fs (.number literal phase) (ws ++ literal)

/-- **What has been read** is what leads up to the open arrays and objects, and then a part
of what is read now. -/
def State.Holds (s : State) (text : List Char) : Prop :=
  ∃ cs ds, Before s.frames cs ∧ Reading s.frames s.mode ds ∧ text = cs ++ ds

theorem isBlank_nil : IsBlank [] := List.forall_mem_nil _

theorem IsBlank.snoc {ws : List Char} {c : Char} (h : IsBlank ws)
    (hc : isWhitespace c = Bool.true) : IsBlank (ws ++ [c]) := by
  intro d hd
  rcases List.mem_append.mp hd with hd | hd
  · exact h d hd
  · rw [List.mem_singleton.mp hd]
    exact hc

theorem Derives.element_of_value {v : Json} {ws cs : List Char} (hws : IsBlank ws)
    (h : Derives (.value v) cs) : Derives (.element v) (ws ++ cs) := by
  have helement := Derives.element hws h isBlank_nil
  rwa [List.append_nil] at helement

theorem Derives.element_snoc {v : Json} {cs : List Char} {c : Char}
    (h : Derives (.element v) cs) (hc : isWhitespace c = Bool.true) :
    Derives (.element v) (cs ++ [c]) := by
  cases h with
  | element hws hv hws' =>
    rw [List.append_assoc, List.append_assoc]
    exact .element hws hv (hws'.snoc hc)

theorem Derives.elements_ne_nil {vs : List Json} {cs : List Char}
    (h : Derives (.elements vs) cs) : vs ≠ [] := by
  cases h with
  | one => exact List.cons_ne_nil _ _
  | more => simp

theorem Derives.members_ne_nil {ms : List (JsString × Json)} {cs : List Char}
    (h : Derives (.members ms) cs) : ms ≠ [] := by
  cases h with
  | oneMember => exact List.cons_ne_nil _ _
  | moreMembers => simp

section
variable {fs : List Frame} {pre : List Char} {c : Char} {s : State}

/-- The first character of a value. -/
theorem holds_of_startValue {ws : List Char} (hpre : Before fs pre) (hws : IsBlank ws)
    (h : startValue fs c = some s) : s.Holds (pre ++ (ws ++ [c])) := by
  unfold startValue at h
  split at h
  · cases h
    exact ⟨_, [], .firstMember hpre hws, .name isBlank_nil fun _ => ⟨fs, rfl⟩, by simp⟩
  · cases h
    exact ⟨_, [], .firstItem hpre hws, .first isBlank_nil ⟨fs, rfl⟩, by simp⟩
  · cases h
    exact ⟨pre, _, hpre, .string hws .nil, rfl⟩
  · cases h
    exact ⟨pre, _, hpre, .word hws .true, rfl⟩
  · cases h
    exact ⟨pre, _, hpre, .word hws .false, rfl⟩
  · cases h
    exact ⟨pre, _, hpre, .word hws .null, rfl⟩
  · cases h
    exact ⟨pre, _, hpre, .number hws .minus, rfl⟩
  · cases h
    exact ⟨pre, _, hpre, .number hws (read_of_startNumber rfl), rfl⟩
  · next hminus hzero =>
    split_ifs at h with hdigit
    cases h
    refine ⟨pre, _, hpre, .number hws (read_of_startNumber ?_), rfl⟩
    unfold startNumber
    rw [if_neg hminus, if_neg hzero, if_pos hdigit]

/-- An item of an array has been read. -/
theorem Before.elements {items : List Json} {v : Json} {cs : List Char}
    (h : Before (.array items :: fs) pre) (hv : Derives (.element v) cs) :
    ∃ cs' ws ds, Before fs cs' ∧ IsBlank ws ∧ Derives (.elements (items ++ [v])) ds ∧
      pre ++ cs = cs' ++ (ws ++ '[' :: ds) := by
  cases h with
  | firstItem h hws => exact ⟨_, _, cs, h, hws, .one hv, by simp⟩
  | nextItem h hws hitems => exact ⟨_, _, _, h, hws, .more hitems hv, by simp⟩

/-- The value of a name has been read. -/
theorem Before.members {members : List (JsString × Json)} {name : JsString} {v : Json}
    {cs : List Char} (h : Before (.entry members name :: fs) pre)
    (hv : Derives (.element v) cs) :
    ∃ cs' ws ds, Before fs cs' ∧ IsBlank ws ∧ Derives (.members (members ++ [(name, v)])) ds ∧
      pre ++ cs = cs' ++ (ws ++ '\x7b' :: ds) := by
  cases h with
  | named h hws hname hws' =>
    have hmember := Derives.member hws hname hws' hv
    cases h with
    | firstMember h hws => exact ⟨_, _, _, h, hws, .oneMember hmember, by simp⟩
    | nextMember h hws hmembers =>
      exact ⟨_, _, _, h, hws, .moreMembers hmembers hmember, by simp⟩

/-- The character after a value. -/
theorem holds_of_afterValue {v : Json} {cs : List Char} (hpre : Before fs pre)
    (hv : Derives (.element v) cs) (h : afterValue v fs c = some s) :
    s.Holds (pre ++ (cs ++ [c])) := by
  unfold afterValue at h
  split at h
  · next hblank =>
    cases h
    exact ⟨pre, _, hpre, .after (hv.element_snoc hblank), rfl⟩
  split at h
  · obtain ⟨cs', ws, ds, hbefore, hws, hitems, htext⟩ := hpre.elements hv
    cases h
    refine ⟨_, [], .nextItem hbefore hws hitems, .value isBlank_nil, ?_⟩
    rw [← List.append_assoc, htext]
    simp
  · obtain ⟨cs', ws, ds, hbefore, hws, hitems, htext⟩ := hpre.elements hv
    cases h
    refine ⟨cs', _, hbefore, .after (.element_of_value hws (.array hitems)), ?_⟩
    rw [← List.append_assoc, htext]
    simp
  · obtain ⟨cs', ws, ds, hbefore, hws, hmembers, htext⟩ := hpre.members hv
    cases h
    refine ⟨_, [], .nextMember hbefore hws hmembers, .name isBlank_nil (by simp), ?_⟩
    rw [← List.append_assoc, htext]
    simp
  · obtain ⟨cs', ws, ds, hbefore, hws, hmembers, htext⟩ := hpre.members hv
    cases h
    refine ⟨cs', _, hbefore, .after (.element_of_value hws (.object hmembers)), ?_⟩
    rw [← List.append_assoc, htext]
    simp
  · cases h

end

/-- **One more character.** -/
theorem State.Holds.step {s t : State} {text : List Char} {c : Char} (h : s.Holds text)
    (hstep : step s c = some t) : t.Holds (text ++ [c]) := by
  obtain ⟨mode, fs⟩ := s
  obtain ⟨pre, ds, hpre, hreading, rfl⟩ := h
  unfold Json.step at hstep
  dsimp only at hstep hpre hreading
  rw [List.append_assoc]
  cases hreading with
  | value hws =>
    dsimp only at hstep
    split_ifs at hstep with hblank
    · cases hstep
      exact ⟨pre, _, hpre, .value (hws.snoc hblank), rfl⟩
    · exact holds_of_startValue hpre hws hstep
  | first hws hfs =>
    dsimp only at hstep
    split_ifs at hstep with hblank hclose
    · cases hstep
      exact ⟨pre, _, hpre, .first (hws.snoc hblank) hfs, rfl⟩
    · obtain ⟨gs, rfl⟩ := hfs
      cases hstep
      rw [hclose]
      cases hpre with
      | @firstItem _ cs ws h hws' =>
        refine ⟨cs, _, h, .after (.element_of_value hws' (.emptyArray hws)), ?_⟩
        simp
      | nextItem _ _ hitems => exact absurd rfl hitems.elements_ne_nil
    · exact holds_of_startValue hpre hws hstep
  | name hws hfs =>
    dsimp only at hstep
    split_ifs at hstep with hblank hquote hclose
    · cases hstep
      exact ⟨pre, _, hpre, .name (hws.snoc hblank) hfs, rfl⟩
    · cases hstep
      rw [hquote]
      exact ⟨pre, _, hpre, .string hws .nil, rfl⟩
    · obtain ⟨gs, rfl⟩ := hfs hclose.2
      cases hstep
      rw [hclose.1]
      cases hpre with
      | @firstMember _ cs ws h hws' =>
        refine ⟨cs, _, h, .after (.element_of_value hws' (.emptyObject hws)), ?_⟩
        simp
      | nextMember _ _ hmembers => exact absurd rfl hmembers.members_ne_nil
  | colon hws hname hws' =>
    dsimp only at hstep
    split_ifs at hstep with hblank hcolon
    · cases hstep
      refine ⟨pre, _, hpre, .colon hws hname (hws'.snoc hblank), ?_⟩
      simp
    · split at hstep
      · cases hstep
        rw [hcolon]
        refine ⟨_, [], .named hpre hws hname hws', .value isBlank_nil, ?_⟩
        simp
      · cases hstep
  | after hv => exact holds_of_afterValue hpre hv hstep
  | @string isName s ws cs hws hbody =>
    dsimp only at hstep
    split_ifs at hstep with hquote hname hslash hcontrol
    · cases hstep
      rw [hquote]
      refine ⟨pre, _, hpre, .colon hws hbody isBlank_nil, ?_⟩
      simp
    · cases hstep
      rw [hquote]
      refine ⟨pre, _, hpre, .after (.element_of_value hws (.string hbody)), ?_⟩
      simp
    · cases hstep
      rw [hslash]
      refine ⟨pre, _, hpre, .escape hws hbody, ?_⟩
      simp
    · cases hstep
      refine ⟨pre, _, hpre, .string hws (hbody.plain hquote hslash hcontrol), ?_⟩
      simp
  | escape hws hbody =>
    dsimp only at hstep
    split_ifs at hstep with hu
    · cases hstep
      rw [hu]
      refine ⟨pre, _, hpre, .hex hws hbody (by decide), ?_⟩
      simp
    · obtain ⟨u, hunescape, rfl⟩ := Option.map_eq_some_iff.mp hstep
      refine ⟨pre, _, hpre, .string hws (hbody.escape hunescape), ?_⟩
      simp
  | @hex isName s ws cs digits hws hbody hdigits =>
    dsimp only at hstep
    split_ifs at hstep with hmore
    · cases hstep
      have hlength : (digits ++ [c]).length < 4 := by
        rw [List.length_append, List.length_singleton]
        omega
      refine ⟨pre, _, hpre, .hex hws hbody hlength, ?_⟩
      simp
    · obtain ⟨n, hn, rfl⟩ := Option.map_eq_some_iff.mp hstep
      have hlength : (digits ++ [c]).length = 4 := by
        rw [List.length_append, List.length_singleton]
        omega
      refine ⟨pre, _, hpre, .string hws (hbody.hex hlength hn), ?_⟩
      simp
  | @word rest v ws cs hws hv =>
    dsimp only at hstep
    split at hstep
    · split_ifs at hstep with hc
      cases hstep
      rw [hc, List.append_assoc]
      exact ⟨pre, _, hpre, .after (.element_of_value hws hv), rfl⟩
    · next d ds _ =>
      split_ifs at hstep with hc
      cases hstep
      rw [hc, List.append_assoc]
      refine ⟨pre, _, hpre, .word hws ?_, rfl⟩
      rwa [List.append_assoc]
    · cases hstep
  | number hws hread =>
    dsimp only at hstep
    split at hstep
    · next phase' hnext =>
      cases hstep
      rw [List.append_assoc]
      exact ⟨pre, _, hpre, .number hws (hread.step hnext), rfl⟩
    · split_ifs at hstep with hcomplete
      exact holds_of_afterValue hpre
        (.element_of_value hws (.number (hread.isNumeral hcomplete))) hstep

theorem State.Holds.run {s t : State} {text cs : List Char} (h : s.Holds text)
    (hrun : run s cs = some t) : t.Holds (text ++ cs) := by
  induction cs generalizing s text with
  | nil =>
    cases hrun
    rwa [List.append_nil]
  | cons c cs ih =>
    unfold Json.run at hrun
    rw [List.foldlM_cons] at hrun
    obtain ⟨u, hu, hrest⟩ := Option.bind_eq_some_iff.mp hrun
    have hu' := ih (h.step hu) hrest
    rwa [List.append_assoc, List.singleton_append] at hu'

/-- **What is accepted is derived.** -/
theorem derives_of_parse {cs : List Char} {v : Json} (h : parse cs = some v) :
    Derives (.element v) cs := by
  unfold parse at h
  obtain ⟨s, hrun, hfinish⟩ := Option.bind_eq_some_iff.mp h
  have hstart : State.Holds ⟨.value, []⟩ [] := ⟨[], [], .top, .value isBlank_nil, rfl⟩
  obtain ⟨mode, fs⟩ := s
  obtain ⟨pre, ds, hpre, hreading, htext⟩ := hstart.run hrun
  rw [List.nil_append] at htext
  unfold finish at hfinish
  dsimp only at hfinish hpre hreading
  split at hfinish
  · cases hfinish
    cases hpre
    cases hreading with
    | after hv => rwa [htext, List.nil_append]
  · split_ifs at hfinish with hcomplete
    cases hfinish
    cases hpre
    cases hreading with
    | number hws hread =>
      rw [htext, List.nil_append]
      exact .element_of_value hws (.number (hread.isNumeral hcomplete))
  · cases hfinish

/-! ## Reading a text of the grammar -/

theorem foldlM_next_digits {phase : Phase} {cs : List Char}
    (h : ∀ c : Char, c.isDigit = Bool.true → phase.next c = some phase) (hcs : AllDigits cs) :
    cs.foldlM Phase.next phase = some phase := by
  induction cs with
  | nil => rfl
  | cons c cs ih =>
    rw [List.foldlM_cons, h c (hcs c List.mem_cons_self)]
    exact ih fun d hd => hcs d (List.mem_cons_of_mem c hd)

/-- Digits of which there is at least one. -/
theorem foldlM_next_someDigits {phase phase' : Phase} {cs : List Char}
    (hfirst : ∀ c : Char, c.isDigit = Bool.true → phase.next c = some phase')
    (h : ∀ c : Char, c.isDigit = Bool.true → phase'.next c = some phase') (hne : cs ≠ [])
    (hcs : AllDigits cs) : cs.foldlM Phase.next phase = some phase' := by
  cases cs with
  | nil => exact absurd rfl hne
  | cons c cs =>
    rw [List.foldlM_cons, hfirst c (hcs c List.mem_cons_self)]
    exact foldlM_next_digits h fun d hd => hcs d (List.mem_cons_of_mem c hd)

/-- The phases in which the integer part of a number has been read, or its fraction too. -/
theorem foldlM_next_exponent {phase : Phase} {cs : List Char} (h : IsExponent cs)
    (hphase : phase = .zero ∨ phase = .integer ∨ phase = .fraction) :
    ∃ last, cs.foldlM Phase.next phase = some last ∧ last.complete = Bool.true := by
  have hdigits : ∀ c : Char, c.isDigit = Bool.true → Phase.next .exponent c = some .exponent :=
    fun c hc => if_pos hc
  cases h with
  | none => rcases hphase with rfl | rfl | rfl <;> exact ⟨_, rfl, rfl⟩
  | @some mark sign cs hmark hsign hne hcs =>
    have hnext : phase.next mark = some .mark := by
      rcases hphase with rfl | rfl | rfl <;> rcases hmark with rfl | rfl <;> rfl
    have hsigned : cs.foldlM Phase.next .sign = some .exponent :=
      foldlM_next_someDigits (fun c hc => if_pos hc) hdigits hne hcs
    refine ⟨.exponent, ?_, rfl⟩
    rw [List.foldlM_cons, hnext]
    show (sign ++ cs).foldlM Phase.next .mark = some .exponent
    rcases hsign with rfl | rfl | rfl
    · exact foldlM_next_someDigits (fun c hc => if_pos hc) hdigits hne hcs
    · exact hsigned
    · exact hsigned

/-- The rest of a number, after its integer part. -/
theorem foldlM_next_fraction {phase : Phase} {fraction exponent : List Char}
    (hfraction : IsFraction fraction) (hexponent : IsExponent exponent)
    (hphase : phase = .zero ∨ phase = .integer) :
    ∃ last, (fraction ++ exponent).foldlM Phase.next phase = some last ∧
      last.complete = Bool.true := by
  cases hfraction with
  | none => exact foldlM_next_exponent hexponent (hphase.imp_right Or.inl)
  | @some cs hne hcs =>
    have hpoint : phase.next '.' = some .point := by
      rcases hphase with rfl | rfl <;> rfl
    have hcs' : cs.foldlM Phase.next .point = some .fraction :=
      foldlM_next_someDigits (fun c hc => if_pos hc) (fun c hc => if_pos hc) hne hcs
    rw [List.cons_append, List.foldlM_cons, hpoint]
    show ∃ last, (cs ++ exponent).foldlM Phase.next .point = some last ∧ _
    rw [List.foldlM_append, hcs']
    exact foldlM_next_exponent hexponent (Or.inr (Or.inr rfl))

/-- What a number begins with, and that it is read to its end. -/
theorem IsNumeral.isNumber {cs : List Char} (h : IsNumeral cs) : IsNumber cs := by
  obtain ⟨hsign, hinteger, hfraction, hexponent⟩ := h
  rename_i sign integer fraction exponent
  -- after the sign, or where a number begins
  have hrest : ∃ c ds phase, integer ++ (fraction ++ exponent) = c :: ds ∧
      startNumber c = some phase ∧ Phase.next .minus c = some phase ∧
      ∃ last, ds.foldlM Phase.next phase = some last ∧ last.complete = Bool.true := by
    cases hinteger with
    | zero =>
      exact ⟨'0', fraction ++ exponent, .zero, rfl, rfl, rfl,
        foldlM_next_fraction hfraction hexponent (Or.inl rfl)⟩
    | @positive c cs hc hzero hcs =>
      have hminus : c ≠ '-' := by
        rintro rfl
        cases hc
      refine ⟨c, cs ++ (fraction ++ exponent), .integer, rfl, ?_, ?_, ?_⟩
      · unfold startNumber
        rw [if_neg hminus, if_neg hzero, if_pos hc]
      · unfold Phase.next
        dsimp only
        rw [if_neg hzero, if_pos hc]
      · have hdigits : cs.foldlM Phase.next .integer = some .integer :=
          foldlM_next_digits (fun d hd => if_pos hd) hcs
        rw [List.foldlM_append, hdigits]
        exact foldlM_next_fraction hfraction hexponent (Or.inr rfl)
  obtain ⟨c, ds, phase, htext, hstart, hminus, last, hlast, hcomplete⟩ := hrest
  rw [htext]
  rcases hsign with rfl | rfl
  · exact ⟨phase, last, hstart, hlast, hcomplete⟩
  · refine ⟨.minus, last, rfl, ?_, hcomplete⟩
    show (c :: ds).foldlM Phase.next .minus = some last
    rw [List.foldlM_cons, hminus]
    exact hlast

/-- What stands between quotation marks is read as the string. -/
theorem Body.run {s : JsString} {cs : List Char} (h : Body s cs) (isName : Bool)
    (fs : List Frame) : run ⟨.string isName [], fs⟩ cs = some ⟨.string isName s, fs⟩ := by
  induction h with
  | nil => rfl
  | @plain s cs c _ hquote hslash hcontrol ih =>
    rw [run_append_of_run ih, run_cons (step_string hquote hslash hcontrol)]
    rfl
  | @escape s cs c u _ hc ih =>
    have hu : c ≠ 'u' := by
      rintro rfl
      cases hc
    have hescape : Json.step ⟨.escape isName s, fs⟩ c = some ⟨.string isName (s ++ [u]), fs⟩ := by
      unfold Json.step
      dsimp only
      rw [if_neg hu, hc, Option.map_some]
    have hslash : Json.step ⟨.string isName s, fs⟩ '\\' = some ⟨.escape isName s, fs⟩ := rfl
    rw [run_append_of_run ih, run_cons hslash, run_cons hescape]
    rfl
  | @hex s cs ds n _ hlength hds ih =>
    have hslash : Json.step ⟨.string isName s, fs⟩ '\\' = some ⟨.escape isName s, fs⟩ := rfl
    have hu : Json.step ⟨.escape isName s, fs⟩ 'u' = some ⟨.hex isName s [], fs⟩ := rfl
    have hne : ds ≠ [] := by
      rintro rfl
      cases hlength
    rw [run_append_of_run ih, run_cons hslash, run_cons hu,
      run_hex isName s fs (by rw [List.length_nil, Nat.zero_add, hlength]) hne, List.nil_append,
      hds, Option.map_some]

/-! ### Blanks -/

theorem run_blank {mode : Mode} {fs : List Frame} {ws : List Char} (hws : IsBlank ws)
    (h : ∀ c, isWhitespace c = Bool.true → step ⟨mode, fs⟩ c = some ⟨mode, fs⟩) :
    run ⟨mode, fs⟩ ws = some ⟨mode, fs⟩ := by
  induction ws with
  | nil => rfl
  | cons c ws ih =>
    rw [run_cons (h c (hws c List.mem_cons_self))]
    exact ih fun d hd => hws d (List.mem_cons_of_mem c hd)

theorem next_of_isWhitespace {c : Char} (hc : isWhitespace c = Bool.true) (phase : Phase) :
    phase.next c = none := by
  unfold isWhitespace at hc
  simp only [Bool.or_eq_true, decide_eq_true_eq] at hc
  rcases hc with ((rfl | rfl) | rfl) | rfl <;> cases phase <;> rfl

/-- Blanks after a value. -/
theorem Ends.run_blank {fs : List Frame} {v : Json} {s : State} (h : Ends fs v s)
    {ws : List Char} (hws : IsBlank ws) : ∃ t, run s ws = some t ∧ Ends fs v t := by
  have hafter : ∀ c, isWhitespace c = Bool.true → afterValue v fs c = some ⟨.after v, fs⟩ :=
    fun c hc => if_pos hc
  cases ws with
  | nil => exact ⟨s, rfl, h⟩
  | cons c ws =>
    have hc := hws c List.mem_cons_self
    have hstep : Json.step s c = some ⟨.after v, fs⟩ := by
      cases h with
      | after => exact hafter c hc
      | number literal hcomplete =>
        unfold Json.step
        dsimp only
        rw [next_of_isWhitespace hc]
        dsimp only
        rw [if_pos hcomplete]
        exact hafter c hc
    refine ⟨_, ?_, .after v⟩
    rw [run_cons hstep]
    exact Json.run_blank (fun d hd => hws d (List.mem_cons_of_mem c hd)) hafter

/-! ### The productions -/

/-- What the reader makes of a part of a text, where such a part may stand. -/
def Part.Read (cs : List Char) : Part → Prop
  | .value v => ∀ fs, ∃ s, run ⟨.value, fs⟩ cs = some s ∧ Ends fs v s
  | .element v => ∀ fs mode, mode = .value ∨ mode = .first →
      ∃ s, run ⟨mode, fs⟩ cs = some s ∧ Ends fs v s
  | .elements vs => ∀ fs, ∃ init v s, vs = init ++ [v] ∧
      run ⟨.first, .array [] :: fs⟩ cs = some s ∧ Ends (.array init :: fs) v s
  | .member m => ∀ empty fs members, ∃ s,
      run ⟨.name empty, .object members :: fs⟩ cs = some s ∧ Ends (.entry members m.1 :: fs) m.2 s
  | .members ms => ∀ fs, ∃ init m s, ms = init ++ [m] ∧
      run ⟨.name Bool.true, .object [] :: fs⟩ cs = some s ∧ Ends (.entry init m.1 :: fs) m.2 s

/-- A value begins neither with a blank nor with the end of an array. -/
theorem Derives.exists_cons {v : Json} {cs : List Char} (h : Derives (.value v) cs) :
    ∃ c ds, cs = c :: ds ∧ isWhitespace c = Bool.false ∧ c ≠ ']' := by
  cases h with
  | number hcs =>
    cases cs with
    | nil => exact hcs.isNumber.elim
    | cons c ds =>
      obtain ⟨first, last, hfirst, -⟩ := hcs.isNumber
      exact ⟨c, ds, rfl, not_isWhitespace_of_startNumber hfirst, ne_of_startNumber hfirst rfl⟩
  | _ => exact ⟨_, _, rfl, rfl, by decide⟩

theorem run_first_eq {fs : List Frame} {c : Char} (cs : List Char)
    (hc : isWhitespace c = Bool.false) (hclose : c ≠ ']') :
    run ⟨.first, fs⟩ (c :: cs) = run ⟨.value, fs⟩ (c :: cs) := by
  have hstep : step ⟨.first, fs⟩ c = step ⟨.value, fs⟩ c := by
    unfold Json.step
    dsimp only
    rw [hc, if_neg (by decide), if_neg hclose, if_neg (by decide)]
  unfold run
  rw [List.foldlM_cons, List.foldlM_cons, hstep]

/-- **Every part of a text is read.** -/
theorem Derives.read {part : Part} {cs : List Char} (h : Derives part cs) : part.Read cs := by
  induction h with
  | null => exact fun fs => ⟨_, rfl, .after _⟩
  | true => exact fun fs => ⟨_, rfl, .after _⟩
  | false => exact fun fs => ⟨_, rfl, .after _⟩
  | number h => exact reads_number h.isNumber
  | @string s cs h =>
    intro fs
    have hopen : Json.step ⟨.value, fs⟩ '"' = some ⟨.string Bool.false [], fs⟩ := rfl
    refine ⟨⟨.after (.string s), fs⟩, ?_, .after _⟩
    rw [run_cons hopen, run_append_of_run (h.run Bool.false fs)]
    rfl
  | @emptyArray ws h =>
    intro fs
    have hopen : Json.step ⟨.value, fs⟩ '[' = some ⟨.first, .array [] :: fs⟩ := rfl
    have hblank : run ⟨.first, .array [] :: fs⟩ ws = some ⟨.first, .array [] :: fs⟩ :=
      Json.run_blank h fun c hc => if_pos hc
    refine ⟨⟨.after (.array []), fs⟩, ?_, .after _⟩
    rw [run_cons hopen, run_append_of_run hblank]
    rfl
  | @array vs cs _ ih =>
    intro fs
    obtain ⟨init, v, s, rfl, hrun, hends⟩ := ih fs
    have hopen : Json.step ⟨.value, fs⟩ '[' = some ⟨.first, .array [] :: fs⟩ := rfl
    have hclose := hends.step (c := ']') (.inr (.inl rfl))
    refine ⟨⟨.after (.array (init ++ [v])), fs⟩, ?_, .after _⟩
    rw [run_cons hopen, run_append_of_run hrun, run_cons hclose]
    rfl
  | @emptyObject ws h =>
    intro fs
    have hopen : Json.step ⟨.value, fs⟩ '\x7b' =
        some ⟨.name Bool.true, .object [] :: fs⟩ := rfl
    have hblank : run ⟨.name Bool.true, .object [] :: fs⟩ ws =
        some ⟨.name Bool.true, .object [] :: fs⟩ := Json.run_blank h fun c hc => if_pos hc
    refine ⟨⟨.after (.object []), fs⟩, ?_, .after _⟩
    rw [run_cons hopen, run_append_of_run hblank]
    rfl
  | @object ms cs _ ih =>
    intro fs
    obtain ⟨init, m, s, rfl, hrun, hends⟩ := ih fs
    have hopen : Json.step ⟨.value, fs⟩ '\x7b' =
        some ⟨.name Bool.true, .object [] :: fs⟩ := rfl
    have hclose := hends.step (c := '\x7d') (.inr (.inr rfl))
    refine ⟨⟨.after (.object (init ++ [m])), fs⟩, ?_, .after _⟩
    rw [run_cons hopen, run_append_of_run hrun, run_cons hclose]
    rfl
  | @element v ws cs ws' hws hv hws' ih =>
    intro fs mode hmode
    obtain ⟨s, hrun, hends⟩ := ih fs
    obtain ⟨t, hafter, ht⟩ := hends.run_blank hws'
    obtain ⟨c, ds, rfl, hc, hclose⟩ := hv.exists_cons
    have hblank : run ⟨mode, fs⟩ ws = some ⟨mode, fs⟩ := by
      rcases hmode with rfl | rfl <;> exact Json.run_blank hws fun c hc => if_pos hc
    have hvalue : run ⟨mode, fs⟩ (c :: (ds ++ ws')) = run ⟨.value, fs⟩ (c :: (ds ++ ws')) := by
      rcases hmode with rfl | rfl
      · rfl
      · exact run_first_eq _ hc hclose
    refine ⟨t, ?_, ht⟩
    rw [run_append_of_run hblank, List.cons_append, hvalue, ← List.cons_append,
      run_append_of_run hrun, hafter]
  | @one v cs _ ih =>
    intro fs
    obtain ⟨s, hrun, hends⟩ := ih (.array [] :: fs) .first (Or.inr rfl)
    exact ⟨[], v, s, rfl, hrun, hends⟩
  | @more vs v cs ds _ _ ihvs ihv =>
    intro fs
    obtain ⟨init, u, s, rfl, hrun, hends⟩ := ihvs fs
    obtain ⟨t, hrun', hends'⟩ := ihv (.array (init ++ [u]) :: fs) .value (Or.inl rfl)
    have hcomma := hends.step (c := ',') (.inl rfl)
    refine ⟨init ++ [u], v, t, rfl, ?_, hends'⟩
    rw [run_append_of_run hrun, run_cons hcomma, hrun']
  | @member name v ws cs ws' ds hws hname hws' _ ih =>
    intro empty fs members
    obtain ⟨t, hrun, hends⟩ := ih (.entry members name :: fs) .value (Or.inl rfl)
    have hopen : Json.step ⟨.name empty, .object members :: fs⟩ '"' =
        some ⟨.string Bool.true [], .object members :: fs⟩ := rfl
    have hquote : Json.step ⟨.string Bool.true name, .object members :: fs⟩ '"' =
        some ⟨.colon name, .object members :: fs⟩ := rfl
    have hcolon : Json.step ⟨.colon name, .object members :: fs⟩ ':' =
        some ⟨.value, .entry members name :: fs⟩ := rfl
    have hblank : run ⟨.name empty, .object members :: fs⟩ ws =
        some ⟨.name empty, .object members :: fs⟩ := Json.run_blank hws fun c hc => if_pos hc
    have hblank' : run ⟨.colon name, .object members :: fs⟩ ws' =
        some ⟨.colon name, .object members :: fs⟩ := Json.run_blank hws' fun c hc => if_pos hc
    refine ⟨t, ?_, hends⟩
    rw [run_append_of_run hblank, run_cons hopen, run_append_of_run (hname.run Bool.true _),
      run_cons hquote, run_append_of_run hblank', run_cons hcolon, hrun]
  | @oneMember m cs _ ih =>
    intro fs
    obtain ⟨s, hrun, hends⟩ := ih Bool.true fs []
    exact ⟨[], m, s, rfl, hrun, hends⟩
  | @moreMembers ms m cs ds _ _ ihms ihm =>
    intro fs
    obtain ⟨init, m', s, rfl, hrun, hends⟩ := ihms fs
    obtain ⟨t, hrun', hends'⟩ := ihm Bool.false fs (init ++ [m'])
    have hcomma := hends.step (c := ',') (.inl rfl)
    refine ⟨init ++ [m'], m, t, rfl, ?_, hends'⟩
    rw [run_append_of_run hrun, run_cons hcomma]
    exact hrun'

/-- **The reader accepts the texts of the grammar**, and with the value they derive. -/
theorem parse_eq_some_iff {cs : List Char} {v : Json} :
    parse cs = some v ↔ Derives (.element v) cs := by
  refine ⟨derives_of_parse, fun h => ?_⟩
  obtain ⟨s, hrun, hends⟩ := h.read [] .value (Or.inl rfl)
  unfold parse
  rw [hrun, Option.bind_some, hends.finish]

/-! ## Reading a property -/

/-- The last member with a name, and its value. -/
def LastNamed (members : List (JsString × Json)) (name : String) (v : Json) : Prop :=
  ∃ before after, members = before ++ (JsString.ofString name, v) :: after ∧
    ∀ m ∈ after, m.1 ≠ JsString.ofString name

theorem get?_object_iff {members : List (JsString × Json)} {name : String} {v : Json} :
    (Json.object members).get? name = some v ↔ LastNamed members name v := by
  unfold get? LastNamed
  dsimp only
  rw [Option.map_eq_some_iff]
  constructor
  · rintro ⟨m, hm, rfl⟩
    obtain ⟨hname, as, bs, hreverse, has⟩ := List.find?_eq_some_iff_append.mp hm
    refine ⟨bs.reverse, as.reverse, ?_, fun x hx => ?_⟩
    · rw [← of_decide_eq_true hname, ← List.reverse_reverse members, hreverse,
        List.reverse_append, List.reverse_cons, List.append_assoc]
      rfl
    · simpa using has x (List.mem_reverse.mp hx)
  · rintro ⟨bs, as, rfl, has⟩
    refine ⟨(JsString.ofString name, v), List.find?_eq_some_iff_append.mpr
      ⟨decide_eq_true rfl, as.reverse, bs.reverse, ?_, fun x hx => ?_⟩, rfl⟩
    · rw [List.reverse_append, List.reverse_cons, List.append_assoc]
      rfl
    · simpa using has x (List.mem_reverse.mp hx)

/-- Only objects have properties. -/
theorem exists_object_of_get? {v w : Json} {name : String} (h : v.get? name = some w) :
    ∃ members, v = .object members := by
  cases v with
  | object members => exact ⟨members, rfl⟩
  | _ => cases h

end Json
end Text
end GroupChat

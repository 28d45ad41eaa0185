import GroupChat.Text.Digits
import GroupChat.Text.JsString

/-!
# JSON

`parse` reads a text as a JSON value.  It is a machine that reads one character
at a time: the state is what is expected next together with the arrays and
objects that are still open, so nesting of any depth needs no recursion.
`stringifyRecord` writes the one kind of value the program writes, an object
whose members are strings.

`parse_stringifyRecord` is the round trip, for strings of any code units at all.
The work is in `run_quote`: what is written for a string, read after its opening
quotation mark, is the string.
-/

namespace GroupChat
namespace Text

/-- A JSON value. -/
inductive Json where
  | null
  | bool (b : Bool)
  /-- A number, as it was written. -/
  | number (literal : List Char)
  | string (s : JsString)
  | array (items : List Json)
  /-- The members in the order they were written; a name may repeat. -/
  | object (members : List (JsString × Json))

namespace Json

/-- Reading a property: of a repeated name the last member counts, and values
that are not objects have none of the names the program asks for. -/
def get? (v : Json) (name : String) : Option Json :=
  match v with
  | .object members =>
    (members.reverse.find? fun m => m.1 = JsString.ofString name).map Prod.snd
  | _ => none

/-! ## Reading -/

/-- An array or object whose end has not been read. -/
inductive Frame where
  | array (items : List Json)
  | object (members : List (JsString × Json))
  /-- An object, before the value of a name. -/
  | entry (members : List (JsString × Json)) (name : JsString)

/-- Which part of a number has been read. -/
inductive Phase where
  | minus
  | zero
  | integer
  | point
  | fraction
  | mark
  | sign
  | exponent

/-- The number may end here. -/
def Phase.complete : Phase → Bool
  | .zero | .integer | .fraction | .exponent => true
  | .minus | .point | .mark | .sign => false

/-- The part of a number a further character belongs to. -/
def Phase.next (phase : Phase) (c : Char) : Option Phase :=
  match phase with
  | .minus => if c = '0' then some .zero else if c.isDigit then some .integer else none
  | .zero => fractionOrExponent
  | .integer => if c.isDigit then some .integer else fractionOrExponent
  | .point => if c.isDigit then some .fraction else none
  | .fraction =>
    if c.isDigit then some .fraction else if c = 'e' ∨ c = 'E' then some .mark else none
  | .mark =>
    if c.isDigit then some .exponent else if c = '+' ∨ c = '-' then some .sign else none
  | .sign => if c.isDigit then some .exponent else none
  | .exponent => if c.isDigit then some .exponent else none
where
  fractionOrExponent : Option Phase :=
    if c = '.' then some .point else if c = 'e' ∨ c = 'E' then some .mark else none

/-- What is being read. -/
inductive Mode where
  /-- A value is expected. -/
  | value
  /-- A value, or the end of an empty array. -/
  | first
  /-- A name is expected; `empty` says the object may also end here. -/
  | name (empty : Bool)
  | colon (name : JsString)
  /-- A value has been read. -/
  | after (v : Json)
  /-- Inside a string, which is a name or a value. -/
  | string (isName : Bool) (read : JsString)
  /-- After a backslash. -/
  | escape (isName : Bool) (read : JsString)
  /-- Inside the four digits of an escape. -/
  | hex (isName : Bool) (read : JsString) (digits : List Char)
  /-- Inside one of the three words. -/
  | word (rest : List Char) (v : Json)
  | number (literal : List Char) (phase : Phase)

/-- What is being read, and what is open around it, innermost first. -/
structure State where
  mode : Mode
  frames : List Frame

/-- The four characters between tokens that mean nothing. -/
def isWhitespace (c : Char) : Bool := c = ' ' || c = '\t' || c = '\n' || c = '\r'

/-- The unit a one-letter escape stands for. -/
def unescape (c : Char) : Option CodeUnit :=
  match c with
  | '"' => some 0x22
  | '\\' => some 0x5C
  | '/' => some 0x2F
  | 'b' => some 0x08
  | 'f' => some 0x0C
  | 'n' => some 0x0A
  | 'r' => some 0x0D
  | 't' => some 0x09
  | _ => none

/-- Start reading a value. -/
def startValue (fs : List Frame) (c : Char) : Option State :=
  match c with
  | '{' => some ⟨.name true, .object [] :: fs⟩
  | '[' => some ⟨.first, .array [] :: fs⟩
  | '"' => some ⟨.string false [], fs⟩
  | 't' => some ⟨.word ['r', 'u', 'e'] (.bool true), fs⟩
  | 'f' => some ⟨.word ['a', 'l', 's', 'e'] (.bool false), fs⟩
  | 'n' => some ⟨.word ['u', 'l', 'l'] .null, fs⟩
  | '-' => some ⟨.number ['-'] .minus, fs⟩
  | '0' => some ⟨.number ['0'] .zero, fs⟩
  | _ => if c.isDigit then some ⟨.number [c] .integer, fs⟩ else none

/-- Read a character after a value. -/
def afterValue (v : Json) (fs : List Frame) (c : Char) : Option State :=
  if isWhitespace c then some ⟨.after v, fs⟩
  else
    match fs, c with
    | .array items :: fs, ',' => some ⟨.value, .array (items ++ [v]) :: fs⟩
    | .array items :: fs, ']' => some ⟨.after (.array (items ++ [v])), fs⟩
    | .entry members name :: fs, ',' => some ⟨.name false, .object (members ++ [(name, v)]) :: fs⟩
    | .entry members name :: fs, '}' => some ⟨.after (.object (members ++ [(name, v)])), fs⟩
    | _, _ => none

/-- Read one character. -/
def step (s : State) (c : Char) : Option State :=
  match s.mode with
  | .value => if isWhitespace c then some s else startValue s.frames c
  | .first =>
    if isWhitespace c then some s
    else if c = ']' then
      match s.frames with
      | .array items :: fs => some ⟨.after (.array items), fs⟩
      | _ => none
    else startValue s.frames c
  | .name empty =>
    if isWhitespace c then some s
    else if c = '"' then some ⟨.string true [], s.frames⟩
    else if c = '}' ∧ empty then
      match s.frames with
      | .object members :: fs => some ⟨.after (.object members), fs⟩
      | _ => none
    else none
  | .colon name =>
    if isWhitespace c then some s
    else if c = ':' then
      match s.frames with
      | .object members :: fs => some ⟨.value, .entry members name :: fs⟩
      | _ => none
    else none
  | .after v => afterValue v s.frames c
  | .string isName read =>
    if c = '"' then some ⟨if isName then .colon read else .after (.string read), s.frames⟩
    else if c = '\\' then some ⟨.escape isName read, s.frames⟩
    else if c.toNat < 0x20 then none
    else some ⟨.string isName (read ++ unitsOfChar c), s.frames⟩
  | .escape isName read =>
    if c = 'u' then some ⟨.hex isName read [], s.frames⟩
    else (unescape c).map fun u => ⟨.string isName (read ++ [u]), s.frames⟩
  | .hex isName read digits =>
    if digits.length < 3 then some ⟨.hex isName read (digits ++ [c]), s.frames⟩
    else (Text.parse 16 (digits ++ [c])).map fun n =>
      ⟨.string isName (read ++ [UInt16.ofNat n]), s.frames⟩
  | .word rest v =>
    match rest with
    | [d] => if c = d then some ⟨.after v, s.frames⟩ else none
    | d :: ds => if c = d then some ⟨.word ds v, s.frames⟩ else none
    | [] => none
  | .number literal phase =>
    match phase.next c with
    | some phase => some ⟨.number (literal ++ [c]) phase, s.frames⟩
    | none => if phase.complete then afterValue (.number literal) s.frames c else none

/-- Read several characters. -/
def run (s : State) (cs : List Char) : Option State := cs.foldlM step s

/-- The value that has been read, if the text may end here. -/
def finish (s : State) : Option Json :=
  match s.frames, s.mode with
  | [], .after v => some v
  | [], .number literal phase => if phase.complete then some (.number literal) else none
  | _, _ => none

/-- The value of a text, if it is JSON. -/
def parse (cs : List Char) : Option Json := (run ⟨.value, []⟩ cs).bind finish

/-! ## Writing -/

/-- An escape with four digits. -/
def hexEscape (n : ℕ) : List Char := '\\' :: 'u' :: render 16 4 n

/-- What is written for a character of a string. -/
def escapeChar (c : Char) : List Char :=
  match c with
  | '"' => ['\\', '"']
  | '\\' => ['\\', '\\']
  | '\x08' => ['\\', 'b']
  | '\x0c' => ['\\', 'f']
  | '\n' => ['\\', 'n']
  | '\r' => ['\\', 'r']
  | '\t' => ['\\', 't']
  | _ => if c.toNat < 0x20 then hexEscape c.toNat else [c]

/-- What is written for an element of a string. -/
def escapeScalar : Scalar → List Char
  | .char c => escapeChar c
  | .stray u => hexEscape u.toNat

/-- A string between quotation marks. -/
def quote (s : JsString) : List Char := '"' :: (scalars s).flatMap escapeScalar ++ ['"']

/-- One member of an object. -/
def writeMember (m : String × JsString) : List Char :=
  quote (JsString.ofString m.1) ++ ':' :: quote m.2

/-- `JSON.stringify` of an object whose members are strings. -/
def stringifyRecord (members : List (String × JsString)) : List Char :=
  '{' :: [','].intercalate (members.map writeMember) ++ ['}']

/-- The value that is written. -/
def ofRecord (members : List (String × JsString)) : Json :=
  .object (members.map fun m => (JsString.ofString m.1, .string m.2))

/-! ## Reading back -/

theorem run_append (s : State) (cs ds : List Char) :
    run s (cs ++ ds) = (run s cs).bind fun t => run t ds :=
  List.foldlM_append

theorem run_cons {s t : State} {c : Char} (h : step s c = some t) (cs : List Char) :
    run s (c :: cs) = run t cs := by
  unfold run
  rw [List.foldlM_cons, h]
  rfl

theorem run_append_of_run {s t : State} {cs : List Char} (h : run s cs = some t)
    (ds : List Char) : run s (cs ++ ds) = run t ds := by
  rw [run_append, h, Option.bind_some]

/-- The digits of an escape are read together once the last of them is there. -/
theorem run_hex (isName : Bool) (read : JsString) (fs : List Frame) {ds cs : List Char}
    (hlength : ds.length + cs.length = 4) (hcs : cs ≠ []) :
    run ⟨.hex isName read ds, fs⟩ cs = (Text.parse 16 (ds ++ cs)).map fun n =>
      ⟨.string isName (read ++ [UInt16.ofNat n]), fs⟩ := by
  induction cs generalizing ds with
  | nil => exact absurd rfl hcs
  | cons c cs ih =>
    rw [List.length_cons] at hlength
    by_cases hnil : cs = []
    · subst hnil
      rw [List.length_nil] at hlength
      unfold run
      rw [List.foldlM_cons]
      unfold step
      dsimp only
      rw [if_neg (by omega)]
      cases Text.parse 16 (ds ++ [c]) with
      | none => rfl
      | some n => rfl
    · have hlen : cs.length ≠ 0 := fun h => hnil (List.eq_nil_of_length_eq_zero h)
      have hstep : step ⟨.hex isName read ds, fs⟩ c = some ⟨.hex isName read (ds ++ [c]), fs⟩ := by
        unfold step
        dsimp only
        rw [if_pos (by omega)]
      rw [run_cons hstep, ih (by rw [List.length_append, List.length_singleton]; omega) hnil,
        List.append_assoc, List.singleton_append]

theorem run_hexEscape (isName : Bool) (read : JsString) (fs : List Frame) {n : ℕ}
    (h : n < 0x10000) :
    run ⟨.string isName read, fs⟩ (hexEscape n) =
      some ⟨.string isName (read ++ [UInt16.ofNat n]), fs⟩ := by
  have hlength : (render 16 4 n).length = 4 := length_render 16 4 n
  have hne : render 16 4 n ≠ [] := fun hnil => by rw [hnil] at hlength; cases hlength
  have hback : Text.parse 16 (render 16 4 n) = some n := by
    rw [parse_render (by omega) (by omega), Nat.mod_eq_of_lt (by omega)]
  unfold hexEscape
  have hslash : step ⟨.string isName read, fs⟩ '\\' = some ⟨.escape isName read, fs⟩ := rfl
  have hu : step ⟨.escape isName read, fs⟩ 'u' = some ⟨.hex isName read [], fs⟩ := rfl
  rw [run_cons hslash, run_cons hu, run_hex _ _ _ (by rw [hlength]; rfl) hne, List.nil_append,
    hback]
  rfl

/-- A character that needs no escape is read as itself. -/
theorem step_string {isName : Bool} {read : JsString} {fs : List Frame} {c : Char}
    (hquote : c ≠ '"') (hslash : c ≠ '\\') (hcontrol : ¬c.toNat < 0x20) :
    step ⟨.string isName read, fs⟩ c = some ⟨.string isName (read ++ unitsOfChar c), fs⟩ := by
  unfold step
  dsimp only
  rw [if_neg hquote, if_neg hslash, if_neg hcontrol]

theorem run_escapeScalar (isName : Bool) (read : JsString) (fs : List Frame) (x : Scalar) :
    run ⟨.string isName read, fs⟩ (escapeScalar x) =
      some ⟨.string isName (read ++ x.units), fs⟩ := by
  cases x with
  | stray u =>
    unfold escapeScalar
    rw [run_hexEscape _ _ _ u.toNat_lt, UInt16.ofNat_toNat]
    rfl
  | char c =>
    unfold escapeScalar escapeChar
    dsimp only
    split
    · rfl
    · rfl
    · rfl
    · rfl
    · rfl
    · rfl
    · rfl
    · next hquote hslash _ _ _ _ _ =>
      split_ifs with hcontrol
      · rw [run_hexEscape _ _ _ (by omega)]
        have hunits : Scalar.units (.char c) = [UInt16.ofNat c.toNat] := if_pos (by omega)
        rw [hunits]
      · rw [run_cons (step_string hquote hslash hcontrol)]
        rfl

/-- **A written string reads back as the string**, after its opening quotation
mark. -/
theorem run_quote (isName : Bool) (fs : List Frame) (s : JsString) :
    run ⟨.string isName [], fs⟩ ((scalars s).flatMap escapeScalar ++ ['"']) =
      some ⟨if isName then .colon s else .after (.string s), fs⟩ := by
  have hbody : ∀ (xs : List Scalar) (read : JsString),
      run ⟨.string isName read, fs⟩ (xs.flatMap escapeScalar) =
        some ⟨.string isName (read ++ xs.flatMap Scalar.units), fs⟩ := by
    intro xs
    induction xs with
    | nil =>
      intro read
      show some _ = some (State.mk (.string isName (read ++ [])) fs)
      rw [List.append_nil]
    | cons x xs ih =>
      intro read
      rw [List.flatMap_cons, List.flatMap_cons,
        run_append_of_run (run_escapeScalar isName read fs x), ih, List.append_assoc]
  rw [run_append_of_run (hbody _ []), List.nil_append, flatMap_units_scalars]
  rfl

/-- A member of an object, from before its name to after its value. -/
theorem run_writeMember (empty : Bool) (members : List (JsString × Json)) (fs : List Frame)
    (m : String × JsString) :
    run ⟨.name empty, .object members :: fs⟩ (writeMember m) =
      some ⟨.after (.string m.2), .entry members (JsString.ofString m.1) :: fs⟩ := by
  unfold writeMember quote
  have hopen : step ⟨.name empty, .object members :: fs⟩ '"' =
      some ⟨.string true [], .object members :: fs⟩ := rfl
  have hname := run_quote true (.object members :: fs) (JsString.ofString m.1)
  rw [if_pos rfl] at hname
  have hcolon : step ⟨.colon (JsString.ofString m.1), .object members :: fs⟩ ':' =
      some ⟨.value, .entry members (JsString.ofString m.1) :: fs⟩ := rfl
  have hvalue : step ⟨.value, .entry members (JsString.ofString m.1) :: fs⟩ '"' =
      some ⟨.string false [], .entry members (JsString.ofString m.1) :: fs⟩ := rfl
  rw [List.cons_append, List.cons_append, run_cons hopen, run_append_of_run hname,
    run_cons hcolon, List.cons_append, run_cons hvalue, run_quote]
  rfl

/-- The members of an object, from before the first name to the closing brace. -/
theorem run_members (empty : Bool) (read : List (JsString × Json)) (m : String × JsString)
    (ms : List (String × JsString)) :
    run ⟨.name empty, [.object read]⟩ ([','].intercalate ((m :: ms).map writeMember) ++ ['}']) =
      some ⟨.after (.object
        (read ++ (m :: ms).map fun m => (JsString.ofString m.1, .string m.2))), []⟩ := by
  induction ms generalizing empty read m with
  | nil =>
    rw [List.map_singleton, List.intercalate_singleton,
      run_append_of_run (run_writeMember empty read [] m)]
    rfl
  | cons m' ms ih =>
    have hcomma : step ⟨.after (.string m.2), [.entry read (JsString.ofString m.1)]⟩ ',' =
        some ⟨.name false, [.object (read ++ [(JsString.ofString m.1, .string m.2)])]⟩ := rfl
    rw [List.map_cons, List.map_cons, List.intercalate_cons_cons, List.append_assoc,
      List.append_assoc, run_append_of_run (run_writeMember empty read [] m),
      List.singleton_append, run_cons hcomma, ← List.map_cons, ih, List.append_assoc,
      List.singleton_append]
    rfl

/-- **Round trip.**  An object that was written reads back as the object. -/
theorem parse_stringifyRecord (m : String × JsString) (ms : List (String × JsString)) :
    parse (stringifyRecord (m :: ms)) = some (ofRecord (m :: ms)) := by
  have hopen : step ⟨.value, []⟩ '{' = some ⟨.name true, [.object []]⟩ := rfl
  unfold parse stringifyRecord
  rw [List.cons_append, run_cons hopen, run_members, List.nil_append]
  rfl

/-- Reading a property of an object that was written. -/
theorem get?_ofRecord (members : List (String × JsString)) (name : String) :
    (ofRecord members).get? name =
      (members.reverse.find? fun m => JsString.ofString m.1 = JsString.ofString name).map
        fun m => .string m.2 := by
  unfold get? ofRecord
  dsimp only
  rw [← List.map_reverse, List.find?_map, Option.map_map]
  rfl

end Json
end Text
end GroupChat

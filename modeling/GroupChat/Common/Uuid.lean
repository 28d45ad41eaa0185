import GroupChat.Common.Exception
import GroupChat.Database.Column
import GroupChat.Text.Digits

/-!
# Spellings of an identifier

An identifier travels as a text and is stored as sixteen bytes.  `isUuid` asks
for the shape `8-4-4-4-12` of hexadecimal digits in either letter case, and
`parseUuidPipe` hands an accepted text on as it came.  The database reads the
digits (`readUuid`) and prints an identifier in lower case (`printUuid`), so an
identifier has many accepted spellings and one printed one.

`eq_printUuid_iff` says which spelling is the printed one: the one without an
upper-case letter.  That is a condition on the text alone, and what keeps two
texts for one identifier apart.
-/

namespace GroupChat
namespace Common

open Database Text

/-! ## The shape -/

/-- What one character of the pattern asks for. -/
inductive Slot where
  | hexDigit
  | dash
deriving DecidableEq

/-- `UUID_RE`, character by character: the pattern has a fixed length. -/
def uuidRe : List Slot :=
  List.replicate 8 .hexDigit ++ .dash :: List.replicate 4 .hexDigit ++
    .dash :: List.replicate 4 .hexDigit ++ .dash :: List.replicate 4 .hexDigit ++
    .dash :: List.replicate 12 .hexDigit

/-- The text matches the pattern from its first character to its last. -/
def fits : List Slot → List Char → Bool
  | [], [] => true
  | .hexDigit :: slots, c :: cs => (digitOf 16 c).isSome && fits slots cs
  | .dash :: slots, c :: cs => c == '-' && fits slots cs
  | _, _ => false

def isUuid (value : String) : Bool := fits uuidRe value.toList

/-- Validates and returns the text untouched. -/
def parseUuidPipe (value : String) : Except Exception String :=
  if isUuid value then .ok value else .error (.badRequest "Invalid id: expected a UUID")

/-! ## The value -/

/-- The digits of a spelling. -/
def undashed (cs : List Char) : List Char := cs.filter (· ≠ '-')

/-- Put the digits where the pattern wants them, and dashes between. -/
def dashed : List Slot → List Char → List Char
  | .hexDigit :: slots, c :: cs => c :: dashed slots cs
  | .dash :: slots, cs => '-' :: dashed slots cs
  | _, _ => []

/-- The sixteen bytes a `uuid` column takes from a text. -/
def readUuid (value : String) : Option Uuid :=
  (parse 16 (undashed value.toList)).map (Fin.ofNat (2 ^ 128))

/-- The text a `uuid` column gives back. -/
def printUuid (id : Uuid) : String := String.ofList (dashed uuidRe (render 16 32 id.val))

/-- An accepted spelling of the identifier. -/
def Spells (value : String) (id : Uuid) : Prop := isUuid value = true ∧ readUuid value = some id

instance (value : String) (id : Uuid) : Decidable (Spells value id) :=
  inferInstanceAs (Decidable (_ ∧ _))

/-- No letter of the text is an upper-case hexadecimal digit. -/
def Lowercase (value : String) : Prop := ∀ c ∈ value.toList, ¬IsUpperHex c

instance (value : String) : Decidable (Lowercase value) :=
  inferInstanceAs (Decidable (∀ c ∈ value.toList, ¬IsUpperHex c))

/-! ## Digits and dashes -/

/-- The number of digits a pattern asks for. -/
def digitCount (slots : List Slot) : ℕ := slots.count .hexDigit

theorem digitCount_uuidRe : digitCount uuidRe = 32 := by decide

theorem digitCount_cons_hexDigit (slots : List Slot) :
    digitCount (.hexDigit :: slots) = digitCount slots + 1 :=
  List.count_cons_self

theorem digitCount_cons_dash (slots : List Slot) :
    digitCount (.dash :: slots) = digitCount slots :=
  List.count_cons_of_ne (by decide)

/-- A digit is not a dash. -/
theorem ne_dash_of_isSome {c : Char} (h : (digitOf 16 c).isSome) : c ≠ '-' := by
  rintro rfl
  exact absurd h (by decide)

theorem undashed_cons_of_isSome {c : Char} (h : (digitOf 16 c).isSome) (cs : List Char) :
    undashed (c :: cs) = c :: undashed cs :=
  List.filter_cons_of_pos (by simpa using ne_dash_of_isSome h)

theorem undashed_cons_dash (cs : List Char) : undashed ('-' :: cs) = undashed cs :=
  List.filter_cons_of_neg (by simp)

/-- What stands before the rest of a text that fits, slot by slot. -/
theorem exists_of_fits_cons {slot : Slot} {slots : List Slot} {cs : List Char}
    (h : fits (slot :: slots) cs = true) :
    ∃ c rest, cs = c :: rest ∧ fits slots rest = true ∧
      match slot with
      | .hexDigit => (digitOf 16 c).isSome
      | .dash => c = '-' := by
  cases cs with
  | nil =>
    cases slot with
    | hexDigit => exact absurd h (by simp [fits])
    | dash => exact absurd h (by simp [fits])
  | cons c rest =>
    cases slot with
    | hexDigit =>
      rw [fits, Bool.and_eq_true] at h
      exact ⟨c, rest, rfl, h.2, h.1⟩
    | dash =>
      rw [fits, Bool.and_eq_true, beq_iff_eq] at h
      exact ⟨c, rest, rfl, h.2, h.1⟩

theorem eq_nil_of_fits_nil {cs : List Char} (h : fits [] cs = true) : cs = [] := by
  cases cs with
  | nil => rfl
  | cons c cs => exact absurd h (by simp [fits])

/-- **What a text that fits is made of**: its digits, as many as the pattern asks
for, with dashes back in their places. -/
theorem digits_of_fits {slots : List Slot} {cs : List Char} (h : fits slots cs = true) :
    dashed slots (undashed cs) = cs ∧ (undashed cs).length = digitCount slots ∧
      ∀ c ∈ undashed cs, (digitOf 16 c).isSome := by
  induction slots generalizing cs with
  | nil =>
    rw [eq_nil_of_fits_nil h]
    exact ⟨rfl, rfl, fun c hc => absurd hc List.not_mem_nil⟩
  | cons slot slots ih =>
    obtain ⟨c, rest, rfl, hrest, hc⟩ := exists_of_fits_cons h
    obtain ⟨hdashed, hlength, hdigits⟩ := ih hrest
    cases slot with
    | hexDigit =>
      rw [undashed_cons_of_isSome hc, dashed, hdashed, List.length_cons, hlength,
        digitCount_cons_hexDigit]
      exact ⟨rfl, rfl, List.forall_mem_cons.mpr ⟨hc, hdigits⟩⟩
    | dash =>
      obtain rfl : c = '-' := hc
      rw [undashed_cons_dash, dashed, hdashed, hlength, digitCount_cons_dash]
      exact ⟨rfl, rfl, hdigits⟩

/-- Digits with dashes between them fit, and are the digits of the result. -/
theorem fits_dashed {slots : List Slot} {ds : List Char} (hlength : ds.length = digitCount slots)
    (hdigits : ∀ c ∈ ds, (digitOf 16 c).isSome) :
    fits slots (dashed slots ds) = true ∧ undashed (dashed slots ds) = ds := by
  induction slots generalizing ds with
  | nil =>
    rw [List.eq_nil_of_length_eq_zero hlength]
    exact ⟨rfl, rfl⟩
  | cons slot slots ih =>
    cases slot with
    | hexDigit =>
      rw [digitCount_cons_hexDigit] at hlength
      obtain ⟨d, ds, rfl⟩ := List.exists_cons_of_length_eq_add_one hlength
      have hd : (digitOf 16 d).isSome := hdigits d List.mem_cons_self
      obtain ⟨hfits, hback⟩ := ih (Nat.succ.inj hlength)
        fun c hc => hdigits c (List.mem_cons_of_mem _ hc)
      rw [dashed, fits, hfits, Bool.and_true, undashed_cons_of_isSome hd, hback]
      exact ⟨hd, rfl⟩
    | dash =>
      rw [digitCount_cons_dash] at hlength
      obtain ⟨hfits, hback⟩ := ih hlength hdigits
      rw [dashed, fits, hfits, undashed_cons_dash, hback]
      exact ⟨rfl, rfl⟩

theorem mem_dashed {slots : List Slot} {ds : List Char} {c : Char} (h : c ∈ dashed slots ds) :
    c = '-' ∨ c ∈ ds := by
  induction slots generalizing ds with
  | nil => exact absurd h (by simp [dashed])
  | cons slot slots ih =>
    cases slot with
    | hexDigit =>
      cases ds with
      | nil => exact absurd h (by simp [dashed])
      | cons d ds =>
        rw [dashed, List.mem_cons] at h
        rcases h with rfl | h
        · exact Or.inr List.mem_cons_self
        · exact (ih h).imp id (List.mem_cons_of_mem d)
    | dash =>
      rw [dashed, List.mem_cons] at h
      rcases h with rfl | h
      · exact Or.inl rfl
      · exact ih h

/-! ## The printed spelling -/

/-- The digits of an identifier fit the pattern. -/
theorem fits_render (id : Uuid) :
    fits uuidRe (dashed uuidRe (render 16 32 id.val)) = true ∧
      undashed (dashed uuidRe (render 16 32 id.val)) = render 16 32 id.val :=
  fits_dashed (by rw [length_render, digitCount_uuidRe]) fun _ hc =>
    isSome_digitOf_of_mem_render (by omega) (by omega) hc

/-- **The printed spelling is an accepted one.** -/
theorem spells_printUuid (id : Uuid) : Spells (printUuid id) id := by
  obtain ⟨hfits, hdigits⟩ := fits_render id
  refine ⟨?_, ?_⟩
  · rw [isUuid, printUuid, String.toList_ofList]
    exact hfits
  · have hlt : id.val < 16 ^ 32 := id.isLt
    rw [readUuid, printUuid, String.toList_ofList, hdigits, parse_render (by omega) (by omega),
      Option.map_some, Nat.mod_eq_of_lt hlt]
    exact congrArg some (Fin.ofNat_val_eq_self id)

/-- The printed spelling has no upper-case letter. -/
theorem lowercase_printUuid (id : Uuid) : Lowercase (printUuid id) := by
  intro c hc
  rw [printUuid, String.toList_ofList] at hc
  rcases mem_dashed hc with rfl | hc
  · decide
  · exact not_isUpperHex_of_mem_render (by omega) (by omega) hc

/-- The printed spelling is ASCII. -/
theorem toNat_lt_of_mem_printUuid {id : Uuid} {c : Char} (h : c ∈ (printUuid id).toList) :
    c.toNat < 128 := by
  rw [printUuid, String.toList_ofList] at h
  rcases mem_dashed h with rfl | h
  · decide
  · exact toNat_lt_of_mem_render (by omega) (by omega) h

/-- Every text of the shape spells an identifier. -/
theorem exists_spells {value : String} (h : isUuid value = true) : ∃ id, Spells value id := by
  obtain ⟨-, -, hdigits⟩ := digits_of_fits h
  obtain ⟨n, hn⟩ := exists_parse hdigits
  exact ⟨Fin.ofNat (2 ^ 128) n, h, by rw [readUuid, hn, Option.map_some]⟩

/-- **Which spelling is the printed one**: the one without an upper-case letter. -/
theorem eq_printUuid_iff {value : String} {id : Uuid} (h : Spells value id) :
    value = printUuid id ↔ Lowercase value := by
  constructor
  · rintro rfl
    exact lowercase_printUuid id
  · intro hlower
    obtain ⟨hfits, hread⟩ := h
    obtain ⟨hdashed, hlength, -⟩ := digits_of_fits hfits
    rw [digitCount_uuidRe] at hlength
    obtain ⟨n, hn, rfl⟩ := Option.map_eq_some_iff.mp hread
    have hval : (Fin.ofNat (2 ^ 128) n).val = n := by
      have hlt : n < 16 ^ (undashed value.toList).length := lt_of_parse hn
      rw [hlength] at hlt
      exact Nat.mod_eq_of_lt hlt
    have hdigits : render 16 32 n = undashed value.toList := by
      rw [← hlength]
      exact render_of_parse hn fun c hc => hlower c (List.mem_of_mem_filter hc)
    rw [printUuid, hval, hdigits, hdashed, String.ofList_toList]

theorem printUuid_injective : Function.Injective printUuid := by
  intro a b h
  have ha : readUuid (printUuid a) = some a := (spells_printUuid a).2
  rw [h, (spells_printUuid b).2] at ha
  exact (Option.some.inj ha).symm

end Common
end GroupChat

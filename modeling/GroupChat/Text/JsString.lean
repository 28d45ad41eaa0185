import Mathlib.Data.List.Basic

/-!
# Strings of code units

A string of the program is a list of sixteen-bit code units.  A character above
the first 65536 is a pair of them, a surrogate pair, and nothing stops a string
that came from outside from having one half of a pair without the other.

`ofString` is the string of a text, and `scalars` splits a string into its
characters and its stray halves; `flatMap_units_scalars` says the splitting loses
nothing.
-/

namespace GroupChat
namespace Text

/-- One element of a string. -/
abbrev CodeUnit := UInt16

/-- A string as the program holds it. -/
abbrev JsString := List CodeUnit

/-- The code units of a character. -/
def unitsOfChar (c : Char) : JsString :=
  if c.toNat < 0x10000 then [UInt16.ofNat c.toNat]
  else [UInt16.ofNat (0xD800 + (c.toNat - 0x10000) / 0x400),
    UInt16.ofNat (0xDC00 + (c.toNat - 0x10000) % 0x400)]

/-- The string of a text. -/
def JsString.ofString (s : String) : JsString := s.toList.flatMap unitsOfChar

instance (us : JsString) : Decidable (∀ u ∈ us, u.toNat < 128) :=
  List.decidableBAll (fun u : CodeUnit => u.toNat < 128) us

/-- The text of a string, when it is all in the ASCII range. -/
def JsString.ascii? (us : JsString) : Option String :=
  if ∀ u ∈ us, u.toNat < 128 then some (String.ofList (us.map fun u => Char.ofNat u.toNat))
  else none

/-- The unit is the first half of a surrogate pair. -/
def IsHigh (u : CodeUnit) : Prop := 0xD800 ≤ u.toNat ∧ u.toNat ≤ 0xDBFF

/-- The unit is the second half of a surrogate pair. -/
def IsLow (u : CodeUnit) : Prop := 0xDC00 ≤ u.toNat ∧ u.toNat ≤ 0xDFFF

instance (u : CodeUnit) : Decidable (IsHigh u) :=
  inferInstanceAs (Decidable (0xD800 ≤ u.toNat ∧ u.toNat ≤ 0xDBFF))

instance (u : CodeUnit) : Decidable (IsLow u) :=
  inferInstanceAs (Decidable (0xDC00 ≤ u.toNat ∧ u.toNat ≤ 0xDFFF))

/-- The character of a surrogate pair. -/
def combine (u v : CodeUnit) : Char :=
  Char.ofNat (0x10000 + (u.toNat - 0xD800) * 0x400 + (v.toNat - 0xDC00))

/-- What a string is made of. -/
inductive Scalar where
  | char (c : Char)
  /-- Half of a surrogate pair on its own. -/
  | stray (u : CodeUnit)
deriving DecidableEq

def Scalar.units : Scalar → JsString
  | .char c => unitsOfChar c
  | .stray u => [u]

/-- Split a string into characters and stray halves. -/
def scalars : JsString → List Scalar
  | [] => []
  | [u] => [if IsHigh u ∨ IsLow u then .stray u else .char (Char.ofNat u.toNat)]
  | u :: v :: us =>
    if IsHigh u ∧ IsLow v then .char (combine u v) :: scalars us
    else if IsHigh u ∨ IsLow u then .stray u :: scalars (v :: us)
    else .char (Char.ofNat u.toNat) :: scalars (v :: us)

/-! ## Nothing is lost -/

/-- The number of a character made from a number. -/
theorem toNat_ofNat_of_lt {n : ℕ} (h : n < 0xD800 ∨ 0xDFFF < n ∧ n < 0x110000) :
    (Char.ofNat n).toNat = n := by
  unfold Char.ofNat
  rw [dif_pos h]
  rfl

theorem unitsOfChar_ofNat {u : CodeUnit} (h : ¬(IsHigh u ∨ IsLow u)) :
    unitsOfChar (Char.ofNat u.toNat) = [u] := by
  unfold IsHigh IsLow at h
  have hu : u.toNat < 0x10000 := u.toNat_lt
  unfold unitsOfChar
  rw [toNat_ofNat_of_lt (by omega), if_pos hu, UInt16.ofNat_toNat]

theorem unitsOfChar_combine {u v : CodeUnit} (hu : IsHigh u) (hv : IsLow v) :
    unitsOfChar (combine u v) = [u, v] := by
  unfold IsHigh at hu
  unfold IsLow at hv
  have hhigh : 0xD800 + (0x10000 + (u.toNat - 0xD800) * 0x400 + (v.toNat - 0xDC00) - 0x10000) /
      0x400 = u.toNat := by omega
  have hlow : 0xDC00 + (0x10000 + (u.toNat - 0xD800) * 0x400 + (v.toNat - 0xDC00) - 0x10000) %
      0x400 = v.toNat := by omega
  unfold unitsOfChar combine
  rw [toNat_ofNat_of_lt (by omega), if_neg (by omega), hhigh, hlow, UInt16.ofNat_toNat,
    UInt16.ofNat_toNat]

/-- **Splitting a string loses nothing.** -/
theorem flatMap_units_scalars (us : JsString) : (scalars us).flatMap Scalar.units = us := by
  induction us using scalars.induct with
  | case1 => rfl
  | case2 u =>
    unfold scalars
    rw [List.flatMap_singleton]
    split_ifs with h
    · rfl
    · exact unitsOfChar_ofNat h
  | case3 u v us h ih =>
    unfold scalars
    rw [if_pos h, List.flatMap_cons, ih, Scalar.units, unitsOfChar_combine h.1 h.2]
    rfl
  | case4 u v us hpair h ih =>
    unfold scalars
    rw [if_neg hpair, if_pos h, List.flatMap_cons, ih]
    rfl
  | case5 u v us hpair h ih =>
    unfold scalars
    rw [if_neg hpair, if_neg h, List.flatMap_cons, ih, Scalar.units, unitsOfChar_ofNat h]
    rfl

/-- A character is split off whole. -/
theorem scalars_unitsOfChar_append (c : Char) (us : JsString) :
    scalars (unitsOfChar c ++ us) = .char c :: scalars us := by
  have hvalid : c.toNat < 0xD800 ∨ 0xDFFF < c.toNat ∧ c.toNat < 0x110000 := c.valid
  unfold unitsOfChar
  split_ifs with h
  · have hback : (UInt16.ofNat c.toNat).toNat = c.toNat := by
      rw [UInt16.toNat_ofNat']
      omega
    have hhalf : ¬(IsHigh (UInt16.ofNat c.toNat) ∨ IsLow (UInt16.ofNat c.toNat)) := by
      unfold IsHigh IsLow
      rw [hback]
      omega
    have hhigh : ∀ v, ¬(IsHigh (UInt16.ofNat c.toNat) ∧ IsLow v) := fun v hv => hhalf (.inl hv.1)
    rw [List.singleton_append]
    cases us with
    | nil =>
      unfold scalars
      rw [if_neg hhalf, hback, Char.ofNat_toNat]
    | cons v us =>
      conv_lhs => unfold scalars
      rw [if_neg (hhigh v), if_neg hhalf, hback, Char.ofNat_toNat]
  · have hu : (UInt16.ofNat (0xD800 + (c.toNat - 0x10000) / 0x400)).toNat =
        0xD800 + (c.toNat - 0x10000) / 0x400 := by
      rw [UInt16.toNat_ofNat']
      omega
    have hv : (UInt16.ofNat (0xDC00 + (c.toNat - 0x10000) % 0x400)).toNat =
        0xDC00 + (c.toNat - 0x10000) % 0x400 := by
      rw [UInt16.toNat_ofNat']
      omega
    have hpair : IsHigh (UInt16.ofNat (0xD800 + (c.toNat - 0x10000) / 0x400)) ∧
        IsLow (UInt16.ofNat (0xDC00 + (c.toNat - 0x10000) % 0x400)) := by
      unfold IsHigh IsLow
      rw [hu, hv]
      omega
    have hnat : 0x10000 + (c.toNat - 0x10000) / 0x400 * 0x400 + (c.toNat - 0x10000) % 0x400 =
        c.toNat := by omega
    rw [List.cons_append, List.singleton_append]
    conv_lhs => unfold scalars
    rw [if_pos hpair, combine, hu, hv, Nat.add_sub_cancel_left, Nat.add_sub_cancel_left, hnat,
      Char.ofNat_toNat]

/-- **A string has one text.** -/
theorem JsString.ofString_injective : Function.Injective JsString.ofString := by
  have hsplit : ∀ cs : List Char, scalars (cs.flatMap unitsOfChar) = cs.map .char := by
    intro cs
    induction cs with
    | nil => rfl
    | cons c cs ih => rw [List.flatMap_cons, scalars_unitsOfChar_append, ih, List.map_cons]
  have hinj : Function.Injective Scalar.char := fun _ _ h => Scalar.char.inj h
  intro s t h
  have hscalars : s.toList.map Scalar.char = t.toList.map .char := by
    rw [← hsplit, ← hsplit]
    exact congrArg scalars h
  exact String.toList_inj.mp ((List.map_injective_iff.mpr hinj) hscalars)

/-- **An ASCII text is read back.** -/
theorem ascii?_ofString {s : String} (h : ∀ c ∈ s.toList, c.toNat < 128) :
    (JsString.ofString s).ascii? = some s := by
  have hunits : JsString.ofString s = s.toList.map fun c => UInt16.ofNat c.toNat := by
    unfold JsString.ofString
    rw [List.map_eq_flatMap]
    refine List.flatMap_congr fun c hc => ?_
    have hlt : c.toNat < 128 := h c hc
    unfold unitsOfChar
    rw [if_pos (by omega)]
  have hback : ∀ c ∈ s.toList, (UInt16.ofNat c.toNat).toNat = c.toNat := by
    intro c hc
    have hlt : c.toNat < 128 := h c hc
    exact Nat.mod_eq_of_lt (by omega)
  unfold JsString.ascii?
  rw [hunits, if_pos, List.map_map]
  · refine congrArg some ?_
    rw [List.map_congr_left fun c hc => ?_, List.map_id, String.ofList_toList]
    show Char.ofNat (UInt16.ofNat c.toNat).toNat = id c
    rw [hback c hc]
    exact Char.ofNat_toNat c
  · intro u hu
    obtain ⟨c, hc, rfl⟩ := List.mem_map.mp hu
    rw [hback c hc]
    exact h c hc

end Text
end GroupChat

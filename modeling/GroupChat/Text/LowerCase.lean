import GroupChat.Text.Trim

/-!
# Lower case

`toLowerCase` follows the case tables of the language, which are no part of the
program.  What the program relies on is little: lowering twice is lowering once,
and lowering puts no white space at either end of a string that had none there.
`LowerCase` is a function with these two properties, and `asciiLowerCase` is one.
-/

namespace GroupChat
namespace Text

/-- `String.prototype.toLowerCase`, as far as the program depends on it. -/
structure LowerCase where
  toLowerCase : JsString → JsString
  idempotent : ∀ us, toLowerCase (toLowerCase us) = toLowerCase us
  space_of_head : ∀ us, ∀ u ∈ (toLowerCase us).head?, isSpace u → ∃ v ∈ us.head?, isSpace v
  space_of_last : ∀ us, ∀ u ∈ (toLowerCase us).getLast?, isSpace u →
    ∃ v ∈ us.getLast?, isSpace v

/-- No white space at the front of a trimmed string. -/
theorem not_space_head_trim (us : JsString) : ∀ u ∈ us.trim.head?, ¬isSpace u := by
  intro u hu hspace
  have hsame : us.trim.dropWhile isSpace = us.trim := by
    have hback : (us.trim.dropWhile isSpace).rdropWhile isSpace = us.trim := trim_trim us
    have hle : us.trim.length ≤ (us.trim.dropWhile isSpace).length := by
      conv_lhs => rw [← hback]
      exact (List.rdropWhile_prefix _ _).length_le
    exact (List.dropWhile_suffix _).eq_of_length_le hle
  have hpos : 0 < us.trim.length := by
    cases htrim : us.trim with
    | nil => simp [htrim] at hu
    | cons v vs => simp
  have hfirst : us.trim[0] = u := by
    rw [List.head?_eq_getElem?, List.getElem?_eq_getElem hpos] at hu
    exact Option.some.inj hu
  refine List.dropWhile_eq_self_iff.mp hsame hpos ?_
  rw [hfirst]
  exact hspace

/-- No white space at the back of a trimmed string. -/
theorem not_space_last_trim (us : JsString) : ∀ u ∈ us.trim.getLast?, ¬isSpace u := by
  intro u hu hspace
  have hsame : us.trim.rdropWhile isSpace = us.trim := List.rdropWhile_idempotent _ _
  have hne : us.trim ≠ [] := by
    intro hnil
    simp [hnil] at hu
  have hlast : us.trim.getLast hne = u := by
    rw [List.getLast?_eq_some_getLast hne] at hu
    exact Option.some.inj hu
  refine List.rdropWhile_eq_self_iff.mp hsame hne ?_
  rw [hlast]
  exact hspace

namespace LowerCase

variable (case : LowerCase)

/-- Lowering a trimmed string leaves it trimmed. -/
theorem trim_toLowerCase_trim (us : JsString) :
    (case.toLowerCase us.trim).trim = case.toLowerCase us.trim := by
  refine trim_eq_self (fun u hu hspace => ?_) fun u hu hspace => ?_
  · obtain ⟨v, hv, hvspace⟩ := case.space_of_head us.trim u hu hspace
    exact not_space_head_trim us v hv hvspace
  · obtain ⟨v, hv, hvspace⟩ := case.space_of_last us.trim u hu hspace
    exact not_space_last_trim us v hv hvspace

end LowerCase

/-! ## The ASCII letters -/

/-- The lower case of an ASCII letter. -/
def asciiLower (u : CodeUnit) : CodeUnit :=
  if 0x41 ≤ u ∧ u ≤ 0x5A then u + 0x20 else u

theorem asciiLower_asciiLower (u : CodeUnit) : asciiLower (asciiLower u) = asciiLower u := by
  unfold asciiLower
  split_ifs with h h'
  · exfalso
    have hlow : 0x41 ≤ u.toNat := UInt16.le_iff_toNat_le.mp h.1
    have hhigh : u.toNat ≤ 0x5A := UInt16.le_iff_toNat_le.mp h.2
    have hlower : (u + 0x20).toNat ≤ 0x5A := UInt16.le_iff_toNat_le.mp h'.2
    rw [UInt16.toNat_add] at hlower
    have h20 : (0x20 : UInt16).toNat = 32 := rfl
    omega
  · rfl
  · rfl

/-- A letter is no white space, in either case. -/
theorem isSpace_of_isSpace_asciiLower {u : CodeUnit} (h : isSpace (asciiLower u)) :
    isSpace u := by
  unfold asciiLower at h
  split_ifs at h with hletter
  · exfalso
    have hlow : 0x41 ≤ u.toNat := UInt16.le_iff_toNat_le.mp hletter.1
    have hhigh : u.toNat ≤ 0x5A := UInt16.le_iff_toNat_le.mp hletter.2
    have hval : (u + 0x20).toNat = u.toNat + 32 := by
      rw [UInt16.toNat_add]
      have h20 : (0x20 : UInt16).toNat = 32 := rfl
      omega
    have hspace : ∀ v : CodeUnit, isSpace v → v.toNat ≤ 0x20 ∨ 0xA0 ≤ v.toNat := by
      intro v hv
      simp only [isSpace, List.contains_iff_mem, List.mem_cons, List.not_mem_nil,
        or_false] at hv
      rcases hv with rfl | rfl | rfl | rfl | rfl | rfl | rfl | rfl | rfl | rfl | rfl | rfl | rfl |
        rfl | rfl | rfl | rfl | rfl | rfl | rfl | rfl | rfl | rfl | rfl | rfl <;> decide
    have := hspace _ h
    omega
  · exact h

/-- Lower case for strings of ASCII letters. -/
def asciiLowerCase : LowerCase where
  toLowerCase := List.map asciiLower
  idempotent us := by
    rw [List.map_map]
    exact List.map_congr_left fun u _ => asciiLower_asciiLower u
  space_of_head us u hu hspace := by
    rw [List.head?_map, Option.mem_def, Option.map_eq_some_iff] at hu
    obtain ⟨v, hv, rfl⟩ := hu
    exact ⟨v, hv, isSpace_of_isSpace_asciiLower hspace⟩
  space_of_last us u hu hspace := by
    rw [List.getLast?_map, Option.mem_def, Option.map_eq_some_iff] at hu
    obtain ⟨v, hv, rfl⟩ := hu
    exact ⟨v, hv, isSpace_of_isSpace_asciiLower hspace⟩

end Text
end GroupChat

import GroupChat.Text.JsString
import Mathlib.Data.List.DropRight
import Mathlib.Data.List.TakeWhile

/-!
# Trimming

`trim` takes white space off both ends of a string, white space being what the
language says it is.

`text?` is the text of a string, which a string with a stray half does not have.
White space is never half of a pair, so a text can be trimmed as a text
(`trim_ofString`).
-/

namespace GroupChat
namespace Text

/-! ## Trimming -/

/-- White space and line terminators. -/
def isSpace (u : CodeUnit) : Bool :=
  [0x09, 0x0A, 0x0B, 0x0C, 0x0D, 0x20, 0xA0, 0x1680, 0x2000, 0x2001, 0x2002, 0x2003, 0x2004,
    0x2005, 0x2006, 0x2007, 0x2008, 0x2009, 0x200A, 0x2028, 0x2029, 0x202F, 0x205F, 0x3000,
    0xFEFF].contains u

/-- `String.prototype.trim`. -/
def JsString.trim (us : JsString) : JsString := (us.dropWhile isSpace).rdropWhile isSpace

/-- **Trimming once is enough.** -/
theorem trim_trim (us : JsString) : us.trim.trim = us.trim := by
  have hfront : us.trim.dropWhile isSpace = us.trim := by
    rw [List.dropWhile_eq_self_iff]
    intro hpos hspace
    have hfront : us.trim <+: us.dropWhile isSpace := List.rdropWhile_prefix _ _
    have hpos' : 0 < (us.dropWhile isSpace).length := hpos.trans_le hfront.length_le
    rw [hfront.getElem hpos] at hspace
    exact List.dropWhile_get_zero_not _ _ hpos' hspace
  have hback : us.trim.rdropWhile isSpace = us.trim := List.rdropWhile_idempotent _ _
  show (us.trim.dropWhile isSpace).rdropWhile isSpace = us.trim
  rw [hfront, hback]

/-- A string without white space at either end is trimmed already. -/
theorem trim_eq_self {us : JsString} (hfront : ∀ u ∈ us.head?, ¬isSpace u)
    (hback : ∀ u ∈ us.getLast?, ¬isSpace u) : us.trim = us := by
  have hdrop : us.dropWhile isSpace = us := by
    cases us with
    | nil => rfl
    | cons u us => exact List.dropWhile_cons_of_neg (hfront u rfl)
  unfold JsString.trim
  rw [hdrop, List.rdropWhile_eq_self_iff]
  intro hne
  exact hback _ (List.getLast?_eq_some_getLast hne)

/-! ## Trimming a text -/

/-- A character of white space; all of them are single units. -/
def isSpaceChar (c : Char) : Bool := (unitsOfChar c).all isSpace

/-- `trim` on a text. -/
def trimText (s : String) : String :=
  String.ofList ((s.toList.dropWhile isSpaceChar).rdropWhile isSpaceChar)

/-- The halves of a surrogate pair are no white space. -/
theorem not_isSpace_of_surrogate {u : CodeUnit} (h : 0xD800 ≤ u.toNat ∧ u.toNat ≤ 0xDFFF) :
    isSpace u = false := by
  rw [isSpace, Bool.eq_false_iff]
  intro hmem
  rw [List.contains_iff_mem] at hmem
  simp only [List.mem_cons, List.not_mem_nil, or_false] at hmem
  rcases hmem with rfl | rfl | rfl | rfl | rfl | rfl | rfl | rfl | rfl | rfl | rfl | rfl | rfl |
    rfl | rfl | rfl | rfl | rfl | rfl | rfl | rfl | rfl | rfl | rfl | rfl <;>
    exact absurd h (by decide)

/-- What a character is made of is white space as a whole or nowhere. -/
theorem isSpace_of_mem_unitsOfChar {c : Char} {u : CodeUnit} (h : u ∈ unitsOfChar c) :
    isSpace u = isSpaceChar c := by
  unfold isSpaceChar
  unfold unitsOfChar at h ⊢
  split_ifs at h ⊢ with hsmall
  · rw [List.mem_singleton.mp h, List.all_cons, List.all_nil, Bool.and_true]
  · have hlarge : c.toNat < 0x110000 := by
      rcases c.valid with hvalid | ⟨-, hvalid⟩
      · exact lt_trans hvalid (by decide)
      · exact hvalid
    have hhigh : isSpace (UInt16.ofNat (0xD800 + (c.toNat - 0x10000) / 0x400)) = false := by
      refine not_isSpace_of_surrogate ?_
      rw [UInt16.toNat_ofNat']
      omega
    have hlow : isSpace (UInt16.ofNat (0xDC00 + (c.toNat - 0x10000) % 0x400)) = false := by
      refine not_isSpace_of_surrogate ?_
      rw [UInt16.toNat_ofNat']
      omega
    rw [List.all_cons, hhigh, Bool.false_and]
    rcases List.mem_cons.mp h with rfl | h
    · exact hhigh
    · rw [List.mem_singleton.mp h]
      exact hlow

theorem dropWhile_flatMap (cs : List Char) {f : Char → JsString}
    (hne : ∀ c, f c ≠ []) (hf : ∀ c, ∀ u ∈ f c, isSpace u = isSpaceChar c) :
    (cs.flatMap f).dropWhile isSpace = (cs.dropWhile isSpaceChar).flatMap f := by
  induction cs with
  | nil => rfl
  | cons c cs ih =>
    rw [List.flatMap_cons]
    by_cases hc : isSpaceChar c = true
    · have hall : ∀ u ∈ f c, isSpace u = true := fun u hu => (hf c u hu).trans hc
      rw [List.dropWhile_cons_of_pos hc, ← ih, List.dropWhile_append_of_pos hall]
    · obtain ⟨u, us, hus⟩ := List.exists_cons_of_ne_nil (hne c)
      have hu : ¬ isSpace u = true := by
        rw [hf c u (by rw [hus]; exact List.mem_cons_self)]
        exact hc
      rw [List.dropWhile_cons_of_neg hc, List.flatMap_cons, hus, List.cons_append,
        List.dropWhile_cons_of_neg hu]

/-- **Trimming a text is trimming its string.** -/
theorem trim_ofString (s : String) :
    (JsString.ofString s).trim = JsString.ofString (trimText s) := by
  have hne : ∀ c, unitsOfChar c ≠ [] := by
    intro c
    unfold unitsOfChar
    split_ifs <;> simp
  have hfront := dropWhile_flatMap s.toList hne fun c u hu => isSpace_of_mem_unitsOfChar hu
  have hback := dropWhile_flatMap (s.toList.dropWhile isSpaceChar).reverse
    (f := List.reverse ∘ unitsOfChar) (fun c h => hne c (List.reverse_eq_nil_iff.mp h))
    fun c u hu => isSpace_of_mem_unitsOfChar (List.mem_reverse.mp hu)
  unfold JsString.trim JsString.ofString trimText
  rw [hfront, String.toList_ofList, List.rdropWhile, List.reverse_flatMap, hback, List.rdropWhile,
    List.flatMap_reverse]

/-! ## The text of a string -/

def Scalar.char? : Scalar → Option Char
  | .char c => some c
  | .stray _ => none

/-- The text of a string, if it has one. -/
def JsString.text? (us : JsString) : Option String :=
  ((scalars us).mapM Scalar.char?).map String.ofList

/-- **A text is the text of one string only.** -/
theorem ofString_of_text? {us : JsString} {s : String} (h : us.text? = some s) :
    JsString.ofString s = us := by
  obtain ⟨cs, hcs, rfl⟩ := Option.map_eq_some_iff.mp h
  have hchars : ∀ {xs : List Scalar} {cs : List Char}, xs.mapM Scalar.char? = some cs →
      xs = cs.map Scalar.char := by
    intro xs
    induction xs with
    | nil =>
      intro cs h
      rw [← Option.some.inj h]
      rfl
    | cons x xs ih =>
      intro cs h
      rw [List.mapM_cons] at h
      obtain ⟨c, hc, h⟩ := Option.bind_eq_some_iff.mp h
      obtain ⟨cs', hcs', h⟩ := Option.bind_eq_some_iff.mp h
      rw [← Option.some.inj h, List.map_cons, ih hcs']
      cases x with
      | char d => rw [← Option.some.inj hc]
      | stray u => cases hc
  have hback := flatMap_units_scalars us
  rw [hchars hcs, List.flatMap_map] at hback
  unfold JsString.ofString
  rw [String.toList_ofList]
  exact hback

end Text
end GroupChat

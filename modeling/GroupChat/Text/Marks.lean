import Mathlib.Data.List.Basic

/-!
# Texts with marks

A text that is put together from parts with a mark between them can be taken apart
again where the parts do not contain the mark: `append_cons_inj` at the first mark,
`append_cons_inj_right` at the last one.
-/

namespace GroupChat
namespace Text

variable {α : Type*} {c : α} {xs ys xs' ys' : List α}

/-- Equal texts are equal up to the first mark, and after it. -/
theorem append_cons_inj (hxs : c ∉ xs) (hys : c ∉ ys) (h : xs ++ c :: xs' = ys ++ c :: ys') :
    xs = ys ∧ xs' = ys' := by
  rcases List.append_eq_append_iff.mp h with ⟨zs, rfl, hzs⟩ | ⟨zs, rfl, hzs⟩
  · cases zs with
    | nil => exact ⟨(List.append_nil xs).symm, (List.cons.inj hzs).2⟩
    | cons z zs =>
      obtain rfl : c = z := (List.cons.inj hzs).1
      exact absurd (List.mem_append_right xs List.mem_cons_self) hys
  · cases zs with
    | nil => exact ⟨List.append_nil ys, (List.cons.inj hzs).2.symm⟩
    | cons z zs =>
      obtain rfl : c = z := (List.cons.inj hzs).1
      exact absurd (List.mem_append_right ys List.mem_cons_self) hxs

/-- Equal texts are equal up to the last mark, and after it. -/
theorem append_cons_inj_right (hxs : c ∉ xs') (hys : c ∉ ys')
    (h : xs ++ c :: xs' = ys ++ c :: ys') : xs = ys ∧ xs' = ys' := by
  have hreverse : xs'.reverse ++ c :: xs.reverse = ys'.reverse ++ c :: ys.reverse := by
    have h' := congrArg List.reverse h
    simpa only [List.reverse_append, List.reverse_cons, List.append_assoc,
      List.singleton_append] using h'
  obtain ⟨h₁, h₂⟩ := append_cons_inj (by simpa using hxs) (by simpa using hys) hreverse
  exact ⟨List.reverse_injective h₂, List.reverse_injective h₁⟩

end Text
end GroupChat

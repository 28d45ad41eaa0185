import GroupChat.Text.JsString
import Mathlib.Data.List.Basic

/-!
# How long a string is

A string has as many code units as its `length` says.  What validates the bodies of
requests counts otherwise: the two halves of a surrogate pair are one character to it,
and so are a character and the selector of its presentation.  It belongs to a library,
so `Validator` is any count with what is known of that one.  `sequenceValidator` is the
count written out.
-/

namespace GroupChat
namespace Text

/-- A variation selector that asks for a presentation as text or as emoji. -/
def IsSelector (u : CodeUnit) : Prop := u = 0xFE0E ∨ u = 0xFE0F

instance (u : CodeUnit) : Decidable (IsSelector u) :=
  inferInstanceAs (Decidable (u = 0xFE0E ∨ u = 0xFE0F))

/-- How `MinLength`, `MaxLength` and `Length` measure a string, as far as the program
depends on it. -/
structure Validator where
  length : JsString → ℕ
  length_le : ∀ us, length us ≤ us.length
  length_pos : ∀ us, us ≠ [] → 0 < length us
  length_eq : ∀ us, (∀ u ∈ us, ¬IsSelector u) → length us = (scalars us).length

namespace Validator

variable (validator : Validator)

/-- Only the empty string has no character. -/
theorem length_pos_iff {us : JsString} : 0 < validator.length us ↔ us ≠ [] := by
  constructor
  · rintro h rfl
    exact absurd (validator.length_le []) (Nat.not_le.mpr h)
  · exact validator.length_pos us

/-- A row of surrogate pairs has one character for each pair. -/
theorem length_flatten_replicate {u v : CodeUnit} (hu : IsHigh u) (hv : IsLow v) (n : ℕ) :
    validator.length (List.replicate n [u, v]).flatten = n := by
  have hplain : ∀ w ∈ (List.replicate n [u, v]).flatten, ¬IsSelector w := by
    intro w hw
    obtain ⟨l, hl, hw⟩ := List.mem_flatten.mp hw
    rw [List.eq_of_mem_replicate hl] at hw
    rcases List.mem_cons.mp hw with rfl | hw
    · rintro (rfl | rfl) <;> exact absurd hu (by decide)
    · rw [List.mem_singleton.mp hw]
      rintro (rfl | rfl) <;> exact absurd hv (by decide)
  rw [validator.length_eq _ hplain]
  clear hplain
  induction n with
  | zero => rfl
  | succ n ih =>
    rw [List.replicate_succ, List.flatten_cons, List.cons_append, List.singleton_append]
    unfold scalars
    rw [if_pos ⟨hu, hv⟩, List.length_cons, ih]

end Validator

/-! ## The count written out -/

/-- How often a unit of the first kind is followed by one of the second.  Where no unit is
of both kinds, these are the matches of the two classes in a row. -/
def sequences (first second : CodeUnit → Bool) (us : JsString) : ℕ :=
  (us.zip us.tail).countP fun x => first x.1 && second x.2

/-- The matches of `[^\uFE0F\uFE0E][\uFE0F\uFE0E]`. -/
def presentationSequences (us : JsString) : ℕ :=
  sequences (fun u => ¬IsSelector u) (fun v => IsSelector v) us

/-- The matches of `[\uD800-\uDBFF][\uDC00-\uDFFF]`. -/
def surrogatePairs (us : JsString) : ℕ := sequences (fun u => IsHigh u) (fun v => IsLow v) us

/-- No unit is the second one of two sequences. -/
theorem sequences_add_lt {us : JsString} (h : us ≠ []) :
    presentationSequences us + surrogatePairs us < us.length := by
  obtain ⟨u, us, rfl⟩ := List.exists_cons_of_ne_nil h
  have hpairs : ((u :: us).zip us).length = us.length := by
    rw [List.length_zip, List.length_cons]
    omega
  have hsplit := List.length_eq_countP_add_countP
    (fun x : CodeUnit × CodeUnit => decide ¬IsSelector x.1 && decide (IsSelector x.2))
    (l := (u :: us).zip us)
  have hle : surrogatePairs (u :: us) ≤ ((u :: us).zip us).countP
      fun x => ¬(decide ¬IsSelector x.1 && decide (IsSelector x.2)) = true := by
    refine List.countP_mono_left fun x _ hx => ?_
    have hlow : IsLow x.2 := by simpa using (Bool.and_eq_true_iff.mp hx).2
    have hnot : ¬IsSelector x.2 := by
      rintro (hx | hx) <;> rw [hx] at hlow <;> exact absurd hlow (by decide)
    simp [hnot]
  have hfirst : presentationSequences (u :: us) = ((u :: us).zip us).countP
      fun x => decide ¬IsSelector x.1 && decide (IsSelector x.2) := rfl
  rw [hfirst, List.length_cons]
  omega

/-- The characters and the second halves of their pairs are all the units. -/
theorem length_scalars_add (us : JsString) :
    (scalars us).length + surrogatePairs us = us.length := by
  have hcons : ∀ u v vs, surrogatePairs (u :: v :: vs) =
      surrogatePairs (v :: vs) + if IsHigh u ∧ IsLow v then 1 else 0 := by
    intro u v vs
    unfold surrogatePairs sequences
    rw [List.tail_cons, List.zip_cons_cons, List.countP_cons]
    simp
  induction us using scalars.induct with
  | case1 => rfl
  | case2 u =>
    unfold scalars
    rfl
  | case3 u v us h ih =>
    have hskip : surrogatePairs (v :: us) = surrogatePairs us := by
      cases us with
      | nil => rfl
      | cons w us =>
        have hhigh : ¬IsHigh v := fun hv => absurd (Nat.le_trans h.2.1 hv.2) (by decide)
        rw [hcons, if_neg fun hpair => hhigh hpair.1]
        rfl
    unfold scalars
    rw [if_pos h, hcons, if_pos h, hskip, List.length_cons, List.length_cons, List.length_cons]
    omega
  | case4 u v us hpair h ih =>
    unfold scalars
    rw [if_neg hpair, if_pos h, hcons, if_neg hpair, List.length_cons, List.length_cons]
    omega
  | case5 u v us hpair h ih =>
    unfold scalars
    rw [if_neg hpair, if_neg h, hcons, if_neg hpair, List.length_cons, List.length_cons]
    omega

/-- The validator that takes the sequences off the number of units. -/
def sequenceValidator : Validator where
  length us := us.length - presentationSequences us - surrogatePairs us
  length_le us := Nat.le_trans (Nat.sub_le _ _) (Nat.sub_le _ _)
  length_pos us h := by
    have hlt := sequences_add_lt h
    omega
  length_eq us h := by
    have hnone : presentationSequences us = 0 := by
      unfold presentationSequences sequences
      rw [List.countP_eq_zero]
      rintro ⟨u, v⟩ huv hboth
      have hmem : v ∈ us := List.mem_of_mem_tail (List.of_mem_zip huv).2
      exact absurd (Bool.and_eq_true_iff.mp hboth).2 (by simpa using h v hmem)
    have hadd := length_scalars_add us
    omega

/-- A selector alone is a character, and after a letter it is none. -/
example : sequenceValidator.length [0xFE0F] = 1 ∧ sequenceValidator.length [0x61, 0xFE0F] = 1 := by
  decide

end Text
end GroupChat

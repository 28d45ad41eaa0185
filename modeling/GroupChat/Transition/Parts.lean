import GroupChat.Transition.Guarded
import Mathlib.Data.List.Nodup

/-!
# Parts of a system that do not touch

A server keeps the state of many parties in one place.  `part` cuts one party's share out of
it, and `mine` are the questions that are about this share.  The shares do not touch
(`Separate`) when a question about another share leaves this one as it is, and a question
about this one is answered from it alone.  Any run then looks to the party as if only its own
questions had been asked, and nothing but its own share had been there
(`Separate.serveAll`).

A question may bring names along for what it creates, and shares stay apart only while these
are new.  `allAsked_of_fresh` says that it is enough to look at the names once, before the run.
-/

namespace GroupChat
namespace Transition

variable {W I O N : Type*} {serve : I → W → W × O} {ok : I → W → Prop}

/-! ## Runs whose questions meet a condition -/

/-- Every question of the run meets `ok` in the state it is asked in. -/
def AllAsked (serve : I → W → W × O) (ok : I → W → Prop) : List I → W → Prop
  | [], _ => True
  | i :: is, w => ok i w ∧ AllAsked serve ok is (serve i w).1

/-- What is known of every question anyway. -/
theorem AllAsked.and_of_mem {P : I → Prop} {is : List I} {w : W} (h : AllAsked serve ok is w)
    (hP : ∀ i ∈ is, P i) : AllAsked serve (fun i w => ok i w ∧ P i) is w := by
  induction is generalizing w with
  | nil => trivial
  | cons i is ih =>
    obtain ⟨hi, his⟩ := h
    exact ⟨⟨hi, hP i List.mem_cons_self⟩, ih his fun j hj => hP j (List.mem_cons_of_mem i hj)⟩

/-- What the questions of the run keep true. -/
theorem AllAsked.invariant {P : W → Prop} (hP : ∀ i w, ok i w → P w → P (serve i w).1)
    {is : List I} {w : W} (h : AllAsked serve ok is w) (hw : P w) : P (serveAll serve is w).1 := by
  induction is generalizing w with
  | nil => exact hw
  | cons i is ih =>
    obtain ⟨hi, his⟩ := h
    exact ih his (hP i w hi hw)

/-- A run is asked up to some point, and from there on. -/
theorem allAsked_append {is js : List I} {w : W} : AllAsked serve ok (is ++ js) w ↔
    AllAsked serve ok is w ∧ AllAsked serve ok js (serveAll serve is w).1 := by
  induction is generalizing w with
  | nil => exact (iff_of_eq (true_and _)).symm
  | cons i is ih => exact (and_congr_right fun _ => ih).trans and_assoc.symm

theorem serveAll_append_fst {is js : List I} {w : W} :
    (serveAll serve (is ++ js) w).1 = (serveAll serve js (serveAll serve is w).1).1 := by
  induction is generalizing w with
  | nil => rfl
  | cons i is ih => exact ih

/-- **Names that are new before the run are new when they are used**, if a question adds no
names but those it brings along. -/
theorem allAsked_of_fresh {used : W → N → Prop} {brings : I → List N}
    (hused : ∀ i w, (∀ n ∈ brings i, ¬used w n) → ∀ n, used (serve i w).1 n →
      used w n ∨ n ∈ brings i)
    {is : List I} {w : W} (hnodup : (is.flatMap brings).Nodup)
    (hfresh : ∀ n ∈ is.flatMap brings, ¬used w n) :
    AllAsked serve (fun i w => ∀ n ∈ brings i, ¬used w n) is w := by
  induction is generalizing w with
  | nil => trivial
  | cons i is ih =>
    rw [List.flatMap_cons] at hnodup hfresh
    obtain ⟨-, htail, hdisjoint⟩ := List.nodup_append'.mp hnodup
    have hhead : ∀ n ∈ brings i, ¬used w n := fun n hn => hfresh n (List.mem_append_left _ hn)
    refine ⟨hhead, ih htail fun n hn hafter => ?_⟩
    rcases hused i w hhead n hafter with hbefore | hbrought
    · exact hfresh n (List.mem_append_right _ hn) hbefore
    · exact hdisjoint hbrought hn

/-! ## Shares -/

section Shares

variable {mine : I → Prop} [DecidablePred mine] {part : W → W}

/-- The shares do not touch. -/
structure Separate (serve : I → W → W × O) (ok : I → W → Prop) (mine : I → Prop)
    (part : W → W) : Prop where
  others : ∀ i w, ok i w → ¬mine i → part (serve i w).1 = part w
  own : ∀ i w, ok i w → mine i → serve i (part w) = (part (serve i w).1, (serve i w).2)

/-- The answers to the questions in `mine`, among the answers to all of them. -/
def answersTo (mine : I → Prop) [DecidablePred mine] : List I → List O → List O
  | i :: is, o :: os => if mine i then o :: answersTo mine is os else answersTo mine is os
  | _, _ => []

/-- **A share lives as if it were alone**: its own questions, asked of it alone, are answered
as they were in the run and leave it as the run has left it. -/
theorem Separate.serveAll (h : Separate serve ok mine part) {is : List I} {w : W}
    (hok : AllAsked serve ok is w) :
    Transition.serveAll serve (is.filter mine) (part w) =
      (part (Transition.serveAll serve is w).1,
        answersTo mine is (Transition.serveAll serve is w).2) := by
  induction is generalizing w with
  | nil => rfl
  | cons i is ih =>
    obtain ⟨hi, his⟩ := hok
    by_cases hmine : mine i
    · have hfilter : (i :: is).filter mine = i :: is.filter mine :=
        List.filter_cons_of_pos (decide_eq_true hmine)
      rw [hfilter]
      simp only [Transition.serveAll, h.own i w hi hmine, ih his, answersTo, if_pos hmine]
    · have hfilter : (i :: is).filter mine = is.filter mine :=
        List.filter_cons_of_neg fun hi => hmine (of_decide_eq_true hi)
      rw [hfilter]
      simp only [Transition.serveAll, answersTo, if_neg hmine]
      rw [← h.others i w hi hmine, ih his]

end Shares

end Transition
end GroupChat

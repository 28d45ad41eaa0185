import Mathlib.Logic.Basic

/-!
# Guarded handlers

A framework runs a request handler in stages: a guard that reads the state and may refuse, a
validation of the arguments that does not, and the handler itself, which reads and writes.
`Guarded` is the three of them and `respond` runs them in this order, so that a request the
guard refuses is answered with its refusal, whatever its arguments are
(`respond_of_refused`).

`Blind serve P S` says that an observer who asks only questions in `P` cannot tell the states
in `S` apart and does not disturb them.  The answer to a question is then a function of the
question alone, and so are the answers to a list of them (`Blind.serveAll`).
-/

namespace GroupChat
namespace Transition

/-! ## Stages -/

section Guarded

variable {W A B E : Type*}

/-- A handler with what runs before it. -/
structure Guarded (W A B E : Type*) where
  guard : W → Except E Unit
  pipes : Except E A
  handler : A → W → Except E (W × B)

/-- Run the stages.  A stage that throws ends the request and leaves the state alone. -/
def Guarded.respond (r : Guarded W A B E) (w : W) : W × Except E B :=
  match r.guard w with
  | .error e => (w, .error e)
  | .ok _ =>
    match r.pipes with
    | .error e => (w, .error e)
    | .ok a =>
      match r.handler a w with
      | .error e => (w, .error e)
      | .ok (w', b) => (w', .ok b)

/-- **A refusal comes first.** -/
theorem Guarded.respond_of_refused {r : Guarded W A B E} {w : W} {e : E}
    (h : r.guard w = .error e) : r.respond w = (w, .error e) := by
  rw [Guarded.respond, h]

/-- An answer comes from the handler. -/
theorem Guarded.exists_of_respond {r : Guarded W A B E} {w : W} {b : B}
    (h : (r.respond w).2 = .ok b) : ∃ a w', r.handler a w = .ok (w', b) := by
  unfold Guarded.respond at h
  cases hguard : r.guard w with
  | error e =>
    rw [hguard] at h
    cases h
  | ok u =>
    rw [hguard] at h
    cases hpipes : r.pipes with
    | error e =>
      rw [hpipes] at h
      cases h
    | ok a =>
      rw [hpipes] at h
      dsimp only at h
      cases hhandler : r.handler a w with
      | error e =>
        rw [hhandler] at h
        cases h
      | ok result =>
        rw [hhandler] at h
        cases h
        exact ⟨a, result.1, hhandler⟩

end Guarded

/-! ## Telling states apart -/

section Blind

variable {W I O : Type*} {serve : I → W → W × O} {P : I → Prop} {S : W → Prop}

/-- Every question in `P` has one answer in all states in `S`, and changes none of them. -/
def Blind (serve : I → W → W × O) (P : I → Prop) (S : W → Prop) : Prop :=
  ∀ i, P i → ∃ o, ∀ w, S w → serve i w = (w, o)

/-- **Two states in `S` answer alike.** -/
theorem Blind.same (h : Blind serve P S) {i : I} (hi : P i) {w w' : W} (hw : S w) (hw' : S w') :
    (serve i w).2 = (serve i w').2 ∧ (serve i w).1 = w ∧ (serve i w').1 = w' := by
  obtain ⟨o, ho⟩ := h i hi
  rw [ho w hw, ho w' hw']
  exact ⟨rfl, rfl, rfl⟩

/-- Ask one question after the other. -/
def serveAll (serve : I → W → W × O) : List I → W → W × List O
  | [], w => (w, [])
  | i :: is, w =>
    let (w₁, o) := serve i w
    let (w₂, os) := serveAll serve is w₁
    (w₂, o :: os)

/-- **Asking more does not help.** -/
theorem Blind.serveAll (h : Blind serve P S) :
    Blind (serveAll serve) (fun is => ∀ i ∈ is, P i) S := by
  intro is his
  induction is with
  | nil => exact ⟨[], fun w _ => rfl⟩
  | cons i is ih =>
    obtain ⟨o, ho⟩ := h i (his i List.mem_cons_self)
    obtain ⟨os, hos⟩ := ih fun j hj => his j (List.mem_cons_of_mem i hj)
    refine ⟨o :: os, fun w hw => ?_⟩
    simp only [Transition.serveAll, ho w hw, hos w hw]

end Blind

end Transition
end GroupChat

import Mathlib.Data.List.Induction

/-!
# Replaying overwriting patches

A patch overwrites some parts of a value and leaves the others alone.  What it
overwrites does not depend on what was there, so of two occurrences of a patch the later
one has the last word, and the earlier one can be left out.  That is all `Overwriting`
assumes.

It follows that a replay may start late.  A value that a sequence of patches has led to
is not changed by replaying an end of that sequence (`Overwriting.patchAll_suffix`).  A
reader needs this who is handed a value and, afterwards, patches that the value already
includes.
-/

namespace GroupChat
namespace Transition

variable {E X : Type*}

/-- Apply patches, the first one first. -/
def patchAll (patch : E → X → X) (events : List E) (x : X) : X :=
  events.foldl (fun x e => patch e x) x

variable {patch : E → X → X}

@[simp] theorem patchAll_nil (x : X) : patchAll patch [] x = x := rfl

@[simp] theorem patchAll_cons (e : E) (events : List E) (x : X) :
    patchAll patch (e :: events) x = patchAll patch events (patch e x) := rfl

theorem patchAll_append (events events' : List E) (x : X) :
    patchAll patch (events ++ events') x = patchAll patch events' (patchAll patch events x) :=
  List.foldl_append

/-- What no patch changes, no replay changes. -/
theorem patchAll_eq_self {events : List E} {x : X} (h : ∀ e ∈ events, patch e x = x) :
    patchAll patch events x = x := by
  induction events with
  | nil => rfl
  | cons e events ih =>
    rw [patchAll_cons, h e List.mem_cons_self]
    exact ih fun e' he' => h e' (List.mem_cons_of_mem e he')

/-! ## Overwriting -/

/-- A patch has the last word on what it overwrites. -/
structure Overwriting (patch : E → X → X) : Prop where
  idem : ∀ e x, patch e (patch e x) = patch e x
  again : ∀ e f x, patch e (patch f (patch e x)) = patch e (patch f x)

/-- A patch that is applied at the end need not be applied at the beginning. -/
theorem Overwriting.patch_patchAll_patch (h : Overwriting patch) (e : E) (events : List E)
    (x : X) : patch e (patchAll patch events (patch e x)) = patch e (patchAll patch events x) := by
  induction events generalizing x with
  | nil => exact h.idem e x
  | cons f events ih =>
    rw [patchAll_cons, patchAll_cons, ← ih (patch f (patch e x)), h.again e f x, ih (patch f x)]

/-- **A replay repeated changes nothing.** -/
theorem Overwriting.patchAll_patchAll (h : Overwriting patch) (events : List E) (x : X) :
    patchAll patch events (patchAll patch events x) = patchAll patch events x := by
  induction events using List.reverseRecOn generalizing x with
  | nil => rfl
  | append_singleton events e ih =>
    have hconcat : ∀ y, patchAll patch (events ++ [e]) y = patch e (patchAll patch events y) :=
      fun y => patchAll_append events [e] y
    rw [hconcat, hconcat, h.patch_patchAll_patch, ih]

/-- **An end of what a value includes changes nothing.** -/
theorem Overwriting.patchAll_suffix (h : Overwriting patch) {events rest : List E} {x : X}
    (hx : patchAll patch (events ++ rest) x = x) : patchAll patch rest x = x := by
  calc patchAll patch rest x
      = patchAll patch rest (patchAll patch rest (patchAll patch events x)) := by
        rw [← patchAll_append events rest x, hx]
    _ = patchAll patch rest (patchAll patch events x) := h.patchAll_patchAll rest _
    _ = x := by rw [← patchAll_append events rest x, hx]

end Transition
end GroupChat

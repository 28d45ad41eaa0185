import Mathlib.Data.Nat.Notation
import Mathlib.Logic.Function.Basic
import Mathlib.Logic.Relation

/-!
# Runs of a labelled step function

Every concurrent component of this development is one partial function
`step : S → A → Option S`: an action names the call that moves and whatever the
outside world chooses for it (a fresh id, a clock reading, which lock holder
goes first), and `none` means the action is not available, for instance because
the statement still waits for a row lock.  An interleaving is then nothing but a
list of actions.  This file is what every such component shares.

* `exec` runs a list of actions; it is the executable form, used on concrete
  schedules.
* `Reach step C` is reachability by steps that each meet a condition `C` on the
  state they start from; `Reach step Free` is plain reachability.
* `AllStates P` and `AllSteps C` read a property along one run: every state it
  visits satisfies `P`, every step it takes meets `C`.

The two induction rules are `Reach.invariant` and `allStates_iff_allSteps`.  The
second is the shape of an exact safety condition: when a step keeps `P` exactly
if it meets `C`, a run stays inside `P` exactly if each of its steps meets `C`.
-/

namespace GroupChat
namespace Transition

variable {S A : Type*} {step : S → A → Option S}

/-! ## Executing a schedule -/

/-- Run a list of actions, failing as soon as one of them is not available. -/
def exec (step : S → A → Option S) : S → List A → Option S
  | s, [] => some s
  | s, a :: as => (step s a).bind fun t => exec step t as

@[simp] theorem exec_nil (s : S) : exec step s [] = some s := rfl

theorem exec_cons (s : S) (a : A) (as : List A) :
    exec step s (a :: as) = (step s a).bind fun t => exec step t as := rfl

theorem exec_cons_of_step {s t : S} {a : A} (h : step s a = some t) (as : List A) :
    exec step s (a :: as) = exec step t as := by
  rw [exec_cons, h, Option.bind_some]

/-- A schedule that runs through begins with an available action. -/
theorem exists_of_exec_cons {s u : S} {a : A} {as : List A}
    (h : exec step s (a :: as) = some u) :
    ∃ t, step s a = some t ∧ exec step t as = some u := by
  rw [exec_cons] at h
  exact Option.bind_eq_some_iff.mp h

/-- A schedule runs through exactly if its two parts do, one after the other. -/
theorem exec_append (s : S) (as bs : List A) :
    exec step s (as ++ bs) = (exec step s as).bind fun t => exec step t bs := by
  induction as generalizing s with
  | nil => rfl
  | cons a as ih =>
    rw [List.cons_append, exec_cons, exec_cons, Option.bind_assoc]
    exact Option.bind_congr fun t _ => ih t

/-! ## Reachability under a condition -/

/-- No condition: every available step may be taken. -/
def Free : S → A → Prop := fun _ _ => True

/-- One available step that meets the condition `C` where it starts. -/
def StepBy (step : S → A → Option S) (C : S → A → Prop) (s t : S) : Prop :=
  ∃ a, C s a ∧ step s a = some t

/-- Reachability by steps that meet the condition `C`. -/
abbrev Reach (step : S → A → Option S) (C : S → A → Prop) : S → S → Prop :=
  Relation.ReflTransGen (StepBy step C)

theorem Reach.single {C : S → A → Prop} {s t : S} {a : A} (hC : C s a)
    (h : step s a = some t) : Reach step C s t :=
  Relation.ReflTransGen.single ⟨a, hC, h⟩

/-- What the actions of one schedule preserve holds at its end. -/
theorem of_exec_of_mem {P : S → Prop} {s u : S} {as : List A}
    (hP : ∀ a ∈ as, ∀ s t, P s → step s a = some t → P t) (hs : P s)
    (hu : exec step s as = some u) : P u := by
  induction as generalizing s with
  | nil =>
    rw [← Option.some.inj hu]
    exact hs
  | cons a as ih =>
    obtain ⟨t, hst, htu⟩ := exists_of_exec_cons hu
    exact ih (fun b hb => hP b (List.mem_cons_of_mem a hb)) (hP a List.mem_cons_self s t hs hst) htu

/-- **The invariant rule.**  What every conditional step preserves holds at the
end of every conditional run. -/
theorem Reach.invariant {C : S → A → Prop} {P : S → Prop}
    (hP : ∀ s a t, P s → C s a → step s a = some t → P t) {s t : S}
    (h : Reach step C s t) (hs : P s) : P t := by
  induction h with
  | refl => exact hs
  | tail _ hstep ih =>
    obtain ⟨a, hC, ha⟩ := hstep
    exact hP _ a _ ih hC ha

/-- A schedule that runs through is a run. -/
theorem reach_of_exec {s u : S} {as : List A} (h : exec step s as = some u) :
    Reach step Free s u := by
  induction as generalizing s with
  | nil =>
    rw [← Option.some.inj h]
  | cons a as ih =>
    obtain ⟨t, hst, htu⟩ := exists_of_exec_cons h
    exact (Reach.single trivial hst).trans (ih htu)

/-! ## Reading a property along one run -/

/-- Every state the schedule visits, the first one included, satisfies `P`. -/
def AllStates (step : S → A → Option S) (P : S → Prop) : S → List A → Prop
  | s, [] => P s
  | s, a :: as => P s ∧ ∀ t, step s a = some t → AllStates step P t as

/-- Every step the schedule takes meets `C` in the state it starts from. -/
def AllSteps (step : S → A → Option S) (C : S → A → Prop) : S → List A → Prop
  | _, [] => True
  | s, a :: as => ∀ t, step s a = some t → C s a ∧ AllSteps step C t as

/-- On a concrete run a decidable condition is decided by running it. -/
instance decidableAllSteps {C : S → A → Prop} [∀ s a, Decidable (C s a)] :
    ∀ (s : S) (as : List A), Decidable (AllSteps step C s as)
  | _, [] => isTrue trivial
  | s, a :: as =>
    haveI : ∀ t, Decidable (AllSteps step C t as) := fun t => decidableAllSteps t as
    inferInstanceAs (Decidable (∀ t ∈ step s a, C s a ∧ AllSteps step C t as))

theorem AllSteps.and {C D : S → A → Prop} {s : S} {as : List A} (hC : AllSteps step C s as)
    (hD : AllSteps step D s as) : AllSteps step (fun s a => C s a ∧ D s a) s as := by
  induction as generalizing s with
  | nil => trivial
  | cons a as ih =>
    intro t hst
    exact ⟨⟨(hC t hst).1, (hD t hst).1⟩, ih (hC t hst).2 (hD t hst).2⟩

theorem AllSteps.mono {C D : S → A → Prop} {s : S} {as : List A} (h : AllSteps step C s as)
    (hCD : ∀ t a, C t a → D t a) : AllSteps step D s as := by
  induction as generalizing s with
  | nil => trivial
  | cons a as ih => exact fun t hst => ⟨hCD s a (h t hst).1, ih (h t hst).2⟩

theorem AllStates.head {P : S → Prop} {s : S} {as : List A}
    (h : AllStates step P s as) : P s := by
  cases as with
  | nil => exact h
  | cons a as => exact h.1

theorem AllStates.mono {P Q : S → Prop} {s : S} {as : List A}
    (h : AllStates step P s as) (hPQ : ∀ t, P t → Q t) : AllStates step Q s as := by
  induction as generalizing s with
  | nil => exact hPQ s h
  | cons a as ih => exact ⟨hPQ s h.1, fun t hst => ih (h.2 t hst)⟩

/-- The last state of a run is one of its states. -/
theorem AllStates.last {P : S → Prop} {s u : S} {as : List A}
    (h : AllStates step P s as) (hu : exec step s as = some u) : P u := by
  induction as generalizing s with
  | nil =>
    rw [← Option.some.inj hu]
    exact h
  | cons a as ih =>
    obtain ⟨t, hst, htu⟩ := exists_of_exec_cons hu
    exact ih (h.2 t hst) htu

/-- The rest of a run, from any state on the way, is a run of its own. -/
theorem AllStates.suffix {P : S → Prop} {s u : S} {as bs : List A}
    (h : AllStates step P s (as ++ bs)) (hu : exec step s as = some u) :
    AllStates step P u bs := by
  induction as generalizing s with
  | nil =>
    rw [← Option.some.inj hu]
    exact h
  | cons a as ih =>
    obtain ⟨t, hst, htu⟩ := exists_of_exec_cons hu
    exact ih (h.2 t hst) htu

/-- To read `P` along a run it is enough to read it after every prefix. -/
theorem allStates_of_prefixes {P : S → Prop} {s : S} {cs : List A}
    (h : ∀ as bs u, cs = as ++ bs → exec step s as = some u → P u) :
    AllStates step P s cs := by
  induction cs generalizing s with
  | nil => exact h [] [] s rfl rfl
  | cons c cs ih =>
    refine ⟨h [] (c :: cs) s rfl rfl, fun t hst => ih fun as bs u hcs hu => ?_⟩
    refine h (c :: as) bs u (by rw [hcs, List.cons_append]) ?_
    rw [exec_cons_of_step hst, hu]

/-- What every step preserves holds along every run. -/
theorem AllStates.of_invariant {P : S → Prop}
    (hP : ∀ s a t, P s → step s a = some t → P t) {s : S} (hs : P s) (as : List A) :
    AllStates step P s as := by
  induction as generalizing s with
  | nil => exact hs
  | cons a as ih => exact ⟨hs, fun t hst => ih (hP s a t hs hst)⟩

/-- What every step that meets `C` preserves holds along every run whose steps do. -/
theorem AllStates.of_allSteps {P : S → Prop} {C : S → A → Prop}
    (hP : ∀ s a t, P s → C s a → step s a = some t → P t) {s : S} {as : List A} (hs : P s)
    (h : AllSteps step C s as) : AllStates step P s as := by
  induction as generalizing s with
  | nil => exact hs
  | cons a as ih =>
    refine ⟨hs, fun t hst => ?_⟩
    obtain ⟨hC, htail⟩ := h t hst
    exact ih (hP s a t hs hC hst) htail

/-- Actions that meet `C` wherever they are taken. -/
theorem AllSteps.of_mem {C : S → A → Prop} {s : S} {as : List A}
    (h : ∀ a ∈ as, ∀ t, C t a) : AllSteps step C s as := by
  induction as generalizing s with
  | nil => trivial
  | cons a as ih =>
    exact fun t _ => ⟨h a List.mem_cons_self s, ih fun b hb => h b (List.mem_cons_of_mem a hb)⟩

/-- What holds of a schedule and the state it leads to, and survives one more action that
meets `C`, holds of every longer schedule whose steps all do. -/
theorem AllSteps.of_exec_append {C : S → A → Prop} {P : List A → S → Prop} {s u : S}
    {before as : List A}
    (hP : ∀ as a s t, P as s → C s a → step s a = some t → P (as ++ [a]) t)
    (h : AllSteps step C s as) (hs : P before s) (hu : exec step s as = some u) :
    P (before ++ as) u := by
  induction as generalizing s before with
  | nil =>
    rw [← Option.some.inj hu, List.append_nil]
    exact hs
  | cons a as ih =>
    obtain ⟨t, hst, htu⟩ := exists_of_exec_cons hu
    obtain ⟨hC, htail⟩ := h t hst
    rw [← List.singleton_append, ← List.append_assoc]
    exact ih htail (hP before a s t hs hC hst) htu

/-- The same of every schedule, when it survives every action. -/
theorem of_exec_append {P : List A → S → Prop} {s u : S} {before as : List A}
    (hP : ∀ as a s t, P as s → step s a = some t → P (as ++ [a]) t) (hs : P before s)
    (hu : exec step s as = some u) : P (before ++ as) u :=
  AllSteps.of_exec_append (fun as a s t h _ => hP as a s t h)
    (AllSteps.of_mem (C := Free) fun _ _ _ => trivial) hs hu

theorem AllSteps.append {C : S → A → Prop} {s : S} {as bs : List A}
    (h : AllSteps step C s as) (hbs : ∀ u, exec step s as = some u → AllSteps step C u bs) :
    AllSteps step C s (as ++ bs) := by
  induction as generalizing s with
  | nil => exact hbs s rfl
  | cons a as ih =>
    intro t hst
    obtain ⟨hC, htail⟩ := h t hst
    exact ⟨hC, ih htail fun u hu => hbs u (by rw [exec_cons_of_step hst, hu])⟩

/-- The condition holds wherever a run has come to, at the step it takes there. -/
theorem AllSteps.of_exec {C : S → A → Prop} {s u : S} {a : A} {as bs : List A}
    (h : AllSteps step C s (as ++ a :: bs)) (hu : exec step s as = some u)
    (ha : (step u a).isSome) : C u a := by
  induction as generalizing s with
  | nil =>
    obtain rfl : s = u := Option.some.inj hu
    obtain ⟨t, hst⟩ := Option.isSome_iff_exists.mp ha
    exact (h t hst).1
  | cons b as ih =>
    obtain ⟨t, hst, htu⟩ := exists_of_exec_cons hu
    exact ih (h t hst).2 htu

/-- A run whose steps all meet `C` is a conditional run. -/
theorem AllSteps.reach {C : S → A → Prop} {s u : S} {as : List A}
    (h : AllSteps step C s as) (hu : exec step s as = some u) : Reach step C s u := by
  induction as generalizing s with
  | nil =>
    rw [← Option.some.inj hu]
  | cons a as ih =>
    obtain ⟨t, hst, htu⟩ := exists_of_exec_cons hu
    obtain ⟨hC, htail⟩ := h t hst
    exact (Reach.single hC hst).trans (ih htail htu)

/-- **An exact step condition is an exact run condition.**  Let `I` be an
invariant of all steps, and suppose that from a state satisfying `I` and `P` a
step keeps `P` exactly if it meets `C`.  Then a run stays inside `P` exactly if
each of its steps meets `C`. -/
theorem allStates_iff_allSteps {I P : S → Prop} {C : S → A → Prop}
    (hI : ∀ s a t, I s → step s a = some t → I t)
    (hPC : ∀ s a t, I s → P s → step s a = some t → (P t ↔ C s a))
    {s : S} (hIs : I s) (hPs : P s) (as : List A) :
    AllStates step P s as ↔ AllSteps step C s as := by
  induction as generalizing s with
  | nil => exact ⟨fun _ => trivial, fun _ => hPs⟩
  | cons a as ih =>
    constructor
    · rintro ⟨-, h⟩ t hst
      have hPt : P t := (h t hst).head
      exact ⟨(hPC s a t hIs hPs hst).mp hPt, (ih (hI s a t hIs hst) hPt).mp (h t hst)⟩
    · intro h
      refine ⟨hPs, fun t hst => ?_⟩
      obtain ⟨hC, htail⟩ := h t hst
      exact (ih (hI s a t hIs hst) ((hPC s a t hIs hPs hst).mpr hC)).mpr htail

/-- Two step conditions that agree wherever an invariant holds agree along every
run that starts inside the invariant. -/
theorem allSteps_congr {I : S → Prop} {C D : S → A → Prop}
    (hI : ∀ s a t, I s → step s a = some t → I t)
    (hCD : ∀ s a t, I s → step s a = some t → (C s a ↔ D s a))
    {s : S} (hIs : I s) (as : List A) :
    AllSteps step C s as ↔ AllSteps step D s as := by
  induction as generalizing s with
  | nil => exact Iff.rfl
  | cons a as ih =>
    refine forall_congr' fun t => forall_congr' fun hst => ?_
    exact and_congr (hCD s a t hIs hst) (ih (hI s a t hIs hst))

/-! ## Calls by number -/

section Calls

variable {I C : Type*} [DecidableEq I] {P : C → Prop} {calls : I → C} {c : I} {pc : C}

/-- One of several calls has moved: if it carries what it carried, some call still does. -/
theorem exists_of_moved (h : ∃ c', P (calls c')) (hpc : P (calls c) → P pc) :
    ∃ c', P (Function.update calls c pc c') := by
  obtain ⟨c', hc'⟩ := h
  refine (Function.exists_update_iff calls fun _ pc => P pc).mpr ?_
  by_cases hne : c' = c
  · exact Or.inl (hpc (hne ▸ hc'))
  · exact Or.inr ⟨c', hne, hc'⟩

/-- A call that had nothing has moved. -/
theorem exists_update_iff_or (hpc : ¬ P (calls c)) :
    (∃ c', P (Function.update calls c pc c')) ↔ P pc ∨ ∃ c', P (calls c') := by
  rw [Function.exists_update_iff calls fun _ pc => P pc]
  refine or_congr_right ⟨fun ⟨c', _, h⟩ => ⟨c', h⟩, fun ⟨c', h⟩ => ⟨c', ?_, h⟩⟩
  rintro rfl
  exact hpc h

/-- A call has moved and has what it had. -/
theorem exists_update_congr (hpc : P pc ↔ P (calls c)) :
    (∃ c', P (Function.update calls c pc c')) ↔ ∃ c', P (calls c') := by
  refine ⟨fun h => ?_, fun h => exists_of_moved h hpc.mpr⟩
  have hback : ∃ c', P (Function.update (Function.update calls c pc) c (calls c) c') := by
    refine exists_of_moved h fun hp => hpc.mp ?_
    rwa [Function.update_self] at hp
  rwa [Function.update_idem, Function.update_eq_self] at hback

end Calls

end Transition
end GroupChat

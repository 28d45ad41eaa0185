import GroupChat.Transition.Parts

/-!
# Refinement of a server

A server is a function, a specification is a relation: from this state, asked this, it may
answer that and be in that state.  The server refines the specification when each answer it
gives is one the specification may give, and the two stay in step (`Refines`).  Then so does
every run (`Refines.serveAll`), and what the specification keeps true of its states is true of
every state of the server that a run leads to (`Refines.invariant`).
-/

namespace GroupChat
namespace Transition

variable {W I O S J P : Type*} {serve : I → W → W × O} {ok : I → W → Prop}
  {Spec : S → J → S → P → Prop} {rel : W → S → Prop} {asks : I → J} {shows : I → O → P → Prop}

/-- A run of the specification. -/
inductive SpecRun (Spec : S → J → S → P → Prop) : S → List J → S → List P → Prop
  | nil (s : S) : SpecRun Spec s [] s []
  | cons {s t u : S} {j : J} {js : List J} {p : P} {ps : List P} (head : Spec s j t p)
      (tail : SpecRun Spec t js u ps) : SpecRun Spec s (j :: js) u (p :: ps)

/-- The questions are `asks` to the specification, and its answers are shown as `shows`. -/
def Refines (serve : I → W → W × O) (ok : I → W → Prop) (Spec : S → J → S → P → Prop)
    (rel : W → S → Prop) (asks : I → J) (shows : I → O → P → Prop) : Prop :=
  ∀ i w s, ok i w → rel w s → ∃ t p, Spec s (asks i) t p ∧ rel (serve i w).1 t ∧
    shows i (serve i w).2 p

/-- Each answer shows the one of the specification at its place. -/
inductive ShowAll (shows : I → O → P → Prop) : List I → List O → List P → Prop
  | nil : ShowAll shows [] [] []
  | cons {i : I} {o : O} {p : P} {is : List I} {os : List O} {ps : List P} (head : shows i o p)
      (tail : ShowAll shows is os ps) : ShowAll shows (i :: is) (o :: os) (p :: ps)

/-- **A run of the server is a run of the specification.** -/
theorem Refines.serveAll (h : Refines serve ok Spec rel asks shows) {is : List I} {w : W} {s : S}
    (hok : AllAsked serve ok is w) (hrel : rel w s) :
    ∃ t ps, SpecRun Spec s (is.map asks) t ps ∧ rel (Transition.serveAll serve is w).1 t ∧
      ShowAll shows is (Transition.serveAll serve is w).2 ps := by
  induction is generalizing w s with
  | nil => exact ⟨s, [], .nil s, hrel, .nil⟩
  | cons i is ih =>
    obtain ⟨hi, his⟩ := hok
    obtain ⟨t, p, hstep, hrel', hshows⟩ := h i w s hi hrel
    obtain ⟨u, ps, hrun, hrel'', hshowsAll⟩ := ih his hrel'
    exact ⟨u, p :: ps, .cons hstep hrun, hrel'', .cons hshows hshowsAll⟩

/-- What every step of the specification keeps, every run of it keeps. -/
theorem SpecRun.invariant {Inv : S → Prop} (hinv : ∀ s j t p, Inv s → Spec s j t p → Inv t)
    {s t : S} {js : List J} {ps : List P} (h : SpecRun Spec s js t ps) (hs : Inv s) : Inv t := by
  induction h with
  | nil s => exact hs
  | cons head tail ih => exact ih (hinv _ _ _ _ hs head)

end Transition
end GroupChat

import Mathlib.Data.Finset.Image
import Mathlib.Logic.Function.Basic

/-!
# Clubs

What a membership service is for, on paper.  A club has a founder, a name, members of different
seniority, and an owner, who is one of the members.  That it has one is part of what a club is,
so a club without an owner, or with two, cannot be written down.

Anyone may found a club, under a name they have not used, and anyone may join one.  A member may
leave; when the owner leaves, the senior one of the others takes over, and when there is no
other, the club is dissolved.  The owner may hand the club to another member.  `Step` is this,
with `refused` for everything else.
-/

namespace GroupChat
namespace Society

variable {G U N K : Type*}

/-! ## Clubs -/

/-- A club with its members, each since when. -/
structure Club (U N K : Type*) where
  founder : U
  name : N
  since : U → Option K
  owner : U
  owner_isSome : (since owner).isSome = true

namespace Club

/-- The user is in the club. -/
def Has (c : Club U N K) (u : U) : Prop := (c.since u).isSome = true

theorem has_owner (c : Club U N K) : c.Has c.owner := c.owner_isSome

/-- Hand the club to a member. -/
def handTo (c : Club U N K) (u : U) (h : c.Has u) : Club U N K where
  founder := c.founder
  name := c.name
  since := c.since
  owner := u
  owner_isSome := h

section Members

variable [DecidableEq U]

/-- The founder is alone. -/
def founded (u : U) (name : N) (k : K) : Club U N K where
  founder := u
  name := name
  since := Function.update (fun _ => none) u (some k)
  owner := u
  owner_isSome := by rw [Function.update_self, Option.isSome_some]

/-- A user joins. -/
def enrol (c : Club U N K) (u : U) (k : K) : Club U N K where
  founder := c.founder
  name := c.name
  since := Function.update c.since u (some k)
  owner := c.owner
  owner_isSome := by
    by_cases h : c.owner = u
    · rw [h, Function.update_self, Option.isSome_some]
    · rw [Function.update_of_ne h, c.owner_isSome]

/-- A user who is not the owner leaves. -/
def dismiss (c : Club U N K) (u : U) (h : c.owner ≠ u) : Club U N K where
  founder := c.founder
  name := c.name
  since := Function.update c.since u none
  owner := c.owner
  owner_isSome := by rw [Function.update_of_ne h, c.owner_isSome]

@[simp] theorem since_founded (u : U) (name : N) (k : K) :
    (founded u name k).since = Function.update (fun _ => none) u (some k) := rfl

@[simp] theorem since_enrol (c : Club U N K) (u : U) (k : K) :
    (c.enrol u k).since = Function.update c.since u (some k) := rfl

@[simp] theorem since_dismiss (c : Club U N K) (u : U) (h : c.owner ≠ u) :
    (c.dismiss u h).since = Function.update c.since u none := rfl

end Members

/-- The senior one of all members but this. -/
def SeniorBut [LE K] (c : Club U N K) (u next : U) : Prop :=
  next ≠ u ∧ ∃ k, c.since next = some k ∧ ∀ v k', v ≠ u → c.since v = some k' → k ≤ k'

end Club

/-! ## What may happen -/

/-- All clubs. -/
abbrev Clubs (G U N K : Type*) := G → Option (Club U N K)

/-- What a user wants. -/
inductive Act (G U N K : Type*) where
  | create (u : U) (name : N) (g : G) (k : K)
  | join (u : U) (g : G) (k : K)
  | leave (u : U) (g : G)
  /-- To whom it is meant to go may be nobody. -/
  | transfer (u : U) (g : G) (v : Option U)

/-- What becomes of it. -/
inductive Outcome (U : Type*) where
  | refused
  | created
  | joined
  | left
  | dissolved
  | handedOver (next : U)
  | transferred (next : U)

/-- A club of this name is the user's. -/
def NameTaken (clubs : Clubs G U N K) (u : U) (name : N) : Prop :=
  ∃ g c, clubs g = some c ∧ c.founder = u ∧ c.name = name

/-- The user is in the club. -/
def Member (clubs : Clubs G U N K) (g : G) (u : U) : Prop := ∃ c, clubs g = some c ∧ c.Has u

/-- The user may give the club to this member. -/
def MayTransfer (clubs : Clubs G U N K) (u : U) (g : G) (v : Option U) : Prop :=
  ∃ c next, clubs g = some c ∧ c.owner = u ∧ v = some next ∧ c.Has next ∧ next ≠ u

inductive Step [DecidableEq G] [DecidableEq U] [LE K] :
    Clubs G U N K → Act G U N K → Clubs G U N K → Outcome U → Prop
  | created {clubs : Clubs G U N K} {u : U} {name : N} {g : G} {k : K} (free : clubs g = none)
      (untaken : ¬NameTaken clubs u name) :
      Step clubs (.create u name g k) (Function.update clubs g (some (.founded u name k))) .created
  | nameTaken {clubs : Clubs G U N K} {u : U} {name : N} {g : G} {k : K}
      (taken : NameTaken clubs u name) : Step clubs (.create u name g k) clubs .refused
  | joined {clubs : Clubs G U N K} {u : U} {g : G} {k : K} {c : Club U N K}
      (club : clubs g = some c) (stranger : ¬c.Has u) :
      Step clubs (.join u g k) (Function.update clubs g (some (c.enrol u k))) .joined
  | notJoined {clubs : Clubs G U N K} {u : U} {g : G} {k : K}
      (no : ∀ c, clubs g = some c → c.Has u) : Step clubs (.join u g k) clubs .refused
  | left {clubs : Clubs G U N K} {u : U} {g : G} {c : Club U N K} (club : clubs g = some c)
      (member : c.Has u) (notOwner : c.owner ≠ u) :
      Step clubs (.leave u g) (Function.update clubs g (some (c.dismiss u notOwner))) .left
  | dissolved {clubs : Clubs G U N K} {u : U} {g : G} {c : Club U N K} (club : clubs g = some c)
      (owner : c.owner = u) (alone : ∀ v, c.Has v → v = u) :
      Step clubs (.leave u g) (Function.update clubs g none) .dissolved
  | handedOver {clubs : Clubs G U N K} {u : U} {g : G} {c : Club U N K} {next : U}
      (club : clubs g = some c) (owner : c.owner = u) (senior : c.SeniorBut u next)
      (has : c.Has next) (ne : (c.handTo next has).owner ≠ u) :
      Step clubs (.leave u g)
        (Function.update clubs g (some ((c.handTo next has).dismiss u ne))) (.handedOver next)
  | notLeft {clubs : Clubs G U N K} {u : U} {g : G} (no : ¬Member clubs g u) :
      Step clubs (.leave u g) clubs .refused
  | transferred {clubs : Clubs G U N K} {u next : U} {g : G} {c : Club U N K}
      (club : clubs g = some c) (owner : c.owner = u) (has : c.Has next) (ne : next ≠ u) :
      Step clubs (.transfer u g (some next))
        (Function.update clubs g (some (c.handTo next has))) (.transferred next)
  | notTransferred {clubs : Clubs G U N K} {u : U} {g : G} {v : Option U}
      (no : ¬MayTransfer clubs u g v) : Step clubs (.transfer u g v) clubs .refused

/-! ## What stays true -/

section Steps

variable [DecidableEq G] [DecidableEq U] [LE K] {clubs clubs' : Clubs G U N K} {a : Act G U N K}
  {o : Outcome U}

/-- No founder has two clubs of one name. -/
def NamesUnique (clubs : Clubs G U N K) : Prop :=
  ∀ g g' c c', clubs g = some c → clubs g' = some c' → c.founder = c'.founder →
    c.name = c'.name → g = g'

omit [DecidableEq U] [LE K] in
/-- A club is replaced by one of the same founder and name. -/
theorem namesUnique_update {g : G} {c c' : Club U N K} (h : NamesUnique clubs)
    (hc : clubs g = some c) (hfounder : c'.founder = c.founder) (hname : c'.name = c.name) :
    NamesUnique (Function.update clubs g (some c')) := by
  have hold : ∀ x y, Function.update clubs g (some c') x = some y →
      ∃ z, clubs x = some z ∧ y.founder = z.founder ∧ y.name = z.name := by
    intro x y hxy
    by_cases hx : x = g
    · subst hx
      rw [Function.update_self] at hxy
      obtain rfl := Option.some.inj hxy
      exact ⟨c, hc, hfounder, hname⟩
    · rw [Function.update_of_ne hx] at hxy
      exact ⟨y, hxy, rfl, rfl⟩
  intro x x' y y' hy hy' hf hn
  obtain ⟨z, hz, hzf, hzn⟩ := hold x y hy
  obtain ⟨z', hz', hzf', hzn'⟩ := hold x' y' hy'
  exact h x x' z z' hz hz' (hzf.symm.trans (hf.trans hzf')) (hzn.symm.trans (hn.trans hzn'))

/-- **Names stay apart.** -/
theorem Step.namesUnique (h : Step clubs a clubs' o) (hunique : NamesUnique clubs) :
    NamesUnique clubs' := by
  cases h with
  | @created u name g k hfree huntaken =>
    intro x x' y y' hy hy' hf hn
    by_cases hx : x = g <;> by_cases hx' : x' = g
    · rw [hx, hx']
    · subst hx
      rw [Function.update_self] at hy
      rw [Function.update_of_ne hx'] at hy'
      obtain rfl := Option.some.inj hy
      exact absurd ⟨x', y', hy', hf.symm, hn.symm⟩ huntaken
    · subst hx'
      rw [Function.update_of_ne hx] at hy
      rw [Function.update_self] at hy'
      obtain rfl := Option.some.inj hy'
      exact absurd ⟨x, y, hy, hf, hn⟩ huntaken
    · rw [Function.update_of_ne hx] at hy
      rw [Function.update_of_ne hx'] at hy'
      exact hunique x x' y y' hy hy' hf hn
  | @dissolved u g c hclub howner halone =>
    intro x x' y y' hy hy' hf hn
    have hne : ∀ {z w}, Function.update clubs g none z = some w → clubs z = some w := by
      intro z w hzw
      by_cases hz : z = g
      · subst hz
        rw [Function.update_self] at hzw
        cases hzw
      · rwa [Function.update_of_ne hz] at hzw
    exact hunique x x' y y' (hne hy) (hne hy') hf hn
  | joined hclub _ => exact namesUnique_update hunique hclub rfl rfl
  | left hclub _ _ => exact namesUnique_update hunique hclub rfl rfl
  | handedOver hclub _ _ _ _ => exact namesUnique_update hunique hclub rfl rfl
  | transferred hclub _ _ _ => exact namesUnique_update hunique hclub rfl rfl
  | nameTaken _ => exact hunique
  | notJoined _ => exact hunique
  | notLeft _ => exact hunique
  | notTransferred _ => exact hunique

end Steps

end Society
end GroupChat

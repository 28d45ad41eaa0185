import GroupChat.Groups.Invariant

/-!
# One owner

Every group is created with one owner, and `leave` and `transferOwnership` only
move the role from one membership to another.  Each of them decides which
memberships to write from rows it has read earlier in the same transaction, and
under READ COMMITTED those rows may have changed by the time of the write: an
update waits for the transaction that holds the row and is then made by id,
without looking at the role again.

`oneOwner_iff` says exactly what is left.  A run keeps one owner in every group
exactly if at each commit the role is still where the transaction read it: a
departing member does not own the group, and of the two memberships of a handover
one does.  `twoTransfersRun` is a run that fails the condition, and leaves a group
with two owners.
-/

namespace GroupChat
namespace Groups

open Database Transition

/-! ## The property -/

/-- The membership owns the group. -/
def Owns (t : Tables) (groupId : Uuid) (r : GroupMember) : Prop :=
  .member r ∈ t ∧ r.groupId = groupId ∧ r.role = .owner

/-- Every group has exactly one membership with the role of owner. -/
def OneOwner (t : Tables) : Prop :=
  ∀ g, .group g ∈ t → ∃! r, Owns t g.id r

/-- The role of owner is where the transaction read it: with the two memberships of
a handover, or not with a departing member. -/
def Outcome.StillHolds (t : Tables) : Outcome → Prop
  | .left me => ∀ r, Owns t me.groupId r → r.id ≠ me.id
  | .handedOver a b | .transferred a b =>
    ∃ r, Owns t a.groupId r ∧ (r.id = a.id ∨ r.id = b.id)
  | .created _ _ | .deletedGroup _ => True

/-- If the step commits a transaction, what the transaction read about the role of
owner still holds. -/
def CheckStillHolds (s : State) (a : Action) : Prop :=
  ∀ o, Commits s a o → o.StillHolds s.store.committed

/-! ## Handing a role over -/

/-- Suppose one membership of the group `k` gains the role, and of the others the
ones without the ids `i` and `j` keep theirs.  Then there is one owner after as
before exactly if the owner was one of the two. -/
theorem existsUnique_owns_handover {t t' : Tables} {k i j : Uuid} {b : GroupMember}
    (h : ∃! r, Owns t k r) (hb : Owns t' k b) (hbj : b.id = j)
    (hrest : ∀ r, Owns t' k r ↔ r = b ∨ Owns t k r ∧ r.id ≠ i ∧ r.id ≠ j) :
    (∃! r, Owns t' k r) ↔ ∃ r, Owns t k r ∧ (r.id = i ∨ r.id = j) := by
  obtain ⟨o, ho, hounique⟩ := h
  constructor
  · intro hone
    refine ⟨o, ho, ?_⟩
    by_contra hnot
    rw [not_or] at hnot
    have ho' : Owns t' k o := (hrest o).mpr (Or.inr ⟨ho, hnot⟩)
    have hob : o = b := hone.unique ho' hb
    exact hnot.2 (by rw [hob, hbj])
  · rintro ⟨r, hr, hid⟩
    refine ⟨b, hb, fun r' hr' => ?_⟩
    rcases (hrest r').mp hr' with rfl | ⟨hown, hi, hj⟩
    · rfl
    · have hrr : r' = r := (hounique r' hown).trans (hounique r hr).symm
      rw [hrr] at hi hj
      exact absurd hid (not_or.mpr ⟨hi, hj⟩)

/-- A group whose owners have not changed has one owner after as before. -/
theorem existsUnique_owns_congr {t t' : Tables} {k : Uuid}
    (h : ∀ r, Owns t' k r ↔ Owns t k r) : (∃! r, Owns t' k r) ↔ ∃! r, Owns t k r :=
  existsUnique_congr h

/-! ## What each outcome does to the owners -/

section Publish

variable {t t' : Tables} {ws : List (Write Row Key)} {log : Log}

theorem oneOwner_created {g : Group} {row : GroupMember} (ht : OneOwner t)
    (hfk : ∀ r, .member r ∈ t → ∃ g, .group g ∈ t ∧ g.id = r.groupId)
    (ho : OutcomeInv t ws log (.created g row))
    (hpub : (Outcome.created g row).Publishes t t') : OneOwner t' := by
  obtain ⟨-, hg, -, -, -, hgroup, hrole⟩ := ho
  obtain ⟨hgroups, hmembers⟩ := hpub
  intro g' hg'
  rcases (hgroups g').mp hg' with rfl | hg'
  · refine ⟨row, ⟨(hmembers row).mpr (Or.inl rfl), hgroup, hrole⟩, ?_⟩
    rintro r ⟨hr, hrg, -⟩
    rcases (hmembers r).mp hr with rfl | hr
    · rfl
    · obtain ⟨g₀, hg₀, hid⟩ := hfk r hr
      exact absurd (by rw [Row.key_group, hid, hrg]) (hg _ hg₀)
  · refine (existsUnique_owns_congr fun r => ?_).mpr (ht g' hg')
    have hne : g'.id ≠ g.id := fun h => hg _ hg' (by rw [Row.key_group, h])
    constructor
    · rintro ⟨hr, hrg, hrole'⟩
      rcases (hmembers r).mp hr with rfl | hr
      · exact absurd (hrg.symm.trans hgroup) hne
      · exact ⟨hr, hrg, hrole'⟩
    · rintro ⟨hr, hrg, hrole'⟩
      exact ⟨(hmembers r).mpr (Or.inr hr), hrg, hrole'⟩

theorem oneOwner_deletedGroup {me : GroupMember} (ht : OneOwner t)
    (hpub : (Outcome.deletedGroup me).Publishes t t') : OneOwner t' := by
  obtain ⟨hgroups, hmembers⟩ := hpub
  intro g hg
  obtain ⟨hg, hne⟩ := (hgroups g).mp hg
  refine (existsUnique_owns_congr fun r => ?_).mpr (ht g hg)
  constructor
  · rintro ⟨hr, hrg, hrole⟩
    exact ⟨((hmembers r).mp hr).1, hrg, hrole⟩
  · rintro ⟨hr, hrg, hrole⟩
    refine ⟨(hmembers r).mpr ⟨hr, ?_⟩, hrg, hrole⟩
    rw [hrg]
    exact hne

/-- A departure keeps one owner exactly if the departing member is not the owner. -/
theorem oneOwner_left_iff {me : GroupMember} (ht : OneOwner t)
    (hfk : ∀ r, .member r ∈ t → ∃ g, .group g ∈ t ∧ g.id = r.groupId)
    (hissued : ∀ r, .member r ∈ t → Issued log r) (ho : OutcomeInv t ws log (.left me))
    (hpub : (Outcome.left me).Publishes t t') :
    OneOwner t' ↔ (Outcome.left me).StillHolds t := by
  obtain ⟨-, hme, r₀, hr₀, hid₀⟩ := ho
  obtain ⟨hgroups, hmembers⟩ := hpub
  have howns : ∀ k r, Owns t' k r ↔ Owns t k r ∧ r.id ≠ me.id := by
    intro k r
    rw [Owns, Owns, hmembers r]
    constructor
    · rintro ⟨⟨hr, hid⟩, hrg, hrole⟩
      exact ⟨⟨hr, hrg, hrole⟩, hid⟩
    · rintro ⟨⟨hr, hrg, hrole⟩, hid⟩
      exact ⟨⟨hr, hid⟩, hrg, hrole⟩
  constructor
  · intro hone r hr hid
    obtain ⟨g, hg, hgid⟩ := hfk r hr.1
    have hrg : r.groupId = me.groupId := hr.2.1
    obtain ⟨o, ho', -⟩ := hone g ((hgroups g).mpr hg)
    obtain ⟨hot, hoid⟩ := (howns _ _).mp ho'
    have hor : o = r := by
      refine (ht g hg).unique hot ⟨hr.1, hgid.symm, hr.2.2⟩
    rw [hor] at hoid
    exact hoid hid
  · intro hstill g hg
    obtain ⟨o, ho', hunique⟩ := ht g ((hgroups g).mp hg)
    have hoid : o.id ≠ me.id := by
      intro hid
      have hgroup : o.groupId = me.groupId := (hissued o ho'.1).groupId_eq hme hid
      exact hstill o ⟨ho'.1, hgroup, ho'.2.2⟩ hid
    exact ⟨o, (howns _ _).mpr ⟨ho', hoid⟩, fun r hr => hunique r ((howns _ _).mp hr).1⟩

/-- A handover from `a` to `b` keeps one owner exactly if the owner was `a` or `b`. -/
theorem oneOwner_handover_iff {a b r₀ : GroupMember} (ht : OneOwner t)
    (hfk : ∀ r, .member r ∈ t → ∃ g, .group g ∈ t ∧ g.id = r.groupId)
    (hissued : ∀ r, .member r ∈ t → Issued log r) (hpair : Pair log a b)
    (hgroups : ∀ g, .group g ∈ t' ↔ .group g ∈ t) (hr₀ : .member r₀ ∈ t) (hid₀ : r₀.id = b.id)
    (howns : ∀ k r, Owns t' k r ↔
      (r = { r₀ with role := .owner } ∧ k = r.groupId ∨ Owns t k r ∧ r.id ≠ b.id) ∧ r.id ≠ a.id) :
    OneOwner t' ↔ ∃ r, Owns t a.groupId r ∧ (r.id = a.id ∨ r.id = b.id) := by
  have hgroup₀ : r₀.groupId = b.groupId := (hissued r₀ hr₀).groupId_eq hpair.issued_right hid₀
  obtain ⟨g₀, hg₀, hgid₀⟩ := hfk r₀ hr₀
  have hga : g₀.id = a.groupId := by rw [hgid₀, hgroup₀, hpair.groupId_eq]
  have hnew : Owns t' g₀.id { r₀ with role := .owner } := by
    refine (howns _ _).mpr ⟨Or.inl ⟨rfl, hgid₀⟩, ?_⟩
    show r₀.id ≠ a.id
    rw [hid₀]
    exact hpair.id_ne.symm
  have hrest : ∀ r, Owns t' g₀.id r ↔
      r = { r₀ with role := .owner } ∨ Owns t g₀.id r ∧ r.id ≠ a.id ∧ r.id ≠ b.id := by
    intro r
    rw [howns]
    constructor
    · rintro ⟨⟨rfl, -⟩ | ⟨hr, hb⟩, ha⟩
      · exact Or.inl rfl
      · exact Or.inr ⟨hr, ha, hb⟩
    · rintro (rfl | ⟨hr, ha, hb⟩)
      · exact (howns _ _).mp hnew
      · exact ⟨Or.inr ⟨hr, hb⟩, ha⟩
  have hother : ∀ g : Group, g.id ≠ g₀.id → ∀ r, Owns t' g.id r ↔ Owns t g.id r := by
    intro g hne r
    rw [howns]
    constructor
    · rintro ⟨⟨rfl, hk⟩ | ⟨hr, -⟩, -⟩
      · exact absurd (hk.trans hgid₀.symm) hne
      · exact hr
    · intro hr
      refine ⟨Or.inr ⟨hr, fun hid => hne ?_⟩, fun hid => hne ?_⟩
      · rw [← hr.2.1, (hissued r hr.1).groupId_eq hpair.issued_right hid, hga, hpair.groupId_eq]
      · rw [← hr.2.1, (hissued r hr.1).groupId_eq hpair.issued_left hid, hga]
  have hiff := existsUnique_owns_handover (i := a.id) (ht g₀ hg₀) hnew hid₀ hrest
  rw [← hga]
  constructor
  · exact fun hone => hiff.mp (hone g₀ ((hgroups g₀).mpr hg₀))
  · intro hstill g hg
    by_cases hgg : g.id = g₀.id
    · rw [hgg]
      exact hiff.mpr hstill
    · exact (existsUnique_owns_congr (hother g hgg)).mpr (ht g ((hgroups g).mp hg))

/-- **The exact condition on an outcome.**  Publishing it keeps one owner in every
group exactly if the role is still where the transaction read it. -/
theorem oneOwner_publishes_iff {o : Outcome} (ht : OneOwner t)
    (hfk : ∀ r, .member r ∈ t → ∃ g, .group g ∈ t ∧ g.id = r.groupId)
    (hissued : ∀ r, .member r ∈ t → Issued log r) (ho : OutcomeInv t ws log o)
    (hpub : o.Publishes t t') : OneOwner t' ↔ o.StillHolds t := by
  cases o with
  | created g row => exact iff_of_true (oneOwner_created ht hfk ho hpub) trivial
  | deletedGroup me => exact iff_of_true (oneOwner_deletedGroup ht hpub) trivial
  | left me => exact oneOwner_left_iff ht hfk hissued ho hpub
  | handedOver a b =>
    obtain ⟨hpair, -⟩ := ho
    obtain ⟨hgroups, r₀, hr₀, hid₀, hmembers⟩ := hpub
    refine oneOwner_handover_iff ht hfk hissued hpair hgroups hr₀ hid₀ fun k r => ?_
    rw [Owns, Owns, hmembers r]
    constructor
    · rintro ⟨⟨rfl | ⟨hr, hb⟩, ha⟩, hk, hrole⟩
      · exact ⟨Or.inl ⟨rfl, hk.symm⟩, ha⟩
      · exact ⟨Or.inr ⟨⟨hr, hk, hrole⟩, hb⟩, ha⟩
    · rintro ⟨⟨rfl, hk⟩ | ⟨⟨hr, hk, hrole⟩, hb⟩, ha⟩
      · exact ⟨⟨Or.inl rfl, ha⟩, hk.symm, rfl⟩
      · exact ⟨⟨Or.inr ⟨hr, hb⟩, ha⟩, hk, hrole⟩
  | transferred a b =>
    obtain ⟨hpair, -⟩ := ho
    obtain ⟨hgroups, r₀, r₁, hr₀, hid₀, hr₁, hid₁, hmembers⟩ := hpub
    refine oneOwner_handover_iff ht hfk hissued hpair hgroups hr₀ hid₀ fun k r => ?_
    rw [Owns, Owns, hmembers r]
    constructor
    · rintro ⟨rfl | ⟨rfl | ⟨hr, hb⟩, ha⟩, hk, hrole⟩
      · exact absurd hrole (by simp)
      · exact ⟨Or.inl ⟨rfl, hk.symm⟩, ha⟩
      · exact ⟨Or.inr ⟨⟨hr, hk, hrole⟩, hb⟩, ha⟩
    · rintro ⟨⟨rfl, hk⟩ | ⟨⟨hr, hk, hrole⟩, hb⟩, ha⟩
      · exact ⟨Or.inr ⟨Or.inl rfl, ha⟩, hk.symm, rfl⟩
      · exact ⟨Or.inr ⟨Or.inr ⟨hr, hb⟩, ha⟩, hk, hrole⟩

end Publish

/-! ## Steps and runs -/

/-- **The exact step condition.** -/
theorem oneOwner_step_iff {s t : State} {a : Action} (hs : Inv s)
    (hone : OneOwner s.store.committed) (h : step s a = some t) :
    OneOwner t.store.committed ↔ CheckStillHolds s a := by
  obtain ⟨-, -, hgrows, -, -⟩ := exists_effect_of_step hs h
  cases moves_of_step hs h with
  | same hcom hquiet =>
    rw [hcom]
    exact iff_of_true hone fun o hc => absurd hc (hquiet o)
  | joined r hcom hquiet _ hun hrole _ _ =>
    refine iff_of_true (fun g hg => ?_) fun o hc => absurd hc (hquiet o)
    rw [hcom] at hg ⊢
    have hg' : .group g ∈ s.store.committed := (Table.mem_put_of_key_ne (by simp)).mp hg
    refine (existsUnique_owns_congr fun r' => ?_).mpr (hone g hg')
    constructor
    · rintro ⟨hr', hgroup, hrole'⟩
      rcases Table.mem_put.mp hr' with heq | ⟨hr', -⟩
      · rw [Row.member.inj heq, hrole] at hrole'
        exact absurd hrole' (by simp)
      · exact ⟨hr', hgroup, hrole'⟩
    · rintro ⟨hr', hgroup, hrole'⟩
      exact ⟨(Table.mem_put_of_key_ne (hun _ hr')).mpr hr', hgroup, hrole'⟩
  | published o hc hpub ho =>
    have hissued : ∀ r, .member r ∈ s.store.committed → Issued t.aux r := fun r hr =>
      (hs.issued r hr).mono hgrows
    rw [oneOwner_publishes_iff hone hs.foreignKey hissued ho hpub]
    refine ⟨fun hstill o' hc' => ?_, fun hall => hall o hc⟩
    obtain ⟨c, rfl, hcall⟩ := hc
    obtain ⟨c', hcc, hcall'⟩ := hc'
    cases hcc
    rw [Call.committing.inj (hcall'.symm.trans hcall)]
    exact hstill

/-- **When every group keeps one owner.**  Along a run from the empty database every
group has exactly one owner in every committed state exactly if each commit of a
departure or a handover finds the role where its transaction read it. -/
theorem oneOwner_iff (acts : List Action) :
    AllStates step (fun s => OneOwner s.store.committed) start acts ↔
      AllSteps step CheckStillHolds start acts :=
  allStates_iff_allSteps (fun _ _ _ hs h => inv_of_step hs h)
    (fun _ _ _ hs hone h => oneOwner_step_iff hs hone h) inv_start
    (fun _ hg => absurd hg (Table.not_mem_empty _)) acts

/-! ## A run that leaves two owners -/

/-- One owner and two members; the owner hands the group to both of them at once,
and each transfer reads the owner's role before the other has written. -/
def twoTransfersRun : List Action :=
  let t : Instant := epoch
  [ .request 0 (.create 10 "team"), .statement 0 1 t, .statement 0 100 t, .commit 0,
    .request 1 (.join 11 1), .statement 1 0 t, .statement 1 101 t,
    .request 2 (.join 12 1), .statement 2 0 t, .statement 2 102 t,
    .request 3 (.transferOwnership 10 1 11), .statement 3 0 t, .statement 3 0 t,
    .request 4 (.transferOwnership 10 1 12), .statement 4 0 t, .statement 4 0 t,
    .statement 3 0 t, .statement 3 0 t, .commit 3,
    .statement 4 0 t, .statement 4 0 t, .commit 4 ]

/-- The groups of a table, each with the users whose membership owns it. -/
def ownersOf (t : Tables) : List (Uuid × List Uuid) :=
  (t.rows.filterMap Row.group?).map fun g =>
    (g.id, ((membersOf t).filter fun r => r.groupId = g.id ∧ r.role = .owner).map
      GroupMember.userId)

theorem ownersOf_twoTransfersRun :
    (exec step start twoTransfersRun).map (fun s => ownersOf s.store.committed) =
      some [(1, [11, 12])] := by
  decide

/-- In a table with one owner in every group no group is listed with two. -/
theorem subsingleton_of_mem_ownersOf {t : Tables} (h : OneOwner t) {k : Uuid} {us : List Uuid}
    (hmem : (k, us) ∈ ownersOf t) {u v : Uuid} (hu : u ∈ us) (hv : v ∈ us) : u = v := by
  obtain ⟨g, hg, heq⟩ := List.mem_map.mp hmem
  obtain ⟨rfl, rfl⟩ := Prod.mk.inj heq
  obtain ⟨row, hrow, hgroup⟩ := List.mem_filterMap.mp hg
  obtain ⟨r, hr, rfl⟩ := List.mem_map.mp hu
  obtain ⟨r', hr', rfl⟩ := List.mem_map.mp hv
  have hrow' : .group g ∈ t := by
    cases row with
    | group g' =>
      rw [← Option.some.inj hgroup]
      exact hrow
    | member r => exact absurd hgroup (by simp [Row.group?])
  have howns : ∀ r ∈ (membersOf t).filter fun r => r.groupId = g.id ∧ r.role = .owner,
      Owns t g.id r := by
    intro r hr
    obtain ⟨hr, hdec⟩ := List.mem_filter.mp hr
    exact ⟨mem_membersOf.mp hr, by simpa using hdec⟩
  rw [(h g hrow').unique (howns r hr) (howns r' hr')]

/-- **A group may end with two owners.** -/
theorem not_oneOwner_twoTransfersRun :
    ¬ AllStates step (fun s => OneOwner s.store.committed) start twoTransfersRun := by
  intro h
  obtain ⟨s, hs, howners⟩ := Option.map_eq_some_iff.mp ownersOf_twoTransfersRun
  have hmem : (1, [11, 12]) ∈ ownersOf s.store.committed := by
    rw [howners]
    exact List.mem_singleton.mpr rfl
  have hsame : (11 : Uuid) = 12 :=
    subsingleton_of_mem_ownersOf (h.last hs) hmem (by simp) (by simp)
  exact absurd hsame (by decide)

end Groups
end GroupChat

import GroupChat.Groups.Service

/-!
# What the group calls keep

Four calls write rows that other calls may be reading, and every check is made on
rows that may be gone by the time of the write.  This file records what holds
regardless, in every reachable state:

* every committed membership is in a committed group (`Inv.foreignKey`);
* a membership id stands for one group and one user for good
  (`Inv.issued`), so a row copied before the write and the row found by its
  id at the write belong to the same membership, whatever became of its role;
* a call has written exactly what its program counter says (`CallInv`), which
  for a call about to commit gives the whole change it is about to publish
  (`Outcome.Publishes`).

Nothing here says that a check still holds when the write is made.  That is the
part the ownership theorem is about.
-/

namespace GroupChat
namespace Groups

open Database Transition

/-! ## Memberships keep their group and their user -/

/-- A membership with this id was inserted for this group and this user. -/
def Issued (log : Log) (r : GroupMember) : Prop :=
  ∃ r₀ ∈ log.memberships, r₀.id = r.id ∧ r₀.groupId = r.groupId ∧ r₀.userId = r.userId

theorem Issued.congr {log : Log} {r r' : GroupMember} (h : Issued log r) (hid : r'.id = r.id)
    (hg : r'.groupId = r.groupId) (hu : r'.userId = r.userId) : Issued log r' := by
  obtain ⟨r₀, hr₀, hid₀, hg₀, hu₀⟩ := h
  exact ⟨r₀, hr₀, hid₀.trans hid.symm, hg₀.trans hg.symm, hu₀.trans hu.symm⟩

/-- **An id is one membership.** -/
theorem Issued.groupId_eq {log : Log} {r r' : GroupMember} (h : Issued log r)
    (h' : Issued log r') (hid : r.id = r'.id) : r.groupId = r'.groupId := by
  obtain ⟨r₀, hr₀, hid₀, hg₀, -⟩ := h
  obtain ⟨r₁, hr₁, hid₁, hg₁, -⟩ := h'
  have hrows : r₀ = r₁ := Table.eq_of_key_eq hr₀ hr₁ (hid₀.trans (hid.trans hid₁.symm))
  rw [← hg₀, ← hg₁, hrows]

theorem Issued.userId_eq {log : Log} {r r' : GroupMember} (h : Issued log r)
    (h' : Issued log r') (hid : r.id = r'.id) : r.userId = r'.userId := by
  obtain ⟨r₀, hr₀, hid₀, -, hu₀⟩ := h
  obtain ⟨r₁, hr₁, hid₁, -, hu₁⟩ := h'
  have hrows : r₀ = r₁ := Table.eq_of_key_eq hr₀ hr₁ (hid₀.trans (hid.trans hid₁.symm))
  rw [← hu₀, ← hu₁, hrows]

/-- No id has been forgotten. -/
structure Log.Grows (log log' : Log) : Prop where
  memberships : ∀ r ∈ log.memberships, r ∈ log'.memberships
  groupIds : ∀ id ∈ log.groupIds, id ∈ log'.groupIds

theorem Log.Grows.refl (log : Log) : log.Grows log := ⟨fun _ h => h, fun _ h => h⟩

theorem Issued.mono {log log' : Log} {r : GroupMember} (h : Issued log r)
    (hlog : log.Grows log') : Issued log' r := by
  obtain ⟨r₀, hr₀, heq⟩ := h
  exact ⟨r₀, hlog.memberships r₀ hr₀, heq⟩

theorem Log.grows_issue {log : Log} {row : GroupMember}
    (hfree : log.memberships.find? row.id = none) : log.Grows (log.issue row) := by
  refine ⟨fun r hr => ?_, fun _ h => h⟩
  exact (Table.mem_put_of_key_ne (Table.find?_eq_none_iff.mp hfree r hr)).mpr hr

theorem Log.issued_issue (log : Log) (row : GroupMember) : Issued (log.issue row) row :=
  ⟨row, Table.mem_put_self _ _, rfl, rfl, rfl⟩

/-! ## What a call has written -/

/-- No committed row has this key. -/
def Unused (t : Tables) (k : Key) : Prop := ∀ row ∈ t, row.key ≠ k

/-- Two different members of one group, as they were read. -/
structure Pair (log : Log) (a b : GroupMember) : Prop where
  issued_left : Issued log a
  issued_right : Issued log b
  groupId_eq : a.groupId = b.groupId
  userId_ne : a.userId ≠ b.userId

theorem Pair.id_ne {log : Log} {a b : GroupMember} (h : Pair log a b) : a.id ≠ b.id :=
  fun hid => h.userId_ne (h.issued_left.userId_eq h.issued_right hid)

theorem Pair.mono {log log' : Log} {a b : GroupMember} (h : Pair log a b)
    (hlog : log.Grows log') : Pair log' a b :=
  ⟨h.issued_left.mono hlog, h.issued_right.mono hlog, h.groupId_eq, h.userId_ne⟩

/-- What a transaction that is about to commit has written, over the committed
table `t`. -/
def OutcomeInv (t : Tables) (ws : List (Write Row Key)) (log : Log) : Outcome → Prop
  | .created g row =>
    ws = [.put (.group g), .put (.member row)] ∧ Unused t (.group g.id) ∧
      g.id ∈ log.groupIds ∧ Unused t (.member row.id) ∧ Issued log row ∧ row.groupId = g.id ∧
      row.role = .owner
  | .left me =>
    ws = [.remove (.member me.id)] ∧ Issued log me ∧ ∃ r, .member r ∈ t ∧ r.id = me.id
  | .handedOver me next =>
    Pair log me next ∧ ∃ r, .member r ∈ t ∧ r.id = next.id ∧
      ws = [.put (.member { r with role := .owner }), .remove (.member me.id)]
  | .deletedGroup me =>
    ∃ ids : List Uuid,
      ws = .remove (.group me.groupId) :: ids.map (fun k => .remove (.member k)) ∧
      (∀ r, .member r ∈ t → r.groupId = me.groupId → r.id ∈ ids) ∧
      ∀ k ∈ ids, ∃ r, .member r ∈ t ∧ r.id = k ∧ r.groupId = me.groupId
  | .transferred caller target =>
    Pair log caller target ∧ ∃ r r', .member r ∈ t ∧ r.id = target.id ∧ .member r' ∈ t ∧
      r'.id = caller.id ∧
      ws = [.put (.member { r with role := .owner }), .put (.member { r' with role := .member })]

/-- What a call has written and what it knows, by where it stands. -/
def CallInv (t : Tables) (ws : List (Write Row Key)) (log : Log) : Call → Prop
  | .creatingOwner _ g =>
    ws = [.put (.group g)] ∧ Unused t (.group g.id) ∧ g.id ∈ log.groupIds
  | .leaveDeleting me | .leaveReadingSuccessor me | .leaveDeletingGroup me =>
    ws = [] ∧ Issued log me
  | .transferReadingCaller callerId _ targetUserId => ws = [] ∧ callerId ≠ targetUserId
  | .transferReadingTarget caller targetUserId =>
    ws = [] ∧ Issued log caller ∧ caller.userId ≠ targetUserId
  | .leavePromoting a b | .transferPromoting a b => ws = [] ∧ Pair log a b
  | .leaveDeletingOwner a b | .transferDemoting a b =>
    Pair log a b ∧ ∃ r, .member r ∈ t ∧ r.id = b.id ∧
      ws = [.put (.member { r with role := .owner })]
  | .committing o => OutcomeInv t ws log o
  | _ => ws = []

/-- The invariant of the group calls. -/
structure Inv (s : State) : Prop where
  foreignKey : ∀ r, .member r ∈ s.store.committed →
    ∃ g, .group g ∈ s.store.committed ∧ g.id = r.groupId
  issued : ∀ r, .member r ∈ s.store.committed → Issued s.aux r
  groupIds : ∀ g, .group g ∈ s.store.committed → g.id ∈ s.aux.groupIds
  calls : ∀ c, CallInv s.store.committed (s.store.writesOf c) s.aux (s.calls c)

/-! ## What a commit publishes -/

/-- The change of the committed table `t` into `t'` that an outcome stands for. -/
def Outcome.Publishes (t t' : Tables) : Outcome → Prop
  | .created g row =>
    (∀ g', .group g' ∈ t' ↔ g' = g ∨ .group g' ∈ t) ∧
      ∀ r, .member r ∈ t' ↔ r = row ∨ .member r ∈ t
  | .left me =>
    (∀ g', .group g' ∈ t' ↔ .group g' ∈ t) ∧
      ∀ r, .member r ∈ t' ↔ .member r ∈ t ∧ r.id ≠ me.id
  | .handedOver me next =>
    (∀ g', .group g' ∈ t' ↔ .group g' ∈ t) ∧
      ∃ b, .member b ∈ t ∧ b.id = next.id ∧ ∀ r, .member r ∈ t' ↔
        (r = { b with role := .owner } ∨ .member r ∈ t ∧ r.id ≠ next.id) ∧ r.id ≠ me.id
  | .deletedGroup me =>
    (∀ g', .group g' ∈ t' ↔ .group g' ∈ t ∧ g'.id ≠ me.groupId) ∧
      ∀ r, .member r ∈ t' ↔ .member r ∈ t ∧ r.groupId ≠ me.groupId
  | .transferred caller target =>
    (∀ g', .group g' ∈ t' ↔ .group g' ∈ t) ∧
      ∃ b a, .member b ∈ t ∧ b.id = target.id ∧ .member a ∈ t ∧ a.id = caller.id ∧
        ∀ r, .member r ∈ t' ↔ r = { a with role := .member } ∨
          (r = { b with role := .owner } ∨ .member r ∈ t ∧ r.id ≠ target.id) ∧ r.id ≠ caller.id

theorem mem_applyAll_remove_members {t : Tables} {ids : List Uuid} {row : Row} :
    row ∈ t.applyAll (ids.map fun k => (.remove (.member k) : Write Row Key)) ↔
      row ∈ t ∧ ∀ k ∈ ids, row.key ≠ .member k := by
  induction ids generalizing t with
  | nil => simp
  | cons k ids ih =>
    rw [List.map_cons, Table.applyAll_cons, ih, Table.apply, Table.mem_remove, List.forall_mem_cons,
      and_assoc]

/-- **A commit publishes its outcome**, and nothing else. -/
theorem publishes_of_outcomeInv {t : Tables} {ws : List (Write Row Key)} {log : Log} {o : Outcome}
    (h : OutcomeInv t ws log o) : o.Publishes t (t.applyAll ws) := by
  cases o with
  | created g row =>
    obtain ⟨rfl, hg, -, hrow, -, -, -⟩ := h
    simp only [Table.applyAll_cons, Table.applyAll_nil, Table.apply]
    refine ⟨fun g' => ?_, fun r => ?_⟩
    · simp only [Table.mem_put, Row.key_group, Row.key_member, ne_eq, reduceCtorEq, false_or,
        not_false_eq_true, and_true, Row.group.injEq, Key.group.injEq]
      exact or_congr_right (and_iff_left_of_imp fun h hid => hg _ h (by rw [Row.key_group, hid]))
    · simp only [Table.mem_put, Row.key_group, Row.key_member, ne_eq, reduceCtorEq, false_or,
        not_false_eq_true, and_true, Row.member.injEq, Key.member.injEq]
      exact or_congr_right (and_iff_left_of_imp fun h hid => hrow _ h (by rw [Row.key_member, hid]))
  | left me =>
    obtain ⟨rfl, -, -⟩ := h
    simp [Outcome.Publishes, Table.apply]
  | handedOver me next =>
    obtain ⟨-, b, hb, hid, rfl⟩ := h
    refine ⟨fun g' => by simp [Table.apply], b, hb, hid, fun r => ?_⟩
    simp [Table.apply, hid]
  | deletedGroup me =>
    obtain ⟨ids, rfl, hcover, hids⟩ := h
    refine ⟨fun g' => ?_, fun r => ?_⟩
    · rw [Table.applyAll_cons, mem_applyAll_remove_members, Table.apply, Table.mem_remove]
      simp
    · rw [Table.applyAll_cons, mem_applyAll_remove_members, Table.apply, Table.mem_remove]
      constructor
      · rintro ⟨⟨hr, -⟩, hnot⟩
        exact ⟨hr, fun hg => hnot r.id (hcover r hr hg) rfl⟩
      · rintro ⟨hr, hg⟩
        refine ⟨⟨hr, by simp⟩, fun k hk hkey => ?_⟩
        obtain ⟨r', hr', hid, hg'⟩ := hids k hk
        have hrr : (Row.member r : Row) = .member r' :=
          Table.eq_of_key_eq hr hr' (hkey.trans (by rw [Row.key_member, hid]))
        rw [Row.member.inj hrr] at hg
        exact hg hg'
  | transferred caller target =>
    obtain ⟨-, b, a, hb, hbid, ha, haid, rfl⟩ := h
    refine ⟨fun g' => by simp [Table.apply], b, a, hb, hbid, ha, haid, fun r => ?_⟩
    simp [Table.apply, hbid, haid]

/-! ## Another call moves -/

/-- The rows a list of writes has locked. -/
abbrev lockedKeys (ws : List (Write Row Key)) : List Key := ws.map (Write.target Row.key)

/-- From `t` to `t'` the rows locked by `ws` have not moved, and no membership has
appeared in a group locked by `ws`. -/
structure Undisturbed (t t' : Tables) (ws : List (Write Row Key)) : Prop where
  mem_iff : ∀ row : Row, row.key ∈ lockedKeys ws → (row ∈ t' ↔ row ∈ t)
  old_member : ∀ r, .member r ∈ t' → Key.group r.groupId ∈ lockedKeys ws →
    ∃ r₀, .member r₀ ∈ t ∧ r₀.id = r.id ∧ r₀.groupId = r.groupId

theorem Undisturbed.unused {t t' : Tables} {ws : List (Write Row Key)} {k : Key}
    (h : Undisturbed t t' ws) (hk : k ∈ lockedKeys ws) (hun : Unused t k) : Unused t' k := by
  intro row hrow hkey
  rw [← hkey] at hk
  exact hun row ((h.mem_iff row hk).mp hrow) hkey

theorem Undisturbed.member {t t' : Tables} {ws : List (Write Row Key)} {r : GroupMember}
    (h : Undisturbed t t' ws) (hk : Key.member r.id ∈ lockedKeys ws) (hr : .member r ∈ t) :
    .member r ∈ t' :=
  (h.mem_iff (.member r) hk).mpr hr

theorem OutcomeInv.congr {t t' : Tables} {ws : List (Write Row Key)} {log log' : Log}
    {o : Outcome} (ht : Undisturbed t t' ws) (hlog : log.Grows log')
    (h : OutcomeInv t ws log o) : OutcomeInv t' ws log' o := by
  cases o with
  | created g row =>
    obtain ⟨rfl, hg, hid, hrow, hiss, hgroup, hrole⟩ := h
    exact ⟨rfl, ht.unused (by simp) hg, hlog.groupIds _ hid, ht.unused (by simp) hrow,
      hiss.mono hlog, hgroup, hrole⟩
  | left me =>
    obtain ⟨rfl, hiss, r, hr, hid⟩ := h
    exact ⟨rfl, hiss.mono hlog, r, ht.member (by simp [hid]) hr, hid⟩
  | handedOver me next =>
    obtain ⟨hpair, r, hr, hid, rfl⟩ := h
    exact ⟨hpair.mono hlog, r, ht.member (by simp) hr, hid, rfl⟩
  | deletedGroup me =>
    obtain ⟨ids, rfl, hcover, hids⟩ := h
    refine ⟨ids, rfl, fun r hr hg => ?_, fun k hk => ?_⟩
    · obtain ⟨r₀, hr₀, hid, hg₀⟩ := ht.old_member r hr (by simp [hg])
      rw [← hid]
      exact hcover r₀ hr₀ (hg₀.trans hg)
    · obtain ⟨r, hr, hid, hg⟩ := hids k hk
      have hlocked : Key.member r.id ∈
          lockedKeys (.remove (.group me.groupId) :: ids.map fun k => .remove (.member k)) := by
        rw [hid]
        simpa using hk
      exact ⟨r, ht.member hlocked hr, hid, hg⟩
  | transferred caller target =>
    obtain ⟨hpair, b, a, hb, hbid, ha, haid, rfl⟩ := h
    exact ⟨hpair.mono hlog, b, a, ht.member (by simp) hb, hbid, ht.member (by simp) ha, haid, rfl⟩

/-- **A call's knowledge survives the others.** -/
theorem CallInv.congr {t t' : Tables} {ws : List (Write Row Key)} {log log' : Log} {pc : Call}
    (ht : Undisturbed t t' ws) (hlog : log.Grows log') (h : CallInv t ws log pc) :
    CallInv t' ws log' pc := by
  cases pc with
  | creatingOwner userId g =>
    obtain ⟨rfl, hg, hid⟩ := h
    exact ⟨rfl, ht.unused (by simp) hg, hlog.groupIds _ hid⟩
  | leaveDeleting me | leaveReadingSuccessor me | leaveDeletingGroup me =>
    exact ⟨h.1, h.2.mono hlog⟩
  | transferReadingTarget caller userId => exact ⟨h.1, h.2.1.mono hlog, h.2.2⟩
  | leavePromoting a b | transferPromoting a b => exact ⟨h.1, h.2.mono hlog⟩
  | leaveDeletingOwner a b | transferDemoting a b =>
    obtain ⟨hpair, r, hr, hid, rfl⟩ := h
    exact ⟨hpair.mono hlog, r, ht.member (by simp) hr, hid, rfl⟩
  | committing o => exact OutcomeInv.congr ht hlog h
  | idle | creatingGroup _ _ | joinReading _ _ | joinInserting _ _ | leaveReading _ _
  | transferReadingCaller _ _ _ | emitting _ _ | returned _ | thrown _ => exact h

/-! ## The call itself moves -/

/-- A program counter that goes with no writes, whatever is committed. -/
def Quiet (pc : Call) : Prop := ∀ t log, CallInv t [] log pc

theorem quiet_thrown (e : Common.Exception) : Quiet (.thrown e) := fun _ _ => rfl

theorem quiet_emitting (events : List Event) (result : Result) :
    Quiet (.emitting events result) := fun _ _ => rfl

/-- What an effect of call `c` has to satisfy for the invariant to be kept. -/
def EffectInv (s : State) (c : ℕ) (log : Log) : Effect Row Key Call → Prop
  | .goto pc => CallInv s.store.committed (s.store.writesOf c) log pc
  | .write ws pc => CallInv s.store.committed (s.store.writesOf c ++ ws) log pc
  | .autocommit ws pc =>
    s.store.writesOf c = [] ∧ Quiet pc ∧ ∃ r, ws = [.put (.member r)] ∧ Issued log r ∧
      Unused s.store.committed (.member r.id) ∧ r.role = .member ∧
      (∃ g, .group g ∈ s.store.committed ∧ g.id = r.groupId) ∧
      ¬ s.store.LockedByOther c (.group r.groupId)
  | .commit pc =>
    Quiet pc ∧ ∃ o, s.calls c = .committing o ∧
      OutcomeInv s.store.committed (s.store.writesOf c) log o
  | .abort pc => Quiet pc

theorem Inv.unused_of_fresh {s : State} (hs : Inv s) {id : Uuid}
    (hfree : s.aux.memberships.find? id = none) : Unused s.store.committed (.member id) := by
  intro row hrow hkey
  cases row with
  | group g => exact absurd hkey (by simp)
  | member r =>
    obtain ⟨r₀, hr₀, hid, -, -⟩ := hs.issued r hrow
    exact Table.find?_eq_none_iff.mp hfree r₀ hr₀ (hid.trans (Key.member.inj hkey))

theorem Inv.unused_of_fresh_group {s : State} (hs : Inv s) {id : Uuid}
    (hfree : id ∉ s.aux.groupIds) : Unused s.store.committed (.group id) := by
  intro row hrow hkey
  cases row with
  | group g =>
    rw [← Key.group.inj hkey] at hfree
    exact hfree (hs.groupIds g hrow)
  | member r => exact absurd hkey (by simp)

theorem effectInv_write {s : State} {c : ℕ} {log : Log} {ws₀ ws : List (Write Row Key)}
    {pc : Call} (hws : s.store.writesOf c = ws₀)
    (h : CallInv s.store.committed (ws₀ ++ ws) log pc) : EffectInv s c log (.write ws pc) := by
  show CallInv s.store.committed (s.store.writesOf c ++ ws) log pc
  rw [hws]
  exact h

/-- An update by id either finds no row, and the transaction is rolled back, or
writes the row it has found. -/
theorem effectInv_updateById {s : State} {c : ℕ} {log : Log} {ws₀ : List (Write Row Key)}
    {id : Uuid} {write : GroupMember → Write Row Key} {pc : Call}
    (hws : s.store.writesOf c = ws₀)
    (h : ∀ r, .member r ∈ s.store.view c → r.id = id →
      CallInv s.store.committed (ws₀ ++ [write r]) log pc) :
    EffectInv s c log (updateById (s.store.view c) id write pc) := by
  unfold updateById
  split
  · exact quiet_thrown _
  · next r hr =>
    obtain ⟨hmem, hid⟩ := memberById_eq_some hr
    exact effectInv_write hws (h r hmem hid)

section Statement

variable {s : State} {c : ℕ} {id : Uuid} {now : Instant} {e : Effect Row Key Call} {log : Log}

theorem effectInv_create (hs : Inv s) {userId : Uuid} {name : String}
    (hcall : s.calls c = .creatingGroup userId name)
    (h : statement s c id now = some (e, log)) : EffectInv s c log e ∧ s.aux.Grows log := by
  have hnil : s.store.writesOf c = [] := by
    have hpc := hs.calls c
    rwa [hcall] at hpc
  simp only [statement, hcall] at h
  split_ifs at h with hwait hname
  · cases h
    exact ⟨quiet_thrown _, Log.Grows.refl _⟩
  · cases h
    have hfree : id ∉ s.aux.groupIds := fun hmem => hwait (Or.inl hmem)
    exact ⟨effectInv_write hnil ⟨rfl, hs.unused_of_fresh_group hfree, List.mem_cons_self⟩,
      fun _ h => h, fun _ h => List.mem_cons_of_mem _ h⟩

theorem effectInv_createOwner (hs : Inv s) {userId : Uuid} {g : Group}
    (hcall : s.calls c = .creatingOwner userId g)
    (h : statement s c id now = some (e, log)) : EffectInv s c log e ∧ s.aux.Grows log := by
  have hpc := hs.calls c
  rw [hcall] at hpc
  obtain ⟨hws, hun, hgid⟩ := hpc
  simp only [statement, hcall] at h
  split_ifs at h with hissued
  cases h
  have hfree : s.aux.memberships.find? id = none := by simpa using hissued
  exact ⟨effectInv_write hws ⟨rfl, hun, hgid, hs.unused_of_fresh hfree, Log.issued_issue _ _,
    rfl, rfl⟩, Log.grows_issue hfree⟩

theorem effectInv_joinInsert (hs : Inv s) {userId : Uuid} {g : Group}
    (hcall : s.calls c = .joinInserting userId g)
    (h : statement s c id now = some (e, log)) : EffectInv s c log e ∧ s.aux.Grows log := by
  have hnil : s.store.writesOf c = [] := by
    have hpc := hs.calls c
    rwa [hcall] at hpc
  simp only [statement, hcall] at h
  split_ifs at h with hwait hmember
  · cases h
    exact ⟨hnil, Log.Grows.refl _⟩
  · have hfree : s.aux.memberships.find? id = none := by
      have hnot : ¬ (s.aux.memberships.find? id).isSome := fun h => hwait (Or.inl h)
      simpa using hnot
    have hlock : ¬ s.store.LockedByOther c (.group g.id) := fun h => hwait (Or.inr (Or.inl h))
    split at h
    · cases h
      exact ⟨hnil, Log.Grows.refl _⟩
    · next g' hg' =>
      cases h
      rw [Store.view_of_writesOf_nil hnil] at hg'
      obtain ⟨hmem, hid⟩ := groupById_eq_some hg'
      exact ⟨⟨hnil, quiet_emitting _ _, _, rfl, Log.issued_issue _ _, hs.unused_of_fresh hfree,
        rfl, ⟨g', hmem, hid⟩, hlock⟩, Log.grows_issue hfree⟩

/-- The statements that only read. -/
theorem effectInv_read (hs : Inv s) (hread : (∃ u g, s.calls c = .joinReading u g) ∨
      (∃ u g, s.calls c = .leaveReading u g) ∨ (∃ me, s.calls c = .leaveReadingSuccessor me) ∨
      (∃ u g v, s.calls c = .transferReadingCaller u g v) ∨
      ∃ caller v, s.calls c = .transferReadingTarget caller v)
    (h : statement s c id now = some (e, log)) : EffectInv s c log e ∧ s.aux.Grows log := by
  have hpc := hs.calls c
  rcases hread with ⟨u, g, hcall⟩ | ⟨u, g, hcall⟩ | ⟨me, hcall⟩ | ⟨u, g, v, hcall⟩ |
    ⟨caller, v, hcall⟩
  · rw [hcall] at hpc
    simp only [statement, hcall] at h
    split at h <;> cases h <;> exact ⟨hpc, Log.Grows.refl _⟩
  · rw [hcall] at hpc
    have hnil : s.store.writesOf c = [] := hpc
    simp only [statement, hcall, Store.view_of_writesOf_nil hnil] at h
    split at h
    · cases h
      exact ⟨quiet_thrown _, Log.Grows.refl _⟩
    · next me hme =>
      have hiss : Issued s.aux me := hs.issued me (membership_eq_some hme).1
      split_ifs at h <;> cases h <;> exact ⟨⟨hnil, hiss⟩, Log.Grows.refl _⟩
  · rw [hcall] at hpc
    obtain ⟨hnil, hiss⟩ := hpc
    simp only [statement, hcall, Store.view_of_writesOf_nil hnil] at h
    split at h
    · cases h
      exact ⟨⟨hnil, hiss⟩, Log.Grows.refl _⟩
    · next r hr =>
      cases h
      obtain ⟨hmem, hgroup, huser⟩ := successor_eq_some hr
      exact ⟨⟨hnil, hiss, hs.issued r hmem, hgroup.symm, huser.symm⟩, Log.Grows.refl _⟩
  · rw [hcall] at hpc
    obtain ⟨hnil, hne⟩ := hpc
    simp only [statement, hcall, Store.view_of_writesOf_nil hnil] at h
    split at h
    · cases h
      exact ⟨quiet_thrown _, Log.Grows.refl _⟩
    · next me hme =>
      obtain ⟨hmem, -, huser⟩ := membership_eq_some hme
      split_ifs at h <;> cases h
      · exact ⟨quiet_thrown _, Log.Grows.refl _⟩
      · refine ⟨⟨hnil, hs.issued me hmem, ?_⟩, Log.Grows.refl _⟩
        rw [huser]
        exact hne
  · rw [hcall] at hpc
    obtain ⟨hnil, hiss, hne⟩ := hpc
    simp only [statement, hcall, Store.view_of_writesOf_nil hnil] at h
    split at h
    · cases h
      exact ⟨quiet_thrown _, Log.Grows.refl _⟩
    · next target htarget =>
      cases h
      obtain ⟨hmem, hgroup, huser⟩ := membership_eq_some htarget
      refine ⟨⟨hnil, hiss, hs.issued target hmem, hgroup.symm, ?_⟩, Log.Grows.refl _⟩
      rw [huser]
      exact hne

theorem effectInv_deleteGroup (hs : Inv s) {me : GroupMember}
    (hcall : s.calls c = .leaveDeletingGroup me)
    (h : statement s c id now = some (e, log)) : EffectInv s c log e ∧ s.aux.Grows log := by
  have hpc := hs.calls c
  rw [hcall] at hpc
  obtain ⟨hnil, -⟩ := hpc
  simp only [statement, hcall, Store.view_of_writesOf_nil hnil] at h
  split at h
  · cases h
    exact ⟨quiet_thrown _, Log.Grows.refl _⟩
  · cases h
    refine ⟨effectInv_write hnil ⟨((membersOf s.store.committed).filter fun r =>
      r.groupId = me.groupId).map GroupMember.id, ?_, fun r hr hg => ?_, fun k hk => ?_⟩,
      Log.Grows.refl _⟩
    · rw [List.nil_append, deleteGroup, List.map_map]
      rfl
    · exact List.mem_map_of_mem (List.mem_filter.mpr ⟨mem_membersOf.mpr hr, by simp [hg]⟩)
    · obtain ⟨r, hr, rfl⟩ := List.mem_map.mp hk
      obtain ⟨hmem, hg⟩ := List.mem_filter.mp hr
      exact ⟨r, mem_membersOf.mp hmem, rfl, by simpa using hg⟩

/-- The updates by id. -/
theorem effectInv_update (hs : Inv s) (hupdate : (∃ me, s.calls c = .leaveDeleting me) ∨
      (∃ me next, s.calls c = .leavePromoting me next) ∨
      (∃ me next, s.calls c = .leaveDeletingOwner me next) ∨
      (∃ a b, s.calls c = .transferPromoting a b) ∨ ∃ a b, s.calls c = .transferDemoting a b)
    (h : statement s c id now = some (e, log)) : EffectInv s c log e ∧ s.aux.Grows log := by
  have hpc := hs.calls c
  rcases hupdate with ⟨me, hcall⟩ | ⟨a, b, hcall⟩ | ⟨a, b, hcall⟩ | ⟨a, b, hcall⟩ |
    ⟨a, b, hcall⟩ <;> rw [hcall] at hpc <;> simp only [statement, hcall] at h <;> cases h <;>
    refine ⟨?_, Log.Grows.refl _⟩
  · obtain ⟨hnil, hiss⟩ := hpc
    refine effectInv_updateById hnil fun r hr hid => ?_
    rw [Store.view_of_writesOf_nil hnil] at hr
    exact ⟨by rw [removeMember, hid, List.nil_append], hiss, r, hr, hid⟩
  · obtain ⟨hnil, hpair⟩ := hpc
    refine effectInv_updateById hnil fun r hr hid => ?_
    rw [Store.view_of_writesOf_nil hnil] at hr
    exact ⟨hpair, r, hr, hid, rfl⟩
  · obtain ⟨hpair, r, hr, hid, hws⟩ := hpc
    refine effectInv_updateById hws fun me' _ hme => ?_
    exact ⟨hpair, r, hr, hid, by rw [removeMember, hme, List.singleton_append]⟩
  · obtain ⟨hnil, hpair⟩ := hpc
    refine effectInv_updateById hnil fun r hr hid => ?_
    rw [Store.view_of_writesOf_nil hnil] at hr
    exact ⟨hpair, r, hr, hid, rfl⟩
  · obtain ⟨hpair, r, hr, hid, hws⟩ := hpc
    refine effectInv_updateById hws fun r' hr' hid' => ?_
    rw [Store.view, hws, Table.applyAll_cons, Table.applyAll_nil, Table.apply,
      Table.mem_put] at hr'
    rcases hr' with heq | ⟨hr', -⟩
    · have hrid : r'.id = b.id := by rw [Row.member.inj heq, ← hid]
      exact absurd (hid'.symm.trans hrid) hpair.id_ne
    · exact ⟨hpair, r, r', hr, hid, hr', hid', rfl⟩

/-- **Each statement does what its program counter promises.** -/
theorem effectInv_of_statement (hs : Inv s) (h : statement s c id now = some (e, log)) :
    EffectInv s c log e ∧ s.aux.Grows log := by
  cases hcall : s.calls c with
  | idle | committing _ | emitting _ _ | returned _ | thrown _ =>
    simp only [statement, hcall] at h
    exact absurd h (by simp)
  | creatingGroup _ _ => exact effectInv_create hs hcall h
  | creatingOwner _ _ => exact effectInv_createOwner hs hcall h
  | joinReading u g => exact effectInv_read hs (Or.inl ⟨u, g, hcall⟩) h
  | joinInserting _ _ => exact effectInv_joinInsert hs hcall h
  | leaveReading u g => exact effectInv_read hs (Or.inr (Or.inl ⟨u, g, hcall⟩)) h
  | leaveReadingSuccessor me =>
    exact effectInv_read hs (Or.inr (Or.inr (Or.inl ⟨me, hcall⟩))) h
  | transferReadingCaller u g v =>
    exact effectInv_read hs (Or.inr (Or.inr (Or.inr (Or.inl ⟨u, g, v, hcall⟩)))) h
  | transferReadingTarget u v =>
    exact effectInv_read hs (Or.inr (Or.inr (Or.inr (Or.inr ⟨u, v, hcall⟩)))) h
  | leaveDeletingGroup _ => exact effectInv_deleteGroup hs hcall h
  | leaveDeleting me => exact effectInv_update hs (Or.inl ⟨me, hcall⟩) h
  | leavePromoting a b => exact effectInv_update hs (Or.inr (Or.inl ⟨a, b, hcall⟩)) h
  | leaveDeletingOwner a b =>
    exact effectInv_update hs (Or.inr (Or.inr (Or.inl ⟨a, b, hcall⟩))) h
  | transferPromoting a b =>
    exact effectInv_update hs (Or.inr (Or.inr (Or.inr (Or.inl ⟨a, b, hcall⟩)))) h
  | transferDemoting a b =>
    exact effectInv_update hs (Or.inr (Or.inr (Or.inr (Or.inr ⟨a, b, hcall⟩)))) h

end Statement

/-- Each action does what the program counter of its call promises. -/
theorem effectInv_of_decide? {s : State} {a : Action} {e : Effect Row Key Call} {log : Log}
    (hs : Inv s) (h : decide? s a = some (e, log)) :
    EffectInv s a.call log e ∧ s.aux.Grows log := by
  cases a with
  | request c r =>
    simp only [decide?] at h
    split at h
    · next hcall =>
      cases h
      have hnil : s.store.writesOf c = [] := by
        have hpc := hs.calls c
        rwa [hcall] at hpc
      refine ⟨?_, Log.Grows.refl _⟩
      show CallInv s.store.committed (s.store.writesOf c) s.aux r.start
      rw [hnil]
      cases r with
      | create _ _ | join _ _ | leave _ _ => rfl
      | transferOwnership callerId groupId targetUserId =>
        rw [Request.start]
        split_ifs with hself
        · rfl
        · exact ⟨rfl, hself⟩
    · exact absurd h (by simp)
  | statement c id now => exact effectInv_of_statement hs h
  | commit c =>
    simp only [decide?] at h
    split at h
    · next o hcall =>
      cases h
      have hpc := hs.calls c
      rw [hcall] at hpc
      exact ⟨⟨quiet_emitting _ _, o, hcall, hpc⟩, Log.Grows.refl _⟩
    · exact absurd h (by simp)
  | emit c =>
    simp only [decide?] at h
    split at h
    · next events result hcall =>
      cases h
      have hpc := hs.calls c
      rw [hcall] at hpc
      exact ⟨hpc, fun _ h => h, fun _ h => h⟩
    · exact absurd h (by simp)
  | fault c =>
    simp only [decide?] at h
    split_ifs at h
    cases h
    exact ⟨quiet_thrown _, Log.Grows.refl _⟩

/-! ## The committed tables after a step -/

/-- A membership an outcome leaves behind was there before, with the same group and
the same user, or is the owner of the created group. -/
theorem Outcome.Publishes.old_or_created {t t' : Tables} {o : Outcome} {r : GroupMember}
    (h : o.Publishes t t') (hr : .member r ∈ t') :
    (∃ r₀, .member r₀ ∈ t ∧ r₀.id = r.id ∧ r₀.groupId = r.groupId ∧ r₀.userId = r.userId) ∨
      ∃ g, o = .created g r := by
  cases o with
  | created g row =>
    rcases (h.2 r).mp hr with rfl | hr
    · exact Or.inr ⟨g, rfl⟩
    · exact Or.inl ⟨r, hr, rfl, rfl, rfl⟩
  | left me => exact Or.inl ⟨r, ((h.2 r).mp hr).1, rfl, rfl, rfl⟩
  | handedOver me next =>
    obtain ⟨-, b, hb, -, hmem⟩ := h
    rcases ((hmem r).mp hr).1 with rfl | ⟨hr, -⟩
    · exact Or.inl ⟨b, hb, rfl, rfl, rfl⟩
    · exact Or.inl ⟨r, hr, rfl, rfl, rfl⟩
  | deletedGroup me => exact Or.inl ⟨r, ((h.2 r).mp hr).1, rfl, rfl, rfl⟩
  | transferred caller target =>
    obtain ⟨-, b, a, hb, -, ha, -, hmem⟩ := h
    rcases (hmem r).mp hr with rfl | ⟨rfl | ⟨hr, -⟩, -⟩
    · exact Or.inl ⟨a, ha, rfl, rfl, rfl⟩
    · exact Or.inl ⟨b, hb, rfl, rfl, rfl⟩
    · exact Or.inl ⟨r, hr, rfl, rfl, rfl⟩

/-- Publishing an outcome keeps every membership in a group. -/
theorem Outcome.Publishes.foreignKey {t t' : Tables} {ws : List (Write Row Key)} {log : Log}
    {o : Outcome} (h : o.Publishes t t') (ho : OutcomeInv t ws log o)
    (ht : ∀ r, .member r ∈ t → ∃ g, .group g ∈ t ∧ g.id = r.groupId) :
    ∀ r, .member r ∈ t' → ∃ g, .group g ∈ t' ∧ g.id = r.groupId := by
  intro r hr
  rcases h.old_or_created hr with ⟨r₀, hr₀, -, hg₀, -⟩ | ⟨g, rfl⟩
  · obtain ⟨g, hg, hgid⟩ := ht r₀ hr₀
    cases o with
    | created g' row => exact ⟨g, (h.1 g).mpr (Or.inr hg), hgid.trans hg₀⟩
    | left me | handedOver me next | transferred a b =>
      exact ⟨g, (h.1 g).mpr hg, hgid.trans hg₀⟩
    | deletedGroup me =>
      refine ⟨g, (h.1 g).mpr ⟨hg, ?_⟩, hgid.trans hg₀⟩
      rw [hgid, hg₀]
      exact ((h.2 r).mp hr).2
  · obtain ⟨-, -, -, -, -, hgroup, -⟩ := ho
    exact ⟨g, (h.1 g).mpr (Or.inl rfl), hgroup.symm⟩

theorem Outcome.Publishes.groupIds {t t' : Tables} {ws : List (Write Row Key)} {log : Log}
    {o : Outcome} (h : o.Publishes t t') (ho : OutcomeInv t ws log o)
    (ht : ∀ g, .group g ∈ t → g.id ∈ log.groupIds) : ∀ g, .group g ∈ t' → g.id ∈ log.groupIds := by
  intro g hg
  cases o with
  | created g' row =>
    rcases (h.1 g).mp hg with rfl | hg
    · exact ho.2.2.1
    · exact ht g hg
  | left me | handedOver me next | transferred a b => exact ht g ((h.1 g).mp hg)
  | deletedGroup me => exact ht g ((h.1 g).mp hg).1

/-- The action publishes a transaction. -/
def Commits (s : State) (a : Action) (o : Outcome) : Prop :=
  ∃ c, a = .commit c ∧ s.calls c = .committing o

/-- How a step moves the committed tables. -/
inductive Moves (s t : State) (a : Action) : Prop where
  /-- Not at all. -/
  | same (h : t.store.committed = s.store.committed) (quiet : ∀ o, ¬ Commits s a o)
  /-- A membership with no rank is inserted into a group nobody is deleting. -/
  | joined (r : GroupMember) (h : t.store.committed = s.store.committed.put (.member r))
      (quiet : ∀ o, ¬ Commits s a o) (issued : Issued t.aux r)
      (unused : Unused s.store.committed (.member r.id)) (role : r.role = .member)
      (group : ∃ g, .group g ∈ s.store.committed ∧ g.id = r.groupId)
      (free : ∀ c ≠ a.call, Key.group r.groupId ∉ s.store.locks c)
  /-- A transaction publishes its outcome. -/
  | published (o : Outcome) (commits : Commits s a o)
      (h : o.Publishes s.store.committed t.store.committed)
      (before : OutcomeInv s.store.committed (s.store.writesOf a.call) t.aux o)

/-- A step is an effect of its call carried out. -/
theorem exists_effect_of_step {s t : State} {a : Action} (hs : Inv s) (h : step s a = some t) :
    ∃ e, EffectInv s a.call t.aux e ∧ s.aux.Grows t.aux ∧ decide? s a = some (e, t.aux) ∧
      s.perform a.call e t.aux = some t := by
  obtain ⟨⟨e, log⟩, hdec, hperf⟩ := Option.bind_eq_some_iff.mp h
  have hlog : t.aux = log := System.aux_of_perform hperf
  subst hlog
  obtain ⟨he, hgrows⟩ := effectInv_of_decide? hs hdec
  exact ⟨e, he, hgrows, hdec, hperf⟩

/-- Only the commit of a finished transaction comes to a commit. -/
theorem commits_iff_of_decide? {s : State} {a : Action} {e : Effect Row Key Call} {log : Log}
    (he : EffectInv s a.call log e) (hdec : decide? s a = some (e, log)) :
    (∃ o, Commits s a o) ↔ ∃ pc, e = .commit pc := by
  constructor
  · rintro ⟨o, c, rfl, hcall⟩
    simp only [decide?, hcall, Option.some.injEq, Prod.mk.injEq] at hdec
    exact ⟨_, hdec.1.symm⟩
  · rintro ⟨pc, rfl⟩
    obtain ⟨-, o, hcall, -⟩ := he
    cases a with
    | commit c => exact ⟨o, c, rfl, hcall⟩
    | request c r | statement c id now | emit c =>
      have hcall' : s.calls c = .committing o := hcall
      simp [decide?, statement, hcall'] at hdec
    | fault c =>
      simp only [decide?] at hdec
      split_ifs at hdec
      exact absurd hdec (by simp)

theorem moves_of_step {s t : State} {a : Action} (hs : Inv s) (h : step s a = some t) :
    Moves s t a := by
  obtain ⟨e, he, -, hdec, hperf⟩ := exists_effect_of_step hs h
  have hquiet : (∀ pc, e ≠ .commit pc) → ∀ o, ¬ Commits s a o := by
    intro hne o hc
    obtain ⟨pc, hpc⟩ := (commits_iff_of_decide? he hdec).mp ⟨o, hc⟩
    exact hne pc hpc
  cases e with
  | goto pc => exact .same (by rw [System.store_of_perform_goto hperf]) (hquiet (by simp))
  | write ws pc => exact .same (System.committed_of_perform_write hperf).1 (hquiet (by simp))
  | abort pc => exact .same (System.committed_of_perform_abort hperf).1 (hquiet (by simp))
  | autocommit ws pc =>
    obtain ⟨hnil, -, r, rfl, hiss, hun, hrole, hgroup, hfree⟩ := he
    have hcom := (System.committed_of_perform_autocommit hperf hnil).1
    refine .joined r hcom (hquiet (by simp)) hiss hun hrole hgroup fun c' hne hlock => ?_
    exact hfree (Store.lockedByOther_of_mem_locks hlock hne)
  | commit pc =>
    obtain ⟨o, hc⟩ := (commits_iff_of_decide? he hdec).mpr ⟨pc, rfl⟩
    obtain ⟨-, o', hcall', ho⟩ := he
    have hoo : o' = o := by
      obtain ⟨c, rfl, hcall⟩ := hc
      exact Call.committing.inj (hcall'.symm.trans hcall)
    subst hoo
    refine .published o' hc ?_ ho
    rw [(System.committed_of_perform_commit hperf).1]
    exact publishes_of_outcomeInv ho

/-- **What moves leaves the other calls' rows alone.** -/
theorem Moves.undisturbed {s t : State} {a : Action} {c : ℕ} (h : Moves s t a)
    (hframe : System.Frame s t a.call) (hne : c ≠ a.call) :
    Undisturbed s.store.committed t.store.committed (s.store.writesOf c) := by
  refine ⟨fun row hrow => hframe.mem_of_mem_locks c hne row hrow, fun r hr hlock => ?_⟩
  cases h with
  | same h =>
    rw [h] at hr
    exact ⟨r, hr, rfl, rfl⟩
  | joined r' h _ _ _ _ _ hfree =>
    rw [h, Table.mem_put] at hr
    rcases hr with heq | ⟨hr, -⟩
    · rw [Row.member.inj heq] at hlock
      exact absurd hlock (hfree c hne)
    · exact ⟨r, hr, rfl, rfl⟩
  | published o _ h ho =>
    rcases h.old_or_created hr with ⟨r₀, hr₀, hid, hg, -⟩ | ⟨g, rfl⟩
    · exact ⟨r₀, hr₀, hid, hg⟩
    · obtain ⟨hws, -, -, -, -, hgroup, -⟩ := ho
      have hown : Key.group r.groupId ∈ s.store.locks a.call := by
        rw [Store.locks, hws, hgroup]
        exact List.mem_cons_self
      exact absurd (Store.eq_of_mem_locks hlock hown) hne

theorem callInv_of_perform {s t : State} {c : ℕ} {e : Effect Row Key Call} {log : Log}
    (he : EffectInv s c log e) (h : s.perform c e log = some t) :
    CallInv t.store.committed (t.store.writesOf c) log (t.calls c) := by
  rw [System.calls_of_perform h]
  cases e with
  | goto pc =>
    rw [System.store_of_perform_goto h]
    exact he
  | write ws pc =>
    obtain ⟨hcom, hws⟩ := System.committed_of_perform_write h
    rw [hcom, hws]
    exact he
  | autocommit ws pc =>
    rw [(System.committed_of_perform_autocommit h he.1).2]
    exact he.2.1 _ _
  | commit pc =>
    rw [(System.committed_of_perform_commit h).2]
    exact he.1 _ _
  | abort pc =>
    rw [(System.committed_of_perform_abort h).2]
    exact he _ _

/-- **The invariant is kept by every step.** -/
theorem inv_of_step {s t : State} {a : Action} (hs : Inv s) (h : step s a = some t) : Inv t := by
  obtain ⟨e, he, hgrows, -, hperf⟩ := exists_effect_of_step hs h
  have hframe : System.Frame s t a.call := System.frame_of_perform hperf
  have hmoves : Moves s t a := moves_of_step hs h
  refine ⟨?_, ?_, ?_, fun c => ?_⟩
  · cases hmoves with
    | same hcom _ =>
      rw [hcom]
      exact hs.foreignKey
    | joined r hcom _ _ _ _ hgroup _ =>
      rw [hcom]
      have hkeep : ∀ g : Group, .group g ∈ s.store.committed →
          .group g ∈ s.store.committed.put (.member r) := fun g hg =>
        (Table.mem_put_of_key_ne (by simp)).mpr hg
      intro r' hr'
      rcases Table.mem_put.mp hr' with heq | ⟨hr', -⟩
      · obtain ⟨g, hg, hid⟩ := hgroup
        rw [Row.member.inj heq]
        exact ⟨g, hkeep g hg, hid⟩
      · obtain ⟨g, hg, hid⟩ := hs.foreignKey r' hr'
        exact ⟨g, hkeep g hg, hid⟩
    | published o _ hpub ho => exact hpub.foreignKey ho hs.foreignKey
  · intro r hr
    cases hmoves with
    | same hcom _ =>
      rw [hcom] at hr
      exact (hs.issued r hr).mono hgrows
    | joined r' hcom _ hiss _ _ _ _ =>
      rw [hcom, Table.mem_put] at hr
      rcases hr with heq | ⟨hr, -⟩
      · rw [Row.member.inj heq]
        exact hiss
      · exact (hs.issued r hr).mono hgrows
    | published o _ hpub ho =>
      rcases hpub.old_or_created hr with ⟨r₀, hr₀, hid, hg, hu⟩ | ⟨g, rfl⟩
      · exact ((hs.issued r₀ hr₀).congr hid.symm hg.symm hu.symm).mono hgrows
      · exact ho.2.2.2.2.1
  · have hold : ∀ g, .group g ∈ s.store.committed → g.id ∈ t.aux.groupIds := fun g hg =>
      hgrows.groupIds _ (hs.groupIds g hg)
    cases hmoves with
    | same hcom _ =>
      rw [hcom]
      exact hold
    | joined r hcom _ _ _ _ _ _ =>
      intro g hg
      rw [hcom] at hg
      exact hold g ((Table.mem_put_of_key_ne (by simp)).mp hg)
    | published o _ hpub ho => exact hpub.groupIds ho hold
  · by_cases hc : c = a.call
    · rw [hc]
      exact callInv_of_perform he hperf
    · rw [hframe.calls_of_ne c hc, hframe.writesOf_of_ne c hc]
      exact (hs.calls c).congr (hmoves.undisturbed hframe hc) hgrows

theorem inv_start : Inv start :=
  ⟨fun _ h => absurd h (Table.not_mem_empty _), fun _ h => absurd h (Table.not_mem_empty _),
    fun _ h => absurd h (Table.not_mem_empty _), fun _ => rfl⟩

/-! ## A group id is used once -/

/-- The group a call is creating. -/
def Call.creates : Call → Option Uuid
  | .creatingOwner _ g | .committing (.created g _) => some g.id
  | _ => none

/-- The id was generated, and no call is still creating the group: it exists or has
existed, and will not come into being again. -/
structure Known (s : State) (groupId : Uuid) : Prop where
  mem_groupIds : groupId ∈ s.aux.groupIds
  not_creates : ∀ c, (s.calls c).creates ≠ some groupId

theorem Inv.known {s : State} (hs : Inv s) {g : Group} (hg : .group g ∈ s.store.committed) :
    Known s g.id := by
  refine ⟨hs.groupIds g hg, fun c hc => ?_⟩
  have hpc := hs.calls c
  cases hcall : s.calls c with
  | creatingOwner u g' =>
    rw [hcall] at hpc hc
    exact hpc.2.1 _ hg (by rw [Row.key_group, ← Option.some.inj hc])
  | committing o =>
    rw [hcall] at hpc hc
    cases o with
    | created g' row => exact hpc.2.1 _ hg (by rw [Row.key_group, ← Option.some.inj hc])
    | left _ | handedOver _ _ | deletedGroup _ | transferred _ _ =>
      exact absurd hc (by simp [Call.creates])
  | idle | creatingGroup _ _ | joinReading _ _ | joinInserting _ _ | leaveReading _ _
  | leaveDeleting _ | leaveReadingSuccessor _ | leaveDeletingGroup _ | leavePromoting _ _
  | leaveDeletingOwner _ _ | transferReadingCaller _ _ _ | transferReadingTarget _ _
  | transferPromoting _ _ | transferDemoting _ _ | emitting _ _ | returned _ | thrown _ =>
    rw [hcall] at hc
    exact absurd hc (by simp [Call.creates])

/-- A statement goes on creating the same group, or starts on a fresh id, or is not
creating one. -/
theorem creates_of_statement {s : State} {c : ℕ} {id : Uuid} {now : Instant}
    {e : Effect Row Key Call} {log : Log} (h : statement s c id now = some (e, log)) :
    e.pc.creates = none ∨ e.pc.creates = (s.calls c).creates ∨
      ∃ k ∉ s.aux.groupIds, e.pc.creates = some k := by
  cases hcall : s.calls c with
  | creatingGroup userId name =>
    simp only [statement, hcall] at h
    split_ifs at h with hwait hname
    · cases h
      exact Or.inl rfl
    · cases h
      exact Or.inr (Or.inr ⟨id, fun hmem => hwait (Or.inl hmem), rfl⟩)
  | creatingOwner userId g =>
    simp only [statement, hcall] at h
    split_ifs at h
    cases h
    exact Or.inr (Or.inl rfl)
  | joinReading _ _ | leaveReadingSuccessor _ | leaveDeletingGroup _ | transferReadingTarget _ _ =>
    simp only [statement, hcall] at h
    split at h <;> cases h <;> exact Or.inl rfl
  | joinInserting _ _ =>
    simp only [statement, hcall] at h
    split_ifs at h
    · cases h
      exact Or.inl rfl
    · split at h <;> cases h <;> exact Or.inl rfl
  | leaveReading _ _ | transferReadingCaller _ _ _ =>
    simp only [statement, hcall] at h
    split at h
    · cases h
      exact Or.inl rfl
    · split_ifs at h <;> cases h <;> exact Or.inl rfl
  | leaveDeleting _ | leavePromoting _ _ | leaveDeletingOwner _ _ | transferPromoting _ _
  | transferDemoting _ _ =>
    simp only [statement, hcall, updateById] at h
    cases h
    left
    split <;> rfl
  | idle | committing _ | emitting _ _ | returned _ | thrown _ =>
    simp only [statement, hcall] at h
    exact absurd h (by simp)

theorem creates_of_decide? {s : State} {a : Action} {e : Effect Row Key Call} {log : Log}
    (h : decide? s a = some (e, log)) :
    e.pc.creates = none ∨ e.pc.creates = (s.calls a.call).creates ∨
      ∃ k ∉ s.aux.groupIds, e.pc.creates = some k := by
  cases a with
  | request c r =>
    simp only [decide?] at h
    split at h
    · cases h
      left
      cases r with
      | create _ _ | join _ _ | leave _ _ => rfl
      | transferOwnership callerId groupId targetUserId =>
        simp only [Effect.pc, Request.start]
        split_ifs <;> rfl
    · exact absurd h (by simp)
  | statement c id now => exact creates_of_statement h
  | commit c | emit c =>
    simp only [decide?] at h
    split at h
    · cases h
      exact Or.inl rfl
    · exact absurd h (by simp)
  | fault c =>
    simp only [decide?] at h
    split_ifs at h
    cases h
    exact Or.inl rfl

/-- **Once known, always known.** -/
theorem Known.of_step {s t : State} {a : Action} {groupId : Uuid} (hs : Inv s)
    (hk : Known s groupId) (h : step s a = some t) : Known t groupId := by
  obtain ⟨e, -, hgrows, hdec, hperf⟩ := exists_effect_of_step hs h
  refine ⟨hgrows.groupIds _ hk.mem_groupIds, fun c => ?_⟩
  by_cases hc : c = a.call
  · rw [hc, System.calls_of_perform hperf]
    rcases creates_of_decide? hdec with hnone | hsame | ⟨k, hfresh, hkey⟩
    · rw [hnone]
      simp
    · rw [hsame]
      exact hk.not_creates a.call
    · rw [hkey]
      intro heq
      rw [Option.some.inj heq] at hfresh
      exact hfresh hk.mem_groupIds
  · rw [(System.frame_of_perform hperf).calls_of_ne c hc]
    exact hk.not_creates c

/-- A known group that exists after a step existed before it. -/
theorem Known.exists_of_step {s t : State} {a : Action} {g : Group} (hs : Inv s)
    (hk : Known s g.id) (h : step s a = some t) (hg : .group g ∈ t.store.committed) :
    .group g ∈ s.store.committed := by
  cases moves_of_step hs h with
  | same hcom _ => rwa [hcom] at hg
  | joined r hcom _ _ _ _ _ _ =>
    rw [hcom] at hg
    exact (Table.mem_put_of_key_ne (by simp)).mp hg
  | published o hc hpub ho =>
    cases o with
    | created g' row =>
      rcases (hpub.1 g).mp hg with rfl | hg
      · obtain ⟨c, -, hcall⟩ := hc
        exact absurd (by rw [hcall]; rfl) (hk.not_creates c)
      · exact hg
    | left me | handedOver me next | transferred a b => exact (hpub.1 g).mp hg
    | deletedGroup me => exact ((hpub.1 g).mp hg).1

end Groups
end GroupChat

import GroupChat.Groups.Records

/-!
# Leaving a group

`leave` is the call of `GroupsService` with its transaction run as one step, on a database
that also holds the messages and reactions a deleted group takes with it.  The caller's
membership always goes; what else happens depends on the caller's role and on who remains.

`leave_is_documented` is the table of the documentation, row by row, with everything that
stays as it is, and says that the answer and the events tell what has happened.  The one
thing it needs of the database beyond the constraints is that every group has one owner,
which every departure keeps.
-/

namespace GroupChat
namespace Groups

open Common Database Messages

variable {d : Records} {groupId userId : Uuid} {me next r : GroupMember}

/-! ## The call -/

/-- What `leave` comes to when it does not throw: the database, the events it emits after
its transaction, and the answer. -/
structure Left where
  records : Records
  events : List Event
  groupDeleted : Bool
  newOwnerId : Option Uuid

/-- Emitted when the transaction is committed, in this order. -/
def leaveEvents (userId groupId : Uuid) (groupDeleted : Bool) (newOwnerId : Option Uuid) :
    List Event :=
  (match newOwnerId with
    | some newOwnerId => [.ownerChanged groupId userId newOwnerId]
    | none => []) ++
  -- no room remains for anyone to hear of a deleted group
  if groupDeleted then [] else [.memberLeft groupId userId]

def leave (d : Records) (userId groupId : Uuid) : Except Exception Left :=
  match membership d.tables groupId userId with
  | none => .error (.forbidden notAMemberMessage)
  | some me =>
    if me.role ≠ .owner then
      .ok ⟨d.deleteMember me.id, leaveEvents userId groupId false none, false, none⟩
    else
      match successor d.tables groupId userId with
      | none => .ok ⟨d.deleteGroup groupId, leaveEvents userId groupId true none, true, none⟩
      | some next =>
        .ok ⟨(d.updateMember next.id (.role .owner)).deleteMember me.id,
          leaveEvents userId groupId false (some next.userId), false, some next.userId⟩

/-! ## The documentation -/

/-- The user's membership in the group. -/
structure IsMembership (d : Records) (groupId userId : Uuid) (me : GroupMember) : Prop where
  mem : .member me ∈ d.tables
  groupId_eq : me.groupId = groupId
  userId_eq : me.userId = userId

/-- Another member of the same group. -/
structure IsOther (d : Records) (me r : GroupMember) : Prop where
  mem : .member r ∈ d.tables
  groupId_eq : r.groupId = me.groupId
  ne : r ≠ me

/-- The longest-standing of the others; the id breaks ties. -/
structure IsSuccessor (d : Records) (me next : GroupMember) : Prop where
  other : IsOther d me next
  least : ∀ r, IsOther d me r → toLex (next.joinedAt, next.id) ≤ toLex (r.joinedAt, r.id)

/-- The messages and the reactions are as they were. -/
def SameMessages (d after : Records) : Prop :=
  after.messages = d.messages ∧ after.reactions = d.reactions

/-- The group is there. -/
def GroupExists (d : Records) (groupId : Uuid) : Prop := ∃ g, .group g ∈ d.tables ∧ g.id = groupId

/-- **What is documented of leaving.** -/
structure LeaveIsDocumented (d : Records) (userId groupId : Uuid)
    (result : Except Exception Left) : Prop where
  notMember : (∀ me, ¬IsMembership d groupId userId me) →
    result = .error (.forbidden notAMemberMessage)
  member : ∀ me, IsMembership d groupId userId me → me.role ≠ .owner →
    ∃ after, result = .ok ⟨after, [.memberLeft groupId userId], false, none⟩ ∧
      (∀ row, row ∈ after.tables ↔ row ∈ d.tables ∧ row ≠ .member me) ∧ SameMessages d after
  handover : ∀ me, IsMembership d groupId userId me → me.role = .owner → (∃ r, IsOther d me r) →
    ∃ next after, IsSuccessor d me next ∧
      result = .ok ⟨after, [.ownerChanged groupId userId next.userId, .memberLeft groupId userId],
        false, some next.userId⟩ ∧
      (∀ row, row ∈ after.tables ↔ row = .member { next with role := .owner } ∨
        row ∈ d.tables ∧ row ≠ .member me ∧ row ≠ .member next) ∧ SameMessages d after
  alone : ∀ me, IsMembership d groupId userId me → (∀ r, ¬IsOther d me r) →
    ∃ after, result = .ok ⟨after, [], true, none⟩ ∧
      (∀ g, .group g ∈ after.tables ↔ .group g ∈ d.tables ∧ g.id ≠ groupId) ∧
      (∀ r, .member r ∈ after.tables ↔ .member r ∈ d.tables ∧ r.groupId ≠ groupId) ∧
      (∀ m, m ∈ after.messages ↔ m ∈ d.messages ∧ m.groupId ≠ groupId) ∧
      ∀ r, r ∈ after.reactions ↔
        r ∈ d.reactions ∧ ∀ m ∈ d.messages, m.id = r.messageId → m.groupId ≠ groupId
  groupDeleted : ∀ left, result = .ok left →
    (left.groupDeleted = true ↔ ¬GroupExists left.records groupId)
  newOwnerId : ∀ left, result = .ok left → ∀ newOwnerId, left.newOwnerId = some newOwnerId →
    ∃ r, Owns left.records.tables groupId r ∧ r.userId = newOwnerId ∧ newOwnerId ≠ userId
  ownerChanged : ∀ left, result = .ok left → ∀ k previous newOwnerId,
    .ownerChanged k previous newOwnerId ∈ left.events ↔
      k = groupId ∧ previous = userId ∧ left.newOwnerId = some newOwnerId
  memberLeft : ∀ left, result = .ok left → ∀ k u, .memberLeft k u ∈ left.events ↔
    k = groupId ∧ u = userId ∧ GroupExists left.records groupId
  oneOwner : ∀ left, result = .ok left → OneOwner left.records.tables

/-! ## What the queries find -/

theorem membership_of_isMembership (h : IsMembership d groupId userId me) :
    membership d.tables groupId userId = some me :=
  membership_iff.mpr ⟨h.mem, h.groupId_eq, h.userId_eq⟩

/-- In the same group, another row is another user's. -/
theorem userId_ne_iff (h : IsMembership d groupId userId me) (hr : .member r ∈ d.tables)
    (hgroup : r.groupId = groupId) : r.userId ≠ userId ↔ r ≠ me := by
  refine not_congr ⟨fun huser => ?_, fun hsame => by rw [hsame, h.userId_eq]⟩
  exact d.constraints.memberUnique r me hr h.mem (hgroup.trans h.groupId_eq.symm)
    (huser.trans h.userId_eq.symm)

/-- The rows the query for a successor is about are the others. -/
theorem mem_candidates_iff (h : IsMembership d groupId userId me) :
    r ∈ (membersOf d.tables).filter (fun r => r.groupId = groupId ∧ r.userId ≠ userId) ↔
      IsOther d me r := by
  rw [List.mem_filter, mem_membersOf, decide_eq_true_eq]
  constructor
  · rintro ⟨hr, hgroup, huser⟩
    exact ⟨hr, hgroup.trans h.groupId_eq.symm, (userId_ne_iff h hr hgroup).mp huser⟩
  · intro hother
    have hgroup : r.groupId = groupId := hother.groupId_eq.trans h.groupId_eq
    exact ⟨hother.mem, hgroup, (userId_ne_iff h hother.mem hgroup).mpr hother.ne⟩

/-- **The query finds the successor.** -/
theorem isSuccessor_of_successor (h : IsMembership d groupId userId me)
    (hnext : successor d.tables groupId userId = some next) : IsSuccessor d me next where
  other := (mem_candidates_iff h).mp (List.argmin_mem hnext)
  least _ hr := List.le_of_mem_argmin (f := fun r : GroupMember => toLex (r.joinedAt, r.id))
    ((mem_candidates_iff h).mpr hr) hnext

theorem successor_eq_none_iff (h : IsMembership d groupId userId me) :
    successor d.tables groupId userId = none ↔ ∀ r, ¬IsOther d me r := by
  rw [successor, List.argmin_eq_none, List.eq_nil_iff_forall_not_mem]
  exact forall_congr' fun r => not_congr (mem_candidates_iff h)

/-- **What `leave` comes to.** -/
inductive Leaves (d : Records) (userId groupId : Uuid) : Except Exception Left → Prop
  | refused (stranger : ∀ me, ¬IsMembership d groupId userId me) :
      Leaves d userId groupId (.error (.forbidden notAMemberMessage))
  | departed {me : GroupMember} (caller : IsMembership d groupId userId me)
      (role : me.role ≠ .owner) :
      Leaves d userId groupId
        (.ok ⟨d.deleteMember me.id, [.memberLeft groupId userId], false, none⟩)
  | deleted {me : GroupMember} (caller : IsMembership d groupId userId me) (role : me.role = .owner)
      (alone : ∀ r, ¬IsOther d me r) :
      Leaves d userId groupId (.ok ⟨d.deleteGroup groupId, [], true, none⟩)
  | handedOver {me next : GroupMember} (caller : IsMembership d groupId userId me)
      (role : me.role = .owner) (successor : IsSuccessor d me next) :
      Leaves d userId groupId
        (.ok ⟨(d.updateMember next.id (.role .owner)).deleteMember me.id,
          [.ownerChanged groupId userId next.userId, .memberLeft groupId userId], false,
          some next.userId⟩)

theorem leaves (d : Records) (userId groupId : Uuid) :
    Leaves d userId groupId (leave d userId groupId) := by
  unfold leave
  split
  · next hnone =>
    refine .refused fun me hme => ?_
    rw [membership_of_isMembership hme] at hnone
    cases hnone
  · next me hfound =>
    obtain ⟨hme, hgroup, huser⟩ := membership_iff.mp hfound
    have hcaller : IsMembership d groupId userId me := ⟨hme, hgroup, huser⟩
    split_ifs with hrole
    · exact .departed hcaller hrole
    · split
      · next hnone =>
        exact .deleted hcaller (not_not.mp hrole) ((successor_eq_none_iff hcaller).mp hnone)
      · next next hnext =>
        exact .handedOver hcaller (not_not.mp hrole) (isSuccessor_of_successor hcaller hnext)

theorem IsMembership.unique (h : IsMembership d groupId userId me)
    (h' : IsMembership d groupId userId r) : r = me :=
  d.constraints.memberUnique r me h'.mem h.mem (h'.groupId_eq.trans h.groupId_eq.symm)
    (h'.userId_eq.trans h.userId_eq.symm)

/-- The caller's group exists. -/
theorem IsMembership.groupExists (h : IsMembership d groupId userId me) : GroupExists d groupId := by
  obtain ⟨g, hg, hid⟩ := d.constraints.memberGroup me h.mem
  exact ⟨g, hg, hid.trans h.groupId_eq⟩

/-- The rows after a handover and a departure. -/
theorem mem_handedOver (hme : .member me ∈ d.tables) (hnext : IsOther d me next) {row : Row} :
    row ∈ ((d.updateMember next.id (.role .owner)).deleteMember me.id).tables ↔
      row = .member { next with role := .owner } ∨
        row ∈ d.tables ∧ row ≠ .member me ∧ row ≠ .member next := by
  have hme' : .member me ∈ (d.updateMember next.id (.role .owner)).tables :=
    (mem_updateMember hnext.mem _).mpr (Or.inr ⟨hme, hnext.ne.symm⟩)
  cases row with
  | group g =>
    rw [group_mem_deleteMember, group_mem_updateMember]
    simp
  | member r =>
    rw [mem_deleteMember hme', mem_updateMember hnext.mem]
    have hpromoted : { next with role := .owner } ≠ me := by
      rintro rfl
      exact hnext.ne (eq_of_member_mem hnext.mem hme rfl)
    simp only [Row.member.injEq, ne_eq, MemberUpdate.apply]
    constructor
    · rintro ⟨rfl | ⟨hr, hne⟩, hnot⟩
      · exact Or.inl rfl
      · exact Or.inr ⟨hr, hnot, hne⟩
    · rintro (rfl | ⟨hr, hnot, hne⟩)
      · exact ⟨Or.inl rfl, hpromoted⟩
      · exact ⟨Or.inr ⟨hr, hne⟩, hnot⟩

/-! ## One owner -/

theorem oneOwner_departed (hone : OneOwner d.tables) (hme : .member me ∈ d.tables)
    (hrole : me.role ≠ .owner) : OneOwner (d.deleteMember me.id).tables := by
  intro g hg
  refine (existsUnique_owns_congr fun r => ?_).mpr (hone g (group_mem_deleteMember.mp hg))
  rw [Owns, Owns, mem_deleteMember hme]
  constructor
  · rintro ⟨⟨hr, -⟩, hgroup, howner⟩
    exact ⟨hr, hgroup, howner⟩
  · rintro ⟨hr, hgroup, howner⟩
    refine ⟨⟨hr, ?_⟩, hgroup, howner⟩
    rintro rfl
    exact hrole howner

theorem oneOwner_deleted (hone : OneOwner d.tables) : OneOwner (d.deleteGroup groupId).tables := by
  intro g hg
  obtain ⟨hg, hne⟩ := group_mem_deleteGroup.mp hg
  refine (existsUnique_owns_congr fun r => ?_).mpr (hone g hg)
  rw [Owns, Owns, member_mem_deleteGroup]
  constructor
  · rintro ⟨⟨hr, -⟩, hgroup, howner⟩
    exact ⟨hr, hgroup, howner⟩
  · rintro ⟨hr, hgroup, howner⟩
    exact ⟨⟨hr, by rwa [hgroup]⟩, hgroup, howner⟩

theorem oneOwner_handedOver (hone : OneOwner d.tables) (hme : .member me ∈ d.tables)
    (hrole : me.role = .owner) (hnext : IsOther d me next) :
    OneOwner ((d.updateMember next.id (.role .owner)).deleteMember me.id).tables := by
  intro g hg
  have hg' : .group g ∈ d.tables := by
    rwa [group_mem_deleteMember, group_mem_updateMember] at hg
  have howns : ∀ r, Owns ((d.updateMember next.id (.role .owner)).deleteMember me.id).tables g.id r ↔
      r = { next with role := .owner } ∧ next.groupId = g.id ∨
        Owns d.tables g.id r ∧ r ≠ me ∧ r ≠ next := by
    intro r
    rw [Owns, Owns, mem_handedOver hme hnext]
    simp only [Row.member.injEq, ne_eq]
    constructor
    · rintro ⟨rfl | ⟨hr, hnot, hne⟩, hgroup, howner⟩
      · exact Or.inl ⟨rfl, hgroup⟩
      · exact Or.inr ⟨⟨hr, hgroup, howner⟩, hnot, hne⟩
    · rintro (⟨rfl, hgroup⟩ | ⟨⟨hr, hgroup, howner⟩, hnot, hne⟩)
      · exact ⟨Or.inl rfl, hgroup, rfl⟩
      · exact ⟨Or.inr ⟨hr, hnot, hne⟩, hgroup, howner⟩
  by_cases hgroup : g.id = me.groupId
  · -- the group of the two: the caller was its only owner
    have hnextGroup : next.groupId = g.id := hnext.groupId_eq.trans hgroup.symm
    refine ⟨{ next with role := .owner }, (howns _).mpr (Or.inl ⟨rfl, hnextGroup⟩), fun r hr => ?_⟩
    rcases (howns r).mp hr with ⟨rfl, -⟩ | ⟨hr, hnot, -⟩
    · rfl
    · exact absurd ((hone g hg').unique hr ⟨hme, hgroup.symm, hrole⟩) hnot
  · refine (existsUnique_owns_congr fun r => ?_).mpr (hone g hg')
    rw [howns]
    constructor
    · rintro (⟨-, hnextGroup⟩ | ⟨hr, -, -⟩)
      · exact absurd (hnextGroup.symm.trans hnext.groupId_eq) hgroup
      · exact hr
    · intro hr
      refine Or.inr ⟨hr, ?_, ?_⟩
      · rintro rfl
        exact hgroup hr.2.1.symm
      · rintro rfl
        exact hgroup (hr.2.1.symm.trans hnext.groupId_eq)

/-! ## The call does what is documented -/

/-- Someone who is alone in a group owns it. -/
theorem owner_of_alone (hone : OneOwner d.tables) (h : IsMembership d groupId userId me)
    (halone : ∀ r, ¬IsOther d me r) : me.role = .owner := by
  obtain ⟨g, hg, hid⟩ := h.groupExists
  obtain ⟨o, ⟨ho, hgroup, howner⟩, -⟩ := hone g hg
  by_contra hrole
  refine halone o ⟨ho, hgroup.trans (hid.trans h.groupId_eq.symm), ?_⟩
  rintro rfl
  exact hrole howner

theorem documented_of_refused (hstranger : ∀ me, ¬IsMembership d groupId userId me) :
    LeaveIsDocumented d userId groupId (.error (.forbidden notAMemberMessage)) where
  notMember _ := rfl
  member me hme _ := absurd hme (hstranger me)
  handover me hme _ _ := absurd hme (hstranger me)
  alone me hme _ := absurd hme (hstranger me)
  groupDeleted _ h := by cases h
  newOwnerId _ h := by cases h
  ownerChanged _ h := by cases h
  memberLeft _ h := by cases h
  oneOwner _ h := by cases h

theorem documented_of_departed (hone : OneOwner d.tables) (hme : IsMembership d groupId userId me)
    (hrole : me.role ≠ .owner) :
    LeaveIsDocumented d userId groupId
      (.ok ⟨d.deleteMember me.id, [.memberLeft groupId userId], false, none⟩) := by
  have hexists : GroupExists (d.deleteMember me.id) groupId := by
    obtain ⟨g, hg, hid⟩ := hme.groupExists
    exact ⟨g, group_mem_deleteMember.mpr hg, hid⟩
  have hrow : ∀ row, row ∈ (d.deleteMember me.id).tables ↔ row ∈ d.tables ∧ row ≠ .member me := by
    intro row
    cases row with
    | group g => simpa using group_mem_deleteMember
    | member r => simpa using mem_deleteMember hme.mem
  refine ⟨fun hnot => absurd hme (hnot me), fun me' hme' _ => ?_, fun me' hme' howner _ => ?_,
    fun me' hme' halone => ?_, ?_, ?_, ?_, ?_, ?_⟩
  · rw [hme.unique hme']
    exact ⟨_, rfl, hrow, rfl, rfl⟩
  · rw [hme.unique hme'] at howner
    exact absurd howner hrole
  · rw [hme.unique hme'] at halone
    exact absurd (owner_of_alone hone hme halone) hrole
  · rintro left ⟨rfl⟩
    simpa using hexists
  · rintro left ⟨rfl⟩ newOwnerId hnew
    cases hnew
  · rintro left ⟨rfl⟩ k previous newOwnerId
    simp
  · rintro left ⟨rfl⟩ k u
    simp [hexists]
  · rintro left ⟨rfl⟩
    exact oneOwner_departed hone hme.mem hrole

theorem documented_of_deleted (hone : OneOwner d.tables) (hme : IsMembership d groupId userId me)
    (hrole : me.role = .owner) (halone : ∀ r, ¬IsOther d me r) :
    LeaveIsDocumented d userId groupId (.ok ⟨d.deleteGroup groupId, [], true, none⟩) := by
  have hgone : ¬GroupExists (d.deleteGroup groupId) groupId := by
    rintro ⟨g, hg, hid⟩
    exact (group_mem_deleteGroup.mp hg).2 hid
  refine ⟨fun hnot => absurd hme (hnot me), fun me' hme' howner => ?_, fun me' hme' _ hother => ?_,
    fun me' hme' _ => ?_, ?_, ?_, ?_, ?_, ?_⟩
  · rw [hme.unique hme'] at howner
    exact absurd hrole howner
  · rw [hme.unique hme'] at hother
    obtain ⟨r, hr⟩ := hother
    exact absurd hr (halone r)
  · exact ⟨_, rfl, fun _ => group_mem_deleteGroup, fun _ => member_mem_deleteGroup,
      fun _ => message_mem_deleteGroup, fun _ => reaction_mem_deleteGroup⟩
  · rintro left ⟨rfl⟩
    simpa using hgone
  · rintro left ⟨rfl⟩ newOwnerId hnew
    cases hnew
  · rintro left ⟨rfl⟩ k previous newOwnerId
    simp
  · rintro left ⟨rfl⟩ k u
    simp [hgone]
  · rintro left ⟨rfl⟩
    exact oneOwner_deleted hone

theorem documented_of_handedOver (hone : OneOwner d.tables) (hme : IsMembership d groupId userId me)
    (hrole : me.role = .owner) (hnext : IsSuccessor d me next) :
    LeaveIsDocumented d userId groupId
      (.ok ⟨(d.updateMember next.id (.role .owner)).deleteMember me.id,
        [.ownerChanged groupId userId next.userId, .memberLeft groupId userId], false,
        some next.userId⟩) := by
  have hexists :
      GroupExists ((d.updateMember next.id (.role .owner)).deleteMember me.id) groupId := by
    obtain ⟨g, hg, hid⟩ := hme.groupExists
    exact ⟨g, (mem_handedOver hme.mem hnext.other).mpr (Or.inr ⟨hg, by simp, by simp⟩), hid⟩
  have hgroup : next.groupId = groupId := hnext.other.groupId_eq.trans hme.groupId_eq
  refine ⟨fun hnot => absurd hme (hnot me), fun me' hme' howner => ?_, fun me' hme' _ _ => ?_,
    fun me' hme' halone => ?_, ?_, ?_, ?_, ?_, ?_⟩
  · rw [hme.unique hme'] at howner
    exact absurd hrole howner
  · rw [hme.unique hme']
    exact ⟨next, _, hnext, rfl, fun _ => mem_handedOver hme.mem hnext.other, rfl, rfl⟩
  · rw [hme.unique hme'] at halone
    exact absurd hnext.other (halone next)
  · rintro left ⟨rfl⟩
    simpa using hexists
  · rintro left ⟨rfl⟩ newOwnerId ⟨rfl⟩
    refine ⟨{ next with role := .owner }, ⟨?_, hgroup, rfl⟩, rfl, ?_⟩
    · exact (mem_handedOver hme.mem hnext.other).mpr (Or.inl rfl)
    · exact (userId_ne_iff hme hnext.other.mem hgroup).mpr hnext.other.ne
  · rintro left ⟨rfl⟩ k previous newOwnerId
    simp [eq_comm]
  · rintro left ⟨rfl⟩ k u
    simp [hexists]
  · rintro left ⟨rfl⟩
    exact oneOwner_handedOver hone hme.mem hrole hnext.other

/-- **Leaving does what is documented**, on every database in which each group has one
owner. -/
theorem leave_is_documented (d : Records) (hone : OneOwner d.tables) (userId groupId : Uuid) :
    LeaveIsDocumented d userId groupId (leave d userId groupId) := by
  have hleaves : Leaves d userId groupId (leave d userId groupId) := leaves d userId groupId
  generalize leave d userId groupId = result at hleaves
  cases hleaves with
  | refused hstranger => exact documented_of_refused hstranger
  | departed hme hrole => exact documented_of_departed hone hme hrole
  | deleted hme hrole halone => exact documented_of_deleted hone hme hrole halone
  | handedOver hme hrole hnext => exact documented_of_handedOver hone hme hrole hnext

/-! ## An owner leaves -/

/-- The owner of group 2, and two members who joined at the same moment. -/
def threeRows : Tables :=
  ⟨[.group ⟨2, "a", 5, epoch⟩, .member ⟨10, 2, 5, .owner, epoch, none⟩,
    .member ⟨12, 2, 7, .admin, epoch, none⟩, .member ⟨11, 2, 6, .member, epoch, none⟩], by decide⟩

theorem member_mem_threeRows : .member r ∈ threeRows ↔
    r = ⟨10, 2, 5, .owner, epoch, none⟩ ∨ r = ⟨12, 2, 7, .admin, epoch, none⟩ ∨
      r = ⟨11, 2, 6, .member, epoch, none⟩ := by
  rw [Table.mem_def, threeRows]
  simp

theorem group_mem_threeRows {g : Group} : .group g ∈ threeRows ↔ g = ⟨2, "a", 5, epoch⟩ := by
  rw [Table.mem_def, threeRows]
  simp

def threeMembers : Records where
  tables := threeRows
  messages := Table.empty
  reactions := Table.empty
  constraints := by
    refine ⟨fun r hr => ⟨_, group_mem_threeRows.mpr rfl, ?_⟩, fun _ h => absurd h List.not_mem_nil,
      fun _ h => absurd h List.not_mem_nil, fun r r' hr hr' _ huser => ?_, fun g g' hg hg' _ _ => ?_,
      fun _ h => absurd h List.not_mem_nil⟩
    · rcases member_mem_threeRows.mp hr with rfl | rfl | rfl <;> rfl
    · rcases member_mem_threeRows.mp hr with rfl | rfl | rfl <;>
        rcases member_mem_threeRows.mp hr' with rfl | rfl | rfl <;>
          first | rfl | exact absurd huser (by decide)
    · rw [group_mem_threeRows.mp hg, group_mem_threeRows.mp hg']

theorem oneOwner_threeRows : OneOwner threeRows := by
  intro g hg
  rw [group_mem_threeRows.mp hg]
  refine ⟨_, ⟨member_mem_threeRows.mpr (Or.inl rfl), rfl, rfl⟩, fun r hr => ?_⟩
  obtain ⟨hr, -, howner⟩ := hr
  rcases member_mem_threeRows.mp hr with rfl | rfl | rfl
  · rfl
  · cases howner
  · cases howner

/-- The smaller id breaks the tie. -/
theorem leave_is_documented_threeMembers :
    LeaveIsDocumented threeMembers 5 2 (leave threeMembers 5 2) ∧
      ∃ left, leave threeMembers 5 2 = .ok left ∧ left.newOwnerId = some 6 :=
  ⟨leave_is_documented threeMembers oneOwner_threeRows 5 2, _, rfl, rfl⟩

end Groups
end GroupChat

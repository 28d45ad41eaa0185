import GroupChat.Common.Exception
import GroupChat.Database.Column
import GroupChat.Database.System
import GroupChat.Transition.Run
import Mathlib.Data.List.MinMax
import Mathlib.Data.Prod.Lex

/-!
# The group service

`GroupsService` has four calls that change who is in a group and who owns it.
`create` inserts a group and its owner in one transaction; `join` looks the group
up and inserts a membership; `leave` and `transferOwnership` read memberships and
then write some, by id, in one transaction.

`statement` is the body of all four: given what the transaction of a call sees,
it says what the next statement comes to.  Each branch is one statement of the
source, in the order of the source, and ends in an `Effect`.  `step` runs it
inside the store, where statements of different calls interleave.

Two columns carry the database's part.  `Log.memberships` and `Log.groupIds`
remember every id ever generated, since a generated id is a fresh one, and
`Log.events` is what the service has told its listeners.
-/

namespace GroupChat
namespace Groups

open Common Database

/-! ## Rows -/

structure Group where
  id : Uuid
  name : String
  createdBy : Uuid
  createdAt : Instant
deriving DecidableEq

inductive MemberRole where
  | owner
  | admin
  | member
deriving DecidableEq, Repr

structure GroupMember where
  id : Uuid
  groupId : Uuid
  userId : Uuid
  role : MemberRole
  joinedAt : Instant
  /-- Null for a member who has never marked the group read. -/
  lastReadAt : Option Instant
deriving DecidableEq

/-- A row of either table. -/
inductive Row where
  | group (g : Group)
  | member (r : GroupMember)
deriving DecidableEq

/-- A primary key of either table. -/
inductive Key where
  | group (id : Uuid)
  | member (id : Uuid)
deriving DecidableEq

def Row.key : Row → Key
  | .group g => .group g.id
  | .member r => .member r.id

def Row.group? : Row → Option Group
  | .group g => some g
  | .member _ => none

def Row.member? : Row → Option GroupMember
  | .group _ => none
  | .member r => some r

@[simp] theorem Row.key_group (g : Group) : Row.key (.group g) = .group g.id := rfl

@[simp] theorem Row.key_member (r : GroupMember) : Row.key (.member r) = .member r.id := rfl

/-- The two tables. -/
abbrev Tables := Table Row.key

/-! ## Queries -/

/-- The rows of the membership table. -/
def membersOf (t : Tables) : List GroupMember := t.rows.filterMap Row.member?

@[simp] theorem mem_membersOf {t : Tables} {r : GroupMember} :
    r ∈ membersOf t ↔ .member r ∈ t := by
  rw [membersOf, List.mem_filterMap]
  constructor
  · rintro ⟨row, hrow, heq⟩
    cases row with
    | group g => exact absurd heq (by simp [Row.member?])
    | member r' =>
      rw [← Option.some.inj heq]
      exact hrow
  · exact fun h => ⟨.member r, h, rfl⟩

/-- `group.findUnique` by id. -/
def groupById (t : Tables) (id : Uuid) : Option Group := (t.find? (.group id)).bind Row.group?

/-- `groupMember` by primary key. -/
def memberById (t : Tables) (id : Uuid) : Option GroupMember :=
  (t.find? (.member id)).bind Row.member?

/-- `groupMember.findUnique` by the composite key. -/
def membership (t : Tables) (groupId userId : Uuid) : Option GroupMember :=
  (membersOf t).find? fun r => r.groupId = groupId ∧ r.userId = userId

/-- Longest-standing member of the group other than the given user; the id breaks
ties. -/
def successor (t : Tables) (groupId userId : Uuid) : Option GroupMember :=
  ((membersOf t).filter fun r => r.groupId = groupId ∧ r.userId ≠ userId).argmin
    fun r => toLex (r.joinedAt, r.id)

theorem groupById_eq_some {t : Tables} {id : Uuid} {g : Group} (h : groupById t id = some g) :
    .group g ∈ t ∧ g.id = id := by
  obtain ⟨row, hrow, heq⟩ := Option.bind_eq_some_iff.mp h
  cases row with
  | group g' =>
    obtain rfl : g' = g := Option.some.inj heq
    have hkey : Row.key (.group g') = .group id := Table.key_of_find? hrow
    exact ⟨Table.mem_of_find? hrow, Key.group.inj hkey⟩
  | member r => exact absurd heq (by simp [Row.group?])

theorem memberById_eq_some {t : Tables} {id : Uuid} {r : GroupMember}
    (h : memberById t id = some r) : .member r ∈ t ∧ r.id = id := by
  obtain ⟨row, hrow, heq⟩ := Option.bind_eq_some_iff.mp h
  cases row with
  | group g => exact absurd heq (by simp [Row.member?])
  | member r' =>
    obtain rfl : r' = r := Option.some.inj heq
    have hkey : Row.key (.member r') = .member id := Table.key_of_find? hrow
    exact ⟨Table.mem_of_find? hrow, Key.member.inj hkey⟩

/-- A row is known by its id. -/
theorem eq_of_member_mem {t : Tables} {r r' : GroupMember} (hr : .member r ∈ t)
    (hr' : .member r' ∈ t) (hid : r.id = r'.id) : r = r' :=
  Row.member.inj (Table.eq_of_key_eq hr hr' (congrArg Key.member hid))

theorem membership_eq_some {t : Tables} {groupId userId : Uuid} {r : GroupMember}
    (h : membership t groupId userId = some r) :
    .member r ∈ t ∧ r.groupId = groupId ∧ r.userId = userId :=
  ⟨mem_membersOf.mp (List.mem_of_find?_eq_some h), by simpa using List.find?_some h⟩

theorem membership_eq_none {t : Tables} {groupId userId : Uuid} :
    membership t groupId userId = none ↔
      ∀ r, .member r ∈ t → r.groupId = groupId → r.userId ≠ userId := by
  rw [membership, List.find?_eq_none]
  constructor
  · intro h r hr hg hu
    exact h r (mem_membersOf.mpr hr) (by simp [hg, hu])
  · intro h r hr hdec
    obtain ⟨hg, hu⟩ := of_decide_eq_true hdec
    exact h r (mem_membersOf.mp hr) hg hu

theorem successor_eq_some {t : Tables} {groupId userId : Uuid} {r : GroupMember}
    (h : successor t groupId userId = some r) :
    .member r ∈ t ∧ r.groupId = groupId ∧ r.userId ≠ userId := by
  have hmem := List.argmin_mem h
  rw [List.mem_filter, mem_membersOf] at hmem
  exact ⟨hmem.1, by simpa using hmem.2⟩

/-! ## Calls -/

inductive Request where
  | create (userId : Uuid) (name : String)
  | join (userId groupId : Uuid)
  | leave (userId groupId : Uuid)
  | transferOwnership (callerId groupId targetUserId : Uuid)
deriving DecidableEq

/-- What the service tells its listeners. -/
inductive Event where
  | memberJoined (groupId : Uuid) (member : GroupMember)
  | memberLeft (groupId userId : Uuid)
  | ownerChanged (groupId previousOwnerId newOwnerId : Uuid)
deriving DecidableEq

inductive Result where
  | group (g : Group)
  | left (groupDeleted : Bool) (newOwnerId : Option Uuid)
  | transferred (previousOwnerId newOwnerId : Uuid)
deriving DecidableEq

/-- What a transaction that ran to its end has done. -/
inductive Outcome where
  | created (g : Group) (row : GroupMember)
  | left (me : GroupMember)
  | handedOver (me successor : GroupMember)
  | deletedGroup (me : GroupMember)
  | transferred (caller target : GroupMember)
deriving DecidableEq

/-- Emitted after the commit, in this order. -/
def Outcome.events : Outcome → List Event
  | .created _ _ => []
  | .left me => [.memberLeft me.groupId me.userId]
  | .handedOver me successor =>
    [.ownerChanged me.groupId me.userId successor.userId, .memberLeft me.groupId me.userId]
  | .deletedGroup _ => []
  | .transferred caller target =>
    [.ownerChanged caller.groupId caller.userId target.userId]

def Outcome.result : Outcome → Result
  | .created g _ => .group g
  | .left _ => .left false none
  | .handedOver _ successor => .left false (some successor.userId)
  | .deletedGroup _ => .left true none
  | .transferred caller target => .transferred caller.userId target.userId

/-- Where a call stands: the statement it runs next, with the rows it has read. -/
inductive Call where
  | idle
  | creatingGroup (userId : Uuid) (name : String)
  | creatingOwner (userId : Uuid) (g : Group)
  | joinReading (userId groupId : Uuid)
  | joinInserting (userId : Uuid) (g : Group)
  | leaveReading (userId groupId : Uuid)
  | leaveDeleting (me : GroupMember)
  | leaveReadingSuccessor (me : GroupMember)
  | leaveDeletingGroup (me : GroupMember)
  | leavePromoting (me successor : GroupMember)
  | leaveDeletingOwner (me successor : GroupMember)
  | transferReadingCaller (callerId groupId targetUserId : Uuid)
  | transferReadingTarget (caller : GroupMember) (targetUserId : Uuid)
  | transferPromoting (caller target : GroupMember)
  | transferDemoting (caller target : GroupMember)
  | committing (o : Outcome)
  | emitting (events : List Event) (result : Result)
  | returned (result : Result)
  | thrown (e : Exception)
deriving DecidableEq

/-- The first thing a call does. -/
def Request.start : Request → Call
  | .create userId name => .creatingGroup userId name
  | .join userId groupId => .joinReading userId groupId
  | .leave userId groupId => .leaveReading userId groupId
  | .transferOwnership callerId groupId targetUserId =>
    if callerId = targetUserId then .thrown (.badRequest "You already own this group")
    else .transferReadingCaller callerId groupId targetUserId

/-- The call still has statements to run, the commit included. -/
def Call.running : Call → Bool
  | .idle | .emitting _ _ | .returned _ | .thrown _ => false
  | _ => true

/-! ## Statements -/

/-- Every membership ever inserted, every group id ever generated, and the events
emitted so far. -/
structure Log where
  memberships : Table GroupMember.id
  groupIds : List Uuid
  events : List Event

abbrev State := System Row.key Call Log

/-- Before any call, with nothing in the database. -/
def start : State := ⟨Store.ofTable Table.empty, fun _ => .idle, ⟨Table.empty, [], []⟩⟩

/-- The row belongs to the group a creator has given this name: the unique
constraint of the group table. -/
def Row.NamedBy (createdBy : Uuid) (name : String) : Row → Prop
  | .group g => g.createdBy = createdBy ∧ g.name = name
  | .member _ => False

/-- The row is the membership of this user in this group: the unique constraint of
the membership table. -/
def Row.MembershipOf (groupId userId : Uuid) : Row → Prop
  | .group _ => False
  | .member r => r.groupId = groupId ∧ r.userId = userId

instance (createdBy : Uuid) (name : String) : DecidablePred (Row.NamedBy createdBy name)
  | .group g => inferInstanceAs (Decidable (g.createdBy = createdBy ∧ g.name = name))
  | .member _ => isFalse id

instance (groupId userId : Uuid) : DecidablePred (Row.MembershipOf groupId userId)
  | .group _ => isFalse id
  | .member r => inferInstanceAs (Decidable (r.groupId = groupId ∧ r.userId = userId))

/-- The row `groupMember.create` inserts. -/
def newMember (id groupId userId : Uuid) (role : MemberRole) (now : Instant) : GroupMember :=
  ⟨id, groupId, userId, role, now, none⟩

def Log.issue (log : Log) (row : GroupMember) : Log :=
  { log with memberships := log.memberships.put row }

/-- The message returned both for a missing group and for a non-member. -/
def notAMemberMessage : String := "You are not a member of this group"

/-- Deleting a group: its row, and by cascade the memberships in it. -/
def deleteGroup (view : Tables) (groupId : Uuid) : List (Write Row Key) :=
  .remove (.group groupId) ::
    ((membersOf view).filter fun r => r.groupId = groupId).map fun r => .remove (.member r.id)

/-- An update or delete `where: { id }`: the row has to be there. -/
def updateById (view : Tables) (id : Uuid) (write : GroupMember → Write Row Key) (pc : Call) :
    Effect Row Key Call :=
  match memberById view id with
  | none => .abort (.thrown (.prisma .P2025))
  | some r => .write [write r] pc

def removeMember (r : GroupMember) : Write Row Key := .remove (.member r.id)

def setRole (role : MemberRole) (r : GroupMember) : Write Row Key :=
  .put (.member { r with role := role })

/-- The next statement of a call, given where the call stands and what its
transaction sees.  `none` means that it has to wait, or that the generated id is
not a fresh one. -/
def statement (s : State) (c : ℕ) (id : Uuid) (now : Instant) :
    Option (Effect Row Key Call × Log) :=
  let view := s.store.view c
  match s.calls c with
  -- create
  | .creatingGroup userId name =>
    if id ∈ s.aux.groupIds ∨ s.store.PendingByOther c (Row.NamedBy userId name) then none
    else if ∃ row ∈ view.rows, Row.NamedBy userId name row then
      some (.abort (.thrown (.conflict "You already have a group with this name")), s.aux)
    else
      some (.write [.put (.group ⟨id, name, userId, now⟩)]
          (.creatingOwner userId ⟨id, name, userId, now⟩),
        { s.aux with groupIds := id :: s.aux.groupIds })
  | .creatingOwner userId g =>
    if (s.aux.memberships.find? id).isSome then none
    else
      some (.write [.put (.member (newMember id g.id userId .owner now))]
          (.committing (.created g (newMember id g.id userId .owner now))),
        s.aux.issue (newMember id g.id userId .owner now))
  -- join
  | .joinReading userId groupId =>
    match groupById view groupId with
    | none => some (.goto (.thrown (.notFound "Group not found")), s.aux)
    | some g => some (.goto (.joinInserting userId g), s.aux)
  | .joinInserting userId g =>
    if (s.aux.memberships.find? id).isSome ∨ s.store.LockedByOther c (.group g.id) ∨
        s.store.PendingByOther c (Row.MembershipOf g.id userId) then none
    else if ∃ row ∈ view.rows, Row.MembershipOf g.id userId row then
      some (.goto (.thrown (.conflict "You are already a member of this group")), s.aux)
    else match groupById view g.id with
      | none => some (.goto (.thrown (.prisma .P2003)), s.aux)
      | some _ =>
        some (.autocommit [.put (.member (newMember id g.id userId .member now))]
            (.emitting [.memberJoined g.id (newMember id g.id userId .member now)] (.group g)),
          s.aux.issue (newMember id g.id userId .member now))
  -- leave
  | .leaveReading userId groupId =>
    match membership view groupId userId with
    | none => some (.abort (.thrown (.forbidden notAMemberMessage)), s.aux)
    | some me =>
      if me.role ≠ .owner then some (.goto (.leaveDeleting me), s.aux)
      else some (.goto (.leaveReadingSuccessor me), s.aux)
  | .leaveDeleting me =>
    some (updateById view me.id removeMember (.committing (.left me)), s.aux)
  | .leaveReadingSuccessor me =>
    match successor view me.groupId me.userId with
    | none => some (.goto (.leaveDeletingGroup me), s.aux)
    | some next => some (.goto (.leavePromoting me next), s.aux)
  | .leaveDeletingGroup me =>
    match groupById view me.groupId with
    | none => some (.abort (.thrown (.prisma .P2025)), s.aux)
    | some _ =>
      some (.write (deleteGroup view me.groupId) (.committing (.deletedGroup me)), s.aux)
  | .leavePromoting me next =>
    some (updateById view next.id (setRole .owner) (.leaveDeletingOwner me next), s.aux)
  | .leaveDeletingOwner me next =>
    some (updateById view me.id removeMember (.committing (.handedOver me next)), s.aux)
  -- transferOwnership
  | .transferReadingCaller callerId groupId targetUserId =>
    match membership view groupId callerId with
    | none =>
      some (.abort (.thrown (.forbidden "Only the group owner can transfer ownership")), s.aux)
    | some caller =>
      if caller.role ≠ .owner then
        some (.abort (.thrown (.forbidden "Only the group owner can transfer ownership")), s.aux)
      else some (.goto (.transferReadingTarget caller targetUserId), s.aux)
  | .transferReadingTarget caller targetUserId =>
    match membership view caller.groupId targetUserId with
    | none =>
      some (.abort (.thrown (.notFound "That user is not a member of this group")), s.aux)
    | some target => some (.goto (.transferPromoting caller target), s.aux)
  | .transferPromoting caller target =>
    some (updateById view target.id (setRole .owner) (.transferDemoting caller target), s.aux)
  | .transferDemoting caller target =>
    some (updateById view caller.id (setRole .member) (.committing (.transferred caller target)),
      s.aux)
  | _ => none

/-! ## Steps -/

inductive Action where
  /-- A new call is made. -/
  | request (c : ℕ) (r : Request)
  /-- A call runs its next statement; an insert takes its id and time from here. -/
  | statement (c : ℕ) (id : Uuid) (now : Instant)
  | commit (c : ℕ)
  /-- A call emits its events and returns. -/
  | emit (c : ℕ)
  /-- A statement or a commit fails for a reason outside the program. -/
  | fault (c : ℕ)
deriving DecidableEq

/-- The call an action moves. -/
def Action.call : Action → ℕ
  | .request c _ | .statement c _ _ | .commit c | .emit c | .fault c => c

/-- What an action comes to. -/
def decide? (s : State) : Action → Option (Effect Row Key Call × Log)
  | .request c r =>
    match s.calls c with
    | .idle => some (.goto r.start, s.aux)
    | _ => none
  | .statement c id now => statement s c id now
  | .commit c =>
    match s.calls c with
    | .committing o => some (.commit (.emitting o.events o.result), s.aux)
    | _ => none
  | .emit c =>
    match s.calls c with
    | .emitting events result =>
      some (.goto (.returned result), { s.aux with events := s.aux.events ++ events })
    | _ => none
  | .fault c =>
    if (s.calls c).running then some (.abort (.thrown .fault), s.aux) else none

/-- One step of one call. -/
def step (s : State) (a : Action) : Option State :=
  (decide? s a).bind fun e => s.perform a.call e.1 e.2

/-- A step leaves the other calls where they are. -/
theorem frame_of_step {s t : State} {a : Action} (h : step s a = some t) :
    System.Frame s t a.call := by
  obtain ⟨_, _, hperf⟩ := Option.bind_eq_some_iff.mp h
  exact System.frame_of_perform hperf

end Groups
end GroupChat

import GroupChat.Chat.Presence
import GroupChat.Groups.Invariant

/-!
# The gateway

A socket is admitted to a group's room by `join_group`: the handler asks the
database whether its user is a member, and joins the room when the answer is back.
It is removed by `leave_group`, or by the listener of `MEMBER_LEFT`, which takes a
snapshot of the room with `fetchSockets` and then tells every socket of the departed
user to leave; the adapter carries that out when it comes to it.

The system here is the group service of `Groups.Service`, with all its calls, and
the room of every group beside it, with the handlers of `Presence`.  The two meet
twice: a membership query reads the tables of the service, and a call that announces
a departure starts the listener of `MEMBER_LEFT` in the room of its group.  Groups go
by their printed ids, and a connection closes in each of its rooms by itself.
-/

namespace GroupChat
namespace Chat

open Common Database

structure State where
  groups : Groups.State
  /-- The room of a group and its handlers. -/
  rooms : Uuid → Presence.State

/-- Nothing in the database and nobody connected to a room. -/
def start : State := ⟨Groups.start, fun _ => Presence.start⟩

inductive Action where
  /-- A step of a call of the group service. -/
  | http (a : Groups.Action)
  /-- A step of a handler of a room. -/
  | room (groupId : Uuid) (a : Presence.Action)

/-! ## Steps -/

/-- The departure a list of events announces. -/
def departure (events : List Groups.Event) : Option (Uuid × Uuid) :=
  events.findSome? fun
    | .memberLeft groupId userId => some (groupId, userId)
    | _ => none

/-- The departure a step of the group service announces. -/
def announced (s : Groups.State) : Groups.Action → Option (Uuid × Uuid)
  | .emit c =>
    match s.calls c with
    | .emitting events _ => departure events
    | _ => none
  | _ => none

/-- A step of a handler where the database has these tables.  A listener of `MEMBER_LEFT` is
started by an announcement and not by itself. -/
def inRoom (t : Groups.Tables) : Presence.Action → Option Presence.Action
  | .assertMember h _ => some (.assertMember h t)
  | .memberLeft _ _ => none
  | a => some a

/-- One step of a handler of the room of a group. -/
def stepRoom (userOf : Socket → Uuid) (s : State) (groupId : Uuid) (a : Presence.Action) :
    Option State :=
  (Presence.step userOf (printUuid groupId) (s.rooms groupId) a).map fun room =>
    { s with rooms := Function.update s.rooms groupId room }

/-- One step of a call or a handler.  `userOf` is the user a socket authenticated as.  The
listener a call starts has the number of the call. -/
def step (userOf : Socket → Uuid) (s : State) : Action → Option State
  | .http a =>
    (Groups.step s.groups a).bind fun groups =>
      match announced s.groups a with
      | some (groupId, userId) =>
        stepRoom userOf { s with groups := groups } groupId (.memberLeft a.call userId)
      | none => some { s with groups := groups }
  | .room groupId a =>
    (inRoom s.groups.store.committed a).bind (stepRoom userOf s groupId)

/-- **What a step can do.** -/
inductive Stepped (userOf : Socket → Uuid) (s : State) : Action → State → Prop where
  | http {a groups} (hstep : Groups.step s.groups a = some groups)
      (hquiet : announced s.groups a = none) :
    Stepped userOf s (.http a) { s with groups := groups }
  | announces {a groups groupId userId room} (hstep : Groups.step s.groups a = some groups)
      (hdeparture : announced s.groups a = some (groupId, userId))
      (hroom : Presence.step userOf (printUuid groupId) (s.rooms groupId)
        (.memberLeft a.call userId) = some room) :
    Stepped userOf s (.http a) ⟨groups, Function.update s.rooms groupId room⟩
  | room {groupId a a' room} (hallowed : inRoom s.groups.store.committed a = some a')
      (hroom : Presence.step userOf (printUuid groupId) (s.rooms groupId) a' = some room) :
    Stepped userOf s (.room groupId a) { s with rooms := Function.update s.rooms groupId room }

theorem stepped_of_step {userOf : Socket → Uuid} {s t : State} {a : Action}
    (h : step userOf s a = some t) : Stepped userOf s a t := by
  unfold step at h
  cases a with
  | http a =>
    dsimp only at h
    obtain ⟨groups, hgroups, h⟩ := Option.bind_eq_some_iff.mp h
    split at h
    · next groupId userId hdeparture =>
      obtain ⟨room, hroom, rfl⟩ := Option.map_eq_some_iff.mp h
      exact .announces hgroups hdeparture hroom
    · next hquiet =>
      obtain rfl := Option.some.inj h
      exact .http hgroups hquiet
  | room groupId a =>
    dsimp only at h
    obtain ⟨a', hallowed, h⟩ := Option.bind_eq_some_iff.mp h
    obtain ⟨room, hroom, rfl⟩ := Option.map_eq_some_iff.mp h
    exact .room hallowed hroom

/-- A step of a handler is one where the tables are those of the database. -/
theorem inRoom_cases {t : Groups.Tables} {a a' : Presence.Action} (h : inRoom t a = some a') :
    (∃ h t', a = .assertMember h t' ∧ a' = .assertMember h t) ∨
      a' = a ∧ (∀ h t', a ≠ .assertMember h t') ∧ ∀ h userId, a ≠ .memberLeft h userId := by
  cases a with
  | assertMember h' t' =>
    obtain rfl := Option.some.inj h
    exact Or.inl ⟨h', t', rfl, rfl⟩
  | memberLeft => cases h
  | _ =>
    obtain rfl := Option.some.inj h
    exact Or.inr ⟨rfl, by simp, by simp⟩

end Chat
end GroupChat

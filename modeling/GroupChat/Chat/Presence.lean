import GroupChat.Chat.Rooms
import GroupChat.Transition.Run

/-!
# Presence in one room

Who is online in a group is never stored.  Every handler that changes the room ends
with `PresenceService.broadcast`: it asks the adapter which sockets are in the room,
and sends the list of their users to the room when the answer is back.

This is the model of the handlers of one room.  `joinGroup` awaits the membership
query before its `socket.join`, `leaveGroup` leaves at once, the listener of
`MEMBER_LEFT` lets the sockets of the departed user leave, and the listener of
`disconnecting` runs while the socket is still listed.  A handler may be delayed at
each `await`; a `leave` that the adapter dispatches takes effect at any later time.
-/

namespace GroupChat
namespace Chat
namespace Presence

open Common Database Groups Transition

/-! ## What is sent -/

/-- The payload of `presence`. -/
structure Payload where
  groupId : String
  userIds : List Uuid
deriving DecidableEq

/-- The distinct users of the sockets, `exclude` left out. -/
def presentUsers (userOf : Socket → Uuid) (exclude : Option Socket) (sockets : List Socket) :
    List Uuid :=
  ((sockets.filter fun socket => some socket ≠ exclude).map userOf).eraseDups

/-- The room after a socket has left it. -/
def without (room : List Socket) (socket : Socket) : List Socket := room.filter (· ≠ socket)

theorem mem_without {room : List Socket} {socket x : Socket} :
    x ∈ without room socket ↔ x ∈ room ∧ x ≠ socket := by
  rw [without, List.mem_filter, decide_eq_true_eq]

/-! ## Handlers -/

/-- Where a handler stands. -/
inductive Handler where
  | idle
  /-- `joinGroup`, before the query of `assertMember`. -/
  | asserting (socket : Socket)
  /-- `joinGroup`, before `socket.join`. -/
  | joining (socket : Socket)
  /-- The listener of `disconnecting`, before `fetchSockets`; the socket is listed. -/
  | disconnecting (socket : Socket)
  /-- The same after `fetchSockets`; the socket is still listed. -/
  | closing (socket : Socket) (userIds : List Uuid)
  /-- `broadcastMemberLeft`, before its own `fetchSockets`. -/
  | evicting (userId : Uuid)
  /-- `broadcastMemberLeft`, before its loop. -/
  | leaving (userId : Uuid) (sockets : List Socket)
  /-- `broadcast`, before `fetchSockets`. -/
  | fetching (exclude : Option Socket)
  /-- `broadcast`, before the emit. -/
  | emitting (userIds : List Uuid)
  /-- Over; a listener has nobody to answer to. -/
  | ended (ack : Ack)
deriving DecidableEq

/-- The handler is not running. -/
def Handler.isAtRest : Handler → Bool
  | .idle | .ended _ => true
  | _ => false

structure State where
  /-- The sockets in the room. -/
  room : List Socket
  /-- The sockets whose connection is closing or closed. -/
  gone : List Socket
  /-- The dispatched leaves that have not taken effect. -/
  leaves : List Socket
  handlers : ℕ → Handler
  /-- The presence events sent to the room, oldest first. -/
  emitted : List Payload

/-- An empty room. -/
def start : State := ⟨[], [], [], fun _ => .idle, []⟩

/-- All handlers have finished. -/
def Finished (s : State) : Prop := ∀ h, (s.handlers h).isAtRest = true

inductive Action where
  /-- A socket sends `join_group`. -/
  | joinGroup (h : ℕ) (socket : Socket)
  /-- The membership query of `joinGroup`, with the tables it reads. -/
  | assertMember (h : ℕ) (t : Tables)
  /-- The `socket.join` of `joinGroup`. -/
  | join (h : ℕ)
  /-- A socket sends `leave_group`. -/
  | leaveGroup (h : ℕ) (socket : Socket)
  /-- A connection begins to close. -/
  | disconnecting (h : ℕ) (socket : Socket)
  /-- The closing connection leaves its rooms. -/
  | close (h : ℕ)
  /-- `MEMBER_LEFT` is emitted. -/
  | memberLeft (h : ℕ) (userId : Uuid)
  /-- A `fetchSockets` reads the room. -/
  | fetchSockets (h : ℕ)
  /-- The loop of `broadcastMemberLeft`. -/
  | evict (h : ℕ)
  /-- A dispatched leave takes effect. -/
  | leave (socket : Socket)
  /-- The emit of `broadcast`. -/
  | emit (h : ℕ)

/-- The handler an action moves. -/
def Action.handler : Action → Option ℕ
  | .joinGroup h _ | .assertMember h _ | .join h | .leaveGroup h _ | .disconnecting h _ | .close h
  | .memberLeft h _ | .fetchSockets h | .evict h | .emit h => some h
  | .leave _ => none

/-! ## Steps -/

/-- A handler goes on. -/
def State.goto (s : State) (h : ℕ) (pc : Handler) : State :=
  { s with handlers := Function.update s.handlers h pc }

/-- `socket.join`, which does nothing on a closed connection. -/
def State.letIn (s : State) (socket : Socket) : List Socket :=
  if socket ∈ s.gone ∨ socket ∈ s.room then s.room else s.room ++ [socket]

theorem mem_letIn {s : State} {socket x : Socket} :
    x ∈ s.letIn socket ↔ x ∈ s.room ∨ x = socket ∧ socket ∉ s.gone := by
  unfold State.letIn
  split_ifs with hold
  · constructor
    · exact Or.inl
    · rintro (hx | ⟨rfl, hopen⟩)
      · exact hx
      · exact hold.resolve_left hopen
  · rw [List.mem_append, List.mem_singleton, not_or] at *
    exact or_congr_right (iff_self_and.mpr fun _ => hold.1)

/-- What the answer of `assertMember` makes of a `joinGroup`. -/
def onAssertMember (socket : Socket) : Except Exception GroupMember → Handler
  | .ok _ => .joining socket
  | .error (.forbidden _) => .ended (.error notAMemberMessage)
  | .error _ => .ended (.error "Something went wrong")

/-- One step of one handler.  `groupId` is the text the room is named after. -/
def step (userOf : Socket → Uuid) (groupId : String) (s : State) : Action → Option State
  | .joinGroup h socket =>
    match s.handlers h with
    | .idle => if socket ∈ s.gone then none else some (s.goto h (.asserting socket))
    | _ => none
  | .assertMember h t =>
    match s.handlers h with
    | .asserting socket =>
      some (s.goto h (onAssertMember socket (Chat.assertMember t (userOf socket) groupId)))
    | _ => none
  | .join h =>
    match s.handlers h with
    | .joining socket => some { s.goto h (.fetching none) with room := s.letIn socket }
    | _ => none
  | .leaveGroup h socket =>
    match s.handlers h with
    | .idle =>
      if socket ∈ s.gone then none
      -- an empty `groupId` names no room
      else if groupId = "" then some (s.goto h (.ended .ok))
      else some { s.goto h (.fetching none) with room := without s.room socket }
    | _ => none
  | .disconnecting h socket =>
    match s.handlers h with
    | .idle =>
      if socket ∈ s.gone then none
      else
        let pc := if socket ∈ s.room ∧ groupId ≠ "" then .disconnecting socket else .ended .ok
        some { s.goto h pc with gone := socket :: s.gone }
    | _ => none
  | .close h =>
    match s.handlers h with
    | .disconnecting socket =>
      some { s.goto h (.fetching (some socket)) with room := without s.room socket }
    | .closing socket userIds =>
      some { s.goto h (.emitting userIds) with room := without s.room socket }
    | _ => none
  | .memberLeft h userId =>
    match s.handlers h with
    | .idle => some (s.goto h (.evicting userId))
    | _ => none
  | .fetchSockets h =>
    match s.handlers h with
    | .fetching exclude => some (s.goto h (.emitting (presentUsers userOf exclude s.room)))
    | .disconnecting socket =>
      some (s.goto h (.closing socket (presentUsers userOf (some socket) s.room)))
    | .evicting userId => some (s.goto h (.leaving userId s.room))
    | _ => none
  | .evict h =>
    match s.handlers h with
    | .leaving userId sockets =>
      let departed := sockets.filter fun socket => userOf socket = userId
      some { s.goto h (.fetching none) with leaves := s.leaves ++ departed }
    | _ => none
  | .leave socket =>
    if socket ∈ s.leaves then
      some { s with room := without s.room socket, leaves := s.leaves.erase socket }
    else none
  | .emit h =>
    match s.handlers h with
    | .emitting userIds =>
      some { s.goto h (.ended .ok) with emitted := s.emitted ++ [⟨groupId, userIds⟩] }
    | _ => none

/-- **What a step can do**, handler by handler. -/
inductive Stepped (userOf : Socket → Uuid) (groupId : String) (s : State) :
    Action → State → Prop where
  | joinGroup {h socket} (pc : s.handlers h = .idle) (hopen : socket ∉ s.gone) :
    Stepped userOf groupId s (.joinGroup h socket) (s.goto h (.asserting socket))
  | assertMember {h t socket} (pc : s.handlers h = .asserting socket) :
    Stepped userOf groupId s (.assertMember h t)
      (s.goto h (onAssertMember socket (Chat.assertMember t (userOf socket) groupId)))
  | join {h socket} (pc : s.handlers h = .joining socket) :
    Stepped userOf groupId s (.join h) { s.goto h (.fetching none) with room := s.letIn socket }
  | leaveNoGroup {h socket} (pc : s.handlers h = .idle) (hopen : socket ∉ s.gone)
      (hempty : groupId = "") :
    Stepped userOf groupId s (.leaveGroup h socket) (s.goto h (.ended .ok))
  | leaveGroup {h socket} (pc : s.handlers h = .idle) (hopen : socket ∉ s.gone)
      (hne : groupId ≠ "") :
    Stepped userOf groupId s (.leaveGroup h socket)
      { s.goto h (.fetching none) with room := without s.room socket }
  | disconnectOutside {h socket} (pc : s.handlers h = .idle) (hopen : socket ∉ s.gone)
      (hout : ¬(socket ∈ s.room ∧ groupId ≠ "")) :
    Stepped userOf groupId s (.disconnecting h socket)
      { s.goto h (.ended .ok) with gone := socket :: s.gone }
  | disconnecting {h socket} (pc : s.handlers h = .idle) (hopen : socket ∉ s.gone)
      (hin : socket ∈ s.room ∧ groupId ≠ "") :
    Stepped userOf groupId s (.disconnecting h socket)
      { s.goto h (.disconnecting socket) with gone := socket :: s.gone }
  | closeFirst {h socket} (pc : s.handlers h = .disconnecting socket) :
    Stepped userOf groupId s (.close h)
      { s.goto h (.fetching (some socket)) with room := without s.room socket }
  | close {h socket userIds} (pc : s.handlers h = .closing socket userIds) :
    Stepped userOf groupId s (.close h)
      { s.goto h (.emitting userIds) with room := without s.room socket }
  | memberLeft {h userId} (pc : s.handlers h = .idle) :
    Stepped userOf groupId s (.memberLeft h userId) (s.goto h (.evicting userId))
  | fetch {h exclude} (pc : s.handlers h = .fetching exclude) :
    Stepped userOf groupId s (.fetchSockets h)
      (s.goto h (.emitting (presentUsers userOf exclude s.room)))
  | fetchListed {h socket} (pc : s.handlers h = .disconnecting socket) :
    Stepped userOf groupId s (.fetchSockets h)
      (s.goto h (.closing socket (presentUsers userOf (some socket) s.room)))
  | fetchDeparted {h userId} (pc : s.handlers h = .evicting userId) :
    Stepped userOf groupId s (.fetchSockets h) (s.goto h (.leaving userId s.room))
  | evict {h userId sockets} (pc : s.handlers h = .leaving userId sockets) :
    Stepped userOf groupId s (.evict h)
      { s.goto h (.fetching none) with
        leaves := s.leaves ++ sockets.filter fun socket => userOf socket = userId }
  | leave {socket} (hmem : socket ∈ s.leaves) :
    Stepped userOf groupId s (.leave socket)
      { s with room := without s.room socket, leaves := s.leaves.erase socket }
  | emit {h userIds} (pc : s.handlers h = .emitting userIds) :
    Stepped userOf groupId s (.emit h)
      { s.goto h (.ended .ok) with emitted := s.emitted ++ [⟨groupId, userIds⟩] }

theorem stepped_of_step {userOf : Socket → Uuid} {groupId : String} {s t : State} {a : Action}
    (h : step userOf groupId s a = some t) : Stepped userOf groupId s a t := by
  unfold step at h
  cases a with
  | joinGroup h' socket =>
    dsimp only at h
    split at h
    · split_ifs at h with hgone
      obtain rfl := Option.some.inj h
      exact .joinGroup ‹_› hgone
    · exact absurd h (by simp)
  | assertMember h' t' =>
    dsimp only at h
    split at h
    · obtain rfl := Option.some.inj h
      exact .assertMember ‹_›
    · exact absurd h (by simp)
  | join h' =>
    dsimp only at h
    split at h
    · obtain rfl := Option.some.inj h
      exact .join ‹_›
    · exact absurd h (by simp)
  | leaveGroup h' socket =>
    dsimp only at h
    split at h
    · split_ifs at h with hgone hempty
      · obtain rfl := Option.some.inj h
        exact .leaveNoGroup ‹_› hgone hempty
      · obtain rfl := Option.some.inj h
        exact .leaveGroup ‹_› hgone hempty
    · exact absurd h (by simp)
  | disconnecting h' socket =>
    dsimp only at h
    split at h
    · split_ifs at h with hgone hin
      · obtain rfl := Option.some.inj h
        exact .disconnecting ‹_› hgone hin
      · obtain rfl := Option.some.inj h
        exact .disconnectOutside ‹_› hgone hin
    · exact absurd h (by simp)
  | close h' =>
    dsimp only at h
    split at h
    · obtain rfl := Option.some.inj h
      exact .closeFirst ‹_›
    · obtain rfl := Option.some.inj h
      exact .close ‹_›
    · exact absurd h (by simp)
  | memberLeft h' userId =>
    dsimp only at h
    split at h
    · obtain rfl := Option.some.inj h
      exact .memberLeft ‹_›
    · exact absurd h (by simp)
  | fetchSockets h' =>
    dsimp only at h
    split at h
    · obtain rfl := Option.some.inj h
      exact .fetch ‹_›
    · obtain rfl := Option.some.inj h
      exact .fetchListed ‹_›
    · obtain rfl := Option.some.inj h
      exact .fetchDeparted ‹_›
    · exact absurd h (by simp)
  | evict h' =>
    dsimp only at h
    split at h
    · obtain rfl := Option.some.inj h
      exact .evict ‹_›
    · exact absurd h (by simp)
  | leave socket =>
    dsimp only at h
    split_ifs at h with hmem
    obtain rfl := Option.some.inj h
    exact .leave hmem
  | emit h' =>
    dsimp only at h
    split at h
    · obtain rfl := Option.some.inj h
      exact .emit ‹_›
    · exact absurd h (by simp)

/-- A step leaves the other handlers where they are. -/
theorem handlers_of_stepped {userOf : Socket → Uuid} {groupId : String} {s t : State} {a : Action}
    (hstep : Stepped userOf groupId s a t) {h : ℕ} (hne : a.handler ≠ some h) :
    t.handlers h = s.handlers h := by
  have hother : ∀ {h' : ℕ} {pc : Handler}, some h' ≠ some h →
      Function.update s.handlers h' pc h = s.handlers h := fun hne =>
    Function.update_of_ne (fun heq => hne (congrArg some heq.symm)) _ _
  cases hstep with
  | leave => rfl
  | _ => exact hother hne

end Presence
end Chat
end GroupChat

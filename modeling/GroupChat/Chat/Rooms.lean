import GroupChat.Common.Uuid
import GroupChat.Groups.Service
import GroupChat.Messages.Service

/-!
# Room names

On the wire a room has a name, `group:` followed by a text that names the group.
A socket enters the room named after the text its `join_group` carried.  A
broadcast goes to the room named after the `groupId` of its event, and that text
comes from three places: a call made over a route emits the route parameter as
it came, an event of a message carries the stored row, printed by the database,
and the eviction of a departed member works on the room of its event.

`Produced groupId g e` collects the events of the group `g` whose call was made
under the text `groupId`.  `RoomsAgree` asks that all of them reach every socket
admitted under some other accepted text for `g`, and `roomsAgree_iff` says for
which texts they do: room names separate texts (`roomFor_injective`), so only
the printed spelling on both sides will do.
-/

namespace GroupChat
namespace Chat

open Common Database Groups Messages

/-- A connection; each belongs to the user its handshake authenticated. -/
abbrev Socket := ℕ

/-! ## Rooms -/

section Rooms

variable {R : Type} [DecidableEq R]

/-- The sockets in a room. -/
def socketsIn (rooms : List (Socket × R)) (room : R) : List Socket :=
  (rooms.filter fun x => x.2 = room).map Prod.fst

def leaveRoom (rooms : List (Socket × R)) (socket : Socket) (room : R) : List (Socket × R) :=
  rooms.filter fun x => x ≠ (socket, room)

theorem mem_socketsIn {rooms : List (Socket × R)} {socket : Socket} {room : R} :
    socket ∈ socketsIn rooms room ↔ (socket, room) ∈ rooms := by
  rw [socketsIn, List.mem_map]
  constructor
  · rintro ⟨⟨socket', room'⟩, hfilter, rfl⟩
    obtain ⟨hmem, hroom⟩ := List.mem_filter.mp hfilter
    obtain rfl : room' = room := by simpa using hroom
    exact hmem
  · exact fun h => ⟨(socket, room), List.mem_filter.mpr ⟨h, by simp⟩, rfl⟩

theorem mem_leaveRoom {rooms : List (Socket × R)} {socket : Socket} {room : R} {x : Socket × R} :
    x ∈ leaveRoom rooms socket room ↔ x ∈ rooms ∧ x ≠ (socket, room) := by
  rw [leaveRoom, List.mem_filter, decide_eq_true_eq]

end Rooms

/-! ## Names -/

def roomPrefix : String := "group:"

def roomFor (groupId : String) : String := roomPrefix ++ groupId

/-- `none` for anything that is not a group room. -/
def groupIdFromRoom (room : String) : Option String :=
  if roomPrefix.toList.isPrefixOf room.toList then
    some (String.ofList (room.toList.drop roomPrefix.length))
  else none

/-- A room name gives back the text it was made from. -/
theorem groupIdFromRoom_roomFor (groupId : String) :
    groupIdFromRoom (roomFor groupId) = some groupId := by
  have hlist : (roomFor groupId).toList = roomPrefix.toList ++ groupId.toList :=
    String.toList_append
  have hfront : roomPrefix.toList.isPrefixOf (roomFor groupId).toList = true := by
    rw [hlist, List.isPrefixOf_iff_prefix]
    exact List.prefix_append _ _
  have hdrop : (roomFor groupId).toList.drop roomPrefix.length = groupId.toList := by
    rw [hlist, ← String.length_toList, List.drop_left]
  rw [groupIdFromRoom, if_pos hfront, hdrop, String.ofList_toList]

/-- **Rooms separate texts**, whatever the texts stand for. -/
theorem roomFor_injective : Function.Injective roomFor := by
  intro a b h
  have ha : groupIdFromRoom (roomFor a) = some a := groupIdFromRoom_roomFor a
  rw [h, groupIdFromRoom_roomFor] at ha
  exact (Option.some.inj ha).symm

/-! ## Events -/

/-- What the event bus carries.  The events of a call on a group carry the text the
call was made with; a message is a row, read back from the database. -/
inductive BusEvent where
  | memberJoined (groupId : String) (member : GroupMember)
  | memberLeft (groupId : String) (userId : Uuid)
  | ownerChanged (groupId : String) (previousOwnerId newOwnerId : Uuid)
  | readMarked (groupId : String) (userId : Uuid) (lastReadAt : Instant)
  | reactionChanged (groupId messageId : String) (reactions : List (String × Uuid))
  | messageCreated (message : Message)
  | messageUpdated (message : Message)

/-- The `groupId` of the payload. -/
def BusEvent.groupId : BusEvent → String
  | .memberJoined groupId _ => groupId
  | .memberLeft groupId _ => groupId
  | .ownerChanged groupId _ _ => groupId
  | .readMarked groupId _ _ => groupId
  | .reactionChanged groupId _ _ => groupId
  | .messageCreated message => printUuid message.groupId
  | .messageUpdated message => printUuid message.groupId

/-- The name the gateway broadcasts the event under. -/
def BusEvent.serverEvent : BusEvent → String
  | .memberJoined .. => "member_joined"
  | .memberLeft .. => "member_left"
  | .ownerChanged .. => "owner_changed"
  | .readMarked .. => "read_receipt"
  | .reactionChanged .. => "reaction_updated"
  | .messageCreated _ => "new_message"
  | .messageUpdated _ => "message_updated"

/-- One broadcast: who hears it, and under which name. -/
structure Broadcast where
  room : String
  serverEvent : String
  payload : BusEvent

/-- The gateway's listener. -/
def broadcast (e : BusEvent) : Broadcast := ⟨roomFor e.groupId, e.serverEvent, e⟩

/-- The event of the group service, as a call under this text puts it on the bus. -/
def onBus (groupId : String) : Groups.Event → BusEvent
  | .memberJoined _ member => .memberJoined groupId member
  | .memberLeft _ userId => .memberLeft groupId userId
  | .ownerChanged _ previousOwnerId newOwnerId =>
    .ownerChanged groupId previousOwnerId newOwnerId

theorem groupId_onBus (groupId : String) (e : Groups.Event) :
    (onBus groupId e).groupId = groupId := by
  cases e <;> rfl

/-- The event of the message service on the bus. -/
def onMessageBus : Messages.Event → BusEvent
  | .created message => .messageCreated message
  | .updated message => .messageUpdated message

theorem groupId_onMessageBus (e : Messages.Event) :
    (onMessageBus e).groupId = printUuid e.message.groupId := by
  cases e <;> rfl

/-! ## Handlers -/

/-- The membership rule of both transports, on the text a client sent. -/
def assertMember (t : Tables) (userId : Uuid) (groupId : String) :
    Except Exception GroupMember :=
  if isUuid groupId then
    match (readUuid groupId).bind fun g => membership t g userId with
    | some row => .ok row
    | none => .error (.forbidden notAMemberMessage)
  else .error (.forbidden notAMemberMessage)

/-- What a socket handler answers. -/
inductive Ack where
  | ok
  | error (message : String)
deriving DecidableEq

/-- `join_group`. -/
def joinGroup (t : Tables) (userOf : Socket → Uuid) (rooms : List (Socket × String))
    (socket : Socket) (body : Option String) : List (Socket × String) × Ack :=
  let groupId := body.getD ""
  match assertMember t (userOf socket) groupId with
  | .ok _ => ((socket, roomFor groupId) :: rooms, .ok)
  | .error (.forbidden _) => (rooms, .error notAMemberMessage)
  | .error _ => (rooms, .error "Something went wrong")

/-- The eviction in the listener of `MEMBER_LEFT`: every socket of the user that a
snapshot of the room shows leaves it. -/
def evict (userOf : Socket → Uuid) (rooms : List (Socket × String)) (groupId : String)
    (userId : Uuid) : List (Socket × String) :=
  (socketsIn rooms (roomFor groupId)).foldl
    (fun rooms s => if userOf s = userId then leaveRoom rooms s (roomFor groupId) else rooms)
    rooms

/-- `POST /groups/:id/read`: the guard, the pipe, and `markRead`. -/
def markRead (t : Tables) (userId : Uuid) (id : String) (now : Instant) :
    Except Exception (Tables × BusEvent) := do
  let row ← assertMember t userId id
  let groupId ← parseUuidPipe id
  return (t.put (.member { row with lastReadAt := some now }), .readMarked groupId userId now)

structure Reaction where
  messageId : Uuid
  userId : Uuid
  emoji : String
deriving DecidableEq

/-- `ReactionsService.toggle`: the delete is the existence test. -/
def toggle (rows : MessageTable) (reactions : List Reaction) (groupId messageId : String)
    (userId : Uuid) (emoji : String) : Except Exception (List Reaction × BusEvent) :=
  match readUuid groupId, readUuid messageId with
  | some g, some m =>
    if rows.rows.any fun row => row.id = m ∧ row.groupId = g then
      let reaction : Reaction := ⟨m, userId, emoji⟩
      let after :=
        if reaction ∈ reactions then reactions.filter (· ≠ reaction) else reactions ++ [reaction]
      let shown := (after.filter fun r => r.messageId = m).map fun r => (r.emoji, r.userId)
      .ok (after, .reactionChanged groupId messageId shown)
    else .error (.notFound "Message not found")
  | _, _ => .error (.notFound "Message not found")

/-- `POST /groups/:id/messages/:messageId/reactions`: the guard, the pipes, and
`toggle`. -/
def toggleReaction (t : Tables) (rows : MessageTable) (reactions : List Reaction)
    (userId : Uuid) (id messageId emoji : String) :
    Except Exception (List Reaction × BusEvent) := do
  let _ ← assertMember t userId id
  let groupId ← parseUuidPipe id
  let messageId ← parseUuidPipe messageId
  toggle rows reactions groupId messageId userId emoji

/-! ## Who hears what -/

/-- The group a call of the group service is about. -/
def groupOf : Groups.Request → Option Uuid
  | .create _ _ => none
  | .join _ g => some g
  | .leave _ g => some g
  | .transferOwnership _ g _ => some g

/-- The events of the group `g` that a call under the text `groupId` puts on the bus. -/
inductive Produced (groupId : String) (g : Uuid) : BusEvent → Prop where
  /-- `join`, `leave` and `transferOwnership`, in any run of the service. -/
  | group {acts s c r events result e}
      (hrun : Transition.exec Groups.step Groups.start acts = some s)
      (hrequest : .request c r ∈ acts) (hgroup : groupOf r = some g)
      (hemit : s.calls c = .emitting events result) (he : e ∈ events) :
      Produced groupId g (onBus groupId e)
  | read {t userId now t' e} (h : markRead t userId groupId now = .ok (t', e)) :
      Produced groupId g e
  | reaction {t rows reactions userId messageId emoji reactions' e}
      (h : toggleReaction t rows reactions userId groupId messageId emoji = .ok (reactions', e)) :
      Produced groupId g e
  /-- Every way a message of the group is created, edited or deleted. -/
  | message {rows acts s c e}
      (hrun : Transition.exec Messages.step (Messages.start rows) acts = some s)
      (hemit : s.calls c = .emitting e) (hgroup : e.message.groupId = g) :
      Produced groupId g (onMessageBus e)

/-- Every socket admitted under the text `s` is in the room of every event of the
group produced under the text `s'`, and a departure evicts it from there. -/
def RoomsAgree (g : Uuid) (s s' : String) : Prop :=
  ∀ (t : Tables) (userOf : Socket → Uuid) (rooms : List (Socket × String)) (socket : Socket),
    (joinGroup t userOf rooms socket (some s)).2 = .ok →
      ∀ e, Produced s' g e →
        let rooms' := (joinGroup t userOf rooms socket (some s)).1
        socket ∈ socketsIn rooms' (broadcast e).room ∧
          ∀ groupId, e = .memberLeft groupId (userOf socket) →
            (socket, roomFor s) ∉ evict userOf rooms' groupId (userOf socket)

/-- A socket that was admitted is in the room named after the text it sent. -/
theorem mem_joinGroup {t : Tables} {userOf : Socket → Uuid} {rooms : List (Socket × String)}
    {socket : Socket} {s : String} (h : (joinGroup t userOf rooms socket (some s)).2 = .ok) :
    (joinGroup t userOf rooms socket (some s)).1 = (socket, roomFor s) :: rooms := by
  unfold joinGroup at h ⊢
  simp only [Option.getD_some] at h ⊢
  split at h
  · rfl
  · exact absurd h (by simp)
  · exact absurd h (by simp)

/-- **The membership rule**, under an accepted text. -/
theorem assertMember_eq_ok_iff {t : Tables} {userId g : Uuid} {groupId : String}
    {row : GroupMember} (h : Spells groupId g) :
    assertMember t userId groupId = .ok row ↔ membership t g userId = some row := by
  rw [assertMember, if_pos h.1, h.2, Option.bind_some]
  cases membership t g userId with
  | none => simp
  | some r => simp

/-- A member under an accepted text passes the membership rule. -/
theorem assertMember_of_spells {t : Tables} {userId g : Uuid} {groupId : String}
    {row : GroupMember} (h : Spells groupId g) (hrow : membership t g userId = some row) :
    assertMember t userId groupId = .ok row := (assertMember_eq_ok_iff h).mpr hrow

/-- The loop of the eviction takes out the sockets of the user it comes to, and
nobody else. -/
theorem foldl_leaveRoom {userOf : Socket → Uuid} {userId : Uuid} {room : String}
    (sockets : List Socket) (rooms : List (Socket × String)) :
    sockets.foldl (fun rooms s => if userOf s = userId then leaveRoom rooms s room else rooms)
        rooms =
      rooms.filter fun x => ∀ s ∈ sockets, userOf s = userId → x ≠ (s, room) := by
  induction sockets generalizing rooms with
  | nil => simp
  | cons s sockets ih =>
    rw [List.foldl_cons, ih]
    by_cases hs : userOf s = userId
    · rw [if_pos hs, leaveRoom, List.filter_filter]
      refine List.filter_congr fun x _ => ?_
      simp [hs, Bool.and_comm]
    · rw [if_neg hs]
      refine List.filter_congr fun x _ => ?_
      simp [hs]

/-- **Who is put out.** -/
theorem evict_eq_filter (userOf : Socket → Uuid) (rooms : List (Socket × String))
    (groupId : String) (userId : Uuid) :
    evict userOf rooms groupId userId =
      rooms.filter fun x => ¬(userOf x.1 = userId ∧ x.2 = roomFor groupId) := by
  rw [evict, foldl_leaveRoom]
  refine List.filter_congr fun x hx => decide_eq_decide.mpr ?_
  constructor
  · rintro h ⟨huser, hroom⟩
    exact h x.1 (mem_socketsIn.mpr (hroom ▸ hx)) huser (Prod.ext rfl hroom)
  · rintro h s - huser rfl
    exact h ⟨huser, rfl⟩

/-- An eviction empties its room of the sockets of the user. -/
theorem not_mem_evict {userOf : Socket → Uuid} {rooms : List (Socket × String)}
    {groupId : String} {socket : Socket} :
    (socket, roomFor groupId) ∉ evict userOf rooms groupId (userOf socket) := by
  rw [evict_eq_filter, List.mem_filter]
  rintro ⟨-, hstay⟩
  exact of_decide_eq_true hstay ⟨rfl, rfl⟩

/-- Marking a group read announces it under the text of the route. -/
theorem groupId_of_markRead {t t' : Tables} {userId : Uuid} {id : String} {now : Instant}
    {e : BusEvent} (h : markRead t userId id now = .ok (t', e)) : e.groupId = id := by
  unfold markRead parseUuidPipe at h
  cases hmember : assertMember t userId id with
  | error x => exact absurd h (by simp [hmember, bind, Except.bind])
  | ok row =>
    by_cases hid : isUuid id = true
    · simp only [hmember, if_pos hid, bind, Except.bind, pure, Except.pure, Except.ok.injEq,
        Prod.mk.injEq] at h
      rw [← h.2]
      rfl
    · exact absurd h (by simp [hmember, hid, bind, Except.bind])

theorem groupId_of_toggle {rows : MessageTable} {reactions reactions' : List Reaction}
    {userId : Uuid} {groupId messageId emoji : String} {e : BusEvent}
    (h : toggle rows reactions groupId messageId userId emoji = .ok (reactions', e)) :
    e.groupId = groupId := by
  unfold toggle at h
  split at h
  · split at h
    · obtain ⟨-, rfl⟩ := Prod.mk.inj (Except.ok.inj h)
      rfl
    · exact absurd h (by simp)
  · exact absurd h (by simp)

/-- A toggled reaction is announced under the text of the route. -/
theorem groupId_of_toggleReaction {t : Tables} {rows : MessageTable}
    {reactions reactions' : List Reaction} {userId : Uuid} {id messageId emoji : String}
    {e : BusEvent}
    (h : toggleReaction t rows reactions userId id messageId emoji = .ok (reactions', e)) :
    e.groupId = id := by
  unfold toggleReaction parseUuidPipe at h
  cases hmember : assertMember t userId id with
  | error x => exact absurd h (by simp [hmember, bind, Except.bind])
  | ok row =>
    by_cases hid : isUuid id = true
    · by_cases hmessage : isUuid messageId = true
      · simp only [hmember, if_pos hid, if_pos hmessage, bind, Except.bind] at h
        exact groupId_of_toggle h
      · exact absurd h (by simp [hmember, hid, hmessage, bind, Except.bind])
    · exact absurd h (by simp [hmember, hid, bind, Except.bind])

/-- **Where an event goes**: the room of the text of its call, or the room of the
printed identifier. -/
theorem groupId_of_produced {groupId : String} {g : Uuid} {e : BusEvent}
    (h : Produced groupId g e) : e.groupId = groupId ∨ e.groupId = printUuid g := by
  cases h with
  | group hrun hrequest hgroup hemit he => exact Or.inl (groupId_onBus _ _)
  | read h => exact Or.inl (groupId_of_markRead h)
  | reaction h => exact Or.inl (groupId_of_toggleReaction h)
  | message hrun hemit hgroup =>
    refine Or.inr ?_
    rw [groupId_onMessageBus, hgroup]

/-- **One spelling everywhere.**  A socket admitted under the printed identifier hears
every event whose call used the printed identifier. -/
theorem roomsAgree_printUuid (g : Uuid) : RoomsAgree g (printUuid g) (printUuid g) := by
  intro t userOf rooms socket hok e he
  have hroom : e.groupId = printUuid g := (groupId_of_produced he).elim id id
  rw [mem_joinGroup hok]
  refine ⟨?_, ?_⟩
  · rw [mem_socketsIn, broadcast, hroom]
    exact List.mem_cons_self
  · rintro groupId rfl
    obtain rfl : groupId = printUuid g := hroom
    exact not_mem_evict

/-! ## What a mixed use of spellings costs -/

/-- One group with one member. -/
def oneMember (g : Uuid) : Tables := Table.empty.put (.member (newMember 0 g 0 .member epoch))

theorem membership_oneMember (g : Uuid) :
    membership (oneMember g) g 0 = some (newMember 0 g 0 .member epoch) := by
  simp [membership, oneMember, membersOf, Table.put, Table.remove, Table.empty, Row.member?,
    newMember]

/-- Under any accepted text the member is admitted. -/
theorem joinGroup_oneMember {g : Uuid} {s : String} (h : Spells s g) (socket : Socket) :
    joinGroup (oneMember g) (fun _ => 0) [] socket (some s) = ([(socket, roomFor s)], .ok) := by
  simp only [joinGroup, Option.getD_some, assertMember_of_spells h (membership_oneMember g)]

/-- A message of the group, whose row comes back printed. -/
theorem produced_message (groupId : String) (g : Uuid) :
    ∃ e, Produced groupId g e ∧ e.groupId = printUuid g := by
  let now : Instant := epoch
  let acts : List Messages.Action := [.request 0 (.create g 0 "hello"), .statement 0 0 now]
  let row : Message := (⟨g, some 0, "hello", .user, none⟩ : NewMessage).toRow 0 now
  refine ⟨onMessageBus (.created row), ?_, groupId_onMessageBus _⟩
  exact @Produced.message groupId g Table.empty acts _ 0 (.created row) rfl rfl rfl

/-- A member marks the group read, under the text of the route. -/
theorem produced_read {groupId : String} {g : Uuid} (h : Spells groupId g) :
    ∃ e, Produced groupId g e ∧ e.groupId = groupId := by
  have hmember : assertMember (oneMember g) 0 groupId = .ok _ :=
    assertMember_of_spells h (membership_oneMember g)
  obtain ⟨t', hread⟩ : ∃ t', markRead (oneMember g) 0 groupId epoch =
      .ok (t', .readMarked groupId 0 epoch) := by
    rw [markRead, hmember, parseUuidPipe, if_pos h.1]
    exact ⟨_, rfl⟩
  exact ⟨_, Produced.read hread, rfl⟩

/-- An event that misses no socket goes to the room the socket is in. -/
theorem RoomsAgree.groupId_eq {g : Uuid} {s s' : String} (h : RoomsAgree g s s')
    (hs : Spells s g) {e : BusEvent} (he : Produced s' g e) : e.groupId = s := by
  have hjoin := joinGroup_oneMember hs 0
  have hmem := (h (oneMember g) (fun _ => 0) [] 0 (by rw [hjoin]) e he).1
  rw [hjoin, mem_socketsIn, List.mem_singleton] at hmem
  exact roomFor_injective (Prod.mk.inj hmem).2

/-- **When rooms agree.**  Two accepted texts for one group name one room to every
producer exactly when neither has an upper-case letter. -/
theorem roomsAgree_iff {g : Uuid} {s s' : String} (hs : Spells s g) (hs' : Spells s' g) :
    RoomsAgree g s s' ↔ Lowercase s ∧ Lowercase s' := by
  rw [← eq_printUuid_iff hs, ← eq_printUuid_iff hs']
  constructor
  · intro h
    obtain ⟨message, hmessage, hstored⟩ := produced_message s' g
    obtain ⟨read, hread, hroute⟩ := produced_read hs'
    have hs_eq : s = printUuid g := by rw [← h.groupId_eq hs hmessage, hstored]
    have hs'_eq : s' = printUuid g := by rw [← hroute, h.groupId_eq hs hread, hs_eq]
    exact ⟨hs_eq, hs'_eq⟩
  · rintro ⟨rfl, rfl⟩
    exact roomsAgree_printUuid g

/-- The group `0198a3f2-…-7c01` and its name in capitals: the two texts disagree. -/
theorem roomsAgree_capitals_iff :
    RoomsAgree 0x0198a3f25b6c7d8e9fa00b1c2d3e7c01 "0198A3F2-5B6C-7D8E-9FA0-0B1C2D3E7C01"
        "0198a3f2-5b6c-7d8e-9fa0-0b1c2d3e7c01" ↔
      Lowercase "0198A3F2-5B6C-7D8E-9FA0-0B1C2D3E7C01" ∧
        Lowercase "0198a3f2-5b6c-7d8e-9fa0-0b1c2d3e7c01" :=
  roomsAgree_iff (by decide) (by decide)

/-- **Accepted texts do not name one room.**  A socket joins under the capitals, a
message is posted, and the socket is not in the room it is broadcast to. -/
theorem not_roomsAgree_capitals :
    ¬∀ (g : Uuid) (s s' : String), Spells s g → Spells s' g → RoomsAgree g s s' := by
  intro h
  have hcapitals : Spells "0198A3F2-5B6C-7D8E-9FA0-0B1C2D3E7C01"
      0x0198a3f25b6c7d8e9fa00b1c2d3e7c01 := by decide
  have hlower : Spells "0198a3f2-5b6c-7d8e-9fa0-0b1c2d3e7c01"
      0x0198a3f25b6c7d8e9fa00b1c2d3e7c01 := by decide
  obtain ⟨message, hmessage, hstored⟩ := produced_message "0198a3f2-5b6c-7d8e-9fa0-0b1c2d3e7c01"
    0x0198a3f25b6c7d8e9fa00b1c2d3e7c01
  have hroom := (h _ _ _ hcapitals hlower).groupId_eq hcapitals hmessage
  rw [hstored] at hroom
  exact absurd hroom (by decide)

end Chat
end GroupChat

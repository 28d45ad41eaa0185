import GroupChat.Api.Turn
import GroupChat.Client.Typing

/-!
# Only members hear

What happens in a group is broadcast to its room.  Nobody looks a recipient up: who is in the
room hears it, and membership is checked once, when a socket joins.  Whether that is enough
depends on everything that ends a membership, and on everything that lets a socket into a room.

`perform` is all of it.  A call is served, and what it puts on the event bus is broadcast;
after `MEMBER_LEFT` the sockets of the user are put out of the room.  Besides there are
`leave_group`, the typing relay, and a connection that ends.  A room of a group that exists
then holds sockets of members only (`Inv`), and a member's socket stays in it until it leaves,
its connection ends, or its user leaves the group.

Acts are performed one after the other, each to its end, and every text of a request that
names a group is the printed one.
-/

namespace GroupChat
namespace Api

open Chat (BusEvent Socket broadcast evict evict_eq_filter leaveRoom mem_leaveRoom
  mem_socketsIn roomFor roomFor_injective socketsIn)
open Client.Typing (TypingEvent relayTyping)
open Common Database Groups Text Transition
open Messages (Message)

variable {userOf : Socket → Uuid} {userId g k u v : Uuid} {w : World} {socket : Socket}

/-! ## Acts -/

/-- What may happen on the server. -/
inductive Act where
  | call (c : Call)
  /-- `leave_group` -/
  | leaveGroup (socket : Socket) (groupId : Option String)
  /-- `typing_start` and `typing_stop` -/
  | typing (socket : Socket) (groupId : Option String) (typing : Bool)
  /-- A summary message arrives from the process that has written it. -/
  | publish (message : Message)
  | disconnect (socket : Socket)

inductive Content where
  | event (e : BusEvent)
  | typing (e : TypingEvent)

/-- Something is sent to a room. -/
structure Delivery where
  room : String
  recipients : List Socket
  content : Content

def deliver (rooms : List (Socket × String)) (e : BusEvent) : Delivery :=
  ⟨(broadcast e).room, socketsIn rooms (broadcast e).room, .event e⟩

/-- The rooms the socket is in. -/
def roomsOf (rooms : List (Socket × String)) (socket : Socket) : List String :=
  (rooms.filter fun x => x.1 = socket).map Prod.snd

/-- The listener of `MEMBER_LEFT`, once it has sent the event. -/
def onEvent (userOf : Socket → Uuid) (rooms : List (Socket × String)) (e : BusEvent) :
    List (Socket × String) :=
  (departed e).elim rooms fun userId => evict userOf rooms e.groupId userId

/-- An act, with what is sent on account of it.  The sockets to be evicted are fetched when all
events of the call have been sent. -/
def perform (userOf : Socket → Uuid) : Act → World → World × List Delivery
  | .call c, w =>
    let (after, reply) := serveCall c w
    let events := c.events reply
    (⟨after.records, events.foldl (onEvent userOf) after.rooms⟩, events.map (deliver after.rooms))
  | .leaveGroup socket groupId, w =>
    match groupId.filter (· ≠ "") with
    | none => (w, [])
    | some groupId => (⟨w.records, leaveRoom w.rooms socket (roomFor groupId)⟩, [])
  | .typing socket groupId typing, w =>
    match relayTyping (roomsOf w.rooms socket) (printUuid (userOf socket)) groupId typing with
    | none => (w, [])
    | some e =>
      (w, [⟨roomFor e.groupId, (socketsIn w.rooms (roomFor e.groupId)).filter (· ≠ socket),
        .typing e⟩])
  | .publish message, w => (w, [deliver w.rooms (.messageCreated message)])
  | .disconnect socket, w => (⟨w.records, w.rooms.filter fun x => x.1 ≠ socket⟩, [])

def Act.Proper (userOf : Socket → Uuid) : Act → Prop
  | .call c => c.Printed ∧ c.Authed userOf
  | _ => True

def Act.newIds : Act → List Uuid
  | .call c => c.newIds
  | _ => []

/-- The act may take the socket out of the room of the group. -/
def Act.Drops (userOf : Socket → Uuid) (socket : Socket) (g : Uuid) : Act → Prop
  | .call c => c.Leaves g (userOf socket)
  | .leaveGroup s groupId => s = socket ∧ groupId = some (printUuid g)
  | .typing _ _ _ | .publish _ => False
  | .disconnect s => s = socket

/-! ## Evictions -/

/-- None of the events puts the socket out of the room. -/
def Stays (userOf : Socket → Uuid) (events : List BusEvent) (x : Socket × String) : Prop :=
  ∀ e ∈ events, departed e = some (userOf x.1) → x.2 ≠ roomFor e.groupId

instance (userOf : Socket → Uuid) (events : List BusEvent) : DecidablePred (Stays userOf events) :=
  fun x => inferInstanceAs
    (Decidable (∀ e ∈ events, departed e = some (userOf x.1) → x.2 ≠ roomFor e.groupId))

/-- **Who is left** in the rooms when the events of a call have been listened to. -/
theorem foldl_onEvent (userOf : Socket → Uuid) (events : List BusEvent)
    (rooms : List (Socket × String)) :
    events.foldl (onEvent userOf) rooms = rooms.filter (Stays userOf events) := by
  have hone : ∀ e rooms, onEvent userOf rooms e =
      rooms.filter fun x => departed e = some (userOf x.1) → x.2 ≠ roomFor e.groupId := by
    intro e rooms
    unfold onEvent
    cases hleft : departed e with
    | none => simp
    | some userId =>
      rw [Option.elim_some, evict_eq_filter]
      refine List.filter_congr fun x _ => decide_eq_decide.mpr ?_
      rw [not_and, Option.some_inj, eq_comm]
  induction events generalizing rooms with
  | nil => exact (List.filter_eq_self.mpr fun x _ => decide_eq_true (List.forall_mem_nil _)).symm
  | cons e events ih =>
    rw [List.foldl_cons, ih, hone, List.filter_filter]
    refine List.filter_congr fun x _ => ?_
    rw [← Bool.decide_and, decide_eq_decide, Stays, Stays, List.forall_mem_cons, and_comm]

theorem mem_foldl_onEvent {events : List BusEvent} {rooms : List (Socket × String)}
    {x : Socket × String} :
    x ∈ events.foldl (onEvent userOf) rooms ↔ x ∈ rooms ∧ Stays userOf events x := by
  rw [foldl_onEvent, List.mem_filter, decide_eq_true_eq]

/-- Nobody leaves, and nobody is put out. -/
theorem mem_foldl_onEvent_of_stay {events : List BusEvent} {rooms : List (Socket × String)}
    {x : Socket × String} (hstay : ∀ e ∈ events, departed e = none) :
    x ∈ events.foldl (onEvent userOf) rooms ↔ x ∈ rooms := by
  refine mem_foldl_onEvent.trans (and_iff_left fun e he huser => ?_)
  rw [hstay e he] at huser
  cases huser

theorem roomFor_printUuid_inj : roomFor (printUuid g) = roomFor (printUuid k) ↔ g = k :=
  ⟨fun h => printUuid_injective (roomFor_injective h), fun h => h ▸ rfl⟩

/-- What is relayed goes to a room the socket is in. -/
theorem mem_rooms_of_relayTyping {rooms : List (Socket × String)} {userId : String}
    {groupId : Option String} {typing : Bool} {e : TypingEvent}
    (h : relayTyping (roomsOf rooms socket) userId groupId typing = some e) :
    (socket, roomFor e.groupId) ∈ rooms := by
  unfold relayTyping at h
  split at h
  · cases h
  · split_ifs at h with hrefused
    obtain rfl := Option.some.inj h
    obtain ⟨-, hroom⟩ := not_or.mp hrefused
    obtain ⟨x, hx, heq⟩ := List.mem_map.mp (not_not.mp hroom)
    obtain ⟨hmem, hsocket⟩ := List.mem_filter.mp hx
    have hpair : x = (socket, _) := Prod.ext (of_decide_eq_true hsocket) heq
    rwa [hpair] at hmem

/-! ## The invariant -/

/-- Rooms are for members. -/
structure Inv (userOf : Socket → Uuid) (w : World) : Prop where
  printed : ∀ x ∈ w.rooms, ∃ g, x.2 = roomFor (printUuid g)
  members : ∀ socket g, (socket, roomFor (printUuid g)) ∈ w.rooms → GroupExists w.records g →
    w.records.HasMember g (userOf socket)
  /-- Whoever is left in the room of a deleted group has been its last member. -/
  alone : ∀ socket socket' g, (socket, roomFor (printUuid g)) ∈ w.rooms →
    (socket', roomFor (printUuid g)) ∈ w.rooms → ¬GroupExists w.records g →
      userOf socket = userOf socket'

/-- A name of the world: an id, or a group that has a room. -/
def World.Uses (w : World) (id : Uuid) : Prop :=
  w.records.Uses id ∨ ∃ x ∈ w.rooms, IsRoomOf id x.2

/-- Sockets leave. -/
theorem Inv.of_subset (hs : Inv userOf w) {rooms : List (Socket × String)}
    (h : ∀ x ∈ rooms, x ∈ w.rooms) : Inv userOf ⟨w.records, rooms⟩ where
  printed x hx := hs.printed x (h x hx)
  members socket g hx := hs.members socket g (h _ hx)
  alone socket socket' g hx hx' := hs.alone socket socket' g (h _ hx) (h _ hx')

theorem Inv.of_turn (hs : Inv userOf w) {c : Call} {after : World} {events : List BusEvent}
    (hnew : ∀ id ∈ c.newIds, ¬w.Uses id) (h : Turn userOf w c after events) :
    Inv userOf ⟨after.records, events.foldl (onEvent userOf) after.rooms⟩ := by
  cases h with
  | same hsame htold =>
    have hrooms : ∀ x, x ∈ events.foldl (onEvent userOf) w.rooms ↔ x ∈ w.rooms := fun x =>
      mem_foldl_onEvent_of_stay fun e he => (htold e he).1
    refine ⟨fun x hx => hs.printed x ((hrooms x).mp hx), fun s g hx hthere => ?_,
      fun s s' g hx hx' hgone => ?_⟩
    · exact (hsame.member g _).mpr
        (hs.members s g ((hrooms _).mp hx) ((hsame.groupExists g).mp hthere))
    · exact hs.alone s s' g ((hrooms _).mp hx) ((hrooms _).mp hx')
        (mt (hsame.groupExists g).mpr hgone)
  | @entered socket g hmember =>
    have hold : ∀ {s k}, ¬(s = socket ∧ k = g) →
        (s, roomFor (printUuid k)) ∈ (socket, roomFor (printUuid g)) :: w.rooms →
          (s, roomFor (printUuid k)) ∈ w.rooms := by
      intro s k hne hx
      refine (List.mem_cons.mp hx).resolve_left fun heq => hne ?_
      obtain ⟨hsocket, hroom⟩ := Prod.mk.inj heq
      exact ⟨hsocket, roomFor_printUuid_inj.mp hroom⟩
    refine ⟨fun x hx => ?_, fun s k hx hthere => ?_, fun s s' k hx hx' hgone => ?_⟩
    · rcases List.mem_cons.mp hx with rfl | hx
      · exact ⟨g, rfl⟩
      · exact hs.printed x hx
    · by_cases hsame : s = socket ∧ k = g
      · obtain ⟨rfl, rfl⟩ := hsame
        exact hmember
      · exact hs.members s k (hold hsame hx) hthere
    · have hne : k ≠ g := by
        rintro rfl
        exact hgone hmember.groupExists
      exact hs.alone s s' k (hold (fun h => hne h.2) hx) (hold (fun h => hne h.2) hx') hgone
  | @joined records g u member hthere hmembers hgroups =>
    have hrooms : ∀ x, x ∈ [BusEvent.memberJoined (printUuid g) member].foldl (onEvent userOf)
        w.rooms ↔ x ∈ w.rooms := fun x =>
      mem_foldl_onEvent_of_stay fun e he => by rw [List.mem_singleton.mp he]; rfl
    refine ⟨fun x hx => hs.printed x ((hrooms x).mp hx), fun s k hx hexists => ?_,
      fun s s' k hx hx' hgone => ?_⟩
    · exact (hmembers k _).mpr
        (Or.inl (hs.members s k ((hrooms _).mp hx) ((hgroups k).mp hexists)))
    · exact hs.alone s s' k ((hrooms _).mp hx) ((hrooms _).mp hx') (mt (hgroups k).mpr hgone)
  | @created records g u hid hmembers hgroups =>
    refine ⟨hs.printed, fun s k hx hexists => ?_, fun s s' k hx hx' hgone => ?_⟩
    · rcases (hgroups k).mp hexists with hold | rfl
      · exact (hmembers k _).mpr (Or.inl (hs.members s k hx hold))
      · exact absurd (Or.inr ⟨_, hx, isRoomOf_roomFor.mpr (spells_printUuid k)⟩) (hnew k hid)
    · exact hs.alone s s' k hx hx' fun hexists => hgone ((hgroups k).mpr (Or.inl hexists))
  | @left records g u events hcall hcaller hmembers hgroups htold hannounced =>
    have hrooms : ∀ x, x ∈ events.foldl (onEvent userOf) w.rooms → x ∈ w.rooms := fun x hx =>
      (mem_foldl_onEvent.mp hx).1
    refine ⟨fun x hx => hs.printed x (hrooms x hx), fun s k hx hexists => ?_,
      fun s s' k hx hx' hgone => ?_⟩
    · refine (hmembers k _).mpr ⟨hs.members s k (hrooms _ hx) ((hgroups k).mp hexists), ?_⟩
      rintro ⟨rfl, huser⟩
      -- the handler of `MEMBER_LEFT` has put this socket out
      exact (mem_foldl_onEvent.mp hx).2 _ hannounced (congrArg some huser.symm) rfl
    · exact hs.alone s s' k (hrooms _ hx) (hrooms _ hx') (mt (hgroups k).mpr hgone)
  | @dissolved records g u hcall halone hmembers hgroups =>
    refine ⟨hs.printed, fun s k hx hexists => ?_, fun s s' k hx hx' hgone => ?_⟩
    · obtain ⟨hold, hne⟩ := (hgroups k).mp hexists
      exact (hmembers k _).mpr ⟨hs.members s k hx hold, hne⟩
    · by_cases hold : GroupExists w.records k
      · obtain rfl : k = g := not_not.mp fun hne => hgone ((hgroups k).mpr ⟨hold, hne⟩)
        rw [halone _ (hs.members s k hx hold), halone _ (hs.members s' k hx' hold)]
      · exact hs.alone s s' k hx hx' hold

/-! ## Steps -/

/-- A call lets a socket into the room of a group that is there, if into any. -/
theorem mem_rooms_serveCall {c : Call} (hnew : ∀ id ∈ c.newIds, ¬w.records.Uses id)
    {x : Socket × String} (hx : x ∈ (serveCall c w).1.rooms) (hroom : IsRoomOf g x.2) :
    x ∈ w.rooms ∨ w.records.Uses g := by
  cases c with
  | operation env userId id op =>
    by_cases hstranger : NotMember userId id w
    · have hsame : (serveCall (.operation env userId id op) w).1 = w := by
        show (serve env userId id op w).1 = w
        rw [serve_of_notMember hstranger]
      rw [hsame] at hx
      exact Or.inl hx
    · obtain ⟨k, hid, me, hme⟩ : ∃ k, Spells id k ∧ ∃ me, IsMembership w.records k userId me := by
        simpa [NotMember] using hstranger
      by_cases hsame : g = k
      · subst hsame
        obtain ⟨y, hy, hyid⟩ := hme.groupExists
        exact Or.inr (.group y hy hyid)
      · have hlocal : Local k [env.id] (serve env userId id op) := local_serve hid op
        have hpart := hlocal.others w g hnew hsame
        have hmem : x ∈ ((serve env userId id op w).1.only g).rooms :=
          List.mem_filter.mpr ⟨hx, decide_eq_true hroom⟩
        rw [hpart] at hmem
        exact Or.inl (List.mem_filter.mp hmem).1
  | join userId id memberId now =>
    have hrooms : ((joinRoute userId id memberId now).respond w).1.rooms = w.rooms := by
      unfold joinRoute
      rcases respond_openRoute w with hsame | ⟨_, _, _, -, -, hafter⟩
      · rw [hsame]
      · rw [hafter]
    exact Or.inl (hrooms ▸ hx)
  | create validator userId body new =>
    have hrooms : ((createRoute validator userId body new).respond w).1.rooms = w.rooms := by
      rcases respond_createRoute body new w with hsame | ⟨_, _, _, -, hafter⟩
      · rw [hsame]
      · rw [hafter]
    exact Or.inl (hrooms ▸ hx)

/-- An act uses no names but those that are there and those it brings along. -/
theorem uses_perform (a : Act) (w : World) (hnew : ∀ id ∈ a.newIds, ¬w.Uses id) (x : Uuid)
    (h : (perform userOf a w).1.Uses x) : w.Uses x ∨ x ∈ a.newIds := by
  cases a with
  | call c =>
    have hnew' : ∀ id ∈ c.newIds, ¬w.records.Uses id := fun id hid huses =>
      hnew id hid (Or.inl huses)
    rcases h with huses | ⟨y, hy, hroom⟩
    · exact (uses_serveCall c w hnew' x huses).imp_left Or.inl
    · refine Or.inl ?_
      rcases mem_rooms_serveCall hnew' (mem_foldl_onEvent.mp hy).1 hroom with hold | huses
      · exact Or.inr ⟨y, hold, hroom⟩
      · exact Or.inl huses
  | leaveGroup socket groupId =>
    unfold perform at h
    dsimp only at h
    split at h
    · exact Or.inl h
    · exact Or.inl (h.imp_right fun ⟨y, hy, hroom⟩ => ⟨y, (mem_leaveRoom.mp hy).1, hroom⟩)
  | typing socket groupId typing =>
    unfold perform at h
    dsimp only at h
    split at h <;> exact Or.inl h
  | publish message => exact Or.inl h
  | disconnect socket =>
    exact Or.inl (h.imp_right fun ⟨y, hy, hroom⟩ => ⟨y, (List.mem_filter.mp hy).1, hroom⟩)

/-- The act finds the names it brings along new, and is proper. -/
def Fit (userOf : Socket → Uuid) (a : Act) (w : World) : Prop :=
  (∀ id ∈ a.newIds, ¬w.Uses id) ∧ a.Proper userOf

theorem exists_of_mem_deliveries {c : Call} {delivery : Delivery}
    (h : delivery ∈ (perform userOf (.call c) w).2) :
    ∃ e ∈ c.events (serveCall c w).2, delivery = deliver (serveCall c w).1.rooms e := by
  obtain ⟨e, he, rfl⟩ := List.mem_map.mp h
  exact ⟨e, he, rfl⟩

theorem turn_of_fit {c : Call} (h : Fit userOf (.call c) w) :
    Turn userOf w c (serveCall c w).1 (c.events (serveCall c w).2) :=
  turn_serveCall h.2.1 h.2.2 fun id hid huses => h.1 id hid (Or.inl huses)

theorem Inv.perform {a : Act} (hs : Inv userOf w) (hfit : Fit userOf a w) :
    Inv userOf (perform userOf a w).1 := by
  cases a with
  | call c => exact hs.of_turn hfit.1 (turn_of_fit hfit)
  | leaveGroup socket groupId =>
    unfold Api.perform
    dsimp only
    split
    · exact hs
    · exact hs.of_subset fun x hx => (mem_leaveRoom.mp hx).1
  | typing socket groupId typing =>
    unfold Api.perform
    dsimp only
    split <;> exact hs
  | publish message => exact hs
  | disconnect socket => exact hs.of_subset fun x hx => (List.mem_filter.mp hx).1

/-! ## Who hears -/

/-- The delivery goes to the room of a group, and to members of the group only.  Nobody is a
member of a group that has been deleted; then all who hear it are one user. -/
def HeardByMembers (userOf : Socket → Uuid) (w : World) (delivery : Delivery) : Prop :=
  ∃ g, delivery.room = roomFor (printUuid g) ∧
    ((∀ socket ∈ delivery.recipients, w.records.HasMember g (userOf socket)) ∨
      ¬GroupExists w.records g ∧ ∃ u, ∀ socket ∈ delivery.recipients, userOf socket = u)

/-- Whoever is in a room may hear it. -/
theorem Inv.heard (hs : Inv userOf w) {recipients : List Socket} {content : Content}
    (h : ∀ socket ∈ recipients, socket ∈ socketsIn w.rooms (roomFor (printUuid g))) :
    HeardByMembers userOf w ⟨roomFor (printUuid g), recipients, content⟩ := by
  refine ⟨g, rfl, ?_⟩
  by_cases hthere : GroupExists w.records g
  · exact Or.inl fun socket hsocket =>
      hs.members socket g (mem_socketsIn.mp (h socket hsocket)) hthere
  · refine Or.inr ⟨hthere, ?_⟩
    cases recipients with
    | nil => exact ⟨0, fun socket hsocket => absurd hsocket List.not_mem_nil⟩
    | cons first rest =>
      exact ⟨userOf first, fun socket hsocket => hs.alone socket first g
        (mem_socketsIn.mp (h socket hsocket)) (mem_socketsIn.mp (h first List.mem_cons_self)) hthere⟩

/-- An event is sent to the rooms as they were before the call. -/
theorem Turn.told_in {c : Call} {after : World} {events : List BusEvent}
    (h : Turn userOf w c after events) {e : BusEvent} (he : e ∈ events) :
    after.rooms = w.rooms ∧ ∃ g, e.groupId = printUuid g := by
  cases h with
  | same hsame htold =>
    obtain ⟨-, g, -, hgroup⟩ := htold e he
    exact ⟨rfl, g, hgroup⟩
  | joined hthere hmembers hgroups =>
    obtain rfl := List.mem_singleton.mp he
    exact ⟨rfl, _, rfl⟩
  | left hcall hcaller hmembers hgroups htold hannounced => exact ⟨rfl, _, (htold e he).1⟩
  | entered | created | dissolved => cases he

theorem heard_of_perform {a : Act} (hs : Inv userOf w) (hfit : Fit userOf a w)
    {delivery : Delivery} (h : delivery ∈ (perform userOf a w).2) :
    HeardByMembers userOf w delivery := by
  cases a with
  | call c =>
    obtain ⟨e, he, rfl⟩ := exists_of_mem_deliveries h
    obtain ⟨hrooms, g, hgroup⟩ := (turn_of_fit hfit).told_in he
    unfold deliver broadcast
    dsimp only
    rw [hrooms, hgroup]
    exact hs.heard fun _ hsocket => hsocket
  | leaveGroup socket groupId =>
    unfold perform at h
    dsimp only at h
    split at h <;> cases h
  | typing socket groupId typing =>
    unfold perform at h
    dsimp only at h
    split at h
    · cases h
    · next e hrelayed =>
      obtain rfl := List.mem_singleton.mp h
      have hmem : (socket, roomFor e.groupId) ∈ w.rooms := mem_rooms_of_relayTyping hrelayed
      obtain ⟨g, hroom⟩ := hs.printed _ hmem
      dsimp only at hroom
      rw [hroom]
      exact hs.heard fun _ hsocket => (List.mem_filter.mp hsocket).1
  | publish message =>
    obtain rfl := List.mem_singleton.mp h
    exact hs.heard fun _ hsocket => hsocket
  | disconnect socket => cases h

/-! ## Who goes on hearing -/

theorem Turn.mem_rooms {c : Call} {after : World} {events : List BusEvent}
    (h : Turn userOf w c after events) {x : Socket × String} (hx : x ∈ w.rooms) :
    x ∈ after.rooms := by
  cases h with
  | entered hmember => exact List.mem_cons_of_mem _ hx
  | same | joined | created | left | dissolved => exact hx

/-- The departure of a user is announced in a group he asks to leave. -/
theorem Turn.leaves {c : Call} {after : World} {events : List BusEvent}
    (h : Turn userOf w c after events) {e : BusEvent} (he : e ∈ events)
    (hleft : departed e = some u) (hgroup : e.groupId = printUuid g) : c.Leaves g u := by
  cases h with
  | same hsame htold =>
    rw [(htold e he).1] at hleft
    cases hleft
  | joined =>
    obtain rfl := List.mem_singleton.mp he
    cases hleft
  | @left records k v events hcall hcaller hmembers hgroups htold hannounced =>
    obtain ⟨hgroup', huser⟩ := htold e he
    rw [printUuid_injective (hgroup.symm.trans hgroup'), huser u hleft]
    exact hcall
  | entered | created | dissolved => cases he

/-- **A socket stays**, unless the act drops it. -/
theorem mem_rooms_perform {a : Act} (hfit : Fit userOf a w) (hdrops : ¬a.Drops userOf socket g)
    (hx : (socket, roomFor (printUuid g)) ∈ w.rooms) :
    (socket, roomFor (printUuid g)) ∈ (perform userOf a w).1.rooms := by
  cases a with
  | call c =>
    have hturn := turn_of_fit hfit
    refine mem_foldl_onEvent.mpr ⟨hturn.mem_rooms hx, fun e he huser hroom => hdrops ?_⟩
    exact hturn.leaves he huser (roomFor_injective hroom).symm
  | leaveGroup s groupId =>
    unfold perform
    dsimp only
    split
    · exact hx
    · next groupId' hnamed =>
      obtain ⟨rfl, -⟩ := Option.filter_eq_some_iff.mp hnamed
      refine mem_leaveRoom.mpr ⟨hx, fun heq => hdrops ?_⟩
      obtain ⟨rfl, hroom⟩ := Prod.mk.inj heq
      exact ⟨rfl, congrArg some (roomFor_injective hroom).symm⟩
  | typing s groupId typing =>
    unfold perform
    dsimp only
    split <;> exact hx
  | publish message => exact hx
  | disconnect s =>
    exact List.mem_filter.mpr ⟨hx, decide_eq_true fun heq => hdrops heq.symm⟩

/-- After a call without events the rooms are as the call has left them. -/
theorem rooms_perform_of_quiet {c : Call} (h : c.events (serveCall c w).2 = []) :
    (perform userOf (.call c) w).1.rooms = (serveCall c w).1.rooms := by
  unfold perform
  dsimp only
  rw [h, List.foldl_nil]

/-- A member's socket is let into the room. -/
theorem mem_rooms_joinGroup {env : Env} {id : String} {c : Call} (hid : Spells id g)
    (hc : c = .operation env (userOf socket) id (.joinGroup socket))
    (h : w.records.HasMember g (userOf socket)) :
    (socket, roomFor id) ∈ (perform userOf (.call c) w).1.rooms := by
  obtain ⟨me, hme⟩ := h
  have hquiet : c.events (serveCall c w).2 = [] := by
    rw [hc]
    rfl
  have hrooms : (serveCall c w).1.rooms = (socket, roomFor id) :: w.rooms := by
    rw [hc]
    show (serve env (userOf socket) id (.joinGroup socket) w).1.rooms = _
    unfold serve Chat.joinGroup
    dsimp only [Option.getD_some]
    rw [Chat.assertMember_of_spells hid (membership_of_isMembership hme)]
  rw [rooms_perform_of_quiet hquiet, hrooms]
  exact List.mem_cons_self

/-- Who is in the room hears what is sent to it, except what the socket itself relays. -/
theorem mem_recipients_of_perform {a : Act} (hfit : Fit userOf a w)
    (hx : (socket, roomFor (printUuid g)) ∈ w.rooms) {delivery : Delivery}
    (h : delivery ∈ (perform userOf a w).2) (hroom : delivery.room = roomFor (printUuid g))
    (hself : ∀ groupId typing, a ≠ .typing socket groupId typing) :
    socket ∈ delivery.recipients := by
  cases a with
  | call c =>
    obtain ⟨e, he, rfl⟩ := exists_of_mem_deliveries h
    have hmem := (turn_of_fit hfit).mem_rooms hx
    rw [← hroom] at hmem
    exact mem_socketsIn.mpr hmem
  | leaveGroup s groupId =>
    unfold perform at h
    dsimp only at h
    split at h <;> cases h
  | typing s groupId typing =>
    unfold perform at h
    dsimp only at h
    split at h
    · cases h
    · next e hrelayed =>
      obtain rfl := List.mem_singleton.mp h
      refine List.mem_filter.mpr ⟨mem_socketsIn.mpr ?_, decide_eq_true ?_⟩
      · dsimp only at hroom
        rwa [hroom]
      · rintro rfl
        exact hself groupId typing rfl
  | publish message =>
    obtain rfl := List.mem_singleton.mp h
    have hmem := hx
    rw [← hroom] at hmem
    exact mem_socketsIn.mpr hmem
  | disconnect s => cases h

/-! ## Runs -/

/-- The world after the acts, where nobody was connected before. -/
def worldAfter (userOf : Socket → Uuid) (d : Records) (acts : List Act) : World :=
  (serveAll (perform userOf) acts ⟨d, []⟩).1

theorem allFit {d : Records} {acts : List Act} (hproper : ∀ a ∈ acts, a.Proper userOf)
    (hdistinct : (acts.flatMap Act.newIds).Nodup)
    (hnew : ∀ id ∈ acts.flatMap Act.newIds, ¬d.Uses id) :
    AllAsked (perform userOf) (Fit userOf) acts ⟨d, []⟩ := by
  refine (allAsked_of_fresh (fun a w => uses_perform a w) hdistinct fun id hid huses => ?_).and_of_mem
    hproper
  rcases huses with huses | ⟨x, hx, -⟩
  · exact hnew id hid huses
  · cases hx

theorem inv_of_allFit {d : Records} {acts : List Act}
    (h : AllAsked (perform userOf) (Fit userOf) acts ⟨d, []⟩) :
    Inv userOf (worldAfter userOf d acts) := by
  refine h.invariant (fun a w hfit hs => hs.perform hfit) ⟨fun x hx => ?_, fun s g hx => ?_,
    fun s s' g hx => ?_⟩ <;> cases hx

/-- A socket that an act has let into a room hears what is sent there until it is dropped. -/
theorem mem_recipients_of_entered {first : Act} {middle : List Act} {a : Act} {after : List Act}
    (hfit : AllAsked (perform userOf) (Fit userOf) (first :: (middle ++ a :: after)) w)
    (hentered : (socket, roomFor (printUuid g)) ∈ (perform userOf first w).1.rooms)
    (hdrops : ∀ b ∈ middle, ¬b.Drops userOf socket g)
    (hself : ∀ groupId typing, a ≠ .typing socket groupId typing) {delivery : Delivery}
    (h : delivery ∈ (perform userOf a (serveAll (perform userOf) (first :: middle) w).1).2)
    (hroom : delivery.room = roomFor (printUuid g)) : socket ∈ delivery.recipients := by
  obtain ⟨hmiddle, ha, -⟩ := allAsked_append.mp hfit.2
  have hstays := (hmiddle.and_of_mem hdrops).invariant
    (P := fun w => (socket, roomFor (printUuid g)) ∈ w.rooms)
    (fun b w hb hx => mem_rooms_perform hb.1 hb.2 hx) hentered
  exact mem_recipients_of_perform ha hstays h hroom hself

/-- **Only members hear, and members go on hearing.**  Over any database, and for any acts with new
ids: the rooms of the groups that exist hold sockets of members only, whatever is sent goes to the
room of a group and is heard by members of it, or by the last member once it has been deleted,
and the socket of a member who has joined the room hears everything that is sent there, but for its
own typing, until the member leaves the group, or the socket leaves the room or is disconnected. -/
theorem only_members_hear (userOf : Socket → Uuid) (d : Records) (acts : List Act)
    (hproper : ∀ a ∈ acts, a.Proper userOf) (hdistinct : (acts.flatMap Act.newIds).Nodup)
    (hnew : ∀ id ∈ acts.flatMap Act.newIds, ¬d.Uses id) :
    (∀ socket g, (socket, roomFor (printUuid g)) ∈ (worldAfter userOf d acts).rooms →
      GroupExists (worldAfter userOf d acts).records g →
        (worldAfter userOf d acts).records.HasMember g (userOf socket)) ∧
    (∀ before a after, acts = before ++ a :: after →
      ∀ delivery ∈ (perform userOf a (worldAfter userOf d before)).2,
        HeardByMembers userOf (worldAfter userOf d before) delivery) ∧
    ∀ before env socket g middle a after,
      acts = before ++ .call (.operation env (userOf socket) (printUuid g) (.joinGroup socket)) ::
        (middle ++ a :: after) →
      (worldAfter userOf d before).records.HasMember g (userOf socket) →
      (∀ b ∈ middle, ¬b.Drops userOf socket g) →
      (∀ groupId typing, a ≠ .typing socket groupId typing) →
        ∀ delivery ∈ (perform userOf a (worldAfter userOf d (before ++
            .call (.operation env (userOf socket) (printUuid g) (.joinGroup socket)) :: middle))).2,
          delivery.room = roomFor (printUuid g) → socket ∈ delivery.recipients := by
  have hfit := allFit hproper hdistinct hnew
  refine ⟨(inv_of_allFit hfit).members, ?_, ?_⟩
  · rintro before a after rfl delivery hdelivery
    obtain ⟨hbefore, hrest⟩ := allAsked_append.mp hfit
    exact heard_of_perform (inv_of_allFit hbefore) hrest.1 hdelivery
  · rintro before env socket g middle a after rfl hmember hdrops hself delivery hdelivery hroom
    obtain ⟨hbefore, hrest⟩ := allAsked_append.mp hfit
    unfold worldAfter at hdelivery
    rw [serveAll_append_fst] at hdelivery
    exact mem_recipients_of_entered hrest (mem_rooms_joinGroup (spells_printUuid g) rfl hmember)
      hdrops hself hdelivery hroom

/-- The first socket is the member's. -/
def seatOf (socket : Socket) : Uuid := if socket = 1 then 6 else ownerId

/-- The owner's socket joins the room, and the member's. -/
def ownerEnters : Act :=
  .call (.operation { plainEnv with id := 42 } ownerId (printUuid 2) (.joinGroup 2))

def memberEnters : Act :=
  .call (.operation { plainEnv with id := 41 } 6 (printUuid 2) (.joinGroup 1))

def memberLeaves : Act := .call (.operation { plainEnv with id := 43 } 6 (printUuid 2) .leave)

def ownerGreets : Act :=
  .call (.operation plainEnv ownerId (printUuid 2) (.sendMessage (some (JsString.ofString "hi"))))

theorem uses_twoMembers {x : Uuid} (h : twoMembers.Uses x) : x = 2 ∨ x = 10 ∨ x = 11 := by
  cases h with
  | group y hy hx =>
    rw [← hx, group_mem_twoRows.mp hy]
    exact Or.inl rfl
  | member r hr hx =>
    rcases member_mem_twoRows.mp hr with rfl | rfl
    · exact Or.inr (Or.inl hx.symm)
    · exact Or.inr (Or.inr hx.symm)
  | message m hm hx => exact absurd hm List.not_mem_nil
  | reaction y hy hx => exact absurd hy List.not_mem_nil

/-- Two sockets join, a member leaves and is put out, and the owner's socket alone hears what is
posted then. -/
theorem only_members_hear_twoMembers :
    ∃ delivery, (perform seatOf ownerGreets
        (worldAfter seatOf twoMembers [ownerEnters, memberEnters, memberLeaves])).2 = [delivery] ∧
      2 ∈ delivery.recipients ∧ 1 ∉ delivery.recipients ∧
      HeardByMembers seatOf
        (worldAfter seatOf twoMembers [ownerEnters, memberEnters, memberLeaves]) delivery := by
  have hprinted : ∀ g, Spells (printUuid 2) g → printUuid 2 = printUuid g := fun g hg => by
    rw [eq_of_spells (spells_printUuid 2) hg]
  have hproper : ∀ a ∈ [ownerEnters, memberEnters, memberLeaves, ownerGreets],
      a.Proper seatOf := by
    intro a ha
    simp only [List.mem_cons, List.not_mem_nil, or_false] at ha
    rcases ha with rfl | rfl | rfl | rfl
    · exact ⟨hprinted, rfl⟩
    · exact ⟨hprinted, rfl⟩
    · exact ⟨hprinted, trivial⟩
    · exact ⟨hprinted, trivial⟩
  have hnew : ∀ id ∈ [ownerEnters, memberEnters, memberLeaves, ownerGreets].flatMap Act.newIds,
      ¬twoMembers.Uses id := by
    intro id hid huses
    have hids : id ∈ [42, 41, 43, 40] := hid
    rcases uses_twoMembers huses with rfl | rfl | rfl <;> revert hids <;> decide
  obtain ⟨-, hheard, hhears⟩ := only_members_hear seatOf twoMembers
    [ownerEnters, memberEnters, memberLeaves, ownerGreets] hproper (by decide) hnew
  have hsent : (perform seatOf ownerGreets
      (worldAfter seatOf twoMembers [ownerEnters, memberEnters, memberLeaves])).2.map
        (fun delivery => (delivery.room, delivery.recipients)) =
      [(roomFor (printUuid 2), [2])] := by decide +kernel
  obtain ⟨delivery, hdelivery, hpair⟩ := List.map_eq_singleton_iff.mp hsent
  obtain ⟨hroom, hrecipients⟩ := Prod.mk.inj hpair
  have hmem : delivery ∈ (perform seatOf ownerGreets
      (worldAfter seatOf twoMembers [ownerEnters, memberEnters, memberLeaves])).2 := by
    rw [hdelivery]
    exact List.mem_singleton_self delivery
  refine ⟨delivery, hdelivery, ?_, by rw [hrecipients]; decide,
    hheard [ownerEnters, memberEnters, memberLeaves] ownerGreets [] rfl delivery hmem⟩
  refine hhears [] { plainEnv with id := 42 } 2 2 [memberEnters, memberLeaves] ownerGreets [] rfl
    ?_ (fun b hb hdrops => ?_) (fun groupId typing => by simp [ownerGreets]) delivery hmem hroom
  · exact ⟨_, member_mem_twoRows.mpr (Or.inl rfl), rfl, rfl⟩
  · rcases List.mem_pair.mp hb with rfl | rfl
    · exact hdrops
    · exact absurd hdrops.2 (by decide)

end Api
end GroupChat

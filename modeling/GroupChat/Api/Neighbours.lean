import GroupChat.Api.Audience

/-!
# Groups do not notice each other

All groups are in one database, and all their rooms on one server.  Whatever is done there, in
whatever order, each group lives as if it were the only one: what the acts that concern it are
answered, what is sent on account of them and to whom, and what is left of its rows and its rooms
in the end, are what they would be if the database had held nothing else and nobody had done
anything else (`groups_are_independent`).  A connection that ends concerns every group.

This rests on the ids the calls create rows under.  They have to be new: an insert under the id
of a row of another group fails, and so tells the caller of it.
-/

namespace GroupChat
namespace Api

open Chat (BusEvent Socket groupId_onBus leaveRoom roomFor socketsIn)
open Client.Typing (relayTyping)
open Common Database Groups Messages Text Transition

variable {userOf : Socket → Uuid} {env : Env} {userId g k : Uuid} {id : String} {w : World}
  {e : BusEvent} {socket : Socket}

/-! ## What is observed -/

/-- What a call is answered, if the act is one, and what is sent. -/
structure Outcome where
  reply : Option Reply
  deliveries : List Delivery

def Act.reply : Act → World → Option Reply
  | .call c, w => some (serveCall c w).2
  | _, _ => none

/-- The act is performed and observed. -/
def observe (userOf : Socket → Uuid) (a : Act) (w : World) : World × Outcome :=
  ((perform userOf a w).1, ⟨a.reply w, (perform userOf a w).2⟩)

/-- The act concerns the group. -/
def Act.Names (g : Uuid) : Act → Prop
  | .call c => c.Names g
  | .leaveGroup _ groupId | .typing _ groupId _ => ∃ id ∈ groupId, Spells id g
  | .publish message => message.groupId = g
  | .disconnect _ => True

instance (g : Uuid) : DecidablePred (Act.Names g)
  | .call c => inferInstanceAs (Decidable (c.Names g))
  | .leaveGroup _ groupId | .typing _ groupId _ =>
    inferInstanceAs (Decidable (∃ id ∈ groupId, Spells id g))
  | .publish message => inferInstanceAs (Decidable (message.groupId = g))
  | .disconnect _ => isTrue trivial

def Act.creates : Act → Option Uuid
  | .call c => c.creates
  | _ => none

/-! ## The rooms of one group -/

/-- The sockets in a room of the group are those of the whole server. -/
theorem socketsIn_only (hid : Spells id g) (rooms : List (Socket × String)) :
    socketsIn (rooms.filter fun x => IsRoomOf g x.2) (roomFor id) = socketsIn rooms (roomFor id) := by
  unfold socketsIn
  rw [List.filter_filter]
  refine congrArg _ (List.filter_congr fun x _ => ?_)
  rw [← Bool.decide_and, decide_eq_decide]
  refine and_iff_left_of_imp fun hroom => ?_
  rw [hroom]
  exact isRoomOf_roomFor.mpr hid

theorem deliver_only (hid : Spells e.groupId g) (rooms : List (Socket × String)) :
    deliver (rooms.filter fun x => IsRoomOf g x.2) e = deliver rooms e := by
  unfold deliver
  rw [show (Chat.broadcast e).room = roomFor e.groupId from rfl, socketsIn_only hid]

/-- A socket relays into a room of the group what it would relay on the whole server. -/
theorem relayTyping_only (hid : Spells id g) (rooms : List (Socket × String)) (user : String)
    (typing : Bool) :
    relayTyping (roomsOf (rooms.filter fun x => IsRoomOf g x.2) socket) user (some id) typing =
      relayTyping (roomsOf rooms socket) user (some id) typing := by
  have hmem : roomFor id ∈ roomsOf (rooms.filter fun x => IsRoomOf g x.2) socket ↔
      roomFor id ∈ roomsOf rooms socket := by
    unfold roomsOf
    simp only [List.mem_map, List.mem_filter, decide_eq_true_eq]
    constructor
    · rintro ⟨x, ⟨⟨hx, -⟩, hsocket⟩, hroom⟩
      exact ⟨x, ⟨hx, hsocket⟩, hroom⟩
    · rintro ⟨x, ⟨hx, hsocket⟩, hroom⟩
      exact ⟨x, ⟨⟨hx, hroom ▸ isRoomOf_roomFor.mpr hid⟩, hsocket⟩, hroom⟩
  unfold relayTyping
  simp only [hmem]

/-- What is removed from the rooms may be removed before the group's are picked out. -/
theorem filter_comm (p q : Socket × String → Bool) (rooms : List (Socket × String)) :
    (rooms.filter p).filter q = (rooms.filter q).filter p := by
  rw [List.filter_filter, List.filter_filter]
  exact List.filter_congr fun x _ => Bool.and_comm _ _

/-- Leaving a room that is not the group's. -/
theorem leaveRoom_only_of_ne (hid : ¬Spells id g) (rooms : List (Socket × String)) :
    (leaveRoom rooms socket (roomFor id)).filter (fun x => IsRoomOf g x.2) =
      rooms.filter fun x => IsRoomOf g x.2 := by
  unfold leaveRoom
  rw [filter_comm, List.filter_eq_self]
  intro x hx
  refine decide_eq_true ?_
  rintro rfl
  exact hid (isRoomOf_roomFor.mp (of_decide_eq_true (List.mem_filter.mp hx).2))

/-! ## The events of a call -/

/-- The operation is announced with the message it is answered with. -/
def Operation.Announces : Operation → Prop
  | .create _ | .upload _ | .edit _ _ | .remove _ | .sendMessage _ => True
  | _ => False

theorem groupId_of_mem_onBus {events : Uuid → List Groups.Event}
    (h : e ∈ (readUuid id).elim [] fun g => (events g).map (Chat.onBus id)) : e.groupId = id := by
  cases hread : readUuid id with
  | none =>
    rw [hread] at h
    cases h
  | some g' =>
    rw [hread, Option.elim_some] at h
    obtain ⟨event, -, rfl⟩ := List.mem_map.mp h
    exact groupId_onBus id event

/-- An event is about the group the operation was called on, or about that of the message. -/
theorem Operation.groupId_of_mem_events {op : Operation} {answer : Answer}
    (h : e ∈ op.events userId id answer) :
    e.groupId = id ∨ departed e = none ∧ op.Announces ∧ ∃ m : Selected,
      e.groupId = printUuid m.message.groupId ∧
        (answer = .http (.ok (.message m)) ∨ answer = .sent (.ok m)) := by
  unfold Operation.events at h
  split at h
  case h_2 | h_3 => exact Or.inl (groupId_of_mem_onBus h)
  case h_6 =>
    rw [List.mem_singleton.mp h]
    exact Or.inr ⟨rfl, trivial, _, rfl, Or.inr rfl⟩
  case h_4 | h_5 | h_7 | h_8 =>
    rw [List.mem_singleton.mp h]
    exact Or.inr ⟨rfl, trivial, _, rfl, Or.inl rfl⟩
  case h_1 | h_9 =>
    rw [List.mem_singleton.mp h]
    exact Or.inl rfl
  case h_10 => cases h

/-- A message is returned from the group the route is of. -/
theorem groupId_of_written (hid : Spells id g) {op : Operation} {m : Selected}
    (h : (serve env userId id op w).2 = .http (.ok (.message m))) (hop : op.Writes) :
    m.message.groupId = g := by
  rcases serve_writes hop w with ⟨e, hthrown⟩ | ⟨g', after, m', hid', -, hwrote, hanswered⟩
  · rw [hthrown] at h
    cases h
  · rw [hanswered] at h
    cases h
    rw [hwrote.frame.2]
    exact Option.some.inj (hid'.2.symm.trans hid.2)

/-- **A message is announced in the group it was sent to.** -/
theorem groupId_of_announced (hid : Spells id g) {op : Operation} (hop : op.Announces)
    {m : Selected} (h : (serve env userId id op w).2 = .http (.ok (.message m)) ∨
      (serve env userId id op w).2 = .sent (.ok m)) : m.message.groupId = g := by
  cases op with
  | create | upload | edit | remove =>
    exact groupId_of_written hid (h.resolve_right nofun) trivial
  | sendMessage content =>
    rw [serve_sendMessage] at h
    cases hsent : Messages.sendMessage w.records.tables userId (some id) content with
    | error message => simp [hsent] at h
    | ok send =>
      rw [hsent] at h
      dsimp only at h
      cases hcreated : createMessage env w.records send none with
      | error e => simp [hcreated] at h
      | ok result =>
        rw [hcreated] at h
        obtain rfl := Sent.ok.inj (Answer.sent.inj (h.resolve_left nofun))
        have hsend : Spells send.groupId g := (groupId_of_sendMessage hsent).symm ▸ hid
        exact (createMessage_of_spells hsend hcreated).2.1
  | findOne | markRead | leave | transferOwnership | findPage | search | toggle | joinGroup =>
    exact False.elim hop

/-- **The events of a call are about its group.** -/
theorem Call.spells_of_mem_events {c : Call} (hnames : c.Names g)
    (he : e ∈ c.events (serveCall c w).2) : Spells e.groupId g := by
  cases c with
  | create validator userId body new => exact absurd hnames id
  | join userId id memberId now =>
    have hid : Spells id g := hnames
    have hreply : (serveCall (.join userId id memberId now) w).2 =
        .group ((joinRoute userId id memberId now).respond w).2 := rfl
    rw [hreply] at he
    cases hjoined : ((joinRoute userId id memberId now).respond w).2 with
    | error thrown =>
      rw [hjoined] at he
      cases he
    | ok group =>
      rw [hjoined, Call.events, hid.2] at he
      rw [List.mem_singleton.mp he]
      exact hid
  | operation env userId id op =>
    have hid : Spells id g := hnames
    rcases Operation.groupId_of_mem_events he with hgroup | ⟨-, hop, m, hgroup, hanswer⟩
    · exact hgroup.symm ▸ hid
    · rw [hgroup, groupId_of_announced hid hop hanswer]
      exact spells_printUuid g

/-- Nobody is put out of the room of a group that the call does not name. -/
theorem Call.names_of_departed {c : Call} {r : Reply} (he : e ∈ c.events r)
    (hleft : departed e ≠ none) (hid : Spells e.groupId g) : c.Names g := by
  cases c with
  | create validator userId body new => cases r <;> cases he
  | join userId id memberId now =>
    cases r with
    | served answer => cases he
    | group response =>
      cases response with
      | error thrown => cases he
      | ok group =>
        cases hread : readUuid id with
        | none =>
          rw [Call.events, hread] at he
          cases he
        | some g' =>
          rw [Call.events, hread] at he
          rw [List.mem_singleton.mp he] at hleft
          exact absurd rfl hleft
  | operation env userId id op =>
    cases r with
    | group response => cases he
    | served answer =>
      rcases Operation.groupId_of_mem_events he with hgroup | ⟨hstays, -⟩
      · exact (hgroup ▸ hid : Spells id g)
      · exact absurd hstays hleft

/-! ## Acts -/

/-- The rooms of the group, when the events of a call have been listened to. -/
theorem foldl_onEvent_only (events : List BusEvent) (rooms : List (Socket × String)) :
    (events.foldl (onEvent userOf) rooms).filter (fun x => IsRoomOf g x.2) =
      events.foldl (onEvent userOf) (rooms.filter fun x => IsRoomOf g x.2) := by
  rw [foldl_onEvent, foldl_onEvent, filter_comm]

/-- The events of a call that names another group put nobody out of the rooms of this one. -/
theorem foldl_onEvent_of_not_names {c : Call} (hother : ¬c.Names g) (r : Reply)
    {rooms : List (Socket × String)} (hrooms : ∀ x ∈ rooms, IsRoomOf g x.2) :
    (c.events r).foldl (onEvent userOf) rooms = rooms := by
  rw [foldl_onEvent, List.filter_eq_self]
  intro x hx
  refine decide_eq_true fun e he hleft hroom => hother ?_
  have hid : Spells e.groupId g := isRoomOf_roomFor.mp (hroom ▸ hrooms x hx)
  exact Call.names_of_departed he (by rw [hleft]; exact Option.some_ne_none _) hid

/-- **What a call does to the rooms and rows of the group it names**, and what is sent. -/
theorem observe_call_of_names {c : Call} (hmine : c.Names g)
    (hown : serveCall c (w.only g) = ((serveCall c w).1.only g, (serveCall c w).2)) :
    observe userOf (.call c) (w.only g) =
      ((observe userOf (.call c) w).1.only g, (observe userOf (.call c) w).2) := by
  have hsent : (c.events (serveCall c w).2).map (deliver ((serveCall c w).1.only g).rooms) =
      (c.events (serveCall c w).2).map (deliver (serveCall c w).1.rooms) :=
    List.map_congr_left fun e he => deliver_only (Call.spells_of_mem_events hmine he) _
  unfold observe Act.reply perform
  dsimp only
  rw [hown]
  dsimp only
  rw [hsent]
  unfold World.only
  dsimp only
  rw [foldl_onEvent_only]

theorem only_observe_call_of_not_names {c : Call} (hother : ¬c.Names g)
    (hsame : (serveCall c w).1.only g = w.only g) :
    (observe userOf (.call c) w).1.only g = w.only g := by
  obtain ⟨hrecords, hrooms⟩ := World.mk.inj hsame
  unfold observe perform
  dsimp only
  unfold World.only
  dsimp only
  rw [hrecords, foldl_onEvent_only, hrooms,
    foldl_onEvent_of_not_names hother _ fun x hx => of_decide_eq_true (List.mem_filter.mp hx).2]

/-- **The groups do not touch**, as long as the ids are new and the group is not created. -/
theorem separate_observe (userOf : Socket → Uuid) (g : Uuid) :
    Separate (observe userOf)
      (fun a w => (∀ id ∈ a.newIds, ¬w.records.Uses id) ∧ a.creates ≠ some g)
      (Act.Names g) (World.only · g) where
  others a w hok hother := by
    cases a with
    | call c =>
      exact only_observe_call_of_not_names hother ((separate_serveCall g).others c w hok hother)
    | leaveGroup socket groupId =>
      unfold observe perform
      dsimp only
      split
      · rfl
      · next id hnamed =>
        obtain ⟨hid, -⟩ := Option.filter_eq_some_iff.mp hnamed
        exact congrArg (World.mk (w.records.only g))
          (leaveRoom_only_of_ne (fun h => hother ⟨id, hid, h⟩) w.rooms)
    | typing socket groupId typing =>
      unfold observe perform
      dsimp only
      split <;> rfl
    | publish message => rfl
    | disconnect socket => exact absurd trivial hother
  own a w hok hmine := by
    cases a with
    | call c => exact observe_call_of_names hmine ((separate_serveCall g).own c w hok hmine)
    | leaveGroup socket groupId =>
      unfold observe perform
      dsimp only
      split
      · rfl
      · next id hnamed =>
        exact congrArg (fun rooms => (World.mk (w.records.only g) rooms, Outcome.mk none []))
          (filter_comm _ _ w.rooms)
    | typing socket groupId typing =>
      obtain ⟨id, hid, hspells⟩ := hmine
      obtain rfl := Option.mem_def.mp hid
      unfold observe perform
      dsimp only
      rw [show (w.only g).rooms = w.rooms.filter fun x => IsRoomOf g x.2 from rfl,
        relayTyping_only hspells]
      cases hrelayed : relayTyping (roomsOf w.rooms socket) (printUuid (userOf socket)) (some id)
          typing with
      | none => rfl
      | some e =>
        have hgroup : e.groupId = id := by
          unfold relayTyping at hrelayed
          dsimp only at hrelayed
          split_ifs at hrelayed
          exact (congrArg Client.Typing.TypingEvent.groupId (Option.some.inj hrelayed)).symm
        dsimp only
        rw [hgroup, socketsIn_only hspells]
        rfl
    | publish message =>
      have hid : Spells (BusEvent.messageCreated message).groupId g := by
        obtain rfl : message.groupId = g := hmine
        exact spells_printUuid message.groupId
      unfold observe perform
      dsimp only
      rw [show (w.only g).rooms = w.rooms.filter fun x => IsRoomOf g x.2 from rfl, deliver_only hid]
      rfl
    | disconnect socket =>
      exact congrArg (fun rooms => (World.mk (w.records.only g) rooms, Outcome.mk none []))
        (filter_comm _ _ w.rooms)

/-- An act puts no ids into the database but those it brings along. -/
theorem uses_observe (a : Act) (w : World) (hnew : ∀ id ∈ a.newIds, ¬w.records.Uses id) (x : Uuid)
    (huses : (observe userOf a w).1.records.Uses x) : w.records.Uses x ∨ x ∈ a.newIds := by
  cases a with
  | call c => exact uses_serveCall c w hnew x huses
  | leaveGroup socket groupId =>
    unfold observe perform at huses
    dsimp only at huses
    split at huses <;> exact Or.inl huses
  | typing socket groupId typing =>
    unfold observe perform at huses
    dsimp only at huses
    split at huses <;> exact Or.inl huses
  | publish message => exact Or.inl huses
  | disconnect socket => exact Or.inl huses

/-- **A group lives as if it were alone.**  Let there be any acts about any groups, with ids that
are new, none of which creates this group.  Those that concern the group are answered, and send
what they send to whom they send it, as they would in a database that holds the group and nothing
else, if nothing else were done, and the group and its rooms end up as they would there. -/
theorem groups_are_independent (userOf : Socket → Uuid) (g : Uuid) (acts : List Act) (w : World)
    (hdistinct : (acts.flatMap Act.newIds).Nodup)
    (hnew : ∀ id ∈ acts.flatMap Act.newIds, ¬w.records.Uses id)
    (hcreates : ∀ a ∈ acts, a.creates ≠ some g) :
    serveAll (observe userOf) (acts.filter (Act.Names g)) (w.only g) =
      ((serveAll (observe userOf) acts w).1.only g,
        answersTo (Act.Names g) acts (serveAll (observe userOf) acts w).2) := by
  have hfresh : AllAsked (observe userOf) (fun a w => ∀ id ∈ a.newIds, ¬w.records.Uses id) acts w :=
    allAsked_of_fresh (fun a w hnew x => uses_observe a w hnew x) hdistinct hnew
  exact (separate_observe userOf g).serveAll (hfresh.and_of_mem hcreates)

/-- While a group is created and another one joined, a member types, leaves and is put out. -/
def mixedActs : List Act :=
  [ .call (.create sequenceValidator 7 (.ok (some (JsString.ofString "b"))) ⟨50, 51, epoch, epoch⟩),
    .typing 1 (some (printUuid 2)) true,
    .call (.join 7 (printUuid 2) 52 epoch),
    memberLeaves,
    .disconnect 3 ]

theorem uses_busyWorld {x : Uuid} (h : busyWorld.records.Uses x) :
    x = 2 ∨ x = 10 ∨ x = 11 ∨ x = 30 := by
  cases h with
  | group y hy hx =>
    rw [← hx, group_mem_twoRows.mp hy]
    exact Or.inl rfl
  | member r hr hx =>
    rcases member_mem_twoRows.mp hr with rfl | rfl
    · exact Or.inr (Or.inl hx.symm)
    · exact Or.inr (Or.inr (Or.inl hx.symm))
  | message m hm hx =>
    rcases Table.mem_put.mp hm with rfl | ⟨hm, -⟩
    · exact Or.inr (Or.inr (Or.inr hx.symm))
    · exact absurd hm List.not_mem_nil
  | reaction y hy hx => exact absurd hy List.not_mem_nil

/-- The new group is nothing to the old one, whose room is empty in the end. -/
theorem groups_are_independent_busyWorld :
    (busyWorld.only 2).rooms.length = 1 ∧
      (serveAll (observe seatOf) mixedActs busyWorld).1.rooms = [] ∧
      serveAll (observe seatOf) (mixedActs.filter (Act.Names 2)) (busyWorld.only 2) =
        ((serveAll (observe seatOf) mixedActs busyWorld).1.only 2,
          answersTo (Act.Names 2) mixedActs (serveAll (observe seatOf) mixedActs busyWorld).2) := by
  refine ⟨by decide +kernel, by decide +kernel,
    groups_are_independent seatOf 2 mixedActs busyWorld (by decide) (fun x hx huses => ?_)
      fun a ha => ?_⟩
  · have hids : x ∈ [50, 51, 52, 43] := hx
    rcases uses_busyWorld huses with rfl | rfl | rfl | rfl <;> revert hids <;> decide
  · have hcases : a.creates = some 50 ∨ a.creates = none := by
      simp only [mixedActs, List.mem_cons, List.not_mem_nil, or_false] at ha
      rcases ha with rfl | rfl | rfl | rfl | rfl <;>
        simp [Act.creates, Call.creates, memberLeaves]
    rcases hcases with h | h <;> rw [h] <;> decide

end Api
end GroupChat

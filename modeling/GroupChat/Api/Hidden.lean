import GroupChat.Api.Operations

/-!
# Who is not a member learns nothing

Whether a group exists is hidden from who is not in it.  For a user and a text, whatever it
names, the states of the database in which the user is not a member of that group answer
every operation alike and stay as they are, so the user cannot tell a group that is there
from one that is not.

The answer is the refusal of the membership rule, which is one for a text that is no id, for
a group that does not exist and for a group of others (`assertMember_of_notMember`).  The
routes meet it before they look at anything else of the request.  `send_message` looks at
its content first, but at nothing in the database.
-/

namespace GroupChat
namespace Api

open Chat (assertMember)
open Common Database Groups Messages Transition

variable {env : Env} {userId : Uuid} {id : String} {w w' : World}

/-! ## Refusals -/

/-- The user is not a member of the group the text names, if it names one. -/
def NotMember (userId : Uuid) (id : String) (w : World) : Prop :=
  ∀ g, Spells id g → ∀ me, ¬IsMembership w.records g userId me

/-- **One refusal for every reason.** -/
theorem assertMember_of_notMember (h : NotMember userId id w) :
    assertMember w.records.tables userId id = .error (.forbidden notAMemberMessage) := by
  unfold assertMember
  split_ifs with hid
  · cases hread : readUuid id with
    | none => rfl
    | some g =>
      have hnone : membership w.records.tables g userId = none := by
        rw [Option.eq_none_iff_forall_ne_some]
        intro me hme
        exact h g ⟨hid, hread⟩ me (membership_eq_some_iff.mp hme)
      rw [Option.bind_some, hnone]
  · rfl

/-- The guard of every route refuses. -/
theorem respond_memberRoute_of_notMember {A : Type} {pipes : Except Thrown A}
    {handler : A → Records → Except Thrown (Records × Payload)} (h : NotMember userId id w) :
    respond (memberRoute userId id pipes handler) w =
      (w, .http (.error (.exception (.forbidden notAMemberMessage)))) := by
  have hrefused : (memberRoute userId id pipes handler).guard w =
      .error (.exception (.forbidden notAMemberMessage)) := by
    show throwing ((assertMember w.records.tables userId id).map fun _ => ()) = _
    rw [assertMember_of_notMember h]
    rfl
  unfold respond
  rw [Guarded.respond_of_refused hrefused]

/-- What a user who is not a member is answered. -/
def refusal : Operation → Answer
  | .joinGroup _ => .joined (.error notAMemberMessage)
  | .sendMessage content =>
    match checkContent content with
    | .error message => .sent (.error message)
    | .ok _ => .sent (.error notAMemberMessage)
  | _ => .http (.error (.exception (.forbidden notAMemberMessage)))

/-- **The answer does not depend on the database**, and the operation changes nothing. -/
theorem serve_of_notMember (h : NotMember userId id w) (op : Operation) :
    serve env userId id op w = (w, refusal op) := by
  cases op with
  | joinGroup socket =>
    unfold serve Chat.joinGroup
    simp only [Option.getD_some, assertMember_of_notMember h]
    rfl
  | sendMessage content =>
    unfold serve Messages.sendMessage refusal
    simp only [Option.getD_some, assertMember_of_notMember h]
    cases checkContent content with
    | error message => rfl
    | ok content => rfl
  | findOne => exact respond_memberRoute_of_notMember h
  | markRead => exact respond_memberRoute_of_notMember h
  | leave => exact respond_memberRoute_of_notMember h
  | transferOwnership body => exact respond_memberRoute_of_notMember h
  | create body => exact respond_memberRoute_of_notMember h
  | findPage query => exact respond_memberRoute_of_notMember h
  | search query => exact respond_memberRoute_of_notMember h
  | upload form => exact respond_memberRoute_of_notMember h
  | edit messageId body => exact respond_memberRoute_of_notMember h
  | remove messageId => exact respond_memberRoute_of_notMember h
  | toggle messageId body => exact respond_memberRoute_of_notMember h

/-! ## Two states of the database -/

/-- One operation with what it takes from outside. -/
def ask (userId : Uuid) (id : String) (call : Env × Operation) (w : World) : World × Answer :=
  serve call.1 userId id call.2 w

theorem blind_ask (userId : Uuid) (id : String) :
    Blind (ask userId id) (fun _ => True) (NotMember userId id) :=
  fun call _ => ⟨refusal call.2, fun _ h => serve_of_notMember h call.2⟩

/-- **Whether a group exists is not leaked**: two states in which the user is not a member
answer an operation alike, and neither of them changes. -/
theorem existence_is_hidden (env : Env) (userId : Uuid) (id : String) (op : Operation)
    (w w' : World) (h : NotMember userId id w) (h' : NotMember userId id w') :
    (serve env userId id op w).2 = (serve env userId id op w').2 ∧
      (serve env userId id op w).1 = w ∧ (serve env userId id op w').1 = w' :=
  (blind_ask userId id).same (i := (env, op)) trivial h h'

/-- **Nor by asking more**: two such states answer every list of operations alike. -/
theorem existence_stays_hidden (userId : Uuid) (id : String) (calls : List (Env × Operation))
    (h : NotMember userId id w) (h' : NotMember userId id w') :
    (serveAll (ask userId id) calls w).2 = (serveAll (ask userId id) calls w').2 ∧
      (serveAll (ask userId id) calls w).1 = w ∧ (serveAll (ask userId id) calls w').1 = w' :=
  (blind_ask userId id).serveAll.same (i := calls) (fun _ _ => trivial) h h'

/-! ## A group and its absence -/

/-- A platform that finds nothing wrong with a request. -/
def plainEnv : Env where
  host := ⟨fun _ => none, fun _ => none⟩
  validator := Text.sequenceValidator
  now := epoch
  id := 40
  limit _ := .ok 20
  isUUID := isUuid
  singleEmoji _ := true
  contains _ _ := true
  parseFile file := file.elim (.error "File is required") .ok
  upload id file := .ok ⟨id, file.originalname, file.mimetype⟩

/-- Nothing is stored. -/
def emptyWorld : World := ⟨Records.empty, []⟩

/-- A group with two members and a message. -/
def busyWorld : World where
  records := twoMembers.putMessage
    ⟨30, 2, some 6, "hello", .user, epoch, none, none, none, none, none⟩ rfl rfl
  rooms := [(1, Chat.roomFor (printUuid 2))]

theorem notMember_emptyWorld : NotMember 7 id emptyWorld :=
  fun _ _ _ hme => absurd hme.mem List.not_mem_nil

theorem notMember_busyWorld : NotMember 7 id busyWorld := by
  intro g hg me hme
  have huser : me.userId = 7 := hme.userId_eq
  rcases member_mem_twoRows.mp hme.mem with rfl | rfl
  · exact absurd huser (by decide)
  · exact absurd huser (by decide)

/-- A search in the group finds what a search where it is absent finds. -/
theorem existence_is_hidden_busyWorld :
    (serve plainEnv 7 "00000000-0000-0000-0000-000000000002"
        (.search (.ok (some (Text.JsString.ofString "hello")))) emptyWorld).2 =
      (serve plainEnv 7 "00000000-0000-0000-0000-000000000002"
        (.search (.ok (some (Text.JsString.ofString "hello")))) busyWorld).2 ∧
    (serve plainEnv 7 "00000000-0000-0000-0000-000000000002"
      (.search (.ok (some (Text.JsString.ofString "hello")))) emptyWorld).1 = emptyWorld ∧
    (serve plainEnv 7 "00000000-0000-0000-0000-000000000002"
      (.search (.ok (some (Text.JsString.ofString "hello")))) busyWorld).1 = busyWorld :=
  existence_is_hidden plainEnv 7 _ _ emptyWorld busyWorld notMember_emptyWorld notMember_busyWorld

/-! ## Who is a member -/

/-- **A member is shown the group.**  The group of a membership is always there, so the
detail of a group is never missing. -/
theorem serve_findOne_of_member {g : Uuid} {me : GroupMember} (hid : Spells id g)
    (h : IsMembership w.records g userId me) :
    ∃ group members, serve env userId id .findOne w = (w, .http (.ok (.group group members))) ∧
      group.id = g ∧ me ∈ members := by
  have hmember : assertMember w.records.tables userId id = .ok me :=
    Chat.assertMember_of_spells hid (membership_eq_some_iff.mpr h)
  have hpipe : idPipe id = .ok id := by
    unfold idPipe parseUuidPipe
    rw [if_pos hid.1]
    rfl
  obtain ⟨group, hgroup, hkey⟩ := w.records.constraints.memberGroup me h.mem
  have hfound : groupById w.records.tables g = some group := by
    have hlookup := Table.find?_of_mem hgroup
    rw [Row.key_group, hkey, h.groupId_eq] at hlookup
    rw [groupById, hlookup]
    rfl
  have hdetail : ∃ members, findOne w.records g = .ok (.group group members) ∧ me ∈ members := by
    refine ⟨_, by rw [findOne, hfound], ?_⟩
    rw [List.mem_insertionSort, List.mem_filter, mem_membersOf]
    exact ⟨h.mem, decide_eq_true h.groupId_eq⟩
  obtain ⟨members, hdetail, hme⟩ := hdetail
  refine ⟨group, members, ?_, hkey.trans h.groupId_eq, hme⟩
  simp [serve, respond, Guarded.respond, memberRoute, hmember, hpipe, throwing, columnUuid, hid.2,
    hdetail, Except.map, Except.mapError, bind, Except.bind, pure, Except.pure]

/-- **Exactly who is not a member is refused.** -/
theorem serve_findOne_eq_refusal_iff :
    serve env userId id .findOne w = (w, refusal .findOne) ↔ NotMember userId id w := by
  refine ⟨fun hrefused g hid me h => ?_, fun h => serve_of_notMember h .findOne⟩
  obtain ⟨group, members, hshown, -⟩ := @serve_findOne_of_member env userId id w g me hid h
  rw [hshown] at hrefused
  cases (Prod.mk.inj hrefused).2

end Api
end GroupChat

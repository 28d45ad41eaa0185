import GroupChat.Api.Hidden
import GroupChat.Groups.Confined
import GroupChat.Transition.Parts

/-!
# What a call touches

`Call` is what a client may ask about groups: an operation on a group, a request to join one, and
a request to create one.  A call reads and writes nothing but the rows and the rooms of the group
it names (`local_serve`, `separate_serveCall`), provided that the ids it creates rows under are
new, and puts no ids into the database but these (`uses_serveCall`).
-/

namespace GroupChat
namespace Api

open Chat (Socket assertMember groupIdFromRoom groupIdFromRoom_roomFor roomFor)
open Common Database Groups Messages Text Transition
open Messages.Reactions (Toggle)

variable {env : Env} {validator : Validator} {userId g k : Uuid} {id : String} {w : World}
  {new : List Uuid}

/-! ## Calls -/

def GROUP_NAME_MAX_LENGTH : ℕ := 80

/-- `CreateGroupDto` -/
def createGroupDto (validator : Validator) (name : Option JsString) : Fields JsString :=
  match name with
  | none =>
    .error ["name must be shorter than or equal to 80 characters", "Group name cannot be empty",
      "name must be a string"]
  | some name =>
    let name := name.trim
    if validator.length name < 1 then .error ["Group name cannot be empty"]
    else if GROUP_NAME_MAX_LENGTH < validator.length name then
      .error ["name must be shorter than or equal to 80 characters"]
    else .ok name

/-- A route without a guard of its own. -/
def openRoute {A B : Type} (pipes : Except Thrown A)
    (handler : A → Records → Except Thrown (Records × B)) : Guarded World A B Thrown where
  guard _ := .ok ()
  pipes := pipes
  handler a w := (handler a w.records).map fun result => (⟨result.1, w.rooms⟩, result.2)

/-- What a client may ask about groups. -/
inductive Call where
  | operation (env : Env) (userId : Uuid) (id : String) (operation : Operation)
  /-- `POST /groups/:id/join`, with the id and the time of the new row. -/
  | join (userId : Uuid) (id : String) (memberId : Uuid) (now : Instant)
  /-- `POST /groups` -/
  | create (validator : Validator) (userId : Uuid) (body : Fields (Option JsString))
    (new : Defaults)

inductive Reply where
  | served (answer : Answer)
  | group (response : Except Thrown Group)

/-- `GroupsController.join` -/
def joinRoute (userId : Uuid) (id : String) (memberId : Uuid) (now : Instant) :
    Guarded World String Group Thrown :=
  openRoute (idPipe id) fun id d => do
    let groupId ← columnUuid id
    let joined ← throwing (Groups.join d userId groupId memberId now)
    return (joined.records, joined.group)

/-- `GroupsController.create` -/
def createRoute (validator : Validator) (userId : Uuid) (body : Fields (Option JsString))
    (new : Defaults) : Guarded World JsString Group Thrown :=
  openRoute (validate (createGroupDto validator) body) fun name d => do
    let name ← columnText name
    throwing (Groups.create d userId name new)

/-- A client is replied to. -/
def reply {B : Type} (wrap : B → Reply) (served : World × B) : World × Reply :=
  (served.1, wrap served.2)

def serveCall : Call → World → World × Reply
  | .operation env userId id op, w => reply .served (serve env userId id op w)
  | .join userId id memberId now, w =>
    reply .group ((joinRoute userId id memberId now).respond w)
  | .create validator userId body new, w =>
    reply .group ((createRoute validator userId body new).respond w)

/-- The call names the group.  To create a group is to name none. -/
def Call.Names (g : Uuid) : Call → Prop
  | .operation _ _ id _ => Spells id g
  | .join _ id _ _ => Spells id g
  | .create .. => False

instance (g : Uuid) : DecidablePred (Call.Names g)
  | .operation _ _ id _ => inferInstanceAs (Decidable (Spells id g))
  | .join _ id _ _ => inferInstanceAs (Decidable (Spells id g))
  | .create .. => isFalse fun h => h

/-- The ids the call has for the rows it creates. -/
def Call.newIds : Call → List Uuid
  | .operation env _ _ _ => [env.id]
  | .join _ _ memberId _ => [memberId]
  | .create _ _ _ new => [new.groupId, new.memberId]

/-- The group the call creates. -/
def Call.creates : Call → Option Uuid
  | .create _ _ _ new => some new.groupId
  | _ => none

/-! ## One group of the world -/

/-- The room is the group's, under one of the texts that name it. -/
def IsRoomOf (g : Uuid) (room : String) : Prop := ∃ id ∈ groupIdFromRoom room, Spells id g

instance (g : Uuid) : DecidablePred (IsRoomOf g) := fun room =>
  inferInstanceAs (Decidable (∃ id ∈ groupIdFromRoom room, Spells id g))

theorem isRoomOf_roomFor : IsRoomOf g (roomFor id) ↔ Spells id g := by
  rw [IsRoomOf, groupIdFromRoom_roomFor]
  simp

def World.only (w : World) (g : Uuid) : World :=
  ⟨w.records.only g, w.rooms.filter fun x => IsRoomOf g x.2⟩

/-- **What happens stays in the group.** -/
structure Local {B : Type} (g : Uuid) (new : List Uuid) (f : World → World × B) : Prop where
  own : ∀ w : World, (∀ id ∈ new, ¬w.records.Uses id) → f (w.only g) = ((f w).1.only g, (f w).2)
  others : ∀ (w : World) k, (∀ id ∈ new, ¬w.records.Uses id) → k ≠ g → (f w).1.only k = w.only k
  uses : ∀ (w : World) id, (∀ id ∈ new, ¬w.records.Uses id) → (f w).1.records.Uses id →
    w.records.Uses id ∨ id ∈ new

/-- A route is local if its handler is confined wherever the route gets to it. -/
theorem local_respond {A B : Type} {r : Guarded World A B Thrown}
    {handler : A → Records → Except Thrown (Records × B)}
    (hhandler : ∀ a w, r.handler a w =
      (handler a w.records).map fun result => (⟨result.1, w.rooms⟩, result.2))
    (hguard : ∀ w : World, r.guard (w.only g) = r.guard w)
    (hconfined : ∀ a, r.pipes = .ok a → Confined g new (handler a)) :
    Local g new r.respond := by
  refine ⟨fun w hw => ?_, fun w k hw hne => ?_, fun w id hw huses => ?_⟩
  · unfold Guarded.respond
    rw [hguard w]
    cases r.guard w with
    | error e => rfl
    | ok _ =>
      cases hpipes : r.pipes with
      | error e => rfl
      | ok a =>
        have hown := (hconfined a hpipes).own w.records hw
        dsimp only
        rw [hhandler, hhandler, show (w.only g).records = w.records.only g from rfl, hown]
        cases handler a w.records <;> rfl
  · unfold Guarded.respond
    cases r.guard w with
    | error e => rfl
    | ok _ =>
      cases hpipes : r.pipes with
      | error e => rfl
      | ok a =>
        dsimp only
        rw [hhandler]
        cases hcall : handler a w.records with
        | error e => rfl
        | ok result =>
          have hothers := (hconfined a hpipes).others w.records k result.1 result.2 hw hne hcall
          exact congrArg (World.mk · (w.rooms.filter fun x => IsRoomOf k x.2)) hothers
  · unfold Guarded.respond at huses
    cases hguarded : r.guard w with
    | error e =>
      rw [hguarded] at huses
      exact Or.inl huses
    | ok _ =>
      cases hpipes : r.pipes with
      | error e =>
        rw [hguarded, hpipes] at huses
        exact Or.inl huses
      | ok a =>
        rw [hguarded, hpipes] at huses
        dsimp only at huses
        rw [hhandler] at huses
        cases hcall : handler a w.records with
        | error e =>
          rw [hcall] at huses
          exact Or.inl huses
        | ok result =>
          rw [hcall] at huses
          exact (hconfined a hpipes).uses w.records result.1 result.2 id hw hcall huses

theorem Local.reply {B : Type} {f : World → World × B} (h : Local g new f) (wrap : B → Reply) :
    Local g new fun w => reply wrap (f w) := by
  refine ⟨fun w hw => ?_, h.others, h.uses⟩
  rw [h.own w hw]
  rfl

/-! ## Handlers -/

theorem columnUuid_of_spells (hid : Spells id g) : columnUuid id = .ok g := by
  rw [columnUuid, hid.2]
  rfl

theorem findOne_only {d : Records} : findOne (d.only g) g = findOne d g := by
  unfold findOne
  rw [groupById_only, filter_membersOf_only _ fun _ h => of_decide_eq_true h]

theorem search_only {d : Records} (env : Env) (q : String) :
    search env (d.only g) g q = search env d g q := by
  unfold search
  rw [filter_messages_only _ fun _ h => (of_decide_eq_true h).1]

/-- A message of a page is in the group. -/
theorem mem_of_mem_findMany {d : Records} {position : Option Position} {take : ℕ} {m : Message}
    (h : m ∈ findMany d.messages g position take) : m ∈ d.messages ∧ m.groupId = g := by
  have hcandidate : m ∈ candidates d.messages g position := List.mem_of_mem_take h
  rw [candidates, List.mem_insertionSort, List.mem_filter, decide_eq_true_eq] at hcandidate
  exact ⟨hcandidate.1, hcandidate.2.1⟩

theorem mem_of_mem_search {d : Records} {q : String} {m : Message} (h : m ∈ search env d g q) :
    m ∈ d.messages ∧ m.groupId = g := by
  have hcandidate := List.mem_of_mem_take h
  rw [List.mem_insertionSort, List.mem_filter, decide_eq_true_eq] at hcandidate
  exact ⟨hcandidate.1, hcandidate.2.1⟩

/-- Messages of the group are shown alike. -/
theorem map_select_only {d : Records} {ms : List Message}
    (h : ∀ m ∈ ms, m ∈ d.messages ∧ m.groupId = g) :
    ms.map (d.only g).select = ms.map d.select :=
  List.map_congr_left fun m hm => select_only (h m hm).1 (h m hm).2

theorem mem_of_mem_pageOf {limit : ℕ} {rows : List Message} {m : Message}
    (h : m ∈ (pageOf limit rows).data) : m ∈ rows := by
  unfold pageOf at h
  dsimp only at h
  split_ifs at h
  · exact List.mem_of_mem_take h
  · exact h

theorem mem_of_mem_page {d : Records} {host : Host} {limit : PageSize} {cursor : Option JsString}
    {page : Page} {m : Message} (h : Messages.findPage host d.messages g limit cursor = .ok page)
    (hm : m ∈ page.data) : m ∈ d.messages ∧ m.groupId = g := by
  unfold Messages.findPage at h
  split at h
  · cases h
  · rw [← Except.ok.inj h] at hm
    exact mem_of_mem_findMany (mem_of_mem_pageOf hm)

theorem findPage_only {d : Records} (host : Host) (limit : PageSize) (cursor : Option JsString) :
    findPage host (d.only g).messages g limit cursor = findPage host d.messages g limit cursor := by
  unfold findPage findMany
  simp only [candidates_only]

theorem confined_markRead (userId g : Uuid) (now : Instant) :
    Confined g [] fun d => markRead d userId g now := by
  refine .of_after (fun d _ => ?_) fun d after a _ h => ?_
  · unfold markRead
    rw [membership_only]
    cases membership d.tables g userId with
    | none => rfl
    | some me =>
      dsimp only
      rw [← only_updateMember]
      rfl
  · unfold markRead at h
    split at h
    · cases h
    · next me hfound =>
      obtain ⟨rfl, -⟩ := Prod.mk.inj (Except.ok.inj h)
      obtain ⟨hme, hgroup, -⟩ := membership_eq_some hfound
      exact ⟨fun k hne => only_updateMember_of_ne hme (hgroup.trans_ne hne.symm) _,
        fun id huses => Or.inl huses.of_updateMember⟩

theorem confined_send {send : Send} (hid : Spells send.groupId g) (attachment : Option Attachment) :
    Confined g [env.id] fun d => createMessage env d send attachment := by
  unfold createMessage
  rw [columnUuid_of_spells hid]
  refine Confined.bind (x := columnText send.content) fun content _ => ?_
  exact (confined_createMessage ⟨g, some send.senderId, content, .user, attachment⟩ rfl
    env.id env.now).mapError Thrown.exception

/-! ## The operations -/

theorem eq_of_idPipe {id' : String} (h : idPipe id = .ok id') : id' = id := by
  unfold idPipe parseUuidPipe at h
  split_ifs at h
  · exact (Except.ok.inj h).symm
  · cases h

/-- A step of a pipeline that comes to an end. -/
theorem exists_of_bind {E A B : Type} {x : Except E A} {f : A → Except E B} {b : B}
    (h : x.bind f = .ok b) : ∃ a, x = .ok a ∧ f a = .ok b := by
  cases x with
  | error e => cases h
  | ok a => exact ⟨a, rfl, h⟩

theorem assertMember_only (hid : Spells id g) (w : World) :
    assertMember (w.only g).records.tables userId id = assertMember w.records.tables userId id := by
  unfold assertMember
  rw [hid.2, Option.bind_some, Option.bind_some,
    show (w.only g).records = w.records.only g from rfl, membership_only]

/-- The routes behind the guard. -/
theorem local_memberRoute {A : Type} {pipes : Except Thrown A}
    {handler : A → Records → Except Thrown (Records × Payload)} (hid : Spells id g)
    (hconfined : ∀ a, pipes = .ok a → Confined g new (handler a)) :
    Local g new fun w => respond (memberRoute userId id pipes handler) w := by
  have hguard : ∀ w : World, (memberRoute userId id pipes handler).guard (w.only g) =
      (memberRoute userId id pipes handler).guard w := by
    intro w
    show throwing ((assertMember (w.only g).records.tables userId id).map _) = _
    rw [assertMember_only hid w]
    rfl
  have hlocal : Local g new (memberRoute userId id pipes handler).respond :=
    local_respond (fun _ _ => rfl) hguard hconfined
  refine ⟨fun w hw => ?_, hlocal.others, hlocal.uses⟩
  unfold respond
  rw [hlocal.own w hw]

theorem local_joinGroup (hid : Spells id g) (socket : Socket) :
    Local g new (serve env userId id (.joinGroup socket)) := by
  have hroom : IsRoomOf g (roomFor id) := isRoomOf_roomFor.mpr hid
  refine ⟨fun w _ => ?_, fun w k _ hne => ?_, fun w id' _ huses => Or.inl ?_⟩
  · unfold serve Chat.joinGroup
    dsimp only [Option.getD_some]
    rw [assertMember_only hid w]
    cases assertMember w.records.tables userId id with
    | error e => cases e <;> rfl
    | ok me =>
      have hkeep : ((socket, roomFor id) :: w.rooms).filter (fun x => decide (IsRoomOf g x.2)) =
          (socket, roomFor id) :: w.rooms.filter fun x => decide (IsRoomOf g x.2) :=
        List.filter_cons_of_pos (decide_eq_true hroom)
      dsimp only [World.only]
      rw [hkeep]
  · have hother : ¬IsRoomOf k (roomFor id) := fun h =>
      hne (Option.some.inj ((isRoomOf_roomFor.mp h).2.symm.trans hid.2))
    unfold serve Chat.joinGroup
    dsimp only [Option.getD_some]
    cases assertMember w.records.tables userId id with
    | error e => cases e <;> rfl
    | ok me =>
      have hdrop : ((socket, roomFor id) :: w.rooms).filter (fun x => decide (IsRoomOf k x.2)) =
          w.rooms.filter fun x => decide (IsRoomOf k x.2) :=
        List.filter_cons_of_neg fun h => hother (of_decide_eq_true h)
      dsimp only [World.only]
      rw [hdrop]
  · exact huses

theorem serve_sendMessage (content : Option JsString) (w : World) :
    serve env userId id (.sendMessage content) w =
      match Messages.sendMessage w.records.tables userId (some id) content with
      | .error message => (w, .sent (.error message))
      | .ok send =>
        match createMessage env w.records send none with
        | .error e => (w, .sent (.thrown e))
        | .ok (d, m) => (⟨d, w.rooms⟩, .sent (.ok m)) :=
  rfl

theorem local_sendMessage (hid : Spells id g) (content : Option JsString) :
    Local g [env.id] (serve env userId id (.sendMessage content)) := by
  have hsend : ∀ w : World, Messages.sendMessage (w.only g).records.tables userId (some id) content =
      Messages.sendMessage w.records.tables userId (some id) content := by
    intro w
    unfold Messages.sendMessage
    dsimp only [Option.getD_some]
    rw [assertMember_only hid w]
  have hgroup : ∀ {w : World} {send : Send},
      Messages.sendMessage w.records.tables userId (some id) content = .ok send →
        Spells send.groupId g := by
    intro w send h
    unfold Messages.sendMessage at h
    dsimp only [Option.getD_some] at h
    cases hcontent : checkContent content with
    | error message =>
      rw [hcontent] at h
      cases h
    | ok content' =>
      rw [hcontent] at h
      cases hmember : assertMember w.records.tables userId id with
      | error e =>
        rw [hmember] at h
        cases e <;> cases h
      | ok me =>
        rw [hmember] at h
        rw [← Except.ok.inj h]
        exact hid
  refine ⟨fun w hw => ?_, fun w k hw hne => ?_, fun w id' hw huses => ?_⟩
  · rw [serve_sendMessage, serve_sendMessage, hsend w]
    cases hsent : Messages.sendMessage w.records.tables userId (some id) content with
    | error message => rfl
    | ok send =>
      have hconfined : Confined g [env.id] fun d => createMessage env d send none :=
        confined_send (hgroup hsent) none
      have hown := hconfined.own w.records hw
      dsimp only
      rw [show (w.only g).records = w.records.only g from rfl, hown]
      cases createMessage env w.records send none <;> rfl
  · rw [serve_sendMessage]
    cases hsent : Messages.sendMessage w.records.tables userId (some id) content with
    | error message => rfl
    | ok send =>
      dsimp only
      cases hcreated : createMessage env w.records send none with
      | error e => rfl
      | ok result =>
        have hothers := (confined_send (hgroup hsent) none).others w.records k result.1 result.2 hw
          hne hcreated
        exact congrArg (World.mk · (w.rooms.filter fun x => IsRoomOf k x.2)) hothers
  · rw [serve_sendMessage] at huses
    cases hsent : Messages.sendMessage w.records.tables userId (some id) content with
    | error message =>
      rw [hsent] at huses
      exact Or.inl huses
    | ok send =>
      rw [hsent] at huses
      dsimp only at huses
      cases hcreated : createMessage env w.records send none with
      | error e =>
        rw [hcreated] at huses
        exact Or.inl huses
      | ok result =>
        rw [hcreated] at huses
        exact (confined_send (hgroup hsent) none).uses w.records result.1 result.2 id' hw hcreated
          huses

/-- **An operation stays in the group its id names.** -/
theorem local_serve (hid : Spells id g) (op : Operation) :
    Local g [env.id] (serve env userId id op) := by
  cases op with
  | findOne =>
    refine local_memberRoute hid fun id' hpipe => ?_
    rw [eq_of_idPipe hpipe, columnUuid_of_spells hid]
    exact confined_reading fun d => congrArg throwing findOne_only
  | markRead =>
    refine local_memberRoute hid fun id' hpipe => ?_
    rw [eq_of_idPipe hpipe, columnUuid_of_spells hid]
    exact ((confined_markRead userId g env.now).mapError Thrown.exception).weaken
  | leave =>
    refine local_memberRoute hid fun id' hpipe => ?_
    rw [eq_of_idPipe hpipe, columnUuid_of_spells hid]
    refine ((((confined_leave userId g).mapError Thrown.exception).map
      fun left => Payload.left left.1 left.2).congr fun d => ?_).weaken
    show (throwing (Groups.leave d userId g)).bind _ = _
    cases Groups.leave d userId g <;> rfl
  | transferOwnership body =>
    refine local_memberRoute hid fun a hpipes => ?_
    obtain ⟨id', hpipe, hpipes⟩ := exists_of_bind hpipes
    obtain ⟨target, -, hpipes⟩ := exists_of_bind hpipes
    obtain rfl := Except.ok.inj hpipes
    rw [eq_of_idPipe hpipe]
    refine ((((confined_transferOwnership hid.2 userId target).mapError Thrown.exception).map
      fun t => Payload.transferred t.1 t.2).congr fun d => ?_).weaken
    show (throwing (Groups.transferOwnership d userId id target)).bind _ = _
    cases Groups.transferOwnership d userId id target <;> rfl
  | create body =>
    refine local_memberRoute hid fun a hpipes => ?_
    obtain ⟨id', hpipe, hpipes⟩ := exists_of_bind hpipes
    obtain ⟨content, -, hpipes⟩ := exists_of_bind hpipes
    obtain rfl := Except.ok.inj hpipes
    rw [eq_of_idPipe hpipe]
    have hsend : Spells (Send.mk id userId content).groupId g := hid
    refine ((confined_send hsend none).map Payload.message).congr fun d => ?_
    show (createMessage env d ⟨id, userId, content⟩ none).bind _ = _
    cases createMessage env d ⟨id, userId, content⟩ none <;> rfl
  | findPage query =>
    refine local_memberRoute hid fun a hpipes => ?_
    obtain ⟨id', hpipe, hpipes⟩ := exists_of_bind hpipes
    obtain ⟨⟨limit, cursor⟩, -, hpipes⟩ := exists_of_bind hpipes
    obtain rfl := Except.ok.inj hpipes
    rw [eq_of_idPipe hpipe]
    let shown : Records → Except Thrown Payload := fun d =>
      (throwing (Messages.findPage env.host d.messages g limit cursor)).map
        fun page => .page (page.data.map d.select) page.pageMeta
    have hread : ∀ d : Records, shown (d.only g) = shown d := by
      intro d
      dsimp only [shown]
      rw [findPage_only]
      cases hpage : Messages.findPage env.host d.messages g limit cursor with
      | error e => rfl
      | ok page =>
        have hdata : page.data.map (d.only g).select = page.data.map d.select :=
          map_select_only fun m hm => mem_of_mem_page hpage hm
        exact congrArg (fun data => Except.ok (Payload.page data page.pageMeta)) hdata
    refine (confined_reading hread).congr fun d => ?_
    dsimp only [shown]
    rw [columnUuid_of_spells hid]
    show (throwing (Messages.findPage env.host d.messages g limit cursor)).bind _ = _
    cases Messages.findPage env.host d.messages g limit cursor <;> rfl
  | search query =>
    refine local_memberRoute hid fun a hpipes => ?_
    obtain ⟨id', hpipe, hpipes⟩ := exists_of_bind hpipes
    obtain ⟨q, -, hpipes⟩ := exists_of_bind hpipes
    obtain rfl := Except.ok.inj hpipes
    rw [eq_of_idPipe hpipe]
    dsimp only
    rw [columnUuid_of_spells hid]
    refine Confined.bind (x := columnText q) fun q _ => ?_
    let shown : Records → Except Thrown Payload := fun d =>
      .ok (.messages ((search env d g q).map d.select))
    have hread : ∀ d : Records, shown (d.only g) = shown d := by
      intro d
      dsimp only [shown]
      rw [search_only, map_select_only fun m hm => mem_of_mem_search hm]
    exact confined_reading hread
  | upload form =>
    refine local_memberRoute hid fun a hpipes => ?_
    obtain ⟨form', -, hpipes⟩ := exists_of_bind hpipes
    obtain ⟨id', hpipe, hpipes⟩ := exists_of_bind hpipes
    obtain ⟨file, -, hpipes⟩ := exists_of_bind hpipes
    obtain rfl := Except.ok.inj hpipes
    rw [eq_of_idPipe hpipe]
    refine Confined.bind (x := env.upload id file) fun stored _ => ?_
    have hsend : Spells (Send.mk id userId (form'.content.getD []).trim).groupId g := hid
    refine ((confined_send hsend (some stored)).map Payload.message).congr fun d => ?_
    show (createMessage env d ⟨id, userId, (form'.content.getD []).trim⟩ (some stored)).bind _ = _
    cases createMessage env d ⟨id, userId, (form'.content.getD []).trim⟩ (some stored) <;> rfl
  | edit messageId body =>
    refine local_memberRoute hid fun a hpipes => ?_
    obtain ⟨id', hpipe, hpipes⟩ := exists_of_bind hpipes
    obtain ⟨messageId', -, hpipes⟩ := exists_of_bind hpipes
    obtain ⟨content, -, hpipes⟩ := exists_of_bind hpipes
    obtain rfl := Except.ok.inj hpipes
    rw [eq_of_idPipe hpipe]
    dsimp only
    rw [columnUuid_of_spells hid]
    refine Confined.bind (x := columnUuid messageId') fun m _ => ?_
    refine Confined.bind (x := columnText content) fun content _ => ?_
    refine ((((confined_changeMessage g m userId (.edit content) env.now).mapError
      Thrown.exception).map Payload.message).congr fun d => ?_).weaken
    show (throwing (d.changeMessage g m userId (.edit content) env.now)).bind _ = _
    cases d.changeMessage g m userId (.edit content) env.now <;> rfl
  | remove messageId =>
    refine local_memberRoute hid fun a hpipes => ?_
    obtain ⟨id', hpipe, hpipes⟩ := exists_of_bind hpipes
    obtain ⟨messageId', -, hpipes⟩ := exists_of_bind hpipes
    obtain rfl := Except.ok.inj hpipes
    rw [eq_of_idPipe hpipe]
    dsimp only
    rw [columnUuid_of_spells hid]
    refine Confined.bind (x := columnUuid messageId') fun m _ => ?_
    refine ((((confined_changeMessage g m userId .softDelete env.now).mapError
      Thrown.exception).map Payload.message).congr fun d => ?_).weaken
    show (throwing (d.changeMessage g m userId .softDelete env.now)).bind _ = _
    cases d.changeMessage g m userId .softDelete env.now <;> rfl
  | toggle messageId body =>
    refine local_memberRoute hid fun a hpipes => ?_
    obtain ⟨id', hpipe, hpipes⟩ := exists_of_bind hpipes
    obtain ⟨messageId', -, hpipes⟩ := exists_of_bind hpipes
    obtain ⟨emoji, -, hpipes⟩ := exists_of_bind hpipes
    obtain rfl := Except.ok.inj hpipes
    rw [eq_of_idPipe hpipe]
    dsimp only
    rw [columnUuid_of_spells hid]
    refine Confined.bind (x := columnUuid messageId') fun m _ => ?_
    refine Confined.bind (x := columnText emoji) fun emoji _ => ?_
    refine (((confined_toggleReaction ⟨g, m, userId, emoji⟩ rfl env.id env.now).mapError
      Thrown.exception).map Payload.reactions).congr fun d => ?_
    show (throwing (d.toggleReaction ⟨g, m, userId, emoji⟩ env.id env.now)).bind _ = _
    cases d.toggleReaction ⟨g, m, userId, emoji⟩ env.id env.now <;> rfl
  | joinGroup socket => exact local_joinGroup hid socket
  | sendMessage content => exact local_sendMessage hid content

/-! ## Calls -/

/-- Nobody is a member of a group under a text that names none. -/
theorem serve_of_names_none (h : ∀ g, ¬Spells id g) (op : Operation) :
    serve env userId id op w = (w, refusal op) :=
  serve_of_notMember (fun g hid => absurd hid (h g)) op

theorem local_openRoute {A B : Type} {pipes : Except Thrown A}
    {handler : A → Records → Except Thrown (Records × B)}
    (hconfined : ∀ a, pipes = .ok a → Confined g new (handler a)) :
    Local g new (openRoute pipes handler).respond :=
  local_respond (fun _ _ => rfl) (fun _ => rfl) hconfined

theorem local_joinRoute (hid : Spells id g) (memberId : Uuid) (now : Instant) :
    Local g [memberId] (joinRoute userId id memberId now).respond := by
  refine local_openRoute fun id' hpipe => ?_
  rw [eq_of_idPipe hpipe, columnUuid_of_spells hid]
  refine (((confined_join userId g memberId now).mapError Thrown.exception).map
    fun joined => joined.2).congr fun d => ?_
  show (throwing (Groups.join d userId g memberId now)).bind _ = _
  cases Groups.join d userId g memberId now <;> rfl

/-- What is left of the world after a route without a guard. -/
theorem respond_openRoute {A B : Type} {pipes : Except Thrown A}
    {handler : A → Records → Except Thrown (Records × B)} (w : World) :
    ((openRoute pipes handler).respond w).1 = w ∨
      ∃ a after b, pipes = .ok a ∧ handler a w.records = .ok (after, b) ∧
        ((openRoute pipes handler).respond w).1 = ⟨after, w.rooms⟩ := by
  unfold openRoute Guarded.respond
  dsimp only
  cases pipes with
  | error e => exact Or.inl rfl
  | ok a =>
    dsimp only
    cases hhandler : handler a w.records with
    | error e => exact Or.inl rfl
    | ok result => exact Or.inr ⟨a, result.1, result.2, rfl, hhandler, rfl⟩

theorem ok_of_throwing {A : Type} {x : Except Exception A} {a : A} (h : throwing x = .ok a) :
    x = .ok a := by
  cases x with
  | error e => cases h
  | ok a' => exact congrArg _ (Except.ok.inj h)

/-- Nor can anyone join one. -/
theorem respond_joinRoute_of_names_none (h : ∀ g, ¬Spells id g) (memberId : Uuid) (now : Instant) :
    ((joinRoute userId id memberId now).respond w).1 = w := by
  refine (respond_openRoute w).resolve_right ?_
  rintro ⟨id', after, group, hpipe, hhandler, -⟩
  obtain ⟨g, hcolumn, -⟩ := exists_of_bind hhandler
  rw [eq_of_idPipe hpipe, columnUuid] at hcolumn
  cases hread : readUuid id with
  | none =>
    rw [hread] at hcolumn
    cases hcolumn
  | some g' =>
    unfold idPipe parseUuidPipe at hpipe
    split_ifs at hpipe with hid
    · exact h g' ⟨hid, hread⟩
    · cases hpipe

/-- What is left of the world after a request to create a group. -/
theorem respond_createRoute (body : Fields (Option JsString)) (defaults : Defaults) (w : World) :
    ((createRoute validator userId body defaults).respond w).1 = w ∨
      ∃ name after group, Groups.create w.records userId name defaults = .ok (after, group) ∧
        ((createRoute validator userId body defaults).respond w).1 = ⟨after, w.rooms⟩ := by
  refine (respond_openRoute w).imp_right ?_
  rintro ⟨a, after, group, -, hhandler, hafter⟩
  obtain ⟨name, -, hcreate⟩ := exists_of_bind hhandler
  exact ⟨name, after, group, ok_of_throwing hcreate, hafter⟩

/-- A text names one group at most. -/
theorem eq_of_spells (h : Spells id g) (h' : Spells id k) : k = g :=
  Option.some.inj (h'.2.symm.trans h.2)

/-- **The groups do not touch**, as long as the ids are new and the group is not created. -/
theorem separate_serveCall (g : Uuid) :
    Separate serveCall (fun c w => (∀ id ∈ c.newIds, ¬w.records.Uses id) ∧ c.creates ≠ some g)
      (Call.Names g) (World.only · g) where
  others c w hok hother := by
    cases c with
    | operation env userId id op =>
      by_cases hid : ∃ k, Spells id k
      · obtain ⟨k, hid⟩ := hid
        refine ((local_serve hid op).reply Reply.served).others w g hok.1 ?_
        rintro rfl
        exact hother hid
      · show (serve env userId id op w).1.only g = w.only g
        rw [serve_of_names_none (not_exists.mp hid)]
    | join userId id memberId now =>
      by_cases hid : ∃ k, Spells id k
      · obtain ⟨k, hid⟩ := hid
        refine ((local_joinRoute hid memberId now).reply Reply.group).others w g hok.1 ?_
        rintro rfl
        exact hother hid
      · show ((joinRoute userId id memberId now).respond w).1.only g = w.only g
        rw [respond_joinRoute_of_names_none (not_exists.mp hid)]
    | create validator userId body defaults =>
      show ((createRoute validator userId body defaults).respond w).1.only g = w.only g
      rcases respond_createRoute body defaults w with hsame | ⟨name, after, group, hcreated, hafter⟩
      · rw [hsame]
      · have hne : g ≠ defaults.groupId := by
          rintro rfl
          exact hok.2 rfl
        rw [hafter]
        exact congrArg (World.mk · (w.rooms.filter fun x => IsRoomOf g x.2))
          (only_of_create hok.1 hcreated hne)
  own c w hok hmine := by
    cases c with
    | operation env userId id op =>
      exact ((local_serve hmine op).reply Reply.served).own w hok.1
    | join userId id memberId now =>
      exact ((local_joinRoute hmine memberId now).reply Reply.group).own w hok.1
    | create validator userId body defaults => exact absurd hmine fun h => h

/-- A call puts no ids into the database but those it brings along. -/
theorem uses_serveCall (c : Call) (w : World) (hnew : ∀ id ∈ c.newIds, ¬w.records.Uses id)
    (x : Uuid) (huses : (serveCall c w).1.records.Uses x) : w.records.Uses x ∨ x ∈ c.newIds := by
  cases c with
  | operation env userId id op =>
    by_cases hid : ∃ k, Spells id k
    · obtain ⟨k, hid⟩ := hid
      exact (local_serve hid op).uses w x hnew huses
    · have hsame : (serve env userId id op w).1 = w := by
        rw [serve_of_names_none (not_exists.mp hid)]
      have huses' : (serve env userId id op w).1.records.Uses x := huses
      rw [hsame] at huses'
      exact Or.inl huses'
  | join userId id memberId now =>
    by_cases hid : ∃ k, Spells id k
    · obtain ⟨k, hid⟩ := hid
      exact (local_joinRoute hid memberId now).uses w x hnew huses
    · have huses' : ((joinRoute userId id memberId now).respond w).1.records.Uses x := huses
      rw [respond_joinRoute_of_names_none (not_exists.mp hid)] at huses'
      exact Or.inl huses'
  | create validator userId body defaults =>
    have huses' : ((createRoute validator userId body defaults).respond w).1.records.Uses x := huses
    rcases respond_createRoute body defaults w with hsame | ⟨name, after, group, hcreated, hafter⟩
    · rw [hsame] at huses'
      exact Or.inl huses'
    · rw [hafter] at huses'
      exact uses_of_create hnew hcreated huses'

end Api
end GroupChat

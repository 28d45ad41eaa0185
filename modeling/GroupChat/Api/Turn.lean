import GroupChat.Api.Independence
import GroupChat.Groups.Clubs
import GroupChat.Groups.Membership

/-!
# What a call does to a group

The services put events on the bus when they have written, and the gateway broadcasts them.
Both the events and what the call has done to the members of the groups follow from the call
and its answer.  `Turn` says what there is to know of them: in a call nobody comes and nobody
goes, or a socket joins a room, or a user joins a group, a group is created, a member leaves,
or the last member leaves and the group is deleted.  The routes that write a message answer
alike (`serve_writes`), and `turn_serveCall` is the place that goes through the calls one by one.
-/

namespace GroupChat
namespace Api

open Chat (BusEvent Socket assertMember onBus roomFor)
open Common Database Groups Messages Text Transition

variable {userOf : Socket → Uuid} {env : Env} {validator : Validator} {userId g : Uuid}
  {id : String} {w : World}

/-! ## Events -/

/-- What an operation that was answered so has put on the bus. -/
def Operation.events (userId : Uuid) (id : String) : Operation → Answer → List BusEvent
  | .markRead, .http (.ok (.read lastReadAt)) => [.readMarked id userId lastReadAt]
  | .leave, .http (.ok (.left groupDeleted newOwnerId)) =>
    (readUuid id).elim [] fun g => (leaveEvents userId g groupDeleted newOwnerId).map (onBus id)
  | .transferOwnership _, .http (.ok (.transferred _ newOwnerId)) =>
    (readUuid id).elim [] fun g => (transferEvents g userId newOwnerId).map (onBus id)
  | .create _, .http (.ok (.message m)) => [.messageCreated m.message]
  | .upload _, .http (.ok (.message m)) => [.messageCreated m.message]
  | .sendMessage _, .sent (.ok m) => [.messageCreated m.message]
  | .edit _ _, .http (.ok (.message m)) => [.messageUpdated m.message]
  | .remove _, .http (.ok (.message m)) => [.messageUpdated m.message]
  | .toggle messageId _, .http (.ok (.reactions reactions)) =>
    [.reactionChanged id messageId reactions]
  | _, _ => []

def Call.events : Call → Reply → List BusEvent
  | .operation _ userId id op, .served answer => op.events userId id answer
  | .join userId id memberId now, .group (.ok _) =>
    (readUuid id).elim [] fun g => [.memberJoined id (newMember memberId g userId .member now)]
  | _, _ => []

/-- The user whose departure the event announces. -/
def departed : BusEvent → Option Uuid
  | .memberLeft _ userId => some userId
  | _ => none

/-- A request names a group as it is printed. -/
def Call.Printed (c : Call) : Prop :=
  match c with
  | .operation _ _ id _ => ∀ g, Spells id g → id = printUuid g
  | .join _ id _ _ => ∀ g, Spells id g → id = printUuid g
  | .create .. => True

/-- A socket acts for the user its handshake authenticated. -/
def Call.Authed (userOf : Socket → Uuid) : Call → Prop
  | .operation _ userId _ (.joinGroup socket) => userId = userOf socket
  | _ => True

/-- The user asks to leave the group. -/
def Call.Leaves (g u : Uuid) : Call → Prop
  | .operation _ userId id .leave => Spells id g ∧ userId = u
  | _ => False

/-! ## What a call does -/

/-- What becomes of the world in a call, and the events. -/
inductive Turn (userOf : Socket → Uuid) (w : World) (c : Call) : World → List BusEvent → Prop
  /-- Nobody comes and nobody goes. -/
  | same {after : Records} {events : List BusEvent} (members : SameMembers w.records after)
      (told : ∀ e ∈ events, departed e = none ∧
        ∃ g, GroupExists w.records g ∧ e.groupId = printUuid g) :
      Turn userOf w c ⟨after, w.rooms⟩ events
  /-- A socket joins a room. -/
  | entered {socket : Socket} {g : Uuid} (member : w.records.HasMember g (userOf socket)) :
      Turn userOf w c ⟨w.records, (socket, roomFor (printUuid g)) :: w.rooms⟩ []
  | joined {after : Records} {g u : Uuid} {member : GroupMember} (there : GroupExists w.records g)
      (members : ∀ k v, after.HasMember k v ↔ w.records.HasMember k v ∨ k = g ∧ v = u)
      (groups : ∀ k, GroupExists after k ↔ GroupExists w.records k) :
      Turn userOf w c ⟨after, w.rooms⟩ [.memberJoined (printUuid g) member]
  | created {after : Records} {g u : Uuid} (new : g ∈ c.newIds)
      (members : ∀ k v, after.HasMember k v ↔ w.records.HasMember k v ∨ k = g ∧ v = u)
      (groups : ∀ k, GroupExists after k ↔ GroupExists w.records k ∨ k = g) :
      Turn userOf w c ⟨after, w.rooms⟩ []
  | left {after : Records} {g u : Uuid} {events : List BusEvent} (call : c.Leaves g u)
      (caller : w.records.HasMember g u)
      (members : ∀ k v, after.HasMember k v ↔ w.records.HasMember k v ∧ ¬(k = g ∧ v = u))
      (groups : ∀ k, GroupExists after k ↔ GroupExists w.records k)
      (told : ∀ e ∈ events, e.groupId = printUuid g ∧ ∀ v ∈ departed e, v = u)
      (announced : BusEvent.memberLeft (printUuid g) u ∈ events) :
      Turn userOf w c ⟨after, w.rooms⟩ events
  /-- The last member leaves, and the group is deleted. -/
  | dissolved {after : Records} {g u : Uuid} (call : c.Leaves g u)
      (alone : ∀ v, w.records.HasMember g v → v = u)
      (members : ∀ k v, after.HasMember k v ↔ w.records.HasMember k v ∧ k ≠ g)
      (groups : ∀ k, GroupExists after k ↔ GroupExists w.records k ∧ k ≠ g) :
      Turn userOf w c ⟨after, w.rooms⟩ []

theorem Operation.events_error {op : Operation} {e : Thrown} :
    op.events userId id (.http (.error e)) = [] := by
  cases op <;> rfl

/-- **How a route answers**: it throws and has done nothing, or its handler returns for a
member. -/
theorem respond_memberRoute_cases {A : Type} (pipes : Except Thrown A)
    (handler : A → Records → Except Thrown (Records × Payload)) (w : World) :
    (∃ e, respond (memberRoute userId id pipes handler) w = (w, .http (.error e))) ∨
      ∃ g a after p, Spells id g ∧ w.records.HasMember g userId ∧ pipes = .ok a ∧
        handler a w.records = .ok (after, p) ∧
          respond (memberRoute userId id pipes handler) w = (⟨after, w.rooms⟩, .http (.ok p)) := by
  by_cases hstranger : NotMember userId id w
  · exact Or.inl ⟨_, respond_memberRoute_of_notMember hstranger⟩
  · obtain ⟨g, hid, me, hme⟩ : ∃ g, Spells id g ∧ ∃ me, IsMembership w.records g userId me := by
      simpa [NotMember] using hstranger
    have hguard : (memberRoute userId id pipes handler).guard w = .ok () := by
      show throwing ((assertMember w.records.tables userId id).map _) = _
      rw [Chat.assertMember_of_spells hid (membership_of_isMembership hme)]
      rfl
    unfold respond Guarded.respond
    rw [hguard]
    dsimp only [memberRoute]
    cases hpipes : pipes with
    | error e => exact Or.inl ⟨e, rfl⟩
    | ok a =>
      dsimp only
      cases hcall : handler a w.records with
      | error e => exact Or.inl ⟨e, rfl⟩
      | ok result => exact Or.inr ⟨g, a, result.1, result.2, hid, ⟨me, hme⟩, rfl, hcall, rfl⟩

/-- An id that has passed the pipe and gone into a statement. -/
theorem spells_of_pipes {id' : String} (hpipe : idPipe id = .ok id')
    (hcolumn : columnUuid id' = .ok g) : Spells id g := by
  rw [eq_of_idPipe hpipe] at hcolumn
  unfold idPipe parseUuidPipe at hpipe
  split_ifs at hpipe with hid
  · refine ⟨hid, ?_⟩
    unfold columnUuid at hcolumn
    cases hread : readUuid id with
    | none =>
      rw [hread] at hcolumn
      cases hcolumn
    | some k =>
      rw [hread] at hcolumn
      exact congrArg some (Except.ok.inj hcolumn)
  · cases hpipe

/-- A call that throws does nothing. -/
theorem Turn.nothing {c : Call} : Turn userOf w c w [] :=
  .same (.refl w.records) fun _ he => absurd he List.not_mem_nil

/-- One event about the group, and nobody comes or goes. -/
theorem Turn.told {c : Call} {after : Records} {e : BusEvent} (members : SameMembers w.records after)
    (there : GroupExists w.records g) (hgroup : e.groupId = printUuid g) (he : departed e = none) :
    Turn userOf w c ⟨after, w.rooms⟩ [e] := by
  refine .same members fun e' he' => ?_
  obtain rfl := List.mem_singleton.mp he'
  exact ⟨he, g, there, hgroup⟩

/-- A route whose handler returns for a member. -/
theorem turn_respond {A : Type} {pipes : Except Thrown A}
    {handler : A → Records → Except Thrown (Records × Payload)} {op : Operation}
    (hserve : serve env userId id op = respond (memberRoute userId id pipes handler))
    (hturn : ∀ g a after p, Spells id g → w.records.HasMember g userId → pipes = .ok a →
      handler a w.records = .ok (after, p) →
        Turn userOf w (.operation env userId id op) ⟨after, w.rooms⟩
          (op.events userId id (.http (.ok p)))) :
    Turn userOf w (.operation env userId id op) (serve env userId id op w).1
      (op.events userId id (serve env userId id op w).2) := by
  rw [hserve]
  rcases respond_memberRoute_cases pipes handler w with
    ⟨e, hthrown⟩ | ⟨g, a, after, p, hid, hme, hpipes, hcall, hanswered⟩
  · rw [hthrown, Operation.events_error]
    exact .nothing
  · rw [hanswered]
    exact hturn g a after p hid hme hpipes hcall

theorem turn_leave (hprinted : id = printUuid g) (hid : Spells id g) {left : Left}
    (h : Groups.leave w.records userId g = .ok left) :
    Turn userOf w (.operation env userId id .leave) ⟨left.records, w.rooms⟩
      (Operation.leave.events userId id (.http (.ok (.left left.groupDeleted left.newOwnerId)))) := by
  have hleaves : Leaves w.records userId g (.ok left) := h ▸ leaves w.records userId g
  have hevents : Operation.leave.events userId id
      (.http (.ok (.left left.groupDeleted left.newOwnerId))) =
        (leaveEvents userId g left.groupDeleted left.newOwnerId).map (onBus id) := by
    rw [Operation.events, hid.2]
    rfl
  rw [hevents, hprinted]
  cases hleaves with
  | departed hme hrole =>
    refine .left ⟨spells_printUuid g, rfl⟩ ⟨_, hme⟩ (fun k v => hasMember_deleteMember hme)
      (fun k => groupExists_deleteMember) (fun e he => ?_) List.mem_cons_self
    obtain rfl := List.mem_singleton.mp he
    exact ⟨rfl, fun v hv => (Option.some.inj hv).symm⟩
  | deleted hme hrole halone =>
    refine .dissolved ⟨spells_printUuid g, rfl⟩ (fun v hv => ?_)
      (fun k v => hasMember_deleteGroup) (fun k => groupExists_deleteGroup)
    obtain ⟨r, hr⟩ := hv
    by_contra hne
    refine halone r ⟨hr.mem, hr.groupId_eq.trans hme.groupId_eq.symm, ?_⟩
    rintro rfl
    exact hne (hr.userId_eq.symm.trans hme.userId_eq)
  | @handedOver me next hme hrole hnext =>
    have hmoved : SameMembers w.records (w.records.updateMember next.id (.role .owner)) :=
      sameMembers_updateMember hnext.other.mem _
    have hme' : IsMembership (w.records.updateMember next.id (.role .owner)) g userId me :=
      ⟨(mem_updateMember hnext.other.mem _).mpr (Or.inr ⟨hme.mem, hnext.other.ne.symm⟩),
        hme.groupId_eq, hme.userId_eq⟩
    refine .left ⟨spells_printUuid g, rfl⟩ ⟨_, hme⟩
      (fun k v => (hasMember_deleteMember hme').trans (and_congr_left fun _ => hmoved.member k v))
      (fun k => groupExists_deleteMember.trans (hmoved.groupExists k)) (fun e he => ?_)
      (List.mem_cons_of_mem _ List.mem_cons_self)
    rcases List.mem_cons.mp he with rfl | he
    · exact ⟨rfl, fun v hv => (nomatch hv)⟩
    · obtain rfl := List.mem_singleton.mp he
      exact ⟨rfl, fun v hv => (Option.some.inj hv).symm⟩

theorem turn_transfer (hprinted : id = printUuid g) (hid : Spells id g)
    (hme : w.records.HasMember g userId) {body : Fields (Option String)} {target : String}
    {t : Transferred} (h : Groups.transferOwnership w.records userId id target = .ok t) :
    Turn userOf w (.operation env userId id (.transferOwnership body)) ⟨t.records, w.rooms⟩
      ((Operation.transferOwnership body).events userId id
        (.http (.ok (.transferred t.previousOwnerId t.newOwnerId)))) := by
  obtain ⟨caller, next, hcaller, -, hnext, -, rfl⟩ := transferOwnership_eq_ok hid.2 h
  have hpromoted : SameMembers w.records (w.records.updateMember next.id (.role .owner)) :=
    sameMembers_updateMember hnext _
  have hthere : ∃ r, .member r ∈ (w.records.updateMember next.id (.role .owner)).tables ∧
      r.id = caller.id := by
    by_cases hsame : caller = next
    · subst hsame
      exact ⟨_, (mem_updateMember hnext _).mpr (Or.inl rfl), MemberUpdate.apply_id _ _⟩
    · exact ⟨caller, (mem_updateMember hnext _).mpr (Or.inr ⟨hcaller, hsame⟩), rfl⟩
  obtain ⟨r, hr, hrid⟩ := hthere
  have hdemoted := sameMembers_updateMember hr (.role .member)
  rw [hrid] at hdemoted
  refine .same (hpromoted.trans hdemoted) fun e he => ?_
  rw [Operation.events, hid.2, Option.elim_some] at he
  obtain ⟨event, hevent, rfl⟩ := List.mem_map.mp he
  unfold transferEvents at hevent
  split at hevent
  · cases hevent
  · obtain rfl := List.mem_singleton.mp hevent
    exact ⟨rfl, g, hme.groupExists, hprinted⟩

/-! ## Messages -/

theorem createMessage_of_spells {send : Send} {attachment : Option Attachment} {d after : Records}
    {m : Selected} (hid : Spells send.groupId g)
    (h : createMessage env d send attachment = .ok (after, m)) :
    after.tables = d.tables ∧ m.message.groupId = g ∧ GroupExists d g := by
  obtain ⟨g', hcolumn, h⟩ := exists_of_bind h
  obtain ⟨content, -, h⟩ := exists_of_bind h
  obtain rfl : g = g' := Except.ok.inj ((columnUuid_of_spells hid).symm.trans hcolumn)
  exact createMessage_eq_ok (ok_of_throwing h)

/-- The operation returns the message it has written. -/
def Operation.Writes : Operation → Prop
  | .create _ | .upload _ | .edit _ _ | .remove _ => True
  | _ => False

/-- What has been written when a message is returned. -/
inductive Wrote (env : Env) (userId g : Uuid) (d after : Records) (m : Selected) : Prop
  | created {send : Send} {attachment : Option Attachment} (hid : Spells send.groupId g)
      (h : createMessage env d send attachment = .ok (after, m))
  | changed {messageId : Uuid} {change : Change}
      (h : throwing (d.changeMessage g messageId userId change env.now) = .ok (after, m))

/-- The message is one of the group, whose members are as they were. -/
theorem Wrote.frame {d after : Records} {m : Selected} (h : Wrote env userId g d after m) :
    after.tables = d.tables ∧ m.message.groupId = g := by
  cases h with
  | created hid h =>
    obtain ⟨htables, hgroup, -⟩ := createMessage_of_spells hid h
    exact ⟨htables, hgroup⟩
  | changed h => exact changeMessage_eq_ok (ok_of_throwing h)

theorem writes_respond {A : Type} {pipes : Except Thrown A}
    {handler : A → Records → Except Thrown (Records × Payload)} {op : Operation}
    (hserve : serve env userId id op = respond (memberRoute userId id pipes handler))
    (hwrote : ∀ g a after p, Spells id g → pipes = .ok a → handler a w.records = .ok (after, p) →
      ∃ m, p = .message m ∧ Wrote env userId g w.records after m) :
    (∃ e, serve env userId id op w = (w, .http (.error e))) ∨
      ∃ g after m, Spells id g ∧ w.records.HasMember g userId ∧
        Wrote env userId g w.records after m ∧
          serve env userId id op w = (⟨after, w.rooms⟩, .http (.ok (.message m))) := by
  rw [hserve]
  rcases respond_memberRoute_cases pipes handler w with
    hthrown | ⟨g, a, after, p, hid, hme, hpipes, hcall, hanswered⟩
  · exact Or.inl hthrown
  · obtain ⟨m, rfl, hm⟩ := hwrote g a after p hid hpipes hcall
    exact Or.inr ⟨g, after, m, hid, hme, hm, hanswered⟩

/-- **How a route that writes a message answers**: it throws and has done nothing, or it returns
for a member what it has written. -/
theorem serve_writes {op : Operation} (hop : op.Writes) (w : World) :
    (∃ e, serve env userId id op w = (w, .http (.error e))) ∨
      ∃ g after m, Spells id g ∧ w.records.HasMember g userId ∧
        Wrote env userId g w.records after m ∧
          serve env userId id op w = (⟨after, w.rooms⟩, .http (.ok (.message m))) := by
  cases op with
  | create body =>
    refine writes_respond rfl fun g a after p hid hpipes hcall => ?_
    obtain ⟨id', hpipe, hpipes⟩ := exists_of_bind hpipes
    obtain ⟨content, -, hpipes⟩ := exists_of_bind hpipes
    obtain rfl := Except.ok.inj hpipes
    obtain ⟨⟨d, m⟩, hcreated, hcall⟩ := exists_of_bind hcall
    cases hcall
    have hsend : Spells (Send.mk id' userId content).groupId g := (eq_of_idPipe hpipe).symm ▸ hid
    exact ⟨m, rfl, .created hsend hcreated⟩
  | upload form =>
    refine writes_respond rfl fun g a after p hid hpipes hcall => ?_
    obtain ⟨form', -, hpipes⟩ := exists_of_bind hpipes
    obtain ⟨id', hpipe, hpipes⟩ := exists_of_bind hpipes
    obtain ⟨file, -, hpipes⟩ := exists_of_bind hpipes
    obtain rfl := Except.ok.inj hpipes
    obtain ⟨stored, -, hcall⟩ := exists_of_bind hcall
    obtain ⟨⟨d, m⟩, hcreated, hcall⟩ := exists_of_bind hcall
    cases hcall
    have hsend : Spells (Send.mk id' userId (form'.content.getD []).trim).groupId g :=
      (eq_of_idPipe hpipe).symm ▸ hid
    exact ⟨m, rfl, .created hsend hcreated⟩
  | edit messageId body =>
    refine writes_respond rfl fun g a after p hid hpipes hcall => ?_
    obtain ⟨id', hpipe, hpipes⟩ := exists_of_bind hpipes
    obtain ⟨messageId', -, hpipes⟩ := exists_of_bind hpipes
    obtain ⟨content, -, hpipes⟩ := exists_of_bind hpipes
    obtain rfl := Except.ok.inj hpipes
    obtain ⟨groupId, hcolumn, hcall⟩ := exists_of_bind hcall
    obtain ⟨message, -, hcall⟩ := exists_of_bind hcall
    obtain ⟨text, -, hcall⟩ := exists_of_bind hcall
    obtain ⟨⟨d, m⟩, hchanged, hcall⟩ := exists_of_bind hcall
    cases hcall
    rw [eq_of_idPipe hpipe] at hcolumn
    obtain rfl : g = groupId := Except.ok.inj ((columnUuid_of_spells hid).symm.trans hcolumn)
    exact ⟨m, rfl, .changed hchanged⟩
  | remove messageId =>
    refine writes_respond rfl fun g a after p hid hpipes hcall => ?_
    obtain ⟨id', hpipe, hpipes⟩ := exists_of_bind hpipes
    obtain ⟨messageId', -, hpipes⟩ := exists_of_bind hpipes
    obtain rfl := Except.ok.inj hpipes
    obtain ⟨groupId, hcolumn, hcall⟩ := exists_of_bind hcall
    obtain ⟨message, -, hcall⟩ := exists_of_bind hcall
    obtain ⟨⟨d, m⟩, hchanged, hcall⟩ := exists_of_bind hcall
    cases hcall
    rw [eq_of_idPipe hpipe] at hcolumn
    obtain rfl : g = groupId := Except.ok.inj ((columnUuid_of_spells hid).symm.trans hcolumn)
    exact ⟨m, rfl, .changed hchanged⟩
  | findOne | markRead | leave | transferOwnership | findPage | search | toggle | joinGroup
  | sendMessage => exact False.elim hop

/-- A message that was written is put on the bus. -/
theorem Operation.Writes.exists_event {op : Operation} (hop : op.Writes) (m : Selected) :
    ∃ e, op.events userId id (.http (.ok (.message m))) = [e] ∧
      e.groupId = printUuid m.message.groupId ∧ departed e = none := by
  cases op with
  | create | upload | edit | remove => exact ⟨_, rfl, rfl, rfl⟩
  | findOne | markRead | leave | transferOwnership | findPage | search | toggle | joinGroup
  | sendMessage => exact False.elim hop

theorem turn_writes {op : Operation} (hop : op.Writes) :
    Turn userOf w (.operation env userId id op) (serve env userId id op w).1
      (op.events userId id (serve env userId id op w).2) := by
  rcases serve_writes hop w with ⟨e, hthrown⟩ | ⟨g, after, m, hid, hme, hwrote, hanswered⟩
  · rw [hthrown, Operation.events_error]
    exact .nothing
  · obtain ⟨e, hevents, hgroup, hdeparted⟩ := hop.exists_event m
    obtain ⟨htables, hmessage⟩ := hwrote.frame
    rw [hanswered, hevents]
    exact .told (.of_tables htables) hme.groupExists (hgroup.trans (congrArg _ hmessage)) hdeparted

theorem turn_joinGroup {socket : Socket} (hprinted : ∀ g, Spells id g → id = printUuid g)
    (huser : userId = userOf socket) :
    Turn userOf w (.operation env userId id (.joinGroup socket))
      (serve env userId id (.joinGroup socket) w).1 [] := by
  by_cases hstranger : NotMember userId id w
  · rw [serve_of_notMember hstranger]
    exact .nothing
  · obtain ⟨g, hid, me, hme⟩ : ∃ g, Spells id g ∧ ∃ me, IsMembership w.records g userId me := by
      simpa [NotMember] using hstranger
    have hserve : (serve env userId id (.joinGroup socket) w).1 =
        ⟨w.records, (socket, roomFor id) :: w.rooms⟩ := by
      unfold serve Chat.joinGroup
      dsimp only [Option.getD_some]
      rw [Chat.assertMember_of_spells hid (membership_of_isMembership hme)]
    rw [hserve, hprinted g hid]
    exact .entered ⟨me, huser ▸ hme⟩

theorem groupId_of_sendMessage {t : Tables} {content : Option JsString} {send : Send}
    (h : Messages.sendMessage t userId (some id) content = .ok send) : send.groupId = id := by
  unfold Messages.sendMessage at h
  dsimp only [Option.getD_some] at h
  split at h
  · cases h
  · split at h
    · rw [← Except.ok.inj h]
    · cases h
    · cases h

theorem turn_sendMessage (content : Option JsString) :
    Turn userOf w (.operation env userId id (.sendMessage content))
      (serve env userId id (.sendMessage content) w).1
      ((Operation.sendMessage content).events userId id
        (serve env userId id (.sendMessage content) w).2) := by
  by_cases hnamed : ∃ g, Spells id g
  · obtain ⟨g, hid⟩ := hnamed
    rw [serve_sendMessage]
    cases hsent : Messages.sendMessage w.records.tables userId (some id) content with
    | error message => exact .nothing
    | ok send =>
      dsimp only
      cases hcreated : createMessage env w.records send none with
      | error e => exact .nothing
      | ok result =>
        obtain ⟨htables, hgroup, hthere⟩ :=
          createMessage_of_spells ((groupId_of_sendMessage hsent).symm ▸ hid) hcreated
        exact .told (.of_tables htables) hthere (congrArg printUuid hgroup) rfl
  · rw [serve_of_names_none (not_exists.mp hnamed)]
    have hrefused : (Operation.sendMessage content).events userId id
        (refusal (.sendMessage content)) = [] := by
      unfold refusal
      dsimp only
      split <;> rfl
    rw [hrefused]
    exact .nothing

/-- **What an operation does.** -/
theorem turn_serve (hprinted : ∀ g, Spells id g → id = printUuid g) (op : Operation)
    (hauthed : (Call.operation env userId id op).Authed userOf) :
    Turn userOf w (.operation env userId id op) (serve env userId id op w).1
      (op.events userId id (serve env userId id op w).2) := by
  cases op with
  | findOne =>
    refine turn_respond rfl fun g a after p hid hme hpipes hcall => ?_
    obtain ⟨groupId, -, hcall⟩ := exists_of_bind hcall
    obtain ⟨payload, hfound, hcall⟩ := exists_of_bind hcall
    cases hcall
    have hpayload : ∃ group members, p = .group group members := by
      have hfound := ok_of_throwing hfound
      unfold findOne at hfound
      split at hfound
      · cases hfound
      · exact ⟨_, _, (Except.ok.inj hfound).symm⟩
    obtain ⟨group, members, rfl⟩ := hpayload
    exact .nothing
  | markRead =>
    refine turn_respond rfl fun g a after p hid hme hpipes hcall => ?_
    obtain ⟨groupId, -, hcall⟩ := exists_of_bind hcall
    have hmarked := ok_of_throwing hcall
    unfold markRead at hmarked
    split at hmarked
    · cases hmarked
    · next me hfound =>
      obtain ⟨rfl, rfl⟩ := Prod.mk.inj (Except.ok.inj hmarked)
      have hmem : .member me ∈ w.records.tables := (membership_eq_some hfound).1
      exact .told (sameMembers_updateMember hmem _) hme.groupExists (hprinted g hid) rfl
  | leave =>
    refine turn_respond rfl fun g a after p hid hme hpipes hcall => ?_
    obtain ⟨groupId, hcolumn, hcall⟩ := exists_of_bind hcall
    obtain ⟨left, hleft, hresult⟩ := exists_of_bind hcall
    rw [eq_of_idPipe hpipes] at hcolumn
    obtain rfl : g = groupId := Except.ok.inj ((columnUuid_of_spells hid).symm.trans hcolumn)
    cases hresult
    exact turn_leave (hprinted g hid) hid (ok_of_throwing hleft)
  | transferOwnership body =>
    refine turn_respond rfl fun g a after p hid hme hpipes hcall => ?_
    obtain ⟨id', hpipe, hpipes⟩ := exists_of_bind hpipes
    obtain ⟨target, -, hpipes⟩ := exists_of_bind hpipes
    obtain rfl := Except.ok.inj hpipes
    obtain ⟨t, ht, hcall⟩ := exists_of_bind hcall
    cases hcall
    rw [eq_of_idPipe hpipe] at ht
    exact turn_transfer (hprinted g hid) hid hme (ok_of_throwing ht)
  | create | upload | edit | remove => exact turn_writes trivial
  | findPage query =>
    refine turn_respond rfl fun g a after p hid hme hpipes hcall => ?_
    obtain ⟨groupId, -, hcall⟩ := exists_of_bind hcall
    obtain ⟨page, -, hcall⟩ := exists_of_bind hcall
    cases hcall
    exact .nothing
  | search query =>
    refine turn_respond rfl fun g a after p hid hme hpipes hcall => ?_
    obtain ⟨groupId, -, hcall⟩ := exists_of_bind hcall
    obtain ⟨q, -, hcall⟩ := exists_of_bind hcall
    cases hcall
    exact .nothing
  | toggle messageId body =>
    refine turn_respond rfl fun g a after p hid hme hpipes hcall => ?_
    obtain ⟨groupId, -, hcall⟩ := exists_of_bind hcall
    obtain ⟨message, -, hcall⟩ := exists_of_bind hcall
    obtain ⟨emoji, -, hcall⟩ := exists_of_bind hcall
    obtain ⟨⟨d, marks⟩, htoggled, hcall⟩ := exists_of_bind hcall
    cases hcall
    exact .told (.of_tables (tables_toggleReaction (ok_of_throwing htoggled))) hme.groupExists
      (hprinted g hid) rfl
  | joinGroup socket =>
    have hevents : (Operation.joinGroup socket).events userId id
        (serve env userId id (.joinGroup socket) w).2 = [] := rfl
    rw [hevents]
    exact turn_joinGroup hprinted hauthed
  | sendMessage content => exact turn_sendMessage content

theorem respond_openRoute_cases {A B : Type} (pipes : Except Thrown A)
    (handler : A → Records → Except Thrown (Records × B)) (w : World) :
    (∃ e, (openRoute pipes handler).respond w = (w, .error e)) ∨
      ∃ a after b, pipes = .ok a ∧ handler a w.records = .ok (after, b) ∧
        (openRoute pipes handler).respond w = (⟨after, w.rooms⟩, .ok b) := by
  unfold openRoute Guarded.respond
  dsimp only
  cases pipes with
  | error e => exact Or.inl ⟨e, rfl⟩
  | ok a =>
    dsimp only
    cases hcall : handler a w.records with
    | error e => exact Or.inl ⟨e, rfl⟩
    | ok result => exact Or.inr ⟨a, result.1, result.2, rfl, hcall, rfl⟩

theorem turn_join (hprinted : ∀ g, Spells id g → id = printUuid g) (memberId : Uuid)
    (now : Instant) (hnew : ¬w.records.Uses memberId) :
    Turn userOf w (.join userId id memberId now) (serveCall (.join userId id memberId now) w).1
      (Call.events (.join userId id memberId now) (serveCall (.join userId id memberId now) w).2) := by
  show Turn userOf w _ ((joinRoute userId id memberId now).respond w).1
    (Call.events _ (.group ((joinRoute userId id memberId now).respond w).2))
  rcases respond_openRoute_cases (idPipe id) _ w with
    ⟨e, hthrown⟩ | ⟨id', after, group, hpipe, hcall, hanswered⟩
  · rw [joinRoute, hthrown]
    exact .nothing
  · rw [joinRoute, hanswered]
    obtain ⟨g, hcolumn, hcall⟩ := exists_of_bind hcall
    obtain ⟨joined, hjoined, hresult⟩ := exists_of_bind hcall
    obtain ⟨rfl, rfl⟩ := Prod.mk.inj (Except.ok.inj hresult)
    have hid : Spells id g := spells_of_pipes hpipe hcolumn
    have hjoins := joins w.records userId g memberId now (find?_member_of_unused hnew)
    rw [ok_of_throwing hjoined] at hjoins
    cases hjoins with
    | @joined after group hgroup hgid hstranger hadded =>
      have hevents : Call.events (.join userId id memberId now) (.group (.ok group)) =
          [.memberJoined (printUuid g) (newMember memberId g userId .member now)] := by
        rw [Call.events, hid.2, Option.elim_some, ← hprinted g hid]
      rw [hevents]
      refine .joined (u := userId) ⟨_, hgroup, hgid⟩ (fun k v => ?_) fun k => ?_
      · refine (hasMember_of_rows hadded.rows).trans (or_congr_right ?_)
        simp [newMember, eq_comm]
      · refine (groupExists_of_rows hadded.rows).trans (or_iff_left ?_)
        simp

theorem turn_create (body : Fields (Option JsString)) (new : Defaults)
    (hnew : ∀ id ∈ [new.groupId, new.memberId], ¬w.records.Uses id) :
    Turn userOf w (.create validator userId body new)
      (serveCall (.create validator userId body new) w).1
      (Call.events (.create validator userId body new)
        (serveCall (.create validator userId body new) w).2) := by
  show Turn userOf w _ ((createRoute validator userId body new).respond w).1 []
  rcases respond_createRoute body new w with hsame | ⟨name, after, group, hcreated, hafter⟩
  · rw [hsame]
    exact .nothing
  · rw [hafter]
    obtain ⟨hrows, -, -⟩ := create_eq_ok hnew hcreated
    refine .created List.mem_cons_self (u := userId) (g := new.groupId) (fun k v => ?_) fun k => ?_
    · refine (hasMember_of_rows hrows).trans (or_congr_right ?_)
      simp [newMember, eq_comm]
    · refine (groupExists_of_rows hrows).trans (or_congr_right ?_)
      simp [eq_comm]

/-- **What a call does.** -/
theorem turn_serveCall {c : Call} (hprinted : c.Printed) (hauthed : c.Authed userOf)
    (hnew : ∀ id ∈ c.newIds, ¬w.records.Uses id) :
    Turn userOf w c (serveCall c w).1 (c.events (serveCall c w).2) := by
  cases c with
  | operation env userId id op => exact turn_serve hprinted op hauthed
  | join userId id memberId now =>
    exact turn_join hprinted memberId now (hnew _ (by simp [Call.newIds]))
  | create validator userId body new => exact turn_create body new hnew

end Api
end GroupChat

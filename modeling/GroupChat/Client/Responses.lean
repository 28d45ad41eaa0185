import GroupChat.Api.Envelope
import GroupChat.Text.JsonValue

/-!
# Reading responses

`types.ts` is the browser's half of the contract with the API, maintained by hand, and its
interfaces are structures here.  A function of `lib/api` takes the envelope off what axios has
parsed and returns what is in it under the type it declares; `getApiErrorMessage` and
`getApiErrorCode` do the same for an error.  TypeScript drops these types before the program
runs, so nothing checks them there.  Here the cast to one is a function that is defined only on
JSON of that shape, and to read a response is to have the cast succeed.

`responses_are_read` puts both halves together, for the eleven routes inside a group and the
two that create one and join one: through envelope, text and cast, the browser has what the
handler returned or what it threw.  The caller is logged in, so that none of these answers 401
and no refresh comes in between.  The list of one's groups, the routes of `auth` and the
acknowledgements of the socket are not among them.
-/

namespace GroupChat
namespace Client
namespace Responses

open Api Common Database Text
open Groups (GroupMember MemberRole)
open Messages (MessageType)
open Common.ErrorFilter (AcceptsStatuses Framework)

/-! ## The types of the browser -/

structure Reaction where
  emoji : JsString
  userId : JsString

structure Sender where
  id : JsString
  name : JsString

structure Message where
  id : JsString
  groupId : JsString
  senderId : Option JsString
  content : JsString
  type : MessageType
  createdAt : JsString
  editedAt : Option JsString
  deletedAt : Option JsString
  sender : Option Sender
  reactions : List Reaction
  attachmentUrl : Option JsString
  attachmentName : Option JsString
  attachmentMime : Option JsString

structure PaginationMeta where
  limit : ℕ
  nextCursor : Option JsString
  hasMore : Bool

structure MessagePage where
  data : List Message
  pageMeta : PaginationMeta

structure GroupSummary where
  id : JsString
  name : JsString
  createdBy : JsString
  createdAt : JsString

structure GroupMemberView where
  role : MemberRole
  joinedAt : JsString
  lastReadAt : Option JsString
  userId : JsString
  userName : JsString
  userEmail : JsString

structure GroupDetail extends GroupSummary where
  members : List GroupMemberView

structure LeaveResult where
  groupDeleted : Bool
  newOwnerId : Option JsString

/-- What the promise of a function of `lib/api` is fulfilled with. -/
inductive Result where
  | group (g : GroupDetail)
  | summary (g : GroupSummary)
  | read (lastReadAt : JsString)
  | left (outcome : LeaveResult)
  | transferred (previousOwnerId newOwnerId : JsString)
  | message (m : Message)
  | messages (data : List Message)
  | page (p : MessagePage)
  | reactions (marks : List Reaction)

/-! ## Casts -/

section Casts

variable {α : Type}

def asString : Json → Option JsString
  | .string s => some s
  | _ => none

def asBool : Json → Option Bool
  | .bool b => some b
  | _ => none

/-- A natural number. -/
def asNatural : Json → Option ℕ
  | .number literal =>
    if literal.all Char.isDigit then some (Nat.ofDigitChars 10 literal 0) else none
  | _ => none

/-- `T | null` -/
def asNullable (cast : Json → Option α) : Json → Option (Option α)
  | .null => some none
  | v => (cast v).map some

/-- `T[]` -/
def asArray (cast : Json → Option α) : Json → Option (List α)
  | .array items => items.mapM cast
  | _ => none

/-- One of a union of literals. -/
def asUnion (members : List (String × α)) (v : Json) : Option α := do
  let s ← asString v
  (members.find? fun m => s = JsString.ofString m.1).map Prod.snd

/-- A member that is there. -/
def field (v : Json) (name : String) (cast : Json → Option α) : Option α :=
  (v.get? name).bind cast

end Casts

def asRole : Json → Option MemberRole :=
  asUnion [("OWNER", .owner), ("ADMIN", .admin), ("MEMBER", .member)]

def asType : Json → Option MessageType :=
  asUnion [("USER", .user), ("SYSTEM", .system), ("AI_SUMMARY", .aiSummary)]

def asReaction (v : Json) : Option Reaction := do
  let emoji ← field v "emoji" asString
  let userId ← field v "userId" asString
  return ⟨emoji, userId⟩

def asSender (v : Json) : Option Sender := do
  let id ← field v "id" asString
  let name ← field v "name" asString
  return ⟨id, name⟩

def asMessage (v : Json) : Option Message := do
  let id ← field v "id" asString
  let groupId ← field v "groupId" asString
  let senderId ← field v "senderId" (asNullable asString)
  let content ← field v "content" asString
  let type ← field v "type" asType
  let createdAt ← field v "createdAt" asString
  let editedAt ← field v "editedAt" (asNullable asString)
  let deletedAt ← field v "deletedAt" (asNullable asString)
  let sender ← field v "sender" (asNullable asSender)
  let reactions ← field v "reactions" (asArray asReaction)
  let attachmentUrl ← field v "attachmentUrl" (asNullable asString)
  let attachmentName ← field v "attachmentName" (asNullable asString)
  let attachmentMime ← field v "attachmentMime" (asNullable asString)
  return ⟨id, groupId, senderId, content, type, createdAt, editedAt, deletedAt, sender, reactions,
    attachmentUrl, attachmentName, attachmentMime⟩

def asPaginationMeta (v : Json) : Option PaginationMeta := do
  let limit ← field v "limit" asNatural
  let nextCursor ← field v "nextCursor" (asNullable asString)
  let hasMore ← field v "hasMore" asBool
  return ⟨limit, nextCursor, hasMore⟩

def asGroupSummary (v : Json) : Option GroupSummary := do
  let id ← field v "id" asString
  let name ← field v "name" asString
  let createdBy ← field v "createdBy" asString
  let createdAt ← field v "createdAt" asString
  return ⟨id, name, createdBy, createdAt⟩

def asGroupMemberView (v : Json) : Option GroupMemberView := do
  let role ← field v "role" asRole
  let joinedAt ← field v "joinedAt" asString
  let lastReadAt ← field v "lastReadAt" (asNullable asString)
  let user ← v.get? "user"
  let id ← field user "id" asString
  let name ← field user "name" asString
  let email ← field user "email" asString
  return ⟨role, joinedAt, lastReadAt, id, name, email⟩

def asGroupDetail (v : Json) : Option GroupDetail := do
  let summary ← asGroupSummary v
  let members ← field v "members" (asArray asGroupMemberView)
  return ⟨summary, members⟩

def asLeaveResult (v : Json) : Option LeaveResult := do
  let groupDeleted ← field v "groupDeleted" asBool
  let newOwnerId ← field v "newOwnerId" (asNullable asString)
  return ⟨groupDeleted, newOwnerId⟩

/-! ## Responses as axios has them -/

/-- An error with a response. -/
structure AxiosError where
  data : Json
  message : JsString

/-- What axios makes of a response: it parses the body, if it can, and rejects a status that is
not a success.  The message of such an error is its own. -/
def settle (message : JsString) (response : HttpResponse) : Except AxiosError Json :=
  let data := (Json.parse response.body).getD (.ofText (String.ofList response.body))
  if response.status.atLeast 200 && !response.status.atLeast 300 then .ok data
  else .error ⟨data, message⟩

/-- `body && body.success === false` -/
def isErrorBody (body : Json) : Bool :=
  body.truthy && match body.get? "success" with
    | some (.bool false) => true
    | _ => false

/-- `getApiErrorMessage`; there is none where it throws or returns something else than a text. -/
def getApiErrorMessage (fallback : JsString) (error : AxiosError) : Option JsString :=
  if isErrorBody error.data then (error.data.get? "error").bind fun e => field e "message" asString
  else some (if error.message ≠ [] then error.message else fallback)

/-- `getApiErrorCode`; the inner `none` is `null`. -/
def getApiErrorCode (error : AxiosError) : Option (Option JsString) :=
  if isErrorBody error.data then
    (error.data.get? "error").bind fun e => (field e "code" asString).map some
  else some none

/-! ## The functions of `lib/api` -/

/-- What the function for the call makes of a body. -/
def unwrap (c : Call) (body : Json) : Option Result :=
  match c with
  | .join .. => (field body "data" asGroupSummary).map .summary
  | .create .. => (field body "data" asGroupSummary).map .summary
  | .operation _ _ _ op =>
    match op with
    | .findOne => (field body "data" asGroupDetail).map .group
    | .markRead => (field body "data" fun v => field v "lastReadAt" asString).map .read
    | .leave => (field body "data" asLeaveResult).map .left
    | .transferOwnership _ => do
      let data ← body.get? "data"
      let previousOwnerId ← field data "previousOwnerId" asString
      let newOwnerId ← field data "newOwnerId" asString
      return .transferred previousOwnerId newOwnerId
    | .create _ => (field body "data" asMessage).map .message
    | .findPage _ => do
      let data ← field body "data" (asArray asMessage)
      let pageMeta ← field body "meta" asPaginationMeta
      return .page ⟨data, pageMeta⟩
    | .search _ => (field body "data" (asArray asMessage)).map .messages
    | .upload _ => (field body "data" asMessage).map .message
    | .edit .. => (field body "data" asMessage).map .message
    | .remove _ => (field body "data" asMessage).map .message
    | .toggle .. => (field body "data" (asArray asReaction)).map .reactions
    | .joinGroup _ => none
    | .sendMessage _ => none

/-- What a component learns from an error. -/
structure ErrorView where
  message : JsString
  code : Option JsString

/-- What the browser learns of a call that is replied to over HTTP. -/
def received (framework : Framework) (failures : Failures) (users : Users)
    (axiosMessage fallback : JsString) (c : Call) (r : Reply) :
    Option (Except ErrorView Result) := do
  let response ← httpResponse framework failures users c r
  match settle axiosMessage response with
  | .ok body => return .ok (← unwrap c body)
  | .error e => return .error ⟨← getApiErrorMessage fallback e, ← getApiErrorCode e⟩

/-! ## What there is to learn -/

def viewUuid (id : Uuid) : JsString := JsString.ofString (printUuid id)

def viewDate (t : Instant) : JsString := JsString.ofString (toISOString t)

def viewReaction (r : String × Uuid) : Reaction := ⟨JsString.ofString r.1, viewUuid r.2⟩

def viewMessage (users : Users) (s : Groups.Selected) : Message where
  id := viewUuid s.message.id
  groupId := viewUuid s.message.groupId
  senderId := s.message.senderId.map viewUuid
  content := JsString.ofString s.message.content
  type := s.message.type
  createdAt := viewDate s.message.createdAt
  editedAt := s.message.editedAt.map viewDate
  deletedAt := s.message.deletedAt.map viewDate
  sender := s.message.senderId.map fun id => ⟨viewUuid id, JsString.ofString (users.name id)⟩
  reactions := s.reactions.map viewReaction
  attachmentUrl := s.message.attachmentUrl.map JsString.ofString
  attachmentName := s.message.attachmentName.map JsString.ofString
  attachmentMime := s.message.attachmentMime.map JsString.ofString

def viewGroup (g : Groups.Group) : GroupSummary :=
  ⟨viewUuid g.id, JsString.ofString g.name, viewUuid g.createdBy, viewDate g.createdAt⟩

def viewMember (users : Users) (r : GroupMember) : GroupMemberView :=
  ⟨r.role, viewDate r.joinedAt, r.lastReadAt.map viewDate, viewUuid r.userId,
    JsString.ofString (users.name r.userId), JsString.ofString (users.email r.userId)⟩

def viewPayload (users : Users) : Payload → Result
  | .group g members => .group ⟨viewGroup g, members.map (viewMember users)⟩
  | .read lastReadAt => .read (viewDate lastReadAt)
  | .left groupDeleted newOwnerId => .left ⟨groupDeleted, newOwnerId.map viewUuid⟩
  | .transferred previousOwnerId newOwnerId =>
    .transferred (JsString.ofString previousOwnerId) (JsString.ofString newOwnerId)
  | .message m => .message (viewMessage users m)
  | .messages data => .messages (data.map (viewMessage users))
  | .page data pageMeta =>
    .page ⟨data.map (viewMessage users),
      ⟨pageMeta.limit, pageMeta.nextCursor, pageMeta.hasMore⟩⟩
  | .reactions marks => .reactions (marks.map viewReaction)

def viewError (failures : Failures) (e : Thrown) : ErrorView :=
  ⟨e.message failures, some (JsString.ofString (codeText e.code))⟩

/-- What a call comes to, in the types of the browser. -/
def told (failures : Failures) (users : Users) : Reply → Option (Except ErrorView Result)
  | .group (.ok g) => some (.ok (.summary (viewGroup g)))
  | .group (.error e) => some (.error (viewError failures e))
  | .served (.http (.ok p)) => some (.ok (viewPayload users p))
  | .served (.http (.error e)) => some (.error (viewError failures e))
  | .served (.joined _) => none
  | .served (.sent _) => none

/-! ## Casts of what was written -/

section Written

variable {α β : Type} {cast : Json → Option β} {write : α → Json} {view : α → β}

@[simp] theorem asString_ofText (s : String) : asString (.ofText s) = some (JsString.ofString s) :=
  rfl

@[simp] theorem asString_jsonUuid (id : Uuid) : asString (jsonUuid id) = some (viewUuid id) := rfl

@[simp] theorem asString_jsonDate (t : Instant) : asString (jsonDate t) = some (viewDate t) := rfl

@[simp] theorem asBool_bool (b : Bool) : asBool (.bool b) = some b := rfl

@[simp] theorem asNatural_natural (n : ℕ) : asNatural (.natural n) = some n := by
  have hdigits : (Nat.toDigits 10 n).all Char.isDigit = true :=
    List.all_eq_true.mpr fun c hc => Nat.isDigit_of_mem_toDigits (by omega) (by omega) hc
  unfold asNatural Json.natural
  dsimp only
  rw [if_pos hdigits, Nat.ofDigitChars_toDigits (by omega) (by omega)]

/-- What is not written as `null` is told from it. -/
theorem asNullable_orNull (h : ∀ a, cast (write a) = some (view a)) (hnull : ∀ a, write a ≠ .null)
    (a : Option α) : asNullable cast (.orNull write a) = some (a.map view) := by
  cases a with
  | none => rfl
  | some a =>
    show asNullable cast (write a) = some (some (view a))
    unfold asNullable
    split
    · next heq => exact absurd heq (hnull a)
    · rw [h, Option.map_some]

theorem asArray_map (h : ∀ a, cast (write a) = some (view a)) (as : List α) :
    asArray cast (.array (as.map write)) = some (as.map view) := by
  unfold asArray
  dsimp only
  induction as with
  | nil => rfl
  | cons a as ih =>
    rw [List.map_cons, List.mapM_cons, h, ih]
    rfl

theorem field_record (members : List (String × Json)) (name : String) :
    field (.record members) name cast =
      ((members.reverse.find? fun m => m.1 = name).map Prod.snd).bind cast := by
  rw [field, Json.get?_record]

end Written

@[simp] theorem asNullable_text (s : Option String) :
    asNullable asString (.orNull .ofText s) = some (s.map JsString.ofString) :=
  asNullable_orNull asString_ofText (fun _ h => by cases h) s

@[simp] theorem asNullable_uuid (id : Option Uuid) :
    asNullable asString (.orNull jsonUuid id) = some (id.map viewUuid) :=
  asNullable_orNull asString_jsonUuid (fun _ h => by cases h) id

@[simp] theorem asNullable_date (t : Option Instant) :
    asNullable asString (.orNull jsonDate t) = some (t.map viewDate) :=
  asNullable_orNull asString_jsonDate (fun _ h => by cases h) t

@[simp] theorem asRole_jsonRole (role : MemberRole) : asRole (jsonRole role) = some role := by
  cases role <;> rfl

@[simp] theorem asType_jsonType (type : MessageType) : asType (jsonType type) = some type := by
  cases type <;> rfl

theorem asReaction_jsonReaction (r : String × Uuid) :
    asReaction (jsonReaction r) = some (viewReaction r) := by
  simp [asReaction, jsonReaction, field_record, viewReaction]

theorem asSender_jsonSender (users : Users) (id : Uuid) :
    asSender (jsonSender users id) = some ⟨viewUuid id, JsString.ofString (users.name id)⟩ := by
  simp [asSender, jsonSender, field_record]

theorem asMessage_jsonMessage (users : Users) (s : Groups.Selected) :
    asMessage (jsonMessage users s) = some (viewMessage users s) := by
  have hsender := asNullable_orNull (asSender_jsonSender users) (fun _ h => by cases h)
    s.message.senderId
  have hreactions := asArray_map asReaction_jsonReaction s.reactions
  simp [asMessage, jsonMessage, field_record, viewMessage, hsender, hreactions]

theorem asPaginationMeta_jsonMeta (pageMeta : Messages.PaginationMeta) :
    asPaginationMeta (jsonMeta pageMeta) = some ⟨pageMeta.limit, pageMeta.nextCursor,
      pageMeta.hasMore⟩ := by
  have hstring : ∀ s : JsString, asString (.string s) = some (id s) := fun _ => rfl
  have hcursor := asNullable_orNull hstring (fun _ h => by cases h) pageMeta.nextCursor
  rw [Option.map_id, id_eq] at hcursor
  simp [asPaginationMeta, jsonMeta, field_record, hcursor]

/-- Members of another name are not found. -/
theorem find?_reverse_of_ne {members : List (String × Json)} {other name : String}
    (h : ∀ m ∈ members, m.1 = other) (hname : name ≠ other) :
    (members.reverse.find? fun m => m.1 = name) = none := by
  refine List.find?_eq_none.mpr fun m hm => ?_
  rw [h m (List.mem_reverse.mp hm)]
  simpa using hname.symm

/-- The columns of a group are found in whatever they are a part of. -/
theorem asGroupSummary_groupColumns (g : Groups.Group) (more : List (String × Json))
    (hmore : ∀ m ∈ more, m.1 = "members") :
    asGroupSummary (.record (groupColumns g ++ more)) = some (viewGroup g) := by
  have hnone : ∀ name, name ≠ "members" → (more.reverse.find? fun m => m.1 = name) = none :=
    fun _ => find?_reverse_of_ne hmore
  simp [asGroupSummary, groupColumns, field_record, viewGroup, hnone]

theorem asGroupSummary_jsonGroup (g : Groups.Group) :
    asGroupSummary (jsonGroup g) = some (viewGroup g) := by
  have h := asGroupSummary_groupColumns g [] (by simp)
  rwa [List.append_nil] at h

theorem asGroupMemberView_jsonMember (users : Users) (r : GroupMember) :
    asGroupMemberView (jsonMember users r) = some (viewMember users r) := by
  simp [asGroupMemberView, jsonMember, field_record, Json.get?_record, viewMember]

theorem asGroupDetail_json (users : Users) (g : Groups.Group) (members : List GroupMember) :
    asGroupDetail ((Payload.group g members).json users) =
      some ⟨viewGroup g, members.map (viewMember users)⟩ := by
  have hsummary := asGroupSummary_groupColumns g
    [("members", .array (members.map (jsonMember users)))] (by simp)
  have hmembers := asArray_map (asGroupMemberView_jsonMember users) members
  have hfield : field ((Payload.group g members).json users) "members" (asArray asGroupMemberView) =
      some (members.map (viewMember users)) := by
    simp [Payload.json, field_record, hmembers]
  unfold asGroupDetail
  rw [hfield]
  show (asGroupSummary (.record _)).bind _ = _
  rw [hsummary]
  rfl

/-! ## The envelope, opened -/

section Envelope

variable {message : Option String} {v : Json}

theorem name_of_mem_messageMember {m : String × Json} (h : m ∈ messageMember message) :
    m.1 = "message" := by
  obtain ⟨s, -, rfl⟩ := List.mem_map.mp h
  rfl

theorem find?_messageMember {name : String} (hname : name ≠ "message") :
    ((messageMember message).reverse.find? fun m => m.1 = name) = none :=
  find?_reverse_of_ne (fun _ => name_of_mem_messageMember) hname

theorem get?_data_intercept (h : isPaginatedPayload v = false) :
    (intercept message (some v)).get? "data" = some v := by
  have hmessage : ((messageMember message).reverse.find? fun m => m.1 = "data") = none :=
    find?_messageMember (by decide)
  unfold intercept
  rw [Option.getD_some, if_neg (by rw [h]; decide)]
  simp [Json.get?_record, hmessage]

/-- The `meta` of a page is beside its `data`. -/
theorem get?_intercept_page (users : Users) (data : List Groups.Selected)
    (pageMeta : Messages.PaginationMeta) :
    (intercept message (some ((Payload.page data pageMeta).json users))).get? "data" =
        some (.array (data.map (jsonMessage users))) ∧
      (intercept message (some ((Payload.page data pageMeta).json users))).get? "meta" =
        some (jsonMeta pageMeta) := by
  have hmessage : ∀ name, name ≠ "message" →
      ((messageMember message).reverse.find? fun m => m.1 = name) = none :=
    fun _ => find?_messageMember
  unfold intercept
  rw [Option.getD_some, if_pos (isPaginatedPayload_page users data pageMeta)]
  constructor
  · simp [Json.get?_record, Payload.json, hmessage]
  · simp [Json.get?_record, Payload.json]

end Envelope

/-! ## What each route returns -/

/-- The kind of payload the function for the operation is written for. -/
def Fits : Operation → Payload → Prop
  | .findOne, .group .. => True
  | .markRead, .read _ => True
  | .leave, .left .. => True
  | .transferOwnership _, .transferred .. => True
  | .create _, .message _ => True
  | .findPage _, .page .. => True
  | .search _, .messages _ => True
  | .upload _, .message _ => True
  | .edit .., .message _ => True
  | .remove _, .message _ => True
  | .toggle .., .reactions _ => True
  | _, _ => False

/-- A success of a route is a success of its handler. -/
theorem exists_of_respond {A : Type} {userId : Uuid} {id : String} {pipes : Except Thrown A}
    {handler : A → Groups.Records → Except Thrown (Groups.Records × Payload)} {w : World}
    {p : Payload} (h : (respond (memberRoute userId id pipes handler) w).2 = .http (.ok p)) :
    ∃ a d, handler a w.records = .ok (d, p) := by
  have hanswer : ((memberRoute userId id pipes handler).respond w).2 = .ok p := Answer.http.inj h
  obtain ⟨a, w', hhandler⟩ := Transition.Guarded.exists_of_respond hanswer
  unfold memberRoute at hhandler
  dsimp only at hhandler
  cases hresult : handler a w.records with
  | error e =>
    rw [hresult] at hhandler
    cases hhandler
  | ok result =>
    rw [hresult] at hhandler
    cases hhandler
    exact ⟨a, result.1, hresult⟩

/-- **Every route returns what the browser casts its response to.** -/
theorem fits_serve {env : Env} {userId : Uuid} {id : String} {op : Operation} {w : World}
    {p : Payload} (h : (serve env userId id op w).2 = .http (.ok p)) : Fits op p := by
  cases op with
  | findOne =>
    obtain ⟨a, d, h⟩ := exists_of_respond h
    obtain ⟨groupId, -, h⟩ := exists_of_bind h
    obtain ⟨payload, hfound, h⟩ := exists_of_bind h
    cases h
    unfold Api.findOne at hfound
    cases hgroup : Groups.groupById w.records.tables groupId with
    | none =>
      rw [hgroup] at hfound
      cases hfound
    | some g =>
      rw [hgroup] at hfound
      cases hfound
      trivial
  | markRead =>
    obtain ⟨a, d, h⟩ := exists_of_respond h
    obtain ⟨groupId, -, h⟩ := exists_of_bind h
    unfold Api.markRead at h
    cases hme : Groups.membership w.records.tables groupId userId with
    | none =>
      rw [hme] at h
      cases h
    | some me =>
      rw [hme] at h
      cases h
      trivial
  | leave =>
    obtain ⟨a, d, h⟩ := exists_of_respond h
    obtain ⟨groupId, -, h⟩ := exists_of_bind h
    obtain ⟨left, -, h⟩ := exists_of_bind h
    cases h
    trivial
  | transferOwnership body =>
    obtain ⟨⟨id', target⟩, d, h⟩ := exists_of_respond h
    obtain ⟨t, -, h⟩ := exists_of_bind h
    cases h
    trivial
  | create body =>
    obtain ⟨⟨id', content⟩, d, h⟩ := exists_of_respond h
    obtain ⟨⟨d', m⟩, -, h⟩ := exists_of_bind h
    cases h
    trivial
  | findPage query =>
    obtain ⟨⟨id', limit, cursor⟩, d, h⟩ := exists_of_respond h
    obtain ⟨groupId, -, h⟩ := exists_of_bind h
    obtain ⟨page, -, h⟩ := exists_of_bind h
    cases h
    trivial
  | search query =>
    obtain ⟨⟨id', q⟩, d, h⟩ := exists_of_respond h
    obtain ⟨groupId, -, h⟩ := exists_of_bind h
    obtain ⟨q, -, h⟩ := exists_of_bind h
    cases h
    trivial
  | upload form =>
    obtain ⟨⟨id', content, file⟩, d, h⟩ := exists_of_respond h
    obtain ⟨stored, -, h⟩ := exists_of_bind h
    obtain ⟨⟨d', m⟩, -, h⟩ := exists_of_bind h
    cases h
    trivial
  | edit messageId body =>
    obtain ⟨⟨id', messageId', content⟩, d, h⟩ := exists_of_respond h
    obtain ⟨groupId, -, h⟩ := exists_of_bind h
    obtain ⟨messageId, -, h⟩ := exists_of_bind h
    obtain ⟨text, -, h⟩ := exists_of_bind h
    obtain ⟨⟨d', m⟩, -, h⟩ := exists_of_bind h
    cases h
    trivial
  | remove messageId =>
    obtain ⟨⟨id', messageId'⟩, d, h⟩ := exists_of_respond h
    obtain ⟨groupId, -, h⟩ := exists_of_bind h
    obtain ⟨messageId, -, h⟩ := exists_of_bind h
    obtain ⟨⟨d', m⟩, -, h⟩ := exists_of_bind h
    cases h
    trivial
  | toggle messageId body =>
    obtain ⟨⟨id', messageId', emoji⟩, d, h⟩ := exists_of_respond h
    obtain ⟨groupId, -, h⟩ := exists_of_bind h
    obtain ⟨messageId, -, h⟩ := exists_of_bind h
    obtain ⟨emoji, -, h⟩ := exists_of_bind h
    obtain ⟨⟨d', reactions⟩, -, h⟩ := exists_of_bind h
    cases h
    trivial
  | joinGroup socket => cases h
  | sendMessage content =>
    unfold serve at h
    dsimp only at h
    split at h
    · cases h
    · split at h <;> cases h

/-- The function for the call makes of the envelope what there is to learn. -/
theorem unwrap_intercept (users : Users) (message : Option String) {env : Env} {userId : Uuid}
    {id : String} {op : Operation} {p : Payload} (hfits : Fits op p) :
    unwrap (.operation env userId id op) (intercept message (some (p.json users))) =
      some (viewPayload users p) := by
  have hmessages := asArray_map (asMessage_jsonMessage users)
  have hdata : ∀ {p : Payload}, (∀ data pageMeta, p ≠ .page data pageMeta) →
      (intercept message (some (p.json users))).get? "data" = some (p.json users) :=
    fun h => get?_data_intercept (isPaginatedPayload_json users h)
  cases p with
  | group g members =>
    cases op <;> try exact hfits.elim
    show (field _ "data" asGroupDetail).map _ = _
    rw [field, hdata (by simp), Option.bind_some, asGroupDetail_json]
    rfl
  | read lastReadAt =>
    cases op <;> try exact hfits.elim
    show (field _ "data" _).map _ = _
    rw [field, hdata (by simp), Option.bind_some]
    simp [Payload.json, field_record, viewPayload]
  | left groupDeleted newOwnerId =>
    cases op <;> try exact hfits.elim
    show (field _ "data" asLeaveResult).map _ = _
    rw [field, hdata (by simp), Option.bind_some]
    simp [Payload.json, field_record, asLeaveResult, viewPayload]
  | transferred previousOwnerId newOwnerId =>
    cases op <;> try exact hfits.elim
    show ((intercept _ _).get? "data").bind _ = _
    rw [hdata (by simp), Option.bind_some]
    simp [Payload.json, field_record, viewPayload]
  | message m =>
    have hread : (field (intercept message (some ((Payload.message m).json users))) "data"
        asMessage).map .message = some (viewPayload users (.message m)) := by
      rw [field, hdata (by simp), Option.bind_some]
      show (asMessage (jsonMessage users m)).map _ = _
      rw [asMessage_jsonMessage]
      rfl
    cases op <;> first | exact hfits.elim | exact hread
  | messages data =>
    cases op <;> try exact hfits.elim
    show (field _ "data" (asArray asMessage)).map _ = _
    rw [field, hdata (by simp), Option.bind_some]
    show (asArray asMessage (.array (data.map (jsonMessage users)))).map _ = _
    rw [hmessages]
    rfl
  | page data pageMeta =>
    cases op <;> try exact hfits.elim
    obtain ⟨hpage, hmeta⟩ := @get?_intercept_page message users data pageMeta
    show (field _ "data" (asArray asMessage)).bind (fun _ => (field _ "meta" _).bind _) = _
    rw [field, field, hpage, hmeta, Option.bind_some, Option.bind_some, hmessages,
      asPaginationMeta_jsonMeta]
    rfl
  | reactions marks =>
    cases op <;> try exact hfits.elim
    show (field _ "data" (asArray asReaction)).map _ = _
    rw [field, hdata (by simp), Option.bind_some]
    show (asArray asReaction (.array (marks.map jsonReaction))).map _ = _
    rw [asArray_map asReaction_jsonReaction]
    rfl

/-! ## Errors, read -/

theorem isErrorBody_json (failures : Failures) (e : Thrown) :
    isErrorBody (e.json failures) = true := by
  have hsuccess : (e.json failures).get? "success" = some (.bool false) := by
    simp [Thrown.json, Json.get?_record]
  unfold isErrorBody
  rw [hsuccess]
  rfl

/-- The code and the message are read past whatever details there are. -/
theorem exists_error_json (failures : Failures) (e : Thrown) :
    ∃ error, (e.json failures).get? "error" = some error ∧
      field error "message" asString = some (e.message failures) ∧
        field error "code" asString = some (JsString.ofString (codeText e.code)) := by
  have hdetails : ∀ name, name ≠ "details" → ((e.details.toList.map fun details =>
      ("details", Json.array (details.map .ofText))).reverse.find? fun m => m.1 = name) = none := by
    intro name hname
    refine find?_reverse_of_ne (fun m hm => ?_) hname
    obtain ⟨details, -, rfl⟩ := List.mem_map.mp hm
    rfl
  have hread : (e.json failures).get? "error" = some (.record ([("code", .ofText (codeText e.code)),
      ("message", .string (e.message failures))] ++
        e.details.toList.map fun details => ("details", .array (details.map .ofText)))) := by
    unfold Thrown.json
    rw [Json.get?_record]
    rfl
  refine ⟨_, hread, ?_, ?_⟩
  · rw [field_record, List.reverse_append, List.find?_append, hdetails _ (by decide)]
    rfl
  · rw [field_record, List.reverse_append, List.find?_append, hdetails _ (by decide)]
    rfl

theorem atLeast_natCast (m n : ℕ) : (JsNumber.finite n).atLeast m = decide (m ≤ n) :=
  decide_eq_decide.mpr Nat.cast_le

/-- axios fulfils with what was written under a success, and rejects with it otherwise. -/
theorem settle_stringify (message : JsString) {v : Json} (hv : v.Proper) (n : ℕ) :
    settle message ⟨.finite n, v.stringify⟩ =
      if 200 ≤ n ∧ n < 300 then .ok v else .error ⟨v, message⟩ := by
  unfold settle
  rw [Json.parse_stringify hv, Option.getD_some, atLeast_natCast, atLeast_natCast]
  dsimp only
  by_cases h : 200 ≤ n ∧ n < 300
  · rw [if_pos h, if_pos (by simp; omega)]
  · rw [if_neg h, if_neg (by simp; omega)]

theorem success_bounds (c : Call) : 200 ≤ c.success.1 ∧ c.success.1 < 300 := by
  cases c with
  | operation env userId id op => cases op <;> simp [Call.success, Operation.success]
  | _ => simp [Call.success]

variable {framework : Framework} (failures : Failures) (users : Users)
  (axiosMessage fallback : JsString)

theorem received_error (haccepts : AcceptsStatuses framework) (c : Call) (e : Thrown) {r : Reply}
    (hr : r.response users = some (.error e)) :
    received framework failures users axiosMessage fallback c r =
      some (.error (viewError failures e)) := by
  have hstatus := e.status_bounds
  obtain ⟨error, herror, hmessage, hcode⟩ := exists_error_json failures e
  have hresponse : httpResponse framework failures users c r =
      some ⟨.finite e.status, (e.json failures).stringify⟩ := by
    unfold httpResponse
    rw [hr]
    exact errorResponseOf_eq haccepts failures e
  unfold received
  rw [hresponse]
  show (match settle axiosMessage _ with | .ok body => _ | .error e => _) = _
  rw [settle_stringify axiosMessage (e.proper_json failures), if_neg (by omega)]
  dsimp only
  unfold getApiErrorMessage getApiErrorCode
  rw [isErrorBody_json, if_pos rfl, if_pos rfl, herror]
  show (field error "message" asString).bind _ = _
  rw [hmessage]
  show ((field error "code" asString).map some).bind _ = _
  rw [hcode]
  rfl

theorem received_success {c : Call} {r : Reply} {v : Json} (hv : v.Proper) {result : Result}
    (hr : r.response users = some (.ok v))
    (hunwrap : unwrap c (intercept c.success.2 (some v)) = some result) :
    received framework failures users axiosMessage fallback c r = some (.ok result) := by
  have hresponse : httpResponse framework failures users c r =
      some ⟨.finite c.success.1, (intercept c.success.2 (some v)).stringify⟩ := by
    unfold httpResponse
    rw [hr]
  unfold received
  rw [hresponse]
  show (match settle axiosMessage _ with | .ok body => _ | .error e => _) = _
  rw [settle_stringify axiosMessage (proper_intercept _ hv), if_pos (success_bounds c)]
  dsimp only
  rw [hunwrap]
  rfl

/-- **What the browser learns of a call over HTTP is what the server has made of it.**  To create
a group, to join one, or any of the eleven routes in one: whatever the state, what the handler
returned has the type `lib/api` declares and arrives as that value, and what was thrown arrives
as its message and its code.  Of a call that is not replied to over HTTP there is nothing to
learn on either side. -/
theorem responses_are_read (haccepts : AcceptsStatuses framework) (c : Call) (w : World) :
    received framework failures users axiosMessage fallback c (serveCall c w).2 =
      told failures users (serveCall c w).2 := by
  have hgroup : ∀ {c : Call} {g : Groups.Group}, (∀ v, unwrap c v =
      (field v "data" asGroupSummary).map .summary) →
      received framework failures users axiosMessage fallback c (.group (.ok g)) =
        told failures users (.group (.ok g)) := by
    intro c g hunwrap
    refine received_success failures users axiosMessage fallback (proper_jsonGroup g) rfl ?_
    have hplain : isPaginatedPayload (jsonGroup g) = false :=
      isPaginatedPayload_of_get? (by simp [jsonGroup, groupColumns, Json.get?_record])
    rw [hunwrap, field, get?_data_intercept hplain, Option.bind_some, asGroupSummary_jsonGroup]
    rfl
  cases c with
  | join userId id memberId now =>
    show received _ _ _ _ _ _ (.group _) = told _ _ (.group _)
    cases (joinRoute userId id memberId now).respond w |>.2 with
    | error e => exact received_error failures users axiosMessage fallback haccepts _ e rfl
    | ok g => exact hgroup fun _ => rfl
  | create validator userId body new =>
    show received _ _ _ _ _ _ (.group _) = told _ _ (.group _)
    cases (createRoute validator userId body new).respond w |>.2 with
    | error e => exact received_error failures users axiosMessage fallback haccepts _ e rfl
    | ok g => exact hgroup fun _ => rfl
  | operation env userId id op =>
    show received _ _ _ _ _ _ (.served _) = told _ _ (.served _)
    cases hanswer : (serve env userId id op w).2 with
    | joined ack => rfl
    | sent ack => rfl
    | http response =>
      cases response with
      | error e => exact received_error failures users axiosMessage fallback haccepts _ e rfl
      | ok p =>
        exact received_success failures users axiosMessage fallback (p.proper_json users) rfl
          (unwrap_intercept users _ (fits_serve hanswer))

/-- A database whose failures are plain errors. -/
def plainFailures : Failures where
  target := none
  fault := .value (.object (some false) (some true) true none none true)
  faultMessage := "An unexpected error occurred"
  fault_build := rfl
  fault_logs := rfl

/-- A member reads the first page of the group's history. -/
theorem responses_are_read_busyWorld :
    received ErrorFilter.threeDigits plainFailures ⟨fun _ => "Ada", fun _ => "ada@example.org"⟩
        [] [] (.operation plainEnv 7 "00000000-0000-0000-0000-000000000002"
          (.findPage (.ok (none, none))))
        (serveCall (.operation plainEnv 7 "00000000-0000-0000-0000-000000000002"
          (.findPage (.ok (none, none)))) busyWorld).2 =
      told plainFailures ⟨fun _ => "Ada", fun _ => "ada@example.org"⟩
        (serveCall (.operation plainEnv 7 "00000000-0000-0000-0000-000000000002"
          (.findPage (.ok (none, none)))) busyWorld).2 :=
  responses_are_read plainFailures ⟨fun _ => "Ada", fun _ => "ada@example.org"⟩ [] []
    ErrorFilter.acceptsStatuses_threeDigits _ busyWorld

end Responses
end Client
end GroupChat

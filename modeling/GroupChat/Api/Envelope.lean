import GroupChat.Api.Independence
import GroupChat.Common.ErrorFilter
import GroupChat.Text.IsoDate
import GroupChat.Text.JsonPrint

/-!
# Responses

What goes over the wire.  `ResponseInterceptor` puts what a handler returns into the envelope of
success, and lifts the `meta` of a page to its top level; `AllExceptionsFilter` answers with the
envelope of an error.  `httpResponse` is both, down to the text of the body.

A handler returns rows, with identifiers and times of their own types; the JSON has texts for
them.  The names of the users a row is joined with come from a table of their own, and a
database error that the program does not know may be any the filter answers as a fault.
-/

namespace GroupChat
namespace Api

open Common Database Groups Messages Text
open Common.ErrorFilter (AcceptsStatuses Framework catches errorResponse textValue)

/-! ## Rows as JSON -/

/-- The columns of the user table that are selected. -/
structure Users where
  name : Uuid → String
  email : Uuid → String

def jsonUuid (id : Uuid) : Json := .ofText (printUuid id)

def jsonDate (t : Instant) : Json := .ofText (toISOString t)

def jsonRole : MemberRole → Json
  | .owner => .ofText "OWNER"
  | .admin => .ofText "ADMIN"
  | .member => .ofText "MEMBER"

def jsonType : MessageType → Json
  | .user => .ofText "USER"
  | .system => .ofText "SYSTEM"
  | .aiSummary => .ofText "AI_SUMMARY"

/-- `{ emoji: true, userId: true }` -/
def jsonReaction (r : String × Uuid) : Json :=
  .record [("emoji", .ofText r.1), ("userId", jsonUuid r.2)]

/-- `{ select: { id: true, name: true } }` -/
def jsonSender (users : Users) (id : Uuid) : Json :=
  .record [("id", jsonUuid id), ("name", .ofText (users.name id))]

/-- `MESSAGE_SELECT` -/
def jsonMessage (users : Users) (s : Selected) : Json :=
  .record [("id", jsonUuid s.message.id), ("groupId", jsonUuid s.message.groupId),
    ("content", .ofText s.message.content), ("type", jsonType s.message.type),
    ("createdAt", jsonDate s.message.createdAt),
    ("editedAt", .orNull jsonDate s.message.editedAt),
    ("deletedAt", .orNull jsonDate s.message.deletedAt),
    ("senderId", .orNull jsonUuid s.message.senderId),
    ("sender", .orNull (jsonSender users) s.message.senderId),
    ("reactions", .array (s.reactions.map jsonReaction)),
    ("attachmentUrl", .orNull .ofText s.message.attachmentUrl),
    ("attachmentName", .orNull .ofText s.message.attachmentName),
    ("attachmentMime", .orNull .ofText s.message.attachmentMime)]

/-- `GROUP_MEMBER_SELECT` -/
def jsonMember (users : Users) (r : GroupMember) : Json :=
  .record [("role", jsonRole r.role), ("joinedAt", jsonDate r.joinedAt),
    ("lastReadAt", .orNull jsonDate r.lastReadAt),
    ("user", .record [("id", jsonUuid r.userId), ("name", .ofText (users.name r.userId)),
      ("email", .ofText (users.email r.userId))])]

/-- The columns of a group. -/
def groupColumns (g : Group) : List (String × Json) :=
  [("id", jsonUuid g.id), ("name", .ofText g.name), ("createdBy", jsonUuid g.createdBy),
    ("createdAt", jsonDate g.createdAt)]

def jsonGroup (g : Group) : Json := .record (groupColumns g)

def jsonMeta (pageMeta : PaginationMeta) : Json :=
  .record [("limit", .natural pageMeta.limit), ("nextCursor", .orNull .string pageMeta.nextCursor),
    ("hasMore", .bool pageMeta.hasMore)]

/-- What a handler returns, as JSON. -/
def Payload.json (users : Users) : Payload → Json
  | .group g members =>
    .record (groupColumns g ++ [("members", .array (members.map (jsonMember users)))])
  | .read lastReadAt => .record [("lastReadAt", jsonDate lastReadAt)]
  | .left groupDeleted newOwnerId =>
    .record [("left", .bool true), ("groupDeleted", .bool groupDeleted),
      ("newOwnerId", .orNull jsonUuid newOwnerId)]
  | .transferred previousOwnerId newOwnerId =>
    .record [("previousOwnerId", .ofText previousOwnerId), ("newOwnerId", .ofText newOwnerId)]
  | .message m => jsonMessage users m
  | .messages data => .array (data.map (jsonMessage users))
  | .page data pageMeta =>
    .record [("data", .array (data.map (jsonMessage users))), ("meta", jsonMeta pageMeta)]
  | .reactions marks => .array (marks.map jsonReaction)

/-! ## The envelope of success -/

/-- `isPaginatedPayload` -/
def isPaginatedPayload (value : Json) : Bool :=
  match value with
  | .object members =>
    (value.get? "data").isSome && (value.get? "meta").isSome &&
      (members.map Prod.fst).dedup.length = 2
  | _ => false

/-- `...(message ? { message } : {})` -/
def messageMember (message : Option String) : List (String × Json) :=
  (message.filter (· ≠ "")).toList.map fun message => ("message", .ofText message)

/-- `ResponseInterceptor.intercept`; a handler may return nothing. -/
def intercept (message : Option String) (payload : Option Json) : Json :=
  let data := payload.getD .null
  if isPaginatedPayload data then
    .record ([("success", .bool true), ("data", (data.get? "data").getD .null)] ++
      messageMember message ++ [("meta", (data.get? "meta").getD .null)])
  else .record ([("success", .bool true), ("data", data)] ++ messageMember message)

/-! ## The envelope of an error -/

/-- What is not the program's: how the database reports a failure. -/
structure Failures where
  /-- The columns a unique constraint names, if it names them. -/
  target : Option (List String)
  /-- What a statement that fails for another reason throws. -/
  fault : ErrorFilter.Thrown
  /-- What the filter says of it. -/
  faultMessage : String
  fault_build : ErrorFilter.buildError fault =
    some (.finite 500, errorResponse .INTERNAL_ERROR (textValue faultMessage))
  fault_logs : ErrorFilter.logsFault fault = true

/-- The payload of the framework's own exceptions, whose `message` is a plain member. -/
def payloadWith (message : JsValue) : ErrorFilter.Payload := .object (some message) (some message)

/-- `new HttpException(message)` of a class with this status. -/
def httpException (status : ℕ) (message : String) : ErrorFilter.Thrown :=
  .http ⟨.finite status, payloadWith (textValue message), JsString.ofString message, true⟩

/-- An error of the database the program knows the code of. -/
def prismaError (failures : Failures) : PrismaCode → ErrorFilter.Thrown
  | .P2002 =>
    .prisma ⟨"P2002", some ⟨some (failures.target.elim .undefined fun columns =>
      .array (columns.map textValue))⟩, true⟩
  | .P2003 => .prisma ⟨"P2003", none, true⟩
  | .P2025 => .prisma ⟨"P2025", none, true⟩

/-- What is thrown, as the filter is given it. -/
def Thrown.value (failures : Failures) : Thrown → ErrorFilter.Thrown
  | .exception (.badRequest message) => httpException 400 message
  | .exception (.unauthorized message) => httpException 401 message
  | .exception (.forbidden message) => httpException 403 message
  | .exception (.notFound message) => httpException 404 message
  | .exception (.conflict message) => httpException 409 message
  | .exception (.prisma code) => prismaError failures code
  | .exception .fault => failures.fault
  | .validation details =>
    .http ⟨.finite 400, payloadWith (.array (details.map textValue)),
      JsString.ofString "Bad Request Exception", true⟩
  | .unprocessable message => httpException 422 message
  | .unavailable message => httpException 503 message

/-- The text a value is. -/
def stringOf : JsValue → Option JsString
  | .string s => some s
  | _ => none

def codeText : ErrorFilter.ErrorCode → String
  | .VALIDATION_ERROR => "VALIDATION_ERROR"
  | .UNAUTHORIZED => "UNAUTHORIZED"
  | .FORBIDDEN => "FORBIDDEN"
  | .NOT_FOUND => "NOT_FOUND"
  | .CONFLICT => "CONFLICT"
  | .BAD_REQUEST => "BAD_REQUEST"
  | .INTERNAL_ERROR => "INTERNAL_ERROR"
  | .SERVICE_UNAVAILABLE => "SERVICE_UNAVAILABLE"

/-- The details of an error, where they are texts. -/
def jsonDetails : Option JsValue → Option (List (String × Json))
  | none => some []
  | some (.array items) =>
    (items.mapM stringOf).map fun details => [("details", .array (details.map .string))]
  | some _ => none

/-- `ErrorResponse`, where what it carries are texts. -/
def errorJson (body : ErrorFilter.ErrorResponse) : Option Json := do
  let message ← stringOf body.message
  let details ← jsonDetails body.details
  return .record [("success", .bool body.success),
    ("error", .record ([("code", .ofText (codeText body.code)), ("message", .string message)] ++
      details))]

/-! ## Responses -/

/-- The status of a response and the text of its body. -/
structure HttpResponse where
  status : JsNumber
  body : List Char

/-- The status of the route and its `@ResponseMessage`. -/
def Operation.success : Operation → ℕ × Option String
  | .findOne => (200, none)
  | .markRead => (200, some "Marked as read")
  | .leave => (200, some "Left group")
  | .transferOwnership _ => (200, some "Ownership transferred")
  | .create _ => (201, some "Message sent")
  | .findPage _ => (200, none)
  | .search _ => (200, none)
  | .upload _ => (201, some "File uploaded")
  | .edit .. => (200, some "Message updated")
  | .remove _ => (200, some "Message deleted")
  | .toggle .. => (201, some "Reaction updated")
  -- the two events of the socket have no response
  | .joinGroup _ => (200, none)
  | .sendMessage _ => (200, none)

def Call.success : Call → ℕ × Option String
  | .operation _ _ _ op => op.success
  | .join .. => (200, some "Joined group")
  | .create .. => (201, some "Group created")

/-- What a route returns or throws. -/
def Reply.response (users : Users) : Reply → Option (Except Thrown Json)
  | .group r => some (r.map jsonGroup)
  | .served (.http r) => some (r.map (Payload.json users))
  | .served _ => none

/-- The response of a route that throws. -/
def errorResponseOf (framework : Framework) (failures : Failures) (e : Thrown) :
    Option HttpResponse :=
  match (catches framework (e.value failures)).written with
  | [(status, body)] => (errorJson body).map fun v => ⟨status, v.stringify⟩
  | _ => none

/-- The response to a call that is replied to over HTTP. -/
def httpResponse (framework : Framework) (failures : Failures) (users : Users) (c : Call)
    (r : Reply) : Option HttpResponse :=
  match r.response users with
  | none => none
  | some (.ok payload) =>
    some ⟨.finite c.success.1, (intercept c.success.2 (some payload)).stringify⟩
  | some (.error e) => errorResponseOf framework failures e

/-! ## What a success says -/

theorem isPaginatedPayload_page (users : Users) (data : List Selected) (pageMeta : PaginationMeta) :
    isPaginatedPayload ((Payload.page data pageMeta).json users) = true := by
  have hkeys : ([JsString.ofString "data", JsString.ofString "meta"]).dedup.length = 2 := by decide
  have hdata : (((Payload.page data pageMeta).json users).get? "data").isSome = true := by
    simp [Payload.json, Json.get?_record]
  have hmeta : (((Payload.page data pageMeta).json users).get? "meta").isSome = true := by
    simp [Payload.json, Json.get?_record]
  show (_ && _ && decide _) = true
  rw [hdata, hmeta]
  simp only [List.map_cons, List.map_nil]
  exact decide_eq_true hkeys

theorem isPaginatedPayload_of_get? {v : Json} (h : v.get? "data" = none) :
    isPaginatedPayload v = false := by
  unfold isPaginatedPayload
  split
  · rw [h]
    rfl
  · rfl

/-- Only a page has its members taken apart. -/
theorem isPaginatedPayload_json (users : Users) {p : Payload}
    (h : ∀ data pageMeta, p ≠ .page data pageMeta) : isPaginatedPayload (p.json users) = false := by
  cases p with
  | page data pageMeta => exact absurd rfl (h data pageMeta)
  | messages data => rfl
  | reactions marks => rfl
  | _ =>
    refine isPaginatedPayload_of_get? ?_
    simp [Payload.json, jsonMessage, groupColumns, Json.get?_record]

@[simp] theorem proper_jsonUuid (id : Uuid) : (jsonUuid id).Proper := Json.proper_ofText _

@[simp] theorem proper_jsonDate (t : Instant) : (jsonDate t).Proper := Json.proper_ofText _

@[simp] theorem proper_orNull_text (s : Option String) : (Json.orNull .ofText s).Proper :=
  Json.proper_orNull Json.proper_ofText s

@[simp] theorem proper_orNull_uuid (id : Option Uuid) : (Json.orNull jsonUuid id).Proper :=
  Json.proper_orNull proper_jsonUuid id

@[simp] theorem proper_orNull_date (t : Option Instant) : (Json.orNull jsonDate t).Proper :=
  Json.proper_orNull proper_jsonDate t

@[simp] theorem proper_jsonRole (role : MemberRole) : (jsonRole role).Proper := by
  cases role <;> exact Json.proper_ofText _

@[simp] theorem proper_jsonType (type : MessageType) : (jsonType type).Proper := by
  cases type <;> exact Json.proper_ofText _

theorem proper_jsonReaction (r : String × Uuid) : (jsonReaction r).Proper :=
  Json.proper_record (by simp)

theorem proper_jsonMessage (users : Users) (s : Selected) : (jsonMessage users s).Proper := by
  have hsender : ∀ id, (jsonSender users id).Proper := fun id => Json.proper_record (by simp)
  refine Json.proper_record ?_
  simp [Json.proper_orNull hsender, Json.proper_array_map proper_jsonReaction]

theorem proper_jsonMember (users : Users) (r : GroupMember) : (jsonMember users r).Proper := by
  refine Json.proper_record ?_
  simp only [List.forall_mem_cons, proper_jsonRole, proper_jsonDate, proper_orNull_date, true_and]
  exact ⟨Json.proper_record (by simp), by simp⟩

theorem proper_jsonGroup (g : Group) : (jsonGroup g).Proper :=
  Json.proper_record (by simp [groupColumns])

theorem proper_jsonMeta (pageMeta : PaginationMeta) : (jsonMeta pageMeta).Proper :=
  Json.proper_record (by simp [Json.proper_orNull Json.proper_string])

theorem Payload.proper_json (users : Users) (p : Payload) : (p.json users).Proper := by
  have hmessages := Json.proper_array_map (proper_jsonMessage users)
  cases p with
  | group g members =>
    refine Json.proper_record ?_
    simp [groupColumns, Json.proper_array_map (proper_jsonMember users)]
  | message m => exact proper_jsonMessage users m
  | messages data => exact hmessages data
  | page data pageMeta =>
    refine Json.proper_record ?_
    simp [hmessages, proper_jsonMeta]
  | reactions marks => exact Json.proper_array_map proper_jsonReaction marks
  | _ => exact Json.proper_record (by simp)

theorem proper_of_get? {v data : Json} {name : String} (hv : v.Proper)
    (h : v.get? name = some data) : data.Proper := by
  cases hv with
  | object hmembers =>
    obtain ⟨m, hm, rfl⟩ := Option.map_eq_some_iff.mp h
    exact hmembers m (List.mem_reverse.mp (List.mem_of_find?_eq_some hm))
  | _ => cases h

/-- What is put into the envelope can be written with it. -/
theorem proper_intercept (message : Option String) {v : Json} (hv : v.Proper) :
    (intercept message (some v)).Proper := by
  have hmessage : ∀ m ∈ messageMember message, m.2.Proper := by
    intro m hm
    obtain ⟨s, -, rfl⟩ := List.mem_map.mp hm
    exact Json.proper_ofText s
  have hmember : ∀ name, ((v.get? name).getD .null).Proper := by
    intro name
    cases hget : v.get? name with
    | none => exact .null
    | some data => exact proper_of_get? hv hget
  have happend : ∀ {as bs : List (String × Json)}, (∀ m ∈ as, m.2.Proper) →
      (∀ m ∈ bs, m.2.Proper) → ∀ m ∈ as ++ bs, m.2.Proper :=
    fun has hbs => List.forall_mem_append.mpr ⟨has, hbs⟩
  unfold intercept
  rw [Option.getD_some]
  dsimp only
  split_ifs with hpaginated
  · exact Json.proper_record (happend (happend (by simp [hmember]) hmessage) (by simp [hmember]))
  · exact Json.proper_record (happend (by simp [hv]) hmessage)

/-! ## What an error says -/

def Thrown.status : Thrown → ℕ
  | .exception (.badRequest _) => 400
  | .exception (.unauthorized _) => 401
  | .exception (.forbidden _) => 403
  | .exception (.notFound _) => 404
  | .exception (.conflict _) => 409
  | .exception (.prisma .P2002) => 409
  | .exception (.prisma .P2003) => 400
  | .exception (.prisma .P2025) => 404
  | .exception .fault => 500
  | .validation _ => 400
  | .unprocessable _ => 422
  | .unavailable _ => 503

def Thrown.code : Thrown → ErrorFilter.ErrorCode
  | .exception (.badRequest _) => .BAD_REQUEST
  | .exception (.unauthorized _) => .UNAUTHORIZED
  | .exception (.forbidden _) => .FORBIDDEN
  | .exception (.notFound _) => .NOT_FOUND
  | .exception (.conflict _) => .CONFLICT
  | .exception (.prisma .P2002) => .CONFLICT
  | .exception (.prisma .P2003) => .BAD_REQUEST
  | .exception (.prisma .P2025) => .NOT_FOUND
  | .exception .fault => .INTERNAL_ERROR
  | .validation _ => .VALIDATION_ERROR
  | .unprocessable _ => .BAD_REQUEST
  | .unavailable _ => .SERVICE_UNAVAILABLE

/-- The columns of a unique constraint, joined. -/
def Failures.columns (failures : Failures) : JsString :=
  failures.target.elim [] fun columns =>
    (JsString.ofString ", ").intercalate (columns.map JsString.ofString)

def Thrown.message (failures : Failures) : Thrown → JsString
  | .exception (.badRequest message) => JsString.ofString message
  | .exception (.unauthorized message) => JsString.ofString message
  | .exception (.forbidden message) => JsString.ofString message
  | .exception (.notFound message) => JsString.ofString message
  | .exception (.conflict message) => JsString.ofString message
  | .exception (.prisma .P2002) =>
    if failures.columns = [] then JsString.ofString "A record with these values already exists"
    else JsString.ofString "A record with this " ++ failures.columns ++
      JsString.ofString " already exists"
  | .exception (.prisma .P2003) => JsString.ofString "Referenced record does not exist"
  | .exception (.prisma .P2025) => JsString.ofString "The requested record does not exist"
  | .exception .fault => JsString.ofString failures.faultMessage
  | .validation _ => JsString.ofString "Request validation failed"
  | .unprocessable message => JsString.ofString message
  | .unavailable message => JsString.ofString message

def Thrown.details : Thrown → Option (List String)
  | .validation details => some details
  | _ => none

theorem Thrown.status_bounds (e : Thrown) : 400 ≤ e.status ∧ e.status ≤ 503 := by
  rcases e with (_ | _ | _ | _ | _ | (_ | _ | _) | _) | _ | _ | _ <;> simp [Thrown.status]

variable {framework : Framework}

theorem itemTexts_map_textValue (texts : List String) :
    JsValue.itemTexts (texts.map textValue) = some (texts.map JsString.ofString) := by
  induction texts with
  | nil => rfl
  | cons t texts ih =>
    rw [List.map_cons, List.map_cons, JsValue.itemTexts, ih]
    rfl

/-- A unique constraint, with or without its columns. -/
theorem buildError_unique (failures : Failures) :
    ErrorFilter.buildError (prismaError failures .P2002) =
      some (.finite 409, errorResponse .CONFLICT
        (.string (Thrown.message failures (.exception (.prisma .P2002))))) := by
  have hmessage : ∀ meta?, ErrorFilter.uniqueMessage ⟨"P2002", meta?, true⟩ =
      some (Thrown.message failures (.exception (.prisma .P2002))) →
      ErrorFilter.buildError (.prisma ⟨"P2002", meta?, true⟩) =
        some (.finite 409, errorResponse .CONFLICT
          (.string (Thrown.message failures (.exception (.prisma .P2002))))) := by
    intro meta? h
    unfold ErrorFilter.buildError ErrorFilter.mapPrismaError
    dsimp only
    rw [if_pos rfl, h]
    rfl
  unfold prismaError
  refine hmessage _ ?_
  cases htarget : failures.target with
  | none =>
    have hcolumns : failures.columns = [] := by
      unfold Failures.columns
      rw [htarget]
      rfl
    unfold Thrown.message
    rw [if_pos hcolumns]
    rfl
  | some columns =>
    have hcolumns : failures.columns =
        (JsString.ofString ", ").intercalate (columns.map JsString.ofString) := by
      unfold Failures.columns
      rw [htarget]
      rfl
    have hjoin : JsValue.join (.array (columns.map textValue)) =
        some (.string failures.columns) := by
      rw [JsValue.join, itemTexts_map_textValue, hcolumns]
      rfl
    have hnullish : ¬(JsValue.array (columns.map textValue)).nullish = true := Bool.false_ne_true
    show (ErrorFilter.joined (.array (columns.map textValue))).bind ErrorFilter.conflictMessage = _
    rw [ErrorFilter.joined, if_neg hnullish, hjoin, Option.bind_some, ErrorFilter.conflictMessage,
      JsValue.truthy]
    unfold Thrown.message
    by_cases hempty : failures.columns = []
    · rw [if_neg (by simpa using hempty), if_pos hempty]
    · rw [if_pos (by simpa using hempty), if_neg hempty]
      rfl

/-- What the filter makes of what is thrown. -/
theorem buildError_value (failures : Failures) (e : Thrown) :
    ErrorFilter.buildError (e.value failures) =
      some (.finite e.status, ⟨false, e.code, .string (e.message failures),
        e.details.map fun details => .array (details.map textValue)⟩) := by
  cases e with
  | exception e =>
    cases e with
    | prisma code =>
      cases code with
      | P2002 => exact buildError_unique failures
      | P2003 => rfl
      | P2025 => rfl
    | fault => exact failures.fault_build
    | badRequest message => rfl
    | unauthorized message => rfl
    | forbidden message => rfl
    | notFound message => rfl
    | conflict message => rfl
  | validation details => rfl
  | unprocessable message => rfl
  | unavailable message => rfl

theorem serialises_map_textValue (texts : List String) :
    JsValue.serialises (.array (texts.map textValue)) = true := by
  unfold JsValue.serialises
  induction texts with
  | nil => rfl
  | cons t texts ih =>
    rw [List.map_cons, JsValue.allSerialise, ih]
    rfl

/-- All of it is logged and written. -/
theorem catches_value (haccepts : AcceptsStatuses framework) (failures : Failures) (e : Thrown) :
    catches framework (e.value failures) =
      ⟨[(.finite e.status, ⟨false, e.code, .string (e.message failures),
        e.details.map fun details => .array (details.map textValue)⟩)], false⟩ := by
  refine ErrorFilter.catches_eq_iff.mpr ⟨buildError_value failures e, fun hfault => ?_, ?_, ?_⟩
  · rw [ErrorFilter.isFault_natCast] at hfault
    cases e with
    | exception e =>
      cases e with
      | prisma code => cases code <;> rfl
      | fault => exact failures.fault_logs
      | _ => rfl
    | _ => rfl
  · have hstatus := e.status_bounds
    exact haccepts _ (by omega) (by omega)
  · rcases e with e | details | message | message
    · rfl
    · exact serialises_map_textValue details
    · rfl
    · rfl

/-- The body of an error. -/
def Thrown.json (failures : Failures) (e : Thrown) : Json :=
  .record [("success", .bool false),
    ("error", .record ([("code", .ofText (codeText e.code)),
      ("message", .string (e.message failures))] ++
        e.details.toList.map fun details => ("details", .array (details.map .ofText))))]

theorem Thrown.proper_json (failures : Failures) (e : Thrown) : (e.json failures).Proper := by
  refine Json.proper_record ?_
  simp only [List.forall_mem_cons, Json.proper_bool, true_and]
  refine ⟨Json.proper_record (List.forall_mem_append.mpr ⟨by simp, ?_⟩), by simp⟩
  intro m hm
  obtain ⟨details, -, rfl⟩ := List.mem_map.mp hm
  exact Json.proper_array_map Json.proper_ofText details

theorem errorJson_value (failures : Failures) (e : Thrown) :
    errorJson ⟨false, e.code, .string (e.message failures),
        e.details.map fun details => .array (details.map textValue)⟩ = some (e.json failures) := by
  have htexts : ∀ texts : List String,
      (texts.map textValue).mapM stringOf = some (texts.map JsString.ofString) := by
    intro texts
    induction texts with
    | nil => rfl
    | cons t texts ih =>
      rw [List.map_cons, List.mapM_cons, ih]
      rfl
  unfold errorJson
  dsimp only
  cases e with
  | validation details =>
    show (jsonDetails (some (.array (details.map textValue)))).bind _ = _
    unfold jsonDetails
    dsimp only
    rw [htexts, Option.map_some, Option.bind_some, List.map_map]
    rfl
  | exception e => rfl
  | unprocessable message => rfl
  | unavailable message => rfl

/-- **Every error is answered**, with the status and the envelope of what was thrown. -/
theorem errorResponseOf_eq (haccepts : AcceptsStatuses framework) (failures : Failures)
    (e : Thrown) :
    errorResponseOf framework failures e =
      some ⟨.finite e.status, (e.json failures).stringify⟩ := by
  unfold errorResponseOf
  rw [catches_value haccepts]
  dsimp only
  rw [errorJson_value]
  rfl

end Api
end GroupChat

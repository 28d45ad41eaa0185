import GroupChat.Chat.Rooms
import GroupChat.Groups.Contents
import GroupChat.Groups.Transfer
import GroupChat.Messages.Page
import GroupChat.Messages.Sends
import GroupChat.Transition.Guarded

/-!
# The operations on a group

A member acts on a group over eleven routes and two socket events.  The routes are alike:
the guard looks the caller's membership up under the id of the path, the pipes check the id
again and validate what else the request carries, and the handler calls a service.  Nothing
but the guard and the handler reads the database, and nothing but the handler writes.  The
two socket events call the same membership rule in their handlers, and `send_message` checks
its content first.  To join a group one need not be a member, so `join` has no guard and is
not among them.

`serve` is all of them, each run to its end on its own.  What libraries, the platform and
the storage behind an upload make of a request is a field of `Env`, and may be anything.
-/

namespace GroupChat
namespace Api

open Chat (Ack assertMember)
open Common Database Groups Messages Text Transition
open Messages.Reactions (Toggle)

/-! ## Requests and answers -/

/-- What multer reads of a file. -/
structure UploadedFileLike where
  originalname : String
  mimetype : String
  size : ℕ
  buffer : List UInt8

/-- The fields of an upload. -/
structure UploadForm where
  content : Option JsString
  file : Option UploadedFileLike

/-- What a route throws, by status where it is not one of the services' exceptions. -/
inductive Thrown where
  | exception (e : Exception)
  /-- 400, with the texts of the validation pipe. -/
  | validation (details : List String)
  /-- 422 -/
  | unprocessable (message : String)
  /-- 503 -/
  | unavailable (message : String)
deriving DecidableEq

/-- What the body or the query of a request is to the class it is read into: the fields the
class declares, which may be missing, or the texts another shape is refused with. -/
abbrev Fields (α : Type) := Except (List String) α

/-- What happens to a group.  A socket event stands under the name of its handler. -/
inductive Operation where
  | findOne
  | markRead
  | leave
  | transferOwnership (body : Fields (Option String))
  | create (body : Fields (Option JsString))
  /-- With its `limit` and its `cursor`. -/
  | findPage (query : Fields (Option String × Option JsString))
  | search (query : Fields (Option JsString))
  /-- The form is read by an interceptor, which may throw. -/
  | upload (form : Except Thrown UploadForm)
  | edit (messageId : String) (body : Fields (Option JsString))
  | remove (messageId : String)
  | toggle (messageId : String) (body : Fields (Option JsString))
  | joinGroup (socket : Chat.Socket)
  | sendMessage (content : Option JsString)

/-- What a handler returns. -/
inductive Payload where
  | group (group : Group) (members : List GroupMember)
  | read (lastReadAt : Instant)
  | left (groupDeleted : Bool) (newOwnerId : Option Uuid)
  | transferred (previousOwnerId newOwnerId : String)
  | message (message : Selected)
  | messages (data : List Selected)
  | page (data : List Selected) (pageMeta : PaginationMeta)
  | reactions (reactions : List (String × Uuid))
deriving DecidableEq

/-- What `send_message` comes to. -/
inductive Sent where
  | ok (message : Selected)
  | error (message : String)
  | thrown (e : Thrown)
deriving DecidableEq

/-- What the caller learns.  The envelope of a response is a function of what its route
returns or throws. -/
inductive Answer where
  | http (response : Except Thrown Payload)
  | joined (ack : Ack)
  | sent (ack : Sent)

/-- What an operation takes from outside of the program. -/
structure Env where
  host : Host
  validator : Validator
  /-- The time of the call. -/
  now : Instant
  /-- The id of the row the call creates. -/
  id : Uuid
  /-- The integer `Number` makes of a text, or the texts it is refused with. -/
  limit : String → Fields ℤ
  isUUID : String → Bool
  /-- The text matches `SINGLE_EMOJI`. -/
  singleEmoji : JsString → Bool
  /-- The first text contains the second in any letter case, as the database sees it. -/
  contains : String → String → Bool
  /-- `ParseFilePipe` with its validators. -/
  parseFile : Option UploadedFileLike → Except String UploadedFileLike
  /-- `StorageService.upload`, under the text of the group's id. -/
  upload : String → UploadedFileLike → Except Thrown Attachment

/-- The database and the rooms. -/
structure World where
  records : Records
  rooms : List (Chat.Socket × String)

/-! ## Validation -/

def DEFAULT_PAGE_SIZE : ℤ := 20

def SEARCH_RESULT_LIMIT : ℕ := 50

def SEARCH_QUERY_MIN_LENGTH : ℕ := 1

def SEARCH_QUERY_MAX_LENGTH : ℕ := 100

/-- The texts `@Length` refuses a text with. -/
def lengthErrors (env : Env) (name : String) (min max : ℕ) (value : JsString) : List String :=
  if env.validator.length value < min then
    [name ++ " must be longer than or equal to " ++ toString min ++ " characters"]
  else if max < env.validator.length value then
    [name ++ " must be shorter than or equal to " ++ toString max ++ " characters"]
  else []

/-- The validators of a field run in the reverse order of their decorators. -/
def contentDto (env : Env) (content : Option JsString) : Fields JsString :=
  match content with
  | none =>
    .error ["content must be shorter than or equal to 4000 characters",
      "Message content cannot be empty", "content must be a string"]
  | some content => createMessageDto env.validator content

def transferOwnershipDto (env : Env) (userId : Option String) : Fields String :=
  match userId.filter env.isUUID with
  | none => .error ["userId must be a UUID"]
  | some userId => .ok userId

def paginationQueryDto (env : Env) (query : Option String × Option JsString) :
    Fields (PageSize × Option JsString) :=
  match query.1.elim (.ok DEFAULT_PAGE_SIZE) env.limit with
  | .error details => .error details
  | .ok limit =>
    if hmin : limit < 1 then .error ["limit must not be less than 1"]
    else if hmax : (MAX_PAGE_SIZE : ℤ) < limit then .error ["limit must not be greater than 100"]
    else .ok (⟨limit.toNat, by omega⟩, query.2)

def searchMessagesDto (env : Env) (q : Option JsString) : Fields JsString :=
  match q with
  | none => .error ["q must be longer than or equal to 1 characters", "q must be a string"]
  | some q =>
    match lengthErrors env "q" SEARCH_QUERY_MIN_LENGTH SEARCH_QUERY_MAX_LENGTH q with
    | [] => .ok q
    | details => .error details

def toggleReactionDto (env : Env) (emoji : Option JsString) : Fields JsString :=
  match emoji with
  | none =>
    .error ["Reaction must be a single emoji", "emoji must be longer than or equal to 1 characters",
      "emoji must be a string"]
  | some emoji =>
    match (if env.singleEmoji emoji then [] else ["Reaction must be a single emoji"]) ++
        lengthErrors env "emoji" 1 16 emoji with
    | [] => .ok emoji
    | details => .error details

/-! ## Handlers -/

/-- A service throws. -/
def throwing {α : Type} (x : Except Exception α) : Except Thrown α := x.mapError .exception

/-- The validation pipe. -/
def validate {α β : Type} (dto : α → Fields β) (fields : Fields α) : Except Thrown β :=
  (fields.bind dto).mapError .validation

/-- The value a text has in a statement. -/
def columnUuid (text : String) : Except Thrown Uuid :=
  (readUuid text).elim (.error (.exception .fault)) .ok

/-- The text a string is stored as; a statement that carries another string fails. -/
def columnText (us : JsString) : Except Thrown String :=
  us.text?.elim (.error (.exception .fault)) .ok

/-- A handler's call of the message service. -/
def createMessage (env : Env) (d : Records) (send : Send) (attachment : Option Attachment) :
    Except Thrown (Records × Selected) := do
  let groupId ← columnUuid send.groupId
  let content ← columnText send.content
  throwing (d.createMessage ⟨groupId, some send.senderId, content, .user, attachment⟩ env.id env.now)

def findOne (d : Records) (groupId : Uuid) : Except Exception Payload :=
  match groupById d.tables groupId with
  | none => .error (.notFound "Group not found")
  | some group =>
    .ok (.group group (((membersOf d.tables).filter fun r => r.groupId = groupId).insertionSort
      fun a b => a.joinedAt ≤ b.joinedAt))

def markRead (d : Records) (userId groupId : Uuid) (now : Instant) :
    Except Exception (Records × Payload) :=
  match membership d.tables groupId userId with
  | none => .error (.prisma .P2025)
  | some me => .ok (d.updateMember me.id (.lastReadAt now), .read now)

def search (env : Env) (d : Records) (groupId : Uuid) (q : String) : List Message :=
  ((d.messages.rows.filter fun m => m.groupId = groupId ∧ m.type = .user ∧ m.deletedAt = none ∧
    env.contains m.content q).insertionSort NewestFirst).take SEARCH_RESULT_LIMIT

/-! ## Routes -/

/-- A route behind `GroupMemberGuard`. -/
def memberRoute {A : Type} (userId : Uuid) (id : String) (pipes : Except Thrown A)
    (handler : A → Records → Except Thrown (Records × Payload)) : Guarded World A Payload Thrown where
  guard w := throwing ((assertMember w.records.tables userId id).map fun _ => ())
  pipes := pipes
  handler a w := (handler a w.records).map fun result => (⟨result.1, w.rooms⟩, result.2)

/-- A route answers. -/
def respond {A : Type} (r : Guarded World A Payload Thrown) (w : World) : World × Answer :=
  ((r.respond w).1, .http (r.respond w).2)

/-- `ParseUuidPipe` -/
def idPipe (id : String) : Except Thrown String := throwing (parseUuidPipe id)

/-- The operation, called by the user under this text for the group's id. -/
def serve (env : Env) (userId : Uuid) (id : String) : Operation → World → World × Answer
  | .findOne => respond <| memberRoute userId id (idPipe id) fun id d => do
    let groupId ← columnUuid id
    return (d, ← throwing (findOne d groupId))
  | .markRead => respond <| memberRoute userId id (idPipe id) fun id d => do
    let groupId ← columnUuid id
    throwing (markRead d userId groupId env.now)
  | .leave => respond <| memberRoute userId id (idPipe id) fun id d => do
    let groupId ← columnUuid id
    let left ← throwing (Groups.leave d userId groupId)
    return (left.records, .left left.groupDeleted left.newOwnerId)
  | .transferOwnership body =>
    let pipes := do
      return (← idPipe id, ← validate (transferOwnershipDto env) body)
    respond <| memberRoute userId id pipes fun (id, targetUserId) d => do
      let t ← throwing (Groups.transferOwnership d userId id targetUserId)
      return (t.records, .transferred t.previousOwnerId t.newOwnerId)
  | .create body =>
    let pipes := do
      return (← idPipe id, ← validate (contentDto env) body)
    respond <| memberRoute userId id pipes fun (id, content) d => do
      let (d, m) ← createMessage env d ⟨id, userId, content⟩ none
      return (d, .message m)
  | .findPage query =>
    let pipes := do
      return (← idPipe id, ← validate (paginationQueryDto env) query)
    respond <| memberRoute userId id pipes fun (id, limit, cursor) d => do
      let groupId ← columnUuid id
      let page ← throwing (Messages.findPage env.host d.messages groupId limit cursor)
      return (d, .page (page.data.map d.select) page.pageMeta)
  | .search query =>
    let pipes := do
      return (← idPipe id, ← validate (searchMessagesDto env) query)
    respond <| memberRoute userId id pipes fun (id, q) d => do
      let groupId ← columnUuid id
      let q ← columnText q
      return (d, .messages ((search env d groupId q).map d.select))
  | .upload form =>
    let pipes := do
      let form ← form
      let id ← idPipe id
      return (id, form.content, ← (env.parseFile form.file).mapError .unprocessable)
    respond <| memberRoute userId id pipes fun (id, content, file) d => do
      -- the bytes first
      let stored ← env.upload id file
      let (d, m) ← createMessage env d ⟨id, userId, (content.getD []).trim⟩ (some stored)
      return (d, .message m)
  | .edit messageId body =>
    let pipes := do
      return (← idPipe id, ← idPipe messageId, ← validate (contentDto env) body)
    respond <| memberRoute userId id pipes fun (id, messageId, content) d => do
      let (d, m) ← throwing (d.changeMessage (← columnUuid id) (← columnUuid messageId) userId
        (.edit (← columnText content)) env.now)
      return (d, .message m)
  | .remove messageId =>
    let pipes := do
      return (← idPipe id, ← idPipe messageId)
    respond <| memberRoute userId id pipes fun (id, messageId) d => do
      let (d, m) ← throwing (d.changeMessage (← columnUuid id) (← columnUuid messageId) userId
        .softDelete env.now)
      return (d, .message m)
  | .toggle messageId body =>
    let pipes := do
      return (← idPipe id, ← idPipe messageId, ← validate (toggleReactionDto env) body)
    respond <| memberRoute userId id pipes fun (id, messageId, emoji) d => do
      let q : Toggle := ⟨← columnUuid id, ← columnUuid messageId, userId, ← columnText emoji⟩
      let (d, reactions) ← throwing (d.toggleReaction q env.id env.now)
      return (d, .reactions reactions)
  | .joinGroup socket => fun w =>
    let (rooms, ack) :=
      Chat.joinGroup w.records.tables (fun _ => userId) w.rooms socket (some id)
    (⟨w.records, rooms⟩, .joined ack)
  | .sendMessage content => fun w =>
    match Messages.sendMessage w.records.tables userId (some id) content with
    | .error message => (w, .sent (.error message))
    | .ok send =>
      match createMessage env w.records send none with
      | .error e => (w, .sent (.thrown e))
      | .ok (d, m) => (⟨d, w.rooms⟩, .sent (.ok m))

end Api
end GroupChat

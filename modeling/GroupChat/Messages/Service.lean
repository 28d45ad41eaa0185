import GroupChat.Common.Exception
import GroupChat.Database.Column
import GroupChat.Database.Table
import GroupChat.Transition.Run

/-!
# The interactive message service

`MessagesService` writes messages in four calls.  `create` and
`createWithAttachment` funnel into one insert; `edit` and `softDelete` first read
the row to check that the caller wrote it, and then update it by id alone.  Each
of them emits one event after its write.

A call is a small program counter (`Call`), and one action lets one call take
one step: run its next database statement, or emit.  Statements of different
calls interleave freely, since each is a transaction of its own.

The lemma everything else uses is `rows_of_step`: a step either leaves the table
alone, inserts one fresh live row, or updates the one row a call in `updating`
names.  Nothing else about the step function is needed to prove an invariant of
the table.
-/

namespace GroupChat
namespace Messages

open Common Database

/-! ## Rows -/

/-- Who a message comes from. -/
inductive MessageType where
  | user
  | system
  | aiSummary
deriving DecidableEq, Repr

/-- A row of the message table. -/
structure Message where
  id : Uuid
  groupId : Uuid
  /-- Null for messages without a human sender. -/
  senderId : Option Uuid
  content : String
  type : MessageType
  createdAt : Instant
  editedAt : Option Instant
  /-- Set on a tombstone. -/
  deletedAt : Option Instant
  attachmentUrl : Option String
  attachmentName : Option String
  attachmentMime : Option String
deriving DecidableEq

/-- The stored file a message carries. -/
structure Attachment where
  url : String
  name : String
  mime : String
deriving DecidableEq

/-- The message table. -/
abbrev MessageTable := Table Message.id

/-! ## Calls -/

/-- The columns an insert provides; the others have defaults. -/
structure NewMessage where
  groupId : Uuid
  senderId : Option Uuid
  content : String
  type : MessageType
  attachment : Option Attachment
deriving DecidableEq

/-- The row an insert creates. -/
def NewMessage.toRow (data : NewMessage) (id : Uuid) (now : Instant) : Message where
  id := id
  groupId := data.groupId
  senderId := data.senderId
  content := data.content
  type := data.type
  createdAt := now
  editedAt := none
  deletedAt := none
  attachmentUrl := data.attachment.map Attachment.url
  attachmentName := data.attachment.map Attachment.name
  attachmentMime := data.attachment.map Attachment.mime

/-- What an update writes. -/
inductive Change where
  | edit (content : String)
  | softDelete
deriving DecidableEq

/-- The row after an update. -/
def Change.apply (change : Change) (now : Instant) (m : Message) : Message :=
  match change with
  | .edit content => { m with content := content, editedAt := some now }
  | .softDelete => { m with deletedAt := some now, content := "" }

@[simp] theorem Change.apply_id (change : Change) (now : Instant) (m : Message) :
    (change.apply now m).id = m.id := by
  cases change <;> rfl

@[simp] theorem Change.apply_groupId (change : Change) (now : Instant) (m : Message) :
    (change.apply now m).groupId = m.groupId := by
  cases change <;> rfl

/-- The calls of the service. -/
inductive Request where
  | create (groupId senderId : Uuid) (content : String)
  | createWithAttachment (groupId senderId : Uuid) (content : String) (attachment : Attachment)
  | edit (groupId messageId userId : Uuid) (content : String)
  | softDelete (groupId messageId userId : Uuid)
deriving DecidableEq

/-- What the service tells its listeners. -/
inductive Event where
  | created (message : Message)
  | updated (message : Message)
deriving DecidableEq

/-- The row an event carries, which is also what the call returns. -/
def Event.message : Event → Message
  | .created m => m
  | .updated m => m

/-- Where a call stands. -/
inductive Call where
  /-- Not made yet. -/
  | idle
  /-- `persistAndEmit`, before the insert. -/
  | persisting (data : NewMessage)
  /-- `assertOwnUserMessage`, before its query. -/
  | asserting (groupId messageId userId : Uuid) (change : Change)
  /-- The check has passed; before the update. -/
  | updating (messageId : Uuid) (change : Change)
  /-- The write is committed; before the emit. -/
  | emitting (event : Event)
  | returned (message : Message)
  | thrown (e : Exception)
deriving DecidableEq

/-- The first statement a call runs. -/
def Request.start : Request → Call
  | .create groupId senderId content =>
    .persisting ⟨groupId, some senderId, content, .user, none⟩
  | .createWithAttachment groupId senderId content attachment =>
    .persisting ⟨groupId, some senderId, content, .user, some attachment⟩
  | .edit groupId messageId userId content => .asserting groupId messageId userId (.edit content)
  | .softDelete groupId messageId userId => .asserting groupId messageId userId .softDelete

/-- The message must exist in this group and be a user message of the caller. -/
def assertOwnUserMessage (rows : MessageTable) (groupId messageId userId : Uuid) :
    Except Exception Message :=
  match rows.rows.find? fun m => m.id = messageId ∧ m.groupId = groupId with
  | none => .error (.notFound "Message not found")
  | some existing =>
    if existing.senderId ≠ some userId ∨ existing.type ≠ .user then
      .error (.forbidden "You can only change your own messages")
    else .ok existing

/-- The query of `edit` and `softDelete`, with what each does with the row it
reads: only `edit` looks at `deletedAt`. -/
def authorise (rows : MessageTable) (groupId messageId userId : Uuid) :
    Change → Except Exception Message
  | .edit _ => do
    let existing ← assertOwnUserMessage rows groupId messageId userId
    if existing.deletedAt.isSome then throw (.forbidden "This message has been deleted")
    return existing
  | .softDelete => assertOwnUserMessage rows groupId messageId userId

/-! ## Steps -/

/-- The message table, the calls, and the events emitted so far. -/
structure State where
  rows : MessageTable
  calls : ℕ → Call
  events : List Event

/-- Before any call. -/
def start (rows : MessageTable) : State := ⟨rows, fun _ => .idle, []⟩

/-- Move one call. -/
def State.goto (s : State) (c : ℕ) (pc : Call) : State :=
  { s with calls := Function.update s.calls c pc }

@[simp] theorem State.goto_rows (s : State) (c : ℕ) (pc : Call) : (s.goto c pc).rows = s.rows :=
  rfl

/-- What may happen next. -/
inductive Action where
  /-- A new call is made. -/
  | request (c : ℕ) (r : Request)
  /-- A call runs its next statement; an insert takes its id and time from here. -/
  | statement (c : ℕ) (id : Uuid) (now : Instant)
  /-- A call whose write is committed emits its event and returns. -/
  | emit (c : ℕ)
  /-- A statement fails for a reason outside the program. -/
  | fault (c : ℕ)
deriving DecidableEq

/-- The insert of `persistAndEmit`. -/
def State.insert (s : State) (c : ℕ) (m : Message) : State :=
  match s.rows.find? m.id with
  | some _ => s.goto c (.thrown (.prisma .P2002))
  | none => { s with rows := s.rows.put m }.goto c (.emitting (.created m))

/-- The update of `edit` and `softDelete`: by id alone. -/
def State.update (s : State) (c : ℕ) (messageId : Uuid) (change : Change) (now : Instant) :
    State :=
  match s.rows.find? messageId with
  | none => s.goto c (.thrown (.prisma .P2025))
  | some m =>
    { s with rows := s.rows.put (change.apply now m) }.goto c
      (.emitting (.updated (change.apply now m)))

/-- One step of one call. -/
def step (s : State) : Action → Option State
  | .request c r =>
    match s.calls c with
    | .idle => some (s.goto c r.start)
    | _ => none
  | .statement c id now =>
    match s.calls c with
    | .persisting data => some (s.insert c (data.toRow id now))
    | .asserting groupId messageId userId change =>
      match authorise s.rows groupId messageId userId change with
      | .error e => some (s.goto c (.thrown e))
      | .ok _ => some (s.goto c (.updating messageId change))
    | .updating messageId change => some (s.update c messageId change now)
    | _ => none
  | .emit c =>
    match s.calls c with
    | .emitting event =>
      some ({ s with events := s.events ++ [event] }.goto c (.returned event.message))
    | _ => none
  | .fault c =>
    match s.calls c with
    | .persisting _ | .asserting .. | .updating .. => some (s.goto c (.thrown .fault))
    | _ => none

/-- The call has a statement to run. -/
def Call.running : Call → Bool
  | .persisting _ | .asserting .. | .updating .. => true
  | _ => false

/-- **What a step can do.** -/
inductive Moved (s : State) : Action → State → Prop
  | requested {c : ℕ} {r : Request} (pc : s.calls c = .idle) :
      Moved s (.request c r) (s.goto c r.start)
  | inserted {c : ℕ} {id : Uuid} {now : Instant} {data : NewMessage}
      (pc : s.calls c = .persisting data) (fresh : s.rows.find? id = none) :
      Moved s (.statement c id now)
        ({ s with rows := s.rows.put (data.toRow id now) }.goto c
          (.emitting (.created (data.toRow id now))))
  | collided {c : ℕ} {id : Uuid} {now : Instant} {data : NewMessage}
      (pc : s.calls c = .persisting data) :
      Moved s (.statement c id now) (s.goto c (.thrown (.prisma .P2002)))
  | refused {c : ℕ} {id : Uuid} {now : Instant} {groupId messageId userId : Uuid}
      {change : Change} {e : Exception} (pc : s.calls c = .asserting groupId messageId userId change)
      (authorise_eq : authorise s.rows groupId messageId userId change = .error e) :
      Moved s (.statement c id now) (s.goto c (.thrown e))
  | authorised {c : ℕ} {id : Uuid} {now : Instant} {groupId messageId userId : Uuid}
      {change : Change} {m : Message} (pc : s.calls c = .asserting groupId messageId userId change)
      (authorise_eq : authorise s.rows groupId messageId userId change = .ok m) :
      Moved s (.statement c id now) (s.goto c (.updating messageId change))
  | updated {c : ℕ} {id : Uuid} {now : Instant} {messageId : Uuid} {change : Change} {m : Message}
      (pc : s.calls c = .updating messageId change) (found : s.rows.find? messageId = some m) :
      Moved s (.statement c id now)
        ({ s with rows := s.rows.put (change.apply now m) }.goto c
          (.emitting (.updated (change.apply now m))))
  | vanished {c : ℕ} {id : Uuid} {now : Instant} {messageId : Uuid} {change : Change}
      (pc : s.calls c = .updating messageId change) :
      Moved s (.statement c id now) (s.goto c (.thrown (.prisma .P2025)))
  | emitted {c : ℕ} {event : Event} (pc : s.calls c = .emitting event) :
      Moved s (.emit c) ({ s with events := s.events ++ [event] }.goto c (.returned event.message))
  | faulted {c : ℕ} (running : (s.calls c).running = true) :
      Moved s (.fault c) (s.goto c (.thrown .fault))

theorem moved_of_step {s t : State} {a : Action} (h : step s a = some t) : Moved s a t := by
  cases a with
  | request c r =>
    simp only [step] at h
    split at h
    · next hpc =>
      rw [← Option.some.inj h]
      exact .requested hpc
    · exact absurd h (by simp)
  | statement c id now =>
    simp only [step] at h
    split at h
    · next data hpc =>
      rw [← Option.some.inj h]
      unfold State.insert
      split
      · exact .collided hpc
      · next hfresh => exact .inserted hpc hfresh
    · next hpc =>
      split at h
      · next heq =>
        rw [← Option.some.inj h]
        exact .refused hpc heq
      · next heq =>
        rw [← Option.some.inj h]
        exact .authorised hpc heq
    · next hpc =>
      rw [← Option.some.inj h]
      unfold State.update
      split
      · exact .vanished hpc
      · next hm => exact .updated hpc hm
    · exact absurd h (by simp)
  | emit c =>
    simp only [step] at h
    split at h
    · next hpc =>
      rw [← Option.some.inj h]
      exact .emitted hpc
    · exact absurd h (by simp)
  | fault c =>
    simp only [step] at h
    split at h
    · next hpc =>
      rw [← Option.some.inj h]
      exact .faulted (by rw [hpc]; rfl)
    · next hpc =>
      rw [← Option.some.inj h]
      exact .faulted (by rw [hpc]; rfl)
    · next hpc =>
      rw [← Option.some.inj h]
      exact .faulted (by rw [hpc]; rfl)
    · exact absurd h (by simp)

/-! ## What a step does to the table -/

/-- The row an insert statement is about to write, under an unused id. -/
def Inserts (s : State) (a : Action) (m : Message) : Prop :=
  ∃ c id now data, a = .statement c id now ∧ s.calls c = .persisting data ∧
    m = data.toRow id now ∧ s.rows.find? m.id = none

/-- A new row is not a tombstone. -/
theorem Inserts.deletedAt_eq_none {s : State} {a : Action} {m : Message} (h : Inserts s a m) :
    m.deletedAt = none := by
  obtain ⟨_, _, _, _, -, -, rfl, -⟩ := h
  rfl

theorem Inserts.find?_eq_none {s : State} {a : Action} {m : Message} (h : Inserts s a m) :
    s.rows.find? m.id = none := by
  obtain ⟨_, _, _, _, -, -, -, hfree⟩ := h
  exact hfree

/-- The row an update statement is about to overwrite. -/
def Overwrites (s : State) (a : Action) (change : Change) (now : Instant) (m : Message) : Prop :=
  ∃ c id messageId, a = .statement c id now ∧ s.calls c = .updating messageId change ∧
    s.rows.find? messageId = some m

/-- An update statement is available and overwrites its row. -/
theorem Overwrites.rows_of_step {s t : State} {a : Action} {change : Change} {now : Instant}
    {m : Message} (h : Overwrites s a change now m) (hstep : step s a = some t) :
    t.rows = s.rows.put (change.apply now m) := by
  obtain ⟨c, id, messageId, rfl, hpc, hm⟩ := h
  simp only [step, hpc, State.update, hm, Option.some.injEq] at hstep
  rw [← hstep]
  rfl

/-- **What a step can do to the table.**  It leaves it alone, inserts one row under
an unused id, or overwrites one row. -/
theorem rows_of_step {s t : State} {a : Action} (h : step s a = some t) :
    t.rows = s.rows ∨
    (∃ m, Inserts s a m ∧ t.rows = s.rows.put m) ∨
    (∃ change now m, Overwrites s a change now m ∧ t.rows = s.rows.put (change.apply now m)) := by
  cases moved_of_step h with
  | inserted hpc hfresh => exact Or.inr (Or.inl ⟨_, ⟨_, _, _, _, rfl, hpc, rfl, hfresh⟩, rfl⟩)
  | updated hpc hm => exact Or.inr (Or.inr ⟨_, _, _, ⟨_, _, _, rfl, hpc, hm⟩, rfl⟩)
  | requested | collided | refused | authorised | vanished | emitted | faulted => exact Or.inl rfl

end Messages
end GroupChat

import GroupChat.Messages.Sends
import GroupChat.Text.JsonValue

/-!
# Acknowledgements

A socket handler answers with an acknowledgement, and a handler that throws leaves the client
waiting for one.  No pipe stands before the handlers: the payload is any JSON value, and the
calls a handler makes may fail in any way.  `joinGroup` catches whatever happens.  `leaveGroup`
catches nothing, and `sendMessage` catches only what `assertMember` throws: it
trims the content before, and writes the message after.

`acknowledges_iff` is the exact condition under which all three answer.  That
`sendMessage` says ok just when the row was written needs no condition (`sent_iff`).
-/

namespace GroupChat
namespace Chat
namespace Acks

open Groups Messages Text

/-! ## Payloads and calls -/

/-- What is thrown: a `ForbiddenException`, or any other error. -/
inductive Thrown where
  | forbidden
  | other
deriving DecidableEq

/-- `body?.name` -/
def property (body : Option Json) (name : String) : Option Json := body.bind (·.get? name)

/-- `value ?? ''` -/
def orEmpty : Option Json → Json
  | none | some .null => .string []
  | some value => value

/-- `if (value)` -/
def isTrue (value : Option Json) : Bool := value.any Json.truthy

/-- What comes of the calls the handlers make. -/
structure Calls (Row : Type) where
  assertMember : Json → Except Thrown Unit
  /-- `socket.join` -/
  join : Except Thrown Unit
  /-- `socket.leave` -/
  leave : Except Thrown Unit
  /-- `presence.broadcast` -/
  broadcast : Except Thrown Unit
  /-- `prisma.message.create` -/
  insert : Json → JsString → Except Thrown Row

variable {Row : Type}

/-- `roomFor`: a value without a text is a `TypeError` in the template. -/
def interpolate (value : Json) : Except Thrown Unit :=
  if value.hasText then .ok () else .error .other

/-! ## Joining and leaving -/

/-- `join_group` -/
def joinGroup (calls : Calls Row) (body : Option Json) : Except Thrown Ack :=
  let groupId := orEmpty (property body "groupId")
  let attempt := do
    calls.assertMember groupId
    interpolate groupId
    calls.join
    calls.broadcast
  match attempt with
  | .ok () => .ok .ok
  | .error .forbidden => .ok (.error notAMemberMessage)
  | .error .other => .ok (.error "Something went wrong")

/-- `leave_group` -/
def leaveGroup (calls : Calls Row) (body : Option Json) : Except Thrown Ack := do
  if isTrue (property body "groupId") then
    interpolate (orEmpty (property body "groupId"))
    calls.leave
    calls.broadcast
  return .ok

/-! ## Sending -/

/-- The acknowledgement of a message. -/
inductive SendAck (Row : Type) where
  | ok (message : Row)
  | error (text : String)
deriving DecidableEq

/-- The rows that are stored, and the messages announced by `MESSAGE_CREATED`. -/
structure World (Row : Type) where
  rows : List Row
  announced : List Row
deriving DecidableEq

/-- `(body?.content ?? '').trim()` and the check of its length.  Only a string has a `trim`. -/
def checkedContent (content : Json) : Except Thrown (Except String JsString) :=
  match content with
  | .string s => .ok (checkContent (some s))
  | _ => .error .other

/-- `persistAndEmit`; what a listener throws is not passed on. -/
def persistAndEmit (calls : Calls Row) (groupId : Json) (content : JsString) (w : World Row) :
    World Row × Except Thrown Row :=
  match calls.insert groupId content with
  | .error e => (w, .error e)
  | .ok message => (⟨w.rows ++ [message], w.announced ++ [message]⟩, .ok message)

/-- `send_message` -/
def sendMessage (calls : Calls Row) (body : Option Json) (w : World Row) :
    World Row × Except Thrown (SendAck Row) :=
  let groupId := orEmpty (property body "groupId")
  match checkedContent (orEmpty (property body "content")) with
  | .error e => (w, .error e)
  | .ok (.error text) => (w, .ok (.error text))
  | .ok (.ok content) =>
    match calls.assertMember groupId with
    | .error .forbidden => (w, .ok (.error notAMemberMessage))
    | .error .other => (w, .ok (.error "Something went wrong"))
    | .ok () =>
      let (w', created) := persistAndEmit calls groupId content w
      (w', created.map .ok)

/-! ## The handlers answer -/

/-- Every handler returns an acknowledgement, and `sendMessage` says ok just when it has written
the message. -/
structure Acknowledges (calls : Calls Row) (body : Option Json) : Prop where
  joinGroup : ∃ ack, Acks.joinGroup calls body = .ok ack
  leaveGroup : ∃ ack, Acks.leaveGroup calls body = .ok ack
  sendMessage : ∀ w, ∃ ack, (Acks.sendMessage calls body w).2 = .ok ack
  sent_iff : ∀ w message, (Acks.sendMessage calls body w).2 = .ok (.ok message) ↔
    (Acks.sendMessage calls body w).1.rows = w.rows ++ [message]

/-- A group to leave has a text, and neither the socket nor the broadcast fails. -/
def LeavesSafely (calls : Calls Row) (body : Option Json) : Prop :=
  isTrue (property body "groupId") = true →
    (orEmpty (property body "groupId")).hasText = true ∧ calls.leave = .ok () ∧
      calls.broadcast = .ok ()

/-- The content is a string or missing, and a member's message that passes the check is
written. -/
def SendsSafely (calls : Calls Row) (body : Option Json) : Prop :=
  ∃ s, orEmpty (property body "content") = .string s ∧
    ∀ content, checkContent (some s) = .ok content →
      calls.assertMember (orEmpty (property body "groupId")) = .ok () →
        ∃ message, calls.insert (orEmpty (property body "groupId")) content = .ok message

variable {calls : Calls Row} {body : Option Json}

/-- **Joining always answers.** -/
theorem exists_joinGroup (calls : Calls Row) (body : Option Json) :
    ∃ ack, joinGroup calls body = .ok ack := by
  unfold joinGroup
  dsimp only
  split
  · exact ⟨_, rfl⟩
  · exact ⟨_, rfl⟩
  · exact ⟨_, rfl⟩

/-- A computation returns if its first part does and then the rest. -/
theorem exists_bind_iff {α β : Type} {x : Except Thrown α} {f : α → Except Thrown β} :
    (∃ b, (x >>= f) = .ok b) ↔ ∃ a, x = .ok a ∧ ∃ b, f a = .ok b := by
  cases x with
  | error e => simp [bind, Except.bind]
  | ok a => simp [bind, Except.bind]

theorem interpolate_eq_ok_iff {value : Json} {u : Unit} :
    interpolate value = .ok u ↔ value.hasText = true := by
  unfold interpolate
  split
  · rename_i htext
    exact iff_of_true rfl htext
  · rename_i htext
    exact iff_of_false (by simp) htext

/-- **Leaving answers if nothing it does fails.** -/
theorem exists_leaveGroup_iff :
    (∃ ack, leaveGroup calls body = .ok ack) ↔ LeavesSafely calls body := by
  unfold leaveGroup LeavesSafely
  by_cases htrue : isTrue (property body "groupId") = true
  · rw [if_pos htrue, forall_prop_of_true htrue]
    simp only [exists_bind_iff, interpolate_eq_ok_iff]
    constructor
    · rintro ⟨_, htext, _, hleave, _, hbroadcast, -⟩
      exact ⟨htext, hleave, hbroadcast⟩
    · rintro ⟨htext, hleave, hbroadcast⟩
      exact ⟨(), htext, (), hleave, (), hbroadcast, .ok, rfl⟩
  · rw [if_neg htrue]
    exact iff_of_true ⟨_, rfl⟩ fun h => absurd h htrue

/-- **Sending answers if the content is a string and the message is written.** -/
theorem exists_sendMessage_iff (w : World Row) :
    (∃ ack, (sendMessage calls body w).2 = .ok ack) ↔ SendsSafely calls body := by
  unfold sendMessage SendsSafely checkedContent persistAndEmit
  dsimp only
  cases hcontent : orEmpty (property body "content") with
  | string s =>
    cases hcheck : checkContent (some s) with
    | error text => simp [hcheck]
    | ok content =>
      cases hmember : calls.assertMember (orEmpty (property body "groupId")) with
      | error e => cases e <;> simp [hcheck]
      | ok u =>
        cases hinsert : calls.insert (orEmpty (property body "groupId")) content with
        | error e => simp [hcheck, hinsert, Except.map]
        | ok message => simp [hcheck, hinsert, Except.map]
  | _ => simp

/-- **What is acknowledged is written**, and what is written is acknowledged. -/
theorem sendMessage_sent_iff (calls : Calls Row) (body : Option Json) (w : World Row)
    (message : Row) :
    (sendMessage calls body w).2 = .ok (.ok message) ↔
      (sendMessage calls body w).1.rows = w.rows ++ [message] := by
  unfold sendMessage persistAndEmit
  dsimp only
  split
  · simp
  · simp
  · split
    · simp
    · simp
    · split
      · simp [Except.map]
      · simp [Except.map]

/-- **When the handlers answer.** -/
theorem acknowledges_iff (calls : Calls Row) (body : Option Json) :
    Acknowledges calls body ↔ LeavesSafely calls body ∧ SendsSafely calls body := by
  constructor
  · intro h
    exact ⟨exists_leaveGroup_iff.mp h.leaveGroup,
      (exists_sendMessage_iff ⟨[], []⟩).mp (h.sendMessage ⟨[], []⟩)⟩
  · rintro ⟨hleave, hsend⟩
    exact ⟨exists_joinGroup calls body, exists_leaveGroup_iff.mpr hleave,
      fun w => (exists_sendMessage_iff w).mpr hsend, sendMessage_sent_iff calls body⟩

/-- The group is deleted between the check and the insert. -/
def deletedMeanwhile : Calls JsString where
  assertMember _ := .ok ()
  join := .ok ()
  leave := .ok ()
  broadcast := .ok ()
  insert _ _ := .error .other

/-- A message for a group. -/
def greeting : Json :=
  .object [(JsString.ofString "groupId",
      .string (JsString.ofString "0198a3f2-5b6c-7d8e-9fa0-0b1c2d3e7c01")),
    (JsString.ofString "content", .string (JsString.ofString "hi"))]

/-- **A message that cannot be written is not acknowledged.** -/
theorem not_acknowledges_deletedMeanwhile : ¬ Acknowledges deletedMeanwhile (some greeting) := by
  intro h
  have hthrown : (sendMessage deletedMeanwhile (some greeting) ⟨[], []⟩).2 = .error .other := rfl
  obtain ⟨ack, hack⟩ := h.sendMessage ⟨[], []⟩
  rw [hthrown] at hack
  cases hack

end Acks
end Chat
end GroupChat

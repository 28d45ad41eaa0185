import GroupChat.Groups.Records

/-!
# Messages and reactions in the database of the groups

The calls on messages and reactions write one row at a time.  An insert needs an id that is
free and the row it refers to, an update needs its row, and each of them answers with the
Prisma code of the constraint it runs into.  What they write keeps the constraints, so every
call is a function from `Records` to `Records`, run here as one step.

A message is sent to clients with its reactions, which is what `select` puts together.
-/

namespace GroupChat
namespace Groups

open Common Database Messages Messages.Reactions

variable {d d' : Records}

/-! ## Messages -/

/-- A message as it is selected for clients. -/
structure Selected where
  message : Message
  reactions : List (String × Uuid)
deriving DecidableEq

def Records.select (d : Records) (m : Message) : Selected := ⟨m, reactionsOf d.reactions m.id⟩

/-- The group is there. -/
def Records.hasGroup (d : Records) (groupId : Uuid) : Bool := (groupById d.tables groupId).isSome

theorem Records.exists_of_hasGroup {groupId : Uuid} (h : d.hasGroup groupId = true) :
    ∃ g, .group g ∈ d.tables ∧ g.id = groupId := by
  obtain ⟨g, hg⟩ := Option.isSome_iff_exists.mp h
  exact ⟨g, groupById_eq_some hg⟩

/-- The table with one more message, of a group that is there. -/
def Records.putMessage (d : Records) (m : Message) (fresh : d.messages.find? m.id = none)
    (group : d.hasGroup m.groupId = true) : Records where
  tables := d.tables
  messages := d.messages.put m
  reactions := d.reactions
  constraints := by
    refine ⟨d.constraints.memberGroup, fun m' hm' => ?_, fun r hr => ?_,
      d.constraints.memberUnique, d.constraints.nameUnique, d.constraints.marksUnique⟩
    · rcases Table.mem_put.mp hm' with rfl | ⟨hm', -⟩
      · exact Records.exists_of_hasGroup group
      · exact d.constraints.messageGroup m' hm'
    · obtain ⟨m', hm', hid⟩ := d.constraints.reactionMessage r hr
      have hother : m'.id ≠ m.id := Table.find?_eq_none_iff.mp fresh m' hm'
      exact ⟨m', (Table.mem_put_of_key_ne hother).mpr hm', hid⟩

/-- The insert of `persistAndEmit`. -/
def Records.createMessage (d : Records) (data : NewMessage) (id : Uuid) (now : Instant) :
    Except Exception (Records × Selected) :=
  if fresh : d.messages.find? id = none then
    if group : d.hasGroup data.groupId = true then
      let after := d.putMessage (data.toRow id now) fresh group
      .ok (after, after.select (data.toRow id now))
    else .error (.prisma .P2003)
  else .error (.prisma .P2002)

/-- The table with one message rewritten. -/
def Records.rewriteMessage (d : Records) (m : Message) (found : m ∈ d.messages) (change : Change)
    (now : Instant) : Records where
  tables := d.tables
  messages := d.messages.put (change.apply now m)
  reactions := d.reactions
  constraints := by
    refine ⟨d.constraints.memberGroup, fun m' hm' => ?_, fun r hr => ?_,
      d.constraints.memberUnique, d.constraints.nameUnique, d.constraints.marksUnique⟩
    · rcases Table.mem_put.mp hm' with rfl | ⟨hm', -⟩
      · rw [Change.apply_groupId]
        exact d.constraints.messageGroup m found
      · exact d.constraints.messageGroup m' hm'
    · obtain ⟨m', hm', hid⟩ := d.constraints.reactionMessage r hr
      by_cases hsame : m'.id = m.id
      · exact ⟨change.apply now m, Table.mem_put_self _ _,
          (Change.apply_id change now m).trans (hsame.symm.trans hid)⟩
      · have hother : m'.id ≠ (change.apply now m).id := by rwa [Change.apply_id]
        exact ⟨m', (Table.mem_put_of_key_ne hother).mpr hm', hid⟩

/-- The update of `edit` and `softDelete`, by id alone. -/
def Records.updateMessage (d : Records) (messageId : Uuid) (change : Change) (now : Instant) :
    Except Exception (Records × Selected) :=
  match found : d.messages.find? messageId with
  | none => .error (.prisma .P2025)
  | some m =>
    let after := d.rewriteMessage m (Table.mem_of_find? found) change now
    .ok (after, after.select (change.apply now m))

/-- `edit` and `softDelete`. -/
def Records.changeMessage (d : Records) (groupId messageId userId : Uuid) (change : Change)
    (now : Instant) : Except Exception (Records × Selected) :=
  match authorise d.messages groupId messageId userId change with
  | .error e => .error e
  | .ok _ => d.updateMessage messageId change now

/-! ## Reactions -/

/-- The table without the reaction of the call. -/
def Records.deleteReaction (d : Records) (q : Toggle) : Records where
  tables := d.tables
  messages := d.messages
  reactions := deleteMany d.reactions q
  constraints := by
    have hmem : ∀ r, r ∈ deleteMany d.reactions q → r ∈ d.reactions := fun r hr =>
      (Table.mem_filter.mp hr).1
    exact ⟨d.constraints.memberGroup, d.constraints.messageGroup,
      fun r hr => d.constraints.reactionMessage r (hmem r hr), d.constraints.memberUnique,
      d.constraints.nameUnique,
      fun r hr r' hr' => d.constraints.marksUnique r (hmem r hr) r' (hmem r' hr')⟩

/-- The table with the reaction of the call. -/
def Records.putReaction (d : Records) (q : Toggle) (id : Uuid) (now : Instant)
    (unmarked : ¬Marked d.reactions q.mark) (found : ∃ m ∈ d.messages.rows, m.id = q.messageId) :
    Records where
  tables := d.tables
  messages := d.messages
  reactions := d.reactions.put (q.toRow id now)
  constraints := by
    refine ⟨d.constraints.memberGroup, d.constraints.messageGroup, fun r hr => ?_,
      d.constraints.memberUnique, d.constraints.nameUnique, fun r hr r' hr' hmark => ?_⟩
    · rcases Table.mem_put.mp hr with rfl | ⟨hr, -⟩
      · exact found
      · exact d.constraints.reactionMessage r hr
    · rcases Table.mem_put.mp hr with rfl | ⟨hr, -⟩ <;>
        rcases Table.mem_put.mp hr' with rfl | ⟨hr', -⟩
      · rfl
      · exact absurd ⟨r', hr', hmark.symm⟩ unmarked
      · exact absurd ⟨r, hr, hmark⟩ unmarked
      · exact d.constraints.marksUnique r hr r' hr' hmark

/-- `ReactionsService.toggle`: the delete is the existence test. -/
def Records.toggleReaction (d : Records) (q : Toggle) (id : Uuid) (now : Instant) :
    Except Exception (Records × List (String × Uuid)) :=
  if found : ∃ m ∈ d.messages.rows, m.id = q.messageId ∧ m.groupId = q.groupId then
    let after :=
      if marked : Marked d.reactions q.mark then d.deleteReaction q
      -- P2002 of any kind is taken for the reaction being there
      else if (d.reactions.find? id).isSome then d
      else d.putReaction q id now marked (found.imp fun _ h => ⟨h.1, h.2.1⟩)
    .ok (after, reactionsOf after.reactions q.messageId)
  else .error (.notFound "Message not found")

/-! ## The same calls, statement by statement -/

section Alone

variable {id messageId : Uuid} {now : Instant} {m : Selected} {r : Messages.Request}

/-- A call with its arguments, and nothing else going on. -/
theorem step_request_start (rows : MessageTable) :
    Messages.step (Messages.start rows) (.request 0 r) =
      some ((Messages.start rows).goto 0 r.start) :=
  rfl

/-- **A call that creates a message** comes to what it comes to statement by statement. -/
theorem exec_createMessage {data : NewMessage} (hr : r.start = .persisting data)
    (h : d.createMessage data id now = .ok (d', m)) :
    ∃ t, Transition.exec Messages.step (Messages.start d.messages)
        [.request 0 r, .statement 0 id now, .emit 0] = some t ∧
      t.rows = d'.messages ∧ t.events = [.created m.message] ∧
        t.calls 0 = .returned m.message := by
  unfold Records.createMessage at h
  split_ifs at h with hfresh hgroup
  obtain ⟨rfl, rfl⟩ := Prod.mk.inj (Except.ok.inj h)
  have hinsert : d.messages.find? (data.toRow id now).id = none := hfresh
  rw [Transition.exec_cons_of_step (step_request_start d.messages), hr]
  simp [Transition.exec_cons, Messages.step, Messages.start, Messages.State.goto,
    Messages.State.insert, hinsert, Records.putMessage, Records.select, Messages.Event.message]

/-- **A call that changes a message** comes to what it comes to statement by statement. -/
theorem exec_changeMessage {groupId userId : Uuid} {change : Change}
    (hr : r.start = .asserting groupId messageId userId change)
    (h : d.changeMessage groupId messageId userId change now = .ok (d', m)) :
    ∃ t, Transition.exec Messages.step (Messages.start d.messages)
        [.request 0 r, .statement 0 id now, .statement 0 id now, .emit 0] = some t ∧
      t.rows = d'.messages ∧ t.events = [.updated m.message] ∧
        t.calls 0 = .returned m.message := by
  unfold Records.changeMessage at h
  split at h
  · cases h
  · next hauthorised =>
    unfold Records.updateMessage at h
    split at h
    · cases h
    · next x hfound =>
      obtain ⟨rfl, rfl⟩ := Prod.mk.inj (Except.ok.inj h)
      rw [Transition.exec_cons_of_step (step_request_start d.messages), hr]
      simp [Transition.exec_cons, Messages.step, Messages.start, Messages.State.goto,
        hauthorised, Messages.State.update, hfound, Records.rewriteMessage, Records.select,
        Messages.Event.message]

/-- The statements of a toggle, the insert among them if nothing was deleted. -/
def toggleActions (q : Toggle) (marked : Bool) (id : Uuid) (now : Instant) :
    List Reactions.Action :=
  .request 0 q :: List.replicate (if marked then 3 else 4) (.statement 0 id now) ++ [.emit 0]

/-- **A toggle** comes to what it comes to statement by statement. -/
theorem exec_toggleReaction {q : Toggle} {reactions : List (String × Uuid)}
    (hid : d.reactions.find? id = none)
    (h : d.toggleReaction q id now = .ok (d', reactions)) :
    ∃ t, Transition.exec Reactions.step (Reactions.start d.messages d.reactions)
        (toggleActions q (Marked d.reactions q.mark) id now) = some t ∧
      t.messages.rows = d'.messages ∧ t.reactions = d'.reactions ∧
        t.events = [⟨q.groupId, q.messageId, reactions⟩] ∧ t.toggles 0 = .returned reactions := by
  unfold Records.toggleReaction at h
  split_ifs at h with hfound hmarked hused
  · obtain ⟨rfl, rfl⟩ := Prod.mk.inj (Except.ok.inj h)
    simp [toggleActions, Transition.exec_cons, Reactions.step, Reactions.start,
      Reactions.State.goto, hfound, hmarked, Records.deleteReaction, Messages.start]
  · rw [hid] at hused
    cases hused
  · obtain ⟨rfl, rfl⟩ := Prod.mk.inj (Except.ok.inj h)
    have hmessage : ∃ m ∈ d.messages.rows, m.id = q.messageId :=
      hfound.imp fun _ h => ⟨h.1, h.2.1⟩
    simp [toggleActions, Transition.exec_cons, Reactions.step, Reactions.start,
      Reactions.State.goto, hfound, hmarked, hid, hmessage, Records.putReaction, Messages.start]

end Alone

end Groups
end GroupChat

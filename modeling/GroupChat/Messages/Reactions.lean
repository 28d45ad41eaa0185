import GroupChat.Messages.SummaryMessages

/-!
# Reactions

`ReactionsService.toggle` runs four statements, each a transaction of its own: it looks
the message up in the group, deletes the caller's reaction, inserts it if nothing was
deleted, and reads the reactions of the message to broadcast them.  An insert that finds
the reaction already there, because another call has made it first, counts as done.

`step` interleaves such calls with those of the message services, which share the message
table.  `Moved` lists what a step can do, one constructor for each way a statement can
go; every later proof is a case analysis over it.
-/

namespace GroupChat
namespace Messages
namespace Reactions

open Common Database

/-! ## Rows -/

/-- A row of the reaction table. -/
structure Reaction where
  id : Uuid
  messageId : Uuid
  userId : Uuid
  emoji : String
  createdAt : Instant
deriving DecidableEq

abbrev ReactionTable := Table Reaction.id

/-- A message, a user and an emoji. -/
abbrev Mark := Uuid × Uuid × String

def Reaction.mark (r : Reaction) : Mark := (r.messageId, r.userId, r.emoji)

/-- `@@unique([messageId, userId, emoji])` -/
def MarksUnique (t : ReactionTable) : Prop := ∀ r ∈ t, ∀ r' ∈ t, r.mark = r'.mark → r = r'

/-- There is a row for the mark. -/
def Marked (t : ReactionTable) (k : Mark) : Prop := ∃ r ∈ t.rows, r.mark = k

instance (t : ReactionTable) (k : Mark) : Decidable (Marked t k) :=
  inferInstanceAs (Decidable (∃ r ∈ t.rows, r.mark = k))

/-! ## Calls -/

/-- The arguments of `toggle`. -/
structure Toggle where
  groupId : Uuid
  messageId : Uuid
  userId : Uuid
  emoji : String
deriving DecidableEq

def Toggle.mark (q : Toggle) : Mark := (q.messageId, q.userId, q.emoji)

/-- `REACTION_CHANGED` -/
structure ReactionChanged where
  groupId : Uuid
  messageId : Uuid
  reactions : List (String × Uuid)
deriving DecidableEq

/-- Where a call of `toggle` stands. -/
inductive Call where
  | idle
  /-- Before the query for the message. -/
  | finding (q : Toggle)
  | deleting (q : Toggle)
  /-- Nothing was deleted; before the insert. -/
  | creating (q : Toggle)
  /-- Before the query for the reactions of the message. -/
  | reading (q : Toggle)
  | emitting (event : ReactionChanged)
  | returned (reactions : List (String × Uuid))
  | thrown (e : Exception)
deriving DecidableEq

/-- The arguments, while the call has statements to run. -/
def Call.toggle? : Call → Option Toggle
  | .finding q | .deleting q | .creating q | .reading q => some q
  | .idle | .emitting _ | .returned _ | .thrown _ => none

/-! ## Steps -/

/-- The message table with the calls on it, the reaction table, the calls of `toggle`, and
their events so far. -/
structure State where
  messages : Messages.State
  reactions : ReactionTable
  toggles : ℕ → Call
  events : List ReactionChanged

/-- Before any call. -/
def start (rows : MessageTable) (reactions : ReactionTable) : State :=
  ⟨Messages.start rows, reactions, fun _ => .idle, []⟩

def State.goto (s : State) (c : ℕ) (pc : Call) : State :=
  { s with toggles := Function.update s.toggles c pc }

/-- The table without the reaction. -/
def deleteMany (t : ReactionTable) (q : Toggle) : ReactionTable := t.filter fun r => r.mark ≠ q.mark

/-- The row `reaction.create` inserts. -/
def Toggle.toRow (q : Toggle) (id : Uuid) (now : Instant) : Reaction :=
  ⟨id, q.messageId, q.userId, q.emoji, now⟩

/-- The reactions of a message, as they are selected. -/
def reactionsOf (t : ReactionTable) (messageId : Uuid) : List (String × Uuid) :=
  (t.rows.filter fun r => r.messageId = messageId).map fun r => (r.emoji, r.userId)

/-- What may happen next. -/
inductive Action where
  /-- A step of `MessagesService`. -/
  | message (a : Messages.Action)
  /-- The insert of `persistAiSummary`. -/
  | post (groupId : Uuid) (content : String) (id : Uuid) (now : Instant)
  /-- A new call of `toggle`. -/
  | request (c : ℕ) (q : Toggle)
  /-- A call of `toggle` runs its next statement; an insert takes its id and time from here. -/
  | statement (c : ℕ) (id : Uuid) (now : Instant)
  | emit (c : ℕ)
  /-- A statement fails for a reason outside the program. -/
  | fault (c : ℕ)
deriving DecidableEq

/-- One step of one call. -/
def step (s : State) : Action → Option State
  | .message a =>
    (Messages.step s.messages a).map fun messages => { s with messages := messages }
  | .post groupId content id now =>
    match s.messages.rows.find? id with
    | some _ => none
    | none => some { s with messages := s.messages.post (persistAiSummary groupId content id now) }
  | .request c q =>
    match s.toggles c with
    | .idle => some (s.goto c (.finding q))
    | _ => none
  | .statement c id now =>
    match s.toggles c with
    | .finding q =>
      if ∃ m ∈ s.messages.rows.rows, m.id = q.messageId ∧ m.groupId = q.groupId then
        some (s.goto c (.deleting q))
      else some (s.goto c (.thrown (.notFound "Message not found")))
    | .deleting q =>
      -- the count of the delete says whether the reaction was there
      if Marked s.reactions q.mark then
        some ({ s with reactions := deleteMany s.reactions q }.goto c (.reading q))
      else some (s.goto c (.creating q))
    | .creating q =>
      if (s.reactions.find? id).isSome then none
      -- P2002: another call has made the same reaction
      else if Marked s.reactions q.mark then some (s.goto c (.reading q))
      else if ∃ m ∈ s.messages.rows.rows, m.id = q.messageId then
        some ({ s with reactions := s.reactions.put (q.toRow id now) }.goto c (.reading q))
      else some (s.goto c (.thrown (.prisma .P2003)))
    | .reading q =>
      some (s.goto c
        (.emitting ⟨q.groupId, q.messageId, reactionsOf s.reactions q.messageId⟩))
    | _ => none
  | .emit c =>
    match s.toggles c with
    | .emitting event =>
      some ({ s with events := s.events ++ [event] }.goto c (.returned event.reactions))
    | _ => none
  | .fault c =>
    if (s.toggles c).toggle?.isSome then some (s.goto c (.thrown .fault)) else none

/-- **What a step can do.** -/
inductive Moved (s : State) : Action → State → Prop
  | message {a : Messages.Action} {messages : Messages.State}
      (step_eq : Messages.step s.messages a = some messages) :
      Moved s (.message a) { s with messages := messages }
  | posted {groupId : Uuid} {content : String} {id : Uuid} {now : Instant}
      (fresh : s.messages.rows.find? id = none) :
      Moved s (.post groupId content id now)
        { s with messages := s.messages.post (persistAiSummary groupId content id now) }
  | requested {c : ℕ} {q : Toggle} (pc : s.toggles c = .idle) :
      Moved s (.request c q) (s.goto c (.finding q))
  | found {c : ℕ} {id : Uuid} {now : Instant} {q : Toggle} (pc : s.toggles c = .finding q)
      (found : ∃ m ∈ s.messages.rows, m.id = q.messageId ∧ m.groupId = q.groupId) :
      Moved s (.statement c id now) (s.goto c (.deleting q))
  | missing {c : ℕ} {id : Uuid} {now : Instant} {q : Toggle} (pc : s.toggles c = .finding q)
      (missing : ¬ ∃ m ∈ s.messages.rows, m.id = q.messageId ∧ m.groupId = q.groupId) :
      Moved s (.statement c id now) (s.goto c (.thrown (.notFound "Message not found")))
  | deleted {c : ℕ} {id : Uuid} {now : Instant} {q : Toggle} (pc : s.toggles c = .deleting q)
      (marked : Marked s.reactions q.mark) :
      Moved s (.statement c id now)
        ({ s with reactions := deleteMany s.reactions q }.goto c (.reading q))
  | absent {c : ℕ} {id : Uuid} {now : Instant} {q : Toggle} (pc : s.toggles c = .deleting q)
      (unmarked : ¬ Marked s.reactions q.mark) :
      Moved s (.statement c id now) (s.goto c (.creating q))
  | overtaken {c : ℕ} {id : Uuid} {now : Instant} {q : Toggle} (pc : s.toggles c = .creating q)
      (marked : Marked s.reactions q.mark) :
      Moved s (.statement c id now) (s.goto c (.reading q))
  | created {c : ℕ} {id : Uuid} {now : Instant} {q : Toggle} (pc : s.toggles c = .creating q)
      (fresh : s.reactions.find? id = none) (unmarked : ¬ Marked s.reactions q.mark)
      (found : ∃ m ∈ s.messages.rows, m.id = q.messageId) :
      Moved s (.statement c id now)
        ({ s with reactions := s.reactions.put (q.toRow id now) }.goto c (.reading q))
  | orphaned {c : ℕ} {id : Uuid} {now : Instant} {q : Toggle} (pc : s.toggles c = .creating q)
      (missing : ¬ ∃ m ∈ s.messages.rows, m.id = q.messageId) :
      Moved s (.statement c id now) (s.goto c (.thrown (.prisma .P2003)))
  | selected {c : ℕ} {id : Uuid} {now : Instant} {q : Toggle} (pc : s.toggles c = .reading q) :
      Moved s (.statement c id now)
        (s.goto c (.emitting ⟨q.groupId, q.messageId, reactionsOf s.reactions q.messageId⟩))
  | emitted {c : ℕ} {event : ReactionChanged} (pc : s.toggles c = .emitting event) :
      Moved s (.emit c) ({ s with events := s.events ++ [event] }.goto c (.returned event.reactions))
  | faulted {c : ℕ} {q : Toggle} (pc : (s.toggles c).toggle? = some q) :
      Moved s (.fault c) (s.goto c (.thrown .fault))

theorem moved_of_step {s t : State} {a : Action} (h : step s a = some t) : Moved s a t := by
  cases a with
  | message a =>
    obtain ⟨messages, hstep, rfl⟩ := Option.map_eq_some_iff.mp h
    exact .message hstep
  | post groupId content id now =>
    simp only [step] at h
    split at h
    · exact absurd h (by simp)
    · next hfresh =>
      rw [← Option.some.inj h]
      exact .posted hfresh
  | request c q =>
    simp only [step] at h
    split at h
    · next hpc =>
      rw [← Option.some.inj h]
      exact .requested hpc
    · exact absurd h (by simp)
  | statement c id now =>
    simp only [step] at h
    split at h
    · next q hpc =>
      split at h
      · next hfound =>
        rw [← Option.some.inj h]
        exact .found hpc hfound
      · next hmissing =>
        rw [← Option.some.inj h]
        exact .missing hpc hmissing
    · next q hpc =>
      split at h
      · next hmarked =>
        rw [← Option.some.inj h]
        exact .deleted hpc hmarked
      · next hunmarked =>
        rw [← Option.some.inj h]
        exact .absent hpc hunmarked
    · next q hpc =>
      split_ifs at h with hid hmarked hfound
      · rw [← Option.some.inj h]
        exact .overtaken hpc hmarked
      · rw [← Option.some.inj h]
        exact .created hpc (by simpa using hid) hmarked hfound
      · rw [← Option.some.inj h]
        exact .orphaned hpc hfound
    · next q hpc =>
      rw [← Option.some.inj h]
      exact .selected hpc
    · exact absurd h (by simp)
  | emit c =>
    simp only [step] at h
    split at h
    · next event hpc =>
      rw [← Option.some.inj h]
      exact .emitted hpc
    · exact absurd h (by simp)
  | fault c =>
    simp only [step] at h
    split_ifs at h with hrunning
    obtain ⟨q, hq⟩ := Option.isSome_iff_exists.mp hrunning
    rw [← Option.some.inj h]
    exact .faulted hq

end Reactions
end Messages
end GroupChat

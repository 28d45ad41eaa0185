import GroupChat.Messages.Service
import GroupChat.Transition.Run
import Mathlib.Data.Finset.Basic

/-!
# Broadcasts of one message

`edit`, `softDelete` and `toggle` write first and broadcast what they have read
back: the row with its reactions, or the reactions alone.  A payload is a whole
snapshot, and a client replaces what it has by it.  Nothing orders the broadcasts
of two calls, so a snapshot that is already outdated may be the last one.

`converges_of_emitsCorrected` says when that does no harm.  A call may broadcast an
outdated row as long as another call that carries the stored row, or has yet to write
it, will broadcast after it, and outdated reactions as long as one that carries the
stored ones, or has yet to read them, will.  Under this condition the clients hold what
is stored whenever all calls have ended.  What is kept on the way is `Converging`, and
`converging_iff` says that it is kept by exactly these broadcasts.

The model is of one message that exists.  The result of a statement may arrive late:
the step after a statement is taken at any later time.
-/

namespace GroupChat
namespace Messages
namespace Broadcasts

open Common Database Transition

/-! ## The message and its clients -/

/-- A message as it is selected: the row and the reactions, each an emoji and a user. -/
structure Snapshot where
  row : Message
  reactions : Finset (String × Uuid)
deriving DecidableEq

/-- What is broadcast. -/
inductive Broadcast where
  /-- `MESSAGE_UPDATED` -/
  | messageUpdated (message : Snapshot)
  /-- `REACTION_CHANGED` -/
  | reactionChanged (reactions : Finset (String × Uuid))
deriving DecidableEq

/-- What a client makes of a broadcast. -/
def Snapshot.receive (view : Snapshot) : Broadcast → Snapshot
  | .messageUpdated message => message
  | .reactionChanged reactions => { view with reactions := reactions }

/-! ## Calls -/

/-- The calls on the message. -/
inductive Request where
  | edit (groupId userId : Uuid) (content : String)
  | softDelete (groupId userId : Uuid)
  | toggle (groupId userId : Uuid) (emoji : String)
deriving DecidableEq

/-- Where a call stands. -/
inductive Call where
  | idle
  /-- `assertOwnUserMessage`, before its query. -/
  | asserting (groupId userId : Uuid) (change : Change)
  /-- Before the update. -/
  | updating (change : Change)
  /-- The row is updated and selected; before its reactions are. -/
  | selecting (row : Message)
  /-- Before `MESSAGE_UPDATED` is emitted. -/
  | updated (message : Snapshot)
  /-- `toggle`, before the query for the message. -/
  | finding (groupId userId : Uuid) (emoji : String)
  /-- Before the delete. -/
  | deleting (userId : Uuid) (emoji : String)
  /-- Nothing was deleted; before the insert. -/
  | creating (userId : Uuid) (emoji : String)
  /-- Before the reactions are read. -/
  | reading
  /-- Before `REACTION_CHANGED` is emitted. -/
  | reacted (reactions : Finset (String × Uuid))
  | returned
  | thrown (e : Exception)
deriving DecidableEq

def Request.start : Request → Call
  | .edit groupId userId content => .asserting groupId userId (.edit content)
  | .softDelete groupId userId => .asserting groupId userId .softDelete
  | .toggle groupId userId emoji => .finding groupId userId emoji

/-- The message, the calls on it, and what was broadcast, oldest first. -/
structure State where
  stored : Snapshot
  calls : ℕ → Call
  emitted : List Broadcast

/-- Before any call. -/
def start (initial : Snapshot) : State := ⟨initial, fun _ => .idle, []⟩

/-- What a client holds that started from the message as it was. -/
def view (initial : Snapshot) (s : State) : Snapshot := s.emitted.foldl Snapshot.receive initial

/-- What a statement comes to: what is stored after it, and where the call goes on. -/
def statement (stored : Snapshot) (now : Instant) : Call → Option (Snapshot × Call)
  | .asserting groupId userId change =>
    match authorise (Table.empty.put stored.row) groupId stored.row.id userId change with
    | .error e => some (stored, .thrown e)
    | .ok _ => some (stored, .updating change)
  | .updating change =>
    some ({ stored with row := change.apply now stored.row },
      .selecting (change.apply now stored.row))
  | .selecting row => some (stored, .updated ⟨row, stored.reactions⟩)
  | .finding groupId userId emoji =>
    if stored.row.groupId = groupId then some (stored, .deleting userId emoji)
    else some (stored, .thrown (.notFound "Message not found"))
  | .deleting userId emoji =>
    -- the number of deleted rows is the test whether there was one
    if (emoji, userId) ∈ stored.reactions then
      some ({ stored with reactions := stored.reactions.erase (emoji, userId) }, .reading)
    else some (stored, .creating userId emoji)
  | .creating userId emoji =>
    -- a reaction that is there by now is a P2002, which is not an error
    some ({ stored with reactions := insert (emoji, userId) stored.reactions }, .reading)
  | .reading => some (stored, .reacted stored.reactions)
  | _ => none

inductive Action where
  | request (c : ℕ) (r : Request)
  /-- A call runs its next statement. -/
  | statement (c : ℕ) (now : Instant)
  /-- The last result of a call arrives, and it broadcasts. -/
  | emit (c : ℕ)
deriving DecidableEq

/-- The broadcast a call is about to make. -/
def Call.broadcast : Call → Option Broadcast
  | .updated message => some (.messageUpdated message)
  | .reacted reactions => some (.reactionChanged reactions)
  | _ => none

/-- One step of one call. -/
def step (s : State) : Action → Option State
  | .request c r =>
    match s.calls c with
    | .idle => some { s with calls := Function.update s.calls c r.start }
    | _ => none
  | .statement c now =>
    (statement s.stored now (s.calls c)).map fun result =>
      { s with stored := result.1, calls := Function.update s.calls c result.2 }
  | .emit c =>
    (s.calls c).broadcast.map fun e =>
      { s with emitted := s.emitted ++ [e], calls := Function.update s.calls c .returned }

/-- No call is under way. -/
def Call.ended : Call → Bool
  | .idle | .returned | .thrown _ => true
  | _ => false

/-! ## Convergence -/

/-- The call will broadcast this row, or has yet to write one of its own. -/
def Call.CarriesRow (row : Message) : Call → Prop
  | .updating _ => True
  | .selecting row' => row' = row
  | .updated message => message.row = row
  | _ => False

/-- The call will broadcast these reactions, or has yet to read them. -/
def Call.CarriesReactions (reactions : Finset (String × Uuid)) : Call → Prop
  | .updating _ | .selecting _ | .deleting _ _ | .creating _ _ | .reading => True
  | .updated message => message.reactions = reactions
  | .reacted reactions' => reactions' = reactions
  | _ => False

/-- What the clients do not hold yet is on its way to them. -/
structure Converging (initial : Snapshot) (s : State) : Prop where
  row : (view initial s).row = s.stored.row ∨ ∃ c, (s.calls c).CarriesRow s.stored.row
  reactions : (view initial s).reactions = s.stored.reactions ∨
    ∃ c, (s.calls c).CarriesReactions s.stored.reactions

/-- An outdated row is broadcast only while another call carries the stored row or has
yet to write it, and outdated reactions only while another call carries the stored ones
or has yet to read them. -/
def EmitsCorrected (s : State) : Action → Prop
  | .emit c =>
    (∀ message, s.calls c = .updated message →
      message.row = s.stored.row ∨ ∃ c' ≠ c, (s.calls c').CarriesRow s.stored.row) ∧
    ∀ reactions, (s.calls c = .reacted reactions ∨
        ∃ message, s.calls c = .updated message ∧ message.reactions = reactions) →
      reactions = s.stored.reactions ∨
        ∃ c' ≠ c, (s.calls c').CarriesReactions s.stored.reactions
  | _ => True

variable {initial : Snapshot} {s t : State}

theorem converging_start (initial : Snapshot) : Converging initial (start initial) :=
  ⟨Or.inl rfl, Or.inl rfl⟩

/-- **What a statement does to what is stored, and what its call carries then.** -/
theorem carries_of_statement {stored stored' : Snapshot} {now : Instant} {pc pc' : Call}
    (h : statement stored now pc = some (stored', pc')) :
    (stored'.row = stored.row ∧ (pc.CarriesRow stored.row → pc'.CarriesRow stored.row) ∨
        pc'.CarriesRow stored'.row) ∧
      (stored'.reactions = stored.reactions ∧
          (pc.CarriesReactions stored.reactions → pc'.CarriesReactions stored.reactions) ∨
        pc'.CarriesReactions stored'.reactions) := by
  unfold statement at h
  cases pc with
  | asserting groupId userId change =>
    dsimp only at h
    split at h
    · obtain ⟨rfl, rfl⟩ := Prod.mk.inj (Option.some.inj h)
      exact ⟨Or.inl ⟨rfl, id⟩, Or.inl ⟨rfl, id⟩⟩
    · obtain ⟨rfl, rfl⟩ := Prod.mk.inj (Option.some.inj h)
      exact ⟨Or.inr trivial, Or.inr trivial⟩
  | updating change =>
    obtain ⟨rfl, rfl⟩ := Prod.mk.inj (Option.some.inj h)
    exact ⟨Or.inr rfl, Or.inr trivial⟩
  | selecting row =>
    obtain ⟨rfl, rfl⟩ := Prod.mk.inj (Option.some.inj h)
    exact ⟨Or.inl ⟨rfl, id⟩, Or.inr rfl⟩
  | finding groupId userId emoji =>
    dsimp only at h
    split_ifs at h with hgroup
    · obtain ⟨rfl, rfl⟩ := Prod.mk.inj (Option.some.inj h)
      exact ⟨Or.inl ⟨rfl, id⟩, Or.inr trivial⟩
    · obtain ⟨rfl, rfl⟩ := Prod.mk.inj (Option.some.inj h)
      exact ⟨Or.inl ⟨rfl, id⟩, Or.inl ⟨rfl, id⟩⟩
  | deleting userId emoji =>
    dsimp only at h
    split_ifs at h with hmem
    · obtain ⟨rfl, rfl⟩ := Prod.mk.inj (Option.some.inj h)
      exact ⟨Or.inl ⟨rfl, id⟩, Or.inr trivial⟩
    · obtain ⟨rfl, rfl⟩ := Prod.mk.inj (Option.some.inj h)
      exact ⟨Or.inl ⟨rfl, id⟩, Or.inr trivial⟩
  | creating userId emoji =>
    obtain ⟨rfl, rfl⟩ := Prod.mk.inj (Option.some.inj h)
    exact ⟨Or.inl ⟨rfl, id⟩, Or.inr trivial⟩
  | reading =>
    obtain ⟨rfl, rfl⟩ := Prod.mk.inj (Option.some.inj h)
    exact ⟨Or.inl ⟨rfl, id⟩, Or.inr rfl⟩
  | idle | updated | reacted | returned | thrown => exact absurd h (by simp)

/-- A statement keeps everything on its way. -/
theorem converging_of_statement (h : Converging initial s) {c : ℕ} {now : Instant}
    {stored : Snapshot} {pc : Call} (hstat : statement s.stored now (s.calls c) = some (stored, pc)) :
    Converging initial { s with stored := stored, calls := Function.update s.calls c pc } := by
  obtain ⟨hrow, hreactions⟩ := carries_of_statement hstat
  constructor
  · rcases hrow with ⟨hsame, hcarries⟩ | hcarries
    · show (view initial s).row = stored.row ∨
        ∃ c', (Function.update s.calls c pc c').CarriesRow stored.row
      rw [hsame]
      exact h.row.imp_right fun hsome => exists_of_moved hsome hcarries
    · exact Or.inr ⟨c, by simpa only [Function.update_self] using hcarries⟩
  · rcases hreactions with ⟨hsame, hcarries⟩ | hcarries
    · show (view initial s).reactions = stored.reactions ∨
        ∃ c', (Function.update s.calls c pc c').CarriesReactions stored.reactions
      rw [hsame]
      exact h.reactions.imp_right fun hsome => exists_of_moved hsome hcarries
    · exact Or.inr ⟨c, by simpa only [Function.update_self] using hcarries⟩

theorem view_emit (s : State) (e : Broadcast) (calls : ℕ → Call) :
    view initial { s with emitted := s.emitted ++ [e], calls := calls } =
      (view initial s).receive e := by
  unfold view
  rw [List.foldl_append]
  rfl

/-- **A broadcast keeps everything on its way exactly if it is corrected.** -/
theorem converging_emit_iff (h : Converging initial s) {c : ℕ} {e : Broadcast}
    (he : (s.calls c).broadcast = some e) :
    Converging initial { s with
        emitted := s.emitted ++ [e], calls := Function.update s.calls c .returned } ↔
      EmitsCorrected s (.emit c) := by
  have hrest : ∀ {P : Call → Prop}, ¬ P .returned →
      ((∃ c', P (Function.update s.calls c .returned c')) ↔ ∃ c' ≠ c, P (s.calls c')) := by
    intro P hP
    rw [Function.exists_update_iff s.calls fun _ pc => P pc]
    exact or_iff_right hP
  have hafter : Converging initial { s with
        emitted := s.emitted ++ [e], calls := Function.update s.calls c .returned } ↔
      (((view initial s).receive e).row = s.stored.row ∨
          ∃ c' ≠ c, (s.calls c').CarriesRow s.stored.row) ∧
        (((view initial s).receive e).reactions = s.stored.reactions ∨
          ∃ c' ≠ c, (s.calls c').CarriesReactions s.stored.reactions) := by
    rw [← hrest (P := Call.CarriesRow s.stored.row) id,
      ← hrest (P := Call.CarriesReactions s.stored.reactions) id,
      ← view_emit s e (Function.update s.calls c .returned)]
    exact ⟨fun hc => ⟨hc.row, hc.reactions⟩, fun hc => ⟨hc.1, hc.2⟩⟩
  rw [hafter]
  cases hcall : s.calls c with
  | updated message =>
    rw [hcall] at he
    obtain rfl := Option.some.inj he
    constructor
    · rintro ⟨hrow, hreactions⟩
      refine ⟨fun message' hm => ?_, fun reactions hr => ?_⟩
      · obtain rfl : message = message' := by simpa using hcall.symm.trans hm
        exact hrow
      · rcases hr with hr | ⟨message', hm, rfl⟩
        · exact absurd (hcall.symm.trans hr) (by simp)
        · obtain rfl : message = message' := by simpa using hcall.symm.trans hm
          exact hreactions
    · rintro ⟨hrow, hreactions⟩
      exact ⟨hrow message hcall, hreactions message.reactions (Or.inr ⟨message, hcall, rfl⟩)⟩
  | reacted reactions =>
    rw [hcall] at he
    obtain rfl := Option.some.inj he
    -- the row is not broadcast, and the call does not carry it
    have hrow : (view initial s).row = s.stored.row ∨
        ∃ c' ≠ c, (s.calls c').CarriesRow s.stored.row := by
      refine h.row.imp_right ?_
      rintro ⟨c', hc'⟩
      refine ⟨c', fun hne => ?_, hc'⟩
      rw [hne, hcall] at hc'
      exact hc'
    constructor
    · rintro ⟨-, hreactions⟩
      refine ⟨fun message' hm => absurd (hcall.symm.trans hm) (by simp), fun reactions' hr => ?_⟩
      rcases hr with hr | ⟨message', hm, -⟩
      · obtain rfl : reactions = reactions' := by simpa using hcall.symm.trans hr
        exact hreactions
      · exact absurd (hcall.symm.trans hm) (by simp)
    · rintro ⟨-, hreactions⟩
      exact ⟨hrow, hreactions reactions (Or.inl hcall)⟩
  | idle | asserting | updating | selecting | finding | deleting | creating | reading | returned
  | thrown =>
    rw [hcall] at he
    exact absurd he (by simp [Call.broadcast])

/-- **One step keeps everything on its way exactly if its broadcast is corrected.** -/
theorem converging_step_iff {a : Action} (h : Converging initial s) (hstep : step s a = some t) :
    Converging initial t ↔ EmitsCorrected s a := by
  cases a with
  | request c r =>
    refine iff_of_true ?_ trivial
    unfold step at hstep
    dsimp only at hstep
    split at hstep
    · rename_i hidle
      rw [← Option.some.inj hstep]
      refine ⟨h.row.imp_right fun hsome => exists_of_moved hsome fun hc => ?_,
        h.reactions.imp_right fun hsome => exists_of_moved hsome fun hc => ?_⟩
      · rw [hidle] at hc
        exact hc.elim
      · rw [hidle] at hc
        exact hc.elim
    · exact absurd hstep (by simp)
  | statement c now =>
    obtain ⟨⟨stored, pc⟩, hstat, rfl⟩ := Option.map_eq_some_iff.mp hstep
    exact iff_of_true (converging_of_statement h hstat) trivial
  | emit c =>
    obtain ⟨e, he, rfl⟩ := Option.map_eq_some_iff.mp hstep
    exact converging_emit_iff h he

/-! ## Runs -/

/-- Everything stays on its way exactly if every broadcast is corrected. -/
theorem converging_iff (initial : Snapshot) (acts : List Action) :
    AllStates step (Converging initial) (start initial) acts ↔
      AllSteps step EmitsCorrected (start initial) acts :=
  allStates_iff_allSteps (I := fun _ => True) (fun _ _ _ _ _ => trivial)
    (fun _ _ _ _ h hstep => converging_step_iff h hstep) trivial (converging_start initial) acts

/-- With no call under way nothing is on its way any more. -/
theorem Converging.view_eq (h : Converging initial s) (hended : ∀ c, (s.calls c).ended = true) :
    view initial s = s.stored := by
  have hrow : (view initial s).row = s.stored.row := by
    refine h.row.resolve_right ?_
    rintro ⟨c, hc⟩
    have hend := hended c
    cases hcall : s.calls c <;> simp_all [Call.ended, Call.CarriesRow]
  have hreactions : (view initial s).reactions = s.stored.reactions := by
    refine h.reactions.resolve_right ?_
    rintro ⟨c, hc⟩
    have hend := hended c
    cases hcall : s.calls c <;> simp_all [Call.ended, Call.CarriesReactions]
  generalize view initial s = v at hrow hreactions
  cases v
  rw [show s.stored = ⟨s.stored.row, s.stored.reactions⟩ from rfl, ← hrow, ← hreactions]

/-- **Broadcasts converge when outdated ones are corrected.**  In every run of calls on
a message in which no outdated snapshot is broadcast without another call that will
correct it, a client that has applied the broadcasts in their order holds what is
stored, in every state in which all calls have ended. -/
theorem converges_of_emitsCorrected (initial : Snapshot) (acts : List Action)
    (h : AllSteps step EmitsCorrected (start initial) acts) :
    AllStates step (fun s => (∀ c, (s.calls c).ended = true) → view initial s = s.stored)
      (start initial) acts :=
  ((converging_iff initial acts).mpr h).mono fun _ hs hended => hs.view_eq hended

/-! ## Two runs -/

/-- What the call is about to broadcast is what is stored. -/
def Call.Current (stored : Snapshot) : Call → Prop
  | .updated message => message = stored
  | .reacted reactions => reactions = stored.reactions
  | _ => True

instance (stored : Snapshot) : ∀ pc : Call, Decidable (pc.Current stored)
  | .updated message => inferInstanceAs (Decidable (message = stored))
  | .reacted reactions => inferInstanceAs (Decidable (reactions = stored.reactions))
  | .idle | .asserting .. | .updating _ | .selecting _ | .finding .. | .deleting ..
  | .creating .. | .reading | .returned | .thrown _ => isTrue trivial

/-- Nothing outdated is broadcast. -/
def EmitsCurrent (s : State) : Action → Prop
  | .emit c => (s.calls c).Current s.stored
  | _ => True

instance (s : State) : ∀ a : Action, Decidable (EmitsCurrent s a)
  | .emit c => inferInstanceAs (Decidable ((s.calls c).Current s.stored))
  | .request .. | .statement .. => isTrue trivial

theorem EmitsCurrent.corrected {a : Action} (h : EmitsCurrent s a) : EmitsCorrected s a := by
  cases a with
  | emit c =>
    refine ⟨fun message hcall => ?_, fun reactions hcall => ?_⟩
    · simp only [EmitsCurrent, hcall, Call.Current] at h
      exact Or.inl (by rw [h])
    · rcases hcall with hcall | ⟨message, hcall, rfl⟩
      · simp only [EmitsCurrent, hcall, Call.Current] at h
        exact Or.inl h
      · simp only [EmitsCurrent, hcall, Call.Current] at h
        exact Or.inl (by rw [h])
  | request | statement => trivial

/-- A message of user 5 in group 2 without reactions. -/
def plainMessage : Snapshot :=
  ⟨⟨1, 2, some 5, "a", .user, epoch, none, none, none, none, none⟩, ∅⟩

/-- An edit and a toggle that overlap; the edit has read the reaction. -/
def overlappingRun : List Action :=
  [ .request 0 (.edit 2 5 "b"), .request 1 (.toggle 2 6 "+"), .statement 0 epoch,
    .statement 1 epoch, .statement 0 epoch, .statement 1 epoch, .statement 1 epoch,
    .statement 0 epoch, .emit 0, .statement 1 epoch, .emit 1 ]

theorem converges_of_emitsCorrected_overlappingRun :
    AllStates step (fun s => (∀ c, (s.calls c).ended = true) → view plainMessage s = s.stored)
      (start plainMessage) overlappingRun := by
  have hcurrent : AllSteps step EmitsCurrent (start plainMessage) overlappingRun := by decide
  exact converges_of_emitsCorrected plainMessage overlappingRun
    (hcurrent.mono fun _ _ h => h.corrected)

/-- Two users react at the same time; the first has read only its own reaction, and
broadcasts last. -/
def overtakenRun : List Action :=
  [ .request 0 (.toggle 2 6 "+"), .request 1 (.toggle 2 7 "+"), .statement 0 epoch,
    .statement 0 epoch, .statement 0 epoch, .statement 0 epoch, .statement 1 epoch,
    .statement 1 epoch, .statement 1 epoch, .statement 1 epoch, .emit 1, .emit 0 ]

/-- **An overtaken snapshot stays.** -/
theorem not_converges_overtakenRun :
    ¬ AllStates step (fun s => (∀ c, (s.calls c).ended = true) → view plainMessage s = s.stored)
      (start plainMessage) overtakenRun := by
  intro h
  have hend : ∃ s, exec step (start plainMessage) overtakenRun = some s ∧
      (∀ c, (s.calls c).ended = true) ∧ (view plainMessage s).reactions ≠ s.stored.reactions := by
    refine ⟨_, rfl, fun c => ?_, by decide⟩
    match c with
    | 0 | 1 => rfl
    | c + 2 => rfl
  obtain ⟨s, hs, hended, hne⟩ := hend
  exact hne (by rw [h.last hs hended])

end Broadcasts
end Messages
end GroupChat

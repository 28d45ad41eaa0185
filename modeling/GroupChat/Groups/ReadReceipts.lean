import GroupChat.Database.Column
import GroupChat.Transition.Run
import Mathlib.Data.List.Pairwise

/-!
# Read receipts

`markRead` reads the clock, writes what it read into the membership of the caller,
and announces it.  The three are separate steps, the write is unconditional, and a
member with two tabs makes two such calls at a time.

This is the membership of one user in one group, which stays.  Its column is kept
with its history, so that going back is a property of a state.  `receipts_iff` says
that nothing goes back exactly when no call is overtaken between its reading of the
clock and its write, or between its reading and its announcement.
-/

namespace GroupChat
namespace Groups
namespace ReadReceipts

open Database Transition

/-! ## Calls -/

/-- The payload of `READ_MARKED`. -/
structure ReadMarkedPayload where
  groupId : String
  userId : Uuid
  lastReadAt : Instant
deriving DecidableEq

/-- Where a `markRead` stands. -/
inductive Call where
  | idle
  /-- Before `new Date()`. -/
  | stamping (groupId : String)
  /-- Before the update. -/
  | updating (groupId : String) (lastReadAt : Instant)
  /-- Before the emit. -/
  | emitting (groupId : String) (lastReadAt : Instant)
  | returned (lastReadAt : Instant)
deriving DecidableEq

structure State where
  /-- The values that `lastReadAt` of the membership has had, oldest first. -/
  history : List Instant
  /-- The latest reading of the clock. -/
  clock : Option Instant
  calls : ℕ → Call
  /-- The events on the bus, oldest first. -/
  emitted : List ReadMarkedPayload

/-- What is stored. -/
def State.lastReadAt (s : State) : Option Instant := s.history.getLast?

/-- Before any call; what is stored was read from the clock. -/
def start (lastReadAt : Option Instant) : State :=
  ⟨lastReadAt.toList, lastReadAt, fun _ => .idle, []⟩

def Call.isAtRest : Call → Bool
  | .idle | .returned _ => true
  | _ => false

/-- Every call has returned. -/
def Finished (s : State) : Prop := ∀ c, (s.calls c).isAtRest = true

inductive Action where
  | request (c : ℕ) (groupId : String)
  /-- A call reads the clock. -/
  | readClock (c : ℕ) (now : Instant)
  | update (c : ℕ)
  | emit (c : ℕ)
deriving DecidableEq

def State.goto (s : State) (c : ℕ) (pc : Call) : State :=
  { s with calls := Function.update s.calls c pc }

/-- One step of one call of the user. -/
def step (userId : Uuid) (s : State) : Action → Option State
  | .request c groupId =>
    match s.calls c with
    | .idle => some (s.goto c (.stamping groupId))
    | _ => none
  | .readClock c now =>
    match s.calls c with
    | .stamping groupId =>
      -- the clock does not go back
      if ∀ earlier ∈ s.clock, earlier ≤ now then
        some { s.goto c (.updating groupId now) with clock := some now }
      else none
    | _ => none
  | .update c =>
    match s.calls c with
    | .updating groupId lastReadAt =>
      some { s.goto c (.emitting groupId lastReadAt) with history := s.history ++ [lastReadAt] }
    | _ => none
  | .emit c =>
    match s.calls c with
    | .emitting groupId lastReadAt =>
      some { s.goto c (.returned lastReadAt) with
        emitted := s.emitted ++ [⟨groupId, userId, lastReadAt⟩] }
    | _ => none

/-! ## What is asked -/

/-- The stored value has never decreased, the announced values have not either, and when
every call has returned the last announced one is the stored one. -/
structure Receipts (s : State) : Prop where
  stored : s.history.Pairwise (· ≤ ·)
  announced : (s.emitted.map ReadMarkedPayload.lastReadAt).Pairwise (· ≤ ·)
  last : Finished s → ∀ e, s.emitted.getLast? = some e → s.lastReadAt = some e.lastReadAt

/-- The call has written this reading. -/
def Call.HasWritten (x : Instant) : Call → Prop
  | .emitting _ lastReadAt | .returned lastReadAt => lastReadAt = x
  | _ => False

/-- The call has announced this reading. -/
def Call.HasAnnounced (x : Instant) : Call → Prop
  | .returned lastReadAt => lastReadAt = x
  | _ => False

/-- A call that writes has not been overtaken by the write of a later reading, and one that
announces not by the announcement of a later reading. -/
def NotOvertaken (s : State) : Action → Prop
  | .update c => ∀ groupId x, s.calls c = .updating groupId x →
      ∀ c' y, (s.calls c').HasWritten y → y ≤ x
  | .emit c => ∀ groupId x, s.calls c = .emitting groupId x →
      ∀ c' y, (s.calls c').HasAnnounced y → y ≤ x
  | _ => True

/-! ## What every run keeps -/

/-- The readings, written values and announced values are those of the calls. -/
structure Inv (initial : Option Instant) (s : State) : Prop where
  clock : ∀ x ∈ initial, ∃ now ∈ s.clock, x ≤ now
  updating : ∀ c groupId x, s.calls c = .updating groupId x → ∀ y ∈ initial, y ≤ x
  history : ∃ written, s.history = initial.toList ++ written ∧
    ∀ x, x ∈ written ↔ ∃ c, (s.calls c).HasWritten x
  emitted : ∀ x, x ∈ s.emitted.map ReadMarkedPayload.lastReadAt ↔
    ∃ c, (s.calls c).HasAnnounced x

variable {userId : Uuid} {initial : Option Instant} {s t : State}

theorem inv_start : Inv initial (start initial) := by
  refine ⟨fun x hx => ⟨x, hx, le_refl x⟩, fun c groupId x hpc => absurd hpc (by simp [start]),
    ⟨[], (List.append_nil _).symm, fun x => ?_⟩, fun x => ?_⟩
  · exact iff_of_false List.not_mem_nil fun ⟨_, h⟩ => h
  · exact iff_of_false List.not_mem_nil fun ⟨_, h⟩ => h

/-- A call has gone on, and is not before an update unless it was. -/
theorem updating_goto (hs : Inv initial s) {c : ℕ} {pc : Call}
    (hpc : ∀ groupId x, pc = .updating groupId x → ∀ y ∈ initial, y ≤ x) (c' : ℕ)
    (groupId : String) (x : Instant) (h : Function.update s.calls c pc c' = .updating groupId x) :
    ∀ y ∈ initial, y ≤ x := by
  by_cases hc : c' = c
  · rw [hc, Function.update_self] at h
    exact hpc groupId x h
  · rw [Function.update_of_ne hc] at h
    exact hs.updating c' groupId x h

/-- **Every step keeps it.** -/
theorem inv_of_step {a : Action} (hs : Inv initial s) (hstep : step userId s a = some t) :
    Inv initial t := by
  obtain ⟨written, hhistory, hwritten⟩ := hs.history
  unfold step at hstep
  cases a with
  | request c groupId =>
    dsimp only at hstep
    split at hstep
    · rename_i pc
      obtain rfl := Option.some.inj hstep
      refine ⟨hs.clock, updating_goto hs (by simp), ⟨written, hhistory, fun x => ?_⟩, fun x => ?_⟩
      · rw [hwritten x]
        exact (exists_update_congr (by rw [pc]; exact Iff.rfl)).symm
      · exact (hs.emitted x).trans (exists_update_congr (by rw [pc]; exact Iff.rfl)).symm
    · exact absurd hstep (by simp)
  | readClock c now =>
    dsimp only at hstep
    split at hstep
    · rename_i groupId pc
      split_ifs at hstep with hnow
      obtain rfl := Option.some.inj hstep
      have hinitial : ∀ x ∈ initial, x ≤ now := fun x hx => by
        obtain ⟨earlier, hearlier, hle⟩ := hs.clock x hx
        exact hle.trans (hnow earlier hearlier)
      refine ⟨fun x hx => ⟨now, rfl, hinitial x hx⟩, updating_goto hs fun groupId' x hpc => ?_,
        ⟨written, hhistory, fun x => ?_⟩, fun x => ?_⟩
      · obtain ⟨-, rfl⟩ := Call.updating.inj hpc
        exact hinitial
      · rw [hwritten x]
        exact (exists_update_congr (by rw [pc]; exact Iff.rfl)).symm
      · exact (hs.emitted x).trans (exists_update_congr (by rw [pc]; exact Iff.rfl)).symm
    · exact absurd hstep (by simp)
  | update c =>
    dsimp only at hstep
    split at hstep
    · rename_i groupId lastReadAt pc
      obtain rfl := Option.some.inj hstep
      refine ⟨hs.clock, updating_goto hs (by simp),
        ⟨written ++ [lastReadAt], by rw [hhistory, List.append_assoc], fun x => ?_⟩, fun x => ?_⟩
      · have hnow : (∃ c', (Function.update s.calls c (.emitting groupId lastReadAt) c').HasWritten x) ↔
            lastReadAt = x ∨ ∃ c', (s.calls c').HasWritten x :=
          exists_update_iff_or (by rw [pc]; exact id)
        rw [List.mem_append, List.mem_singleton, hwritten x, or_comm]
        exact (or_congr_left eq_comm).trans hnow.symm
      · exact (hs.emitted x).trans (exists_update_congr (by rw [pc]; exact Iff.rfl)).symm
    · exact absurd hstep (by simp)
  | emit c =>
    dsimp only at hstep
    split at hstep
    · rename_i groupId lastReadAt pc
      obtain rfl := Option.some.inj hstep
      refine ⟨hs.clock, updating_goto hs (by simp), ⟨written, hhistory, fun x => ?_⟩, fun x => ?_⟩
      · rw [hwritten x]
        exact (exists_update_congr (by rw [pc]; exact Iff.rfl)).symm
      · have hnow : (∃ c', (Function.update s.calls c (.returned lastReadAt) c').HasAnnounced x) ↔
            lastReadAt = x ∨ ∃ c', (s.calls c').HasAnnounced x :=
          exists_update_iff_or (by rw [pc]; exact id)
        rw [List.map_append, List.mem_append, hs.emitted x, List.map_singleton,
          List.mem_singleton, or_comm]
        exact (or_congr_left eq_comm).trans hnow.symm
    · exact absurd hstep (by simp)

/-! ## The exact step condition -/

/-- In a list that does not decrease the last value is the largest. -/
theorem le_of_getLast? {l : List Instant} (h : l.Pairwise (· ≤ ·)) {x y : Instant}
    (hlast : l.getLast? = some y) (hx : x ∈ l) : x ≤ y := by
  obtain ⟨front, rfl⟩ := List.getLast?_eq_some_iff.mp hlast
  rcases List.mem_append.mp hx with hx | hx
  · exact (List.pairwise_append.mp h).2.2 x hx y List.mem_cons_self
  · exact le_of_eq (List.mem_singleton.mp hx)

/-- When nothing has gone back, the last announced value is the stored one in the end. -/
theorem receipts_iff_sorted (hs : Inv initial s) :
    Receipts s ↔ s.history.Pairwise (· ≤ ·) ∧
      (s.emitted.map ReadMarkedPayload.lastReadAt).Pairwise (· ≤ ·) := by
  refine ⟨fun h => ⟨h.stored, h.announced⟩, fun ⟨hstored, hannounced⟩ => ⟨hstored, hannounced, ?_⟩⟩
  intro hfinished e he
  obtain ⟨written, hhistory, hwritten⟩ := hs.history
  -- with every call over, what is written is what is announced
  have hsame : ∀ x, x ∈ written ↔ x ∈ s.emitted.map ReadMarkedPayload.lastReadAt := by
    intro x
    rw [hwritten x, hs.emitted x]
    refine exists_congr fun c => ?_
    have hrest := hfinished c
    cases hpc : s.calls c with
    | idle => exact Iff.rfl
    | returned => exact Iff.rfl
    | stamping | updating | emitting => simp [hpc, Call.isAtRest] at hrest
  have hemitted : (s.emitted.map ReadMarkedPayload.lastReadAt).getLast? = some e.lastReadAt := by
    rw [List.getLast?_map, he, Option.map_some]
  have hemem : e.lastReadAt ∈ written :=
    (hsame e.lastReadAt).mpr (List.mem_of_getLast? hemitted)
  obtain ⟨x, hx⟩ : ∃ x, written.getLast? = some x :=
    Option.isSome_iff_exists.mp (by simpa using List.ne_nil_of_mem hemem)
  have hlast : s.lastReadAt = some x := by
    rw [State.lastReadAt, hhistory, List.getLast?_append, hx]
    rfl
  have hle : x ≤ e.lastReadAt :=
    le_of_getLast? hannounced hemitted ((hsame x).mp (List.mem_of_getLast? hx))
  have hge : e.lastReadAt ≤ x := by
    refine le_of_getLast? hstored hlast ?_
    rw [hhistory]
    exact List.mem_append_right _ hemem
  rw [hlast, le_antisymm hle hge]

/-- **One step goes back exactly if its call is overtaken.** -/
theorem receipts_step_iff {a : Action} (hs : Inv initial s) (hreceipts : Receipts s)
    (hstep : step userId s a = some t) : Receipts t ↔ NotOvertaken s a := by
  rw [receipts_iff_sorted (inv_of_step hs hstep)]
  obtain ⟨written, hhistory, hwritten⟩ := hs.history
  unfold step at hstep
  cases a with
  | request c groupId =>
    dsimp only at hstep
    split at hstep
    · obtain rfl := Option.some.inj hstep
      exact iff_of_true ⟨hreceipts.stored, hreceipts.announced⟩ trivial
    · exact absurd hstep (by simp)
  | readClock c now =>
    dsimp only at hstep
    split at hstep
    · split_ifs at hstep
      obtain rfl := Option.some.inj hstep
      exact iff_of_true ⟨hreceipts.stored, hreceipts.announced⟩ trivial
    · exact absurd hstep (by simp)
  | update c =>
    dsimp only at hstep
    split at hstep
    · rename_i groupId x pc
      obtain rfl := Option.some.inj hstep
      have hbefore : ∀ y ∈ initial.toList, y ≤ x := fun y hy =>
        hs.updating c groupId x pc y (Option.mem_toList.mp hy)
      constructor
      · rintro ⟨hsorted, -⟩ groupId' x' hpc c' y hy
        obtain ⟨-, rfl⟩ := Call.updating.inj (pc.symm.trans hpc)
        refine (List.pairwise_append.mp hsorted).2.2 y ?_ x List.mem_cons_self
        rw [hhistory]
        exact List.mem_append_right _ ((hwritten y).mpr ⟨c', hy⟩)
      · intro hnot
        refine ⟨List.pairwise_append.mpr ⟨hreceipts.stored, List.pairwise_singleton _ _, ?_⟩,
          hreceipts.announced⟩
        intro y hy x' hx'
        rw [List.mem_singleton.mp hx']
        rw [hhistory, List.mem_append, hwritten y] at hy
        rcases hy with hy | ⟨c', hy⟩
        · exact hbefore y hy
        · exact hnot groupId x pc c' y hy
    · exact absurd hstep (by simp)
  | emit c =>
    dsimp only at hstep
    split at hstep
    · rename_i groupId x pc
      obtain rfl := Option.some.inj hstep
      dsimp only [State.goto]
      rw [List.map_append, List.map_singleton]
      constructor
      · rintro ⟨-, hsorted⟩ groupId' x' hpc c' y hy
        obtain ⟨-, rfl⟩ := Call.emitting.inj (pc.symm.trans hpc)
        exact (List.pairwise_append.mp hsorted).2.2 y ((hs.emitted y).mpr ⟨c', hy⟩) x
          List.mem_cons_self
      · intro hnot
        refine ⟨hreceipts.stored, List.pairwise_append.mpr
          ⟨hreceipts.announced, List.pairwise_singleton _ _, ?_⟩⟩
        intro y hy x' hx'
        rw [List.mem_singleton.mp hx']
        obtain ⟨c', hy⟩ := (hs.emitted y).mp hy
        exact hnot groupId x pc c' y hy
    · exact absurd hstep (by simp)

/-! ## Runs -/

theorem receipts_start : Receipts (start initial) := by
  refine ⟨?_, List.Pairwise.nil, fun _ e he => absurd he (by simp [start])⟩
  cases initial with
  | none => exact List.Pairwise.nil
  | some x => exact List.pairwise_singleton _ x

/-- **When receipts do not move backwards.**  In every state of a run the stored value has
never decreased, the announced values have not, and with every call returned the last
announced one is the stored one, exactly if no call of the run is overtaken, by a write
before its write or by an announcement before its announcement. -/
theorem receipts_iff (userId : Uuid) (initial : Option Instant) (acts : List Action) :
    AllStates (step userId) Receipts (start initial) acts ↔
      AllSteps (step userId) NotOvertaken (start initial) acts :=
  allStates_iff_allSteps (fun _ _ _ hs h => inv_of_step hs h)
    (fun _ _ _ hs hreceipts h => receipts_step_iff hs hreceipts h) inv_start receipts_start acts

/-! ## A run that goes back -/

/-- A moment after the epoch. -/
def nextSecond : Instant := ⟨1000, by decide⟩

/-- Two tabs mark the group read; the first reads the clock first and writes last. -/
def overtakenRun : List Action :=
  [ .request 0 "g", .request 1 "g", .readClock 0 epoch, .readClock 1 nextSecond,
    .update 1, .emit 1, .update 0, .emit 0 ]

/-- **A receipt moves back.**  The stored value and the announced one end a second before
where they were. -/
theorem not_receipts_overtakenRun :
    ¬ AllStates (step 5) Receipts (start none) overtakenRun := by
  intro h
  have hend : ∃ s, exec (step 5) (start none) overtakenRun = some s ∧
      s.history = [nextSecond, epoch] := ⟨_, rfl, rfl⟩
  obtain ⟨s, hs, hhistory⟩ := hend
  have hstored := (h.last hs).stored
  rw [hhistory] at hstored
  exact absurd ((List.pairwise_cons.mp hstored).1 epoch List.mem_cons_self) (by decide)

end ReadReceipts
end Groups
end GroupChat

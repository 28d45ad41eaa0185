import GroupChat.Chat.Rooms
import GroupChat.Transition.Run

/-!
# Who is typing

`useTyping` has two sides, each with a timer.  The sender emits `typing_start` at the first
keystroke of a burst, and `typing_stop` when its stop timer, which every keystroke sets anew, has
run out.  The receiver drops a typer when its expiry timer has run out, and this timer is set
by a `typing_start` alone.  A burst that outlasts the timer of the receiver is therefore
lost to it: `tracks_iff` says that the indicator tracks the keystrokes if and only if
no keystroke comes too late in its burst.

Time is in whole milliseconds and passes when no timer is due.  Events arrive at once.  The
keystrokes that have been made, and the time of the last `typing_start`, are recorded in
the state and read by no step.
-/

namespace GroupChat
namespace Client
namespace Typing

open Chat Transition

/-- `typing_stop` is emitted this long after the last keystroke. -/
def STOP_AFTER : ℕ := 2500

/-- A remote typer is dropped when no update arrives for this long. -/
def EXPIRE_AFTER : ℕ := 5000

/-! ## The relay -/

structure TypingEvent where
  groupId : String
  userId : String
  typing : Bool
deriving DecidableEq

/-- `relayTyping`: what is emitted to the room, for a socket of the user in these rooms. -/
def relayTyping (rooms : List String) (userId : String) (groupId : Option String)
    (typing : Bool) : Option TypingEvent :=
  match groupId with
  | none => none
  | some groupId =>
    if groupId = "" ∨ roomFor groupId ∉ rooms then none else some ⟨groupId, userId, typing⟩

/-- The sender's socket, which is in the room of the group throughout. -/
structure Session where
  groupId : String
  userId : String
  rooms : List String
  named : groupId ≠ ""
  joined : roomFor groupId ∈ rooms

variable (session : Session)

theorem relayTyping_session (typing : Bool) :
    relayTyping session.rooms session.userId (some session.groupId) typing =
      some ⟨session.groupId, session.userId, typing⟩ := by
  unfold relayTyping
  exact if_neg (not_or.mpr ⟨session.named, not_not.mpr session.joined⟩)

/-! ## The receiver -/

/-- What the receiving hook holds: whom it shows, and its timers, with when they are due. -/
structure Receiver where
  typingUserIds : List String
  expiryTimers : List (String × ℕ)
deriving DecidableEq

/-- `onTyping` -/
def Receiver.onTyping (groupId : String) (now : ℕ) (r : Receiver) (e : TypingEvent) : Receiver :=
  if e.groupId ≠ groupId then r
  else
    let others := r.expiryTimers.filter fun timer => timer.1 ≠ e.userId
    if e.typing then
      { typingUserIds :=
          if e.userId ∈ r.typingUserIds then r.typingUserIds else r.typingUserIds ++ [e.userId]
        expiryTimers := others ++ [(e.userId, now + EXPIRE_AFTER)] }
    else
      { typingUserIds := r.typingUserIds.filter (· ≠ e.userId)
        expiryTimers := others }

/-- The expiry timer of a user runs out. -/
def Receiver.expire (r : Receiver) (userId : String) : Receiver where
  typingUserIds := r.typingUserIds.filter (· ≠ userId)
  expiryTimers := r.expiryTimers.filter fun timer => timer.1 ≠ userId

/-- An event that may have been relayed arrives. -/
def Receiver.deliver (groupId : String) (now : ℕ) (r : Receiver) : Option TypingEvent → Receiver
  | none => r
  | some e => r.onTyping groupId now e

/-! ## The sender -/

/-- The two refs of the sending hook, the timer by when it is due. -/
structure Sender where
  started : Bool
  stopTimer : Option ℕ
deriving DecidableEq

/-- `notifyTyping`, and whether it emits `typing_start`. -/
def Sender.notifyTyping (now : ℕ) (s : Sender) : Sender × Bool :=
  (⟨true, some (now + STOP_AFTER)⟩, !s.started)

/-- `stopTyping`, and whether it emits `typing_stop`. -/
def Sender.stopTyping (s : Sender) : Sender × Bool := (⟨false, none⟩, s.started)

/-! ## Both -/

structure State where
  now : ℕ
  sender : Sender
  receiver : Receiver
  /-- The times of all keystrokes. -/
  keystrokes : List ℕ
  /-- When the last `typing_start` was emitted. -/
  startedAt : ℕ
deriving DecidableEq

def start : State := ⟨0, ⟨false, none⟩, ⟨[], []⟩, [], 0⟩

inductive Action where
  /-- A keystroke of the sender. -/
  | key
  /-- The stop timer of the sender runs out. -/
  | stop
  /-- An expiry timer of the receiver runs out. -/
  | expire (userId : String)
  /-- An event about another user, or another group, arrives at the receiver. -/
  | other (e : TypingEvent)
  /-- A millisecond passes. -/
  | tick
deriving DecidableEq

/-- A timer that is due has to run before time goes on. -/
def State.someDue (s : State) : Bool :=
  s.sender.stopTimer.any (· ≤ s.now) || s.receiver.expiryTimers.any (·.2 ≤ s.now)

/-- One step. -/
def step (s : State) : Action → Option State
  | .key =>
    let (sender, emits) := s.sender.notifyTyping s.now
    if emits then
      some { s with
        sender := sender
        receiver := s.receiver.deliver session.groupId s.now
          (relayTyping session.rooms session.userId (some session.groupId) true)
        keystrokes := s.now :: s.keystrokes
        startedAt := s.now }
    else some { s with sender := sender, keystrokes := s.now :: s.keystrokes }
  | .stop =>
    if s.sender.stopTimer.any (· ≤ s.now) then
      let (sender, emits) := s.sender.stopTyping
      if emits then
        some { s with
          sender := sender
          receiver := s.receiver.deliver session.groupId s.now
            (relayTyping session.rooms session.userId (some session.groupId) false) }
      else some { s with sender := sender }
    else none
  | .expire userId =>
    if s.receiver.expiryTimers.any (fun timer => timer.1 = userId ∧ timer.2 ≤ s.now) then
      some { s with receiver := s.receiver.expire userId }
    else none
  | .other e =>
    if e.groupId = session.groupId ∧ e.userId = session.userId then none
    else some { s with receiver := s.receiver.onTyping session.groupId s.now e }
  | .tick => if s.someDue then none else some { s with now := s.now + 1 }

/-! ## What the indicator is to be -/

/-- Once the timers about the sender have run that are due, the receiver shows the sender once
if a keystroke is less than `STOP_AFTER` ago, and does not show it otherwise. -/
def Tracks (s : State) : Prop :=
  (∀ due, s.sender.stopTimer = some due → s.now < due) →
    (∀ due, (session.userId, due) ∈ s.receiver.expiryTimers → s.now < due) →
      s.receiver.typingUserIds.count session.userId =
        if ∃ k ∈ s.keystrokes, k ≤ s.now ∧ s.now < k + STOP_AFTER then 1 else 0

/-- A keystroke comes so early in its burst that the receiver's timer, set at the
beginning, outlasts the stop timer it sets. -/
def InTime (s : State) (a : Action) : Prop :=
  a = .key → s.sender.started = true → s.now + STOP_AFTER ≤ s.startedAt + EXPIRE_AFTER

instance (s : State) (a : Action) : Decidable (InTime s a) :=
  inferInstanceAs (Decidable (_ → _))

/-! ## One user at the receiver -/

/-- What the receiver holds of a user: nothing, or that it is shown until a time. -/
structure Receiver.Holds (r : Receiver) (userId : String) (due : Option ℕ) : Prop where
  timer : ∀ d, (userId, d) ∈ r.expiryTimers ↔ due = some d
  count : r.typingUserIds.count userId = if due.isSome then 1 else 0

variable {r : Receiver} {userId groupId : String} {due : Option ℕ} {now : ℕ}

theorem Receiver.Holds.mem_iff (h : r.Holds userId due) :
    userId ∈ r.typingUserIds ↔ due.isSome = true := by
  rw [← List.count_pos_iff, h.count]
  split
  · rename_i hsome
    exact iff_of_true Nat.one_pos hsome
  · rename_i hnone
    exact iff_of_false (Nat.lt_irrefl 0) hnone

theorem mem_filter_ne_iff {timers : List (String × ℕ)} {other : String} {d : ℕ} :
    (userId, d) ∈ timers.filter (fun timer => timer.1 ≠ other) ↔
      (userId, d) ∈ timers ∧ userId ≠ other := by
  rw [List.mem_filter, decide_eq_true_eq]

theorem count_filter_ne {ids : List String} {other : String} :
    (ids.filter (· ≠ other)).count userId = if userId = other then 0 else ids.count userId := by
  split
  · rename_i heq
    rw [heq]
    exact List.count_eq_zero.mpr fun hmem => by simp at hmem
  · rename_i hne
    exact List.count_filter (decide_eq_true hne)

/-- The user is dropped. -/
theorem Receiver.holds_expire_self (r : Receiver) (userId : String) :
    (r.expire userId).Holds userId none := by
  constructor
  · intro d
    unfold Receiver.expire
    rw [mem_filter_ne_iff]
    simp
  · unfold Receiver.expire
    rw [count_filter_ne, if_pos rfl]
    rfl

theorem Receiver.Holds.expire_other (h : r.Holds userId due) {other : String}
    (hne : userId ≠ other) : (r.expire other).Holds userId due := by
  constructor
  · intro d
    unfold Receiver.expire
    rw [mem_filter_ne_iff, ← h.timer d]
    exact and_iff_left hne
  · unfold Receiver.expire
    rw [count_filter_ne, if_neg hne, h.count]

/-- `typing_start` arrives. -/
theorem Receiver.Holds.onTyping_start (h : r.Holds userId due) :
    (r.onTyping groupId now ⟨groupId, userId, true⟩).Holds userId (some (now + EXPIRE_AFTER)) := by
  unfold Receiver.onTyping
  rw [if_neg (not_not.mpr rfl), if_pos rfl]
  constructor
  · intro d
    rw [List.mem_append, mem_filter_ne_iff, List.mem_singleton, Prod.mk.injEq, Option.some.injEq]
    simp [eq_comm]
  · dsimp only
    have hmem := h.mem_iff
    split
    · rename_i hshown
      rw [h.count, if_pos (hmem.mp hshown)]
      rfl
    · rename_i hnew
      rw [List.count_append, h.count, if_neg (hmem.not.mp hnew)]
      simp

/-- `typing_stop` arrives. -/
theorem Receiver.holds_onTyping_stop (r : Receiver) (groupId userId : String) (now : ℕ) :
    (r.onTyping groupId now ⟨groupId, userId, false⟩).Holds userId none := by
  have hsame : r.onTyping groupId now ⟨groupId, userId, false⟩ = r.expire userId := by
    unfold Receiver.onTyping
    rw [if_neg (not_not.mpr rfl)]
    rfl
  rw [hsame]
  exact r.holds_expire_self userId

/-- Events about others change nothing. -/
theorem Receiver.Holds.onTyping_other (h : r.Holds userId due) {e : TypingEvent}
    (hother : ¬ (e.groupId = groupId ∧ e.userId = userId)) :
    (r.onTyping groupId now e).Holds userId due := by
  unfold Receiver.onTyping
  split
  · exact h
  · rename_i hgroup
    have hne : userId ≠ e.userId := fun heq => hother ⟨not_not.mp hgroup, heq.symm⟩
    cases htyping : e.typing with
    | false => exact h.expire_other hne
    | true =>
      constructor
      · intro d
        dsimp only
        rw [if_pos rfl, List.mem_append, mem_filter_ne_iff, ← h.timer d]
        simp [hne]
      · dsimp only
        rw [if_pos rfl, ← h.count]
        dsimp only
        split
        · rfl
        · rw [List.count_append, List.count_singleton, if_neg (by simpa using hne.symm)]
          rfl

/-! ## What every run keeps -/

/-- No burst is on. -/
structure Idle (s : State) : Prop where
  sender : s.sender = ⟨false, none⟩
  receiver : s.receiver.Holds session.userId none
  past : ∀ k ∈ s.keystrokes, k + STOP_AFTER ≤ s.now

/-- A burst is on, and `last` is its last keystroke. -/
structure Burst (s : State) (last : ℕ) : Prop where
  sender : s.sender = ⟨true, some (last + STOP_AFTER)⟩
  mem : last ∈ s.keystrokes
  greatest : ∀ k ∈ s.keystrokes, k ≤ last
  began : s.startedAt ≤ last
  last_le : last ≤ s.now
  now_le : s.now ≤ last + STOP_AFTER
  /-- The receiver shows the sender, until the timer of the beginning runs out. -/
  receiver :
    s.receiver.Holds session.userId (some (s.startedAt + EXPIRE_AFTER)) ∧
        s.now ≤ s.startedAt + EXPIRE_AFTER ∨
      s.receiver.Holds session.userId none ∧ s.startedAt + EXPIRE_AFTER ≤ s.now

/-- **A burst is on or it is not.** -/
def Inv (s : State) : Prop := Idle session s ∨ ∃ last, Burst session s last

theorem inv_start : Inv session start := by
  refine Or.inl ⟨rfl, ⟨fun d => ?_, rfl⟩, fun k hk => ?_⟩
  · simp [start]
  · cases hk

variable {session} {s t : State}

/-- The first keystroke of a burst. -/
theorem Idle.key (h : Idle session s) (hstep : step session s .key = some t) :
    Burst session t s.now ∧ t.startedAt = s.now := by
  unfold step at hstep
  rw [h.sender, relayTyping_session session true] at hstep
  obtain rfl := Option.some.inj hstep
  refine ⟨⟨rfl, List.mem_cons_self, fun k hk => ?_, Nat.le_refl _, Nat.le_refl _,
    Nat.le_add_right _ _, Or.inl ⟨h.receiver.onTyping_start, Nat.le_add_right _ _⟩⟩, rfl⟩
  rcases List.mem_cons.mp hk with rfl | hk
  · exact Nat.le_refl _
  · exact (Nat.le_add_right _ _).trans (h.past k hk)

/-- Another keystroke of it. -/
theorem Burst.key {last : ℕ} (h : Burst session s last) (hstep : step session s .key = some t) :
    Burst session t s.now ∧ t.startedAt = s.startedAt := by
  unfold step at hstep
  rw [h.sender] at hstep
  obtain rfl := Option.some.inj hstep
  refine ⟨⟨rfl, List.mem_cons_self, fun k hk => ?_, h.began.trans h.last_le, Nat.le_refl _,
    Nat.le_add_right _ _, h.receiver⟩, rfl⟩
  rcases List.mem_cons.mp hk with rfl | hk
  · exact Nat.le_refl _
  · exact (h.greatest k hk).trans h.last_le

theorem Burst.now_key {last : ℕ} (h : Burst session s last)
    (hstep : step session s .key = some t) : t.now = s.now := by
  unfold step at hstep
  rw [h.sender] at hstep
  rw [← Option.some.inj hstep]

/-- The stop timer ends the burst when it is due. -/
theorem Burst.stop {last : ℕ} (h : Burst session s last)
    (hstep : step session s .stop = some t) : last + STOP_AFTER ≤ s.now ∧ Idle session t := by
  unfold step at hstep
  rw [h.sender, relayTyping_session session false] at hstep
  dsimp only at hstep
  split at hstep
  · rename_i hdue
    have hle : last + STOP_AFTER ≤ s.now := by simpa using hdue
    obtain rfl := Option.some.inj hstep
    refine ⟨hle, rfl, Receiver.holds_onTyping_stop _ _ _ _, fun k hk => ?_⟩
    exact (Nat.add_le_add_right (h.greatest k hk) _).trans hle
  · cases hstep

theorem Idle.stop (h : Idle session s) : step session s .stop = none := by
  unfold step
  rw [h.sender]
  rfl

/-- What an expiry timer does at the receiver. -/
theorem expire_cases {userId : String} (hstep : step session s (.expire userId) = some t) :
    t = { s with receiver := s.receiver.expire userId } ∧
      ∃ due, (userId, due) ∈ s.receiver.expiryTimers ∧ due ≤ s.now := by
  unfold step at hstep
  dsimp only at hstep
  split at hstep
  · rename_i hany
    obtain ⟨⟨u, due⟩, hmem, hdue⟩ := List.any_eq_true.mp hany
    obtain ⟨rfl, hle⟩ := of_decide_eq_true hdue
    exact ⟨(Option.some.inj hstep).symm, due, hmem, hle⟩
  · cases hstep

theorem other_cases {e : TypingEvent} (hstep : step session s (.other e) = some t) :
    t = { s with receiver := s.receiver.onTyping session.groupId s.now e } ∧
      ¬ (e.groupId = session.groupId ∧ e.userId = session.userId) := by
  unfold step at hstep
  dsimp only at hstep
  split at hstep
  · cases hstep
  · rename_i hother
    exact ⟨(Option.some.inj hstep).symm, hother⟩

theorem tick_cases (hstep : step session s .tick = some t) :
    t = { s with now := s.now + 1 } ∧ (∀ due, s.sender.stopTimer = some due → s.now < due) ∧
      ∀ timer ∈ s.receiver.expiryTimers, s.now < timer.2 := by
  unfold step at hstep
  dsimp only at hstep
  split at hstep
  · cases hstep
  · rename_i hdue
    rw [State.someDue, Bool.or_eq_true, not_or] at hdue
    refine ⟨(Option.some.inj hstep).symm, fun due htimer => ?_, fun timer hmem => ?_⟩
    · rw [htimer] at hdue
      simpa using hdue.1
    · have hnone : ∀ x ∈ s.receiver.expiryTimers, s.now < x.2 := by simpa using hdue.2
      exact hnone timer hmem

/-- Apart from keystrokes and the stop timer, nothing begins or ends a burst. -/
theorem Burst.next {last : ℕ} (h : Burst session s last) {a : Action} (hkey : a ≠ .key)
    (hstop : a ≠ .stop) (hstep : step session s a = some t) :
    Burst session t last ∧ t.sender = s.sender ∧ t.startedAt = s.startedAt := by
  cases a with
  | key => exact absurd rfl hkey
  | stop => exact absurd rfl hstop
  | expire userId =>
    obtain ⟨rfl, due, hmem, hdue⟩ := expire_cases hstep
    refine ⟨{ h with receiver := ?_ }, rfl, rfl⟩
    by_cases hself : session.userId = userId
    · subst hself
      refine Or.inr ⟨Receiver.holds_expire_self _ _, ?_⟩
      rcases h.receiver with ⟨hholds, -⟩ | ⟨hholds, hle⟩
      · rw [Option.some.inj ((hholds.timer due).mp hmem)]
        exact hdue
      · exact hle
    · exact h.receiver.imp (And.imp_left fun hholds => hholds.expire_other hself)
        (And.imp_left fun hholds => hholds.expire_other hself)
  | other e =>
    obtain ⟨rfl, hother⟩ := other_cases hstep
    refine ⟨{ h with receiver := ?_ }, rfl, rfl⟩
    exact h.receiver.imp (And.imp_left fun hholds => hholds.onTyping_other hother)
      (And.imp_left fun hholds => hholds.onTyping_other hother)
  | tick =>
    obtain ⟨rfl, hdue, hexpire⟩ := tick_cases hstep
    refine ⟨{ h with
      last_le := h.last_le.trans (Nat.le_succ _)
      now_le := hdue _ (congrArg Sender.stopTimer h.sender)
      receiver := ?_ }, rfl, rfl⟩
    rcases h.receiver with ⟨hholds, -⟩ | ⟨hholds, hle⟩
    · exact Or.inl ⟨hholds, hexpire _ ((hholds.timer _).mpr rfl)⟩
    · exact Or.inr ⟨hholds, hle.trans (Nat.le_succ _)⟩

theorem Idle.next (h : Idle session s) {a : Action} (hkey : a ≠ .key)
    (hstep : step session s a = some t) : Idle session t := by
  cases a with
  | key => exact absurd rfl hkey
  | stop =>
    rw [h.stop] at hstep
    cases hstep
  | expire userId =>
    obtain ⟨rfl, due, hmem, -⟩ := expire_cases hstep
    have hother : session.userId ≠ userId := by
      rintro rfl
      exact absurd ((h.receiver.timer due).mp hmem) (by simp)
    exact { h with receiver := h.receiver.expire_other hother }
  | other e =>
    obtain ⟨rfl, hother⟩ := other_cases hstep
    exact { h with receiver := h.receiver.onTyping_other hother }
  | tick =>
    obtain ⟨rfl, -, -⟩ := tick_cases hstep
    exact { h with past := fun k hk => (h.past k hk).trans (Nat.le_succ _) }

/-- **Every step keeps the invariant.** -/
theorem Inv.next {a : Action} (h : Inv session s) (hstep : step session s a = some t) :
    Inv session t := by
  rcases h with h | ⟨last, h⟩
  · by_cases hkey : a = .key
    · subst hkey
      exact Or.inr ⟨_, (h.key hstep).1⟩
    · exact Or.inl (h.next hkey hstep)
  · by_cases hkey : a = .key
    · subst hkey
      exact Or.inr ⟨_, (h.key hstep).1⟩
    · by_cases hstop : a = .stop
      · subst hstop
        exact Or.inl (h.stop hstep).2
      · exact Or.inr ⟨last, (h.next hkey hstop hstep).1⟩

/-! ## Bursts that end in time -/

/-- The timer of the receiver outlasts the stop timer. -/
def Short (s : State) : Prop :=
  ∀ due, s.sender.stopTimer = some due → due ≤ s.startedAt + EXPIRE_AFTER

theorem Inv.tracks (h : Inv session s) (hshort : Short s) : Tracks session s := by
  intro hstop hexpire
  rcases h with h | ⟨last, h⟩
  · rw [h.receiver.count, if_neg (by simp)]
    refine (if_neg ?_).symm
    rintro ⟨k, hk, -, hlt⟩
    have hpast := h.past k hk
    omega
  · have htimer : s.sender.stopTimer = some (last + STOP_AFTER) := congrArg _ h.sender
    have hlast := hstop _ htimer
    have hend := hshort _ htimer
    rcases h.receiver with ⟨hholds, -⟩ | ⟨-, hle⟩
    · rw [hholds.count]
      exact (if_pos ⟨last, h.mem, h.last_le, hlast⟩).symm
    · omega

theorem Inv.short_next {a : Action} (h : Inv session s) (hshort : Short s) (htime : InTime s a)
    (hstep : step session s a = some t) : Short t := by
  intro due hdue
  rcases h with h | ⟨last, h⟩
  · by_cases hkey : a = .key
    · subst hkey
      obtain ⟨hburst, hbegan⟩ := h.key hstep
      have hle : STOP_AFTER ≤ EXPIRE_AFTER := by decide
      rw [hburst.sender] at hdue
      rw [hbegan, ← Option.some.inj hdue]
      omega
    · rw [(h.next hkey hstep).sender] at hdue
      cases hdue
  · by_cases hkey : a = .key
    · subst hkey
      obtain ⟨hburst, hbegan⟩ := h.key hstep
      rw [hburst.sender] at hdue
      rw [hbegan, ← Option.some.inj hdue]
      exact htime rfl (congrArg Sender.started h.sender)
    · by_cases hstop : a = .stop
      · subst hstop
        rw [(h.stop hstep).2.sender] at hdue
        cases hdue
      · obtain ⟨-, hsender, hbegan⟩ := h.next hkey hstop hstep
        rw [hsender] at hdue
        rw [hbegan]
        exact hshort due hdue

/-! ## Bursts that last too long -/

/-- The stop timer outlasts the timer of the receiver, which has yet to run out. -/
def Doomed (session : Session) (s : State) : Prop :=
  ∃ last, Burst session s last ∧ s.startedAt + EXPIRE_AFTER < last + STOP_AFTER ∧
    s.now ≤ s.startedAt + EXPIRE_AFTER

/-- Time does not pass the timer of the receiver unless the indicator is lost. -/
theorem Doomed.next {a : Action} (h : Doomed session s) (htracks : Tracks session s)
    (hstep : step session s a = some t) : Doomed session t := by
  obtain ⟨last, hburst, hlate, hnow⟩ := h
  by_cases hkey : a = .key
  · subst hkey
    obtain ⟨hburst', hbegan⟩ := hburst.key hstep
    have hlast := hburst.last_le
    have hsame := hburst.now_key hstep
    exact ⟨s.now, hburst', by omega, by omega⟩
  by_cases hstop : a = .stop
  · subst hstop
    have hdue := (hburst.stop hstep).1
    omega
  obtain ⟨hburst', -, hbegan⟩ := hburst.next hkey hstop hstep
  refine ⟨last, hburst', by omega, ?_⟩
  rw [hbegan]
  cases a with
  | key => exact absurd rfl hkey
  | stop => exact absurd rfl hstop
  | expire userId =>
    obtain ⟨rfl, -⟩ := expire_cases hstep
    exact hnow
  | other e =>
    obtain ⟨rfl, -⟩ := other_cases hstep
    exact hnow
  | tick =>
    obtain ⟨rfl, hdue, hexpire⟩ := tick_cases hstep
    have hshown := htracks hdue fun due hmem => hexpire _ hmem
    rw [if_pos ⟨last, hburst.mem, hburst.last_le,
      hdue _ (congrArg Sender.stopTimer hburst.sender)⟩] at hshown
    rcases hburst.receiver with ⟨hholds, -⟩ | ⟨hholds, -⟩
    · exact hexpire _ ((hholds.timer _).mpr rfl)
    · rw [hholds.count] at hshown
      cases hshown

/-- **A doomed burst loses the indicator**: without another keystroke it comes to a moment
at which the receiver does not track the sender. -/
theorem Doomed.exists_lost (h : Doomed session s) :
    ∃ bs u, Action.key ∉ bs ∧ exec (step session) s bs = some u ∧ ¬ Tracks session u := by
  -- time is bounded, and at one time there are fewer timers with each that runs
  induction hn : s.startedAt + EXPIRE_AFTER - s.now + s.receiver.expiryTimers.length using
    Nat.strong_induction_on generalizing s with
  | _ n ih =>
    by_cases htracks : Tracks session s
    case neg => exact ⟨[], s, List.not_mem_nil, rfl, htracks⟩
    have hfurther : ∀ (a : Action) (t : State), a ≠ .key → step session s a = some t →
        t.startedAt + EXPIRE_AFTER - t.now + t.receiver.expiryTimers.length < n →
          ∃ bs u, Action.key ∉ bs ∧ exec (step session) s bs = some u ∧ ¬ Tracks session u := by
      intro a t hkey hstep hlt
      obtain ⟨bs, u, hbs, hu, hlost⟩ := ih _ hlt (h.next htracks hstep) rfl
      refine ⟨a :: bs, u, ?_, by rw [exec_cons_of_step hstep, hu], hlost⟩
      rw [List.mem_cons, not_or]
      exact ⟨Ne.symm hkey, hbs⟩
    by_cases hexpire : s.receiver.expiryTimers.any (·.2 ≤ s.now) = true
    · obtain ⟨⟨userId, due⟩, hmem, hdue⟩ := List.any_eq_true.mp hexpire
      have hstep : step session s (.expire userId) =
          some { s with receiver := s.receiver.expire userId } := by
        unfold step
        refine if_pos (List.any_eq_true.mpr ⟨(userId, due), hmem, decide_eq_true ⟨rfl, ?_⟩⟩)
        exact of_decide_eq_true hdue
      refine hfurther _ _ (by simp) hstep ?_
      have hshorter : (s.receiver.expire userId).expiryTimers.length <
          s.receiver.expiryTimers.length :=
        List.length_filter_lt_length_iff_exists.mpr ⟨(userId, due), hmem, by simp⟩
      dsimp only
      omega
    · obtain ⟨last, hburst, hlate, hnow⟩ := h
      have hquiet : s.someDue = false := by
        rw [State.someDue, hburst.sender, Bool.eq_false_iff.mpr hexpire, Bool.or_false]
        simp only [Option.any_some, decide_eq_false_iff_not]
        omega
      have hstep : step session s .tick = some { s with now := s.now + 1 } := by
        unfold step
        dsimp only
        rw [hquiet]
        rfl
      obtain ⟨-, -, -, hnow'⟩ := Doomed.next ⟨last, hburst, hlate, hnow⟩ htracks hstep
      refine hfurther _ _ (by simp) hstep ?_
      dsimp only at hnow' ⊢
      omega

/-- A doomed burst is doomed along a run that has lost nothing yet. -/
theorem Doomed.exec {as : List Action} {u : State} (h : Doomed session s)
    (hstates : AllStates (step session) (Tracks session) s as)
    (hu : Transition.exec (step session) s as = some u) : Doomed session u := by
  induction as generalizing s with
  | nil =>
    rw [← Option.some.inj hu]
    exact h
  | cons a as ih =>
    obtain ⟨t, hst, htu⟩ := exists_of_exec_cons hu
    exact ih (h.next hstates.1 hst) (hstates.2 t hst) htu

/-- A late keystroke dooms its burst. -/
theorem Inv.doomed {a : Action} (h : Inv session s) (hshort : Short s) (hlate : ¬ InTime s a)
    (hstep : step session s a = some t) : Doomed session t := by
  have hkey : a = .key ∧ s.sender.started = true ∧
      s.startedAt + EXPIRE_AFTER < s.now + STOP_AFTER := by
    unfold InTime at hlate
    rw [Classical.not_imp, Classical.not_imp, Nat.not_le] at hlate
    exact hlate
  obtain ⟨rfl, hstarted, hlt⟩ := hkey
  rcases h with h | ⟨last, h⟩
  · rw [h.sender] at hstarted
    cases hstarted
  · obtain ⟨hburst, hbegan⟩ := h.key hstep
    have hend := hshort _ (congrArg Sender.stopTimer h.sender)
    have hnow := h.now_le
    have hsame := h.now_key hstep
    exact ⟨s.now, hburst, by omega, by omega⟩

/-- A run with a late keystroke comes to a doomed burst, if it has lost nothing yet. -/
theorem Inv.doomed_of_late {u : State} {as : List Action} (hinv : Inv session s)
    (hshort : Short s) (hstates : AllStates (step session) (Tracks session) s as)
    (hu : exec (step session) s as = some u) (hlate : ¬ AllSteps (step session) InTime s as) :
    Doomed session u := by
  induction as generalizing s with
  | nil => exact absurd trivial hlate
  | cons a as ih =>
    obtain ⟨t, hst, htu⟩ := exists_of_exec_cons hu
    have hrest := hstates.2 t hst
    by_cases htime : InTime s a
    · refine ih (hinv.next hst) (hinv.short_next hshort htime hst) hrest htu fun hall => ?_
      refine hlate fun t' hst' => ⟨htime, ?_⟩
      obtain rfl := Option.some.inj (hst.symm.trans hst')
      exact hall
    · exact (hinv.doomed hshort htime hst).exec hrest htu

/-! ## The exact condition -/

theorem short_start : Short start := fun due hdue => by cases hdue

/-- **The indicator tracks the keystrokes of a run, whatever follows it without a keystroke,
if and only if every keystroke comes in time.** -/
theorem tracks_iff (session : Session) (as : List Action) (s : State)
    (hs : exec (step session) start as = some s) :
    (∀ bs, Action.key ∉ bs → AllStates (step session) (Tracks session) start (as ++ bs)) ↔
      AllSteps (step session) InTime start as := by
  constructor
  · intro h
    by_contra hlate
    have hstates : AllStates (step session) (Tracks session) start as := by
      have hnil := h [] List.not_mem_nil
      rwa [List.append_nil] at hnil
    have hdoomed := (inv_start session).doomed_of_late short_start hstates hs hlate
    obtain ⟨bs, u, hbs, hu, hlost⟩ := hdoomed.exists_lost
    refine hlost ((h bs hbs).last ?_)
    rw [exec_append, hs, Option.bind_some, hu]
  · intro h bs hbs
    have hall : AllSteps (step session) InTime start (as ++ bs) := by
      refine h.append fun u _ => AllSteps.of_mem fun a ha t hkey => ?_
      rw [hkey] at ha
      exact absurd ha hbs
    have hkept : AllStates (step session) (fun t => Inv session t ∧ Short t) start (as ++ bs) := by
      refine AllStates.of_allSteps (fun s a t h hC hst => ?_) ⟨inv_start session, short_start⟩ hall
      exact ⟨h.1.next hst, h.1.short_next h.2 hC hst⟩
    exact hkept.mono fun t ht => ht.1.tracks ht.2

/-! ## A burst of four seconds -/

/-- A user in one room. -/
def sampleSession : Session := ⟨"g", "u", ["group:g"], by decide, by decide⟩

/-- Time passes while no timer is due. -/
theorem exec_ticks (session : Session) (n : ℕ) (s : State)
    (hstop : s.sender.stopTimer.all (s.now + n ≤ ·) = true)
    (hexpire : s.receiver.expiryTimers.all (s.now + n ≤ ·.2) = true) :
    exec (step session) s (List.replicate n .tick) = some { s with now := s.now + n } := by
  induction n generalizing s with
  | zero => rfl
  | succ n ih =>
    have hdue : s.someDue = false := by
      rw [State.someDue, Bool.or_eq_false_iff]
      constructor
      · cases htimer : s.sender.stopTimer with
        | none => rfl
        | some due =>
          rw [htimer, Option.all_some, decide_eq_true_eq] at hstop
          simp only [Option.any_some, decide_eq_false_iff_not]
          omega
      · rw [List.any_eq_false]
        intro timer htimer
        have hle := of_decide_eq_true (List.all_eq_true.mp hexpire timer htimer)
        rw [decide_eq_true_eq]
        omega
    have htick : step session s .tick = some { s with now := s.now + 1 } := by
      unfold step
      dsimp only
      rw [hdue]
      rfl
    have hnow : s.now + (n + 1) = s.now + 1 + n := by omega
    rw [hnow] at hstop hexpire
    rw [List.replicate_succ, exec_cons_of_step htick, ih _ hstop hexpire, hnow]

/-- Keystrokes two seconds apart, until the timer of the receiver has run out. -/
def longBurst : List Action :=
  .key :: (List.replicate 2000 .tick ++ .key :: (List.replicate 2000 .tick ++
    .key :: (List.replicate 1000 .tick ++ [.expire "u"])))

/-- **The indicator disappears while keystrokes keep coming.** -/
theorem not_tracks_longBurst :
    ¬ AllStates (step sampleSession) (Tracks sampleSession) start longBurst := by
  have hfirst : step sampleSession start .key =
      some ⟨0, ⟨true, some 2500⟩, ⟨["u"], [("u", 5000)]⟩, [0], 0⟩ := by decide
  have hsecond : step sampleSession ⟨2000, ⟨true, some 2500⟩, ⟨["u"], [("u", 5000)]⟩, [0], 0⟩ .key =
      some ⟨2000, ⟨true, some 4500⟩, ⟨["u"], [("u", 5000)]⟩, [2000, 0], 0⟩ := by decide
  have hthird :
      step sampleSession ⟨4000, ⟨true, some 4500⟩, ⟨["u"], [("u", 5000)]⟩, [2000, 0], 0⟩ .key =
        some ⟨4000, ⟨true, some 6500⟩, ⟨["u"], [("u", 5000)]⟩, [4000, 2000, 0], 0⟩ := by decide
  have hrun : exec (step sampleSession) start longBurst =
      some ⟨5000, ⟨true, some 6500⟩, ⟨[], []⟩, [4000, 2000, 0], 0⟩ := by
    rw [longBurst, exec_cons_of_step hfirst, exec_append,
      exec_ticks sampleSession 2000 _ (by decide) (by decide), Option.bind_some,
      exec_cons_of_step hsecond, exec_append,
      exec_ticks sampleSession 2000 _ (by decide) (by decide), Option.bind_some,
      exec_cons_of_step hthird, exec_append,
      exec_ticks sampleSession 1000 _ (by decide) (by decide), Option.bind_some]
    decide
  intro h
  have hlast := h.last hrun (by simp) (by simp)
  rw [if_pos ⟨4000, by decide⟩] at hlast
  exact absurd hlast (by decide)

/-- Two keystrokes are in time, and tracked for as long as no other follows. -/
theorem tracks_iff_twoKeys :
    AllSteps (step sampleSession) InTime start [.key, .tick, .key] ∧
      ∀ bs, Action.key ∉ bs → AllStates (step sampleSession) (Tracks sampleSession) start
        ([.key, .tick, .key] ++ bs) := by
  have htime : AllSteps (step sampleSession) InTime start [.key, .tick, .key] := by decide
  have hrun : exec (step sampleSession) start [.key, .tick, .key] =
      some ⟨1, ⟨true, some 2501⟩, ⟨["u"], [("u", 5000)]⟩, [1, 0], 0⟩ := by decide
  exact ⟨htime, (tracks_iff sampleSession _ _ hrun).mpr htime⟩

end Typing
end Client
end GroupChat

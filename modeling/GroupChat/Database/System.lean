import GroupChat.Database.ReadCommitted
import Mathlib.Logic.Function.Basic

/-!
# Calls that run transactions

A service call is a small program that runs one statement at a time, and calls
overlap.  A `System` is a store, where each of the calls stands, and whatever
else the component keeps (`aux`).  Call number `c` is also transaction number
`c`: every call here opens at most one transaction at a time.

A statement reads what its transaction sees and comes to an `Effect`; `perform`
carries the effect out.  There are five kinds, and `perform` is the only thing
that ever changes a system, so what one call can do to another is settled once,
by `frame_of_perform`:

* the other call stands where it stood, with the writes it had made;
* the committed rows it has locked have not moved.

Whether rows nobody has locked may move is for the component to say.
-/

namespace GroupChat
namespace Database

variable {R K C Γ : Type*}

/-- What a statement comes to, after it has read. -/
inductive Effect (R K C : Type*) where
  /-- Nothing is written. -/
  | goto (pc : C)
  /-- Write inside the open transaction. -/
  | write (ws : List (Write R K)) (pc : C)
  /-- Write in a transaction of its own. -/
  | autocommit (ws : List (Write R K)) (pc : C)
  /-- Commit the open transaction. -/
  | commit (pc : C)
  /-- Roll the open transaction back. -/
  | abort (pc : C)

/-- Where the call goes on. -/
def Effect.pc : Effect R K C → C
  | .goto pc => pc
  | .write _ pc => pc
  | .autocommit _ pc => pc
  | .commit pc => pc
  | .abort pc => pc

/-- The committed rows and the open writes of a call after an effect, when nothing holds it up. -/
def Effect.after {key : R → K} [DecidableEq K] (t : Table key) (ws : List (Write R K)) :
    Effect R K C → Table key × List (Write R K)
  | .goto _ => (t, ws)
  | .write ws' _ => (t, ws ++ ws')
  | .autocommit ws' _ => (t.applyAll (ws ++ ws'), [])
  | .commit _ => (t.applyAll ws, [])
  | .abort _ => (t, [])

/-- A store, the calls that work on it, and what else the component keeps. -/
structure System (key : R → K) (C Γ : Type*) where
  store : Store key ℕ
  calls : ℕ → C
  aux : Γ

namespace System

variable {key : R → K}

/-- Move one call. -/
def goto (s : System key C Γ) (c : ℕ) (pc : C) : System key C Γ :=
  { s with calls := Function.update s.calls c pc }

@[simp] theorem goto_store (s : System key C Γ) (c : ℕ) (pc : C) :
    (s.goto c pc).store = s.store := rfl

@[simp] theorem goto_aux (s : System key C Γ) (c : ℕ) (pc : C) : (s.goto c pc).aux = s.aux := rfl

@[simp] theorem goto_calls_self (s : System key C Γ) (c : ℕ) (pc : C) :
    (s.goto c pc).calls c = pc := by
  show Function.update s.calls c pc c = pc
  exact Function.update_self c pc s.calls

theorem goto_calls_of_ne (s : System key C Γ) {c c' : ℕ} (pc : C) (h : c' ≠ c) :
    (s.goto c pc).calls c' = s.calls c' := by
  show Function.update s.calls c pc c' = s.calls c'
  exact Function.update_of_ne h pc s.calls

variable [DecidableEq K]

/-- The committed rows. -/
def committed (s : System key C Γ) : Table key := s.store.committed

/-- Carry out the effect of a statement of call `c`, leaving `aux` as given.  A
write waits, and the step is not available, while another call holds a row. -/
def perform (s : System key C Γ) (c : ℕ) (e : Effect R K C) (aux : Γ) :
    Option (System key C Γ) :=
  match e with
  | .goto pc => some ({ s with aux := aux }.goto c pc)
  | .write ws pc =>
    (s.store.writes? c ws).map fun st => { s with store := st, aux := aux }.goto c pc
  | .autocommit ws pc =>
    (s.store.writes? c ws).map fun st => { s with store := st.commit c, aux := aux }.goto c pc
  | .commit pc => some ({ s with store := s.store.commit c, aux := aux }.goto c pc)
  | .abort pc => some ({ s with store := s.store.rollback c, aux := aux }.goto c pc)

/-! ## What one call can do to another -/

/-- Call `c` has moved; what every other call relies on is as it was. -/
structure Frame (s t : System key C Γ) (c : ℕ) : Prop where
  calls_of_ne : ∀ c' ≠ c, t.calls c' = s.calls c'
  writesOf_of_ne : ∀ c' ≠ c, t.store.writesOf c' = s.store.writesOf c'
  mem_of_mem_locks : ∀ c' ≠ c, ∀ r, key r ∈ s.store.locks c' →
    (r ∈ t.store.committed ↔ r ∈ s.store.committed)

omit [DecidableEq K] in
theorem Frame.locks_of_ne {s t : System key C Γ} {c c' : ℕ} (h : Frame s t c) (hne : c' ≠ c) :
    t.store.locks c' = s.store.locks c' := by
  rw [Store.locks, Store.locks, h.writesOf_of_ne c' hne]

/-- **One call does not disturb what another has locked.** -/
theorem frame_of_perform {s t : System key C Γ} {c : ℕ} {e : Effect R K C} {aux : Γ}
    (h : s.perform c e aux = some t) : Frame s t c := by
  cases e with
  | goto pc =>
    rw [← Option.some.inj h]
    exact ⟨fun c' hne => goto_calls_of_ne _ pc hne, fun _ _ => rfl, fun _ _ _ _ => Iff.rfl⟩
  | write ws pc =>
    obtain ⟨st, hst, rfl⟩ := Option.map_eq_some_iff.mp h
    have hext : s.store.Extends st c ws := Store.Extends.of_writes? hst
    refine ⟨fun c' hne => goto_calls_of_ne _ pc hne, hext.writesOf_of_ne, fun _ _ r _ => ?_⟩
    rw [goto_store, hext.committed]
  | autocommit ws pc =>
    obtain ⟨st, hst, rfl⟩ := Option.map_eq_some_iff.mp h
    have hext : s.store.Extends st c ws := Store.Extends.of_writes? hst
    refine ⟨fun c' hne => goto_calls_of_ne _ pc hne, fun c' hne => ?_, fun c' hne r hr => ?_⟩
    · rw [goto_store, Store.writesOf_commit_of_ne _ hne, hext.writesOf_of_ne c' hne]
    · have hlock : key r ∈ st.locks c' := by
        rw [Store.locks, hext.writesOf_of_ne c' hne]
        exact hr
      rw [goto_store, Store.mem_commit_of_mem_locks hlock hne, hext.committed]
  | commit pc =>
    rw [← Option.some.inj h]
    exact ⟨fun c' hne => goto_calls_of_ne _ pc hne,
      fun c' hne => Store.writesOf_commit_of_ne _ hne,
      fun c' hne r hr => Store.mem_commit_of_mem_locks hr hne⟩
  | abort pc =>
    rw [← Option.some.inj h]
    exact ⟨fun c' hne => goto_calls_of_ne _ pc hne,
      fun c' hne => Store.writesOf_rollback_of_ne _ hne, fun _ _ _ _ => Iff.rfl⟩

/-! ## What a statement does for its own call -/

section Own

variable {s t : System key C Γ} {c : ℕ} {e : Effect R K C} {aux : Γ}

theorem calls_of_perform (h : s.perform c e aux = some t) : t.calls c = e.pc := by
  cases e with
  | goto pc | commit pc | abort pc =>
    rw [← Option.some.inj h]
    exact goto_calls_self _ c pc
  | write ws pc | autocommit ws pc =>
    obtain ⟨st, -, rfl⟩ := Option.map_eq_some_iff.mp h
    exact goto_calls_self _ c pc

theorem aux_of_perform (h : s.perform c e aux = some t) : t.aux = aux := by
  cases e with
  | goto pc | commit pc | abort pc =>
    rw [← Option.some.inj h]
    rfl
  | write ws pc | autocommit ws pc =>
    obtain ⟨st, -, rfl⟩ := Option.map_eq_some_iff.mp h
    rfl

variable {pc : C} {ws : List (Write R K)}

theorem store_of_perform_goto (h : s.perform c (.goto pc) aux = some t) : t.store = s.store := by
  rw [← Option.some.inj h]
  rfl

theorem committed_of_perform_write (h : s.perform c (.write ws pc) aux = some t) :
    t.store.committed = s.store.committed ∧ t.store.writesOf c = s.store.writesOf c ++ ws := by
  obtain ⟨st, hst, rfl⟩ := Option.map_eq_some_iff.mp h
  have hext : s.store.Extends st c ws := Store.Extends.of_writes? hst
  exact ⟨hext.committed, hext.writesOf_self⟩

theorem committed_of_perform_autocommit (h : s.perform c (.autocommit ws pc) aux = some t)
    (hnil : s.store.writesOf c = []) :
    t.store.committed = s.store.committed.applyAll ws ∧ t.store.writesOf c = [] := by
  obtain ⟨st, hst, rfl⟩ := Option.map_eq_some_iff.mp h
  have hext : s.store.Extends st c ws := Store.Extends.of_writes? hst
  refine ⟨?_, Store.writesOf_commit_self st c⟩
  rw [goto_store, Store.commit_committed, Store.view, hext.writesOf_self, hnil, List.nil_append,
    hext.committed]

theorem committed_of_perform_commit (h : s.perform c (.commit pc) aux = some t) :
    t.store.committed = s.store.view c ∧ t.store.writesOf c = [] := by
  rw [← Option.some.inj h]
  exact ⟨rfl, Store.writesOf_commit_self s.store c⟩

theorem committed_of_perform_abort (h : s.perform c (.abort pc) aux = some t) :
    t.store.committed = s.store.committed ∧ t.store.writesOf c = [] := by
  rw [← Option.some.inj h]
  exact ⟨rfl, Store.writesOf_rollback_self s.store c⟩

end Own

/-! ## A call on its own -/

/-- No call but `c` has a transaction open; it stands at `pc` and has written `ws`. -/
structure Alone (s : System key C Γ) (c : ℕ) (t : Table key) (ws : List (Write R K)) (pc : C) :
    Prop where
  committed : s.store.committed = t
  log : s.store.log = ws.map (Prod.mk c)
  call : s.calls c = pc

section Alone

variable {s : System key C Γ} {c : ℕ} {t : Table key} {ws : List (Write R K)} {pc : C}

omit [DecidableEq K] in
theorem Alone.eq_of_mem_log (h : s.Alone c t ws pc) {e : ℕ × Write R K} (he : e ∈ s.store.log) :
    e.1 = c := by
  rw [h.log] at he
  obtain ⟨w, -, rfl⟩ := List.mem_map.mp he
  rfl

omit [DecidableEq K] in
theorem Alone.not_lockedByOther (h : s.Alone c t ws pc) (k : K) : ¬s.store.LockedByOther c k := by
  rintro ⟨e, he, hne, -⟩
  exact hne (h.eq_of_mem_log he)

omit [DecidableEq K] in
theorem Alone.not_pendingByOther (h : s.Alone c t ws pc) (p : R → Prop) :
    ¬s.store.PendingByOther c p := by
  rintro ⟨e, he, hne, -⟩
  exact hne (h.eq_of_mem_log he)

theorem Alone.view (h : s.Alone c t ws pc) : s.store.view c = t.applyAll ws := by
  have hwrites : s.store.writesOf c = ws := by
    have hall : (ws.map (Prod.mk c)).filter (fun e => decide (e.1 = c)) = ws.map (Prod.mk c) :=
      List.filter_eq_self.mpr fun e he => by
        obtain ⟨w, -, rfl⟩ := List.mem_map.mp he
        exact decide_eq_true rfl
    rw [Store.writesOf, h.log, hall, List.map_map]
    exact List.map_id ws
  rw [Store.view, hwrites, h.committed]

omit [DecidableEq K] in
/-- When its transaction ends, none is open. -/
theorem Alone.filter_log (h : s.Alone c t ws pc) :
    (s.store.log.filter fun e => decide (e.1 ≠ c)) = [] :=
  List.filter_eq_nil_iff.mpr fun _ he hne => of_decide_eq_true hne (h.eq_of_mem_log he)

/-- **Nothing holds up a call on its own.** -/
theorem Alone.exists_perform (h : s.Alone c t ws pc) (e : Effect R K C) (aux : Γ) :
    ∃ s', s.perform c e aux = some s' ∧ s'.Alone c (e.after t ws).1 (e.after t ws).2 e.pc := by
  cases e with
  | goto pc => exact ⟨_, rfl, h.committed, h.log, goto_calls_self _ c pc⟩
  | write ws' pc =>
    obtain ⟨st, hst, hcommitted, hlog⟩ := Store.exists_writes? (fun e => h.eq_of_mem_log) ws'
    refine ⟨_, congrArg (Option.map _) hst, hcommitted.trans h.committed, ?_, goto_calls_self _ c pc⟩
    show st.log = (ws ++ ws').map (Prod.mk c)
    rw [hlog, h.log, List.map_append]
  | autocommit ws' pc =>
    obtain ⟨st, hst, hcommitted, hlog⟩ := Store.exists_writes? (fun e => h.eq_of_mem_log) ws'
    have hafter : System.Alone { s with store := st } c t (ws ++ ws') (s.calls c) :=
      ⟨hcommitted.trans h.committed, by rw [hlog, h.log, List.map_append], rfl⟩
    exact ⟨_, congrArg (Option.map _) hst, hafter.view, hafter.filter_log, goto_calls_self _ c pc⟩
  | commit pc => exact ⟨_, rfl, h.view, h.filter_log, goto_calls_self _ c pc⟩
  | abort pc => exact ⟨_, rfl, h.committed, h.filter_log, goto_calls_self _ c pc⟩

end Alone

end System
end Database
end GroupChat

import GroupChat.Database.Table

/-!
# Concurrent transactions under READ COMMITTED

A store is what the committed statements of the past have left behind, together
with the writes of the transactions that are still open.  The isolation level is
what a transaction can see and when it must wait:

* a statement sees the committed table overlaid with the writes of its own
  transaction (`view`), and nothing of any other open transaction;
* a write locks the row it targets until its transaction ends, so a write to a
  row locked by another transaction is not available yet (`write?` is `none`)
  and is looked at again, on the committed row of that moment, when it is;
* `commit` publishes all writes of a transaction at once, and `rollback` forgets
  them.

That two open transactions never hold the same row is not something to prove
about each program: it is the field `exclusive`, and `write?` can only build a
store that has it.  What a program proof needs in return is that a row locked by
one transaction is not moved by the commit of another
(`mem_commit_of_mem_locks`), and that a commit moves only the rows it locked
(`mem_commit_of_not_mem_locks`).
-/

namespace GroupChat
namespace Database

variable {R K T : Type*}

/-- The effect of a statement on one row. -/
inductive Write (R K : Type*) where
  | put (r : R)
  | remove (k : K)

/-- The key of the row a write is about. -/
def Write.target (key : R → K) : Write R K → K
  | .put r => key r
  | .remove k => k

@[simp] theorem Write.target_put (key : R → K) (r : R) :
    (Write.put r : Write R K).target key = key r := rfl

@[simp] theorem Write.target_remove (key : R → K) (k : K) :
    (Write.remove k : Write R K).target key = k := rfl

/-! ## Writes on a table -/

section Apply

variable {key : R → K} [DecidableEq K]

/-- Perform one write on a table. -/
def Table.apply (t : Table key) : Write R K → Table key
  | .put r => t.put r
  | .remove k => t.remove k

/-- Perform a list of writes, in order. -/
def Table.applyAll (t : Table key) (ws : List (Write R K)) : Table key :=
  ws.foldl Table.apply t

@[simp] theorem Table.applyAll_nil (t : Table key) : t.applyAll [] = t := rfl

@[simp] theorem Table.applyAll_cons (t : Table key) (w : Write R K) (ws : List (Write R K)) :
    t.applyAll (w :: ws) = (t.apply w).applyAll ws := rfl

theorem Table.mem_apply_of_ne {t : Table key} {w : Write R K} {r : R}
    (h : key r ≠ w.target key) : r ∈ t.apply w ↔ r ∈ t := by
  cases w with
  | put x => exact Table.mem_put_of_key_ne h
  | remove k => exact Table.mem_remove.trans (and_iff_left h)

/-- Writes do not move the rows they do not target. -/
theorem Table.mem_applyAll_of_not_mem {t : Table key} {ws : List (Write R K)} {r : R}
    (h : key r ∉ ws.map (Write.target key)) : r ∈ t.applyAll ws ↔ r ∈ t := by
  induction ws generalizing t with
  | nil => exact Iff.rfl
  | cons w ws ih =>
    rw [List.map_cons, List.mem_cons, not_or] at h
    rw [Table.applyAll_cons, ih h.2, Table.mem_apply_of_ne h.1]

/-- A row that a list of writes leaves behind was put, or was there before under a key
they do not target. -/
theorem Table.put_or_old_of_mem_applyAll {t : Table key} {ws : List (Write R K)} {r : R}
    (h : r ∈ t.applyAll ws) : Write.put r ∈ ws ∨ r ∈ t ∧ key r ∉ ws.map (Write.target key) := by
  induction ws generalizing t with
  | nil => exact Or.inr ⟨h, List.not_mem_nil⟩
  | cons w ws ih =>
    rw [List.map_cons]
    rcases ih h with h | ⟨h, hkey⟩
    · exact Or.inl (List.mem_cons_of_mem _ h)
    · cases w with
      | put x =>
        rcases Table.mem_put.mp h with rfl | ⟨hr, hne⟩
        · exact Or.inl List.mem_cons_self
        · exact Or.inr ⟨hr, List.not_mem_cons_of_ne_of_not_mem hne hkey⟩
      | remove k =>
        obtain ⟨hr, hne⟩ := Table.mem_remove.mp h
        exact Or.inr ⟨hr, List.not_mem_cons_of_ne_of_not_mem hne hkey⟩

end Apply

/-! ## Stores -/

/-- The committed table and the uncommitted writes of the open transactions,
oldest first.  No row is locked by two transactions. -/
structure Store (key : R → K) (T : Type*) where
  /-- What every transaction sees. -/
  committed : Table key
  /-- The writes of open transactions, each with its transaction. -/
  log : List (T × Write R K)
  /-- A row is locked by at most one open transaction. -/
  exclusive : ∀ e ∈ log, ∀ e' ∈ log, e.2.target key = e'.2.target key → e.1 = e'.1

namespace Store

variable {key : R → K}

/-- The store with the given committed rows and no open transaction. -/
def ofTable (t : Table key) : Store key T := ⟨t, [], by simp⟩

@[simp] theorem ofTable_committed (t : Table key) :
    (ofTable t : Store key T).committed = t := rfl

@[simp] theorem ofTable_log (t : Table key) : (ofTable t : Store key T).log = [] := rfl

variable [DecidableEq T]

/-- The writes of one open transaction, oldest first. -/
def writesOf (s : Store key T) (t : T) : List (Write R K) :=
  (s.log.filter fun e => e.1 = t).map Prod.snd

theorem mem_writesOf {s : Store key T} {t : T} {w : Write R K} :
    w ∈ s.writesOf t ↔ (t, w) ∈ s.log := by
  simp only [writesOf, List.mem_map, List.mem_filter, decide_eq_true_eq]
  constructor
  · rintro ⟨⟨t', w'⟩, ⟨hmem, rfl⟩, rfl⟩
    exact hmem
  · exact fun h => ⟨(t, w), ⟨h, rfl⟩, rfl⟩

@[simp] theorem writesOf_ofTable (t : Table key) (c : T) : (ofTable t).writesOf c = [] := rfl

/-- The rows one open transaction has locked. -/
def locks (s : Store key T) (t : T) : List K :=
  (s.writesOf t).map (Write.target key)

theorem mem_locks {s : Store key T} {t : T} {k : K} :
    k ∈ s.locks t ↔ ∃ w, (t, w) ∈ s.log ∧ w.target key = k := by
  simp only [locks, List.mem_map, mem_writesOf]

/-- **No row is locked twice.** -/
theorem eq_of_mem_locks {s : Store key T} {t t' : T} {k : K} (h : k ∈ s.locks t)
    (h' : k ∈ s.locks t') : t = t' := by
  obtain ⟨w, hw, hk⟩ := mem_locks.mp h
  obtain ⟨w', hw', hk'⟩ := mem_locks.mp h'
  exact s.exclusive _ hw _ hw' (hk.trans hk'.symm)

/-- Some other open transaction has locked the row. -/
def LockedByOther (s : Store key T) (t : T) (k : K) : Prop :=
  ∃ e ∈ s.log, e.1 ≠ t ∧ e.2.target key = k

instance [DecidableEq K] (s : Store key T) (t : T) (k : K) : Decidable (s.LockedByOther t k) :=
  inferInstanceAs (Decidable (∃ e ∈ s.log, e.1 ≠ t ∧ e.2.target key = k))

/-- Some other open transaction has put or removed a row with the property `p`, so
whether there is such a row is not settled yet.  A unique constraint waits here. -/
def PendingByOther (s : Store key T) (t : T) (p : R → Prop) : Prop :=
  ∃ e ∈ s.log, e.1 ≠ t ∧
    match e.2 with
    | .put r => p r
    | .remove k => ∃ r ∈ s.committed.rows, key r = k ∧ p r

instance [DecidableEq K] (s : Store key T) (t : T) (p : R → Prop) [DecidablePred p] :
    Decidable (s.PendingByOther t p) :=
  have (e : T × Write R K) : Decidable (match e.2 with
      | .put r => p r
      | .remove k => ∃ r ∈ s.committed.rows, key r = k ∧ p r) :=
    match e.2 with
    | .put r => inferInstanceAs (Decidable (p r))
    | .remove k => inferInstanceAs (Decidable (∃ r ∈ s.committed.rows, key r = k ∧ p r))
  inferInstanceAs (Decidable (∃ e ∈ s.log, e.1 ≠ t ∧
    match e.2 with
    | .put r => p r
    | .remove k => ∃ r ∈ s.committed.rows, key r = k ∧ p r))

theorem lockedByOther_of_mem_locks {s : Store key T} {t t' : T} {k : K} (h : k ∈ s.locks t')
    (hne : t' ≠ t) : s.LockedByOther t k := by
  obtain ⟨w, hw, hk⟩ := mem_locks.mp h
  exact ⟨(t', w), hw, hne, hk⟩

variable [DecidableEq K]

/-- What a statement of the transaction sees. -/
def view (s : Store key T) (t : T) : Table key :=
  s.committed.applyAll (s.writesOf t)

theorem view_of_writesOf_nil {s : Store key T} {t : T} (h : s.writesOf t = []) :
    s.view t = s.committed := by
  rw [view, h, Table.applyAll_nil]

/-- Write one row inside a transaction; not available while another transaction
holds the row. -/
def write? (s : Store key T) (t : T) (w : Write R K) : Option (Store key T) :=
  if h : s.LockedByOther t (w.target key) then none
  else some
    { committed := s.committed
      log := s.log ++ [(t, w)]
      exclusive := by
        intro e he e' he' hk
        rw [List.mem_append, List.mem_singleton] at he he'
        rcases he with he | rfl <;> rcases he' with he' | rfl
        · exact s.exclusive e he e' he' hk
        · by_contra hne
          exact h ⟨e, he, hne, hk⟩
        · by_contra hne
          exact h ⟨e', he', fun hh => hne hh.symm, hk.symm⟩
        · rfl }

theorem write?_eq_some {s s' : Store key T} {t : T} {w : Write R K}
    (h : s.write? t w = some s') :
    ¬ s.LockedByOther t (w.target key) ∧ s'.committed = s.committed ∧
      s'.log = s.log ++ [(t, w)] := by
  unfold write? at h
  split at h
  · exact absurd h (by simp)
  · next hfree =>
    rw [← Option.some.inj h]
    exact ⟨hfree, rfl, rfl⟩

/-- Write several rows in one statement: all of them or, while one is held, none. -/
def writes? (s : Store key T) (t : T) (ws : List (Write R K)) : Option (Store key T) :=
  ws.foldlM (fun s w => s.write? t w) s

@[simp] theorem writes?_nil (s : Store key T) (t : T) : s.writes? t [] = some s := rfl

theorem writes?_cons (s : Store key T) (t : T) (w : Write R K) (ws : List (Write R K)) :
    s.writes? t (w :: ws) = (s.write? t w).bind fun s' => s'.writes? t ws := rfl

/-- A transaction on its own waits for nobody. -/
theorem exists_writes? {s : Store key T} {t : T} (h : ∀ e ∈ s.log, e.1 = t)
    (ws : List (Write R K)) : ∃ s', s.writes? t ws = some s' ∧ s'.committed = s.committed ∧
      s'.log = s.log ++ ws.map (Prod.mk t) := by
  induction ws generalizing s with
  | nil => exact ⟨s, rfl, rfl, (List.append_nil _).symm⟩
  | cons w ws ih =>
    have hfree : ¬s.LockedByOther t (w.target key) := by
      rintro ⟨e, he, hne, -⟩
      exact hne (h e he)
    obtain ⟨s₁, hs₁⟩ : ∃ s₁, s.write? t w = some s₁ := ⟨_, dif_neg hfree⟩
    obtain ⟨-, hcommitted, hlog⟩ := write?_eq_some hs₁
    have hown : ∀ e ∈ s₁.log, e.1 = t := by
      intro e he
      rw [hlog, List.mem_append, List.mem_singleton] at he
      rcases he with he | rfl
      · exact h e he
      · rfl
    obtain ⟨s', hs', hcommitted', hlog'⟩ := ih hown
    refine ⟨s', ?_, hcommitted'.trans hcommitted, ?_⟩
    · rw [writes?_cons, hs₁, Option.bind_some, hs']
    · rw [hlog', hlog, List.append_assoc, List.map_cons, List.singleton_append]

/-- Publish the writes of a transaction and release its locks. -/
def commit (s : Store key T) (t : T) : Store key T where
  committed := s.view t
  log := s.log.filter fun e => e.1 ≠ t
  exclusive := fun e he e' he' =>
    s.exclusive e (List.mem_of_mem_filter he) e' (List.mem_of_mem_filter he')

/-- Forget the writes of a transaction and release its locks. -/
def rollback (s : Store key T) (t : T) : Store key T where
  committed := s.committed
  log := s.log.filter fun e => e.1 ≠ t
  exclusive := fun e he e' he' =>
    s.exclusive e (List.mem_of_mem_filter he) e' (List.mem_of_mem_filter he')

@[simp] theorem commit_committed (s : Store key T) (t : T) :
    (s.commit t).committed = s.view t := rfl

omit [DecidableEq K] in
@[simp] theorem rollback_committed (s : Store key T) (t : T) :
    (s.rollback t).committed = s.committed := rfl

/-! ## The writes of each transaction after a step -/

theorem writesOf_write?_self {s s' : Store key T} {t : T} {w : Write R K}
    (h : s.write? t w = some s') : s'.writesOf t = s.writesOf t ++ [w] := by
  rw [writesOf, (write?_eq_some h).2.2, List.filter_append, List.map_append]
  simp [writesOf]

theorem writesOf_write?_of_ne {s s' : Store key T} {t t' : T} {w : Write R K}
    (h : s.write? t w = some s') (hne : t' ≠ t) : s'.writesOf t' = s.writesOf t' := by
  have hno : ([(t, w)].filter fun e => decide (e.1 = t')) = [] := by
    simp [Ne.symm hne]
  rw [writesOf, (write?_eq_some h).2.2, List.filter_append, hno, List.append_nil, writesOf]

/-- A statement of `t` appended the writes `ws` to its transaction, and did
nothing else. -/
structure Extends (s s' : Store key T) (t : T) (ws : List (Write R K)) : Prop where
  committed : s'.committed = s.committed
  writesOf_self : s'.writesOf t = s.writesOf t ++ ws
  writesOf_of_ne : ∀ t' ≠ t, s'.writesOf t' = s.writesOf t'

theorem Extends.of_write? {s s' : Store key T} {t : T} {w : Write R K}
    (h : s.write? t w = some s') : s.Extends s' t [w] :=
  ⟨(write?_eq_some h).2.1, writesOf_write?_self h, fun _ hne => writesOf_write?_of_ne h hne⟩

/-- A statement that wrote several rows appended exactly those writes. -/
theorem Extends.of_writes? {s s' : Store key T} {t : T} {ws : List (Write R K)}
    (h : s.writes? t ws = some s') : s.Extends s' t ws := by
  induction ws generalizing s with
  | nil =>
    rw [writes?_nil] at h
    rw [← Option.some.inj h]
    exact ⟨rfl, (List.append_nil _).symm, fun _ _ => rfl⟩
  | cons w ws ih =>
    rw [writes?_cons] at h
    obtain ⟨s₁, hw, hws⟩ := Option.bind_eq_some_iff.mp h
    have h₁ : s.Extends s₁ t [w] := Extends.of_write? hw
    have h₂ : s₁.Extends s' t ws := ih hws
    refine ⟨h₂.committed.trans h₁.committed, ?_, fun t' hne => ?_⟩
    · rw [h₂.writesOf_self, h₁.writesOf_self, List.append_assoc, List.singleton_append]
    · rw [h₂.writesOf_of_ne t' hne, h₁.writesOf_of_ne t' hne]

omit [DecidableEq K] in
theorem writesOf_filter_self (s : Store key T) (t : T) :
    (((s.log.filter fun e => e.1 ≠ t).filter fun e => e.1 = t).map Prod.snd :
      List (Write R K)) = [] := by
  rw [List.filter_filter, List.map_eq_nil_iff, List.filter_eq_nil_iff]
  simp

omit [DecidableEq K] in
theorem writesOf_filter_of_ne (s : Store key T) {t t' : T} (hne : t' ≠ t) :
    (((s.log.filter fun e => e.1 ≠ t).filter fun e => e.1 = t').map Prod.snd :
      List (Write R K)) = s.writesOf t' := by
  rw [List.filter_filter, writesOf]
  refine congrArg _ (List.filter_congr fun e _ => ?_)
  by_cases h : e.1 = t'
  · simp [h, hne]
  · simp [h]

@[simp] theorem writesOf_commit_self (s : Store key T) (t : T) :
    (s.commit t).writesOf t = [] :=
  s.writesOf_filter_self t

theorem writesOf_commit_of_ne (s : Store key T) {t t' : T} (hne : t' ≠ t) :
    (s.commit t).writesOf t' = s.writesOf t' :=
  s.writesOf_filter_of_ne hne

omit [DecidableEq K] in
@[simp] theorem writesOf_rollback_self (s : Store key T) (t : T) :
    (s.rollback t).writesOf t = [] :=
  s.writesOf_filter_self t

omit [DecidableEq K] in
theorem writesOf_rollback_of_ne (s : Store key T) {t t' : T} (hne : t' ≠ t) :
    (s.rollback t).writesOf t' = s.writesOf t' :=
  s.writesOf_filter_of_ne hne

/-! ## What a commit moves -/

/-- A commit moves only rows its transaction had locked. -/
theorem mem_commit_of_not_mem_locks {s : Store key T} {t : T} {r : R}
    (h : key r ∉ s.locks t) : r ∈ (s.commit t).committed ↔ r ∈ s.committed :=
  Table.mem_applyAll_of_not_mem h

/-- **A locked row stands still.**  The commit of one transaction does not move
a row another transaction has locked. -/
theorem mem_commit_of_mem_locks {s : Store key T} {t t' : T} {r : R}
    (h : key r ∈ s.locks t') (hne : t' ≠ t) :
    r ∈ (s.commit t).committed ↔ r ∈ s.committed :=
  mem_commit_of_not_mem_locks fun ht => hne (eq_of_mem_locks h ht)

/-- Under a key the transaction has not locked, it sees what is committed. -/
theorem mem_view_of_not_mem_locks {s : Store key T} {t : T} {r : R} (h : key r ∉ s.locks t) :
    r ∈ s.view t ↔ r ∈ s.committed :=
  Table.mem_applyAll_of_not_mem h

end Store
end Database
end GroupChat

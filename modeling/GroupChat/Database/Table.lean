import Mathlib.Data.List.Nodup
import Mathlib.Data.List.Basic

/-!
# Tables with a primary key

A table is a finite list of rows no two of which share a key.  The key
constraint is a field, so a table with two rows of one key cannot be written
down, and every query below may identify a row by its key without saying why.

The order of the list carries no meaning: what a query returns is stated through
membership (`mem_put`, `mem_remove`), and everything that depends on an order
sorts by columns.  `put` writes a row under its key, whatever was there before,
and `remove` deletes a key; these are the two effects a statement has on one
row.
-/

namespace GroupChat
namespace Database

variable {R K : Type*}

/-- Finitely many rows, no two of them with the same key. -/
structure Table (key : R → K) where
  /-- The rows, in no particular order. -/
  rows : List R
  /-- The primary-key constraint. -/
  nodup : (rows.map key).Nodup

namespace Table

variable {key : R → K}

instance : Membership R (Table key) := ⟨fun t r => r ∈ t.rows⟩

theorem mem_def {t : Table key} {r : R} : r ∈ t ↔ r ∈ t.rows := Iff.rfl

instance [DecidableEq R] (r : R) (t : Table key) : Decidable (r ∈ t) :=
  inferInstanceAs (Decidable (r ∈ t.rows))

/-- The table with no rows. -/
def empty : Table key := ⟨[], List.nodup_nil⟩

@[simp] theorem not_mem_empty (r : R) : r ∉ (empty : Table key) := List.not_mem_nil

/-- **A key names at most one row.** -/
theorem eq_of_key_eq {t : Table key} {r r' : R} (hr : r ∈ t) (hr' : r' ∈ t)
    (h : key r = key r') : r = r' :=
  List.inj_on_of_nodup_map t.nodup hr hr' h

/-- A table is its rows. -/
theorem ext_rows {t t' : Table key} (h : t.rows = t'.rows) : t = t' := by
  cases t
  cases t'
  cases h
  rfl

/-! ## Looking rows up -/

section Find

variable [DecidableEq K]

/-- The row with a given key. -/
def find? (t : Table key) (k : K) : Option R :=
  t.rows.find? fun r => key r = k

theorem find?_eq_some_iff {t : Table key} {k : K} {r : R} :
    t.find? k = some r ↔ r ∈ t ∧ key r = k := by
  constructor
  · intro h
    exact ⟨List.mem_of_find?_eq_some h, by simpa using List.find?_some h⟩
  · rintro ⟨hr, hk⟩
    have hsome : (t.find? k).isSome := by
      rw [find?, List.find?_isSome]
      exact ⟨r, hr, by simpa using hk⟩
    obtain ⟨r', hr'⟩ := Option.isSome_iff_exists.mp hsome
    have hmem : r' ∈ t := List.mem_of_find?_eq_some hr'
    have hkey : key r' = k := by simpa using List.find?_some hr'
    rw [hr', eq_of_key_eq hmem hr (hkey.trans hk.symm)]

theorem find?_eq_none_iff {t : Table key} {k : K} :
    t.find? k = none ↔ ∀ r ∈ t, key r ≠ k := by
  rw [find?, List.find?_eq_none]
  simp only [decide_eq_true_eq]
  exact Iff.rfl

theorem find?_of_mem {t : Table key} {r : R} (h : r ∈ t) : t.find? (key r) = some r :=
  find?_eq_some_iff.mpr ⟨h, rfl⟩

theorem mem_of_find? {t : Table key} {k : K} {r : R} (h : t.find? k = some r) : r ∈ t :=
  (find?_eq_some_iff.mp h).1

theorem key_of_find? {t : Table key} {k : K} {r : R} (h : t.find? k = some r) : key r = k :=
  (find?_eq_some_iff.mp h).2

end Find

/-! ## Writing rows -/

section Write

variable [DecidableEq K]

/-- Delete the row with a given key, if there is one. -/
def remove (t : Table key) (k : K) : Table key where
  rows := t.rows.filter fun r => key r ≠ k
  nodup := t.nodup.sublist (List.filter_sublist.map key)

@[simp] theorem mem_remove {t : Table key} {k : K} {r : R} :
    r ∈ t.remove k ↔ r ∈ t ∧ key r ≠ k := by
  simp only [mem_def, remove, List.mem_filter, decide_eq_true_eq]

/-- Write a row under its key, replacing the row that was there. -/
def put (t : Table key) (r : R) : Table key where
  rows := (t.remove (key r)).rows ++ [r]
  nodup := by
    rw [List.map_append, List.map_singleton]
    refine List.Nodup.append (t.remove (key r)).nodup (List.nodup_singleton _) ?_
    rw [List.disjoint_singleton, List.mem_map]
    rintro ⟨x, hx, hxr⟩
    exact (mem_remove.mp hx).2 hxr

@[simp] theorem mem_put {t : Table key} {r x : R} :
    x ∈ t.put r ↔ x = r ∨ (x ∈ t ∧ key x ≠ key r) := by
  rw [mem_def, put, List.mem_append, List.mem_singleton, ← mem_def, mem_remove, or_comm]

theorem mem_put_self (t : Table key) (r : R) : r ∈ t.put r :=
  mem_put.mpr (Or.inl rfl)

/-- Rows under other keys do not notice a `put`. -/
theorem mem_put_of_key_ne {t : Table key} {r x : R} (h : key x ≠ key r) :
    x ∈ t.put r ↔ x ∈ t := by
  rw [mem_put]
  constructor
  · rintro (rfl | ⟨hx, -⟩)
    · exact absurd rfl h
    · exact hx
  · exact fun hx => Or.inr ⟨hx, h⟩

theorem find?_put_self (t : Table key) (r : R) : (t.put r).find? (key r) = some r :=
  find?_of_mem (mem_put_self t r)

theorem find?_put_of_ne {t : Table key} {r : R} {k : K} (h : k ≠ key r) :
    (t.put r).find? k = t.find? k := by
  refine Option.ext fun x => ?_
  rw [find?_eq_some_iff, find?_eq_some_iff]
  refine and_congr_left fun hx => mem_put_of_key_ne ?_
  rw [hx]
  exact h

/-- A row under a new key comes last. -/
theorem rows_put_of_find?_eq_none {t : Table key} {r : R} (h : t.find? (key r) = none) :
    (t.put r).rows = t.rows ++ [r] := by
  have hkeep : (t.remove (key r)).rows = t.rows :=
    List.filter_eq_self.mpr fun x hx => decide_eq_true (find?_eq_none_iff.mp h x hx)
  show (t.remove (key r)).rows ++ [r] = t.rows ++ [r]
  rw [hkeep]

end Write

/-! ## Writing many rows -/

/-- Rewrite every row, none of which changes its key. -/
def map (t : Table key) (f : R → R) (hf : ∀ r, key (f r) = key r) : Table key where
  rows := t.rows.map f
  nodup := by
    rw [List.map_map, show key ∘ f = key from funext hf]
    exact t.nodup

@[simp] theorem mem_map {t : Table key} {f : R → R} {hf : ∀ r, key (f r) = key r} {x : R} :
    x ∈ t.map f hf ↔ ∃ r ∈ t, f r = x :=
  List.mem_map

/-- Keep the rows that satisfy a condition. -/
def filter (t : Table key) (p : R → Bool) : Table key where
  rows := t.rows.filter p
  nodup := t.nodup.sublist (List.filter_sublist.map key)

@[simp] theorem mem_filter {t : Table key} {p : R → Bool} {x : R} :
    x ∈ t.filter p ↔ x ∈ t ∧ p x = true :=
  List.mem_filter

end Table
end Database
end GroupChat

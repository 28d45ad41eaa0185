import Mathlib.Data.List.Dedup
import Mathlib.Data.List.Induction
import Mathlib.Data.Option.Basic

/-!
# Maps that remember the order

A `Map` of JavaScript lists its entries in the order in which their keys came in; setting a key
it has already leaves the entry where it is.

A common use of one is to group the items of a list: each item is put to what its key has gathered
so far.  `values_gather` says what such a loop comes to: the keys in the order of their first
items, and for each of them what its own items come to.
-/

namespace GroupChat
namespace Collections

variable {K V X : Type*} [DecidableEq K]

/-- The entries of a `Map`. -/
structure JsMap (K V : Type*) where
  entries : List (K × V)
  nodup : (entries.map Prod.fst).Nodup

namespace JsMap

def empty : JsMap K V := ⟨[], List.nodup_nil⟩

def keys (m : JsMap K V) : List K := m.entries.map Prod.fst

def values (m : JsMap K V) : List V := m.entries.map Prod.snd

def get (m : JsMap K V) (k : K) : Option V :=
  (m.entries.find? fun e => e.1 = k).map Prod.snd

/-- The entries with a key set to a value. -/
def setEntries (k : K) (v : V) : List (K × V) → List (K × V)
  | [] => [(k, v)]
  | e :: es => if e.1 = k then (k, v) :: es else e :: setEntries k v es

theorem keys_setEntries (k : K) (v : V) (es : List (K × V)) :
    (setEntries k v es).map Prod.fst =
      if k ∈ es.map Prod.fst then es.map Prod.fst else es.map Prod.fst ++ [k] := by
  induction es with
  | nil => rfl
  | cons e es ih =>
    unfold setEntries
    by_cases he : e.1 = k
    · simp [he]
    · rw [if_neg he, List.map_cons, ih, List.map_cons]
      by_cases hk : k ∈ es.map Prod.fst
      · rw [if_pos hk, if_pos (List.mem_cons_of_mem _ hk)]
      · rw [if_neg hk, if_neg (List.mem_cons.not.mpr (not_or.mpr ⟨Ne.symm he, hk⟩))]
        rfl

def set (m : JsMap K V) (k : K) (v : V) : JsMap K V where
  entries := setEntries k v m.entries
  nodup := by
    rw [keys_setEntries]
    split_ifs with hk
    · exact m.nodup
    · exact List.nodup_append.mpr ⟨m.nodup, List.nodup_singleton _, fun x hx y hy hxy =>
        hk (List.mem_singleton.mp hy ▸ hxy ▸ hx)⟩

theorem keys_set (m : JsMap K V) (k : K) (v : V) :
    (m.set k v).keys = if k ∈ m.keys then m.keys else m.keys ++ [k] :=
  keys_setEntries k v m.entries

@[simp] theorem get_empty (k : K) : (empty : JsMap K V).get k = none := rfl

theorem get_set_self (m : JsMap K V) (k : K) (v : V) : (m.set k v).get k = some v := by
  unfold get set
  dsimp only
  induction m.entries with
  | nil => simp [setEntries]
  | cons e es ih =>
    unfold setEntries
    split_ifs with he
    · simp
    · rw [List.find?_cons_of_neg (by simpa using he)]
      exact ih

theorem get_set_of_ne (m : JsMap K V) {k k' : K} (v : V) (h : k' ≠ k) :
    (m.set k v).get k' = m.get k' := by
  unfold get set
  dsimp only
  induction m.entries with
  | nil => simp [setEntries, h.symm]
  | cons e es ih =>
    unfold setEntries
    split_ifs with he
    · have hne : ¬e.1 = k' := fun h' => h (h'.symm.trans he)
      rw [List.find?_cons_of_neg (by simpa using h.symm), List.find?_cons_of_neg (by simpa using hne)]
    · by_cases he' : e.1 = k'
      · rw [List.find?_cons_of_pos (by simpa using he'), List.find?_cons_of_pos (by simpa using he')]
      · rw [List.find?_cons_of_neg (by simpa using he'), List.find?_cons_of_neg (by simpa using he')]
        exact ih

/-- The values are what the keys are set to, in their order. -/
theorem values_eq (m : JsMap K V) : m.values.map some = m.keys.map m.get := by
  unfold values keys
  rw [List.map_map, List.map_map]
  refine List.map_congr_left fun e he => ?_
  have hfind : (m.entries.find? fun e' => e'.1 = e.1) = some e := by
    obtain ⟨before, after, hsplit⟩ := List.append_of_mem he
    have hnodup : ((before ++ e :: after).map Prod.fst).Nodup := hsplit ▸ m.nodup
    rw [List.map_append, List.map_cons, List.nodup_append] at hnodup
    refine List.find?_eq_some_iff_append.mpr ⟨by simp, before, after, hsplit, fun e' he' => ?_⟩
    have hne := hnodup.2.2 e'.1 (List.mem_map_of_mem he') e.1 List.mem_cons_self
    simpa using hne
  show some e.2 = m.get e.1
  rw [get, hfind]
  rfl

/-! ## Gathering -/

/-- The members of a list where they come up first. -/
def firsts (ks : List K) : List K := ks.eraseDups

@[simp] theorem mem_firsts {ks : List K} {k : K} : k ∈ firsts ks ↔ k ∈ ks := List.mem_eraseDups

variable (key : X → K) (init : K → V) (put : V → X → V)

/-- Put each item to what its key has gathered so far. -/
def gather (xs : List X) : JsMap K V :=
  xs.foldl (fun m x => m.set (key x) (put ((m.get (key x)).getD (init (key x))) x)) empty

variable {key init put}

theorem gather_append_singleton (xs : List X) (x : X) :
    gather key init put (xs ++ [x]) =
      (gather key init put xs).set (key x)
        (put (((gather key init put xs).get (key x)).getD (init (key x))) x) := by
  unfold gather
  rw [List.foldl_append]
  rfl

/-- A key gathers its own items. -/
theorem get_gather (xs : List X) (k : K) :
    (gather key init put xs).get k =
      if k ∈ xs.map key then some ((xs.filter fun x => key x = k).foldl put (init k)) else none := by
  induction xs using List.reverseRecOn with
  | nil => rfl
  | append_singleton xs x ih =>
    rw [gather_append_singleton, List.map_append, List.filter_append, List.foldl_append]
    by_cases hk : k = key x
    · subst hk
      have hlast : key x ∈ xs.map key ++ [x].map key :=
        List.mem_append_right _ (List.mem_singleton.mpr rfl)
      rw [get_set_self, if_pos hlast, ih]
      split_ifs with hmem
      · simp
      · have hnone : (xs.filter fun y => key y = key x) = [] :=
          List.filter_eq_nil_iff.mpr fun y hy hyx =>
            hmem (of_decide_eq_true hyx ▸ List.mem_map_of_mem hy)
        simp [hnone]
    · rw [get_set_of_ne _ _ hk, ih]
      simp [hk, Ne.symm hk]

theorem keys_gather (xs : List X) :
    (gather key init put xs).keys = firsts (xs.map key) := by
  induction xs using List.reverseRecOn with
  | nil => rfl
  | append_singleton xs x ih =>
    rw [gather_append_singleton, keys_set, ih, firsts, firsts, List.map_append,
      List.eraseDups_append]
    by_cases hx : key x ∈ xs.map key
    · have hnone : [key x].removeAll (xs.map key) = [] :=
        List.filter_eq_nil_iff.mpr (by simpa using hx)
      rw [if_pos (List.mem_eraseDups.mpr hx), List.map_singleton, hnone]
      simp
    · have hall : [key x].removeAll (xs.map key) = [key x] :=
        List.filter_eq_self.mpr (by simpa using hx)
      rw [if_neg (List.mem_eraseDups.not.mpr hx), List.map_singleton, hall]
      rfl

theorem nodup_firsts (ks : List K) : (firsts ks).Nodup := by
  have hkeys : (gather id id (fun k _ => k) ks : JsMap K K).keys = firsts (ks.map id) :=
    keys_gather ks
  rw [List.map_id] at hkeys
  exact hkeys ▸ (gather id id (fun k _ => k) ks : JsMap K K).nodup

/-- **What gathering comes to.** -/
theorem values_gather (xs : List X) :
    (gather key init put xs).values =
      (firsts (xs.map key)).map fun k => (xs.filter fun x => key x = k).foldl put (init k) := by
  refine List.map_injective_iff.mpr (Option.some_injective V) ?_
  rw [values_eq, keys_gather, List.map_map]
  refine List.map_congr_left fun k hk => ?_
  rw [get_gather, if_pos (mem_firsts.mp hk)]
  rfl

end JsMap

end Collections
end GroupChat

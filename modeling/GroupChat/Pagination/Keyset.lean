import Mathlib.Data.List.Nodup
import Mathlib.Data.Set.Basic
import Mathlib.Order.WellFounded

/-!
# Keyset pagination

A listing is read page by page while rows are being added to it.  A page is the
first `limit` rows, greatest key first, of those below a position; the position
of the next page is the key of the last row, and there is a next page when more
than `limit` rows were left.

`Walk` is a whole reading: the snapshots it reads from only grow, and nothing
else is known about them.  What a walk returns is strictly descending
(`Walk.pairwise`), contains every row of the first snapshot (`Walk.mem_of_mem`)
and nothing that is in no snapshot (`Walk.mem_snapshot`).  It ends because
positions descend (`Walk.exists_of_wellFounded`).
-/

namespace GroupChat
namespace Pagination

variable {R K : Type*} [LinearOrder K]

/-- The row lies below a position; without a position every row does. -/
def Below (key : R → K) (position : Option K) (r : R) : Prop := ∀ k ∈ position, key r < k

/-- The rows of a snapshot below a position, greatest key first. -/
structure Listing (key : R → K) (snapshot : Set R) (position : Option K) (rows : List R) :
    Prop where
  sorted : rows.Pairwise fun a b => key b < key a
  mem_iff : ∀ r, r ∈ rows ↔ r ∈ snapshot ∧ Below key position r

/-- The reading that starts at a position with the `i`-th snapshot, page by
page. -/
inductive Walk (key : R → K) (limit : ℕ) (snapshots : ℕ → Set R) :
    ℕ → Option K → List (List R) → Prop
  | last {i : ℕ} {position : Option K} {rows : List R}
      (listing : Listing key (snapshots i) position rows) (short : rows.length ≤ limit) :
      Walk key limit snapshots i position [rows]
  | more {i : ℕ} {position : Option K} {rows : List R} {r : R} {pages : List (List R)}
      (listing : Listing key (snapshots i) position rows) (long : limit < rows.length)
      (end_eq : (rows.take limit).getLast? = some r)
      (rest : Walk key limit snapshots (i + 1) (some (key r)) pages) :
      Walk key limit snapshots i position (rows.take limit :: pages)

variable {key : R → K} {limit : ℕ} {snapshots : ℕ → Set R}

/-! ## One page -/

/-- Below a position given by a row that itself lies below another. -/
theorem Below.trans {position : Option K} {r x : R} (hr : Below key position r)
    (hx : Below key (some (key r)) x) : Below key position x :=
  fun k hk => (hx (key r) rfl).trans (hr k hk)

/-- **Where a page ends.**  The rows of a page lie at or above its last row, and
the rows left over lie below it. -/
theorem Listing.split {snapshot : Set R} {position : Option K} {rows : List R} {r : R}
    (h : Listing key snapshot position rows) (hlast : (rows.take limit).getLast? = some r) :
    (∀ x ∈ rows.take limit, key r ≤ key x) ∧ ∀ x ∈ rows.drop limit, key x < key r := by
  have hsorted : (rows.take limit ++ rows.drop limit).Pairwise fun a b => key b < key a := by
    rw [List.take_append_drop]
    exact h.sorted
  obtain ⟨hpage, -, hcross⟩ := List.pairwise_append.mp hsorted
  have hmem : r ∈ rows.take limit := List.mem_of_getLast? hlast
  refine ⟨fun x hx => ?_, fun x hx => hcross r hmem x hx⟩
  obtain ⟨front, hfront⟩ := List.getLast?_eq_some_iff.mp hlast
  rw [hfront] at hpage hx
  rcases List.mem_append.mp hx with hx | hx
  · exact (List.pairwise_append.mp hpage).2.2 x hx r (List.mem_singleton.mpr rfl) |>.le
  · rw [List.mem_singleton.mp hx]

/-- Rows in strictly descending order are different rows. -/
theorem nodup_of_pairwise {rows : List R} (h : rows.Pairwise fun a b => key b < key a) :
    rows.Nodup := by
  refine List.Pairwise.imp (fun {a b} hlt => ?_) h
  rintro rfl
  exact lt_irrefl _ hlt

/-- A snapshot has one listing below a position. -/
theorem Listing.unique {snapshot : Set R} {position : Option K} {rows rows' : List R}
    (h : Listing key snapshot position rows) (h' : Listing key snapshot position rows') :
    rows = rows' := by
  have hnodup : rows.Nodup := nodup_of_pairwise h.sorted
  have hnodup' : rows'.Nodup := nodup_of_pairwise h'.sorted
  have hperm : rows.Perm rows' :=
    (List.perm_ext_iff_of_nodup hnodup hnodup').mpr fun r => (h.mem_iff r).trans (h'.mem_iff r).symm
  exact hperm.eq_of_pairwise (fun a b _ _ hab hba => absurd hba hab.asymm) h.sorted h'.sorted

/-! ## Whole walks -/

/-- Every page lies below the position the walk started from. -/
theorem Walk.mem_below {i : ℕ} {position : Option K} {pages : List (List R)}
    (h : Walk key limit snapshots i position pages) :
    ∀ x ∈ pages.flatten, Below key position x := by
  induction h with
  | last listing short =>
    intro x hx
    rw [List.flatten_singleton] at hx
    exact ((listing.mem_iff x).mp hx).2
  | more listing long hlast rest ih =>
    intro x hx
    rw [List.flatten_cons, List.mem_append] at hx
    have hr := ((listing.mem_iff _).mp (List.mem_of_mem_take (List.mem_of_getLast? hlast))).2
    rcases hx with hx | hx
    · exact ((listing.mem_iff x).mp (List.mem_of_mem_take hx)).2
    · exact hr.trans (ih x hx)

/-- **The pages are strictly descending**, across their boundaries too. -/
theorem Walk.pairwise {i : ℕ} {position : Option K} {pages : List (List R)}
    (h : Walk key limit snapshots i position pages) :
    pages.flatten.Pairwise fun a b => key b < key a := by
  induction h with
  | last listing short =>
    rw [List.flatten_singleton]
    exact listing.sorted
  | more listing long hlast rest ih =>
    rw [List.flatten_cons, List.pairwise_append]
    refine ⟨listing.sorted.sublist (List.take_sublist _ _), ih, fun a ha b hb => ?_⟩
    have hbelow := rest.mem_below b hb _ rfl
    exact hbelow.trans_le ((listing.split hlast).1 a ha)

/-- **Nothing is skipped.**  A row of the first snapshot that lies below the
first position is on one of the pages. -/
theorem Walk.mem_of_mem (hgrow : ∀ i, snapshots i ⊆ snapshots (i + 1)) {i : ℕ}
    {position : Option K} {pages : List (List R)}
    (h : Walk key limit snapshots i position pages) {x : R} (hx : x ∈ snapshots i)
    (hbelow : Below key position x) : x ∈ pages.flatten := by
  induction h with
  | last listing short =>
    rw [List.flatten_singleton]
    exact (listing.mem_iff x).mpr ⟨hx, hbelow⟩
  | @more i position rows r pages listing long hlast rest ih =>
    have hmem : x ∈ rows := (listing.mem_iff x).mpr ⟨hx, hbelow⟩
    rw [List.flatten_cons, List.mem_append]
    rw [← List.take_append_drop limit rows, List.mem_append] at hmem
    rcases hmem with hmem | hmem
    · exact Or.inl hmem
    · refine Or.inr (ih (hgrow i hx) ?_)
      rintro k hk
      rw [← Option.some.inj hk]
      exact (listing.split hlast).2 x hmem

theorem snapshots_mono (hgrow : ∀ i, snapshots i ⊆ snapshots (i + 1)) {i j : ℕ} (h : i ≤ j) :
    snapshots i ⊆ snapshots j := by
  induction j, h using Nat.le_induction with
  | base => exact fun _ hx => hx
  | succ j _ ih => exact fun x hx => hgrow j (ih hx)

/-- **Nothing is made up.**  Every row of a walk is in the snapshot it ends
with. -/
theorem Walk.mem_snapshot (hgrow : ∀ i, snapshots i ⊆ snapshots (i + 1)) {i : ℕ}
    {position : Option K} {pages : List (List R)}
    (h : Walk key limit snapshots i position pages) :
    ∀ x ∈ pages.flatten, x ∈ snapshots (i + pages.length) := by
  induction h with
  | last listing short =>
    intro x hx
    rw [List.flatten_singleton] at hx
    exact hgrow _ ((listing.mem_iff x).mp hx).1
  | @more i position rows r pages listing long hlast rest ih =>
    intro x hx
    rw [List.flatten_cons, List.mem_append] at hx
    rw [List.length_cons]
    rcases hx with hx | hx
    · exact snapshots_mono hgrow (by omega) ((listing.mem_iff x).mp (List.mem_of_mem_take hx)).1
    · have hmem := ih x hx
      rw [show i + (pages.length + 1) = i + 1 + pages.length by omega]
      exact hmem

/-- **Every page but the last is full.** -/
theorem Walk.mul_le_length {i : ℕ} {position : Option K} {pages : List (List R)}
    (h : Walk key limit snapshots i position pages) :
    (pages.length - 1) * limit ≤ pages.flatten.length := by
  induction h with
  | last listing short =>
    rw [List.length_singleton, Nat.sub_self, Nat.zero_mul]
    exact Nat.zero_le _
  | @more i position rows r pages listing long hlast rest ih =>
    have hfull : (rows.take limit).length = limit := List.length_take_of_le long.le
    have hpos : 0 < pages.length := by
      cases rest with
      | last _ _ => exact Nat.succ_pos _
      | more _ _ _ _ => exact Nat.succ_pos _
    rw [List.flatten_cons, List.length_append, List.length_cons, Nat.add_sub_cancel, hfull]
    calc pages.length * limit = (pages.length - 1 + 1) * limit := by
          rw [Nat.sub_add_cancel hpos]
      _ = (pages.length - 1) * limit + limit := Nat.succ_mul _ _
      _ ≤ limit + pages.flatten.length := by omega

/-- No page is longer than the limit. -/
theorem Walk.length_le {i : ℕ} {position : Option K} {pages : List (List R)}
    (h : Walk key limit snapshots i position pages) : ∀ page ∈ pages, page.length ≤ limit := by
  induction h with
  | last listing short =>
    intro page hpage
    rw [List.mem_singleton.mp hpage]
    exact short
  | more listing long hlast rest ih =>
    intro page hpage
    rcases List.mem_cons.mp hpage with rfl | hpage
    · exact List.length_take_le _ _
    · exact ih page hpage

/-- **A walk ends.**  From any position there is a complete reading: positions
descend, and a descent has to stop. -/
theorem Walk.exists_of_wellFounded [WellFoundedLT K] (hlimit : 0 < limit)
    (hlisting : ∀ i position, ∃ rows, Listing key (snapshots i) position rows) (i : ℕ)
    (position : Option K) : ∃ pages, Walk key limit snapshots i position pages := by
  have hnext : ∀ (i : ℕ) (position : Option K),
      (∀ r i', Below key position r → ∃ pages, Walk key limit snapshots i' (some (key r)) pages) →
      ∃ pages, Walk key limit snapshots i position pages := by
    intro i position hrest
    obtain ⟨rows, hrows⟩ := hlisting i position
    rcases Nat.lt_or_ge limit rows.length with hlong | hshort
    · have hne : rows.take limit ≠ [] := by
        intro hnil
        have hlength : (rows.take limit).length = limit := List.length_take_of_le hlong.le
        rw [hnil, List.length_nil] at hlength
        omega
      have hlast := List.getLast?_eq_some_getLast hne
      have hmem : (rows.take limit).getLast hne ∈ rows :=
        List.mem_of_mem_take (List.getLast_mem hne)
      obtain ⟨pages, hpages⟩ := hrest _ (i + 1) ((hrows.mem_iff _).mp hmem).2
      exact ⟨_, .more hrows hlong hlast hpages⟩
    · exact ⟨_, .last hrows hshort⟩
  have hsome : ∀ (k : K) (i : ℕ), ∃ pages, Walk key limit snapshots i (some k) pages := by
    intro k
    induction k using WellFoundedLT.induction with
    | ind k ih =>
      intro i
      exact hnext i (some k) fun r i' hr => ih (key r) (hr k rfl) i'
  exact hnext i position fun r i' _ => hsome (key r) i'

end Pagination
end GroupChat

import GroupChat.Common.Cursor
import GroupChat.Common.Uuid
import GroupChat.Messages.Service
import GroupChat.Pagination.Keyset
import Mathlib.Data.Finite.Prod
import Mathlib.Data.List.Sort
import Mathlib.Data.Prod.Lex

/-!
# One page of history

`findPage` returns the newest messages of a group, `limit` of them, below the
position its cursor names.  It asks the database for one row more than it
returns, to learn whether there is a further page, and encodes the position of
the last row it returns as the next cursor.

The position is a pair, and the query spells the comparison of pairs out in two
branches.  `listing_candidates` says what the query is about: the rows of the group
below the position in the lexicographic order, greatest first.
-/

namespace GroupChat
namespace Messages

open Common Database Text

/-- The hard ceiling on a single page. -/
def MAX_PAGE_SIZE : ℕ := 100

/-- A page size that passes validation. -/
abbrev PageSize := {n : ℕ // 1 ≤ n ∧ n ≤ MAX_PAGE_SIZE}

/-- What the platform and the database make of texts that are not in the form
this program prints: of a date, and of a parameter compared with a `uuid`
column, where `none` is a database error. -/
structure Host where
  date : DateReader
  uuid : JsString → Option Uuid

/-- The value a text has as a parameter compared with a `uuid` column. -/
def Host.uuidParam (host : Host) (id : JsString) : Option Uuid :=
  match id.ascii? with
  | some s => if isUuid s then readUuid s else host.uuid id
  | none => host.uuid id

/-- The two sort columns of a row. -/
abbrev Position := Instant × Uuid

def Message.position (m : Message) : Position := (m.createdAt, m.id)

/-- The `where` clause on the cursor: strictly older, or as old with a smaller
id. -/
def IsBefore (position : Option Position) (m : Message) : Prop :=
  match position with
  | none => True
  | some p => m.createdAt < p.1 ∨ m.createdAt = p.1 ∧ m.id < p.2

instance (position : Option Position) : DecidablePred (IsBefore position) := fun m =>
  match position with
  | none => isTrue trivial
  | some p => inferInstanceAs (Decidable (m.createdAt < p.1 ∨ m.createdAt = p.1 ∧ m.id < p.2))

/-- The `orderBy` clause: newest first, and the greater id first. -/
def NewestFirst (a b : Message) : Prop :=
  b.createdAt < a.createdAt ∨ b.createdAt = a.createdAt ∧ b.id ≤ a.id

instance : DecidableRel NewestFirst := fun a b =>
  inferInstanceAs (Decidable (b.createdAt < a.createdAt ∨ b.createdAt = a.createdAt ∧ b.id ≤ a.id))

/-- All rows the query of `findPage` is about, in its order. -/
def candidates (rows : MessageTable) (groupId : Uuid) (position : Option Position) :
    List Message :=
  (rows.rows.filter fun m => m.groupId = groupId ∧ IsBefore position m).insertionSort NewestFirst

/-- The query of `findPage`. -/
def findMany (rows : MessageTable) (groupId : Uuid) (position : Option Position) (take : ℕ) :
    List Message :=
  (candidates rows groupId position).take take

structure PaginationMeta where
  limit : ℕ
  nextCursor : Option JsString
  hasMore : Bool
deriving DecidableEq

structure Page where
  data : List Message
  pageMeta : PaginationMeta
deriving DecidableEq

/-- The position an optional cursor names; the empty string is no cursor. -/
def positionOf (host : Host) (cursor : Option JsString) : Except Exception (Option Position) :=
  match cursor with
  | none => .ok none
  | some raw =>
    if raw = [] then .ok none
    else
      match decodeCursor host.date raw with
      | .error e => .error e
      | .ok decoded =>
        match host.uuidParam decoded.id with
        | none => .error .fault
        | some id => .ok (some (decoded.createdAt, id))

/-- The cursor of a row. -/
def Message.cursor (m : Message) : JsString :=
  encodeCursor ⟨m.createdAt, JsString.ofString (printUuid m.id)⟩

/-- What `findPage` makes of the rows the query returned. -/
def pageOf (limit : ℕ) (rows : List Message) : Page :=
  let hasMore := decide (limit < rows.length)
  let page := if hasMore then rows.take limit else rows
  ⟨page, ⟨limit, if hasMore then page.getLast?.map Message.cursor else none, hasMore⟩⟩

def findPage (host : Host) (rows : MessageTable) (groupId : Uuid) (limit : PageSize)
    (cursor : Option JsString) : Except Exception Page :=
  match positionOf host cursor with
  | .error e => .error e
  | .ok position => .ok (pageOf limit.val (findMany rows groupId position (limit.val + 1)))

/-! ## The cursor of a row -/

/-- **A row's cursor names the row's position**, on every host. -/
theorem positionOf_cursor (host : Host) (m : Message) :
    positionOf host (some m.cursor) = .ok (some m.position) := by
  have hspells : Spells (printUuid m.id) m.id := spells_printUuid m.id
  have huuid : host.uuidParam (JsString.ofString (printUuid m.id)) = some m.id := by
    unfold Host.uuidParam
    rw [ascii?_ofString fun c hc => toNat_lt_of_mem_printUuid hc]
    show (if isUuid (printUuid m.id) = true then readUuid (printUuid m.id) else _) = some m.id
    rw [if_pos hspells.1, hspells.2]
  unfold positionOf Message.cursor
  dsimp only
  rw [if_neg (encodeCursor_ne_nil _), decodeCursor_encodeCursor]
  dsimp only
  rw [huuid]
  rfl

/-! ## The order of the history -/

/-- The position of a row in the order of the history. -/
def Message.key (m : Message) : Instant ×ₗ Uuid := toLex m.position

/-- There are finitely many positions, so a descent through them stops. -/
instance : Finite (Instant ×ₗ Uuid) := inferInstanceAs (Finite (Instant × Uuid))

/-- Different rows of a table have different positions. -/
theorem key_injOn (rows : MessageTable) {a b : Message} (ha : a ∈ rows) (hb : b ∈ rows)
    (h : a.key = b.key) : a = b :=
  Table.eq_of_key_eq ha hb (congrArg (fun k => (ofLex k).2) h)

theorem newestFirst_iff (a b : Message) : NewestFirst a b ↔ b.key ≤ a.key := by
  unfold NewestFirst Message.key
  rw [Prod.Lex.toLex_le_toLex]
  rfl

/-- **The two branches of the query are the comparison of pairs.** -/
theorem isBefore_iff (position : Option Position) (m : Message) :
    IsBefore position m ↔ Pagination.Below Message.key (position.map toLex) m := by
  cases position with
  | none => exact ⟨fun _ k hk => absurd hk (by simp), fun _ => trivial⟩
  | some p =>
    have hlex : m.key < toLex p ↔ m.createdAt < p.1 ∨ m.createdAt = p.1 ∧ m.id < p.2 := by
      unfold Message.key
      rw [Prod.Lex.toLex_lt_toLex]
      rfl
    constructor
    · rintro h k hk
      rw [← Option.some.inj hk]
      exact hlex.mpr h
    · exact fun h => hlex.mp (h (toLex p) rfl)

/-- The rows of a group, as a snapshot to read from. -/
def groupRows (rows : MessageTable) (groupId : Uuid) : Set Message :=
  {m | m ∈ rows ∧ m.groupId = groupId}

instance : IsTrans Message NewestFirst :=
  ⟨fun a b c hab hbc => (newestFirst_iff a c).mpr
    (((newestFirst_iff b c).mp hbc).trans ((newestFirst_iff a b).mp hab))⟩

instance : Std.Total NewestFirst :=
  ⟨fun a b => (le_total b.key a.key).imp (newestFirst_iff a b).mpr (newestFirst_iff b a).mpr⟩

/-- **What the query is about**: the rows of the group below the position,
strictly descending. -/
theorem listing_candidates (rows : MessageTable) (groupId : Uuid) (position : Option Position) :
    Pagination.Listing Message.key (groupRows rows groupId) (position.map toLex)
      (candidates rows groupId position) := by
  have hmem : ∀ m, m ∈ candidates rows groupId position ↔
      m ∈ groupRows rows groupId ∧ Pagination.Below Message.key (position.map toLex) m := by
    intro m
    unfold candidates groupRows
    rw [List.mem_insertionSort, List.mem_filter, decide_eq_true_eq, isBefore_iff, ← and_assoc]
    exact Iff.rfl
  refine ⟨?_, hmem⟩
  have hnodup : (candidates rows groupId position).Nodup := by
    have hrows : rows.rows.Nodup := List.Nodup.of_map _ rows.nodup
    exact (List.perm_insertionSort _ _).nodup_iff.mpr (hrows.filter _)
  have hsorted : (candidates rows groupId position).Pairwise NewestFirst :=
    List.pairwise_insertionSort _ _
  refine (hsorted.and hnodup).imp_of_mem fun {a b} ha hb h => ?_
  refine lt_of_le_of_ne ((newestFirst_iff a b).mp h.1) fun heq => h.2 ?_
  exact key_injOn rows ((hmem a).mp ha).1.1 ((hmem b).mp hb).1.1 heq.symm

/-- The rows of a page are rows of the table. -/
theorem mem_rows_of_findPage {host : Host} {rows : MessageTable} {groupId : Uuid}
    {limit : PageSize} {cursor : Option JsString} {page : Page}
    (h : findPage host rows groupId limit cursor = .ok page) {m : Message} (hm : m ∈ page.data) :
    m ∈ rows := by
  unfold findPage at h
  split at h
  · cases h
  · rename_i position hposition
    rw [← Except.ok.inj h] at hm
    have htake : m ∈ findMany rows groupId position (limit.val + 1) := by
      unfold pageOf at hm
      dsimp only at hm
      split at hm
      · exact List.mem_of_mem_take hm
      · exact hm
    have hlisting := listing_candidates rows groupId position
    exact ((hlisting.mem_iff m).mp (List.mem_of_mem_take htake)).1.1

/-- The rows of a page are strictly descending. -/
theorem pairwise_of_findPage {host : Host} {rows : MessageTable} {groupId : Uuid}
    {limit : PageSize} {cursor : Option JsString} {page : Page}
    (h : findPage host rows groupId limit cursor = .ok page) :
    page.data.Pairwise fun a b => b.key < a.key := by
  unfold findPage at h
  split at h
  · cases h
  · rename_i position hposition
    have hlisting := listing_candidates rows groupId position
    have htaken : (findMany rows groupId position (limit.val + 1)).Pairwise
        fun a b => b.key < a.key := hlisting.sorted.sublist (List.take_sublist _ _)
    rw [← Except.ok.inj h]
    unfold pageOf
    dsimp only
    split
    · exact htaken.sublist (List.take_sublist _ _)
    · exact htaken

end Messages
end GroupChat

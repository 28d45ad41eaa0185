import GroupChat.Messages.Page

/-!
# Reading the whole history

A client reads the history by calling `findPage` without a cursor and then with
the cursor the page before returned, until there is none.  Messages are inserted
while it reads: any number between two calls, with any ids and any timestamps,
older than the position of the reader or newer.

`walk_isExact` is the guarantee.  The reading ends, there is only one, and it
returns every message that was there at the beginning exactly once, in strictly
descending order, on pages of at most `limit` rows.  It is an instance of the
general facts about keyset pagination: `Walk.of_keyset` says that the calls of a
client are the steps of such a reading, and needs the cursor to survive its
encoding.
-/

namespace GroupChat
namespace Messages

open Common Database Text

/-! ## A growing history -/

/-- Insert a message, unless its id is taken. -/
def insertNew (rows : MessageTable) (m : Message) : MessageTable :=
  match rows.find? m.id with
  | some _ => rows
  | none => rows.put m

/-- A table, and the messages that are inserted between one call and the next. -/
structure History where
  first : MessageTable
  arrivals : ℕ → List Message

/-- The table the `i`-th call reads. -/
def History.table (h : History) : ℕ → MessageTable
  | 0 => h.first
  | i + 1 => (h.arrivals i).foldl insertNew (h.table i)

theorem mem_insertNew {rows : MessageTable} {m x : Message} (hx : x ∈ rows) :
    x ∈ insertNew rows m := by
  unfold insertNew
  split
  · exact hx
  · next hfree =>
    have hne : x.id ≠ m.id := Table.find?_eq_none_iff.mp hfree x hx
    exact (Table.mem_put_of_key_ne hne).mpr hx

/-- **An insertion takes nothing away.** -/
theorem History.mem_table_succ (h : History) {i : ℕ} {x : Message} (hx : x ∈ h.table i) :
    x ∈ h.table (i + 1) := by
  unfold History.table
  generalize h.table i = rows at hx
  induction h.arrivals i generalizing rows with
  | nil => exact hx
  | cons m ms ih => exact ih (insertNew rows m) (mem_insertNew hx)

/-! ## Reading page by page -/

/-- The calls of a client that starts with a cursor at the `i`-th table. -/
inductive Walk (host : Host) (h : History) (groupId : Uuid) (limit : PageSize) :
    ℕ → Option JsString → List Page → Prop
  | last {i : ℕ} {cursor : Option JsString} {page : Page}
      (call : findPage host (h.table i) groupId limit cursor = .ok page)
      (done : page.pageMeta.nextCursor = none) :
      Walk host h groupId limit i cursor [page]
  | more {i : ℕ} {cursor : Option JsString} {page : Page} {next : JsString} {pages : List Page}
      (call : findPage host (h.table i) groupId limit cursor = .ok page)
      (next_eq : page.pageMeta.nextCursor = some next)
      (rest : Walk host h groupId limit (i + 1) (some next) pages) :
      Walk host h groupId limit i cursor (page :: pages)

/-- The rows on all pages, in the order they were returned. -/
def returned (pages : List Page) : List Message := pages.flatMap Page.data

/-- What a reading of a group's history is meant to return. -/
structure IsExact (first : MessageTable) (groupId : Uuid) (limit : ℕ) (pages : List Page) :
    Prop where
  /-- Every message present at the beginning, exactly once. -/
  once : ∀ m ∈ first, m.groupId = groupId → (returned pages).count m = 1
  /-- No message twice. -/
  nodup : ((returned pages).map Message.id).Nodup
  /-- Strictly descending, across the boundaries of pages too. -/
  descending : (returned pages).Pairwise fun a b => b.key < a.key
  short : ∀ page ∈ pages, page.data.length ≤ limit
  nextCursor_iff : ∀ page ∈ pages,
    page.pageMeta.nextCursor = none ↔ page.pageMeta.hasMore = false

/-! ## The page of a call -/

/-- What is left fits on the page: it is returned, and there is no further
page. -/
theorem pageOf_of_short {limit : ℕ} {rows : List Message} (h : rows.length ≤ limit) :
    pageOf limit (rows.take (limit + 1)) = ⟨rows, ⟨limit, none, false⟩⟩ := by
  have htake : rows.take (limit + 1) = rows := List.take_of_length_le (by omega)
  have hmore : decide (limit < rows.length) = false := decide_eq_false (by omega)
  unfold pageOf
  rw [htake, hmore]
  rfl

/-- More is left than fits on the page: the row in excess is cut off, and the
next page begins below the last row returned. -/
theorem pageOf_of_long {limit : ℕ} {rows : List Message} {r : Message}
    (h : limit < rows.length) (hlast : (rows.take limit).getLast? = some r) :
    pageOf limit (rows.take (limit + 1)) = ⟨rows.take limit, ⟨limit, some r.cursor, true⟩⟩ := by
  have hmore : decide (limit < (rows.take (limit + 1)).length) = true := by
    rw [List.length_take]
    exact decide_eq_true (by omega)
  have hpage : (rows.take (limit + 1)).take limit = rows.take limit := by
    rw [List.take_take, Nat.min_eq_left (Nat.le_succ limit)]
  unfold pageOf
  rw [hmore, hpage]
  show Page.mk (rows.take limit) ⟨limit, (rows.take limit).getLast?.map Message.cursor, true⟩ = _
  rw [hlast]
  rfl

/-- The call that starts from a position. -/
theorem findPage_of_positionOf {host : Host} {cursor : Option JsString}
    {position : Option Position} (h : positionOf host cursor = .ok position)
    (rows : MessageTable) (groupId : Uuid) (limit : PageSize) :
    findPage host rows groupId limit cursor =
      .ok (pageOf limit.val ((candidates rows groupId position).take (limit.val + 1))) := by
  unfold findPage
  rw [h]
  rfl

/-! ## The calls of a client -/

/-- **The calls are a keyset reading.**  Each of its pages is returned by one
call, and each of its positions is the one the cursor returned names. -/
theorem Walk.of_keyset (host : Host) (h : History) (groupId : Uuid) (limit : PageSize) {i : ℕ}
    {k : Option (Instant ×ₗ Uuid)} {parts : List (List Message)}
    (hwalk : Pagination.Walk Message.key limit.val (fun i => groupRows (h.table i) groupId) i k
      parts) :
    ∀ {cursor : Option JsString} {position : Option Position},
      positionOf host cursor = .ok position → k = position.map toLex →
      ∃ pages, Walk host h groupId limit i cursor pages ∧ pages.map Page.data = parts ∧
        ∀ page ∈ pages, page.pageMeta.nextCursor = none ↔ page.pageMeta.hasMore = false := by
  induction hwalk with
  | @last i k rows listing short =>
    rintro cursor position hposition rfl
    have hrows : rows = candidates (h.table i) groupId position :=
      listing.unique (listing_candidates (h.table i) groupId position)
    subst hrows
    have hcall := findPage_of_positionOf hposition (h.table i) groupId limit
    rw [pageOf_of_short short] at hcall
    refine ⟨_, .last hcall rfl, rfl, fun page hpage => ?_⟩
    rw [List.mem_singleton.mp hpage]
    exact ⟨fun _ => rfl, fun _ => rfl⟩
  | @more i k rows r parts listing long hlast _ ih =>
    rintro cursor position hposition rfl
    have hrows : rows = candidates (h.table i) groupId position :=
      listing.unique (listing_candidates (h.table i) groupId position)
    subst hrows
    have hcall := findPage_of_positionOf hposition (h.table i) groupId limit
    rw [pageOf_of_long long hlast] at hcall
    obtain ⟨pages, hpages, hdata, hnext⟩ := ih (positionOf_cursor host r) rfl
    refine ⟨_, .more hcall rfl hpages, by rw [List.map_cons, hdata], fun page hpage => ?_⟩
    rcases List.mem_cons.mp hpage with rfl | hpage
    · exact ⟨fun hnone => absurd hnone (by simp), fun hmore => absurd hmore (by simp)⟩
    · exact hnext page hpage

/-- **A client has no choice.**  From one cursor at one table there is only one
reading. -/
theorem Walk.unique {host : Host} {h : History} {groupId : Uuid} {limit : PageSize} {i : ℕ}
    {cursor : Option JsString} {pages pages' : List Page}
    (hwalk : Walk host h groupId limit i cursor pages)
    (hwalk' : Walk host h groupId limit i cursor pages') : pages' = pages := by
  induction hwalk generalizing pages' with
  | last hcall hdone =>
    cases hwalk' with
    | last hcall' _ =>
      rw [hcall] at hcall'
      rw [Except.ok.inj hcall']
    | more hcall' hnext' _ =>
      rw [hcall] at hcall'
      rw [← Except.ok.inj hcall', hdone] at hnext'
      cases hnext'
  | more hcall hnext _ ih =>
    cases hwalk' with
    | last hcall' hdone' =>
      rw [hcall] at hcall'
      rw [← Except.ok.inj hcall', hnext] at hdone'
      cases hdone'
    | more hcall' hnext' hrest' =>
      rw [hcall] at hcall'
      obtain rfl := Except.ok.inj hcall'
      rw [hnext] at hnext'
      obtain rfl := Option.some.inj hnext'
      rw [ih hrest']

/-! ## What a client is returned -/

/-- A keyset reading from the beginning returns what it is meant to. -/
theorem isExact_of_keyset {h : History} {groupId : Uuid} {limit : ℕ} {pages : List Page}
    (hwalk : Pagination.Walk Message.key limit (fun i => groupRows (h.table i) groupId) 0 none
      (pages.map Page.data))
    (hnext : ∀ page ∈ pages, page.pageMeta.nextCursor = none ↔ page.pageMeta.hasMore = false) :
    IsExact h.first groupId limit pages := by
  have hgrow : ∀ i, groupRows (h.table i) groupId ⊆ groupRows (h.table (i + 1)) groupId :=
    fun i x hx => ⟨h.mem_table_succ hx.1, hx.2⟩
  have hflat : (pages.map Page.data).flatten = returned pages := by
    unfold returned
    rw [List.flatMap_def]
  have hsorted := hwalk.pairwise
  have hmem := hwalk.mem_snapshot hgrow
  rw [hflat] at hsorted hmem
  refine ⟨fun m hm hgroup => ?_, ?_, hsorted, fun page hpage => ?_, hnext⟩
  · have hreturned := hwalk.mem_of_mem hgrow (show m ∈ groupRows (h.table 0) groupId from ⟨hm, hgroup⟩)
      (fun k hk => absurd hk (by simp))
    rw [hflat] at hreturned
    exact List.count_eq_one_of_mem (Pagination.nodup_of_pairwise hsorted) hreturned
  · refine List.pairwise_map.mpr (hsorted.imp_of_mem fun {a b} ha hb hlt hid => ?_)
    have hab : a = b := Table.eq_of_key_eq (hmem a ha).1 (hmem b hb).1 hid
    rw [hab] at hlt
    exact lt_irrefl _ hlt
  · exact hwalk.length_le _ (List.mem_map_of_mem hpage)

/-- **The calls of a client are a keyset reading that comes to an end.** -/
theorem exists_walk (host : Host) (h : History) (groupId : Uuid) (limit : PageSize) :
    ∃ pages, Walk host h groupId limit 0 none pages ∧
      Pagination.Walk Message.key limit.val (fun i => groupRows (h.table i) groupId) 0 none
        (pages.map Page.data) ∧
      ∀ page ∈ pages, page.pageMeta.nextCursor = none ↔ page.pageMeta.hasMore = false := by
  have hlisting : ∀ (i : ℕ) (k : Option (Instant ×ₗ Uuid)), ∃ rows,
      Pagination.Listing Message.key (groupRows (h.table i) groupId) k rows := by
    intro i k
    have hk : (k.map ofLex).map toLex = k := by cases k <;> rfl
    have hcandidates := listing_candidates (h.table i) groupId (k.map ofLex)
    rw [hk] at hcandidates
    exact ⟨_, hcandidates⟩
  obtain ⟨parts, hparts⟩ :=
    Pagination.Walk.exists_of_wellFounded limit.property.1 hlisting 0 none
  have hstart : positionOf host none = .ok none := rfl
  obtain ⟨pages, hpages, hdata, hnext⟩ := Walk.of_keyset host h groupId limit hparts hstart rfl
  rw [← hdata] at hparts
  exact ⟨pages, hpages, hparts, hnext⟩

/-- Whatever a client is returned is strictly descending. -/
theorem Walk.descending {host : Host} {h : History} {groupId : Uuid} {limit : PageSize}
    {pages : List Page} (hwalk : Walk host h groupId limit 0 none pages) :
    (returned pages).Pairwise fun a b => b.key < a.key := by
  obtain ⟨pages', hpages, hparts, hnext⟩ := exists_walk host h groupId limit
  rw [hpages.unique hwalk]
  exact (isExact_of_keyset hparts hnext).descending

/-- **The history is read exactly.**  Whatever is inserted between the calls, the
client's calls come to an end, after a number of pages the table bounds, and
return every message that was there at the beginning exactly once, in strictly
descending order. -/
theorem walk_isExact (host : Host) (h : History) (groupId : Uuid) (limit : PageSize) :
    ∃ pages, Walk host h groupId limit 0 none pages ∧
      (∀ pages', Walk host h groupId limit 0 none pages' → pages' = pages) ∧
      IsExact h.first groupId limit.val pages ∧
      (pages.length - 1) * limit.val ≤ (h.table pages.length).rows.length := by
  obtain ⟨pages, hpages, hparts, hnext⟩ := exists_walk host h groupId limit
  have hexact := isExact_of_keyset hparts hnext
  refine ⟨pages, hpages, fun pages' hpages' => hpages.unique hpages', hexact, ?_⟩
  have hlength := hparts.mul_le_length
  have hflat : (pages.map Page.data).flatten = returned pages := by
    unfold returned
    rw [List.flatMap_def]
  have hgrow : ∀ i, groupRows (h.table i) groupId ⊆ groupRows (h.table (i + 1)) groupId :=
    fun i x hx => ⟨h.mem_table_succ hx.1, hx.2⟩
  have hmem := hparts.mem_snapshot hgrow
  rw [List.length_map, hflat] at hlength
  rw [List.length_map, hflat, Nat.zero_add] at hmem
  have hnodup : (returned pages).Nodup := List.Nodup.of_map _ hexact.nodup
  exact hlength.trans (hnodup.subperm fun m hm => (hmem m hm).1).length_le

end Messages
end GroupChat

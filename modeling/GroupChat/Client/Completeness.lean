import GroupChat.Client.GroupPage

/-!
# Which messages the client misses

The list is stitched together from the pages of the history and from what the socket
brings, and nothing compares the two.  A page has every message of its span that was
there when it was read.  A message that is written later can only come over the
socket, and its event is not sent again.

`misses_only_unheard` says that there is no other hole: in every state in which
nothing is in flight, a message at or after the oldest one on the loaded pages is shown,
unless it was written after its page was read and its event did not reach the client.

The bound is the oldest message on the pages and not the oldest one shown.  An event may
bring a message that belongs further back than the pages have been loaded, since messages
are ordered by their timestamps and ids, and between it and the pages there may be
messages that have not been loaded (`not_showsAll`).
-/

namespace GroupChat
namespace Client
namespace GroupPage

open Common Database Messages Text Transition
open Messages.Broadcasts (Snapshot plainMessage)

/-! ## The span of a page -/

variable {host : Host} {groupId : Uuid}

/-- A position is in the span of a page: below its cursor, and not below its last row,
unless it is the last page. -/
def LoadedPage.Covers (host : Host) (page : LoadedPage) (k : Instant ×ₗ Uuid) : Prop :=
  (∃ position, positionOf host page.pageParam = .ok position ∧ ∀ p ∈ position, k < toLex p) ∧
    (page.nextCursor = none ∨ ∃ y ∈ page.data, y.row.key ≤ k)

/-- The page is what the server answered, in the order it answered. -/
def LoadedPage.Answered (host : Host) (groupId : Uuid) (page : LoadedPage) : Prop :=
  ∃ answer, findPage host page.readFrom groupId PAGE_SIZE page.pageParam = .ok answer ∧
    page.nextCursor = answer.pageMeta.nextCursor ∧
    page.data.map (fun x => x.row.key) = answer.data.map Message.key

/-- **What a page has.**  Either it is the last one, and has every row of the group below
its position, or it ends with the row its cursor names, and has every row down to it. -/
theorem rows_of_findPage {rows : MessageTable} {limit : PageSize} {cursor : Option JsString}
    {page : Page} (h : findPage host rows groupId limit cursor = .ok page) :
    ∃ position, positionOf host cursor = .ok position ∧
      ((page.pageMeta.nextCursor = none ∧
          ∀ m ∈ groupRows rows groupId, (∀ p ∈ position, m.key < toLex p) → m ∈ page.data) ∨
        ∃ r ∈ page.data, page.pageMeta.nextCursor = some r.cursor ∧
          (∀ x ∈ page.data, r.key ≤ x.key) ∧
          ∀ m ∈ groupRows rows groupId, (∀ p ∈ position, m.key < toLex p) → r.key ≤ m.key →
            m ∈ page.data) := by
  have hposition : ∃ position, positionOf host cursor = .ok position := by
    unfold findPage at h
    split at h
    · cases h
    · rename_i position hposition
      exact ⟨position, hposition⟩
  obtain ⟨position, hposition⟩ := hposition
  refine ⟨position, hposition, ?_⟩
  rw [findPage_of_positionOf hposition] at h
  have hlisting := listing_candidates rows groupId position
  have hmem : ∀ m ∈ groupRows rows groupId, (∀ p ∈ position, m.key < toLex p) →
      m ∈ candidates rows groupId position := by
    intro m hm hbelow
    refine (hlisting.mem_iff m).mpr ⟨hm, fun k hk => ?_⟩
    obtain ⟨p, hp, rfl⟩ := Option.map_eq_some_iff.mp hk
    exact hbelow p hp
  rcases Nat.lt_or_ge limit.val (candidates rows groupId position).length with hlong | hshort
  · obtain ⟨r, hlast⟩ : ∃ r, ((candidates rows groupId position).take limit.val).getLast? = some r := by
      have hne : (candidates rows groupId position).take limit.val ≠ [] := by
        intro hnil
        have hlength := List.length_take_of_le hlong.le
        rw [hnil, List.length_nil] at hlength
        have hpos := limit.property.1
        omega
      exact ⟨_, List.getLast?_eq_some_getLast hne⟩
    rw [pageOf_of_long hlong hlast] at h
    obtain rfl := Except.ok.inj h
    obtain ⟨habove, hbelow⟩ := hlisting.split hlast
    refine Or.inr ⟨r, List.mem_of_getLast? hlast, rfl, habove, fun m hm hposition hle => ?_⟩
    have hcandidate := hmem m hm hposition
    rw [← List.take_append_drop limit.val (candidates rows groupId position)] at hcandidate
    refine (List.mem_append.mp hcandidate).resolve_right fun hdrop => ?_
    exact absurd (hbelow m hdrop) (not_lt.mpr hle)
  · rw [pageOf_of_short hshort] at h
    obtain rfl := Except.ok.inj h
    exact Or.inl ⟨rfl, hmem⟩

/-! ## Pages that follow each other -/

/-- Each page was asked for with the cursor of the one before. -/
inductive Chain : List LoadedPage → Prop
  | nil : Chain []
  | snoc {pages : List LoadedPage} {page : LoadedPage} (before : Chain pages)
      (more : pages = [] ∨ (nextPageParam pages).isSome)
      (pageParam_eq : page.pageParam = nextPageParam pages) : Chain (pages ++ [page])

theorem nextPageParam_concat (pages : List LoadedPage) (page : LoadedPage) :
    nextPageParam (pages ++ [page]) = page.nextCursor := by
  unfold nextPageParam
  rw [List.getLast?_append, List.getLast?_singleton]
  rfl

/-- **Pages that follow each other leave no gap.**  A position is in the span of one of
them, or below them all. -/
theorem covers_of_chain {pages : List LoadedPage} (h : Chain pages)
    (hanswered : ∀ page ∈ pages, page.Answered host groupId) (k : Instant ×ₗ Uuid) :
    (∃ page ∈ pages, page.Covers host k) ∨
      (∀ page ∈ pages, page.nextCursor.isSome ∧ ∀ y ∈ page.data, k < y.row.key) ∧
        (pages = [] ∨ ∃ r : Message, nextPageParam pages = some r.cursor ∧ k < r.key) := by
  induction h with
  | nil => exact Or.inr ⟨fun page hpage => absurd hpage List.not_mem_nil, Or.inl rfl⟩
  | @snoc pages page hbefore hmore hparam ih =>
    rcases ih fun p hp => hanswered p (List.mem_append_left [page] hp) with
      ⟨p, hp, hcovers⟩ | ⟨habove, hend⟩
    · exact Or.inl ⟨p, List.mem_append_left [page] hp, hcovers⟩
    have hlast : page ∈ pages ++ [page] := List.mem_append_right pages List.mem_cons_self
    obtain ⟨answer, hcall, hnext, hkeys⟩ := hanswered page hlast
    obtain ⟨position, hposition, hrows⟩ := rows_of_findPage hcall
    -- the position is below the cursor of this page
    have hbelow : ∀ p ∈ position, k < toLex p := by
      rcases hend with rfl | ⟨r, hr, hkr⟩
      · rw [hparam] at hposition
        obtain rfl : none = position := Except.ok.inj hposition
        exact fun p hp => absurd hp (by simp)
      · rw [hparam, hr, positionOf_cursor] at hposition
        obtain rfl := Except.ok.inj hposition
        intro p hp
        rw [← Option.some.inj hp]
        exact hkr
    rcases hrows with ⟨hnone, -⟩ | ⟨r, hr, hcursor, hle, -⟩
    · exact Or.inl ⟨page, hlast, ⟨position, hposition, hbelow⟩, Or.inl (hnext.trans hnone)⟩
    · have hrkey : r.key ∈ page.data.map fun x => x.row.key := by
        rw [hkeys]
        exact List.mem_map_of_mem hr
      rcases le_or_gt r.key k with hrk | hkr
      · obtain ⟨y, hy, hyr⟩ := List.mem_map.mp hrkey
        exact Or.inl ⟨page, hlast, ⟨position, hposition, hbelow⟩, Or.inr ⟨y, hy, hyr.trans_le hrk⟩⟩
      · refine Or.inr ⟨fun p hp => ?_, Or.inr ⟨r, ?_, hkr⟩⟩
        · rcases List.mem_append.mp hp with hp | hp
          · exact habove p hp
          · rw [List.mem_singleton.mp hp]
            refine ⟨by rw [hnext, hcursor]; rfl, fun y hy => ?_⟩
            have hykey : y.row.key ∈ answer.data.map Message.key := by
              rw [← hkeys]
              exact List.mem_map_of_mem hy
            obtain ⟨m, hm, hmy⟩ := List.mem_map.mp hykey
            rw [← hmy]
            exact hkr.trans_le (hle m hm)
        · rw [nextPageParam_concat, hnext, hcursor]

/-! ## Tables that have grown -/

/-- The table is an earlier one: its rows are still there, in their place and group. -/
def Earlier (rows : MessageTable) (db : Stored) : Prop :=
  ∀ m ∈ rows, ∃ y, db.find? m.id = some y ∧ y.row.key = m.key ∧ y.row.groupId = m.groupId

theorem earlier_refl (db : Stored) : Earlier db.rows db :=
  fun m hm => ⟨db.select m, Option.map_eq_some_iff.mpr ⟨m, Table.find?_of_mem hm, rfl⟩, rfl, rfl⟩

/-- A write leaves every message in its place and group. -/
theorem Written.place {db db' : Stored} {e : ServerEvent} (h : Written db db' e) {id : Uuid}
    {x : Snapshot} (hx : db.find? id = some x) :
    (e.patch x).row.key = x.row.key ∧ (e.patch x).row.groupId = x.row.groupId := by
  cases h with
  | created fresh after others => exact ⟨rfl, rfl⟩
  | @patched _ y isPatch before after key_eq groupId_eq others =>
    by_cases hid : id = e.messageId
    · rw [hid] at hx
      obtain rfl : y = x := Option.some.inj (before.symm.trans hx)
      exact ⟨key_eq, groupId_eq⟩
    · have hne : idOf x ≠ e.messageId := by rwa [Stored.idOf_of_find? hx]
      rw [ServerEvent.patch_of_ne hne]
      exact ⟨rfl, rfl⟩

theorem Earlier.written {rows : MessageTable} {db db' : Stored} {e : ServerEvent}
    (h : Earlier rows db) (hwritten : Written db db' e) : Earlier rows db' := by
  intro m hm
  obtain ⟨y, hy, hkey, hgroup⟩ := h m hm
  obtain ⟨hkey', hgroup'⟩ := hwritten.place hy
  exact ⟨e.patch y, hwritten.find?_patch hy, hkey'.trans hkey, hgroup'.trans hgroup⟩

/-- A copy stands where the stored message does. -/
def InPlace (db : Stored) (x : Snapshot) : Prop :=
  ∃ y, db.find? (idOf x) = some y ∧ y.row.key = x.row.key

theorem InPlace.written {db db' : Stored} {e : ServerEvent} {x : Snapshot} (h : InPlace db x)
    (hwritten : Written db db' e) : InPlace db' x := by
  obtain ⟨y, hy, hkey⟩ := h
  exact ⟨e.patch y, hwritten.find?_patch hy, (hwritten.place hy).1.trans hkey⟩

/-- What is broadcast of a changed message is in its place. -/
theorem Written.inPlace {db db' : Stored} {m : Snapshot}
    (h : Written db db' (.messageUpdated m)) : InPlace db' m := by
  cases h with
  | @patched _ y isPatch before after key_eq groupId_eq others =>
    have hid : idOf y = idOf m := Stored.idOf_of_find? before
    refine ⟨m, ?_, rfl⟩
    have hpatch : (ServerEvent.messageUpdated m).patch y = m := if_pos hid
    rwa [hpatch] at after

/-- An event leaves a copy in its place. -/
theorem InPlace.patch {db : Stored} {e : ServerEvent} {x : Snapshot} (h : InPlace db x)
    (he : ∀ m, e = .messageUpdated m → InPlace db m) : (e.patch x).row.key = x.row.key := by
  cases e with
  | newMessage m => rfl
  | reactionUpdated messageId reactions =>
    simp only [ServerEvent.patch]
    split <;> rfl
  | messageUpdated m =>
    simp only [ServerEvent.patch]
    split
    · rename_i hid
      obtain ⟨y, hy, hkey⟩ := h
      obtain ⟨z, hz, hzkey⟩ := he m rfl
      rw [← hid, hy] at hz
      obtain rfl := Option.some.inj hz
      exact hzkey.symm.trans hkey
    · rfl

/-! ## The pages -/

/-- The page is as it was answered, from a table that is not older than the beginning. -/
structure LoadedPage.Sound (host : Host) (groupId : Uuid) (initial : MessageTable) (db : Stored)
    (page : LoadedPage) : Prop where
  answered : page.Answered host groupId
  earlier : Earlier page.readFrom db
  since : ∀ id, (initial.find? id).isSome → (page.readFrom.find? id).isSome

variable {initial : MessageTable} {db db' : Stored} {page : LoadedPage}

theorem LoadedPage.Sound.written {e : ServerEvent} (h : page.Sound host groupId initial db)
    (hwritten : Written db db' e) : page.Sound host groupId initial db' :=
  ⟨h.answered, h.earlier.written hwritten, h.since⟩

/-- The copies on a page are in their places. -/
theorem LoadedPage.Sound.inPlace (h : page.Sound host groupId initial db) {x : Snapshot}
    (hx : x ∈ page.data) : InPlace db x := by
  obtain ⟨answer, hcall, -, hkeys⟩ := h.answered
  have hxkey : x.row.key ∈ answer.data.map Message.key := by
    rw [← hkeys]
    exact List.mem_map_of_mem hx
  obtain ⟨m, hm, hmx⟩ := List.mem_map.mp hxkey
  obtain ⟨y, hy, hykey, -⟩ := h.earlier m (mem_rows_of_findPage hcall hm)
  have hid : m.id = idOf x := congrArg (fun k => (ofLex k).2) hmx
  rw [hid] at hy
  exact ⟨y, hy, hykey.trans hmx⟩

/-- A page stays sound when an event patches it. -/
theorem LoadedPage.Sound.on {e : ServerEvent} (h : page.Sound host groupId initial db)
    (he : ∀ m, e = .messageUpdated m → InPlace db m) :
    (page.on e).Sound host groupId initial db := by
  obtain ⟨answer, hcall, hnext, hkeys⟩ := h.answered
  refine ⟨⟨answer, hcall, ?_, ?_⟩, h.earlier, h.since⟩
  · show (e.onPage page.toMessagePage).nextCursor = _
    rw [ServerEvent.onPage_eq]
    exact hnext
  · show (e.onPage page.toMessagePage).data.map _ = _
    rw [ServerEvent.onPage_eq, ← hkeys, List.map_map]
    exact List.map_congr_left fun x hx => (h.inPlace hx).patch he

/-- A page that has just been read is sound. -/
theorem LoadedPage.Sound.loaded {cursor : Option JsString} {answer : Page}
    (hcall : findPage host db.rows groupId PAGE_SIZE cursor = .ok answer)
    (hgrown : ∀ id, (initial.find? id).isSome → (db.rows.find? id).isSome) :
    (loaded db cursor answer).Sound host groupId initial db := by
  refine ⟨⟨answer, hcall, rfl, ?_⟩, earlier_refl db, hgrown⟩
  show (answer.data.map db.select).map _ = _
  rw [List.map_map]
  rfl

theorem nextPageParam_on (e : ServerEvent) (pages : List LoadedPage) :
    nextPageParam (pages.map (LoadedPage.on e)) = nextPageParam pages := by
  unfold nextPageParam
  rw [List.getLast?_map]
  cases pages.getLast? with
  | none => rfl
  | some page =>
    show (e.onPage page.toMessagePage).nextCursor = page.nextCursor
    rw [ServerEvent.onPage_eq]

theorem Chain.on {pages : List LoadedPage} (h : Chain pages) (e : ServerEvent) :
    Chain (pages.map (LoadedPage.on e)) := by
  induction h with
  | nil => exact .nil
  | @snoc pages page hbefore hmore hparam ih =>
    rw [List.map_append, List.map_singleton]
    refine .snoc ih ?_ ?_
    · rw [nextPageParam_on, List.map_eq_nil_iff]
      exact hmore
    · rw [nextPageParam_on]
      exact hparam

/-- A page in the cache or in a fetch. -/
def World.IsPage (s : World) (page : LoadedPage) : Prop :=
  (∃ pages, s.pages = some pages ∧ page ∈ pages) ∨
    ∃ fetch, s.fetch = some fetch ∧ page ∈ fetch.pages

/-- What holds in every state of the pages. -/
structure World.Paged (host : Host) (groupId : Uuid) (initial : MessageTable) (s : World) : Prop
    where
  grown : Earlier initial s.db
  updates : ∀ m, .messageUpdated m ∈ s.pending → InPlace s.db m
  sound : ∀ page, s.IsPage page → page.Sound host groupId initial s.db
  chain : ∀ pages, s.pages = some pages → Chain pages
  fetchChain : ∀ fetch, s.fetch = some fetch → Chain fetch.pages ∧
    (fetch.remaining = 0 ∨ fetch.pages = [] ∨ (nextPageParam fetch.pages).isSome)

/-- A step that changes neither the database nor the pages in the cache. -/
theorem World.Paged.withFetch {s t : World} (h : s.Paged host groupId initial) (hdb : t.db = s.db)
    (hpending : t.pending <:+ s.pending) (hpages : t.pages = s.pages)
    (hfetch : ∀ fetch, t.fetch = some fetch →
      (∀ page ∈ fetch.pages, page.Sound host groupId initial s.db) ∧ Chain fetch.pages ∧
        (fetch.remaining = 0 ∨ fetch.pages = [] ∨ (nextPageParam fetch.pages).isSome)) :
    t.Paged host groupId initial := by
  constructor
  · rw [hdb]
    exact h.grown
  · intro m hm
    rw [hdb]
    exact h.updates m (hpending.subset hm)
  · intro page hpage
    rw [hdb]
    rcases hpage with ⟨pages, hsome, hpage⟩ | ⟨fetch, hsome, hpage⟩
    · exact h.sound page (Or.inl ⟨pages, by rw [← hpages]; exact hsome, hpage⟩)
    · exact (hfetch fetch hsome).1 page hpage
  · intro pages hsome
    exact h.chain pages (by rw [← hpages]; exact hsome)
  · exact fun fetch hsome => (hfetch fetch hsome).2

theorem World.Paged.fetch_of {s : World} (h : s.Paged host groupId initial) {fetch : Fetch}
    (hfetch : s.fetch = some fetch) :
    (∀ page ∈ fetch.pages, page.Sound host groupId initial s.db) ∧ Chain fetch.pages ∧
      (fetch.remaining = 0 ∨ fetch.pages = [] ∨ (nextPageParam fetch.pages).isSome) :=
  ⟨fun page hpage => h.sound page (Or.inr ⟨fetch, hfetch, hpage⟩), h.fetchChain fetch hfetch⟩

/-- A write leaves the pages alone. -/
theorem World.Paged.written {s t : World} {e : ServerEvent} (h : s.Paged host groupId initial)
    (hwritten : Written s.db t.db e) (hpending : t.pending = s.pending ++ [e])
    (hpages : t.pages = s.pages) (hfetch : t.fetch = s.fetch) : t.Paged host groupId initial := by
  constructor
  · exact h.grown.written hwritten
  · intro m hm
    rw [hpending, List.mem_append, List.mem_singleton] at hm
    rcases hm with hm | rfl
    · exact (h.updates m hm).written hwritten
    · exact hwritten.inPlace
  · intro page hpage
    refine (h.sound page ?_).written hwritten
    unfold World.IsPage at hpage ⊢
    rwa [hpages, hfetch] at hpage
  · rw [hpages]
    exact h.chain
  · rw [hfetch]
    exact h.fetchChain

/-- The pages in the cache are patched. -/
theorem World.Paged.deliver {s t : World} {e : ServerEvent} (h : s.Paged host groupId initial)
    (hdb : t.db = s.db) (hpending : s.pending = e :: t.pending)
    (hpages : t.pages = s.pages.map (List.map (LoadedPage.on e))) (hfetch : t.fetch = s.fetch) :
    t.Paged host groupId initial := by
  have he : ∀ m, e = .messageUpdated m → InPlace s.db m := by
    rintro m rfl
    exact h.updates m (by rw [hpending]; exact List.mem_cons_self)
  constructor
  · rw [hdb]
    exact h.grown
  · intro m hm
    rw [hdb]
    exact h.updates m (by rw [hpending]; exact List.mem_cons_of_mem e hm)
  · intro page hpage
    rw [hdb]
    rcases hpage with ⟨pages', hsome, hpage⟩ | ⟨fetch, hsome, hpage⟩
    · rw [hpages] at hsome
      obtain ⟨pages, hcached, rfl⟩ := Option.map_eq_some_iff.mp hsome
      obtain ⟨page, hmem, rfl⟩ := List.mem_map.mp hpage
      exact (h.sound page (Or.inl ⟨pages, hcached, hmem⟩)).on he
    · exact h.sound page (Or.inr ⟨fetch, by rw [← hfetch]; exact hsome, hpage⟩)
  · intro pages' hsome
    rw [hpages] at hsome
    obtain ⟨pages, hcached, rfl⟩ := Option.map_eq_some_iff.mp hsome
    exact (h.chain pages hcached).on e
  · rw [hfetch]
    exact h.fetchChain

/-- One more page is read. -/
theorem World.Paged.append {s : World} (h : s.Paged host groupId initial) {fetch : Fetch} {n : ℕ}
    {answer : Page} (hfetch : s.fetch = some fetch) (hremaining : fetch.remaining = n + 1)
    (hcall : findPage host s.db.rows groupId PAGE_SIZE (nextPageParam fetch.pages) = .ok answer) :
    let after := fetch.append (loaded s.db (nextPageParam fetch.pages) answer) n
    (∀ page ∈ after.pages, page.Sound host groupId initial s.db) ∧ Chain after.pages ∧
      (after.remaining = 0 ∨ after.pages = [] ∨ (nextPageParam after.pages).isSome) := by
  obtain ⟨hsound, hchain, hmore⟩ := h.fetch_of hfetch
  refine ⟨fun page hpage => ?_, ?_, ?_⟩
  · rcases List.mem_append.mp hpage with hpage | hpage
    · exact hsound page hpage
    · rw [List.mem_singleton.mp hpage]
      refine .loaded hcall fun id hid => ?_
      obtain ⟨m, hm⟩ := Option.isSome_iff_exists.mp hid
      obtain ⟨y, hy, -⟩ := h.grown m (Table.mem_of_find? hm)
      obtain ⟨row, hrow, -⟩ := Option.map_eq_some_iff.mp hy
      have hmid : m.id = id := Table.key_of_find? hm
      rw [← hmid, hrow]
      rfl
  · refine .snoc hchain (hmore.resolve_left ?_) rfl
    rw [hremaining]
    exact Nat.succ_ne_zero n
  · show (if (loaded s.db (nextPageParam fetch.pages) answer).nextCursor.isSome = true then n
        else 0) = 0 ∨ _ ∨ (nextPageParam (fetch.pages ++ [_])).isSome = true
    rw [nextPageParam_concat]
    split
    · rename_i hsome
      exact Or.inr (Or.inr hsome)
    · exact Or.inl rfl

/-- **The pages stay sound and without a gap.** -/
theorem World.Paged.moved {s t : World} {a : Action} (h : s.Paged host groupId initial)
    (hmoved : Moved host groupId s a t) : t.Paged host groupId initial := by
  have hsuffix : (∀ mutation, a ≠ .commit mutation) → t.pending <:+ s.pending := by
    intro hcommit
    rcases pending_of_moved hmoved with ⟨mutation, _, ha, -⟩ | ⟨-, hpending⟩
    · exact absurd ha (hcommit mutation)
    · exact hpending
  cases hmoved with
  | commit write_eq =>
    exact h.written (written_of_write write_eq) (List.append_assoc _ _ _).symm rfl rfl
  | heard outbox_eq socket_eq =>
    exact h.withFetch rfl (hsuffix (by simp)) rfl fun _ => h.fetch_of
  | unheard outbox_eq not_joined =>
    exact h.withFetch rfl (hsuffix (by simp)) rfl fun _ => h.fetch_of
  | connect socket_eq => exact h.withFetch rfl (hsuffix (by simp)) rfl fun _ => h.fetch_of
  | enter socket_eq => exact h.withFetch rfl (hsuffix (by simp)) rfl fun _ => h.fetch_of
  | disconnect online =>
    refine h.withFetch rfl (hsuffix (by simp)) rfl fun fetch' hfetch' => ?_
    obtain ⟨fetch, hfetch, rfl⟩ := Option.map_eq_some_iff.mp hfetch'
    obtain ⟨hsound, hchain⟩ := h.fetch_of hfetch
    exact ⟨hsound, hchain⟩
  | deliver socket_eq =>
    refine h.deliver rfl ?_ rfl rfl
    unfold World.pending
    rw [socket_eq]
    rfl
  | load pages_eq fetch_eq =>
    refine h.withFetch rfl List.suffix_rfl rfl fun fetch hfetch => ?_
    rw [← Option.some.inj hfetch]
    exact ⟨fun page hpage => absurd hpage List.not_mem_nil, .nil, Or.inr (Or.inl rfl)⟩
  | @loadOlder pages pages_eq more =>
    refine h.withFetch rfl List.suffix_rfl rfl fun fetch hfetch => ?_
    rw [← Option.some.inj hfetch]
    exact ⟨fun page hpage => h.sound page (Or.inl ⟨pages, pages_eq, hpage⟩),
      h.chain pages pages_eq, Or.inr (Or.inr more)⟩
  | refetch pages_eq online =>
    refine h.withFetch rfl List.suffix_rfl rfl fun fetch hfetch => ?_
    rw [← Option.some.inj hfetch]
    exact ⟨fun page hpage => absurd hpage List.not_mem_nil, .nil, Or.inr (Or.inl rfl)⟩
  | read fetch_eq remaining_eq call =>
    refine h.withFetch rfl List.suffix_rfl rfl fun fetch hfetch => ?_
    rw [← Option.some.inj hfetch]
    exact h.append fetch_eq remaining_eq call
  | @arrive fetch fetch_eq done =>
    obtain ⟨hsound, hchain, -⟩ := h.fetch_of fetch_eq
    refine ⟨h.grown, h.updates, fun page hpage => ?_, fun pages hpages => ?_, fun _ hnone => ?_⟩
    · rcases hpage with ⟨pages, hpages, hpage⟩ | ⟨_, hnone, -⟩
      · rw [← Option.some.inj hpages] at hpage
        exact hsound page hpage
      · cases hnone
    · rw [← Option.some.inj hpages]
      exact hchain
    · cases hnone
  | gaveUp a ha =>
    refine h.withFetch rfl List.suffix_rfl rfl fun fetch hfetch => ?_
    cases hfetch

/-! ## What has become of the events -/

/-- A message with this id is announced. -/
def Announced (events : List ServerEvent) (id : Uuid) : Prop :=
  ∃ m, .newMessage m ∈ events ∧ idOf m = id

theorem announced_append {events events' : List ServerEvent} {id : Uuid} :
    Announced (events ++ events') id ↔ Announced events id ∨ Announced events' id := by
  unfold Announced
  simp only [List.mem_append, or_and_right, exists_or]

/-- Every message that was written since the beginning is in the live buffer, on its way,
or missed. -/
def World.Accounted (initial : MessageTable) (s : World) : Prop :=
  ∀ id, (s.db.find? id).isSome → (initial.find? id).isSome ∨ (∃ x ∈ s.live, idOf x = id) ∨
    Announced s.pending id ∨ Announced s.missed id

/-- A step that writes nothing and loses no message. -/
theorem World.Accounted.of_step {s t : World} (h : s.Accounted initial) (hdb : t.db = s.db)
    (hkept : ∀ id, (∃ x ∈ s.live, idOf x = id) ∨ Announced s.pending id ∨ Announced s.missed id →
      (∃ x ∈ t.live, idOf x = id) ∨ Announced t.pending id ∨ Announced t.missed id) :
    t.Accounted initial := by
  intro id hid
  rw [hdb] at hid
  exact (h id hid).imp_right (hkept id)

/-- **No message disappears.** -/
theorem World.Accounted.moved {s t : World} {a : Action} (h : s.Accounted initial)
    (hmoved : Moved host groupId s a t) : t.Accounted initial := by
  cases hmoved with
  | @commit mutation db e write_eq =>
    have hwritten := written_of_write write_eq
    have hpending : World.pending { s with db := db, outbox := s.outbox ++ [e] } =
        s.pending ++ [e] := (List.append_assoc _ _ _).symm
    intro id hid
    obtain ⟨x, hx⟩ := Option.isSome_iff_exists.mp hid
    rw [hpending, announced_append]
    rcases hwritten.find?_cases hx with ⟨y, hy, -⟩ | ⟨rfl, -⟩
    · rcases h id (by rw [hy]; rfl) with hinitial | hlive | hannounced | hmissed
      · exact Or.inl hinitial
      · exact Or.inr (Or.inl hlive)
      · exact Or.inr (Or.inr (Or.inl (Or.inl hannounced)))
      · exact Or.inr (Or.inr (Or.inr hmissed))
    · exact Or.inr (Or.inr (Or.inl (Or.inr
        ⟨x, List.mem_singleton_self _, Stored.idOf_of_find? hx⟩)))
  | @heard e rest inbox outbox_eq socket_eq =>
    refine h.of_step rfl fun id hid => ?_
    have hpending : World.pending { s with outbox := rest, socket := .joined (inbox ++ [e]) } =
        s.pending := by
      unfold World.pending
      rw [outbox_eq, socket_eq]
      exact List.append_assoc _ _ _
    rw [hpending]
    exact hid
  | @unheard e rest outbox_eq not_joined =>
    refine h.of_step rfl fun id hid => ?_
    have hpending : s.pending = [e] ++ rest := by
      unfold World.pending
      rw [outbox_eq, Socket.inbox_eq_nil not_joined]
      rfl
    have hafter : World.pending { s with outbox := rest, missed := s.missed ++ [e] } = rest := by
      unfold World.pending
      rw [Socket.inbox_eq_nil not_joined]
      rfl
    rw [hpending, announced_append] at hid
    rw [hafter, announced_append]
    rcases hid with hlive | (hhead | hrest) | hmissed
    · exact Or.inl hlive
    · exact Or.inr (Or.inr (Or.inr hhead))
    · exact Or.inr (Or.inl hrest)
    · exact Or.inr (Or.inr (Or.inl hmissed))
  | connect socket_eq =>
    refine h.of_step rfl fun id hid => ?_
    unfold World.pending at hid
    rw [socket_eq] at hid
    exact hid
  | enter socket_eq =>
    refine h.of_step rfl fun id hid => ?_
    unfold World.pending at hid
    rw [socket_eq] at hid
    exact hid
  | disconnect online =>
    refine h.of_step rfl fun id hid => ?_
    unfold World.pending at hid
    rw [announced_append] at hid
    show _ ∨ Announced s.outbox id ∨ Announced (s.missed ++ s.socket.inbox) id
    rw [announced_append]
    rcases hid with hlive | (hinbox | houtbox) | hmissed
    · exact Or.inl hlive
    · exact Or.inr (Or.inr (Or.inr hinbox))
    · exact Or.inr (Or.inl houtbox)
    · exact Or.inr (Or.inr (Or.inl hmissed))
  | @deliver e rest socket_eq =>
    refine h.of_step rfl fun id hid => ?_
    have hpending : s.pending = [e] ++ (rest ++ s.outbox) := by
      unfold World.pending
      rw [socket_eq]
      rfl
    rw [hpending, announced_append] at hid
    show (∃ x ∈ e.onLive s.live, idOf x = id) ∨ Announced (rest ++ s.outbox) id ∨ _
    rw [exists_mem_onLive_iff]
    rcases hid with hlive | (⟨m, hm, hmid⟩ | hrest) | hmissed
    · exact Or.inl (Or.inl hlive)
    · exact Or.inl (Or.inr ⟨m, (List.mem_singleton.mp hm).symm, hmid⟩)
    · exact Or.inr (Or.inl hrest)
    · exact Or.inr (Or.inr hmissed)
  | load | loadOlder | refetch | read | arrive | gaveUp => exact h.of_step rfl fun _ => id

/-! ## Runs -/

/-- The pages are as they were answered and without a gap, and every message is somewhere. -/
theorem paged_and_accounted (host : Host) (groupId : Uuid) (db : Stored) (acts : List Action) :
    AllStates (step host groupId)
      (fun s => s.Paged host groupId db.rows ∧ s.Accounted db.rows) (.start db) acts := by
  refine AllStates.of_invariant (fun s a t h hstep => ?_) ⟨?_, ?_⟩ acts
  · exact ⟨h.1.moved (moved_of_step hstep), h.2.moved (moved_of_step hstep)⟩
  · refine ⟨earlier_refl db, fun m hm => absurd hm List.not_mem_nil, ?_, ?_, ?_⟩
    · rintro page (⟨_, hnone, -⟩ | ⟨_, hnone, -⟩) <;> cases hnone
    · exact fun pages hnone => absurd hnone (by simp [World.start])
    · exact fun fetch hnone => absurd hnone (by simp [World.start])
  · intro id hid
    obtain ⟨x, hx⟩ := Option.isSome_iff_exists.mp hid
    obtain ⟨m, hm, -⟩ := Option.map_eq_some_iff.mp hx
    exact Or.inl (Option.isSome_iff_exists.mpr ⟨m, hm⟩)

/-- The message is at or after the oldest one on the loaded pages, or these go back to the
first message. -/
def World.Reaches (s : World) (x : Snapshot) : Prop :=
  ∃ pages, s.pages = some pages ∧
    ∃ page ∈ pages, page.nextCursor = none ∨ ∃ y ∈ page.data, y.row.key ≤ x.row.key

/-- The list shows the message. -/
def World.Shows (s : World) (x : Snapshot) : Prop := ∃ y ∈ s.messages, idOf y = idOf x

/-- The message was written after the page in whose span it is had been read, and its event
did not reach the client. -/
def World.Missed (host : Host) (s : World) (x : Snapshot) : Prop :=
  Announced s.missed (idOf x) ∧ ∃ pages, s.pages = some pages ∧
    ∃ page ∈ pages, page.Covers host x.row.key ∧ page.readFrom.find? (idOf x) = none

/-- A page has the messages of its span that were there when it was read. -/
theorem LoadedPage.Sound.mem_of_covers {db : Stored} {page : LoadedPage}
    (h : page.Sound host groupId initial db) {x : Snapshot} (hx : db.find? (idOf x) = some x)
    (hgroup : x.row.groupId = groupId) (hcovers : page.Covers host x.row.key) {m : Message}
    (hm : page.readFrom.find? (idOf x) = some m) : ∃ y ∈ page.data, idOf y = idOf x := by
  obtain ⟨answer, hcall, hnext, hkeys⟩ := h.answered
  obtain ⟨⟨position, hposition, hbelow⟩, hdown⟩ := hcovers
  obtain ⟨position', hposition', hrows⟩ := rows_of_findPage hcall
  obtain rfl : position = position' := Except.ok.inj (hposition.symm.trans hposition')
  have hmem : m ∈ page.readFrom := Table.mem_of_find? hm
  have hmid : m.id = idOf x := Table.key_of_find? hm
  obtain ⟨y, hy, hkey, hygroup⟩ := h.earlier m hmem
  rw [hmid, hx] at hy
  obtain rfl := Option.some.inj hy
  rw [hkey] at hbelow hdown
  have hgroupRow : m ∈ groupRows page.readFrom groupId := ⟨hmem, hygroup.symm.trans hgroup⟩
  have hanswer : m ∈ answer.data := by
    rcases hrows with ⟨-, hall⟩ | ⟨r, hr, hcursor, hle, hall⟩
    · exact hall m hgroupRow hbelow
    · refine hall m hgroupRow hbelow ?_
      rcases hdown with hnone | ⟨y, hy, hym⟩
      · rw [hnext, hcursor] at hnone
        cases hnone
      · have hykey : y.row.key ∈ answer.data.map Message.key := by
          rw [← hkeys]
          exact List.mem_map_of_mem hy
        obtain ⟨m', hm', hm'y⟩ := List.mem_map.mp hykey
        exact (hle m' hm').trans (hm'y.trans_le hym)
  have hmkey : m.key ∈ page.data.map fun x => x.row.key := by
    rw [hkeys]
    exact List.mem_map_of_mem hanswer
  obtain ⟨y, hy, hym⟩ := List.mem_map.mp hmkey
  exact ⟨y, hy, (congrArg (fun k => (ofLex k).2) hym).trans hmid⟩

/-- **The client misses only what it did not hear.**  In every state of every run in which
no fetch is in flight and nothing is on its way to the client, every message of the
group at or after the oldest one on the loaded pages is in the list, unless it was written
after the page in whose span it is had been read and its event did not reach the client. -/
theorem misses_only_unheard (host : Host) (groupId : Uuid) (db : Stored) (acts : List Action) :
    AllStates (step host groupId)
      (fun s => s.fetch = none → s.pending = [] → ∀ x, s.db.find? (idOf x) = some x →
        x.row.groupId = groupId → s.Reaches x → s.Shows x ∨ s.Missed host x) (.start db) acts := by
  refine (paged_and_accounted host groupId db acts).mono ?_
  rintro s ⟨hpaged, haccounted⟩ - hpending x hx hgroup ⟨pages, hpages, page, hpage, hreaches⟩
  have hsound : ∀ p ∈ pages, p.Sound host groupId db.rows s.db :=
    fun p hp => hpaged.sound p (Or.inl ⟨pages, hpages, hp⟩)
  -- the message is in the span of a page
  have hcovered : ∃ p ∈ pages, p.Covers host x.row.key := by
    refine (covers_of_chain (hpaged.chain pages hpages) (fun p hp => (hsound p hp).answered)
      x.row.key).resolve_right ?_
    rintro ⟨habove, -⟩
    obtain ⟨hsome, hlt⟩ := habove page hpage
    rcases hreaches with hnone | ⟨y, hy, hyx⟩
    · rw [hnone] at hsome
      cases hsome
    · exact absurd (hlt y hy) (not_lt.mpr hyx)
  obtain ⟨p, hp, hcovers⟩ := hcovered
  cases hread : p.readFrom.find? (idOf x) with
  | some m =>
    -- it was there when the page was read
    obtain ⟨y, hy, hyx⟩ := (hsound p hp).mem_of_covers hx hgroup hcovers hread
    refine Or.inl (exists_mem_messages_iff.mpr (Or.inl ⟨y, ?_, hyx⟩))
    rw [hpages]
    exact List.mem_flatMap.mpr ⟨p.toMessagePage, List.mem_map_of_mem hp, hy⟩
  | none =>
    rcases haccounted (idOf x) (by rw [hx]; rfl) with hinitial | hlive | hannounced | hmissed
    · have hthere := (hsound p hp).since (idOf x) hinitial
      rw [hread] at hthere
      cases hthere
    · exact Or.inl (exists_mem_messages_iff.mpr (Or.inr hlive))
    · obtain ⟨m, hm, -⟩ := hannounced
      rw [hpending] at hm
      exact absurd hm List.not_mem_nil
    · exact Or.inr ⟨hmissed, pages, hpages, p, hp, hcovers, hread⟩

/-! ## Two runs -/

/-- A message is written between the first fetch and the admission to the room. -/
def lateJoinRun : List Action :=
  [ .load, .read, .arrive, .connect, .commit (.create ⟨2, some 5, "b", .user, none⟩ 3 epoch),
    .emit, .enter ]

/-- Twenty-one messages of one millisecond, one more than fits on a page. -/
def fullPage : Stored where
  rows := (List.range 21).foldl
    (fun t n => t.put { plainMessage.row with id := Fin.ofNat _ (11 + n) }) Table.empty
  reactions := fun _ => ∅

/-- After the first page is loaded, a message arrives that belongs behind all of them. -/
def backdatedRun : List Action :=
  [ .connect, .enter, .load, .read, .arrive,
    .commit (.create ⟨2, some 5, "b", .user, none⟩ 3 epoch), .emit, .deliver ]

/-- With the socket in the room and nothing in flight, every message of the group at or after
the oldest one shown is shown. -/
def World.ShowsAll (groupId : Uuid) (s : World) : Prop :=
  s.socket.isJoined = true → s.fetch = none → s.pending = [] →
    ∀ x, s.db.find? (idOf x) = some x → x.row.groupId = groupId →
      (∃ y ∈ s.messages, y.row.key ≤ x.row.key) → s.Shows x

/-- A run that ends with a message missing. -/
theorem not_showsAll_of_exec {db : Stored} {run : List Action} {s : World} (x : Snapshot)
    (hs : exec (step host groupId) (.start db) run = some s) (hjoined : s.socket.isJoined = true)
    (hfetch : s.fetch = none) (hpending : s.pending = [])
    (hx : s.db.find? (idOf x) = some x ∧ x.row.groupId = groupId ∧
      (∃ y ∈ s.messages, y.row.key ≤ x.row.key) ∧ ∀ y ∈ s.messages, idOf y ≠ idOf x) :
    ¬ AllStates (step host groupId) (World.ShowsAll groupId) (.start db) run := by
  intro h
  obtain ⟨hstored, hgroup, hreaches, hmissing⟩ := hx
  obtain ⟨y, hy, hyx⟩ := h.last hs hjoined hfetch hpending x hstored hgroup hreaches
  exact hmissing y hy hyx

/-- **What is at or after the oldest message shown may be missing**, be it missed or not
loaded. -/
theorem not_showsAll :
    ¬ AllStates (step plainHost 2) (World.ShowsAll 2) (.start oneMessage) lateJoinRun ∧
      ¬ AllStates (step plainHost 2) (World.ShowsAll 2) (.start fullPage) backdatedRun := by
  constructor
  · exact not_showsAll_of_exec ⟨{ plainMessage.row with id := 3, content := "b" }, ∅⟩ rfl rfl rfl
      rfl (by decide)
  · exact not_showsAll_of_exec ⟨{ plainMessage.row with id := 11 }, ∅⟩ rfl rfl rfl rfl (by decide)

end GroupPage
end Client
end GroupChat

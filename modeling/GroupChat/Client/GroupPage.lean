import GroupChat.Client.GroupMessages
import GroupChat.Messages.Walk

/-!
# One client on a group page

The server writes messages and broadcasts what it has written, in the order of the
commits.  The client reads pages of the history by requests, and hears broadcasts while
its socket is in the room of the group.  Both go on at the same time, and each can be
interrupted: a request reads at one moment and arrives at a later one, and a socket that
disconnects loses what had not been delivered.

`World` is the state of both sides, and `Moved` says what one step of either can do
to it.  What holds in every state is `World.Inv`: an event that is still on its way to the
client is about a message that is stored, and what is stored already includes it.

The query library keeps the pages from which a fetch goes on as they were when it
started, replaces the cached pages when it arrives, and starts a new fetch of the same
query in place of the one in flight.
-/

namespace GroupChat
namespace Client
namespace GroupPage

open Common Database Messages Text Transition
open Messages.Broadcasts (Snapshot plainMessage)

/-! ## The server -/

/-- The messages, each with its reactions. -/
structure Stored where
  rows : MessageTable
  reactions : Uuid → Finset (String × Uuid)

/-- `MESSAGE_SELECT`. -/
def Stored.select (db : Stored) (m : Message) : Snapshot := ⟨m, db.reactions m.id⟩

def Stored.find? (db : Stored) (id : Uuid) : Option Snapshot := (db.rows.find? id).map db.select

/-- A write on a message of the group, once its checks have passed. -/
inductive Mutation where
  | create (data : NewMessage) (id : Uuid) (now : Instant)
  | change (messageId : Uuid) (change : Change) (now : Instant)
  | toggle (messageId userId : Uuid) (emoji : String)
deriving DecidableEq

/-- A write, with what is broadcast for it. -/
def Stored.write (db : Stored) (groupId : Uuid) : Mutation → Option (Stored × ServerEvent)
  | .create data id now =>
    if data.groupId = groupId ∧ db.rows.find? id = none then
      some (⟨db.rows.put (data.toRow id now), Function.update db.reactions id ∅⟩,
        .newMessage ⟨data.toRow id now, ∅⟩)
    else none
  | .change messageId change now =>
    match db.rows.find? messageId with
    | none => none
    | some m =>
      if m.groupId = groupId then
        some (⟨db.rows.put (change.apply now m), db.reactions⟩,
          .messageUpdated ⟨change.apply now m, db.reactions messageId⟩)
      else none
  | .toggle messageId userId emoji =>
    match db.rows.find? messageId with
    | none => none
    | some m =>
      if m.groupId = groupId then
        let reactions := if (emoji, userId) ∈ db.reactions messageId then
          (db.reactions messageId).erase (emoji, userId)
          else insert (emoji, userId) (db.reactions messageId)
        some (⟨db.rows, Function.update db.reactions messageId reactions⟩,
          .reactionUpdated messageId reactions)
      else none

/-! ## The client -/

/-- A page, with the cursor it was asked for and the table it was read from. -/
structure LoadedPage extends MessagePage where
  pageParam : Option JsString
  readFrom : MessageTable

/-- A fetch of the history that has not arrived. -/
structure Fetch where
  /-- The pages it will put in the cache, as far as it has them. -/
  pages : List LoadedPage
  /-- How many pages it will still read, if there are as many. -/
  remaining : ℕ
  /-- It has been started since the last reconnection, and reads every page afresh. -/
  settles : Bool

/-- The socket; one that is in the room has received what it has not handled yet. -/
inductive Socket where
  | offline
  | connected
  | joined (inbox : List ServerEvent)
deriving DecidableEq

def Socket.inbox : Socket → List ServerEvent
  | .joined inbox => inbox
  | .offline | .connected => []

def Socket.isJoined : Socket → Bool
  | .joined _ => true
  | .offline | .connected => false

theorem Socket.inbox_eq_nil {socket : Socket} (h : socket.isJoined = false) :
    socket.inbox = [] := by
  cases socket with
  | offline | connected => rfl
  | joined inbox => cases h

def Socket.online : Socket → Bool
  | .offline => false
  | .connected | .joined _ => true

/-- The server and the client. -/
structure World where
  db : Stored
  /-- Written, but not broadcast. -/
  outbox : List ServerEvent
  socket : Socket
  /-- What is cached of the history. -/
  pages : Option (List LoadedPage)
  /-- What is cached of the socket. -/
  live : List Snapshot
  fetch : Option Fetch
  /-- The refetch after the last reconnection has not arrived. -/
  owed : Bool
  /-- What was broadcast and did not reach the client. -/
  missed : List ServerEvent

/-- Before the page is opened. -/
def World.start (db : Stored) : World := ⟨db, [], .offline, none, [], none, false, []⟩

/-- The list that `useGroupMessages` returns. -/
def World.messages (s : World) : List Snapshot :=
  Client.messages (s.pages.map (List.map LoadedPage.toMessagePage)) s.live

/-- What is on its way to the client. -/
def World.pending (s : World) : List ServerEvent := s.socket.inbox ++ s.outbox

/-! ## Steps -/

/-- What may happen next. -/
inductive Action where
  /-- A write is committed. -/
  | commit (mutation : Mutation)
  /-- The next broadcast is made. -/
  | emit
  /-- The socket connects, and `join_group` is emitted. -/
  | connect
  /-- The server lets the socket into the room. -/
  | enter
  | disconnect
  /-- The next event is handled. -/
  | deliver
  /-- The first fetch of the history is started. -/
  | load
  | loadOlder
  | refetch
  /-- The fetch reads its next page. -/
  | read
  | arrive
  /-- The fetch is given up. -/
  | fail
deriving DecidableEq

def PAGE_SIZE : PageSize := ⟨20, by decide⟩

/-- `getNextPageParam` of the last page; without a page, `initialPageParam`. -/
def nextPageParam (pages : List LoadedPage) : Option JsString :=
  pages.getLast?.bind fun page => page.nextCursor

/-- A page as it arrives from a table. -/
def loaded (db : Stored) (cursor : Option JsString) (page : Page) : LoadedPage where
  data := page.data.map db.select
  nextCursor := page.pageMeta.nextCursor
  pageParam := cursor
  readFrom := db.rows

/-- The fetch with one more page. -/
def Fetch.append (fetch : Fetch) (page : LoadedPage) (n : ℕ) : Fetch :=
  { fetch with
    pages := fetch.pages ++ [page]
    remaining := if page.nextCursor.isSome then n else 0 }

def LoadedPage.on (e : ServerEvent) (page : LoadedPage) : LoadedPage :=
  { page with toMessagePage := e.onPage page.toMessagePage }

/-- One step of the server or of the client. -/
def step (host : Host) (groupId : Uuid) (s : World) : Action → Option World
  | .commit mutation =>
    (s.db.write groupId mutation).map fun written =>
      { s with db := written.1, outbox := s.outbox ++ [written.2] }
  | .emit =>
    match s.outbox with
    | [] => none
    | e :: rest =>
      match s.socket with
      | .joined inbox => some { s with outbox := rest, socket := .joined (inbox ++ [e]) }
      | .offline | .connected => some { s with outbox := rest, missed := s.missed ++ [e] }
  | .connect =>
    match s.socket with
    | .offline => some { s with socket := .connected }
    | .connected | .joined _ => none
  | .enter =>
    match s.socket with
    | .connected => some { s with socket := .joined [] }
    | .offline | .joined _ => none
  | .disconnect =>
    if s.socket.online then
      some { s with
        socket := .offline
        missed := s.missed ++ s.socket.inbox
        fetch := s.fetch.map fun fetch => { fetch with settles := false }
        owed := true }
    else none
  | .deliver =>
    match s.socket with
    | .joined (e :: rest) =>
      some { s with
        socket := .joined rest
        live := e.onLive s.live
        pages := s.pages.map (List.map (LoadedPage.on e)) }
    | .offline | .connected | .joined [] => none
  | .load =>
    if s.pages.isNone ∧ s.fetch.isNone then some { s with fetch := some ⟨[], 1, s.socket.online⟩ }
    else none
  | .loadOlder =>
    match s.pages with
    | none => none
    | some pages =>
      -- without a next page there is nothing to press
      if (nextPageParam pages).isSome then some { s with fetch := some ⟨pages, 1, false⟩ } else none
  | .refetch =>
    match s.pages with
    | none => none
    | some pages =>
      if s.socket.online then some { s with fetch := some ⟨[], pages.length, true⟩ } else none
  | .read =>
    match s.fetch with
    | none => none
    | some fetch =>
      match fetch.remaining with
      | 0 => none
      | n + 1 =>
        match findPage host s.db.rows groupId PAGE_SIZE (nextPageParam fetch.pages) with
        | .error _ => some { s with fetch := none }
        | .ok page =>
          some { s with
            fetch := some (fetch.append (loaded s.db (nextPageParam fetch.pages) page) n) }
  | .arrive =>
    match s.fetch with
    | none => none
    | some fetch =>
      if fetch.remaining = 0 then
        some { s with
          pages := some fetch.pages
          fetch := none
          owed := s.owed && !fetch.settles }
      else none
  | .fail => if s.fetch.isSome then some { s with fetch := none } else none

/-- **What one step can do.** -/
inductive Moved (host : Host) (groupId : Uuid) (s : World) : Action → World → Prop
  | commit {mutation : Mutation} {db : Stored} {e : ServerEvent}
      (write_eq : s.db.write groupId mutation = some (db, e)) :
      Moved host groupId s (.commit mutation) { s with db := db, outbox := s.outbox ++ [e] }
  | heard {e : ServerEvent} {rest inbox : List ServerEvent} (outbox_eq : s.outbox = e :: rest)
      (socket_eq : s.socket = .joined inbox) :
      Moved host groupId s .emit { s with outbox := rest, socket := .joined (inbox ++ [e]) }
  | unheard {e : ServerEvent} {rest : List ServerEvent} (outbox_eq : s.outbox = e :: rest)
      (not_joined : s.socket.isJoined = false) :
      Moved host groupId s .emit { s with outbox := rest, missed := s.missed ++ [e] }
  | connect (socket_eq : s.socket = .offline) :
      Moved host groupId s .connect { s with socket := .connected }
  | enter (socket_eq : s.socket = .connected) :
      Moved host groupId s .enter { s with socket := .joined [] }
  | disconnect (online : s.socket.online = true) :
      Moved host groupId s .disconnect { s with
        socket := .offline
        missed := s.missed ++ s.socket.inbox
        fetch := s.fetch.map fun fetch => { fetch with settles := false }
        owed := true }
  | deliver {e : ServerEvent} {rest : List ServerEvent}
      (socket_eq : s.socket = .joined (e :: rest)) :
      Moved host groupId s .deliver { s with
        socket := .joined rest
        live := e.onLive s.live
        pages := s.pages.map (List.map (LoadedPage.on e)) }
  | load (pages_eq : s.pages = none) (fetch_eq : s.fetch = none) :
      Moved host groupId s .load { s with fetch := some ⟨[], 1, s.socket.online⟩ }
  | loadOlder {pages : List LoadedPage} (pages_eq : s.pages = some pages)
      (more : (nextPageParam pages).isSome) :
      Moved host groupId s .loadOlder { s with fetch := some ⟨pages, 1, false⟩ }
  | refetch {pages : List LoadedPage} (pages_eq : s.pages = some pages)
      (online : s.socket.online = true) :
      Moved host groupId s .refetch { s with fetch := some ⟨[], pages.length, true⟩ }
  | read {fetch : Fetch} {n : ℕ} {page : Page} (fetch_eq : s.fetch = some fetch)
      (remaining_eq : fetch.remaining = n + 1)
      (call : findPage host s.db.rows groupId PAGE_SIZE (nextPageParam fetch.pages) = .ok page) :
      Moved host groupId s .read { s with
        fetch := some (fetch.append (loaded s.db (nextPageParam fetch.pages) page) n) }
  | arrive {fetch : Fetch} (fetch_eq : s.fetch = some fetch) (done : fetch.remaining = 0) :
      Moved host groupId s .arrive { s with
        pages := some fetch.pages
        fetch := none
        owed := s.owed && !fetch.settles }
  | gaveUp (a : Action) (ha : a = .read ∨ a = .fail) : Moved host groupId s a { s with fetch := none }

theorem moved_of_step {host : Host} {groupId : Uuid} {s t : World} {a : Action}
    (h : step host groupId s a = some t) : Moved host groupId s a t := by
  cases a with
  | commit mutation =>
    obtain ⟨⟨db, e⟩, hwrite, rfl⟩ := Option.map_eq_some_iff.mp h
    exact .commit hwrite
  | emit =>
    simp only [step] at h
    split at h
    · exact absurd h (by simp)
    · rename_i e rest hout
      split at h
      · rename_i inbox hsocket
        rw [← Option.some.inj h]
        exact .heard hout hsocket
      · rename_i hsocket
        rw [← Option.some.inj h]
        exact .unheard hout (by rw [hsocket]; rfl)
      · rename_i hsocket
        rw [← Option.some.inj h]
        exact .unheard hout (by rw [hsocket]; rfl)
  | connect =>
    simp only [step] at h
    split at h
    · rename_i hsocket
      rw [← Option.some.inj h]
      exact .connect hsocket
    · exact absurd h (by simp)
    · exact absurd h (by simp)
  | enter =>
    simp only [step] at h
    split at h
    · rename_i hsocket
      rw [← Option.some.inj h]
      exact .enter hsocket
    · exact absurd h (by simp)
    · exact absurd h (by simp)
  | disconnect =>
    simp only [step] at h
    split_ifs at h with honline
    rw [← Option.some.inj h]
    exact .disconnect honline
  | deliver =>
    simp only [step] at h
    split at h
    · rename_i e rest hsocket
      rw [← Option.some.inj h]
      exact .deliver hsocket
    · exact absurd h (by simp)
    · exact absurd h (by simp)
    · exact absurd h (by simp)
  | load =>
    simp only [step] at h
    split_ifs at h with hnone
    rw [← Option.some.inj h]
    exact .load (Option.isNone_iff_eq_none.mp hnone.1) (Option.isNone_iff_eq_none.mp hnone.2)
  | loadOlder =>
    simp only [step] at h
    split at h
    · exact absurd h (by simp)
    · rename_i pages hpages
      split_ifs at h with hmore
      rw [← Option.some.inj h]
      exact .loadOlder hpages hmore
  | refetch =>
    simp only [step] at h
    split at h
    · exact absurd h (by simp)
    · rename_i pages hpages
      split_ifs at h with honline
      rw [← Option.some.inj h]
      exact .refetch hpages honline
  | read =>
    simp only [step] at h
    split at h
    · exact absurd h (by simp)
    · rename_i fetch hfetch
      split at h
      · exact absurd h (by simp)
      · rename_i n hremaining
        split at h
        · rw [← Option.some.inj h]
          exact .gaveUp .read (Or.inl rfl)
        · rename_i page hcall
          rw [← Option.some.inj h]
          exact .read hfetch hremaining hcall
  | arrive =>
    simp only [step] at h
    split at h
    · exact absurd h (by simp)
    · rename_i fetch hfetch
      split_ifs at h with hdone
      rw [← Option.some.inj h]
      exact .arrive hfetch hdone
  | fail =>
    simp only [step] at h
    split_ifs at h
    rw [← Option.some.inj h]
    exact .gaveUp .fail (Or.inr rfl)

/-! ## What a write changes -/

theorem Stored.idOf_of_find? {db : Stored} {id : Uuid} {x : Snapshot} (h : db.find? id = some x) :
    idOf x = id := by
  obtain ⟨m, hm, rfl⟩ := Option.map_eq_some_iff.mp h
  have hid : m.id = id := Table.key_of_find? hm
  exact hid

/-- What a write does to the messages, for the event that is broadcast for it. -/
inductive Written (db db' : Stored) : ServerEvent → Prop
  | created {x : Snapshot} (fresh : db.find? (idOf x) = none)
      (after : db'.find? (idOf x) = some x)
      (others : ∀ id ≠ idOf x, db'.find? id = db.find? id) :
      Written db db' (.newMessage x)
  | patched {e : ServerEvent} {x : Snapshot} (isPatch : ∀ m, e ≠ .newMessage m)
      (before : db.find? e.messageId = some x) (after : db'.find? e.messageId = some (e.patch x))
      (key_eq : (e.patch x).row.key = x.row.key)
      (groupId_eq : (e.patch x).row.groupId = x.row.groupId)
      (others : ∀ id ≠ e.messageId, db'.find? id = db.find? id) :
      Written db db' e

theorem Change.apply_key (change : Change) (now : Instant) (m : Message) :
    (change.apply now m).key = m.key := by
  cases change <;> rfl

/-- New reactions change one message in its reactions. -/
theorem written_of_reactions {db : Stored} {messageId : Uuid} {m : Message}
    (hm : db.rows.find? messageId = some m) (reactions : Finset (String × Uuid)) :
    Written db ⟨db.rows, Function.update db.reactions messageId reactions⟩
      (.reactionUpdated messageId reactions) := by
  have hid : m.id = messageId := Table.key_of_find? hm
  have hpatch : (ServerEvent.reactionUpdated messageId reactions).patch (db.select m) =
      ⟨m, reactions⟩ := if_pos hid
  refine .patched (x := db.select m) (by simp) ?_ ?_ ?_ ?_ fun id' hid' => ?_
  · exact Option.map_eq_some_iff.mpr ⟨m, hm, rfl⟩
  · rw [hpatch]
    refine Option.map_eq_some_iff.mpr ⟨m, hm, ?_⟩
    show Snapshot.mk m (Function.update db.reactions messageId reactions m.id) = _
    rw [hid, Function.update_self]
  · rw [hpatch]
    rfl
  · rw [hpatch]
    rfl
  · unfold Stored.find?
    refine Option.map_congr fun m' hm' => ?_
    have hne : m'.id ≠ messageId := by
      rw [Table.key_of_find? hm']
      exact hid'
    show Snapshot.mk m' (Function.update db.reactions messageId reactions m'.id) = _
    rw [Function.update_of_ne hne]
    rfl

/-- **A write does what its event says.** -/
theorem written_of_write {db db' : Stored} {groupId : Uuid} {mutation : Mutation}
    {e : ServerEvent} (h : db.write groupId mutation = some (db', e)) : Written db db' e := by
  cases mutation with
  | create data id now =>
    simp only [Stored.write] at h
    split_ifs at h with hfresh
    obtain ⟨rfl, rfl⟩ := Prod.mk.inj (Option.some.inj h)
    have hafter : (db.rows.put (data.toRow id now)).find? id = some (data.toRow id now) :=
      Table.find?_put_self db.rows (data.toRow id now)
    refine .created ?_ ?_ fun id' hid' => ?_
    · exact Option.map_eq_none_iff.mpr hfresh.2
    · refine Option.map_eq_some_iff.mpr ⟨_, hafter, ?_⟩
      show Snapshot.mk (data.toRow id now) (Function.update db.reactions id ∅ id) = _
      rw [Function.update_self]
    · have hrow : (db.rows.put (data.toRow id now)).find? id' = db.rows.find? id' :=
        Table.find?_put_of_ne hid'
      unfold Stored.find?
      rw [hrow]
      refine Option.map_congr fun m hm => ?_
      have hm' : m.id ≠ id := by
        rw [Table.key_of_find? hm]
        exact hid'
      show Snapshot.mk m (Function.update db.reactions id ∅ m.id) = _
      rw [Function.update_of_ne hm']
      rfl
  | change messageId change now =>
    simp only [Stored.write] at h
    split at h
    · exact absurd h (by simp)
    · rename_i m hm
      split_ifs at h with hgroup
      obtain ⟨rfl, rfl⟩ := Prod.mk.inj (Option.some.inj h)
      have hid : m.id = messageId := Table.key_of_find? hm
      have hpatch : (ServerEvent.messageUpdated ⟨change.apply now m, db.reactions messageId⟩).patch
          (db.select m) = ⟨change.apply now m, db.reactions messageId⟩ := by
        refine if_pos ?_
        exact (change.apply_id now m).symm
      have hput : (db.rows.put (change.apply now m)).find? (change.apply now m).id =
          some (change.apply now m) := Table.find?_put_self db.rows (change.apply now m)
      have hevent : (ServerEvent.messageUpdated
          ⟨change.apply now m, db.reactions messageId⟩).messageId = messageId := by
        show (change.apply now m).id = messageId
        rw [change.apply_id, hid]
      refine .patched (x := db.select m) (by simp) ?_ ?_ ?_ ?_ fun id' hid' => ?_
      · rw [hevent]
        exact Option.map_eq_some_iff.mpr ⟨m, hm, rfl⟩
      · rw [hpatch]
        refine Option.map_eq_some_iff.mpr ⟨_, hput, ?_⟩
        show Snapshot.mk (change.apply now m) (db.reactions (change.apply now m).id) = _
        rw [change.apply_id, hid]
      · rw [hpatch]
        exact Change.apply_key change now m
      · rw [hpatch]
        exact Change.apply_groupId change now m
      · have hrow : (db.rows.put (change.apply now m)).find? id' = db.rows.find? id' :=
          Table.find?_put_of_ne hid'
        unfold Stored.find?
        rw [hrow]
        rfl
  | toggle messageId userId emoji =>
    simp only [Stored.write] at h
    split at h
    · exact absurd h (by simp)
    · rename_i m hm
      split_ifs at h with hgroup hthere
      all_goals
        obtain ⟨rfl, rfl⟩ := Prod.mk.inj (Option.some.inj h)
        exact written_of_reactions hm _

section Written

variable {db db' : Stored} {e : ServerEvent}

/-- What is stored is patched by the event. -/
theorem Written.find?_patch (h : Written db db' e) {id : Uuid} {x : Snapshot}
    (hx : db.find? id = some x) : db'.find? id = some (e.patch x) := by
  have hid : idOf x = id := Stored.idOf_of_find? hx
  cases h with
  | @created y fresh after others =>
    have hne : id ≠ idOf y := by
      rintro rfl
      rw [hx] at fresh
      cases fresh
    rw [others id hne, hx]
    rfl
  | @patched _ y isPatch before after key_eq groupId_eq others =>
    by_cases heq : id = e.messageId
    · subst heq
      obtain rfl : y = x := Option.some.inj (before.symm.trans hx)
      exact after
    · have hne : idOf x ≠ e.messageId := by rwa [hid]
      rw [others id heq, hx, ServerEvent.patch_of_ne hne]

/-- What is stored was stored before, or is new. -/
theorem Written.find?_cases (h : Written db db' e) {id : Uuid} {x : Snapshot}
    (hx : db'.find? id = some x) :
    (∃ y, db.find? id = some y ∧ e.patch y = x) ∨ e = .newMessage x ∧ db.find? id = none := by
  cases hbefore : db.find? id with
  | some y =>
    have hpatch := h.find?_patch hbefore
    exact Or.inl ⟨y, rfl, Option.some.inj (hpatch.symm.trans hx)⟩
  | none =>
    refine Or.inr ⟨?_, rfl⟩
    cases h with
    | @created y fresh after others =>
      by_cases heq : id = idOf y
      · rw [heq] at hx
        rw [Option.some.inj (after.symm.trans hx)]
      · rw [others id heq, hbefore] at hx
        cases hx
    | @patched _ y isPatch before after key_eq groupId_eq others =>
      by_cases heq : id = e.messageId
      · rw [heq, before] at hbefore
        cases hbefore
      · rw [others id heq, hbefore] at hx
        cases hx

/-- The message of the event is stored. -/
theorem Written.isSome_messageId (h : Written db db' e) : (db'.find? e.messageId).isSome := by
  cases h with
  | @created x fresh after others =>
    show (db'.find? (idOf x)).isSome = true
    rw [after]
    rfl
  | patched isPatch before after key_eq groupId_eq others =>
    rw [after]
    rfl

theorem Written.isSome (h : Written db db' e) {id : Uuid} (hid : (db.find? id).isSome) :
    (db'.find? id).isSome := by
  obtain ⟨x, hx⟩ := Option.isSome_iff_exists.mp hid
  rw [h.find?_patch hx]
  rfl

end Written

/-! ## What is on its way -/

/-- **How events travel.**  A write adds its event at the end; every other step leaves the
database alone, and takes events away at the front, if any. -/
theorem pending_of_moved {host : Host} {groupId : Uuid} {s t : World} {a : Action}
    (h : Moved host groupId s a t) :
    (∃ mutation e, a = .commit mutation ∧ Written s.db t.db e ∧ t.pending = s.pending ++ [e]) ∨
      t.db = s.db ∧ t.pending <:+ s.pending := by
  cases h with
  | commit write_eq =>
    exact Or.inl ⟨_, _, rfl, written_of_write write_eq, (List.append_assoc _ _ _).symm⟩
  | heard outbox_eq socket_eq =>
    refine Or.inr ⟨rfl, ?_⟩
    unfold World.pending
    rw [outbox_eq, socket_eq]
    show _ ++ [_] ++ _ <:+ _
    rw [List.append_assoc]
    exact List.suffix_rfl
  | unheard outbox_eq not_joined =>
    refine Or.inr ⟨rfl, ?_⟩
    unfold World.pending
    rw [outbox_eq, Socket.inbox_eq_nil not_joined]
    exact List.suffix_cons _ _
  | connect socket_eq =>
    refine Or.inr ⟨rfl, ?_⟩
    unfold World.pending
    rw [socket_eq]
    exact List.suffix_rfl
  | enter socket_eq =>
    refine Or.inr ⟨rfl, ?_⟩
    unfold World.pending
    rw [socket_eq]
    exact List.suffix_rfl
  | disconnect online => exact Or.inr ⟨rfl, List.suffix_append _ _⟩
  | deliver socket_eq =>
    refine Or.inr ⟨rfl, ?_⟩
    unfold World.pending
    rw [socket_eq]
    exact List.suffix_cons _ _
  | load | loadOlder | refetch | read | arrive | gaveUp => exact Or.inr ⟨rfl, List.suffix_rfl⟩

/-- What holds in every state of the events on their way to the client. -/
structure World.Inv (s : World) : Prop where
  /-- They are about stored messages. -/
  known : ∀ e ∈ s.pending, (s.db.find? e.messageId).isSome
  /-- What is stored includes them. -/
  included : ∀ id x, s.db.find? id = some x → replayed s.pending x = x
  /-- A new message, with what comes behind it, is what is stored. -/
  announced : ∀ before x after, s.pending = before ++ .newMessage x :: after →
    s.db.find? (idOf x) = some (replayed after x)

theorem World.inv_start (db : Stored) : (World.start db).Inv :=
  ⟨fun e he => absurd he List.not_mem_nil, fun _ _ _ => rfl, fun before x after h => by
    cases before <;> cases h⟩

/-- A stored message includes every end of what is on its way. -/
theorem World.Inv.replayed_suffix {s : World} (h : s.Inv) {rest : List ServerEvent}
    (hrest : rest <:+ s.pending) {id : Uuid} {x : Snapshot} (hx : s.db.find? id = some x) :
    replayed rest x = x := by
  obtain ⟨before, hbefore⟩ := hrest
  have hincluded := h.included id x hx
  rw [← hbefore] at hincluded
  exact overwriting_patch.patchAll_suffix hincluded

/-- An event that is written comes last, and what is stored includes it. -/
theorem World.Inv.written {s t : World} {e : ServerEvent} (h : s.Inv)
    (hwritten : Written s.db t.db e) (hpending : t.pending = s.pending ++ [e]) : t.Inv := by
  refine ⟨fun f hf => ?_, fun id x hx => ?_, fun before x after hsplit => ?_⟩
  · rw [hpending, List.mem_append, List.mem_singleton] at hf
    rcases hf with hf | rfl
    · exact hwritten.isSome (h.known f hf)
    · exact hwritten.isSome_messageId
  · rw [hpending]
    rcases hwritten.find?_cases hx with ⟨y, hy, rfl⟩ | ⟨rfl, hfresh⟩
    · rw [replayed_concat]
      calc e.patch (replayed s.pending (e.patch y))
          = e.patch (replayed s.pending y) := overwriting_patch.patch_patchAll_patch e _ y
        _ = e.patch y := by rw [h.included id y hy]
    · rw [replayed_concat]
      show replayed s.pending x = x
      -- nothing on its way before is about a message that was not there
      refine patchAll_eq_self fun f hf => ServerEvent.patch_of_ne fun hid => ?_
      have hknown := h.known f hf
      rw [← hid, Stored.idOf_of_find? hx, hfresh] at hknown
      cases hknown
  · rw [hpending] at hsplit
    rcases List.eq_nil_or_concat after with rfl | ⟨after, f, rfl⟩
    · obtain ⟨-, heq⟩ := List.append_inj' hsplit rfl
      obtain rfl := List.singleton_inj.mp heq
      cases hwritten with
      | created fresh after others => exact after
      | patched isPatch before after key_eq groupId_eq others => exact absurd rfl (isPatch x)
    · rw [List.concat_eq_append, ← List.cons_append, ← List.append_assoc] at hsplit
      obtain ⟨hbefore, heq⟩ := List.append_inj' hsplit rfl
      obtain rfl := List.singleton_inj.mp heq
      have hx := hwritten.find?_patch (h.announced before x after hbefore)
      rw [hx, List.concat_eq_append, replayed_concat]

/-- **What is on its way stays in step with the database.** -/
theorem World.Inv.moved {host : Host} {groupId : Uuid} {s t : World} {a : Action} (h : s.Inv)
    (hmoved : Moved host groupId s a t) : t.Inv := by
  rcases pending_of_moved hmoved with ⟨_, e, -, hwritten, hpending⟩ | ⟨hdb, hpending⟩
  · exact h.written hwritten hpending
  · refine ⟨fun e he => ?_, fun id x hx => ?_, fun before x after hsplit => ?_⟩
    · rw [hdb]
      exact h.known e (hpending.subset he)
    · rw [hdb] at hx
      exact h.replayed_suffix hpending hx
    · obtain ⟨dropped, hdropped⟩ := hpending
      rw [hdb]
      refine h.announced (dropped ++ before) x after ?_
      rw [← hdropped, hsplit, List.append_assoc]

/-! ## A small world -/

/-- A host that accepts no text in a form this program does not print. -/
def plainHost : Host := ⟨fun _ => none, fun _ => none⟩

/-- One message, without reactions. -/
def oneMessage : Stored := ⟨Table.empty.put plainMessage.row, fun _ => ∅⟩

end GroupPage
end Client
end GroupChat

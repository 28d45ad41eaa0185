import GroupChat.Client.GroupPage

/-!
# What the client shows and what is stored

A cached copy of a message is up to date if the events on their way to the client
lead from it to what is stored.  An event leaves the queue in three ways that can pass
a copy by.  It is handled while a fetch is in flight that has read the copy before; it
is broadcast while the socket is not in the room; it is dropped when the socket
disconnects.

Not every copy counts.  One on a page is replaced if a refetch is owed, and so is one in a
fetch that is not that refetch; one on a page that is in the live buffer too is not
shown.  The copies in the live buffer always count, since no refetch replaces them.

`agreeing_iff` says that the copies that count stay up to date in a run exactly if the
events that pass one of them by would not have changed it.  In these runs the
client shows what is stored whenever nothing is in flight and no refetch is owed
(`shows_stored_of_losesNothing`).
-/

namespace GroupChat
namespace Client
namespace GroupPage

open Common Database Messages Text Transition
open Messages.Broadcasts (Snapshot)

/-! ## Copies -/

/-- What is cached on pages. -/
def World.history (s : World) : List Snapshot :=
  rowsOfPages (s.pages.map (List.map LoadedPage.toMessagePage))

/-- What a fetch will put on pages. -/
def Fetch.rows (fetch : Fetch) : List Snapshot := fetch.pages.flatMap fun page => page.data

/-- The live buffer has no copy of the message. -/
def World.unhidden (s : World) (x : Snapshot) : Bool := s.live.all fun y => idOf y ≠ idOf x

/-- The copies in a fetch that will be shown, unless a refetch is owed that replaces
them. -/
def World.inFlight (s : World) : List Snapshot :=
  match s.fetch with
  | none => []
  | some fetch => if s.owed && !fetch.settles then [] else fetch.rows.filter s.unhidden

/-- The copies that count. -/
def World.counted (s : World) : List Snapshot :=
  s.live ++ (if s.owed then [] else s.history.filter s.unhidden) ++ s.inFlight

/-- The events lead from the copy to what is stored. -/
def UpToDate (db : Stored) (events : List ServerEvent) (x : Snapshot) : Prop :=
  db.find? (idOf x) = some (replayed events x)

/-- Every copy that counts is up to date. -/
def World.Agreeing (s : World) : Prop := ∀ x ∈ s.counted, UpToDate s.db s.pending x

/-! ## Events that pass a copy by -/

/-- How many events leave the queue in a step. -/
def taken (s : World) : Action → ℕ
  | .emit => if s.socket.isJoined then 0 else 1
  | .disconnect => s.socket.inbox.length
  | .deliver => 1
  | _ => 0

/-- The copies that these events do not reach. -/
def passedBy (s : World) : Action → List Snapshot
  | .emit => if s.socket.isJoined then [] else s.counted
  | .disconnect => s.live
  | .deliver => s.inFlight
  | _ => []

/-- The events would not have changed them, with what is still to come. -/
def LosesNothing (s : World) (a : Action) : Prop :=
  ∀ x ∈ passedBy s a, replayed s.pending x = replayed (s.pending.drop (taken s a)) x

instance (s : World) (a : Action) : Decidable (LosesNothing s a) :=
  inferInstanceAs (Decidable (∀ x ∈ passedBy s a,
    replayed s.pending x = replayed (s.pending.drop (taken s a)) x))

/-! ## Which copies count -/

theorem mem_history {s : World} {x : Snapshot} :
    x ∈ s.history ↔ ∃ pages, s.pages = some pages ∧ ∃ page ∈ pages, x ∈ page.data := by
  unfold World.history rowsOfPages
  cases s.pages with
  | none => simp
  | some pages => simp [List.mem_flatMap]

theorem mem_rows {fetch : Fetch} {x : Snapshot} :
    x ∈ fetch.rows ↔ ∃ page ∈ fetch.pages, x ∈ page.data := List.mem_flatMap

theorem mem_inFlight {s : World} {x : Snapshot} :
    x ∈ s.inFlight ↔ ∃ fetch, s.fetch = some fetch ∧ (s.owed = true → fetch.settles = true) ∧
      x ∈ fetch.rows ∧ s.unhidden x = true := by
  unfold World.inFlight
  cases s.fetch with
  | none => simp
  | some fetch =>
    simp only [Option.some.injEq, exists_eq_left']
    cases s.owed <;> cases fetch.settles <;> simp

theorem mem_counted {s : World} {x : Snapshot} :
    x ∈ s.counted ↔ x ∈ s.live ∨ (s.owed = false ∧ x ∈ s.history ∧ s.unhidden x = true) ∨
      x ∈ s.inFlight := by
  unfold World.counted
  rw [List.mem_append, List.mem_append, or_assoc]
  refine or_congr_right (or_congr_left ?_)
  cases s.owed <;> simp

theorem unhidden_iff {s : World} {x : Snapshot} :
    s.unhidden x = true ↔ ∀ y ∈ s.live, idOf y ≠ idOf x := by
  unfold World.unhidden
  rw [List.all_eq_true]
  simp only [decide_eq_true_eq]

/-! ## One step -/

variable {host : Host} {groupId : Uuid} {s t : World} {a : Action}

/-- A step after which no new copy counts, and nothing has left the queue. -/
theorem World.Agreeing.of_counted (h : s.Agreeing) (hdb : t.db = s.db)
    (hpending : t.pending = s.pending)
    (hcounted : ∀ x ∈ t.counted, x ∈ s.counted ∨ UpToDate s.db s.pending x) : t.Agreeing := by
  intro x hx
  rw [hdb, hpending]
  exact (hcounted x hx).elim (h x) id

/-- A step that takes events away from copies that count. -/
theorem agreeing_iff_of_drop (h : s.Agreeing) {n : ℕ} (hdb : t.db = s.db)
    (hpending : t.pending = s.pending.drop n) {xs : List Snapshot} (hxs : ∀ x ∈ xs, x ∈ s.counted)
    (hcounted : ∀ x, x ∈ t.counted ↔ x ∈ xs) :
    t.Agreeing ↔ ∀ x ∈ xs, replayed s.pending x = replayed (s.pending.drop n) x := by
  refine forall_congr' fun x => ?_
  rw [hcounted]
  refine forall_congr' fun hx => ?_
  have hup : s.db.find? (idOf x) = some (replayed s.pending x) := h x (hxs x hx)
  unfold UpToDate
  rw [hdb, hpending, hup, Option.some.injEq]

/-- A write puts its event behind the others, and every copy will hear of it. -/
theorem World.Agreeing.written {e : ServerEvent} (h : s.Agreeing) (hwritten : Written s.db t.db e)
    (hpending : t.pending = s.pending ++ [e]) (hcounted : t.counted = s.counted) : t.Agreeing := by
  intro x hx
  rw [hcounted] at hx
  unfold UpToDate
  rw [hpending, replayed_concat]
  exact hwritten.find?_patch (h x hx)

/-- A step that changes the fetch alone. -/
theorem World.Agreeing.withFetch (h : s.Agreeing) (fetch : Option Fetch)
    (hrows : ∀ f, fetch = some f → (s.owed = true → f.settles = true) → ∀ x ∈ f.rows,
      s.unhidden x = true → x ∈ s.counted ∨ UpToDate s.db s.pending x) :
    World.Agreeing { s with fetch := fetch } := by
  refine h.of_counted rfl rfl fun x hx => ?_
  rcases mem_counted.mp hx with hx | hx | hx
  · exact Or.inl (mem_counted.mpr (Or.inl hx))
  · exact Or.inl (mem_counted.mpr (Or.inr (Or.inl hx)))
  · obtain ⟨f, hf, hsettles, hx, hunhidden⟩ := mem_inFlight.mp hx
    exact hrows f hf hsettles x hx hunhidden

/-- A page that is read is up to date. -/
theorem upToDate_of_loaded (hinv : s.Inv) {cursor : Option JsString} {page : Page}
    (hcall : findPage host s.db.rows groupId PAGE_SIZE cursor = .ok page) {x : Snapshot}
    (hx : x ∈ (loaded s.db cursor page).data) : UpToDate s.db s.pending x := by
  obtain ⟨m, hm, rfl⟩ := List.mem_map.mp hx
  have hrow : m ∈ s.db.rows := mem_rows_of_findPage hcall hm
  have hstored : s.db.find? m.id = some (s.db.select m) :=
    Option.map_eq_some_iff.mpr ⟨m, Table.find?_of_mem hrow, rfl⟩
  unfold UpToDate
  rw [hinv.included m.id (s.db.select m) hstored]
  exact hstored

/-- The event at the head of the queue is handled. -/
theorem agreeing_deliver_iff (hinv : s.Inv) (h : s.Agreeing) {e : ServerEvent}
    {rest : List ServerEvent} (hsocket : s.socket = .joined (e :: rest))
    (ht : t = { s with
      socket := .joined rest
      live := e.onLive s.live
      pages := s.pages.map (List.map (LoadedPage.on e)) }) :
    t.Agreeing ↔ ∀ x ∈ s.inFlight, replayed s.pending x = replayed t.pending x := by
  have hpending : s.pending = e :: t.pending := by
    rw [ht]
    unfold World.pending
    rw [hsocket]
    rfl
  have hdb : t.db = s.db := by rw [ht]
  have hlive : t.live = e.onLive s.live := by rw [ht]
  have hup : ∀ x ∈ s.counted, s.db.find? (idOf x) = some (replayed s.pending x) := h
  have hunhidden : ∀ x, t.unhidden x = true → s.unhidden x = true := by
    intro x hx
    rw [unhidden_iff] at hx ⊢
    intro y hy hid
    obtain ⟨z, hz, hzx⟩ := exists_mem_onLive_iff.mpr (Or.inl ⟨y, hy, hid⟩)
    exact hx z (by rw [hlive]; exact hz) hzx
  -- a cached copy is patched
  have hpatched : ∀ y ∈ s.counted, UpToDate t.db t.pending (e.patch y) := by
    intro y hy
    unfold UpToDate
    rw [hdb, ServerEvent.idOf_patch, hup y hy, hpending]
    rfl
  constructor
  · intro hagree x hx
    have hcounted : x ∈ s.counted := mem_counted.mpr (Or.inr (Or.inr hx))
    obtain ⟨fetch, hfetch, hsettles, hrows, hxunhidden⟩ := mem_inFlight.mp hx
    by_cases htunhidden : t.unhidden x = true
    · have hflight : x ∈ t.inFlight := by
        refine mem_inFlight.mpr ⟨fetch, ?_, ?_, hrows, htunhidden⟩
        · rw [ht]
          exact hfetch
        · rw [ht]
          exact hsettles
      have htup := hagree x (mem_counted.mpr (Or.inr (Or.inr hflight)))
      unfold UpToDate at htup
      rw [hdb, hup x hcounted] at htup
      exact Option.some.inj htup
    · -- the message is new in the live buffer, and its event patches nothing
      have hnew : ∃ message, e = .newMessage message ∧ idOf message = idOf x := by
        have hsome : ∃ y ∈ e.onLive s.live, idOf y = idOf x := by
          rw [unhidden_iff, hlive] at htunhidden
          push Not at htunhidden
          exact htunhidden
        refine (exists_mem_onLive_iff.mp hsome).resolve_left ?_
        rintro ⟨y, hy, hid⟩
        exact unhidden_iff.mp hxunhidden y hy hid
      obtain ⟨message, rfl, -⟩ := hnew
      rw [hpending]
      rfl
  · intro hlost x hx
    rcases mem_counted.mp hx with hx | ⟨howed, hx, hxunhidden⟩ | hx
    · rw [hlive] at hx
      rcases mem_onLive hx with ⟨y, hy, rfl⟩ | ⟨rfl, -⟩
      · exact hpatched y (mem_counted.mpr (Or.inl hy))
      · have hstored := hinv.announced [] x t.pending hpending
        rwa [← hdb] at hstored
    · obtain ⟨pages', hpages', page', hpage', hx⟩ := mem_history.mp hx
      rw [ht] at hpages' howed
      obtain ⟨pages, hpages, rfl⟩ := Option.map_eq_some_iff.mp hpages'
      obtain ⟨page, hpage, rfl⟩ := List.mem_map.mp hpage'
      have hdata : (LoadedPage.on e page).data = page.data.map e.patch := by
        show (e.onPage page.toMessagePage).data = _
        rw [ServerEvent.onPage_eq]
      rw [hdata] at hx
      obtain ⟨y, hy, rfl⟩ := List.mem_map.mp hx
      have hyunhidden : s.unhidden y = true := by
        have := hunhidden _ hxunhidden
        rwa [unhidden_iff, ServerEvent.idOf_patch, ← unhidden_iff] at this
      refine hpatched y (mem_counted.mpr (Or.inr (Or.inl ⟨howed, ?_, hyunhidden⟩)))
      exact mem_history.mpr ⟨pages, hpages, page, hpage, hy⟩
    · obtain ⟨fetch, hfetch, hsettles, hrows, hxunhidden⟩ := mem_inFlight.mp hx
      rw [ht] at hfetch hsettles
      have hflight : x ∈ s.inFlight :=
        mem_inFlight.mpr ⟨fetch, hfetch, hsettles, hrows, hunhidden x hxunhidden⟩
      unfold UpToDate
      rw [hdb, ← hlost x hflight]
      exact hup x (mem_counted.mpr (Or.inr (Or.inr hflight)))

/-- **One step keeps the copies that count up to date exactly if the events that pass
one by would not have changed it.** -/
theorem agreeing_step_iff (hinv : s.Inv) (h : s.Agreeing) (hmoved : Moved host groupId s a t) :
    t.Agreeing ↔ LosesNothing s a := by
  have hkept : passedBy s a = [] → t.Agreeing → (t.Agreeing ↔ LosesNothing s a) := by
    intro hnone ht
    refine iff_of_true ht fun x hx => ?_
    rw [hnone] at hx
    exact absurd hx List.not_mem_nil
  cases hmoved with
  | commit write_eq =>
    exact hkept rfl (h.written (written_of_write write_eq) (List.append_assoc _ _ _).symm rfl)
  | heard outbox_eq socket_eq =>
    refine hkept ?_ (h.of_counted rfl ?_ fun x hx => Or.inl hx)
    · show (if s.socket.isJoined = true then [] else s.counted) = []
      rw [socket_eq]
      rfl
    · unfold World.pending
      rw [outbox_eq, socket_eq]
      show _ ++ [_] ++ _ = _
      rw [List.append_assoc]
      rfl
  | unheard outbox_eq not_joined =>
    have hpassed : passedBy s .emit = s.counted := by
      show (if s.socket.isJoined = true then [] else s.counted) = _
      rw [not_joined]
      rfl
    have htaken : taken s .emit = 1 := by
      show (if s.socket.isJoined = true then 0 else 1) = 1
      rw [not_joined]
      rfl
    unfold LosesNothing
    rw [hpassed, htaken]
    refine agreeing_iff_of_drop h ?_ ?_ (fun x hx => hx) fun x => ?_
    · rfl
    · unfold World.pending
      rw [outbox_eq, Socket.inbox_eq_nil not_joined]
      rfl
    · exact Iff.rfl
  | connect socket_eq =>
    refine hkept rfl (h.of_counted rfl ?_ fun x hx => Or.inl hx)
    unfold World.pending
    rw [socket_eq]
    rfl
  | enter socket_eq =>
    refine hkept rfl (h.of_counted rfl ?_ fun x hx => Or.inl hx)
    unfold World.pending
    rw [socket_eq]
    rfl
  | disconnect online =>
    show _ ↔ ∀ x ∈ s.live,
      replayed s.pending x = replayed (s.pending.drop s.socket.inbox.length) x
    refine agreeing_iff_of_drop h ?_ ?_ (fun x hx => mem_counted.mpr (Or.inl hx)) fun x => ?_
    · rfl
    · show [] ++ s.outbox = (s.socket.inbox ++ s.outbox).drop s.socket.inbox.length
      rw [List.drop_left, List.nil_append]
    · rw [mem_counted]
      refine or_iff_left ?_
      rintro (⟨howed, -⟩ | hx)
      · cases howed
      · obtain ⟨fetch, hfetch, hsettles, -⟩ := mem_inFlight.mp hx
        obtain ⟨fetch', -, rfl⟩ := Option.map_eq_some_iff.mp hfetch
        cases hsettles rfl
  | @deliver e rest socket_eq =>
    have hdrop : s.pending.drop 1 = rest ++ s.outbox := by
      unfold World.pending
      rw [socket_eq]
      rfl
    show _ ↔ ∀ x ∈ s.inFlight, replayed s.pending x = replayed (s.pending.drop 1) x
    rw [agreeing_deliver_iff hinv h socket_eq rfl, hdrop]
    rfl
  | load pages_eq fetch_eq =>
    refine hkept rfl (h.withFetch _ fun fetch hfetch _ x hx => ?_)
    rw [← Option.some.inj hfetch] at hx
    exact absurd hx List.not_mem_nil
  | @loadOlder pages pages_eq more =>
    refine hkept rfl (h.withFetch _ fun fetch hfetch hsettles x hx hunhidden => Or.inl ?_)
    rw [← Option.some.inj hfetch] at hx hsettles
    -- the pages it goes on from count already, unless they are excused
    have howed : s.owed = false := Bool.eq_false_iff.mpr fun howed => by cases hsettles howed
    obtain ⟨page, hpage, hx⟩ := mem_rows.mp hx
    exact mem_counted.mpr (Or.inr (Or.inl
      ⟨howed, mem_history.mpr ⟨pages, pages_eq, page, hpage, hx⟩, hunhidden⟩))
  | refetch pages_eq online =>
    refine hkept rfl (h.withFetch _ fun fetch hfetch _ x hx => ?_)
    rw [← Option.some.inj hfetch] at hx
    exact absurd hx List.not_mem_nil
  | @read fetch n page fetch_eq remaining_eq call =>
    refine hkept rfl (h.withFetch _ fun fetch' hfetch hsettles x hx hunhidden => ?_)
    rw [← Option.some.inj hfetch] at hx hsettles
    obtain ⟨page', hpage', hx⟩ := mem_rows.mp hx
    rcases List.mem_append.mp hpage' with hpage' | hpage'
    · exact Or.inl (mem_counted.mpr (Or.inr (Or.inr (mem_inFlight.mpr
        ⟨fetch, fetch_eq, hsettles, mem_rows.mpr ⟨page', hpage', hx⟩, hunhidden⟩))))
    · rw [List.mem_singleton.mp hpage'] at hx
      exact Or.inr (upToDate_of_loaded hinv call hx)
  | @arrive fetch fetch_eq done =>
    refine hkept rfl (h.of_counted rfl rfl fun x hx => Or.inl ?_)
    rcases mem_counted.mp hx with hx | ⟨howed, hx, hunhidden⟩ | hx
    · exact mem_counted.mpr (Or.inl hx)
    · obtain ⟨pages, hpages, page, hpage, hx⟩ := mem_history.mp hx
      rw [← Option.some.inj hpages] at hpage
      refine mem_counted.mpr (Or.inr (Or.inr (mem_inFlight.mpr
        ⟨fetch, fetch_eq, fun hs => ?_, mem_rows.mpr ⟨page, hpage, hx⟩, hunhidden⟩)))
      have hsettled : (s.owed && !fetch.settles) = false := howed
      rw [hs, Bool.true_and, Bool.not_eq_false'] at hsettled
      exact hsettled
    · obtain ⟨_, hnone, -⟩ := mem_inFlight.mp hx
      cases hnone
  | gaveUp a ha =>
    have hnone : passedBy s a = [] := by rcases ha with rfl | rfl <;> rfl
    refine hkept hnone (h.withFetch none fun fetch hfetch => ?_)
    cases hfetch

/-! ## Runs -/

/-- The copies that count stay up to date exactly if nothing is lost on them. -/
theorem agreeing_iff (host : Host) (groupId : Uuid) (db : Stored) (acts : List Action) :
    AllStates (step host groupId) World.Agreeing (.start db) acts ↔
      AllSteps (step host groupId) LosesNothing (.start db) acts := by
  have hboth : ∀ as s, s.Inv → s.Agreeing →
      (AllStates (step host groupId) World.Agreeing s as ↔
        AllSteps (step host groupId) LosesNothing s as) :=
    fun as s hinv hagree => allStates_iff_allSteps (I := World.Inv)
      (fun _ _ _ hs hstep => hs.moved (moved_of_step hstep))
      (fun _ _ _ hs hp hstep => agreeing_step_iff hs hp (moved_of_step hstep)) hinv hagree as
  exact hboth acts (.start db) (World.inv_start db) fun x hx => absurd hx List.not_mem_nil

/-- No fetch is in flight, nothing is on its way to the client, and no refetch is owed. -/
def World.Settled (s : World) : Prop :=
  s.fetch = none ∧ s.pending = [] ∧ (s.owed = true → s.pages = none)

/-- In a settled state, every message shown is the stored one, with its reactions. -/
def World.ShowsStored (s : World) : Prop :=
  s.Settled → ∀ x ∈ s.messages, s.db.find? (idOf x) = some x

/-- With nothing on its way, copies that are up to date are what is stored. -/
theorem World.Agreeing.stored (h : s.Agreeing) (hsettled : s.Settled) {x : Snapshot}
    (hx : x ∈ s.messages) : s.db.find? (idOf x) = some x := by
  obtain ⟨-, hpending, howed⟩ := hsettled
  have hcounted : x ∈ s.counted := by
    rcases mem_live_or_of_mem_messages hx with hx | ⟨hx, hunhidden⟩
    · exact mem_counted.mpr (Or.inl hx)
    · refine mem_counted.mpr (Or.inr (Or.inl ⟨?_, hx, unhidden_iff.mpr hunhidden⟩))
      obtain ⟨pages, hpages, -⟩ := mem_history.mp hx
      refine Bool.eq_false_iff.mpr fun h => ?_
      rw [howed h] at hpages
      cases hpages
  have hup := h x hcounted
  unfold UpToDate at hup
  rwa [hpending] at hup

/-- **The client shows what is stored, if nothing is lost.**  In every run in which no
event is lost on a copy that it would have changed, whenever no fetch is in flight,
nothing is on its way to the client and the refetch after the last reconnection has
arrived, every message shown is the stored one, with its reactions. -/
theorem shows_stored_of_losesNothing (host : Host) (groupId : Uuid) (db : Stored)
    (acts : List Action) (h : AllSteps (step host groupId) LosesNothing (.start db) acts) :
    AllStates (step host groupId) World.ShowsStored (.start db) acts :=
  ((agreeing_iff host groupId db acts).mpr h).mono fun _ hs hsettled _ hx => hs.stored hsettled hx

/-! ## Three runs -/

/-- The message is edited while the client is disconnected, and a reaction to it is
broadcast while the refetch, which has read the reaction, is in flight. -/
def refetchedRun : List Action :=
  [ .connect, .enter, .load, .read, .arrive, .disconnect, .commit (.change 1 (.edit "b") epoch),
    .emit, .connect, .enter, .refetch, .commit (.toggle 1 6 "+"), .emit, .read, .deliver,
    .arrive ]

theorem shows_stored_of_losesNothing_refetchedRun :
    AllStates (step plainHost 2) World.ShowsStored (.start oneMessage) refetchedRun :=
  shows_stored_of_losesNothing plainHost 2 oneMessage refetchedRun (by decide)

/-- The message is deleted after the first fetch has read it; the fetch arrives last. -/
def overtakenLoadRun : List Action :=
  [ .connect, .enter, .load, .read, .commit (.change 1 .softDelete epoch), .emit, .deliver,
    .arrive ]

/-- A message that has come over the socket is deleted while the client is disconnected;
the refetch brings the tombstone. -/
def staleLiveRun : List Action :=
  [ .connect, .enter, .load, .read, .arrive,
    .commit (.create ⟨2, some 5, "b", .user, none⟩ 3 epoch), .emit, .deliver, .disconnect,
    .commit (.change 3 .softDelete epoch), .emit, .connect, .enter, .refetch, .read, .arrive ]

/-- A run that ends in a settled state in which a message shown is not the stored one. -/
theorem not_showsStored_of_exec {db : Stored} {run : List Action} {s : World}
    (hs : exec (step host groupId) (.start db) run = some s) (hsettled : s.Settled)
    (hne : ∃ x ∈ s.messages, s.db.find? (idOf x) ≠ some x) :
    ¬ AllStates (step host groupId) World.ShowsStored (.start db) run := by
  intro h
  obtain ⟨x, hx, hne⟩ := hne
  exact hne (h.last hs hsettled x hx)

/-- **A deleted text stays on the screen**, in either run. -/
theorem not_showsStored_of_deleted :
    ¬ AllStates (step plainHost 2) World.ShowsStored (.start oneMessage) overtakenLoadRun ∧
      ¬ AllStates (step plainHost 2) World.ShowsStored (.start oneMessage) staleLiveRun := by
  constructor
  · exact not_showsStored_of_exec rfl ⟨rfl, rfl, by decide⟩ (by decide)
  · exact not_showsStored_of_exec rfl ⟨rfl, rfl, by decide⟩ (by decide)

end GroupPage
end Client
end GroupChat

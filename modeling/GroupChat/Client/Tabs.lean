import GroupChat.Auth.WholeCalls

/-!
# The tabs of one browser

The tokens are in the storage of the browser, which its tabs share, and the promise
of the refresh that is under way is in a variable of each tab.  So the callers of
one tab share one refresh, and two tabs do not: both may read the same refresh
token, and the server answers the second request with it as reuse.

`no_reuse_of_one_refresh` says that this is the only way.  As long as no tab starts
a refresh while one of another tab is under way, no refresh request is ever answered
as reuse, whatever is lost on the way and in whatever order requests arrive.  The
server is the one of `WholeCalls`: the requests are exchanges of tokens, each of
them atomic.
-/

namespace GroupChat
namespace Client

open Auth Common Database Transition

/-! ## The browser -/

/-- A `POST /auth/refresh`, by its number. -/
inductive RefreshRequest where
  | unsent
  /-- Sent, and not yet arrived at the server. -/
  | posted (rawToken : String)
  /-- Answered by the server; the answer may be lost, or not have arrived. -/
  | answered (rawToken : String) (reply : Auth.Call)
deriving DecidableEq

/-- The tabs, the storage they share, and the server. -/
structure Browser where
  server : Server
  /-- `tokenStore.refresh`. -/
  refresh : Option String
  /-- `refreshInFlight` of each tab: the request its promise waits for. -/
  refreshInFlight : ℕ → Option ℕ
  requests : ℕ → RefreshRequest

/-- After one login, whose token is stored. -/
def Browser.start (server : Server) (rawToken : String) : Browser :=
  ⟨server, some rawToken, fun _ => none, fun _ => .unsent⟩

inductive TabEvent where
  /-- A request of a tab is answered with 401; should a refresh be sent, it has the
  given number. -/
  | unauthorized (tab n : ℕ)
  /-- A refresh request arrives at the server. -/
  | arrives (n : ℕ) (input : Input)
  /-- The answer arrives in the tab that waits for it. -/
  | settles (tab : ℕ)
  /-- The tab is told that its request failed on the way. -/
  | loses (tab : ℕ)
deriving DecidableEq

/-- What `doRefresh` leaves in the storage, by the answer: the new token, or nothing. -/
def storedAfter : Auth.Call → Option String
  | .rotated _ _ newRawToken => some newRawToken
  | _ => none

/-- One event. -/
def Browser.step (cfg : Config) (b : Browser) : TabEvent → Option Browser
  | .unauthorized tab n =>
    match b.refresh, b.refreshInFlight tab with
    -- nothing to refresh with
    | none, _ => some b
    -- the caller waits for the refresh that is under way
    | some _, some _ => some b
    | some rawToken, none =>
      if b.requests n = .unsent then
        some { b with
          refreshInFlight := Function.update b.refreshInFlight tab (some n)
          requests := Function.update b.requests n (.posted rawToken) }
      else none
  | .arrives n input =>
    match b.requests n with
    | .posted rawToken =>
      (serve cfg b.server (.rotate rawToken, input)).map fun server =>
        { b with
          server := server
          requests := Function.update b.requests n
            (.answered rawToken (b.server.reply cfg (.rotate rawToken) input)) }
    | _ => none
  | .settles tab =>
    match b.refreshInFlight tab with
    | none => none
    | some n =>
      match b.requests n with
      | .answered _ reply =>
        some { b with
          refresh := storedAfter reply
          refreshInFlight := Function.update b.refreshInFlight tab none }
      | _ => none
  | .loses tab =>
    match b.refreshInFlight tab with
    | none => none
    | some _ =>
      some { b with
        refresh := none
        refreshInFlight := Function.update b.refreshInFlight tab none }

/-- No refresh request has been answered as reuse. -/
def NoReuse (b : Browser) : Prop :=
  ∀ n rawToken, b.requests n ≠ .answered rawToken AfterRevoke.reuseDetected.call

/-- A tab that starts a refresh is the only one that has one under way. -/
def OneRefresh (b : Browser) : TabEvent → Prop
  | .unauthorized tab _ =>
    b.refresh ≠ none → b.refreshInFlight tab = none → ∀ tab', b.refreshInFlight tab' = none
  | _ => True

variable {cfg : Config} {b b' : Browser}

/-! ## Tokens that were not spent -/

/-- The token was issued, and its row, if it is there, is live. -/
structure Unspent (cfg : Config) (s : Server) (rawToken : String) : Prop where
  issued : ∃ r ∈ s.log.issued, r.tokenHash = cfg.hashToken rawToken
  live : ∀ r ∈ s.tokens, r.tokenHash = cfg.hashToken rawToken → r.live = true

/-- What an exchange that is not reuse leaves alone, and what it brings. -/
structure Exchange (cfg : Config) (s t : Server) (rawToken : String) (reply : Auth.Call) :
    Prop where
  inv : t.Inv
  notReuse : reply ≠ AfterRevoke.reuseDetected.call
  others : ∀ other, Unspent cfg s other → cfg.hashToken other ≠ cfg.hashToken rawToken →
    Unspent cfg t other
  new : ∀ newRawToken, storedAfter reply = some newRawToken →
    Unspent cfg t newRawToken ∧
      ∀ r ∈ s.log.issued, r.tokenHash ≠ cfg.hashToken newRawToken

/-- **A token that was not spent is not answered as reuse.** -/
theorem exchange_of_unspent {s t : Server} {rawToken : String} {input : Input} (hs : s.Inv)
    (hunspent : Unspent cfg s rawToken)
    (h : serve cfg s (.rotate rawToken, input) = some t) :
    Exchange cfg s t rawToken (s.reply cfg (.rotate rawToken) input) := by
  have hinv : t.Inv := (served_of_serve h).inv hs
  obtain ⟨-, -, htokens, hlog, hfresh⟩ := serve_eq_some h
  have hreply : s.reply cfg (.rotate rawToken) input = (rotate cfg s.tokens rawToken input).2 :=
    rfl
  have hwhole : t.tokens = (rotate cfg s.tokens rawToken input).1 := htokens
  have hrot := rotation cfg s.tokens rawToken input
  simp only [hreply] at hlog hfresh ⊢
  generalize rotate cfg s.tokens rawToken input = result at hrot hwhole hlog hfresh ⊢
  cases hrot with
  | refused message hother hlapsed =>
    have hsame : t.log = s.log := hlog
    refine ⟨hinv, fun heq => hother ?_, fun other ho _ => ?_, fun _ hnew => ?_⟩
    · simpa [AfterRevoke.call] using heq
    · exact ⟨hsame ▸ ho.issued, hwhole ▸ ho.live⟩
    · exact absurd hnew (by simp [storedAfter])
  | reused existing hfind hdead =>
    obtain ⟨hmem, hhash⟩ := findByHash_eq_some hfind
    exact absurd (hunspent.live existing hmem hhash) (by simp [hdead])
  | exchanged existing hfind hlive hexp huser =>
    obtain ⟨hmem, hhash⟩ := findByHash_eq_some hfind
    have hnewFresh := (hfresh (newRow cfg input existing.userId existing.familyId) rfl).1
    have hissue : t.log = s.log.issue (newRow cfg input existing.userId existing.familyId) := hlog
    refine ⟨hinv, by simp [AfterRevoke.call], fun other ho hne => ⟨?_, fun r hr hrhash => ?_⟩,
      fun newRawToken hnew => ?_⟩
    · obtain ⟨r, hr, hrhash⟩ := ho.issued
      exact ⟨r, hissue ▸ Log.grows_issue hnewFresh r hr, hrhash⟩
    · rcases mem_rotated hwhole hr with rfl | rfl | ⟨hold, -⟩
      · rfl
      · exact absurd (hrhash.symm.trans hhash) hne
      · exact ho.live r hold hrhash
    · obtain rfl : input.rawToken = newRawToken := Option.some.inj hnew
      have hmemNew : newRow cfg input existing.userId existing.familyId ∈ t.log.issued := by
        rw [hissue]
        exact Table.mem_put_self _ _
      refine ⟨⟨⟨_, hmemNew, rfl⟩, fun r hr hrhash => ?_⟩, fun r hr => (hnewFresh r hr).2⟩
      rcases mem_rotated hwhole hr with rfl | rfl | ⟨hold, -⟩
      · rfl
      · exact absurd hrhash ((hnewFresh _ (hs.issued existing hmem)).2)
      · exact absurd hrhash ((hnewFresh _ (hs.issued r hold)).2)

/-! ## The invariant -/

/-- An entry of a function with one entry changed. -/
theorem entry_of_update {α : Type} {f : ℕ → α} {i j : ℕ} {x y : α}
    (h : Function.update f i x j = y) : j = i ∧ y = x ∨ j ≠ i ∧ f j = y := by
  by_cases hj : j = i
  · rw [hj, Function.update_self] at h
    exact Or.inl ⟨hj, h.symm⟩
  · rw [Function.update_of_ne hj] at h
    exact Or.inr ⟨hj, h⟩

/-- No request on its way carries the token. -/
def Unposted (cfg : Config) (b : Browser) (rawToken : String) : Prop :=
  ∀ n other, b.requests n = .posted other → cfg.hashToken other ≠ cfg.hashToken rawToken

/-- What holds as long as refreshes do not overlap. -/
structure Browser.Inv (cfg : Config) (b : Browser) : Prop where
  server : b.server.Inv
  noReuse : NoReuse b
  oneTab : ∀ tab tab' n n', b.refreshInFlight tab = some n → b.refreshInFlight tab' = some n' →
    tab = tab'
  posted : ∀ n rawToken, b.requests n = .posted rawToken → Unspent cfg b.server rawToken
  apart : ∀ n n' rawToken rawToken', b.requests n = .posted rawToken →
    b.requests n' = .posted rawToken' → cfg.hashToken rawToken = cfg.hashToken rawToken' → n = n'
  /-- With no refresh under way the stored token can be presented. -/
  stored : ∀ rawToken, b.refresh = some rawToken → (∀ tab, b.refreshInFlight tab = none) →
    Unspent cfg b.server rawToken ∧ Unposted cfg b rawToken
  /-- The token that is about to be stored can be presented. -/
  answered : ∀ tab n rawToken reply newRawToken, b.refreshInFlight tab = some n →
    b.requests n = .answered rawToken reply → storedAfter reply = some newRawToken →
    Unspent cfg b.server newRawToken ∧ Unposted cfg b newRawToken

theorem Browser.inv_start {server : Server} {rawToken : String} (hs : server.Inv)
    (hunspent : Unspent cfg server rawToken) : (Browser.start server rawToken).Inv cfg where
  server := hs
  noReuse _ _ h := absurd h (by simp [Browser.start])
  oneTab _ _ _ _ h := absurd h (by simp [Browser.start])
  posted _ _ h := absurd h (by simp [Browser.start])
  apart _ _ _ _ h := absurd h (by simp [Browser.start])
  stored raw hraw _ := by
    obtain rfl : rawToken = raw := Option.some.inj hraw
    exact ⟨hunspent, fun _ _ h => absurd h (by simp [Browser.start])⟩
  answered _ _ _ _ _ h := absurd h (by simp [Browser.start])

/-- A tab starts a refresh with the stored token. -/
theorem Browser.Inv.start (h : b.Inv cfg) {tab n : ℕ} {rawToken : String}
    (hstored : b.refresh = some rawToken) (hidle : ∀ tab, b.refreshInFlight tab = none)
    (hunsent : b.requests n = .unsent) :
    Browser.Inv cfg { b with
      refreshInFlight := Function.update b.refreshInFlight tab (some n)
      requests := Function.update b.requests n (.posted rawToken) } := by
  obtain ⟨hunspent, hunposted⟩ := h.stored rawToken hstored hidle
  have htab : ∀ tab' n', Function.update b.refreshInFlight tab (some n) tab' = some n' →
      tab' = tab ∧ n' = n := by
    intro tab' n' htab'
    rcases entry_of_update htab' with ⟨rfl, heq⟩ | ⟨-, hold⟩
    · exact ⟨rfl, Option.some.inj heq⟩
    · exact absurd ((hidle tab').symm.trans hold) (by simp)
  refine ⟨h.server, fun n' raw hn' => ?_, fun tab₁ tab₂ n₁ n₂ h₁ h₂ => ?_, fun n' raw hn' => ?_,
    fun n₁ n₂ raw₁ raw₂ h₁ h₂ heq => ?_, fun raw _ hnone => ?_, fun tab' n' raw reply new ht hn' => ?_⟩
  · rcases entry_of_update hn' with ⟨-, heq⟩ | ⟨-, hold⟩
    · exact absurd heq (by simp)
    · exact h.noReuse n' raw hold
  · exact (htab tab₁ n₁ h₁).1.trans (htab tab₂ n₂ h₂).1.symm
  · rcases entry_of_update hn' with ⟨-, heq⟩ | ⟨-, hold⟩
    · obtain rfl : raw = rawToken := by simpa using heq
      exact hunspent
    · exact h.posted n' raw hold
  · rcases entry_of_update h₁ with ⟨hn₁, heq₁⟩ | ⟨-, hold₁⟩ <;>
      rcases entry_of_update h₂ with ⟨hn₂, heq₂⟩ | ⟨-, hold₂⟩
    · rw [hn₁, hn₂]
    · obtain rfl : raw₁ = rawToken := by simpa using heq₁
      exact absurd heq.symm (hunposted n₂ raw₂ hold₂)
    · obtain rfl : raw₂ = rawToken := by simpa using heq₂
      exact absurd heq (hunposted n₁ raw₁ hold₁)
    · exact h.apart n₁ n₂ raw₁ raw₂ hold₁ hold₂ heq
  · exact absurd (hnone tab) (by simp)
  · obtain ⟨-, rfl⟩ := htab tab' n' ht
    rcases entry_of_update hn' with ⟨-, heq⟩ | ⟨hne, -⟩
    · exact absurd heq (by simp)
    · exact absurd rfl hne

/-- A request arrives at the server. -/
theorem Browser.Inv.arrives (h : b.Inv cfg) {n : ℕ} {rawToken : String} {input : Input}
    {server : Server} (hposted : b.requests n = .posted rawToken)
    (hserve : serve cfg b.server (.rotate rawToken, input) = some server) :
    Browser.Inv cfg { b with
      server := server
      requests := Function.update b.requests n
        (.answered rawToken (b.server.reply cfg (.rotate rawToken) input)) } := by
  have hex := exchange_of_unspent h.server (h.posted n rawToken hposted) hserve
  generalize b.server.reply cfg (.rotate rawToken) input = reply at hex ⊢
  have hstill : ∀ n' raw, Function.update b.requests n (.answered rawToken reply) n' = .posted raw →
      n' ≠ n ∧ b.requests n' = .posted raw := by
    intro n' raw hn'
    rcases entry_of_update hn' with ⟨-, heq⟩ | hold
    · exact absurd heq (by simp)
    · exact hold
  have hne : ∀ n' raw, n' ≠ n → b.requests n' = .posted raw →
      cfg.hashToken raw ≠ cfg.hashToken rawToken :=
    fun n' raw hn' hraw heq => hn' (h.apart n' n raw rawToken hraw hposted heq)
  refine ⟨hex.inv, fun n' raw hn' => ?_, h.oneTab, fun n' raw hn' => ?_,
    fun n₁ n₂ raw₁ raw₂ h₁ h₂ heq => ?_, fun raw hraw hnone => ?_,
    fun tab n' raw reply' new ht hn' hnew => ?_⟩
  · rcases entry_of_update hn' with ⟨-, heq⟩ | ⟨-, hold⟩
    · obtain ⟨-, hreply⟩ := RefreshRequest.answered.inj heq
      exact hex.notReuse hreply.symm
    · exact h.noReuse n' raw hold
  · obtain ⟨hn, hold⟩ := hstill n' raw hn'
    exact hex.others raw (h.posted n' raw hold) (hne n' raw hn hold)
  · exact h.apart n₁ n₂ raw₁ raw₂ (hstill n₁ raw₁ h₁).2 (hstill n₂ raw₂ h₂).2 heq
  · obtain ⟨hunspent, hunposted⟩ := h.stored raw hraw hnone
    refine ⟨hex.others raw hunspent (hunposted n rawToken hposted).symm, fun n' other hn' => ?_⟩
    exact hunposted n' other (hstill n' other hn').2
  · rcases entry_of_update hn' with ⟨-, heq⟩ | ⟨-, hold⟩
    · obtain ⟨-, rfl⟩ : raw = rawToken ∧ reply' = reply := by simpa using heq
      obtain ⟨hunspent, hfresh⟩ := hex.new new hnew
      refine ⟨hunspent, fun n'' other hn'' heq' => ?_⟩
      obtain ⟨r, hr, hrhash⟩ := (h.posted n'' other (hstill n'' other hn'').2).issued
      exact hfresh r hr (hrhash.trans heq')
    · obtain ⟨hunspent, hunposted⟩ := h.answered tab n' raw reply' new ht hold hnew
      refine ⟨hex.others new hunspent (hunposted n rawToken hposted).symm, fun n'' other hn'' => ?_⟩
      exact hunposted n'' other (hstill n'' other hn'').2

/-- The refresh of a tab ends, and what is stored then can be presented. -/
theorem Browser.Inv.ends (h : b.Inv cfg) {tab n : ℕ} (htab : b.refreshInFlight tab = some n)
    (refresh : Option String)
    (hrefresh : ∀ rawToken, refresh = some rawToken →
      Unspent cfg b.server rawToken ∧ Unposted cfg b rawToken) :
    Browser.Inv cfg { b with
      refresh := refresh
      refreshInFlight := Function.update b.refreshInFlight tab none } := by
  have hnone : ∀ tab', Function.update b.refreshInFlight tab none tab' = none := by
    intro tab'
    by_cases hne : tab' = tab
    · rw [hne, Function.update_self]
    · rw [Function.update_of_ne hne]
      cases htab' : b.refreshInFlight tab' with
      | none => rfl
      | some n' => exact absurd (h.oneTab tab' tab n' n htab' htab) hne
  refine ⟨h.server, h.noReuse, fun tab₁ _ _ _ h₁ => ?_, h.posted, h.apart,
    fun raw hraw _ => hrefresh raw hraw, fun tab₁ _ _ _ _ h₁ => ?_⟩
  · exact absurd ((hnone tab₁).symm.trans h₁) (by simp)
  · exact absurd ((hnone tab₁).symm.trans h₁) (by simp)

/-- **One event keeps the invariant.** -/
theorem Browser.inv_of_step {e : TabEvent} (h : b.Inv cfg) (hone : OneRefresh b e)
    (hstep : b.step cfg e = some b') : b'.Inv cfg := by
  cases e with
  | unauthorized tab n =>
    unfold Browser.step at hstep
    dsimp only at hstep
    split at hstep
    · rw [← Option.some.inj hstep]
      exact h
    · rw [← Option.some.inj hstep]
      exact h
    · rename_i rawToken hstored htab
      split_ifs at hstep with hunsent
      rw [← Option.some.inj hstep]
      exact h.start hstored (hone (by simp [hstored]) htab) hunsent
  | arrives n input =>
    unfold Browser.step at hstep
    dsimp only at hstep
    split at hstep
    · rename_i rawToken hposted
      obtain ⟨server, hserve, rfl⟩ := Option.map_eq_some_iff.mp hstep
      exact h.arrives hposted hserve
    · exact absurd hstep (by simp)
  | settles tab =>
    unfold Browser.step at hstep
    dsimp only at hstep
    split at hstep
    · exact absurd hstep (by simp)
    · rename_i n htab
      split at hstep
      · rename_i rawToken reply hanswered
        rw [← Option.some.inj hstep]
        exact h.ends htab _ fun new hnew => h.answered tab n rawToken reply new htab hanswered hnew
      · exact absurd hstep (by simp)
  | loses tab =>
    unfold Browser.step at hstep
    dsimp only at hstep
    split at hstep
    · exact absurd hstep (by simp)
    · rename_i n htab
      rw [← Option.some.inj hstep]
      exact h.ends htab none fun _ hnew => absurd hnew (by simp)

/-! ## Runs -/

/-- The token of a login can be presented. -/
theorem unspent_of_login {s t : Server} {userId : Uuid} {input : Input} (hs : s.Inv)
    (h : serve cfg s (.issueForNewSession userId, input) = some t) :
    Unspent cfg t input.rawToken := by
  obtain ⟨-, -, htokens, hlog, hfresh⟩ := serve_eq_some h
  have hnew := (hfresh (newRow cfg input userId input.familyId) rfl).1
  have hput : t.tokens = s.tokens.put (newRow cfg input userId input.familyId) := htokens
  have hissue : t.log = s.log.issue (newRow cfg input userId input.familyId) := hlog
  refine ⟨⟨newRow cfg input userId input.familyId, ?_, rfl⟩, fun r hr hhash => ?_⟩
  · rw [hissue]
    exact Table.mem_put_self _ _
  · rw [hput, Table.mem_put] at hr
    rcases hr with rfl | ⟨hold, -⟩
    · rfl
    · exact absurd hhash (hnew _ (hs.issued r hold)).2

/-- **Refreshes that do not overlap are never answered as reuse.**  Whatever was served
before a login, in every run of the tabs in which no tab starts a refresh while one of
another tab is under way, no refresh request is answered as reuse. -/
theorem no_reuse_of_one_refresh (cfg : Config) (now : ℤ) (before : List (Request × Input))
    (userId : Uuid) (login : Input) (server : Server)
    (hserver : exec (serve cfg) (Server.start now)
      (before ++ [(.issueForNewSession userId, login)]) = some server)
    (events : List TabEvent)
    (h : AllSteps (Browser.step cfg) OneRefresh (Browser.start server login.rawToken) events) :
    AllStates (Browser.step cfg) NoReuse (Browser.start server login.rawToken) events := by
  rw [exec_append] at hserver
  obtain ⟨s, hs, hlast⟩ := Option.bind_eq_some_iff.mp hserver
  obtain ⟨t, hlogin, hdone⟩ := exists_of_exec_cons hlast
  obtain rfl : t = server := Option.some.inj hdone
  have hinv : s.Inv := Server.inv_of_exec hs
  have hstart : (Browser.start t login.rawToken).Inv cfg :=
    Browser.inv_start ((served_of_serve hlogin).inv hinv) (unspent_of_login hinv hlogin)
  have hrun : AllStates (Browser.step cfg) (Browser.Inv cfg) (Browser.start t login.rawToken)
      events :=
    AllStates.of_allSteps (fun _ _ _ hb hone hstep => Browser.inv_of_step hb hone hstep) hstart h
  exact hrun.mono fun b hb => hb.noReuse

/-- The events of one tab alone. -/
def TabEvent.within (tab : ℕ) : TabEvent → Prop
  | .unauthorized tab' _ | .settles tab' | .loses tab' => tab' = tab
  | .arrives _ _ => True

/-- In one tab refreshes do not overlap, because its callers share them. -/
theorem oneRefresh_of_one_tab (tab : ℕ) {b : Browser} {events : List TabEvent}
    (hevents : ∀ e ∈ events, e.within tab)
    (hothers : ∀ tab' ≠ tab, b.refreshInFlight tab' = none) :
    AllSteps (Browser.step cfg) OneRefresh b events := by
  induction events generalizing b with
  | nil => trivial
  | cons e events ih =>
    intro b' hstep
    have hwithin := hevents e List.mem_cons_self
    constructor
    · cases e with
      | unauthorized tab' n =>
        obtain rfl : tab' = tab := hwithin
        intro _ hidle tab''
        by_cases hne : tab'' = tab'
        · rw [hne, hidle]
        · exact hothers tab'' hne
      | arrives | settles | loses => trivial
    · refine ih (fun e he => hevents e (List.mem_cons_of_mem _ he)) fun tab' hne => ?_
      have hkeep : ∀ {n : Option ℕ} {tab''}, tab'' = tab →
          Function.update b.refreshInFlight tab'' n tab' = none := by
        rintro n tab'' rfl
        rw [Function.update_of_ne hne, hothers tab' hne]
      cases e with
      | unauthorized tab'' n =>
        unfold Browser.step at hstep
        dsimp only at hstep
        split at hstep
        · rw [← Option.some.inj hstep]
          exact hothers tab' hne
        · rw [← Option.some.inj hstep]
          exact hothers tab' hne
        · split_ifs at hstep
          rw [← Option.some.inj hstep]
          exact hkeep hwithin
      | arrives n input =>
        unfold Browser.step at hstep
        dsimp only at hstep
        split at hstep
        · obtain ⟨server, -, rfl⟩ := Option.map_eq_some_iff.mp hstep
          exact hothers tab' hne
        · exact absurd hstep (by simp)
      | settles tab'' =>
        unfold Browser.step at hstep
        dsimp only at hstep
        split at hstep
        · exact absurd hstep (by simp)
        · split at hstep
          · rw [← Option.some.inj hstep]
            exact hkeep hwithin
          · exact absurd hstep (by simp)
      | loses tab'' =>
        unfold Browser.step at hstep
        dsimp only at hstep
        split at hstep
        · exact absurd hstep (by simp)
        · rw [← Option.some.inj hstep]
          exact hkeep hwithin

/-! ## Two runs -/

/-- Tokens are stored as they are and live for a second. -/
def tabConfig : Config := ⟨id, 1000, 0⟩

/-- What a login and the exchanges below take from outside. -/
def tabInput (id : Uuid) (rawToken : String) : Input := ⟨id, rawToken, 9, 0, true, 0⟩

/-- The server after one login. -/
def loggedIn : Server :=
  ((serve tabConfig (Server.start 0) (.issueForNewSession 5, tabInput 1 "t0")).getD
    (Server.start 0))

theorem exec_login : exec (serve tabConfig) (Server.start 0)
    ([] ++ [(.issueForNewSession 5, tabInput 1 "t0")]) = some loggedIn := rfl

/-- Two callers of one tab share a refresh. -/
def firstTabRun : List TabEvent :=
  [ .unauthorized 0 0, .unauthorized 0 1, .arrives 0 (tabInput 2 "t1"), .settles 0 ]

/-- Another tab gets its 401 after the new token is stored. -/
def secondTabRun : List TabEvent :=
  [ .unauthorized 1 1, .arrives 1 (tabInput 3 "t2"), .settles 1 ]

theorem no_reuse_of_one_refresh_oneAfterAnother :
    AllStates (Browser.step tabConfig) NoReuse (Browser.start loggedIn "t0")
      (firstTabRun ++ secondTabRun) := by
  refine no_reuse_of_one_refresh tabConfig 0 [] 5 (tabInput 1 "t0") loggedIn exec_login _ ?_
  refine AllSteps.append ?_ fun b hb => ?_
  · refine oneRefresh_of_one_tab 0 (fun e he => ?_) fun _ _ => rfl
    have hcases : e = .unauthorized 0 0 ∨ e = .unauthorized 0 1 ∨
        e = .arrives 0 (tabInput 2 "t1") ∨ e = .settles 0 := by
      simpa [firstTabRun] using he
    rcases hcases with rfl | rfl | rfl | rfl <;> trivial
  · have hflight : (exec (Browser.step tabConfig) (Browser.start loggedIn "t0")
        firstTabRun).map Browser.refreshInFlight =
          some (Function.update (Function.update (fun _ => none) 0 (some 0)) 0 none) := rfl
    have hb' : exec (Browser.step tabConfig) (Browser.start loggedIn "t0") firstTabRun =
        some b := hb
    rw [hb', Option.map_some] at hflight
    refine oneRefresh_of_one_tab 1 (fun e he => ?_) fun tab _ => ?_
    · have hcases : e = .unauthorized 1 1 ∨ e = .arrives 1 (tabInput 3 "t2") ∨
          e = .settles 1 := by
        simpa [secondTabRun] using he
      rcases hcases with rfl | rfl | rfl <;> trivial
    · rw [Option.some.inj hflight, Function.update_idem]
      by_cases htab : tab = 0
      · rw [htab, Function.update_self]
      · rw [Function.update_of_ne htab]

/-- Two tabs get a 401 at the same time, and each refreshes with the token it reads. -/
def twoTabsRun : List TabEvent :=
  [ .unauthorized 0 0, .unauthorized 1 1, .arrives 0 (tabInput 2 "t1"),
    .arrives 1 (tabInput 3 "t2") ]

/-- **Two tabs trip reuse detection.** -/
theorem not_noReuse_twoTabsRun :
    ¬ AllStates (Browser.step tabConfig) NoReuse (Browser.start loggedIn "t0") twoTabsRun := by
  intro h
  have hanswer : (exec (Browser.step tabConfig) (Browser.start loggedIn "t0") twoTabsRun).map
      (fun b => b.requests 1) = some (.answered "t0" AfterRevoke.reuseDetected.call) := by
    decide
  obtain ⟨b, hb, hrequest⟩ := Option.map_eq_some_iff.mp hanswer
  exact h.last hb 1 "t0" hrequest

end Client
end GroupChat

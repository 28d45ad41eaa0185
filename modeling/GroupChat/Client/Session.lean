import GroupChat.Transition.Run
import Mathlib.Data.List.Basic

/-!
# Sessions in one tab

A session begins when a login completes, which stores its tokens, and ends when a
logout completes or a refresh fails, which both clear the store.  Three things go on
at once: requests and their 401 answers, the one refresh they share, and the logins
and logouts themselves.

The refresh is where sessions can meet.  When it succeeds it stores what it got and
sends the waiting requests again, without looking whether the session it was started
in is still the current one.  `sessionsApart_iff` is exact: sessions stay apart in a
run if and only if every refresh that succeeds does so in its own session, with only
requests of that session waiting for it.

Sessions are numbered in the order of the logins.  A pair of tokens carries the
number of the session it was issued to: a login opens a new one, and the server
answers a refresh with tokens of the session whose token was presented.
-/

namespace GroupChat
namespace Client

open Transition

/-! ## The tab -/

/-- A pair of tokens, and the session it was issued to. -/
structure AuthTokens where
  session : ℕ
  accessToken : String
  refreshToken : String
deriving DecidableEq

/-- What a request is for. -/
inductive RequestKind where
  | register
  | login
  | googleLogin
  | logout
  | other
deriving DecidableEq

/-- The answer brings tokens that are stored. -/
def RequestKind.signsIn : RequestKind → Bool
  | .register | .login | .googleLogin => true
  | .logout | .other => false

inductive Phase where
  | sent
  /-- Answered with 401, and waiting for the refresh. -/
  | waiting
  | settled
deriving DecidableEq

/-- A request of the client. -/
structure ApiRequest where
  kind : RequestKind
  /-- The session in which it was first sent. -/
  first : Option ℕ
  phase : Phase
  /-- `_retried`. -/
  retried : Bool
  /-- The tokens whose access token it was sent again with. -/
  resent : Option AuthTokens
deriving DecidableEq

/-- The storage of the tab, its requests by their numbers, and the current session. -/
structure Tab where
  /-- `tokenStore`. -/
  store : Option AuthTokens
  /-- `refreshInFlight`, with the tokens that were stored when it was started. -/
  refreshInFlight : Option AuthTokens
  requests : List ApiRequest
  session : Option ℕ
  /-- How many sessions there have been. -/
  sessions : ℕ
deriving DecidableEq

/-- Nobody is logged in. -/
def Tab.start : Tab := ⟨none, none, [], none, 0⟩

inductive TabStep where
  /-- A request is sent; for a logout, `logout()` is called. -/
  | send (kind : RequestKind)
  /-- A request succeeds; a login brings tokens. -/
  | succeeds (n : ℕ) (accessToken refreshToken : String)
  /-- A request fails otherwise than with 401, or gets no reply. -/
  | fails (n : ℕ)
  /-- A request is answered with 401. -/
  | unauthorized (n : ℕ)
  /-- The refresh brings new tokens. -/
  | refreshed (accessToken refreshToken : String)
  /-- The refresh fails. -/
  | refreshFails
deriving DecidableEq

/-- `tokenStore.clear()`; the session is over. -/
def Tab.clear (t : Tab) : Tab := { t with store := none, session := none }

/-- A request is settled; a logout clears the store, whatever it was answered. -/
def Tab.settle (t : Tab) (n : ℕ) (r : ApiRequest) : Tab :=
  let t := { t with requests := t.requests.set n { r with phase := .settled } }
  if r.kind = .logout then t.clear else t

/-- A waiting request is sent again; the interceptor takes the stored access token. -/
def ApiRequest.resend (tokens : AuthTokens) (r : ApiRequest) : ApiRequest :=
  if r.phase = .waiting then { r with phase := .sent, resent := some tokens } else r

/-- A waiting request is rejected. -/
def ApiRequest.reject (r : ApiRequest) : ApiRequest :=
  if r.phase = .waiting then { r with phase := .settled } else r

/-- One step. -/
def Tab.step (t : Tab) : TabStep → Option Tab
  | .send kind =>
    -- `logout()` with no refresh token sends nothing and clears the store
    if kind = .logout ∧ t.store = none then some t.clear
    else some { t with requests := t.requests ++ [⟨kind, t.session, .sent, false, none⟩] }
  | .succeeds n accessToken refreshToken =>
    match t.requests[n]? with
    | none => none
    | some r =>
      if r.phase ≠ .sent then none
      else if r.kind.signsIn then
        some { t with
          store := some ⟨t.sessions, accessToken, refreshToken⟩
          session := some t.sessions
          sessions := t.sessions + 1
          requests := t.requests.set n { r with phase := .settled } }
      else some (t.settle n r)
  | .fails n =>
    match t.requests[n]? with
    | none => none
    | some r => if r.phase ≠ .sent then none else some (t.settle n r)
  | .unauthorized n =>
    match t.requests[n]? with
    | none => none
    | some r =>
      if r.phase ≠ .sent then none
      else if r.retried then some (t.settle n r)
      else
        match t.store with
        | none => some (t.settle n r)
        | some tokens =>
          some { t with
            refreshInFlight := some (t.refreshInFlight.getD tokens)
            requests := t.requests.set n { r with phase := .waiting, retried := true } }
  | .refreshed accessToken refreshToken =>
    match t.refreshInFlight with
    | none => none
    | some presented =>
      let tokens : AuthTokens := ⟨presented.session, accessToken, refreshToken⟩
      some { t with
        store := some tokens
        refreshInFlight := none
        requests := t.requests.map (ApiRequest.resend tokens) }
  | .refreshFails =>
    match t.refreshInFlight with
    | none => none
    | some _ =>
      some { t.clear with
        refreshInFlight := none
        requests := t.requests.map ApiRequest.reject }

/-! ## Sessions stay apart -/

/-- What it means that sessions do not bleed into each other. -/
structure SessionsApart (t : Tab) : Prop where
  /-- Outside a session no tokens are stored. -/
  loggedOut : t.session = none → t.store = none
  /-- In a session only its own tokens are stored. -/
  ownTokens : ∀ k tokens, t.session = some k → t.store = some tokens → tokens.session = k
  /-- What was first sent in a session is sent again with its own tokens. -/
  ownRequests : ∀ r ∈ t.requests, ∀ k tokens, r.first = some k → r.resent = some tokens →
    tokens.session = k

/-- A refresh succeeds in the session it was started in, and only requests of this
session, or of none, wait for it. -/
def OwnRefresh (t : Tab) : TabStep → Prop
  | .refreshed _ _ => ∀ presented, t.refreshInFlight = some presented →
      t.session = some presented.session ∧
        ∀ r ∈ t.requests, r.phase = .waiting → ∀ k, r.first = some k → k = presented.session
  | _ => True

variable {t t' : Tab}

theorem sessionsApart_start : SessionsApart Tab.start :=
  ⟨fun _ => rfl, fun _ _ h => absurd h (by simp [Tab.start]), fun _ h => absurd h (by simp [Tab.start])⟩

/-- Requests that were not sent again otherwise than before. -/
theorem SessionsApart.withRequests (h : SessionsApart t) {requests : List ApiRequest}
    (hrequests : ∀ r ∈ requests, r.resent = none ∨
      ∃ r' ∈ t.requests, r.first = r'.first ∧ r.resent = r'.resent)
    (flight : Option AuthTokens) :
    SessionsApart { t with requests := requests, refreshInFlight := flight } := by
  refine ⟨h.loggedOut, h.ownTokens, fun r hr k tokens hfirst hresent => ?_⟩
  rcases hrequests r hr with hnone | ⟨r', hr', hsame, heq⟩
  · exact absurd (hnone.symm.trans hresent) (by simp)
  · exact h.ownRequests r' hr' k tokens (hsame.symm.trans hfirst) (heq.symm.trans hresent)

theorem SessionsApart.clear (h : SessionsApart t) : SessionsApart t.clear :=
  ⟨fun _ => rfl, fun _ _ hk => absurd hk (by simp [Tab.clear]), h.ownRequests⟩

/-- One request moves on, and is not sent again by that. -/
theorem mem_set_request {requests : List ApiRequest} {n : ℕ} {r : ApiRequest}
    (new : ApiRequest) (hr : requests[n]? = some r) (hfirst : new.first = r.first)
    (hresent : new.resent = r.resent) :
    ∀ x ∈ requests.set n new, x.resent = none ∨
      ∃ x' ∈ requests, x.first = x'.first ∧ x.resent = x'.resent := by
  intro x hx
  rcases List.mem_or_eq_of_mem_set hx with hold | rfl
  · exact Or.inr ⟨x, hold, rfl, rfl⟩
  · exact Or.inr ⟨r, List.mem_of_getElem? hr, hfirst, hresent⟩

theorem SessionsApart.settle (h : SessionsApart t) {n : ℕ} {r : ApiRequest}
    (hr : t.requests[n]? = some r) : SessionsApart (t.settle n r) := by
  have hset : SessionsApart
      { t with requests := t.requests.set n { r with phase := .settled } } :=
    h.withRequests (mem_set_request { r with phase := .settled } hr rfl rfl) t.refreshInFlight
  unfold Tab.settle
  dsimp only
  split_ifs
  · exact hset.clear
  · exact hset

/-- **A refresh keeps sessions apart exactly if it is one of the current session.** -/
theorem sessionsApart_refreshed_iff (h : SessionsApart t) {presented : AuthTokens}
    (accessToken refreshToken : String) :
    SessionsApart { t with
        store := some ⟨presented.session, accessToken, refreshToken⟩
        refreshInFlight := none
        requests := t.requests.map
          (ApiRequest.resend ⟨presented.session, accessToken, refreshToken⟩) } ↔
      t.session = some presented.session ∧
        ∀ r ∈ t.requests, r.phase = .waiting → ∀ k, r.first = some k → k = presented.session := by
  constructor
  · intro hafter
    constructor
    · cases hsession : t.session with
      | none => exact absurd (hafter.loggedOut hsession) (by simp)
      | some k => rw [hafter.ownTokens k _ hsession rfl]
    · intro r hr hwaiting k hfirst
      have hmem := List.mem_map_of_mem
        (f := ApiRequest.resend ⟨presented.session, accessToken, refreshToken⟩) hr
      have hresend : ApiRequest.resend ⟨presented.session, accessToken, refreshToken⟩ r =
          { r with phase := .sent,
                   resent := some ⟨presented.session, accessToken, refreshToken⟩ } :=
        if_pos hwaiting
      rw [hresend] at hmem
      exact (hafter.ownRequests _ hmem k _ hfirst rfl).symm
  · rintro ⟨hsession, hwaiting⟩
    refine ⟨fun hnone => ?_, fun k tokens hk htokens => ?_, fun r hr k tokens hfirst hresent => ?_⟩
    · exact absurd (hsession.symm.trans hnone) (by simp)
    · rw [← Option.some.inj htokens]
      exact Option.some.inj (hsession.symm.trans hk)
    · obtain ⟨r', hr', rfl⟩ := List.mem_map.mp hr
      unfold ApiRequest.resend at hfirst hresent
      split_ifs at hfirst hresent with hphase
      · rw [← Option.some.inj hresent]
        exact (hwaiting r' hr' hphase k hfirst).symm
      · exact h.ownRequests r' hr' k tokens hfirst hresent

/-- **One step keeps sessions apart exactly if a refresh it completes is its own.** -/
theorem sessionsApart_step_iff (e : TabStep) (h : SessionsApart t) (hstep : t.step e = some t') :
    SessionsApart t' ↔ OwnRefresh t e := by
  cases e with
  | send kind =>
    refine iff_of_true ?_ trivial
    unfold Tab.step at hstep
    dsimp only at hstep
    split_ifs at hstep with hlogout
    · rw [← Option.some.inj hstep]
      exact h.clear
    · rw [← Option.some.inj hstep]
      refine h.withRequests (fun r hr => ?_) t.refreshInFlight
      rcases List.mem_append.mp hr with hold | hnew
      · exact Or.inr ⟨r, hold, rfl, rfl⟩
      · rw [List.mem_singleton.mp hnew]
        exact Or.inl rfl
  | succeeds n accessToken refreshToken =>
    refine iff_of_true ?_ trivial
    unfold Tab.step at hstep
    dsimp only at hstep
    split at hstep
    · exact absurd hstep (by simp)
    · rename_i r hr
      split_ifs at hstep with hphase hsigns
      · rw [← Option.some.inj hstep]
        have hset := h.withRequests
          (mem_set_request { r with phase := .settled } hr rfl rfl) t.refreshInFlight
        refine ⟨fun hnone => absurd hnone (by simp), fun k tokens hk htokens => ?_,
          hset.ownRequests⟩
        rw [← Option.some.inj htokens]
        exact Option.some.inj hk
      · rw [← Option.some.inj hstep]
        exact h.settle hr
  | fails n =>
    refine iff_of_true ?_ trivial
    unfold Tab.step at hstep
    dsimp only at hstep
    split at hstep
    · exact absurd hstep (by simp)
    · rename_i r hr
      split_ifs at hstep with hphase
      rw [← Option.some.inj hstep]
      exact h.settle hr
  | unauthorized n =>
    refine iff_of_true ?_ trivial
    unfold Tab.step at hstep
    dsimp only at hstep
    split at hstep
    · exact absurd hstep (by simp)
    · rename_i r hr
      split_ifs at hstep with hphase hretried
      · rw [← Option.some.inj hstep]
        exact h.settle hr
      · split at hstep
        · rw [← Option.some.inj hstep]
          exact h.settle hr
        · rw [← Option.some.inj hstep]
          exact h.withRequests
            (mem_set_request { r with phase := .waiting, retried := true } hr rfl rfl) _
  | refreshed accessToken refreshToken =>
    unfold Tab.step at hstep
    dsimp only at hstep
    split at hstep
    · exact absurd hstep (by simp)
    · rename_i presented hflight
      rw [← Option.some.inj hstep, sessionsApart_refreshed_iff h]
      constructor
      · intro hown other hother
        obtain rfl : presented = other := Option.some.inj (hflight.symm.trans hother)
        exact hown
      · exact fun hown => hown presented hflight
  | refreshFails =>
    refine iff_of_true ?_ trivial
    unfold Tab.step at hstep
    dsimp only at hstep
    split at hstep
    · exact absurd hstep (by simp)
    · rw [← Option.some.inj hstep]
      refine h.clear.withRequests (fun r hr => ?_) none
      obtain ⟨r', hr', rfl⟩ := List.mem_map.mp hr
      refine Or.inr ⟨r', hr', ?_⟩
      unfold ApiRequest.reject
      split_ifs <;> exact ⟨rfl, rfl⟩

/-- **Sessions stay apart exactly if refreshes keep to theirs.**  In a run of the tab
every state keeps sessions apart if and only if every refresh that succeeds does so in
the session it was started in, with no request of another one waiting for it. -/
theorem sessionsApart_iff (steps : List TabStep) :
    AllStates Tab.step SessionsApart Tab.start steps ↔
      AllSteps Tab.step OwnRefresh Tab.start steps :=
  allStates_iff_allSteps (I := fun _ => True) (fun _ _ _ _ _ => trivial)
    (fun _ e _ _ h hstep => sessionsApart_step_iff e h hstep) trivial sessionsApart_start steps

/-- The refresh of a session is answered after its logout, whose own request got no reply. -/
def lateRefreshRun : List TabStep :=
  [ .send .login, .succeeds 0 "a0" "r0", .send .other, .unauthorized 1, .send .logout,
    .fails 2, .refreshed "a1" "r1" ]

/-- **Tokens come back after a logout.** -/
theorem not_sessionsApart_lateRefreshRun :
    ¬ AllStates Tab.step SessionsApart Tab.start lateRefreshRun := by
  intro h
  have hend : (exec Tab.step Tab.start lateRefreshRun).map (fun t => (t.session, t.store)) =
      some (none, some ⟨0, "a1", "r1"⟩) := by
    decide
  obtain ⟨t, ht, hpair⟩ := Option.map_eq_some_iff.mp hend
  obtain ⟨hsession, hstore⟩ := Prod.mk.inj hpair
  exact absurd ((h.last ht).loggedOut hsession) (by simp [hstore])

end Client
end GroupChat

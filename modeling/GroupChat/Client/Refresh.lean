import GroupChat.Transition.Run
import Mathlib.Algebra.BigOperators.Group.List.Basic
import Mathlib.Algebra.GroupWithZero.Nat

/-!
# One refresh for many requests

A request that is answered with 401 waits for the access token to be refreshed and is then
sent again.  The requests that wait at one time share one refresh, `refreshInFlight`, which
clears itself when it has settled.  A request that was sent again keeps `_retried`, so that its
second 401 ends it.

The model has a step for each thing that runs without interruption: an answer arrives at the
interceptor, the refresh is answered, its `finally` runs, a waiting request goes on.  Answers
come in any order and with any status, and other code may write to the storage at any time.
`storm_settles` is about every schedule of these.
-/

namespace GroupChat
namespace Client
namespace Refresh

open Transition

/-! ## The storage -/

/-- What counts as true of a text that may be absent. -/
def truthy : Option String → Bool
  | none => false
  | some s => s ≠ ""

/-- The tokens an answer carries, each of which may be absent. -/
structure AuthTokens where
  accessToken : Option String
  refreshToken : Option String
deriving DecidableEq

/-- `tokenStore`: the two texts in the storage. -/
structure TokenStore where
  access : Option String
  refresh : Option String
deriving DecidableEq

/-- `tokenStore.set`; an absent value is stored as the text of `undefined`. -/
def TokenStore.set (tokens : AuthTokens) : TokenStore :=
  ⟨some (tokens.accessToken.getD "undefined"), some (tokens.refreshToken.getD "undefined")⟩

/-- `tokenStore.clear` -/
def TokenStore.clear : TokenStore := ⟨none, none⟩

/-! ## Requests -/

/-- A failed call: the how manyth it was of its request, and the status of its answer. -/
structure AxiosError where
  call : ℕ
  status : Option ℕ
deriving DecidableEq

/-- Where a request stands. -/
inductive Phase where
  | onWire
  /-- Answered with an error, and waiting for a refresh. -/
  | awaiting (refresh : ℕ) (error : AxiosError)
  | fulfilled (status : ℕ)
  | rejected (error : AxiosError)
deriving DecidableEq

/-- The promise of the caller is settled. -/
def Phase.isSettled : Phase → Bool
  | .fulfilled _ | .rejected _ => true
  | .onWire | .awaiting _ _ => false

structure Request where
  phase : Phase
  /-- `_retried` -/
  retried : Bool
  /-- The `Authorization` header. -/
  authorization : Option String
  /-- How often it was put on the wire. -/
  calls : ℕ
deriving DecidableEq

def bearer (token : String) : String := "Bearer " ++ token

/-- A request passes the request interceptor and is put on the wire. -/
def Request.transmit (store : TokenStore) (r : Request) : Request :=
  { r with
    phase := .onWire
    authorization := if truthy store.access then store.access.map bearer else r.authorization
    calls := r.calls + 1 }

/-! ## Refreshes -/

/-- Where a refresh stands. -/
inductive RefreshPhase where
  /-- `POST /auth/refresh` is in flight, with the token it sends. -/
  | posted (refreshToken : String)
  /-- `doRefresh` has returned; before its `finally`. -/
  | returned (token : Option String)
  | settled (token : Option String)
deriving DecidableEq

/-- What comes back of a `POST /auth/refresh`. -/
inductive RefreshReply where
  | tokens (data : AuthTokens)
  /-- An error, or an answer from which no tokens can be read. -/
  | failed
deriving DecidableEq

/-- `doRefresh` until it waits. -/
def doRefresh (store : TokenStore) : RefreshPhase :=
  match store.refresh with
  | some refreshToken => if refreshToken = "" then .returned none else .posted refreshToken
  | none => .returned none

/-! ## The client -/

/-- The module in one tab. -/
structure ApiClient where
  store : TokenStore
  refreshInFlight : Option ℕ
  refreshes : List RefreshPhase
  requests : List Request
  /-- How often `AUTH_LOGOUT_EVENT` was dispatched. -/
  logouts : ℕ
deriving DecidableEq

/-- Before any request. -/
def start (store : TokenStore) : ApiClient := ⟨store, none, [], [], 0⟩

/-- `refreshAccessToken`: the refresh to wait for, which is started if there is none. -/
def refreshAccessToken (c : ApiClient) : ApiClient × ℕ :=
  match c.refreshInFlight with
  | some k => (c, k)
  | none =>
    ({ c with
        refreshInFlight := some c.refreshes.length
        refreshes := c.refreshes ++ [doRefresh c.store] }, c.refreshes.length)

def ApiClient.setRequest (c : ApiClient) (n : ℕ) (r : Request) : ApiClient :=
  { c with requests := c.requests.set n r }

/-- The response interceptor on an error, until it waits. -/
def onError (c : ApiClient) (n : ℕ) (r : Request) (error : AxiosError) : ApiClient :=
  if error.status = some 401 ∧ r.retried = false ∧ truthy c.store.refresh = true then
    (refreshAccessToken c).1.setRequest n
      { r with phase := .awaiting (refreshAccessToken c).2 error, retried := true }
  else c.setRequest n { r with phase := .rejected error }

/-- The response interceptor after it has waited. -/
def onRefreshed (c : ApiClient) (n : ℕ) (r : Request) (error : AxiosError)
    (newAccessToken : Option String) : ApiClient :=
  if truthy newAccessToken then
    c.setRequest n
      (Request.transmit c.store { r with authorization := newAccessToken.map bearer })
  else
    { c.setRequest n { r with phase := .rejected error } with logouts := c.logouts + 1 }

inductive Action where
  /-- A request is issued, with the header its caller gave it. -/
  | issue (authorization : Option String)
  /-- A call of a request is answered, or fails without an answer. -/
  | answer (n : ℕ) (status : Option ℕ)
  | refreshAnswer (k : ℕ) (reply : RefreshReply)
  /-- The `finally` of a refresh runs. -/
  | clearFlight (k : ℕ)
  /-- A waiting request goes on. -/
  | resume (n : ℕ)
  /-- Other code writes to the storage. -/
  | write (store : TokenStore)
deriving DecidableEq

/-- An axios call is fulfilled with these statuses. -/
def validateStatus (status : ℕ) : Bool := 200 ≤ status && status < 300

/-- An answer to a call of a request. -/
def answered (c : ApiClient) (n : ℕ) (r : Request) : Option ℕ → ApiClient
  | some status =>
    if validateStatus status then c.setRequest n { r with phase := .fulfilled status }
    else onError c n r ⟨r.calls, some status⟩
  | none => onError c n r ⟨r.calls, none⟩

/-- An answer to a refresh. -/
def refreshAnswered (c : ApiClient) (k : ℕ) : RefreshReply → ApiClient
  | .tokens data =>
    { c with
      store := .set data
      refreshes := c.refreshes.set k (.returned data.accessToken) }
  | .failed => { c with store := .clear, refreshes := c.refreshes.set k (.returned none) }

/-- One step. -/
def step (c : ApiClient) : Action → Option ApiClient
  | .issue authorization =>
    some { c with
      requests := c.requests ++ [Request.transmit c.store ⟨.onWire, false, authorization, 0⟩] }
  | .answer n status =>
    match c.requests[n]? with
    | some r => if r.phase = .onWire then some (answered c n r status) else none
    | none => none
  | .refreshAnswer k reply =>
    match c.refreshes[k]? with
    | some (.posted _) => some (refreshAnswered c k reply)
    | _ => none
  | .clearFlight k =>
    match c.refreshes[k]? with
    | some (.returned token) =>
      some { c with refreshInFlight := none, refreshes := c.refreshes.set k (.settled token) }
    | _ => none
  | .resume n =>
    match c.requests[n]? with
    | some r =>
      match r.phase with
      | .awaiting k error =>
        match c.refreshes[k]? with
        | some (.settled token) => some (onRefreshed c n r error token)
        | _ => none
      | _ => none
    | none => none
  | .write store => some { c with store := store }

/-! ## What a step does -/

/-- What a step does, by what it does to requests and refreshes. -/
inductive Moves (c : ApiClient) : Action → ApiClient → Prop
  | issue (authorization : Option String) :
    Moves c (.issue authorization) { c with
      requests := c.requests ++ [Request.transmit c.store ⟨.onWire, false, authorization, 0⟩] }
  | settle {n : ℕ} {r : Request} {phase : Phase} (status : Option ℕ)
    (hr : c.requests[n]? = some r) (hwire : r.phase = .onWire) (hsettled : phase.isSettled = true) :
    Moves c (.answer n status) (c.setRequest n { r with phase := phase })
  | wait {n k : ℕ} {r : Request} {c' : ApiClient} (hr : c.requests[n]? = some r)
    (hwire : r.phase = .onWire) (hfirst : r.retried = false)
    (hshared : refreshAccessToken c = (c', k)) :
    Moves c (.answer n (some 401)) (c'.setRequest n
      { r with phase := .awaiting k ⟨r.calls, some 401⟩, retried := true })
  | refreshAnswer {k : ℕ} {refreshToken : String} (reply : RefreshReply) (store : TokenStore)
    (token : Option String) (hk : c.refreshes[k]? = some (.posted refreshToken)) :
    Moves c (.refreshAnswer k reply)
      { c with store := store, refreshes := c.refreshes.set k (.returned token) }
  | clearFlight {k : ℕ} {token : Option String} (hk : c.refreshes[k]? = some (.returned token)) :
    Moves c (.clearFlight k)
      { c with refreshInFlight := none, refreshes := c.refreshes.set k (.settled token) }
  | resend {n k : ℕ} {r : Request} {error : AxiosError} {token : Option String}
    (hr : c.requests[n]? = some r) (hphase : r.phase = .awaiting k error)
    (hk : c.refreshes[k]? = some (.settled token)) (htoken : truthy token = true) :
    Moves c (.resume n) (c.setRequest n
      (Request.transmit c.store { r with authorization := token.map bearer }))
  | giveUp {n k : ℕ} {r : Request} {error : AxiosError} {token : Option String}
    (hr : c.requests[n]? = some r) (hphase : r.phase = .awaiting k error)
    (hk : c.refreshes[k]? = some (.settled token)) (htoken : truthy token = false) :
    Moves c (.resume n)
      { c.setRequest n { r with phase := .rejected error } with logouts := c.logouts + 1 }
  | write (store : TokenStore) : Moves c (.write store) { c with store := store }

variable {c d : ApiClient}

theorem moves_of_onError {n : ℕ} {r : Request} {status : Option ℕ}
    (hr : c.requests[n]? = some r) (hwire : r.phase = .onWire) :
    Moves c (.answer n status) (onError c n r ⟨r.calls, status⟩) := by
  unfold onError
  split
  · rename_i h
    obtain ⟨rfl, hfirst, -⟩ := h
    exact Moves.wait hr hwire hfirst rfl
  · have hsettled : (Phase.rejected ⟨r.calls, status⟩).isSettled = true := rfl
    exact Moves.settle status hr hwire hsettled

theorem moves_of_step {a : Action} (h : step c a = some d) : Moves c a d := by
  cases a with
  | issue authorization =>
    rw [← Option.some.inj h]
    exact Moves.issue authorization
  | answer n status =>
    unfold step at h
    dsimp only at h
    split at h
    · rename_i r hr
      split at h
      · rename_i hwire
        rw [← Option.some.inj h]
        cases status with
        | none => exact moves_of_onError hr hwire
        | some status =>
          unfold answered
          dsimp only
          split
          · have hsettled : (Phase.fulfilled status).isSettled = true := rfl
            exact Moves.settle (some status) hr hwire hsettled
          · exact moves_of_onError hr hwire
      · cases h
    · cases h
  | refreshAnswer k reply =>
    unfold step at h
    dsimp only at h
    split at h
    · rename_i refreshToken hk
      rw [← Option.some.inj h]
      cases reply with
      | tokens data => exact Moves.refreshAnswer _ (.set data) data.accessToken hk
      | failed => exact Moves.refreshAnswer _ .clear none hk
    · cases h
  | clearFlight k =>
    unfold step at h
    dsimp only at h
    split at h
    · rename_i token hk
      rw [← Option.some.inj h]
      exact Moves.clearFlight hk
    · cases h
  | resume n =>
    unfold step at h
    dsimp only at h
    split at h
    · rename_i r hr
      split at h
      · rename_i k error hphase
        split at h
        · rename_i token hk
          rw [← Option.some.inj h]
          unfold onRefreshed
          split
          · rename_i htoken
            exact Moves.resend hr hphase hk htoken
          · rename_i htoken
            exact Moves.giveUp hr hphase hk (Bool.eq_false_iff.mpr htoken)
        · cases h
      · cases h
    · cases h
  | write store =>
    rw [← Option.some.inj h]
    exact Moves.write store

/-! ## What every run keeps -/

/-- The refresh has not settled. -/
def RefreshPhase.isPending : RefreshPhase → Bool
  | .posted _ | .returned _ => true
  | .settled _ => false

theorem isPending_doRefresh (store : TokenStore) : (doRefresh store).isPending = true := by
  unfold doRefresh
  split
  · split <;> rfl
  · rfl

/-- The refresh in flight is the one that has not settled. -/
def OneFlight (flight : Option ℕ) (refreshes : List RefreshPhase) : Prop :=
  ∀ k, flight = some k ↔ ∃ p, refreshes[k]? = some p ∧ p.isPending = true

/-- What is known of a request from where it stands, when there have been `count` refreshes. -/
def Request.WellFormed (count : ℕ) (r : Request) : Prop :=
  match r.phase with
  | .onWire => r.calls = if r.retried then 2 else 1
  | .awaiting k error => k < count ∧ error = ⟨1, some 401⟩ ∧ r.calls = 1 ∧ r.retried = true
  | .fulfilled _ | .rejected _ => r.calls ≤ 2

structure Inv (c : ApiClient) : Prop where
  flight : OneFlight c.refreshInFlight c.refreshes
  requests : ∀ r ∈ c.requests, r.WellFormed c.refreshes.length

theorem inv_start (store : TokenStore) : Inv (start store) := by
  constructor
  · intro k
    simp [start]
  · intro r hr
    cases hr

theorem Request.WellFormed.calls_le {count : ℕ} {r : Request} (h : r.WellFormed count) :
    r.calls ≤ 2 := by
  unfold Request.WellFormed at h
  split at h
  · split at h <;> omega
  · omega
  · exact h
  · exact h

theorem Request.WellFormed.of_isSettled {count : ℕ} {r : Request} {phase : Phase}
    (hphase : phase.isSettled = true) (hcalls : r.calls ≤ 2) :
    Request.WellFormed count { r with phase := phase } := by
  cases phase with
  | onWire => cases hphase
  | awaiting k error => cases hphase
  | fulfilled status => exact hcalls
  | rejected error => exact hcalls

theorem Request.WellFormed.onWire {count : ℕ} {r : Request} (h : r.WellFormed count)
    (hphase : r.phase = .onWire) : r.calls = if r.retried then 2 else 1 := by
  unfold Request.WellFormed at h
  rwa [hphase] at h

theorem Request.WellFormed.awaiting {count : ℕ} {r : Request} (h : r.WellFormed count) {k : ℕ}
    {error : AxiosError} (hphase : r.phase = .awaiting k error) :
    k < count ∧ error = ⟨1, some 401⟩ ∧ r.calls = 1 ∧ r.retried = true := by
  unfold Request.WellFormed at h
  rwa [hphase] at h

theorem Request.WellFormed.mono {count count' : ℕ} {r : Request} (h : r.WellFormed count)
    (hcount : count ≤ count') : r.WellFormed count' := by
  unfold Request.WellFormed at h ⊢
  split
  · rename_i hphase
    rwa [hphase] at h
  · rename_i k error hphase
    rw [hphase] at h
    exact ⟨Nat.lt_of_lt_of_le h.1 hcount, h.2⟩
  · rename_i hphase
    rwa [hphase] at h
  · rename_i hphase
    rwa [hphase] at h

/-- Of the requests one has changed, and there may be more refreshes. -/
theorem wellFormed_set {requests : List Request} {count count' n : ℕ} {r : Request}
    (h : ∀ x ∈ requests, x.WellFormed count) (hcount : count ≤ count')
    (hr : r.WellFormed count') : ∀ x ∈ requests.set n r, x.WellFormed count' := by
  intro x hx
  rcases List.mem_or_eq_of_mem_set hx with hx | rfl
  · exact (h x hx).mono hcount
  · exact hr

/-- A refresh goes on. -/
theorem OneFlight.set {flight : Option ℕ} {refreshes : List RefreshPhase} {k : ℕ}
    {p q : RefreshPhase} (h : OneFlight flight refreshes) (hk : refreshes[k]? = some p)
    (hp : p.isPending = true) :
    OneFlight (if q.isPending then flight else none) (refreshes.set k q) := by
  have hflight : flight = some k := (h k).mpr ⟨p, hk, hp⟩
  have hlength : k < refreshes.length := (List.getElem?_eq_some_iff.mp hk).1
  intro j
  by_cases hjk : j = k
  · subst hjk
    rw [List.getElem?_set_self hlength]
    cases hq : q.isPending <;> simp [hflight, hq]
  · rw [List.getElem?_set_ne (Ne.symm hjk), ← h j, hflight]
    have hne : k ≠ j := Ne.symm hjk
    cases hq : q.isPending <;> simp [hne]

/-- **What `refreshAccessToken` does.** -/
theorem refreshAccessToken_spec (h : OneFlight c.refreshInFlight c.refreshes) {c' : ApiClient}
    {k : ℕ} (hshared : refreshAccessToken c = (c', k)) :
    c'.requests = c.requests ∧ k < c'.refreshes.length ∧
      OneFlight c'.refreshInFlight c'.refreshes ∧
      (c'.refreshes = c.refreshes ∨ c'.refreshes = c.refreshes ++ [doRefresh c.store]) := by
  unfold refreshAccessToken at hshared
  split at hshared
  · rename_i k' hk'
    obtain ⟨rfl, rfl⟩ := Prod.mk.inj hshared
    obtain ⟨p, hp, -⟩ := (h k').mp hk'
    exact ⟨rfl, (List.getElem?_eq_some_iff.mp hp).1, h, Or.inl rfl⟩
  · rename_i hnone
    obtain ⟨rfl, rfl⟩ := Prod.mk.inj hshared
    refine ⟨rfl, by simp, fun j => ?_, Or.inr rfl⟩
    constructor
    · intro hj
      rw [← Option.some.inj hj]
      exact ⟨doRefresh c.store, by simp, isPending_doRefresh _⟩
    · rintro ⟨p, hp, hpending⟩
      rcases Nat.lt_trichotomy j c.refreshes.length with hlt | heq | hgt
      · rw [List.getElem?_append_left hlt] at hp
        have hflight := (h j).mpr ⟨p, hp, hpending⟩
        rw [hnone] at hflight
        cases hflight
      · rw [heq]
      · rw [List.getElem?_eq_none (by simp; omega)] at hp
        cases hp

theorem Moves.inv {a : Action} (hinv : Inv c) (h : Moves c a d) : Inv d := by
  cases h with
  | issue authorization =>
    refine ⟨hinv.flight, fun x hx => ?_⟩
    rcases List.mem_append.mp hx with hx | hx
    · exact hinv.requests x hx
    · rw [List.mem_singleton.mp hx]
      rfl
  | settle status hr hwire hsettled =>
    have hwf := hinv.requests _ (List.mem_of_getElem? hr)
    exact ⟨hinv.flight, wellFormed_set hinv.requests (Nat.le_refl _) (.of_isSettled hsettled hwf.calls_le)⟩
  | wait hr hwire hfirst hshared =>
    rename_i n k r c'
    have hwf := hinv.requests _ (List.mem_of_getElem? hr)
    obtain ⟨hrequests, hk, hflight, hrefreshes⟩ := refreshAccessToken_spec hinv.flight hshared
    have hcalls := hwf.onWire hwire
    rw [hfirst] at hcalls
    refine ⟨hflight, ?_⟩
    have hcount : c.refreshes.length ≤ c'.refreshes.length := by
      rcases hrefreshes with heq | heq
      · exact Nat.le_of_eq (congrArg List.length heq).symm
      · rw [heq, List.length_append]
        exact Nat.le_add_right _ _
    unfold ApiClient.setRequest
    rw [hrequests]
    refine wellFormed_set hinv.requests hcount ⟨hk, ?_, hcalls, rfl⟩
    rw [hcalls]
    rfl
  | refreshAnswer reply store token hk =>
    refine ⟨hinv.flight.set (q := .returned token) hk rfl, ?_⟩
    rw [List.length_set]
    exact hinv.requests
  | clearFlight hk =>
    rename_i k token
    refine ⟨hinv.flight.set (q := .settled token) hk rfl, ?_⟩
    rw [List.length_set]
    exact hinv.requests
  | resend hr hphase hk htoken =>
    have hwf := hinv.requests _ (List.mem_of_getElem? hr)
    obtain ⟨-, -, hcalls, hretried⟩ := hwf.awaiting hphase
    refine ⟨hinv.flight, wellFormed_set hinv.requests (Nat.le_refl _) ?_⟩
    show _ + 1 = if _ then 2 else 1
    rw [hcalls, hretried]
    rfl
  | giveUp hr hphase hk htoken =>
    have hwf := hinv.requests _ (List.mem_of_getElem? hr)
    exact ⟨hinv.flight, wellFormed_set hinv.requests (Nat.le_refl _) (.of_isSettled rfl hwf.calls_le)⟩
  | write store => exact ⟨hinv.flight, hinv.requests⟩

theorem inv_of_exec {store : TokenStore} {as : List Action}
    (h : exec step (start store) as = some c) : Inv c :=
  Reach.invariant (fun _ _ _ hinv _ hstep => (moves_of_step hstep).inv hinv) (reach_of_exec h)
    (inv_start store)

/-! ## How long it takes -/

/-- The steps a request can still cause, of its own and of a refresh it may start. -/
def Request.weight (r : Request) : ℕ :=
  match r.phase with
  | .onWire => if r.retried then 1 else 5
  | .awaiting _ _ => 2
  | .fulfilled _ | .rejected _ => 0

/-- The steps a refresh can still cause. -/
def RefreshPhase.weight : RefreshPhase → ℕ
  | .posted _ => 2
  | .returned _ => 1
  | .settled _ => 0

def ApiClient.weight (c : ApiClient) : ℕ :=
  (c.requests.map Request.weight).sum + (c.refreshes.map RefreshPhase.weight).sum

/-- What an action may add. -/
def Action.cost : Action → ℕ
  | .issue _ => 6
  | .write _ => 1
  | .answer _ _ | .refreshAnswer _ _ | .clearFlight _ | .resume _ => 0

theorem sum_map_set {α : Type*} (f : α → ℕ) {xs : List α} {n : ℕ} {x : α} (h : xs[n]? = some x)
    (y : α) : ((xs.set n y).map f).sum + f x = (xs.map f).sum + f y := by
  induction xs generalizing n with
  | nil => cases h
  | cons z xs ih =>
    cases n with
    | zero =>
      rw [List.getElem?_cons_zero] at h
      obtain rfl := Option.some.inj h
      simp only [List.set_cons_zero, List.map_cons, List.sum_cons]
      omega
    | succ n =>
      rw [List.getElem?_cons_succ] at h
      have hrest := ih h
      simp only [List.set_cons_succ, List.map_cons, List.sum_cons]
      omega

theorem weight_of_isSettled (r : Request) {phase : Phase} (h : phase.isSettled = true) :
    Request.weight { r with phase := phase } = 0 := by
  cases phase with
  | onWire => cases h
  | awaiting k error => cases h
  | fulfilled status => rfl
  | rejected error => rfl

theorem weight_of_onWire {r : Request} (h : r.phase = .onWire) : 1 ≤ r.weight := by
  unfold Request.weight
  rw [h]
  dsimp only
  split <;> omega

theorem weight_of_awaiting {r : Request} {k : ℕ} {error : AxiosError}
    (h : r.phase = .awaiting k error) : r.weight = 2 := by
  unfold Request.weight
  rw [h]

theorem weight_doRefresh (store : TokenStore) : (doRefresh store).weight ≤ 2 := by
  unfold doRefresh
  split
  · split
    · exact Nat.le_succ 1
    · exact Nat.le_refl 2
  · exact Nat.le_succ 1

/-- **Every step uses up something.** -/
theorem Moves.weight_lt {a : Action} (hinv : Inv c) (h : Moves c a d) :
    d.weight + 1 ≤ c.weight + a.cost := by
  unfold ApiClient.weight
  cases h with
  | issue authorization =>
    have hnew : (Request.transmit c.store ⟨.onWire, false, authorization, 0⟩).weight = 5 := rfl
    simp only [List.map_append, List.map_singleton, List.sum_append, List.sum_singleton, hnew,
      Action.cost]
    omega
  | settle status hr hwire hsettled =>
    rename_i n r phase
    have hsum := sum_map_set Request.weight hr { r with phase := phase }
    rw [weight_of_isSettled r hsettled] at hsum
    have hold := weight_of_onWire hwire
    unfold ApiClient.setRequest Action.cost
    dsimp only
    omega
  | wait hr hwire hfirst hshared =>
    rename_i n k r c'
    obtain ⟨hrequests, -, -, hrefreshes⟩ := refreshAccessToken_spec hinv.flight hshared
    have hold : r.weight = 5 := by
      unfold Request.weight
      rw [hwire, hfirst]
      rfl
    have hnew : Request.weight
        { r with phase := .awaiting k ⟨r.calls, some 401⟩, retried := true } = 2 := rfl
    have hsum := sum_map_set Request.weight hr
      { r with phase := .awaiting k ⟨r.calls, some 401⟩, retried := true }
    have hstarted : (c'.refreshes.map RefreshPhase.weight).sum ≤
        (c.refreshes.map RefreshPhase.weight).sum + 2 := by
      rcases hrefreshes with heq | heq
      · rw [heq]
        omega
      · have hweight := weight_doRefresh c.store
        rw [heq, List.map_append, List.sum_append, List.map_singleton, List.sum_singleton]
        omega
    unfold ApiClient.setRequest Action.cost
    rw [hrequests]
    dsimp only
    omega
  | refreshAnswer reply store token hk =>
    rename_i k refreshToken
    have hold : (RefreshPhase.posted refreshToken).weight = 2 := rfl
    have hnew : (RefreshPhase.returned token).weight = 1 := rfl
    have hsum := sum_map_set RefreshPhase.weight hk (.returned token)
    unfold Action.cost
    dsimp only
    omega
  | clearFlight hk =>
    rename_i k token
    have hold : (RefreshPhase.returned token).weight = 1 := rfl
    have hnew : (RefreshPhase.settled token).weight = 0 := rfl
    have hsum := sum_map_set RefreshPhase.weight hk (.settled token)
    unfold Action.cost
    dsimp only
    omega
  | resend hr hphase hk htoken =>
    rename_i n k r error token
    have hwf := hinv.requests _ (List.mem_of_getElem? hr)
    obtain ⟨-, -, -, hretried⟩ := hwf.awaiting hphase
    have hnew : (Request.transmit c.store
        { r with authorization := token.map bearer }).weight = 1 := by
      show (if r.retried then 1 else 5) = 1
      rw [hretried]
      rfl
    have hold := weight_of_awaiting hphase
    have hsum := sum_map_set Request.weight hr
      (Request.transmit c.store { r with authorization := token.map bearer })
    unfold ApiClient.setRequest Action.cost
    dsimp only
    omega
  | giveUp hr hphase hk htoken =>
    rename_i n k r error token
    have hsum := sum_map_set Request.weight hr { r with phase := .rejected error }
    have hnew : Request.weight { r with phase := .rejected error } = 0 := rfl
    have hold := weight_of_awaiting hphase
    unfold ApiClient.setRequest Action.cost
    dsimp only
    omega
  | write store =>
    unfold Action.cost
    dsimp only
    omega

def Action.isIssue : Action → Bool
  | .issue _ => true
  | _ => false

def Action.isWrite : Action → Bool
  | .write _ => true
  | _ => false

theorem sum_cost (as : List Action) :
    (as.map Action.cost).sum = 6 * as.countP Action.isIssue + as.countP Action.isWrite := by
  induction as with
  | nil => rfl
  | cons a as ih =>
    rw [List.map_cons, List.sum_cons, List.countP_cons, List.countP_cons, ih]
    cases a <;> simp [Action.cost, Action.isIssue, Action.isWrite] <;> omega

/-- **A schedule is bounded by what is put into it.** -/
theorem length_le_of_exec {store : TokenStore} {as : List Action}
    (h : exec step (start store) as = some c) :
    as.length ≤ 6 * as.countP Action.isIssue + as.countP Action.isWrite := by
  have hstep : ∀ (as : List Action) (a : Action) (c d : ApiClient),
      Inv c ∧ as.length + c.weight ≤ (as.map Action.cost).sum → step c a = some d →
        Inv d ∧ (as ++ [a]).length + d.weight ≤ ((as ++ [a]).map Action.cost).sum := by
    rintro as a c d ⟨hinv, hle⟩ hcd
    have hmoves := moves_of_step hcd
    have hlt := hmoves.weight_lt hinv
    refine ⟨hmoves.inv hinv, ?_⟩
    rw [List.length_append, List.length_singleton, List.map_append, List.sum_append,
      List.map_singleton, List.sum_singleton]
    omega
  have hstart : Inv (start store) ∧
      ([] : List Action).length + (start store).weight ≤ (([] : List Action).map Action.cost).sum :=
    ⟨inv_start store, Nat.le_refl 0⟩
  have hbound := (of_exec_append hstep hstart h).2
  rw [List.nil_append, sum_cost] at hbound
  omega

/-! ## What becomes of a waiting request -/

/-- What stands in a list of which one entry is replaced. -/
theorem getElem?_set_cases {α : Type*} {xs : List α} {m n : ℕ} {x y : α} (hm : xs[m]? = some x)
    (hn : xs[n]? = some y) (z : α) :
    (xs.set m z)[n]? = some y ∨ x = y ∧ (xs.set m z)[n]? = some z := by
  by_cases hmn : m = n
  · subst hmn
    have hlength : m < xs.length := (List.getElem?_eq_some_iff.mp hm).1
    exact Or.inr ⟨Option.some.inj (hm.symm.trans hn), List.getElem?_set_self hlength⟩
  · rw [List.getElem?_set_ne hmn]
    exact Or.inl hn

/-- **What a step makes of a request.** -/
theorem Moves.getElem?_requests {a : Action} (hinv : Inv c) (h : Moves c a d) {n : ℕ} {r : Request}
    (hr : c.requests[n]? = some r) :
    ∃ r', d.requests[n]? = some r' ∧
      (r' = r ∨ r.phase = .onWire ∧ r'.calls = r.calls ∨
        ∃ k error token, r.phase = .awaiting k error ∧
          c.refreshes[k]? = some (.settled token) ∧
          if truthy token then r'.calls = r.calls + 1 else r'.phase = .rejected error) := by
  cases h with
  | issue authorization =>
    refine ⟨r, ?_, Or.inl rfl⟩
    rw [List.getElem?_append_left (List.getElem?_eq_some_iff.mp hr).1]
    exact hr
  | settle status hm hwire hsettled =>
    rcases getElem?_set_cases hm hr _ with hother | ⟨rfl, hself⟩
    · exact ⟨r, hother, Or.inl rfl⟩
    · exact ⟨_, hself, Or.inr (Or.inl ⟨hwire, rfl⟩)⟩
  | wait hm hwire hfirst hshared =>
    have hrequests := (refreshAccessToken_spec hinv.flight hshared).1
    unfold ApiClient.setRequest
    rw [hrequests]
    rcases getElem?_set_cases hm hr _ with hother | ⟨rfl, hself⟩
    · exact ⟨r, hother, Or.inl rfl⟩
    · exact ⟨_, hself, Or.inr (Or.inl ⟨hwire, rfl⟩)⟩
  | refreshAnswer reply store token hk => exact ⟨r, hr, Or.inl rfl⟩
  | clearFlight hk => exact ⟨r, hr, Or.inl rfl⟩
  | resend hm hphase hk htoken =>
    rcases getElem?_set_cases hm hr _ with hother | ⟨rfl, hself⟩
    · exact ⟨r, hother, Or.inl rfl⟩
    · refine ⟨_, hself, Or.inr (Or.inr ⟨_, _, _, hphase, hk, ?_⟩)⟩
      rw [if_pos htoken]
      rfl
  | giveUp hm hphase hk htoken =>
    rcases getElem?_set_cases hm hr _ with hother | ⟨rfl, hself⟩
    · exact ⟨r, hother, Or.inl rfl⟩
    · refine ⟨_, hself, Or.inr (Or.inr ⟨_, _, _, hphase, hk, ?_⟩)⟩
      rw [if_neg (by simp [htoken])]
  | write store => exact ⟨r, hr, Or.inl rfl⟩

/-- A refresh that has settled stays so. -/
theorem Moves.getElem?_refreshes {a : Action} (hinv : Inv c) (h : Moves c a d) {k : ℕ}
    {token : Option String} (hk : c.refreshes[k]? = some (.settled token)) :
    d.refreshes[k]? = some (.settled token) := by
  have hset : ∀ (j : ℕ) (p q : RefreshPhase), c.refreshes[j]? = some p → p.isPending = true →
      (c.refreshes.set j q)[k]? = some (.settled token) := by
    intro j p q hj hpending
    rcases getElem?_set_cases hj hk q with hother | ⟨rfl, -⟩
    · exact hother
    · cases hpending
  cases h with
  | wait hm hwire hfirst hshared =>
    obtain ⟨-, -, -, hrefreshes⟩ := refreshAccessToken_spec hinv.flight hshared
    unfold ApiClient.setRequest
    rcases hrefreshes with heq | heq
    · rw [heq, hk]
    · rw [heq, List.getElem?_append_left (List.getElem?_eq_some_iff.mp hk).1, hk]
  | refreshAnswer reply store token' hj => exact hset _ _ _ hj rfl
  | clearFlight hj => exact hset _ _ _ hj rfl
  | issue authorization => exact hk
  | settle status hm hwire hsettled => exact hk
  | resend hm hphase hj htoken => exact hk
  | giveUp hm hphase hj htoken => exact hk
  | write store => exact hk

/-- What became of the `n`-th request, which waited as `r` for the `k`-th refresh: it still
does, or it went on as the refresh ended. -/
def WaitedFor (k n : ℕ) (r : Request) (c : ApiClient) : Prop :=
  ∃ r', c.requests[n]? = some r' ∧
    (r' = r ∨ ∃ token, c.refreshes[k]? = some (.settled token) ∧
      if truthy token then r'.calls = 2 else r'.phase = .rejected ⟨1, some 401⟩)

theorem Moves.waitedFor {a : Action} (hinv : Inv c) (h : Moves c a d) {k n : ℕ} {r : Request}
    {error : AxiosError} (hphase : r.phase = .awaiting k error) (hwaited : WaitedFor k n r c) :
    WaitedFor k n r d := by
  obtain ⟨r₁, hr₁, hcase⟩ := hwaited
  have hwf := hinv.requests r₁ (List.mem_of_getElem? hr₁)
  obtain ⟨r₂, hr₂, hmoved⟩ := h.getElem?_requests hinv hr₁
  refine ⟨r₂, hr₂, ?_⟩
  rcases hcase with rfl | ⟨token, hk, hdone⟩
  · -- it waits: only the end of its refresh moves it
    obtain ⟨-, rfl, hcalls, -⟩ := hwf.awaiting hphase
    rcases hmoved with rfl | ⟨hwire, -⟩ | ⟨k', error', token, hphase', hk, hdone⟩
    · exact Or.inl rfl
    · rw [hphase] at hwire
      cases hwire
    · obtain ⟨rfl, rfl⟩ := Phase.awaiting.inj (hphase.symm.trans hphase')
      rw [hcalls] at hdone
      exact Or.inr ⟨token, h.getElem?_refreshes hinv hk, hdone⟩
  · -- it went on: its second call is its last, and a rejection is final
    refine Or.inr ⟨token, h.getElem?_refreshes hinv hk, ?_⟩
    rcases hmoved with rfl | ⟨hwire, hcalls⟩ | ⟨k', error', token', hphase', -, -⟩
    · exact hdone
    · split at hdone
      · rename_i htoken
        rw [if_pos htoken, hcalls]
        exact hdone
      · rw [hdone] at hwire
        cases hwire
    · obtain ⟨-, -, hcalls, -⟩ := hwf.awaiting hphase'
      split at hdone
      · omega
      · rw [hdone] at hphase'
        cases hphase'

/-! ## The storm ends -/

/-- What a schedule has come to. -/
structure Settles (store : TokenStore) (as : List Action) (c : ApiClient) : Prop where
  /-- A request is put on the wire at most twice. -/
  twice : ∀ r ∈ c.requests, r.calls ≤ 2
  /-- At most one `POST /auth/refresh` is in flight. -/
  oneFlight : ∀ (j k : ℕ) (s t : String), c.refreshes[j]? = some (.posted s) →
    c.refreshes[k]? = some (.posted t) → j = k
  /-- A refresh is only ever started by the 401 to the first call of a request. -/
  cause : ∀ a d, step c a = some d → d.refreshes.length ≠ c.refreshes.length →
    ∃ n r, a = .answer n (some 401) ∧ c.requests[n]? = some r ∧ r.phase = .onWire ∧ r.calls = 1
  /-- Who waited is sent again if the refresh brought a token, and rejected with its own 401
  if it did not. -/
  waiters : ∀ before after u n r k error, as = before ++ after →
    exec step (start store) before = some u → u.requests[n]? = some r →
      r.phase = .awaiting k error → WaitedFor k n r c
  /-- When everything on the wire is answered and nothing is left to run, all requests are
  settled. -/
  quiet : (∀ r ∈ c.requests, r.phase ≠ .onWire) → (∀ t, .posted t ∉ c.refreshes) →
    (∀ k, step c (.clearFlight k) = none) → (∀ n, step c (.resume n) = none) →
      ∀ r ∈ c.requests, r.phase.isSettled = true
  /-- And it comes to that: there are no more steps than the requests allow. -/
  bounded : as.length ≤ 6 * as.countP Action.isIssue + as.countP Action.isWrite

theorem Moves.cause {a : Action} (hinv : Inv c) (h : Moves c a d)
    (hstarted : d.refreshes.length ≠ c.refreshes.length) :
    ∃ n r, a = .answer n (some 401) ∧ c.requests[n]? = some r ∧ r.phase = .onWire ∧
      r.calls = 1 := by
  cases h with
  | wait hr hwire hfirst hshared =>
    have hcalls := (hinv.requests _ (List.mem_of_getElem? hr)).onWire hwire
    rw [hfirst] at hcalls
    exact ⟨_, _, rfl, hr, hwire, hcalls⟩
  | refreshAnswer reply store token hk => exact absurd List.length_set hstarted
  | clearFlight hk => exact absurd List.length_set hstarted
  | issue authorization => exact absurd rfl hstarted
  | settle status hr hwire hsettled => exact absurd rfl hstarted
  | resend hr hphase hk htoken => exact absurd rfl hstarted
  | giveUp hr hphase hk htoken => exact absurd rfl hstarted
  | write store => exact absurd rfl hstarted

/-- A request that waits can go on, or its refresh can. -/
theorem isSettled_of_quiet (hinv : Inv c) (hwire : ∀ r ∈ c.requests, r.phase ≠ .onWire)
    (hposted : ∀ t, .posted t ∉ c.refreshes) (hclear : ∀ k, step c (.clearFlight k) = none)
    (hresume : ∀ n, step c (.resume n) = none) {r : Request} (hr : r ∈ c.requests) :
    r.phase.isSettled = true := by
  cases hphase : r.phase with
  | onWire => exact absurd hphase (hwire r hr)
  | fulfilled status => rfl
  | rejected error => rfl
  | awaiting k error =>
    obtain ⟨hk, -⟩ := (hinv.requests r hr).awaiting hphase
    obtain ⟨n, hn⟩ := List.mem_iff_getElem?.mp hr
    have hget := List.getElem?_eq_getElem hk
    cases hrefresh : c.refreshes[k] with
    | posted t => exact absurd (List.getElem_mem hk) (hrefresh ▸ hposted t)
    | returned token =>
      have hstep := hclear k
      unfold step at hstep
      simp only [hget, hrefresh] at hstep
      cases hstep
    | settled token =>
      have hstep := hresume n
      unfold step at hstep
      simp only [hn, hphase, hget, hrefresh] at hstep
      cases hstep

/-- **A storm of 401s ends**, in every schedule. -/
theorem storm_settles (store : TokenStore) (as : List Action)
    (h : exec step (start store) as = some c) : Settles store as c := by
  have hinv := inv_of_exec h
  constructor
  case twice => exact fun r hr => (hinv.requests r hr).calls_le
  case oneFlight =>
    intro j k s t hj hk
    have hflight := (hinv.flight j).mpr ⟨_, hj, rfl⟩
    exact Option.some.inj (hflight.symm.trans ((hinv.flight k).mpr ⟨_, hk, rfl⟩))
  case cause => exact fun a d hstep hstarted => (moves_of_step hstep).cause hinv hstarted
  case waiters =>
    intro before after u n r k error has hu hr hphase
    rw [has, exec_append, hu, Option.bind_some] at h
    have hkept : ∀ c a d, Inv c ∧ WaitedFor k n r c → Free c a → step c a = some d →
        Inv d ∧ WaitedFor k n r d := by
      rintro c a d ⟨hc, hwaited⟩ - hstep
      have hmoves := moves_of_step hstep
      exact ⟨hmoves.inv hc, hmoves.waitedFor hc hphase hwaited⟩
    exact (Reach.invariant hkept (reach_of_exec h) ⟨inv_of_exec hu, r, hr, Or.inl rfl⟩).2
  case quiet =>
    exact fun hwire hposted hclear hresume r hr =>
      isSettled_of_quiet hinv hwire hposted hclear hresume hr
  case bounded => exact length_le_of_exec h

/-- Two requests share a refresh, and one of them is refused again. -/
def twoRefusals : List Action :=
  [ .issue none, .issue none, .answer 1 (some 401), .answer 0 (some 401),
    .refreshAnswer 0 (.tokens ⟨some "b", some "s"⟩), .clearFlight 0, .resume 1, .resume 0,
    .answer 0 (some 401), .answer 1 (some 200) ]

theorem storm_settles_twoRefusals :
    ∃ c, exec step (start ⟨some "a", some "r"⟩) twoRefusals = some c ∧
      Settles ⟨some "a", some "r"⟩ twoRefusals c := by
  have hruns : (exec step (start ⟨some "a", some "r"⟩) twoRefusals).isSome = true := by decide
  obtain ⟨c, hc⟩ := Option.isSome_iff_exists.mp hruns
  exact ⟨c, hc, storm_settles ⟨some "a", some "r"⟩ twoRefusals hc⟩

end Refresh
end Client
end GroupChat

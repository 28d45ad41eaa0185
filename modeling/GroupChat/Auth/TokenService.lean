import GroupChat.Common.Exception
import GroupChat.Database.Column
import GroupChat.Database.System
import GroupChat.Transition.Run

/-!
# Refresh tokens

A refresh token is a row with the hash of the token, and the rows that replace one
another form a family.  `rotate` looks the presented token up, and in one
transaction claims its row, by an update that only matches while `revokedAt` is
null, and inserts the replacement.  A revoked row that is presented again, or a
claim that comes too late, revokes the whole family; so does `revokeByToken`.
`purgeExpired` deletes rows that expired long ago.

Revoking a family and purging are statements over many rows.  Under READ COMMITTED
such a statement fixes the rows it will visit when it starts, waits for the lock of
each, and looks at its condition again on the row as it is then.  So it has three
kinds of steps here: the start, one step for each row, and the commit.  A row
inserted after the start is not visited.
-/

namespace GroupChat
namespace Auth

open Common Database

/-- A row of the refresh-token table.  Times are in milliseconds. -/
structure RefreshToken where
  id : Uuid
  userId : Uuid
  tokenHash : String
  familyId : Uuid
  expiresAt : ℤ
  /-- Null while the token can still be used. -/
  revokedAt : Option ℤ
  createdAt : ℤ
deriving DecidableEq

/-- What the service is configured with. -/
structure Config where
  hashToken : String → String
  refreshTtlMs : ℤ
  purgeGraceMs : ℤ

abbrev Tokens := Table RefreshToken.id

/-- The token has been neither consumed nor revoked. -/
def RefreshToken.live (r : RefreshToken) : Bool := r.revokedAt.isNone

/-- The row as it was inserted. -/
def RefreshToken.asIssued (r : RefreshToken) : RefreshToken := { r with revokedAt := none }

/-- The row with `revokedAt` set. -/
def RefreshToken.revoke (r : RefreshToken) (now : ℤ) : RefreshToken :=
  { r with revokedAt := some now }

@[simp] theorem RefreshToken.revoke_id (r : RefreshToken) (now : ℤ) : (r.revoke now).id = r.id :=
  rfl

@[simp] theorem RefreshToken.live_revoke (r : RefreshToken) (now : ℤ) :
    (r.revoke now).live = false := rfl

@[simp] theorem RefreshToken.asIssued_revoke (r : RefreshToken) (now : ℤ) :
    (r.revoke now).asIssued = r.asIssued := rfl

@[simp] theorem RefreshToken.asIssued_id (r : RefreshToken) : r.asIssued.id = r.id := rfl

/-- What a row keeps of what it was issued as. -/
theorem RefreshToken.fields_eq {r r' : RefreshToken} (h : r.asIssued = r'.asIssued) :
    r.id = r'.id ∧ r.userId = r'.userId ∧ r.tokenHash = r'.tokenHash ∧
      r.familyId = r'.familyId ∧ r.expiresAt = r'.expiresAt := by
  simp only [RefreshToken.asIssued, RefreshToken.mk.injEq] at h
  exact ⟨h.1, h.2.1, h.2.2.1, h.2.2.2.1, h.2.2.2.2.1⟩

theorem RefreshToken.asIssued_of_live {r : RefreshToken} (h : r.live = true) :
    r.asIssued = r := by
  cases r with
  | mk id userId tokenHash familyId expiresAt revokedAt createdAt =>
    have hnone : revokedAt = none := by simpa [RefreshToken.live] using h
    rw [hnone]
    rfl

/-- `refreshToken.findUnique` by hash. -/
def findByHash (t : Tokens) (tokenHash : String) : Option RefreshToken :=
  t.rows.find? fun r => r.tokenHash = tokenHash

theorem findByHash_eq_some {t : Tokens} {tokenHash : String} {r : RefreshToken}
    (h : findByHash t tokenHash = some r) : r ∈ t ∧ r.tokenHash = tokenHash :=
  ⟨List.mem_of_find?_eq_some h, by simpa using List.find?_some h⟩

/-! ## Calls -/

inductive Request where
  | issueForNewSession (userId : Uuid)
  | rotate (rawToken : String)
  | revokeByToken (rawToken : String)
  | purgeExpired
deriving DecidableEq

/-- What follows a family's revocation. -/
inductive AfterRevoke where
  | loggedOut
  | reuseDetected
deriving DecidableEq

/-- Where a call stands. -/
inductive Call where
  | idle
  /-- `issueForNewSession`, before the insert. -/
  | issuing (userId : Uuid)
  /-- `rotate`, before the lookup by hash. -/
  | rotating (rawToken : String)
  /-- Before the lookup of the user. -/
  | findingUser (rawToken : String) (existing : RefreshToken)
  /-- In the transaction, before the claim. -/
  | claiming (rawToken : String) (existing : RefreshToken)
  /-- Before the insert of the replacement. -/
  | reissuing (rawToken : String) (existing : RefreshToken)
  /-- Before the commit. -/
  | committing (rawToken : String) (existing new : RefreshToken) (newRawToken : String)
  /-- `revokeByToken`, before the lookup. -/
  | loggingOut (rawToken : String)
  /-- `revokeFamily`, before its statement starts. -/
  | revokingFamily (familyId : Uuid) (after : AfterRevoke)
  /-- `revokeFamily` under way, with the rows it has still to visit. -/
  | revoking (familyId : Uuid) (ids : List Uuid) (after : AfterRevoke)
  /-- `purgeExpired`, before its statement starts. -/
  | purgingExpired
  /-- `purgeExpired` under way, with the rows it has still to visit. -/
  | purging (cutoff : ℤ) (ids : List Uuid) (count : ℕ)
  /-- A token for a new session was returned. -/
  | issued (rawToken : String)
  /-- A new pair was returned for the presented token. -/
  | rotated (rawToken : String) (existing : RefreshToken) (newRawToken : String)
  | loggedOut
  | purged (count : ℕ)
  | thrown (e : Exception)
deriving DecidableEq

def Request.start : Request → Call
  | .issueForNewSession userId => .issuing userId
  | .rotate rawToken => .rotating rawToken
  | .revokeByToken rawToken => .loggingOut rawToken
  | .purgeExpired => .purgingExpired

def AfterRevoke.call : AfterRevoke → Call
  | .loggedOut => .loggedOut
  | .reuseDetected => .thrown (.unauthorized "Refresh token reuse detected")

/-- The call still has statements to run, the commit included. -/
def Call.running : Call → Bool
  | .idle | .issued _ | .rotated _ _ _ | .loggedOut | .purged _ | .thrown _ => false
  | _ => true

/-! ## Statements -/

/-- Every row ever inserted, as it was inserted; the families whose revocation has
committed; and for each call those that had when the call was made. -/
structure Log where
  issued : Table RefreshToken.id
  revoked : List Uuid
  atStart : ℕ → List Uuid

abbrev State := System RefreshToken.id Call Log

/-- Before any call, with no tokens. -/
def start : State :=
  ⟨Store.ofTable Table.empty, fun _ => .idle, ⟨Table.empty, [], fun _ => []⟩⟩

/-- What a statement takes from outside: the id, the token and, for a new session,
the family it generates, what the clock says, whether the user still exists, and
which row a statement over many visits next. -/
structure Input where
  id : Uuid
  rawToken : String
  familyId : Uuid
  now : ℤ
  userExists : Bool
  visit : Uuid
deriving DecidableEq

/-- The row `refreshToken.create` inserts. -/
def newRow (cfg : Config) (input : Input) (userId familyId : Uuid) : RefreshToken where
  id := input.id
  userId := userId
  tokenHash := cfg.hashToken input.rawToken
  familyId := familyId
  expiresAt := input.now + cfg.refreshTtlMs
  revokedAt := none
  createdAt := input.now

/-- The generated id and the hash of the generated token have not been used. -/
def FreshToken (log : Log) (r : RefreshToken) : Prop :=
  ∀ r' ∈ log.issued.rows, r'.id ≠ r.id ∧ r'.tokenHash ≠ r.tokenHash

/-- The generated family has not been used. -/
def FreshFamily (log : Log) (familyId : Uuid) : Prop :=
  ∀ r' ∈ log.issued.rows, r'.familyId ≠ familyId

instance (log : Log) (r : RefreshToken) : Decidable (FreshToken log r) :=
  inferInstanceAs (Decidable (∀ r' ∈ log.issued.rows, r'.id ≠ r.id ∧ r'.tokenHash ≠ r.tokenHash))

instance (log : Log) (familyId : Uuid) : Decidable (FreshFamily log familyId) :=
  inferInstanceAs (Decidable (∀ r' ∈ log.issued.rows, r'.familyId ≠ familyId))

def Log.issue (log : Log) (r : RefreshToken) : Log := { log with issued := log.issued.put r }

/-- The live rows of a family, which is what `revokeFamily` sets out to visit. -/
def liveIds (t : Tokens) (familyId : Uuid) : List Uuid :=
  (t.rows.filter fun r => r.familyId = familyId ∧ r.live).map RefreshToken.id

/-- The rows that expired before the cutoff. -/
def expiredIds (t : Tokens) (cutoff : ℤ) : List Uuid :=
  (t.rows.filter fun r => r.expiresAt < cutoff).map RefreshToken.id

/-- The next statement of a call, given where the call stands and what its
transaction sees.  `none` means that it has to wait, or that a generated value is
not a fresh one. -/
def statement (cfg : Config) (s : State) (c : ℕ) (input : Input) :
    Option (Effect RefreshToken Uuid Call × Log) :=
  let view := s.store.view c
  match s.calls c with
  -- issueForNewSession
  | .issuing userId =>
    if FreshToken s.aux (newRow cfg input userId input.familyId) ∧
        FreshFamily s.aux input.familyId then
      some (.autocommit [.put (newRow cfg input userId input.familyId)] (.issued input.rawToken),
        s.aux.issue (newRow cfg input userId input.familyId))
    else none
  -- rotate
  | .rotating rawToken =>
    match findByHash view (cfg.hashToken rawToken) with
    | none => some (.goto (.thrown (.unauthorized "Invalid refresh token")), s.aux)
    | some existing =>
      if existing.live = false then
        some (.goto (.revokingFamily existing.familyId .reuseDetected), s.aux)
      else if existing.expiresAt ≤ input.now then
        some (.goto (.thrown (.unauthorized "Refresh token expired")), s.aux)
      else some (.goto (.findingUser rawToken existing), s.aux)
  | .findingUser rawToken existing =>
    if input.userExists then some (.goto (.claiming rawToken existing), s.aux)
    else some (.goto (.thrown (.unauthorized "Invalid refresh token")), s.aux)
  | .claiming rawToken existing =>
    if s.store.LockedByOther c existing.id then none
    else match view.find? existing.id with
      | none => some (.goto (.revokingFamily existing.familyId .reuseDetected), s.aux)
      | some r =>
        if r.live then
          some (.write [.put (r.revoke input.now)] (.reissuing rawToken existing), s.aux)
        else some (.goto (.revokingFamily existing.familyId .reuseDetected), s.aux)
  | .reissuing rawToken existing =>
    if FreshToken s.aux (newRow cfg input existing.userId existing.familyId) then
      some (.write [.put (newRow cfg input existing.userId existing.familyId)]
          (.committing rawToken existing (newRow cfg input existing.userId existing.familyId)
            input.rawToken),
        s.aux.issue (newRow cfg input existing.userId existing.familyId))
    else none
  -- revokeByToken
  | .loggingOut rawToken =>
    match findByHash view (cfg.hashToken rawToken) with
    | none => some (.goto .loggedOut, s.aux)
    | some existing => some (.goto (.revokingFamily existing.familyId .loggedOut), s.aux)
  -- revokeFamily
  | .revokingFamily familyId after =>
    some (.goto (.revoking familyId (liveIds view familyId) after), s.aux)
  | .revoking familyId ids after =>
    if input.visit ∉ ids ∨ s.store.LockedByOther c input.visit then none
    else match view.find? input.visit with
      | none => some (.goto (.revoking familyId (ids.erase input.visit) after), s.aux)
      | some r =>
        if r.familyId = familyId ∧ r.live then
          some (.write [.put (r.revoke input.now)]
            (.revoking familyId (ids.erase input.visit) after), s.aux)
        else some (.goto (.revoking familyId (ids.erase input.visit) after), s.aux)
  -- purgeExpired
  | .purgingExpired =>
    some (.goto (.purging (input.now - cfg.purgeGraceMs)
      (expiredIds view (input.now - cfg.purgeGraceMs)) 0), s.aux)
  | .purging cutoff ids count =>
    if input.visit ∉ ids ∨ s.store.LockedByOther c input.visit then none
    else match view.find? input.visit with
      | none => some (.goto (.purging cutoff (ids.erase input.visit) count), s.aux)
      | some r =>
        if r.expiresAt < cutoff then
          some (.write [.remove input.visit]
            (.purging cutoff (ids.erase input.visit) (count + 1)), s.aux)
        else some (.goto (.purging cutoff (ids.erase input.visit) count), s.aux)
  | _ => none

/-- **What a statement can come to.** -/
inductive Ran (cfg : Config) (s : State) (c : ℕ) (input : Input) :
    Effect RefreshToken Uuid Call → Log → Prop
  | issued {userId : Uuid} (pc : s.calls c = .issuing userId)
      (fresh : FreshToken s.aux (newRow cfg input userId input.familyId))
      (freshFamily : FreshFamily s.aux input.familyId) :
      Ran cfg s c input
        (.autocommit [.put (newRow cfg input userId input.familyId)] (.issued input.rawToken))
        (s.aux.issue (newRow cfg input userId input.familyId))
  | unknown {rawToken : String} (pc : s.calls c = .rotating rawToken)
      (unknown : findByHash (s.store.view c) (cfg.hashToken rawToken) = none) :
      Ran cfg s c input (.goto (.thrown (.unauthorized "Invalid refresh token"))) s.aux
  | reused {rawToken : String} {existing : RefreshToken} (pc : s.calls c = .rotating rawToken)
      (found : findByHash (s.store.view c) (cfg.hashToken rawToken) = some existing)
      (dead : existing.live = false) :
      Ran cfg s c input (.goto (.revokingFamily existing.familyId .reuseDetected)) s.aux
  | expired {rawToken : String} {existing : RefreshToken} (pc : s.calls c = .rotating rawToken)
      (found : findByHash (s.store.view c) (cfg.hashToken rawToken) = some existing)
      (live : existing.live = true) (expired : existing.expiresAt ≤ input.now) :
      Ran cfg s c input (.goto (.thrown (.unauthorized "Refresh token expired"))) s.aux
  | found {rawToken : String} {existing : RefreshToken} (pc : s.calls c = .rotating rawToken)
      (found : findByHash (s.store.view c) (cfg.hashToken rawToken) = some existing)
      (live : existing.live = true) (unexpired : input.now < existing.expiresAt) :
      Ran cfg s c input (.goto (.findingUser rawToken existing)) s.aux
  | user {rawToken : String} {existing : RefreshToken}
      (pc : s.calls c = .findingUser rawToken existing) (user : input.userExists = true) :
      Ran cfg s c input (.goto (.claiming rawToken existing)) s.aux
  | noUser {rawToken : String} {existing : RefreshToken}
      (pc : s.calls c = .findingUser rawToken existing) (noUser : input.userExists = false) :
      Ran cfg s c input (.goto (.thrown (.unauthorized "Invalid refresh token"))) s.aux
  | claimed {rawToken : String} {existing r : RefreshToken}
      (pc : s.calls c = .claiming rawToken existing)
      (unlocked : ¬ s.store.LockedByOther c existing.id)
      (found : (s.store.view c).find? existing.id = some r) (live : r.live = true) :
      Ran cfg s c input (.write [.put (r.revoke input.now)] (.reissuing rawToken existing)) s.aux
  | lost {rawToken : String} {existing : RefreshToken}
      (pc : s.calls c = .claiming rawToken existing)
      (lost : ∀ r, (s.store.view c).find? existing.id = some r → r.live = false) :
      Ran cfg s c input (.goto (.revokingFamily existing.familyId .reuseDetected)) s.aux
  | reissued {rawToken : String} {existing : RefreshToken}
      (pc : s.calls c = .reissuing rawToken existing)
      (fresh : FreshToken s.aux (newRow cfg input existing.userId existing.familyId)) :
      Ran cfg s c input
        (.write [.put (newRow cfg input existing.userId existing.familyId)]
          (.committing rawToken existing (newRow cfg input existing.userId existing.familyId)
            input.rawToken))
        (s.aux.issue (newRow cfg input existing.userId existing.familyId))
  | unknownLogout {rawToken : String} (pc : s.calls c = .loggingOut rawToken)
      (unknown : findByHash (s.store.view c) (cfg.hashToken rawToken) = none) :
      Ran cfg s c input (.goto .loggedOut) s.aux
  | logout {rawToken : String} {existing : RefreshToken} (pc : s.calls c = .loggingOut rawToken)
      (found : findByHash (s.store.view c) (cfg.hashToken rawToken) = some existing) :
      Ran cfg s c input (.goto (.revokingFamily existing.familyId .loggedOut)) s.aux
  | revoking {familyId : Uuid} {after : AfterRevoke}
      (pc : s.calls c = .revokingFamily familyId after) :
      Ran cfg s c input
        (.goto (.revoking familyId (liveIds (s.store.view c) familyId) after)) s.aux
  | revoked {familyId : Uuid} {ids : List Uuid} {after : AfterRevoke} {r : RefreshToken}
      (pc : s.calls c = .revoking familyId ids after) (visit : input.visit ∈ ids)
      (unlocked : ¬ s.store.LockedByOther c input.visit)
      (found : (s.store.view c).find? input.visit = some r) (family : r.familyId = familyId)
      (live : r.live = true) :
      Ran cfg s c input
        (.write [.put (r.revoke input.now)] (.revoking familyId (ids.erase input.visit) after))
        s.aux
  | passed {familyId : Uuid} {ids : List Uuid} {after : AfterRevoke}
      (pc : s.calls c = .revoking familyId ids after) (visit : input.visit ∈ ids)
      (passed : ∀ r, (s.store.view c).find? input.visit = some r →
        ¬(r.familyId = familyId ∧ r.live = true)) :
      Ran cfg s c input (.goto (.revoking familyId (ids.erase input.visit) after)) s.aux
  | purging (pc : s.calls c = .purgingExpired) :
      Ran cfg s c input
        (.goto (.purging (input.now - cfg.purgeGraceMs)
          (expiredIds (s.store.view c) (input.now - cfg.purgeGraceMs)) 0)) s.aux
  | removed {cutoff : ℤ} {ids : List Uuid} {count : ℕ} {r : RefreshToken}
      (pc : s.calls c = .purging cutoff ids count) (visit : input.visit ∈ ids)
      (unlocked : ¬ s.store.LockedByOther c input.visit)
      (found : (s.store.view c).find? input.visit = some r) (expired : r.expiresAt < cutoff) :
      Ran cfg s c input
        (.write [.remove input.visit] (.purging cutoff (ids.erase input.visit) (count + 1))) s.aux
  | kept {cutoff : ℤ} {ids : List Uuid} {count : ℕ} (pc : s.calls c = .purging cutoff ids count)
      (visit : input.visit ∈ ids)
      (kept : ∀ r, (s.store.view c).find? input.visit = some r → ¬ r.expiresAt < cutoff) :
      Ran cfg s c input (.goto (.purging cutoff (ids.erase input.visit) count)) s.aux

theorem ran_of_statement {cfg : Config} {s : State} {c : ℕ} {input : Input}
    {e : Effect RefreshToken Uuid Call} {log : Log}
    (h : statement cfg s c input = some (e, log)) : Ran cfg s c input e log := by
  cases hcall : s.calls c with
  | issuing userId =>
    simp only [statement, hcall] at h
    split_ifs at h with hfresh
    cases h
    exact .issued hcall hfresh.1 hfresh.2
  | rotating rawToken =>
    simp only [statement, hcall] at h
    split at h
    · next hnone =>
      cases h
      exact .unknown hcall hnone
    · next existing hex =>
      split_ifs at h with hdead hexpired
      · cases h
        exact .reused hcall hex hdead
      · cases h
        exact .expired hcall hex (by simpa using hdead) hexpired
      · cases h
        exact .found hcall hex (by simpa using hdead) (not_le.mp hexpired)
  | findingUser rawToken existing =>
    simp only [statement, hcall] at h
    split_ifs at h with huser
    · cases h
      exact .user hcall huser
    · cases h
      exact .noUser hcall (by simpa using huser)
  | claiming rawToken existing =>
    simp only [statement, hcall] at h
    split_ifs at h with hlocked
    split at h
    · next hnone =>
      cases h
      exact .lost hcall fun r hr => absurd hr (by simp [hnone])
    · next r hr =>
      split_ifs at h with hlive
      · cases h
        exact .claimed hcall hlocked hr hlive
      · cases h
        refine .lost hcall fun r' hr' => ?_
        rw [Option.some.inj (hr'.symm.trans hr)]
        simpa using hlive
  | reissuing rawToken existing =>
    simp only [statement, hcall] at h
    split_ifs at h with hfresh
    cases h
    exact .reissued hcall hfresh
  | loggingOut rawToken =>
    simp only [statement, hcall] at h
    split at h
    · next hnone =>
      cases h
      exact .unknownLogout hcall hnone
    · next existing hex =>
      cases h
      exact .logout hcall hex
  | revokingFamily familyId after =>
    simp only [statement, hcall] at h
    cases h
    exact .revoking hcall
  | revoking familyId ids after =>
    simp only [statement, hcall] at h
    split_ifs at h with hvisit
    rw [not_or, not_not] at hvisit
    split at h
    · next hnone =>
      cases h
      exact .passed hcall hvisit.1 fun r hr => absurd hr (by simp [hnone])
    · next r hr =>
      split_ifs at h with hmatch
      · cases h
        exact .revoked hcall hvisit.1 hvisit.2 hr hmatch.1 hmatch.2
      · cases h
        refine .passed hcall hvisit.1 fun r' hr' => ?_
        rwa [Option.some.inj (hr'.symm.trans hr)]
  | purgingExpired =>
    simp only [statement, hcall] at h
    cases h
    exact .purging hcall
  | purging cutoff ids count =>
    simp only [statement, hcall] at h
    split_ifs at h with hvisit
    rw [not_or, not_not] at hvisit
    split at h
    · next hnone =>
      cases h
      exact .kept hcall hvisit.1 fun r hr => absurd hr (by simp [hnone])
    · next r hr =>
      split_ifs at h with hexpired
      · cases h
        exact .removed hcall hvisit.1 hvisit.2 hr hexpired
      · cases h
        refine .kept hcall hvisit.1 fun r' hr' => ?_
        rwa [Option.some.inj (hr'.symm.trans hr)]
  | idle | committing _ _ _ _ | issued _ | rotated _ _ _ | loggedOut | purged _ | thrown _ =>
    simp only [statement, hcall] at h
    exact absurd h (by simp)

/-! ## Steps -/

inductive Action where
  /-- A new call is made. -/
  | request (c : ℕ) (r : Request)
  /-- A call runs its next statement, or the next row of a statement over many. -/
  | statement (c : ℕ) (input : Input)
  | commit (c : ℕ)
  /-- A statement or a commit fails for a reason outside the program. -/
  | fault (c : ℕ)
deriving DecidableEq

/-- The call an action moves. -/
def Action.call : Action → ℕ
  | .request c _ | .statement c _ | .commit c | .fault c => c

/-- What an action comes to. -/
def decide? (cfg : Config) (s : State) : Action → Option (Effect RefreshToken Uuid Call × Log)
  | .request c r =>
    match s.calls c with
    | .idle =>
      some (.goto r.start,
        { s.aux with atStart := Function.update s.aux.atStart c s.aux.revoked })
    | _ => none
  | .statement c input => statement cfg s c input
  | .commit c =>
    match s.calls c with
    | .committing rawToken existing _ newRawToken =>
      some (.commit (.rotated rawToken existing newRawToken), s.aux)
    | .revoking familyId [] after =>
      some (.commit after.call, { s.aux with revoked := familyId :: s.aux.revoked })
    | .purging _ [] count => some (.commit (.purged count), s.aux)
    | _ => none
  | .fault c =>
    if (s.calls c).running then some (.abort (.thrown .fault), s.aux) else none

/-- One step of one call. -/
def step (cfg : Config) (s : State) (a : Action) : Option State :=
  (decide? cfg s a).bind fun e => s.perform a.call e.1 e.2

/-- **What an action can come to.** -/
inductive Did (cfg : Config) (s : State) : Action → Effect RefreshToken Uuid Call → Log → Prop
  | requested {c : ℕ} {r : Request} (pc : s.calls c = .idle) :
      Did cfg s (.request c r) (.goto r.start)
        { s.aux with atStart := Function.update s.aux.atStart c s.aux.revoked }
  | ran {c : ℕ} {input : Input} {e : Effect RefreshToken Uuid Call} {log : Log}
      (ran : Ran cfg s c input e log) : Did cfg s (.statement c input) e log
  | rotated {c : ℕ} {rawToken newRawToken : String} {existing new : RefreshToken}
      (pc : s.calls c = .committing rawToken existing new newRawToken) :
      Did cfg s (.commit c) (.commit (.rotated rawToken existing newRawToken)) s.aux
  | revoked {c : ℕ} {familyId : Uuid} {after : AfterRevoke}
      (pc : s.calls c = .revoking familyId [] after) :
      Did cfg s (.commit c) (.commit after.call)
        { s.aux with revoked := familyId :: s.aux.revoked }
  | purged {c : ℕ} {cutoff : ℤ} {count : ℕ} (pc : s.calls c = .purging cutoff [] count) :
      Did cfg s (.commit c) (.commit (.purged count)) s.aux
  | faulted {c : ℕ} (running : (s.calls c).running = true) :
      Did cfg s (.fault c) (.abort (.thrown .fault)) s.aux

theorem did_of_decide? {cfg : Config} {s : State} {a : Action}
    {e : Effect RefreshToken Uuid Call} {log : Log} (h : decide? cfg s a = some (e, log)) :
    Did cfg s a e log := by
  cases a with
  | request c r =>
    simp only [decide?] at h
    split at h
    · next hcall =>
      cases h
      exact .requested hcall
    · exact absurd h (by simp)
  | statement c input => exact .ran (ran_of_statement h)
  | commit c =>
    simp only [decide?] at h
    split at h
    · next hcall =>
      cases h
      exact .rotated hcall
    · next hcall =>
      cases h
      exact .revoked hcall
    · next hcall =>
      cases h
      exact .purged hcall
    · exact absurd h (by simp)
  | fault c =>
    simp only [decide?] at h
    split_ifs at h with hrunning
    cases h
    exact .faulted hrunning

/-- **A step is what its action comes to, carried out.** -/
theorem did_of_step {cfg : Config} {s t : State} {a : Action} (h : step cfg s a = some t) :
    ∃ e log, t.aux = log ∧ Did cfg s a e log ∧ s.perform a.call e log = some t := by
  obtain ⟨⟨e, log⟩, hdec, hperf⟩ := Option.bind_eq_some_iff.mp h
  exact ⟨e, log, System.aux_of_perform hperf, did_of_decide? hdec, hperf⟩

end Auth
end GroupChat

import GroupChat.Auth.Invariant

/-!
# Token calls that do not overlap

When one call ends before the next begins, a call is a function of the table: it
looks the token up, writes what it writes, and returns.  `serve` runs one call
after another at times that do not go back.

The calls are those of `TokenService`, with the statements of one call put
together.  `serve` keeps the log of the rows that were issued, so that a token
that was purged can still be named.
-/

namespace GroupChat
namespace Auth

open Common Database Transition

/-! ## The calls -/

/-- `revokeFamily`: stamp the live rows of a family. -/
def revokeFamily (t : Tokens) (familyId : Uuid) (now : ℤ) : Tokens :=
  t.map (fun r => if r.familyId = familyId ∧ r.live then r.revoke now else r) fun r => by
    split_ifs <;> rfl

/-- `issueForNewSession`. -/
def issueForNewSession (cfg : Config) (t : Tokens) (userId : Uuid) (input : Input) :
    Tokens × Call :=
  (t.put (newRow cfg input userId input.familyId), .issued input.rawToken)

/-- `rotate`. -/
def rotate (cfg : Config) (t : Tokens) (rawToken : String) (input : Input) : Tokens × Call :=
  match findByHash t (cfg.hashToken rawToken) with
  | none => (t, .thrown (.unauthorized "Invalid refresh token"))
  | some existing =>
    if existing.live = false then
      (revokeFamily t existing.familyId input.now, AfterRevoke.reuseDetected.call)
    else if existing.expiresAt ≤ input.now then
      (t, .thrown (.unauthorized "Refresh token expired"))
    else if input.userExists = false then
      (t, .thrown (.unauthorized "Invalid refresh token"))
    else
      -- the claim matches while `revokedAt` is null
      match (t.find? existing.id).filter RefreshToken.live with
      | none => (revokeFamily t existing.familyId input.now, AfterRevoke.reuseDetected.call)
      | some r =>
        ((t.put (r.revoke input.now)).put (newRow cfg input existing.userId existing.familyId),
          .rotated rawToken existing input.rawToken)

/-- `revokeByToken`. -/
def revokeByToken (cfg : Config) (t : Tokens) (rawToken : String) (input : Input) :
    Tokens × Call :=
  match findByHash t (cfg.hashToken rawToken) with
  | none => (t, .loggedOut)
  | some existing => (revokeFamily t existing.familyId input.now, .loggedOut)

/-- `purgeExpired`: the rows that expired before the cutoff go, revoked or not. -/
def purgeExpired (cfg : Config) (t : Tokens) (input : Input) : Tokens × Call :=
  (t.filter fun r => ¬ r.expiresAt < input.now - cfg.purgeGraceMs,
    .purged (expiredIds t (input.now - cfg.purgeGraceMs)).length)

/-- One whole call. -/
def wholeCall (cfg : Config) (t : Tokens) (input : Input) : Request → Tokens × Call
  | .issueForNewSession userId => issueForNewSession cfg t userId input
  | .rotate rawToken => rotate cfg t rawToken input
  | .revokeByToken rawToken => revokeByToken cfg t rawToken input
  | .purgeExpired => purgeExpired cfg t input

/-- The row a call has inserted, by what it returned. -/
def inserted (cfg : Config) (input : Input) : Request → Call → Option RefreshToken
  | .issueForNewSession userId, _ => some (newRow cfg input userId input.familyId)
  | _, .rotated _ existing _ => some (newRow cfg input existing.userId existing.familyId)
  | _, _ => none

/-- A new pair was returned for the presented token. -/
def Call.accepted : Call → Bool
  | .rotated _ _ _ => true
  | _ => false

/-! ## What a call does to the live rows -/

theorem mem_revokeFamily {t : Tokens} {familyId : Uuid} {now : ℤ} {r : RefreshToken} :
    r ∈ revokeFamily t familyId now ↔
      (∃ r' ∈ t, r'.familyId = familyId ∧ r'.live = true ∧ r = r'.revoke now) ∨
        r ∈ t ∧ ¬ (r.familyId = familyId ∧ r.live = true) := by
  rw [revokeFamily, Table.mem_map]
  constructor
  · rintro ⟨r', hr', rfl⟩
    split_ifs with hif
    · exact Or.inl ⟨r', hr', hif.1, hif.2, rfl⟩
    · exact Or.inr ⟨hr', hif⟩
  · rintro (⟨r', hr', hfamily, hlive, rfl⟩ | ⟨hr, hif⟩)
    · exact ⟨r', hr', if_pos ⟨hfamily, hlive⟩⟩
    · exact ⟨r, hr, if_neg hif⟩

/-- The live rows of other families are what a family's revocation leaves. -/
theorem mem_revokeFamily_of_live {t : Tokens} {familyId : Uuid} {now : ℤ} {r : RefreshToken}
    (hlive : r.live = true) :
    r ∈ revokeFamily t familyId now ↔ r ∈ t ∧ r.familyId ≠ familyId := by
  rw [mem_revokeFamily]
  constructor
  · rintro (⟨r', -, -, -, rfl⟩ | ⟨hr, hif⟩)
    · exact absurd hlive (by simp)
    · exact ⟨hr, fun hfamily => hif ⟨hfamily, hlive⟩⟩
  · rintro ⟨hr, hne⟩
    exact Or.inr ⟨hr, fun hif => hne hif.1⟩

section Rotate

variable {cfg : Config} {t : Tokens} {rawToken : String} {input : Input}
  {existing : RefreshToken}

theorem rotate_of_unknown (h : findByHash t (cfg.hashToken rawToken) = none) :
    rotate cfg t rawToken input = (t, .thrown (.unauthorized "Invalid refresh token")) := by
  rw [rotate, h]

theorem rotate_of_dead (h : findByHash t (cfg.hashToken rawToken) = some existing)
    (hdead : existing.live = false) :
    rotate cfg t rawToken input =
      (revokeFamily t existing.familyId input.now, AfterRevoke.reuseDetected.call) := by
  rw [rotate, h]
  exact if_pos hdead

theorem rotate_of_expired (h : findByHash t (cfg.hashToken rawToken) = some existing)
    (hlive : existing.live = true) (hexp : existing.expiresAt ≤ input.now) :
    rotate cfg t rawToken input = (t, .thrown (.unauthorized "Refresh token expired")) := by
  simp [rotate, h, hlive, hexp]

theorem rotate_of_no_user (h : findByHash t (cfg.hashToken rawToken) = some existing)
    (hlive : existing.live = true) (hexp : input.now < existing.expiresAt)
    (huser : input.userExists = false) :
    rotate cfg t rawToken input = (t, .thrown (.unauthorized "Invalid refresh token")) := by
  simp [rotate, h, hlive, not_le.mpr hexp, huser]

/-- **A live and unexpired token is exchanged.** -/
theorem rotate_of_live (h : findByHash t (cfg.hashToken rawToken) = some existing)
    (hlive : existing.live = true) (hexp : input.now < existing.expiresAt)
    (huser : input.userExists = true) :
    rotate cfg t rawToken input =
      ((t.put (existing.revoke input.now)).put
          (newRow cfg input existing.userId existing.familyId),
        .rotated rawToken existing input.rawToken) := by
  have hfind : t.find? existing.id = some existing :=
    Table.find?_of_mem (findByHash_eq_some h).1
  simp [rotate, h, hlive, not_le.mpr hexp, huser, hfind, Option.filter_some]

end Rotate

/-! ## One call after another -/

/-- The table, the rows issued so far, and the time of the last call. -/
structure Server where
  tokens : Tokens
  log : Log
  now : ℤ

/-- Before any call, at some moment. -/
def Server.start (now : ℤ) : Server := ⟨Table.empty, ⟨Table.empty, [], fun _ => []⟩, now⟩

/-- What a call made now returns. -/
def Server.reply (cfg : Config) (s : Server) (request : Request) (input : Input) : Call :=
  (wholeCall cfg s.tokens input request).2

/-- The values a call generates have not been used: the id and the token of a row,
and the family of a new session. -/
def FreshValues (log : Log) (input : Input) (request : Request) (r : RefreshToken) : Prop :=
  FreshToken log r ∧
    ∀ userId, request = .issueForNewSession userId → FreshFamily log input.familyId

instance (log : Log) (input : Input) (request : Request) (r : RefreshToken) :
    Decidable (FreshValues log input request r) :=
  match request with
  | .issueForNewSession _ =>
    decidable_of_iff (FreshToken log r ∧ FreshFamily log input.familyId)
      ⟨fun h => ⟨h.1, fun _ _ => h.2⟩, fun h => ⟨h.1, h.2 _ rfl⟩⟩
  | .rotate _ => decidable_of_iff (FreshToken log r) ⟨fun h => ⟨h, nofun⟩, fun h => h.1⟩
  | .revokeByToken _ => decidable_of_iff (FreshToken log r) ⟨fun h => ⟨h, nofun⟩, fun h => h.1⟩
  | .purgeExpired => decidable_of_iff (FreshToken log r) ⟨fun h => ⟨h, nofun⟩, fun h => h.1⟩

/-- The log with the row a call inserted, if it inserted one. -/
def Log.add (log : Log) : Option RefreshToken → Log
  | none => log
  | some r => log.issue r

/-- Serve one call.  `none` means that the clock went back, or that a generated
value is not a fresh one. -/
def serve (cfg : Config) (s : Server) (a : Request × Input) : Option Server :=
  if s.now ≤ a.2.now ∧
      ∀ r ∈ inserted cfg a.2 a.1 (s.reply cfg a.1 a.2), FreshValues s.log a.2 a.1 r then
    some ⟨(wholeCall cfg s.tokens a.2 a.1).1,
      s.log.add (inserted cfg a.2 a.1 (s.reply cfg a.1 a.2)), a.2.now⟩
  else none

variable {cfg : Config} {s t : Server} {a : Request × Input}

/-! ## What holds between calls -/

/-- The invariant of the table and the log. -/
structure Server.Inv (s : Server) : Prop where
  issued : ∀ r ∈ s.tokens, Issued s.log r
  live : ∀ r ∈ s.log.issued, r.live = true
  /-- A hash is stored once. -/
  tokenHash : ∀ r ∈ s.log.issued, ∀ r' ∈ s.log.issued, r.tokenHash = r'.tokenHash → r = r'

theorem Server.inv_start (now : ℤ) : (Server.start now).Inv :=
  ⟨fun r h => absurd h (Table.not_mem_empty r), fun r h => absurd h (Table.not_mem_empty r),
    fun r h => absurd h (Table.not_mem_empty r)⟩

/-- Two rows issued as the same row are the same row. -/
theorem Server.eq_of_asIssued_eq {r r' : RefreshToken} (hr : r ∈ s.tokens) (hr' : r' ∈ s.tokens)
    (h : r.asIssued = r'.asIssued) : r = r' :=
  Table.eq_of_key_eq hr hr' (RefreshToken.fields_eq h).1

/-- A row is found by its hash. -/
theorem Server.Inv.findByHash (hs : s.Inv) {r : RefreshToken} (hr : r ∈ s.tokens) :
    findByHash s.tokens r.tokenHash = some r := by
  have hsome : (Auth.findByHash s.tokens r.tokenHash).isSome := by
    rw [Auth.findByHash, List.find?_isSome]
    exact ⟨r, hr, by simp⟩
  obtain ⟨r', hr'⟩ := Option.isSome_iff_exists.mp hsome
  obtain ⟨hmem, hhash⟩ := findByHash_eq_some hr'
  have hsame : r'.asIssued = r.asIssued :=
    hs.tokenHash _ (hs.issued r' hmem) _ (hs.issued r hr) hhash
  rw [hr', Server.eq_of_asIssued_eq hmem hr hsame]

/-! ## What a call does -/

/-- What one call does to the table and the log. -/
inductive Served (cfg : Config) (s t : Server) (a : Request × Input) : Prop
  /-- Nothing. -/
  | same (tokens : t.tokens = s.tokens) (log : t.log = s.log)
  /-- A session is opened. -/
  | opened (new : RefreshToken) (tokens : t.tokens = s.tokens.put new)
      (log : t.log = s.log.issue new) (live : new.live = true) (fresh : FreshToken s.log new)
      (family : FreshFamily s.log new.familyId)
  /-- A token is exchanged for a new one. -/
  | exchanged (existing new : RefreshToken) (now : ℤ) (mem : existing ∈ s.tokens)
      (wasLive : existing.live = true)
      (tokens : t.tokens = (s.tokens.put (existing.revoke now)).put new)
      (log : t.log = s.log.issue new) (live : new.live = true) (fresh : FreshToken s.log new)
      (family : new.familyId = existing.familyId)
  /-- The family of a token is revoked. -/
  | revoked (existing : RefreshToken) (now : ℤ) (mem : existing ∈ s.tokens)
      (tokens : t.tokens = revokeFamily s.tokens existing.familyId now) (log : t.log = s.log)
  /-- Rows that expired are deleted. -/
  | purged (request : a.1 = .purgeExpired)
      (tokens : t.tokens =
        s.tokens.filter fun r => ¬ r.expiresAt < a.2.now - cfg.purgeGraceMs)
      (log : t.log = s.log)

/-- What `serve` checks and writes. -/
theorem serve_eq_some (h : serve cfg s a = some t) :
    s.now ≤ a.2.now ∧ t.now = a.2.now ∧ t.tokens = (wholeCall cfg s.tokens a.2 a.1).1 ∧
      t.log = s.log.add (inserted cfg a.2 a.1 (s.reply cfg a.1 a.2)) ∧
      ∀ r ∈ inserted cfg a.2 a.1 (s.reply cfg a.1 a.2), FreshValues s.log a.2 a.1 r := by
  rw [serve] at h
  split_ifs at h with hcond
  obtain rfl : _ = t := Option.some.inj h
  exact ⟨hcond.1, rfl, rfl, rfl, hcond.2⟩

/-- The ways a presented token can fare. -/
inductive Rotation (cfg : Config) (t : Tokens) (rawToken : String) (input : Input) :
    Tokens × Call → Prop
  | refused (message : String) (other : message ≠ "Refresh token reuse detected")
      (lapsed : ∀ r, findByHash t (cfg.hashToken rawToken) = some r →
        r.live = true ∧ (r.expiresAt ≤ input.now ∨ input.userExists = false)) :
      Rotation cfg t rawToken input (t, .thrown (.unauthorized message))
  | reused (existing : RefreshToken)
      (found : findByHash t (cfg.hashToken rawToken) = some existing)
      (dead : existing.live = false) :
      Rotation cfg t rawToken input
        (revokeFamily t existing.familyId input.now, AfterRevoke.reuseDetected.call)
  | exchanged (existing : RefreshToken)
      (found : findByHash t (cfg.hashToken rawToken) = some existing)
      (live : existing.live = true) (unexpired : input.now < existing.expiresAt)
      (user : input.userExists = true) :
      Rotation cfg t rawToken input
        ((t.put (existing.revoke input.now)).put
            (newRow cfg input existing.userId existing.familyId),
          .rotated rawToken existing input.rawToken)

theorem rotation (cfg : Config) (t : Tokens) (rawToken : String) (input : Input) :
    Rotation cfg t rawToken input (rotate cfg t rawToken input) := by
  cases hfind : findByHash t (cfg.hashToken rawToken) with
  | none =>
    rw [rotate_of_unknown hfind]
    exact .refused _ (by decide) fun r hr => absurd (hfind.symm.trans hr) (by simp)
  | some existing =>
    have honly : ∀ r, findByHash t (cfg.hashToken rawToken) = some r → r = existing :=
      fun r hr => Option.some.inj (hr.symm.trans hfind)
    cases hlive : existing.live with
    | false =>
      rw [rotate_of_dead hfind hlive]
      exact .reused existing hfind hlive
    | true =>
      rcases le_or_gt existing.expiresAt input.now with hexp | hexp
      · rw [rotate_of_expired hfind hlive hexp]
        exact .refused _ (by decide) fun r hr => honly r hr ▸ ⟨hlive, Or.inl hexp⟩
      · cases huser : input.userExists with
        | false =>
          rw [rotate_of_no_user hfind hlive hexp huser]
          exact .refused _ (by decide) fun r hr => honly r hr ▸ ⟨hlive, Or.inr huser⟩
        | true =>
          rw [rotate_of_live hfind hlive hexp huser]
          exact .exchanged existing hfind hlive hexp huser

/-- **One call.** -/
theorem served_of_serve (h : serve cfg s a = some t) : Served cfg s t a := by
  obtain ⟨-, -, htokens, hlog, hfresh⟩ := serve_eq_some h
  obtain ⟨request, input⟩ := a
  cases request with
  | issueForNewSession userId =>
    have hnew := hfresh (newRow cfg input userId input.familyId) rfl
    exact .opened _ htokens hlog rfl hnew.1 (hnew.2 userId rfl)
  | rotate rawToken =>
    have hrot := rotation cfg s.tokens rawToken input
    have hreply : s.reply cfg (.rotate rawToken) input =
        (rotate cfg s.tokens rawToken input).2 := rfl
    have hwhole : t.tokens = (rotate cfg s.tokens rawToken input).1 := htokens
    simp only [hreply] at hlog hfresh
    generalize rotate cfg s.tokens rawToken input = result at hrot hlog hwhole hfresh
    cases hrot with
    | refused message hother hlapsed => exact .same hwhole hlog
    | reused existing hfind hdead =>
      exact .revoked existing _ (findByHash_eq_some hfind).1 hwhole hlog
    | exchanged existing hfind hlive hexp huser =>
      exact .exchanged existing _ _ (findByHash_eq_some hfind).1 hlive hwhole hlog rfl
        (hfresh (newRow cfg input existing.userId existing.familyId) rfl).1 rfl
  | revokeByToken rawToken =>
    have hwhole : t.tokens = (revokeByToken cfg s.tokens rawToken input).1 := htokens
    have hsame : t.log = s.log := by
      rw [hlog, Server.reply, wholeCall, revokeByToken]
      split <;> rfl
    rw [revokeByToken] at hwhole
    cases hfind : findByHash s.tokens (cfg.hashToken rawToken) with
    | none =>
      rw [hfind] at hwhole
      exact .same hwhole hsame
    | some existing =>
      rw [hfind] at hwhole
      exact .revoked existing _ (findByHash_eq_some hfind).1 hwhole hsame
  | purgeExpired => exact .purged rfl htokens hlog

/-! ## What every call keeps -/

theorem Served.grows (h : Served cfg s t a) : s.log.Grows t.log := by
  cases h with
  | same _ hlog | revoked _ _ _ _ hlog | purged _ _ hlog =>
    rw [hlog]
    exact Log.Grows.refl _
  | opened new _ hlog _ hfresh _ | exchanged _ new _ _ _ _ hlog _ hfresh _ =>
    rw [hlog]
    exact Log.grows_issue hfresh

theorem issued_of_mem_revokeFamily {log : Log} {tokens : Tokens} {familyId : Uuid} {now : ℤ}
    {r : RefreshToken} (hissued : ∀ r ∈ tokens, Issued log r)
    (hr : r ∈ revokeFamily tokens familyId now) : Issued log r := by
  rcases mem_revokeFamily.mp hr with ⟨r', hr', -, -, rfl⟩ | ⟨hr, -⟩
  · exact (hissued r' hr').revoke now
  · exact hissued r hr

theorem live_of_mem_issue {log : Log} {new : RefreshToken} (hlive : new.live = true)
    (h : ∀ r ∈ log.issued, r.live = true) : ∀ r ∈ (log.issue new).issued, r.live = true := by
  intro r hr
  rcases Table.mem_put.mp hr with rfl | ⟨hold, -⟩
  · exact hlive
  · exact h r hold

/-- **The invariant is kept.** -/
theorem Served.inv (h : Served cfg s t a) (hs : s.Inv) : t.Inv := by
  have hgrows : s.log.Grows t.log := h.grows
  cases h with
  | same htokens hlog =>
    refine ⟨fun r hr => ?_, hlog ▸ hs.live, hlog ▸ hs.tokenHash⟩
    rw [htokens] at hr
    exact (hs.issued r hr).mono hgrows
  | opened new htokens hlog hlive hfresh hfamily =>
    refine ⟨fun r hr => ?_, hlog ▸ live_of_mem_issue hlive hs.live,
      hlog ▸ tokenHash_issue hfresh hs.tokenHash⟩
    rw [htokens, Table.mem_put] at hr
    rcases hr with rfl | ⟨hold, -⟩
    · exact hlog ▸ Log.issued_issue s.log hlive
    · exact (hs.issued r hold).mono hgrows
  | exchanged existing new now hmem hwas htokens hlog hlive hfresh hfamily =>
    refine ⟨fun r hr => ?_, hlog ▸ live_of_mem_issue hlive hs.live,
      hlog ▸ tokenHash_issue hfresh hs.tokenHash⟩
    rcases mem_rotated htokens hr with rfl | rfl | ⟨hold, -⟩
    · exact hlog ▸ Log.issued_issue s.log hlive
    · exact ((hs.issued existing hmem).revoke now).mono hgrows
    · exact (hs.issued r hold).mono hgrows
  | revoked existing now hmem htokens hlog =>
    refine ⟨fun r hr => ?_, hlog ▸ hs.live, hlog ▸ hs.tokenHash⟩
    rw [htokens] at hr
    exact (issued_of_mem_revokeFamily hs.issued hr).mono hgrows
  | purged hrequest htokens hlog =>
    refine ⟨fun r hr => ?_, hlog ▸ hs.live, hlog ▸ hs.tokenHash⟩
    rw [htokens, Table.mem_filter] at hr
    exact (hs.issued r hr.1).mono hgrows

/-- **Where a live row comes from.**  It was there before, or it is new, and then its
family is new too or had a live row. -/
theorem Served.old_of_live (h : Served cfg s t a) {x : RefreshToken} (hx : x ∈ t.tokens)
    (hlive : x.live = true) :
    x ∈ s.tokens ∨ FreshToken s.log x ∧ (FreshFamily s.log x.familyId ∨
      ∃ existing ∈ s.tokens, existing.live = true ∧ existing.familyId = x.familyId) := by
  cases h with
  | same htokens hlog => exact Or.inl (htokens ▸ hx)
  | opened new htokens hlog hnew hfresh hfamily =>
    rw [htokens, Table.mem_put] at hx
    rcases hx with rfl | ⟨hold, -⟩
    · exact Or.inr ⟨hfresh, Or.inl hfamily⟩
    · exact Or.inl hold
  | exchanged existing new now hmem hwas htokens hlog hnew hfresh hfamily =>
    rcases mem_rotated htokens hx with rfl | rfl | ⟨hold, -⟩
    · exact Or.inr ⟨hfresh, Or.inr ⟨existing, hmem, hwas, hfamily.symm⟩⟩
    · exact absurd hlive (by simp)
    · exact Or.inl hold
  | revoked existing now hmem htokens hlog =>
    rw [htokens, mem_revokeFamily_of_live hlive] at hx
    exact Or.inl hx.1
  | purged hrequest htokens hlog =>
    rw [htokens, Table.mem_filter] at hx
    exact Or.inl hx.1

/-- The invariant holds after any calls. -/
theorem Server.inv_of_exec {as : List (Request × Input)} {now : ℤ}
    (hs : exec (serve cfg) (Server.start now) as = some s) : s.Inv :=
  (reach_of_exec hs).invariant (fun _ _ _ h _ hst => (served_of_serve hst).inv h)
    (Server.inv_start now)

end Auth
end GroupChat

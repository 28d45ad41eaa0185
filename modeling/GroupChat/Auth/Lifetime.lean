import GroupChat.Auth.Accounts
import GroupChat.Auth.Purge

/-!
# How long a session lasts

A session is a family of refresh tokens, and with each of them an access token is signed that no
table knows of.  `Sessions` is the server of whole calls with the pairs it has handed out.

The pair handed out last in a family is its current one.  While nothing but the current refresh
token of a family is presented, the family goes on: each refresh is answered with a new pair, for
the same user, whatever else happens on the server.  Once an earlier one is presented, or any one
to log out with, it is over: no pair of the family is handed out any more, and its access tokens,
which cannot be revoked, are refused when the lifetime of the last of them is through.

Requests are handled one after another here.  A token is only known while its row is, and rows are
purged some time after they have expired; and what signs and verifies access tokens belongs to
libraries, so it is a parameter (`JwtService`).
-/

namespace GroupChat
namespace Auth

open Common Database Text Transition

/-! ## Access tokens -/

/-- What is known of a function that verifies what `signAsync` has signed. -/
structure Verifies {Token : Type} (signAsync : JwtPayload → ℤ → Token) (expiresInMs : ℤ)
    (verify : Token → ℤ → Option JwtPayload) : Prop where
  /-- The payload is the one that was signed. -/
  payload_eq : ∀ payload now at_ found, verify (signAsync payload now) at_ = some found →
    found = payload
  /-- When its lifetime is through, a token is refused. -/
  expired : ∀ payload now at_, now + expiresInMs ≤ at_ → verify (signAsync payload now) at_ = none

/-- `JwtService`, with the secret and the expiry that `JwtModule` was registered with, and
`passport-jwt` with the same secret.  Each of them takes the time from the clock. -/
structure JwtService (Token : Type) where
  signAsync : JwtPayload → ℤ → Token
  expiresInMs : ℤ
  verifyAsync : Token → ℤ → Option JwtPayload
  verifyAsync_verifies : Verifies signAsync expiresInMs verifyAsync
  /-- What the strategy hands to `validate`, where it ignores no expiration. -/
  passport : Token → ℤ → Option JwtPayload
  passport_verifies : Verifies signAsync expiresInMs passport

/-- `request.user`, and `socket.data`. -/
structure AuthUser where
  userId : Uuid
  email : JsString
deriving DecidableEq

variable {Token : Type} (jwt : JwtService Token)

/-- `signAccessToken` -/
def signAccessToken (payload : JwtPayload) (now : ℤ) : Token := jwt.signAsync payload now

/-- `JwtStrategy.validate` -/
def validate (payload : JwtPayload) : AuthUser := ⟨payload.sub, payload.email⟩

/-- `JwtAuthGuard.canActivate`, with the token of the `Authorization` header and what becomes of
`request.user`. -/
def canActivate (isPublic : Bool) (bearer : Option Token) (now : ℤ) :
    Except Exception (Option AuthUser) :=
  if isPublic then .ok none
  else
    match bearer.bind fun token => jwt.passport token now with
    | none => .error (.unauthorized "Unauthorized")
    | some payload => .ok (some (validate payload))

/-- `createWsAuthMiddleware`: the data of the socket, or none where the handshake is refused. -/
def authenticate (token : Option Token) (now : ℤ) : Option AuthUser :=
  (token.bind fun token => jwt.verifyAsync token now).map validate

variable {jwt}

/-- Who passes the guard with an access token is the user it was signed for. -/
theorem userId_of_canActivate {payload : JwtPayload} {now at_ : ℤ} {user : AuthUser}
    (h : canActivate jwt false (some (signAccessToken jwt payload now)) at_ = .ok (some user)) :
    user.userId = payload.sub := by
  unfold canActivate at h
  rw [if_neg Bool.false_ne_true, Option.bind_some] at h
  cases hverified : jwt.passport (signAccessToken jwt payload now) at_ with
  | none =>
    rw [hverified] at h
    cases h
  | some found =>
    rw [hverified] at h
    obtain rfl := Option.some.inj (Except.ok.inj h)
    rw [jwt.passport_verifies.payload_eq payload now at_ found hverified]
    rfl

/-- Nobody passes the guard or the handshake with an access token that has expired. -/
theorem refused_of_expired {payload : JwtPayload} {now at_ : ℤ}
    (h : now + jwt.expiresInMs ≤ at_) :
    canActivate jwt false (some (signAccessToken jwt payload now)) at_ =
        .error (.unauthorized "Unauthorized") ∧
      authenticate jwt (some (signAccessToken jwt payload now)) at_ = none := by
  have hguard : jwt.passport (signAccessToken jwt payload now) at_ = none :=
    jwt.passport_verifies.expired payload now at_ h
  have hhandshake : jwt.verifyAsync (signAccessToken jwt payload now) at_ = none :=
    jwt.verifyAsync_verifies.expired payload now at_ h
  simp [canActivate, authenticate, hguard, hhandshake]

/-! ## Sessions -/

/-- A pair of tokens, with the row its refresh token was stored as. -/
structure Pair (Token : Type) where
  row : RefreshToken
  refreshToken : String
  accessToken : Token
deriving DecidableEq

/-- The server, and the pairs it has handed out, the last one first. -/
structure Sessions (Token : Type) where
  server : Server
  handedOut : List (Pair Token)

/-- Before any call, at some moment. -/
def Sessions.start (now : ℤ) : Sessions Token := ⟨Server.start now, []⟩

/-- The pair a session was continued with last. -/
def Sessions.current (s : Sessions Token) (familyId : Uuid) : Option (Pair Token) :=
  s.handedOut.find? fun p => p.row.familyId = familyId

/-- What a call takes from outside, with the address of the user it is for. -/
structure SessionInput extends Input where
  email : JsString
deriving DecidableEq

inductive SessionRequest (Token : Type) where
  /-- The end of `register`, `login` and `googleLogin`. -/
  | issueForNewSession (userId : Uuid)
  | refresh (refreshToken : String)
  /-- The one route of the controller that is not public. -/
  | logout (bearer : Option Token) (refreshToken : String)
  | purgeExpired

variable (jwt)

/-- The call of `TokenService` that a request comes to, past the guard and `RefreshDto`. -/
def SessionRequest.service (now : ℤ) : SessionRequest Token → Option Request
  | .issueForNewSession userId => some (.issueForNewSession userId)
  | .refresh refreshToken => if refreshToken = "" then none else some (.rotate refreshToken)
  | .logout bearer refreshToken =>
    match canActivate jwt false bearer now with
    | .error _ => none
    | .ok _ => if refreshToken = "" then none else some (.revokeByToken refreshToken)
  | .purgeExpired => some .purgeExpired

/-- The pair a call returns, by the row it has inserted. -/
def pairOf (input : SessionInput) (row : RefreshToken) : Pair Token :=
  ⟨row, input.rawToken, signAccessToken jwt ⟨row.userId, input.email⟩ input.now⟩

/-- The pairs a call returns. -/
def returned (cfg : Config) (s : Server) (request : Request) (input : SessionInput) :
    List (Pair Token) :=
  ((inserted cfg input.toInput request (s.reply cfg request input.toInput)).map
    (pairOf jwt input)).toList

/-- Handle one request.  `none` means that the clock went back, or that a generated value is not
one that is generated. -/
def handle (cfg : Config) (s : Sessions Token) (a : SessionRequest Token × SessionInput) :
    Option (Sessions Token) :=
  match a.1.service jwt a.2.now with
  | none =>
    if s.server.now ≤ a.2.now then some ⟨{ s.server with now := a.2.now }, s.handedOut⟩ else none
  | some request =>
    if ∀ p ∈ returned jwt cfg s.server request a.2, p.refreshToken ≠ "" then
      (serve cfg s.server (request, a.2.toInput)).map fun t =>
        ⟨t, returned jwt cfg s.server request a.2 ++ s.handedOut⟩
    else none

variable {jwt} {cfg : Config} {s t u : Sessions Token}
  {a : SessionRequest Token × SessionInput} {familyId : Uuid}
  {c : Pair Token}

/-- What handling a request does. -/
inductive Handled (jwt : JwtService Token) (cfg : Config) (s t : Sessions Token)
    (a : SessionRequest Token × SessionInput) : Prop
  /-- It did not reach the service. -/
  | refused (service : a.1.service jwt a.2.now = none) (later : s.server.now ≤ a.2.now)
      (server : t.server = { s.server with now := a.2.now }) (handedOut : t.handedOut = s.handedOut)
  /-- The service was called. -/
  | served (request : Request) (service : a.1.service jwt a.2.now = some request)
      (generated : ∀ p ∈ returned jwt cfg s.server request a.2, p.refreshToken ≠ "")
      (server : serve cfg s.server (request, a.2.toInput) = some t.server)
      (handedOut : t.handedOut = returned jwt cfg s.server request a.2 ++ s.handedOut)

theorem handled_of_handle (h : handle jwt cfg s a = some t) : Handled jwt cfg s t a := by
  unfold handle at h
  cases hservice : a.1.service jwt a.2.now with
  | none =>
    simp only [hservice] at h
    split_ifs at h with hlater
    rw [← Option.some.inj h]
    exact .refused hservice hlater rfl rfl
  | some request =>
    simp only [hservice] at h
    split_ifs at h with hgenerated
    obtain ⟨server, hserver, rfl⟩ := Option.map_eq_some_iff.mp h
    exact .served request hservice hgenerated hserver rfl

/-- **What is returned.**  A pair of a family that is new, or of one that had a live row. -/
theorem mem_returned {server : Server} {request : Request} {input : SessionInput}
    (h : serve cfg s.server (request, input.toInput) = some server) {p : Pair Token}
    (hp : p ∈ returned jwt cfg s.server request input) :
    ∃ userId familyId, p = pairOf jwt input (newRow cfg input.toInput userId familyId) ∧
      returned jwt cfg s.server request input = [p] ∧
      server.log = s.server.log.issue p.row ∧ FreshToken s.server.log p.row ∧
      (request = .issueForNewSession userId ∧ FreshFamily s.server.log familyId ∨
        ∃ rawToken existing, request = .rotate rawToken ∧
          findByHash s.server.tokens (cfg.hashToken rawToken) = some existing ∧
          existing.live = true ∧ existing.userId = userId ∧ existing.familyId = familyId ∧
          server.tokens = (s.server.tokens.put (existing.revoke input.now)).put p.row) := by
  obtain ⟨-, -, htokens, hlog, hfresh⟩ := serve_eq_some h
  obtain ⟨row, hrow, rfl⟩ := Option.map_eq_some_iff.mp (Option.mem_toList.mp hp)
  have hlist : returned jwt cfg s.server request input = [pairOf jwt input row] := by
    rw [returned, hrow]
    rfl
  rw [hrow] at hlog hfresh
  have hnew := hfresh row rfl
  cases request with
  | issueForNewSession userId =>
    obtain rfl := Option.some.inj hrow
    exact ⟨userId, input.familyId, rfl, hlist, hlog, hnew.1, Or.inl ⟨rfl, hnew.2 userId rfl⟩⟩
  | rotate rawToken =>
    have hrot := rotation cfg s.server.tokens rawToken input.toInput
    have hreply : s.server.reply cfg (.rotate rawToken) input.toInput =
        (rotate cfg s.server.tokens rawToken input.toInput).2 := rfl
    have hwhole : server.tokens = (rotate cfg s.server.tokens rawToken input.toInput).1 := htokens
    rw [hreply] at hrow
    generalize rotate cfg s.server.tokens rawToken input.toInput = result at hrot hrow hwhole
    cases hrot with
    | refused | reused => cases hrow
    | exchanged existing hfind hlive _ _ =>
      obtain rfl := Option.some.inj hrow
      exact ⟨existing.userId, existing.familyId, rfl, hlist, hlog, hnew.1,
        Or.inr ⟨rawToken, existing, rfl, hfind, hlive, rfl, rfl, hwhole⟩⟩
  | revokeByToken rawToken =>
    have hreply : s.server.reply cfg (.revokeByToken rawToken) input.toInput = .loggedOut := by
      rw [Server.reply, wholeCall, revokeByToken]
      split <;> rfl
    rw [hreply] at hrow
    cases hrow
  | purgeExpired => cases hrow

/-! ## What holds of every session -/

/-- The invariant of the server and what it has handed out. -/
structure Sessions.Inv (jwt : JwtService Token) (cfg : Config) (s : Sessions Token) : Prop where
  server : s.server.Inv
  kept : Kept cfg s.server
  issued : ∀ r ∈ s.server.log.issued, ∃ p ∈ s.handedOut, p.row = r
  mem_issued : ∀ p ∈ s.handedOut, p.row ∈ s.server.log.issued
  tokenHash : ∀ p ∈ s.handedOut, p.row.tokenHash = cfg.hashToken p.refreshToken
  generated : ∀ p ∈ s.handedOut, p.refreshToken ≠ ""
  /-- Both tokens of a pair were made for one user, at one time. -/
  signed : ∀ p ∈ s.handedOut, p.row.createdAt ≤ s.server.now ∧
    ∃ email, p.accessToken = signAccessToken jwt ⟨p.row.userId, email⟩ p.row.createdAt
  /-- A session is of one user. -/
  userId : ∀ p ∈ s.handedOut, ∀ q ∈ s.handedOut, p.row.familyId = q.row.familyId →
    p.row.userId = q.row.userId
  /-- What is not current is spent. -/
  superseded : ∀ p ∈ s.handedOut, ∀ c, s.current p.row.familyId = some c → c.row ≠ p.row →
    TokenDead s.server p.row

theorem Sessions.inv_start (now : ℤ) : (Sessions.start now : Sessions Token).Inv jwt cfg where
  server := Server.inv_start now
  kept := kept_start now
  issued r h := absurd h (Table.not_mem_empty r)
  mem_issued _ h := nomatch h
  tokenHash _ h := nomatch h
  generated _ h := nomatch h
  signed _ h := nomatch h
  userId _ h := nomatch h
  superseded _ h := nomatch h

theorem Sessions.current_cons (p : Pair Token) (server : Server) (handedOut : List (Pair Token))
    (familyId : Uuid) :
    (⟨server, p :: handedOut⟩ : Sessions Token).current familyId =
      if p.row.familyId = familyId then some p
      else (⟨server, handedOut⟩ : Sessions Token).current familyId := by
  unfold Sessions.current
  rw [List.find?_cons]
  by_cases h : p.row.familyId = familyId <;> simp [h]

theorem Sessions.current_eq_some (h : s.current familyId = some c) :
    c ∈ s.handedOut ∧ c.row.familyId = familyId :=
  ⟨List.mem_of_find?_eq_some h, by simpa using List.find?_some h⟩

/-- A family that has had a pair has a current one. -/
theorem Sessions.exists_current {p : Pair Token} (hp : p ∈ s.handedOut) :
    ∃ c, s.current p.row.familyId = some c := by
  rw [← Option.isSome_iff_exists, Sessions.current, List.find?_isSome]
  exact ⟨p, hp, by simp⟩

/-- A live row is that of the current pair. -/
theorem Sessions.Inv.row_eq_of_live (hs : s.Inv jwt cfg) {r : RefreshToken}
    (hr : r ∈ s.server.tokens) (hlive : r.live = true) (hc : s.current r.familyId = some c) :
    c.row = r := by
  obtain ⟨p, hp, hpr⟩ := hs.issued _ (hs.server.issued r hr)
  rw [RefreshToken.asIssued_of_live hlive] at hpr
  subst hpr
  by_contra hne
  have hdead := (hs.superseded p hp c hc hne).dead p.row hr (RefreshToken.asIssued_of_live hlive)
  exact absurd hlive (by simp [hdead])

theorem log_eq_of_returned {server : Server} {request : Request} {input : SessionInput}
    (h : serve cfg s.server (request, input.toInput) = some server)
    (hnil : returned jwt cfg s.server request input = []) : server.log = s.server.log := by
  obtain ⟨-, -, -, hlog, -⟩ := serve_eq_some h
  rw [returned, Option.toList_eq_nil_iff, Option.map_eq_none_iff] at hnil
  rw [hlog, hnil]
  rfl

/-- **A token is spent when it is exchanged.** -/
theorem tokenDead_of_exchanged {server server' : Server} {existing new : RefreshToken} {now : ℤ}
    (hs : server.Inv) (hmem : existing ∈ server.tokens) (hlive : existing.live = true)
    (hfresh : FreshToken server.log new)
    (htokens : server'.tokens = (server.tokens.put (existing.revoke now)).put new)
    (hgrows : server.log.Grows server'.log) : TokenDead server' existing := by
  have hexisting : existing.asIssued = existing := RefreshToken.asIssued_of_live hlive
  have hissued : existing ∈ server.log.issued := hexisting ▸ hs.issued existing hmem
  refine ⟨hgrows _ hissued, fun x hx hxr => ?_⟩
  have hid : x.id = existing.id := (RefreshToken.fields_eq (hxr.trans hexisting.symm)).1
  rcases mem_rotated htokens hx with rfl | rfl | ⟨-, hne⟩
  · exact absurd hid.symm (hfresh existing hissued).1
  · exact RefreshToken.live_revoke existing now
  · exact absurd hid hne

/-- **The invariant is kept**, where a pair is handed out. -/
theorem Sessions.Inv.of_returned (hs : s.Inv jwt cfg) {server : Server} {request : Request}
    {input : SessionInput} (h : serve cfg s.server (request, input.toInput) = some server)
    {p : Pair Token} (hp : p ∈ returned jwt cfg s.server request input)
    (hgenerated : p.refreshToken ≠ "") :
    Sessions.Inv jwt cfg (⟨server, p :: s.handedOut⟩ : Sessions Token) := by
  obtain ⟨userId, familyId, rfl, -, hlog, hfresh, horigin⟩ := mem_returned h hp
  obtain ⟨hle, hnow, -⟩ := serve_eq_some h
  have hserved : Served cfg s.server server (request, input.toInput) := served_of_serve h
  have hgrows : s.server.log.Grows server.log := hserved.grows
  -- an earlier pair of the family is of the same user, and its token is spent now
  have hearlier : ∀ q ∈ s.handedOut, q.row.familyId = familyId →
      q.row.userId = userId ∧ TokenDead server q.row := by
    intro q hq hfamily
    rcases horigin with ⟨-, hnew⟩ | ⟨rawToken, existing, -, hfind, hlive, rfl, rfl, htokens⟩
    · exact absurd hfamily (hnew q.row (hs.mem_issued q hq))
    · have hmem := (findByHash_eq_some hfind).1
      obtain ⟨e, he, her⟩ := hs.issued _ (hs.server.issued existing hmem)
      rw [RefreshToken.asIssued_of_live hlive] at her
      refine ⟨(hs.userId q hq e he (hfamily.trans (her ▸ rfl))).trans (her ▸ rfl), ?_⟩
      by_cases hrow : q.row = existing
      · rw [hrow]
        exact tokenDead_of_exchanged hs.server hmem hlive hfresh htokens hgrows
      · obtain ⟨c, hc⟩ := Sessions.exists_current hq
        have hcrow : c.row = existing := hs.row_eq_of_live hmem hlive (hfamily ▸ hc)
        exact hserved.tokenDead (hs.superseded q hq c hc fun heq => hrow (heq ▸ hcrow))
  refine ⟨hserved.inv hs.server, kept_of_serve hs.server hs.kept h, fun r hr => ?_, ?_, ?_, ?_,
    ?_, ?_, ?_⟩
  · rw [hlog, Log.issue, Table.mem_put] at hr
    rcases hr with rfl | ⟨hold, -⟩
    · exact ⟨_, List.mem_cons_self, rfl⟩
    · obtain ⟨q, hq, rfl⟩ := hs.issued r hold
      exact ⟨q, List.mem_cons_of_mem _ hq, rfl⟩
  · refine List.forall_mem_cons.mpr ⟨?_, fun q hq => hgrows _ (hs.mem_issued q hq)⟩
    rw [hlog]
    exact Table.mem_put_self _ _
  · exact List.forall_mem_cons.mpr ⟨rfl, hs.tokenHash⟩
  · exact List.forall_mem_cons.mpr ⟨hgenerated, hs.generated⟩
  · refine List.forall_mem_cons.mpr ⟨⟨hnow.ge, input.email, rfl⟩, fun q hq => ?_⟩
    obtain ⟨hcreated, hsigned⟩ := hs.signed q hq
    exact ⟨(hcreated.trans hle).trans hnow.ge, hsigned⟩
  · intro q hq q' hq' hfamily
    rcases List.mem_cons.mp hq with rfl | hold <;> rcases List.mem_cons.mp hq' with rfl | hold'
    · rfl
    · exact (hearlier q' hold' hfamily.symm).1.symm
    · exact (hearlier q hold hfamily).1
    · exact hs.userId q hold q' hold' hfamily
  · intro q hq c hc hne
    rw [Sessions.current_cons] at hc
    split_ifs at hc with hfamily
    · rcases List.mem_cons.mp hq with rfl | hold
      · exact absurd (congrArg Pair.row (Option.some.inj hc)).symm hne
      · exact (hearlier q hold hfamily.symm).2
    · rcases List.mem_cons.mp hq with rfl | hold
      · exact absurd rfl hfamily
      · exact hserved.tokenDead (hs.superseded q hold c hc hne)

/-- **The invariant is kept.** -/
theorem Sessions.Inv.of_handle (hs : s.Inv jwt cfg) (h : handle jwt cfg s a = some t) :
    t.Inv jwt cfg := by
  obtain ⟨server, handedOut⟩ := t
  cases handled_of_handle h with
  | refused hservice hlater hserver hhanded =>
    obtain rfl : server = _ := hserver
    obtain rfl : handedOut = _ := hhanded
    exact ⟨⟨hs.server.issued, hs.server.live, hs.server.tokenHash⟩,
      fun r hr hgrace => hs.kept r hr (le_trans hlater hgrace), hs.issued, hs.mem_issued,
      hs.tokenHash, hs.generated,
      fun p hp => ⟨(hs.signed p hp).1.trans hlater, (hs.signed p hp).2⟩, hs.userId,
      fun p hp c hc hne => ⟨(hs.superseded p hp c hc hne).issued,
        (hs.superseded p hp c hc hne).dead⟩⟩
  | served request hservice hgenerated hserver hhanded =>
    have hserved : Served cfg s.server server (request, a.2.toInput) := served_of_serve hserver
    obtain rfl : handedOut = _ := hhanded
    cases hreturned : returned jwt cfg s.server request a.2 with
    | nil =>
      obtain ⟨hle, hnow, -⟩ := serve_eq_some hserver
      have hlog : server.log = s.server.log := log_eq_of_returned hserver hreturned
      have hnow' : s.server.now ≤ server.now := hle.trans hnow.ge
      exact ⟨hserved.inv hs.server, kept_of_serve hs.server hs.kept hserver,
        fun r hr => hs.issued r (hlog ▸ hr), fun p hp => hlog ▸ hs.mem_issued p hp, hs.tokenHash,
        hs.generated, fun p hp => ⟨(hs.signed p hp).1.trans hnow', (hs.signed p hp).2⟩, hs.userId,
        fun p hp c hc hne => hserved.tokenDead (hs.superseded p hp c hc hne)⟩
    | cons p more =>
      have hp : p ∈ returned jwt cfg s.server request a.2 := by
        rw [hreturned]
        exact List.mem_cons_self
      obtain ⟨-, -, -, honly, -⟩ := mem_returned hserver hp
      obtain rfl : more = [] := (List.cons.inj (hreturned.symm.trans honly)).2
      exact hs.of_returned hserver hp (hgenerated p hp)

/-! ## In turn -/

/-- Of the refresh tokens of the family, only the current one is presented, and not to log out. -/
def InTurn (jwt : JwtService Token) (cfg : Config) (familyId : Uuid) (s : Sessions Token)
    (a : SessionRequest Token × SessionInput) : Prop :=
  match a.1.service jwt a.2.now with
  | some (.rotate rawToken) =>
    ∀ p ∈ s.handedOut, p.row.familyId = familyId → cfg.hashToken rawToken = p.row.tokenHash →
      s.current familyId = some p
  | some (.revokeByToken rawToken) =>
    ∀ p ∈ s.handedOut, p.row.familyId = familyId → cfg.hashToken rawToken ≠ p.row.tokenHash
  | _ => True

instance [DecidableEq Token] (familyId : Uuid) (s : Sessions Token)
    (a : SessionRequest Token × SessionInput) : Decidable (InTurn jwt cfg familyId s a) := by
  unfold InTurn
  split <;> infer_instance

/-- The current token of the family has not been spent. -/
def Sessions.Upheld (s : Sessions Token) (familyId : Uuid) : Prop :=
  ∀ c, s.current familyId = some c → ∀ x ∈ s.server.tokens, x.asIssued = c.row → x.live = true

theorem mem_of_mem_revokeFamily {tokens : Tokens} {k : Uuid} {now : ℤ} {r : RefreshToken}
    (hr : r ∈ revokeFamily tokens k now) (hne : r.familyId ≠ k) : r ∈ tokens := by
  rcases mem_revokeFamily.mp hr with ⟨r', -, hfamily, -, rfl⟩ | ⟨hold, -⟩
  · exact absurd hfamily hne
  · exact hold

/-- **What spends a token**: presenting one of its family. -/
theorem presented_of_dead {s t : Server} {request : Request} {input : Input}
    (h : serve cfg s (request, input) = some t) {x : RefreshToken} (hx : x ∈ t.tokens)
    (hdead : x.live = false) :
    x ∈ s.tokens ∨ ∃ rawToken existing,
      findByHash s.tokens (cfg.hashToken rawToken) = some existing ∧
        existing.familyId = x.familyId ∧
        (request = .revokeByToken rawToken ∨ request = .rotate rawToken ∧
          (existing.live = false ∨ inserted cfg input request (s.reply cfg request input) =
            some (newRow cfg input existing.userId existing.familyId))) := by
  obtain ⟨-, -, htokens, -, -⟩ := serve_eq_some h
  rw [htokens] at hx
  cases request with
  | issueForNewSession userId =>
    rcases Table.mem_put.mp hx with rfl | ⟨hold, -⟩
    · cases hdead
    · exact Or.inl hold
  | rotate rawToken =>
    have hrot := rotation cfg s.tokens rawToken input
    have hreply : s.reply cfg (.rotate rawToken) input =
        (rotate cfg s.tokens rawToken input).2 := rfl
    have hwhole : x ∈ (rotate cfg s.tokens rawToken input).1 := hx
    rw [hreply]
    generalize rotate cfg s.tokens rawToken input = result at hrot hwhole
    cases hrot with
    | refused => exact Or.inl hwhole
    | reused existing hfind hwas =>
      by_cases hfamily : x.familyId = existing.familyId
      · exact Or.inr ⟨rawToken, existing, hfind, hfamily.symm, Or.inr ⟨rfl, Or.inl hwas⟩⟩
      · exact Or.inl (mem_of_mem_revokeFamily hwhole hfamily)
    | exchanged existing hfind hlive _ _ =>
      rcases mem_rotated rfl hwhole with rfl | rfl | ⟨hold, -⟩
      · cases hdead
      · exact Or.inr ⟨rawToken, existing, hfind, rfl, Or.inr ⟨rfl, Or.inr rfl⟩⟩
      · exact Or.inl hold
  | revokeByToken rawToken =>
    rw [wholeCall, revokeByToken] at hx
    cases hfind : findByHash s.tokens (cfg.hashToken rawToken) with
    | none =>
      rw [hfind] at hx
      exact Or.inl hx
    | some existing =>
      rw [hfind] at hx
      by_cases hfamily : x.familyId = existing.familyId
      · exact Or.inr ⟨rawToken, existing, hfind, hfamily.symm, Or.inl rfl⟩
      · exact Or.inl (mem_of_mem_revokeFamily hx hfamily)
  | purgeExpired => exact Or.inl (Table.mem_filter.mp hx).1

/-- The row of a new pair is stored as it was issued. -/
theorem live_of_returned (hs : s.Inv jwt cfg) {server : Server} {request : Request}
    {input : SessionInput} (h : serve cfg s.server (request, input.toInput) = some server)
    {p : Pair Token} (hp : p ∈ returned jwt cfg s.server request input) {x : RefreshToken}
    (hx : x ∈ server.tokens) (hxr : x.asIssued = p.row) : x.live = true := by
  obtain ⟨userId, familyId, hpair, -, hlog, hfresh, -⟩ := mem_returned h hp
  have hissued : p.row ∈ server.log.issued := hlog ▸ Table.mem_put_self _ _
  have hmem : p.row ∈ server.tokens := by
    refine ((served_of_serve h).mem_of_issued hissued).resolve_left fun hold => ?_
    exact (hfresh p.row hold).1 rfl
  have hlive : p.row.live = true := ((served_of_serve h).inv hs.server).live p.row hissued
  have hsame : x.asIssued = p.row.asIssued := hxr.trans (RefreshToken.asIssued_of_live hlive).symm
  rwa [Server.eq_of_asIssued_eq hx hmem hsame]

/-- **In turn, the current token is not spent.** -/
theorem Sessions.Upheld.of_handle (hs : s.Inv jwt cfg) (hup : s.Upheld familyId)
    (hturn : InTurn jwt cfg familyId s a) (h : handle jwt cfg s a = some t) :
    t.Upheld familyId := by
  obtain ⟨server, handedOut⟩ := t
  cases handled_of_handle h with
  | refused hservice hlater hserver hhanded =>
    obtain rfl : server = _ := hserver
    obtain rfl : handedOut = _ := hhanded
    exact hup
  | served request hservice hgenerated hserver hhanded =>
    obtain rfl : handedOut = _ := hhanded
    intro c hc x hx hxr
    have hfamily : c.row.familyId = familyId := (Sessions.current_eq_some hc).2
    -- a pair of this family that is returned is the current one
    by_cases hnew : ∃ p ∈ returned jwt cfg s.server request a.2, p.row.familyId = familyId
    · obtain ⟨p, hp, hpfamily⟩ := hnew
      obtain ⟨-, -, -, honly, -⟩ := mem_returned hserver hp
      rw [honly, List.singleton_append, Sessions.current_cons, if_pos hpfamily] at hc
      obtain rfl := Option.some.inj hc
      exact live_of_returned hs hserver hp hx hxr
    · have hold : s.current familyId = some c := by
        have hnone : ((returned jwt cfg s.server request a.2).find? fun p =>
            p.row.familyId = familyId) = none :=
          List.find?_eq_none.mpr fun p hp hpfamily => hnew ⟨p, hp, by simpa using hpfamily⟩
        rwa [Sessions.current, List.find?_append, hnone, Option.none_or] at hc
      by_contra hdead
      have hxfamily : x.familyId = familyId := by
        rw [← hfamily, ← hxr]
        rfl
      rcases presented_of_dead hserver hx (Bool.eq_false_iff.mpr hdead) with
        hmem | ⟨rawToken, existing, hfind, hefamily, hrequest⟩
      · exact hdead (hup c hold x hmem hxr)
      · obtain ⟨hemem, hehash⟩ := findByHash_eq_some hfind
        obtain ⟨e, he, her⟩ := hs.issued _ (hs.server.issued existing hemem)
        have hepair : e.row.familyId = familyId := her ▸ hefamily.trans hxfamily
        have hepresented : cfg.hashToken rawToken = e.row.tokenHash := her ▸ hehash.symm
        unfold InTurn at hturn
        rcases hrequest with rfl | ⟨rfl, hlive⟩ <;> rw [hservice] at hturn
        · exact hturn e he hepair hepresented
        · obtain rfl : c = e :=
            Option.some.inj (hold.symm.trans (hturn e he hepair hepresented))
          rcases hlive with hlive | hinserted
          · exact absurd (hup c hold existing hemem her.symm) (by simp [hlive])
          · refine hnew ⟨pairOf jwt a.2 (newRow cfg a.2.toInput existing.userId existing.familyId),
              ?_, hefamily.trans hxfamily⟩
            rw [returned, hinserted]
            exact List.mem_singleton.mpr rfl

/-- **The current token is accepted**, as long as it has not been spent and has not expired. -/
theorem Sessions.Upheld.renewed (hgrace : 0 ≤ cfg.purgeGraceMs) (hs : s.Inv jwt cfg)
    (hup : s.Upheld familyId) (hc : s.current familyId = some c) {input : SessionInput}
    (hexp : input.now < c.row.expiresAt) (huser : input.userExists = true)
    (h : handle jwt cfg s (.refresh c.refreshToken, input) = some t) :
    t.handedOut =
      pairOf jwt input (newRow cfg input.toInput c.row.userId familyId) :: s.handedOut := by
  obtain ⟨hmem, hfamily⟩ := Sessions.current_eq_some hc
  have hservice : (SessionRequest.refresh c.refreshToken).service jwt input.now =
      some (.rotate c.refreshToken) := if_neg (hs.generated c hmem)
  cases handled_of_handle h with
  | refused hnone => exact absurd (hservice.symm.trans hnone) (by simp)
  | served request hrequest hgenerated hserver hhanded =>
    obtain rfl : Request.rotate c.refreshToken = request :=
      Option.some.inj (hservice.symm.trans hrequest)
    obtain ⟨hle, -⟩ := serve_eq_some hserver
    obtain ⟨x, hx, hxr⟩ := hs.kept c.row (hs.mem_issued c hmem) (by
      have hnow : s.server.now ≤ input.now := hle
      omega)
    obtain rfl : x = c.row := by
      rw [← hxr, RefreshToken.asIssued_of_live (hup c hc x hx hxr)]
    have hfind : findByHash s.server.tokens (cfg.hashToken c.refreshToken) = some c.row := by
      rw [← hs.tokenHash c hmem]
      exact hs.server.findByHash hx
    have hreply : s.server.reply cfg (.rotate c.refreshToken) input.toInput =
        .rotated c.refreshToken c.row input.rawToken := by
      rw [Server.reply, wholeCall, rotate_of_live hfind (hup c hc _ hx hxr) hexp huser]
    rw [hhanded, returned, hreply, ← hfamily]
    rfl

/-! ## Out of turn -/

/-- A refresh token of the family is presented to log out with, or one that is not the current
one to be exchanged, at a time when its row is still kept. -/
def Ends (jwt : JwtService Token) (cfg : Config) (familyId : Uuid) (s : Sessions Token)
    (a : SessionRequest Token × SessionInput) : Prop :=
  ∃ p ∈ s.handedOut, p.row.familyId = familyId ∧
    a.2.now ≤ p.row.expiresAt + cfg.purgeGraceMs ∧
      ∃ rawToken, cfg.hashToken rawToken = p.row.tokenHash ∧
        (a.1.service jwt a.2.now = some (.revokeByToken rawToken) ∨
          a.1.service jwt a.2.now = some (.rotate rawToken) ∧
            ∀ c, s.current familyId = some c → c.row ≠ p.row)

/-- No pair of the family is handed out from here on, and the access tokens of those that were
are refused when a lifetime has passed since `now`. -/
def OverSince (jwt : JwtService Token) (cfg : Config) (familyId : Uuid) (s : Sessions Token)
    (now : ℤ) : Prop :=
  ∀ more u, exec (handle jwt cfg) s more = some u →
    u.handedOut.filter (fun p => p.row.familyId = familyId) =
        s.handedOut.filter (fun p => p.row.familyId = familyId) ∧
      ∀ p ∈ u.handedOut, p.row.familyId = familyId → ∀ later, now + jwt.expiresInMs ≤ later →
        canActivate jwt false (some p.accessToken) later = .error (.unauthorized "Unauthorized") ∧
          authenticate jwt (some p.accessToken) later = none

/-- **Out of turn, the family is revoked.** -/
theorem familyDead_of_ends (hs : s.Inv jwt cfg) (hends : Ends jwt cfg familyId s a)
    (h : handle jwt cfg s a = some t) : FamilyDead t.server familyId := by
  obtain ⟨p, hp, rfl, hkept, rawToken, hhash, hservice⟩ := hends
  cases handled_of_handle h with
  | refused hnone =>
    rcases hservice with hservice | ⟨hservice, -⟩ <;>
      exact absurd (hservice.symm.trans hnone) (by simp)
  | served request hrequest hgenerated hserver hhanded =>
    obtain ⟨hle, -, htokens, -, -⟩ := serve_eq_some hserver
    have hissued : p.row ∈ s.server.log.issued := hs.mem_issued p hp
    have hnow : s.server.now ≤ a.2.now := hle
    -- either way the family of the row that is found is revoked
    have hrevoked : t.server.tokens = revokeFamily s.server.tokens p.row.familyId a.2.now := by
      rcases hservice with hservice | ⟨hservice, hne⟩
      · obtain rfl := Option.some.inj (hservice.symm.trans hrequest)
        obtain ⟨x, hx, hxr⟩ := hs.kept p.row hissued (hnow.trans hkept)
        have hp' := RefreshToken.asIssued_of_live (hs.server.live p.row hissued)
        obtain ⟨-, -, hxhash, hxfamily, -⟩ := RefreshToken.fields_eq (hxr.trans hp'.symm)
        have hfind : findByHash s.server.tokens (cfg.hashToken rawToken) = some x := by
          rw [hhash, ← hxhash]
          exact hs.server.findByHash hx
        rw [htokens, wholeCall, revokeByToken, hfind, ← hxfamily]
      · obtain rfl := Option.some.inj (hservice.symm.trans hrequest)
        obtain ⟨c, hc⟩ := Sessions.exists_current hp
        have hdead : TokenDead s.server p.row := hs.superseded p hp c hc (hne c hc)
        rw [htokens, wholeCall, rotate_of_tokenDead hs.server hs.kept hdead hhash hnow hkept]
    refine ⟨⟨p.row, (served_of_serve hserver).grows _ hissued, rfl⟩, fun x hx hfamily => ?_⟩
    rw [hrevoked] at hx
    exact Bool.eq_false_iff.mpr fun hlive => ((mem_revokeFamily_of_live hlive).mp hx).2 hfamily

/-- **A revoked family is handed nothing.** -/
theorem FamilyDead.of_handle (hdead : FamilyDead s.server familyId)
    (h : handle jwt cfg s a = some t) :
    FamilyDead t.server familyId ∧
      t.handedOut.filter (fun p => p.row.familyId = familyId) =
        s.handedOut.filter (fun p => p.row.familyId = familyId) := by
  obtain ⟨server, handedOut⟩ := t
  cases handled_of_handle h with
  | refused hservice hlater hserver hhanded =>
    obtain rfl : server = _ := hserver
    obtain rfl : handedOut = _ := hhanded
    exact ⟨⟨hdead.known, hdead.dead⟩, rfl⟩
  | served request hservice hgenerated hserver hhanded =>
    obtain rfl : handedOut = _ := hhanded
    refine ⟨(served_of_serve hserver).familyDead hdead, ?_⟩
    rw [List.filter_append, List.filter_eq_nil_iff.mpr, List.nil_append]
    intro p hp hpfamily
    obtain ⟨userId, k, rfl, -, -, -, horigin⟩ := mem_returned hserver hp
    obtain rfl : k = familyId := of_decide_eq_true hpfamily
    rcases horigin with ⟨-, hnew⟩ | ⟨rawToken, existing, -, hfind, hlive, -, hfamily, -⟩
    · obtain ⟨r, hr, hrfamily⟩ := hdead.known
      exact hnew r hr hrfamily
    · have hspent := hdead.dead existing (findByHash_eq_some hfind).1 hfamily
      exact absurd hlive (by simp [hspent])

/-- A revoked family is over. -/
theorem FamilyDead.overSince (hs : s.Inv jwt cfg) (hdead : FamilyDead s.server familyId)
    {now : ℤ} (hnow : s.server.now ≤ now) : OverSince jwt cfg familyId s now := by
  intro more u hu
  have hover : FamilyDead u.server familyId ∧ u.Inv jwt cfg ∧
      u.handedOut.filter (fun p => p.row.familyId = familyId) =
        s.handedOut.filter (fun p => p.row.familyId = familyId) := by
    refine (reach_of_exec hu).invariant (P := fun u : Sessions Token =>
      FamilyDead u.server familyId ∧ u.Inv jwt cfg ∧
        u.handedOut.filter (fun p => p.row.familyId = familyId) =
          s.handedOut.filter (fun p => p.row.familyId = familyId)) ?_ ⟨hdead, hs, rfl⟩
    rintro v a w ⟨hvdead, hv, hsame⟩ - hstep
    obtain ⟨hwdead, hkept⟩ := hvdead.of_handle hstep
    exact ⟨hwdead, hv.of_handle hstep, hkept.trans hsame⟩
  refine ⟨hover.2.2, fun p hp hfamily later hlater => ?_⟩
  have hmem : p ∈ s.handedOut.filter fun p => p.row.familyId = familyId := by
    rw [← hover.2.2]
    exact List.mem_filter.mpr ⟨hp, decide_eq_true hfamily⟩
  obtain ⟨hcreated, email, htoken⟩ := hs.signed p (List.mem_filter.mp hmem).1
  rw [htoken]
  exact refused_of_expired (by omega)

theorem now_of_handle (h : handle jwt cfg s a = some t) : t.server.now = a.2.now := by
  cases handled_of_handle h with
  | refused _ _ hserver _ => rw [hserver]
  | served _ _ _ hserver _ => exact (serve_eq_some hserver).2.1

theorem Sessions.inv_of_exec {acts : List (SessionRequest Token × SessionInput)} {now : ℤ}
    (hrun : exec (handle jwt cfg) (Sessions.start now) acts = some s) : s.Inv jwt cfg :=
  (reach_of_exec hrun).invariant (fun _ _ _ hs _ h => hs.of_handle h) (Sessions.inv_start now)

/-- **A session lasts until it is ended**, where requests are handled one after another.  Its access
tokens name the user of its current pair.  If its refresh tokens have been presented in turn, the
current one is exchanged for a new pair of the same user.  When one is presented out of turn, or to
log out with, while its row is kept, the session is over, and its access tokens are refused once a
lifetime has passed. -/
theorem sessions_last_until_ended (jwt : JwtService Token) (cfg : Config)
    (hgrace : 0 ≤ cfg.purgeGraceMs) (now : ℤ) (acts : List (SessionRequest Token × SessionInput))
    (s : Sessions Token) (hrun : exec (handle jwt cfg) (Sessions.start now) acts = some s)
    (familyId : Uuid) :
    (∀ c, s.current familyId = some c → ∀ p ∈ s.handedOut, p.row.familyId = familyId →
      ∀ at_ user, canActivate jwt false (some p.accessToken) at_ = .ok (some user) →
        user.userId = c.row.userId) ∧
    (AllSteps (handle jwt cfg) (InTurn jwt cfg familyId) (Sessions.start now) acts →
      ∀ c, s.current familyId = some c → ∀ input : SessionInput, input.now < c.row.expiresAt →
        input.userExists = true →
          ∀ t, handle jwt cfg s (.refresh c.refreshToken, input) = some t →
            t.handedOut = pairOf jwt input (newRow cfg input.toInput c.row.userId familyId) ::
              s.handedOut) ∧
    ∀ a t, handle jwt cfg s a = some t → Ends jwt cfg familyId s a →
      OverSince jwt cfg familyId t a.2.now := by
  have hs : s.Inv jwt cfg := Sessions.inv_of_exec hrun
  refine ⟨fun c hc p hp hfamily at_ user huser => ?_, fun hturn c hc input hexp hexists t h => ?_,
    fun a t h hends => ?_⟩
  · obtain ⟨hmem, hcfamily⟩ := Sessions.current_eq_some hc
    obtain ⟨-, email, htoken⟩ := hs.signed p hp
    rw [htoken] at huser
    rw [userId_of_canActivate huser]
    exact hs.userId p hp c hmem (hfamily.trans hcfamily.symm)
  · have hup : s.Inv jwt cfg ∧ s.Upheld familyId := by
      refine (hturn.reach hrun).invariant (P := fun s => s.Inv jwt cfg ∧ s.Upheld familyId)
        (fun s a t hs hC h => ⟨hs.1.of_handle h, hs.2.of_handle hs.1 hC h⟩)
        ⟨Sessions.inv_start now, fun c hc => ?_⟩
      cases hc
    exact hup.2.renewed hgrace hs hc hexp hexists h
  · exact (familyDead_of_ends hs hends h).overSince (hs.of_handle h) (now_of_handle h).le

/-- A payload, and the second it expires in: `jsonwebtoken` reads the clock in whole seconds. -/
abbrev PlainToken := JwtPayload × ℤ

def plainVerify (token : PlainToken) (now : ℤ) : Option JwtPayload :=
  if token.2 ≤ now / 1000 then none else some token.1

theorem plainVerify_verifies :
    Verifies (fun payload now => (payload, now / 1000 + 5)) 5000 plainVerify where
  payload_eq payload now at_ found h := by
    unfold plainVerify at h
    split_ifs at h
    exact (Option.some.inj h).symm
  expired payload now at_ h := if_pos (by omega)

/-- Access tokens that are not encrypted, good for five seconds. -/
def plainJwt : JwtService PlainToken where
  signAsync payload now := (payload, now / 1000 + 5)
  expiresInMs := 5000
  verifyAsync := plainVerify
  verifyAsync_verifies := plainVerify_verifies
  passport := plainVerify
  passport_verifies := plainVerify_verifies

/-- A login, and an exchange two seconds later. -/
def stolenRun : List (SessionRequest PlainToken × SessionInput) :=
  [ (.issueForNewSession 5, ⟨⟨1, "t0", 9, 0, true, 0⟩, []⟩),
    (.refresh "t0", ⟨⟨2, "t1", 0, 2000, true, 0⟩, []⟩) ]

/-- The tokens were presented in turn, and the second one is exchanged; or the first one is
presented again, and the session is over. -/
theorem sessions_last_until_ended_stolenRun :
    ∃ s, exec (handle plainJwt ⟨id, 60000, 1000⟩) (Sessions.start 0) stolenRun = some s ∧
      (∀ t, handle plainJwt ⟨id, 60000, 1000⟩ s
          (.refresh "t1", ⟨⟨3, "t2", 0, 3000, true, 0⟩, []⟩) = some t →
        t.handedOut.length = s.handedOut.length + 1) ∧
      ∀ t, handle plainJwt ⟨id, 60000, 1000⟩ s
          (.refresh "t0", ⟨⟨3, "t2", 0, 3000, true, 0⟩, []⟩) = some t →
        OverSince plainJwt ⟨id, 60000, 1000⟩ 9 t 3000 := by
  have hrun : ∃ s, exec (handle plainJwt ⟨id, 60000, 1000⟩) (Sessions.start 0) stolenRun =
      some s ∧ s.handedOut =
        [⟨⟨2, 5, "t1", 9, 62000, none, 2000⟩, "t1", (⟨5, []⟩, 7)⟩,
          ⟨⟨1, 5, "t0", 9, 60000, none, 0⟩, "t0", (⟨5, []⟩, 5)⟩] := by
    refine ⟨_, rfl, ?_⟩
    decide
  obtain ⟨s, hs, hpairs⟩ := hrun
  have hcurrent : s.current 9 =
      some ⟨⟨2, 5, "t1", 9, 62000, none, 2000⟩, "t1", (⟨5, []⟩, 7)⟩ := by
    rw [Sessions.current, hpairs]
    decide
  obtain ⟨-, hrenewed, hover⟩ := sessions_last_until_ended plainJwt ⟨id, 60000, 1000⟩ (by decide) 0
    stolenRun s hs 9
  refine ⟨s, hs, fun t ht => ?_, fun t ht => hover _ t ht ?_⟩
  · rw [hrenewed (by decide) _ hcurrent _ (by decide) rfl t ht, List.length_cons]
  · refine ⟨⟨⟨1, 5, "t0", 9, 60000, none, 0⟩, "t0", (⟨5, []⟩, 5)⟩, ?_, rfl, by decide, "t0", rfl,
      Or.inr ⟨rfl, fun c hc => ?_⟩⟩
    · rw [hpairs]
      decide
    · rw [hcurrent] at hc
      obtain rfl := Option.some.inj hc
      decide

end Auth
end GroupChat

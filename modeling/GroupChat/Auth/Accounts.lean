import GroupChat.Common.Exception
import GroupChat.Database.Column
import GroupChat.Database.Table
import GroupChat.Text.Length
import GroupChat.Text.LowerCase
import GroupChat.Transition.Run
import Mathlib.Logic.Function.Basic

/-!
# Whose account a sign-in opens

There are three ways to get tokens: `register`, `login` and `googleLogin`.  They
look users up under two different keys, the normalised email and the subject of
the identity provider, and they overlap: between a lookup and the insert that
follows it any other call may run.

`identities_are_bound` says that none of this ever opens the wrong account.  What
carries it is that a row is never changed after its insert, so a row that was read
is still the row, and that the table itself refuses a second row under either key.
The lookups before an insert are there for the message only.
-/

namespace GroupChat
namespace Auth

open Common Database Text Transition

/-! ## Users -/

inductive AuthProvider where
  | LOCAL
  | GOOGLE
deriving DecidableEq

/-- A row of the user table. -/
structure User where
  id : Uuid
  email : JsString
  /-- The hash of the password; null for an account without one. -/
  password : Option String
  name : JsString
  provider : AuthProvider
  /-- The `sub` claim of the identity provider. -/
  providerId : Option JsString
deriving DecidableEq

abbrev Users := Table User.id

/-- What `users.create` is given. -/
structure UserCreateInput where
  email : JsString
  password : Option String
  name : JsString
  provider : AuthProvider
  providerId : Option JsString
deriving DecidableEq

/-- The row under a generated id. -/
def UserCreateInput.row (data : UserCreateInput) (id : Uuid) : User :=
  ⟨id, data.email, data.password, data.name, data.provider, data.providerId⟩

/-- A claim that should be a boolean. -/
inductive BooleanClaim where
  | missing
  | boolean (value : Bool)
  | other
deriving DecidableEq

/-- The claims of an identity token, as far as they are read. -/
structure Payload where
  iss : Option JsString
  sub : Option JsString
  email : Option JsString
  emailVerified : BooleanClaim
  name : Option JsString
deriving DecidableEq

/-- What is kept of an identity token. -/
structure GoogleIdentity where
  providerId : JsString
  email : JsString
  name : JsString
deriving DecidableEq

/-- What the calls use of libraries. -/
structure Libraries where
  case : LowerCase
  validator : Validator
  /-- The shape the validator asks of an address. -/
  isEmail : JsString → Bool
  /-- `argon2.verify`, of a stored hash and a password. -/
  verify : String → JsString → Bool
  /-- The hash that stands in for a missing one. -/
  dummyHash : String
  /-- `verifyIdToken` at some moment: `none` when the signature, the audience or the
  expiry is wrong, `some none` when the ticket has no payload. -/
  verifyIdToken : JsString → ℤ → Option (Option Payload)

variable (lib : Libraries)

def normalizeEmail (value : JsString) : JsString := lib.case.toLowerCase value.trim

/-- **Normalising twice is normalising once.** -/
theorem normalizeEmail_normalizeEmail (value : JsString) :
    normalizeEmail lib (normalizeEmail lib value) = normalizeEmail lib value := by
  unfold normalizeEmail
  rw [lib.case.trim_toLowerCase_trim, lib.case.idempotent]

/-! ## Bodies -/

def EMAIL_MAX_LENGTH : ℕ := 254
def PASSWORD_MIN_LENGTH : ℕ := 8
def PASSWORD_MAX_LENGTH : ℕ := 128
def NAME_MIN_LENGTH : ℕ := 1
def NAME_MAX_LENGTH : ℕ := 80

structure RegisterDto where
  email : JsString
  password : JsString
  name : JsString
deriving DecidableEq

structure LoginDto where
  email : JsString
  password : JsString
deriving DecidableEq

/-- The email of either body, as the pipe passes it on. -/
def emailField (email : JsString) : Option JsString :=
  let email := normalizeEmail lib email
  if lib.isEmail email ∧ lib.validator.length email ≤ EMAIL_MAX_LENGTH then some email else none

/-- `RegisterDto` under the validation pipe; `none` is a body that is refused. -/
def registerDto (body : RegisterDto) : Option RegisterDto :=
  (emailField lib body.email).bind fun email =>
    if PASSWORD_MIN_LENGTH ≤ lib.validator.length body.password ∧
        lib.validator.length body.password ≤ PASSWORD_MAX_LENGTH ∧
          NAME_MIN_LENGTH ≤ lib.validator.length body.name.trim ∧
            lib.validator.length body.name.trim ≤ NAME_MAX_LENGTH then
      some ⟨email, body.password, body.name.trim⟩
    else none

/-- `LoginDto` under the validation pipe. -/
def loginDto (body : LoginDto) : Option LoginDto :=
  (emailField lib body.email).bind fun email =>
    if lib.validator.length body.password ≤ PASSWORD_MAX_LENGTH then some ⟨email, body.password⟩
    else none

/-- `GoogleLoginDto` under the validation pipe. -/
def googleLoginDto (idToken : JsString) : Option JsString :=
  if 1 ≤ lib.validator.length idToken then some idToken else none

/-! ## The identity token -/

def VALID_ISSUERS : List JsString :=
  [JsString.ofString "accounts.google.com", JsString.ofString "https://accounts.google.com"]

/-- The value counts as true in a condition: it is there and not empty. -/
def truthy (value : Option JsString) : Bool := value.any fun us => us ≠ []

/-- `GoogleService.verify`, of what `verifyIdToken` came to. -/
def googleVerify (ticket : Option (Option Payload)) : Except Exception GoogleIdentity :=
  match ticket with
  | none => .error (.unauthorized "Invalid Google token")
  | some none => .error (.unauthorized "Google token could not be read")
  | some (some payload) =>
    if ¬ truthy payload.iss ∨ payload.iss.getD [] ∉ VALID_ISSUERS then
      .error (.unauthorized "Google token has an unexpected issuer")
    else if ¬ truthy payload.email ∨ payload.emailVerified ≠ .boolean true then
      .error (.unauthorized "Google account email is not verified")
    else if ¬ truthy payload.sub then
      .error (.unauthorized "Google token is missing a subject")
    else
      .ok ⟨payload.sub.getD [], normalizeEmail lib (payload.email.getD []),
        payload.name.getD (normalizeEmail lib (payload.email.getD []))⟩

/-! ## Statements -/

/-- `users.findByEmail`. -/
def findByEmail (t : Users) (email : JsString) : Option User :=
  t.rows.find? fun u => u.email = email

/-- `users.findByProviderId`. -/
def findByProviderId (t : Users) (provider : AuthProvider) (providerId : JsString) :
    Option User :=
  t.rows.find? fun u => u.provider = provider ∧ u.providerId = some providerId

/-- The row runs into the primary key or one of the two unique constraints.  A null
`providerId` differs from every other. -/
def Clashes (t : Users) (r : User) : Prop :=
  ∃ u ∈ t.rows, u.id = r.id ∨ u.email = r.email ∨
    u.provider = r.provider ∧ u.providerId = r.providerId ∧ r.providerId ≠ none

instance (t : Users) (r : User) : Decidable (Clashes t r) :=
  inferInstanceAs (Decidable (∃ u ∈ t.rows, u.id = r.id ∨ u.email = r.email ∨
    u.provider = r.provider ∧ u.providerId = r.providerId ∧ r.providerId ≠ none))

/-- `users.create`. -/
def create (t : Users) (data : UserCreateInput) (id : Uuid) : Except Exception (Users × User) :=
  if Clashes t (data.row id) then .error (.prisma .P2002)
  else .ok (t.put (data.row id), data.row id)

/-! ## Calls -/

inductive Account.Request where
  | register (body : RegisterDto)
  | login (body : LoginDto)
  | googleLogin (idToken : JsString)
deriving DecidableEq

/-- The claims of an access token. -/
structure JwtPayload where
  sub : Uuid
  email : JsString
deriving DecidableEq

/-- Where a call stands. -/
inductive Stage where
  /-- `register`, before the password is hashed. -/
  | hashing (dto : RegisterDto)
  /-- Before the insert. -/
  | creating (data : UserCreateInput)
  /-- `login`, before the lookup by email. -/
  | lookingUp (dto : LoginDto)
  /-- Before the password is verified. -/
  | verifying (dto : LoginDto) (user : Option User)
  /-- `googleLogin`, before the identity token is verified. -/
  | verifyingToken (idToken : JsString)
  /-- Before the lookup by provider. -/
  | resolving (identity : GoogleIdentity)
  /-- Before the lookup by email. -/
  | checkingEmail (identity : GoogleIdentity)
  /-- Before the tokens are issued. -/
  | issuing (user : User)
  /-- The row and the tokens were returned. -/
  | signedIn (user : User) (accessToken : JwtPayload)
  | thrown (e : Exception)
deriving DecidableEq

structure Account.Call where
  request : Account.Request
  stage : Stage
deriving DecidableEq

/-- The users, where each call stands, and the rows that `register` has inserted. -/
structure Accounts where
  users : Users
  calls : ℕ → Option Account.Call
  registered : List Uuid

/-- Before any call. -/
def Accounts.start : Accounts := ⟨Table.empty, fun _ => none, []⟩

/-- The first stage of a call, when the pipe passes its body. -/
def Account.Request.start : Account.Request → Option Stage
  | .register body => (registerDto lib body).map .hashing
  | .login body => (loginDto lib body).map .lookingUp
  | .googleLogin idToken => (googleLoginDto lib idToken).map .verifyingToken

/-- What a step takes from outside: a generated id, the hash of the password, and what
the clock says. -/
structure Account.Input where
  id : Uuid
  hash : String
  now : ℤ
deriving DecidableEq

/-- What a step of a call comes to: where the call goes on, and the row it inserts. -/
def advance (users : Users) (input : Account.Input) : Stage → Option (Stage × Option User)
  | .hashing dto =>
    some (.creating ⟨dto.email, some input.hash, dto.name, .LOCAL, none⟩, none)
  | .creating data =>
    match create users data input.id with
    | .error e => some (.thrown e, none)
    | .ok (_, user) => some (.issuing user, some user)
  | .lookingUp dto => some (.verifying dto (findByEmail users dto.email), none)
  | .verifying dto user =>
    let passwordMatches :=
      lib.verify ((user.bind User.password).getD lib.dummyHash) dto.password
    match user with
    | none => some (.thrown (.unauthorized "Invalid email or password"), none)
    | some user =>
      if user.password = none ∨ user.password = some "" ∨ passwordMatches = false then
        some (.thrown (.unauthorized "Invalid email or password"), none)
      else some (.issuing user, none)
  | .verifyingToken idToken =>
    match googleVerify lib (lib.verifyIdToken idToken input.now) with
    | .error e => some (.thrown e, none)
    | .ok identity => some (.resolving identity, none)
  | .resolving identity =>
    match findByProviderId users .GOOGLE identity.providerId with
    | some existing => some (.issuing existing, none)
    | none => some (.checkingEmail identity, none)
  | .checkingEmail identity =>
    match findByEmail users identity.email with
    | some _ =>
      some (.thrown (.conflict
        "An account with this email already exists. Sign in with your password."), none)
    | none =>
      some (.creating ⟨identity.email, none, identity.name, .GOOGLE, some identity.providerId⟩,
        none)
  | .issuing user => some (.signedIn user ⟨user.id, user.email⟩, none)
  | .signedIn _ _ | .thrown _ => none

inductive Account.Action where
  | request (c : ℕ) (r : Account.Request)
  | next (c : ℕ) (input : Account.Input)
  /-- The step of a call fails for a reason outside the program. -/
  | fault (c : ℕ)

/-- The call has returned. -/
def Stage.done : Stage → Bool
  | .signedIn _ _ | .thrown _ => true
  | _ => false

/-- The call goes on, with the row it has inserted. -/
def Accounts.goto (s : Accounts) (c : ℕ) (request : Account.Request) (stage : Stage)
    (inserted : Option User) : Accounts where
  users := inserted.elim s.users s.users.put
  calls := Function.update s.calls c (some ⟨request, stage⟩)
  registered :=
    match request, inserted with
    | .register _, some user => user.id :: s.registered
    | _, _ => s.registered

/-- One step of one call. -/
def Accounts.step (s : Accounts) : Account.Action → Option Accounts
  | .request c r =>
    match s.calls c with
    | some _ => none
    | none => (r.start lib).map fun stage => s.goto c r stage none
  | .next c input =>
    (s.calls c).bind fun call =>
      (advance lib s.users input call.stage).map fun result =>
        s.goto c call.request result.1 result.2
  | .fault c =>
    (s.calls c).bind fun call =>
      if call.stage.done then none else some (s.goto c call.request (.thrown .fault) none)

end Auth
end GroupChat

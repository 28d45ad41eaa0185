import GroupChat.Auth.Accounts

/-!
# Every sign-in opens its own account

The invariant says of each call what it has established so far, and of the table
that its emails are normalised and that both keys are unique.  Rows are only ever
added (`Accounts.grows_of_step`), so what a call has established about a row stays
true while others run, and an insert keeps the keys unique because the table
refuses a row that clashes, whatever was looked up before.
-/

namespace GroupChat
namespace Auth

open Common Database Text Transition

variable {lib : Libraries} {s t : Accounts} {a : Account.Action}

/-! ## What a sign-in has established -/

/-- The provider has vouched for the subject of the token, at some moment. -/
def Vouched (lib : Libraries) (idToken sub : JsString) : Prop :=
  ∃ now payload, lib.verifyIdToken idToken now = some (some payload) ∧ payload.sub = some sub

/-- The row is the account that a request asks for. -/
def Opens (lib : Libraries) (user : User) : Account.Request → Prop
  | .register body => user.email = normalizeEmail lib body.email ∧ user.provider = .LOCAL
  | .login body => user.email = normalizeEmail lib body.email ∧
      ∃ hash, user.password = some hash ∧ lib.verify hash body.password = true
  | .googleLogin idToken => user.provider = .GOOGLE ∧
      ∃ sub, Vouched lib idToken sub ∧ user.providerId = some sub

/-- What a call has established where it stands. -/
def StageInv (lib : Libraries) (users : Users) (request : Account.Request) : Stage → Prop
  | .hashing dto => ∃ body, request = .register body ∧ dto.email = normalizeEmail lib body.email
  | .creating data => (∀ id, Opens lib (data.row id) request) ∧
      normalizeEmail lib data.email = data.email ∧
      ((∃ body, request = .register body) → data.provider = .LOCAL)
  | .lookingUp dto =>
      ∃ body, request = .login body ∧ dto = ⟨normalizeEmail lib body.email, body.password⟩
  | .verifying dto user =>
      (∃ body, request = .login body ∧ dto = ⟨normalizeEmail lib body.email, body.password⟩) ∧
        ∀ u ∈ user, u ∈ users ∧ u.email = dto.email
  | .verifyingToken idToken => request = .googleLogin idToken
  | .resolving identity | .checkingEmail identity =>
      ∃ idToken, request = .googleLogin idToken ∧ Vouched lib idToken identity.providerId ∧
        normalizeEmail lib identity.email = identity.email
  | .issuing user => user ∈ users ∧ Opens lib user request
  | .signedIn user accessToken =>
      user ∈ users ∧ Opens lib user request ∧ accessToken = ⟨user.id, user.email⟩
  | .thrown _ => True

theorem StageInv.mono {users users' : Users} {request : Account.Request} {stage : Stage}
    (hgrows : ∀ u ∈ users, u ∈ users') (h : StageInv lib users request stage) :
    StageInv lib users' request stage := by
  cases stage with
  | hashing | creating | lookingUp | verifyingToken | resolving | checkingEmail | thrown => exact h
  | verifying dto user => exact ⟨h.1, fun u hu => ⟨hgrows u (h.2 u hu).1, (h.2 u hu).2⟩⟩
  | issuing user => exact ⟨hgrows user h.1, h.2⟩
  | signedIn user accessToken => exact ⟨hgrows user h.1, h.2⟩

/-- The invariant of the accounts. -/
structure Accounts.Inv (lib : Libraries) (s : Accounts) : Prop where
  normalized : ∀ u ∈ s.users, normalizeEmail lib u.email = u.email
  email : ∀ u ∈ s.users, ∀ u' ∈ s.users, u.email = u'.email → u = u'
  /-- A row that `register` has inserted is one with a password of its own. -/
  registered : ∀ id ∈ s.registered, ∃ u ∈ s.users, u.id = id ∧ u.provider = .LOCAL
  calls : ∀ c call, s.calls c = some call → StageInv lib s.users call.request call.stage

theorem Accounts.inv_start : Accounts.start.Inv lib :=
  ⟨fun u h => absurd h (Table.not_mem_empty u), fun u h => absurd h (Table.not_mem_empty u),
    fun _ h => absurd h List.not_mem_nil, fun _ _ h => absurd h (by simp [Accounts.start])⟩

/-! ## The pipe and the identity token -/

theorem emailField_eq_some {email email' : JsString} (h : emailField lib email = some email') :
    email' = normalizeEmail lib email := by
  unfold emailField at h
  dsimp only at h
  split_ifs at h with hvalid
  exact (Option.some.inj h).symm

theorem registerDto_eq_some {body dto : RegisterDto} (h : registerDto lib body = some dto) :
    dto.email = normalizeEmail lib body.email := by
  obtain ⟨email, hemail, hdto⟩ := Option.bind_eq_some_iff.mp h
  split_ifs at hdto with hvalid
  rw [← Option.some.inj hdto]
  exact emailField_eq_some hemail

theorem loginDto_eq_some {body dto : LoginDto} (h : loginDto lib body = some dto) :
    dto = ⟨normalizeEmail lib body.email, body.password⟩ := by
  obtain ⟨email, hemail, hdto⟩ := Option.bind_eq_some_iff.mp h
  split_ifs at hdto with hvalid
  rw [← Option.some.inj hdto, emailField_eq_some hemail]

/-- A body that the pipe passes starts its call in order. -/
theorem stageInv_start {users : Users} {request : Account.Request} {stage : Stage}
    (h : request.start lib = some stage) : StageInv lib users request stage := by
  cases request with
  | register body =>
    obtain ⟨dto, hdto, rfl⟩ := Option.map_eq_some_iff.mp h
    exact ⟨body, rfl, registerDto_eq_some hdto⟩
  | login body =>
    obtain ⟨dto, hdto, rfl⟩ := Option.map_eq_some_iff.mp h
    exact ⟨body, rfl, loginDto_eq_some hdto⟩
  | googleLogin idToken =>
    obtain ⟨token, htoken, rfl⟩ := Option.map_eq_some_iff.mp h
    unfold googleLoginDto at htoken
    split_ifs at htoken with hvalid
    show Account.Request.googleLogin idToken = .googleLogin token
    rw [Option.some.inj htoken]

theorem eq_some_of_truthy {value : Option JsString} (h : truthy value = true) :
    value = some (value.getD []) := by
  cases value with
  | none => exact absurd h (by simp [truthy])
  | some us => rfl

/-- What an identity is made of. -/
theorem googleVerify_eq_ok {ticket : Option (Option Payload)} {identity : GoogleIdentity}
    (h : googleVerify lib ticket = .ok identity) :
    ∃ payload, ticket = some (some payload) ∧ payload.sub = some identity.providerId ∧
      identity.email = normalizeEmail lib (payload.email.getD []) := by
  unfold googleVerify at h
  split at h
  · exact absurd h (by simp)
  · exact absurd h (by simp)
  · rename_i payload
    split_ifs at h with hiss hemail hsub
    obtain rfl := Except.ok.inj h
    exact ⟨payload, rfl, eq_some_of_truthy hsub, rfl⟩

/-! ## The lookups and the insert -/

theorem findByEmail_eq_some {users : Users} {email : JsString} {u : User}
    (h : findByEmail users email = some u) : u ∈ users ∧ u.email = email :=
  ⟨List.mem_of_find?_eq_some h, by simpa using List.find?_some h⟩

theorem findByProviderId_eq_some {users : Users} {provider : AuthProvider} {providerId : JsString}
    {u : User} (h : findByProviderId users provider providerId = some u) :
    u ∈ users ∧ u.provider = provider ∧ u.providerId = some providerId :=
  ⟨List.mem_of_find?_eq_some h, by simpa using List.find?_some h⟩

theorem create_eq_ok {users users' : Users} {data : UserCreateInput} {id : Uuid} {u : User}
    (h : create users data id = .ok (users', u)) :
    u = data.row id ∧ ¬ Clashes users u := by
  unfold create at h
  split_ifs at h with hclash
  obtain ⟨-, rfl⟩ := Prod.mk.inj (Except.ok.inj h)
  exact ⟨rfl, hclash⟩

/-! ## One step of a call -/

/-- Only the insert inserts. -/
theorem inserted_of_advance {users : Users} {stage stage' : Stage} {input : Account.Input}
    {inserted : Option User} (hadv : advance lib users input stage = some (stage', inserted)) :
    inserted = none ∨ ∃ data u, stage = .creating data ∧ stage' = .issuing u ∧
      inserted = some u ∧ u = data.row input.id ∧ ¬ Clashes users u := by
  unfold advance at hadv
  cases stage with
  | hashing | lookingUp | issuing =>
    exact Or.inl (Prod.mk.inj (Option.some.inj hadv)).2.symm
  | creating data =>
    dsimp only at hadv
    split at hadv
    · exact Or.inl (Prod.mk.inj (Option.some.inj hadv)).2.symm
    · rename_i users' user hcreate
      obtain ⟨rfl, rfl⟩ := Prod.mk.inj (Option.some.inj hadv)
      exact Or.inr ⟨data, user, rfl, rfl, rfl, create_eq_ok hcreate⟩
  | verifying dto user =>
    cases user with
    | none => exact Or.inl (Prod.mk.inj (Option.some.inj hadv)).2.symm
    | some user =>
      dsimp only at hadv
      split_ifs at hadv <;> exact Or.inl (Prod.mk.inj (Option.some.inj hadv)).2.symm
  | verifyingToken | resolving | checkingEmail =>
    dsimp only at hadv
    split at hadv <;> exact Or.inl (Prod.mk.inj (Option.some.inj hadv)).2.symm
  | signedIn | thrown => exact absurd hadv (by simp)

/-- **What a step of a call establishes.** -/
theorem stageInv_of_advance {users : Users} {request : Account.Request} {stage stage' : Stage}
    {input : Account.Input} {inserted : Option User} (h : StageInv lib users request stage)
    (hadv : advance lib users input stage = some (stage', inserted)) :
    StageInv lib (inserted.elim users users.put) request stage' := by
  rcases inserted_of_advance hadv with rfl | ⟨data, u, rfl, rfl, rfl, rfl, -⟩
  swap
  · exact ⟨Table.mem_put_self _ _, h.1 input.id⟩
  unfold advance at hadv
  cases stage with
  | hashing dto =>
    obtain ⟨rfl, -⟩ := Prod.mk.inj (Option.some.inj hadv)
    obtain ⟨body, rfl, hemail⟩ := h
    refine ⟨fun id => ⟨hemail, rfl⟩, ?_, fun _ => rfl⟩
    show normalizeEmail lib dto.email = dto.email
    rw [hemail, normalizeEmail_normalizeEmail]
  | creating data =>
    dsimp only at hadv
    split at hadv
    · obtain ⟨rfl, -⟩ := Prod.mk.inj (Option.some.inj hadv)
      trivial
    · exact absurd (Prod.mk.inj (Option.some.inj hadv)).2 (by simp)
  | lookingUp dto =>
    obtain ⟨rfl, -⟩ := Prod.mk.inj (Option.some.inj hadv)
    exact ⟨h, fun u hu => findByEmail_eq_some hu⟩
  | verifying dto user =>
    cases user with
    | none =>
      obtain ⟨rfl, -⟩ := Prod.mk.inj (Option.some.inj hadv)
      trivial
    | some user =>
      dsimp only at hadv
      split_ifs at hadv with hrefused
      · obtain ⟨rfl, -⟩ := Prod.mk.inj (Option.some.inj hadv)
        trivial
      · obtain ⟨rfl, -⟩ := Prod.mk.inj (Option.some.inj hadv)
        obtain ⟨⟨body, rfl, rfl⟩, huser⟩ := h
        obtain ⟨hmem, hemail⟩ := huser user rfl
        rw [not_or, not_or] at hrefused
        obtain ⟨hpassword, -, hmatches⟩ := hrefused
        obtain ⟨hash, hhash⟩ := Option.ne_none_iff_exists'.mp hpassword
        refine ⟨hmem, hemail, hash, hhash, ?_⟩
        simpa [hhash] using hmatches
  | verifyingToken idToken =>
    dsimp only at hadv
    split at hadv
    · obtain ⟨rfl, -⟩ := Prod.mk.inj (Option.some.inj hadv)
      trivial
    · rename_i identity hverify
      obtain ⟨rfl, -⟩ := Prod.mk.inj (Option.some.inj hadv)
      obtain ⟨payload, hticket, hsub, hemail⟩ := googleVerify_eq_ok hverify
      refine ⟨idToken, h, ⟨input.now, payload, hticket, hsub⟩, ?_⟩
      rw [hemail, normalizeEmail_normalizeEmail]
  | resolving identity =>
    dsimp only at hadv
    split at hadv
    · rename_i existing hfind
      obtain ⟨rfl, -⟩ := Prod.mk.inj (Option.some.inj hadv)
      obtain ⟨idToken, rfl, hvouched, -⟩ := h
      obtain ⟨hmem, hprovider, hsub⟩ := findByProviderId_eq_some hfind
      exact ⟨hmem, hprovider, identity.providerId, hvouched, hsub⟩
    · obtain ⟨rfl, -⟩ := Prod.mk.inj (Option.some.inj hadv)
      exact h
  | checkingEmail identity =>
    dsimp only at hadv
    split at hadv
    · obtain ⟨rfl, -⟩ := Prod.mk.inj (Option.some.inj hadv)
      trivial
    · obtain ⟨rfl, -⟩ := Prod.mk.inj (Option.some.inj hadv)
      obtain ⟨idToken, rfl, hvouched, hemail⟩ := h
      refine ⟨fun id => ⟨rfl, identity.providerId, hvouched, rfl⟩, hemail, ?_⟩
      rintro ⟨body, hbody⟩
      exact absurd hbody (by simp)
  | issuing user =>
    obtain ⟨rfl, -⟩ := Prod.mk.inj (Option.some.inj hadv)
    exact ⟨h.1, h.2, rfl⟩
  | signedIn | thrown => exact absurd hadv (by simp)

/-! ## Every step -/

/-- What a step does: one call goes on, and perhaps inserts a row. -/
theorem Accounts.exists_goto_of_step (h : s.step lib a = some t) :
    ∃ c request stage inserted, t = s.goto c request stage inserted ∧
      (inserted = none ∨ ∃ data u, s.calls c = some ⟨request, .creating data⟩ ∧
        inserted = some u ∧ (∃ id, u = data.row id) ∧ ¬ Clashes s.users u) ∧
      (s.Inv lib → StageInv lib (inserted.elim s.users s.users.put) request stage) := by
  unfold Accounts.step at h
  cases a with
  | request c r =>
    dsimp only at h
    split at h
    · exact absurd h (by simp)
    · obtain ⟨stage, hstage, rfl⟩ := Option.map_eq_some_iff.mp h
      exact ⟨c, r, stage, none, rfl, Or.inl rfl, fun _ => stageInv_start hstage⟩
  | next c input =>
    obtain ⟨call, hcall, hnext⟩ := Option.bind_eq_some_iff.mp h
    obtain ⟨⟨stage, inserted⟩, hadv, rfl⟩ := Option.map_eq_some_iff.mp hnext
    refine ⟨c, call.request, stage, inserted, rfl, ?_, fun hs =>
      stageInv_of_advance (hs.calls c call hcall) hadv⟩
    refine (inserted_of_advance hadv).imp_right ?_
    rintro ⟨data, u, hstage, -, hins, hrow, hclash⟩
    exact ⟨data, u, by rw [hcall, ← hstage], hins, ⟨input.id, hrow⟩, hclash⟩
  | fault c =>
    obtain ⟨call, hcall, hnext⟩ := Option.bind_eq_some_iff.mp h
    split_ifs at hnext with hdone
    obtain rfl := Option.some.inj hnext
    exact ⟨c, call.request, .thrown .fault, none, rfl, Or.inl rfl, fun _ => trivial⟩

/-- The table with a row that does not clash has all rows it had. -/
theorem mem_put_of_not_clashes {users : Users} {r : User} (hclash : ¬ Clashes users r) :
    ∀ u ∈ users, u ∈ users.put r := by
  intro u hu
  exact (Table.mem_put_of_key_ne fun hid => hclash ⟨u, hu, Or.inl hid⟩).mpr hu

/-- **No call changes a row.**  Whatever the state, a step leaves every row as it was. -/
theorem Accounts.grows_of_step (h : s.step lib a = some t) : ∀ u ∈ s.users, u ∈ t.users := by
  obtain ⟨c, request, stage, inserted, rfl, hins, -⟩ := exists_goto_of_step h
  intro u hu
  rcases hins with rfl | ⟨data, r, -, rfl, -, hclash⟩
  · exact hu
  · exact mem_put_of_not_clashes hclash u hu

/-- **The invariant is kept.** -/
theorem Accounts.inv_of_step (hs : s.Inv lib) (h : s.step lib a = some t) : t.Inv lib := by
  have hgrows := grows_of_step h
  obtain ⟨c, request, stage, inserted, rfl, hins, hstage⟩ := exists_goto_of_step h
  have hcalls : ∀ c' call, (s.goto c request stage inserted).calls c' = some call →
      StageInv lib (s.goto c request stage inserted).users call.request call.stage := by
    intro c' call hcall
    by_cases hc : c' = c
    · subst hc
      have hsame : (s.goto c' request stage inserted).calls c' = some ⟨request, stage⟩ :=
        Function.update_self _ _ _
      obtain rfl := Option.some.inj (hsame.symm.trans hcall)
      exact hstage hs
    · have hother : (s.goto c request stage inserted).calls c' = s.calls c' :=
        Function.update_of_ne hc _ _
      exact (hs.calls c' call (hother.symm.trans hcall)).mono hgrows
  have hold : ∀ id ∈ s.registered, ∃ u ∈ (s.goto c request stage inserted).users,
      u.id = id ∧ u.provider = .LOCAL := by
    intro id hmem
    obtain ⟨u, hu, huid, hprovider⟩ := hs.registered id hmem
    exact ⟨u, hgrows u hu, huid, hprovider⟩
  rcases hins with rfl | ⟨data, r, hcall, rfl, ⟨rowId, rfl⟩, hclash⟩
  · refine ⟨hs.normalized, hs.email, ?_, hcalls⟩
    cases request <;> exact hold
  · obtain ⟨-, hnormal, hlocal⟩ := hs.calls c _ hcall
    refine ⟨fun u hu => ?_, fun u hu u' hu' heq => ?_, ?_, hcalls⟩
    · rcases Table.mem_put.mp hu with rfl | ⟨hu, -⟩
      · exact hnormal
      · exact hs.normalized u hu
    · rcases Table.mem_put.mp hu with rfl | ⟨hu, -⟩ <;>
        rcases Table.mem_put.mp hu' with rfl | ⟨hu', -⟩
      · rfl
      · exact absurd ⟨u', hu', Or.inr (Or.inl heq.symm)⟩ hclash
      · exact absurd ⟨u, hu, Or.inr (Or.inl heq)⟩ hclash
      · exact hs.email u hu u' hu' heq
    · cases request with
      | register body =>
        intro id hid
        rcases List.mem_cons.mp hid with heq | hid
        · exact ⟨data.row rowId, Table.mem_put_self _ _, heq.symm, hlocal ⟨body, rfl⟩⟩
        · exact hold id hid
      | login | googleLogin => exact hold

/-! ## Runs -/

/-- What holds of the table and of the calls that have returned tokens. -/
structure IdentitiesBound (lib : Libraries) (s : Accounts) : Prop where
  normalized : ∀ u ∈ s.users, normalizeEmail lib u.email = u.email
  distinct : ∀ u ∈ s.users, ∀ u' ∈ s.users, u.email = u'.email → u = u'
  /-- `googleLogin` opens the account of the subject, and none that `register` made. -/
  googleLogin : ∀ c idToken user accessToken,
    s.calls c = some ⟨.googleLogin idToken, .signedIn user accessToken⟩ →
      user ∈ s.users ∧ accessToken.sub = user.id ∧ user.provider = .GOOGLE ∧
        user.id ∉ s.registered ∧
        ∃ sub, Vouched lib idToken sub ∧ user.providerId = some sub
  /-- `login` opens the one account with the typed email, whose password was typed. -/
  login : ∀ c body user accessToken,
    s.calls c = some ⟨.login body, .signedIn user accessToken⟩ →
      user ∈ s.users ∧ accessToken.sub = user.id ∧
        (∀ u ∈ s.users, u.email = normalizeEmail lib body.email ↔ u = user) ∧
        ∃ hash, user.password = some hash ∧ lib.verify hash body.password = true

theorem Accounts.Inv.identitiesBound (hs : s.Inv lib) : IdentitiesBound lib s where
  normalized := hs.normalized
  distinct := hs.email
  googleLogin c idToken user accessToken hcall := by
    obtain ⟨hmem, ⟨hprovider, hvouched⟩, rfl⟩ := hs.calls c _ hcall
    refine ⟨hmem, rfl, hprovider, fun hid => ?_, hvouched⟩
    obtain ⟨u, hu, huid, hlocal⟩ := hs.registered user.id hid
    obtain rfl : u = user := Table.eq_of_key_eq hu hmem huid
    exact absurd (hlocal.symm.trans hprovider) (by simp)
  login c body user accessToken hcall := by
    obtain ⟨hmem, ⟨hemail, hpassword⟩, rfl⟩ := hs.calls c _ hcall
    refine ⟨hmem, rfl, fun u hu => ⟨fun heq => ?_, fun heq => ?_⟩, hpassword⟩
    · exact hs.email u hu user hmem (heq.trans hemail.symm)
    · rw [heq]
      exact hemail

/-- **Identities are bound.**  In every state of every interleaving of `register`,
`login` and `googleLogin`, the stored emails are normalised and pairwise distinct and
every sign-in has opened its own account; and no step of a call changes a row. -/
theorem identities_are_bound (lib : Libraries) (acts : List Account.Action) :
    AllStates (Accounts.step lib) (IdentitiesBound lib) Accounts.start acts ∧
      ∀ s a t, Accounts.step lib s a = some t → ∀ u ∈ s.users, u ∈ t.users := by
  constructor
  · have hinv : AllStates (Accounts.step lib) (Accounts.Inv lib) Accounts.start acts :=
      AllStates.of_invariant (fun _ _ _ hs h => Accounts.inv_of_step hs h) Accounts.inv_start acts
    exact hinv.mono fun s hs => hs.identitiesBound
  · exact fun s a t h => Accounts.grows_of_step h

/-- Libraries for ASCII addresses, with passwords stored as they are. -/
def plainLibraries : Libraries :=
  ⟨asciiLowerCase, sequenceValidator, fun _ => true,
    fun hash password => password = JsString.ofString hash, "", fun _ _ => none⟩

/-- A registration, and a login that spells the address otherwise. -/
def otherSpellingRun : List Account.Action :=
  [ .request 0 (.register ⟨JsString.ofString " Ada@x.io", JsString.ofString "passw0rd",
      JsString.ofString "Ada"⟩),
    .next 0 ⟨1, "passw0rd", 0⟩, .next 0 ⟨1, "", 0⟩,
    .request 1 (.login ⟨JsString.ofString "ADA@X.IO", JsString.ofString "passw0rd"⟩),
    .next 1 ⟨0, "", 0⟩, .next 1 ⟨0, "", 0⟩, .next 1 ⟨0, "", 0⟩ ]

/-- The login opens the account that was registered. -/
theorem identities_are_bound_otherSpellingRun :
    ((exec (Accounts.step plainLibraries) Accounts.start otherSpellingRun).bind fun s =>
        (s.calls 1).map Account.Call.stage) =
      some (.signedIn ⟨1, JsString.ofString "ada@x.io", some "passw0rd", JsString.ofString "Ada",
        .LOCAL, none⟩ ⟨1, JsString.ofString "ada@x.io"⟩) ∧
      AllStates (Accounts.step plainLibraries) (IdentitiesBound plainLibraries) Accounts.start
        otherSpellingRun :=
  ⟨by decide +kernel, (identities_are_bound plainLibraries otherSpellingRun).1⟩

end Auth
end GroupChat

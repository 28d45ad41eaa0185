import GroupChat.Auth.Identity

/-!
# What a login tells

A login looks the address up, verifies the password, against a decoy if there is no hash, and
then either issues tokens or refuses.  There are several reasons to refuse, and the caller is not
to learn which one it was.

`logins_tell_whether_they_succeed` says so of every login in every run: it comes to what the table
said when the address was looked up, a refusal is the same text after the same two statements
whatever was wrong, and whoever has registered by then gets in with the password that was hashed
and with no other.
-/

namespace GroupChat
namespace Auth

open Common Database Text Transition

variable {lib : Libraries} {s t : Accounts} {a : Account.Action} {c : ℕ}
  {acts : List Account.Action}

/-! ## What a login comes to -/

variable (lib) in
/-- The account that an address and a password open. -/
def account (users : Users) (dto : LoginDto) : Option User :=
  (findByEmail users dto.email).filter fun u =>
    u.password.any fun hash => hash ≠ "" ∧ lib.verify hash dto.password = true

/-- What the caller is told. -/
def outcome : Option User → Stage
  | none => .thrown (.unauthorized "Invalid email or password")
  | some user => .signedIn user ⟨user.id, user.email⟩

/-- **One refusal for every reason.** -/
theorem advance_verifying (users found : Users) (input : Account.Input) (dto : LoginDto) :
    advance lib users input (.verifying dto (findByEmail found dto.email)) =
      some ((account lib found dto).elim (outcome none) .issuing, none) := by
  unfold account
  cases findByEmail found dto.email with
  | none => rfl
  | some user =>
    obtain ⟨id, email, password, name, provider, providerId⟩ := user
    cases password with
    | none => simp [advance, outcome, Option.filter_some]
    | some hash =>
      by_cases hempty : hash = ""
      · simp [advance, outcome, Option.filter_some, hempty]
      · cases hverify : lib.verify hash dto.password <;>
          simp [advance, outcome, Option.filter_some, hempty, hverify]

/-! ## A login, from its request on -/

/-- The action is the next statement of the call. -/
def turnOf (c : ℕ) : Account.Action → Bool
  | .next c' _ => c' = c
  | .request _ _ | .fault _ => false

/-- How many statements of the call have run. -/
def turns (c : ℕ) (acts : List Account.Action) : ℕ := acts.countP (turnOf c)

/-- The users as the call saw them when its first statement ran. -/
def LookedUp (lib : Libraries) (acts : List Account.Action) (c : ℕ) (v : Accounts) : Prop :=
  ∃ before input after, acts = before ++ .next c input :: after ∧ turns c before = 0 ∧
    exec (Accounts.step lib) Accounts.start before = some v

/-- Where a login is that nothing has made fail. -/
inductive Attempt (lib : Libraries) (acts : List Account.Action) (c : ℕ) (dto : LoginDto) :
    Stage → Prop
  | asked (turns_eq : turns c acts = 0) : Attempt lib acts c dto (.lookingUp dto)
  | lookedUp (v : Accounts) (lookup : LookedUp lib acts c v) (turns_eq : turns c acts = 1) :
      Attempt lib acts c dto (.verifying dto (findByEmail v.users dto.email))
  | verified (v : Accounts) (lookup : LookedUp lib acts c v) (u : User)
      (opens : account lib v.users dto = some u) (turns_eq : turns c acts = 2) :
      Attempt lib acts c dto (.issuing u)
  | finished (v : Accounts) (lookup : LookedUp lib acts c v)
      (turns_eq : turns c acts = if (account lib v.users dto).isSome then 3 else 2) :
      Attempt lib acts c dto (outcome (account lib v.users dto))

theorem LookedUp.append {v : Accounts} (h : LookedUp lib acts c v) (a : Account.Action) :
    LookedUp lib (acts ++ [a]) c v := by
  obtain ⟨before, input, after, rfl, hturns, hv⟩ := h
  exact ⟨before, input, after ++ [a], by simp, hturns, hv⟩

theorem turns_append (c : ℕ) (acts : List Account.Action) (a : Account.Action) :
    turns c (acts ++ [a]) = turns c acts + if turnOf c a then 1 else 0 := by
  rw [turns, List.countP_append, List.countP_singleton]
  rfl

/-- Other calls are nothing to a login. -/
theorem Attempt.append {dto : LoginDto} {stage : Stage} (h : Attempt lib acts c dto stage)
    (ha : turnOf c a = false) : Attempt lib (acts ++ [a]) c dto stage := by
  have hsame : turns c (acts ++ [a]) = turns c acts := by simp [turns_append, ha]
  cases h with
  | asked hturns => exact .asked (hsame.trans hturns)
  | lookedUp v hlookup hturns => exact .lookedUp v (hlookup.append a) (hsame.trans hturns)
  | verified v hlookup u hopens hturns =>
    exact .verified v (hlookup.append a) u hopens (hsame.trans hturns)
  | finished v hlookup hturns => exact .finished v (hlookup.append a) (hsame.trans hturns)

/-- **A login goes on.** -/
theorem Attempt.next {dto : LoginDto} {stage stage' : Stage} {input : Account.Input}
    {inserted : Option User} (hrun : exec (Accounts.step lib) Accounts.start acts = some s)
    (h : Attempt lib acts c dto stage)
    (hadv : advance lib s.users input stage = some (stage', inserted)) :
    Attempt lib (acts ++ [.next c input]) c dto stage' := by
  have hone : turns c (acts ++ [.next c input]) = turns c acts + 1 := by
    simp [turns_append, turnOf]
  cases h with
  | asked hturns =>
    obtain ⟨rfl, -⟩ := Prod.mk.inj (Option.some.inj hadv)
    refine .lookedUp s ⟨acts, input, [], rfl, hturns, hrun⟩ ?_
    rw [hone, hturns]
  | lookedUp v hlookup hturns =>
    rw [advance_verifying] at hadv
    obtain ⟨rfl, -⟩ := Prod.mk.inj (Option.some.inj hadv)
    have hfinished : _ → Attempt lib (acts ++ [.next c input]) c dto _ :=
      .finished v (hlookup.append (.next c input))
    cases haccount : account lib v.users dto with
    | none =>
      rw [haccount, hone, hturns] at hfinished
      exact hfinished rfl
    | some u =>
      refine .verified v (hlookup.append _) u haccount ?_
      rw [hone, hturns]
  | verified v hlookup u hopens hturns =>
    obtain ⟨rfl, -⟩ := Prod.mk.inj (Option.some.inj hadv)
    have hfinished : _ → Attempt lib (acts ++ [.next c input]) c dto _ :=
      .finished v (hlookup.append (.next c input))
    rw [hopens, hone, hturns] at hfinished
    exact hfinished rfl
  | finished v hlookup hturns =>
    cases haccount : account lib v.users dto <;> rw [haccount] at hadv <;> cases hadv

/-! ## A registration -/

/-- The password is the hash that the call was given when it had the password to hash. -/
def Hashed (lib : Libraries) (acts : List Account.Action) (c : ℕ) (body : RegisterDto)
    (password : Option String) : Prop :=
  ∃ before input after v dto, acts = before ++ .next c input :: after ∧
    exec (Accounts.step lib) Accounts.start before = some v ∧
      v.calls c = some ⟨.register body, .hashing dto⟩ ∧ registerDto lib body = some dto ∧
        password = some input.hash

theorem Hashed.append {body : RegisterDto} {password : Option String}
    (h : Hashed lib acts c body password) (a : Account.Action) :
    Hashed lib (acts ++ [a]) c body password := by
  obtain ⟨before, input, after, v, dto, rfl, hv, hcall, hhashed⟩ := h
  exact ⟨before, input, after ++ [a], v, dto, by simp, hv, hcall, hhashed⟩

/-- Where a registration is, of the password alone. -/
def Registration (lib : Libraries) (acts : List Account.Action) (c : ℕ) (body : RegisterDto) :
    Stage → Prop
  | .hashing dto => registerDto lib body = some dto
  | .creating data => Hashed lib acts c body data.password
  | .issuing user | .signedIn user _ => Hashed lib acts c body user.password
  | .thrown _ => True
  | _ => False

theorem Registration.append {body : RegisterDto} {stage : Stage}
    (h : Registration lib acts c body stage) (a : Account.Action) :
    Registration lib (acts ++ [a]) c body stage := by
  cases stage with
  | creating | issuing | signedIn => exact Hashed.append h a
  | thrown => trivial
  | hashing | lookingUp | verifying | verifyingToken | resolving | checkingEmail => exact h

/-- **A registration goes on.** -/
theorem Registration.next {body : RegisterDto} {stage stage' : Stage} {input : Account.Input}
    {inserted : Option User} (hrun : exec (Accounts.step lib) Accounts.start acts = some s)
    (hcall : s.calls c = some ⟨.register body, stage⟩) (h : Registration lib acts c body stage)
    (hadv : advance lib s.users input stage = some (stage', inserted)) :
    Registration lib (acts ++ [.next c input]) c body stage' := by
  cases stage with
  | hashing dto =>
    obtain ⟨rfl, -⟩ := Prod.mk.inj (Option.some.inj hadv)
    exact ⟨acts, input, [], s, dto, rfl, hrun, hcall, h, rfl⟩
  | creating data =>
    unfold advance create at hadv
    dsimp only at hadv
    split at hadv
    · obtain ⟨rfl, -⟩ := Prod.mk.inj (Option.some.inj hadv)
      trivial
    · rename_i users user hcreate
      split_ifs at hcreate
      obtain ⟨-, rfl⟩ := Prod.mk.inj (Except.ok.inj hcreate)
      obtain ⟨rfl, -⟩ := Prod.mk.inj (Option.some.inj hadv)
      exact Hashed.append h _
  | issuing user =>
    obtain ⟨rfl, -⟩ := Prod.mk.inj (Option.some.inj hadv)
    exact Hashed.append h _
  | signedIn | thrown => cases hadv
  | lookingUp | verifying | verifyingToken | resolving | checkingEmail => exact h.elim

/-! ## Runs -/

/-- What a run has done, call by call. -/
structure History (lib : Libraries) (acts : List Account.Action) (s : Accounts) : Prop where
  run : exec (Accounts.step lib) Accounts.start acts = some s
  idle : ∀ c, s.calls c = none → turns c acts = 0
  login : ∀ c body stage, s.calls c = some ⟨.login body, stage⟩ → .fault c ∉ acts →
    Attempt lib acts c ⟨normalizeEmail lib body.email, body.password⟩ stage
  register : ∀ c body stage, s.calls c = some ⟨.register body, stage⟩ →
    Registration lib acts c body stage

theorem turnOf_eq_false {c' : ℕ} {input : Account.Input} (h : c' ≠ c) :
    turnOf c (.next c' input) = false := by
  simpa [turnOf] using h

/-- The calls that an action does not move are as they were. -/
theorem History.of_ne (hs : History lib acts s) {c' : ℕ} {request : Account.Request}
    {stage : Stage} {inserted : Option User} (hstep : s.step lib a = some t)
    (ht : t = s.goto c' request stage inserted) (hother : ∀ c, c ≠ c' → turnOf c a = false)
    (hlogin : ∀ body, request = .login body → .fault c' ∉ acts ++ [a] →
      Attempt lib (acts ++ [a]) c' ⟨normalizeEmail lib body.email, body.password⟩ stage)
    (hregister : ∀ body, request = .register body →
      Registration lib (acts ++ [a]) c' body stage) :
    History lib (acts ++ [a]) t := by
  have hcalls : ∀ c, t.calls c = if c = c' then some ⟨request, stage⟩ else s.calls c := by
    intro c
    rw [ht]
    exact Function.update_apply _ _ _ _
  refine ⟨?_, fun c hc => ?_, fun c body stage' hc hfault => ?_, fun c body stage' hc => ?_⟩
  · rw [exec_append, hs.run, Option.bind_some, exec_cons_of_step hstep]
    rfl
  · rw [hcalls] at hc
    split_ifs at hc with heq
    rw [turns_append, hs.idle c hc, hother c heq]
    rfl
  · rw [hcalls] at hc
    split_ifs at hc with heq
    · subst heq
      obtain ⟨hrequest, rfl⟩ := Account.Call.mk.inj (Option.some.inj hc)
      exact hlogin body hrequest hfault
    · exact (hs.login c body stage' hc fun hmem => hfault (List.mem_append_left _ hmem)).append
        (hother c heq)
  · rw [hcalls] at hc
    split_ifs at hc with heq
    · subst heq
      obtain ⟨hrequest, rfl⟩ := Account.Call.mk.inj (Option.some.inj hc)
      exact hregister body hrequest
    · exact (hs.register c body stage' hc).append a

/-- **A step goes on with one call.** -/
theorem History.of_step (hs : History lib acts s) (hstep : s.step lib a = some t) :
    History lib (acts ++ [a]) t := by
  have h := hstep
  unfold Accounts.step at h
  cases a with
  | request c r =>
    dsimp only at h
    split at h
    · cases h
    · rename_i hidle
      obtain ⟨stage, hstart, rfl⟩ := Option.map_eq_some_iff.mp h
      refine hs.of_ne hstep rfl (fun _ _ => rfl) (fun body hr _ => ?_) fun body hr => ?_
      · subst hr
        obtain ⟨dto, hdto, rfl⟩ := Option.map_eq_some_iff.mp hstart
        rw [loginDto_eq_some hdto]
        refine .asked ?_
        rw [turns_append, hs.idle c hidle]
        rfl
      · subst hr
        obtain ⟨dto, hdto, rfl⟩ := Option.map_eq_some_iff.mp hstart
        exact hdto
  | next c input =>
    obtain ⟨call, hcall, hnext⟩ := Option.bind_eq_some_iff.mp h
    obtain ⟨⟨stage, inserted⟩, hadv, rfl⟩ := Option.map_eq_some_iff.mp hnext
    obtain ⟨request, before⟩ := call
    refine hs.of_ne hstep rfl (fun c' hc => turnOf_eq_false hc.symm) (fun body hr hfault => ?_)
      fun body hr => ?_
    · obtain rfl : request = .login body := hr
      exact (hs.login c body before hcall fun hmem =>
        hfault (List.mem_append_left _ hmem)).next hs.run hadv
    · obtain rfl : request = .register body := hr
      exact (hs.register c body before hcall).next hs.run hcall hadv
  | fault c =>
    obtain ⟨call, hcall, hnext⟩ := Option.bind_eq_some_iff.mp h
    split_ifs at hnext with hdone
    obtain rfl := Option.some.inj hnext
    exact hs.of_ne hstep rfl (fun _ _ => rfl)
      (fun body _ hfault => absurd (List.mem_append_right acts (List.mem_singleton.mpr rfl)) hfault)
      fun body _ => trivial

theorem history_of_exec (hs : exec (Accounts.step lib) Accounts.start acts = some s) :
    History lib acts s := by
  have hstart : History lib [] Accounts.start :=
    ⟨rfl, fun _ _ => rfl, fun _ _ _ h => (nomatch h), fun _ _ _ h => (nomatch h)⟩
  exact of_exec_append (P := History lib) (fun _ _ _ _ h hst => h.of_step hst) hstart hs

/-- Whoever has registered is who the address belongs to. -/
theorem account_of_registered (hs : exec (Accounts.step lib) Accounts.start acts = some s) {r : ℕ}
    {body : RegisterDto} {user : User} {token : JwtPayload}
    (hcall : s.calls r = some ⟨.register body, .signedIn user token⟩) (password : JsString) :
    ∃ before input after v dto, acts = before ++ .next r input :: after ∧
      exec (Accounts.step lib) Accounts.start before = some v ∧
      v.calls r = some ⟨.register body, .hashing dto⟩ ∧ registerDto lib body = some dto ∧
      account lib s.users ⟨normalizeEmail lib body.email, password⟩ =
        if input.hash ≠ "" ∧ lib.verify input.hash password = true then some user else none := by
  have hinv : s.Inv lib :=
    (reach_of_exec hs).invariant (fun _ _ _ h _ hst => Accounts.inv_of_step h hst) Accounts.inv_start
  obtain ⟨hmem, ⟨hemail, -⟩, -⟩ := hinv.calls r _ hcall
  obtain ⟨before, input, after, v, dto, hacts, hv, hhashing, hdto, hpassword⟩ :=
    (history_of_exec hs).register r body _ hcall
  have hfind : findByEmail s.users (normalizeEmail lib body.email) = some user := by
    have hsome : (findByEmail s.users (normalizeEmail lib body.email)).isSome := by
      rw [findByEmail, List.find?_isSome]
      exact ⟨user, hmem, by simpa using hemail⟩
    obtain ⟨user', huser'⟩ := Option.isSome_iff_exists.mp hsome
    obtain ⟨hmem', hemail'⟩ := findByEmail_eq_some huser'
    rw [huser', hinv.email user' hmem' user hmem (hemail'.trans hemail.symm)]
  refine ⟨before, input, after, v, dto, hacts, hv, hhashing, hdto, ?_⟩
  unfold account
  rw [hfind, Option.filter_some, hpassword]
  simp

/-- **A login tells whether it succeeds.**  In every run, a login that nothing has made fail comes
to what the users were when it looked the address up.  If the password does not open the account
of the address, whatever the reason, it is refused in the same words after the same two statements.
The account of an address that was registered by then opens to what verifies against the hash that
this registration was given for its password, and to nothing else. -/
theorem logins_tell_whether_they_succeed (lib : Libraries) (acts : List Account.Action)
    (s : Accounts) (hrun : exec (Accounts.step lib) Accounts.start acts = some s) (c : ℕ)
    (body : LoginDto) (stage : Stage) (hcall : s.calls c = some ⟨.login body, stage⟩)
    (hdone : stage.done = true) (hfault : .fault c ∉ acts) :
    ∃ before input after v, acts = before ++ .next c input :: after ∧
      exec (Accounts.step lib) Accounts.start before = some v ∧ turns c before = 0 ∧
      stage = outcome (account lib v.users ⟨normalizeEmail lib body.email, body.password⟩) ∧
      turns c acts = (if (account lib v.users
        ⟨normalizeEmail lib body.email, body.password⟩).isSome then 3 else 2) ∧
      ∀ r rbody user token, v.calls r = some ⟨.register rbody, .signedIn user token⟩ →
        normalizeEmail lib rbody.email = normalizeEmail lib body.email →
          ∃ start input' rest w dto, before = start ++ .next r input' :: rest ∧
            exec (Accounts.step lib) Accounts.start start = some w ∧
            w.calls r = some ⟨.register rbody, .hashing dto⟩ ∧ registerDto lib rbody = some dto ∧
            account lib v.users ⟨normalizeEmail lib body.email, body.password⟩ =
              if input'.hash ≠ "" ∧ lib.verify input'.hash body.password = true then some user
              else none := by
  cases (history_of_exec hrun).login c body stage hcall hfault with
  | asked | lookedUp | verified => cases hdone
  | finished v hlookup hturns =>
    obtain ⟨before, input, after, hacts, hzero, hv⟩ := hlookup
    refine ⟨before, input, after, v, hacts, hv, hzero, rfl, hturns, ?_⟩
    intro r rbody user token hregistered hemail
    rw [← hemail]
    exact account_of_registered hv hregistered body.password

/-- A registration, and then a login of the address with another password. -/
def wrongPasswordRun : List Account.Action :=
  [ .request 0 (.register ⟨JsString.ofString " Ada@x.io", JsString.ofString "passw0rd",
      JsString.ofString "Ada"⟩),
    .next 0 ⟨1, "passw0rd", 0⟩, .next 0 ⟨1, "", 0⟩, .next 0 ⟨1, "", 0⟩,
    .request 1 (.login ⟨JsString.ofString "ADA@X.IO", JsString.ofString "password"⟩),
    .next 1 ⟨0, "", 0⟩, .next 1 ⟨0, "", 0⟩ ]

/-- It is refused as that of an address nobody has registered would be. -/
theorem logins_tell_whether_they_succeed_wrongPasswordRun :
    ∃ s, exec (Accounts.step plainLibraries) Accounts.start wrongPasswordRun = some s ∧
      ∃ before input after v, wrongPasswordRun = before ++ .next 1 input :: after ∧
        exec (Accounts.step plainLibraries) Accounts.start before = some v ∧
        (outcome none : Stage) = outcome (account plainLibraries v.users
          ⟨normalizeEmail plainLibraries (JsString.ofString "ADA@X.IO"),
            JsString.ofString "password"⟩) := by
  have hrun : ∃ s, exec (Accounts.step plainLibraries) Accounts.start wrongPasswordRun = some s ∧
      s.calls 1 = some ⟨.login ⟨JsString.ofString "ADA@X.IO", JsString.ofString "password"⟩,
        outcome none⟩ := by
    refine ⟨_, rfl, ?_⟩
    decide +kernel
  obtain ⟨s, hs, hcall⟩ := hrun
  obtain ⟨before, input, after, v, hacts, hv, -, hstage, -⟩ :=
    logins_tell_whether_they_succeed plainLibraries wrongPasswordRun s hs 1 _ _ hcall rfl
      (by simp [wrongPasswordRun])
  exact ⟨s, hs, before, input, after, v, hacts, hv, hstage⟩

end Auth
end GroupChat

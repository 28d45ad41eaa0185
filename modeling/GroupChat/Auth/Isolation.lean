import GroupChat.Auth.Revocation

/-!
# Sessions do not touch each other

A login opens a family of tokens, and what is presented afterwards, to `rotate` or to
`revokeByToken`, belongs to one family.  `sessions_are_isolated` says that such a call
changes no row of any other family, that a call of `rotate` that refuses its token for any
reason but reuse has changed nothing at all, and that a row keeps everything but
`revokedAt`, which is set once.

The table the calls start from is any table in which a hash is stored once.  `Isolated` is
what the calls keep: `Own` says of one call what it has written and has still to write, and
`Serves` that this is about the family of the token that was presented to it.
-/

namespace GroupChat
namespace Auth

open Common Database Transition

variable {cfg : Config} {s t : State} {a : Action} {acts : List Action} {log : Log}
  {tokens : Tokens}

/-! ## The property -/

/-- Before any call, with the tokens of a table. -/
def startWith (tokens : Tokens) : State :=
  ⟨Store.ofTable tokens, fun _ => .idle,
    ⟨tokens.map RefreshToken.asIssued RefreshToken.asIssued_id, [], fun _ => []⟩⟩

/-- `tokenHash String @unique` -/
def TokenHashUnique (t : Tokens) : Prop := ∀ r ∈ t, ∀ r' ∈ t, r.tokenHash = r'.tokenHash → r = r'

instance (t : Tokens) : Decidable (TokenHashUnique t) :=
  inferInstanceAs
    (Decidable (∀ r ∈ t.rows, ∀ r' ∈ t.rows, r.tokenHash = r'.tokenHash → r = r'))

/-- The call was made with the token. -/
def IsPresented (acts : List Action) (c : ℕ) (rawToken : String) : Prop :=
  .request c (.rotate rawToken) ∈ acts ∨ .request c (.revokeByToken rawToken) ∈ acts

/-- The token is one of the family. -/
def FamilyOf (cfg : Config) (log : Log) (rawToken : String) (familyId : Uuid) : Prop :=
  ∃ r ∈ log.issued, r.tokenHash = cfg.hashToken rawToken ∧ r.familyId = familyId

/-- What a step may change. -/
structure IsolationKept (cfg : Config) (acts : List Action) (s : State) (a : Action) (t : State) :
    Prop where
  /-- The call of a presented token changes rows of its family. -/
  family : ∀ rawToken, IsPresented acts a.call rawToken → ∀ r : RefreshToken,
    ¬(r ∈ t.store.committed ↔ r ∈ s.store.committed) → FamilyOf cfg s.aux rawToken r.familyId
  /-- A call that has changed something is not refused, but for reuse. -/
  refused : t.store.committed ≠ s.store.committed → ∀ bs u e,
    exec (step cfg) t bs = some u → u.calls a.call = .thrown e →
      e = .unauthorized "Refresh token reuse detected"

/-- A row as it may be found later. -/
structure Later (r r' : RefreshToken) : Prop where
  userId : r'.userId = r.userId
  familyId : r'.familyId = r.familyId
  tokenHash : r'.tokenHash = r.tokenHash
  expiresAt : r'.expiresAt = r.expiresAt
  revokedAt : r.revokedAt ≠ none → r'.revokedAt = r.revokedAt

/-! ## What a call has to do with -/

/-- The family a call works on. -/
def Call.family? : Call → Option Uuid
  | .findingUser _ existing | .claiming _ existing | .reissuing _ existing
  | .committing _ existing _ _ => some existing.familyId
  | .revokingFamily familyId _ | .revoking familyId _ _ => some familyId
  | _ => none

/-- The row a rotation has read. -/
def Call.existing? : Call → Option RefreshToken
  | .findingUser _ existing | .claiming _ existing | .reissuing _ existing
  | .committing _ existing _ _ => some existing
  | _ => none

/-- The call may have written and not committed. -/
def Call.writing : Call → Bool
  | .reissuing _ _ | .committing _ _ _ _ | .revoking _ _ _ | .purging _ _ _ => true
  | _ => false

/-- The call deletes what has expired. -/
def Call.purges : Call → Bool
  | .purging _ _ _ => true
  | _ => false

/-- The writes of a call over the committed table `t`, by where it stands. -/
structure Own (log : Log) (t : Tokens) (pc : Call) (ws : List (Write RefreshToken Uuid)) :
    Prop where
  nil_of_not_writing : pc.writing = false → ws = []
  existing : ∀ r, pc.existing? = some r → Issued log r
  issued : ∀ r, .put r ∈ ws → Issued log r
  family : ∀ r familyId, .put r ∈ ws → pc.family? = some familyId → r.familyId = familyId
  /-- A row that is written is live until then. -/
  live : ∀ r, .put r ∈ ws → ∀ r' ∈ t, r'.id = r.id → r'.live = true
  removes : ∀ id, .remove id ∈ ws → pc.purges = true

/-- The call is about the family of the token. -/
def Serves (cfg : Config) (log : Log) (rawToken : String) : Call → Prop
  | .rotating rawToken' | .loggingOut rawToken' => rawToken' = rawToken
  | .findingUser _ existing | .claiming _ existing | .reissuing _ existing
  | .committing _ existing _ _ => FamilyOf cfg log rawToken existing.familyId
  | .revokingFamily familyId _ | .revoking familyId _ _ => FamilyOf cfg log rawToken familyId
  | .rotated _ _ _ | .loggedOut | .thrown _ => True
  | .idle | .issuing _ | .purgingExpired | .purging _ _ _ | .issued _ | .purged _ => False

/-- The invariant of calls on any table. -/
structure Isolated (cfg : Config) (acts : List Action) (s : State) : Prop where
  issued : ∀ r ∈ s.store.committed, Issued s.aux r
  tokenHash : ∀ r ∈ s.aux.issued, ∀ r' ∈ s.aux.issued, r.tokenHash = r'.tokenHash → r = r'
  own : ∀ c, Own s.aux s.store.committed (s.calls c) (s.store.writesOf c)
  serves : ∀ c rawToken, IsPresented acts c rawToken → Serves cfg s.aux rawToken (s.calls c)

theorem mem_issued_startWith {r : RefreshToken} :
    r ∈ (startWith tokens).aux.issued ↔ ∃ r' ∈ tokens, r'.asIssued = r :=
  List.mem_map

theorem Own.of_nil {pc : Call} {t : Tokens} (h : ∀ r, pc.existing? = some r → Issued log r) :
    Own log t pc [] :=
  ⟨fun _ => rfl, h, fun _ hr => absurd hr List.not_mem_nil,
    fun _ _ hr => absurd hr List.not_mem_nil, fun _ hr => absurd hr List.not_mem_nil,
    fun _ hid => absurd hid List.not_mem_nil⟩

theorem isolated_startWith (cfg : Config) (h : TokenHashUnique tokens) :
    Isolated cfg [] (startWith tokens) where
  issued r hr := mem_issued_startWith.mpr ⟨r, hr, rfl⟩
  tokenHash r hr r' hr' heq := by
    obtain ⟨x, hx, rfl⟩ := mem_issued_startWith.mp hr
    obtain ⟨x', hx', rfl⟩ := mem_issued_startWith.mp hr'
    rw [h x hx x' hx' heq]
  own _ := Own.of_nil fun _ hr => by cases hr
  serves _ _ h := by rcases h with h | h <;> cases h

/-! ## Another call moves -/

theorem FamilyOf.mono {log' : Log} {rawToken : String} {familyId : Uuid}
    (h : FamilyOf cfg log rawToken familyId) (hlog : log.Grows log') :
    FamilyOf cfg log' rawToken familyId := by
  obtain ⟨r, hr, hfamily⟩ := h
  exact ⟨r, hlog r hr, hfamily⟩

theorem Serves.mono {log' : Log} {rawToken : String} {pc : Call} (h : Serves cfg log rawToken pc)
    (hlog : log.Grows log') : Serves cfg log' rawToken pc := by
  cases pc with
  | findingUser | claiming | reissuing | committing | revokingFamily | revoking =>
    exact FamilyOf.mono h hlog
  | idle | issuing | rotating | loggingOut | purgingExpired | purging | issued | rotated | loggedOut
  | purged | thrown => exact h

theorem Own.mono {log' : Log} {t t' : Tokens} {pc : Call} {ws : List (Write RefreshToken Uuid)}
    (h : Own log t pc ws) (hlog : log.Grows log')
    (ht : ∀ r : RefreshToken, r.id ∈ ws.map (Write.target RefreshToken.id) → (r ∈ t' ↔ r ∈ t)) :
    Own log' t' pc ws := by
  refine ⟨h.nil_of_not_writing, fun r hr => (h.existing r hr).mono hlog,
    fun r hr => (h.issued r hr).mono hlog, h.family, fun r hr r' hr' hid => ?_, h.removes⟩
  have hlocked : r'.id ∈ ws.map (Write.target RefreshToken.id) :=
    List.mem_map.mpr ⟨.put r, hr, hid.symm⟩
  exact h.live r hr r' ((ht r' hlocked).mp hr') hid

/-! ## The call itself moves -/

section Statement

variable {c : ℕ} {input : Input} {e : Effect RefreshToken Uuid Call}

theorem Did.grows (h : Did cfg s a e log) : s.aux.Grows log := by
  cases h with
  | requested | rotated | revoked | purged | faulted => exact Log.Grows.refl _
  | ran h =>
    cases h with
    | issued _ hfresh | reissued _ hfresh => exact Log.grows_issue hfresh
    | unknown | reused | expired | found | user | noUser | claimed | lost | unknownLogout | logout
    | revoking | revoked | passed | purging | removed | kept => exact Log.Grows.refl _

theorem Did.tokenHash (h : Did cfg s a e log)
    (hs : ∀ r ∈ s.aux.issued, ∀ r' ∈ s.aux.issued, r.tokenHash = r'.tokenHash → r = r') :
    ∀ r ∈ log.issued, ∀ r' ∈ log.issued, r.tokenHash = r'.tokenHash → r = r' := by
  cases h with
  | requested | rotated | revoked | purged | faulted => exact hs
  | ran h =>
    cases h with
    | issued _ hfresh | reissued _ hfresh => exact tokenHash_issue hfresh hs
    | unknown | reused | expired | found | user | noUser | claimed | lost | unknownLogout | logout
    | revoking | revoked | passed | purging | removed | kept => exact hs

/-- A row that the call sees was inserted. -/
theorem Isolated.issued_of_mem_view (hs : Isolated cfg acts s) {r : RefreshToken}
    (hr : r ∈ s.store.view c) : Issued s.aux r := by
  rcases Table.put_or_old_of_mem_applyAll hr with hput | ⟨hold, -⟩
  · exact (hs.own c).issued r hput
  · exact hs.issued r hold

/-- A row that the call sees live is live where it is committed. -/
theorem Isolated.live_of_mem_view (hs : Isolated cfg acts s) {r r' : RefreshToken}
    (hr : r ∈ s.store.view c) (hlive : r.live = true) (hr' : r' ∈ s.store.committed)
    (hid : r'.id = r.id) : r'.live = true := by
  rcases Table.put_or_old_of_mem_applyAll hr with hput | ⟨hold, -⟩
  · exact (hs.own c).live r hput r' hr' hid
  · rwa [Table.eq_of_key_eq hr' hold hid]

/-- The call goes on, with what it has written, or before it has written. -/
theorem Own.goto {t : Tokens} {pc pc' : Call} {ws : List (Write RefreshToken Uuid)}
    (h : Own log t pc ws)
    (hpc : pc.writing = false ∨
      pc'.writing = true ∧ pc'.family? = pc.family? ∧ pc'.purges = pc.purges)
    (hexisting : ∀ r, pc'.existing? = some r → Issued log r) : Own log t pc' ws := by
  rcases hpc with hpc | ⟨hwriting, hfamily, hpurges⟩
  · rw [h.nil_of_not_writing hpc]
    exact Own.of_nil hexisting
  · refine ⟨fun hnot => absurd hwriting (by simp [hnot]), hexisting, h.issued,
      fun r familyId hr hf => h.family r familyId hr (hfamily ▸ hf), h.live, fun id hid => ?_⟩
    rw [hpurges]
    exact h.removes id hid

/-- The call writes one more row. -/
theorem Own.put {t : Tokens} {pc : Call} {ws : List (Write RefreshToken Uuid)} {r : RefreshToken}
    (h : Own log t pc ws) (hwriting : pc.writing = true) (hissued : Issued log r)
    (hfamily : ∀ familyId, pc.family? = some familyId → r.familyId = familyId)
    (hlive : ∀ r' ∈ t, r'.id = r.id → r'.live = true) : Own log t pc (ws ++ [.put r]) := by
  have hput : ∀ x, Write.put x ∈ ws ++ [Write.put r] → Write.put x ∈ ws ∨ x = r := by
    intro x hx
    rcases List.mem_append.mp hx with hx | hx
    · exact Or.inl hx
    · exact Or.inr (Write.put.inj (List.mem_singleton.mp hx))
  refine ⟨fun hnot => absurd hwriting (by simp [hnot]), h.existing, fun x hx => ?_,
    fun x familyId hx hf => ?_, fun x hx => ?_, fun id hid => ?_⟩
  · rcases hput x hx with hold | rfl
    · exact h.issued x hold
    · exact hissued
  · rcases hput x hx with hold | rfl
    · exact h.family x familyId hold hf
    · exact hfamily familyId hf
  · rcases hput x hx with hold | rfl
    · exact h.live x hold
    · exact hlive
  · rcases List.mem_append.mp hid with hold | hnew
    · exact h.removes id hold
    · cases List.mem_singleton.mp hnew

theorem Own.remove {t : Tokens} {pc : Call} {ws : List (Write RefreshToken Uuid)} (id : Uuid)
    (h : Own log t pc ws) (hwriting : pc.writing = true) (hpurges : pc.purges = true) :
    Own log t pc (ws ++ [.remove id]) := by
  have hput : ∀ x, Write.put x ∈ ws ++ [Write.remove id] → Write.put x ∈ ws := by
    intro x hx
    rcases List.mem_append.mp hx with hx | hx
    · exact hx
    · cases List.mem_singleton.mp hx
  exact ⟨fun hnot => absurd hwriting (by simp [hnot]), h.existing, fun x hx => h.issued x (hput x hx),
    fun x familyId hx => h.family x familyId (hput x hx), fun x hx => h.live x (hput x hx),
    fun _ _ => hpurges⟩

/-- What an effect has to satisfy. -/
def EffectOwn (s : State) (c : ℕ) (log : Log) : Effect RefreshToken Uuid Call → Prop
  | .goto pc => Own log s.store.committed pc (s.store.writesOf c)
  | .write ws pc => Own log s.store.committed pc (s.store.writesOf c ++ ws)
  | .autocommit ws pc => s.store.writesOf c = [] ∧ pc.existing? = none ∧
      ∃ r, ws = [.put r] ∧ Issued log r
  | .commit pc | .abort pc => pc.existing? = none

theorem Ran.own (hs : Isolated cfg acts s) (h : Ran cfg s c input e log) :
    EffectOwn s c log e := by
  have hown := hs.own c
  cases h with
  | issued hpc hfresh =>
    rw [hpc] at hown
    exact ⟨hown.nil_of_not_writing rfl, rfl, _, rfl, Log.issued_issue _ rfl⟩
  | unknown hpc | reused hpc | expired hpc | noUser hpc | lost hpc | unknownLogout hpc
  | logout hpc | revoking hpc | purging hpc =>
    rw [hpc] at hown
    exact hown.goto (Or.inl rfl) fun _ hr => by cases hr
  | found hpc hfound =>
    rw [hpc] at hown
    refine hown.goto (Or.inl rfl) fun r hr => ?_
    rw [← Option.some.inj hr]
    exact hs.issued_of_mem_view (findByHash_eq_some hfound).1
  | user hpc =>
    rw [hpc] at hown
    exact hown.goto (Or.inl rfl) fun r hr => hown.existing r hr
  | @claimed rawToken existing r hpc hfree hfound hlive =>
    rw [hpc] at hown
    have hmem : r ∈ s.store.view c := Table.mem_of_find? hfound
    have hfamily : r.familyId = existing.familyId :=
      (hs.issued_of_mem_view hmem).familyId_eq (hown.existing existing rfl)
        (Table.key_of_find? hfound)
    refine Own.put (hown.goto (Or.inl rfl) fun r hr => hown.existing r hr) rfl
      ((hs.issued_of_mem_view hmem).revoke _) (fun familyId hf => ?_) fun r' hr' hid => ?_
    · exact hfamily.trans (Option.some.inj hf)
    · exact hs.live_of_mem_view hmem hlive hr' hid
  | @reissued rawToken existing hpc hfresh =>
    rw [hpc] at hown
    have hgrows := Log.grows_issue hfresh
    refine Own.put ((hown.mono hgrows fun _ _ => Iff.rfl).goto (Or.inr ⟨rfl, rfl, rfl⟩) fun r hr => ?_)
      rfl (Log.issued_issue _ rfl) (fun familyId hf => Option.some.inj hf) fun r' hr' hid => ?_
    · exact (hown.existing r hr).mono hgrows
    · exact absurd hid (hfresh r'.asIssued (hs.issued r' hr')).1
  | @revoked familyId ids after r hpc hvisit hfree hfound hfamily hlive =>
    rw [hpc] at hown
    have hmem : r ∈ s.store.view c := Table.mem_of_find? hfound
    refine Own.put (hown.goto (Or.inr ⟨rfl, rfl, rfl⟩) fun _ hr => by cases hr) rfl
      ((hs.issued_of_mem_view hmem).revoke _) (fun f hf => ?_) fun r' hr' hid => ?_
    · exact hfamily.trans (Option.some.inj hf)
    · exact hs.live_of_mem_view hmem hlive hr' hid
  | passed hpc | kept hpc =>
    rw [hpc] at hown
    exact hown.goto (Or.inr ⟨rfl, rfl, rfl⟩) fun _ hr => by cases hr
  | removed hpc =>
    rw [hpc] at hown
    exact Own.remove _ (hown.goto (Or.inr ⟨rfl, rfl, rfl⟩) fun _ hr => by cases hr) rfl rfl

theorem Did.own (hs : Isolated cfg acts s) (h : Did cfg s a e log) :
    EffectOwn s a.call log e := by
  cases h with
  | @requested c r hpc =>
    have hown := hs.own c
    rw [hpc] at hown
    refine Own.goto (hown.mono (fun _ h => h) fun _ _ => Iff.rfl) (Or.inl rfl) fun x hx => ?_
    cases r <;> cases hx
  | ran h => exact h.own hs
  | rotated | purged | faulted => rfl
  | @revoked c familyId after hpc => cases after <;> rfl

end Statement

/-! ## One step -/

/-- Where the rows of the table after a step come from. -/
theorem Isolated.issued_of_step (hs : Isolated cfg acts s) {e : Effect RefreshToken Uuid Call}
    (hown : EffectOwn s a.call t.aux e) (hgrows : s.aux.Grows t.aux)
    (h : s.perform a.call e t.aux = some t) : ∀ r ∈ t.store.committed, Issued t.aux r := by
  intro r hr
  cases e with
  | goto pc =>
    rw [System.store_of_perform_goto h] at hr
    exact (hs.issued r hr).mono hgrows
  | write ws pc =>
    rw [(System.committed_of_perform_write h).1] at hr
    exact (hs.issued r hr).mono hgrows
  | abort pc =>
    rw [(System.committed_of_perform_abort h).1] at hr
    exact (hs.issued r hr).mono hgrows
  | commit pc =>
    rw [(System.committed_of_perform_commit h).1] at hr
    exact (hs.issued_of_mem_view hr).mono hgrows
  | autocommit ws pc =>
    obtain ⟨hnil, -, new, rfl, hissued⟩ := hown
    rw [(System.committed_of_perform_autocommit h hnil).1] at hr
    rcases Table.mem_put.mp hr with rfl | ⟨hold, -⟩
    · exact hissued
    · exact (hs.issued r hold).mono hgrows

/-- The call that moves stands by what it has written. -/
theorem own_of_perform {e : Effect RefreshToken Uuid Call}
    (hown : EffectOwn s a.call t.aux e) (h : s.perform a.call e t.aux = some t) :
    Own t.aux t.store.committed (t.calls a.call) (t.store.writesOf a.call) := by
  rw [System.calls_of_perform h]
  have hdone : ∀ pc : Call, pc.existing? = none → Own t.aux t.store.committed pc [] := by
    intro pc hpc
    refine Own.of_nil fun r hr => ?_
    rw [hpc] at hr
    cases hr
  cases e with
  | goto pc =>
    rw [System.store_of_perform_goto h]
    exact hown
  | write ws pc =>
    obtain ⟨hcommitted, hwrites⟩ := System.committed_of_perform_write h
    rw [hcommitted, hwrites]
    exact hown
  | autocommit ws pc =>
    rw [(System.committed_of_perform_autocommit h hown.1).2]
    exact hdone _ hown.2.1
  | commit pc =>
    rw [(System.committed_of_perform_commit h).2]
    exact hdone _ hown
  | abort pc =>
    rw [(System.committed_of_perform_abort h).2]
    exact hdone _ hown

/-- The family of a row that the call of a presented token reads by its hash. -/
theorem Isolated.familyOf (hs : Isolated cfg acts s) {c : ℕ} {rawToken : String}
    {existing : RefreshToken}
    (h : findByHash (s.store.view c) (cfg.hashToken rawToken) = some existing) :
    FamilyOf cfg s.aux rawToken existing.familyId := by
  obtain ⟨hmem, hhash⟩ := findByHash_eq_some h
  exact ⟨existing.asIssued, hs.issued_of_mem_view hmem, hhash, rfl⟩

theorem Ran.serves (hs : Isolated cfg acts s) {c : ℕ} {input : Input}
    {e : Effect RefreshToken Uuid Call} (h : Ran cfg s c input e log) {rawToken : String}
    (hserves : Serves cfg s.aux rawToken (s.calls c)) : Serves cfg s.aux rawToken e.pc := by
  cases h with
  | issued hpc | purging hpc | removed hpc | kept hpc =>
    rw [hpc] at hserves
    exact hserves.elim
  | unknown | expired | noUser | unknownLogout => trivial
  | reused hpc hfound | found hpc hfound | logout hpc hfound =>
    rw [hpc] at hserves
    obtain rfl : _ = rawToken := hserves
    exact hs.familyOf hfound
  | user hpc | claimed hpc | lost hpc | reissued hpc | revoking hpc | revoked hpc | passed hpc =>
    rw [hpc] at hserves
    exact hserves

theorem Did.serves (hs : Isolated cfg acts s) {e : Effect RefreshToken Uuid Call}
    (h : Did cfg s a e log) {rawToken : String}
    (hserves : Serves cfg s.aux rawToken (s.calls a.call)) : Serves cfg s.aux rawToken e.pc := by
  cases h with
  | requested hpc =>
    have hidle : Serves cfg s.aux rawToken .idle := hpc ▸ hserves
    exact hidle.elim
  | ran h => exact h.serves hs hserves
  | rotated | faulted => trivial
  | @revoked c familyId after => cases after <;> trivial
  | purged hpc =>
    have hpurging : Serves cfg s.aux rawToken (.purging _ [] _) := hpc ▸ hserves
    exact hpurging.elim

/-- **One step of calls on any table.** -/
theorem Isolated.of_step (hs : Isolated cfg acts s) (h : step cfg s a = some t) :
    Isolated cfg (acts ++ [a]) t := by
  obtain ⟨e, log, hlog, hdid, hperf⟩ := did_of_step h
  have hnew : ∀ c r, a = .request c r → t.calls c = r.start := by
    rintro c r rfl
    have hcalls : t.calls c = e.pc := System.calls_of_perform hperf
    cases hdid with
    | requested hpc => exact hcalls
  subst hlog
  have hframe : System.Frame s t a.call := System.frame_of_perform hperf
  have hgrows : s.aux.Grows t.aux := hdid.grows
  refine ⟨hs.issued_of_step (hdid.own hs) hgrows hperf, hdid.tokenHash hs.tokenHash,
    fun c => ?_, fun c rawToken hpresented => ?_⟩
  · by_cases hc : c = a.call
    · rw [hc]
      exact own_of_perform (hdid.own hs) hperf
    · rw [hframe.calls_of_ne c hc, hframe.writesOf_of_ne c hc]
      exact (hs.own c).mono hgrows fun r hr => hframe.mem_of_mem_locks c hc r hr
  · have hold : IsPresented acts c rawToken → Serves cfg t.aux rawToken (t.calls c) := by
      intro hpresented
      by_cases hc : c = a.call
      · subst hc
        rw [System.calls_of_perform hperf]
        exact (hdid.serves hs (hs.serves a.call rawToken hpresented)).mono hgrows
      · rw [hframe.calls_of_ne c hc]
        exact (hs.serves c rawToken hpresented).mono hgrows
    rcases hpresented with hmem | hmem <;> rcases List.mem_append.mp hmem with hmem | hmem
    · exact hold (Or.inl hmem)
    · rw [hnew c _ (List.mem_singleton.mp hmem).symm]
      rfl
    · exact hold (Or.inr hmem)
    · rw [hnew c _ (List.mem_singleton.mp hmem).symm]
      rfl

theorem isolated_of_exec (h : TokenHashUnique tokens)
    (hs : exec (step cfg) (startWith tokens) acts = some s) : Isolated cfg acts s :=
  of_exec_append (P := Isolated cfg) (fun _ _ _ _ h hst => h.of_step hst)
    (isolated_startWith cfg h) hs

/-! ## Which rows a step changes -/

/-- A row that a commit changes is one the transaction has written. -/
theorem exists_write_of_commit {c : ℕ} {r : RefreshToken}
    (h : ¬(r ∈ s.store.view c ↔ r ∈ s.store.committed)) :
    ∃ w ∈ s.store.writesOf c, w.target RefreshToken.id = r.id := by
  by_contra hno
  refine h (Table.mem_applyAll_of_not_mem fun hmem => hno ?_)
  obtain ⟨w, hw, htarget⟩ := List.mem_map.mp hmem
  exact ⟨w, hw, htarget⟩

/-- What a call that works on one family commits is about that family. -/
theorem Isolated.familyId_of_commit (hs : Isolated cfg acts s) {c : ℕ} {familyId : Uuid}
    {r : RefreshToken} (hfamily : (s.calls c).family? = some familyId)
    (hpurges : (s.calls c).purges = false)
    (hr : ¬(r ∈ s.store.view c ↔ r ∈ s.store.committed)) : r.familyId = familyId := by
  have hown := hs.own c
  have hissued : Issued s.aux r := by
    by_cases hold : r ∈ s.store.committed
    · exact hs.issued r hold
    · refine hs.issued_of_mem_view (c := c) ?_
      by_contra hnot
      exact hr (iff_of_false hnot hold)
  obtain ⟨w, hw, htarget⟩ := exists_write_of_commit hr
  cases w with
  | remove id => exact absurd (hown.removes id hw) (by simp [hpurges])
  | put x =>
    exact ((hown.issued x hw).familyId_eq hissued htarget).symm.trans
      (hown.family x familyId hw hfamily)

/-- **The call of a presented token changes rows of its family.** -/
theorem Isolated.familyOf_of_step (hs : Isolated cfg acts s) (h : step cfg s a = some t)
    {rawToken : String} (hpresented : IsPresented acts a.call rawToken) {r : RefreshToken}
    (hr : ¬(r ∈ t.store.committed ↔ r ∈ s.store.committed)) :
    FamilyOf cfg s.aux rawToken r.familyId := by
  obtain ⟨e, log, -, hdid, hperf⟩ := did_of_step h
  have hserves := hs.serves a.call rawToken hpresented
  cases hdid with
  | requested => exact absurd (by rw [System.store_of_perform_goto hperf]) hr
  | faulted => exact absurd (by rw [(System.committed_of_perform_abort hperf).1]) hr
  | @rotated c raw newRaw existing new hpc =>
    have hof : FamilyOf cfg s.aux rawToken existing.familyId := by
      have hcommitting : Serves cfg s.aux rawToken (s.calls c) := hserves
      rwa [hpc] at hcommitting
    rw [(System.committed_of_perform_commit hperf).1] at hr
    rwa [hs.familyId_of_commit (c := c) (by rw [hpc]; rfl) (by rw [hpc]; rfl) hr]
  | @revoked c familyId after hpc =>
    have hof : FamilyOf cfg s.aux rawToken familyId := by
      have hrevoking : Serves cfg s.aux rawToken (s.calls c) := hserves
      rwa [hpc] at hrevoking
    rw [(System.committed_of_perform_commit hperf).1] at hr
    rwa [hs.familyId_of_commit (c := c) (by rw [hpc]; rfl) (by rw [hpc]; rfl) hr]
  | @purged c cutoff count hpc =>
    have hpurging : Serves cfg s.aux rawToken (s.calls c) := hserves
    rw [hpc] at hpurging
    exact hpurging.elim
  | @ran c input _ _ hran =>
    cases hran with
    | issued hpc =>
      have hissuing : Serves cfg s.aux rawToken (s.calls c) := hserves
      rw [hpc] at hissuing
      exact hissuing.elim
    | claimed | reissued | revoked | removed =>
      exact absurd (by rw [(System.committed_of_perform_write hperf).1]) hr
    | unknown | reused | expired | found | user | noUser | lost | unknownLogout | logout | revoking
    | passed | purging | kept => exact absurd (by rw [System.store_of_perform_goto hperf]) hr

/-! ## Refusals -/

/-- The call has ended without a refusal, or for reuse. -/
def Call.settled : Call → Bool
  | .issued _ | .rotated _ _ _ | .loggedOut | .purged _ => true
  | .thrown e => e = .unauthorized "Refresh token reuse detected"
  | _ => false

/-- A step that changes the table ends its call. -/
theorem settled_of_step (h : step cfg s a = some t)
    (hne : t.store.committed ≠ s.store.committed) : (t.calls a.call).settled = true := by
  obtain ⟨e, log, -, hdid, hperf⟩ := did_of_step h
  rw [System.calls_of_perform hperf]
  cases hdid with
  | requested => exact absurd (by rw [System.store_of_perform_goto hperf]) hne
  | faulted => exact absurd (System.committed_of_perform_abort hperf).1 hne
  | rotated | purged => rfl
  | @revoked c familyId after => cases after <;> rfl
  | ran hran =>
    cases hran with
    | issued => rfl
    | claimed | reissued | revoked | removed =>
      exact absurd (System.committed_of_perform_write hperf).1 hne
    | unknown | reused | expired | found | user | noUser | lost | unknownLogout | logout | revoking
    | passed | purging | kept => exact absurd (by rw [System.store_of_perform_goto hperf]) hne

theorem Call.not_running_of_settled {pc : Call} (h : pc.settled = true) : pc.running = false := by
  cases pc with
  | issued | rotated | loggedOut | purged | thrown => rfl
  | idle | issuing | rotating | findingUser | claiming | reissuing | committing | loggingOut
  | revokingFamily | revoking | purgingExpired | purging => cases h

/-- What moves is running, or is made. -/
theorem Did.not_settled (h : Did cfg s a e log) : (s.calls a.call).settled = false := by
  have hnot : ∀ {c : ℕ} {pc : Call}, s.calls c = pc → pc.settled = false →
      (s.calls c).settled = false := by
    rintro c pc rfl hpc
    exact hpc
  cases h with
  | requested hpc | rotated hpc | revoked hpc | purged hpc => exact hnot hpc rfl
  | @faulted c hrunning =>
    by_contra hsettled
    have hstopped := Call.not_running_of_settled (by simpa using hsettled)
    exact absurd (hrunning.symm.trans hstopped) (by simp)
  | ran h =>
    cases h with
    | issued hpc | unknown hpc | reused hpc | expired hpc | found hpc | user hpc | noUser hpc
    | claimed hpc | lost hpc | reissued hpc | unknownLogout hpc | logout hpc | revoking hpc
    | revoked hpc | passed hpc | purging hpc | removed hpc | kept hpc => exact hnot hpc rfl

/-- A call that has ended stays as it is. -/
theorem calls_of_settled (h : step cfg s a = some t) {c : ℕ} (hc : (s.calls c).settled = true) :
    t.calls c = s.calls c := by
  obtain ⟨e, log, -, hdid, hperf⟩ := did_of_step h
  refine (System.frame_of_perform hperf).calls_of_ne c ?_
  rintro rfl
  exact absurd (hc.symm.trans hdid.not_settled) (by simp)

/-- **A call that has changed the table is not refused**, but for reuse. -/
theorem unrefused_of_step (h : step cfg s a = some t)
    (hne : t.store.committed ≠ s.store.committed) {bs : List Action} {u : State} {e : Exception}
    (hu : exec (step cfg) t bs = some u) (hthrown : u.calls a.call = .thrown e) :
    e = .unauthorized "Refresh token reuse detected" := by
  have hsettled : (u.calls a.call).settled = true := by
    refine (reach_of_exec hu).invariant (P := fun v => (v.calls a.call).settled = true)
      (fun v b w hv _ hst => ?_) (settled_of_step h hne)
    rwa [calls_of_settled hst hv]
  rw [hthrown] at hsettled
  exact of_decide_eq_true hsettled

/-! ## What a row keeps -/

/-- A row that has been revoked: nothing writes it any more. -/
structure Frozen (r : RefreshToken) (s : State) : Prop where
  dead : r.live = false
  issued : Issued s.aux r
  committed : ∀ r' ∈ s.store.committed, r'.id = r.id → r' = r
  unwritten : ∀ c r', .put r' ∈ s.store.writesOf c → r'.id ≠ r.id

/-- A revoked row of the table is frozen. -/
theorem Isolated.frozen (hs : Isolated cfg acts s) {r : RefreshToken}
    (hr : r ∈ s.store.committed) (hrevoked : r.live = false) : Frozen r s where
  dead := hrevoked
  issued := hs.issued r hr
  committed _ hr' hid := Table.eq_of_key_eq hr' hr hid
  unwritten c r' hput hid := by
    have hlive := (hs.own c).live r' hput r hr hid.symm
    exact absurd (hlive.symm.trans hrevoked) (by simp)

/-- A row that a call sees under the id of a frozen row is that row. -/
theorem Frozen.eq_of_mem_view {r r' : RefreshToken} (h : Frozen r s) {c : ℕ}
    (hr' : r' ∈ s.store.view c) (hid : r'.id = r.id) : r' = r := by
  rcases Table.put_or_old_of_mem_applyAll hr' with hput | ⟨hold, -⟩
  · exact absurd hid (h.unwritten c r' hput)
  · exact h.committed r' hold hid

/-- The rows an effect writes. -/
def effectWrites : Effect RefreshToken Uuid Call → List (Write RefreshToken Uuid)
  | .write ws _ | .autocommit ws _ => ws
  | .goto _ | .commit _ | .abort _ => []

/-- No statement writes a frozen row. -/
theorem Frozen.unwritten_of_did {r : RefreshToken} (h : Frozen r s)
    {e : Effect RefreshToken Uuid Call} (hdid : Did cfg s a e log) :
    ∀ r', .put r' ∈ effectWrites e → r'.id ≠ r.id := by
  intro r' hput hid
  have hfresh : ∀ new : RefreshToken, FreshToken s.aux new → new.id ≠ r.id := fun new hnew hid =>
    (hnew r.asIssued h.issued).1 hid.symm
  -- only a live row is revoked
  have hrevoke : ∀ {c : ℕ} {k : Uuid} {x : RefreshToken} {now : ℤ},
      (s.store.view c).find? k = some x → x.live = true → r' = x.revoke now → False := by
    rintro c k x now hfound hlive rfl
    rw [h.eq_of_mem_view (Table.mem_of_find? hfound) hid, h.dead] at hlive
    cases hlive
  cases hdid with
  | requested | rotated | revoked | purged | faulted => cases hput
  | ran hran =>
    cases hran with
    | issued _ hnew | reissued _ hnew =>
      obtain rfl := Write.put.inj (List.mem_singleton.mp hput)
      exact hfresh _ hnew hid
    | claimed _ _ hfound hlive | revoked _ _ _ hfound _ hlive =>
      exact hrevoke hfound hlive (Write.put.inj (List.mem_singleton.mp hput))
    | removed => cases List.mem_singleton.mp hput
    | unknown | reused | expired | found | user | noUser | lost | unknownLogout | logout | revoking
    | passed | purging | kept => cases hput

/-- **A row that has been revoked stays as it is.** -/
theorem Frozen.of_step {r : RefreshToken} (hr : Frozen r s) (hs : Isolated cfg acts s)
    (h : step cfg s a = some t) : Frozen r t := by
  obtain ⟨e, log, hlog, hdid, hperf⟩ := did_of_step h
  subst hlog
  have hunwritten := hr.unwritten_of_did hdid
  have hown := hdid.own hs
  have hframe : System.Frame s t a.call := System.frame_of_perform hperf
  refine ⟨hr.dead, hr.issued.mono hdid.grows, fun r' hr' hid => ?_, fun c r' hput => ?_⟩
  · cases e with
    | goto pc =>
      rw [System.store_of_perform_goto hperf] at hr'
      exact hr.committed r' hr' hid
    | write ws pc =>
      rw [(System.committed_of_perform_write hperf).1] at hr'
      exact hr.committed r' hr' hid
    | abort pc =>
      rw [(System.committed_of_perform_abort hperf).1] at hr'
      exact hr.committed r' hr' hid
    | commit pc =>
      rw [(System.committed_of_perform_commit hperf).1] at hr'
      exact hr.eq_of_mem_view hr' hid
    | autocommit ws pc =>
      obtain ⟨hnil, -, new, rfl, -⟩ := hown
      rw [(System.committed_of_perform_autocommit hperf hnil).1] at hr'
      rcases Table.mem_put.mp hr' with rfl | ⟨hold, -⟩
      · exact absurd hid (hunwritten _ List.mem_cons_self)
      · exact hr.committed r' hold hid
  · by_cases hc : c = a.call
    · rw [hc] at hput
      cases e with
      | goto pc =>
        rw [System.store_of_perform_goto hperf] at hput
        exact hr.unwritten _ r' hput
      | write ws pc =>
        rw [(System.committed_of_perform_write hperf).2] at hput
        rcases List.mem_append.mp hput with hold | hnew
        · exact hr.unwritten _ r' hold
        · exact hunwritten r' hnew
      | autocommit ws pc =>
        rw [(System.committed_of_perform_autocommit hperf hown.1).2] at hput
        cases hput
      | commit pc =>
        rw [(System.committed_of_perform_commit hperf).2] at hput
        cases hput
      | abort pc =>
        rw [(System.committed_of_perform_abort hperf).2] at hput
        cases hput
    · rw [hframe.writesOf_of_ne c hc] at hput
      exact hr.unwritten c r' hput

/-! ## Runs -/

/-- A row of the table, and the row of its id at any later time. -/
theorem Isolated.later (hs : Isolated cfg acts s) {bs : List Action}
    (ht : exec (step cfg) s bs = some t) {r r' : RefreshToken} (hr : r ∈ s.store.committed)
    (hr' : r' ∈ t.store.committed) (hid : r'.id = r.id) : Later r r' := by
  have hrun : Isolated cfg (acts ++ bs) t ∧ Issued t.aux r ∧ (r.live = false → Frozen r t) := by
    refine of_exec_append (P := fun as u =>
        Isolated cfg as u ∧ Issued u.aux r ∧ (r.live = false → Frozen r u))
      (fun as a u v h hst => ?_) ⟨hs, hs.issued r hr, fun hdead => hs.frozen hr hdead⟩ ht
    obtain ⟨hu, hissued, hfrozen⟩ := h
    obtain ⟨e, log, hlog, hdid, -⟩ := did_of_step hst
    subst hlog
    exact ⟨hu.of_step hst, hissued.mono hdid.grows, fun hdead => (hfrozen hdead).of_step hu hst⟩
  obtain ⟨hu, hissued, hfrozen⟩ := hrun
  have hsame : r'.asIssued = r.asIssued := Table.eq_of_key_eq (hu.issued r' hr') hissued hid
  have hfields := RefreshToken.fields_eq hsame
  refine ⟨hfields.2.1, hfields.2.2.2.1, hfields.2.2.1, hfields.2.2.2.2, fun hrevoked => ?_⟩
  have hdead : r.live = false := by
    simpa [RefreshToken.live, Option.isSome_iff_ne_none] using hrevoked
  rw [(hfrozen hdead).committed r' hr' hid]

/-- **Sessions are isolated.**  On any table in which a hash is stored once, and in every
run of the four calls from it: a step of a call of `rotate` or `revokeByToken` changes only
rows of the one family the presented token is of; a call of `rotate` that is refused, but
for reuse, has changed nothing; and a row that is found again has kept everything but
`revokedAt`, and that too once it was set. -/
theorem sessions_are_isolated (cfg : Config) (tokens : Tokens) (hunique : TokenHashUnique tokens)
    (acts : List Action) (s : State) (hs : exec (step cfg) (startWith tokens) acts = some s) :
    (∀ a t, step cfg s a = some t → IsolationKept cfg acts s a t) ∧
    (∀ rawToken familyId familyId', FamilyOf cfg s.aux rawToken familyId →
      FamilyOf cfg s.aux rawToken familyId' → familyId = familyId') ∧
    ∀ bs t, exec (step cfg) s bs = some t → ∀ r ∈ s.store.committed, ∀ r' ∈ t.store.committed,
      r'.id = r.id → Later r r' := by
  have hisolated : Isolated cfg acts s := isolated_of_exec hunique hs
  refine ⟨fun a t h => ⟨fun _ hpresented _ hr => ?_, fun hne _ _ _ hu hthrown => ?_⟩,
    fun rawToken f f' hf hf' => ?_, fun bs t ht r hr r' hr' hid => hisolated.later ht hr hr' hid⟩
  · exact hisolated.familyOf_of_step h hpresented hr
  · exact unrefused_of_step h hne hu hthrown
  · obtain ⟨r, hr, hhash, rfl⟩ := hf
    obtain ⟨r', hr', hhash', rfl⟩ := hf'
    rw [hisolated.tokenHash r hr r' hr' (hhash.trans hhash'.symm)]

/-- A session of user 5, and another of the same user that has been revoked. -/
def twoSessions : Tokens :=
  (Table.empty.put ⟨1, 5, "t0", 9, 1000, none, 0⟩).put ⟨2, 5, "u0", 8, 1000, some 7, 0⟩

/-- A rotation of the first, and a logout with the token of the second; both are about to
commit. -/
def twoSessionsRun : List Action :=
  [ .request 0 (.rotate "t0"), .statement 0 (input 0 ""), .statement 0 (input 0 ""),
    .statement 0 (input 0 ""), .statement 0 (input 3 "t1"),
    .request 1 (.revokeByToken "u0"), .statement 1 (input 0 ""), .statement 1 (input 0 "") ]

theorem sessions_are_isolated_twoSessionsRun : ∃ s t,
    exec (step plainConfig) (startWith twoSessions) twoSessionsRun = some s ∧
      step plainConfig s (.commit 0) = some t ∧
      IsolationKept plainConfig twoSessionsRun s (.commit 0) t ∧
      Later ⟨2, 5, "u0", 8, 1000, some 7, 0⟩ ⟨2, 5, "u0", 8, 1000, some 7, 0⟩ ∧
      t.store.committed.rows.map RefreshToken.revokedAt = [some 7, some 0, none] := by
  have hisolated := sessions_are_isolated plainConfig twoSessions (by decide) twoSessionsRun _ rfl
  exact ⟨_, _, rfl, rfl, hisolated.1 _ _ rfl,
    hisolated.2.2 [.commit 0] _ rfl _ (by decide) _ (by decide) rfl, by decide⟩

end Auth
end GroupChat

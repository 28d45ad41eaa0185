import GroupChat.Auth.TokenService

/-!
# What the token calls keep

The claim of `rotate` is the only way a live row is replaced, and this file says
what that is worth.  In every reachable state:

* a family has at most one live row (`Inv.oneLive`);
* a row that `rotate` has replaced is never live again, and no two calls have
  replaced the same row (`Inv.oneUse`).

Both rest on what the calls have written so far (`CallInv`): a transaction that
has claimed a row holds its lock, and the row is still live in the committed table
for as long as it does; a statement over many rows has only revoked or removed
some.  No statement can therefore make a row live but the two inserts, and the
insert of `rotate` is published together with the end of the row it replaces.
-/

namespace GroupChat
namespace Auth

open Database Transition

/-! ## Rows and what they were issued as -/

/-- The row is one that was inserted, whatever has become of `revokedAt`. -/
def Issued (log : Log) (r : RefreshToken) : Prop := r.asIssued ∈ log.issued

theorem Issued.revoke {log : Log} {r : RefreshToken} (h : Issued log r) (now : ℤ) :
    Issued log (r.revoke now) := h

/-- Two live rows of one id are the same row. -/
theorem Issued.eq_of_live {log : Log} {r r' : RefreshToken} (h : Issued log r)
    (h' : Issued log r') (hid : r.id = r'.id) (hl : r.live = true) (hl' : r'.live = true) :
    r = r' := by
  have hsame : r.asIssued = r'.asIssued := Table.eq_of_key_eq h h' hid
  rwa [RefreshToken.asIssued_of_live hl, RefreshToken.asIssued_of_live hl'] at hsame

theorem Issued.familyId_eq {log : Log} {r r' : RefreshToken} (h : Issued log r)
    (h' : Issued log r') (hid : r.id = r'.id) : r.familyId = r'.familyId := by
  have hsame : r.asIssued = r'.asIssued := Table.eq_of_key_eq h h' hid
  have hfamily : r.asIssued.familyId = r'.asIssued.familyId := by rw [hsame]
  exact hfamily

/-- No row inserted so far has been forgotten. -/
def Log.Grows (log log' : Log) : Prop := ∀ r ∈ log.issued, r ∈ log'.issued

theorem Log.Grows.refl (log : Log) : log.Grows log := fun _ h => h

theorem Issued.mono {log log' : Log} {r : RefreshToken} (h : Issued log r)
    (hlog : log.Grows log') : Issued log' r := hlog _ h

theorem Log.grows_issue {log : Log} {r : RefreshToken} (hfresh : FreshToken log r) :
    log.Grows (log.issue r) := by
  intro r' hr'
  exact (Table.mem_put_of_key_ne (hfresh r' hr').1).mpr hr'

theorem Log.issued_issue (log : Log) {r : RefreshToken} (hr : r.live = true) :
    Issued (log.issue r) r := by
  rw [Issued, RefreshToken.asIssued_of_live hr]
  exact Table.mem_put_self _ _

/-! ## What a call has written -/

/-- No committed row has this id. -/
def Unused (t : Tokens) (id : Uuid) : Prop := ∀ r ∈ t, r.id ≠ id

/-- Every write is one that sets `revokedAt`. -/
def OnlyRevokes (log : Log) (ws : List (Write RefreshToken Uuid)) : Prop :=
  ∀ w ∈ ws, ∃ r, w = .put r ∧ r.live = false ∧ Issued log r

/-- Every write is a deletion. -/
def OnlyRemoves (ws : List (Write RefreshToken Uuid)) : Prop :=
  ∀ w ∈ ws, ∃ id, w = .remove id

/-- The row a rotation works on, as it was read: live, and the presented token's. -/
structure Presented (cfg : Config) (log : Log) (rawToken : String) (existing : RefreshToken) :
    Prop where
  issued : Issued log existing
  live : existing.live = true
  tokenHash : existing.tokenHash = cfg.hashToken rawToken

/-- A row of this family was inserted. -/
def KnownFamily (log : Log) (familyId : Uuid) : Prop := ∃ r, Issued log r ∧ r.familyId = familyId

/-- What a call has written over the committed table `t`, by where it stands. -/
def CallInv (cfg : Config) (t : Tokens) (ws : List (Write RefreshToken Uuid)) (log : Log) :
    Call → Prop
  | .findingUser rawToken existing | .claiming rawToken existing =>
    ws = [] ∧ Presented cfg log rawToken existing
  | .reissuing rawToken existing =>
    Presented cfg log rawToken existing ∧ existing ∈ t ∧
      ∃ now, ws = [.put (existing.revoke now)]
  | .committing rawToken existing new _ =>
    Presented cfg log rawToken existing ∧ existing ∈ t ∧ Issued log new ∧ new.live = true ∧
      new.familyId = existing.familyId ∧ Unused t new.id ∧
      ∃ now, ws = [.put (existing.revoke now), .put new]
  | .revokingFamily familyId _ => ws = [] ∧ KnownFamily log familyId
  | .revoking familyId _ _ => OnlyRevokes log ws ∧ KnownFamily log familyId
  | .purging _ _ _ => OnlyRemoves ws
  | .rotated rawToken existing _ =>
    ws = [] ∧ Presented cfg log rawToken existing ∧ ∀ r ∈ t, r.id = existing.id → r.live = false
  | _ => ws = []

/-- The row whose token was presented to a call. -/
def Call.presents : Call → Option Uuid
  | .findingUser _ existing | .claiming _ existing | .reissuing _ existing
  | .committing _ existing _ _ | .rotated _ existing _ => some existing.id
  | _ => none

/-- The row a rotation has inserted and not yet published. -/
def Call.inserts : Call → Option Uuid
  | .committing _ _ new _ => some new.id
  | _ => none

/-- The invariant of the token calls. -/
structure Inv (cfg : Config) (s : State) : Prop where
  issued : ∀ r ∈ s.store.committed, Issued s.aux r
  /-- A hash is stored once. -/
  tokenHash : ∀ r ∈ s.aux.issued, ∀ r' ∈ s.aux.issued, r.tokenHash = r'.tokenHash → r = r'
  /-- A family has at most one live row. -/
  oneLive : ∀ r ∈ s.store.committed, ∀ r' ∈ s.store.committed, r.live = true → r'.live = true →
    r.familyId = r'.familyId → r = r'
  /-- A row is replaced once. -/
  oneUse : ∀ c c' raw raw' existing existing' new new',
    s.calls c = .rotated raw existing new → s.calls c' = .rotated raw' existing' new' →
    existing.id = existing'.id → c = c'
  /-- A row that is not published yet has been presented to no call. -/
  unseen : ∀ c c' id, (s.calls c).inserts = some id → (s.calls c').presents ≠ some id
  calls : ∀ c, CallInv cfg s.store.committed (s.store.writesOf c) s.aux (s.calls c)

theorem inv_start (cfg : Config) : Inv cfg start :=
  ⟨fun r h => absurd h (Table.not_mem_empty r), fun r h => absurd h (Table.not_mem_empty r),
    fun r h => absurd h (Table.not_mem_empty r),
    fun _ _ _ _ _ _ _ _ h => absurd h (by simp [start]),
    fun _ _ _ h => absurd h (by simp [start, Call.inserts]), fun _ => rfl⟩

/-! ## Another call moves -/

theorem Presented.mono {cfg : Config} {log log' : Log} {raw : String} {existing : RefreshToken}
    (h : Presented cfg log raw existing) (hlog : log.Grows log') :
    Presented cfg log' raw existing :=
  ⟨h.issued.mono hlog, h.live, h.tokenHash⟩

theorem OnlyRevokes.mono {log log' : Log} {ws : List (Write RefreshToken Uuid)}
    (h : OnlyRevokes log ws) (hlog : log.Grows log') : OnlyRevokes log' ws := by
  intro w hw
  obtain ⟨r, hr, hdead, hiss⟩ := h w hw
  exact ⟨r, hr, hdead, hiss.mono hlog⟩

theorem KnownFamily.mono {log log' : Log} {familyId : Uuid} (h : KnownFamily log familyId)
    (hlog : log.Grows log') : KnownFamily log' familyId := by
  obtain ⟨r, hr, hfamily⟩ := h
  exact ⟨r, hr.mono hlog, hfamily⟩

/-- From `t` to `t'` the rows locked by `ws` have not moved, and the row presented to
the call has not come to life. -/
structure Undisturbed (t t' : Tokens) (ws : List (Write RefreshToken Uuid)) (pc : Call) :
    Prop where
  mem_iff : ∀ r : RefreshToken, r.id ∈ ws.map (Write.target RefreshToken.id) → (r ∈ t' ↔ r ∈ t)
  old_of_live : ∀ r ∈ t', r.live = true → r ∈ t ∨ pc.presents ≠ some r.id

/-- **A call's knowledge survives the others.** -/
theorem CallInv.congr {cfg : Config} {t t' : Tokens} {ws : List (Write RefreshToken Uuid)}
    {log log' : Log} {pc : Call} (ht : Undisturbed t t' ws pc) (hlog : log.Grows log')
    (h : CallInv cfg t ws log pc) : CallInv cfg t' ws log' pc := by
  cases pc with
  | findingUser raw existing | claiming raw existing => exact ⟨h.1, h.2.mono hlog⟩
  | reissuing raw existing =>
    obtain ⟨hpres, hmem, now, rfl⟩ := h
    exact ⟨hpres.mono hlog, (ht.mem_iff existing (by simp)).mpr hmem, now, rfl⟩
  | committing raw existing new newRaw =>
    obtain ⟨hpres, hmem, hiss, hlive, hfamily, hun, now, rfl⟩ := h
    refine ⟨hpres.mono hlog, (ht.mem_iff existing (by simp)).mpr hmem, hiss.mono hlog, hlive,
      hfamily, fun r hr hid => ?_, now, rfl⟩
    exact hun r ((ht.mem_iff r (by simp [hid])).mp hr) hid
  | revokingFamily familyId after => exact ⟨h.1, h.2.mono hlog⟩
  | revoking familyId ids after => exact ⟨h.1.mono hlog, h.2.mono hlog⟩
  | purging cutoff ids count => exact h
  | rotated raw existing newRaw =>
    obtain ⟨hnil, hpres, hdead⟩ := h
    refine ⟨hnil, hpres.mono hlog, fun r hr hid => ?_⟩
    by_contra hlive
    rcases ht.old_of_live r hr (by simpa using hlive) with hold | hne
    · exact hlive (hdead r hold hid)
    · exact hne (by rw [hid]; rfl)
  | idle | issuing _ | rotating _ | loggingOut _ | purgingExpired | issued _ | loggedOut | purged _
  | thrown _ => exact h

/-! ## The call itself moves -/

/-- A program counter that goes with no writes, whatever is committed, and that
neither presents nor inserts a row. -/
structure Quiet (pc : Call) : Prop where
  callInv : ∀ cfg t log, CallInv cfg t [] log pc
  presents : pc.presents = none
  inserts : pc.inserts = none

theorem quiet_thrown (e : Common.Exception) : Quiet (.thrown e) :=
  ⟨fun _ _ _ => rfl, rfl, rfl⟩

theorem quiet_afterRevoke (after : AfterRevoke) : Quiet after.call := by
  cases after <;> exact ⟨fun _ _ _ => rfl, rfl, rfl⟩

/-- What an effect of call `c` has to satisfy for the invariant to be kept. -/
def EffectInv (cfg : Config) (s : State) (c : ℕ) (log : Log) :
    Effect RefreshToken Uuid Call → Prop
  | .goto pc => CallInv cfg s.store.committed (s.store.writesOf c) log pc
  | .write ws pc => CallInv cfg s.store.committed (s.store.writesOf c ++ ws) log pc
  | .autocommit ws pc =>
    s.store.writesOf c = [] ∧ Quiet pc ∧ ∃ r, ws = [.put r] ∧ r.live = true ∧
      FreshToken s.aux r ∧ FreshFamily s.aux r.familyId ∧ Issued log r
  | .commit pc =>
    (∃ raw existing new newRaw, s.calls c = .committing raw existing new newRaw ∧
      pc = .rotated raw existing newRaw) ∨
      (OnlyRevokes log (s.store.writesOf c) ∨ OnlyRemoves (s.store.writesOf c)) ∧ Quiet pc
  | .abort pc => Quiet pc

/-- How the rows a call presents and inserts change with a step: it presents what it
presented, or a row it has read, and inserts nothing, or a row with a fresh id. -/
structure PcStep (s : State) (c : ℕ) (log : Log) (pc : Call) : Prop where
  presents : ∀ id, pc.presents = some id →
    (s.calls c).presents = some id ∨ ∃ r ∈ s.store.committed, r.id = id
  inserts : ∀ id, pc.inserts = some id → ∃ new, FreshToken s.aux new ∧ new.id = id ∧
    ∃ raw existing newRaw, pc = .committing raw existing new newRaw
  /-- Only a finished rotation has rotated. -/
  rotated : ∀ raw existing newRaw, pc = .rotated raw existing newRaw →
    ∃ new, s.calls c = .committing raw existing new newRaw
  grows : s.aux.Grows log
  tokenHash : (∀ r ∈ s.aux.issued, ∀ r' ∈ s.aux.issued, r.tokenHash = r'.tokenHash → r = r') →
    ∀ r ∈ log.issued, ∀ r' ∈ log.issued, r.tokenHash = r'.tokenHash → r = r'

/-- A step that inserts nothing. -/
theorem PcStep.of_issued_eq {s : State} {c : ℕ} {log : Log} {pc : Call}
    (hlog : log.issued = s.aux.issued) (hins : pc.inserts = none)
    (hrot : ∀ raw existing newRaw, pc ≠ .rotated raw existing newRaw)
    (hpres : ∀ id, pc.presents = some id →
      (s.calls c).presents = some id ∨ ∃ r ∈ s.store.committed, r.id = id) :
    PcStep s c log pc := by
  refine ⟨hpres, fun id hid => absurd (hins.symm.trans hid) (by simp),
    fun raw existing newRaw h => absurd h (hrot raw existing newRaw), fun r hr => ?_, fun h => ?_⟩
  · rw [hlog]
    exact hr
  · rw [hlog]
    exact h

theorem Quiet.pcStep {s : State} {c : ℕ} {log : Log} {pc : Call} (hpc : Quiet pc)
    (hlog : log.issued = s.aux.issued) : PcStep s c log pc :=
  PcStep.of_issued_eq hlog hpc.inserts
    (fun _ _ _ h => absurd hpc.presents (by simp [h, Call.presents]))
    fun id hid => absurd (hpc.presents.symm.trans hid) (by simp)

/-- A step that inserts a row with a fresh id and a fresh hash. -/
theorem tokenHash_issue {log : Log} {new : RefreshToken} (hfresh : FreshToken log new)
    (h : ∀ r ∈ log.issued, ∀ r' ∈ log.issued, r.tokenHash = r'.tokenHash → r = r') :
    ∀ r ∈ (log.issue new).issued, ∀ r' ∈ (log.issue new).issued,
      r.tokenHash = r'.tokenHash → r = r' := by
  intro r hr r' hr' heq
  rcases Table.mem_put.mp hr with rfl | ⟨hold, -⟩ <;>
    rcases Table.mem_put.mp hr' with rfl | ⟨hold', -⟩
  · rfl
  · exact absurd heq.symm (hfresh r' hold').2
  · exact absurd heq (hfresh r hold).2
  · exact h r hold r' hold' heq

theorem effectInv_write {cfg : Config} {s : State} {c : ℕ} {log : Log}
    {ws₀ ws : List (Write RefreshToken Uuid)} {pc : Call} (hws : s.store.writesOf c = ws₀)
    (h : CallInv cfg s.store.committed (ws₀ ++ ws) log pc) :
    EffectInv cfg s c log (.write ws pc) := by
  show CallInv cfg s.store.committed (s.store.writesOf c ++ ws) log pc
  rw [hws]
  exact h

theorem effectInv_goto {cfg : Config} {s : State} {c : ℕ} {log : Log}
    {ws₀ : List (Write RefreshToken Uuid)} {pc : Call} (hws : s.store.writesOf c = ws₀)
    (h : CallInv cfg s.store.committed ws₀ log pc) : EffectInv cfg s c log (.goto pc) := by
  show CallInv cfg s.store.committed (s.store.writesOf c) log pc
  rw [hws]
  exact h

section Statement

variable {cfg : Config} {s : State} {c : ℕ} {input : Input} {e : Effect RefreshToken Uuid Call}
  {log : Log}

/-- A call that has written nothing finds a committed row. -/
theorem mem_of_findByHash {rawToken : String} {existing : RefreshToken}
    (hnil : s.store.writesOf c = [])
    (h : findByHash (s.store.view c) (cfg.hashToken rawToken) = some existing) :
    existing ∈ s.store.committed ∧ existing.tokenHash = cfg.hashToken rawToken := by
  rw [Store.view_of_writesOf_nil hnil] at h
  exact findByHash_eq_some h

theorem OnlyRevokes.append {ws : List (Write RefreshToken Uuid)} {r : RefreshToken}
    (h : OnlyRevokes log ws) (hdead : r.live = false) (hiss : Issued log r) :
    OnlyRevokes log (ws ++ [.put r]) := by
  intro w hw
  rcases List.mem_append.mp hw with hw | hw
  · exact h w hw
  · exact ⟨r, List.mem_singleton.mp hw, hdead, hiss⟩

theorem OnlyRemoves.append {ws : List (Write RefreshToken Uuid)} (h : OnlyRemoves ws) (id : Uuid) :
    OnlyRemoves (ws ++ [.remove id]) := by
  intro w hw
  rcases List.mem_append.mp hw with hw | hw
  · exact h w hw
  · exact ⟨id, List.mem_singleton.mp hw⟩

/-- What a call that only revokes sees was inserted. -/
theorem Inv.issued_of_mem_view (hs : Inv cfg s) (hws : OnlyRevokes s.aux (s.store.writesOf c))
    {r : RefreshToken} (hr : r ∈ s.store.view c) : Issued s.aux r := by
  rcases Table.put_or_old_of_mem_applyAll hr with hput | ⟨hold, -⟩
  · obtain ⟨r', heq, -, hiss⟩ := hws _ hput
    cases heq
    exact hiss
  · exact hs.issued r hold

/-- **Each statement writes what its program counter promises.** -/
theorem Ran.effectInv (hs : Inv cfg s) (h : Ran cfg s c input e log) :
    EffectInv cfg s c log e := by
  have hpc := hs.calls c
  cases h with
  | issued pc hfresh hfamily =>
    rw [pc] at hpc
    have hquiet : Quiet (.issued input.rawToken) := ⟨fun _ _ _ => rfl, rfl, rfl⟩
    exact ⟨hpc, hquiet, _, rfl, rfl, hfresh, hfamily, Log.issued_issue _ rfl⟩
  | unknown pc | expired pc | unknownLogout pc =>
    rw [pc] at hpc
    exact hpc
  | noUser pc =>
    rw [pc] at hpc
    exact hpc.1
  | reused pc hfound | logout pc hfound =>
    rw [pc] at hpc
    exact ⟨hpc, _, hs.issued _ (mem_of_findByHash hpc hfound).1, rfl⟩
  | found pc hfound hlive =>
    rw [pc] at hpc
    obtain ⟨hmem, hhash⟩ := mem_of_findByHash hpc hfound
    exact ⟨hpc, hs.issued _ hmem, hlive, hhash⟩
  | user pc =>
    rw [pc] at hpc
    exact hpc
  | @claimed rawToken existing r pc _ hfound hlive =>
    rw [pc] at hpc
    obtain ⟨hnil, hpres⟩ := hpc
    rw [Store.view_of_writesOf_nil hnil] at hfound
    obtain ⟨hmem, hid⟩ := Table.find?_eq_some_iff.mp hfound
    -- the row under the id is the one that was read
    obtain rfl : r = existing := (hs.issued r hmem).eq_of_live hpres.issued hid hlive hpres.live
    exact effectInv_write hnil ⟨hpres, hmem, input.now, rfl⟩
  | lost pc =>
    rw [pc] at hpc
    exact ⟨hpc.1, _, hpc.2.issued, rfl⟩
  | reissued pc hfresh =>
    rw [pc] at hpc
    obtain ⟨hpres, hmem, now, hws⟩ := hpc
    refine effectInv_write hws ⟨hpres.mono (Log.grows_issue hfresh), hmem, Log.issued_issue _ rfl,
      rfl, rfl, fun r hr hid => ?_, now, rfl⟩
    exact (hfresh r.asIssued (hs.issued r hr)).1 hid
  | revoking pc =>
    rw [pc] at hpc
    exact effectInv_goto hpc.1 ⟨fun w hw => absurd hw List.not_mem_nil, hpc.2⟩
  | revoked pc _ _ hfound =>
    rw [pc] at hpc
    obtain ⟨hws, hknown⟩ := hpc
    have hiss := hs.issued_of_mem_view hws (Table.mem_of_find? hfound)
    exact effectInv_write rfl ⟨hws.append rfl (hiss.revoke _), hknown⟩
  | passed pc =>
    rw [pc] at hpc
    exact hpc
  | purging pc =>
    rw [pc] at hpc
    have hnil : s.store.writesOf c = [] := hpc
    exact effectInv_goto hnil fun w hw => absurd hw List.not_mem_nil
  | removed pc =>
    rw [pc] at hpc
    have hws : OnlyRemoves (s.store.writesOf c) := hpc
    exact effectInv_write rfl (hws.append _)
  | kept pc =>
    rw [pc] at hpc
    exact hpc

/-- **Only a rotation presents and inserts rows.** -/
theorem Ran.pcStep (hs : Inv cfg s) (h : Ran cfg s c input e log) : PcStep s c log e.pc := by
  cases h with
  | issued pc hfresh =>
    exact ⟨fun id hid => absurd hid (by simp [Effect.pc, Call.presents]),
      fun id hid => absurd hid (by simp [Effect.pc, Call.inserts]), by simp [Effect.pc],
      Log.grows_issue hfresh, tokenHash_issue hfresh⟩
  | reissued pc hfresh =>
    refine ⟨fun id hid => Or.inl (by rw [pc]; exact hid), fun id hid => ?_, by simp [Effect.pc],
      Log.grows_issue hfresh, tokenHash_issue hfresh⟩
    exact ⟨_, hfresh, Option.some.inj hid, _, _, _, rfl⟩
  | @found rawToken existing pc hfound =>
    have hnil := hs.calls c
    rw [pc] at hnil
    have hmem : existing ∈ s.store.committed := (mem_of_findByHash hnil hfound).1
    refine PcStep.of_issued_eq rfl rfl (by simp [Effect.pc]) fun id hid => ?_
    exact Or.inr ⟨existing, hmem, Option.some.inj hid⟩
  | user pc | claimed pc =>
    refine PcStep.of_issued_eq rfl rfl (by simp [Effect.pc]) fun id hid => Or.inl ?_
    rw [pc]
    exact hid
  | unknown | expired | noUser | reused | lost | unknownLogout | logout | revoking | revoked
  | passed | purging | removed | kept =>
    exact PcStep.of_issued_eq rfl rfl (by simp [Effect.pc]) fun _ hid =>
      absurd hid (by simp [Effect.pc, Call.presents])

end Statement

/-- Each action does what the program counter of its call promises. -/
theorem Did.effectInv {cfg : Config} {s : State} {a : Action}
    {e : Effect RefreshToken Uuid Call} {log : Log} (hs : Inv cfg s) (h : Did cfg s a e log) :
    EffectInv cfg s a.call log e ∧ PcStep s a.call log e.pc := by
  cases h with
  | @requested c r pc =>
    have hnil := hs.calls c
    rw [pc] at hnil
    refine ⟨effectInv_goto hnil ?_, PcStep.of_issued_eq rfl ?_ ?_ ?_⟩ <;> cases r <;>
      simp [CallInv, Request.start, Effect.pc, Call.inserts, Call.presents]
  | ran h => exact ⟨h.effectInv hs, h.pcStep hs⟩
  | @rotated c raw newRaw existing new pc =>
    refine ⟨Or.inl ⟨raw, existing, new, newRaw, pc, rfl⟩, fun id hid => Or.inl ?_,
      fun id hid => absurd hid (by simp [Effect.pc, Call.inserts]), fun raw' ex' newRaw' heq => ?_,
      Log.Grows.refl _, fun h => h⟩
    · show (s.calls c).presents = some id
      rw [pc]
      exact hid
    · cases heq
      exact ⟨new, pc⟩
  | @revoked c familyId after pc =>
    have hpc := hs.calls c
    rw [pc] at hpc
    exact ⟨Or.inr ⟨Or.inl (hpc.1.mono fun _ h => h), quiet_afterRevoke after⟩,
      (quiet_afterRevoke after).pcStep rfl⟩
  | @purged c cutoff count pc =>
    have hpc := hs.calls c
    rw [pc] at hpc
    have hquiet : Quiet (.purged count) := ⟨fun _ _ _ => rfl, rfl, rfl⟩
    exact ⟨Or.inr ⟨Or.inr hpc, hquiet⟩, hquiet.pcStep rfl⟩
  | faulted => exact ⟨quiet_thrown _, (quiet_thrown _).pcStep rfl⟩

/-! ## The committed table after a step -/

/-- How a step moves the committed table. -/
inductive Moves (s t : State) (a : Action) : Prop where
  /-- Not at all. -/
  | same (h : t.store.committed = s.store.committed)
  /-- A new session opens a family. -/
  | opened (r : RefreshToken) (h : t.store.committed = s.store.committed.put r)
      (live : r.live = true) (fresh : FreshToken s.aux r) (family : FreshFamily s.aux r.familyId)
      (issued : Issued t.aux r)
  /-- A rotation replaces a live row. -/
  | rotated (c : ℕ) (raw : String) (existing new : RefreshToken) (newRaw : String) (now : ℤ)
      (action : a = .commit c) (call : s.calls c = .committing raw existing new newRaw)
      (h : t.store.committed = (s.store.committed.put (existing.revoke now)).put new)
  /-- Rows are revoked or removed. -/
  | narrowed (h : ∀ r ∈ t.store.committed, r.live = true → r ∈ s.store.committed)
      (issued : ∀ r ∈ t.store.committed, Issued t.aux r)

/-- A step is an effect of its call carried out. -/
theorem exists_effect_of_step {cfg : Config} {s t : State} {a : Action} (hs : Inv cfg s)
    (h : step cfg s a = some t) :
    ∃ e, EffectInv cfg s a.call t.aux e ∧ PcStep s a.call t.aux e.pc ∧
      decide? cfg s a = some (e, t.aux) ∧ s.perform a.call e t.aux = some t := by
  obtain ⟨⟨e, log⟩, hdec, hperf⟩ := Option.bind_eq_some_iff.mp h
  have hlog : t.aux = log := System.aux_of_perform hperf
  subst hlog
  obtain ⟨he, hpc⟩ := (did_of_decide? hdec).effectInv hs
  exact ⟨e, he, hpc, hdec, hperf⟩

theorem moves_of_step {cfg : Config} {s t : State} {a : Action} (hs : Inv cfg s)
    (h : step cfg s a = some t) : Moves s t a := by
  obtain ⟨e, he, hpc, hdec, hperf⟩ := exists_effect_of_step hs h
  cases e with
  | goto pc => exact .same (by rw [System.store_of_perform_goto hperf])
  | write ws pc => exact .same (System.committed_of_perform_write hperf).1
  | abort pc => exact .same (System.committed_of_perform_abort hperf).1
  | autocommit ws pc =>
    obtain ⟨hnil, -, r, rfl, hlive, hfresh, hfamily, hiss⟩ := he
    exact .opened r (System.committed_of_perform_autocommit hperf hnil).1 hlive hfresh hfamily hiss
  | commit pc =>
    have hcom := (System.committed_of_perform_commit hperf).1
    rcases he with ⟨raw, existing, new, newRaw, hcall, rfl⟩ | ⟨hws, -⟩
    · have hinv := hs.calls a.call
      rw [hcall] at hinv
      obtain ⟨-, -, -, -, -, -, now, hws⟩ := hinv
      rw [Store.view, hws] at hcom
      cases a with
      | commit c => exact .rotated c raw existing new newRaw now rfl hcall hcom
      | request c r | statement c input | fault c =>
        have hcall' : s.calls c = .committing raw existing new newRaw := hcall
        simp [decide?, statement, hcall'] at hdec
    · refine .narrowed (fun r hr hlive => ?_) (fun r hr => ?_) <;> rw [hcom] at hr <;>
        rcases Table.put_or_old_of_mem_applyAll hr with hput | ⟨hold, -⟩
      · rcases hws with hws | hws
        · obtain ⟨r', heq, hdead, -⟩ := hws _ hput
          cases heq
          exact absurd hlive (by simp [hdead])
        · obtain ⟨id, heq⟩ := hws _ hput
          exact absurd heq (by simp)
      · exact hold
      · rcases hws with hws | hws
        · obtain ⟨r', heq, -, hiss⟩ := hws _ hput
          cases heq
          exact hiss
        · obtain ⟨id, heq⟩ := hws _ hput
          exact absurd heq (by simp)
      · exact (hs.issued r hold).mono hpc.grows

/-- The rows a rotation leaves behind. -/
theorem mem_rotated {t t' : Tokens} {existing new r : RefreshToken} {now : ℤ}
    (h : t' = (t.put (existing.revoke now)).put new) (hr : r ∈ t') :
    r = new ∨ r = existing.revoke now ∨ r ∈ t ∧ r.id ≠ existing.id := by
  rw [h, Table.mem_put, Table.mem_put] at hr
  rcases hr with rfl | ⟨rfl | ⟨hold, hid⟩, -⟩
  · exact Or.inl rfl
  · exact Or.inr (Or.inl rfl)
  · exact Or.inr (Or.inr ⟨hold, hid⟩)

/-- What a finished rotation is about to publish. -/
theorem Inv.committing {cfg : Config} {s : State} (hs : Inv cfg s) {c : ℕ} {raw newRaw : String}
    {existing new : RefreshToken} (hcall : s.calls c = .committing raw existing new newRaw) :
    Presented cfg s.aux raw existing ∧ existing ∈ s.store.committed ∧ Issued s.aux new ∧
      new.live = true ∧ new.familyId = existing.familyId ∧ Unused s.store.committed new.id := by
  have hpc := hs.calls c
  rw [hcall] at hpc
  obtain ⟨hpres, hmem, hiss, hlive, hfamily, hun, -⟩ := hpc
  exact ⟨hpres, hmem, hiss, hlive, hfamily, hun⟩

theorem Inv.issued_of_presents {cfg : Config} {s : State} (hs : Inv cfg s) {c : ℕ} {id : Uuid}
    (h : (s.calls c).presents = some id) : ∃ r, Issued s.aux r ∧ r.id = id := by
  have hpc := hs.calls c
  cases hcall : s.calls c with
  | findingUser raw existing | claiming raw existing | rotated raw existing newRaw =>
    rw [hcall] at hpc h
    refine ⟨existing, ?_, Option.some.inj h⟩
    first | exact hpc.2.issued | exact hpc.2.1.issued
  | reissuing raw existing | committing raw existing new newRaw =>
    rw [hcall] at hpc h
    exact ⟨existing, hpc.1.issued, Option.some.inj h⟩
  | idle | issuing _ | rotating _ | loggingOut _ | revokingFamily _ _ | revoking _ _ _
  | purgingExpired | purging _ _ _ | issued _ | loggedOut | purged _ | thrown _ =>
    rw [hcall] at h
    exact absurd h (by simp [Call.presents])

/-! ## The invariant is kept -/

section Step

variable {cfg : Config} {s t : State} {a : Action}

/-- **Only the two inserts bring rows to life.**  A live row was committed before, or
it is a new one that no call has been presented with. -/
theorem Moves.old_of_live (hs : Inv cfg s) (h : Moves s t a) {r : RefreshToken}
    (hr : r ∈ t.store.committed) (hlive : r.live = true) :
    r ∈ s.store.committed ∨ ∀ c, (s.calls c).presents ≠ some r.id := by
  cases h with
  | same h =>
    rw [h] at hr
    exact Or.inl hr
  | opened r' h _ hfresh _ _ =>
    rw [h, Table.mem_put] at hr
    rcases hr with rfl | ⟨hr, -⟩
    · refine Or.inr fun c hc => ?_
      obtain ⟨x, hx, hid⟩ := hs.issued_of_presents hc
      exact (hfresh _ hx).1 hid
    · exact Or.inl hr
  | rotated c raw existing new newRaw now _ hcall h =>
    rcases mem_rotated h hr with rfl | rfl | ⟨hold, -⟩
    · exact Or.inr fun c' => hs.unseen c c' _ (by rw [hcall]; rfl)
    · exact absurd hlive (by simp)
    · exact Or.inl hold
  | narrowed h _ => exact Or.inl (h r hr hlive)

theorem issued_of_moves (hs : Inv cfg s) (h : Moves s t a) (hgrows : s.aux.Grows t.aux) :
    ∀ r ∈ t.store.committed, Issued t.aux r := by
  intro r hr
  cases h with
  | same h =>
    rw [h] at hr
    exact (hs.issued r hr).mono hgrows
  | opened r' h _ _ _ hiss =>
    rw [h, Table.mem_put] at hr
    rcases hr with rfl | ⟨hr, -⟩
    · exact hiss
    · exact (hs.issued r hr).mono hgrows
  | rotated c raw existing new newRaw now _ hcall h =>
    obtain ⟨hpres, -, hnew, -⟩ := hs.committing hcall
    rcases mem_rotated h hr with rfl | rfl | ⟨hold, -⟩
    · exact hnew.mono hgrows
    · exact (hpres.issued.revoke now).mono hgrows
    · exact (hs.issued r hold).mono hgrows
  | narrowed _ hiss => exact hiss r hr

/-- **A family keeps at most one live row.** -/
theorem oneLive_of_moves (hs : Inv cfg s) (h : Moves s t a) :
    ∀ r ∈ t.store.committed, ∀ r' ∈ t.store.committed, r.live = true → r'.live = true →
      r.familyId = r'.familyId → r = r' := by
  intro r hr r' hr' hl hl' hfam
  cases h with
  | same h =>
    rw [h] at hr hr'
    exact hs.oneLive r hr r' hr' hl hl' hfam
  | opened x h _ _ hfamily _ =>
    have hno : ∀ y ∈ s.store.committed, y.familyId ≠ x.familyId := fun y hy =>
      hfamily y.asIssued (hs.issued y hy)
    rw [h, Table.mem_put] at hr hr'
    rcases hr with rfl | ⟨hold, -⟩ <;> rcases hr' with rfl | ⟨hold', -⟩
    · rfl
    · exact absurd hfam.symm (hno r' hold')
    · exact absurd hfam (hno r hold)
    · exact hs.oneLive r hold r' hold' hl hl' hfam
  | rotated c raw existing new newRaw now _ hcall h =>
    obtain ⟨hpres, hmem, -, -, hfamily, -⟩ := hs.committing hcall
    -- the row that was replaced was the only live one of the family
    have hno : ∀ y ∈ s.store.committed, y.live = true → y.id ≠ existing.id →
        y.familyId ≠ existing.familyId := by
      intro y hy hly hne heq
      exact hne (by rw [hs.oneLive y hy existing hmem hly hpres.live heq])
    rcases mem_rotated h hr with rfl | rfl | ⟨hold, hid⟩
    · rcases mem_rotated h hr' with rfl | rfl | ⟨hold', hid'⟩
      · rfl
      · exact absurd hl' (by simp)
      · exact absurd (hfam.symm.trans hfamily) (hno r' hold' hl' hid')
    · exact absurd hl (by simp)
    · rcases mem_rotated h hr' with rfl | rfl | ⟨hold', -⟩
      · exact absurd (hfam.trans hfamily) (hno r hold hl hid)
      · exact absurd hl' (by simp)
      · exact hs.oneLive r hold r' hold' hl hl' hfam
  | narrowed h _ => exact hs.oneLive r (h r hr hl) r' (h r' hr' hl') hl hl' hfam

/-- What another call relies on is not disturbed. -/
theorem Moves.undisturbed (hs : Inv cfg s) (h : Moves s t a)
    (hframe : System.Frame s t a.call) {c : ℕ} (hc : c ≠ a.call) :
    Undisturbed s.store.committed t.store.committed (s.store.writesOf c) (s.calls c) :=
  ⟨fun r hr => hframe.mem_of_mem_locks c hc r hr,
    fun _ hr hlive => (h.old_of_live hs hr hlive).imp_right fun hno => hno c⟩

theorem callInv_of_perform {e : Effect RefreshToken Uuid Call} (hs : Inv cfg s)
    (he : EffectInv cfg s a.call t.aux e) (hgrows : s.aux.Grows t.aux)
    (h : s.perform a.call e t.aux = some t) :
    CallInv cfg t.store.committed (t.store.writesOf a.call) t.aux (t.calls a.call) := by
  rw [System.calls_of_perform h]
  cases e with
  | goto pc =>
    rw [System.store_of_perform_goto h]
    exact he
  | write ws pc =>
    obtain ⟨hcom, hws⟩ := System.committed_of_perform_write h
    rw [hcom, hws]
    exact he
  | autocommit ws pc =>
    obtain ⟨hnil, hquiet, -⟩ := he
    rw [(System.committed_of_perform_autocommit h hnil).2]
    exact hquiet.callInv _ _ _
  | commit pc =>
    obtain ⟨hcom, hnil⟩ := System.committed_of_perform_commit h
    rw [hnil]
    rcases he with ⟨raw, existing, new, newRaw, hcall, rfl⟩ | ⟨-, hquiet⟩
    · have hinv := hs.calls a.call
      rw [hcall] at hinv
      obtain ⟨hpres, hmem, -, -, -, hun, now, hws⟩ := hinv
      refine ⟨rfl, hpres.mono hgrows, fun r hr hid => ?_⟩
      rw [Store.view, hws] at hcom
      rcases mem_rotated hcom hr with rfl | rfl | ⟨-, hne⟩
      · exact absurd hid.symm (hun existing hmem)
      · rfl
      · exact absurd hid hne
    · exact hquiet.callInv _ _ _
  | abort pc =>
    rw [(System.committed_of_perform_abort h).2]
    exact Quiet.callInv he _ _ _

/-- **The invariant is kept by every step.** -/
theorem inv_of_step (hs : Inv cfg s) (h : step cfg s a = some t) : Inv cfg t := by
  obtain ⟨e, he, hpc, -, hperf⟩ := exists_effect_of_step hs h
  have hframe : System.Frame s t a.call := System.frame_of_perform hperf
  have hmoves : Moves s t a := moves_of_step hs h
  have hcalls : t.calls a.call = e.pc := System.calls_of_perform hperf
  -- what a call that has rotated and one about to do so have in common
  have hrot : ∀ c', c' ≠ a.call → ∀ raw raw' existing existing' newRaw newRaw',
      t.calls a.call = .rotated raw existing newRaw →
      s.calls c' = .rotated raw' existing' newRaw' → existing.id ≠ existing'.id := by
    intro c' _ raw raw' existing existing' newRaw newRaw' hc hc' hid
    obtain ⟨new, hcom⟩ := hpc.rotated raw existing newRaw (hcalls.symm.trans hc)
    obtain ⟨hpres, hmem, -⟩ := hs.committing hcom
    have hinv := hs.calls c'
    rw [hc'] at hinv
    exact absurd hpres.live (by simp [hinv.2.2 existing hmem hid])
  refine ⟨issued_of_moves hs hmoves hpc.grows, hpc.tokenHash hs.tokenHash,
    oneLive_of_moves hs hmoves, ?_, ?_, fun c => ?_⟩
  · intro c c' raw raw' existing existing' newRaw newRaw' hc hc' hid
    by_cases hca : c = a.call <;> by_cases hca' : c' = a.call
    · rw [hca, hca']
    · rw [hframe.calls_of_ne c' hca'] at hc'
      rw [hca] at hc
      exact absurd hid (hrot c' hca' _ _ _ _ _ _ hc hc')
    · rw [hframe.calls_of_ne c hca] at hc
      rw [hca'] at hc'
      exact absurd hid.symm (hrot c hca _ _ _ _ _ _ hc' hc)
    · rw [hframe.calls_of_ne c hca] at hc
      rw [hframe.calls_of_ne c' hca'] at hc'
      exact hs.oneUse c c' _ _ _ _ _ _ hc hc' hid
  · intro c c' id hins hpres
    by_cases hca : c = a.call
    · rw [hca, hcalls] at hins
      obtain ⟨new, hfresh, rfl, -⟩ := hpc.inserts id hins
      have hissued : ∃ r, Issued s.aux r ∧ r.id = new.id := by
        by_cases hca' : c' = a.call
        · rw [hca', hcalls] at hpres
          rcases hpc.presents _ hpres with hold | ⟨r, hr, hid⟩
          · exact hs.issued_of_presents hold
          · exact ⟨r, hs.issued r hr, hid⟩
        · rw [hframe.calls_of_ne c' hca'] at hpres
          exact hs.issued_of_presents hpres
      obtain ⟨r, hr, hid⟩ := hissued
      exact (hfresh _ hr).1 hid
    · rw [hframe.calls_of_ne c hca] at hins
      by_cases hca' : c' = a.call
      · rw [hca', hcalls] at hpres
        rcases hpc.presents _ hpres with hold | ⟨r, hr, hid⟩
        · exact hs.unseen c a.call id hins hold
        · cases hcall : s.calls c with
          | committing raw existing new newRaw =>
            rw [hcall] at hins
            obtain ⟨-, -, -, -, -, hun⟩ := hs.committing hcall
            exact hun r hr (hid.trans (Option.some.inj hins).symm)
          | _ =>
            rw [hcall] at hins
            exact absurd hins (by simp [Call.inserts])
      · rw [hframe.calls_of_ne c' hca'] at hpres
        exact hs.unseen c c' id hins hpres
  · by_cases hca : c = a.call
    · rw [hca]
      exact callInv_of_perform hs he hpc.grows hperf
    · rw [hframe.calls_of_ne c hca, hframe.writesOf_of_ne c hca]
      exact (hs.calls c).congr (hmoves.undisturbed hs hframe hca) hpc.grows

end Step

end Auth
end GroupChat

import GroupChat.Auth.Invariant

/-!
# Revoking a family

`revokeFamily` is meant to be final: after a logout, or after a token was presented
twice, no token of the family works.  It is one statement over the live rows of the
family, and it visits the rows that were live when it started.  While it runs, a
rotation of the family that claimed its row earlier may still commit, and the
replacement it commits is a live row the statement never visits.

`revoked_family_is_dead` says that this is the only way to miss a row: if no
rotation of the family commits while its revocation is under way, then from the
commit of the revocation on the family has no live row, and no later call of
`rotate` on any of its tokens returns.  `escapingRotationRun` is a run in which a
rotation does.
-/

namespace GroupChat
namespace Auth

open Database Transition

/-! ## The property -/

/-- No call of `rotate` that was made after the revocation of a family had committed
has returned a pair for a token of that family. -/
def RevocationIsFinal (s : State) : Prop :=
  ∀ c raw existing newRaw, s.calls c = .rotated raw existing newRaw →
    existing.familyId ∉ s.aux.atStart c

/-- If the step commits a rotation, no revocation of its family is under way. -/
def NoRevocationUnderWay (s : State) (a : Action) : Prop :=
  ∀ c raw existing new newRaw, a = .commit c → s.calls c = .committing raw existing new newRaw →
    ∀ c' ids after, s.calls c' ≠ .revoking existing.familyId ids after

/-! ## Families without live rows -/

/-- The family has no live row. -/
def Dead (t : Tokens) (familyId : Uuid) : Prop :=
  ∀ r ∈ t, r.familyId = familyId → r.live = false

/-- The revocation has visited, or is going to visit, every live row of the family. -/
def Covers (s : State) (c : ℕ) (familyId : Uuid) (ids : List Uuid) : Prop :=
  ∀ r ∈ s.store.committed, r.familyId = familyId → r.live = true →
    r.id ∈ ids ∨ r.id ∈ s.store.locks c

/-- What holds along the runs in which no rotation of a family commits during its
revocation. -/
structure RevInv (s : State) : Prop where
  dead : ∀ familyId ∈ s.aux.revoked, Dead s.store.committed familyId
  known : ∀ familyId ∈ s.aux.revoked, KnownFamily s.aux familyId
  covers : ∀ c familyId ids after, s.calls c = .revoking familyId ids after →
    Covers s c familyId ids
  atStart : ∀ c, ∀ familyId ∈ s.aux.atStart c, familyId ∈ s.aux.revoked
  final : RevocationIsFinal s

theorem revInv_start : RevInv start :=
  ⟨fun _ h => absurd h List.not_mem_nil, fun _ h => absurd h List.not_mem_nil,
    fun _ _ _ _ h => absurd h (by simp [start]),
    fun _ _ h => absurd h List.not_mem_nil, fun _ _ _ _ h => absurd h (by simp [start])⟩

/-! ## How a revocation proceeds -/

section Statement

variable {cfg : Config} {s : State} {c : ℕ} {input : Input} {e : Effect RefreshToken Uuid Call}
  {log : Log}

/-- A revocation is under way because it has just started, with the live rows it
sees, or because it has just visited one row: it has revoked it, or has seen no live
row of the family there. -/
theorem revoking_of_statement (h : statement cfg s c input = some (e, log)) {familyId : Uuid}
    {ids : List Uuid} {after : AfterRevoke} (hpc : e.pc = .revoking familyId ids after) :
    (s.calls c = .revokingFamily familyId after ∧ ids = liveIds (s.store.view c) familyId ∧
      e = .goto (.revoking familyId ids after)) ∨
    ∃ ids₀, s.calls c = .revoking familyId ids₀ after ∧ ids = ids₀.erase input.visit ∧
      (e = .goto (.revoking familyId ids after) ∧ (∀ r ∈ s.store.view c, r.id = input.visit →
          r.familyId = familyId → r.live = false) ∨
        ∃ r, r.id = input.visit ∧ e = .write [.put r] (.revoking familyId ids after)) := by
  cases ran_of_statement h with
  | revoking hcall =>
    cases hpc
    exact Or.inl ⟨hcall, rfl, rfl⟩
  | @revoked _ ids₀ _ r hcall _ _ hr =>
    cases hpc
    have hid : r.id = input.visit := Table.key_of_find? hr
    exact Or.inr ⟨ids₀, hcall, rfl, Or.inr ⟨r.revoke input.now, hid, rfl⟩⟩
  | @passed _ ids₀ _ hcall _ hpassed =>
    cases hpc
    refine Or.inr ⟨ids₀, hcall, rfl, Or.inl ⟨rfl, fun r hr hid hfam => ?_⟩⟩
    by_contra hlive
    exact hpassed r (Table.find?_eq_some_iff.mpr ⟨hr, hid⟩) ⟨hfam, by simpa using hlive⟩
  | issued | unknown | reused | expired | found | user | noUser | claimed | lost | reissued
  | unknownLogout | logout | purging | removed | kept => cases hpc

end Statement

section Step

variable {cfg : Config} {s t : State} {a : Action}

/-- What a step adds to the record of revocations. -/
theorem revoked_of_step (h : step cfg s a = some t) :
    t.aux.revoked = s.aux.revoked ∨ ∃ c familyId after, a = .commit c ∧
      s.calls c = .revoking familyId [] after ∧ t.aux.revoked = familyId :: s.aux.revoked := by
  obtain ⟨e, log, hlog, hdid, -⟩ := did_of_step h
  rw [hlog]
  cases hdid with
  | requested | rotated | purged | faulted => exact Or.inl rfl
  | @ran c input _ _ hran =>
    refine Or.inl ?_
    cases hran <;> rfl
  | @revoked c familyId after hcall => exact Or.inr ⟨c, familyId, after, rfl, hcall, rfl⟩

/-- A call keeps the record it was made with; a new call takes the present one. -/
theorem atStart_of_step (h : step cfg s a = some t) (c : ℕ) :
    t.aux.atStart c = s.aux.atStart c ∨
      t.aux.atStart c = s.aux.revoked ∧
        ∀ raw existing newRaw, t.calls c ≠ .rotated raw existing newRaw := by
  obtain ⟨e, log, hlog, hdid, hperf⟩ := did_of_step h
  have hcalls : t.calls a.call = e.pc := System.calls_of_perform hperf
  rw [hlog]
  cases hdid with
  | @requested c' r hcall =>
    by_cases hc : c = c'
    · subst hc
      refine Or.inr ⟨Function.update_self c s.aux.revoked s.aux.atStart, fun raw ex newRaw hrot => ?_⟩
      have hstart : t.calls c = r.start := hcalls
      rw [hstart] at hrot
      cases r <;> cases hrot
    · exact Or.inl (Function.update_of_ne hc s.aux.revoked s.aux.atStart)
  | rotated | purged | faulted | revoked => exact Or.inl rfl
  | @ran c' input _ _ hran =>
    refine Or.inl ?_
    cases hran <;> rfl

/-- **A known family gets a live row only from a rotation.** -/
theorem live_of_moves (hs : Inv cfg s) (h : Moves s t a) {r : RefreshToken}
    (hr : r ∈ t.store.committed) (hlive : r.live = true) (hknown : KnownFamily s.aux r.familyId) :
    r ∈ s.store.committed ∨ ∃ c raw existing new newRaw, a = .commit c ∧
      s.calls c = .committing raw existing new newRaw ∧ existing.familyId = r.familyId := by
  cases h with
  | same h =>
    rw [h] at hr
    exact Or.inl hr
  | opened r' h _ _ hfamily _ =>
    rw [h, Table.mem_put] at hr
    rcases hr with rfl | ⟨hr, -⟩
    · obtain ⟨x, hx, hfam⟩ := hknown
      exact absurd hfam (hfamily x.asIssued hx)
    · exact Or.inl hr
  | rotated c raw existing new newRaw now ha hcall h =>
    rcases mem_rotated h hr with rfl | rfl | ⟨hold, -⟩
    · obtain ⟨-, -, -, -, hfamily, -⟩ := hs.committing hcall
      exact Or.inr ⟨c, raw, existing, _, newRaw, ha, hcall, hfamily.symm⟩
    · exact absurd hlive (by simp)
    · exact Or.inl hold
  | narrowed h _ => exact Or.inl (h r hr hlive)

/-- A revocation that has visited every row it set out to visit leaves none live. -/
theorem dead_of_commit (hs : Inv cfg s) {c : ℕ} {familyId : Uuid} {after : AfterRevoke}
    (hcall : s.calls c = .revoking familyId [] after) (hcov : Covers s c familyId [])
    (h : step cfg s (.commit c) = some t) : Dead t.store.committed familyId := by
  obtain ⟨e, -, -, hdec, hperf⟩ := exists_effect_of_step hs h
  simp only [decide?, hcall, Option.some.injEq, Prod.mk.injEq] at hdec
  obtain ⟨rfl, -⟩ := hdec
  have hinv := hs.calls c
  rw [hcall] at hinv
  obtain ⟨hws, -⟩ := hinv
  intro r hr hfamily
  by_contra hlive
  rw [(System.committed_of_perform_commit hperf).1] at hr
  rcases Table.put_or_old_of_mem_applyAll hr with hput | ⟨hold, hkey⟩
  · obtain ⟨r', heq, hdead, -⟩ := hws _ hput
    cases heq
    exact hlive hdead
  · rcases hcov r hold hfamily (by simpa using hlive) with hmem | hlock
    · exact absurd hmem List.not_mem_nil
    · exact hkey hlock

theorem mem_liveIds {t : Tokens} {r : RefreshToken} {familyId : Uuid} (hr : r ∈ t)
    (hfamily : r.familyId = familyId) (hlive : r.live = true) : r.id ∈ liveIds t familyId :=
  List.mem_map_of_mem (List.mem_filter.mpr ⟨hr, by simp [hfamily, hlive]⟩)

/-- The call that moved goes on covering its family. -/
theorem covers_self (hs : Inv cfg s) (hrev : RevInv s) (h : step cfg s a = some t)
    {familyId : Uuid} {ids : List Uuid} {after : AfterRevoke}
    (hcall : t.calls a.call = .revoking familyId ids after) : Covers t a.call familyId ids := by
  obtain ⟨e, -, -, hdec, hperf⟩ := exists_effect_of_step hs h
  have hpc : e.pc = .revoking familyId ids after :=
    (System.calls_of_perform hperf).symm.trans hcall
  cases a with
  | statement c input =>
    have hinv := hs.calls c
    rcases revoking_of_statement hdec hpc with ⟨hold, hids, rfl⟩ | ⟨ids₀, hold, hids, hvisit⟩
    · rw [hold] at hinv
      rw [Store.view_of_writesOf_nil hinv.1] at hids
      intro r hr hfamily hlive
      rw [System.store_of_perform_goto hperf] at hr
      rw [hids]
      exact Or.inl (mem_liveIds hr hfamily hlive)
    · have hcov : Covers s c familyId ids₀ := hrev.covers c familyId ids₀ after hold
      have herase : ∀ r : RefreshToken, r.id ≠ input.visit → r.id ∈ ids₀ → r.id ∈ ids := by
        intro r hne hmem
        rw [hids]
        exact (List.mem_erase_of_ne hne).mpr hmem
      rcases hvisit with ⟨rfl, hnone⟩ | ⟨r₀, hid₀, rfl⟩
      · intro r hr hfamily hlive
        rw [System.store_of_perform_goto hperf] at hr ⊢
        by_cases hlock : r.id ∈ s.store.locks c
        · exact Or.inr hlock
        · have hne : r.id ≠ input.visit := by
            intro hid
            have hview : r ∈ s.store.view c := (Store.mem_view_of_not_mem_locks hlock).mpr hr
            exact absurd hlive (by simp [hnone r hview hid hfamily])
          exact (hcov r hr hfamily hlive).imp_left (herase r hne)
      · obtain ⟨hcom, hws⟩ := System.committed_of_perform_write hperf
        have hlocks : t.store.locks c = s.store.locks c ++ [r₀.id] := by
          have hws' : t.store.writesOf c = s.store.writesOf c ++ [.put r₀] := hws
          rw [Store.locks, hws', List.map_append]
          rfl
        intro r hr hfamily hlive
        rw [hcom] at hr
        show r.id ∈ ids ∨ r.id ∈ t.store.locks c
        rw [hlocks, List.mem_append, List.mem_singleton]
        by_cases hid : r.id = r₀.id
        · exact Or.inr (Or.inr hid)
        · have hne : r.id ≠ input.visit := by
            rw [← hid₀]
            exact hid
          exact (hcov r hr hfamily hlive).imp (herase r hne) Or.inl
  | request c r =>
    simp only [decide?] at hdec
    split at hdec
    · obtain ⟨rfl, -⟩ := Prod.mk.inj (Option.some.inj hdec)
      cases r <;> exact absurd hpc (by simp [Effect.pc, Request.start])
    · exact absurd hdec (by simp)
  | commit c =>
    simp only [decide?] at hdec
    split at hdec
    · obtain ⟨rfl, -⟩ := Prod.mk.inj (Option.some.inj hdec)
      exact absurd hpc (by simp [Effect.pc])
    · next familyId' after' hcall' =>
      obtain ⟨rfl, -⟩ := Prod.mk.inj (Option.some.inj hdec)
      cases after' <;> exact absurd hpc (by simp [Effect.pc, AfterRevoke.call])
    · obtain ⟨rfl, -⟩ := Prod.mk.inj (Option.some.inj hdec)
      exact absurd hpc (by simp [Effect.pc])
    · exact absurd hdec (by simp)
  | fault c =>
    simp only [decide?] at hdec
    split_ifs at hdec
    obtain ⟨rfl, -⟩ := Prod.mk.inj (Option.some.inj hdec)
    exact absurd hpc (by simp [Effect.pc])

/-- **The step lemma.**  A step that does not commit a rotation of a family under
revocation keeps every revoked family dead and every revocation on course. -/
theorem revInv_of_step (hs : Inv cfg s) (hrev : RevInv s) (hcond : NoRevocationUnderWay s a)
    (h : step cfg s a = some t) : RevInv t := by
  obtain ⟨e, -, hpc, -, hperf⟩ := exists_effect_of_step hs h
  have hmoves : Moves s t a := moves_of_step hs h
  have hframe : System.Frame s t a.call := System.frame_of_perform hperf
  have hcalls : t.calls a.call = e.pc := System.calls_of_perform hperf
  have hknown : ∀ c familyId ids after, s.calls c = .revoking familyId ids after →
      KnownFamily s.aux familyId := by
    intro c familyId ids after hcall
    have hinv := hs.calls c
    rw [hcall] at hinv
    exact hinv.2
  have hold : ∀ familyId ∈ s.aux.revoked, Dead t.store.committed familyId := by
    intro familyId hmem r hr hfamily
    by_contra hlive
    have hlive' : r.live = true := by simpa using hlive
    rcases live_of_moves hs hmoves hr hlive' (hfamily ▸ hrev.known familyId hmem) with
      hr | ⟨c, raw, existing, new, newRaw, -, hcall, hex⟩
    · exact hlive (hrev.dead familyId hmem r hr hfamily)
    · obtain ⟨hpres, hexmem, -⟩ := hs.committing hcall
      have hexdead := hrev.dead familyId hmem existing hexmem (hex.trans hfamily)
      exact absurd hpres.live (by simp [hexdead])
  have hmono : ∀ familyId ∈ s.aux.revoked, familyId ∈ t.aux.revoked := by
    intro familyId hmem
    rcases revoked_of_step h with hsame | ⟨c, F, after, -, -, hadd⟩
    · rwa [hsame]
    · rw [hadd]
      exact List.mem_cons_of_mem F hmem
  refine ⟨fun familyId hmem => ?_, fun familyId hmem => ?_, fun c familyId ids after hcall => ?_,
    fun c familyId hmem => ?_, fun c raw existing newRaw hcall hmem => ?_⟩
  · rcases revoked_of_step h with hsame | ⟨c, F, after, rfl, hcall, hadd⟩
    · rw [hsame] at hmem
      exact hold familyId hmem
    · rw [hadd] at hmem
      rcases List.mem_cons.mp hmem with rfl | hmem
      · exact dead_of_commit hs hcall (hrev.covers c _ _ _ hcall) h
      · exact hold familyId hmem
  · rcases revoked_of_step h with hsame | ⟨c, F, after, rfl, hcall, hadd⟩
    · rw [hsame] at hmem
      exact (hrev.known familyId hmem).mono hpc.grows
    · rw [hadd] at hmem
      rcases List.mem_cons.mp hmem with rfl | hmem
      · exact (hknown c _ _ _ hcall).mono hpc.grows
      · exact (hrev.known familyId hmem).mono hpc.grows
  · by_cases hca : c = a.call
    · subst hca
      exact covers_self hs hrev h hcall
    · rw [hframe.calls_of_ne c hca] at hcall
      intro r hr hfamily hlive
      rw [hframe.locks_of_ne hca]
      rcases live_of_moves hs hmoves hr hlive (hfamily ▸ hknown c _ _ _ hcall) with
        hr | ⟨c', raw, existing, new, newRaw, ha, hcall', hex⟩
      · exact hrev.covers c _ _ _ hcall r hr hfamily hlive
      · -- the rotation that would escape the revocation is the one the condition excludes
        rw [← hex.trans hfamily] at hcall
        exact absurd hcall (hcond c' raw existing new newRaw ha hcall' c ids after)
  · rcases atStart_of_step h c with hsame | ⟨hnew, -⟩
    · rw [hsame] at hmem
      exact hmono familyId (hrev.atStart c familyId hmem)
    · rw [hnew] at hmem
      exact hmono familyId hmem
  · rcases atStart_of_step h c with hsame | ⟨-, hno⟩
    · rw [hsame] at hmem
      by_cases hca : c = a.call
      · subst hca
        obtain ⟨new, hcom⟩ := hpc.rotated raw existing newRaw (hcalls.symm.trans hcall)
        obtain ⟨hpres, hexmem, -⟩ := hs.committing hcom
        have hexdead := hrev.dead _ (hrev.atStart a.call _ hmem) existing hexmem rfl
        exact absurd hpres.live (by simp [hexdead])
      · rw [hframe.calls_of_ne c hca] at hcall
        exact hrev.final c raw existing newRaw hcall hmem
    · exact hno raw existing newRaw hcall

/-! ## Whole runs -/

/-- **Revocation is final**, along every run in which no rotation of a family commits
while its revocation is under way. -/
theorem revoked_family_is_dead (cfg : Config) (acts : List Action)
    (h : AllSteps (step cfg) NoRevocationUnderWay start acts) :
    AllStates (step cfg) RevocationIsFinal start acts := by
  have hall : AllStates (step cfg) (fun s => Inv cfg s ∧ RevInv s) start acts := by
    refine AllStates.of_allSteps (fun s a t hs hC hst => ?_) ⟨inv_start cfg, revInv_start⟩ h
    exact ⟨inv_of_step hs.1 hst, revInv_of_step hs.1 hs.2 hC hst⟩
  exact hall.mono fun s hs => hs.2.final

end Step

/-! ## Two runs -/

/-- Tokens stored as they are, with a lifetime of a second. -/
def plainConfig : Config := ⟨id, 1000, 0⟩

/-- What the statements of the runs below take from outside. -/
def input (id : Uuid) (rawToken : String) : Input := ⟨id, rawToken, 9, 0, true, 1⟩

/-- A login, and a logout that is about to commit. -/
def logoutRun : List Action :=
  [ .request 0 (.issueForNewSession 5), .statement 0 (input 1 "t0"),
    .request 1 (.revokeByToken "t0"), .statement 1 (input 0 ""), .statement 1 (input 0 ""),
    .statement 1 (input 0 "") ]

theorem exec_logoutRun :
    (exec (step plainConfig) start logoutRun).map (fun s => s.calls 1) =
      some (.revoking 9 [] .loggedOut) := by
  decide

/-- A logout that commits before its token is presented again. -/
theorem revoked_family_is_dead_logoutRun :
    AllStates (step plainConfig) RevocationIsFinal start
      (logoutRun ++ [.commit 1, .request 2 (.rotate "t0"), .statement 2 (input 0 "")]) := by
  refine revoked_family_is_dead plainConfig _ (AllSteps.append (AllSteps.of_mem ?_) ?_)
  · intro a ha s c raw existing new newRaw hc
    rw [hc] at ha
    exact absurd ha (by simp [logoutRun])
  · intro u hu t _
    refine ⟨fun c raw existing new newRaw hc hcall => ?_, AllSteps.of_mem ?_⟩
    · cases hc
      have hend := exec_logoutRun
      rw [hu, Option.map_some, Option.some.injEq, hcall] at hend
      exact absurd hend (by simp)
    · intro a ha s c raw existing new newRaw hc
      rw [hc] at ha
      exact absurd ha (by simp)

/-- A rotation claims its row and inserts the replacement; a logout of the same
token starts its revocation; the rotation commits; the revocation visits the one row
it knows of and commits; and the replacement is presented. -/
def escapingRotationRun : List Action :=
  [ .request 0 (.issueForNewSession 5), .statement 0 (input 1 "t0"),
    .request 1 (.rotate "t0"), .statement 1 (input 0 ""), .statement 1 (input 0 ""),
    .statement 1 (input 0 ""), .statement 1 (input 2 "t1"),
    .request 2 (.revokeByToken "t0"), .statement 2 (input 0 ""), .statement 2 (input 0 ""),
    .commit 1, .statement 2 (input 0 ""), .commit 2,
    .request 3 (.rotate "t1"), .statement 3 (input 0 ""), .statement 3 (input 0 ""),
    .statement 3 (input 0 ""), .statement 3 (input 3 "t2"), .commit 3 ]

theorem exec_escapingRotationRun :
    (exec (step plainConfig) start escapingRotationRun).map
        (fun s => (s.calls 3, s.aux.atStart 3)) =
      some (.rotated "t1" ⟨2, 5, "t1", 9, 1000, none, 0⟩ "t2", [9]) := by
  decide

/-- **A token may outlive the revocation of its family.** -/
theorem not_revocationIsFinal_escapingRotationRun :
    ¬ AllStates (step plainConfig) RevocationIsFinal start escapingRotationRun := by
  intro h
  obtain ⟨s, hs, heq⟩ := Option.map_eq_some_iff.mp exec_escapingRotationRun
  obtain ⟨hcall, hstart⟩ := Prod.mk.inj heq
  refine h.last hs 3 _ _ _ hcall ?_
  rw [hstart]
  exact List.mem_singleton.mpr rfl

end Auth
end GroupChat

import GroupChat.Summary.Pipeline
import GroupChat.Transition.Run

/-!
# One summary in a window

The guard of a flow runs in its fetch stage and the insert two jobs and a call to
the model later.  What is known in between is carried by the invariant `Inv`:
wherever a transcript or a summary text waits in the queues, the group has a
summary since the lower bound of that flow exactly if one has been inserted after
the guard was asked (`OriginOk`).  Every insert in between falls into the window,
because the clock has not gone back.

So the insert of a flow makes a second summary of its window exactly if another
insert has come between, and `noDuplicates_iff` says that of whole runs.  Neither
the bucket nor the number of attempts enters: flows of one bucket, flows of
adjacent buckets and a job that runs again after its insert all meet in the same
count.
-/

namespace GroupChat
namespace Summary

open Database Messages Transition

/-! ## The property -/

/-- The action is the insert of a save stage, for this group and with this origin. -/
def Saves (s : State) (a : Action) (groupId : Uuid) (origin : Origin) : Prop :=
  ∃ j id text since attemptsMade content, a = .work j id text ∧ j.stage = .save ∧
    s.jobs j = some ⟨since, attemptsMade, some (.summary groupId content origin), .active .begun⟩

/-- An insert finds no summary of the group since the lower bound of its flow. -/
def NoDuplicate (s : State) (a : Action) : Prop :=
  ∀ groupId origin, Saves s a groupId origin →
    hasSummarySince s.messages.rows groupId origin.since = false

/-- No summary of the group has been inserted since the guard of the flow ran. -/
def NoneSinceGuard (s : State) (a : Action) : Prop :=
  ∀ groupId origin, Saves s a groupId origin → s.saves groupId = origin.saves

/-! ## What the queues carry -/

/-- The origin a return value carries, with its group. -/
def StageResult.origin : StageResult → Option (Uuid × Origin)
  | .transcript groupId _ origin => some (groupId, origin)
  | .summary groupId _ origin => some (groupId, origin)
  | _ => none

def Progress.origin (groupId : Uuid) : Progress → Option (Uuid × Origin)
  | .begun => none
  | .guarded origin => some (groupId, origin)
  | .finished result => result.origin

def Status.origin (groupId : Uuid) : Status → Option (Uuid × Origin)
  | .active progress => progress.origin groupId
  | _ => none

/-- An origin is somewhere in a job: in the value of its child, or in its handler. -/
def Job.Carries (job : Job) (groupId : Uuid) (x : Uuid × Origin) : Prop :=
  job.child.bind StageResult.origin = some x ∨ job.status.origin groupId = some x

/-- An origin is somewhere in the queues. -/
def Carried (s : State) (x : Uuid × Origin) : Prop :=
  ∃ j job, s.jobs j = some job ∧ job.Carries j.groupId x

/-- The group has a summary since the lower bound exactly if one was inserted after the
guard. -/
structure OriginOk (s : State) (x : Uuid × Origin) : Prop where
  since_le : x.2.since ≤ s.now.val
  saves_le : x.2.saves ≤ s.saves x.1
  hasSummary_iff : hasSummarySince s.messages.rows x.1 x.2.since = true ↔
    x.2.saves < s.saves x.1

structure Inv (s : State) : Prop where
  userCalls : UserCalls s.messages
  pending : ∀ f ∈ s.pending, f.since ≤ s.now.val
  jobs : ∀ j job, s.jobs j = some job → job.since ≤ s.now.val
  origins : ∀ x, Carried s x → OriginOk s x

theorem inv_start (rows : MessageTable) (now : Instant) : Inv (start rows now) where
  userCalls := userCalls_start rows
  pending f hf := absurd hf List.not_mem_nil
  jobs j job h := absurd h (by simp [start])
  origins x h := by
    obtain ⟨j, job, hjob, -⟩ := h
    exact absurd hjob (by simp [start])

/-! ## The clock, the table and the count -/

/-- What a step does outside the queues: it leaves the count and the summaries alone
while the clock goes on, or inserts a summary at the moment it is. -/
def Outside (s t : State) (a : Action) : Prop :=
  (s.now ≤ t.now ∧ t.saves = s.saves ∧ UserCalls t.messages ∧
    ∀ g since, hasSummarySince t.messages.rows g since =
      hasSummarySince s.messages.rows g since) ∨
  ∃ g origin content id, Saves s a g origin ∧ s.messages.rows.find? id = none ∧ t.now = s.now ∧
    t.messages = s.messages.post (persistAiSummary g content id s.now) ∧
    t.saves = Function.update s.saves g (s.saves g + 1)

theorem Outside.refl {s t : State} {a : Action} (hs : UserCalls s.messages) (hnow : t.now = s.now)
    (hmessages : t.messages = s.messages) (hsaves : t.saves = s.saves) : Outside s t a := by
  refine Or.inl ⟨by rw [hnow], hsaves, by rw [hmessages]; exact hs, fun g since => ?_⟩
  rw [hmessages]

theorem Outside.now_le {s t : State} {a : Action} (h : Outside s t a) : s.now ≤ t.now := by
  rcases h with ⟨hnow, -⟩ | ⟨g, origin, content, id, -, -, hnow, -⟩
  · exact hnow
  · rw [hnow]

theorem Outside.userCalls {s t : State} {a : Action} (hs : UserCalls s.messages)
    (h : Outside s t a) : UserCalls t.messages := by
  rcases h with ⟨-, -, ht, -⟩ | ⟨g, origin, content, id, -, hfree, -, hmessages, -⟩
  · exact ht
  · rw [hmessages]
    exact hs.post hfree

/-- **An insert counts for every flow under way.**  Whatever a step does, what an origin
knows stays right. -/
theorem OriginOk.outside {s t : State} {a : Action} {x : Uuid × Origin} (hx : OriginOk s x)
    (h : Outside s t a) : OriginOk t x := by
  have hsince : x.2.since ≤ t.now.val := hx.since_le.trans h.now_le
  rcases h with ⟨-, hsaves, -, hsame⟩ | ⟨g, origin, content, id, -, hfree, -, hmessages, hsaves⟩
  · refine ⟨hsince, by rw [hsaves]; exact hx.saves_le, ?_⟩
    rw [hsaves, hsame]
    exact hx.hasSummary_iff
  · by_cases hg : x.1 = g
    · have hcount : t.saves x.1 = s.saves x.1 + 1 := by
        rw [hsaves, ← hg, Function.update_self]
      have hle := hx.saves_le
      refine ⟨hsince, by omega, ?_⟩
      rw [hmessages, hasSummarySince_post hfree, hcount]
      constructor
      · intro _
        omega
      · intro _
        exact Or.inl ⟨hg, hx.since_le⟩
    · have hcount : t.saves x.1 = s.saves x.1 := by
        rw [hsaves, Function.update_of_ne hg]
      refine ⟨hsince, by rw [hcount]; exact hx.saves_le, ?_⟩
      rw [hmessages, hasSummarySince_post hfree, hcount, ← hx.hasSummary_iff]
      constructor
      · rintro (⟨rfl, -⟩ | hold)
        · exact absurd rfl hg
        · exact hold
      · exact Or.inr

/-- **What a handler does**: it passes the guard, reads, hands the origin of its child on,
inserts or broadcasts; otherwise it returns a value without an origin. -/
inductive Handled (config : Config) (s : State) (j : JobId) (job : Job) (progress : Progress)
    (id : Uuid) (text : String) : Progress → Effect → Prop
  | guarded (stage_eq : j.stage = .fetch) (progress_eq : progress = .begun)
      (none_since : hasSummarySince s.messages.rows j.groupId job.since = false) :
      Handled config s j job progress id text (.guarded ⟨job.since, s.saves j.groupId⟩) .nothing
  | read {origin : Origin} {m : Message} {rows : List Message} (stage_eq : j.stage = .fetch)
      (progress_eq : progress = .guarded origin)
      (rows_eq : findForSummary s.messages.rows j.groupId job.since = m :: rows) :
      Handled config s j job progress id text
        (.finished (.transcript j.groupId ((m :: rows).map (transcriptLine config)) origin))
        (.read ⟨j.groupId, job.since, m :: rows⟩)
  | generated {groupId : Uuid} {lines : List TranscriptLine} {origin : Origin}
      (child_eq : job.child = some (.transcript groupId lines origin)) :
      Handled config s j job progress id text (.finished (.summary groupId text origin)) .nothing
  | inserted {groupId : Uuid} {content : String} {origin : Origin} (stage_eq : j.stage = .save)
      (progress_eq : progress = .begun)
      (child_eq : job.child = some (.summary groupId content origin))
      (fresh : s.messages.rows.find? id = none) :
      Handled config s j job progress id text
        (.finished (.saved (persistAiSummary groupId content id s.now)))
        (.insert (persistAiSummary groupId content id s.now))
  | broadcast {message : Message} (child_eq : job.child = some (.saved message)) :
      Handled config s j job progress id text (.finished (.published true)) (.broadcast message)
  | ended {result : StageResult} (origin_eq : result.origin = none) :
      Handled config s j job progress id text (.finished result) .nothing

theorem handled_of_handle {config : Config} {s : State} {j : JobId} {job : Job}
    {progress progress' : Progress} {id : Uuid} {text : String} {e : Effect}
    (h : handle config s j job progress id text = some (progress', e)) :
    Handled config s j job progress id text progress' e := by
  have hover : ∀ {result : StageResult}, result.origin = none →
      some (Progress.finished result, Effect.nothing) = some (progress', e) →
        Handled config s j job progress id text progress' e := by
    intro result horigin heq
    obtain ⟨rfl, rfl⟩ := Prod.mk.inj (Option.some.inj heq)
    exact .ended horigin
  unfold handle at h
  split at h
  · next hstage =>
    split at h
    · exact hover rfl h
    · next hguard =>
      obtain ⟨rfl, rfl⟩ := Prod.mk.inj (Option.some.inj h)
      exact .guarded hstage rfl (by simpa using hguard)
  · next hstage =>
    split at h
    · exact hover rfl h
    · next hrows =>
      obtain ⟨rfl, rfl⟩ := Prod.mk.inj (Option.some.inj h)
      exact .read hstage rfl hrows
  · split at h
    · next hchild =>
      split at h
      · exact hover rfl h
      · obtain ⟨rfl, rfl⟩ := Prod.mk.inj (Option.some.inj h)
        exact .generated hchild
    · exact hover rfl h
    · exact hover rfl h
  · next hstage =>
    split at h
    · next hchild =>
      split at h
      · exact absurd h (by simp)
      · next hfree =>
        obtain ⟨rfl, rfl⟩ := Prod.mk.inj (Option.some.inj h)
        exact .inserted hstage rfl hchild hfree
    · exact hover rfl h
  · split at h
    · next hchild =>
      obtain ⟨rfl, rfl⟩ := Prod.mk.inj (Option.some.inj h)
      exact .broadcast hchild
    · exact hover rfl h
  · split at h
    · exact hover rfl h
    · exact hover rfl h
  · exact absurd h (by simp)

/-- The only effect on the table is the insert of the save stage, now and under a fresh
id. -/
theorem effect_of_handle {config : Config} {s : State} {j : JobId} {job : Job}
    {progress progress' : Progress} {id : Uuid} {text : String} {e : Effect}
    (h : handle config s j job progress id text = some (progress', e)) :
    (∀ m, e ≠ .insert m) ∨
      ∃ g content origin, j.stage = .save ∧ progress = .begun ∧
        job.child = some (.summary g content origin) ∧ s.messages.rows.find? id = none ∧
        e = .insert (persistAiSummary g content id s.now) := by
  cases handled_of_handle h with
  | inserted hstage hbegun hchild hfree =>
    exact Or.inr ⟨_, _, _, hstage, hbegun, hchild, hfree, rfl⟩
  | guarded | read | generated | broadcast | ended => exact Or.inl (by simp)

/-- **What a step does outside the queues.** -/
theorem outside_of_step {config : Config} {s t : State} {a : Action} (hs : UserCalls s.messages)
    (h : step config s a = some t) : Outside s t a := by
  cases stepCase_of_step h with
  | advance _ hnow ht =>
    rw [ht]
    exact Or.inl ⟨hnow, rfl, hs, fun _ _ => rfl⟩
  | message _ _ hb ht =>
    rw [ht]
    exact Or.inl ⟨le_refl _, rfl, userCalls_of_step hs hb,
      fun g since => hasSummarySince_of_step hs hb g since⟩
  | tick _ ht =>
    rw [ht]
    exact Outside.refl hs rfl rfl rfl
  | addFlow _ _ ht =>
    rw [ht]
    exact Outside.refl hs rfl rfl rfl
  | dropFlow _ _ ht =>
    rw [ht]
    exact Outside.refl hs rfl rfl rfl
  | @work j id text since n child p p' e ha hjob hhandle ht =>
    rw [ht]
    rcases effect_of_handle hhandle with
      hno | ⟨g, content, origin, hstage, rfl, rfl, hfree, rfl⟩
    · cases e with
      | nothing => exact Outside.refl hs rfl rfl rfl
      | read transcript => exact Outside.refl hs rfl rfl rfl
      | insert m => exact absurd rfl (hno m)
      | broadcast m => exact Outside.refl hs rfl rfl rfl
    · exact Or.inr ⟨g, origin, content, id, ⟨j, id, text, since, n, content, ha, hstage, hjob⟩,
        hfree, rfl, rfl, rfl⟩
  | queues ht =>
    rw [ht]
    exact Outside.refl hs rfl rfl rfl

/-! ## The queues -/

/-- The payload of a job is that of before, or that of a flow just added. -/
theorem since_of_jobStep {config : Config} {s t : State} {a : Action} {j : JobId} {job : Job}
    (h : JobStep config s t a j) (hjob : t.jobs j = some job) :
    (∃ old, s.jobs j = some old ∧ job.since = old.since) ∨
      ∃ f ∈ s.pending, a = .addFlow f ∧ j.groupId = f.groupId ∧ j.bucketStart = f.bucketStart ∧
        s.jobs j = none ∧ job = newJob f j.stage := by
  have hold : ∀ {old new : Job}, s.jobs j = some old → t.jobs j = some new →
      new.since = old.since → ∃ old, s.jobs j = some old ∧ job.since = old.since := by
    intro old new hs ht hsince
    rw [hjob] at ht
    exact ⟨old, hs, by rw [Option.some.inj ht, hsince]⟩
  cases h with
  | same ht => exact Or.inl ⟨job, by rw [← ht, hjob], rfl⟩
  | added ha hf hgroup hbucket hs ht =>
    rw [hjob] at ht
    exact Or.inr ⟨_, hf, ha, hgroup, hbucket, hs, Option.some.inj ht⟩
  | started _ hs ht => exact Or.inl (hold hs ht rfl)
  | worked _ hs _ _ ht => exact Or.inl (hold hs ht rfl)
  | completed _ _ ht => exact absurd ht (by rw [hjob]; simp)
  | received _ _ _ _ hs ht => exact Or.inl (hold hs ht rfl)
  | retried _ hs ht => exact Or.inl (hold hs ht rfl)
  | failed _ hs ht => exact Or.inl (hold hs ht rfl)
  | expired _ _ _ ht => exact absurd ht (by rw [hjob]; simp)

/-- The action is the guard of a fetch stage that finds no summary, and the origin is
the one it makes. -/
def GuardPasses (s : State) (a : Action) (x : Uuid × Origin) : Prop :=
  ∃ j id text since n child, a = .work j id text ∧ j.stage = .fetch ∧
    s.jobs j = some ⟨since, n, child, .active .begun⟩ ∧
    hasSummarySince s.messages.rows j.groupId since = false ∧
    x = (j.groupId, ⟨since, s.saves j.groupId⟩)

/-- **Where an origin comes from**: the child's value, the handler, or the guard that has
just found no summary. -/
theorem origin_of_handle {config : Config} {s : State} {j : JobId} {job : Job}
    {progress progress' : Progress} {id : Uuid} {text : String} {e : Effect} {x : Uuid × Origin}
    (h : handle config s j job progress id text = some (progress', e))
    (hx : progress'.origin j.groupId = some x) :
    job.child.bind StageResult.origin = some x ∨ progress.origin j.groupId = some x ∨
      (j.stage = .fetch ∧ progress = .begun ∧ x = (j.groupId, ⟨job.since, s.saves j.groupId⟩) ∧
        hasSummarySince s.messages.rows j.groupId job.since = false) := by
  cases handled_of_handle h with
  | guarded hstage hbegun hguard =>
    exact Or.inr (Or.inr ⟨hstage, hbegun, (Option.some.inj hx).symm, hguard⟩)
  | read _ hprogress _ =>
    rw [hprogress]
    exact Or.inr (Or.inl hx)
  | generated hchild =>
    rw [hchild]
    exact Or.inl hx
  | inserted | broadcast => exact absurd hx (by simp [Progress.origin, StageResult.origin])
  | ended horigin => exact absurd (horigin.symm.trans hx) (by simp)

/-- Released or not, a job that is not running carries nothing in its handler. -/
theorem Status.origin_release (groupId : Uuid) (status : Status) :
    status.release.origin groupId = status.origin groupId := by
  cases status <;> rfl

/-- **Nothing enters the queues but through a guard.**  What they carry after a step they
carried before, or the step is the guard that has made it. -/
theorem carried_of_step {config : Config} {s t : State} {a : Action} {x : Uuid × Origin}
    (h : step config s a = some t) (hx : Carried t x) : Carried s x ∨ GuardPasses s a x := by
  obtain ⟨j, job, hjob, hx⟩ := hx
  -- A job whose child is as before and whose handler carries nothing.
  have hidle : ∀ {old new : Job}, s.jobs j = some old → t.jobs j = some new →
      new.child = old.child → new.status.origin j.groupId = none →
      Carried s x ∨ GuardPasses s a x := by
    intro old new hs ht hchild hstatus
    obtain rfl : job = new := Option.some.inj (hjob.symm.trans ht)
    rcases hx with hx | hx
    · rw [hchild] at hx
      exact Or.inl ⟨j, old, hs, Or.inl hx⟩
    · exact absurd (hstatus.symm.trans hx) (by simp)
  cases jobStep_of_step h j with
  | same ht => exact Or.inl ⟨j, job, by rw [← ht, hjob], hx⟩
  | added _ _ _ _ _ ht =>
    obtain rfl : job = newJob _ j.stage := Option.some.inj (hjob.symm.trans ht)
    rcases hx with hx | hx
    · exact absurd hx (by simp [newJob])
    · refine absurd hx ?_
      unfold newJob
      split <;> simp [Status.origin]
  | started _ hs ht => exact hidle hs ht rfl rfl
  | worked ha hs hhandle _ ht =>
    obtain rfl := Option.some.inj (hjob.symm.trans ht)
    rcases hx with hx | hx
    · exact Or.inl ⟨j, _, hs, Or.inl hx⟩
    · rcases origin_of_handle hhandle hx with hx | hx | ⟨hstage, rfl, rfl, hguard⟩
      · exact Or.inl ⟨j, _, hs, Or.inl hx⟩
      · exact Or.inl ⟨j, _, hs, Or.inr hx⟩
      · exact Or.inr ⟨j, _, _, _, _, _, ha, hstage, hs, hguard, rfl⟩
  | completed _ _ ht => exact absurd ht (by rw [hjob]; simp)
  | received _ hk _ _ hs ht =>
    obtain rfl := Option.some.inj (hjob.symm.trans ht)
    rcases hx with hx | hx
    · exact Or.inl ⟨_, _, hk, Or.inr hx⟩
    · refine Or.inl ⟨j, _, hs, Or.inr ?_⟩
      rw [← Status.origin_release]
      exact hx
  | retried _ hs ht => exact hidle hs ht rfl rfl
  | failed _ hs ht => exact hidle hs ht rfl rfl
  | expired _ _ _ ht => exact absurd ht (by rw [hjob]; simp)

/-- A guard that passes makes a right origin. -/
theorem originOk_of_guardPasses {s : State} {a : Action} {x : Uuid × Origin} (hs : Inv s)
    (h : GuardPasses s a x) : OriginOk s x := by
  obtain ⟨j, id, text, since, n, child, -, -, hjob, hguard, rfl⟩ := h
  refine ⟨hs.jobs j _ hjob, le_refl _, ?_⟩
  rw [hguard]
  simp

/-- A flow still to be added was so before, or a tick has just come to it. -/
theorem mem_pending_of_step {config : Config} {s t : State} {a : Action} {f : Flow}
    (h : step config s a = some t) (hf : f ∈ t.pending) :
    f ∈ s.pending ∨ (a = .tick ∧ f ∈ tickFlows config s) := by
  cases stepCase_of_step h with
  | advance _ _ ht =>
    rw [ht] at hf
    exact Or.inl hf
  | message _ _ _ ht =>
    rw [ht] at hf
    exact Or.inl hf
  | tick ha ht =>
    rw [ht] at hf
    exact (List.mem_append.mp hf).imp_right fun hf => ⟨ha, hf⟩
  | addFlow _ _ ht =>
    rw [ht] at hf
    exact Or.inl (List.mem_of_mem_erase hf)
  | dropFlow _ _ ht =>
    rw [ht] at hf
    exact Or.inl (List.mem_of_mem_erase hf)
  | @work _ _ _ _ _ _ _ _ e _ _ _ ht =>
    have hpending : (s.apply e).pending = s.pending := by cases e <;> rfl
    rw [ht] at hf
    exact Or.inl (hpending ▸ hf)
  | queues ht =>
    rw [ht] at hf
    exact Or.inl hf

/-- What a tick adds reaches one window back. -/
theorem since_of_mem_tickFlows {config : Config} {s : State} {f : Flow}
    (hf : f ∈ tickFlows config s) : f.since = s.now.val - config.windowMs := by
  obtain ⟨g, -, rfl⟩ := List.mem_map.mp hf
  rfl

/-- **One step keeps the invariant.** -/
theorem inv_of_step {config : Config} {s t : State} {a : Action} (hs : Inv s)
    (h : step config s a = some t) : Inv t := by
  have hout : Outside s t a := outside_of_step hs.userCalls h
  have hnow : s.now.val ≤ t.now.val := hout.now_le
  refine ⟨hout.userCalls hs.userCalls, ?_, ?_, ?_⟩
  · intro f hf
    rcases mem_pending_of_step h hf with hf | ⟨-, hf⟩
    · exact (hs.pending f hf).trans hnow
    · rw [since_of_mem_tickFlows hf]
      omega
  · intro j job hjob
    rcases since_of_jobStep (jobStep_of_step h j) hjob with
      ⟨old, hold, hsince⟩ | ⟨f, hf, -, -, -, -, rfl⟩
    · rw [hsince]
      exact (hs.jobs j old hold).trans hnow
    · exact (hs.pending f hf).trans hnow
  · intro x hx
    rcases carried_of_step h hx with hold | hguard
    · exact (hs.origins x hold).outside hout
    · exact (originOk_of_guardPasses hs hguard).outside hout

/-! ## Runs -/

/-- Where the invariant holds, an insert is a duplicate exactly if another came since its
guard. -/
theorem noDuplicate_iff {s : State} (hs : Inv s) (a : Action) :
    NoDuplicate s a ↔ NoneSinceGuard s a := by
  refine forall_congr' fun g => forall_congr' fun origin => forall_congr' fun hsaves => ?_
  obtain ⟨j, id, text, since, attemptsMade, content, -, -, hjob⟩ := hsaves
  have hok : OriginOk s (g, origin) := hs.origins _ ⟨j, _, hjob, Or.inl rfl⟩
  rw [Bool.eq_false_iff, ne_eq, hok.hasSummary_iff]
  have hle : origin.saves ≤ s.saves g := hok.saves_le
  show ¬origin.saves < s.saves g ↔ s.saves g = origin.saves
  omega

/-- **When no summary is posted twice.**  Along a run of the pipeline no insert makes a
second summary of its window exactly if every insert is the first of its group since
the guard of its flow ran. -/
theorem noDuplicates_iff (config : Config) (rows : MessageTable) (now : Instant)
    (acts : List Action) :
    AllSteps (step config) NoDuplicate (start rows now) acts ↔
      AllSteps (step config) NoneSinceGuard (start rows now) acts :=
  allSteps_congr (fun _ _ _ hs h => inv_of_step hs h) (fun _ a _ hs _ => noDuplicate_iff hs a)
    (inv_start rows now) acts

/-! ## A job that runs again after its insert -/

/-- A window of one second, and a user table without names. -/
def oneSecond : Config := ⟨1000, by decide, fun _ => none⟩

/-- Five seconds after the epoch. -/
def fiveSeconds : Instant := ⟨5000, by decide⟩

/-- One message, one tick, one flow; the worker of the save stage dies after the insert
and before the job is completed, and the job is taken up again. -/
def stalledSaveRun : List Action :=
  let t : Instant := fiveSeconds
  let job (stage : Stage) : JobId := ⟨stage, 1, 5000⟩
  [ .message (.request 0 (.create 1 2 "hello")), .message (.statement 0 3 t),
    .tick, .addFlow ⟨1, 4000, 5000⟩,
    .start (job .fetch), .work (job .fetch) 0 "", .work (job .fetch) 0 "", .complete (job .fetch),
    .start (job .generate), .work (job .generate) 0 "they said hello", .complete (job .generate),
    .start (job .save), .work (job .save) 4 "", .fail (job .save), .start (job .save) ]

/-- The insert of the second attempt. -/
def secondInsert : Action := .work ⟨.save, 1, 5000⟩ 5 ""

/-- After the run the second insert can be made, and the first summary is there. -/
theorem secondInsert_after_stalledSaveRun :
    (exec (step oneSecond) (start Table.empty ⟨5000, by decide⟩) stalledSaveRun).map
      (fun s => ((step oneSecond s secondInsert).isSome, hasSummarySince s.messages.rows 1 4000,
        s.jobs ⟨.save, 1, 5000⟩)) =
      some (true, true, some ⟨4000, 2, some (.summary 1 "they said hello" ⟨4000, 0⟩),
        .active .begun⟩) := by
  decide

/-- **A window can get two summaries.** -/
theorem not_noDuplicates_stalledSaveRun :
    ¬∀ (config : Config) (rows : MessageTable) (now : Instant) (acts : List Action),
      AllSteps (step config) NoDuplicate (start rows now) acts := by
  intro h
  obtain ⟨u, hu, hprod⟩ := Option.map_eq_some_iff.mp secondInsert_after_stalledSaveRun
  obtain ⟨hsome, hrest⟩ := Prod.mk.inj hprod
  obtain ⟨hsummary, hjob⟩ := Prod.mk.inj hrest
  have hno : NoDuplicate u secondInsert :=
    (h oneSecond Table.empty ⟨5000, by decide⟩ (stalledSaveRun ++ [secondInsert])).of_exec hu hsome
  have hfalse : hasSummarySince u.messages.rows 1 4000 = false :=
    hno 1 ⟨4000, 0⟩ ⟨⟨.save, 1, 5000⟩, 5, "", 4000, 2, "they said hello", rfl, rfl, hjob⟩
  rw [hsummary] at hfalse
  exact absurd hfalse (by decide)

end Summary
end GroupChat

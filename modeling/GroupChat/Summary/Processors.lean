import GroupChat.Summary.JobIds
import GroupChat.Summary.NoDuplicate

/-!
# The pipeline's handlers and the processors

The stages are there twice.  The pipeline runs them a statement at a time, among other jobs,
on results of known shapes; the processors of a flow run them whole, on texts and on values
that may lack any member.  The two agree.

A job of the pipeline goes by the text of its id (`jobText_injective`).  A job only ever
gets a value of the stage below it (`typed_of_exec`), such a value has the members its parent
reads, and so the processor returns what the handler returns and does what it does
(`work_of_unbroken`).
-/

namespace GroupChat
namespace Summary
namespace Flow

open Chat Common Database Messages Text Transition

/-! ## Jobs and their ids -/

/-- The queue a stage runs on. -/
def queueName : Stage → String
  | .fetch | .save | .root => SUMMARY_QUEUE
  | .generate => AI_QUEUE
  | .publish => NOTIFICATION_QUEUE

/-- The name of its job. -/
def jobName : Stage → String
  | .fetch => JOB_FETCH
  | .generate => JOB_GENERATE
  | .save => JOB_SAVE
  | .publish => JOB_PUBLISH
  | .root => JOB_GROUP_SUMMARY

/-- The payload of its job. -/
def jobData (stage : Stage) (g : Uuid) (since : Instant) : JobData where
  groupId := idText g
  since := if stage = .fetch then some (toISOString since) else none

/-- The text a job goes by. -/
def jobText (j : JobId) : JsString :=
  stageJobId (jobName j.stage) (idText j.groupId) j.bucketStart

/-- A job of the pipeline, as the producer is told of it. -/
def flowJob (j : JobId) (since : Instant) (children : List FlowJob) : FlowJob :=
  .mk (jobName j.stage) (queueName j.stage) (jobData j.stage j.groupId since) (jobText j) children

/-- The flow of a group is the five jobs of the pipeline, one in the other. -/
theorem buildSummaryFlow_eq (g : Uuid) (since : Instant) (bucketStart : ℤ) :
    buildSummaryFlow (idText g) since bucketStart =
      [Stage.generate, .save, .publish, .root].foldl
        (fun job stage => flowJob ⟨stage, g, bucketStart⟩ since [job])
        (flowJob ⟨.fetch, g, bucketStart⟩ since []) :=
  rfl

theorem jobName_injective : Function.Injective jobName := by
  intro a b h
  cases a <;> cases b <;> first | rfl | exact absurd h (by decide)

theorem mark_not_mem_jobName (stage : Stage) : ':' ∉ (jobName stage).toList := by
  cases stage <;> decide

/-- **Different jobs have different ids.** -/
theorem jobText_injective : Function.Injective jobText := by
  intro j k h
  obtain ⟨hname, hgroup, hb⟩ :=
    stageJobId_inj (mark_not_mem_jobName j.stage) (mark_not_mem_jobName k.stage) h
  have hstage : j.stage = k.stage := jobName_injective hname
  have hg : j.groupId = k.groupId := idText_injective hgroup
  cases j
  cases k
  rw [JobId.mk.injEq]
  exact ⟨hstage, hg, hb⟩

/-! ## Results and values -/

variable {config : Config} {s t : State} {j : JobId} {job : Job} {r : StageResult}

/-- The value a result travels as. -/
def ofResult : StageResult → ReturnValue
  | .skipped reason => { skipped := some true, reason := some reason }
  | .transcript groupId lines _ =>
    { skipped := some false, groupId := some (idText groupId), transcript := some lines }
  | .summary groupId summaryText _ =>
    { skipped := some false, groupId := some (idText groupId), summaryText := some summaryText }
  | .notSaved => { skipped := some true }
  | .saved message => { skipped := some false, message := some message }
  | .published published => { published := some published }
  | .done published => { done := some true, published := some published }

/-- What a job of the stage may return. -/
inductive Returns : Stage → StageResult → Prop
  | fetchSkipped (reason : SkipReason) : Returns .fetch (.skipped reason)
  | fetched (groupId : Uuid) (lines : List TranscriptLine) (origin : Origin) :
      Returns .fetch (.transcript groupId lines origin)
  | generateSkipped (reason : SkipReason) : Returns .generate (.skipped reason)
  | generated (groupId : Uuid) (summaryText : String) (origin : Origin) :
      Returns .generate (.summary groupId summaryText origin)
  | notSaved : Returns .save .notSaved
  | saved (message : Message) : Returns .save (.saved message)
  | published (published : Bool) : Returns .publish (.published published)
  | done (published : Bool) : Returns .root (.done published)

/-- **A handler returns what its stage may return.** -/
theorem returns_of_handle {p : Progress} {id : Uuid} {text : String} {e : Effect}
    (h : handle config s j job p id text = some (.finished r, e)) : Returns j.stage r := by
  have hresult : ∀ {stage : Stage} {r' : StageResult} {e' : Effect}, j.stage = stage →
      Returns stage r' → some (Progress.finished r', e') = some (.finished r, e) →
        Returns j.stage r := by
    intro stage r' e' hstage hr' heq
    obtain ⟨hr, -⟩ := Prod.mk.inj (Option.some.inj heq)
    rw [hstage, ← Progress.finished.inj hr]
    exact hr'
  unfold handle at h
  split at h
  · next hstage =>
    split at h
    · exact hresult hstage (.fetchSkipped _) h
    · exact absurd h (by simp)
  · next hstage =>
    split at h
    · exact hresult hstage (.fetchSkipped _) h
    · exact hresult hstage (.fetched _ _ _) h
  · next hstage =>
    split at h
    · split at h
      · exact hresult hstage (.generateSkipped _) h
      · exact hresult hstage (.generated _ _ _) h
    · exact hresult hstage (.generateSkipped _) h
    · exact hresult hstage (.generateSkipped _) h
  · next hstage =>
    split at h
    · split at h
      · exact absurd h (by simp)
      · exact hresult hstage (.saved _) h
    · exact hresult hstage .notSaved h
  · next hstage =>
    split at h
    · exact hresult hstage (.published _) h
    · exact hresult hstage (.published _) h
  · next hstage =>
    split at h
    · exact hresult hstage (.done _) h
    · exact hresult hstage (.done _) h
  · exact absurd h (by simp)

/-! ## Values stay with their stage -/

/-- The child of a job has returned what its stage may return, and so has its handler. -/
structure JobTyped (stage : Stage) (job : Job) : Prop where
  child : ∀ r, job.child = some r → ∃ k : Stage, k.parent = some stage ∧ Returns k r
  result : ∀ r, job.status = .active (.finished r) → Returns stage r

/-- Every job in the queues is typed. -/
def Typed (s : State) : Prop := ∀ j job, s.jobs j = some job → JobTyped j.stage job

/-- A job whose handler is not over is typed by its child. -/
theorem JobTyped.of_child {stage : Stage} {since : ℤ} {n : ℕ} {status : Status}
    (hjob : JobTyped stage job) (hstatus : ∀ r, status ≠ .active (.finished r)) :
    JobTyped stage ⟨since, n, job.child, status⟩ :=
  ⟨hjob.child, fun r hr => absurd hr (hstatus r)⟩

theorem typed_of_step {a : Action} (hs : Typed s) (h : step config s a = some t) : Typed t := by
  intro j job hjob
  cases jobStep_of_step h j with
  | same ht => exact hs j job (ht ▸ hjob)
  | added _ _ _ _ _ ht =>
    obtain rfl := Option.some.inj (ht.symm.trans hjob)
    refine ⟨fun r hr => absurd hr (by simp [newJob]), fun r hr => ?_⟩
    unfold newJob at hr
    split at hr
    · exact absurd hr (by simp)
    · exact absurd hr (by simp)
  | started _ hold ht =>
    obtain rfl := Option.some.inj (ht.symm.trans hjob)
    exact (hs j _ hold).of_child (by simp)
  | worked _ hold hhandle _ ht =>
    obtain rfl := Option.some.inj (ht.symm.trans hjob)
    refine ⟨(hs j _ hold).child, fun r hr => ?_⟩
    exact returns_of_handle (Status.active.inj hr ▸ hhandle)
  | completed _ _ ht => exact absurd hjob (by rw [ht]; simp)
  | @received k _ _ _ result parent _ hk hstage _ hold ht =>
    obtain rfl := Option.some.inj (ht.symm.trans hjob)
    refine ⟨fun r hr => ?_, fun r hr => ?_⟩
    · obtain rfl := Option.some.inj hr
      exact ⟨k.stage, hstage, (hs k _ hk).result _ rfl⟩
    · exact (hs j parent hold).result r (Status.eq_active_of_release hr)
  | retried _ hold ht =>
    obtain rfl := Option.some.inj (ht.symm.trans hjob)
    exact (hs j _ hold).of_child (by simp)
  | failed _ hold ht =>
    obtain rfl := Option.some.inj (ht.symm.trans hjob)
    exact (hs j _ hold).of_child (by simp)
  | expired _ _ _ ht => exact absurd hjob (by rw [ht]; simp)

/-- **In every run, values stay with their stage.** -/
theorem typed_of_exec {rows : MessageTable} {now : Instant} {as : List Action}
    (h : exec (step config) (start rows now) as = some s) : Typed s :=
  (reach_of_exec h).invariant (fun _ _ _ hs _ ht => typed_of_step hs ht)
    fun _ _ hjob => absurd hjob (by simp [start])

/-! ## The processors do what the handlers do -/

/-- A handler from its start to its end, with nobody in between. -/
inductive Unbroken (config : Config) (s : State) (j : JobId) (job : Job) (id : Uuid)
    (text : String) (r : StageResult) (e : Effect) : Prop
  | once (h : handle config s j job .begun id text = some (.finished r, e))
  | twice {origin : Origin}
      (hguard : handle config s j job .begun id text = some (.guarded origin, .nothing))
      (hread : handle config s j job (.guarded origin) id text = some (.finished r, e))

/-- What is sent to the rooms of a summary. -/
def broadcastOf (m : Message) : Broadcast :=
  ⟨roomFor (printUuid m.groupId), "new_message", .messageCreated m⟩

/-- The processors see the table of the pipeline, and have sent what it has published. -/
structure Matches (s : State) (w : World) : Prop where
  rows : w.rows = s.messages.rows
  broadcasts : w.broadcasts = s.broadcasts.map broadcastOf

/-- What the environment decides is what the step is given. -/
structure Decides (config : Config) (s : State) (id : Uuid) (text : String) (env : Env) :
    Prop where
  userName : env.userName = config.userName
  reply : trimText env.reply = text
  id : env.id = id
  now : env.now = s.now

theorem parent_inj {k k' stage : Stage} (h : k.parent = some stage) (h' : k'.parent = some stage) :
    k = k' := by
  cases k <;> cases k' <;> first | rfl | (cases h <;> cases h')

/-- The child of a typed job. -/
theorem JobTyped.returns {stage k : Stage} (hjob : JobTyped stage job)
    (hk : k.parent = some stage) (hr : job.child = some r) : Returns k r := by
  obtain ⟨k', hk', hreturns⟩ := hjob.child r hr
  rw [parent_inj hk hk']
  exact hreturns

variable {env : Env} {w : World} {id : Uuid} {text : String} {e : Effect} {values : ChildrenValues}

/-- A handler that returns one value is over with that value. -/
theorem eq_of_finished {r r' : StageResult} {e e' : Effect}
    (h : some (Progress.finished r', e') = some (.finished r, e)) : r' = r ∧ e' = e := by
  obtain ⟨hr, he⟩ := Prod.mk.inj (Option.some.inj h)
  exact ⟨Progress.finished.inj hr, he⟩

theorem generate_of_handle (hstage : j.stage = .generate) (hjob : JobTyped .generate job)
    (hvalues : firstChildValue values = job.child.map ofResult) (hw : Matches s w)
    (henv : Decides config s id text env)
    (h : handle config s j job .begun id text = some (.finished r, e)) :
    ∃ w', generate env w values = .ok (some (ofResult r), w') ∧ Matches (s.apply e) w' := by
  cases hc : job.child with
  | none =>
    simp only [handle, hstage, hc] at h
    obtain ⟨rfl, rfl⟩ := eq_of_finished h
    unfold generate
    rw [hvalues, hc]
    exact ⟨w, rfl, hw⟩
  | some c =>
    have hreturns : Returns .fetch c := hjob.returns rfl hc
    cases hreturns with
    | fetchSkipped reason =>
      simp only [handle, hstage, hc] at h
      obtain ⟨rfl, rfl⟩ := eq_of_finished h
      unfold generate
      rw [hvalues, hc]
      exact ⟨w, rfl, hw⟩
    | fetched g lines origin =>
      simp only [handle, hstage, hc] at h
      have hvalue : firstChildValue values = some (ofResult (.transcript g lines origin)) := by
        rw [hvalues, hc]
        rfl
      have hreply : (summarize env w lines).1 = text := henv.reply
      have hasked : Matches s (summarize env w lines).2 := ⟨hw.rows, hw.broadcasts⟩
      refine ⟨(summarize env w lines).2, ?_⟩
      rw [generate_of_transcript hvalue (by simp [ofResult]) rfl, hreply]
      split at h
      · next hblank =>
        obtain ⟨rfl, rfl⟩ := eq_of_finished h
        rw [if_pos hblank]
        exact ⟨rfl, hasked⟩
      · next hblank =>
        obtain ⟨rfl, rfl⟩ := eq_of_finished h
        rw [if_neg hblank]
        exact ⟨rfl, hasked⟩

theorem save_of_handle (hstage : j.stage = .save) (hjob : JobTyped .save job)
    (hvalues : firstChildValue values = job.child.map ofResult) (hw : Matches s w)
    (henv : Decides config s id text env)
    (h : handle config s j job .begun id text = some (.finished r, e)) :
    ∃ w', save env w values = .ok (some (ofResult r), w') ∧ Matches (s.apply e) w' := by
  unfold save
  rw [hvalues]
  cases hc : job.child with
  | none =>
    simp only [handle, hstage, hc] at h
    obtain ⟨rfl, rfl⟩ := eq_of_finished h
    exact ⟨w, rfl, hw⟩
  | some c =>
    have hreturns : Returns .generate c := hjob.returns rfl hc
    cases hreturns with
    | generateSkipped reason =>
      simp only [handle, hstage, hc] at h
      obtain ⟨rfl, rfl⟩ := eq_of_finished h
      exact ⟨w, rfl, hw⟩
    | generated g summaryText origin =>
      simp only [handle, hstage, hc] at h
      split at h
      · exact absurd h (by simp)
      · next hfree =>
        obtain ⟨rfl, rfl⟩ := eq_of_finished h
        have hid : w.rows.find? env.id = none := by rw [hw.rows, henv.id, hfree]
        refine ⟨{ w with rows := w.rows.put (persistAiSummary g summaryText id s.now) }, ?_, ?_⟩
        · dsimp only [Option.map_some, ofResult]
          rw [if_neg (by decide), Option.bind_some, readId_idText]
          dsimp only
          rw [hid, henv.id, henv.now]
        · exact ⟨congrArg (Table.put · _) hw.rows, hw.broadcasts⟩

theorem publish_of_handle (hstage : j.stage = .publish) (hjob : JobTyped .publish job)
    (hvalues : firstChildValue values = job.child.map ofResult) (hw : Matches s w)
    (h : handle config s j job .begun id text = some (.finished r, e)) :
    ∃ w', publish w values = .ok (some (ofResult r), w') ∧ Matches (s.apply e) w' := by
  unfold publish
  rw [hvalues]
  cases hc : job.child with
  | none =>
    simp only [handle, hstage, hc] at h
    obtain ⟨rfl, rfl⟩ := eq_of_finished h
    exact ⟨w, rfl, hw⟩
  | some c =>
    have hreturns : Returns .save c := hjob.returns rfl hc
    cases hreturns with
    | notSaved =>
      simp only [handle, hstage, hc] at h
      obtain ⟨rfl, rfl⟩ := eq_of_finished h
      exact ⟨w, rfl, hw⟩
    | saved message =>
      simp only [handle, hstage, hc] at h
      obtain ⟨rfl, rfl⟩ := eq_of_finished h
      refine ⟨broadcastNewMessage w message, rfl, hw.rows, ?_⟩
      show w.broadcasts ++ [broadcastOf message] = (s.broadcasts ++ [message]).map broadcastOf
      rw [List.map_append, ← hw.broadcasts]
      rfl

theorem groupSummary_of_handle (hstage : j.stage = .root) (hjob : JobTyped .root job)
    (hvalues : firstChildValue values = job.child.map ofResult) (hw : Matches s w)
    (h : handle config s j job .begun id text = some (.finished r, e)) :
    ∃ w', groupSummary w values = .ok (some (ofResult r), w') ∧ Matches (s.apply e) w' := by
  unfold groupSummary
  rw [hvalues]
  cases hc : job.child with
  | none =>
    simp only [handle, hstage, hc] at h
    obtain ⟨rfl, rfl⟩ := eq_of_finished h
    exact ⟨w, rfl, hw⟩
  | some c =>
    have hreturns : Returns .publish c := hjob.returns rfl hc
    cases hreturns with
    | published published =>
      simp only [handle, hstage, hc] at h
      obtain ⟨rfl, rfl⟩ := eq_of_finished h
      exact ⟨w, rfl, hw⟩

theorem fetch_of_unbroken {since : Instant} (hstage : j.stage = .fetch)
    (hsince : job.since = since.val) (hw : Matches s w) (henv : Decides config s id text env)
    (h : Unbroken config s j job id text r e) :
    ∃ w', fetch env w ⟨idText j.groupId, some (toISOString since)⟩ =
      .ok (some (ofResult r), w') ∧ Matches (s.apply e) w' := by
  rw [fetch_idText, hw.rows, ← hsince]
  cases h with
  | once h =>
    simp only [handle, hstage] at h
    split at h
    · next hguard =>
      obtain ⟨rfl, rfl⟩ := eq_of_finished h
      rw [if_pos hguard]
      exact ⟨w, rfl, hw⟩
    · exact absurd h (by simp)
  | twice hguard hread =>
    simp only [handle, hstage] at hguard hread
    split at hguard
    · exact absurd hguard (by simp)
    · next hnone =>
      rw [if_neg hnone]
      refine ⟨w, ?_⟩
      split at hread
      · next hrows =>
        obtain ⟨rfl, rfl⟩ := eq_of_finished hread
        rw [hrows]
        exact ⟨rfl, hw⟩
      · next m rows hrows =>
        obtain ⟨rfl, rfl⟩ := eq_of_finished hread
        have hline : toTranscript env = Summary.transcriptLine config := by
          funext m
          rw [toTranscript, henv.userName]
          rfl
        rw [hrows, if_neg (by simp), hline]
        exact ⟨rfl, hw.rows, hw.broadcasts⟩

/-- **A processor does what the handler does.**  For every stage, job, state and world that
show the same table: where the handler of a typed job runs from its start to its end with
nobody in between, the worker of its queue returns the same value, and leaves the same rows
and the same broadcasts. -/
theorem work_of_unbroken {since : Instant} (hjob : JobTyped j.stage job)
    (hvalues : firstChildValue values = job.child.map ofResult) (hsince : job.since = since.val)
    (hw : Matches s w) (henv : Decides config s id text env)
    (h : Unbroken config s j job id text r e) :
    ∃ w', work env w (queueName j.stage) (jobName j.stage) (jobData j.stage j.groupId since)
      values = .ok (some (ofResult r), w') ∧ Matches (s.apply e) w' := by
  -- only `fetch` has a guard
  have hbegun (hstage : j.stage ≠ .fetch) :
      handle config s j job .begun id text = some (.finished r, e) := by
    cases h with
    | once h => exact h
    | twice hguard _ =>
      cases handled_of_handle hguard with
      | guarded hfetch => exact absurd hfetch hstage
  cases hstage : j.stage with
  | fetch =>
    obtain ⟨w', hfetch, hmatches⟩ := fetch_of_unbroken hstage hsince hw henv h
    exact ⟨w', (work_fetch _ _).trans hfetch, hmatches⟩
  | generate =>
    rw [hstage] at hjob
    obtain ⟨w', hgenerate, hmatches⟩ :=
      generate_of_handle hstage hjob hvalues hw henv (hbegun (by rw [hstage]; decide))
    exact ⟨w', (work_generate _ _).trans hgenerate, hmatches⟩
  | save =>
    rw [hstage] at hjob
    obtain ⟨w', hsave, hmatches⟩ :=
      save_of_handle hstage hjob hvalues hw henv (hbegun (by rw [hstage]; decide))
    exact ⟨w', (work_save _ _).trans hsave, hmatches⟩
  | publish =>
    rw [hstage] at hjob
    obtain ⟨w', hpublish, hmatches⟩ :=
      publish_of_handle hstage hjob hvalues hw (hbegun (by rw [hstage]; decide))
    exact ⟨w', (work_publish _ _).trans hpublish, hmatches⟩
  | root =>
    rw [hstage] at hjob
    obtain ⟨w', hroot, hmatches⟩ :=
      groupSummary_of_handle hstage hjob hvalues hw (hbegun (by rw [hstage]; decide))
    exact ⟨w', (work_groupSummary _ _).trans hroot, hmatches⟩

/-- **In every run the processors do what the handlers do.** -/
theorem work_of_exec {rows : MessageTable} {now since : Instant} {as : List Action}
    (hrun : exec (step config) (start rows now) as = some s) (hjob : s.jobs j = some job)
    (hvalues : firstChildValue values = job.child.map ofResult) (hsince : job.since = since.val)
    (hw : Matches s w) (henv : Decides config s id text env)
    (h : Unbroken config s j job id text r e) :
    ∃ w', work env w (queueName j.stage) (jobName j.stage) (jobData j.stage j.groupId since)
      values = .ok (some (ofResult r), w') ∧ Matches (s.apply e) w' :=
  work_of_unbroken (typed_of_exec hrun j job hjob) hvalues hsince hw henv h

end Flow
end Summary
end GroupChat

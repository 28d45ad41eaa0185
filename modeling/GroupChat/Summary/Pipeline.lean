import GroupChat.Messages.SummaryMessages

/-!
# The summary pipeline

A tick asks which groups had a user message in the window and adds one flow for
each.  A flow is five jobs in a chain over three queues: `fetch-messages` looks
whether the group has its summary already and reads the transcript,
`generate-ai-summary` asks the model, `save-summary` inserts the row,
`publish-summary` broadcasts it, and the root closes the chain.  A job runs when
its child has completed, and reads the child's return value.

A job is known by its id, which is made of the stage, the group and the window
bucket.  Adding a flow makes those of its jobs that do not exist: a completed job
is gone, a failed one stays for a while.  A job whose handler throws or whose
worker dies runs again from its start, three times in all, and that includes a
job whose handler was over.

Some things are remembered that the program does not keep.  `State.saves` counts the
summaries inserted for a group, and a transcript carries its `Origin`: the lower
bound of its flow, and that count at the moment the guard of the flow was asked.
`State.lastTick` is the moment of the latest tick, and `State.transcripts` lists what
the fetch stages have read.  No step depends on any of them.
-/

namespace GroupChat
namespace Summary

open Database Messages

/-! ## Flows and jobs -/

/-- The window, and the names in the user table. -/
structure Config where
  windowMs : ℕ
  /-- The settings are refused at boot otherwise. -/
  le_windowMs : 1000 ≤ windowMs
  userName : Uuid → Option String

/-- The lower bound a tick hands to its flows. -/
def Config.since (config : Config) (now : Instant) : ℤ := now.val - config.windowMs

/-- The window boundary below a moment. -/
def Config.bucketStart (config : Config) (now : Instant) : ℤ :=
  now.val / config.windowMs * config.windowMs

inductive Stage where
  | fetch
  | generate
  | save
  | publish
  | root
deriving DecidableEq

/-- The stage that reads the return value. -/
def Stage.parent : Stage → Option Stage
  | .fetch => some .generate
  | .generate => some .save
  | .save => some .publish
  | .publish => some .root
  | .root => none

/-- The leaf of a flow has no child. -/
theorem Stage.parent_ne_fetch (stage : Stage) : stage.parent ≠ some .fetch := by
  cases stage <;> decide

/-- The stages that fail with a stage. -/
def Stage.withAncestors : Stage → List Stage
  | .fetch => [.fetch, .generate, .save, .publish, .root]
  | .generate => [.generate, .save, .publish, .root]
  | .save => [.save, .publish, .root]
  | .publish => [.publish, .root]
  | .root => [.root]

/-- `stageJobId`. -/
structure JobId where
  stage : Stage
  groupId : Uuid
  bucketStart : ℤ
deriving DecidableEq

/-- What a tick adds for one group. -/
structure Flow where
  groupId : Uuid
  since : ℤ
  bucketStart : ℤ
deriving DecidableEq

structure TranscriptLine where
  sender : String
  content : String
deriving DecidableEq

/-- The lower bound of a flow, and how many summaries its group had got when its guard
was asked. -/
structure Origin where
  since : ℤ
  saves : ℕ
deriving DecidableEq

inductive SkipReason where
  | exists
  | empty
  | blank
deriving DecidableEq

/-- The return values of the stages. -/
inductive StageResult where
  /-- `fetch` or `generate` has skipped. -/
  | skipped (reason : SkipReason)
  | transcript (groupId : Uuid) (lines : List TranscriptLine) (origin : Origin)
  | summary (groupId : Uuid) (summaryText : String) (origin : Origin)
  /-- `save` has skipped. -/
  | notSaved
  | saved (message : Message)
  | published (published : Bool)
  | done (published : Bool)
deriving DecidableEq

/-- How far a handler has come. -/
inductive Progress where
  | begun
  /-- `fetch`, between its two queries. -/
  | guarded (origin : Origin)
  /-- The handler is over and the job is not yet completed. -/
  | finished (result : StageResult)
deriving DecidableEq

inductive Status where
  | waitingChildren
  | waiting
  | active (progress : Progress)
  | failed
deriving DecidableEq

structure Job where
  /-- The payload of a fetch job. -/
  since : ℤ
  attemptsMade : ℕ
  /-- What the child returned. -/
  child : Option StageResult
  status : Status
deriving DecidableEq

/-- `attempts`. -/
def maxAttempts : ℕ := 3

/-- A job as `buildSummaryFlow` describes it. -/
def newJob (f : Flow) (stage : Stage) : Job where
  since := f.since
  attemptsMade := 0
  child := none
  status := if stage = .fetch then .waiting else .waitingChildren

/-! ## The queues -/

abbrev Jobs := JobId → Option Job

/-- `flow.add`: a job whose id is taken is left as it is. -/
def addFlow (jobs : Jobs) (f : Flow) : Jobs := fun j =>
  match jobs j with
  | some job => some job
  | none =>
    if j.groupId = f.groupId ∧ j.bucketStart = f.bucketStart then some (newJob f j.stage) else none

/-- A job that waits for its child waits no longer. -/
def Status.release : Status → Status
  | .waitingChildren => .waiting
  | status => status

theorem Status.eq_active_of_release {status : Status} {p : Progress}
    (h : status.release = .active p) : status = .active p := by
  cases status with
  | waitingChildren => exact absurd h (by simp [Status.release])
  | waiting => exact h
  | active q => exact h
  | failed => exact h

/-- A completed job is removed, and its parent gets the return value. -/
def complete (jobs : Jobs) (j : JobId) (result : StageResult) : Jobs := fun k =>
  if k = j then none
  else if j.stage.parent = some k.stage ∧ k.groupId = j.groupId ∧ k.bucketStart = j.bucketStart then
    (jobs k).map fun parent => { parent with child := some result, status := parent.status.release }
  else jobs k

/-- A job that has failed for good takes its parents with it. -/
def failFlow (jobs : Jobs) (j : JobId) : Jobs := fun k =>
  if k.stage ∈ j.stage.withAncestors ∧ k.groupId = j.groupId ∧ k.bucketStart = j.bucketStart then
    (jobs k).map fun job => { job with status := .failed }
  else jobs k

/-! ## State -/

/-- The rows a fetch stage has read for a flow. -/
structure Transcript where
  groupId : Uuid
  since : ℤ
  rows : List Message

structure State where
  now : Instant
  /-- The message table, with the calls of the interactive service. -/
  messages : Messages.State
  /-- Flows that ticks under way have still to add. -/
  pending : List Flow
  jobs : Jobs
  saves : Uuid → ℕ
  lastTick : Option Instant
  transcripts : List Transcript
  /-- What has been published to the rooms. -/
  broadcasts : List Message

/-- Empty queues over any table. -/
def start (rows : MessageTable) (now : Instant) : State :=
  ⟨now, Messages.start rows, [], fun _ => none, fun _ => 0, none, [], []⟩

/-- `findActiveGroups`. -/
def findActiveGroups (rows : MessageTable) (since : ℤ) : List Uuid :=
  ((rows.rows.filter fun m => m.type = .user ∧ since ≤ m.createdAt.val).map Message.groupId).dedup

inductive Action where
  | advance (now : Instant)
  /-- A step of the interactive service. -/
  | message (a : Messages.Action)
  /-- A scheduled tick, or one of `POST /summaries/run`. -/
  | tick
  | addFlow (f : Flow)
  /-- `flow.add` throws, or the tick dies. -/
  | dropFlow (f : Flow)
  /-- A worker takes a job. -/
  | start (j : JobId)
  /-- A handler goes on: an insert takes its id from here, the model its answer. -/
  | work (j : JobId) (id : Uuid) (text : String)
  | complete (j : JobId)
  /-- A handler throws, or its worker dies. -/
  | fail (j : JobId)
  /-- A failed job is cleaned up. -/
  | expire (j : JobId)
deriving DecidableEq

/-! ## Handlers -/

/-- What a handler does besides returning. -/
inductive Effect where
  | nothing
  | read (transcript : Transcript)
  | insert (message : Message)
  | broadcast (message : Message)

/-- One line of the prompt. -/
def transcriptLine (config : Config) (m : Message) : TranscriptLine :=
  ⟨(m.senderId.bind config.userName).getD "Unknown", m.content⟩

/-- The handlers of the five stages, one statement at a time. -/
def handle (config : Config) (s : State) (j : JobId) (job : Job) (progress : Progress) (id : Uuid)
    (text : String) : Option (Progress × Effect) :=
  match j.stage, progress with
  | .fetch, .begun =>
    if hasSummarySince s.messages.rows j.groupId job.since then
      some (.finished (.skipped .exists), .nothing)
    else some (.guarded ⟨job.since, s.saves j.groupId⟩, .nothing)
  | .fetch, .guarded origin =>
    match findForSummary s.messages.rows j.groupId job.since with
    | [] => some (.finished (.skipped .empty), .nothing)
    | m :: rows =>
      some (.finished (.transcript j.groupId ((m :: rows).map (transcriptLine config)) origin),
        .read ⟨j.groupId, job.since, m :: rows⟩)
  | .generate, .begun =>
    match job.child with
    | some (.transcript groupId _ origin) =>
      if text = "" then some (.finished (.skipped .blank), .nothing)
      else some (.finished (.summary groupId text origin), .nothing)
    | some (.skipped reason) => some (.finished (.skipped reason), .nothing)
    | _ => some (.finished (.skipped .empty), .nothing)
  | .save, .begun =>
    match job.child with
    | some (.summary groupId summaryText _) =>
      match s.messages.rows.find? id with
      | some _ => none
      | none =>
        let message := persistAiSummary groupId summaryText id s.now
        some (.finished (.saved message), .insert message)
    | _ => some (.finished .notSaved, .nothing)
  | .publish, .begun =>
    match job.child with
    | some (.saved message) => some (.finished (.published true), .broadcast message)
    | _ => some (.finished (.published false), .nothing)
  | .root, .begun =>
    match job.child with
    | some (.published published) => some (.finished (.done published), .nothing)
    | _ => some (.finished (.done false), .nothing)
  | _, _ => none

def State.setJob (s : State) (j : JobId) (job : Option Job) : State :=
  { s with jobs := Function.update s.jobs j job }

def State.apply (s : State) : Effect → State
  | .nothing => s
  | .read transcript => { s with transcripts := s.transcripts ++ [transcript] }
  | .insert m =>
    { s with
      messages := s.messages.post m
      saves := Function.update s.saves m.groupId (s.saves m.groupId + 1) }
  | .broadcast m => { s with broadcasts := s.broadcasts ++ [m] }

/-! ## Steps -/

/-- A statement of the interactive service happens now. -/
def AtNow (now : Instant) : Messages.Action → Prop
  | .statement _ _ t => t = now
  | _ => True

instance (now : Instant) : DecidablePred (AtNow now)
  | .statement _ _ t => inferInstanceAs (Decidable (t = now))
  | .request _ _ | .emit _ | .fault _ => isTrue trivial

/-- The flows a tick has to add: one for each active group. -/
def tickFlows (config : Config) (s : State) : List Flow :=
  (findActiveGroups s.messages.rows (config.since s.now)).map fun groupId =>
    ⟨groupId, config.since s.now, config.bucketStart s.now⟩

/-- One step of the pipeline, the clock or the interactive service. -/
def step (config : Config) (s : State) : Action → Option State
  | .advance now => if s.now ≤ now then some { s with now := now } else none
  | .message a =>
    if AtNow s.now a then
      (Messages.step s.messages a).map fun messages => { s with messages := messages }
    else none
  | .tick =>
    some { s with pending := s.pending ++ tickFlows config s, lastTick := some s.now }
  | .addFlow f =>
    if f ∈ s.pending then
      some { s with pending := s.pending.erase f, jobs := addFlow s.jobs f }
    else none
  | .dropFlow f =>
    if f ∈ s.pending then some { s with pending := s.pending.erase f } else none
  | .start j =>
    match s.jobs j with
    | some ⟨since, attemptsMade, child, .waiting⟩ =>
      some (s.setJob j (some ⟨since, attemptsMade + 1, child, .active .begun⟩))
    | _ => none
  | .work j id text =>
    match s.jobs j with
    | some ⟨since, attemptsMade, child, .active progress⟩ =>
      (handle config s j ⟨since, attemptsMade, child, .active progress⟩ progress id text).map
        fun e => (s.apply e.2).setJob j (some ⟨since, attemptsMade, child, .active e.1⟩)
    | _ => none
  | .complete j =>
    match s.jobs j with
    | some ⟨_, _, _, .active (.finished result)⟩ =>
      some { s with jobs := complete s.jobs j result }
    | _ => none
  | .fail j =>
    match s.jobs j with
    | some ⟨since, attemptsMade, child, .active _⟩ =>
      if attemptsMade < maxAttempts then
        some (s.setJob j (some ⟨since, attemptsMade, child, .waiting⟩))
      else some { s with jobs := failFlow s.jobs j }
    | _ => none
  | .expire j =>
    match s.jobs j with
    | some ⟨_, _, _, .failed⟩ => some (s.setJob j none)
    | _ => none

/-! ## What a step can do -/

/-- **The steps**, with what each leaves alone: the last case is every action that
touches the queues and nothing else. -/
inductive StepCase (config : Config) (s t : State) (a : Action) : Prop where
  | advance {now} (ha : a = .advance now) (hnow : s.now ≤ now) (ht : t = { s with now := now })
  | message {b messages} (ha : a = .message b) (hat : AtNow s.now b)
      (hb : Messages.step s.messages b = some messages) (ht : t = { s with messages := messages })
  | tick (ha : a = .tick)
      (ht : t = { s with pending := s.pending ++ tickFlows config s, lastTick := some s.now })
  | addFlow {f} (ha : a = .addFlow f) (hf : f ∈ s.pending)
      (ht : t = { s with pending := s.pending.erase f, jobs := addFlow s.jobs f })
  | dropFlow {f} (ha : a = .dropFlow f) (hf : f ∈ s.pending)
      (ht : t = { s with pending := s.pending.erase f })
  | work {j id text since n child p p' e} (ha : a = .work j id text)
      (hs : s.jobs j = some ⟨since, n, child, .active p⟩)
      (hhandle : handle config s j ⟨since, n, child, .active p⟩ p id text = some (p', e))
      (ht : t = (s.apply e).setJob j (some ⟨since, n, child, .active p'⟩))
  | queues {jobs} (ht : t = { s with jobs := jobs })

theorem stepCase_of_step {config : Config} {s t : State} {a : Action}
    (h : step config s a = some t) : StepCase config s t a := by
  cases a with
  | advance now =>
    simp only [step] at h
    split at h
    · next hnow => exact .advance rfl hnow (Option.some.inj h).symm
    · exact absurd h (by simp)
  | message b =>
    simp only [step] at h
    split at h
    · next hat =>
      obtain ⟨messages, hb, ht⟩ := Option.map_eq_some_iff.mp h
      exact .message rfl hat hb ht.symm
    · exact absurd h (by simp)
  | tick => exact .tick rfl (Option.some.inj h).symm
  | addFlow f =>
    simp only [step] at h
    split at h
    · next hf => exact .addFlow rfl hf (Option.some.inj h).symm
    · exact absurd h (by simp)
  | dropFlow f =>
    simp only [step] at h
    split at h
    · next hf => exact .dropFlow rfl hf (Option.some.inj h).symm
    · exact absurd h (by simp)
  | start j =>
    simp only [step] at h
    split at h
    · exact .queues (Option.some.inj h).symm
    · exact absurd h (by simp)
  | work j id text =>
    simp only [step] at h
    split at h
    · next hs =>
      obtain ⟨⟨p', e⟩, hhandle, ht⟩ := Option.map_eq_some_iff.mp h
      exact .work rfl hs hhandle ht.symm
    · exact absurd h (by simp)
  | complete j =>
    simp only [step] at h
    split at h
    · exact .queues (Option.some.inj h).symm
    · exact absurd h (by simp)
  | fail j =>
    simp only [step] at h
    split at h
    · split at h
      · exact .queues (Option.some.inj h).symm
      · exact .queues (Option.some.inj h).symm
    · exact absurd h (by simp)
  | expire j =>
    simp only [step] at h
    split at h
    · exact .queues (Option.some.inj h).symm
    · exact absurd h (by simp)

/-- The step of a handler, from the job it works on. -/
theorem work_of_step {config : Config} {s t : State} {j : JobId} {id : Uuid} {text : String}
    {since : ℤ} {n : ℕ} {child : Option StageResult} {p : Progress}
    (h : step config s (.work j id text) = some t)
    (hjob : s.jobs j = some ⟨since, n, child, .active p⟩) :
    ∃ p' e, handle config s j ⟨since, n, child, .active p⟩ p id text = some (p', e) ∧
      t = (s.apply e).setJob j (some ⟨since, n, child, .active p'⟩) := by
  simp only [step, hjob] at h
  obtain ⟨⟨p', e⟩, hhandle, ht⟩ := Option.map_eq_some_iff.mp h
  exact ⟨p', e, hhandle, ht.symm⟩

/-! ## What a step can do to one job -/

/-- **The life of a job**, one step of the pipeline at a time. -/
inductive JobStep (config : Config) (s t : State) (a : Action) (j : JobId) : Prop where
  | same (ht : t.jobs j = s.jobs j)
  | added {f} (ha : a = .addFlow f) (hf : f ∈ s.pending) (hgroup : j.groupId = f.groupId)
      (hbucket : j.bucketStart = f.bucketStart) (hs : s.jobs j = none)
      (ht : t.jobs j = some (newJob f j.stage))
  | started {since n child} (ha : a = .start j) (hs : s.jobs j = some ⟨since, n, child, .waiting⟩)
      (ht : t.jobs j = some ⟨since, n + 1, child, .active .begun⟩)
  | worked {since n child p p' e id text} (ha : a = .work j id text)
      (hs : s.jobs j = some ⟨since, n, child, .active p⟩)
      (hhandle : handle config s j ⟨since, n, child, .active p⟩ p id text = some (p', e))
      (happly : t = (s.apply e).setJob j (some ⟨since, n, child, .active p'⟩))
      (ht : t.jobs j = some ⟨since, n, child, .active p'⟩)
  | completed {since n child result} (ha : a = .complete j)
      (hs : s.jobs j = some ⟨since, n, child, .active (.finished result)⟩) (ht : t.jobs j = none)
  | received {k since n child result parent} (ha : a = .complete k)
      (hk : s.jobs k = some ⟨since, n, child, .active (.finished result)⟩)
      (hstage : k.stage.parent = some j.stage) (hgroup : j.groupId = k.groupId)
      (hs : s.jobs j = some parent)
      (ht : t.jobs j =
        some { parent with child := some result, status := parent.status.release })
  | retried {since n child p} (ha : a = .fail j)
      (hs : s.jobs j = some ⟨since, n, child, .active p⟩)
      (ht : t.jobs j = some ⟨since, n, child, .waiting⟩)
  | failed {k job} (ha : a = .fail k) (hs : s.jobs j = some job)
      (ht : t.jobs j = some { job with status := .failed })
  | expired {job} (ha : a = .expire j) (hs : s.jobs j = some job) (hjob : job.status = .failed)
      (ht : t.jobs j = none)

theorem jobs_apply (s : State) (e : Effect) : (s.apply e).jobs = s.jobs := by
  cases e <;> rfl

/-- A step is one stage in the life of any job. -/
theorem jobStep_of_step {config : Config} {s t : State} {a : Action}
    (h : step config s a = some t) (j : JobId) : JobStep config s t a j := by
  cases a with
  | advance now =>
    simp only [step] at h
    split at h
    · rw [← Option.some.inj h]
      exact .same rfl
    · exact absurd h (by simp)
  | message a =>
    simp only [step] at h
    split at h
    · obtain ⟨messages, -, rfl⟩ := Option.map_eq_some_iff.mp h
      exact .same rfl
    · exact absurd h (by simp)
  | tick =>
    rw [← Option.some.inj h]
    exact .same rfl
  | addFlow f =>
    simp only [step] at h
    split at h
    · next hf =>
      obtain rfl := Option.some.inj h
      cases hj : s.jobs j with
      | some job => exact .same (by simp only [addFlow, hj])
      | none =>
        by_cases hid : j.groupId = f.groupId ∧ j.bucketStart = f.bucketStart
        · exact .added rfl hf hid.1 hid.2 hj (by simp only [addFlow, hj, if_pos hid])
        · exact .same (by simp only [addFlow, hj, if_neg hid])
    · exact absurd h (by simp)
  | dropFlow f =>
    simp only [step] at h
    split at h
    · rw [← Option.some.inj h]
      exact .same rfl
    · exact absurd h (by simp)
  | start k =>
    simp only [step] at h
    split at h
    · next since n child hk =>
      obtain rfl := Option.some.inj h
      by_cases hj : j = k
      · subst hj
        exact .started rfl hk (Function.update_self ..)
      · exact .same (Function.update_of_ne hj ..)
    · exact absurd h (by simp)
  | work k id text =>
    simp only [step] at h
    split at h
    · next since n child p hk =>
      obtain ⟨⟨p', e⟩, hhandle, rfl⟩ := Option.map_eq_some_iff.mp h
      by_cases hj : j = k
      · subst hj
        exact .worked rfl hk hhandle rfl (Function.update_self ..)
      · refine .same ?_
        show Function.update (s.apply e).jobs k _ j = s.jobs j
        rw [Function.update_of_ne hj, jobs_apply]
    · exact absurd h (by simp)
  | complete k =>
    simp only [step] at h
    split at h
    · next since n child result hk =>
      obtain rfl := Option.some.inj h
      by_cases hj : j = k
      · subst hj
        exact .completed rfl hk (by simp only [complete, if_pos])
      · by_cases hparent : k.stage.parent = some j.stage ∧ j.groupId = k.groupId ∧
            j.bucketStart = k.bucketStart
        · cases hjob : s.jobs j with
          | none => exact .same (by simp only [complete, if_neg hj, if_pos hparent, hjob,
              Option.map_none])
          | some parent =>
            exact .received rfl hk hparent.1 hparent.2.1 hjob
              (by simp only [complete, if_neg hj, if_pos hparent, hjob, Option.map_some])
        · exact .same (by simp only [complete, if_neg hj, if_neg hparent])
    · exact absurd h (by simp)
  | fail k =>
    simp only [step] at h
    split at h
    · next since n child p hk =>
      split at h
      · obtain rfl := Option.some.inj h
        by_cases hj : j = k
        · subst hj
          exact .retried rfl hk (Function.update_self ..)
        · exact .same (Function.update_of_ne hj ..)
      · obtain rfl := Option.some.inj h
        by_cases hflow : j.stage ∈ k.stage.withAncestors ∧ j.groupId = k.groupId ∧
            j.bucketStart = k.bucketStart
        · cases hjob : s.jobs j with
          | none => exact .same (by simp only [failFlow, if_pos hflow, hjob, Option.map_none])
          | some job =>
            exact .failed rfl hjob (by simp only [failFlow, if_pos hflow, hjob, Option.map_some])
        · exact .same (by simp only [failFlow, if_neg hflow])
    · exact absurd h (by simp)
  | expire k =>
    simp only [step] at h
    split at h
    · next since n child hk =>
      obtain rfl := Option.some.inj h
      by_cases hj : j = k
      · subst hj
        exact .expired rfl hk rfl (Function.update_self ..)
      · exact .same (Function.update_of_ne hj ..)
    · exact absurd h (by simp)

end Summary
end GroupChat

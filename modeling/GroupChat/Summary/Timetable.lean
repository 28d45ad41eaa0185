import GroupChat.Summary.NoDuplicate
import Mathlib.Algebra.Order.Ring.Int
import Mathlib.Tactic.Positivity
import Mathlib.Tactic.Ring

/-!
# Ticks on a timetable

The pipeline as it is meant to run: the window is as long as the interval between
ticks, every tick comes on the minute, every flow is added and no stage fails, the
model answers, and a summary is saved before the next tick.  `OnTime` is that, as a
condition on each step.

Under it the flows of a group are told apart by their lower bounds, which lie whole
windows apart (`Ticked`).  `FlowInv` collects what follows: a flow that still waits
for its guard (`Queued`) is there once, and nothing it will return is in the queues
yet; a summary posted since the latest tick is that of the latest flow.
-/

namespace GroupChat
namespace Summary

open Database Messages Transition

variable (config : Config) (firstTick : ℤ)

/-! ## The timetable -/

/-- When the next tick is due. -/
def nextTick (s : State) : ℤ :=
  match s.lastTick with
  | none => firstTick
  | some t => t.val + config.windowMs

/-- The text the job is about to save is saved before the next tick after its flow. -/
def Job.SavedInTime (now : Instant) (job : Job) : Prop :=
  match job.child with
  | some (.summary _ _ origin) => now.val < origin.since + 2 * config.windowMs
  | _ => True

instance (now : Instant) (job : Job) : Decidable (job.SavedInTime config now) := by
  unfold Job.SavedInTime
  split <;> infer_instance

/-- A step of a run on the timetable. -/
def OnTime (s : State) : Action → Prop
  | .advance now => now.val ≤ nextTick config firstTick s
  | .tick => s.now.val = nextTick config firstTick s
  | .addFlow f => s.jobs ⟨.fetch, f.groupId, f.bucketStart⟩ = none
  | .dropFlow _ => False
  | .fail _ => False
  | .work j _ text =>
    (j.stage = .generate → text ≠ "") ∧
      (j.stage = .save → ∀ job ∈ s.jobs j, job.SavedInTime config s.now)
  | _ => True

instance (s : State) : DecidablePred (OnTime config firstTick s)
  | .advance now => inferInstanceAs (Decidable (now.val ≤ nextTick config firstTick s))
  | .tick => inferInstanceAs (Decidable (s.now.val = nextTick config firstTick s))
  | .addFlow f =>
    inferInstanceAs (Decidable (s.jobs ⟨.fetch, f.groupId, f.bucketStart⟩ = none))
  | .dropFlow _ | .fail _ => isFalse id
  | .work j _ text =>
    inferInstanceAs (Decidable ((j.stage = .generate → text ≠ "") ∧
      (j.stage = .save → ∀ job ∈ s.jobs j, job.SavedInTime config s.now)))
  | .message _ | .start _ | .complete _ | .expire _ => isTrue trivial

/-! ## Lower bounds -/

/-- The lower bound of a flow that a tick has come to: whole windows before the latest
tick. -/
def Ticked (s : State) (since : ℤ) : Prop :=
  ∃ t ∈ s.lastTick, ∃ k : ℕ, t.val = since + config.windowMs + k * config.windowMs

/-- The bucket of a flow, from its lower bound. -/
def bucketOf (since : ℤ) : ℤ := (since + config.windowMs) / config.windowMs * config.windowMs

variable {config firstTick}

theorem windowMs_pos : (0 : ℤ) < config.windowMs := by
  have h := config.le_windowMs
  omega

theorem Ticked.le {s : State} {since : ℤ} {t : Instant} (h : Ticked config s since)
    (ht : s.lastTick = some t) : since + config.windowMs ≤ t.val := by
  obtain ⟨t', ht', k, hk⟩ := h
  obtain rfl : t = t' := Option.some.inj (ht.symm.trans ht')
  have hpos : (0 : ℤ) ≤ k * config.windowMs := by positivity
  omega

/-- **Flows lie whole windows apart.** -/
theorem Ticked.add_le {s : State} {since since' : ℤ} (h : Ticked config s since)
    (h' : Ticked config s since') (hlt : since < since') :
    since + config.windowMs ≤ since' := by
  obtain ⟨t, ht, k, hk⟩ := h
  obtain ⟨t', ht', k', hk'⟩ := h'
  obtain rfl : t = t' := Option.some.inj (ht.symm.trans ht')
  have hk_lt : k' < k := by
    by_contra hle
    have : (k : ℤ) * config.windowMs ≤ k' * config.windowMs :=
      mul_le_mul_of_nonneg_right (by omega) windowMs_pos.le
    omega
  have hone : ((k' : ℤ) + 1) * config.windowMs ≤ k * config.windowMs :=
    mul_le_mul_of_nonneg_right (by omega) windowMs_pos.le
  have hexpand : ((k' : ℤ) + 1) * config.windowMs = k' * config.windowMs + config.windowMs := by
    ring
  omega

/-- Buckets tell flows apart. -/
theorem Ticked.eq_of_bucketOf {s : State} {since since' : ℤ} (h : Ticked config s since)
    (h' : Ticked config s since') (hbucket : bucketOf config since = bucketOf config since') :
    since = since' := by
  have hmono : ∀ a b : ℤ, a + config.windowMs ≤ b → bucketOf config a < bucketOf config b := by
    intro a b hab
    have hdiv : (a + config.windowMs) / config.windowMs + 1 ≤
        (b + config.windowMs) / config.windowMs := by
      have hstep : (a + config.windowMs + config.windowMs) / (config.windowMs : ℤ) =
          (a + config.windowMs) / config.windowMs + 1 :=
        Int.add_ediv_of_dvd_right (dvd_refl _) |>.trans (by rw [Int.ediv_self windowMs_pos.ne'])
      rw [← hstep]
      exact Int.ediv_le_ediv windowMs_pos (by omega)
    exact mul_lt_mul_of_pos_right (by omega) windowMs_pos
  rcases lt_trichotomy since since' with hlt | heq | hlt
  · exact absurd hbucket (hmono _ _ (h.add_le h' hlt)).ne
  · exact heq
  · exact absurd hbucket.symm (hmono _ _ (h'.add_le h hlt)).ne

theorem bucketOf_since (now : Instant) :
    config.bucketStart now = bucketOf config (config.since now) := by
  unfold Config.bucketStart bucketOf Config.since
  rw [sub_add_cancel]

/-! ## The clock between two ticks -/

/-- What a step of the timetable does to the clock and the latest tick. -/
theorem clock_of_step {s t : State} {a : Action} (h : step config s a = some t)
    (hon : OnTime config firstTick s a) :
    (t.lastTick = s.lastTick ∧ (t.now = s.now ∨ (s.now ≤ t.now ∧
        t.now.val ≤ nextTick config firstTick s))) ∨
      (a = .tick ∧ t.lastTick = some s.now ∧ t.now = s.now ∧
        s.now.val = nextTick config firstTick s) := by
  cases stepCase_of_step h with
  | advance ha hnow ht =>
    subst ha
    rw [ht]
    exact Or.inl ⟨rfl, Or.inr ⟨hnow, hon⟩⟩
  | message _ _ _ ht =>
    rw [ht]
    exact Or.inl ⟨rfl, Or.inl rfl⟩
  | tick ha ht =>
    subst ha
    rw [ht]
    exact Or.inr ⟨rfl, rfl, rfl, hon⟩
  | addFlow _ _ ht =>
    rw [ht]
    exact Or.inl ⟨rfl, Or.inl rfl⟩
  | dropFlow _ _ ht =>
    rw [ht]
    exact Or.inl ⟨rfl, Or.inl rfl⟩
  | @work _ _ _ _ _ _ _ _ e _ _ _ ht =>
    rw [ht]
    cases e <;> exact Or.inl ⟨rfl, Or.inl rfl⟩
  | queues ht =>
    rw [ht]
    exact Or.inl ⟨rfl, Or.inl rfl⟩

/-- A tick that is due comes one window after the latest one. -/
theorem Ticked.add_le_now {s : State} {since : ℤ} (h : Ticked config s since)
    (hdue : s.now.val = nextTick config firstTick s) :
    since + 2 * config.windowMs ≤ s.now.val := by
  obtain ⟨t, ht, -⟩ := id h
  have hle := h.le ht
  rw [hdue, nextTick, ht]
  show since + 2 * (config.windowMs : ℤ) ≤ t.val + config.windowMs
  omega

theorem Ticked.of_step {s t : State} {a : Action} {since : ℤ} (hT : Ticked config s since)
    (h : step config s a = some t) (hon : OnTime config firstTick s a) :
    Ticked config t since := by
  rcases clock_of_step h hon with ⟨hlast, -⟩ | ⟨-, hlast, -, hdue⟩
  · unfold Ticked
    rw [hlast]
    exact hT
  · obtain ⟨t₀, ht₀, k, hk⟩ := hT
    refine ⟨s.now, hlast, k + 1, ?_⟩
    rw [hdue, nextTick, show s.lastTick = some t₀ from ht₀]
    show t₀.val + (config.windowMs : ℤ) = _
    rw [hk]
    push_cast
    ring

/-- What a tick adds, it has come to. -/
theorem ticked_of_mem_tickFlows {s t : State} {f : Flow} (hf : f ∈ tickFlows config s)
    (hlast : t.lastTick = some s.now) : Ticked config t f.since := by
  refine ⟨s.now, hlast, 0, ?_⟩
  rw [since_of_mem_tickFlows hf]
  push_cast
  ring

theorem bucketStart_of_mem_tickFlows {s : State} {f : Flow} (hf : f ∈ tickFlows config s) :
    f.bucketStart = bucketOf config f.since := by
  obtain ⟨g, -, rfl⟩ := List.mem_map.mp hf
  exact bucketOf_since s.now

/-! ## The phases of a flow -/

/-- The job is not past the guard. -/
def Job.Idle (job : Job) : Prop := job.status = .waiting ∨ job.status = .active .begun

/-- The flow waits for its guard: it is to be added, or its fetch stage has not come so
far. -/
def Queued (s : State) (g : Uuid) (since : ℤ) : Prop :=
  (∃ f ∈ s.pending, f.groupId = g ∧ f.since = since) ∨
    ∃ j job, s.jobs j = some job ∧ j.stage = .fetch ∧ j.groupId = g ∧ job.since = since ∧ job.Idle

/-- The fetch stage stands between its two queries. -/
def Guarded (s : State) (g : Uuid) (since : ℤ) : Prop :=
  ∃ j n child origin, s.jobs j = some ⟨since, n, child, .active (.guarded origin)⟩ ∧
    j.stage = .fetch ∧ j.groupId = g

/-- The fetch stage has read a transcript. -/
def Taken (s : State) (g : Uuid) (since : ℤ) : Prop :=
  ∃ tr ∈ s.transcripts, tr.groupId = g ∧ tr.since = since

/-- An origin is in a return value. -/
def Returned (s : State) (x : Uuid × Origin) : Prop :=
  ∃ j job, s.jobs j = some job ∧ (job.child.bind StageResult.origin = some x ∨
    ∃ result, job.status = .active (.finished result) ∧ result.origin = some x)

/-- No handler goes back to its start. -/
theorem ne_begun_of_handle {s : State} {j : JobId} {job : Job} {p p' : Progress} {id : Uuid}
    {text : String} {e : Effect} (h : handle config s j job p id text = some (p', e)) :
    p' ≠ .begun := by
  cases handled_of_handle h with
  | guarded | read | generated | inserted | broadcast | ended => simp

/-- **No flow waits for its guard twice.**  One that waits after a step of the timetable
waited before, or the step is the tick that has come to it. -/
theorem queued_of_step {s t : State} {a : Action} {g : Uuid} {since : ℤ}
    (h : step config s a = some t) (hon : OnTime config firstTick s a)
    (hq : Queued t g since) :
    Queued s g since ∨ (a = .tick ∧ since = s.now.val - config.windowMs) := by
  rcases hq with ⟨f, hf, hg, hsince⟩ | ⟨j, job, hjob, hstage, hg, hsince, hidle⟩
  · rcases mem_pending_of_step h hf with hf | ⟨ha, hf⟩
    · exact Or.inl (Or.inl ⟨f, hf, hg, hsince⟩)
    · exact Or.inr ⟨ha, by rw [← hsince, since_of_mem_tickFlows hf]⟩
  · refine Or.inl ?_
    cases jobStep_of_step h j with
    | same ht => exact Or.inr ⟨j, job, by rw [← ht, hjob], hstage, hg, hsince, hidle⟩
    | added _ hf hgroup _ _ ht =>
      obtain rfl := Option.some.inj (hjob.symm.trans ht)
      exact Or.inl ⟨_, hf, hgroup.symm.trans hg, hsince⟩
    | started _ hs ht =>
      obtain rfl := Option.some.inj (hjob.symm.trans ht)
      exact Or.inr ⟨j, _, hs, hstage, hg, hsince, Or.inl rfl⟩
    | worked _ _ hhandle _ ht =>
      obtain rfl := Option.some.inj (hjob.symm.trans ht)
      rcases hidle with hw | hb
      · exact absurd hw (by simp)
      · exact absurd (Status.active.inj hb) (ne_begun_of_handle hhandle)
    | completed _ _ ht => exact absurd ht (by rw [hjob]; simp)
    | @received k _ _ _ _ _ _ _ hparent _ _ _ =>
      rw [hstage] at hparent
      exact absurd hparent k.stage.parent_ne_fetch
    | retried ha _ _ =>
      subst ha
      exact hon.elim
    | failed ha _ _ =>
      subst ha
      exact hon.elim
    | expired _ _ _ ht => exact absurd ht (by rw [hjob]; simp)

/-- A return value has its origin from the child's, or the fetch stage has just read the
transcript. -/
theorem read_of_handle {s : State} {j : JobId} {job : Job} {p : Progress} {id : Uuid}
    {text : String} {e : Effect} {result : StageResult} {x : Uuid × Origin}
    (h : handle config s j job p id text = some (.finished result, e))
    (hx : result.origin = some x) :
    job.child.bind StageResult.origin = some x ∨
      ∃ rows, j.stage = .fetch ∧ p = .guarded x.2 ∧ x.1 = j.groupId ∧
        e = .read ⟨j.groupId, job.since, rows⟩ := by
  cases handled_of_handle h with
  | read hstage hprogress _ =>
    obtain rfl := Option.some.inj hx
    exact Or.inr ⟨_, hstage, hprogress, rfl, rfl⟩
  | generated hchild =>
    rw [hchild]
    exact Or.inl hx
  | inserted | broadcast => exact absurd hx (by simp [StageResult.origin])
  | ended horigin => exact absurd (horigin.symm.trans hx) (by simp)

/-- **What is returned has been read.**  An origin that is in a return value after a step
was so before, or the step is the second query of its fetch stage. -/
theorem returned_of_step {s t : State} {a : Action} {x : Uuid × Origin}
    (h : step config s a = some t) (hx : Returned t x) :
    Returned s x ∨ ∃ j since n child rows, j.stage = .fetch ∧ x.1 = j.groupId ∧
      s.jobs j = some ⟨since, n, child, .active (.guarded x.2)⟩ ∧
      t.transcripts = s.transcripts ++ [⟨j.groupId, since, rows⟩] := by
  obtain ⟨j, job, hjob, hx⟩ := hx
  -- A job whose child is as before and whose handler is not over.
  have hchild : ∀ {old new : Job}, s.jobs j = some old → t.jobs j = some new →
      new.child = old.child → (∀ result, new.status ≠ .active (.finished result)) →
      Returned s x := by
    intro old new hs ht hchild hstatus
    obtain rfl : job = new := Option.some.inj (hjob.symm.trans ht)
    rcases hx with hx | ⟨result, hresult, -⟩
    · rw [hchild] at hx
      exact ⟨j, old, hs, Or.inl hx⟩
    · exact absurd hresult (hstatus result)
  cases jobStep_of_step h j with
  | same ht => exact Or.inl ⟨j, job, by rw [← ht, hjob], hx⟩
  | added _ _ _ _ _ ht =>
    obtain rfl : job = newJob _ j.stage := Option.some.inj (hjob.symm.trans ht)
    rcases hx with hx | ⟨result, hresult, -⟩
    · exact absurd hx (by simp [newJob])
    · refine absurd hresult ?_
      unfold newJob
      split <;> simp
  | started _ hs ht => exact Or.inl (hchild hs ht rfl (by simp))
  | @worked since n child p p' e id text ha hs hhandle happly ht =>
    obtain rfl := Option.some.inj (hjob.symm.trans ht)
    rcases hx with hx | ⟨result, hresult, hx⟩
    · exact Or.inl ⟨j, _, hs, Or.inl hx⟩
    · obtain rfl : p' = .finished result := Status.active.inj hresult
      rcases read_of_handle hhandle hx with hx | ⟨rows, hstage, rfl, hg, rfl⟩
      · exact Or.inl ⟨j, _, hs, Or.inl hx⟩
      · refine Or.inr ⟨j, since, n, child, rows, hstage, hg, hs, ?_⟩
        rw [happly]
        rfl
  | completed _ _ ht => exact absurd ht (by rw [hjob]; simp)
  | received _ hk _ _ hs ht =>
    obtain rfl := Option.some.inj (hjob.symm.trans ht)
    rcases hx with hx | ⟨result, hresult, hx⟩
    · exact Or.inl ⟨_, _, hk, Or.inr ⟨_, rfl, hx⟩⟩
    · exact Or.inl ⟨j, _, hs, Or.inr ⟨result, Status.eq_active_of_release hresult, hx⟩⟩
  | retried _ hs ht => exact Or.inl (hchild hs ht rfl (by simp))
  | failed _ hs ht => exact Or.inl (hchild hs ht rfl (by simp))
  | expired _ _ _ ht => exact absurd ht (by rw [hjob]; simp)

/-! ## The invariant of the timetable -/

/-- What the timetable keeps of the flows. -/
structure FlowInv (config : Config) (firstTick : ℤ) (s : State) : Prop where
  userCalls : UserCalls s.messages
  now_le : s.now.val ≤ nextTick config firstTick s
  tick_le : ∀ t ∈ s.lastTick, t ≤ s.now
  nodup : s.pending.Nodup
  pending : ∀ f ∈ s.pending, Ticked config s f.since ∧ f.bucketStart = bucketOf config f.since
  jobs : ∀ j job, s.jobs j = some job →
    Ticked config s job.since ∧ j.bucketStart = bucketOf config job.since
  pending_free : ∀ f ∈ s.pending, s.jobs ⟨.fetch, f.groupId, f.bucketStart⟩ = none
  guarded_since : ∀ j job origin, s.jobs j = some job → job.status = .active (.guarded origin) →
    origin.since = job.since
  carried : ∀ x, Carried s x → Ticked config s x.2.since
  not_queued : ∀ x, Carried s x → ¬Queued s x.1 x.2.since
  returned : ∀ x, Returned s x → Taken s x.1 x.2.since
  transcripts : ∀ tr ∈ s.transcripts, Ticked config s tr.since
  /-- No summary is from after the next tick. -/
  summaries : ∀ g, hasSummarySince s.messages.rows g (nextTick config firstTick s) = false
  /-- A summary from after the latest tick is that of the latest flow. -/
  latest : ∀ g, ∀ t ∈ s.lastTick, hasSummarySince s.messages.rows g t.val = true →
    Taken s g (t.val - config.windowMs)

/-- Rows from before the first tick, and empty queues. -/
theorem flowInv_start {rows : MessageTable} {now : Instant} (hnow : now.val ≤ firstTick)
    (hrows : ∀ m ∈ rows, m.createdAt.val < firstTick) :
    FlowInv config firstTick (start rows now) where
  userCalls := userCalls_start rows
  now_le := hnow
  tick_le t ht := absurd ht (by simp [start])
  nodup := List.nodup_nil
  pending f hf := absurd hf List.not_mem_nil
  jobs j job h := absurd h (by simp [start])
  pending_free f hf := absurd hf List.not_mem_nil
  guarded_since j job origin h := absurd h (by simp [start])
  carried x h := by
    obtain ⟨j, job, hjob, -⟩ := h
    exact absurd hjob (by simp [start])
  not_queued x h := by
    obtain ⟨j, job, hjob, -⟩ := h
    exact absurd hjob (by simp [start])
  returned x h := by
    obtain ⟨j, job, hjob, -⟩ := h
    exact absurd hjob (by simp [start])
  transcripts tr h := absurd h List.not_mem_nil
  summaries g := by
    rw [Bool.eq_false_iff, ne_eq, hasSummarySince_iff]
    rintro ⟨m, hm, -, -, hsince⟩
    have hlt : m.createdAt.val < firstTick := hrows m hm
    have hge : firstTick ≤ m.createdAt.val := hsince
    omega
  latest g t ht := absurd ht (by simp [start])

theorem nodup_tickFlows (s : State) : (tickFlows config s).Nodup := by
  refine (List.nodup_dedup _).map ?_
  intro g g' heq
  exact (Flow.mk.inj heq).1

/-- A flow a tick adds is a new one. -/
theorem not_ticked_of_due {s : State} (hdue : s.now.val = nextTick config firstTick s) {since : ℤ}
    (hsince : since = s.now.val - config.windowMs) : ¬Ticked config s since := by
  intro hT
  have hle := hT.add_le_now hdue
  have hpos := @windowMs_pos config
  omega

theorem FlowInv.now_le_of_step {s t : State} {a : Action} (hs : FlowInv config firstTick s)
    (h : step config s a = some t) (hon : OnTime config firstTick s a) :
    t.now.val ≤ nextTick config firstTick t := by
  rcases clock_of_step h hon with ⟨hlast, hnow | ⟨-, hnow⟩⟩ | ⟨-, hlast, hnow, -⟩
  · rw [nextTick, hlast, hnow]
    exact hs.now_le
  · rw [nextTick, hlast]
    exact hnow
  · rw [nextTick, hlast, hnow]
    show s.now.val ≤ s.now.val + config.windowMs
    omega

theorem FlowInv.tick_le_of_step {s t : State} {a : Action} (hs : FlowInv config firstTick s)
    (h : step config s a = some t) (hon : OnTime config firstTick s a) :
    ∀ u ∈ t.lastTick, u ≤ t.now := by
  intro u hu
  rcases clock_of_step h hon with ⟨hlast, hnow | ⟨hnow, -⟩⟩ | ⟨-, hlast, hnow, -⟩
  · rw [hlast] at hu
    rw [hnow]
    exact hs.tick_le u hu
  · rw [hlast] at hu
    exact (hs.tick_le u hu).trans hnow
  · rw [hlast] at hu
    obtain rfl := Option.some.inj hu
    rw [hnow]

/-- What a step of the timetable does to the flows still to be added. -/
theorem pending_cases {s t : State} {a : Action} (h : step config s a = some t)
    (hon : OnTime config firstTick s a) :
    t.pending = s.pending ∨
      (a = .tick ∧ t.pending = s.pending ++ tickFlows config s ∧ t.lastTick = some s.now ∧
        s.now.val = nextTick config firstTick s) ∨
      ∃ f ∈ s.pending, a = .addFlow f ∧ t.pending = s.pending.erase f := by
  cases stepCase_of_step h with
  | advance _ _ ht =>
    rw [ht]
    exact Or.inl rfl
  | message _ _ _ ht =>
    rw [ht]
    exact Or.inl rfl
  | tick ha ht =>
    subst ha
    rw [ht]
    exact Or.inr (Or.inl ⟨rfl, rfl, rfl, hon⟩)
  | addFlow ha hf ht =>
    rw [ht]
    exact Or.inr (Or.inr ⟨_, hf, ha, rfl⟩)
  | dropFlow ha _ _ =>
    subst ha
    exact hon.elim
  | @work _ _ _ _ _ _ _ _ e _ _ _ ht =>
    rw [ht]
    cases e <;> exact Or.inl rfl
  | queues ht =>
    rw [ht]
    exact Or.inl rfl

theorem FlowInv.nodup_of_step {s t : State} {a : Action} (hs : FlowInv config firstTick s)
    (h : step config s a = some t) (hon : OnTime config firstTick s a) : t.pending.Nodup := by
  rcases pending_cases h hon with hp | ⟨-, hp, -, hdue⟩ | ⟨f, -, -, hp⟩
  · rw [hp]
    exact hs.nodup
  · rw [hp]
    refine hs.nodup.append (nodup_tickFlows s) ?_
    intro f hf hnew
    exact not_ticked_of_due hdue (since_of_mem_tickFlows hnew) (hs.pending f hf).1
  · rw [hp]
    exact hs.nodup.erase f

theorem FlowInv.pending_of_step {s t : State} {a : Action} (hs : FlowInv config firstTick s)
    (h : step config s a = some t) (hon : OnTime config firstTick s a) :
    ∀ f ∈ t.pending, Ticked config t f.since ∧ f.bucketStart = bucketOf config f.since := by
  intro f hf
  rcases pending_cases h hon with hp | ⟨-, hp, hlast, -⟩ | ⟨f', -, -, hp⟩
  · rw [hp] at hf
    exact ⟨(hs.pending f hf).1.of_step h hon, (hs.pending f hf).2⟩
  · rw [hp, List.mem_append] at hf
    rcases hf with hf | hf
    · exact ⟨(hs.pending f hf).1.of_step h hon, (hs.pending f hf).2⟩
    · exact ⟨ticked_of_mem_tickFlows hf hlast, bucketStart_of_mem_tickFlows hf⟩
  · rw [hp] at hf
    have hf : f ∈ s.pending := List.mem_of_mem_erase hf
    exact ⟨(hs.pending f hf).1.of_step h hon, (hs.pending f hf).2⟩

theorem FlowInv.jobs_of_step {s t : State} {a : Action} (hs : FlowInv config firstTick s)
    (h : step config s a = some t) (hon : OnTime config firstTick s a) :
    ∀ j job, t.jobs j = some job →
      Ticked config t job.since ∧ j.bucketStart = bucketOf config job.since := by
  intro j job hjob
  rcases since_of_jobStep (jobStep_of_step h j) hjob with
    ⟨old, hold, hsince⟩ | ⟨f, hf, -, -, hbucket, -, rfl⟩
  · rw [hsince]
    exact ⟨(hs.jobs j old hold).1.of_step h hon, (hs.jobs j old hold).2⟩
  · exact ⟨(hs.pending f hf).1.of_step h hon, hbucket.trans (hs.pending f hf).2⟩

theorem pending_of_addFlow {s t : State} {f : Flow} (h : step config s (.addFlow f) = some t) :
    t.pending = s.pending.erase f := by
  simp only [step] at h
  split at h
  · rw [← Option.some.inj h]
  · exact absurd h (by simp)

/-- Two flows in the queues or still to be added are one if their ids agree. -/
theorem FlowInv.pending_free_of_step {s t : State} {a : Action} (hs : FlowInv config firstTick s)
    (h : step config s a = some t) (hon : OnTime config firstTick s a) :
    ∀ f ∈ t.pending, t.jobs ⟨.fetch, f.groupId, f.bucketStart⟩ = none := by
  intro f hf
  by_contra hne
  obtain ⟨job, hjob⟩ := Option.ne_none_iff_exists'.mp hne
  rcases since_of_jobStep (jobStep_of_step h _) hjob with
    ⟨old, hold, -⟩ | ⟨f', hf', rfl, hgroup, hbucket, -, -⟩
  · -- The id was taken before, so the flow has been added by a tick, and is a new one.
    rcases mem_pending_of_step h hf with hf | ⟨ha, hnew⟩
    · exact absurd (hs.pending_free f hf) (by rw [hold]; simp)
    · subst ha
      have hdue : s.now.val = nextTick config firstTick s := hon
      obtain ⟨hT, hb⟩ := hs.jobs _ old hold
      have hlast : t.lastTick = some s.now := by
        rw [← Option.some.inj h]
      have hT' : Ticked config t old.since := hT.of_step h hon
      have heq : old.since = f.since :=
        hT'.eq_of_bucketOf (ticked_of_mem_tickFlows hnew hlast)
          (hb.symm.trans (bucketStart_of_mem_tickFlows hnew))
      exact not_ticked_of_due hdue (since_of_mem_tickFlows hnew) (heq ▸ hT)
  · -- The step has added a flow under the id, and it was this one.
    rw [pending_of_addFlow h] at hf
    have hne' : f ≠ f' := fun heq => (hs.nodup.mem_erase_iff.mp hf).1 heq
    have hfs : f ∈ s.pending := List.mem_of_mem_erase hf
    have hgroup : f.groupId = f'.groupId := hgroup
    have hbucket : f.bucketStart = f'.bucketStart := hbucket
    obtain ⟨hT, hb⟩ := hs.pending f hfs
    obtain ⟨hT', hb'⟩ := hs.pending f' hf'
    have hsince : f.since = f'.since :=
      hT.eq_of_bucketOf hT' (hb.symm.trans (hbucket.trans hb'))
    cases f
    cases f'
    exact hne' (by rw [Flow.mk.injEq]; exact ⟨hgroup, hsince, hbucket⟩)

/-- A handler is between the two queries only after the guard has found no summary. -/
theorem guarded_of_handle {s : State} {j : JobId} {job : Job} {p : Progress} {id : Uuid}
    {text : String} {e : Effect} {origin : Origin}
    (h : handle config s j job p id text = some (.guarded origin, e)) :
    origin.since = job.since := by
  cases handled_of_handle h with
  | guarded => rfl

theorem FlowInv.guarded_since_of_step {s t : State} {a : Action} (hs : FlowInv config firstTick s)
    (h : step config s a = some t) (hon : OnTime config firstTick s a) :
    ∀ j job origin, t.jobs j = some job → job.status = .active (.guarded origin) →
      origin.since = job.since := by
  intro j job origin hjob hstatus
  cases jobStep_of_step h j with
  | same ht => exact hs.guarded_since j job origin (by rw [← ht, hjob]) hstatus
  | added _ _ _ _ _ ht =>
    obtain rfl := Option.some.inj (hjob.symm.trans ht)
    refine absurd hstatus ?_
    unfold newJob
    split <;> simp
  | started _ _ ht =>
    obtain rfl := Option.some.inj (hjob.symm.trans ht)
    exact absurd hstatus (by simp)
  | worked _ _ hhandle _ ht =>
    obtain rfl := Option.some.inj (hjob.symm.trans ht)
    obtain rfl := Status.active.inj hstatus
    exact guarded_of_handle hhandle
  | completed _ _ ht => exact absurd ht (by rw [hjob]; simp)
  | received _ _ _ _ hjs ht =>
    obtain rfl := Option.some.inj (hjob.symm.trans ht)
    have hold := hs.guarded_since j _ origin hjs (Status.eq_active_of_release hstatus)
    exact hold
  | retried ha _ _ =>
    subst ha
    exact hon.elim
  | failed ha _ _ =>
    subst ha
    exact hon.elim
  | expired _ _ _ ht => exact absurd ht (by rw [hjob]; simp)

theorem FlowInv.carried_of_step {s t : State} {a : Action} (hs : FlowInv config firstTick s)
    (h : step config s a = some t) (hon : OnTime config firstTick s a) :
    ∀ x, Carried t x → Ticked config t x.2.since := by
  intro x hx
  rcases Summary.carried_of_step h hx with hx | ⟨j, id, text, since, n, child, -, -, hjob, -, rfl⟩
  · exact (hs.carried x hx).of_step h hon
  · exact (hs.jobs j _ hjob).1.of_step h hon

/-- A flow whose guard has just passed waits no longer. -/
theorem FlowInv.not_queued_of_guardPasses {s t : State} {a : Action} {x : Uuid × Origin}
    (hs : FlowInv config firstTick s) (h : step config s a = some t)
    (hx : GuardPasses s a x) : ¬Queued t x.1 x.2.since := by
  obtain ⟨j, id, text, since, n, child, rfl, hstage, hjob, hguard, rfl⟩ := hx
  obtain ⟨p', e, hhandle, ht⟩ := work_of_step h hjob
  have hp' : p' = .guarded ⟨since, s.saves j.groupId⟩ ∧ e = .nothing := by
    simp only [handle, hstage, hguard, Bool.false_eq_true, if_false, Option.some.injEq,
      Prod.mk.injEq] at hhandle
    exact ⟨hhandle.1.symm, hhandle.2.symm⟩
  obtain ⟨rfl, rfl⟩ := hp'
  have hid : ∀ b : ℤ, b = bucketOf config since → (⟨.fetch, j.groupId, b⟩ : JobId) = j := by
    intro b hb
    cases j
    rw [JobId.mk.injEq]
    exact ⟨hstage.symm, rfl, hb.trans (hs.jobs _ _ hjob).2.symm⟩
  rintro (⟨f, hf, hg, hsince⟩ | ⟨k, job, hk, hkstage, hkg, hksince, hidle⟩)
  · rw [ht] at hf
    have hf : f ∈ s.pending := hf
    have hfree := hs.pending_free f hf
    have hfid : (⟨.fetch, f.groupId, f.bucketStart⟩ : JobId) = j := by
      rw [show f.groupId = j.groupId from hg]
      refine hid _ ?_
      rw [(hs.pending f hf).2]
      exact congrArg _ hsince
    rw [hfid, hjob] at hfree
    exact absurd hfree (by simp)
  · by_cases hkj : k = j
    · subst hkj
      rw [ht] at hk
      simp only [State.setJob, Function.update_self, Option.some.injEq] at hk
      subst hk
      rcases hidle with hw | hb
      · exact absurd hw (by simp)
      · exact absurd hb (by simp)
    · rw [ht] at hk
      simp only [State.setJob, Function.update_of_ne hkj] at hk
      have hk : s.jobs k = some job := hk
      refine hkj ?_
      rw [← hid k.bucketStart ?_]
      · cases k
        rw [JobId.mk.injEq]
        exact ⟨hkstage, hkg, rfl⟩
      · rw [(hs.jobs k job hk).2]
        exact congrArg _ hksince

theorem FlowInv.not_queued_of_step {s t : State} {a : Action} (hs : FlowInv config firstTick s)
    (h : step config s a = some t) (hon : OnTime config firstTick s a) :
    ∀ x, Carried t x → ¬Queued t x.1 x.2.since := by
  intro x hx hq
  rcases Summary.carried_of_step h hx with hx | hguard
  · rcases queued_of_step h hon hq with hq | ⟨ha, hsince⟩
    · exact hs.not_queued x hx hq
    · subst ha
      exact not_ticked_of_due hon hsince (hs.carried x hx)
  · exact hs.not_queued_of_guardPasses h hguard hq

/-- What the second query of a fetch stage has read. -/
theorem transcript_of_handle {s : State} {j : JobId} {job : Job} {p p' : Progress} {id : Uuid}
    {text : String} {tr : Transcript}
    (h : handle config s j job p id text = some (p', .read tr)) :
    tr = ⟨j.groupId, job.since, findForSummary s.messages.rows j.groupId job.since⟩ := by
  cases handled_of_handle h with
  | read _ _ hrows => rw [hrows]

/-- Transcripts are added, one at a time, by the flows in the queues. -/
theorem transcripts_of_step {s t : State} {a : Action} (h : step config s a = some t) :
    t.transcripts = s.transcripts ∨ ∃ j job, s.jobs j = some job ∧
      t.transcripts = s.transcripts ++
        [⟨j.groupId, job.since, findForSummary s.messages.rows j.groupId job.since⟩] := by
  cases stepCase_of_step h with
  | advance _ _ ht =>
    rw [ht]
    exact Or.inl rfl
  | message _ _ _ ht =>
    rw [ht]
    exact Or.inl rfl
  | tick _ ht =>
    rw [ht]
    exact Or.inl rfl
  | addFlow _ _ ht =>
    rw [ht]
    exact Or.inl rfl
  | dropFlow _ _ ht =>
    rw [ht]
    exact Or.inl rfl
  | @work j _ _ _ _ _ _ _ e _ hjob hhandle ht =>
    rw [ht]
    cases e with
    | nothing => exact Or.inl rfl
    | read tr =>
      refine Or.inr ⟨j, _, hjob, ?_⟩
      rw [← transcript_of_handle hhandle]
      rfl
    | insert m => exact Or.inl rfl
    | broadcast m => exact Or.inl rfl
  | queues ht =>
    rw [ht]
    exact Or.inl rfl

theorem mem_transcripts_of_step {s t : State} {a : Action} {tr : Transcript}
    (h : step config s a = some t) (htr : tr ∈ s.transcripts) : tr ∈ t.transcripts := by
  rcases transcripts_of_step h with hsame | ⟨j, job, -, hnew⟩
  · rw [hsame]
    exact htr
  · rw [hnew]
    exact List.mem_append_left _ htr

theorem Taken.of_step {s t : State} {a : Action} {g : Uuid} {since : ℤ} (hT : Taken s g since)
    (h : step config s a = some t) : Taken t g since := by
  obtain ⟨tr, htr, hg, hsince⟩ := hT
  exact ⟨tr, mem_transcripts_of_step h htr, hg, hsince⟩

theorem FlowInv.transcripts_of_step {s t : State} {a : Action} (hs : FlowInv config firstTick s)
    (h : step config s a = some t) (hon : OnTime config firstTick s a) :
    ∀ tr ∈ t.transcripts, Ticked config t tr.since := by
  intro tr htr
  rcases Summary.transcripts_of_step h with hsame | ⟨j, job, hjob, hnew⟩
  · rw [hsame] at htr
    exact (hs.transcripts tr htr).of_step h hon
  · rw [hnew, List.mem_append, List.mem_singleton] at htr
    rcases htr with htr | rfl
    · exact (hs.transcripts tr htr).of_step h hon
    · exact (hs.jobs j job hjob).1.of_step h hon

theorem FlowInv.returned_of_step {s t : State} {a : Action} (hs : FlowInv config firstTick s)
    (h : step config s a = some t) : ∀ x, Returned t x → Taken t x.1 x.2.since := by
  intro x hx
  rcases Summary.returned_of_step h hx with
    hx | ⟨j, since, n, child, rows, hstage, hg, hjob, hnew⟩
  · exact (hs.returned x hx).of_step h
  · refine ⟨⟨j.groupId, since, rows⟩, ?_, hg.symm, ?_⟩
    · rw [hnew]
      exact List.mem_append_right _ (List.mem_singleton.mpr rfl)
    · exact (hs.guarded_since j _ x.2 hjob rfl).symm

/-! ## Saves -/

/-- What a save stage inserts is in a return value. -/
theorem returned_of_saves {s : State} {a : Action} {g : Uuid} {origin : Origin}
    (h : Saves s a g origin) : Returned s (g, origin) := by
  obtain ⟨j, id, text, since, n, content, -, -, hjob⟩ := h
  exact ⟨j, _, hjob, Or.inl rfl⟩

theorem carried_of_saves {s : State} {a : Action} {g : Uuid} {origin : Origin}
    (h : Saves s a g origin) : Carried s (g, origin) := by
  obtain ⟨j, id, text, since, n, content, -, -, hjob⟩ := h
  exact ⟨j, _, hjob, Or.inl rfl⟩

theorem now_lt_of_saves {s : State} {a : Action} {g : Uuid} {origin : Origin}
    (hon : OnTime config firstTick s a) (h : Saves s a g origin) :
    s.now.val < origin.since + 2 * config.windowMs := by
  obtain ⟨j, id, text, since, n, content, rfl, hstage, hjob⟩ := h
  exact hon.2 hstage _ hjob

/-- **A summary is saved for the latest tick**, before the next one. -/
theorem FlowInv.saves_latest {s : State} {a : Action} {g : Uuid} {origin : Origin}
    (hs : FlowInv config firstTick s) (hon : OnTime config firstTick s a)
    (h : Saves s a g origin) :
    ∃ t ∈ s.lastTick, origin.since = t.val - config.windowMs ∧
      s.now.val < nextTick config firstTick s := by
  have hlt := now_lt_of_saves hon h
  obtain ⟨t, ht, k, hk⟩ := hs.carried _ (carried_of_saves h)
  have hle : t.val ≤ s.now.val := hs.tick_le t ht
  have hk_zero : k = 0 := by
    by_contra hne
    have hone : (1 : ℤ) * config.windowMs ≤ k * config.windowMs :=
      mul_le_mul_of_nonneg_right (by omega) windowMs_pos.le
    have hk' : t.val = origin.since + config.windowMs + k * config.windowMs := hk
    omega
  have hk' : t.val = origin.since + config.windowMs + k * config.windowMs := hk
  rw [hk_zero] at hk'
  push_cast at hk'
  refine ⟨t, ht, by omega, ?_⟩
  rw [nextTick, show s.lastTick = some t from ht]
  show s.now.val < t.val + (config.windowMs : ℤ)
  omega

/-- A save is not a tick. -/
theorem lastTick_of_saves {s t : State} {a : Action} {g : Uuid} {origin : Origin}
    (h : step config s a = some t) (hon : OnTime config firstTick s a)
    (hsave : Saves s a g origin) : t.lastTick = s.lastTick := by
  rcases clock_of_step h hon with ⟨hlast, -⟩ | ⟨ha, -⟩
  · exact hlast
  · obtain ⟨j, id, text, since, n, content, ha', -⟩ := hsave
    rw [ha] at ha'
    exact absurd ha' (by simp)

theorem nextTick_le_of_step {s t : State} {a : Action} (h : step config s a = some t)
    (hon : OnTime config firstTick s a) :
    nextTick config firstTick s ≤ nextTick config firstTick t := by
  rcases clock_of_step h hon with ⟨hlast, -⟩ | ⟨-, hlast, -, hdue⟩
  · rw [nextTick, nextTick, hlast]
  · rw [← hdue, nextTick, hlast]
    show s.now.val ≤ s.now.val + config.windowMs
    omega

theorem FlowInv.summaries_of_step {s t : State} {a : Action} (hs : FlowInv config firstTick s)
    (h : step config s a = some t) (hon : OnTime config firstTick s a) :
    ∀ g, hasSummarySince t.messages.rows g (nextTick config firstTick t) = false := by
  intro g
  by_contra hne
  have hsummary : hasSummarySince t.messages.rows g (nextTick config firstTick s) = true :=
    hasSummarySince_of_le (nextTick_le_of_step h hon) (by simpa using hne)
  rcases outside_of_step hs.userCalls h with ⟨-, -, -, hsame⟩ |
    ⟨g', origin, content, id, hsave, hfree, -, hmessages, -⟩
  · rw [hsame, hs.summaries g] at hsummary
    exact absurd hsummary (by simp)
  · rw [hmessages, hasSummarySince_post hfree, hs.summaries g] at hsummary
    rcases hsummary with ⟨-, hle⟩ | hfalse
    · obtain ⟨_, -, -, hlt⟩ := hs.saves_latest hon hsave
      omega
    · exact absurd hfalse (by simp)

theorem FlowInv.latest_of_step {s t : State} {a : Action} (hs : FlowInv config firstTick s)
    (h : step config s a = some t) (hon : OnTime config firstTick s a) :
    ∀ g, ∀ u ∈ t.lastTick, hasSummarySince t.messages.rows g u.val = true →
      Taken t g (u.val - config.windowMs) := by
  intro g u hu hsummary
  rcases outside_of_step hs.userCalls h with ⟨-, -, -, hsame⟩ |
    ⟨g', origin, content, id, hsave, hfree, -, hmessages, -⟩
  · rw [hsame] at hsummary
    rcases clock_of_step h hon with ⟨hlast, -⟩ | ⟨-, hlast, -, hdue⟩
    · exact (hs.latest g u (hlast ▸ hu) hsummary).of_step h
    · obtain rfl : s.now = u := Option.some.inj (hlast.symm.trans hu)
      rw [hdue, hs.summaries g] at hsummary
      exact absurd hsummary (by simp)
  · have hu : u ∈ s.lastTick := (lastTick_of_saves h hon hsave) ▸ hu
    rw [hmessages, hasSummarySince_post hfree] at hsummary
    rcases hsummary with ⟨rfl, -⟩ | hold
    · obtain ⟨u', hu', hsince, -⟩ := hs.saves_latest hon hsave
      obtain rfl : u = u' := Option.some.inj (hu.symm.trans hu')
      rw [← hsince]
      exact (hs.returned _ (returned_of_saves hsave)).of_step h
    · exact (hs.latest g u hu hold).of_step h

/-- **One step on the timetable keeps the invariant.** -/
theorem flowInv_of_step {s t : State} {a : Action} (hs : FlowInv config firstTick s)
    (h : step config s a = some t) (hon : OnTime config firstTick s a) :
    FlowInv config firstTick t where
  userCalls := (outside_of_step hs.userCalls h).userCalls hs.userCalls
  now_le := hs.now_le_of_step h hon
  tick_le := hs.tick_le_of_step h hon
  nodup := hs.nodup_of_step h hon
  pending := hs.pending_of_step h hon
  jobs := hs.jobs_of_step h hon
  pending_free := hs.pending_free_of_step h hon
  guarded_since := hs.guarded_since_of_step h hon
  carried := hs.carried_of_step h hon
  not_queued := hs.not_queued_of_step h hon
  returned := hs.returned_of_step h
  transcripts := hs.transcripts_of_step h hon
  summaries := hs.summaries_of_step h hon
  latest := hs.latest_of_step h hon

end Summary
end GroupChat

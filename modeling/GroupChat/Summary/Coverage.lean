import GroupChat.Summary.Timetable

/-!
# Every message in a summary

With a window as long as the interval between ticks, the windows of successive
flows lie edge to edge, and one would expect every message to be read by the flow
of the tick after it.  The guard breaks this: it looks for a summary from after the
lower bound of its flow, and the summary of the tick before, saved a little after
that tick, is one.  So a tick after a tick with a summary is skipped, and what was
written after the transcript of the first and before the second is in no transcript.

`covered_of_undisturbed` says when nothing is lost: when no message of the group is
written after the transcript of the latest tick is taken and before the next tick is
due, and no fetch stage is so late that the flow of a later tick has already saved.
The invariant is `Safe`: a message that no transcript has yet is either from after
the latest tick, with the next flow sure to pass its guard, or the flow whose window
holds it is still on its way and sure to pass (`Alive`).
-/

namespace GroupChat
namespace Summary

open Database Messages Transition

variable (config : Config) (firstTick : ℤ) (g : Uuid)

/-! ## The property -/

/-- All ticks up to number `n + 1` have come, and their flows for the group are past
their fetch stage. -/
def Settled (n : ℕ) (s : State) : Prop :=
  (∃ t ∈ s.lastTick, firstTick + (n + 1) * config.windowMs ≤ t.val) ∧
    (∀ f ∈ s.pending, f.groupId = g → firstTick + n * config.windowMs < f.since) ∧
    ∀ j job, s.jobs j = some job → j.stage = .fetch → j.groupId = g →
      firstTick + n * config.windowMs < job.since

/-- A user message of the group that nobody has deleted, from between the first tick and
tick number `n`. -/
structure Owed (n : ℕ) (m : Message) : Prop where
  groupId : m.groupId = g
  type : m.type = .user
  deletedAt : m.deletedAt = none
  first_le : firstTick ≤ m.createdAt.val
  le_last : m.createdAt.val ≤ firstTick + n * config.windowMs

/-- Once the flows up to number `n + 1` are settled, every message up to tick `n` is in
the transcript of one of them: the lower bound of flow number `n + 1` is tick `n`. -/
def AllCovered (rows : MessageTable) (now : Instant) (acts : List Action) : Prop :=
  ∀ n u, exec (step config) (start rows now) acts = some u → Settled config firstTick g n u →
    ∀ m ∈ u.messages.rows, Owed config firstTick g n m →
      ∃ tr ∈ u.transcripts, tr.groupId = g ∧ tr.since ≤ firstTick + n * config.windowMs ∧
        ∃ m' ∈ tr.rows, m'.id = m.id

/-! ## The condition -/

/-- The flow of the latest tick has read its transcript. -/
def TakenLatest (s : State) : Prop :=
  match s.lastTick with
  | none => False
  | some t => Taken s g (t.val - config.windowMs)

/-- No message of the group is written between the transcript of the latest tick and the
next tick. -/
def Quiet (s : State) : Action → Prop
  | .message (.statement c _ now) =>
    match s.messages.calls c with
    | .persisting data =>
      data.groupId = g → TakenLatest config g s → nextTick config firstTick s ≤ now.val
    | _ => True
  | _ => True

/-- The guard of the group is asked before the flow of a later tick has saved. -/
def Prompt (s : State) : Action → Prop
  | .work j _ _ =>
    j.stage = .fetch → j.groupId = g → ∀ job ∈ s.jobs j, job.status = .active .begun →
      hasSummarySince s.messages.rows g (job.since + 2 * config.windowMs) = false
  | _ => True

/-- The two together. -/
def Undisturbed (s : State) (a : Action) : Prop :=
  Quiet config firstTick g s a ∧ Prompt config g s a

instance (s : State) (since : ℤ) : Decidable (Taken s g since) :=
  inferInstanceAs (Decidable (∃ tr ∈ s.transcripts, tr.groupId = g ∧ tr.since = since))

instance (s : State) : Decidable (TakenLatest config g s) := by
  unfold TakenLatest
  split <;> infer_instance

instance (s : State) : DecidablePred (Quiet config firstTick g s) := by
  intro a
  unfold Quiet
  split
  · split <;> infer_instance
  · exact isTrue trivial

instance (s : State) : DecidablePred (Prompt config g s) := by
  intro a
  unfold Prompt
  split <;> infer_instance

instance (s : State) : DecidablePred (Undisturbed config firstTick g s) := fun a =>
  inferInstanceAs (Decidable (Quiet config firstTick g s a ∧ Prompt config g s a))

variable {config firstTick g}

/-! ## Flows on their way -/

/-- The guard of the flow has no reason to skip, as long as it is prompt. -/
def Clear (config : Config) (s : State) (g : Uuid) (since : ℤ) : Prop :=
  hasSummarySince s.messages.rows g since = false ∨
    hasSummarySince s.messages.rows g (since + 2 * config.windowMs) = true

/-- The flow is on its way to its transcript. -/
def Alive (config : Config) (s : State) (g : Uuid) (since : ℤ) : Prop :=
  Guarded s g since ∨ (Queued s g since ∧ Clear config s g since)

/-- The rows a flow would read now are in a transcript of the next state. -/
def ReadNow (s t : State) (g : Uuid) (since : ℤ) : Prop :=
  t.messages = s.messages ∧ ∀ m ∈ findForSummary s.messages.rows g since,
    ∃ tr ∈ t.transcripts, tr.groupId = g ∧ tr.since = since ∧ m ∈ tr.rows

/-- **Only the flow of a later tick can save in front of a flow that waits**, and then the
way is clear in the other sense. -/
theorem clear_of_step {s t : State} {a : Action} {since : ℤ} (hs : FlowInv config firstTick s)
    (h : step config s a = some t) (hon : OnTime config firstTick s a)
    (hq : Queued s g since) (hT : Ticked config s since) (hclear : Clear config s g since) :
    Clear config t g since := by
  rcases outside_of_step hs.userCalls h with ⟨-, -, -, hsame⟩ |
    ⟨g', origin, content, id, hsave, hfree, -, hmessages, -⟩
  · unfold Clear
    rw [hsame, hsame]
    exact hclear
  · unfold Clear
    rw [hmessages]
    rcases hclear with hnone | hlater
    · by_cases hg : g = g'
      · subst hg
        refine Or.inr ((hasSummarySince_post hfree _ _).mpr (Or.inl ⟨rfl, ?_⟩))
        obtain ⟨u, hu, horigin, hlt⟩ := hs.saves_latest hon hsave
        have hTorigin : Ticked config s origin.since := hs.carried _ (carried_of_saves hsave)
        have hne : since ≠ origin.since := by
          intro heq
          exact hs.not_queued _ (carried_of_saves hsave) (heq ▸ hq)
        have hle : since + config.windowMs ≤ u.val := hT.le hu
        have hnow : u.val ≤ s.now.val := hs.tick_le u hu
        have hlt' : since < origin.since := by omega
        have hstep := hT.add_le hTorigin hlt'
        omega
      · refine Or.inl ?_
        rw [Bool.eq_false_iff, ne_eq, hasSummarySince_post hfree]
        rintro (⟨heq, -⟩ | hold)
        · exact hg heq
        · rw [hnone] at hold
          exact absurd hold (by simp)
    · exact Or.inr ((hasSummarySince_post hfree _ _).mpr (Or.inr hlater))

/-- A flow still to be added is added sooner or later, and until then waits. -/
theorem queued_of_pending {s t : State} {a : Action} {f : Flow} (hs : FlowInv config firstTick s)
    (h : step config s a = some t) (hon : OnTime config firstTick s a) (hf : f ∈ s.pending) :
    Queued t f.groupId f.since := by
  rcases pending_cases h hon with hp | ⟨-, hp, -⟩ | ⟨f', hf', ha, hp⟩
  · refine Or.inl ⟨f, ?_, rfl, rfl⟩
    rw [hp]
    exact hf
  · refine Or.inl ⟨f, ?_, rfl, rfl⟩
    rw [hp]
    exact List.mem_append_left _ hf
  · by_cases hff : f = f'
    · subst hff ha
      have hfree : s.jobs ⟨.fetch, f.groupId, f.bucketStart⟩ = none := hs.pending_free f hf
      refine Or.inr ⟨⟨.fetch, f.groupId, f.bucketStart⟩, newJob f .fetch, ?_, rfl, rfl, rfl,
        Or.inl rfl⟩
      simp only [step, if_pos hf, Option.some.injEq] at h
      rw [← h]
      show addFlow s.jobs f _ = _
      simp only [addFlow, hfree]
      rfl
    · refine Or.inl ⟨f, ?_, rfl, rfl⟩
      rw [hp, List.mem_erase_of_ne hff]
      exact hf

/-- The guard of a flow that is prompt, with the way clear, passes. -/
theorem guarded_of_handle_begun {s : State} {j : JobId} {job : Job} {p' : Progress} {id : Uuid}
    {text : String} {e : Effect} (hstage : j.stage = .fetch)
    (hguard : hasSummarySince s.messages.rows j.groupId job.since = false)
    (h : handle config s j job .begun id text = some (p', e)) :
    ∃ origin, p' = .guarded origin := by
  simp only [handle, hstage, hguard, Bool.false_eq_true, if_false, Option.some.injEq,
    Prod.mk.injEq] at h
  exact ⟨_, h.1.symm⟩

/-- A flow that waits goes on waiting, or passes its guard. -/
theorem alive_of_queued {s t : State} {a : Action} {since : ℤ} (hs : FlowInv config firstTick s)
    (h : step config s a = some t) (hon : OnTime config firstTick s a)
    (hprompt : Prompt config g s a) (hq : Queued s g since) (hclear : Clear config s g since) :
    Alive config t g since := by
  have hstay : Queued t g since → Ticked config s since → Alive config t g since :=
    fun hqt hT => Or.inr ⟨hqt, clear_of_step hs h hon hq hT hclear⟩
  rcases hq with ⟨f, hf, rfl, rfl⟩ | ⟨j, job, hjob, hstage, rfl, rfl, hidle⟩
  · exact hstay (queued_of_pending hs h hon hf) (hs.pending f hf).1
  · have hT : Ticked config s job.since := (hs.jobs j job hjob).1
    cases jobStep_of_step h j with
    | same ht => exact hstay (Or.inr ⟨j, job, by rw [ht, hjob], hstage, rfl, rfl, hidle⟩) hT
    | added _ _ _ _ hnone _ => exact absurd hnone (by rw [hjob]; simp)
    | started _ hold ht =>
      obtain rfl := Option.some.inj (hjob.symm.trans hold)
      exact hstay (Or.inr ⟨j, _, ht, hstage, rfl, rfl, Or.inr rfl⟩) hT
    | @worked since _ _ _ _ _ _ _ ha hold hhandle _ ht =>
      obtain rfl := Option.some.inj (hjob.symm.trans hold)
      subst ha
      rcases hidle with hw | hb
      · exact absurd hw (by simp)
      · obtain rfl := Status.active.inj hb
        have hlate := hprompt hstage rfl _ hjob rfl
        have hguard : hasSummarySince s.messages.rows j.groupId since = false := by
          rcases hclear with hnone | hlater
          · exact hnone
          · rw [hlate] at hlater
            exact absurd hlater (by simp)
        obtain ⟨origin, rfl⟩ := guarded_of_handle_begun hstage hguard hhandle
        exact Or.inl ⟨j, _, _, origin, ht, hstage, rfl⟩
    | completed _ hold _ =>
      obtain rfl := Option.some.inj (hjob.symm.trans hold)
      rcases hidle with hw | hb
      · exact absurd hw (by simp)
      · exact absurd hb (by simp)
    | @received k _ _ _ _ _ _ _ hparent _ _ _ =>
      rw [hstage] at hparent
      exact absurd hparent k.stage.parent_ne_fetch
    | retried ha _ _ =>
      subst ha
      exact hon.elim
    | failed ha _ _ =>
      subst ha
      exact hon.elim
    | expired _ hold hfailed _ =>
      obtain rfl := Option.some.inj (hjob.symm.trans hold)
      rcases hidle with hw | hb
      · exact absurd (hw.symm.trans hfailed) (by simp)
      · exact absurd (hb.symm.trans hfailed) (by simp)

/-- The second query of a fetch stage skips only if there is nothing to read. -/
theorem readNow_of_work {s t : State} {j : JobId} {id : Uuid} {text : String} {since : ℤ} {n : ℕ}
    {child : Option StageResult} {origin : Origin} (hstage : j.stage = .fetch)
    (hjob : s.jobs j = some ⟨since, n, child, .active (.guarded origin)⟩)
    (h : step config s (.work j id text) = some t) : ReadNow s t j.groupId since := by
  obtain ⟨p', e, hhandle, rfl⟩ := work_of_step h hjob
  simp only [handle, hstage] at hhandle
  split at hhandle
  · next hempty =>
    obtain ⟨-, rfl⟩ := Prod.mk.inj (Option.some.inj hhandle)
    refine ⟨rfl, fun m hm => ?_⟩
    rw [hempty] at hm
    exact absurd hm List.not_mem_nil
  · next m rows hrows =>
    obtain ⟨-, rfl⟩ := Prod.mk.inj (Option.some.inj hhandle)
    refine ⟨rfl, fun x hx => ?_⟩
    rw [hrows] at hx
    exact ⟨⟨j.groupId, since, m :: rows⟩,
      List.mem_append_right _ (List.mem_singleton.mpr rfl), rfl, rfl, hx⟩

/-- **A flow on its way stays on its way until it has read.** -/
theorem alive_of_step {s t : State} {a : Action} {since : ℤ} (hs : FlowInv config firstTick s)
    (h : step config s a = some t) (hon : OnTime config firstTick s a)
    (hprompt : Prompt config g s a) (halive : Alive config s g since) :
    Alive config t g since ∨ ReadNow s t g since := by
  rcases halive with ⟨j, n, child, origin, hjob, hstage, rfl⟩ | ⟨hq, hclear⟩
  · cases jobStep_of_step h j with
    | same ht => exact Or.inl (Or.inl ⟨j, n, child, origin, by rw [ht, hjob], hstage, rfl⟩)
    | added _ _ _ _ hnone _ => exact absurd hnone (by rw [hjob]; simp)
    | started _ hold _ => exact absurd (Option.some.inj (hjob.symm.trans hold)) (by simp)
    | worked ha _ _ _ _ =>
      subst ha
      exact Or.inr (readNow_of_work hstage hjob h)
    | completed _ hold _ => exact absurd (Option.some.inj (hjob.symm.trans hold)) (by simp)
    | @received k _ _ _ _ _ _ _ hparent _ _ _ =>
      rw [hstage] at hparent
      exact absurd hparent k.stage.parent_ne_fetch
    | retried ha _ _ =>
      subst ha
      exact hon.elim
    | failed ha _ _ =>
      subst ha
      exact hon.elim
    | expired _ hold hfailed _ =>
      obtain rfl := Option.some.inj (hjob.symm.trans hold)
      exact absurd hfailed (by simp)
  · exact Or.inl (alive_of_queued hs h hon hprompt hq hclear)

/-! ## Messages -/

/-- The message is in a transcript whose window reaches back to it. -/
def Covered (s : State) (m : Message) : Prop :=
  ∃ tr ∈ s.transcripts, tr.groupId = m.groupId ∧ tr.since ≤ m.createdAt.val ∧
    ∃ m' ∈ tr.rows, m'.id = m.id

/-- The message will be read: by the flow of the next tick, or by one on its way. -/
def Safe (config : Config) (g : Uuid) (s : State) (m : Message) : Prop :=
  ∀ t ∈ s.lastTick,
    (t.val ≤ m.createdAt.val ∧ (Taken s g (t.val - config.windowMs) →
      t.val + config.windowMs ≤ m.createdAt.val)) ∨
    ∃ since ≤ m.createdAt.val, Alive config s g since

/-- No message of the group is lost. -/
def CoverInv (config : Config) (firstTick : ℤ) (g : Uuid) (s : State) : Prop :=
  ∀ m ∈ s.messages.rows, m.groupId = g → m.type = .user → m.deletedAt = none →
    firstTick ≤ m.createdAt.val → Covered s m ∨ Safe config g s m

/-- A user message after a step is a new one, or was there before. -/
theorem prev_of_step {s t : State} {a : Action} {m : Message} (h : step config s a = some t)
    (hm : m ∈ t.messages.rows) (htype : m.type = .user) :
    (∃ b, a = .message b ∧ AtNow s.now b ∧ Messages.Inserts s.messages b m ∧
        t.lastTick = s.lastTick ∧ t.transcripts = s.transcripts) ∨
      ∃ m' ∈ s.messages.rows, m'.id = m.id ∧ m'.groupId = m.groupId ∧ m'.type = m.type ∧
        m'.createdAt = m.createdAt ∧ (m.deletedAt = none → m'.deletedAt = none) := by
  cases stepCase_of_step h with
  | advance _ _ ht =>
    rw [ht] at hm
    exact Or.inr ⟨m, hm, rfl, rfl, rfl, rfl, id⟩
  | message ha hat hb ht =>
    rw [ht] at hm
    rcases Messages.prev_of_step hb hm with hins | hprev
    · rw [ht]
      exact Or.inl ⟨_, ha, hat, hins, rfl, rfl⟩
    · exact Or.inr hprev
  | tick _ ht =>
    rw [ht] at hm
    exact Or.inr ⟨m, hm, rfl, rfl, rfl, rfl, id⟩
  | addFlow _ _ ht =>
    rw [ht] at hm
    exact Or.inr ⟨m, hm, rfl, rfl, rfl, rfl, id⟩
  | dropFlow _ _ ht =>
    rw [ht] at hm
    exact Or.inr ⟨m, hm, rfl, rfl, rfl, rfl, id⟩
  | @work _ _ _ _ _ _ _ _ e _ _ hhandle ht =>
    rw [ht] at hm
    rcases effect_of_handle hhandle with hno | ⟨g', content, origin, -, -, -, -, rfl⟩
    · cases e with
      | nothing => exact Or.inr ⟨m, hm, rfl, rfl, rfl, rfl, id⟩
      | read tr => exact Or.inr ⟨m, hm, rfl, rfl, rfl, rfl, id⟩
      | insert x => exact absurd rfl (hno x)
      | broadcast x => exact Or.inr ⟨m, hm, rfl, rfl, rfl, rfl, id⟩
    · rcases Table.mem_put.mp hm with rfl | ⟨hm, -⟩
      · exact absurd htype (by simp [persistAiSummary, NewMessage.toRow])
      · exact Or.inr ⟨m, hm, rfl, rfl, rfl, rfl, id⟩
  | queues ht =>
    rw [ht] at hm
    exact Or.inr ⟨m, hm, rfl, rfl, rfl, rfl, id⟩

/-- A new message comes after the latest tick, and not in the gap. -/
theorem safe_of_inserts {s t : State} {b : Messages.Action} {m : Message}
    (hs : FlowInv config firstTick s) (hat : AtNow s.now b)
    (hins : Messages.Inserts s.messages b m) (hquiet : Quiet config firstTick g s (.message b))
    (hg : m.groupId = g) (hlast : t.lastTick = s.lastTick)
    (htranscripts : t.transcripts = s.transcripts) : Safe config g t m := by
  obtain ⟨c, id, now, data, rfl, hpc, rfl, -⟩ := hins
  obtain rfl : now = s.now := hat
  intro u hu
  rw [hlast] at hu
  refine Or.inl ⟨hs.tick_le u hu, fun htaken => ?_⟩
  have htaken' : TakenLatest config g s := by
    rw [TakenLatest, show s.lastTick = some u from hu]
    obtain ⟨tr, htr, htrg, hsince⟩ := htaken
    rw [htranscripts] at htr
    exact ⟨tr, htr, htrg, hsince⟩
  have hnext : nextTick config firstTick s ≤ s.now.val := by
    simp only [Quiet, hpc] at hquiet
    exact hquiet hg htaken'
  rw [nextTick, show s.lastTick = some u from hu] at hnext
  exact hnext

/-- What a flow reads, it covers. -/
theorem covered_of_mem {t : State} {m m' : Message} {tr : Transcript} (htr : tr ∈ t.transcripts)
    (hg : tr.groupId = m.groupId) (hsince : tr.since ≤ m.createdAt.val) (hm' : m' ∈ tr.rows)
    (hid : m'.id = m.id) : Covered t m :=
  ⟨tr, htr, hg, hsince, m', hm', hid⟩

/-- A tick finds the group of a message from after the one before. -/
theorem queued_of_tick {s t : State} {u : Instant} {m : Message}
    (h : step config s .tick = some t) (hdue : s.now.val = nextTick config firstTick s)
    (hu : s.lastTick = some u) (hm : m ∈ s.messages.rows) (htype : m.type = .user)
    (hle : u.val ≤ m.createdAt.val) : Queued t m.groupId u.val := by
  have hsince : config.since s.now = u.val := by
    rw [Config.since, hdue, nextTick, hu]
    show u.val + (config.windowMs : ℤ) - config.windowMs = u.val
    omega
  refine Or.inl ⟨⟨m.groupId, config.since s.now, config.bucketStart s.now⟩, ?_, rfl, hsince⟩
  rw [← Option.some.inj h]
  refine List.mem_append_right _ (List.mem_map.mpr ⟨m.groupId, ?_, rfl⟩)
  rw [findActiveGroups, List.mem_dedup, List.mem_map]
  refine ⟨m, List.mem_filter.mpr ⟨hm, ?_⟩, rfl⟩
  rw [hsince]
  exact decide_eq_true ⟨htype, hle⟩

theorem Covered.of_step {s t : State} {a : Action} {m : Message} (hm : Covered s m)
    (h : step config s a = some t) : Covered t m := by
  obtain ⟨tr, htr, hg, hsince, m', hm', hid⟩ := hm
  exact ⟨tr, mem_transcripts_of_step h htr, hg, hsince, m', hm', hid⟩

/-- A message whose flow is on its way is read, or its flow is still on its way. -/
theorem keep_of_alive {s t : State} {a : Action} {m : Message} {since : ℤ}
    (hs : FlowInv config firstTick s) (h : step config s a = some t)
    (hon : OnTime config firstTick s a) (hprompt : Prompt config g s a)
    (hm : m ∈ s.messages.rows) (hg : m.groupId = g) (htype : m.type = .user)
    (hdel : m.deletedAt = none) (hsince : since ≤ m.createdAt.val)
    (halive : Alive config s g since) : Covered t m ∨ Safe config g t m := by
  rcases alive_of_step hs h hon hprompt halive with halive | ⟨-, hread⟩
  · exact Or.inr fun u _ => Or.inr ⟨since, hsince, halive⟩
  · obtain ⟨tr, htr, htrg, htrsince, hmem⟩ :=
      hread m (mem_findForSummary.mpr ⟨hm, hg, htype, hsince, hdel⟩)
    exact Or.inl (covered_of_mem htr (htrg.trans hg.symm) (by rw [htrsince]; exact hsince) hmem rfl)

/-- A message from after the latest tick stays so, or is read with the window of that
tick, or the next tick has come for it. -/
theorem keep_of_recent {s t : State} {a : Action} {m : Message} {u : Instant}
    (hs : FlowInv config firstTick s) (h : step config s a = some t)
    (hon : OnTime config firstTick s a) (hm : m ∈ s.messages.rows) (hg : m.groupId = g)
    (htype : m.type = .user) (hdel : m.deletedAt = none) (hu : u ∈ s.lastTick)
    (hle : u.val ≤ m.createdAt.val)
    (htaken : Taken s g (u.val - config.windowMs) → u.val + config.windowMs ≤ m.createdAt.val) :
    Covered t m ∨ Safe config g t m := by
  have hpos := @windowMs_pos config
  rcases clock_of_step h hon with ⟨hlast, -⟩ | ⟨rfl, hlast, hnow, hdue⟩
  · rcases transcripts_of_step h with hsame | ⟨j, job, hjob, hnew⟩
    · refine Or.inr fun u' hu' => Or.inl ?_
      obtain rfl : u = u' := Option.some.inj (hu.symm.trans (hlast.symm.trans hu'))
      refine ⟨hle, ?_⟩
      rintro ⟨tr, htr, htrg, hsince⟩
      rw [hsame] at htr
      exact htaken ⟨tr, htr, htrg, hsince⟩
    · by_cases hread : j.groupId = g ∧ job.since = u.val - config.windowMs
      · have htr : (⟨j.groupId, job.since, findForSummary s.messages.rows j.groupId job.since⟩ :
            Transcript) ∈ t.transcripts := by
          rw [hnew]
          exact List.mem_append_right _ (List.mem_singleton.mpr rfl)
        have hsince : job.since ≤ m.createdAt.val := by omega
        exact Or.inl (covered_of_mem htr (hread.1.trans hg.symm) hsince
          (mem_findForSummary.mpr ⟨hm, hg.trans hread.1.symm, htype, hsince, hdel⟩) rfl)
      · refine Or.inr fun u' hu' => Or.inl ?_
        obtain rfl : u = u' := Option.some.inj (hu.symm.trans (hlast.symm.trans hu'))
        refine ⟨hle, ?_⟩
        rintro ⟨tr, htr, htrg, hsince⟩
        rw [hnew, List.mem_append, List.mem_singleton] at htr
        rcases htr with htr | rfl
        · exact htaken ⟨tr, htr, htrg, hsince⟩
        · exact absurd ⟨htrg, hsince⟩ hread
  · have hnext : s.now.val = u.val + config.windowMs := by
      rw [hdue, nextTick, show s.lastTick = some u from hu]
    refine Or.inr fun u' hu' => ?_
    obtain rfl : s.now = u' := Option.some.inj (hlast.symm.trans hu')
    by_cases hlate : s.now.val ≤ m.createdAt.val
    · refine Or.inl ⟨hlate, ?_⟩
      rintro ⟨tr, htr, -, hsince⟩
      have htr' : tr ∈ s.transcripts := by
        rw [← Option.some.inj h] at htr
        exact htr
      have hticked := (hs.transcripts tr htr').le hu
      omega
    · refine Or.inr ⟨u.val, hle, Or.inr ⟨?_, Or.inl ?_⟩⟩
      · rw [← hg]
        exact queued_of_tick h hdue hu hm htype hle
      · have hnone : hasSummarySince s.messages.rows g u.val = false := by
          by_contra hne
          have htaken' := htaken (hs.latest g u hu (by simpa using hne))
          omega
        rw [← Option.some.inj h]
        exact hnone

/-- **One step loses no message.** -/
theorem coverInv_of_step {s t : State} {a : Action} (hs : FlowInv config firstTick s)
    (hcover : CoverInv config firstTick g s) (h : step config s a = some t)
    (hon : OnTime config firstTick s a) (hun : Undisturbed config firstTick g s a) :
    CoverInv config firstTick g t := by
  intro m hm hg htype hdel hfirst
  rcases prev_of_step h hm htype with
    ⟨b, rfl, hat, hins, hlast, htranscripts⟩ | ⟨m', hm', hid, hg', htype', hcreated, hdel'⟩
  · exact Or.inr (safe_of_inserts hs hat hins hun.1 hg hlast htranscripts)
  · have hkeep : Covered t m' ∨ Safe config g t m' := by
      have hmg : m'.groupId = g := hg'.trans hg
      have hmtype : m'.type = .user := htype'.trans htype
      have hmfirst : firstTick ≤ m'.createdAt.val := by
        rw [hcreated]
        exact hfirst
      rcases hcover m' hm' hmg hmtype (hdel' hdel) hmfirst with hold | hsafe
      · exact Or.inl (hold.of_step h)
      · cases hlast : s.lastTick with
        | none =>
          -- The first tick, if it is one: nothing has been read, and nothing is older.
          refine Or.inr fun u hu => Or.inl ?_
          rcases clock_of_step h hon with ⟨hlast', -⟩ | ⟨rfl, hlast', -, hdue⟩
          · rw [hlast', hlast] at hu
            exact absurd hu (by simp)
          · obtain rfl : s.now = u := Option.some.inj (hlast'.symm.trans hu)
            have hnow : s.now.val = firstTick := by
              rw [hdue, nextTick, hlast]
            refine ⟨by rw [hnow]; exact hmfirst, ?_⟩
            rintro ⟨tr, htr, -, -⟩
            have htr' : tr ∈ s.transcripts := by
              rw [← Option.some.inj h] at htr
              exact htr
            obtain ⟨u', hu', -⟩ := hs.transcripts tr htr'
            rw [hlast] at hu'
            exact absurd hu' (by simp)
        | some u =>
          rcases hsafe u hlast with ⟨hle, htaken⟩ | ⟨since, hsince, halive⟩
          · exact keep_of_recent hs h hon hm' hmg hmtype (hdel' hdel) hlast hle htaken
          · exact keep_of_alive hs h hon hun.2 hm' hmg hmtype (hdel' hdel) hsince halive
    rcases hkeep with ⟨tr, htr, htrg, hsince, x, hx, hxid⟩ | hsafe
    · refine Or.inl ⟨tr, htr, htrg.trans hg', ?_, x, hx, hxid.trans hid⟩
      rw [← hcreated]
      exact hsince
    · refine Or.inr fun u hu => ?_
      have hu' := hsafe u hu
      rw [hcreated] at hu'
      exact hu'

/-! ## Runs -/

/-- A message that is safe is covered once its flow is settled. -/
theorem Covered.of_settled {u : State} {n : ℕ} {m : Message}
    (hsettled : Settled config firstTick g n u) (hm : Owed config firstTick g n m)
    (hsafe : Covered u m ∨ Safe config g u m) : Covered u m := by
  obtain ⟨⟨t, ht, hlast⟩, hpending, hjobs⟩ := hsettled
  have hle := hm.le_last
  have hpos := @windowMs_pos config
  have hexpand : ((n : ℤ) + 1) * config.windowMs = n * config.windowMs + config.windowMs := by ring
  rcases hsafe with hcovered | hsafe
  · exact hcovered
  · rcases hsafe t ht with ⟨hc, -⟩ | ⟨since, hsince, halive⟩
    · omega
    · rcases halive with ⟨j, k, child, origin, hjob, hstage, hg⟩ |
        ⟨⟨f, hf, hg, hfsince⟩ | ⟨j, job, hjob, hstage, hg, hjsince, -⟩, -⟩
      · have hlt : firstTick + n * config.windowMs < since := hjobs j _ hjob hstage hg
        omega
      · have hlt := hpending f hf hg
        omega
      · have hlt := hjobs j job hjob hstage hg
        omega

/-- **When no message is lost.**  In a run on the timetable, from a table older than the
first tick, every message is in a summary if no message of the group is written between
the transcript of a tick and the next tick, and no fetch stage is later than a summary
of a later tick. -/
theorem allCovered_of_undisturbed (config : Config) (firstTick : ℤ) (g : Uuid)
    (rows : MessageTable) (now : Instant) (acts : List Action) (hnow : now.val ≤ firstTick)
    (hrows : ∀ m ∈ rows, m.createdAt.val < firstTick)
    (hon : AllSteps (step config) (OnTime config firstTick) (start rows now) acts)
    (hun : AllSteps (step config) (Undisturbed config firstTick g) (start rows now) acts) :
    AllCovered config firstTick g rows now acts := by
  intro n u hu hsettled m hm howed
  have hstart : FlowInv config firstTick (start rows now) ∧
      CoverInv config firstTick g (start rows now) := by
    refine ⟨flowInv_start hnow hrows, fun m hm _ _ _ hfirst => ?_⟩
    have hlt : m.createdAt.val < firstTick := hrows m hm
    omega
  have hinv : FlowInv config firstTick u ∧ CoverInv config firstTick g u := by
    refine ((hon.and hun).reach hu).invariant
      (P := fun s => FlowInv config firstTick s ∧ CoverInv config firstTick g s)
      (fun s a t hP hC h => ?_) hstart
    exact ⟨flowInv_of_step hP.1 h hC.1, coverInv_of_step hP.1 hP.2 h hC.1 hC.2⟩
  have hcover := hinv.2 m hm howed.groupId howed.type howed.deletedAt howed.first_le
  obtain ⟨tr, htr, hg, hsince, hread⟩ := Covered.of_settled hsettled howed hcover
  exact ⟨tr, htr, hg.trans howed.groupId, hsince.trans howed.le_last, hread⟩

/-- A message just before the first tick, its summary, and a tick after that. -/
def quietRun : List Action :=
  let job (stage : Stage) : JobId := ⟨stage, 1, 5000⟩
  let late (stage : Stage) : JobId := ⟨stage, 1, 6000⟩
  [ .advance fiveSeconds,
    .message (.request 0 (.create 1 2 "hello")),
    .message (.statement 0 3 fiveSeconds), .tick, .addFlow ⟨1, 4000, 5000⟩,
    .start (job .fetch), .work (job .fetch) 0 "", .work (job .fetch) 0 "", .complete (job .fetch),
    .start (job .generate), .work (job .generate) 0 "they said hello", .complete (job .generate),
    .start (job .save), .work (job .save) 4 "", .advance ⟨6000, by decide⟩, .tick,
    .addFlow ⟨1, 5000, 6000⟩, .start (late .fetch), .work (late .fetch) 0 "",
    .complete (late .fetch) ]

/-- A run in which nothing is lost. -/
theorem allCovered_quietRun :
    AllCovered oneSecond 5000 1 Table.empty ⟨4500, by decide⟩ quietRun :=
  allCovered_of_undisturbed oneSecond 5000 1 Table.empty ⟨4500, by decide⟩ quietRun (by decide)
    (fun m hm => absurd hm (Table.not_mem_empty m)) (by decide) (by decide)

/-! ## A message between a transcript and the next tick -/

/-- Only flows that were added have jobs. -/
theorem addFlow_mem_of_job {s u : State} {acts : List Action} {j : JobId} {job : Job}
    (hu : exec (step config) s acts = some u) (hs : ∀ k, s.jobs k = none)
    (hjob : u.jobs j = some job) :
    ∃ f, .addFlow f ∈ acts ∧ j.groupId = f.groupId ∧ j.bucketStart = f.bucketStart := by
  have hall : ∀ k job, u.jobs k = some job →
      ∃ f, .addFlow f ∈ acts ∧ k.groupId = f.groupId ∧ k.bucketStart = f.bucketStart := by
    refine of_exec_of_mem (P := fun v => ∀ k job, v.jobs k = some job →
      ∃ f, .addFlow f ∈ acts ∧ k.groupId = f.groupId ∧ k.bucketStart = f.bucketStart) ?_ ?_ hu
    · intro a ha v w hv hstep k job hjob
      rcases since_of_jobStep (jobStep_of_step hstep k) hjob with
        ⟨old, hold, -⟩ | ⟨f, -, rfl, hgroup, hbucket, -, -⟩
      · exact hv k old hold
      · exact ⟨f, ha, hgroup, hbucket⟩
    · intro k job hjob
      rw [hs k] at hjob
      exact absurd hjob (by simp)
  exact hall j job hjob

/-- The summary of the first tick is saved at once; half a window later somebody writes
again, and the next tick is skipped because of that summary. -/
def gapRun : List Action :=
  let job (stage : Stage) : JobId := ⟨stage, 1, 5000⟩
  let late (stage : Stage) : JobId := ⟨stage, 1, 6000⟩
  [ .message (.request 0 (.create 1 2 "hello")),
    .message (.statement 0 3 ⟨4500, by decide⟩), .advance fiveSeconds, .tick,
    .addFlow ⟨1, 4000, 5000⟩, .start (job .fetch), .work (job .fetch) 0 "",
    .work (job .fetch) 0 "", .complete (job .fetch), .start (job .generate),
    .work (job .generate) 0 "they said hello", .complete (job .generate), .start (job .save),
    .advance ⟨5100, by decide⟩, .work (job .save) 4 "", .advance ⟨5500, by decide⟩,
    .message (.request 1 (.create 1 2 "is anybody there?")),
    .message (.statement 1 5 ⟨5500, by decide⟩), .advance ⟨6000, by decide⟩, .tick,
    .addFlow ⟨1, 5000, 6000⟩, .start (late .fetch), .work (late .fetch) 0 "",
    .complete (late .fetch), .advance ⟨7000, by decide⟩, .tick ]

/-- The run leaves no flow on its way. -/
theorem gapRun_queues :
    (exec (step oneSecond) (start Table.empty ⟨4500, by decide⟩) gapRun).map (fun u =>
      (u.lastTick, u.pending, u.jobs ⟨.fetch, 1, 5000⟩, u.jobs ⟨.fetch, 1, 6000⟩)) =
      some (some ⟨7000, by decide⟩, [], none, none) := by
  decide

/-- It leaves the second message, and one transcript, without it. -/
theorem gapRun_messages :
    (exec (step oneSecond) (start Table.empty ⟨4500, by decide⟩) gapRun).map (fun u =>
      (u.messages.rows.find? 5, u.transcripts.map fun tr => tr.rows.map Message.id)) =
      some (some ((⟨1, some 2, "is anybody there?", .user, none⟩ : NewMessage).toRow 5
        ⟨5500, by decide⟩), [[3]]) := by
  decide

/-- **Messages can be lost.** -/
theorem not_allCovered_gapRun :
    ¬∀ (config : Config) (firstTick : ℤ) (g : Uuid) (rows : MessageTable) (now : Instant)
      (acts : List Action), now.val ≤ firstTick → (∀ m ∈ rows, m.createdAt.val < firstTick) →
        AllSteps (step config) (OnTime config firstTick) (start rows now) acts →
          AllCovered config firstTick g rows now acts := by
  intro h
  have hcovered := h oneSecond 5000 1 Table.empty ⟨4500, by decide⟩ gapRun (by decide)
    (fun m hm => absurd hm (Table.not_mem_empty m)) (by decide)
  obtain ⟨u, hu, hqueues⟩ := Option.map_eq_some_iff.mp gapRun_queues
  obtain ⟨hlast, hqueues⟩ := Prod.mk.inj hqueues
  obtain ⟨hpending, hjobs⟩ := Prod.mk.inj hqueues
  obtain ⟨hfirst, hsecond⟩ := Prod.mk.inj hjobs
  have hmessages := gapRun_messages
  rw [hu, Option.map_some] at hmessages
  obtain ⟨hrow, htranscripts⟩ := Prod.mk.inj (Option.some.inj hmessages)
  have hsettled : Settled oneSecond 5000 1 1 u := by
    refine ⟨⟨_, hlast, by decide⟩, fun f hf => ?_, fun j job hjob hstage _ => ?_⟩
    · rw [hpending] at hf
      exact absurd hf List.not_mem_nil
    · obtain ⟨f, hf, hg, hb⟩ := addFlow_mem_of_job hu (fun k => rfl) hjob
      have hf' : f = ⟨1, 4000, 5000⟩ ∨ f = ⟨1, 5000, 6000⟩ := by
        simpa [gapRun] using hf
      cases j
      obtain rfl : _ = Stage.fetch := hstage
      rcases hf' with rfl | rfl
      · obtain rfl : _ = (1 : Uuid) := hg
        obtain rfl : _ = (5000 : ℤ) := hb
        rw [hfirst] at hjob
        exact absurd hjob (by simp)
      · obtain rfl : _ = (1 : Uuid) := hg
        obtain rfl : _ = (6000 : ℤ) := hb
        rw [hsecond] at hjob
        exact absurd hjob (by simp)
  obtain ⟨tr, htr, -, -, m', hm', hid⟩ := hcovered 1 u hu hsettled _ (Table.mem_of_find? hrow)
    ⟨rfl, rfl, rfl, by decide, by decide⟩
  have hids : tr.rows.map Message.id ∈ [[(3 : Uuid)]] := by
    rw [← htranscripts]
    exact List.mem_map.mpr ⟨tr, htr, rfl⟩
  have hmem : m'.id ∈ tr.rows.map Message.id := List.mem_map.mpr ⟨m', hm', rfl⟩
  rw [List.mem_singleton.mp hids, hid] at hmem
  exact absurd hmem (by decide)

end Summary
end GroupChat

import GroupChat.Messages.Authorship
import Mathlib.Logic.Function.Iterate

/-!
# Toggles that overlap

`toggle` has no transaction around its delete and its insert.  What makes it safe is that
the delete is also the test: of two calls on the same reaction at most one deletes it, and
of two that insert it the second finds it there.  `toggles_are_safe` says what this comes
to for calls on messages that exist, whatever else runs beside them: none of them fails, no
reaction is stored twice, the reactions that no call is about stay as they are, and the
calls on a reaction flip it one after the other, as long as each of them has written before
the next is made.

The last part is about one reaction at a time.  `Flipped` says how far the calls on it have
come: whether it is there is what all calls together come to, but for the one call that has
yet to write.
-/

namespace GroupChat
namespace Messages
namespace Reactions

open Common Database Transition

variable {acts : List Action} {s t : State} {a : Action}

/-! ## The property -/

/-- Whether the reaction is there. -/
def present (t : ReactionTable) (k : Mark) : Bool := decide (Marked t k)

/-- A call is made on a message that exists, and no statement fails for a reason outside the
program. -/
def Proper (s : State) : Action → Prop
  | .request _ q => ∃ m ∈ s.messages.rows.rows, m.id = q.messageId ∧ m.groupId = q.groupId
  | .fault _ => False
  | .message _ | .post .. | .statement .. | .emit _ => True

instance (s : State) : DecidablePred (Proper s)
  | .request _ q =>
    inferInstanceAs (Decidable (∃ m ∈ s.messages.rows.rows, m.id = q.messageId ∧ m.groupId = q.groupId))
  | .fault _ => isFalse id
  | .message _ | .post .. | .statement .. | .emit _ => isTrue trivial

/-- The arguments of a call that has neither deleted nor inserted yet. -/
def Call.unwritten? : Call → Option Toggle
  | .finding q | .deleting q | .creating q => some q
  | .idle | .reading _ | .emitting _ | .returned _ | .thrown _ => none

/-- No call on the reaction has still to write. -/
def Settled (k : Mark) (s : State) : Prop :=
  ∀ c q, (s.toggles c).unwritten? = some q → q.mark ≠ k

/-- A call on the reaction is made when those before it have written. -/
def Apart (k : Mark) (s : State) (a : Action) : Prop :=
  ∀ c q, a = .request c q → q.mark = k → Settled k s

/-- The action is a new call on the reaction. -/
def asks (k : Mark) : Action → Bool
  | .request _ q => q.mark = k
  | .message _ | .post .. | .statement .. | .emit _ | .fault _ => false

/-- How many calls on the reaction have been made. -/
def asked (k : Mark) (acts : List Action) : ℕ := acts.countP (asks k)

/-! ## The table -/

theorem marked_iff {t : ReactionTable} {k : Mark} : Marked t k ↔ ∃ r ∈ t, r.mark = k := Iff.rfl

theorem present_deleteMany_self (t : ReactionTable) (q : Toggle) :
    present (deleteMany t q) q.mark = false := by
  refine decide_eq_false ?_
  rintro ⟨r, hr, hmark⟩
  have hne : r.mark ≠ q.mark := by simpa using (Table.mem_filter.mp hr).2
  exact hne hmark

theorem present_deleteMany_of_ne (t : ReactionTable) {q : Toggle} {k : Mark} (h : q.mark ≠ k) :
    present (deleteMany t q) k = present t k := by
  refine decide_eq_decide.mpr ?_
  rw [marked_iff, marked_iff]
  refine exists_congr fun r => and_congr_left fun hr => ?_
  refine Table.mem_filter.trans (and_iff_left ?_)
  have hne : r.mark ≠ q.mark := by
    rw [hr]
    exact h.symm
  simpa using hne

theorem present_put_self (t : ReactionTable) (q : Toggle) (id : Uuid) (now : Instant) :
    present (t.put (q.toRow id now)) q.mark = true :=
  decide_eq_true ⟨q.toRow id now, Table.mem_put_self _ _, rfl⟩

theorem present_put_of_ne {t : ReactionTable} {q : Toggle} {id : Uuid} {now : Instant} {k : Mark}
    (hfresh : t.find? id = none) (h : q.mark ≠ k) :
    present (t.put (q.toRow id now)) k = present t k := by
  refine decide_eq_decide.mpr ?_
  rw [marked_iff, marked_iff]
  refine exists_congr fun r => and_congr_left fun hr => ?_
  constructor
  · intro hmem
    refine ((Table.mem_put.mp hmem).resolve_left ?_).1
    rintro rfl
    exact h hr
  · exact fun hmem =>
      (Table.mem_put_of_key_ne (Table.find?_eq_none_iff.mp hfresh r hmem)).mpr hmem

theorem MarksUnique.put {t : ReactionTable} {r : Reaction} (h : MarksUnique t)
    (hunmarked : ¬ Marked t r.mark) : MarksUnique (t.put r) := by
  intro x hx y hy hxy
  rcases Table.mem_put.mp hx with rfl | ⟨hold, -⟩
  · rcases Table.mem_put.mp hy with rfl | ⟨hold', -⟩
    · rfl
    · exact absurd ⟨y, hold', hxy.symm⟩ hunmarked
  · rcases Table.mem_put.mp hy with rfl | ⟨hold', -⟩
    · exact absurd ⟨x, hold, hxy⟩ hunmarked
    · exact h x hold y hold' hxy

/-! ## No call fails -/

/-- The calls are on messages that exist, and none has failed. -/
structure Safe (s : State) : Prop where
  onMessage : ∀ c q, (s.toggles c).toggle? = some q →
    ∃ m ∈ s.messages.rows, m.id = q.messageId ∧ m.groupId = q.groupId
  unthrown : ∀ c e, s.toggles c ≠ .thrown e
  unique : MarksUnique s.reactions

theorem safe_start (rows : MessageTable) {reactions : ReactionTable}
    (h : MarksUnique reactions) : Safe (start rows reactions) :=
  ⟨fun _ _ hq => (by cases hq), fun _ _ he => (by cases he), h⟩

/-- A call of `toggle` goes on. -/
theorem Safe.goto (hs : Safe s) {c : ℕ} {pc : Call} {u : State}
    (hmessages : u.messages = s.messages) (htoggles : u.toggles = s.toggles)
    (hunique : MarksUnique u.reactions)
    (hpc : ∀ q, pc.toggle? = some q →
      ∃ m ∈ s.messages.rows, m.id = q.messageId ∧ m.groupId = q.groupId)
    (hthrown : ∀ e, pc ≠ .thrown e) : Safe (u.goto c pc) := by
  have hcalls : (u.goto c pc).toggles = Function.update s.toggles c pc := by
    show Function.update u.toggles c pc = _
    rw [htoggles]
  refine ⟨fun c' q hq => ?_, fun c' e he => ?_, hunique⟩
  · show ∃ m ∈ u.messages.rows, _
    rw [hmessages]
    rw [hcalls] at hq
    by_cases hc : c' = c
    · rw [hc, Function.update_self] at hq
      exact hpc q hq
    · rw [Function.update_of_ne hc] at hq
      exact hs.onMessage c' q hq
  · rw [hcalls] at he
    by_cases hc : c' = c
    · rw [hc, Function.update_self] at he
      exact hthrown e he
    · rw [Function.update_of_ne hc] at he
      exact hs.unthrown c' e he

/-- **One step of calls that are proper.** -/
theorem Safe.moved (hs : Safe s) (hproper : Proper s a) (h : Moved s a t) : Safe t := by
  cases h with
  | message hstep =>
    refine ⟨fun c q hq => ?_, hs.unthrown, hs.unique⟩
    obtain ⟨m, hm, hid, hgroup⟩ := hs.onMessage c q hq
    obtain ⟨m', hm', hsame⟩ := sameOrigin_of_step hstep hm
    exact ⟨m', hm', hsame.id_eq.trans hid, hsame.groupId_eq.trans hgroup⟩
  | posted hfresh =>
    refine ⟨fun c q hq => ?_, hs.unthrown, hs.unique⟩
    obtain ⟨m, hm, hfound⟩ := hs.onMessage c q hq
    exact ⟨m, (Table.mem_put_of_key_ne (Table.find?_eq_none_iff.mp hfresh m hm)).mpr hm, hfound⟩
  | requested hpc =>
    refine hs.goto rfl rfl hs.unique (fun q hq => ?_) (by simp)
    rw [← Option.some.inj hq]
    exact hproper
  | found hpc | absent hpc =>
    refine hs.goto rfl rfl hs.unique (fun q hq => ?_) (by simp)
    exact hs.onMessage _ q (by rw [hpc]; exact hq)
  | overtaken hpc =>
    refine hs.goto rfl rfl hs.unique (fun q hq => ?_) (by simp)
    exact hs.onMessage _ q (by rw [hpc]; exact hq)
  | deleted hpc =>
    refine hs.goto rfl rfl ?_ (fun q hq => hs.onMessage _ q (by rw [hpc]; exact hq)) (by simp)
    exact fun r hr r' hr' =>
      hs.unique r (Table.mem_filter.mp hr).1 r' (Table.mem_filter.mp hr').1
  | created hpc hfresh hunmarked =>
    exact hs.goto rfl rfl (hs.unique.put hunmarked)
      (fun q hq => hs.onMessage _ q (by rw [hpc]; exact hq)) (by simp)
  | missing hpc hmissing => exact absurd (hs.onMessage _ _ (by rw [hpc]; rfl)) hmissing
  | orphaned hpc hmissing =>
    obtain ⟨m, hm, hid, -⟩ := hs.onMessage _ _ (show (s.toggles _).toggle? = some _ by rw [hpc]; rfl)
    exact absurd ⟨m, hm, hid⟩ hmissing
  | selected | emitted => exact hs.goto rfl rfl hs.unique (by simp [Call.toggle?]) (by simp)
  | faulted => exact hproper.elim

/-! ## How often a reaction is flipped -/

/-- The calls on the reaction come to `b`, and at most one of them has still to write. -/
structure Flipped (k : Mark) (b : Bool) (s : State) : Prop where
  alone : ∀ c c' q q', (s.toggles c).unwritten? = some q → q.mark = k →
    (s.toggles c').unwritten? = some q' → q'.mark = k → c = c'
  unwritten : ∀ c q, (s.toggles c).unwritten? = some q → q.mark = k →
    present s.reactions k = !b
  settled : Settled k s → present s.reactions k = b
  /-- A call that is about to insert has found nothing. -/
  creating : ∀ c q, s.toggles c = .creating q → q.mark = k → present s.reactions k = false

variable {k : Mark} {b : Bool}

theorem flipped_start (rows : MessageTable) (reactions : ReactionTable) (k : Mark) :
    Flipped k (present reactions k) (start rows reactions) :=
  ⟨fun _ _ _ _ hq => (by cases hq), fun _ _ hq => (by cases hq), fun _ => rfl,
    fun _ _ hq => (by cases hq)⟩

/-- A call goes on without a write on the reaction. -/
theorem Flipped.goto (hs : Flipped k b s) {c : ℕ} {pc : Call} {u : State}
    (htoggles : u.toggles = s.toggles) (hpresent : present u.reactions k = present s.reactions k)
    (hpc : ∀ q, q.mark = k → (pc.unwritten? = some q ↔ (s.toggles c).unwritten? = some q))
    (hcreating : ∀ q, pc = .creating q → q.mark = k → present s.reactions k = false) :
    Flipped k b (u.goto c pc) := by
  have hunwritten : ∀ c' q, q.mark = k →
      (((u.goto c pc).toggles c').unwritten? = some q ↔ (s.toggles c').unwritten? = some q) := by
    intro c' q hq
    show (Function.update u.toggles c pc c').unwritten? = some q ↔ _
    by_cases hc : c' = c
    · rw [hc, Function.update_self]
      exact hpc q hq
    · rw [Function.update_of_ne hc, htoggles]
  refine ⟨fun c' c'' q q' hq hk hq' hk' => ?_, fun c' q hq hk => ?_, fun hsettled => ?_,
    fun c' q hq hk => ?_⟩
  · exact hs.alone c' c'' q q' ((hunwritten c' q hk).mp hq) hk ((hunwritten c'' q' hk').mp hq') hk'
  · exact hpresent.trans (hs.unwritten c' q ((hunwritten c' q hk).mp hq) hk)
  · refine hpresent.trans (hs.settled fun c' q hq hk => ?_)
    exact hsettled c' q ((hunwritten c' q hk).mpr hq) hk
  · refine hpresent.trans ?_
    have hq' : Function.update u.toggles c pc c' = .creating q := hq
    by_cases hc : c' = c
    · rw [hc, Function.update_self] at hq'
      exact hcreating q hq' hk
    · rw [Function.update_of_ne hc, htoggles] at hq'
      exact hs.creating c' q hq' hk

/-- The one call that had still to write has written. -/
theorem Flipped.written (hs : Flipped k b s) {c : ℕ} {pc : Call} {u : State} {q : Toggle}
    (htoggles : u.toggles = s.toggles) (hq : (s.toggles c).unwritten? = some q) (hk : q.mark = k)
    (hpc : pc.unwritten? = none) (hpresent : present u.reactions k = b) :
    Flipped k b (u.goto c pc) := by
  have hnone : Settled k (u.goto c pc) := by
    intro c' q' hq' hk'
    have hq' : (Function.update u.toggles c pc c').unwritten? = some q' := hq'
    by_cases hc : c' = c
    · rw [hc, Function.update_self, hpc] at hq'
      cases hq'
    · rw [Function.update_of_ne hc, htoggles] at hq'
      exact hc (hs.alone c' c q' q hq' hk' hq hk)
  refine ⟨fun c' _ q' _ hq' hk' => absurd hk' (hnone c' q' hq'),
    fun c' q' hq' hk' => absurd hk' (hnone c' q' hq'), fun _ => hpresent, fun c' q' hq' hk' => ?_⟩
  exact absurd hk' (hnone c' q' (by rw [hq']; rfl))

/-- A new call on the reaction. -/
theorem Flipped.requested (hs : Flipped k b s) {c : ℕ} {q : Toggle} (hk : q.mark = k)
    (hsettled : Settled k s) : Flipped k (!b) (s.goto c (.finding q)) := by
  have hself : ((s.goto c (.finding q)).toggles c).unwritten? = some q := by
    show (Function.update s.toggles c _ c).unwritten? = _
    rw [Function.update_self]
    rfl
  have honly : ∀ c' q', ((s.goto c (.finding q)).toggles c').unwritten? = some q' →
      q'.mark = k → c' = c := by
    intro c' q' hq' hk'
    by_contra hc
    have hq' : (Function.update s.toggles c (.finding q) c').unwritten? = some q' := hq'
    rw [Function.update_of_ne hc] at hq'
    exact hsettled c' q' hq' hk'
  refine ⟨fun c' c'' q' q'' hq' hk' hq'' hk'' => ?_, fun c' q' hq' hk' => ?_, fun h => ?_,
    fun c' q' hq' hk' => ?_⟩
  · rw [honly c' q' hq' hk', honly c'' q'' hq'' hk'']
  · rw [Bool.not_not]
    exact hs.settled hsettled
  · exact absurd hk (h c q hself)
  · obtain rfl := honly c' q' (by rw [hq']; rfl) hk'
    have hq' : Function.update s.toggles c' (.finding q) c' = .creating q' := hq'
    rw [Function.update_self] at hq'
    cases hq'

/-- **One step flips the reaction if it is a call on it.** -/
theorem Flipped.moved (hs : Flipped k b s) (hsafe : Safe s) (hproper : Proper s a)
    (hapart : Apart k s a) (h : Moved s a t) : Flipped k (if asks k a then !b else b) t := by
  cases h with
  | message | posted => exact ⟨hs.alone, hs.unwritten, hs.settled, hs.creating⟩
  | @requested c q hpc =>
    by_cases hk : q.mark = k
    · have hasks : asks k (.request c q) = true := decide_eq_true hk
      rw [if_pos hasks]
      exact hs.requested hk (hapart c q rfl hk)
    · have hasks : ¬asks k (.request c q) = true := by simpa [asks] using hk
      rw [if_neg hasks]
      refine hs.goto rfl rfl (fun q' hk' => ?_) (by simp)
      rw [hpc]
      refine iff_of_false (fun h => hk ?_) (by simp [Call.unwritten?])
      rwa [Option.some.inj h]
  | found hpc =>
    refine hs.goto rfl rfl (fun q' hk' => ?_) (by simp)
    rw [hpc]
    exact Iff.rfl
  | absent hpc hunmarked =>
    refine hs.goto rfl rfl (fun q' hk' => ?_) fun q' hq' hk' => ?_
    · rw [hpc]
      exact Iff.rfl
    · cases hq'
      rw [← hk']
      exact decide_eq_false hunmarked
  | @deleted c id now q hpc hmarked =>
    by_cases hk : q.mark = k
    · have hq : (s.toggles c).unwritten? = some q := by
        rw [hpc]
        rfl
      have hthere : present s.reactions k = true := by
        rw [← hk]
        exact decide_eq_true hmarked
      have hb : b = false := by simpa [hthere] using (hs.unwritten c q hq hk).symm
      refine hs.written rfl hq hk rfl ?_
      show present (deleteMany s.reactions q) k = _
      rw [← hk, present_deleteMany_self]
      exact hb.symm
    · refine hs.goto rfl (present_deleteMany_of_ne _ hk) (fun q' hk' => ?_) (by simp)
      rw [hpc]
      refine iff_of_false (by simp [Call.unwritten?]) fun h => hk ?_
      rwa [Option.some.inj h]
  | @overtaken c id now q hpc hmarked =>
    by_cases hk : q.mark = k
    · have hgone := hs.creating c q hpc hk
      rw [← hk] at hgone
      exact absurd hmarked (of_decide_eq_false hgone)
    · refine hs.goto rfl rfl (fun q' hk' => ?_) (by simp)
      rw [hpc]
      refine iff_of_false (by simp [Call.unwritten?]) fun h => hk ?_
      rwa [Option.some.inj h]
  | @created c id now q hpc hfresh hunmarked =>
    by_cases hk : q.mark = k
    · have hq : (s.toggles c).unwritten? = some q := by
        rw [hpc]
        rfl
      have hgone := hs.creating c q hpc hk
      have hb : b = true := by simpa [hgone] using (hs.unwritten c q hq hk).symm
      refine hs.written rfl hq hk rfl ?_
      show present (s.reactions.put (q.toRow id now)) k = _
      rw [← hk, present_put_self]
      exact hb.symm
    · refine hs.goto rfl (present_put_of_ne hfresh hk) (fun q' hk' => ?_) (by simp)
      rw [hpc]
      refine iff_of_false (by simp [Call.unwritten?]) fun h => hk ?_
      rwa [Option.some.inj h]
  | missing hpc hmissing => exact absurd (hsafe.onMessage _ _ (by rw [hpc]; rfl)) hmissing
  | orphaned hpc hmissing =>
    obtain ⟨m, hm, hid, -⟩ :=
      hsafe.onMessage _ _ (show (s.toggles _).toggle? = some _ by rw [hpc]; rfl)
    exact absurd ⟨m, hm, hid⟩ hmissing
  | selected hpc | emitted hpc =>
    refine hs.goto rfl rfl (fun q' hk' => ?_) (by simp)
    rw [hpc]
    exact Iff.rfl
  | faulted => exact hproper.elim

/-! ## Runs -/

/-- A reaction that no call is about stays as it was. -/
theorem Asked.untouched {x : Reaction} (hs : Asked acts s) (h : Moved s a t)
    (hx : ∀ c q, .request c q ∈ acts → q.mark ≠ x.mark) : x ∈ t.reactions ↔ x ∈ s.reactions := by
  by_contra htoggled
  obtain ⟨_, _, _, _, -, hq, hmark, -⟩ := hs.toggled h htoggled
  exact hx _ _ hq hmark.symm

/-- The calls of a run flip the reaction one after the other. -/
theorem flipped_of_exec {rows : MessageTable} {reactions : ReactionTable}
    (hunique : MarksUnique reactions) (hproper : AllSteps step Proper (start rows reactions) acts)
    (hapart : AllSteps step (Apart k) (start rows reactions) acts)
    (hs : exec step (start rows reactions) acts = some s) :
    Flipped k (not^[asked k acts] (present reactions k)) s := by
  have hstart : Safe (start rows reactions) ∧
      Flipped k (not^[asked k []] (present reactions k)) (start rows reactions) :=
    ⟨safe_start rows hunique, flipped_start rows reactions k⟩
  have hboth := AllSteps.of_exec_append
    (P := fun acts s => Safe s ∧ Flipped k (not^[asked k acts] (present reactions k)) s)
    (fun as a s t h hC hst => ?_) (hproper.and hapart) hstart hs
  · exact hboth.2
  · obtain ⟨hsafe, hflipped⟩ := h
    have hmoved : Moved s a t := moved_of_step hst
    refine ⟨hsafe.moved hC.1 hmoved, ?_⟩
    have hone := hflipped.moved hsafe hC.1 hC.2 hmoved
    have hasked : asked k (as ++ [a]) = asked k as + if asks k a then 1 else 0 := by
      rw [asked, List.countP_append, List.countP_singleton]
      rfl
    rw [hasked]
    split_ifs at hone ⊢
    · rwa [Function.iterate_succ_apply']
    · exact hone

/-- **Toggles are safe.**  In every run of calls on messages that exist, on any tables and
beside any calls of the message service, no call of `toggle` fails, no reaction is stored
twice, a reaction no call is about stays as it was, and calls on a reaction that are not
made before those on it have written have flipped it as often as there were calls. -/
theorem toggles_are_safe (rows : MessageTable) (reactions : ReactionTable)
    (hunique : MarksUnique reactions) (acts : List Action)
    (hproper : AllSteps step Proper (start rows reactions) acts) (s : State)
    (hs : exec step (start rows reactions) acts = some s) :
    (∀ c e, s.toggles c ≠ .thrown e) ∧ MarksUnique s.reactions ∧
      (∀ x : Reaction, (∀ c q, .request c q ∈ acts → q.mark ≠ x.mark) →
        (x ∈ s.reactions ↔ x ∈ reactions)) ∧
      ∀ k, AllSteps step (Apart k) (start rows reactions) acts → Settled k s →
        present s.reactions k = not^[asked k acts] (present reactions k) := by
  have hsafe : Safe s :=
    (hproper.reach hs).invariant (fun _ _ _ h hC hst => h.moved hC (moved_of_step hst))
      (safe_start rows hunique)
  refine ⟨hsafe.unthrown, hsafe.unique, fun x hx => ?_, fun k hapart hsettled =>
    (flipped_of_exec hunique hproper hapart hs).settled hsettled⟩
  have hboth := of_exec_append
    (P := fun acts s => Asked acts s ∧
      ((∀ c q, .request c q ∈ acts → q.mark ≠ x.mark) → (x ∈ s.reactions ↔ x ∈ reactions)))
    (fun as a s t h hst => ?_) ⟨asked_start rows reactions, fun _ => Iff.rfl⟩ hs
  · exact hboth.2 hx
  · obtain ⟨hasked, hsame⟩ := h
    have hmoved : Moved s a t := moved_of_step hst
    refine ⟨hasked.moved hmoved, fun hx => ?_⟩
    have hbefore : ∀ c q, .request c q ∈ as → q.mark ≠ x.mark := fun c q hq =>
      hx c q (List.mem_append_left _ hq)
    exact (hasked.untouched hmoved hbefore).trans (hsame hbefore)

/-- User 6 toggles a reaction to message 1 of group 2, beside two overlapping calls of
user 7. -/
def threeToggles : List Action :=
  [ .request 0 ⟨2, 1, 6, "+"⟩, .request 1 ⟨2, 1, 7, "+"⟩, .request 2 ⟨2, 1, 7, "+"⟩,
    .statement 0 0 epoch, .statement 1 0 epoch, .statement 2 0 epoch,
    .statement 0 0 epoch, .statement 1 0 epoch, .statement 2 0 epoch,
    .statement 0 8 epoch, .statement 1 9 epoch, .statement 2 10 epoch ]

/-- Then user 6 toggles it again. -/
def fourToggles : List Action :=
  threeToggles ++ [.request 3 ⟨2, 1, 6, "+"⟩, .statement 3 0 epoch, .statement 3 0 epoch]

/-- What the calls have still to write is read off where each of them stands. -/
theorem settled_of_idle {n : ℕ} (hidle : ∀ c, s.toggles (c + n) = .idle)
    (h : ∀ c < n, ((s.toggles c).unwritten?.all fun q => q.mark ≠ k) = true) : Settled k s := by
  intro c q hq
  rcases lt_or_ge c n with hlt | hge
  · have hall := h c hlt
    rw [hq] at hall
    simpa using hall
  · have hnone := hidle (c - n)
    rw [Nat.sub_add_cancel hge] at hnone
    rw [hnone] at hq
    cases hq

/-- Only the first call on a reaction is made; the others are on other reactions. -/
theorem apart_of_cons {c : ℕ} {q : Toggle} (hsettled : Settled k s)
    (h : ∀ b ∈ acts, asks k b = false) : AllSteps step (Apart k) s (.request c q :: acts) := by
  refine fun t _ => ⟨fun _ _ _ _ => hsettled, AllSteps.of_mem fun b hb u c q hbq hk => ?_⟩
  have hasks := h b hb
  rw [hbq] at hasks
  exact absurd hk (of_decide_eq_false hasks)

theorem toggles_are_safe_fourToggles : ∃ s,
    exec step (start oneRow Table.empty) fourToggles = some s ∧
      (∀ c e, s.toggles c ≠ .thrown e) ∧ present s.reactions (1, 7, "+") = true ∧
      present s.reactions (1, 6, "+") = not^[2] (present Table.empty (1, 6, "+")) := by
  have hunique : MarksUnique Table.empty := fun r hr => absurd hr List.not_mem_nil
  have hstart : Settled (1, 6, "+") (start oneRow Table.empty) :=
    settled_of_idle (n := 0) (fun _ => rfl) (by decide)
  refine ⟨_, rfl, ?_⟩
  have hsafe := toggles_are_safe oneRow Table.empty hunique fourToggles (by decide) _ rfl
  refine ⟨hsafe.1, by decide, hsafe.2.2.2 (1, 6, "+") ?_ ?_⟩
  · refine AllSteps.append (apart_of_cons hstart (by decide)) fun u hu => ?_
    obtain rfl := Option.some.inj hu
    exact apart_of_cons (settled_of_idle (n := 3) (fun _ => rfl) (by decide)) (by decide)
  · exact settled_of_idle (n := 4) (fun _ => rfl) (by decide)

end Reactions
end Messages
end GroupChat

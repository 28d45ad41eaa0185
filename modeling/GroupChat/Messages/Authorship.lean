import GroupChat.Messages.Reactions

/-!
# Who changes a message

An edit or a deletion reads the row of its message once, to check that the caller has
written it, and updates it later by id alone.  Between the two any other call may run.
What the check has found cannot change in the meantime: no statement changes the group,
the author, the type or the time of a row, and none removes one.

So every change of a row is a statement of an edit or a deletion that was asked for by the
row's author in the row's group, and every change of a reaction is one that its user has
asked for (`authorship_is_kept`).
-/

namespace GroupChat
namespace Messages

open Common Database Transition

/-! ## What the message service keeps -/

/-- The call an action moves. -/
def Action.call : Action → ℕ
  | .request c _ | .statement c _ _ | .emit c | .fault c => c

/-- The columns that are written once. -/
structure SameOrigin (m m' : Message) : Prop where
  id_eq : m'.id = m.id
  groupId_eq : m'.groupId = m.groupId
  senderId_eq : m'.senderId = m.senderId
  type_eq : m'.type = m.type
  createdAt_eq : m'.createdAt = m.createdAt

theorem SameOrigin.refl (m : Message) : SameOrigin m m := ⟨rfl, rfl, rfl, rfl, rfl⟩

theorem Change.sameOrigin (change : Change) (now : Instant) (m : Message) :
    SameOrigin m (change.apply now m) := by
  cases change <;> exact ⟨rfl, rfl, rfl, rfl, rfl⟩

theorem SameOrigin.ownedBy {m m' : Message} (h : SameOrigin m m')
    {groupId messageId userId : Uuid} (howned : m.OwnedBy groupId messageId userId) :
    m'.OwnedBy groupId messageId userId :=
  ⟨h.id_eq.trans howned.id_eq, h.groupId_eq.trans howned.groupId_eq,
    h.senderId_eq.trans howned.senderId_eq, h.type_eq.trans howned.type_eq⟩

variable {s t : State} {a : Action}

/-- **No statement loses a row**, or changes a column that is written once. -/
theorem sameOrigin_of_step (h : step s a = some t) {m : Message} (hm : m ∈ s.rows) :
    ∃ m' ∈ t.rows, SameOrigin m m' := by
  rcases rows_of_step h with hrows | ⟨x, hins, hrows⟩ | ⟨change, now, x, hover, hrows⟩
  · rw [hrows]
    exact ⟨m, hm, .refl m⟩
  · have hne : m.id ≠ x.id := Table.find?_eq_none_iff.mp hins.find?_eq_none m hm
    rw [hrows]
    exact ⟨m, (Table.mem_put_of_key_ne hne).mpr hm, .refl m⟩
  · rw [hrows]
    obtain ⟨_, _, _, -, -, hfind⟩ := hover
    by_cases hid : m.id = x.id
    · obtain rfl : m = x := Table.eq_of_key_eq hm (Table.mem_of_find? hfind) hid
      exact ⟨change.apply now m, Table.mem_put_self _ _, change.sameOrigin now m⟩
    · refine ⟨m, (Table.mem_put_of_key_ne ?_).mpr hm, .refl m⟩
      rw [Change.apply_id]
      exact hid

/-- The call has written its row. -/
def Call.wrote : Call → Bool
  | .emitting _ | .returned _ => true
  | _ => false

/-- A call that writes has written, whatever it does next. -/
theorem wrote_of_step (h : step s a = some t) :
    (t.rows ≠ s.rows → (t.calls a.call).wrote = true) ∧
      ∀ c, (s.calls c).wrote = true → (t.calls c).wrote = true := by
  -- a call that has not written and does not write now
  have hquiet : ∀ {c : ℕ} {pc : Call}, (s.calls c).wrote = false →
      ((s.goto c pc).rows ≠ s.rows → ((s.goto c pc).calls c).wrote = true) ∧
        ∀ c', (s.calls c').wrote = true → ((s.goto c pc).calls c').wrote = true := by
    intro c pc hpc
    refine ⟨fun hne => absurd rfl hne, fun c' hc' => ?_⟩
    have hne : c' ≠ c := by
      rintro rfl
      rw [hpc] at hc'
      exact absurd hc' (by simp)
    show (Function.update s.calls c pc c').wrote = true
    rwa [Function.update_of_ne hne]
  have hwritten : ∀ {c : ℕ} {pc : Call} {u : State}, pc.wrote = true →
      u.calls = s.calls → ((u.goto c pc).rows ≠ s.rows → ((u.goto c pc).calls c).wrote = true) ∧
        ∀ c', (s.calls c').wrote = true → ((u.goto c pc).calls c').wrote = true := by
    intro c pc u hpc hcalls
    have hself : ((u.goto c pc).calls c).wrote = true := by
      show (Function.update u.calls c pc c).wrote = true
      rwa [Function.update_self]
    refine ⟨fun _ => hself, fun c' hc' => ?_⟩
    by_cases hc : c' = c
    · rwa [hc]
    · show (Function.update u.calls c pc c').wrote = true
      rwa [Function.update_of_ne hc, hcalls]
  cases moved_of_step h with
  | requested hpc => exact hquiet (by rw [hpc]; rfl)
  | inserted hpc => exact hwritten rfl rfl
  | collided hpc => exact hquiet (by rw [hpc]; rfl)
  | refused hpc => exact hquiet (by rw [hpc]; rfl)
  | authorised hpc => exact hquiet (by rw [hpc]; rfl)
  | updated hpc => exact hwritten rfl rfl
  | vanished hpc => exact hquiet (by rw [hpc]; rfl)
  | emitted hpc => exact hwritten rfl rfl
  | @faulted c hrunning =>
    refine hquiet ?_
    cases hpc : s.calls c with
    | persisting | asserting | updating | idle | thrown => rfl
    | emitting | returned =>
      rw [hpc] at hrunning
      exact absurd hrunning (by simp [Call.running])

/-- What a call has become after its step: a query it prepares is one it was just asked for,
and an update it prepares is of a row that the query has found to be its caller's. -/
theorem call_of_moved (h : Moved s a t) : ∃ pc, t.calls = Function.update s.calls a.call pc ∧
    (∀ groupId messageId userId change, pc = .asserting groupId messageId userId change →
      ∃ r, a = .request a.call r ∧ r.start = .asserting groupId messageId userId change) ∧
    ∀ messageId change, pc = .updating messageId change → ∃ groupId userId,
      s.calls a.call = .asserting groupId messageId userId change ∧
        ∃ m ∈ s.rows, m.OwnedBy groupId messageId userId := by
  cases h with
  | @requested c r hpc =>
    refine ⟨r.start, rfl, fun _ _ _ _ hr => ⟨r, rfl, hr⟩, fun _ _ hr => ?_⟩
    cases r <;> cases hr
  | authorised hpc hm =>
    refine ⟨_, rfl, by simp, fun messageId change hpc' => ?_⟩
    cases hpc'
    exact ⟨_, _, hpc, _, authorise_eq_ok hm⟩
  | inserted | collided | refused | updated | vanished | emitted | faulted =>
    exact ⟨_, rfl, by simp, by simp⟩

namespace Reactions

/-! ## The property -/

/-- The call is an edit or a deletion of the message by its author, in its group. -/
def Authored (r : Request) (m : Message) : Prop :=
  match r with
  | .edit groupId messageId userId _ | .softDelete groupId messageId userId =>
    m.OwnedBy groupId messageId userId
  | .create .. | .createWithAttachment .. => False

/-- The call that the action moves has ended in an exception of its own. -/
def Refused (u : State) : Action → Prop
  | .message a => ∃ e, u.messages.calls a.call = .thrown e
  | .request c _ | .statement c _ _ | .emit c | .fault c =>
    ∃ e, e ≠ .fault ∧ u.toggles c = .thrown e
  | .post .. => False

/-- What one step, after the actions of a run, does to the rows. -/
structure AuthorshipKept (acts : List Action) (s : State) (a : Action) (t : State) : Prop where
  /-- A row stays, and so do its group, its author, its type and its time. -/
  sameOrigin : ∀ m ∈ s.messages.rows, ∃ m' ∈ t.messages.rows, SameOrigin m m'
  /-- A row is changed by an edit or a deletion that its author has asked for. -/
  authored : ∀ m ∈ s.messages.rows, m ∉ t.messages.rows → ∃ c id now r,
    a = .message (.statement c id now) ∧ .message (.request c r) ∈ acts ∧ Authored r m
  notUser : ∀ m ∈ s.messages.rows, m.type ≠ .user → m ∈ t.messages.rows
  /-- A reaction comes or goes by a toggle of its user, message and emoji, in the group of
  the message. -/
  toggled : ∀ x, ¬(x ∈ t.reactions ↔ x ∈ s.reactions) → ∃ c id now q,
    a = .statement c id now ∧ .request c q ∈ acts ∧ x.mark = q.mark ∧
      ∃ m ∈ s.messages.rows, m.id = q.messageId ∧ m.groupId = q.groupId
  /-- A call that is refused in the end changes nothing. -/
  refused : ∀ bs u, exec step t bs = some u → Refused u a →
    t.messages.rows = s.messages.rows ∧ t.reactions = s.reactions

/-! ## What the calls know -/

variable {acts : List Action} {s t : State} {a : Action}

/-- What the calls were asked, and what their queries have found. -/
structure Asked (acts : List Action) (s : State) : Prop where
  asserting : ∀ c groupId messageId userId change,
    s.messages.calls c = .asserting groupId messageId userId change →
      ∃ r, .message (.request c r) ∈ acts ∧ r.start = .asserting groupId messageId userId change
  updating : ∀ c messageId change, s.messages.calls c = .updating messageId change →
    ∃ r, .message (.request c r) ∈ acts ∧
      ∃ m ∈ s.messages.rows, m.id = messageId ∧ Authored r m
  toggles : ∀ c q, (s.toggles c).toggle? = some q → .request c q ∈ acts
  found : ∀ c q, s.toggles c = .deleting q ∨ s.toggles c = .creating q →
    ∃ m ∈ s.messages.rows, m.id = q.messageId ∧ m.groupId = q.groupId

theorem asked_start (rows : MessageTable) (reactions : ReactionTable) :
    Asked [] (start rows reactions) where
  asserting _ _ _ _ _ h := by cases h
  updating _ _ _ h := by cases h
  toggles _ _ h := by cases h
  found _ _ h := by rcases h with h | h <;> cases h

theorem authored_of_start {r : Request} {groupId messageId userId : Uuid} {change : Change}
    {m : Message} (h : r.start = .asserting groupId messageId userId change)
    (hm : m.OwnedBy groupId messageId userId) : Authored r m := by
  cases r with
  | create | createWithAttachment => cases h
  | edit | softDelete =>
    cases h
    exact hm

theorem Authored.sameOrigin {r : Request} {m m' : Message} (h : Authored r m)
    (hsame : SameOrigin m m') : Authored r m' := by
  cases r with
  | create | createWithAttachment => exact h
  | edit | softDelete => exact hsame.ownedBy h

/-- No step loses a message, or moves it to another group. -/
theorem sameOrigin_of_moved (h : Moved s a t) {m : Message} (hm : m ∈ s.messages.rows) :
    ∃ m' ∈ t.messages.rows, SameOrigin m m' := by
  cases h with
  | message hstep => exact sameOrigin_of_step hstep hm
  | posted hfresh =>
    exact ⟨m, (Table.mem_put_of_key_ne (Table.find?_eq_none_iff.mp hfresh m hm)).mpr hm, .refl m⟩
  | requested | found | missing | deleted | absent | overtaken | created | orphaned | selected
  | emitted | faulted => exact ⟨m, hm, .refl m⟩

/-- The calls of the message service go on. -/
theorem Asked.message (hs : Asked acts s) {b : Messages.Action} {messages : Messages.State}
    (h : Messages.step s.messages b = some messages) :
    Asked (acts ++ [.message b]) { s with messages := messages } := by
  obtain ⟨pc, hcalls, hasked, hupd⟩ := call_of_moved (Messages.moved_of_step h)
  refine ⟨fun c groupId messageId userId change hpc => ?_, fun c messageId change hpc => ?_,
    fun c q hq => List.mem_append_left _ (hs.toggles c q hq), fun c q hq => ?_⟩
  · by_cases hc : c = b.call
    · have hpc' : pc = .asserting groupId messageId userId change := by
        rw [← hpc, hcalls, hc, Function.update_self]
      obtain ⟨r, hb, hr⟩ := hasked _ _ _ _ hpc'
      refine ⟨r, List.mem_append_right _ (List.mem_singleton.mpr ?_), hr⟩
      rw [hc, ← hb]
    · have hold : s.messages.calls c = .asserting groupId messageId userId change := by
        rw [← hpc, hcalls, Function.update_of_ne hc]
      obtain ⟨r, hr, hstart⟩ := hs.asserting _ _ _ _ _ hold
      exact ⟨r, List.mem_append_left _ hr, hstart⟩
  · have hold : ∃ r, .message (.request c r) ∈ acts ∧
        ∃ m ∈ s.messages.rows, m.id = messageId ∧ Authored r m := by
      by_cases hc : c = b.call
      · have hpc' : pc = .updating messageId change := by
          rw [← hpc, hcalls, hc, Function.update_self]
        obtain ⟨groupId, userId, hbefore, m, hm, howned⟩ := hupd _ _ hpc'
        rw [← hc] at hbefore
        obtain ⟨r, hr, hstart⟩ := hs.asserting _ _ _ _ _ hbefore
        exact ⟨r, hr, m, hm, howned.id_eq, authored_of_start hstart howned⟩
      · refine hs.updating c messageId change ?_
        rw [← hpc, hcalls, Function.update_of_ne hc]
    obtain ⟨r, hr, m, hm, hid, hauthored⟩ := hold
    obtain ⟨m', hm', hsame⟩ := sameOrigin_of_step h hm
    exact ⟨r, List.mem_append_left _ hr, m', hm', hsame.id_eq.trans hid,
      hauthored.sameOrigin hsame⟩
  · obtain ⟨m, hm, hid, hgroup⟩ := hs.found c q hq
    obtain ⟨m', hm', hsame⟩ := sameOrigin_of_step h hm
    exact ⟨m', hm', hsame.id_eq.trans hid, hsame.groupId_eq.trans hgroup⟩

/-- A call of `toggle` goes on with what it was asked, after a query that has found the
message. -/
theorem Asked.toggle (hs : Asked acts s) {c : ℕ} {pc : Call} {u : State}
    (hmessages : u.messages = s.messages) (htoggles : u.toggles = s.toggles)
    (hpc : ∀ q, pc.toggle? = some q →
      (s.toggles c).toggle? = some q ∨ a = .request c q)
    (hfound : ∀ q, pc = .deleting q ∨ pc = .creating q →
      ∃ m ∈ s.messages.rows, m.id = q.messageId ∧ m.groupId = q.groupId) :
    Asked (acts ++ [a]) (u.goto c pc) := by
  have hcalls : (u.goto c pc).toggles = Function.update s.toggles c pc := by
    show Function.update u.toggles c pc = _
    rw [htoggles]
  have hrows : (u.goto c pc).messages = s.messages := hmessages
  refine ⟨?_, ?_, fun c' q hq => ?_, fun c' q hq => ?_⟩
  · intro c' groupId messageId userId change h
    rw [hrows] at h
    obtain ⟨r, hr, hstart⟩ := hs.asserting _ _ _ _ _ h
    exact ⟨r, List.mem_append_left _ hr, hstart⟩
  · intro c' messageId change h
    rw [hrows] at h ⊢
    obtain ⟨r, hr, hm⟩ := hs.updating _ _ _ h
    exact ⟨r, List.mem_append_left _ hr, hm⟩
  · rw [hcalls] at hq
    by_cases hc : c' = c
    · rw [hc, Function.update_self] at hq
      rw [hc]
      rcases hpc q hq with hold | rfl
      · exact List.mem_append_left _ (hs.toggles c q hold)
      · exact List.mem_append_right _ (List.mem_singleton.mpr rfl)
    · rw [Function.update_of_ne hc] at hq
      exact List.mem_append_left _ (hs.toggles c' q hq)
  · rw [hcalls] at hq
    rw [hrows]
    by_cases hc : c' = c
    · rw [hc, Function.update_self] at hq
      exact hfound q hq
    · rw [Function.update_of_ne hc] at hq
      exact hs.found c' q hq

/-- **One step.** -/
theorem Asked.moved (hs : Asked acts s) (h : Moved s a t) : Asked (acts ++ [a]) t := by
  cases h with
  | message hstep => exact hs.message hstep
  | @posted groupId content id now hfresh =>
    have hold : ∀ m ∈ s.messages.rows,
        m ∈ (s.messages.post (persistAiSummary groupId content id now)).rows := fun m hm =>
      (Table.mem_put_of_key_ne (Table.find?_eq_none_iff.mp hfresh m hm)).mpr hm
    refine ⟨fun c _ _ _ _ hpc => ?_, fun c _ _ hpc => ?_,
      fun c q hq => List.mem_append_left _ (hs.toggles c q hq), fun c q hq => ?_⟩
    · obtain ⟨r, hr, hstart⟩ := hs.asserting c _ _ _ _ hpc
      exact ⟨r, List.mem_append_left _ hr, hstart⟩
    · obtain ⟨r, hr, m, hm, hauthored⟩ := hs.updating c _ _ hpc
      exact ⟨r, List.mem_append_left _ hr, m, hold m hm, hauthored⟩
    · obtain ⟨m, hm, hfound⟩ := hs.found c q hq
      exact ⟨m, hold m hm, hfound⟩
  | requested hpc =>
    exact hs.toggle rfl rfl (fun q hq => Or.inr (by rw [Option.some.inj hq])) (by simp)
  | found hpc hfound =>
    refine hs.toggle rfl rfl (fun q hq => Or.inl (by rw [hpc]; exact hq)) fun q hq => ?_
    rcases hq with hq | hq
    · rw [← Call.deleting.inj hq]
      exact hfound
    · cases hq
  | absent hpc hunmarked =>
    refine hs.toggle rfl rfl (fun q hq => Or.inl (by rw [hpc]; exact hq)) fun q hq => ?_
    rcases hq with hq | hq
    · cases hq
    · rw [← Call.creating.inj hq]
      exact hs.found _ _ (Or.inl hpc)
  | deleted hpc | overtaken hpc | created hpc =>
    exact hs.toggle rfl rfl (fun q hq => Or.inl (by rw [hpc]; exact hq)) (by simp)
  | missing | orphaned | selected | emitted | faulted =>
    exact hs.toggle rfl rfl (fun q hq => absurd hq (by simp [Call.toggle?])) (by simp)

/-! ## What a call has written -/

/-- The call is past its write, and none of its checks can fail any more. -/
def Call.wrote : Call → Bool
  | .reading _ | .emitting _ | .returned _ | .thrown .fault => true
  | _ => false

/-- A call that is past its write stays so. -/
theorem wrote_of_moved (h : Moved s a t) {c : ℕ} (hc : (s.toggles c).wrote = true) :
    (t.toggles c).wrote = true := by
  have hgoto : ∀ {c' : ℕ} {pc : Call} {u : State}, u.toggles = s.toggles →
      (s.toggles c').wrote = false ∨ pc.wrote = true → ((u.goto c' pc).toggles c).wrote = true := by
    intro c' pc u hu hpc
    show (Function.update u.toggles c' pc c).wrote = true
    by_cases hcc : c = c'
    · rw [hcc, Function.update_self]
      refine hpc.resolve_left fun hnot => ?_
      rw [hcc, hnot] at hc
      exact absurd hc (by simp)
    · rwa [Function.update_of_ne hcc, hu]
  cases h with
  | message | posted => exact hc
  | requested hpc | found hpc | missing hpc | absent hpc | orphaned hpc =>
    exact hgoto rfl (Or.inl (by rw [hpc]; rfl))
  | deleted | overtaken | created | selected | emitted | faulted => exact hgoto rfl (Or.inr rfl)

/-- A step that changes a table takes its call past its write, for good. -/
theorem not_refused_of_changed (h : step s a = some t)
    (hne : t.messages.rows ≠ s.messages.rows ∨ t.reactions ≠ s.reactions) {bs : List Action}
    {u : State} (hu : exec step t bs = some u) : ¬ Refused u a := by
  have htoggle : ∀ c, (t.toggles c).wrote = true → ∀ e, e ≠ .fault → u.toggles c ≠ .thrown e := by
    intro c hc e he hthrown
    have hwrote : (u.toggles c).wrote = true :=
      (reach_of_exec hu).invariant
        (fun _ _ _ hs _ hst => wrote_of_moved (moved_of_step hst) hs) hc
    rw [hthrown] at hwrote
    cases e <;> first | exact he rfl | cases hwrote
  have hmessage : ∀ c, (t.messages.calls c).wrote = true → ∀ e, u.messages.calls c ≠ .thrown e := by
    intro c hc e hthrown
    have hwrote : (u.messages.calls c).wrote = true := by
      refine (reach_of_exec hu).invariant (P := fun v => (v.messages.calls c).wrote = true) ?_ hc
      intro v b w hv _ hst
      cases moved_of_step hst with
      | message hstep => exact (wrote_of_step hstep).2 c hv
      | posted | requested | found | missing | deleted | absent | overtaken | created | orphaned
      | selected | emitted | faulted => exact hv
    rw [hthrown] at hwrote
    cases hwrote
  cases moved_of_step h with
  | message hstep =>
    rintro ⟨e, he⟩
    exact hmessage _ ((wrote_of_step hstep).1 (hne.resolve_right fun h => h rfl)) e he
  | posted => exact id
  | deleted hpc hmarked | created hpc =>
    rintro ⟨e, hne, he⟩
    refine htoggle _ ?_ e hne he
    show (Function.update s.toggles _ _ _).wrote = true
    rw [Function.update_self]
    rfl
  | requested | found | missing | absent | overtaken | orphaned | selected | emitted | faulted =>
    rcases hne with hne | hne <;> exact absurd rfl hne

/-! ## Runs -/

/-- A row that a step changes is changed by the update of its author's call. -/
theorem Asked.authored (hs : Asked acts s) (h : Moved s a t) {m : Message}
    (hm : m ∈ s.messages.rows) (hgone : m ∉ t.messages.rows) : ∃ c id now r,
      a = .message (.statement c id now) ∧ .message (.request c r) ∈ acts ∧ Authored r m := by
  cases h with
  | message hstep =>
    rcases rows_of_step hstep with hrows | ⟨x, hins, hrows⟩ | ⟨change, now, x, hover, hrows⟩
    · refine absurd ?_ hgone
      show m ∈ _
      rwa [hrows]
    · refine absurd ?_ hgone
      show m ∈ _
      rw [hrows]
      exact (Table.mem_put_of_key_ne
        (Table.find?_eq_none_iff.mp hins.find?_eq_none m hm)).mpr hm
    · obtain ⟨c, id, messageId, rfl, hpc, hfind⟩ := hover
      obtain ⟨r, hr, m', hm', hid, hauthored⟩ := hs.updating c messageId change hpc
      have hx : x = m' := Table.eq_of_key_eq (Table.mem_of_find? hfind) hm'
        ((Table.key_of_find? hfind).trans hid.symm)
      have hmx : m.id = x.id := by
        by_contra hne
        refine hgone ?_
        show m ∈ _
        rw [hrows]
        refine (Table.mem_put_of_key_ne ?_).mpr hm
        rwa [Change.apply_id]
      rw [Table.eq_of_key_eq hm (Table.mem_of_find? hfind) hmx, hx]
      exact ⟨c, id, now, r, rfl, hr, hauthored⟩
  | posted hfresh =>
    exact absurd ((Table.mem_put_of_key_ne (Table.find?_eq_none_iff.mp hfresh m hm)).mpr hm) hgone
  | requested | found | missing | deleted | absent | overtaken | created | orphaned | selected
  | emitted | faulted => exact absurd hm hgone

/-- A reaction that comes or goes is the one of the call that runs. -/
theorem Asked.toggled (hs : Asked acts s) (h : Moved s a t) {x : Reaction}
    (hx : ¬(x ∈ t.reactions ↔ x ∈ s.reactions)) : ∃ c id now q,
      a = .statement c id now ∧ .request c q ∈ acts ∧ x.mark = q.mark ∧
        ∃ m ∈ s.messages.rows, m.id = q.messageId ∧ m.groupId = q.groupId := by
  cases h with
  | @deleted c id now q hpc hmarked =>
    refine ⟨c, id, now, q, rfl, hs.toggles c q (by rw [hpc]; rfl), ?_,
      hs.found c q (Or.inl hpc)⟩
    by_contra hne
    refine hx (Table.mem_filter.trans (and_iff_left ?_))
    simpa using hne
  | @created c id now q hpc hfresh hunmarked hfound =>
    refine ⟨c, id, now, q, rfl, hs.toggles c q (by rw [hpc]; rfl), ?_,
      hs.found c q (Or.inr hpc)⟩
    by_contra hne
    have hrow : x ≠ q.toRow id now := by
      rintro rfl
      exact hne rfl
    refine hx ⟨fun h => ((Table.mem_put.mp h).resolve_left hrow).1, fun h => ?_⟩
    exact (Table.mem_put_of_key_ne (Table.find?_eq_none_iff.mp hfresh x h)).mpr h
  | message | posted | requested | found | missing | absent | overtaken | orphaned | selected
  | emitted | faulted => exact absurd Iff.rfl hx

theorem asked_of_exec {rows : MessageTable} {reactions : ReactionTable}
    (hs : exec step (start rows reactions) acts = some s) : Asked acts s :=
  of_exec_append (P := Asked) (fun _ _ _ _ h hst => h.moved (moved_of_step hst))
    (asked_start rows reactions) hs

/-- **Authorship is kept.**  In every run of the message service, of `toggle` and of
`persistAiSummary` on any tables, every step changes only what its call was asked to change
by the author or the user it belongs to. -/
theorem authorship_is_kept (rows : MessageTable) (reactions : ReactionTable)
    (acts : List Action) (s t : State) (a : Action)
    (hs : exec step (start rows reactions) acts = some s) (h : step s a = some t) :
    AuthorshipKept acts s a t := by
  have hasked : Asked acts s := asked_of_exec hs
  have hmoved : Moved s a t := moved_of_step h
  refine ⟨fun m hm => sameOrigin_of_moved hmoved hm, fun m hm => hasked.authored hmoved hm,
    fun m hm htype => ?_, fun x hx => hasked.toggled hmoved hx, fun bs u hu hrefused => ?_⟩
  · by_contra hgone
    obtain ⟨_, _, _, r, -, -, hauthored⟩ := hasked.authored hmoved hm hgone
    cases r with
    | create | createWithAttachment => exact hauthored
    | edit | softDelete => exact htype hauthored.type_eq
  · by_contra hne
    exact not_refused_of_changed h (not_and_or.mp hne) hu hrefused

/-- A message of user 5 in group 2. -/
def oneRow : MessageTable :=
  Table.empty.put ⟨1, 2, some 5, "a", .user, epoch, none, none, none, none, none⟩

/-- Its author edits it while user 6 reacts and tries to delete it; everything but the write
of the edit is done. -/
def editRun : List Action :=
  [ .message (.request 0 (.edit 2 1 5 "b")), .message (.request 1 (.softDelete 2 1 6)),
    .request 0 ⟨2, 1, 6, "+"⟩, .message (.statement 0 0 epoch), .statement 0 0 epoch,
    .message (.statement 1 0 epoch), .statement 0 0 epoch, .statement 0 9 epoch ]

theorem authorship_is_kept_editRun : ∃ s t, exec step (start oneRow Table.empty) editRun = some s ∧
    AuthorshipKept editRun s (.message (.statement 0 0 epoch)) t ∧
      t.messages.rows.rows.map Message.content = ["b"] :=
  ⟨_, _, rfl, authorship_is_kept oneRow Table.empty editRun _ _ _ rfl rfl, rfl⟩

end Reactions
end Messages
end GroupChat

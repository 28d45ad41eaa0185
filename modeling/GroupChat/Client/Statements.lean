import GroupChat.Client.Members

/-!
# Whole calls, a statement at a time

`join`, `leave` and `transferOwnership` of the member list run from beginning to end on the two
tables.  The service runs them a statement at a time, and here they are what its statements come
to when no other call has anything open.  `Solo` is such a run of one call, `ran_of_call` takes
every call that succeeds to one, and `exists_exec_of_calls` calls one after another.

`markRead` is not among them.  It writes in a single statement, and what overlaps with it is in
`Groups.ReadReceipts`.
-/

namespace GroupChat
namespace Client

open Common Database Groups Transition

/-! ## One call, while the others stand still -/

/-- The run has come from `s` to `s'` by steps of call `c`, which is on its own. -/
structure Solo (c : ℕ) (s s' : Groups.State) (t : Tables) (ws : List (Write Row Key))
    (pc : Groups.Call) (aux : Log) : Prop where
  exec_eq : ∃ as : List Action, (∀ a ∈ as, a.call = c) ∧ exec Groups.step s as = some s'
  alone : s'.Alone c t ws pc
  others : ∀ c' ≠ c, s'.calls c' = s.calls c'
  aux_eq : s'.aux = aux

variable {c : ℕ} {s s' : Groups.State} {t t' : Tables} {ws : List (Write Row Key)}
  {pc : Groups.Call} {aux aux' : Log}

/-- **A call on its own takes its next step.** -/
theorem Solo.step (h : Solo c s s' t ws pc aux) {a : Action} (ha : a.call = c)
    {e : Effect Row Key Groups.Call} (hdecide : decide? s' a = some (e, aux')) :
    ∃ s'', Solo c s s'' (e.after t ws).1 (e.after t ws).2 e.pc aux' := by
  obtain ⟨as, has, hexec⟩ := h.exec_eq
  obtain ⟨s'', hperform, halone⟩ := h.alone.exists_perform e aux'
  refine ⟨s'', ⟨as ++ [a], ?_, ?_⟩, halone, fun c' hne => ?_, System.aux_of_perform hperform⟩
  · intro b hb
    rcases List.mem_append.mp hb with hb | hb
    · exact has b hb
    · rw [List.mem_singleton.mp hb, ha]
  · have hstep : Groups.step s' a = some s'' := by
      unfold Groups.step
      rw [hdecide, Option.bind_some, ha, hperform]
    rw [exec_append, hexec, Option.bind_some, exec_cons_of_step hstep, exec_nil]
  · rw [(System.frame_of_perform hperform).calls_of_ne c' hne, h.others c' hne]

/-- A statement that inserts nothing. -/
theorem Solo.statement (h : Solo c s s' t ws pc aux) {e : Effect Row Key Groups.Call}
    (hstatement : Groups.statement s' c 0 epoch = some (e, aux)) :
    ∃ s'', Solo c s s'' (e.after t ws).1 (e.after t ws).2 e.pc aux :=
  h.step (a := .statement c 0 epoch) rfl hstatement

/-- The transaction is committed and the events are emitted. -/
theorem Solo.finish {o : Groups.Outcome} (h : Solo c s s' t ws (.committing o) aux) :
    ∃ s'', Solo c s s'' (t.applyAll ws) [] (.returned o.result)
      { aux with events := aux.events ++ o.events } := by
  have hcommit : decide? s' (.commit c) = some (.commit (.emitting o.events o.result), aux) := by
    simp only [decide?, h.alone.call, h.aux_eq]
  obtain ⟨s₁, h₁⟩ := h.step (a := .commit c) rfl hcommit
  have hcall : s₁.calls c = .emitting o.events o.result := h₁.alone.call
  have hemit : decide? s₁ (.emit c) = some (.goto (.returned o.result),
      { aux with events := aux.events ++ o.events }) := by
    simp only [decide?, hcall, h₁.aux_eq]
  exact h₁.step (a := .emit c) rfl hemit

theorem memberById_of_mem {r : GroupMember} (h : .member r ∈ t) : memberById t r.id = some r := by
  unfold memberById
  rw [← Row.key_member, Table.find?_of_mem h]
  rfl

/-- An update or a deletion of a row that is there. -/
theorem updateById_of_mem {r : GroupMember} (h : .member r ∈ t)
    (write : GroupMember → Write Row Key) (pc : Groups.Call) :
    updateById t r.id write pc = .write [write r] pc := by
  unfold updateById
  rw [memberById_of_mem h]

/-- **A member leaves**, after a successor was promoted if it owned the group. -/
theorem solo_leave {userId groupId : Uuid} {o : Groups.Outcome}
    (hcall : leave t groupId userId = .ok (t', o)) (hkept : ∀ me, o ≠ .deletedGroup me)
    (h : Solo c s s' t [] (.leaveReading userId groupId) aux) :
    ∃ s'', Solo c s s'' t' [] (.returned o.result)
      { aux with events := aux.events ++ o.events } := by
  unfold leave at hcall
  split at hcall
  · cases hcall
  · next me hme =>
    obtain ⟨hmem, rfl, rfl⟩ := membership_eq_some hme
    split_ifs at hcall with hrole
    · cases hcall
      obtain ⟨s₁, h₁⟩ := h.statement (e := .goto (.leaveDeleting me)) (by
        simp only [Groups.statement, h.alone.call, h.alone.view, h.aux_eq, Table.applyAll_nil, hme,
          if_pos hrole])
      obtain ⟨s₂, h₂⟩ := h₁.statement (e := .write [removeMember me] (.committing (.left me))) (by
        simp only [Groups.statement, h₁.alone.call, h₁.alone.view, h₁.aux_eq, Table.applyAll_nil,
          updateById_of_mem hmem, Effect.after, Effect.pc])
      exact h₂.finish
    · split at hcall
      · cases hcall
        exact absurd rfl (hkept me)
      · next next hnext =>
        cases hcall
        obtain ⟨hnextmem, -, hne⟩ := successor_eq_some hnext
        have hpromoted : .member me ∈ t.put (.member { next with role := .owner }) :=
          mem_put_role hnextmem hmem (Ne.symm hne) .owner
        obtain ⟨s₁, h₁⟩ := h.statement (e := .goto (.leaveReadingSuccessor me)) (by
          simp only [Groups.statement, h.alone.call, h.alone.view, h.aux_eq, Table.applyAll_nil,
            hme, if_neg hrole])
        obtain ⟨s₂, h₂⟩ := h₁.statement (e := .goto (.leavePromoting me next)) (by
          simp only [Groups.statement, h₁.alone.call, h₁.alone.view, h₁.aux_eq,
            Table.applyAll_nil, hnext, Effect.after, Effect.pc])
        obtain ⟨s₃, h₃⟩ := h₂.statement
          (e := .write [setRole .owner next] (.leaveDeletingOwner me next)) (by
            simp only [Groups.statement, h₂.alone.call, h₂.alone.view, h₂.aux_eq,
              Table.applyAll_nil, updateById_of_mem hnextmem, Effect.after, Effect.pc])
        have hview : s₃.store.view c = t.put (.member { next with role := .owner }) := h₃.alone.view
        obtain ⟨s₄, h₄⟩ := h₃.statement
          (e := .write [removeMember me] (.committing (.handedOver me next))) (by
            simp only [Groups.statement, h₃.alone.call, hview, h₃.aux_eq,
              updateById_of_mem hpromoted, Effect.pc])
        exact h₄.finish

/-- **The owner hands the group over.** -/
theorem solo_transferOwnership {groupId callerId targetUserId : Uuid} {o : Groups.Outcome}
    (hcall : transferOwnership t groupId callerId targetUserId = .ok (t', o))
    (h : Solo c s s' t [] (Request.transferOwnership callerId groupId targetUserId).start aux) :
    ∃ s'', Solo c s s'' t' [] (.returned o.result)
      { aux with events := aux.events ++ o.events } := by
  unfold transferOwnership at hcall
  split_ifs at hcall with hself
  have hstart : (Request.transferOwnership callerId groupId targetUserId).start =
      .transferReadingCaller callerId groupId targetUserId := if_neg hself
  rw [hstart] at h
  split at hcall
  · cases hcall
  · next caller hcaller =>
    split_ifs at hcall with hrole
    split at hcall
    · cases hcall
    · next target htarget =>
      cases hcall
      obtain ⟨hcallermem, rfl, rfl⟩ := membership_eq_some hcaller
      obtain ⟨htargetmem, -, rfl⟩ := membership_eq_some htarget
      have hpromoted : .member caller ∈ t.put (.member { target with role := .owner }) :=
        mem_put_role htargetmem hcallermem hself .owner
      obtain ⟨s₁, h₁⟩ := h.statement (e := .goto (.transferReadingTarget caller target.userId)) (by
        simp only [Groups.statement, h.alone.call, h.alone.view, h.aux_eq, Table.applyAll_nil,
          hcaller, if_neg hrole])
      obtain ⟨s₂, h₂⟩ := h₁.statement (e := .goto (.transferPromoting caller target)) (by
        simp only [Groups.statement, h₁.alone.call, h₁.alone.view, h₁.aux_eq, Table.applyAll_nil,
          htarget, Effect.after, Effect.pc])
      obtain ⟨s₃, h₃⟩ := h₂.statement
        (e := .write [setRole .owner target] (.transferDemoting caller target)) (by
          simp only [Groups.statement, h₂.alone.call, h₂.alone.view, h₂.aux_eq,
            Table.applyAll_nil, updateById_of_mem htargetmem, Effect.after, Effect.pc])
      have hview : s₃.store.view c = t.put (.member { target with role := .owner }) :=
        h₃.alone.view
      obtain ⟨s₄, h₄⟩ := h₃.statement
        (e := .write [setRole .member caller] (.committing (.transferred caller target))) (by
          simp only [Groups.statement, h₃.alone.call, hview, h₃.aux_eq,
            updateById_of_mem hpromoted, Effect.pc])
      exact h₄.finish

/-- **A member joins**, under an id that was never given to a membership. -/
theorem solo_join {groupId userId id : Uuid} {now : Instant} {events : List Broadcast}
    (hcall : join t groupId userId id now = .ok (t', events))
    (hfresh : aux.memberships.find? id = none)
    (h : Solo c s s' t [] (.joinReading userId groupId) aux) :
    ∃ s'' g, Solo c s s'' t' [] (.returned (.group g))
      { aux.issue (newMember id groupId userId .member now) with
        events := aux.events ++
          [.memberJoined groupId (newMember id groupId userId .member now)] } ∧
      events = [.group (.memberJoined groupId (newMember id groupId userId .member now))] := by
  unfold join at hcall
  split at hcall
  · cases hcall
  · next g hgroup =>
    split_ifs at hcall with hused
    cases hcall
    obtain ⟨-, rfl⟩ := groupById_eq_some hgroup
    rw [not_or, Bool.not_eq_true, Option.isSome_eq_false_iff, Option.isNone_iff_eq_none] at hused
    have hstranger : ¬∃ row ∈ t.rows, Row.MembershipOf g.id userId row := by
      rintro ⟨row, hrow, hof⟩
      cases row with
      | group g' => exact hof
      | member r => exact membership_eq_none.mp hused.1 r hrow hof.1 hof.2
    obtain ⟨s₁, h₁⟩ := h.statement (e := .goto (.joinInserting userId g)) (by
      simp only [Groups.statement, h.alone.call, h.alone.view, h.aux_eq, Table.applyAll_nil,
        hgroup])
    have hwaits : ¬((aux.memberships.find? id).isSome ∨ s₁.store.LockedByOther c (.group g.id) ∨
        s₁.store.PendingByOther c (Row.MembershipOf g.id userId)) := by
      rw [hfresh]
      rintro (hissued | hlocked | hpending)
      · cases hissued
      · exact h₁.alone.not_lockedByOther _ hlocked
      · exact h₁.alone.not_pendingByOther _ hpending
    have hview : s₁.store.view c = t := h₁.alone.view
    have hinsert : decide? s₁ (.statement c id now) = some
        (.autocommit [.put (.member (newMember id g.id userId .member now))]
          (.emitting [.memberJoined g.id (newMember id g.id userId .member now)] (.group g)),
        aux.issue (newMember id g.id userId .member now)) := by
      show Groups.statement s₁ c id now = _
      have hpc : s₁.calls c = .joinInserting userId g := h₁.alone.call
      simp only [Groups.statement, hpc, hview, h₁.aux_eq, if_neg hwaits, if_neg hstranger, hgroup]
    obtain ⟨s₂, h₂⟩ := h₁.step (a := .statement c id now) rfl hinsert
    have hpc : s₂.calls c =
        .emitting [.memberJoined g.id (newMember id g.id userId .member now)] (.group g) :=
      h₂.alone.call
    obtain ⟨s₃, h₃⟩ := h₂.step (a := .emit c) rfl (by simp only [decide?, hpc]; rfl)
    rw [h₂.aux_eq] at h₃
    exact ⟨s₃, g, h₃, rfl⟩

/-! ## Any call -/

/-- The request of the service that makes the call; `markRead` is a statement of its own. -/
def GroupCall.request (groupId : Uuid) : GroupCall → Option Request
  | .join userId _ _ => some (.join userId groupId)
  | .leave userId => some (.leave userId groupId)
  | .transferOwnership callerId targetUserId =>
    some (.transferOwnership callerId groupId targetUserId)
  | .markRead _ _ => none

/-- The id of the membership the call inserts. -/
def GroupCall.newIds : GroupCall → List Uuid
  | .join _ id _ => [id]
  | .leave _ | .transferOwnership _ _ | .markRead _ _ => []

/-- Call `c` has run from its request to its return.  It left `t` behind, with nothing open, has
emitted `events` and given out the ids `new`. -/
structure Ran (c : ℕ) (s s' : Groups.State) (t : Tables) (events : List Broadcast)
    (new : List Uuid) : Prop where
  exec_eq : ∃ as : List Action, (∀ a ∈ as, a.call = c) ∧ exec Groups.step s as = some s'
  alone : ∃ result, s'.Alone c t [] (.returned result)
  others : ∀ c' ≠ c, s'.calls c' = s.calls c'
  events_eq : ∃ emitted, s'.aux.events = s.aux.events ++ emitted ∧ events = emitted.map .group
  issued : ∀ id ∉ new, s'.aux.memberships.find? id = s.aux.memberships.find? id

theorem Ran.of_solo {result : Result} {emitted : List Groups.Event} {new : List Uuid}
    (h : Solo c s s' t [] (.returned result) aux) (hevents : aux.events = s.aux.events ++ emitted)
    (hissued : ∀ id ∉ new, aux.memberships.find? id = s.aux.memberships.find? id) :
    Ran c s s' t (emitted.map .group) new where
  exec_eq := h.exec_eq
  alone := ⟨result, h.alone⟩
  others := h.others
  events_eq := ⟨emitted, by rw [h.aux_eq, hevents], rfl⟩
  issued := fun id hid => by rw [h.aux_eq, hissued id hid]

/-- A call is made. -/
theorem solo_request {r : Request} (h : s.Alone c t [] .idle) :
    ∃ s', Solo c s s' t [] r.start s.aux := by
  have hidle : Solo c s s t [] .idle s.aux :=
    ⟨⟨[], fun _ ha => absurd ha List.not_mem_nil, rfl⟩, h, fun _ _ => rfl, rfl⟩
  have hdecide : decide? s (.request c r) = some (.goto r.start, s.aux) := by
    simp only [decide?, h.call]
  exact hidle.step (a := .request c r) rfl hdecide

/-- **A call that succeeds is a run of its statements.** -/
theorem ran_of_call {k : GroupCall} {r : Request} {groupId : Uuid} {events : List Broadcast}
    (hrequest : k.request groupId = some r) (hcall : call t groupId k = some (t', events))
    (hfresh : ∀ id ∈ k.newIds, s.aux.memberships.find? id = none) (h : s.Alone c t [] .idle) :
    ∃ s', Ran c s s' t' events k.newIds := by
  obtain ⟨s₀, h₀⟩ := solo_request (r := r) h
  cases k with
  | join userId id now =>
    cases hrequest
    have hnew : id ∈ GroupCall.newIds (.join userId id now) := List.mem_singleton.mpr rfl
    obtain ⟨s₁, g, h₁, rfl⟩ := solo_join (eq_ok_of_toOption hcall) (hfresh id hnew) h₀
    refine ⟨s₁, .of_solo h₁ rfl fun id' hid => Table.find?_put_of_ne fun heq => hid ?_⟩
    rw [heq]
    exact hnew
  | leave userId =>
    cases hrequest
    simp only [call] at hcall
    split at hcall
    · cases hcall
    · next o hkept hleave =>
      cases hcall
      obtain ⟨s₁, h₁⟩ := solo_leave hleave (fun me => hkept me) h₀
      exact ⟨s₁, .of_solo h₁ rfl fun _ _ => rfl⟩
    · cases hcall
  | transferOwnership callerId targetUserId =>
    cases hrequest
    obtain ⟨⟨t₁, o⟩, hr, heq⟩ := Option.map_eq_some_iff.mp hcall
    cases heq
    obtain ⟨s₁, h₁⟩ := solo_transferOwnership (eq_ok_of_toOption hr) h₀
    exact ⟨s₁, .of_solo h₁ rfl fun _ _ => rfl⟩
  | markRead userId now => cases hrequest

/-! ## Whole runs -/

/-- **Calls one after another are a run of their statements.**  The calls are numbered from `n`
on, and no two of them insert a membership under the same id. -/
theorem exists_exec_of_calls {n : ℕ} {groupId : Uuid} {ks : List GroupCall}
    {events : List Broadcast} (hcalls : calls t groupId ks = some (t', events))
    (hrequests : ∀ k ∈ ks, (k.request groupId).isSome = true)
    (hnodup : (ks.flatMap GroupCall.newIds).Nodup)
    (hfresh : ∀ id ∈ ks.flatMap GroupCall.newIds, s.aux.memberships.find? id = none)
    (hcommitted : s.store.committed = t) (hlog : s.store.log = [])
    (hidle : ∀ c, n ≤ c → s.calls c = .idle) :
    ∃ as s', exec Groups.step s as = some s' ∧ s'.store.committed = t' ∧ s'.store.log = [] ∧
      ∃ emitted, s'.aux.events = s.aux.events ++ emitted ∧ events = emitted.map .group := by
  induction ks generalizing t s n events with
  | nil =>
    cases hcalls
    exact ⟨[], s, rfl, hcommitted, hlog, [], (List.append_nil _).symm, rfl⟩
  | cons k ks ih =>
    obtain ⟨⟨t₁, events₁⟩, hk, hrest⟩ := Option.bind_eq_some_iff.mp hcalls
    obtain ⟨⟨t₂, events₂⟩, hks, heq⟩ := Option.map_eq_some_iff.mp hrest
    cases heq
    rw [List.flatMap_cons, List.nodup_append] at hnodup
    rw [List.flatMap_cons] at hfresh
    obtain ⟨r, hr⟩ := Option.isSome_iff_exists.mp (hrequests k List.mem_cons_self)
    obtain ⟨s₁, h₁⟩ := ran_of_call hr hk (fun id hid => hfresh id (List.mem_append_left _ hid))
      (⟨hcommitted, hlog, hidle n le_rfl⟩ : s.Alone n t [] .idle)
    obtain ⟨as, -, hexec⟩ := h₁.exec_eq
    obtain ⟨result, halone⟩ := h₁.alone
    obtain ⟨emitted, hemitted, rfl⟩ := h₁.events_eq
    have hfresh₁ : ∀ id ∈ ks.flatMap GroupCall.newIds, s₁.aux.memberships.find? id = none := by
      intro id hid
      rw [h₁.issued id fun hk => hnodup.2.2 id hk id hid rfl]
      exact hfresh id (List.mem_append_right _ hid)
    have hidle₁ : ∀ c, n + 1 ≤ c → s₁.calls c = .idle := by
      intro c hc
      rw [h₁.others c (by omega)]
      exact hidle c (by omega)
    obtain ⟨as', s', hexec', hcommitted', hlog', emitted', hemitted', rfl⟩ :=
      ih hks (fun k hk => hrequests k (List.mem_cons_of_mem _ hk)) hnodup.2.1 hfresh₁
        halone.committed halone.log hidle₁
    refine ⟨as ++ as', s', ?_, hcommitted', hlog', emitted ++ emitted', ?_, ?_⟩
    · rw [exec_append, hexec, Option.bind_some, hexec']
    · rw [hemitted', hemitted, List.append_assoc]
    · rw [List.map_append]

end Client
end GroupChat

import GroupChat.Chat.Gateway

/-!
# Eviction

Nothing but the listener of `MEMBER_LEFT` takes a departed user's sockets out of a
room, and it looks at the room once.  A socket whose user has left is therefore
accounted for only while that listener has not looked yet, or has this socket on
its list, or while a leave it dispatched for the socket has not taken effect.
`Covered` says so, and it is what a run has to keep.

Every step keeps it but one: `socket.join` runs after the membership it relies on
was read, and by then the user may have left and the listener may have looked.
`covered_iff` makes that exact, and `departed_sockets_leave` draws the
consequence for the states in which nothing is running.  `lateJoinRun` is a run
that leaves a former member in the room.
-/

namespace GroupChat
namespace Chat

open Common Database Groups Transition

/-! ## The property -/

/-- The user has a membership row in the group. -/
def IsMember (t : Tables) (groupId userId : Uuid) : Prop :=
  ∃ r, .member r ∈ t ∧ r.groupId = groupId ∧ r.userId = userId

/-- The group exists. -/
def Exists (t : Tables) (groupId : Uuid) : Prop := ∃ g, .group g ∈ t ∧ g.id = groupId

/-- The call has not started or is over. -/
def isOver : Groups.Call → Bool
  | .idle | .returned _ | .thrown _ => true
  | _ => false

/-- No call of the group service and no handler is still running, and every dispatched leave
has taken effect. -/
structure Quiescent (s : State) : Prop where
  calls : ∀ c, isOver (s.groups.calls c) = true
  handlers : ∀ groupId, Presence.Finished (s.rooms groupId)
  leaves : ∀ groupId, (s.rooms groupId).leaves = []

/-- Every socket in the room of a group that exists belongs to a member. -/
def RoomsAreMembers (userOf : Socket → Uuid) (s : State) : Prop :=
  ∀ socket groupId, socket ∈ (s.rooms groupId).room →
    Exists s.groups.store.committed groupId →
      IsMember s.groups.store.committed groupId (userOf socket)

/-- The listener of the user's departure has not looked at the room yet, or has the socket on
its list, or has told it to leave. -/
inductive Departing (r : Presence.State) (socket : Socket) (userId : Uuid) : Prop where
  | evicting (h : ℕ) (handler : r.handlers h = .evicting userId)
  | listed (h : ℕ) (sockets : List Socket) (handler : r.handlers h = .leaving userId sockets)
      (mem : socket ∈ sockets)
  | dispatched (mem : socket ∈ r.leaves)

/-- The departure of the user is still to be announced, or its listener is at work. -/
inductive Leaving (s : State) (socket : Socket) (groupId userId : Uuid) : Prop where
  | announced (c : ℕ) (events : List Event) (result : Result)
      (call : s.groups.calls c = .emitting events result)
      (event : departure events = some (groupId, userId))
  | departing (h : Departing (s.rooms groupId) socket userId)

/-- A socket in this room is accounted for: its user is a member, or is on the way
out, or the group is gone. -/
def Covered (userOf : Socket → Uuid) (s : State) (socket : Socket) (groupId : Uuid) : Prop :=
  Exists s.groups.store.committed groupId →
    IsMember s.groups.store.committed groupId (userOf socket) ∨
      Leaving s socket groupId (userOf socket)

/-- Every socket in a room is accounted for. -/
def AllCovered (userOf : Socket → Uuid) (s : State) : Prop :=
  ∀ socket groupId, socket ∈ (s.rooms groupId).room → Covered userOf s socket groupId

/-- If the step is a `socket.join`, the socket is accounted for in the room it
joins.  A closed connection joins no room. -/
def JoinIsCovered (userOf : Socket → Uuid) (s : State) (a : Action) : Prop :=
  ∀ h socket groupId, a = .room groupId (.join h) →
    (s.rooms groupId).handlers h = .joining socket → socket ∉ (s.rooms groupId).gone →
      Covered userOf s socket groupId

/-! ## When nothing is running -/

theorem Quiescent.not_leaving {s : State} (hq : Quiescent s) {socket : Socket}
    {groupId userId : Uuid} : ¬ Leaving s socket groupId userId := by
  intro hleaving
  cases hleaving with
  | announced c events result hcall _ => exact absurd (hq.calls c) (by simp [isOver, hcall])
  | departing hdeparting =>
    cases hdeparting with
    | evicting h hh =>
      exact absurd (hq.handlers groupId h) (by simp [Presence.Handler.isAtRest, hh])
    | listed h sockets hh _ =>
      exact absurd (hq.handlers groupId h) (by simp [Presence.Handler.isAtRest, hh])
    | dispatched hmem =>
      rw [hq.leaves groupId] at hmem
      exact List.not_mem_nil hmem

/-- With nothing running, a socket that is accounted for belongs to a member. -/
theorem Quiescent.roomsAreMembers {userOf : Socket → Uuid} {s : State} (hq : Quiescent s)
    (h : AllCovered userOf s) : RoomsAreMembers userOf s := fun socket groupId hroom hexists =>
  (h socket groupId hroom hexists).resolve_right hq.not_leaving

/-! ## Memberships end with an announcement -/

/-- A membership that an outcome does not leave behind is the one whose end it
announces, or its group is gone. -/
theorem kept_or_departed {t t' : Tables} {ws : List (Write Row Groups.Key)} {log : Log}
    {o : Outcome} {r : GroupMember} (h : o.Publishes t t') (ho : OutcomeInv t ws log o)
    (hissued : ∀ r, .member r ∈ t → Issued log r) (hr : .member r ∈ t) :
    IsMember t' r.groupId r.userId ∨ departure o.events = some (r.groupId, r.userId) ∨
      ¬ Exists t' r.groupId := by
  cases o with
  | created g row => exact Or.inl ⟨r, (h.2 r).mpr (Or.inr hr), rfl, rfl⟩
  | left me =>
    obtain ⟨-, hme, -⟩ := ho
    by_cases hid : r.id = me.id
    · have hg : r.groupId = me.groupId := (hissued r hr).groupId_eq hme hid
      have hu : r.userId = me.userId := (hissued r hr).userId_eq hme hid
      rw [hg, hu]
      exact Or.inr (Or.inl rfl)
    · exact Or.inl ⟨r, (h.2 r).mpr ⟨hr, hid⟩, rfl, rfl⟩
  | handedOver me next =>
    obtain ⟨hpair, -⟩ := ho
    obtain ⟨-, b, hb, hbid, hmem⟩ := h
    by_cases hid : r.id = me.id
    · have hg : r.groupId = me.groupId := (hissued r hr).groupId_eq hpair.issued_left hid
      have hu : r.userId = me.userId := (hissued r hr).userId_eq hpair.issued_left hid
      rw [hg, hu]
      exact Or.inr (Or.inl rfl)
    · by_cases hid' : r.id = next.id
      · obtain rfl : r = b := eq_of_member_mem hr hb (hid'.trans hbid.symm)
        exact Or.inl ⟨{ r with role := .owner }, (hmem _).mpr ⟨Or.inl rfl, hid⟩, rfl, rfl⟩
      · exact Or.inl ⟨r, (hmem r).mpr ⟨Or.inr ⟨hr, hid'⟩, hid⟩, rfl, rfl⟩
  | deletedGroup me =>
    by_cases hg : r.groupId = me.groupId
    · right; right
      rintro ⟨g, hgmem, hgid⟩
      exact ((h.1 g).mp hgmem).2 (hgid.trans hg)
    · exact Or.inl ⟨r, (h.2 r).mpr ⟨hr, hg⟩, rfl, rfl⟩
  | transferred caller target =>
    obtain ⟨hpair, -⟩ := ho
    obtain ⟨-, b, a, hb, hbid, ha, haid, hmem⟩ := h
    by_cases hid : r.id = caller.id
    · obtain rfl : r = a := eq_of_member_mem hr ha (hid.trans haid.symm)
      exact Or.inl ⟨{ r with role := .member }, (hmem _).mpr (Or.inl rfl), rfl, rfl⟩
    · by_cases hid' : r.id = target.id
      · obtain rfl : r = b := eq_of_member_mem hr hb (hid'.trans hbid.symm)
        exact Or.inl ⟨{ r with role := .owner }, (hmem _).mpr (Or.inr ⟨Or.inl rfl, hid⟩), rfl, rfl⟩
      · exact Or.inl ⟨r, (hmem r).mpr (Or.inr ⟨Or.inr ⟨hr, hid'⟩, hid⟩), rfl, rfl⟩

/-- **A membership ends with an announcement**, unless the whole group ends. -/
theorem member_or_announced_of_step {s t : Groups.State} {a : Groups.Action} {groupId userId : Uuid}
    (hs : Groups.Inv s) (h : Groups.step s a = some t)
    (hmember : IsMember s.store.committed groupId userId) :
    IsMember t.store.committed groupId userId ∨
      (∃ c events result, t.calls c = .emitting events result ∧
        departure events = some (groupId, userId)) ∨
      ¬ Exists t.store.committed groupId := by
  obtain ⟨e, -, hgrows, hdec, hperf⟩ := exists_effect_of_step hs h
  obtain ⟨r, hr, rfl, rfl⟩ := hmember
  cases moves_of_step hs h with
  | same hcom _ =>
    rw [hcom]
    exact Or.inl ⟨r, hr, rfl, rfl⟩
  | joined r' hcom _ _ hun _ _ _ =>
    rw [hcom]
    exact Or.inl ⟨r, (Table.mem_put_of_key_ne (hun _ hr)).mpr hr, rfl, rfl⟩
  | published o hc hpub ho =>
    have hissued : ∀ r, .member r ∈ s.store.committed → Issued t.aux r := fun r hr =>
      (hs.issued r hr).mono hgrows
    rcases kept_or_departed hpub ho hissued hr with hkept | hleft | hgone
    · exact Or.inl hkept
    · obtain ⟨c, rfl, hcall⟩ := hc
      simp only [decide?, hcall, Option.some.injEq, Prod.mk.injEq] at hdec
      have hpc : t.calls c = .emitting o.events o.result := by
        have hcalls := System.calls_of_perform hperf
        rwa [← hdec.1] at hcalls
      exact Or.inr (Or.inl ⟨c, _, _, hpc, hleft⟩)
    · exact Or.inr (Or.inr hgone)

/-! ## In one room -/

section Room

variable {userOf : Socket → Uuid} {groupId : String} {r r' : Presence.State}

/-- Sockets come into a room by `socket.join` only. -/
theorem mem_room_of_stepped {a : Presence.Action} {socket : Socket}
    (h : Presence.Stepped userOf groupId r a r') (hmem : socket ∈ r'.room) :
    socket ∈ r.room ∨
      ∃ h, a = .join h ∧ r.handlers h = .joining socket ∧ socket ∉ r.gone := by
  cases h with
  | @join h' socket' pc =>
    rcases Presence.mem_letIn.mp hmem with hmem | ⟨rfl, hopen⟩
    · exact Or.inl hmem
    · exact Or.inr ⟨h', rfl, pc, hopen⟩
  | leaveGroup | closeFirst | close | leave => exact Or.inl (Presence.mem_without.mp hmem).1
  | _ => exact Or.inl hmem

/-- A handler comes before its `socket.join` by a membership query that found a row. -/
theorem joining_of_stepped {a : Presence.Action} {h : ℕ} {socket : Socket}
    (hstep : Presence.Stepped userOf groupId r a r') (hpc : r'.handlers h = .joining socket) :
    r.handlers h = .joining socket ∨
      ∃ h t row, a = .assertMember h t ∧ assertMember t (userOf socket) groupId = .ok row := by
  have hupdate : ∀ {h' : ℕ} {pc : Presence.Handler}, pc ≠ .joining socket →
      Function.update r.handlers h' pc h = .joining socket → r.handlers h = .joining socket := by
    intro h' pc hne heq
    by_cases hh : h = h'
    · rw [hh, Function.update_self] at heq
      exact absurd heq hne
    · rwa [Function.update_of_ne hh] at heq
  cases hstep with
  | @assertMember h' t socket' pc =>
    by_cases hh : h = h'
    · have heq : Presence.onAssertMember socket' (assertMember t (userOf socket') groupId) =
          .joining socket := by
        rw [← hpc, hh]
        exact (Function.update_self h' _ r.handlers).symm
      cases hanswer : assertMember t (userOf socket') groupId with
      | ok row =>
        rw [hanswer] at heq
        obtain rfl := Presence.Handler.joining.inj heq
        exact Or.inr ⟨h', t, row, rfl, hanswer⟩
      | error e =>
        rw [hanswer] at heq
        cases e <;> cases heq
    · refine Or.inl ?_
      rw [← hpc]
      exact (Function.update_of_ne hh _ r.handlers).symm
  | leave => exact Or.inl hpc
  | _ => exact Or.inl (hupdate (by simp) hpc)

/-- A step of one handler leaves those on the way out through another one, or by a dispatched
leave, on the way out. -/
theorem Departing.of_update {socket : Socket} {userId : Uuid} {h : ℕ} {pc : Presence.Handler}
    (hd : Departing r socket userId) (hhandlers : r'.handlers = Function.update r.handlers h pc)
    (hleaves : socket ∈ r.leaves → socket ∈ r'.leaves)
    (hown : (r.handlers h = .evicting userId ∨ ∃ sockets,
      r.handlers h = .leaving userId sockets ∧ socket ∈ sockets) → Departing r' socket userId) :
    Departing r' socket userId := by
  cases hd with
  | evicting h' hh =>
    by_cases hne : h' = h
    · exact hown (Or.inl (hne ▸ hh))
    · exact .evicting h' (by rw [hhandlers, Function.update_of_ne hne, hh])
  | listed h' sockets hh hmem =>
    by_cases hne : h' = h
    · exact hown (Or.inr ⟨sockets, hne ▸ hh, hmem⟩)
    · exact .listed h' sockets (by rw [hhandlers, Function.update_of_ne hne, hh]) hmem
  | dispatched hmem => exact .dispatched (hleaves hmem)

/-- **Whoever is on the way out stays so** until he is out. -/
theorem Departing.of_stepped {a : Presence.Action} {socket : Socket}
    (hd : Departing r socket (userOf socket)) (hstep : Presence.Stepped userOf groupId r a r')
    (hmem : socket ∈ r'.room) : Departing r' socket (userOf socket) := by
  have hother : ∀ {h : ℕ} {pc : Presence.Handler}, r.handlers h = pc →
      (∀ userId, pc ≠ .evicting userId) → (∀ userId sockets, pc ≠ .leaving userId sockets) →
      (r.handlers h = .evicting (userOf socket) ∨ ∃ sockets,
        r.handlers h = .leaving (userOf socket) sockets ∧ socket ∈ sockets) →
        Departing r' socket (userOf socket) := by
    rintro h pc hpc hevicting hleaving (hh | ⟨sockets, hh, -⟩)
    · exact absurd (hpc.symm.trans hh) (hevicting _)
    · exact absurd (hpc.symm.trans hh) (hleaving _ _)
  cases hstep with
  | @fetchDeparted h userId pc =>
    refine hd.of_update rfl id ?_
    rintro (hh | ⟨sockets, hh, -⟩)
    · obtain rfl := Presence.Handler.evicting.inj (pc.symm.trans hh)
      exact .listed h r.room (Function.update_self ..) hmem
    · exact absurd (pc.symm.trans hh) (by simp)
  | @evict h userId sockets pc =>
    refine hd.of_update rfl (fun hleave => List.mem_append_left _ hleave) ?_
    rintro (hh | ⟨sockets', hh, hlisted⟩)
    · exact absurd (pc.symm.trans hh) (by simp)
    · obtain ⟨rfl, rfl⟩ := Presence.Handler.leaving.inj (pc.symm.trans hh)
      exact .dispatched (List.mem_append_right _ (List.mem_filter.mpr ⟨hlisted, by simp⟩))
  | @leave socket' hleave =>
    cases hd with
    | evicting h hh => exact .evicting h hh
    | listed h sockets hh hlisted => exact .listed h sockets hh hlisted
    | dispatched hpending =>
      have hne : socket ≠ socket' := (Presence.mem_without.mp hmem).2
      exact .dispatched ((List.mem_erase_of_ne hne).mpr hpending)
  | joinGroup pc | assertMember pc | join pc | leaveNoGroup pc | leaveGroup pc
  | disconnectOutside pc | disconnecting pc | closeFirst pc | close pc | memberLeft pc | fetch pc
  | fetchListed pc | emit pc =>
    exact hd.of_update rfl id (hother pc (by simp) (by simp))

/-- A `socket.join` puts nobody on the way out. -/
theorem Departing.of_join {h : ℕ} {socket : Socket} {userId : Uuid} {room : List Socket}
    (hd : Departing { r.goto h (.fetching none) with room := room } socket userId) :
    Departing r socket userId := by
  have hother : ∀ {h' : ℕ} {pc : Presence.Handler},
      Function.update r.handlers h (.fetching none) h' = pc → pc ≠ .fetching none →
        r.handlers h' = pc := by
    intro h' pc hh hne
    by_cases hh' : h' = h
    · rw [hh', Function.update_self] at hh
      exact absurd hh.symm hne
    · rwa [Function.update_of_ne hh'] at hh
  cases hd with
  | evicting h' hh => exact .evicting h' (hother hh (by simp))
  | listed h' sockets hh hlisted => exact .listed h' sockets (hother hh (by simp)) hlisted
  | dispatched hpending => exact .dispatched hpending

end Room

/-! ## The invariant -/

/-- What the gateway relies on besides: the invariant of the group service, and rooms only of
groups that have existed. -/
structure Inv (s : State) : Prop where
  groups : Groups.Inv s.groups
  rooms : ∀ socket groupId, socket ∈ (s.rooms groupId).room → Known s.groups groupId
  joining : ∀ h socket groupId, (s.rooms groupId).handlers h = .joining socket →
    Known s.groups groupId

theorem inv_start : Inv start :=
  ⟨Groups.inv_start, fun _ _ h => absurd h List.not_mem_nil,
    fun _ _ _ h => absurd h (by simp [start, Presence.start])⟩

section Step

variable {userOf : Socket → Uuid} {s t : State}

/-- A room is the one a handler has moved, or as it was. -/
theorem update_room_cases (rooms : Uuid → Presence.State) (g : Uuid) (room : Presence.State)
    (groupId : Uuid) :
    groupId = g ∧ Function.update rooms g room groupId = room ∨
      Function.update rooms g room groupId = rooms groupId := by
  by_cases hg : groupId = g
  · exact Or.inl ⟨hg, hg ▸ Function.update_self ..⟩
  · exact Or.inr (Function.update_of_ne hg ..)

/-- **The invariant is kept by every step.** -/
theorem inv_of_step {a : Action} (hs : Inv s) (h : step userOf s a = some t) : Inv t := by
  cases stepped_of_step h with
  | http hstep _ =>
    exact ⟨Groups.inv_of_step hs.groups hstep,
      fun socket groupId hmem => (hs.rooms socket groupId hmem).of_step hs.groups hstep,
      fun j socket groupId hj => (hs.joining j socket groupId hj).of_step hs.groups hstep⟩
  | @announces a groups g userId room hstep _ hroom =>
    have hstepped := Presence.stepped_of_step hroom
    have hknown : ∀ {groupId}, Known s.groups groupId → Known groups groupId :=
      fun hk => hk.of_step hs.groups hstep
    refine ⟨Groups.inv_of_step hs.groups hstep, fun socket groupId hmem => hknown ?_,
      fun j socket groupId hpc => hknown ?_⟩
    · dsimp only at hmem
      rcases update_room_cases s.rooms g room groupId with ⟨rfl, hroom'⟩ | hroom'
      · rw [hroom'] at hmem
        rcases mem_room_of_stepped hstepped hmem with hold | ⟨_, hjoin, -⟩
        · exact hs.rooms socket groupId hold
        · cases hjoin
      · exact hs.rooms socket groupId (hroom' ▸ hmem)
    · dsimp only at hpc
      rcases update_room_cases s.rooms g room groupId with ⟨rfl, hroom'⟩ | hroom'
      · rw [hroom'] at hpc
        rcases joining_of_stepped hstepped hpc with hold | ⟨_, _, _, hquery, -⟩
        · exact hs.joining j socket groupId hold
        · cases hquery
      · exact hs.joining j socket groupId (hroom' ▸ hpc)
  | @room g a a' room hallowed hroom =>
    have hstepped := Presence.stepped_of_step hroom
    refine ⟨hs.groups, fun socket groupId hmem => ?_, fun j socket groupId hpc => ?_⟩
    · dsimp only at hmem
      rcases update_room_cases s.rooms g room groupId with ⟨rfl, hroom'⟩ | hroom'
      · rw [hroom'] at hmem
        rcases mem_room_of_stepped hstepped hmem with hold | ⟨_, -, hpc, -⟩
        · exact hs.rooms socket groupId hold
        · exact hs.joining _ socket groupId hpc
      · exact hs.rooms socket groupId (hroom' ▸ hmem)
    · dsimp only at hpc
      rcases update_room_cases s.rooms g room groupId with ⟨rfl, hroom'⟩ | hroom'
      swap
      · exact hs.joining j socket groupId (hroom' ▸ hpc)
      rw [hroom'] at hpc
      rcases joining_of_stepped hstepped hpc with hold | ⟨h', t, row, hquery, hanswer⟩
      · exact hs.joining j socket groupId hold
      · -- the query has read the tables of the service
        have htables : t = s.groups.store.committed := by
          rcases inRoom_cases hallowed with ⟨h₀, t₀, -, ha'⟩ | ⟨ha', hno, -⟩
          · rw [ha'] at hquery
            exact (Presence.Action.assertMember.inj hquery).2.symm
          · exact absurd (ha'.symm.trans hquery) (hno h' t)
        rw [htables, assertMember_eq_ok_iff (spells_printUuid groupId)] at hanswer
        obtain ⟨hrow, hgroup, -⟩ := membership_eq_some hanswer
        obtain ⟨group, hmem, hid⟩ := hs.groups.foreignKey row hrow
        exact hgroup ▸ hid ▸ hs.groups.known hmem

/-! ## The exact step condition -/

/-- Only an emit moves a call that is emitting. -/
theorem emit_of_step_of_emitting {a : Groups.Action} {g g' : Groups.State} {c : ℕ}
    {events : List Event} {result : Result} (h : Groups.step g a = some g')
    (hcall : g.calls c = .emitting events result) (hc : a.call = c) : a = .emit c := by
  subst hc
  cases a with
  | emit c => rfl
  | request c r | statement c id now | commit c | fault c =>
    have hcall' : g.calls c = .emitting events result := hcall
    simp [Groups.step, decide?, statement, hcall', Call.running] at h

/-- A socket that is accounted for stays so while the group service moves: a membership ends
with an announcement, and an announcement with a listener. -/
theorem covered_http {a : Groups.Action} {socket : Socket} {groupId : Uuid} (hs : Inv s)
    (hstep : Groups.step s.groups a = some t.groups) (hk : Known s.groups groupId)
    (hdeparting : Departing (s.rooms groupId) socket (userOf socket) →
      Departing (t.rooms groupId) socket (userOf socket))
    (hannounced : announced s.groups a = some (groupId, userOf socket) →
      Departing (t.rooms groupId) socket (userOf socket))
    (hcov : Covered userOf s socket groupId) : Covered userOf t socket groupId := by
  obtain ⟨e, -, -, -, hperf⟩ := exists_effect_of_step hs.groups hstep
  have hframe : System.Frame s.groups t.groups a.call := System.frame_of_perform hperf
  rintro ⟨g, hg, rfl⟩
  have hexists : Exists s.groups.store.committed g.id :=
    ⟨g, hk.exists_of_step hs.groups hstep hg, rfl⟩
  rcases hcov hexists with hmember | hleaving
  · rcases member_or_announced_of_step hs.groups hstep hmember with hm | ⟨c, ev, res, hc, hd⟩ | hgone
    · exact Or.inl hm
    · exact Or.inr (.announced c ev res hc hd)
    · exact absurd ⟨g, hg, rfl⟩ hgone
  · right
    cases hleaving with
    | announced c events result hcall hdep =>
      by_cases hc : a.call = c
      · obtain rfl := emit_of_step_of_emitting hstep hcall hc
        refine .departing (hannounced ?_)
        unfold announced
        dsimp only
        rw [hcall]
        exact hdep
      · exact .announced c events result (by rw [hframe.calls_of_ne c (Ne.symm hc), hcall]) hdep
    | departing hd => exact .departing (hdeparting hd)

/-- A socket that is accounted for and still in the room stays so while a handler moves. -/
theorem covered_room {groupId g : Uuid} {a : Presence.Action} {room : Presence.State}
    {socket : Socket} (hstepped : Presence.Stepped userOf (printUuid groupId) (s.rooms groupId) a room)
    (hmem : socket ∈ (Function.update s.rooms groupId room g).room)
    (hcov : Covered userOf s socket g) :
    Covered userOf { s with rooms := Function.update s.rooms groupId room } socket g := by
  intro hexists
  refine (hcov hexists).imp_right fun hleaving => ?_
  cases hleaving with
  | announced c events result hcall hdep => exact .announced c events result hcall hdep
  | departing hd =>
    refine .departing ?_
    show Departing (Function.update s.rooms groupId room g) socket (userOf socket)
    by_cases hg : g = groupId
    · subst hg
      rw [Function.update_self] at hmem ⊢
      exact hd.of_stepped hstepped hmem
    · rwa [Function.update_of_ne hg]

/-- **The exact step condition.** -/
theorem allCovered_step_iff {a : Action} (hs : Inv s) (hcov : AllCovered userOf s)
    (h : step userOf s a = some t) : AllCovered userOf t ↔ JoinIsCovered userOf s a := by
  cases stepped_of_step h with
  | @http a groups hstep hquiet =>
    refine iff_of_true (fun socket groupId hmem => ?_) fun _ _ _ hjoin => by cases hjoin
    refine covered_http hs hstep (hs.rooms socket groupId hmem) id (fun hdeparture => ?_)
      (hcov socket groupId hmem)
    rw [hquiet] at hdeparture
    cases hdeparture
  | @announces a groups g userId room hstep hdeparture hroom =>
    have hstepped := Presence.stepped_of_step hroom
    refine iff_of_true (fun socket groupId hmem => ?_) fun _ _ _ hjoin => by cases hjoin
    dsimp only at hmem
    have hold : socket ∈ (s.rooms groupId).room := by
      rcases update_room_cases s.rooms g room groupId with ⟨rfl, hroom'⟩ | hroom'
      · rw [hroom'] at hmem
        rcases mem_room_of_stepped hstepped hmem with hold | ⟨_, hjoin, -⟩
        · exact hold
        · cases hjoin
      · exact hroom' ▸ hmem
    refine covered_http hs hstep (hs.rooms socket groupId hold) (fun hd => ?_)
      (fun hannounced => ?_) (hcov socket groupId hold)
    · show Departing (Function.update s.rooms g room groupId) socket (userOf socket)
      rcases update_room_cases s.rooms g room groupId with ⟨rfl, hroom'⟩ | hroom'
      · rw [hroom'] at hmem ⊢
        exact hd.of_stepped hstepped hmem
      · rwa [hroom']
    · obtain ⟨rfl, rfl⟩ := Prod.mk.inj (Option.some.inj (hdeparture.symm.trans hannounced))
      show Departing (Function.update s.rooms g room g) socket (userOf socket)
      rw [Function.update_self]
      cases hstepped with
      | memberLeft pc => exact .evicting a.call (Function.update_self ..)
  | @room g a a' room hallowed hroom =>
    have hstepped := Presence.stepped_of_step hroom
    constructor
    · -- a socket that joins is in the room afterwards
      rintro hall j socket groupId hjoin hpc hopen hexists
      obtain ⟨rfl, rfl⟩ := Action.room.inj hjoin
      obtain rfl := Option.some.inj hallowed
      cases hstepped with
      | @join _ socket pc =>
        obtain rfl := Presence.Handler.joining.inj (pc.symm.trans hpc)
        have hmem : socket ∈ (Function.update s.rooms g
            { (s.rooms g).goto j (.fetching none) with
              room := (s.rooms g).letIn socket } g).room := by
          rw [Function.update_self]
          exact Presence.mem_letIn.mpr (Or.inr ⟨rfl, hopen⟩)
        refine (hall socket g hmem hexists).imp_right fun hleaving => ?_
        cases hleaving with
        | announced c events result hcall hdep => exact .announced c events result hcall hdep
        | departing hd =>
          dsimp only at hd
          rw [Function.update_self] at hd
          exact .departing hd.of_join
    · intro hjoin socket groupId hmem
      refine covered_room hstepped hmem ?_
      dsimp only at hmem
      rcases update_room_cases s.rooms g room groupId with ⟨rfl, hroom'⟩ | hroom'
      · rw [hroom'] at hmem
        rcases mem_room_of_stepped hstepped hmem with hold | ⟨j, rfl, hpc, hopen⟩
        · exact hcov socket groupId hold
        · rcases inRoom_cases hallowed with ⟨_, _, -, ha'⟩ | ⟨ha', -, -⟩
          · cases ha'
          · exact hjoin j socket groupId (by rw [ha']) hpc hopen
      · exact hcov socket groupId (hroom' ▸ hmem)

end Step

/-! ## Whole runs -/

/-- Along a run every socket in a room is accounted for exactly if it was at each
`socket.join`. -/
theorem covered_iff (userOf : Socket → Uuid) (acts : List Action) :
    AllStates (step userOf) (AllCovered userOf) start acts ↔
      AllSteps (step userOf) (JoinIsCovered userOf) start acts :=
  allStates_iff_allSteps (fun _ _ _ hs h => inv_of_step hs h)
    (fun _ _ _ hs hcov h => allCovered_step_iff hs hcov h) inv_start
    (fun _ _ hmem => absurd hmem List.not_mem_nil) acts

/-- **Departed sockets leave.**  If at each `socket.join` of a run the user of the
socket is still a member, or is still on the way out with this socket, or the group
is gone, then in every state of the run in which nothing is running the rooms hold
members only. -/
theorem departed_sockets_leave (userOf : Socket → Uuid) (acts : List Action)
    (h : AllSteps (step userOf) (JoinIsCovered userOf) start acts) :
    AllStates (step userOf) (fun s => Quiescent s → RoomsAreMembers userOf s) start acts :=
  ((covered_iff userOf acts).mpr h).mono fun _ hcov hq => hq.roomsAreMembers hcov

/-! ## Two runs -/

/-- Sockets 7 and 9 are of user 11, all others are of user 10. -/
def userOfSocket (socket : Socket) : Uuid := if socket = 7 ∨ socket = 9 then 11 else 10

/-- User 10 creates group 1, and user 11 joins it over HTTP. -/
def twoMembersRun : List Action :=
  let t : Instant := epoch
  [ .http (.request 0 (.create 10 "team")), .http (.statement 0 1 t), .http (.statement 0 100 t),
    .http (.commit 0), .http (.emit 0),
    .http (.request 1 (.join 11 1)), .http (.statement 1 0 t), .http (.statement 1 101 t),
    .http (.emit 1) ]

/-- User 11 leaves over HTTP, and the call announces it. -/
def leaveRun : List Action :=
  let t : Instant := epoch
  [ .http (.request 2 (.leave 11 1)), .http (.statement 2 0 t), .http (.statement 2 0 t),
    .http (.commit 2), .http (.emit 2) ]

/-- A socket asks for the room, and its check passes. -/
def askRun (h : ℕ) (socket : Socket) : List Action :=
  [.room 1 (.joinGroup h socket), .room 1 (.assertMember h Table.empty)]

/-- A handler tells the room who is there. -/
def tellRun (h : ℕ) : List Action := [.room 1 (.fetchSockets h), .room 1 (.emit h)]

/-- The socket a handler is about to let in. -/
def joiningSocket : Presence.Handler → Option Socket
  | .joining socket => some socket
  | _ => none

/-- Where a `socket.join` happens, the user is a member. -/
def JoinsAsMember (userOf : Socket → Uuid) (s : State) : Action → Prop
  | .room groupId (.join h) => ∀ socket ∈ joiningSocket ((s.rooms groupId).handlers h),
      (membership s.groups.store.committed groupId (userOf socket)).isSome = true
  | _ => True

instance (userOf : Socket → Uuid) (s : State) : ∀ a, Decidable (JoinsAsMember userOf s a)
  | .room groupId (.join h) =>
    inferInstanceAs (Decidable (∀ socket ∈ joiningSocket ((s.rooms groupId).handlers h),
      (membership s.groups.store.committed groupId (userOf socket)).isSome = true))
  | .http _ | .room _ (.joinGroup ..) | .room _ (.assertMember ..) | .room _ (.leaveGroup ..)
  | .room _ (.disconnecting ..) | .room _ (.close _) | .room _ (.memberLeft ..)
  | .room _ (.fetchSockets _) | .room _ (.evict _) | .room _ (.leave _) | .room _ (.emit _) =>
    isTrue trivial

theorem JoinsAsMember.joinIsCovered {userOf : Socket → Uuid} {s : State} {a : Action}
    (h : JoinsAsMember userOf s a) : JoinIsCovered userOf s a := by
  rintro j socket groupId rfl hpc - -
  obtain ⟨r, hr⟩ := Option.isSome_iff_exists.mp (h socket (by rw [hpc]; rfl))
  exact Or.inl ⟨r, membership_eq_some hr⟩

/-- Two sockets of user 11 and one of user 10 are in the room when user 11 leaves, and the
listener of the departure puts out the two. -/
def departedRun : List Action :=
  twoMembersRun ++ askRun 3 7 ++ [.room 1 (.join 3)] ++ askRun 4 8 ++ [.room 1 (.join 4)] ++
    askRun 5 9 ++ [.room 1 (.join 5)] ++ tellRun 3 ++ tellRun 4 ++ tellRun 5 ++ leaveRun ++
    [ .room 1 (.fetchSockets 2), .room 1 (.evict 2), .room 1 (.leave 9), .room 1 (.leave 7) ] ++
    tellRun 2

theorem departed_sockets_leave_departedRun :
    AllStates (step userOfSocket) (fun s => Quiescent s → RoomsAreMembers userOfSocket s) start
        departedRun ∧
      (exec (step userOfSocket) start departedRun).map (fun s =>
        ((s.rooms 1).room, (membership s.groups.store.committed 1 11).isSome)) =
        some ([8], false) := by
  have hjoins : AllSteps (step userOfSocket) (JoinsAsMember userOfSocket) start departedRun := by
    decide +kernel
  exact ⟨departed_sockets_leave userOfSocket departedRun
    (hjoins.mono fun _ _ h => h.joinIsCovered), by decide +kernel⟩

/-- The step is of a call or handler with a small number, and of this group alone. -/
def Within (n : ℕ) (groupId : Uuid) (s : State) : Action → Prop
  | .http a => a.call < n ∧ ∀ x ∈ announced s.groups a, x.1 = groupId
  | .room g a => g = groupId ∧ ∀ h ∈ a.handler, h < n

instance (n : ℕ) (groupId : Uuid) (s : State) : ∀ a, Decidable (Within n groupId s a)
  | .http a =>
    -- Trying all identifiers there are decides it as well, but not in a lifetime.
    haveI : Decidable (∀ x ∈ announced s.groups a, x.1 = groupId) := Option.decidableForallMem _
    inferInstanceAs (Decidable (a.call < n ∧ ∀ x ∈ announced s.groups a, x.1 = groupId))
  | .room g a => inferInstanceAs (Decidable (g = groupId ∧ ∀ h ∈ a.handler, h < n))

/-- The calls and handlers with greater numbers have not started, and nothing has happened in
other rooms. -/
structure Untouched (n : ℕ) (groupId : Uuid) (s : State) : Prop where
  calls : ∀ c, n ≤ c → s.groups.calls c = .idle
  handlers : ∀ h, n ≤ h → (s.rooms groupId).handlers h = .idle
  rooms : ∀ g, g ≠ groupId → s.rooms g = Presence.start

theorem Untouched.of_step {userOf : Socket → Uuid} {n : ℕ} {groupId : Uuid} {s t : State}
    {a : Action} (hs : Untouched n groupId s) (hwithin : Within n groupId s a)
    (h : step userOf s a = some t) : Untouched n groupId t := by
  have hroom : ∀ {a : Presence.Action} {room : Presence.State},
      Presence.step userOf (printUuid groupId) (s.rooms groupId) a = some room →
        (∀ h ∈ a.handler, h < n) → ∀ h, n ≤ h → room.handlers h = .idle := by
    intro a room hstep hn h hh
    rw [Presence.handlers_of_stepped (Presence.stepped_of_step hstep) fun heq =>
      absurd (hn h heq) (Nat.not_lt.mpr hh)]
    exact hs.handlers h hh
  have hcalls : ∀ {a : Groups.Action} {groups : Groups.State},
      Groups.step s.groups a = some groups → a.call < n → ∀ c, n ≤ c → groups.calls c = .idle := by
    intro a groups hstep hn c hc
    rw [(frame_of_step hstep).calls_of_ne c (by omega)]
    exact hs.calls c hc
  cases stepped_of_step h with
  | http hstep _ => exact ⟨hcalls hstep hwithin.1, hs.handlers, hs.rooms⟩
  | @announces a groups g userId room hstep hdeparture hmoved =>
    obtain rfl : g = groupId := hwithin.2 _ hdeparture
    refine ⟨hcalls hstep hwithin.1, fun h hh => ?_, fun g' hg => ?_⟩
    · dsimp only
      rw [Function.update_self]
      refine hroom hmoved (fun h' heq => ?_) h hh
      obtain rfl := Option.some.inj heq
      exact hwithin.1
    · dsimp only
      rw [Function.update_of_ne hg]
      exact hs.rooms g' hg
  | @room g a a' room hallowed hmoved =>
    obtain ⟨rfl, hn⟩ := hwithin
    have hn' : ∀ h ∈ a'.handler, h < n := by
      rcases inRoom_cases hallowed with ⟨_, _, rfl, rfl⟩ | ⟨rfl, -, -⟩
      · exact hn
      · exact hn
    refine ⟨hs.calls, fun h hh => ?_, fun g' hg => ?_⟩
    · dsimp only
      rw [Function.update_self]
      exact hroom hmoved hn' h hh
    · dsimp only
      rw [Function.update_of_ne hg]
      exact hs.rooms g' hg

/-- A schedule about one group ends with nothing running if it ends with no leave pending and
none of its calls and handlers running. -/
theorem quiescent_of_exec {userOf : Socket → Uuid} {s : State} {acts : List Action} {n : ℕ}
    {groupId : Uuid} (hwithin : AllSteps (step userOf) (Within n groupId) start acts)
    (h : exec (step userOf) start acts = some s)
    (hsmall : ∀ c ∈ List.range n, isOver (s.groups.calls c) = true ∧
      ((s.rooms groupId).handlers c).isAtRest = true)
    (hleaves : (s.rooms groupId).leaves = []) : Quiescent s := by
  have hun : Untouched n groupId s :=
    (hwithin.reach h).invariant (fun _ _ _ hs hC hst => hs.of_step hC hst)
      ⟨fun _ _ => rfl, fun _ _ => rfl, fun _ _ => rfl⟩
  refine ⟨fun c => ?_, fun g c => ?_, fun g => ?_⟩
  · by_cases hc : c < n
    · exact (hsmall c (List.mem_range.mpr hc)).1
    · rw [hun.calls c (Nat.not_lt.mp hc)]
      rfl
  · by_cases hg : g = groupId
    · rw [hg]
      by_cases hc : c < n
      · exact (hsmall c (List.mem_range.mpr hc)).2
      · rw [hun.handlers c (Nat.not_lt.mp hc)]
        rfl
    · rw [hun.rooms g hg]
      rfl
  · by_cases hg : g = groupId
    · rw [hg]
      exact hleaves
    · rw [hun.rooms g hg]
      rfl

/-- A member's socket passes the membership check of `join_group`; the member leaves
over HTTP, and the listener of the departure looks at the room; then the socket
joins it. -/
def lateJoinRun : List Action :=
  twoMembersRun ++ askRun 3 7 ++ leaveRun ++ [.room 1 (.fetchSockets 2), .room 1 (.evict 2)] ++
    tellRun 2 ++ [.room 1 (.join 3)] ++ tellRun 3

/-- At the end of the run nothing is running, the socket is in the room of the
group, and its user has no membership. -/
theorem exec_lateJoinRun :
    (exec (step userOfSocket) start lateJoinRun).map (fun s =>
      (decide (∀ c ∈ List.range 4, isOver (s.groups.calls c) = true ∧
        ((s.rooms 1).handlers c).isAtRest = true), (s.rooms 1).leaves, (s.rooms 1).room,
        (groupById s.groups.store.committed 1).isSome,
        membership s.groups.store.committed 1 11)) =
      some (true, [], [7], true, none) := by
  decide +kernel

/-- **A former member's socket may stay in the room.** -/
theorem not_roomsAreMembers_lateJoinRun :
    ¬ AllStates (step userOfSocket) (fun s => Quiescent s → RoomsAreMembers userOfSocket s) start
      lateJoinRun := by
  intro h
  obtain ⟨s, hs, heq⟩ := Option.map_eq_some_iff.mp exec_lateJoinRun
  simp only [Prod.mk.injEq, decide_eq_true_eq] at heq
  obtain ⟨hsmall, hleaves, hroom, hgroup, hmember⟩ := heq
  have hwithin : AllSteps (step userOfSocket) (Within 4 1) start lateJoinRun := by decide +kernel
  have hquiet : Quiescent s := quiescent_of_exec hwithin hs hsmall hleaves
  obtain ⟨g, hg⟩ := Option.isSome_iff_exists.mp hgroup
  have hmem : (7 : Socket) ∈ (s.rooms 1).room := by
    rw [hroom]
    exact List.mem_singleton.mpr rfl
  obtain ⟨r, hr, hrg, hru⟩ := h.last hs hquiet 7 1 hmem ⟨g, groupById_eq_some hg⟩
  exact membership_eq_none.mp hmember r hr hrg hru

end Chat
end GroupChat

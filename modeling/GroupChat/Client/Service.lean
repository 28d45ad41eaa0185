import GroupChat.Api.Operations
import GroupChat.Client.Members
import GroupChat.Groups.Clubs

/-!
# The member list and the group service

The calls that the member list is patched for are modelled twice.  `call` runs them on the two
tables a patch has to do with, and `performCall` and `Api.markRead` run them on the whole
database, as the routes do.  `put` moves a row to the end of its table and `updateMember` leaves
it where it was, so the two keep the same rows in different orders.  No query looks at that
order: a user has one membership in a group, and the successor is found by its columns.

`agrees_call` says that tables with the same rows find, do and broadcast the same on both sides,
`agrees_calls` follows for calls one after another, and `replay_serves` is what the member list
owes to the service: the patches of its broadcasts lead to the members it returns.
-/

namespace GroupChat
namespace Client

open Common Database Groups

/-! ## Calls of the service -/

/-- A call that does not throw and does not delete the group. -/
def performed : Except Exception (Records × Told × List Groups.Event) →
    Option (Records × List Broadcast)
  | .ok (_, .left true _, _) => none
  | .ok (d, _, events) => some (d, events.map .group)
  | .error _ => none

/-- The call, made of the service. -/
def GroupCall.serve (d : Records) (groupId : Uuid) : GroupCall → Option (Records × List Broadcast)
  | .join userId id now => performed (performCall d (.join userId groupId id now))
  | .leave userId => performed (performCall d (.leave userId groupId))
  | .transferOwnership callerId targetUserId =>
    performed (performCall d (.transferOwnership callerId groupId (printUuid targetUserId)))
  | .markRead userId now =>
    (Api.markRead d userId groupId now).toOption.map fun r =>
      (r.1, [.readReceipt groupId userId now])

/-- Calls of the service one after another, none of which throws or deletes the group. -/
def serves (d : Records) (groupId : Uuid) : List GroupCall → Option (Records × List Broadcast)
  | [] => some (d, [])
  | c :: cs =>
    (c.serve d groupId).bind fun r => (serves r.1 groupId cs).map fun r' => (r'.1, r.2 ++ r'.2)

/-! ## The same rows -/

/-- The tables have the same rows, in whatever order. -/
def SameRows (t t' : Tables) : Prop := ∀ row, row ∈ t ↔ row ∈ t'

/-- What a call came to on either side: nothing, or the same rows and the same broadcasts. -/
inductive Agrees : Option (Tables × List Broadcast) → Option (Records × List Broadcast) → Prop
  | refused : Agrees none none
  | served {t : Tables} {d : Records} {events : List Broadcast} (rows : SameRows t d.tables) :
      Agrees (some (t, events)) (some (d, events))

variable {t t' : Tables} {d d' : Records} {groupId userId : Uuid}

theorem SameRows.find? (h : SameRows t t') (k : Key) : t.find? k = t'.find? k := by
  refine Option.ext fun row => ?_
  rw [Table.find?_eq_some_iff, Table.find?_eq_some_iff, h row]

theorem SameRows.groupById (h : SameRows t t') (id : Uuid) :
    Groups.groupById t id = Groups.groupById t' id := by
  rw [Groups.groupById, Groups.groupById, h.find?]

theorem SameRows.memberById (h : SameRows t t') (id : Uuid) :
    Groups.memberById t id = Groups.memberById t' id := by
  rw [Groups.memberById, Groups.memberById, h.find?]

/-- There is one row a membership can be. -/
theorem SameRows.membership (h : SameRows t d.tables) (groupId userId : Uuid) :
    Groups.membership t groupId userId = Groups.membership d.tables groupId userId := by
  cases hserved : Groups.membership d.tables groupId userId with
  | none =>
    exact membership_eq_none.mpr fun r hr => membership_eq_none.mp hserved r ((h _).mp hr)
  | some r =>
    obtain ⟨hr, hgroup, huser⟩ := membership_eq_some hserved
    cases hfound : Groups.membership t groupId userId with
    | none => exact absurd huser (membership_eq_none.mp hfound r ((h _).mpr hr) hgroup)
    | some r' =>
      obtain ⟨hr', hgroup', huser'⟩ := membership_eq_some hfound
      rw [d.constraints.memberUnique r' r ((h _).mp hr') hr (hgroup'.trans hgroup.symm)
        (huser'.trans huser.symm)]

/-- The least of finitely many values that differ does not depend on their order. -/
theorem argmin_congr {α β : Type*} [LinearOrder β] {f : α → β} {as bs : List α}
    (hmem : ∀ a, a ∈ as ↔ a ∈ bs) (hinj : ∀ a ∈ as, ∀ b ∈ as, f a = f b → a = b) :
    as.argmin f = bs.argmin f := by
  cases ha : as.argmin f with
  | none =>
    have has : as = [] := List.argmin_eq_none.mp ha
    have hbs : bs = [] :=
      List.eq_nil_iff_forall_not_mem.mpr fun b hb => by simpa [has] using (hmem b).mpr hb
    rw [hbs, List.argmin_nil]
  | some a =>
    have haas : a ∈ as := List.argmin_mem ha
    cases hb : bs.argmin f with
    | none =>
      have habs : a ∈ bs := (hmem a).mp haas
      rw [List.argmin_eq_none.mp hb] at habs
      exact absurd habs List.not_mem_nil
    | some b =>
      have hbas : b ∈ as := (hmem b).mpr (List.argmin_mem hb)
      have hle : f a ≤ f b := List.le_of_mem_argmin hbas ha
      have hge : f b ≤ f a := List.le_of_mem_argmin ((hmem a).mp haas) hb
      rw [hinj a haas b hbas (le_antisymm hle hge)]

/-- The successor is found by when it joined and by its id. -/
theorem SameRows.successor (h : SameRows t t') (groupId userId : Uuid) :
    Groups.successor t groupId userId = Groups.successor t' groupId userId := by
  unfold Groups.successor
  refine argmin_congr (fun r => ?_) fun a ha b hb heq => ?_
  · rw [List.mem_filter, List.mem_filter, mem_membersOf, mem_membersOf, h]
  · have hid : a.id = b.id := congrArg (fun x => (ofLex x).2) heq
    have hmem : ∀ {r}, r ∈ (membersOf t).filter (fun r =>
        decide (r.groupId = groupId ∧ r.userId ≠ userId)) → .member r ∈ t :=
      fun hr => mem_membersOf.mp (List.mem_of_mem_filter hr)
    exact eq_of_member_mem (hmem ha) (hmem hb) hid

/-! ## Writes -/

/-- Put under its id, a row has been updated in its place. -/
theorem SameRows.put_update (h : SameRows t d.tables) {r₀ : GroupMember} (hr₀ : .member r₀ ∈ t)
    (u : MemberUpdate) :
    SameRows (t.put (.member (u.apply r₀))) (d.updateMember r₀.id u).tables := by
  intro row
  cases row with
  | group g =>
    rw [Table.mem_put_of_key_ne (by simp), group_mem_updateMember]
    exact h _
  | member r =>
    rw [mem_put_member, mem_updateMember ((h _).mp hr₀), MemberUpdate.apply_id]
    refine or_congr_right ?_
    rw [h]
    refine and_congr_right fun hr => not_congr ⟨fun hid => ?_, fun heq => by rw [heq]⟩
    exact eq_of_member_mem hr ((h _).mp hr₀) hid

theorem SameRows.remove (h : SameRows t d.tables) (id : Uuid) :
    SameRows (t.remove (.member id)) (d.deleteMember id).tables := fun row => by
  rw [Table.mem_remove, h]
  exact Table.mem_remove.symm

/-! ## One call -/

theorem isSome_membership_iff : (Groups.membership t groupId userId).isSome = true ↔
    ∃ row ∈ t.rows, Row.MembershipOf groupId userId row := by
  rw [exists_membershipOf_iff]
  constructor
  · intro hsome
    obtain ⟨r, hr⟩ := Option.isSome_iff_exists.mp hsome
    exact ⟨r, membership_eq_some hr⟩
  · rintro ⟨r, hr, hgroup, huser⟩
    rw [Option.isSome_iff_ne_none]
    exact fun hnone => membership_eq_none.mp hnone r hr hgroup huser

theorem isSome_memberById_iff {id : Uuid} :
    (Groups.memberById t id).isSome = true ↔ t.find? (.member id) ≠ none := by
  unfold Groups.memberById
  cases hfound : t.find? (.member id) with
  | none => simp
  | some row =>
    have hkey := Table.key_of_find? hfound
    cases row with
    | group g => cases hkey
    | member r => simp [Row.member?]

/-- An insert that runs into a unique constraint or a primary key. -/
theorem createMember_of_used {r : GroupMember}
    (hused : (Groups.membership d.tables r.groupId r.userId).isSome ∨
      (Groups.memberById d.tables r.id).isSome) :
    d.createMember r = .error (.prisma .P2002) := by
  rw [isSome_membership_iff, isSome_memberById_iff] at hused
  unfold Records.createMember
  by_cases fresh : d.tables.find? (.member r.id) = none
  · rw [dif_pos fresh, dif_pos (hused.resolve_right fun hne => hne fresh)]
  · rw [dif_neg fresh]

/-- An insert that runs into nothing. -/
theorem createMember_of_unused {r : GroupMember} (hgroup : d.hasGroup r.groupId = true)
    (hused : ¬((Groups.membership d.tables r.groupId r.userId).isSome ∨
      (Groups.memberById d.tables r.id).isSome)) :
    ∃ after, d.createMember r = .ok after ∧ after.tables = d.tables.put (.member r) := by
  rw [isSome_membership_iff, isSome_memberById_iff, not_or, not_not] at hused
  refine ⟨d.insertMember r hused.2 hused.1 hgroup, ?_, rfl⟩
  unfold Records.createMember
  rw [dif_pos hused.2, dif_neg hused.1, dif_pos hgroup]

theorem agrees_join (h : SameRows t d.tables) (userId id : Uuid) (now : Instant) :
    Agrees (call t groupId (.join userId id now))
      (GroupCall.serve d groupId (.join userId id now)) := by
  show Agrees (join t groupId userId id now).toOption
    (performed ((Groups.join d userId groupId id now).map _))
  unfold join Groups.join
  rw [h.groupById, h.membership, h.memberById]
  cases hfound : Groups.groupById d.tables groupId with
  | none => exact .refused
  | some g =>
    have hgroup : d.hasGroup groupId = true := by
      rw [Records.hasGroup, hfound]
      rfl
    dsimp only
    split_ifs with hused
    · rw [createMember_of_used (r := newMember id groupId userId .member now) hused]
      exact .refused
    · obtain ⟨after, hafter, htables⟩ :=
        createMember_of_unused (r := newMember id groupId userId .member now) hgroup hused
      rw [hafter]
      refine .served fun row => ?_
      rw [htables, Table.mem_put, Table.mem_put, h row]

theorem agrees_leave (h : SameRows t d.tables) (userId : Uuid) :
    Agrees (call t groupId (.leave userId)) (GroupCall.serve d groupId (.leave userId)) := by
  simp only [call, GroupCall.serve, performCall]
  unfold leave Groups.leave
  rw [h.membership, h.successor]
  cases hme : Groups.membership d.tables groupId userId with
  | none => exact .refused
  | some me =>
    obtain ⟨-, rfl, rfl⟩ := membership_eq_some hme
    dsimp only
    split_ifs with hrole
    · exact .served (h.remove me.id)
    · cases hnext : Groups.successor d.tables me.groupId me.userId with
      | none => exact .refused
      | some next =>
        obtain ⟨hmem, -, -⟩ := successor_eq_some hnext
        exact .served ((h.put_update ((h _).mpr hmem) (.role .owner)).remove me.id)

theorem agrees_transferOwnership (h : SameRows t d.tables) (callerId targetUserId : Uuid) :
    Agrees (call t groupId (.transferOwnership callerId targetUserId))
      (GroupCall.serve d groupId (.transferOwnership callerId targetUserId)) := by
  have hgroupId : readUuid (printUuid groupId) = some groupId := (spells_printUuid groupId).2
  have htarget : readUuid (printUuid targetUserId) = some targetUserId :=
    (spells_printUuid targetUserId).2
  have hevents : transferEvents groupId callerId (printUuid targetUserId) =
      [.ownerChanged groupId callerId targetUserId] := by
    unfold transferEvents
    rw [htarget]
  simp only [call, GroupCall.serve, performCall, hevents]
  unfold transferOwnership Groups.transferOwnership
  simp only [hgroupId, htarget, Option.bind_some, printUuid_injective.eq_iff, h.membership]
  split_ifs with hself
  · exact .refused
  · cases hcaller : Groups.membership d.tables groupId callerId with
    | none => exact .refused
    | some caller =>
      obtain ⟨hcallermem, rfl, rfl⟩ := membership_eq_some hcaller
      dsimp only
      split_ifs with hrole
      · exact .refused
      · cases hfound : Groups.membership d.tables caller.groupId targetUserId with
        | none => exact .refused
        | some target =>
          obtain ⟨htargetmem, -, rfl⟩ := membership_eq_some hfound
          have hpromoted := h.put_update ((h _).mpr htargetmem) (.role .owner)
          have hcaller' : .member caller ∈ t.put (.member { target with role := .owner }) :=
            mem_put_role ((h _).mpr htargetmem) ((h _).mpr hcallermem) hself .owner
          exact .served (hpromoted.put_update hcaller' (.role .member))

theorem agrees_markRead (h : SameRows t d.tables) (userId : Uuid) (now : Instant) :
    Agrees (call t groupId (.markRead userId now))
      (GroupCall.serve d groupId (.markRead userId now)) := by
  simp only [call, GroupCall.serve]
  unfold markRead Api.markRead
  rw [h.membership]
  cases hme : Groups.membership d.tables groupId userId with
  | none => exact .refused
  | some me =>
    obtain ⟨hmem, -, -⟩ := membership_eq_some hme
    exact .served (h.put_update ((h _).mpr hmem) (.lastReadAt now))

/-- **A call is the service's call.** -/
theorem agrees_call (h : SameRows t d.tables) (c : GroupCall) :
    Agrees (call t groupId c) (c.serve d groupId) := by
  cases c with
  | join userId id now => exact agrees_join h userId id now
  | leave userId => exact agrees_leave h userId
  | transferOwnership callerId targetUserId =>
    exact agrees_transferOwnership h callerId targetUserId
  | markRead userId now => exact agrees_markRead h userId now

/-! ## Whole runs -/

/-- **Calls one after another are the service's calls.** -/
theorem agrees_calls (h : SameRows t d.tables) (cs : List GroupCall) :
    Agrees (calls t groupId cs) (serves d groupId cs) := by
  induction cs generalizing t d with
  | nil => exact .served h
  | cons c cs ih =>
    unfold calls serves
    have hfirst : Agrees (call t groupId c) (c.serve d groupId) := agrees_call h c
    generalize call t groupId c = result, c.serve d groupId = served at hfirst ⊢
    cases hfirst with
    | refused => exact .refused
    | @served t₁ d₁ events rows =>
      have hrest := ih rows
      show Agrees ((calls t₁ groupId cs).map _) ((serves d₁ groupId cs).map _)
      generalize calls t₁ groupId cs = result, serves d₁ groupId cs = served at hrest ⊢
      cases hrest with
      | refused => exact .refused
      | served rows => exact .served rows

/-! ## The list of members -/

/-- What the service returns of a group is what is read of its tables. -/
theorem findOne_of_served {profile : Profiles} {g : Group} {members : List GroupMember}
    (h : Api.findOne d groupId = .ok (.group g members)) :
    findOne profile d.tables groupId = .ok ⟨g, members.map (viewOf profile)⟩ := by
  unfold Api.findOne at h
  unfold findOne
  cases hfound : Groups.groupById d.tables groupId with
  | none =>
    rw [hfound] at h
    cases h
  | some g' =>
    rw [hfound] at h
    cases h
    rfl

/-- A group is returned as long as it is found by its id. -/
theorem groupById_iff_served {g : Group} : Groups.groupById d.tables groupId = some g ↔
    ∃ members, Api.findOne d groupId = .ok (.group g members) := by
  unfold Api.findOne
  cases Groups.groupById d.tables groupId with
  | none => simp
  | some g' => simp

/-- The order of the rows is no matter to a mirror. -/
theorem Mirrors.of_sameRows {profile : Profiles} {ms : List GroupMemberView}
    (h : Mirrors profile t groupId ms) (hrows : SameRows t t') : Mirrors profile t' groupId ms := by
  refine ⟨h.nodup, fun v => (h.mem_iff v).trans (exists_congr fun r => ?_)⟩
  rw [hrows]

/-- A user has at most one membership in the group, as the schema has it. -/
theorem uniqueIn_records (d : Records) (groupId : Uuid) : UniqueIn d.tables groupId :=
  fun r r' hr hr' hgroup hgroup' =>
    d.constraints.memberUnique r r' hr hr' (hgroup.trans hgroup'.symm)

/-- **Replaying the broadcasts of the service gives its list of members.**  The list begins as
what `findOne` returned, and whatever calls of the service succeed one after another, as long as
the group is not deleted, it becomes what `findOne` returns then, up to order. -/
theorem replay_serves (profile : Profiles) {cs : List GroupCall} {events : List Broadcast}
    {g : Group} {members : List GroupMember}
    (hfound : Api.findOne d groupId = .ok (.group g members))
    (hserves : serves d groupId cs = some (d', events)) :
    ∃ members', Api.findOne d' groupId = .ok (.group g members') ∧
      (replay profile (members.map (viewOf profile)) events).Perm
        (members'.map (viewOf profile)) := by
  have hagrees : Agrees (calls d.tables groupId cs) (serves d groupId cs) :=
    agrees_calls (fun _ => Iff.rfl) cs
  rw [hserves] at hagrees
  generalize hcalls : calls d.tables groupId cs = result at hagrees
  cases hagrees with
  | served rows =>
    have hbegin : Mirrors profile d.tables groupId (members.map (viewOf profile)) :=
      mirrors_findOne (uniqueIn_records d groupId) (findOne_of_served hfound)
    have hkeeps := keeps_calls hbegin (uniqueIn_records d groupId) hcalls
    have hgroup : Groups.groupById d'.tables groupId = some g := by
      rw [← rows.groupById, hkeeps.group_eq]
      exact groupById_iff_served.mpr ⟨members, hfound⟩
    obtain ⟨members', hfound'⟩ := groupById_iff_served.mp hgroup
    have hend : Mirrors profile d'.tables groupId (members'.map (viewOf profile)) :=
      mirrors_findOne (uniqueIn_records d' groupId) (findOne_of_served hfound')
    exact ⟨members', hfound', (hkeeps.mirrors.of_sameRows rows).perm hend⟩

end Client
end GroupChat

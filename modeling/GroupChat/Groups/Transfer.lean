import GroupChat.Common.Uuid
import GroupChat.Groups.Leaving

/-!
# Transferring ownership

`transferOwnership` refuses a transfer to oneself by comparing two texts, the id from the
token and the id from the body, and looks both up by the value they stand for.  The body's
id is any accepted spelling, so the owner's own id in another spelling gets past the
comparison.  Both lookups then find the same membership: it is promoted, which changes
nothing, and demoted, and the group is left without an owner.

`transferIsSound_iff` says that this is all that can go wrong with one call: it does what it
is meant to unless the owner sends an upper-case spelling of their own id.
-/

namespace GroupChat
namespace Groups

open Common Database Messages

variable {d : Records} {callerId target g : Uuid} {groupId targetUserId : String}
  {caller r : GroupMember}

/-! ## The call -/

/-- What `transferOwnership` comes to when it does not throw: the database, and the ids it
answers and emits. -/
structure Transferred where
  records : Records
  previousOwnerId : String
  newOwnerId : String

/-- The transaction is run as one step.  The caller's id comes from a token and is
printed; the others are the texts of the request. -/
def transferOwnership (d : Records) (callerId : Uuid) (groupId targetUserId : String) :
    Except Exception Transferred :=
  if printUuid callerId = targetUserId then .error (.badRequest "You already own this group")
  else
    match (readUuid groupId).bind fun g => membership d.tables g callerId with
    | none => .error (.forbidden "Only the group owner can transfer ownership")
    | some caller =>
      if caller.role ≠ .owner then
        .error (.forbidden "Only the group owner can transfer ownership")
      else
        match (readUuid groupId).bind fun g =>
          (readUuid targetUserId).bind fun u => membership d.tables g u with
        | none => .error (.notFound "That user is not a member of this group")
        | some target =>
          .ok ⟨(d.updateMember target.id (.role .owner)).updateMember caller.id (.role .member),
            printUuid callerId, targetUserId⟩

/-! ## The property -/

/-- The caller owns the group. -/
def IsOwner (d : Records) (g callerId : Uuid) : Prop :=
  ∃ caller, IsMembership d g callerId caller ∧ caller.role = .owner

/-- Two different memberships of the group have changed, the caller's from owner to member
and the other one to owner, and nothing else. -/
def Swapped (d : Records) (g callerId target : Uuid) (after : Records) : Prop :=
  ∃ a b, IsMembership d g callerId a ∧ a.role = .owner ∧ IsMembership d g target b ∧ a ≠ b ∧
    (∀ row, row ∈ after.tables ↔ row = .member { a with role := .member } ∨
      row = .member { b with role := .owner } ∨
        row ∈ d.tables ∧ row ≠ .member a ∧ row ≠ .member b) ∧ SameMessages d after

/-- **What a transfer is meant to do.** -/
structure TransferIsSound (d : Records) (g callerId target : Uuid)
    (result : Except Exception Transferred) : Prop where
  swapped : ∀ t, result = .ok t → Swapped d g callerId target t.records
  /-- The creator stays on record. -/
  groups : ∀ t, result = .ok t → ∀ g', .group g' ∈ t.records.tables ↔ .group g' ∈ d.tables
  oneOwner : ∀ t, result = .ok t → ∃! r, Owns t.records.tables g r
  succeeds : (∃ t, result = .ok t) ↔
    IsOwner d g callerId ∧ (∃ b, IsMembership d g target b) ∧ target ≠ callerId

/-! ## What a transfer comes to -/

theorem isOwner_iff (h : IsMembership d g callerId caller) :
    IsOwner d g callerId ↔ caller.role = .owner := by
  constructor
  · rintro ⟨caller', hcaller', hrole⟩
    rwa [← h.unique hcaller']
  · exact fun hrole => ⟨caller, h, hrole⟩

/-- **How a transfer ends.** -/
inductive Transfers (d : Records) (g callerId target : Uuid) (targetUserId : String) :
    Except Exception Transferred → Prop
  | toSelf (printed : printUuid callerId = targetUserId) :
      Transfers d g callerId target targetUserId
        (.error (.badRequest "You already own this group"))
  | notOwner (ne : printUuid callerId ≠ targetUserId) (notOwner : ¬IsOwner d g callerId) :
      Transfers d g callerId target targetUserId
        (.error (.forbidden "Only the group owner can transfer ownership"))
  | stranger (ne : printUuid callerId ≠ targetUserId)
      (stranger : ∀ b, ¬IsMembership d g target b) :
      Transfers d g callerId target targetUserId
        (.error (.notFound "That user is not a member of this group"))
  | swapped {a b : GroupMember} (ne : printUuid callerId ≠ targetUserId)
      (caller : IsMembership d g callerId a) (role : a.role = .owner)
      (member : IsMembership d g target b) :
      Transfers d g callerId target targetUserId
        (.ok ⟨(d.updateMember b.id (.role .owner)).updateMember a.id (.role .member),
          printUuid callerId, targetUserId⟩)

theorem membership_eq_some_iff :
    membership d.tables g callerId = some caller ↔ IsMembership d g callerId caller :=
  membership_iff.trans ⟨fun h => ⟨h.1, h.2.1, h.2.2⟩, fun h => ⟨h.mem, h.groupId_eq, h.userId_eq⟩⟩

theorem not_isMembership_of_none (h : membership d.tables g callerId = none) :
    ∀ b, ¬IsMembership d g callerId b := by
  intro b hb
  rw [membership_eq_some_iff.mpr hb] at h
  cases h

theorem transfers (hgroup : Spells groupId g) (htarget : Spells targetUserId target) :
    Transfers d g callerId target targetUserId
      (transferOwnership d callerId groupId targetUserId) := by
  unfold transferOwnership
  rw [hgroup.2, htarget.2]
  simp only [Option.bind_some]
  split_ifs with hself
  · exact .toSelf hself
  · split
    · next hnone =>
      refine .notOwner hself ?_
      rintro ⟨a, ha, -⟩
      exact not_isMembership_of_none hnone a ha
    · next a ha =>
      have hcaller : IsMembership d g callerId a := membership_eq_some_iff.mp ha
      split_ifs with hrole
      · exact .notOwner hself fun howner => hrole ((isOwner_iff hcaller).mp howner)
      · split
        · next hnone => exact .stranger hself (not_isMembership_of_none hnone)
        · next b hb =>
          exact .swapped hself hcaller (not_not.mp hrole) (membership_eq_some_iff.mp hb)

/-! ## Two different members -/

section Different

variable {a b : GroupMember}

/-- The rows after both updates. -/
theorem mem_transferred (ha : .member a ∈ d.tables) (hb : .member b ∈ d.tables) (hne : a ≠ b)
    {row : Row} :
    row ∈ ((d.updateMember b.id (.role .owner)).updateMember a.id (.role .member)).tables ↔
      row = .member { a with role := .member } ∨ row = .member { b with role := .owner } ∨
        row ∈ d.tables ∧ row ≠ .member a ∧ row ≠ .member b := by
  have ha' : .member a ∈ (d.updateMember b.id (.role .owner)).tables :=
    (mem_updateMember hb _).mpr (Or.inr ⟨ha, hne⟩)
  cases row with
  | group g =>
    rw [group_mem_updateMember, group_mem_updateMember]
    simp
  | member r =>
    rw [mem_updateMember ha', mem_updateMember hb]
    have hpromoted : { b with role := .owner } ≠ a := by
      rintro rfl
      exact hne (eq_of_member_mem ha hb rfl)
    simp only [Row.member.injEq, ne_eq, MemberUpdate.apply]
    constructor
    · rintro (rfl | ⟨rfl | ⟨hr, hnb⟩, hna⟩)
      · exact Or.inl rfl
      · exact Or.inr (Or.inl rfl)
      · exact Or.inr (Or.inr ⟨hr, hna, hnb⟩)
    · rintro (rfl | rfl | ⟨hr, hna, hnb⟩)
      · exact Or.inl rfl
      · exact Or.inr ⟨Or.inl rfl, hpromoted⟩
      · exact Or.inr ⟨Or.inr ⟨hr, hnb⟩, hna⟩

theorem oneOwner_transferred (hone : ∃! r, Owns d.tables g r) (ha : IsMembership d g callerId a)
    (hrole : a.role = .owner) (hb : IsMembership d g target b) (hne : a ≠ b) :
    ∃! r, Owns ((d.updateMember b.id (.role .owner)).updateMember a.id (.role .member)).tables
      g r := by
  refine ⟨{ b with role := .owner }, ⟨?_, hb.groupId_eq, rfl⟩, fun r hr => ?_⟩
  · exact (mem_transferred ha.mem hb.mem hne).mpr (Or.inr (Or.inl rfl))
  · obtain ⟨hr, hgroup, howner⟩ := hr
    rcases (mem_transferred ha.mem hb.mem hne).mp hr with heq | heq | ⟨hr, hna, -⟩
    · rw [Row.member.inj heq] at howner
      cases howner
    · exact Row.member.inj heq
    · have hsame : r = a := hone.unique ⟨hr, hgroup, howner⟩ ⟨ha.mem, ha.groupId_eq, hrole⟩
      exact absurd (congrArg Row.member hsame) hna

theorem sound_of_swapped (hone : ∃! r, Owns d.tables g r) (ha : IsMembership d g callerId a)
    (hrole : a.role = .owner) (hb : IsMembership d g target b) (hne : target ≠ callerId)
    (newOwnerId : String) :
    TransferIsSound d g callerId target
      (.ok ⟨(d.updateMember b.id (.role .owner)).updateMember a.id (.role .member),
        printUuid callerId, newOwnerId⟩) := by
  have hab : a ≠ b := by
    rintro rfl
    exact hne (hb.userId_eq.symm.trans ha.userId_eq)
  refine ⟨?_, ?_, ?_, iff_of_true ⟨_, rfl⟩ ⟨⟨a, ha, hrole⟩, ⟨b, hb⟩, hne⟩⟩
  · rintro t ⟨rfl⟩
    exact ⟨a, b, ha, hrole, hb, hab, fun _ => mem_transferred ha.mem hb.mem hab, rfl, rfl⟩
  · rintro t ⟨rfl⟩ g'
    exact group_mem_updateMember.trans group_mem_updateMember
  · rintro t ⟨rfl⟩
    exact oneOwner_transferred hone ha hrole hb hab

end Different

/-! ## One call -/

/-- A call that throws leaves everything as it was. -/
theorem sound_of_error {e : Exception}
    (h : ¬(IsOwner d g callerId ∧ (∃ b, IsMembership d g target b) ∧ target ≠ callerId)) :
    TransferIsSound d g callerId target (.error e) where
  swapped _ ht := by cases ht
  groups _ ht := by cases ht
  oneOwner _ ht := by cases ht
  succeeds := iff_of_false (by rintro ⟨_, ht⟩; cases ht) h

/-- **When a transfer does what it is meant to**: unless the owner sends an upper-case
spelling of their own id. -/
theorem transferIsSound_iff (d : Records) (callerId target g : Uuid)
    (groupId targetUserId : String) (hgroup : Spells groupId g)
    (htarget : Spells targetUserId target) (hone : ∃! r, Owns d.tables g r) :
    TransferIsSound d g callerId target (transferOwnership d callerId groupId targetUserId) ↔
      ¬(IsOwner d g callerId ∧ target = callerId ∧ ¬Lowercase targetUserId) := by
  have hends : Transfers d g callerId target targetUserId
      (transferOwnership d callerId groupId targetUserId) := transfers hgroup htarget
  generalize transferOwnership d callerId groupId targetUserId = result at hends
  cases hends with
  | toSelf hself =>
    have hsame : target = callerId := by
      have hcaller : Spells targetUserId callerId := hself ▸ spells_printUuid callerId
      exact Option.some.inj (htarget.2.symm.trans hcaller.2)
    have hlower : Lowercase targetUserId := hself ▸ lowercase_printUuid callerId
    exact iff_of_true (sound_of_error fun h => h.2.2 hsame) fun h => h.2.2 hlower
  | notOwner hne howner => exact iff_of_true (sound_of_error fun h => howner h.1) fun h => howner h.1
  | stranger hne hstranger =>
    refine iff_of_true (sound_of_error ?_) ?_
    · rintro ⟨-, ⟨b, hb⟩, -⟩
      exact hstranger b hb
    · rintro ⟨⟨a, ha, -⟩, rfl, -⟩
      exact hstranger a ha
  | @swapped a b hne ha hrole hb =>
    by_cases hself : target = callerId
    · subst hself
      -- the two lookups have found the same membership
      refine iff_of_false (fun hsound => ?_) (not_not.mpr ⟨⟨a, ha, hrole⟩, rfl, ?_⟩)
      · obtain ⟨a', b', ha', -, hb', hab, -⟩ := hsound.swapped _ rfl
        exact hab (hb'.unique ha')
      · exact fun hlower => hne ((eq_printUuid_iff htarget).mpr hlower).symm
    · exact iff_of_true (sound_of_swapped hone ha hrole hb hself _) fun h => hself h.2.1

/-! ## An owner who sends their own id -/

/-- A user with letters in their id. -/
def ownerId : Uuid := 0x018f00000000700080000000000000ab

/-- The same id in upper case. -/
def respelledId : String := "018F0000-0000-7000-8000-0000000000AB"

theorem spells_respelledId : Spells respelledId ownerId := by decide

/-- Group 2 with its owner and a member. -/
def twoRows : Tables :=
  ⟨[.group ⟨2, "a", ownerId, epoch⟩, .member ⟨10, 2, ownerId, .owner, epoch, none⟩,
    .member ⟨11, 2, 6, .member, epoch, none⟩], by decide⟩

theorem member_mem_twoRows : .member r ∈ twoRows ↔
    r = ⟨10, 2, ownerId, .owner, epoch, none⟩ ∨ r = ⟨11, 2, 6, .member, epoch, none⟩ := by
  rw [Table.mem_def, twoRows]
  simp

theorem group_mem_twoRows {g : Group} : .group g ∈ twoRows ↔ g = ⟨2, "a", ownerId, epoch⟩ := by
  rw [Table.mem_def, twoRows]
  simp

def twoMembers : Records where
  tables := twoRows
  messages := Table.empty
  reactions := Table.empty
  constraints := by
    refine ⟨fun r hr => ⟨_, group_mem_twoRows.mpr rfl, ?_⟩, fun _ h => absurd h List.not_mem_nil,
      fun _ h => absurd h List.not_mem_nil, fun r r' hr hr' _ huser => ?_, fun g g' hg hg' _ _ => ?_,
      fun _ h => absurd h List.not_mem_nil⟩
    · rcases member_mem_twoRows.mp hr with rfl | rfl <;> rfl
    · rcases member_mem_twoRows.mp hr with rfl | rfl <;>
        rcases member_mem_twoRows.mp hr' with rfl | rfl <;>
          first | rfl | exact absurd huser (by decide)
    · rw [group_mem_twoRows.mp hg, group_mem_twoRows.mp hg']

theorem existsUnique_owns_twoRows : ∃! r, Owns twoRows 2 r := by
  refine ⟨_, ⟨member_mem_twoRows.mpr (Or.inl rfl), rfl, rfl⟩, fun r hr => ?_⟩
  obtain ⟨hr, -, howner⟩ := hr
  rcases member_mem_twoRows.mp hr with rfl | rfl
  · rfl
  · cases howner

/-- A transfer to the other member. -/
theorem transferIsSound_iff_twoMembers :
    TransferIsSound twoMembers 2 ownerId 6
      (transferOwnership twoMembers ownerId "00000000-0000-0000-0000-000000000002"
        "00000000-0000-0000-0000-000000000006") :=
  (transferIsSound_iff twoMembers ownerId 6 2 _ _ (by decide) (by decide)
    existsUnique_owns_twoRows).mpr fun h => absurd h.2.1 (by decide)

/-- **An owner may demote themselves**, and nobody owns the group any more. -/
theorem not_transferIsSound_respelledId :
    (∃! r, Owns twoMembers.tables 2 r) ∧ Spells respelledId ownerId ∧
      (¬TransferIsSound twoMembers 2 ownerId ownerId
        (transferOwnership twoMembers ownerId "00000000-0000-0000-0000-000000000002" respelledId)) ∧
      ∃ t, transferOwnership twoMembers ownerId "00000000-0000-0000-0000-000000000002"
        respelledId = .ok t ∧ ∀ r, ¬Owns t.records.tables 2 r := by
  refine ⟨existsUnique_owns_twoRows, spells_respelledId, ?_, _, rfl, ?_⟩
  · intro hsound
    obtain ⟨a, b, ha, -, hb, hab, -⟩ := hsound.swapped _ rfl
    exact hab (hb.unique ha)
  · rintro r ⟨hr, -, howner⟩
    have hrows : Row.member r ∈ [Row.group ⟨2, "a", ownerId, epoch⟩,
        .member ⟨10, 2, ownerId, .member, epoch, none⟩, .member ⟨11, 2, 6, .member, epoch, none⟩] :=
      hr
    have hrole : r.role = .member := by
      simp only [List.mem_cons, reduceCtorEq, false_or, Row.member.injEq, List.not_mem_nil,
        or_false] at hrows
      rcases hrows with rfl | rfl <;> rfl
    exact absurd (howner.symm.trans hrole) (by decide)

end Groups
end GroupChat

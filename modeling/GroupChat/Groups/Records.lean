import GroupChat.Groups.Ownership
import GroupChat.Messages.Reactions

/-!
# The database of the groups

A group has memberships and messages, and a message has reactions.  `Records` is all of
them together, with the constraints the schema declares as a field: a membership and a
message belong to a group that exists, a reaction to a message that exists, a user has one
membership in a group, one reaction of a kind to a message, and one group of a name.

What the calls on one group do to memberships is one of three things: they update one,
delete one, or delete the whole group.  The last one cascades: the memberships and the
messages of the group go with it, and the reactions with the messages.  `mem_updateMember`,
`mem_deleteMember` and the lemmas of `deleteGroup` say which rows are there afterwards, and
are all that is needed about them.
-/

namespace GroupChat
namespace Groups

open Common Database Messages Messages.Reactions

/-! ## Constraints -/

/-- The foreign keys and the unique keys of the schema. -/
structure Constraints (tables : Tables) (messages : MessageTable) (reactions : ReactionTable) :
    Prop where
  /-- `GroupMember.group` -/
  memberGroup : ∀ r, .member r ∈ tables → ∃ g, .group g ∈ tables ∧ g.id = r.groupId
  /-- `Message.group` -/
  messageGroup : ∀ m ∈ messages, ∃ g, .group g ∈ tables ∧ g.id = m.groupId
  /-- `Reaction.message` -/
  reactionMessage : ∀ r ∈ reactions, ∃ m ∈ messages, m.id = r.messageId
  /-- `@@unique([groupId, userId])` -/
  memberUnique : ∀ r r', .member r ∈ tables → .member r' ∈ tables → r.groupId = r'.groupId →
    r.userId = r'.userId → r = r'
  /-- `@@unique([createdBy, name])` -/
  nameUnique : ∀ g g', .group g ∈ tables → .group g' ∈ tables → g.createdBy = g'.createdBy →
    g.name = g'.name → g = g'
  marksUnique : MarksUnique reactions

/-- The groups with their memberships, messages and reactions. -/
structure Records where
  tables : Tables
  messages : MessageTable
  reactions : ReactionTable
  constraints : Constraints tables messages reactions

/-- Nothing is stored yet. -/
def Records.empty : Records where
  tables := Table.empty
  messages := Table.empty
  reactions := Table.empty
  constraints :=
    ⟨fun _ h => absurd h List.not_mem_nil, fun _ h => absurd h List.not_mem_nil,
      fun _ h => absurd h List.not_mem_nil, fun _ _ h => absurd h List.not_mem_nil,
      fun _ _ h => absurd h List.not_mem_nil, fun _ h => absurd h List.not_mem_nil⟩

variable {d : Records} {r : GroupMember} {g : Group} {groupId userId : Uuid}

/-- A user has one membership in a group, and the query finds it. -/
theorem membership_iff : membership d.tables groupId userId = some r ↔
    .member r ∈ d.tables ∧ r.groupId = groupId ∧ r.userId = userId := by
  constructor
  · exact membership_eq_some
  · rintro ⟨hr, hgroup, huser⟩
    cases hfound : membership d.tables groupId userId with
    | none => exact absurd huser (membership_eq_none.mp hfound r hr hgroup)
    | some r' =>
      obtain ⟨hr', hgroup', huser'⟩ := membership_eq_some hfound
      rw [d.constraints.memberUnique r' r hr' hr (hgroup'.trans hgroup.symm)
        (huser'.trans huser.symm)]

/-! ## Updating a membership -/

/-- The columns `groupMember.update` writes. -/
inductive MemberUpdate where
  | role (value : MemberRole)
  | lastReadAt (value : Instant)
deriving DecidableEq

def MemberUpdate.apply : MemberUpdate → GroupMember → GroupMember
  | .role value, r => { r with role := value }
  | .lastReadAt value, r => { r with lastReadAt := some value }

@[simp] theorem MemberUpdate.apply_id (u : MemberUpdate) (r : GroupMember) :
    (u.apply r).id = r.id := by
  cases u <;> rfl

@[simp] theorem MemberUpdate.apply_groupId (u : MemberUpdate) (r : GroupMember) :
    (u.apply r).groupId = r.groupId := by
  cases u <;> rfl

@[simp] theorem MemberUpdate.apply_userId (u : MemberUpdate) (r : GroupMember) :
    (u.apply r).userId = r.userId := by
  cases u <;> rfl

/-- The update of the membership with this id. -/
def Row.update (id : Uuid) (u : MemberUpdate) : Row → Row
  | .group g => .group g
  | .member r => if r.id = id then .member (u.apply r) else .member r

theorem Row.key_update (id : Uuid) (u : MemberUpdate) (row : Row) :
    (row.update id u).key = row.key := by
  cases row with
  | group g => rfl
  | member r =>
    rw [Row.update]
    split_ifs
    · rw [Row.key_member, Row.key_member, MemberUpdate.apply_id]
    · rfl

def updateRows (t : Tables) (id : Uuid) (u : MemberUpdate) : Tables :=
  t.map (Row.update id u) (Row.key_update id u)

theorem mem_updateRows {t : Tables} {id : Uuid} {u : MemberUpdate} {x : Row} :
    x ∈ updateRows t id u ↔ ∃ row ∈ t, row.update id u = x := Table.mem_map

theorem group_mem_updateRows {t : Tables} {id : Uuid} {u : MemberUpdate} {g : Group} :
    .group g ∈ updateRows t id u ↔ .group g ∈ t := by
  refine mem_updateRows.trans ⟨?_, fun h => ⟨.group g, h, rfl⟩⟩
  rintro ⟨row, hrow, heq⟩
  cases row with
  | group g' =>
    cases heq
    exact hrow
  | member r =>
    rw [Row.update] at heq
    split_ifs at heq

theorem member_mem_updateRows {t : Tables} {id : Uuid} {u : MemberUpdate} {r : GroupMember} :
    .member r ∈ updateRows t id u ↔
      ∃ r₀, .member r₀ ∈ t ∧ r = if r₀.id = id then u.apply r₀ else r₀ := by
  refine mem_updateRows.trans ⟨?_, ?_⟩
  · rintro ⟨row, hrow, heq⟩
    cases row with
    | group g => cases heq
    | member r₀ =>
      refine ⟨r₀, hrow, ?_⟩
      rw [Row.update] at heq
      split_ifs at heq ⊢ <;> exact (Row.member.inj heq).symm
  · rintro ⟨r₀, hr₀, rfl⟩
    refine ⟨.member r₀, hr₀, ?_⟩
    rw [Row.update]
    split_ifs <;> rfl

/-- A row of the table after an update keeps what the keys are about. -/
theorem exists_of_member_mem_updateRows {t : Tables} {id : Uuid} {u : MemberUpdate}
    {r : GroupMember} (h : .member r ∈ updateRows t id u) : ∃ r₀, .member r₀ ∈ t ∧
      r₀.groupId = r.groupId ∧ r₀.userId = r.userId ∧ (r₀.id = id → r = u.apply r₀) ∧
        (r₀.id ≠ id → r = r₀) := by
  obtain ⟨r₀, hr₀, rfl⟩ := member_mem_updateRows.mp h
  refine ⟨r₀, hr₀, ?_, ?_, fun hid => if_pos hid, fun hid => if_neg hid⟩
  · split_ifs <;> simp
  · split_ifs <;> simp

def Records.updateMember (d : Records) (id : Uuid) (u : MemberUpdate) : Records where
  tables := updateRows d.tables id u
  messages := d.messages
  reactions := d.reactions
  constraints := by
    refine ⟨fun r hr => ?_, fun m hm => ?_, d.constraints.reactionMessage,
      fun r r' hr hr' hgroup huser => ?_, fun g g' hg hg' => ?_, d.constraints.marksUnique⟩
    · obtain ⟨r₀, hr₀, hgroup, -⟩ := exists_of_member_mem_updateRows hr
      obtain ⟨g, hg, hid⟩ := d.constraints.memberGroup r₀ hr₀
      exact ⟨g, group_mem_updateRows.mpr hg, hid.trans hgroup⟩
    · obtain ⟨g, hg, hid⟩ := d.constraints.messageGroup m hm
      exact ⟨g, group_mem_updateRows.mpr hg, hid⟩
    · obtain ⟨r₀, hr₀, heq⟩ := member_mem_updateRows.mp hr
      obtain ⟨r₀', hr₀', heq'⟩ := member_mem_updateRows.mp hr'
      have hsame : r₀ = r₀' := by
        refine d.constraints.memberUnique r₀ r₀' hr₀ hr₀' ?_ ?_
        · rw [heq, heq'] at hgroup
          split_ifs at hgroup <;> simpa using hgroup
        · rw [heq, heq'] at huser
          split_ifs at huser <;> simpa using huser
      rw [heq, heq', hsame]
    · exact d.constraints.nameUnique g g' (group_mem_updateRows.mp hg) (group_mem_updateRows.mp hg')

theorem group_mem_updateMember {id : Uuid} {u : MemberUpdate} :
    .group g ∈ (d.updateMember id u).tables ↔ .group g ∈ d.tables :=
  group_mem_updateRows

/-- **One row is rewritten**, and the others are as they were. -/
theorem mem_updateMember {r₀ : GroupMember} (h : .member r₀ ∈ d.tables) (u : MemberUpdate) :
    .member r ∈ (d.updateMember r₀.id u).tables ↔
      r = u.apply r₀ ∨ .member r ∈ d.tables ∧ r ≠ r₀ := by
  refine member_mem_updateRows.trans ⟨?_, ?_⟩
  · rintro ⟨r₁, hr₁, rfl⟩
    by_cases hid : r₁.id = r₀.id
    · have hsame : r₁ = r₀ := eq_of_member_mem hr₁ h hid
      rw [hsame, if_pos rfl]
      exact Or.inl rfl
    · rw [if_neg hid]
      exact Or.inr ⟨hr₁, fun heq => hid (by rw [heq])⟩
  · rintro (rfl | ⟨hr, hne⟩)
    · exact ⟨r₀, h, (if_pos rfl).symm⟩
    · exact ⟨r, hr, (if_neg fun hid => hne (eq_of_member_mem hr h hid)).symm⟩

/-! ## Deleting a membership -/

/-- `groupMember.delete` -/
def Records.deleteMember (d : Records) (id : Uuid) : Records where
  tables := d.tables.remove (.member id)
  messages := d.messages
  reactions := d.reactions
  constraints := by
    have hgroup : ∀ g, .group g ∈ d.tables.remove (.member id) ↔ .group g ∈ d.tables := fun g =>
      Table.mem_remove.trans (and_iff_left (by simp))
    refine ⟨fun r hr => ?_, fun m hm => ?_, d.constraints.reactionMessage, fun r r' hr hr' => ?_,
      fun g g' hg hg' => ?_, d.constraints.marksUnique⟩
    · obtain ⟨g, hg, hid⟩ := d.constraints.memberGroup r (Table.mem_remove.mp hr).1
      exact ⟨g, (hgroup g).mpr hg, hid⟩
    · obtain ⟨g, hg, hid⟩ := d.constraints.messageGroup m hm
      exact ⟨g, (hgroup g).mpr hg, hid⟩
    · exact d.constraints.memberUnique r r' (Table.mem_remove.mp hr).1 (Table.mem_remove.mp hr').1
    · exact d.constraints.nameUnique g g' ((hgroup g).mp hg) ((hgroup g').mp hg')

theorem group_mem_deleteMember {id : Uuid} :
    .group g ∈ (d.deleteMember id).tables ↔ .group g ∈ d.tables :=
  Table.mem_remove.trans (and_iff_left (by simp))

theorem mem_deleteMember {r₀ : GroupMember} (h : .member r₀ ∈ d.tables) :
    .member r ∈ (d.deleteMember r₀.id).tables ↔ .member r ∈ d.tables ∧ r ≠ r₀ := by
  refine Table.mem_remove.trans (and_congr_right fun hr => ?_)
  constructor
  · rintro hid rfl
    exact hid rfl
  · exact fun hne hid => hne (eq_of_member_mem hr h (Key.member.inj hid))

/-! ## Deleting a group -/

/-- The row goes with the group. -/
def Row.inGroup (groupId : Uuid) : Row → Bool
  | .group g => g.id = groupId
  | .member r => r.groupId = groupId

/-- The reaction is to a message of the group. -/
def reactsIn (messages : MessageTable) (groupId : Uuid) (r : Reaction) : Bool :=
  messages.rows.any fun m => m.id = r.messageId ∧ m.groupId = groupId

/-- `group.delete`, with what cascades from it. -/
def Records.deleteGroup (d : Records) (groupId : Uuid) : Records where
  tables := d.tables.filter fun row => !row.inGroup groupId
  messages := d.messages.filter fun m => m.groupId ≠ groupId
  reactions := d.reactions.filter fun r => !reactsIn d.messages groupId r
  constraints := by
    have hrow : ∀ {row}, row ∈ (d.tables.filter fun row => !row.inGroup groupId) ↔
        row ∈ d.tables ∧ row.inGroup groupId = false := by
      intro row
      rw [Table.mem_filter, Bool.not_eq_true']
    have hmessage : ∀ {m}, m ∈ (d.messages.filter fun m => m.groupId ≠ groupId) ↔
        m ∈ d.messages ∧ m.groupId ≠ groupId := by
      intro m
      rw [Table.mem_filter, decide_eq_true_eq]
    have hreaction : ∀ {r}, r ∈ (d.reactions.filter fun r => !reactsIn d.messages groupId r) ↔
        r ∈ d.reactions ∧ reactsIn d.messages groupId r = false := by
      intro r
      rw [Table.mem_filter, Bool.not_eq_true']
    refine ⟨fun r hr => ?_, fun m hm => ?_, fun r hr => ?_, fun r r' hr hr' => ?_,
      fun g g' hg hg' => ?_, fun r hr r' hr' => ?_⟩
    · obtain ⟨hr, hout⟩ := hrow.mp hr
      obtain ⟨g, hg, hid⟩ := d.constraints.memberGroup r hr
      refine ⟨g, hrow.mpr ⟨hg, ?_⟩, hid⟩
      rw [Row.inGroup, hid]
      exact hout
    · obtain ⟨hm, hout⟩ := hmessage.mp hm
      obtain ⟨g, hg, hid⟩ := d.constraints.messageGroup m hm
      refine ⟨g, hrow.mpr ⟨hg, ?_⟩, hid⟩
      rw [Row.inGroup, hid]
      exact decide_eq_false hout
    · obtain ⟨hr, hout⟩ := hreaction.mp hr
      obtain ⟨m, hm, hid⟩ := d.constraints.reactionMessage r hr
      refine ⟨m, hmessage.mpr ⟨hm, fun hgroup => ?_⟩, hid⟩
      have hin : reactsIn d.messages groupId r = true :=
        List.any_eq_true.mpr ⟨m, hm, decide_eq_true ⟨hid, hgroup⟩⟩
      exact absurd (hin.symm.trans hout) (by simp)
    · exact d.constraints.memberUnique r r' (hrow.mp hr).1 (hrow.mp hr').1
    · exact d.constraints.nameUnique g g' (hrow.mp hg).1 (hrow.mp hg').1
    · exact d.constraints.marksUnique r (hreaction.mp hr).1 r' (hreaction.mp hr').1

theorem group_mem_deleteGroup :
    .group g ∈ (d.deleteGroup groupId).tables ↔ .group g ∈ d.tables ∧ g.id ≠ groupId :=
  Table.mem_filter.trans (and_congr_right fun _ => by simp [Row.inGroup])

theorem member_mem_deleteGroup :
    .member r ∈ (d.deleteGroup groupId).tables ↔ .member r ∈ d.tables ∧ r.groupId ≠ groupId :=
  Table.mem_filter.trans (and_congr_right fun _ => by simp [Row.inGroup])

theorem message_mem_deleteGroup {m : Message} :
    m ∈ (d.deleteGroup groupId).messages ↔ m ∈ d.messages ∧ m.groupId ≠ groupId :=
  Table.mem_filter.trans (and_congr_right fun _ => decide_eq_true_iff)

/-- A reaction goes with the message it is to. -/
theorem reaction_mem_deleteGroup {r : Reaction} :
    r ∈ (d.deleteGroup groupId).reactions ↔
      r ∈ d.reactions ∧ ∀ m ∈ d.messages, m.id = r.messageId → m.groupId ≠ groupId := by
  refine Table.mem_filter.trans (and_congr_right fun _ => ?_)
  rw [Bool.not_eq_true', reactsIn, List.any_eq_false]
  simp only [decide_eq_true_eq, not_and]
  exact Iff.rfl

end Groups
end GroupChat

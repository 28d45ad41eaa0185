import GroupChat.Groups.Contents
import GroupChat.Groups.Leaving

/-!
# Creating and joining a group

`create` inserts a group and the membership of its owner in one transaction, and `join` looks
a group up and inserts a membership.  Both are run here as one step, like `leave` and
`transferOwnership`.  An insert fails with `P2002` where it runs into a unique constraint or a
primary key, and with `P2003` where the group of a membership is missing.  Both calls turn
`P2002`, whatever it came from, into a conflict with a text of their own.

`creates` and `joins` say what the calls come to when the ids they insert under are new, and
`isListing_findMyGroups` what the list of one's groups shows.
-/

namespace GroupChat
namespace Groups

open Common Database

variable {d : Records} {userId groupId id : Uuid} {name : String} {now : Instant}

/-! ## Inserts -/

/-- The unique constraint on the groups. -/
theorem exists_namedBy_iff {t : Tables} :
    (∃ row ∈ t.rows, Row.NamedBy userId name row) ↔
      ∃ g, .group g ∈ t ∧ g.createdBy = userId ∧ g.name = name := by
  constructor
  · rintro ⟨row, hrow, hof⟩
    cases row with
    | group g => exact ⟨g, hrow, hof⟩
    | member r => exact absurd hof id
  · rintro ⟨g, hg, hof⟩
    exact ⟨.group g, hg, hof⟩

/-- The unique constraint on the memberships. -/
theorem exists_membershipOf_iff {t : Tables} :
    (∃ row ∈ t.rows, Row.MembershipOf groupId userId row) ↔
      ∃ r, .member r ∈ t ∧ r.groupId = groupId ∧ r.userId = userId := by
  constructor
  · rintro ⟨row, hrow, hof⟩
    cases row with
    | group g => exact absurd hof id
    | member r => exact ⟨r, hrow, hof⟩
  · rintro ⟨r, hr, hof⟩
    exact ⟨.member r, hr, hof⟩

/-- The table with one more group. -/
def Records.insertGroup (d : Records) (g : Group) (fresh : d.tables.find? (.group g.id) = none)
    (unnamed : ¬∃ row ∈ d.tables.rows, Row.NamedBy g.createdBy g.name row) : Records where
  tables := d.tables.put (.group g)
  messages := d.messages
  reactions := d.reactions
  constraints := by
    have hold : ∀ g', .group g' ∈ d.tables → .group g' ∈ d.tables.put (.group g) := fun g' hg' =>
      (Table.mem_put_of_key_ne (Table.find?_eq_none_iff.mp fresh _ hg')).mpr hg'
    have hnew : ∀ g', .group g' ∈ d.tables.put (.group g) → g' = g ∨ .group g' ∈ d.tables :=
      fun g' hg' => (Table.mem_put.mp hg').imp Row.group.inj And.left
    have hmember : ∀ r, .member r ∈ d.tables.put (.group g) → .member r ∈ d.tables := fun r hr =>
      (Table.mem_put_of_key_ne (by simp)).mp hr
    refine ⟨fun r hr => ?_, fun m hm => ?_, d.constraints.reactionMessage, fun r r' hr hr' => ?_,
      fun g₁ g₂ hg₁ hg₂ hcreator hname => ?_, d.constraints.marksUnique⟩
    · obtain ⟨g', hg', hid⟩ := d.constraints.memberGroup r (hmember r hr)
      exact ⟨g', hold g' hg', hid⟩
    · obtain ⟨g', hg', hid⟩ := d.constraints.messageGroup m hm
      exact ⟨g', hold g' hg', hid⟩
    · exact d.constraints.memberUnique r r' (hmember r hr) (hmember r' hr')
    · rw [exists_namedBy_iff] at unnamed
      rcases hnew g₁ hg₁ with rfl | hold₁ <;> rcases hnew g₂ hg₂ with rfl | hold₂
      · rfl
      · exact absurd ⟨g₂, hold₂, hcreator.symm, hname.symm⟩ unnamed
      · exact absurd ⟨g₁, hold₁, hcreator, hname⟩ unnamed
      · exact d.constraints.nameUnique g₁ g₂ hold₁ hold₂ hcreator hname

/-- The table with one more membership, in a group that is there. -/
def Records.insertMember (d : Records) (r : GroupMember)
    (fresh : d.tables.find? (.member r.id) = none)
    (stranger : ¬∃ row ∈ d.tables.rows, Row.MembershipOf r.groupId r.userId row)
    (group : d.hasGroup r.groupId = true) : Records where
  tables := d.tables.put (.member r)
  messages := d.messages
  reactions := d.reactions
  constraints := by
    have hgroup : ∀ g, .group g ∈ d.tables.put (.member r) ↔ .group g ∈ d.tables := fun g =>
      Table.mem_put_of_key_ne (by simp)
    have hnew : ∀ r', .member r' ∈ d.tables.put (.member r) → r' = r ∨ .member r' ∈ d.tables :=
      fun r' hr' => (Table.mem_put.mp hr').imp Row.member.inj And.left
    refine ⟨fun r' hr' => ?_, fun m hm => ?_, d.constraints.reactionMessage,
      fun r₁ r₂ hr₁ hr₂ hgroupId huser => ?_, fun g g' hg hg' => ?_, d.constraints.marksUnique⟩
    · have hthere : ∃ g, .group g ∈ d.tables ∧ g.id = r'.groupId := by
        rcases hnew r' hr' with rfl | hr'
        · exact Records.exists_of_hasGroup group
        · exact d.constraints.memberGroup r' hr'
      obtain ⟨g, hg, hid⟩ := hthere
      exact ⟨g, (hgroup g).mpr hg, hid⟩
    · obtain ⟨g, hg, hid⟩ := d.constraints.messageGroup m hm
      exact ⟨g, (hgroup g).mpr hg, hid⟩
    · rw [exists_membershipOf_iff] at stranger
      rcases hnew r₁ hr₁ with rfl | hold₁ <;> rcases hnew r₂ hr₂ with rfl | hold₂
      · rfl
      · exact absurd ⟨r₂, hold₂, hgroupId.symm, huser.symm⟩ stranger
      · exact absurd ⟨r₁, hold₁, hgroupId, huser⟩ stranger
      · exact d.constraints.memberUnique r₁ r₂ hold₁ hold₂ hgroupId huser
    · exact d.constraints.nameUnique g g' ((hgroup g).mp hg) ((hgroup g').mp hg')

/-- `group.create` -/
def Records.createGroup (d : Records) (g : Group) : Except Exception Records :=
  if fresh : d.tables.find? (.group g.id) = none then
    if named : ∃ row ∈ d.tables.rows, Row.NamedBy g.createdBy g.name row then
      .error (.prisma .P2002)
    else .ok (d.insertGroup g fresh named)
  else .error (.prisma .P2002)

/-- `groupMember.create` -/
def Records.createMember (d : Records) (r : GroupMember) : Except Exception Records :=
  if fresh : d.tables.find? (.member r.id) = none then
    if member : ∃ row ∈ d.tables.rows, Row.MembershipOf r.groupId r.userId row then
      .error (.prisma .P2002)
    else if group : d.hasGroup r.groupId = true then .ok (d.insertMember r fresh member group)
    else .error (.prisma .P2003)
  else .error (.prisma .P2002)

/-! ## The calls -/

/-- What the defaults of the columns come to in a call of `create`. -/
structure Defaults where
  groupId : Uuid
  memberId : Uuid
  createdAt : Instant
  joinedAt : Instant

/-- The answer to `P2002`. -/
def conflictOr {α : Type} (message : String) : Except Exception α → Except Exception α
  | .error (.prisma .P2002) => .error (.conflict message)
  | result => result

def create (d : Records) (userId : Uuid) (name : String) (new : Defaults) :
    Except Exception (Records × Group) :=
  conflictOr "You already have a group with this name" do
    let group : Group := ⟨new.groupId, name, userId, new.createdAt⟩
    let d ← d.createGroup group
    let d ← d.createMember (newMember new.memberId group.id userId .owner new.joinedAt)
    return (d, group)

/-- What `join` comes to when it does not throw. -/
structure Joined where
  records : Records
  events : List Event
  group : Group

def join (d : Records) (userId groupId id : Uuid) (now : Instant) : Except Exception Joined :=
  match groupById d.tables groupId with
  | none => .error (.notFound "Group not found")
  | some group => conflictOr "You are already a member of this group" do
    let member := newMember id groupId userId .member now
    let d ← d.createMember member
    return ⟨d, [.memberJoined groupId member], group⟩

/-- `findMyGroups`: each group with the number of its memberships and of its messages. -/
def findMyGroups (d : Records) (userId : Uuid) : List (Group × ℕ × ℕ) :=
  ((d.tables.rows.filterMap Row.group?).filter fun g =>
      (membersOf d.tables).any fun r => r.groupId = g.id ∧ r.userId = userId).insertionSort
    (fun a b => b.createdAt ≤ a.createdAt)
  |>.map fun g =>
    (g, (membersOf d.tables).countP fun r => r.groupId = g.id,
      d.messages.rows.countP fun m => m.groupId = g.id)

/-- The groups of a user, each once, newest first, with how many members and messages it has. -/
structure IsListing (d : Records) (userId : Uuid) (listing : List (Group × ℕ × ℕ)) : Prop where
  newestFirst : listing.Pairwise fun a b => b.1.createdAt ≤ a.1.createdAt
  nodup : (listing.map Prod.fst).Nodup
  mem_iff : ∀ g members messages, (g, members, messages) ∈ listing ↔
    .group g ∈ d.tables ∧ (∃ r, IsMembership d g.id userId r) ∧
      members = ((membersOf d.tables).filter fun r => r.groupId = g.id).length ∧
        messages = (d.messages.rows.filter fun m => m.groupId = g.id).length

theorem nodup_groups (t : Tables) : (t.rows.filterMap Row.group?).Nodup := by
  refine List.Nodup.filterMap ?_ (List.Nodup.of_map _ t.nodup)
  intro a b g ha hb
  cases a with
  | member r => cases ha
  | group a =>
    cases b with
    | member r => cases hb
    | group b => rw [Option.some.inj ha, Option.some.inj hb]

theorem mem_groups {t : Tables} {g : Group} :
    g ∈ t.rows.filterMap Row.group? ↔ .group g ∈ t := by
  rw [List.mem_filterMap]
  constructor
  · rintro ⟨row, hrow, heq⟩
    cases row with
    | group g' => exact Option.some.inj heq ▸ hrow
    | member r => cases heq
  · exact fun hg => ⟨.group g, hg, rfl⟩

/-- **A user is shown the groups they are a member of, and no others.** -/
theorem isListing_findMyGroups (d : Records) (userId : Uuid) :
    IsListing d userId (findMyGroups d userId) := by
  have hmember : ∀ g : Group, (membersOf d.tables).any
      (fun r => decide (r.groupId = g.id ∧ r.userId = userId)) = true ↔
        ∃ r, IsMembership d g.id userId r := by
    intro g
    rw [List.any_eq_true]
    constructor
    · rintro ⟨r, hr, h⟩
      obtain ⟨hgroup, huser⟩ := of_decide_eq_true h
      exact ⟨r, mem_membersOf.mp hr, hgroup, huser⟩
    · rintro ⟨r, hr⟩
      exact ⟨r, mem_membersOf.mpr hr.mem, decide_eq_true ⟨hr.groupId_eq, hr.userId_eq⟩⟩
  refine ⟨?_, ?_, fun g members messages => ?_⟩
  · exact List.pairwise_map.mpr (List.pairwise_insertionSort _ _)
  · unfold findMyGroups
    rw [List.map_map]
    show (List.map id _).Nodup
    rw [List.map_id]
    exact (List.perm_insertionSort _ _).nodup_iff.mpr ((nodup_groups d.tables).filter _)
  · unfold findMyGroups
    rw [List.mem_map]
    simp only [List.mem_insertionSort, List.mem_filter, mem_groups, hmember]
    constructor
    · rintro ⟨g', ⟨hg, hmine⟩, heq⟩
      cases heq
      exact ⟨hg, hmine, List.countP_eq_length_filter, List.countP_eq_length_filter⟩
    · rintro ⟨hg, hmine, rfl, rfl⟩
      refine ⟨g, ⟨hg, hmine⟩, ?_⟩
      rw [List.countP_eq_length_filter, List.countP_eq_length_filter]

/-! ## What they come to -/

theorem hasGroup_iff : d.hasGroup groupId = true ↔ ∃ g, .group g ∈ d.tables ∧ g.id = groupId := by
  refine ⟨Records.exists_of_hasGroup, ?_⟩
  rintro ⟨g, hg, rfl⟩
  have hfound : groupById d.tables g.id = some g := by
    rw [groupById, ← Row.key_group, Table.find?_of_mem hg]
    rfl
  rw [Records.hasGroup, hfound]
  rfl

/-- One row has been added, and nothing else has changed. -/
structure Added (d : Records) (row : Row) (after : Records) : Prop where
  rows : after.tables.rows = d.tables.rows ++ [row]
  messages : after.messages = d.messages
  reactions : after.reactions = d.reactions

/-- `group.create` under a new id. -/
theorem createGroup_cases {g : Group} (fresh : d.tables.find? (.group g.id) = none) :
    (∃ g', .group g' ∈ d.tables ∧ g'.createdBy = g.createdBy ∧ g'.name = g.name) ∧
        d.createGroup g = .error (.prisma .P2002) ∨
      (¬∃ g', .group g' ∈ d.tables ∧ g'.createdBy = g.createdBy ∧ g'.name = g.name) ∧
        ∃ after, d.createGroup g = .ok after ∧ Added d (.group g) after := by
  rw [← exists_namedBy_iff, Records.createGroup, dif_pos fresh]
  by_cases hnamed : ∃ row ∈ d.tables.rows, Row.NamedBy g.createdBy g.name row
  · exact Or.inl ⟨hnamed, dif_pos hnamed⟩
  · exact Or.inr ⟨hnamed, _, dif_neg hnamed, Table.rows_put_of_find?_eq_none fresh, rfl, rfl⟩

/-- `groupMember.create` under a new id, in a group that is there. -/
theorem createMember_cases {r : GroupMember} (fresh : d.tables.find? (.member r.id) = none)
    (group : d.hasGroup r.groupId = true) :
    (∃ me, IsMembership d r.groupId r.userId me) ∧
        d.createMember r = .error (.prisma .P2002) ∨
      (¬∃ me, IsMembership d r.groupId r.userId me) ∧
        ∃ after, d.createMember r = .ok after ∧ Added d (.member r) after := by
  have hiff : (∃ me, IsMembership d r.groupId r.userId me) ↔
      ∃ row ∈ d.tables.rows, Row.MembershipOf r.groupId r.userId row := by
    rw [exists_membershipOf_iff]
    exact exists_congr fun me => ⟨fun h => ⟨h.mem, h.groupId_eq, h.userId_eq⟩,
      fun h => ⟨h.1, h.2.1, h.2.2⟩⟩
  rw [hiff, Records.createMember, dif_pos fresh]
  by_cases hmember : ∃ row ∈ d.tables.rows, Row.MembershipOf r.groupId r.userId row
  · exact Or.inl ⟨hmember, dif_pos hmember⟩
  · refine Or.inr ⟨hmember, d.insertMember r fresh hmember group, ?_,
      Table.rows_put_of_find?_eq_none fresh, rfl, rfl⟩
    rw [dif_neg hmember, dif_pos group]

/-- **How `create` ends.** -/
inductive Creates (d : Records) (userId : Uuid) (name : String) (new : Defaults) :
    Except Exception (Records × Group) → Prop
  | named (named : ∃ g, .group g ∈ d.tables ∧ g.createdBy = userId ∧ g.name = name) :
      Creates d userId name new (.error (.conflict "You already have a group with this name"))
  | created {after : Records}
      (unnamed : ¬∃ g, .group g ∈ d.tables ∧ g.createdBy = userId ∧ g.name = name)
      (rows : after.tables.rows = d.tables.rows ++
        [.group ⟨new.groupId, name, userId, new.createdAt⟩,
          .member (newMember new.memberId new.groupId userId .owner new.joinedAt)])
      (messages : after.messages = d.messages) (reactions : after.reactions = d.reactions) :
      Creates d userId name new (.ok (after, ⟨new.groupId, name, userId, new.createdAt⟩))

theorem creates (d : Records) (userId : Uuid) (name : String) (new : Defaults)
    (hgroup : d.tables.find? (.group new.groupId) = none)
    (hmember : d.tables.find? (.member new.memberId) = none) :
    Creates d userId name new (create d userId name new) := by
  unfold create
  rcases createGroup_cases (g := ⟨new.groupId, name, userId, new.createdAt⟩) hgroup with
    ⟨hnamed, hthrown⟩ | ⟨hunnamed, between, hcreated, hgroupAdded⟩
  · simp only [hthrown]
    exact .named hnamed
  · have hrow : ∀ row, row ∈ between.tables ↔
        row ∈ d.tables ∨ row = .group ⟨new.groupId, name, userId, new.createdAt⟩ := by
      intro row
      rw [Table.mem_def, hgroupAdded.rows, List.mem_append, List.mem_singleton, ← Table.mem_def]
    have hfresh : between.tables.find? (.member new.memberId) = none := by
      rw [Table.find?_eq_none_iff] at hmember ⊢
      intro row hrow'
      rcases (hrow row).mp hrow' with hold | rfl
      · exact hmember row hold
      · simp
    have hthere : between.hasGroup new.groupId = true :=
      hasGroup_iff.mpr ⟨_, (hrow _).mpr (Or.inr rfl), rfl⟩
    have hstranger : ¬∃ me, IsMembership between new.groupId userId me := by
      rintro ⟨me, hme⟩
      -- it would be a membership of a group that was not there
      have hold : .member me ∈ d.tables := ((hrow _).mp hme.mem).resolve_right (by simp)
      obtain ⟨g, hg, hid⟩ := d.constraints.memberGroup me hold
      refine Table.find?_eq_none_iff.mp hgroup _ hg ?_
      rw [Row.key_group, hid, hme.groupId_eq]
    rcases createMember_cases
        (r := newMember new.memberId new.groupId userId .owner new.joinedAt) hfresh hthere with
      ⟨hmember', -⟩ | ⟨-, after, hinserted, hadded⟩
    · exact absurd hmember' hstranger
    · simp only [hcreated, bind, Except.bind, hinserted]
      refine .created hunnamed ?_ (hadded.messages.trans hgroupAdded.messages)
        (hadded.reactions.trans hgroupAdded.reactions)
      rw [hadded.rows, hgroupAdded.rows, List.append_assoc]
      rfl

/-- **How `join` ends.** -/
inductive Joins (d : Records) (userId groupId id : Uuid) (now : Instant) :
    Except Exception Joined → Prop
  | missing (absent : ¬GroupExists d groupId) :
      Joins d userId groupId id now (.error (.notFound "Group not found"))
  | member (member : ∃ me, IsMembership d groupId userId me) :
      Joins d userId groupId id now (.error (.conflict "You are already a member of this group"))
  | joined {after : Records} {g : Group} (mem : .group g ∈ d.tables) (id_eq : g.id = groupId)
      (stranger : ¬∃ me, IsMembership d groupId userId me)
      (added : Added d (.member (newMember id groupId userId .member now)) after) :
      Joins d userId groupId id now
        (.ok ⟨after, [.memberJoined groupId (newMember id groupId userId .member now)], g⟩)

theorem joins (d : Records) (userId groupId id : Uuid) (now : Instant)
    (hid : d.tables.find? (.member id) = none) :
    Joins d userId groupId id now (join d userId groupId id now) := by
  unfold join
  cases hfound : groupById d.tables groupId with
  | none =>
    refine .missing fun hexists => ?_
    have hthere : d.hasGroup groupId = true := hasGroup_iff.mpr hexists
    rw [Records.hasGroup, hfound] at hthere
    cases hthere
  | some g =>
    obtain ⟨hg, hgid⟩ := groupById_eq_some hfound
    have hthere : d.hasGroup groupId = true := hasGroup_iff.mpr ⟨g, hg, hgid⟩
    rcases createMember_cases (r := newMember id groupId userId .member now) hid hthere with
      ⟨hmember, hthrown⟩ | ⟨hstranger, after, hinserted, hadded⟩
    · simp only [hthrown]
      exact .member hmember
    · simp only [hinserted]
      exact .joined hg hgid hstranger hadded

end Groups
end GroupChat

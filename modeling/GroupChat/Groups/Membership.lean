import GroupChat.Groups.Confined

/-!
# Who is a member

Of all that a call does to the database, the rooms depend on two things only: which groups
there are, and who is a member of which.  Most statements change neither (`SameMembers`).  A
membership comes with the row that is inserted, and goes with the row or the group that is
deleted.
-/

namespace GroupChat
namespace Groups

open Common Database Messages Messages.Reactions

variable {d after : Records} {g k u v : Uuid} {me r : GroupMember}

/-- The user has a membership in the group. -/
def Records.HasMember (d : Records) (g u : Uuid) : Prop := ∃ r, IsMembership d g u r

theorem Records.HasMember.groupExists (h : d.HasMember g u) : GroupExists d g :=
  have ⟨_, hr⟩ := h
  hr.groupExists

/-- The groups are the same, and so are their members. -/
structure SameMembers (d after : Records) : Prop where
  member : ∀ g u, after.HasMember g u ↔ d.HasMember g u
  groupExists : ∀ g, GroupExists after g ↔ GroupExists d g

theorem SameMembers.refl (d : Records) : SameMembers d d := ⟨fun _ _ => Iff.rfl, fun _ => Iff.rfl⟩

theorem SameMembers.trans {between : Records} (h : SameMembers d between)
    (h' : SameMembers between after) : SameMembers d after where
  member g u := (h'.member g u).trans (h.member g u)
  groupExists g := (h'.groupExists g).trans (h.groupExists g)

/-- Messages and reactions have no say in it. -/
theorem SameMembers.of_tables (h : after.tables = d.tables) : SameMembers d after where
  member g u := by
    refine exists_congr fun r => ⟨fun hr => ⟨?_, hr.groupId_eq, hr.userId_eq⟩, fun hr =>
      ⟨?_, hr.groupId_eq, hr.userId_eq⟩⟩
    · rw [← h]
      exact hr.mem
    · rw [h]
      exact hr.mem
  groupExists g := by
    unfold GroupExists
    rw [h]

/-- An update does not move a membership. -/
theorem sameMembers_updateMember (hr : .member r ∈ d.tables) (change : MemberUpdate) :
    SameMembers d (d.updateMember r.id change) where
  member g u := by
    constructor
    · rintro ⟨x, hx⟩
      rcases (mem_updateMember hr change).mp hx.mem with rfl | ⟨hmem, -⟩
      · exact ⟨r, hr, (change.apply_groupId r).symm.trans hx.groupId_eq,
          (change.apply_userId r).symm.trans hx.userId_eq⟩
      · exact ⟨x, hmem, hx.groupId_eq, hx.userId_eq⟩
    · rintro ⟨x, hx⟩
      by_cases hsame : x = r
      · subst hsame
        exact ⟨change.apply x, (mem_updateMember hr change).mpr (Or.inl rfl),
          (change.apply_groupId x).trans hx.groupId_eq, (change.apply_userId x).trans hx.userId_eq⟩
      · exact ⟨x, (mem_updateMember hr change).mpr (Or.inr ⟨hx.mem, hsame⟩), hx.groupId_eq,
          hx.userId_eq⟩
  groupExists g := exists_congr fun _ => and_congr_left fun _ => group_mem_updateMember

/-- The member of a deleted row is one no longer. -/
theorem hasMember_deleteMember (hme : IsMembership d g u me) :
    (d.deleteMember me.id).HasMember k v ↔ d.HasMember k v ∧ ¬(k = g ∧ v = u) := by
  constructor
  · rintro ⟨r, hr⟩
    obtain ⟨hmem, hne⟩ := (mem_deleteMember hme.mem).mp hr.mem
    have hr' : IsMembership d k v r := ⟨hmem, hr.groupId_eq, hr.userId_eq⟩
    refine ⟨⟨r, hr'⟩, ?_⟩
    rintro ⟨rfl, rfl⟩
    exact hne (hme.unique hr')
  · rintro ⟨⟨r, hr⟩, hother⟩
    refine ⟨r, (mem_deleteMember hme.mem).mpr ⟨hr.mem, ?_⟩, hr.groupId_eq, hr.userId_eq⟩
    rintro rfl
    exact hother ⟨hr.groupId_eq.symm.trans hme.groupId_eq, hr.userId_eq.symm.trans hme.userId_eq⟩

theorem groupExists_deleteMember {id : Uuid} :
    GroupExists (d.deleteMember id) k ↔ GroupExists d k :=
  exists_congr fun _ => and_congr_left fun _ => group_mem_deleteMember

/-- With a group go its members. -/
theorem hasMember_deleteGroup : (d.deleteGroup g).HasMember k v ↔ d.HasMember k v ∧ k ≠ g := by
  constructor
  · rintro ⟨r, hr⟩
    obtain ⟨hmem, hne⟩ := member_mem_deleteGroup.mp hr.mem
    exact ⟨⟨r, hmem, hr.groupId_eq, hr.userId_eq⟩, hr.groupId_eq ▸ hne⟩
  · rintro ⟨⟨r, hr⟩, hne⟩
    exact ⟨r, member_mem_deleteGroup.mpr ⟨hr.mem, hr.groupId_eq.trans_ne hne⟩, hr.groupId_eq,
      hr.userId_eq⟩

theorem groupExists_deleteGroup : GroupExists (d.deleteGroup g) k ↔ GroupExists d k ∧ k ≠ g := by
  constructor
  · rintro ⟨x, hx, rfl⟩
    obtain ⟨hmem, hne⟩ := group_mem_deleteGroup.mp hx
    exact ⟨⟨x, hmem, rfl⟩, hne⟩
  · rintro ⟨⟨x, hx, rfl⟩, hne⟩
    exact ⟨x, group_mem_deleteGroup.mpr ⟨hx, hne⟩, rfl⟩

/-- Who is a member after rows have been appended. -/
theorem hasMember_of_rows {rows : List Row} (h : after.tables.rows = d.tables.rows ++ rows) :
    after.HasMember k v ↔
      d.HasMember k v ∨ ∃ r, .member r ∈ rows ∧ r.groupId = k ∧ r.userId = v := by
  have hrow : ∀ {row}, row ∈ after.tables ↔ row ∈ d.tables ∨ row ∈ rows := by
    intro row
    rw [Table.mem_def, h, List.mem_append, ← Table.mem_def]
  constructor
  · rintro ⟨r, hr⟩
    rcases hrow.mp hr.mem with hold | hnew
    · exact Or.inl ⟨r, hold, hr.groupId_eq, hr.userId_eq⟩
    · exact Or.inr ⟨r, hnew, hr.groupId_eq, hr.userId_eq⟩
  · rintro (⟨r, hr⟩ | ⟨r, hr, hgroup, huser⟩)
    · exact ⟨r, hrow.mpr (Or.inl hr.mem), hr.groupId_eq, hr.userId_eq⟩
    · exact ⟨r, hrow.mpr (Or.inr hr), hgroup, huser⟩

theorem groupExists_of_rows {rows : List Row} (h : after.tables.rows = d.tables.rows ++ rows) :
    GroupExists after k ↔ GroupExists d k ∨ ∃ x, .group x ∈ rows ∧ x.id = k := by
  have hrow : ∀ {row}, row ∈ after.tables ↔ row ∈ d.tables ∨ row ∈ rows := by
    intro row
    rw [Table.mem_def, h, List.mem_append, ← Table.mem_def]
  constructor
  · rintro ⟨x, hx, hid⟩
    exact (hrow.mp hx).imp (fun hold => ⟨x, hold, hid⟩) fun hnew => ⟨x, hnew, hid⟩
  · rintro (⟨x, hx, hid⟩ | ⟨x, hx, hid⟩)
    · exact ⟨x, hrow.mpr (Or.inl hx), hid⟩
    · exact ⟨x, hrow.mpr (Or.inr hx), hid⟩

/-! ## Messages -/

section Messages

variable {m : Selected} {now : Instant}

/-- A created message is of its group, and nobody comes or goes with it. -/
theorem createMessage_eq_ok {data : NewMessage} {id : Uuid}
    (h : d.createMessage data id now = .ok (after, m)) :
    after.tables = d.tables ∧ m.message.groupId = data.groupId ∧ GroupExists d data.groupId := by
  unfold Records.createMessage at h
  split_ifs at h with hfresh hthere
  obtain ⟨rfl, rfl⟩ := Prod.mk.inj (Except.ok.inj h)
  exact ⟨rfl, rfl, hasGroup_iff.mp hthere⟩

theorem changeMessage_eq_ok {messageId userId : Uuid} {change : Change}
    (h : d.changeMessage g messageId userId change now = .ok (after, m)) :
    after.tables = d.tables ∧ m.message.groupId = g := by
  unfold Records.changeMessage at h
  split at h
  · cases h
  · next existing hauthorised =>
    obtain ⟨hfound, hgroup⟩ := authorise_eq_ok hauthorised
    rw [updateMessage_of_find? hfound] at h
    obtain ⟨rfl, rfl⟩ := Prod.mk.inj (Except.ok.inj h)
    exact ⟨rfl, (Change.apply_groupId ..).trans hgroup⟩

theorem tables_toggleReaction {q : Toggle} {id : Uuid} {marks : List (String × Uuid)}
    (h : d.toggleReaction q id now = .ok (after, marks)) : after.tables = d.tables := by
  unfold Records.toggleReaction at h
  split_ifs at h <;> exact (congrArg Records.tables (Prod.mk.inj (Except.ok.inj h)).1).symm

end Messages

end Groups
end GroupChat

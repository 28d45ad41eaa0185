import GroupChat.Groups.Confined
import GroupChat.Society.Club
import GroupChat.Transition.Refinement

/-!
# Groups are clubs

Run one after the other, the four calls of `GroupsService` that change who is in a group and
who owns it do what `Society.Step` says of clubs: they are refused when it says so, they tell
and emit what happened, and afterwards the database depicts the clubs.  A club has one owner, so
a group has one, from the call that creates it to the call that deletes it.

There is one exception.  An owner who sends their own id in a spelling that is not the printed
one is let past the comparison of texts, and both updates then go to one row.  `Proper` leaves
this call out.
-/

namespace GroupChat
namespace Groups

open Common Database Society Transition

/-! ## The calls -/

/-- A call with what the columns it fills in default to. -/
inductive GroupCall where
  | create (userId : Uuid) (name : String) (new : Defaults)
  | join (userId groupId memberId : Uuid) (now : Instant)
  | leave (userId groupId : Uuid)
  | transferOwnership (callerId groupId : Uuid) (targetUserId : String)

/-- What a call answers. -/
inductive Told where
  | created (group : Group)
  | joined (group : Group)
  | left (groupDeleted : Bool) (newOwnerId : Option Uuid)
  | transferred (previousOwnerId newOwnerId : String)
deriving DecidableEq

/-- `OWNER_CHANGED` of a transfer, with the values of the ids it carries. -/
def transferEvents (groupId callerId : Uuid) (targetUserId : String) : List Event :=
  match readUuid targetUserId with
  | none => []
  | some target => [.ownerChanged groupId callerId target]

/-- A call with its events. -/
def performCall (d : Records) : GroupCall → Except Exception (Records × Told × List Event)
  | .create userId name new =>
    (create d userId name new).map fun (d, group) => (d, .created group, [])
  | .join userId groupId memberId now =>
    (join d userId groupId memberId now).map fun joined =>
      (joined.records, .joined joined.group, joined.events)
  | .leave userId groupId =>
    (leave d userId groupId).map fun left =>
      (left.records, .left left.groupDeleted left.newOwnerId, left.events)
  | .transferOwnership callerId groupId targetUserId =>
    (transferOwnership d callerId (printUuid groupId) targetUserId).map fun t =>
      (t.records, .transferred t.previousOwnerId t.newOwnerId,
        transferEvents groupId callerId targetUserId)

/-- A call that throws leaves everything as it was. -/
def serveGroups (c : GroupCall) (d : Records) : Records × Except Exception (Told × List Event) :=
  match performCall d c with
  | .error e => (d, .error e)
  | .ok (after, told) => (after, .ok told)

/-- The ids of the rows the call inserts. -/
def GroupCall.newIds : GroupCall → List Uuid
  | .create _ _ new => [new.groupId, new.memberId]
  | .join _ _ memberId _ => [memberId]
  | .leave _ _ | .transferOwnership _ _ _ => []

/-- Who sends their own id sends it as it is printed. -/
def GroupCall.Proper : GroupCall → Prop
  | .transferOwnership callerId _ targetUserId =>
    readUuid targetUserId = some callerId → printUuid callerId = targetUserId
  | _ => True

/-! ## As clubs -/

/-- When a member has joined; the id breaks ties. -/
abbrev Seniority := Instant ×ₗ Uuid

def seniority (r : GroupMember) : Seniority := toLex (r.joinedAt, r.id)

abbrev GroupClub := Club Uuid String Seniority

abbrev GroupClubs := Clubs Uuid Uuid String Seniority

/-- The call as what its caller wants. -/
def GroupCall.act : GroupCall → Act Uuid Uuid String Seniority
  | .create userId name new =>
    .create userId name new.groupId (toLex (new.joinedAt, new.memberId))
  | .join userId groupId memberId now => .join userId groupId (toLex (now, memberId))
  | .leave userId groupId => .leave userId groupId
  | .transferOwnership callerId groupId targetUserId =>
    .transfer callerId groupId (readUuid targetUserId)

/-- The answer and the events tell what has become of the call. -/
inductive Tells : GroupCall → Except Exception (Told × List Event) → Society.Outcome Uuid → Prop
  | refused (c : GroupCall) (e : Exception) : Tells c (.error e) .refused
  | created {userId : Uuid} {name : String} {new : Defaults} :
      Tells (.create userId name new)
        (.ok (.created ⟨new.groupId, name, userId, new.createdAt⟩, [])) .created
  | joined {userId groupId memberId : Uuid} {now : Instant} {group : Group}
      (id_eq : group.id = groupId) :
      Tells (.join userId groupId memberId now)
        (.ok (.joined group, [.memberJoined groupId (newMember memberId groupId userId .member now)]))
        .joined
  | left {userId groupId : Uuid} :
      Tells (.leave userId groupId) (.ok (.left false none, [.memberLeft groupId userId])) .left
  | dissolved {userId groupId : Uuid} :
      Tells (.leave userId groupId) (.ok (.left true none, [])) .dissolved
  | handedOver {userId groupId next : Uuid} :
      Tells (.leave userId groupId)
        (.ok (.left false (some next),
          [.ownerChanged groupId userId next, .memberLeft groupId userId])) (.handedOver next)
  | transferred {callerId groupId next : Uuid} {targetUserId : String} :
      Tells (.transferOwnership callerId groupId targetUserId)
        (.ok (.transferred (printUuid callerId) targetUserId,
          [.ownerChanged groupId callerId next])) (.transferred next)

/-- The group is this club. -/
structure DepictsClub (d : Records) (g : Uuid) (c : GroupClub) : Prop where
  exists_group : ∃ x, .group x ∈ d.tables ∧ x.id = g ∧ x.createdBy = c.founder ∧ x.name = c.name
  since_iff : ∀ u k, c.since u = some k ↔ ∃ r, IsMembership d g u r ∧ seniority r = k
  owner_iff : ∀ r, .member r ∈ d.tables → r.groupId = g → (r.role = .owner ↔ r.userId = c.owner)

/-- **The groups of the database are these clubs.** -/
structure Depicts (d : Records) (clubs : GroupClubs) : Prop where
  absent : ∀ g, clubs g = none → ¬GroupExists d g
  present : ∀ g c, clubs g = some c → DepictsClub d g c

variable {d after : Records} {clubs : GroupClubs} {c : GroupClub} {g u : Uuid}
  {me next r : GroupMember}

/-! ## Reading a club off the database -/

theorem depicts_empty : Depicts Records.empty fun _ => none where
  absent g _ := by
    rintro ⟨x, hx, -⟩
    exact absurd hx List.not_mem_nil
  present g c h := by cases h

theorem DepictsClub.groupExists (h : DepictsClub d g c) : GroupExists d g := by
  obtain ⟨x, hx, hid, -⟩ := h.exists_group
  exact ⟨x, hx, hid⟩

theorem DepictsClub.has_iff (h : DepictsClub d g c) : c.Has u ↔ ∃ r, IsMembership d g u r := by
  unfold Club.Has
  rw [Option.isSome_iff_exists]
  constructor
  · rintro ⟨k, hk⟩
    obtain ⟨r, hr, -⟩ := (h.since_iff u k).mp hk
    exact ⟨r, hr⟩
  · rintro ⟨r, hr⟩
    exact ⟨seniority r, (h.since_iff u _).mpr ⟨r, hr, rfl⟩⟩

theorem DepictsClub.owner_eq_iff (h : DepictsClub d g c) (hme : IsMembership d g u me) :
    me.role = .owner ↔ c.owner = u := by
  rw [h.owner_iff me hme.mem hme.groupId_eq, hme.userId_eq, eq_comm]

theorem Depicts.exists_club (h : Depicts d clubs) (hexists : GroupExists d g) :
    ∃ c, clubs g = some c := by
  cases hclub : clubs g with
  | none => exact absurd hexists (h.absent g hclub)
  | some c => exact ⟨c, rfl⟩

/-- A user's membership is in a club. -/
theorem Depicts.exists_club_of_isMembership (h : Depicts d clubs) (hme : IsMembership d g u me) :
    ∃ c, clubs g = some c ∧ c.Has u := by
  obtain ⟨c, hc⟩ := h.exists_club hme.groupExists
  exact ⟨c, hc, (h.present g c hc).has_iff.mpr ⟨me, hme⟩⟩

theorem Depicts.member_iff (h : Depicts d clubs) :
    Member clubs g u ↔ ∃ r, IsMembership d g u r := by
  constructor
  · rintro ⟨c, hc, hhas⟩
    exact (h.present g c hc).has_iff.mp hhas
  · rintro ⟨r, hr⟩
    exact h.exists_club_of_isMembership hr

/-- The group is another club than before, and the rest is as it was. -/
theorem Depicts.update (h : Depicts d clubs)
    (helsewhere : ∀ row : Row, row.inGroup g = false → (row ∈ after.tables ↔ row ∈ d.tables))
    (hg : DepictsClub after g c) : Depicts after (Function.update clubs g (some c)) := by
  have hgroup : ∀ {x : Group}, x.id ≠ g → (.group x ∈ after.tables ↔ .group x ∈ d.tables) :=
    fun hne => helsewhere _ (decide_eq_false hne)
  have hmember : ∀ {r : GroupMember}, r.groupId ≠ g →
      (.member r ∈ after.tables ↔ .member r ∈ d.tables) :=
    fun hne => helsewhere _ (decide_eq_false hne)
  refine ⟨fun g' hnone => ?_, fun g' c' hsome => ?_⟩
  · by_cases hne : g' = g
    · rw [hne, Function.update_self] at hnone
      cases hnone
    · rw [Function.update_of_ne hne] at hnone
      rintro ⟨x, hx, hid⟩
      exact h.absent g' hnone ⟨x, (hgroup (hid.trans_ne hne)).mp hx, hid⟩
  · by_cases hne : g' = g
    · subst hne
      rw [Function.update_self] at hsome
      rwa [← Option.some.inj hsome]
    · rw [Function.update_of_ne hne] at hsome
      have hold := h.present g' c' hsome
      obtain ⟨x, hx, hid, hrest⟩ := hold.exists_group
      refine ⟨⟨x, (hgroup (hid.trans_ne hne)).mpr hx, hid, hrest⟩, fun u k => ?_,
        fun r hr hr_group => hold.owner_iff r ((hmember (hr_group.trans_ne hne)).mp hr) hr_group⟩
      rw [hold.since_iff]
      refine exists_congr fun r => and_congr_left fun _ => ⟨fun hr => ?_, fun hr => ?_⟩
      · exact ⟨(hmember (hr.groupId_eq.trans_ne hne)).mpr hr.mem, hr.groupId_eq, hr.userId_eq⟩
      · exact ⟨(hmember (hr.groupId_eq.trans_ne hne)).mp hr.mem, hr.groupId_eq, hr.userId_eq⟩

/-- One group has one row. -/
theorem DepictsClub.of_mem {x : Group} (h : DepictsClub d g c) (hx : .group x ∈ d.tables)
    (hid : x.id = g) : x.createdBy = c.founder ∧ x.name = c.name := by
  obtain ⟨x', hx', hid', hrest⟩ := h.exists_group
  obtain rfl : x' = x :=
    Row.group.inj (Table.eq_of_key_eq hx' hx (congrArg Key.group (hid'.trans hid.symm)))
  exact hrest

/-- The constraint on names is about clubs. -/
theorem Depicts.nameTaken_iff (h : Depicts d clubs) {name : String} :
    NameTaken clubs u name ↔ ∃ x, .group x ∈ d.tables ∧ x.createdBy = u ∧ x.name = name := by
  constructor
  · rintro ⟨g, c, hc, rfl, rfl⟩
    obtain ⟨x, hx, -, hcreated, hname⟩ := (h.present g c hc).exists_group
    exact ⟨x, hx, hcreated, hname⟩
  · rintro ⟨x, hx, rfl, rfl⟩
    obtain ⟨c, hc⟩ := h.exists_club ⟨x, hx, rfl⟩
    obtain ⟨hfounder, hname⟩ := (h.present x.id c hc).of_mem hx rfl
    exact ⟨x.id, c, hc, hfounder.symm, hname.symm⟩

/-- A row of another group is no membership of this one. -/
theorem ne_member_of_not_inGroup {row : Row} (hout : row.inGroup g = false) (hr : r.groupId = g) :
    row ≠ .member r := by
  rintro rfl
  rw [inGroup_member.mpr hr] at hout
  cases hout

/-! ## Creating and joining -/

section Inserting

variable {name : String} {new : Defaults} {memberId : Uuid} {now : Instant}

theorem not_groupExists_of_unused (h : ¬d.Uses g) : ¬GroupExists d g := by
  rintro ⟨x, hx, hid⟩
  exact h (.group x hx hid)

/-- The new group is a club of its creator alone. -/
theorem depicts_created (h : Depicts d clubs) (hnew : ¬GroupExists d new.groupId)
    (hrows : after.tables.rows = d.tables.rows ++
      [.group ⟨new.groupId, name, u, new.createdAt⟩,
        .member (newMember new.memberId new.groupId u .owner new.joinedAt)]) :
    Depicts after (Function.update clubs new.groupId
      (some (.founded u name (toLex (new.joinedAt, new.memberId))))) := by
  have hrow : ∀ row, row ∈ after.tables ↔ row ∈ d.tables ∨
      row = .group ⟨new.groupId, name, u, new.createdAt⟩ ∨
        row = .member (newMember new.memberId new.groupId u .owner new.joinedAt) := by
    intro row
    rw [Table.mem_def, hrows, List.mem_append, List.mem_cons, List.mem_singleton, ← Table.mem_def]
  have hmember : ∀ r, .member r ∈ after.tables → r.groupId = new.groupId →
      r = newMember new.memberId new.groupId u .owner new.joinedAt := by
    intro r hr hgroup
    rcases (hrow _).mp hr with hold | heq | heq
    · obtain ⟨x, hx, hid⟩ := d.constraints.memberGroup r hold
      exact absurd ⟨x, hx, hid.trans hgroup⟩ hnew
    · cases heq
    · exact Row.member.inj heq
  refine h.update (fun row hout => ?_) ⟨?_, fun v k => ?_, fun r hr hgroup => ?_⟩
  · rw [hrow]
    refine or_iff_left ?_
    rintro (rfl | rfl)
    · exact absurd hout (by simp [Row.inGroup])
    · exact ne_member_of_not_inGroup hout rfl rfl
  · exact ⟨_, (hrow _).mpr (Or.inr (Or.inl rfl)), rfl, rfl, rfl⟩
  · rw [Club.since_founded]
    constructor
    · intro hk
      by_cases hv : v = u
      · subst hv
        rw [Function.update_self] at hk
        exact ⟨_, ⟨(hrow _).mpr (Or.inr (Or.inr rfl)), rfl, rfl⟩, Option.some.inj hk⟩
      · rw [Function.update_of_ne hv] at hk
        cases hk
    · rintro ⟨r, hr, rfl⟩
      obtain rfl := hmember r hr.mem hr.groupId_eq
      obtain rfl : u = v := hr.userId_eq
      rw [Function.update_self]
      rfl
  · obtain rfl := hmember r hr hgroup
    exact iff_of_true rfl rfl

/-- Who joins is the newest member. -/
theorem depicts_joined (h : Depicts d clubs) (hclub : clubs g = some c)
    (hstranger : ¬∃ me, IsMembership d g u me)
    (hadded : Added d (.member (newMember memberId g u .member now)) after) :
    Depicts after (Function.update clubs g (some (c.enrol u (toLex (now, memberId))))) := by
  have hold := h.present g c hclub
  have hrow : ∀ row, row ∈ after.tables ↔ row ∈ d.tables ∨
      row = .member (newMember memberId g u .member now) := by
    intro row
    rw [Table.mem_def, hadded.rows, List.mem_append, List.mem_singleton, ← Table.mem_def]
  refine h.update (fun row hout => ?_) ⟨?_, fun v k => ?_, fun r hr hgroup => ?_⟩
  · rw [hrow]
    refine or_iff_left ?_
    exact ne_member_of_not_inGroup hout rfl
  · obtain ⟨x, hx, hrest⟩ := hold.exists_group
    exact ⟨x, (hrow _).mpr (Or.inl hx), hrest⟩
  · rw [Club.since_enrol]
    by_cases hv : v = u
    · subst hv
      rw [Function.update_self, Option.some.injEq]
      constructor
      · rintro rfl
        exact ⟨_, ⟨(hrow _).mpr (Or.inr rfl), rfl, rfl⟩, rfl⟩
      · rintro ⟨r, hr, rfl⟩
        rcases (hrow _).mp hr.mem with hmem | heq
        · exact absurd ⟨r, hmem, hr.groupId_eq, hr.userId_eq⟩ hstranger
        · rw [Row.member.inj heq]
          rfl
    · rw [Function.update_of_ne hv, hold.since_iff]
      refine exists_congr fun r => and_congr_left fun _ => ⟨fun hr => ?_, fun hr => ?_⟩
      · exact ⟨(hrow _).mpr (Or.inl hr.mem), hr.groupId_eq, hr.userId_eq⟩
      · refine ⟨((hrow _).mp hr.mem).resolve_right fun heq => hv ?_, hr.groupId_eq, hr.userId_eq⟩
        rw [← hr.userId_eq, Row.member.inj heq]
        rfl
  · rcases (hrow _).mp hr with hmem | heq
    · exact hold.owner_iff r hmem hgroup
    · -- a stranger is not the owner
      have howner : u ≠ c.owner := by
        rintro rfl
        exact hstranger (hold.has_iff.mp c.has_owner)
      rw [Row.member.inj heq]
      exact iff_of_false (by simp [newMember]) howner

end Inserting

/-! ## Leaving -/

section Leaving

theorem isMembership_deleteMember (hme : IsMembership d g u me) {v : Uuid} :
    IsMembership (d.deleteMember me.id) g v r ↔ IsMembership d g v r ∧ v ≠ u := by
  constructor
  · intro hr
    obtain ⟨hmem, hne⟩ := (mem_deleteMember hme.mem).mp hr.mem
    have hr' : IsMembership d g v r := ⟨hmem, hr.groupId_eq, hr.userId_eq⟩
    refine ⟨hr', ?_⟩
    rintro rfl
    exact hne (hme.unique hr')
  · rintro ⟨hr, hne⟩
    refine ⟨(mem_deleteMember hme.mem).mpr ⟨hr.mem, ?_⟩, hr.groupId_eq, hr.userId_eq⟩
    rintro rfl
    exact hne (hr.userId_eq.symm.trans hme.userId_eq)

theorem depicts_left (h : Depicts d clubs) (hclub : clubs g = some c)
    (hme : IsMembership d g u me) (hne : c.owner ≠ u) :
    Depicts (d.deleteMember me.id) (Function.update clubs g (some (c.dismiss u hne))) := by
  have hold := h.present g c hclub
  refine h.update (fun row hout => ?_) ⟨?_, fun v k => ?_, fun r hr hgroup => ?_⟩
  · cases row with
    | group x => exact group_mem_deleteMember
    | member r =>
      refine (mem_deleteMember hme.mem).trans (and_iff_left fun heq => ?_)
      exact ne_member_of_not_inGroup hout hme.groupId_eq (congrArg Row.member heq)
  · obtain ⟨x, hx, hrest⟩ := hold.exists_group
    exact ⟨x, group_mem_deleteMember.mpr hx, hrest⟩
  · rw [Club.since_dismiss]
    by_cases hv : v = u
    · rw [hv, Function.update_self]
      refine iff_of_false (by simp) ?_
      rintro ⟨r, hr, -⟩
      exact (isMembership_deleteMember hme |>.mp hr).2 rfl
    · rw [Function.update_of_ne hv, hold.since_iff]
      refine exists_congr fun r => and_congr_left fun _ => ?_
      rw [isMembership_deleteMember hme]
      exact (and_iff_left hv).symm
  · exact hold.owner_iff r ((mem_deleteMember hme.mem).mp hr).1 hgroup

theorem depicts_dissolved (h : Depicts d clubs) :
    Depicts (d.deleteGroup g) (Function.update clubs g none) := by
  refine ⟨fun g' hnone => ?_, fun g' c' hsome => ?_⟩
  · rintro ⟨x, hx, hid⟩
    obtain ⟨hx, hne⟩ := group_mem_deleteGroup.mp hx
    have hne' : g' ≠ g := hid.symm.trans_ne hne
    rw [Function.update_of_ne hne'] at hnone
    exact h.absent g' hnone ⟨x, hx, hid⟩
  · have hne : g' ≠ g := by
      rintro rfl
      rw [Function.update_self] at hsome
      cases hsome
    rw [Function.update_of_ne hne] at hsome
    have hold := h.present g' c' hsome
    obtain ⟨x, hx, hid, hrest⟩ := hold.exists_group
    refine ⟨⟨x, group_mem_deleteGroup.mpr ⟨hx, hid.trans_ne hne⟩, hid, hrest⟩, fun v k => ?_,
      fun r hr hgroup => hold.owner_iff r (member_mem_deleteGroup.mp hr).1 hgroup⟩
    rw [hold.since_iff]
    refine exists_congr fun r => and_congr_left fun _ => ⟨fun hr => ?_, fun hr => ?_⟩
    · exact ⟨member_mem_deleteGroup.mpr ⟨hr.mem, hr.groupId_eq.trans_ne hne⟩, hr.groupId_eq,
        hr.userId_eq⟩
    · exact ⟨(member_mem_deleteGroup.mp hr.mem).1, hr.groupId_eq, hr.userId_eq⟩

theorem depicts_handedOver (h : Depicts d clubs) (hclub : clubs g = some c)
    (hme : IsMembership d g u me) (hnext : IsOther d me next) (howner : c.owner = u)
    (hhas : c.Has next.userId) (hne : (c.handTo next.userId hhas).owner ≠ u) :
    Depicts ((d.updateMember next.id (.role .owner)).deleteMember me.id)
      (Function.update clubs g (some ((c.handTo next.userId hhas).dismiss u hne))) := by
  have hold := h.present g c hclub
  have hrow : ∀ row, row ∈ ((d.updateMember next.id (.role .owner)).deleteMember me.id).tables ↔
      row = .member { next with role := .owner } ∨
        row ∈ d.tables ∧ row ≠ .member me ∧ row ≠ .member next :=
    fun row => mem_handedOver hme.mem hnext
  have hgroup : next.groupId = g := hnext.groupId_eq.trans hme.groupId_eq
  refine h.update (fun row hout => ?_) ⟨?_, fun v k => ?_, fun r hr hr_group => ?_⟩
  · rw [hrow]
    constructor
    · rintro (heq | ⟨hmem, -⟩)
      · exact absurd heq (ne_member_of_not_inGroup hout hgroup)
      · exact hmem
    · exact fun hmem => Or.inr ⟨hmem, ne_member_of_not_inGroup hout hme.groupId_eq,
        ne_member_of_not_inGroup hout hgroup⟩
  · obtain ⟨x, hx, hrest⟩ := hold.exists_group
    exact ⟨x, (hrow _).mpr (Or.inr ⟨hx, by simp, by simp⟩), hrest⟩
  · rw [Club.since_dismiss]
    by_cases hv : v = u
    · rw [hv, Function.update_self]
      refine iff_of_false (by simp) ?_
      rintro ⟨r, hr, -⟩
      rcases (hrow _).mp hr.mem with heq | ⟨hmem, hnot, -⟩
      · have huser : next.userId = u := by
          rw [← hr.userId_eq, Row.member.inj heq]
        exact hne huser
      · exact hnot (congrArg Row.member (hme.unique ⟨hmem, hr.groupId_eq, hr.userId_eq⟩))
    · rw [Function.update_of_ne hv]
      show c.since v = some k ↔ _
      rw [hold.since_iff]
      constructor
      · rintro ⟨r, hr, rfl⟩
        by_cases hsame : r = next
        · subst hsame
          exact ⟨{ r with role := .owner },
            ⟨(hrow _).mpr (Or.inl rfl), hr.groupId_eq, hr.userId_eq⟩, rfl⟩
        · refine ⟨r, ⟨(hrow _).mpr (Or.inr ⟨hr.mem, ?_, ?_⟩), hr.groupId_eq, hr.userId_eq⟩, rfl⟩
          · intro heq
            exact hv (hr.userId_eq.symm.trans (Row.member.inj heq ▸ hme.userId_eq))
          · exact fun heq => hsame (Row.member.inj heq)
      · rintro ⟨r, hr, rfl⟩
        rcases (hrow _).mp hr.mem with heq | ⟨hmem, -, -⟩
        · obtain rfl := Row.member.inj heq
          exact ⟨next, ⟨hnext.mem, hgroup, hr.userId_eq⟩, rfl⟩
        · exact ⟨r, ⟨hmem, hr.groupId_eq, hr.userId_eq⟩, rfl⟩
  · show r.role = .owner ↔ r.userId = next.userId
    rcases (hrow _).mp hr with heq | ⟨hmem, hnot, hnot'⟩
    · obtain rfl := Row.member.inj heq
      exact iff_of_true rfl rfl
    · rw [hold.owner_iff r hmem hr_group, howner]
      refine iff_of_false (fun huser => hnot ?_) fun huser => hnot' ?_
      · exact congrArg Row.member (hme.unique ⟨hmem, hr_group, huser⟩)
      · have hnext' : IsMembership d g next.userId next := ⟨hnext.mem, hgroup, rfl⟩
        exact congrArg Row.member (hnext'.unique ⟨hmem, hr_group, huser⟩)

end Leaving

/-! ## Handing over -/

theorem depicts_transferred {a b : GroupMember} {v : Uuid} (h : Depicts d clubs)
    (hclub : clubs g = some c) (ha : IsMembership d g u a) (howner : c.owner = u)
    (hb : IsMembership d g v b) (hne : v ≠ u) (hhas : c.Has v) :
    Depicts ((d.updateMember b.id (.role .owner)).updateMember a.id (.role .member))
      (Function.update clubs g (some (c.handTo v hhas))) := by
  have hold := h.present g c hclub
  have hab : a ≠ b := by
    rintro rfl
    exact hne (hb.userId_eq.symm.trans ha.userId_eq)
  have hrow : ∀ row,
      row ∈ ((d.updateMember b.id (.role .owner)).updateMember a.id (.role .member)).tables ↔
        row = .member { a with role := .member } ∨ row = .member { b with role := .owner } ∨
          row ∈ d.tables ∧ row ≠ .member a ∧ row ≠ .member b :=
    fun row => mem_transferred ha.mem hb.mem hab
  refine h.update (fun row hout => ?_) ⟨?_, fun w k => ?_, fun r hr hr_group => ?_⟩
  · rw [hrow]
    constructor
    · rintro (heq | heq | ⟨hmem, -⟩)
      · exact absurd heq (ne_member_of_not_inGroup hout ha.groupId_eq)
      · exact absurd heq (ne_member_of_not_inGroup hout hb.groupId_eq)
      · exact hmem
    · exact fun hmem => Or.inr (Or.inr ⟨hmem, ne_member_of_not_inGroup hout ha.groupId_eq,
        ne_member_of_not_inGroup hout hb.groupId_eq⟩)
  · obtain ⟨x, hx, hrest⟩ := hold.exists_group
    exact ⟨x, (hrow _).mpr (Or.inr (Or.inr ⟨hx, by simp, by simp⟩)), hrest⟩
  · show c.since w = some k ↔ _
    rw [hold.since_iff]
    constructor
    · rintro ⟨r, hr, rfl⟩
      by_cases hra : r = a
      · subst hra
        exact ⟨{ r with role := .member }, ⟨(hrow _).mpr (Or.inl rfl), hr.groupId_eq, hr.userId_eq⟩,
          rfl⟩
      · by_cases hrb : r = b
        · subst hrb
          exact ⟨{ r with role := .owner },
            ⟨(hrow _).mpr (Or.inr (Or.inl rfl)), hr.groupId_eq, hr.userId_eq⟩, rfl⟩
        · refine ⟨r, ⟨(hrow _).mpr (Or.inr (Or.inr ⟨hr.mem, ?_, ?_⟩)), hr.groupId_eq, hr.userId_eq⟩,
            rfl⟩
          · exact fun heq => hra (Row.member.inj heq)
          · exact fun heq => hrb (Row.member.inj heq)
    · rintro ⟨r, hr, rfl⟩
      rcases (hrow _).mp hr.mem with heq | heq | ⟨hmem, -⟩
      · obtain rfl := Row.member.inj heq
        exact ⟨a, ⟨ha.mem, ha.groupId_eq, hr.userId_eq⟩, rfl⟩
      · obtain rfl := Row.member.inj heq
        exact ⟨b, ⟨hb.mem, hb.groupId_eq, hr.userId_eq⟩, rfl⟩
      · exact ⟨r, ⟨hmem, hr.groupId_eq, hr.userId_eq⟩, rfl⟩
  · show r.role = .owner ↔ r.userId = v
    rcases (hrow _).mp hr with heq | heq | ⟨hmem, hna, hnb⟩
    · obtain rfl := Row.member.inj heq
      refine iff_of_false (by simp) fun huser => hne ?_
      exact huser.symm.trans ha.userId_eq
    · obtain rfl := Row.member.inj heq
      exact iff_of_true rfl hb.userId_eq
    · rw [hold.owner_iff r hmem hr_group, howner]
      refine iff_of_false (fun huser => hna ?_) fun huser => hnb ?_
      · exact congrArg Row.member (ha.unique ⟨hmem, hr_group, huser⟩)
      · exact congrArg Row.member (hb.unique ⟨hmem, hr_group, huser⟩)

/-! ## The calls, one by one -/

/-- What a call has to do next to the clubs. -/
def Follows (clubs : GroupClubs) (d : Records) (call : GroupCall) : Prop :=
  ∃ clubs' o, Step clubs call.act clubs' o ∧ Depicts (serveGroups call d).1 clubs' ∧
    Tells call (serveGroups call d).2 o

/-- A call that throws. -/
theorem follows_of_error {call : GroupCall} {e : Exception} (h : Depicts d clubs)
    (hthrown : performCall d call = .error e) (hstep : Step clubs call.act clubs .refused) :
    Follows clubs d call := by
  refine ⟨clubs, .refused, hstep, ?_, ?_⟩ <;> unfold serveGroups <;> rw [hthrown]
  · exact h
  · exact .refused call e

/-- A call that goes through. -/
theorem follows_of_ok {call : GroupCall} {clubs' : GroupClubs} {o : Society.Outcome Uuid}
    {told : Told × List Event} (hdone : performCall d call = .ok (after, told))
    (hstep : Step clubs call.act clubs' o) (hdepicts : Depicts after clubs')
    (htells : Tells call (.ok told) o) : Follows clubs d call := by
  refine ⟨clubs', o, hstep, ?_, ?_⟩ <;> unfold serveGroups <;> rw [hdone]
  · exact hdepicts
  · exact htells

theorem follows_create (h : Depicts d clubs) (userId : Uuid) (name : String) (new : Defaults)
    (hnew : ∀ id ∈ [new.groupId, new.memberId], ¬d.Uses id) :
    Follows clubs d (.create userId name new) := by
  have habsent : ¬GroupExists d new.groupId := not_groupExists_of_unused (hnew _ (by simp))
  have hgroup : d.tables.find? (.group new.groupId) = none := by
    refine Table.find?_eq_none_iff.mpr fun row hrow hkey => ?_
    cases row with
    | group x => exact habsent ⟨x, hrow, Key.group.inj hkey⟩
    | member r => cases hkey
  have hends : Creates d userId name new (create d userId name new) :=
    creates d userId name new hgroup (find?_member_of_unused (hnew _ (by simp)))
  cases hcall : create d userId name new with
  | error e =>
    rw [hcall] at hends
    cases hends with
    | named hnamed =>
      refine follows_of_error h (by rw [performCall, hcall]; rfl) ?_
      exact .nameTaken (h.nameTaken_iff.mpr hnamed)
  | ok result =>
    rw [hcall] at hends
    cases hends with
    | created hunnamed hrows hmessages hreactions =>
      have hfree : clubs new.groupId = none := by
        rw [Option.eq_none_iff_forall_ne_some]
        exact fun c hc => habsent (h.present _ c hc).groupExists
      refine follows_of_ok (by rw [performCall, hcall]; rfl)
        (.created hfree fun htaken => hunnamed (h.nameTaken_iff.mp htaken))
        (depicts_created h habsent hrows) .created

theorem follows_join (h : Depicts d clubs) (userId groupId memberId : Uuid) (now : Instant)
    (hnew : ¬d.Uses memberId) : Follows clubs d (.join userId groupId memberId now) := by
  have hends : Joins d userId groupId memberId now (join d userId groupId memberId now) :=
    joins d userId groupId memberId now (find?_member_of_unused hnew)
  cases hcall : join d userId groupId memberId now with
  | error e =>
    rw [hcall] at hends
    refine follows_of_error h (by rw [performCall, hcall]; rfl) (.notJoined fun c hc => ?_)
    cases hends with
    | missing habsent => exact absurd (h.present _ c hc).groupExists habsent
    | member hmember => exact (h.present _ c hc).has_iff.mpr hmember
  | ok joined =>
    rw [hcall] at hends
    cases hends with
    | joined hg hid hstranger hadded =>
      obtain ⟨c, hc⟩ := h.exists_club ⟨_, hg, hid⟩
      refine follows_of_ok (by rw [performCall, hcall]; rfl)
        (.joined hc fun hhas => hstranger ((h.present _ c hc).has_iff.mp hhas))
        (depicts_joined h hc hstranger hadded) (.joined hid)

/-- Another membership is another user's. -/
theorem IsOther.userId_ne (hme : IsMembership d g u me) (hr : IsOther d me r) : r.userId ≠ u :=
  (userId_ne_iff hme hr.mem (hr.groupId_eq.trans hme.groupId_eq)).mpr hr.ne

theorem follows_leave (h : Depicts d clubs) (userId groupId : Uuid) :
    Follows clubs d (.leave userId groupId) := by
  have hends : Leaves d userId groupId (leave d userId groupId) := leaves d userId groupId
  cases hcall : leave d userId groupId with
  | error e =>
    rw [hcall] at hends
    cases hends with
    | refused hstranger =>
      refine follows_of_error h (by rw [performCall, hcall]; rfl) (.notLeft fun hmember => ?_)
      obtain ⟨me, hme⟩ := h.member_iff.mp hmember
      exact hstranger me hme
  | ok left =>
    rw [hcall] at hends
    cases hends with
    | @departed me hme hrole =>
      obtain ⟨c, hc, hhas⟩ := h.exists_club_of_isMembership hme
      have hne : c.owner ≠ userId := fun howner =>
        hrole (((h.present _ c hc).owner_eq_iff hme).mpr howner)
      exact follows_of_ok (by rw [performCall, hcall]; rfl) (.left hc hhas hne)
        (depicts_left h hc hme hne) .left
    | @deleted me hme hrole halone =>
      obtain ⟨c, hc, -⟩ := h.exists_club_of_isMembership hme
      have howner : c.owner = userId := ((h.present _ c hc).owner_eq_iff hme).mp hrole
      refine follows_of_ok (by rw [performCall, hcall]; rfl) (.dissolved hc howner fun v hv => ?_)
        (depicts_dissolved h) .dissolved
      obtain ⟨r, hr⟩ := (h.present _ c hc).has_iff.mp hv
      by_contra hne
      refine halone r ⟨hr.mem, hr.groupId_eq.trans hme.groupId_eq.symm, ?_⟩
      rintro rfl
      exact hne (hr.userId_eq.symm.trans hme.userId_eq)
    | @handedOver me next hme hrole hnext =>
      obtain ⟨c, hc, -⟩ := h.exists_club_of_isMembership hme
      have hclub := h.present _ c hc
      have howner : c.owner = userId := (hclub.owner_eq_iff hme).mp hrole
      have hgroup : next.groupId = groupId := hnext.other.groupId_eq.trans hme.groupId_eq
      have hmembership : IsMembership d groupId next.userId next := ⟨hnext.other.mem, hgroup, rfl⟩
      have hhas : c.Has next.userId := hclub.has_iff.mpr ⟨next, hmembership⟩
      have hne : next.userId ≠ userId := hnext.other.userId_ne hme
      have hsenior : c.SeniorBut userId next.userId := by
        refine ⟨hne, seniority next, (hclub.since_iff _ _).mpr ⟨next, hmembership, rfl⟩, ?_⟩
        intro v k hv hk
        obtain ⟨r, hr, rfl⟩ := (hclub.since_iff v k).mp hk
        refine hnext.least r ⟨hr.mem, hr.groupId_eq.trans hme.groupId_eq.symm, ?_⟩
        rintro rfl
        exact hv (hr.userId_eq.symm.trans hme.userId_eq)
      exact follows_of_ok (by rw [performCall, hcall]; rfl) (.handedOver hc howner hsenior hhas hne)
        (depicts_handedOver h hc hme hnext.other howner hhas hne) .handedOver

theorem follows_transferOwnership (h : Depicts d clubs) (callerId groupId : Uuid)
    (targetUserId : String) (hproper : (GroupCall.transferOwnership callerId groupId
      targetUserId).Proper) :
    Follows clubs d (.transferOwnership callerId groupId targetUserId) := by
  have hread : readUuid (printUuid groupId) = some groupId := (spells_printUuid groupId).2
  have hrefused : ∀ {e}, transferOwnership d callerId (printUuid groupId) targetUserId = .error e →
      ¬MayTransfer clubs callerId groupId (readUuid targetUserId) →
        Follows clubs d (.transferOwnership callerId groupId targetUserId) := fun hcall hno =>
    follows_of_error h (by rw [performCall, hcall]; rfl) (.notTransferred hno)
  by_cases hself : printUuid callerId = targetUserId
  · have hcall : transferOwnership d callerId (printUuid groupId) targetUserId =
        .error (.badRequest "You already own this group") := if_pos hself
    refine hrefused hcall ?_
    rintro ⟨c, next, -, -, hnext, -, hne⟩
    rw [← hself, (spells_printUuid callerId).2] at hnext
    exact hne (Option.some.inj hnext).symm
  · cases hcaller : membership d.tables groupId callerId with
    | none =>
      have hcall : transferOwnership d callerId (printUuid groupId) targetUserId =
          .error (.forbidden "Only the group owner can transfer ownership") := by
        rw [transferOwnership, if_neg hself, hread, Option.bind_some, hcaller]
      refine hrefused hcall ?_
      rintro ⟨c, next, hc, rfl, -⟩
      obtain ⟨me, hme⟩ := (h.present _ c hc).has_iff.mp c.has_owner
      rw [membership_of_isMembership hme] at hcaller
      cases hcaller
    | some caller =>
      have hme : IsMembership d groupId callerId caller := membership_eq_some_iff.mp hcaller
      by_cases hrole : caller.role = .owner
      · cases htarget : (readUuid targetUserId).bind fun u => membership d.tables groupId u with
        | none =>
          have hcall : transferOwnership d callerId (printUuid groupId) targetUserId =
              .error (.notFound "That user is not a member of this group") := by
            rw [transferOwnership, if_neg hself, hread]
            simp only [Option.bind_some, hcaller, hrole, ne_eq, not_true_eq_false, if_false, htarget]
          refine hrefused hcall ?_
          rintro ⟨c, next, hc, -, hnext, hhas, -⟩
          obtain ⟨r, hr⟩ := (h.present _ c hc).has_iff.mp hhas
          rw [hnext, Option.bind_some, membership_of_isMembership hr] at htarget
          cases htarget
        | some target =>
          obtain ⟨v, hv, hfound⟩ := Option.bind_eq_some_iff.mp htarget
          have hb : IsMembership d groupId v target := membership_eq_some_iff.mp hfound
          have hne : v ≠ callerId := by
            rintro rfl
            exact hself (hproper hv)
          have hcall : transferOwnership d callerId (printUuid groupId) targetUserId =
              .ok ⟨(d.updateMember target.id (.role .owner)).updateMember caller.id (.role .member),
                printUuid callerId, targetUserId⟩ := by
            rw [transferOwnership, if_neg hself, hread]
            simp only [Option.bind_some, hcaller, hrole, ne_eq, not_true_eq_false, if_false, htarget]
          obtain ⟨c, hc, -⟩ := h.exists_club_of_isMembership hme
          have hclub := h.present _ c hc
          have howner : c.owner = callerId := (hclub.owner_eq_iff hme).mp hrole
          have hhas : c.Has v := hclub.has_iff.mpr ⟨target, hb⟩
          have hstep : Step clubs (.transfer callerId groupId (readUuid targetUserId))
              (Function.update clubs groupId (some (c.handTo v hhas))) (.transferred v) := by
            rw [hv]
            exact .transferred hc howner hhas hne
          have htells : Tells (.transferOwnership callerId groupId targetUserId)
              (.ok (.transferred (printUuid callerId) targetUserId,
                transferEvents groupId callerId targetUserId)) (.transferred v) := by
            rw [transferEvents, hv]
            exact .transferred
          exact follows_of_ok (by rw [performCall, hcall]; rfl) hstep
            (depicts_transferred h hc hme howner hb hne hhas) htells
      · have hcall : transferOwnership d callerId (printUuid groupId) targetUserId =
            .error (.forbidden "Only the group owner can transfer ownership") := by
          rw [transferOwnership, if_neg hself, hread]
          simp only [Option.bind_some, hcaller, ne_eq, hrole, not_false_eq_true, if_true]
        refine hrefused hcall ?_
        rintro ⟨c, next, hc, howner, -⟩
        exact hrole (((h.present _ c hc).owner_eq_iff hme).mpr howner)

/-! ## Runs -/

/-- **The calls refine clubs.** -/
theorem refines_serveGroups :
    Refines serveGroups (fun c d => (∀ id ∈ c.newIds, ¬d.Uses id) ∧ c.Proper) Step Depicts
      GroupCall.act Tells := by
  intro call d clubs hok h
  cases call with
  | create userId name new => exact follows_create h userId name new hok.1
  | join userId groupId memberId now =>
    exact follows_join h userId groupId memberId now (hok.1 memberId List.mem_cons_self)
  | leave userId groupId => exact follows_leave h userId groupId
  | transferOwnership callerId groupId targetUserId =>
    exact follows_transferOwnership h callerId groupId targetUserId hok.2

/-- A call puts no ids into the database but those it brings along. -/
theorem uses_serveGroups (c : GroupCall) (d : Records) (hnew : ∀ id ∈ c.newIds, ¬d.Uses id) (x : Uuid)
    (huses : (serveGroups c d).1.Uses x) : d.Uses x ∨ x ∈ c.newIds := by
  unfold serveGroups at huses
  cases hcall : performCall d c with
  | error e =>
    rw [hcall] at huses
    exact Or.inl huses
  | ok result =>
    rw [hcall] at huses
    cases c with
    | create userId name new =>
      rw [performCall] at hcall
      cases hcreate : create d userId name new with
      | error e =>
        rw [hcreate] at hcall
        cases hcall
      | ok created =>
        rw [hcreate] at hcall
        obtain rfl := Except.ok.inj hcall
        exact uses_of_create hnew hcreate huses
    | join userId groupId memberId now =>
      have hconfined := confined_join userId groupId memberId now
      rw [performCall] at hcall
      cases hjoin : join d userId groupId memberId now with
      | error e =>
        rw [hjoin] at hcall
        cases hcall
      | ok joined =>
        rw [hjoin] at hcall
        obtain rfl := Except.ok.inj hcall
        exact hconfined.uses d joined.records _ x hnew (by rw [hjoin]; rfl) huses
    | leave userId groupId =>
      rw [performCall] at hcall
      cases hleave : leave d userId groupId with
      | error e =>
        rw [hleave] at hcall
        cases hcall
      | ok left =>
        rw [hleave] at hcall
        obtain rfl := Except.ok.inj hcall
        exact (confined_leave userId groupId).uses d left.records _ x hnew (by rw [hleave]; rfl) huses
    | transferOwnership callerId groupId targetUserId =>
      rw [performCall] at hcall
      cases htransfer : transferOwnership d callerId (printUuid groupId) targetUserId with
      | error e =>
        rw [htransfer] at hcall
        cases hcall
      | ok t =>
        rw [htransfer] at hcall
        obtain rfl := Except.ok.inj hcall
        have hconfined := confined_transferOwnership (spells_printUuid groupId).2 callerId targetUserId
        exact hconfined.uses d t.records _ x hnew (by rw [htransfer]; rfl) huses

/-- A club has one owner, so a group has one. -/
theorem Depicts.oneOwner (h : Depicts d clubs) : OneOwner d.tables := by
  intro x hx
  obtain ⟨c, hc⟩ := h.exists_club ⟨x, hx, rfl⟩
  have hclub := h.present _ c hc
  obtain ⟨r, hr⟩ := hclub.has_iff.mp c.has_owner
  refine ⟨r, ⟨hr.mem, hr.groupId_eq, (hclub.owner_eq_iff hr).mpr rfl⟩, ?_⟩
  rintro r' ⟨hr', hgroup, hrole⟩
  have huser : r'.userId = c.owner := (hclub.owner_iff r' hr' hgroup).mp hrole
  exact hr.unique ⟨hr', hgroup, huser⟩

/-- **Every run of the calls is a run of clubs.**  Start with nothing stored and make any calls,
one after the other, under ids that differ, where nobody sends their own id in a spelling that
is not the printed one.  The answers and the events tell what becomes of the clubs, the
database depicts them in the end, and every group in it has exactly one owner. -/
theorem groups_are_clubs (calls : List GroupCall)
    (hdistinct : (calls.flatMap GroupCall.newIds).Nodup) (hproper : ∀ c ∈ calls, c.Proper) :
    ∃ clubs outcomes, SpecRun Step (fun _ => none) (calls.map GroupCall.act) clubs outcomes ∧
      Depicts (serveAll serveGroups calls Records.empty).1 clubs ∧
      ShowAll Tells calls (serveAll serveGroups calls Records.empty).2 outcomes ∧
      NamesUnique clubs ∧ OneOwner (serveAll serveGroups calls Records.empty).1.tables := by
  have hunused : ∀ id, ¬Records.empty.Uses id := by
    intro id huses
    cases huses with
    | group x hx _ => exact absurd hx List.not_mem_nil
    | member r hr _ => exact absurd hr List.not_mem_nil
    | message m hm _ => exact absurd hm List.not_mem_nil
    | reaction x hx _ => exact absurd hx List.not_mem_nil
  have hfresh : AllAsked serveGroups (fun c d => ∀ id ∈ c.newIds, ¬d.Uses id) calls Records.empty :=
    allAsked_of_fresh (fun c d hnew x => uses_serveGroups c d hnew x) hdistinct
      fun id _ => hunused id
  obtain ⟨clubs, outcomes, hrun, hdepicts, htells⟩ :=
    refines_serveGroups.serveAll (hfresh.and_of_mem hproper) depicts_empty
  have hnone : NamesUnique fun _ : Uuid => (none : Option GroupClub) := fun _ _ _ _ h => by cases h
  refine ⟨clubs, outcomes, hrun, hdepicts, htells, ?_, hdepicts.oneOwner⟩
  exact hrun.invariant (fun _ _ _ _ hunique hstep => hstep.namesUnique hunique) hnone

/-- A group is created, joined, handed over, left, and gone. -/
theorem groups_are_clubs_of_five : ∃ clubs outcomes,
    let calls : List GroupCall := [.create 5 "a" ⟨2, 10, epoch, epoch⟩, .join 6 2 11 epoch,
      .transferOwnership 5 2 "00000000-0000-0000-0000-000000000006", .leave 6 2, .leave 5 2]
    SpecRun Step (fun _ => none) (calls.map GroupCall.act) clubs outcomes ∧
      Depicts (serveAll serveGroups calls Records.empty).1 clubs ∧
      ShowAll Tells calls (serveAll serveGroups calls Records.empty).2 outcomes ∧
      NamesUnique clubs ∧ OneOwner (serveAll serveGroups calls Records.empty).1.tables :=
  groups_are_clubs [.create 5 "a" ⟨2, 10, epoch, epoch⟩, .join 6 2 11 epoch,
    .transferOwnership 5 2 "00000000-0000-0000-0000-000000000006", .leave 6 2, .leave 5 2]
    (by decide) (by
      intro c hc
      simp only [List.mem_cons, List.not_mem_nil, or_false] at hc
      rcases hc with rfl | rfl | rfl | rfl | rfl
      · trivial
      · trivial
      · show readUuid _ = some 5 → _
        decide
      · trivial
      · trivial)

end Groups
end GroupChat

import GroupChat.Groups.Service
import Mathlib.Data.List.Sort

/-!
# The member list in the browser

The browser reads a group once, with its members, and from then on patches the
list in place: `member_joined` appends, `member_left` drops, `owner_changed`
flips two roles and `read_receipt` stamps a row.  No patch refetches.

`replay_eq` says the patches are enough.  Whatever calls succeed one after
another, as long as the group is not deleted, the patched list and the list read
afresh at the end are the same up to order.  The calls and the patches are two
programs that never meet, and what connects them is `Rewrites`: a call rewrites
the memberships of the group row by row, and the patches of its events rewrite
the views in the same way.
-/

namespace GroupChat
namespace Client

open Common Database Groups

/-! ## Whole calls -/

/-- The calls on one group, each with the id and the time it may need. -/
inductive GroupCall where
  | join (userId id : Uuid) (now : Instant)
  | leave (userId : Uuid)
  | transferOwnership (callerId targetUserId : Uuid)
  | markRead (userId : Uuid) (now : Instant)
deriving DecidableEq

/-- What is broadcast after a call. -/
inductive Broadcast where
  | group (event : Groups.Event)
  | readReceipt (groupId userId : Uuid) (lastReadAt : Instant)
deriving DecidableEq

/-- `join`: the group has to exist, and the membership must not. -/
def join (t : Tables) (groupId userId id : Uuid) (now : Instant) :
    Except Exception (Tables × List Broadcast) :=
  match groupById t groupId with
  | none => .error (.notFound "Group not found")
  | some _ =>
    if (membership t groupId userId).isSome ∨ (memberById t id).isSome then
      .error (.conflict "You are already a member of this group")
    else
      .ok (t.put (.member (newMember id groupId userId .member now)),
        [.group (.memberJoined groupId (newMember id groupId userId .member now))])

/-- `leave`; the outcome says what became of the group. -/
def leave (t : Tables) (groupId userId : Uuid) : Except Exception (Tables × Outcome) :=
  match membership t groupId userId with
  | none => .error (.forbidden notAMemberMessage)
  | some me =>
    if me.role ≠ .owner then .ok (t.remove (.member me.id), .left me)
    else
      match successor t groupId userId with
      | none => .ok (t.applyAll (deleteGroup t groupId), .deletedGroup me)
      | some next =>
        .ok ((t.put (.member { next with role := .owner })).remove (.member me.id),
          .handedOver me next)

/-- `transferOwnership`. -/
def transferOwnership (t : Tables) (groupId callerId targetUserId : Uuid) :
    Except Exception (Tables × Outcome) :=
  if callerId = targetUserId then .error (.badRequest "You already own this group")
  else
    match membership t groupId callerId with
    | none => .error (.forbidden "Only the group owner can transfer ownership")
    | some caller =>
      if caller.role ≠ .owner then
        .error (.forbidden "Only the group owner can transfer ownership")
      else
        match membership t groupId targetUserId with
        | none => .error (.notFound "That user is not a member of this group")
        | some target =>
          .ok ((t.put (.member { target with role := .owner })).put
            (.member { caller with role := .member }), .transferred caller target)

/-- `markRead`. -/
def markRead (t : Tables) (groupId userId : Uuid) (now : Instant) :
    Except Exception (Tables × List Broadcast) :=
  match membership t groupId userId with
  | none => .error (.prisma .P2025)
  | some row =>
    .ok (t.put (.member { row with lastReadAt := some now }), [.readReceipt groupId userId now])

/-- What a call that ended a transaction broadcasts. -/
def broadcasts (o : Outcome) : List Broadcast := o.events.map .group

/-- A call that succeeds and does not delete the group. -/
def call (t : Tables) (groupId : Uuid) : GroupCall → Option (Tables × List Broadcast)
  | .join userId id now => (join t groupId userId id now).toOption
  | .leave userId =>
    match leave t groupId userId with
    | .ok (_, .deletedGroup _) => none
    | .ok (t', o) => some (t', broadcasts o)
    | .error _ => none
  | .transferOwnership callerId targetUserId =>
    (transferOwnership t groupId callerId targetUserId).toOption.map
      fun r => (r.1, broadcasts r.2)
  | .markRead userId now => (markRead t groupId userId now).toOption

/-- Calls one after another, all of which succeed, with what they broadcast. -/
def calls (t : Tables) (groupId : Uuid) : List GroupCall → Option (Tables × List Broadcast)
  | [] => some (t, [])
  | c :: cs =>
    (call t groupId c).bind fun r => (calls r.1 groupId cs).map fun r' => (r'.1, r.2 ++ r'.2)

/-! ## The group detail -/

structure UserView where
  id : Uuid
  name : String
  email : String
deriving DecidableEq

structure GroupMemberView where
  role : MemberRole
  joinedAt : Instant
  lastReadAt : Option Instant
  user : UserView
deriving DecidableEq

structure GroupDetail where
  group : Group
  members : List GroupMemberView
deriving DecidableEq

/-- The name and the email of each user. -/
abbrev Profiles := Uuid → String × String

/-- `GROUP_MEMBER_SELECT`. -/
def viewOf (profile : Profiles) (r : GroupMember) : GroupMemberView :=
  ⟨r.role, r.joinedAt, r.lastReadAt, ⟨r.userId, (profile r.userId).1, (profile r.userId).2⟩⟩

/-- The memberships of a group. -/
def rowsOf (t : Tables) (groupId : Uuid) : List GroupMember :=
  (membersOf t).filter fun r => r.groupId = groupId

/-- `findOne`: the members in the order they joined. -/
def findOne (profile : Profiles) (t : Tables) (groupId : Uuid) : Except Exception GroupDetail :=
  match groupById t groupId with
  | none => .error (.notFound "Group not found")
  | some g =>
    .ok ⟨g, ((rowsOf t groupId).insertionSort fun a b => a.joinedAt ≤ b.joinedAt).map
      (viewOf profile)⟩

/-! ## Patches -/

/-- `member_joined`: append, unless the user is there. -/
def onMemberJoined (members : List GroupMemberView) (member : GroupMemberView) :
    List GroupMemberView :=
  if members.any fun m => m.user.id = member.user.id then members else members ++ [member]

/-- `member_left`. -/
def onMemberLeft (members : List GroupMemberView) (userId : Uuid) : List GroupMemberView :=
  members.filter fun m => m.user.id ≠ userId

/-- `owner_changed`. -/
def onOwnerChanged (members : List GroupMemberView) (previousOwnerId newOwnerId : Uuid) :
    List GroupMemberView :=
  members.map fun m =>
    if m.user.id = newOwnerId then { m with role := .owner }
    else if m.user.id = previousOwnerId then { m with role := .member }
    else m

/-- `read_receipt`. -/
def onReadReceipt (members : List GroupMemberView) (userId : Uuid) (lastReadAt : Instant) :
    List GroupMemberView :=
  members.map fun m => if m.user.id = userId then { m with lastReadAt := some lastReadAt } else m

/-- The patch of a broadcast. -/
def patch (profile : Profiles) (members : List GroupMemberView) :
    Broadcast → List GroupMemberView
  | .group (.memberJoined _ row) => onMemberJoined members (viewOf profile row)
  | .group (.memberLeft _ userId) => onMemberLeft members userId
  | .group (.ownerChanged _ previousOwnerId newOwnerId) =>
    onOwnerChanged members previousOwnerId newOwnerId
  | .readReceipt _ userId lastReadAt => onReadReceipt members userId lastReadAt

/-- The patches of several broadcasts, in the order they are emitted. -/
def replay (profile : Profiles) (members : List GroupMemberView) (events : List Broadcast) :
    List GroupMemberView :=
  events.foldl (patch profile) members

/-! ## Memberships of one group -/

/-- A user has at most one membership in the group. -/
def UniqueIn (t : Tables) (groupId : Uuid) : Prop :=
  ∀ r r', .member r ∈ t → .member r' ∈ t → r.groupId = groupId → r'.groupId = groupId →
    r.userId = r'.userId → r = r'

/-- The views are those of the group's memberships, each once. -/
structure Mirrors (profile : Profiles) (t : Tables) (groupId : Uuid)
    (members : List GroupMemberView) : Prop where
  nodup : (members.map fun m => m.user.id).Nodup
  mem_iff : ∀ v, v ∈ members ↔
    ∃ r, .member r ∈ t ∧ r.groupId = groupId ∧ viewOf profile r = v

/-- A call turns each membership of the group into what `f` says, or drops it. -/
def Rewrites (t t' : Tables) (groupId : Uuid) (f : GroupMember → Option GroupMember) : Prop :=
  ∀ r', .member r' ∈ t' ∧ r'.groupId = groupId ↔
    ∃ r, .member r ∈ t ∧ r.groupId = groupId ∧ f r = some r'

variable {profile : Profiles} {t t' : Tables} {groupId : Uuid}

@[simp] theorem viewOf_user_id (r : GroupMember) : (viewOf profile r).user.id = r.userId := rfl

/-- **Rows and views are rewritten alike.** -/
theorem Mirrors.filterMap {members : List GroupMemberView} (h : Mirrors profile t groupId members)
    {f : GroupMember → Option GroupMember} {g : GroupMemberView → Option GroupMemberView}
    (hf : Rewrites t t' groupId f)
    (hfg : ∀ r, g (viewOf profile r) = (f r).map (viewOf profile))
    (hid : ∀ v v', g v = some v' → v'.user.id = v.user.id) :
    Mirrors profile t' groupId (members.filterMap g) := by
  constructor
  · have hpair := List.pairwise_map.mp h.nodup
    refine List.pairwise_map.mpr (List.Pairwise.filterMap g ?_ hpair)
    intro a b hab a' ha b' hb heq
    rw [hid a a' ha, hid b b' hb] at heq
    exact hab heq
  · intro v
    rw [List.mem_filterMap]
    constructor
    · rintro ⟨w, hw, hgw⟩
      obtain ⟨r, hr, hgroup, rfl⟩ := (h.mem_iff w).mp hw
      rw [hfg] at hgw
      obtain ⟨r', hr', rfl⟩ := Option.map_eq_some_iff.mp hgw
      obtain ⟨hmem, hgroup'⟩ := (hf r').mpr ⟨r, hr, hgroup, hr'⟩
      exact ⟨r', hmem, hgroup', rfl⟩
    · rintro ⟨r', hr', hgroup', rfl⟩
      obtain ⟨r, hr, hgroup, hfr⟩ := (hf r').mp ⟨hr', hgroup'⟩
      refine ⟨viewOf profile r, (h.mem_iff _).mpr ⟨r, hr, hgroup, rfl⟩, ?_⟩
      rw [hfg, hfr]
      rfl

/-- Rewriting keeps a user's membership single. -/
theorem UniqueIn.rewrites (h : UniqueIn t groupId) {f : GroupMember → Option GroupMember}
    (hf : Rewrites t t' groupId f) (huser : ∀ r r', f r = some r' → r'.userId = r.userId) :
    UniqueIn t' groupId := by
  intro a b ha hb hag hbg hab
  obtain ⟨r, hr, hrg, hfr⟩ := (hf a).mp ⟨ha, hag⟩
  obtain ⟨r', hr', hrg', hfr'⟩ := (hf b).mp ⟨hb, hbg⟩
  rw [huser r a hfr, huser r' b hfr'] at hab
  rw [h r r' hr hr' hrg hrg' hab] at hfr
  exact Option.some.inj (hfr.symm.trans hfr')

/-- Within the group, the row of a user is the row with its id. -/
theorem UniqueIn.id_eq_iff (h : UniqueIn t groupId) {me r : GroupMember} (hme : .member me ∈ t)
    (hmeg : me.groupId = groupId) (hr : .member r ∈ t) (hrg : r.groupId = groupId) :
    r.id = me.id ↔ r.userId = me.userId := by
  constructor
  · intro hid
    rw [eq_of_member_mem hr hme hid]
  · intro huser
    rw [h r me hr hme hrg hmeg huser]

theorem mem_put_member {t : Tables} {x r : GroupMember} :
    .member r ∈ t.put (.member x) ↔ r = x ∨ .member r ∈ t ∧ r.id ≠ x.id := by
  rw [Table.mem_put]
  simp

/-- Another user's membership stays when the role in one is written. -/
theorem mem_put_role {t : Tables} {x r : GroupMember} (hx : .member x ∈ t) (hr : .member r ∈ t)
    (hne : r.userId ≠ x.userId) (role : MemberRole) :
    .member r ∈ t.put (.member { x with role := role }) := by
  refine mem_put_member.mpr (Or.inr ⟨hr, fun hid => hne ?_⟩)
  rw [eq_of_member_mem hr hx hid]

theorem mem_remove_member {t : Tables} {id : Uuid} {r : GroupMember} :
    .member r ∈ t.remove (.member id) ↔ .member r ∈ t ∧ r.id ≠ id := by
  rw [Table.mem_remove]
  simp

/-! ## What a write rewrites -/

/-- Update the memberships of one user. -/
def updateUser (userId : Uuid) (u : GroupMember → GroupMember) (r : GroupMember) :
    Option GroupMember :=
  if r.userId = userId then some (u r) else some r

/-- Drop the memberships of one user. -/
def dropUser (userId : Uuid) (r : GroupMember) : Option GroupMember :=
  if r.userId = userId then none else some r

/-- **An update by id rewrites one user's row.** -/
theorem rewrites_put (hunique : UniqueIn t groupId) {x : GroupMember} (hx : .member x ∈ t)
    (hxg : x.groupId = groupId) {u : GroupMember → GroupMember}
    (hu : ∀ r, (u r).id = r.id ∧ (u r).groupId = r.groupId) :
    Rewrites t (t.put (.member (u x))) groupId (updateUser x.userId u) := by
  intro r'
  rw [mem_put_member, (hu x).1]
  unfold updateUser
  constructor
  · rintro ⟨rfl | ⟨hr', hid⟩, hg⟩
    · exact ⟨x, hx, hxg, if_pos rfl⟩
    · refine ⟨r', hr', hg, if_neg fun huser => hid ?_⟩
      exact (hunique.id_eq_iff hx hxg hr' hg).mpr huser
  · rintro ⟨r, hr, hrg, hfr⟩
    split_ifs at hfr with huser
    · obtain rfl : r = x := hunique r x hr hx hrg hxg huser
      rw [← Option.some.inj hfr]
      exact ⟨Or.inl rfl, (hu r).2.trans hrg⟩
    · rw [← Option.some.inj hfr]
      exact ⟨Or.inr ⟨hr, fun hid => huser ((hunique.id_eq_iff hx hxg hr hrg).mp hid)⟩, hrg⟩

/-- **A deletion by id drops one user's row.** -/
theorem rewrites_remove (hunique : UniqueIn t groupId) {x : GroupMember} (hx : .member x ∈ t)
    (hxg : x.groupId = groupId) :
    Rewrites t (t.remove (.member x.id)) groupId (dropUser x.userId) := by
  intro r'
  rw [mem_remove_member]
  unfold dropUser
  constructor
  · rintro ⟨⟨hr', hid⟩, hg⟩
    refine ⟨r', hr', hg, if_neg fun huser => hid ?_⟩
    exact (hunique.id_eq_iff hx hxg hr' hg).mpr huser
  · rintro ⟨r, hr, hrg, hfr⟩
    split_ifs at hfr with huser
    rw [← Option.some.inj hfr]
    exact ⟨⟨hr, fun hid => huser ((hunique.id_eq_iff hx hxg hr hrg).mp hid)⟩, hrg⟩

/-- One write after another. -/
theorem Rewrites.trans {t'' : Tables} {f f' : GroupMember → Option GroupMember}
    (h : Rewrites t t' groupId f) (h' : Rewrites t' t'' groupId f') :
    Rewrites t t'' groupId fun r => (f r).bind f' := by
  intro r''
  rw [h' r'']
  constructor
  · rintro ⟨r', hr', hg, hf'⟩
    obtain ⟨r, hr, hrg, hfr⟩ := (h r').mp ⟨hr', hg⟩
    exact ⟨r, hr, hrg, Option.bind_eq_some_iff.mpr ⟨r', hfr, hf'⟩⟩
  · rintro ⟨r, hr, hrg, hfr⟩
    obtain ⟨r', hfr, hf'⟩ := Option.bind_eq_some_iff.mp hfr
    obtain ⟨hr', hg⟩ := (h r').mpr ⟨r, hr, hrg, hfr⟩
    exact ⟨r', hr', hg, hf'⟩

theorem userId_of_updateUser {userId : Uuid} {u : GroupMember → GroupMember} {r r' : GroupMember}
    (h : updateUser userId u r = some r') (hu : ∀ r, (u r).userId = r.userId) :
    r'.userId = r.userId := by
  unfold updateUser at h
  split_ifs at h
  · rw [← Option.some.inj h, hu]
  · rw [← Option.some.inj h]

theorem userId_of_dropUser {userId : Uuid} {r r' : GroupMember}
    (h : dropUser userId r = some r') : r'.userId = r.userId := by
  unfold dropUser at h
  split_ifs at h
  rw [← Option.some.inj h]

/-! ## What a patch rewrites -/

/-- What `owner_changed` does to one view. -/
def flipRoles (previousOwnerId newOwnerId : Uuid) (m : GroupMemberView) : GroupMemberView :=
  if m.user.id = newOwnerId then { m with role := .owner }
  else if m.user.id = previousOwnerId then { m with role := .member }
  else m

@[simp] theorem flipRoles_user (a b : Uuid) (m : GroupMemberView) :
    (flipRoles a b m).user = m.user := by
  unfold flipRoles
  split_ifs <;> rfl

theorem onMemberLeft_eq (members : List GroupMemberView) (userId : Uuid) :
    onMemberLeft members userId =
      members.filterMap fun m => if m.user.id = userId then none else some m := by
  unfold onMemberLeft
  induction members with
  | nil => rfl
  | cons m ms ih =>
    by_cases hm : m.user.id = userId
    · rw [List.filter_cons_of_neg (by simpa using hm), List.filterMap_cons, if_pos hm, ih]
    · rw [List.filter_cons_of_pos (by simpa using hm), List.filterMap_cons, if_neg hm, ih]

theorem onOwnerChanged_eq (members : List GroupMemberView) (a b : Uuid) :
    onOwnerChanged members a b = members.filterMap fun m => some (flipRoles a b m) :=
  (congrFun (List.filterMap_eq_map (f := flipRoles a b)) members).symm

theorem onReadReceipt_eq (members : List GroupMemberView) (userId : Uuid) (now : Instant) :
    onReadReceipt members userId now = members.filterMap fun m =>
      some (if m.user.id = userId then { m with lastReadAt := some now } else m) :=
  (congrFun List.filterMap_eq_map members).symm

/-! ## One call -/

/-- After a call the patched list still mirrors the group. -/
structure Keeps (profile : Profiles) (t t' : Tables) (groupId : Uuid) (events : List Broadcast)
    (members : List GroupMemberView) : Prop where
  mirrors : Mirrors profile t' groupId (replay profile members events)
  unique : UniqueIn t' groupId
  group_eq : groupById t' groupId = groupById t groupId

theorem groupById_put (t : Tables) (x : GroupMember) (groupId : Uuid) :
    groupById (t.put (.member x)) groupId = groupById t groupId := by
  unfold groupById
  rw [Table.find?_put_of_ne (by simp)]

theorem groupById_remove (t : Tables) (id groupId : Uuid) :
    groupById (t.remove (.member id)) groupId = groupById t groupId := by
  have hfind : (t.remove (.member id)).find? (.group groupId) = t.find? (.group groupId) := by
    refine Option.ext fun row => ?_
    rw [Table.find?_eq_some_iff, Table.find?_eq_some_iff, Table.mem_remove]
    constructor
    · exact fun h => ⟨h.1.1, h.2⟩
    · intro h
      exact ⟨⟨h.1, by rw [h.2]; simp⟩, h.2⟩
  unfold groupById
  rw [hfind]

variable {members : List GroupMemberView}

/-- **A member joins.** -/
theorem keeps_join (h : Mirrors profile t groupId members) (hunique : UniqueIn t groupId)
    {userId id : Uuid} {now : Instant} {events : List Broadcast}
    (hcall : join t groupId userId id now = .ok (t', events)) :
    Keeps profile t t' groupId events members := by
  unfold join at hcall
  split at hcall
  · cases hcall
  · split_ifs at hcall with hused
    cases hcall
    rw [not_or, Bool.not_eq_true, Option.isSome_eq_false_iff, Option.isNone_iff_eq_none,
      Bool.not_eq_true, Option.isSome_eq_false_iff, Option.isNone_iff_eq_none] at hused
    obtain ⟨hnone, hid⟩ := hused
    rw [membership_eq_none] at hnone
    have hfresh : ∀ r, .member r ∈ t → r.id ≠ id := by
      intro r hr hrid
      have hfind : t.find? (Row.key (.member r)) = some (.member r) := Table.find?_of_mem hr
      unfold memberById at hid
      rw [Row.key_member, hrid] at hfind
      rw [hfind] at hid
      cases hid
    have hmem : ∀ r, .member r ∈ t.put (.member (newMember id groupId userId .member now)) ↔
        r = newMember id groupId userId .member now ∨ .member r ∈ t := by
      intro r
      rw [mem_put_member]
      exact or_congr_right ⟨fun hr => hr.1, fun hr => ⟨hr, hfresh r hr⟩⟩
    have hnew : ∀ m ∈ members, m.user.id ≠ userId := by
      intro m hm
      obtain ⟨r, hr, hrg, rfl⟩ := (h.mem_iff m).mp hm
      exact hnone r hr hrg
    have hpatch : replay profile members
        [.group (.memberJoined groupId (newMember id groupId userId .member now))] =
        members ++ [viewOf profile (newMember id groupId userId .member now)] := by
      show onMemberJoined members _ = _
      unfold onMemberJoined
      rw [if_neg]
      rw [List.any_eq_true]
      rintro ⟨m, hm, heq⟩
      exact hnew m hm (of_decide_eq_true heq)
    refine ⟨⟨?_, fun v => ?_⟩, ?_, groupById_put t _ groupId⟩
    · rw [hpatch, List.map_append, List.nodup_append]
      refine ⟨h.nodup, List.nodup_singleton _, ?_⟩
      intro a ha b hb
      obtain ⟨m, hm, rfl⟩ := List.mem_map.mp ha
      rw [List.map_singleton, List.mem_singleton] at hb
      rw [hb]
      exact hnew m hm
    · rw [hpatch, List.mem_append, List.mem_singleton, h.mem_iff]
      constructor
      · rintro (⟨r, hr, hrg, hv⟩ | rfl)
        · exact ⟨r, (hmem r).mpr (Or.inr hr), hrg, hv⟩
        · exact ⟨_, (hmem _).mpr (Or.inl rfl), rfl, rfl⟩
      · rintro ⟨r, hr, hrg, rfl⟩
        rcases (hmem r).mp hr with rfl | hr
        · exact Or.inr rfl
        · exact Or.inl ⟨r, hr, hrg, rfl⟩
    · intro a b ha hb hag hbg hab
      rcases (hmem a).mp ha with rfl | ha
      · rcases (hmem b).mp hb with rfl | hb
        · rfl
        · exact absurd hab.symm (hnone b hb hbg)
      · rcases (hmem b).mp hb with rfl | hb
        · exact absurd hab (hnone a ha hag)
        · exact hunique a b ha hb hag hbg hab

/-- **A member leaves**, and an owner who leaves hands the group over first. -/
theorem keeps_leave (h : Mirrors profile t groupId members) (hunique : UniqueIn t groupId)
    {userId : Uuid} {o : Outcome} (hcall : leave t groupId userId = .ok (t', o))
    (hkept : ∀ me, o ≠ .deletedGroup me) :
    Keeps profile t t' groupId (broadcasts o) members := by
  unfold leave at hcall
  split at hcall
  · cases hcall
  · next me hme =>
    obtain ⟨hmem, hmeg, rfl⟩ := membership_eq_some hme
    split_ifs at hcall with hrole
    · cases hcall
      have hrewrites := rewrites_remove hunique hmem hmeg
      refine ⟨?_, hunique.rewrites hrewrites fun r r' => userId_of_dropUser, groupById_remove _ _ _⟩
      show Mirrors profile _ groupId (onMemberLeft members me.userId)
      rw [onMemberLeft_eq]
      refine h.filterMap hrewrites (fun r => ?_) (fun v v' hv => ?_)
      · unfold dropUser
        rw [viewOf_user_id]
        split_ifs <;> rfl
      · split_ifs at hv
        rw [← Option.some.inj hv]
    · split at hcall
      · cases hcall
        exact absurd rfl (hkept me)
      · next next hnext =>
        cases hcall
        obtain ⟨hnextmem, hnextg, hne⟩ := successor_eq_some hnext
        have hput := rewrites_put hunique hnextmem hnextg
          (u := fun r => { r with role := .owner }) fun r => ⟨rfl, rfl⟩
        have hunique' := hunique.rewrites hput fun r r' hr =>
          userId_of_updateUser hr fun r => rfl
        have hmem' : .member me ∈ t.put (.member { next with role := .owner }) :=
          mem_put_role hnextmem hmem (Ne.symm hne) .owner
        have hremove := rewrites_remove hunique' hmem' hmeg
        refine ⟨?_, hunique'.rewrites hremove fun r r' => userId_of_dropUser, ?_⟩
        · show Mirrors profile _ groupId
            (onMemberLeft (onOwnerChanged members me.userId next.userId) me.userId)
          rw [onMemberLeft_eq, onOwnerChanged_eq, List.filterMap_filterMap]
          refine h.filterMap (hput.trans hremove) (fun r => ?_) (fun v v' hv => ?_)
          · unfold updateUser dropUser flipRoles
            rw [viewOf_user_id]
            by_cases hrn : r.userId = next.userId
            · have hrm : r.userId ≠ me.userId := fun hrm => hne (hrn.symm.trans hrm)
              simp [hrn, hne, viewOf]
            · by_cases hrm : r.userId = me.userId
              · simp [hrm, Ne.symm hne, viewOf]
              · simp [hrn, hrm, viewOf]
          · rw [Option.bind_some] at hv
            split_ifs at hv
            rw [← Option.some.inj hv, flipRoles_user]
        · rw [groupById_remove, groupById_put]

/-- **The owner hands the group over.** -/
theorem keeps_transferOwnership (h : Mirrors profile t groupId members)
    (hunique : UniqueIn t groupId) {callerId targetUserId : Uuid} {o : Outcome}
    (hcall : transferOwnership t groupId callerId targetUserId = .ok (t', o)) :
    Keeps profile t t' groupId (broadcasts o) members := by
  unfold transferOwnership at hcall
  split_ifs at hcall with hself
  split at hcall
  · cases hcall
  · next caller hcaller =>
    split_ifs at hcall with hrole
    split at hcall
    · cases hcall
    · next target htarget =>
      cases hcall
      obtain ⟨hcallermem, hcallerg, rfl⟩ := membership_eq_some hcaller
      obtain ⟨htargetmem, htargetg, rfl⟩ := membership_eq_some htarget
      have hput := rewrites_put hunique htargetmem htargetg
        (u := fun r => { r with role := .owner }) fun r => ⟨rfl, rfl⟩
      have hunique' := hunique.rewrites hput fun r r' hr => userId_of_updateUser hr fun _ => rfl
      have hmem' : .member caller ∈ t.put (.member { target with role := .owner }) :=
        mem_put_role htargetmem hcallermem hself .owner
      have hput' := rewrites_put hunique' hmem' hcallerg
        (u := fun r => { r with role := .member }) fun r => ⟨rfl, rfl⟩
      refine ⟨?_, hunique'.rewrites hput' fun r r' hr => userId_of_updateUser hr fun _ => rfl, ?_⟩
      · show Mirrors profile _ groupId (onOwnerChanged members caller.userId target.userId)
        rw [onOwnerChanged_eq]
        refine h.filterMap (hput.trans hput') (fun r => ?_) (fun v v' hv => ?_)
        · unfold updateUser flipRoles
          rw [viewOf_user_id]
          by_cases hrt : r.userId = target.userId
          · have hrc : r.userId ≠ caller.userId := fun hrc => hself (hrc.symm.trans hrt)
            simp [hrt, Ne.symm hself, viewOf]
          · by_cases hrc : r.userId = caller.userId
            · simp [hrc, hself, viewOf]
            · simp [hrt, hrc, viewOf]
        · rw [← Option.some.inj hv, flipRoles_user]
      · rw [groupById_put, groupById_put]

/-- **A member marks the group read.** -/
theorem keeps_markRead (h : Mirrors profile t groupId members) (hunique : UniqueIn t groupId)
    {userId : Uuid} {now : Instant} {events : List Broadcast}
    (hcall : markRead t groupId userId now = .ok (t', events)) :
    Keeps profile t t' groupId events members := by
  unfold markRead at hcall
  split at hcall
  · cases hcall
  · next row hrow =>
    cases hcall
    obtain ⟨hmem, hgroup, rfl⟩ := membership_eq_some hrow
    have hput := rewrites_put hunique hmem hgroup
      (u := fun r => { r with lastReadAt := some now }) fun r => ⟨rfl, rfl⟩
    refine ⟨?_, hunique.rewrites hput fun r r' hr => userId_of_updateUser hr fun _ => rfl,
      groupById_put t _ groupId⟩
    show Mirrors profile _ groupId (onReadReceipt members row.userId now)
    rw [onReadReceipt_eq]
    refine h.filterMap hput (fun r => ?_) (fun v v' hv => ?_)
    · unfold updateUser
      rw [viewOf_user_id]
      split_ifs <;> rfl
    · rw [← Option.some.inj hv]
      split_ifs <;> rfl

theorem eq_ok_of_toOption {α : Type} {x : Except Exception α} {a : α}
    (h : x.toOption = some a) : x = .ok a := by
  cases x with
  | error e => cases h
  | ok b => rw [Option.some.inj h]

/-- **The step lemma.**  A call that succeeds and does not delete the group leaves
the patched list a mirror of the group. -/
theorem keeps_call (h : Mirrors profile t groupId members) (hunique : UniqueIn t groupId)
    {c : GroupCall} {events : List Broadcast} (hcall : call t groupId c = some (t', events)) :
    Keeps profile t t' groupId events members := by
  cases c with
  | join userId id now =>
    exact keeps_join h hunique (eq_ok_of_toOption hcall)
  | leave userId =>
    simp only [call] at hcall
    split at hcall
    · cases hcall
    · next o hkept hleave =>
      cases hcall
      exact keeps_leave h hunique hleave fun me => hkept me
    · cases hcall
  | transferOwnership callerId targetUserId =>
    obtain ⟨⟨t₁, o⟩, hr, heq⟩ := Option.map_eq_some_iff.mp hcall
    cases heq
    exact keeps_transferOwnership h hunique (eq_ok_of_toOption hr)
  | markRead userId now =>
    exact keeps_markRead h hunique (eq_ok_of_toOption hcall)

/-! ## Whole runs -/

/-- **The run lemma.**  Calls one after another leave the patched list a mirror of
the group. -/
theorem keeps_calls {cs : List GroupCall} {events : List Broadcast}
    (h : Mirrors profile t groupId members) (hunique : UniqueIn t groupId)
    (hcalls : calls t groupId cs = some (t', events)) :
    Keeps profile t t' groupId events members := by
  induction cs generalizing t members events with
  | nil =>
    cases hcalls
    exact ⟨h, hunique, rfl⟩
  | cons c cs ih =>
    obtain ⟨⟨t₁, events₁⟩, hc, hrest⟩ := Option.bind_eq_some_iff.mp hcalls
    obtain ⟨⟨t₂, events₂⟩, hcs, heq⟩ := Option.map_eq_some_iff.mp hrest
    cases heq
    have hfirst := keeps_call h hunique hc
    have hlast := ih hfirst.mirrors hfirst.unique hcs
    refine ⟨?_, hlast.unique, hlast.group_eq.trans hfirst.group_eq⟩
    show Mirrors profile t₂ groupId ((events₁ ++ events₂).foldl (patch profile) members)
    rw [List.foldl_append]
    exact hlast.mirrors

/-- Two mirrors of a group differ in their order at most. -/
theorem Mirrors.perm {ms ms' : List GroupMemberView} (h : Mirrors profile t groupId ms)
    (h' : Mirrors profile t groupId ms') : ms.Perm ms' := by
  rw [List.perm_ext_iff_of_nodup (List.Nodup.of_map _ h.nodup) (List.Nodup.of_map _ h'.nodup)]
  exact fun v => (h.mem_iff v).trans (h'.mem_iff v).symm

/-- A group read afresh mirrors itself. -/
theorem mirrors_findOne {detail : GroupDetail} (hunique : UniqueIn t groupId)
    (h : findOne profile t groupId = .ok detail) : Mirrors profile t groupId detail.members := by
  unfold findOne at h
  split at h
  · cases h
  · cases h
    have hmem : ∀ r, r ∈ rowsOf t groupId ↔ .member r ∈ t ∧ r.groupId = groupId := by
      intro r
      unfold rowsOf
      rw [List.mem_filter, mem_membersOf, decide_eq_true_eq]
    have hnodup : (rowsOf t groupId).Nodup := by
      refine List.Nodup.filter _ (List.Nodup.filterMap ?_ (List.Nodup.of_map _ t.nodup))
      intro a b r ha hb
      cases a with
      | group g => cases ha
      | member a =>
        cases b with
        | group g => cases hb
        | member b => rw [Option.some.inj ha, Option.some.inj hb]
    have hperm := List.perm_insertionSort (fun a b : GroupMember => a.joinedAt ≤ b.joinedAt)
      (rowsOf t groupId)
    refine ⟨?_, fun v => ?_⟩
    · rw [List.map_map]
      refine (hperm.map _).nodup_iff.mpr ?_
      refine List.Nodup.map_on (fun a ha b hb hab => ?_) hnodup
      exact hunique a b ((hmem a).mp ha).1 ((hmem b).mp hb).1 ((hmem a).mp ha).2
        ((hmem b).mp hb).2 hab
    · rw [List.mem_map]
      constructor
      · rintro ⟨r, hr, rfl⟩
        obtain ⟨hrt, hrg⟩ := (hmem r).mp (hperm.mem_iff.mp hr)
        exact ⟨r, hrt, hrg, rfl⟩
      · rintro ⟨r, hrt, hrg, rfl⟩
        exact ⟨r, hperm.mem_iff.mpr ((hmem r).mpr ⟨hrt, hrg⟩), rfl⟩

/-- Every user has at most one membership in any one group. -/
def PairsUnique (t : Tables) : Prop := ∀ groupId, UniqueIn t groupId

/-- **Replaying the broadcasts gives the server's list.**  From the detail read at
the beginning, and after any calls that succeed one after another, the patched
members are those of the detail read at the end, each once. -/
theorem replay_eq (profile : Profiles) (t t' : Tables) (groupId : Uuid) (detail : GroupDetail)
    (cs : List GroupCall) (events : List Broadcast) (hunique : PairsUnique t)
    (hdetail : findOne profile t groupId = .ok detail)
    (hcalls : calls t groupId cs = some (t', events)) :
    ∃ detail', findOne profile t' groupId = .ok detail' ∧ detail'.group = detail.group ∧
      (replay profile detail.members events).Perm detail'.members ∧
      ((replay profile detail.members events).map fun m => m.user.id).Nodup := by
  have hkeeps := keeps_calls (mirrors_findOne (hunique groupId) hdetail) (hunique groupId) hcalls
  obtain ⟨detail', hdetail', hgroup⟩ : ∃ detail', findOne profile t' groupId = .ok detail' ∧
      detail'.group = detail.group := by
    unfold findOne at hdetail ⊢
    rw [hkeeps.group_eq]
    cases hgroup : groupById t groupId with
    | none =>
      rw [hgroup] at hdetail
      cases hdetail
    | some g =>
      rw [hgroup] at hdetail
      cases hdetail
      exact ⟨_, rfl, rfl⟩
  exact ⟨detail', hdetail', hgroup, hkeeps.mirrors.perm (mirrors_findOne hkeeps.unique hdetail'),
    hkeeps.mirrors.nodup⟩

/-! ## One run -/

def founder : GroupMember := newMember 10 1 2 .owner epoch

def guest : GroupMember := newMember 11 1 3 .member ⟨5, by decide⟩

/-- A group with an owner and a member. -/
def founded : Tables :=
  ((Table.empty.put (.group ⟨1, "group", 2, epoch⟩)).put (.member founder)).put
    (.member guest)

/-- The owner leaves, joins again, reads, and is handed the group back. -/
def returningOwnerCalls : List GroupCall :=
  [.leave 2, .join 2 12 ⟨7, by decide⟩, .markRead 2 ⟨8, by decide⟩, .transferOwnership 3 2]

theorem pairsUnique_founded : PairsUnique founded := by
  intro groupId r r' hr hr' _ _ huser
  have hmem : ∀ r, .member r ∈ founded → r = founder ∨ r = guest := by
    intro r hr
    have hrows : r ∈ membersOf founded := mem_membersOf.mpr hr
    have hlist : membersOf founded = [founder, guest] := by decide
    rw [hlist] at hrows
    simpa using hrows
  have hne : founder.userId ≠ guest.userId := by decide
  rcases hmem r hr with rfl | rfl
  · rcases hmem r' hr' with rfl | rfl
    · rfl
    · exact absurd huser hne
  · rcases hmem r' hr' with rfl | rfl
    · exact absurd huser.symm hne
    · rfl

/-- The replay of one run. -/
theorem replay_eq_returningOwner : ∃ detail t' events detail',
    findOne (fun _ => ("", "")) founded 1 = .ok detail ∧
      calls founded 1 returningOwnerCalls = some (t', events) ∧
      findOne (fun _ => ("", "")) t' 1 = .ok detail' ∧ detail'.group = detail.group ∧
      (replay (fun _ => ("", "")) detail.members events).Perm detail'.members ∧
      ((replay (fun _ => ("", "")) detail.members events).map fun m => m.user.id).Nodup := by
  obtain ⟨⟨t', events⟩, hcalls⟩ := Option.isSome_iff_exists.mp
    (show (calls founded 1 returningOwnerCalls).isSome by decide)
  obtain ⟨detail', h⟩ := replay_eq (fun _ => ("", "")) founded t' 1 _ returningOwnerCalls events
    pairsUnique_founded rfl hcalls
  exact ⟨_, t', events, detail', rfl, hcalls, h⟩

end Client
end GroupChat

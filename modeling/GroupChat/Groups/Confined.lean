import GroupChat.Groups.Part

/-!
# Calls that stay in their group

`Confined g new call` says of a call on the group `g` that it depends on nothing but this group
and changes nothing but this group, as long as the ids in `new`, which it inserts rows under,
are not in use.  Every call of the services that names a group is confined to it.
-/

namespace GroupChat
namespace Groups

open Common Database Messages Messages.Reactions

variable {d after : Records} {g k id userId messageId : Uuid} {now : Instant}

/-! ## Ids in use -/

/-- The id is the id of a row. -/
inductive Records.Uses (d : Records) (id : Uuid) : Prop
  | group (x : Group) (mem : .group x ∈ d.tables) (id_eq : x.id = id)
  | member (r : GroupMember) (mem : .member r ∈ d.tables) (id_eq : r.id = id)
  | message (m : Message) (mem : m ∈ d.messages) (id_eq : m.id = id)
  | reaction (x : Reaction) (mem : x ∈ d.reactions) (id_eq : x.id = id)

theorem Records.Uses.of_updateMember {u : MemberUpdate} (h : (d.updateMember k u).Uses id) :
    d.Uses id := by
  cases h with
  | group x hx hid => exact .group x (group_mem_updateMember.mp hx) hid
  | member r hr hid =>
    obtain ⟨r₀, hr₀, rfl⟩ := member_mem_updateRows.mp hr
    refine .member r₀ hr₀ (Eq.trans ?_ hid)
    split_ifs <;> simp
  | message m hm hid => exact .message m hm hid
  | reaction x hx hid => exact .reaction x hx hid

theorem Records.Uses.of_deleteMember (h : (d.deleteMember k).Uses id) : d.Uses id := by
  cases h with
  | group x hx hid => exact .group x (Table.mem_remove.mp hx).1 hid
  | member r hr hid => exact .member r (Table.mem_remove.mp hr).1 hid
  | message m hm hid => exact .message m hm hid
  | reaction x hx hid => exact .reaction x hx hid

theorem Records.Uses.of_deleteGroup (h : (d.deleteGroup k).Uses id) : d.Uses id := by
  cases h with
  | group x hx hid => exact .group x (Table.mem_filter.mp hx).1 hid
  | member r hr hid => exact .member r (Table.mem_filter.mp hr).1 hid
  | message m hm hid => exact .message m (Table.mem_filter.mp hm).1 hid
  | reaction x hx hid => exact .reaction x (Table.mem_filter.mp hx).1 hid

/-! ## Confined calls -/

/-- **The call stays in the group.** -/
structure Confined {E A : Type} (g : Uuid) (new : List Uuid)
    (call : Records → Except E (Records × A)) : Prop where
  own : ∀ d, (∀ id ∈ new, ¬d.Uses id) →
    call (d.only g) = (call d).map fun result => (result.1.only g, result.2)
  others : ∀ d k after a, (∀ id ∈ new, ¬d.Uses id) → k ≠ g → call d = .ok (after, a) →
    after.only k = d.only k
  uses : ∀ d after a id, (∀ id ∈ new, ¬d.Uses id) → call d = .ok (after, a) → after.Uses id →
    d.Uses id ∨ id ∈ new

section Combinators

variable {E E' A B : Type} {new : List Uuid} {call : Records → Except E (Records × A)}

theorem Confined.map (h : Confined g new call) (f : A → B) :
    Confined g new fun d => (call d).map fun result => (result.1, f result.2) := by
  have hinv : ∀ {d after b}, (call d).map (fun result => (result.1, f result.2)) =
      .ok (after, b) → ∃ a, call d = .ok (after, a) := by
    intro d after b hb
    cases hcall : call d with
    | error e =>
      rw [hcall] at hb
      cases hb
    | ok result =>
      rw [hcall] at hb
      obtain ⟨rfl, -⟩ := Prod.mk.inj (Except.ok.inj hb)
      exact ⟨result.2, rfl⟩
  refine ⟨fun d hd => ?_, fun d k after b hd hne hb => ?_, fun d after b id hd hb huses => ?_⟩
  · rw [h.own d hd]
    cases call d <;> rfl
  · obtain ⟨a, ha⟩ := hinv hb
    exact h.others d k after a hd hne ha
  · obtain ⟨a, ha⟩ := hinv hb
    exact h.uses d after a id hd ha huses

theorem Confined.mapError (h : Confined g new call) (f : E → E') :
    Confined g new fun d => (call d).mapError f := by
  have hinv : ∀ {d result}, (call d).mapError f = .ok result → call d = .ok result := by
    intro d result hresult
    cases hcall : call d with
    | error e =>
      rw [hcall] at hresult
      cases hresult
    | ok result' =>
      rw [hcall] at hresult
      exact congrArg _ (Except.ok.inj hresult)
  refine ⟨fun d hd => ?_, fun d k after a hd hne ha => h.others d k after a hd hne (hinv ha),
    fun d after a id hd ha => h.uses d after a id hd (hinv ha)⟩
  rw [h.own d hd]
  cases call d <;> rfl

/-- What comes before the call reads nothing. -/
theorem Confined.bind {x : Except E B} {call : B → Records → Except E (Records × A)}
    (h : ∀ b, x = .ok b → Confined g new (call b)) : Confined g new fun d => x.bind (call · d) := by
  cases x with
  | error e => exact ⟨fun _ _ => rfl, fun _ _ _ _ _ _ h => (nomatch h), fun _ _ _ _ _ h => (nomatch h)⟩
  | ok b => exact h b rfl

/-- A call that only reads, and finds the same in the part. -/
theorem confined_reading {f : Records → Except E A} (h : ∀ d, f (d.only g) = f d) :
    Confined g new fun d => do return (d, ← f d) := by
  have hinv : ∀ {d after a}, (do return (d, ← f d)) = (.ok (after, a) : Except E (Records × A)) →
      after = d := by
    intro d after a ha
    cases hread : f d with
    | error e =>
      rw [hread] at ha
      cases ha
    | ok a' =>
      rw [hread] at ha
      exact (Prod.mk.inj (Except.ok.inj ha)).1.symm
  refine ⟨fun d _ => ?_, fun d k after a _ _ ha => ?_, fun d after a id _ ha huses => ?_⟩
  · rw [h d]
    cases f d <;> rfl
  · rw [hinv ha]
  · rw [hinv ha] at huses
    exact Or.inl huses

theorem Confined.congr {call' : Records → Except E (Records × A)} (h : Confined g new call)
    (heq : ∀ d, call' d = call d) : Confined g new call' := by
  rwa [show call' = call from funext heq]

/-- A call that inserts nothing. -/
theorem Confined.weaken (h : Confined g [] call) : Confined g new call := by
  have hnone : ∀ {d : Records}, ∀ id ∈ ([] : List Uuid), ¬d.Uses id := fun id hid =>
    absurd hid List.not_mem_nil
  refine ⟨fun d _ => h.own d hnone, fun d k after a _ => h.others d k after a hnone,
    fun d after a id _ hcall huses => ?_⟩
  exact Or.inl ((h.uses d after a id hnone hcall huses).resolve_right List.not_mem_nil)

end Combinators

/-! ## Memberships -/

theorem confined_leave (userId g : Uuid) : Confined g [] fun d =>
    (leave d userId g).map fun left => (left.records, left.groupDeleted, left.newOwnerId) := by
  refine ⟨fun d _ => ?_, fun d k after a _ hne h => ?_, fun d after a id _ h huses => ?_⟩
  · unfold leave
    rw [membership_only, successor_only]
    cases membership d.tables g userId with
    | none => rfl
    | some me =>
      dsimp only
      split_ifs with hrole
      · rw [← only_deleteMember]
        rfl
      · cases successor d.tables g userId with
        | none =>
          dsimp only
          rw [← only_deleteGroup]
          rfl
        | some next =>
          dsimp only
          rw [← only_updateMember, ← only_deleteMember]
          rfl
  · have hleaves : Leaves d userId g (leave d userId g) := leaves d userId g
    generalize leave d userId g = result at h hleaves
    cases hleaves with
    | refused hstranger => cases h
    | @departed me hme hrole =>
      obtain ⟨rfl, -⟩ := Prod.mk.inj (Except.ok.inj h)
      exact only_deleteMember_of_ne hme.mem (hme.groupId_eq.trans_ne hne.symm)
    | deleted hme hrole halone =>
      obtain ⟨rfl, -⟩ := Prod.mk.inj (Except.ok.inj h)
      exact only_deleteGroup_of_ne hne.symm
    | @handedOver me next hme hrole hnext =>
      obtain ⟨rfl, -⟩ := Prod.mk.inj (Except.ok.inj h)
      have hout : me.groupId ≠ k := hme.groupId_eq.trans_ne hne.symm
      have hthere : .member me ∈ (d.updateMember next.id (.role .owner)).tables :=
        (mem_updateMember hnext.other.mem _).mpr (Or.inr ⟨hme.mem, hnext.other.ne.symm⟩)
      exact (only_deleteMember_of_ne hthere hout).trans
        (only_updateMember_of_ne hnext.other.mem (hnext.other.groupId_eq.trans_ne hout) _)
  · have hleaves : Leaves d userId g (leave d userId g) := leaves d userId g
    generalize leave d userId g = result at h hleaves
    cases hleaves with
    | refused hstranger => cases h
    | departed hme hrole =>
      obtain ⟨rfl, -⟩ := Prod.mk.inj (Except.ok.inj h)
      exact Or.inl huses.of_deleteMember
    | deleted hme hrole halone =>
      obtain ⟨rfl, -⟩ := Prod.mk.inj (Except.ok.inj h)
      exact Or.inl huses.of_deleteGroup
    | handedOver hme hrole hnext =>
      obtain ⟨rfl, -⟩ := Prod.mk.inj (Except.ok.inj h)
      exact Or.inl huses.of_deleteMember.of_updateMember

/-- What a transfer that goes through has found. -/
theorem transferOwnership_eq_ok {groupId targetUserId : String} {t : Transferred}
    (hread : readUuid groupId = some g)
    (h : transferOwnership d userId groupId targetUserId = .ok t) :
    ∃ caller target : GroupMember, .member caller ∈ d.tables ∧ caller.groupId = g ∧
      .member target ∈ d.tables ∧ target.groupId = g ∧
        t = ⟨(d.updateMember target.id (.role .owner)).updateMember caller.id (.role .member),
          printUuid userId, targetUserId⟩ := by
  unfold transferOwnership at h
  rw [hread] at h
  simp only [Option.bind_some] at h
  split_ifs at h
  split at h
  · cases h
  · next caller hcaller =>
    split_ifs at h
    split at h
    · cases h
    · next target htarget =>
      obtain ⟨u, -, htarget⟩ := Option.bind_eq_some_iff.mp htarget
      obtain ⟨hcallerMem, hcallerGroup, -⟩ := membership_eq_some hcaller
      obtain ⟨htargetMem, htargetGroup, -⟩ := membership_eq_some htarget
      exact ⟨caller, target, hcallerMem, hcallerGroup, htargetMem, htargetGroup,
        (Except.ok.inj h).symm⟩

theorem confined_transferOwnership {groupId : String} (hread : readUuid groupId = some g)
    (userId : Uuid) (targetUserId : String) : Confined g [] fun d =>
      (transferOwnership d userId groupId targetUserId).map fun t =>
        (t.records, t.previousOwnerId, t.newOwnerId) := by
  refine ⟨fun d _ => ?_, fun d k after a _ hne h => ?_, fun d after a id _ h huses => ?_⟩
  · unfold transferOwnership
    rw [hread]
    simp only [Option.bind_some, membership_only]
    split_ifs with hself
    · rfl
    · cases membership d.tables g userId with
      | none => rfl
      | some caller =>
        dsimp only
        split_ifs with hrole
        · rfl
        · cases (readUuid targetUserId).bind fun u => membership d.tables g u with
          | none => rfl
          | some target =>
            dsimp only
            rw [← only_updateMember, ← only_updateMember]
            rfl
  · cases htransfer : transferOwnership d userId groupId targetUserId with
    | error e =>
      rw [htransfer] at h
      cases h
    | ok t =>
      rw [htransfer] at h
      obtain ⟨rfl, -⟩ := Prod.mk.inj (Except.ok.inj h)
      obtain ⟨caller, target, hcaller, hcallerGroup, htarget, htargetGroup, rfl⟩ :=
        transferOwnership_eq_ok hread htransfer
      have hout : ∀ r : GroupMember, r.groupId = g → r.groupId ≠ k := fun r hr =>
        hr.trans_ne hne.symm
      obtain ⟨r₀, hr₀, hgroup, hid⟩ : ∃ r₀, .member r₀ ∈
          (d.updateMember target.id (.role .owner)).tables ∧ r₀.groupId = g ∧
            r₀.id = caller.id := by
        refine ⟨if caller.id = target.id then MemberUpdate.apply (.role .owner) caller else caller,
          member_mem_updateRows.mpr ⟨caller, hcaller, rfl⟩, ?_, ?_⟩ <;> split_ifs <;> simp [hcallerGroup]
      show ((d.updateMember target.id (.role .owner)).updateMember caller.id (.role .member)).only k = _
      rw [← hid, only_updateMember_of_ne hr₀ (hout r₀ hgroup),
        only_updateMember_of_ne htarget (hout target htargetGroup)]
  · cases htransfer : transferOwnership d userId groupId targetUserId with
    | error e =>
      rw [htransfer] at h
      cases h
    | ok t =>
      rw [htransfer] at h
      obtain ⟨rfl, -⟩ := Prod.mk.inj (Except.ok.inj h)
      obtain ⟨caller, target, -, -, -, -, rfl⟩ := transferOwnership_eq_ok hread htransfer
      exact Or.inl (Records.Uses.of_updateMember (Records.Uses.of_updateMember huses))

theorem Records.Uses.of_added {row : Row} (h : Added d row after) (huses : after.Uses id) :
    d.Uses id ∨ row.key = .group id ∨ row.key = .member id := by
  have hrow : ∀ {x}, x ∈ after.tables → x ∈ d.tables ∨ x = row := fun hx => by
    rw [Table.mem_def, h.rows, List.mem_append, List.mem_singleton] at hx
    exact hx
  cases huses with
  | group x hx hid =>
    rcases hrow hx with hold | rfl
    · exact Or.inl (.group x hold hid)
    · exact Or.inr (Or.inl (congrArg Key.group hid))
  | member r hr hid =>
    rcases hrow hr with hold | rfl
    · exact Or.inl (.member r hold hid)
    · exact Or.inr (Or.inr (congrArg Key.member hid))
  | message m hm hid => exact Or.inl (.message m (h.messages ▸ hm) hid)
  | reaction x hx hid => exact Or.inl (.reaction x (h.reactions ▸ hx) hid)

/-- A new id is the key of no membership. -/
theorem find?_member_of_unused (h : ¬d.Uses id) : d.tables.find? (.member id) = none := by
  refine Table.find?_eq_none_iff.mpr fun row hrow hkey => ?_
  cases row with
  | group x => cases hkey
  | member r => exact h (.member r hrow (Key.member.inj hkey))

theorem confined_join (userId g id : Uuid) (now : Instant) : Confined g [id] fun d =>
    (join d userId g id now).map fun joined => (joined.records, joined.events, joined.group) := by
  have hnew : ∀ {d : Records}, (∀ x ∈ [id], ¬d.Uses x) → d.tables.find? (.member id) = none :=
    fun hd => find?_member_of_unused (hd id (List.mem_singleton_self id))
  refine ⟨fun d hd => ?_, fun d k after a hd hne h => ?_, fun d after a x hd h huses => ?_⟩
  · unfold join
    rw [groupById_only]
    cases hfound : groupById d.tables g with
    | none => rfl
    | some group =>
      have hthere : d.hasGroup g = true := by
        rw [Records.hasGroup, hfound]
        rfl
      have hinsert : (d.only g).createMember (newMember id g userId .member now) =
          (d.createMember (newMember id g userId .member now)).map fun after => after.only g :=
        createMember_only rfl hthere (hnew hd)
      dsimp only
      rw [hinsert]
      cases d.createMember (newMember id g userId .member now) with
      | ok after => rfl
      | error e =>
        cases e with
        | prisma code => cases code <;> rfl
        | _ => rfl
  · have hjoins : Joins d userId g id now (join d userId g id now) := joins d userId g id now (hnew hd)
    generalize join d userId g id now = result at h hjoins
    cases hjoins with
    | missing habsent => cases h
    | member hmember => cases h
    | joined hg hid hstranger hadded =>
      obtain ⟨rfl, -⟩ := Prod.mk.inj (Except.ok.inj h)
      exact hadded.only_of_not_inGroup fun hin => hne (inGroup_member.mp hin).symm
  · have hjoins : Joins d userId g id now (join d userId g id now) := joins d userId g id now (hnew hd)
    generalize join d userId g id now = result at h hjoins
    cases hjoins with
    | missing habsent => cases h
    | member hmember => cases h
    | joined hg hid hstranger hadded =>
      obtain ⟨rfl, -⟩ := Prod.mk.inj (Except.ok.inj h)
      refine (huses.of_added hadded).imp_right fun hkey => ?_
      rcases hkey with hkey | hkey
      · cases hkey
      · exact List.mem_singleton.mpr (Key.member.inj hkey).symm

/-! ## Creating a group -/

section Create

variable {name : String} {group : Group} {defaults : Defaults}

/-- A created group and its owner come last. -/
theorem create_eq_ok (hnew : ∀ id ∈ [defaults.groupId, defaults.memberId], ¬d.Uses id)
    (h : create d userId name defaults = .ok (after, group)) :
    after.tables.rows = d.tables.rows ++
        [.group ⟨defaults.groupId, name, userId, defaults.createdAt⟩,
          .member (newMember defaults.memberId defaults.groupId userId .owner defaults.joinedAt)] ∧
      after.messages = d.messages ∧ after.reactions = d.reactions := by
  have hgroup : d.tables.find? (.group defaults.groupId) = none := by
    refine Table.find?_eq_none_iff.mpr fun row hrow hkey => ?_
    cases row with
    | group x => exact hnew _ (by simp) (.group x hrow (Key.group.inj hkey))
    | member r => cases hkey
  have hmember : d.tables.find? (.member defaults.memberId) = none :=
    find?_member_of_unused (hnew _ (by simp))
  have hcreates := creates d userId name defaults hgroup hmember
  rw [h] at hcreates
  cases hcreates with
  | created hunnamed hrows hmessages hreactions => exact ⟨hrows, hmessages, hreactions⟩

/-- A new group is another group. -/
theorem only_of_create (hnew : ∀ id ∈ [defaults.groupId, defaults.memberId], ¬d.Uses id)
    (h : create d userId name defaults = .ok (after, group)) (hne : k ≠ defaults.groupId) :
    after.only k = d.only k := by
  obtain ⟨hrows, hmessages, hreactions⟩ := create_eq_ok hnew h
  refine Records.ext_rows ?_ ?_ ?_
  · show after.tables.rows.filter (Row.inGroup k) = d.tables.rows.filter (Row.inGroup k)
    have hgroup : ¬(Row.group ⟨defaults.groupId, name, userId, defaults.createdAt⟩).inGroup k = true :=
      fun hin => hne (inGroup_group.mp hin).symm
    have hmember : ¬(Row.member (newMember defaults.memberId defaults.groupId userId .owner
        defaults.joinedAt)).inGroup k = true := fun hin => hne (inGroup_member.mp hin).symm
    rw [hrows, List.filter_append, List.filter_cons_of_neg hgroup, List.filter_cons_of_neg hmember,
      List.filter_nil, List.append_nil]
  · show (after.messages.filter _).rows = (d.messages.filter _).rows
    rw [hmessages]
  · show (after.reactions.filter (reactsIn after.messages k)).rows =
      (d.reactions.filter (reactsIn d.messages k)).rows
    rw [hmessages, hreactions]

theorem uses_of_create (hnew : ∀ id ∈ [defaults.groupId, defaults.memberId], ¬d.Uses id)
    (h : create d userId name defaults = .ok (after, group)) {x : Uuid}
    (huses : after.Uses x) : d.Uses x ∨ x ∈ [defaults.groupId, defaults.memberId] := by
  obtain ⟨hrows, hmessages, hreactions⟩ := create_eq_ok hnew h
  have hrow : ∀ {row}, row ∈ after.tables → row ∈ d.tables ∨
      row = .group ⟨defaults.groupId, name, userId, defaults.createdAt⟩ ∨
        row = .member (newMember defaults.memberId defaults.groupId userId .owner
          defaults.joinedAt) := by
    intro row hrow
    rw [Table.mem_def, hrows, List.mem_append, List.mem_cons, List.mem_singleton] at hrow
    exact hrow
  cases huses with
  | group y hy hx =>
    rcases hrow hy with hold | heq | heq
    · exact Or.inl (.group y hold hx)
    · rw [← hx, Row.group.inj heq]
      exact Or.inr (by simp)
    · cases heq
  | member r hr hx =>
    rcases hrow hr with hold | heq | heq
    · exact Or.inl (.member r hold hx)
    · cases heq
    · rw [← hx, Row.member.inj heq]
      exact Or.inr (by simp [newMember])
  | message m hm hx => exact Or.inl (.message m (hmessages ▸ hm) hx)
  | reaction y hy hx => exact Or.inl (.reaction y (hreactions ▸ hy) hx)

end Create

/-! ## Messages -/

section Calls

variable {E A : Type} {new : List Uuid} {call : Records → Except E (Records × A)}

/-- What a call that goes through has done is enough to look at for two of the three. -/
theorem Confined.of_after
    (hown : ∀ d, (∀ id ∈ new, ¬d.Uses id) →
      call (d.only g) = (call d).map fun result => (result.1.only g, result.2))
    (hafter : ∀ d after a, (∀ id ∈ new, ¬d.Uses id) → call d = .ok (after, a) →
      (∀ k, k ≠ g → after.only k = d.only k) ∧
        ∀ id, after.Uses id → d.Uses id ∨ id ∈ new) : Confined g new call :=
  ⟨hown, fun d k after a hd hne h => (hafter d after a hd h).1 k hne,
    fun d after a id hd h => (hafter d after a hd h).2 id⟩

end Calls

theorem find?_messages_only {m : Message} (h : d.messages.find? messageId = some m)
    (hgroup : m.groupId = g) : (d.only g).messages.find? messageId = some m := by
  obtain ⟨hm, hid⟩ := Table.find?_eq_some_iff.mp h
  exact Table.find?_eq_some_iff.mpr ⟨message_mem_only.mpr ⟨hm, hgroup⟩, hid⟩

theorem confined_createMessage (data : NewMessage) (hgroup : data.groupId = g) (id : Uuid)
    (now : Instant) : Confined g [id] fun d => d.createMessage data id now := by
  have hnew : ∀ {d : Records}, (∀ x ∈ [id], ¬d.Uses x) → d.messages.find? id = none := fun hd =>
    Table.find?_eq_none_iff.mpr fun m hm hid =>
      hd id (List.mem_singleton_self id) (.message m hm hid)
  refine .of_after (fun d hd => ?_) fun d after a hd h => ?_
  · have hfresh : d.messages.find? id = none := hnew hd
    have hfresh' : (d.only g).messages.find? id = none := Table.find?_eq_none_iff.mpr fun m hm =>
      Table.find?_eq_none_iff.mp hfresh m (message_mem_only.mp hm).1
    unfold Records.createMessage
    rw [dif_pos hfresh, dif_pos hfresh']
    by_cases hthere : d.hasGroup data.groupId = true
    · have hthere' : (d.only g).hasGroup data.groupId = true := by
        rw [hgroup, hasGroup_only, ← hgroup, hthere]
      rw [dif_pos hthere, dif_pos hthere']
      have hput : (d.putMessage (data.toRow id now) hfresh hthere).only g =
          (d.only g).putMessage (data.toRow id now) hfresh' hthere' :=
        only_putMessage hgroup hfresh' hthere'
      have hshown : ((d.putMessage (data.toRow id now) hfresh hthere).only g).select
          (data.toRow id now) =
            (d.putMessage (data.toRow id now) hfresh hthere).select (data.toRow id now) :=
        select_only (Table.mem_put_self _ _) hgroup
      dsimp only
      rw [← hput, hshown]
      rfl
    · have hthere' : ¬(d.only g).hasGroup data.groupId = true := by
        rwa [hgroup, hasGroup_only, ← hgroup]
      rw [dif_neg hthere, dif_neg hthere']
      rfl
  · unfold Records.createMessage at h
    split_ifs at h with hfresh hthere
    obtain ⟨rfl, -⟩ := Prod.mk.inj (Except.ok.inj h)
    refine ⟨fun k hne => only_putMessage_of_ne (hgroup.trans_ne hne.symm), fun x huses => ?_⟩
    cases huses with
    | group y hy hid => exact Or.inl (.group y hy hid)
    | member r hr hid => exact Or.inl (.member r hr hid)
    | message m hm hid =>
      rcases Table.mem_put.mp hm with rfl | ⟨hm, -⟩
      · exact Or.inr (List.mem_singleton.mpr hid.symm)
      · exact Or.inl (.message m hm hid)
    | reaction y hy hid => exact Or.inl (.reaction y hy hid)

/-- The message the check has found is in the group. -/
theorem authorise_eq_ok {change : Change} {m : Message}
    (h : authorise d.messages g messageId userId change = .ok m) :
    d.messages.find? messageId = some m ∧ m.groupId = g := by
  have hown : assertOwnUserMessage d.messages g messageId userId = .ok m := by
    cases change with
    | softDelete => exact h
    | edit content =>
      unfold authorise at h
      cases howned : assertOwnUserMessage d.messages g messageId userId with
      | error e =>
        rw [howned] at h
        cases h
      | ok existing =>
        simp only [howned, bind, Except.bind] at h
        split_ifs at h
        exact congrArg Except.ok (Except.ok.inj h)
  unfold assertOwnUserMessage at hown
  split at hown
  · cases hown
  · next existing hfound =>
    split_ifs at hown
    obtain rfl : existing = m := Except.ok.inj hown
    obtain ⟨hid, hgroup⟩ : existing.id = messageId ∧ existing.groupId = g := by
      simpa using List.find?_some hfound
    exact ⟨Table.find?_eq_some_iff.mpr ⟨List.mem_of_find?_eq_some hfound, hid⟩, hgroup⟩

theorem authorise_only {change : Change} :
    authorise (d.only g).messages g messageId userId change =
      authorise d.messages g messageId userId change := by
  cases change with
  | softDelete => exact assertOwnUserMessage_only
  | edit content =>
    unfold authorise
    rw [assertOwnUserMessage_only]

theorem updateMessage_of_find? {d : Records} {m : Message} {change : Change}
    (h : d.messages.find? messageId = some m) :
    d.updateMessage messageId change now =
      .ok (d.rewriteMessage m (Table.mem_of_find? h) change now,
        (d.rewriteMessage m (Table.mem_of_find? h) change now).select (change.apply now m)) := by
  unfold Records.updateMessage
  split
  · next hnone => exact absurd (h.symm.trans hnone) (by simp)
  · next m' hfound =>
    obtain rfl : m = m' := Option.some.inj (h.symm.trans hfound)
    rfl

theorem confined_changeMessage (g messageId userId : Uuid) (change : Change) (now : Instant) :
    Confined g [] fun d => d.changeMessage g messageId userId change now := by
  refine .of_after (fun d _ => ?_) fun d after a _ h => ?_
  · unfold Records.changeMessage
    rw [authorise_only]
    cases hauthorised : authorise d.messages g messageId userId change with
    | error e => rfl
    | ok m =>
      obtain ⟨hfound, hgroup⟩ := authorise_eq_ok hauthorised
      have hfound' : (d.only g).messages.find? messageId = some m := find?_messages_only hfound hgroup
      have hrewrite : (d.rewriteMessage m (Table.mem_of_find? hfound) change now).only g =
          (d.only g).rewriteMessage m (Table.mem_of_find? hfound') change now :=
        only_rewriteMessage hgroup _
      dsimp only
      rw [updateMessage_of_find? hfound, updateMessage_of_find? hfound',
        ← hrewrite, select_only (Table.mem_put_self _ _) ((Change.apply_groupId ..).trans hgroup)]
      rfl
  · unfold Records.changeMessage at h
    split at h
    · cases h
    · next m hauthorised =>
      obtain ⟨hfound, hgroup⟩ := authorise_eq_ok hauthorised
      rw [updateMessage_of_find? hfound] at h
      obtain ⟨rfl, -⟩ := Prod.mk.inj (Except.ok.inj h)
      refine ⟨fun k hne => only_rewriteMessage_of_ne (hgroup.trans_ne hne.symm),
        fun x huses => Or.inl ?_⟩
      cases huses with
      | group y hy hid => exact .group y hy hid
      | member r hr hid => exact .member r hr hid
      | message m' hm' hid =>
        rcases Table.mem_put.mp hm' with rfl | ⟨hm', -⟩
        · exact .message m (Table.mem_of_find? hfound) ((Change.apply_id ..).symm.trans hid)
        · exact .message m' hm' hid
      | reaction y hy hid => exact .reaction y hy hid

/-! ## Reactions -/

/-- How a toggle on a message that is there ends, under a new id. -/
theorem toggleReaction_cases {q : Toggle} {m : Message} (hm : m ∈ d.messages)
    (hid : m.id = q.messageId) (hgroup : m.groupId = q.groupId)
    (hfresh : d.reactions.find? id = none) (now : Instant) :
    ∃ after, d.toggleReaction q id now = .ok (after, reactionsOf after.reactions q.messageId) ∧
      (Marked d.reactions q.mark ∧ after = d.deleteReaction q ∨
        ∃ unmarked found, after = d.putReaction q id now unmarked found) := by
  have hfound : ∃ m ∈ d.messages.rows, m.id = q.messageId ∧ m.groupId = q.groupId :=
    ⟨m, hm, hid, hgroup⟩
  unfold Records.toggleReaction
  rw [dif_pos hfound]
  by_cases hmarked : Marked d.reactions q.mark
  · refine ⟨d.deleteReaction q, ?_, Or.inl ⟨hmarked, rfl⟩⟩
    simp only [dif_pos hmarked]
  · refine ⟨d.putReaction q id now hmarked ⟨m, hm, hid⟩, ?_, Or.inr ⟨hmarked, ⟨m, hm, hid⟩, rfl⟩⟩
    simp only [dif_neg hmarked, hfresh, Option.isSome_none, Bool.false_eq_true, if_false]

theorem confined_toggleReaction (q : Toggle) (hgroup : q.groupId = g) (id : Uuid) (now : Instant) :
    Confined g [id] fun d => d.toggleReaction q id now := by
  have hnew : ∀ {d : Records}, (∀ x ∈ [id], ¬d.Uses x) → d.reactions.find? id = none := fun hd =>
    Table.find?_eq_none_iff.mpr fun x hx hid =>
      hd id (List.mem_singleton_self id) (.reaction x hx hid)
  have hthrown : ∀ {d : Records},
      (¬∃ m ∈ d.messages.rows, m.id = q.messageId ∧ m.groupId = q.groupId) →
        d.toggleReaction q id now = .error (.notFound "Message not found") := fun h => dif_neg h
  refine .of_after (fun d hd => ?_) fun d after a hd h => ?_
  · by_cases hfound : ∃ m ∈ d.messages.rows, m.id = q.messageId ∧ m.groupId = q.groupId
    · obtain ⟨m, hm, hid, hm_group⟩ := hfound
      have hin : m.groupId = g := hm_group.trans hgroup
      have hmarked : Marked (d.only g).reactions q.mark ↔ Marked d.reactions q.mark :=
        marked_only hm hin hid.symm
      obtain ⟨after, htoggle, hafter⟩ := toggleReaction_cases hm hid hm_group (hnew hd) now
      obtain ⟨after', htoggle', hafter'⟩ := toggleReaction_cases (d := d.only g)
        (message_mem_only.mpr ⟨hm, hin⟩) hid hm_group (find?_reactions_only (hnew hd)) now
      have hsame : after' = after.only g := by
        rcases hafter with ⟨hmark, rfl⟩ | ⟨hmark, found, rfl⟩ <;>
          rcases hafter' with ⟨hmark', rfl⟩ | ⟨hmark', found', rfl⟩
        · exact only_deleteReaction.symm
        · exact absurd (hmarked.mpr hmark) hmark'
        · exact absurd (hmarked.mp hmark') hmark
        · exact (only_putReaction (hnew hd) hm hid hin hmark' found').symm
      have hmessage : m ∈ after.messages := by
        rcases hafter with ⟨-, rfl⟩ | ⟨hmark, found, rfl⟩ <;> exact hm
      have hshown : reactionsOf (after.only g).reactions q.messageId =
          reactionsOf after.reactions q.messageId := by
        have hselect := select_only hmessage hin
        rw [← hid]
        exact congrArg Selected.reactions hselect
      rw [htoggle, htoggle', hsame, hshown]
      rfl
    · rw [hthrown hfound, hthrown]
      · rfl
      · rintro ⟨m, hm, h⟩
        exact hfound ⟨m, (message_mem_only.mp hm).1, h⟩
  · by_cases hfound : ∃ m ∈ d.messages.rows, m.id = q.messageId ∧ m.groupId = q.groupId
    · obtain ⟨m, hm, hid, hm_group⟩ := hfound
      have hout : ∀ k, k ≠ g → m.groupId ≠ k := fun k hne =>
        (hm_group.trans hgroup).trans_ne hne.symm
      obtain ⟨after', htoggle, hafter⟩ := toggleReaction_cases hm hid hm_group (hnew hd) now
      rw [htoggle] at h
      obtain ⟨rfl, -⟩ := Prod.mk.inj (Except.ok.inj h)
      rcases hafter with ⟨-, rfl⟩ | ⟨hmark, found, rfl⟩
      · refine ⟨fun k hne => only_deleteReaction_of_ne hm hid (hout k hne), fun x huses => Or.inl ?_⟩
        cases huses with
        | group y hy hx => exact .group y hy hx
        | member r hr hx => exact .member r hr hx
        | message m hm hx => exact .message m hm hx
        | reaction y hy hx => exact .reaction y (Table.mem_filter.mp hy).1 hx
      · refine ⟨fun k hne => only_putReaction_of_ne (hnew hd) hm hid (hout k hne),
          fun x huses => ?_⟩
        cases huses with
        | group y hy hx => exact Or.inl (.group y hy hx)
        | member r hr hx => exact Or.inl (.member r hr hx)
        | message m hm hx => exact Or.inl (.message m hm hx)
        | reaction y hy hx =>
          rcases Table.mem_put.mp hy with rfl | ⟨hy, -⟩
          · exact Or.inr (List.mem_singleton.mpr hx.symm)
          · exact Or.inl (.reaction y hy hx)
    · rw [hthrown hfound] at h
      cases h

end Groups
end GroupChat

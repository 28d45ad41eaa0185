import GroupChat.Groups.Joining
import GroupChat.Groups.Transfer
import GroupChat.Messages.Page

/-!
# One group of the database

`Records.only` keeps of the database what belongs to one group: its row, its memberships, its
messages and the reactions to them.  This file says what the statements of the services make
of it.  The queries of a call on a group find in this part what they find in the whole
database, the writes to the group happen in it as they happen in the whole, and the writes to
another group do not reach it.

The last point is where ids matter.  An update or a delete names a row by id alone, which is
safe because a row has one id, and an insert under an id that is taken would find the row of
another group, which is why the ids it brings along have to be new.
-/

namespace GroupChat
namespace Groups

open Common Database Messages Messages.Reactions

variable {d after : Records} {g k id userId messageId : Uuid} {r : GroupMember} {m : Message}

/-! ## The part -/

theorem Records.ext_rows {d d' : Records} (htables : d.tables.rows = d'.tables.rows)
    (hmessages : d.messages.rows = d'.messages.rows)
    (hreactions : d.reactions.rows = d'.reactions.rows) : d = d' := by
  obtain ⟨tables, messages, reactions, _⟩ := d
  obtain ⟨tables', messages', reactions', _⟩ := d'
  obtain rfl : tables = tables' := Table.ext_rows htables
  obtain rfl : messages = messages' := Table.ext_rows hmessages
  obtain rfl : reactions = reactions' := Table.ext_rows hreactions
  rfl

theorem inGroup_group {x : Group} : (Row.group x).inGroup g = true ↔ x.id = g :=
  decide_eq_true_iff

theorem inGroup_member : (Row.member r).inGroup g = true ↔ r.groupId = g := decide_eq_true_iff

theorem reactsIn_iff {messages : MessageTable} {x : Reaction} :
    reactsIn messages g x = true ↔ ∃ m ∈ messages, m.id = x.messageId ∧ m.groupId = g := by
  rw [reactsIn, List.any_eq_true]
  simp only [decide_eq_true_eq]
  exact Iff.rfl

/-- What belongs to the group. -/
def Records.only (d : Records) (g : Uuid) : Records where
  tables := d.tables.filter (Row.inGroup g)
  messages := d.messages.filter fun m => m.groupId = g
  reactions := d.reactions.filter (reactsIn d.messages g)
  constraints := by
    have hmessage : ∀ {m}, m ∈ (d.messages.filter fun m => m.groupId = g) ↔
        m ∈ d.messages ∧ m.groupId = g := by
      intro m
      rw [Table.mem_filter, decide_eq_true_eq]
    refine ⟨fun r hr => ?_, fun m hm => ?_, fun x hx => ?_, fun r r' hr hr' => ?_,
      fun g₁ g₂ hg₁ hg₂ => ?_, fun x hx x' hx' => ?_⟩
    · obtain ⟨hr, hin⟩ := Table.mem_filter.mp hr
      obtain ⟨x, hx, hid⟩ := d.constraints.memberGroup r hr
      exact ⟨x, Table.mem_filter.mpr ⟨hx, inGroup_group.mpr (hid.trans (inGroup_member.mp hin))⟩,
        hid⟩
    · obtain ⟨hm, hin⟩ := hmessage.mp hm
      obtain ⟨x, hx, hid⟩ := d.constraints.messageGroup m hm
      exact ⟨x, Table.mem_filter.mpr ⟨hx, inGroup_group.mpr (hid.trans hin)⟩, hid⟩
    · obtain ⟨m, hm, hid, hin⟩ := reactsIn_iff.mp (Table.mem_filter.mp hx).2
      exact ⟨m, hmessage.mpr ⟨hm, hin⟩, hid⟩
    · exact d.constraints.memberUnique r r' (Table.mem_filter.mp hr).1 (Table.mem_filter.mp hr').1
    · exact d.constraints.nameUnique g₁ g₂ (Table.mem_filter.mp hg₁).1 (Table.mem_filter.mp hg₂).1
    · exact d.constraints.marksUnique x (Table.mem_filter.mp hx).1 x' (Table.mem_filter.mp hx').1

theorem member_mem_only : .member r ∈ (d.only g).tables ↔ .member r ∈ d.tables ∧ r.groupId = g :=
  Table.mem_filter.trans (and_congr_right fun _ => inGroup_member)

theorem message_mem_only : m ∈ (d.only g).messages ↔ m ∈ d.messages ∧ m.groupId = g :=
  Table.mem_filter.trans (and_congr_right fun _ => decide_eq_true_iff)

/-- A message is in one group. -/
theorem groupId_eq_of_id_eq {m' : Message} (hm : m ∈ d.messages) (hm' : m' ∈ d.messages)
    (hid : m.id = m'.id) : m.groupId = m'.groupId := by
  rw [Table.eq_of_key_eq hm hm' hid]

/-- A reaction is to a message of one group. -/
theorem reactsIn_eq_iff {x : Reaction} (hm : m ∈ d.messages) (hid : m.id = x.messageId) :
    reactsIn d.messages g x = true ↔ m.groupId = g := by
  rw [reactsIn_iff]
  constructor
  · rintro ⟨m', hm', hid', rfl⟩
    exact groupId_eq_of_id_eq hm hm' (hid.trans hid'.symm)
  · exact fun hgroup => ⟨m, hm, hid, hgroup⟩

/-! ## Queries -/

theorem membersOf_only : membersOf (d.only g).tables =
    (membersOf d.tables).filter fun r => r.groupId = g := by
  show (d.tables.rows.filter (Row.inGroup g)).filterMap Row.member? = _
  rw [membersOf, List.filter_filterMap, List.filterMap_filter]
  refine List.filterMap_congr fun row _ => ?_
  cases row with
  | group x => by_cases hx : x.id = g <;> simp [Row.inGroup, Row.member?, hx]
  | member r => by_cases hr : r.groupId = g <;> simp [Row.inGroup, Row.member?, hr, Option.filter]

/-- A query about the members of the group. -/
theorem filter_membersOf_only (p : GroupMember → Bool) (hp : ∀ r, p r = true → r.groupId = g) :
    (membersOf (d.only g).tables).filter p = (membersOf d.tables).filter p := by
  rw [membersOf_only, List.filter_filter]
  refine List.filter_congr fun r _ => ?_
  rw [Bool.and_eq_left_iff_imp]
  exact fun h => decide_eq_true (hp r h)

theorem find?_membersOf_only (p : GroupMember → Bool) (hp : ∀ r, p r = true → r.groupId = g) :
    (membersOf (d.only g).tables).find? p = (membersOf d.tables).find? p := by
  rw [← List.head?_filter, ← List.head?_filter, filter_membersOf_only p hp]

theorem membership_only : membership (d.only g).tables g userId = membership d.tables g userId :=
  find?_membersOf_only _ fun _ h => (of_decide_eq_true h).1

theorem successor_only : successor (d.only g).tables g userId = successor d.tables g userId := by
  rw [successor, successor, filter_membersOf_only _ fun _ h => (of_decide_eq_true h).1]

theorem groupById_only : groupById (d.only g).tables g = groupById d.tables g := by
  rw [groupById, groupById]
  refine congrArg (Option.bind · Row.group?) (Option.ext fun row => ?_)
  rw [Table.find?_eq_some_iff, Table.find?_eq_some_iff]
  refine and_congr_left fun hkey => Table.mem_filter.trans (and_iff_left ?_)
  cases row with
  | group x => exact inGroup_group.mpr (Key.group.inj hkey)
  | member r => cases hkey

theorem hasGroup_only : (d.only g).hasGroup g = d.hasGroup g := by
  rw [Records.hasGroup, Records.hasGroup, groupById_only]

/-- A query about the messages of the group. -/
theorem filter_messages_only (p : Message → Bool) (hp : ∀ m, p m = true → m.groupId = g) :
    (d.only g).messages.rows.filter p = d.messages.rows.filter p := by
  show (d.messages.rows.filter fun m => decide (m.groupId = g)).filter p = _
  rw [List.filter_filter]
  refine List.filter_congr fun m _ => ?_
  rw [Bool.and_eq_left_iff_imp]
  exact fun h => decide_eq_true (hp m h)

theorem candidates_only (position : Option Position) :
    candidates (d.only g).messages g position = candidates d.messages g position := by
  rw [candidates, candidates, filter_messages_only _ fun _ h => (of_decide_eq_true h).1]

theorem assertOwnUserMessage_only :
    assertOwnUserMessage (d.only g).messages g messageId userId =
      assertOwnUserMessage d.messages g messageId userId := by
  unfold assertOwnUserMessage
  rw [← List.head?_filter, ← List.head?_filter,
    filter_messages_only _ fun _ h => (of_decide_eq_true h).2]

/-- The reactions to a message of the group. -/
theorem filter_reactions_only (hm : m ∈ d.messages) (hgroup : m.groupId = g)
    (p : Reaction → Bool) (hp : ∀ x, p x = true → x.messageId = m.id) :
    (d.only g).reactions.rows.filter p = d.reactions.rows.filter p := by
  show (d.reactions.rows.filter (reactsIn d.messages g)).filter p = _
  rw [List.filter_filter]
  refine List.filter_congr fun x _ => ?_
  rw [Bool.and_eq_left_iff_imp]
  exact fun h => (reactsIn_eq_iff hm (hp x h).symm).mpr hgroup

theorem select_only (hm : m ∈ d.messages) (hgroup : m.groupId = g) :
    (d.only g).select m = d.select m := by
  rw [Records.select, Records.select, reactionsOf, reactionsOf,
    filter_reactions_only hm hgroup _ fun _ h => of_decide_eq_true h]

theorem marked_only {k : Mark} (hm : m ∈ d.messages) (hgroup : m.groupId = g) (hid : k.1 = m.id) :
    Marked (d.only g).reactions k ↔ Marked d.reactions k := by
  constructor
  · rintro ⟨x, hx, hmark⟩
    exact ⟨x, (List.mem_filter.mp hx).1, hmark⟩
  · rintro ⟨x, hx, hmark⟩
    refine ⟨x, List.mem_filter.mpr ⟨hx, ?_⟩, hmark⟩
    have hto : m.id = x.messageId := by
      rw [← hid, ← hmark]
      rfl
    exact (reactsIn_eq_iff hm hto).mpr hgroup

/-! ## Writes to memberships -/

theorem inGroup_update (u : MemberUpdate) (row : Row) :
    (row.update id u).inGroup g = row.inGroup g := by
  cases row with
  | group x => rfl
  | member r =>
    rw [Row.update]
    split_ifs
    · simp [Row.inGroup]
    · rfl

theorem only_updateMember (u : MemberUpdate) :
    (d.updateMember id u).only g = (d.only g).updateMember id u := by
  refine Records.ext_rows ?_ rfl rfl
  show (d.tables.rows.map (Row.update id u)).filter (Row.inGroup g) =
    (d.tables.rows.filter (Row.inGroup g)).map (Row.update id u)
  rw [List.filter_map]
  refine congrArg (List.map _) (List.filter_congr fun row _ => ?_)
  exact inGroup_update u row

theorem only_deleteMember : (d.deleteMember id).only g = (d.only g).deleteMember id := by
  refine Records.ext_rows ?_ rfl rfl
  show (d.tables.rows.filter _).filter _ = (d.tables.rows.filter _).filter _
  rw [List.filter_filter, List.filter_filter]
  exact List.filter_congr fun row _ => Bool.and_comm _ _

/-- The rows of other groups have other ids. -/
theorem id_ne_of_mem_only {r' : GroupMember} (hr : .member r ∈ d.tables) (hne : r.groupId ≠ g)
    (hr' : .member r' ∈ (d.only g).tables) : r'.id ≠ r.id := by
  obtain ⟨hmem, hgroup⟩ := member_mem_only.mp hr'
  rintro hid
  obtain rfl : r' = r := eq_of_member_mem hmem hr hid
  exact hne hgroup

theorem only_updateMember_of_ne (hr : .member r ∈ d.tables) (hne : r.groupId ≠ g)
    (u : MemberUpdate) : (d.updateMember r.id u).only g = d.only g := by
  rw [only_updateMember]
  refine Records.ext_rows ?_ rfl rfl
  show (d.only g).tables.rows.map (Row.update r.id u) = (d.only g).tables.rows
  refine (List.map_congr_left fun row hrow => ?_).trans (List.map_id _)
  cases row with
  | group x => rfl
  | member r' => exact if_neg (id_ne_of_mem_only hr hne hrow)

theorem only_deleteMember_of_ne (hr : .member r ∈ d.tables) (hne : r.groupId ≠ g) :
    (d.deleteMember r.id).only g = d.only g := by
  rw [only_deleteMember]
  refine Records.ext_rows ?_ rfl rfl
  refine List.filter_eq_self.mpr fun row hrow => decide_eq_true ?_
  cases row with
  | group x => simp
  | member r' => exact fun hkey => id_ne_of_mem_only hr hne hrow (Key.member.inj hkey)

/-! ## Deleting a group -/

theorem only_deleteGroup : (d.deleteGroup g).only g = (d.only g).deleteGroup g := by
  refine Records.ext_rows ?_ ?_ ?_
  · show (d.tables.rows.filter _).filter _ = (d.tables.rows.filter _).filter _
    rw [List.filter_filter, List.filter_filter]
    exact List.filter_congr fun row _ => Bool.and_comm _ _
  · show (d.messages.rows.filter _).filter _ = (d.messages.rows.filter _).filter _
    rw [List.filter_filter, List.filter_filter]
    exact List.filter_congr fun row _ => Bool.and_comm _ _
  · show (d.reactions.rows.filter _).filter (reactsIn (d.deleteGroup g).messages g) =
      (d.reactions.rows.filter _).filter fun x => !reactsIn (d.only g).messages g x
    rw [List.filter_filter, List.filter_filter]
    refine List.filter_congr fun x _ => Bool.eq_iff_iff.mpr ?_
    -- there is no message of the group any more, and all of the part are
    have hgone : reactsIn (d.deleteGroup g).messages g x = false := by
      rw [Bool.eq_false_iff, Ne, reactsIn_iff]
      rintro ⟨m, hm, -, hgroup⟩
      exact (message_mem_deleteGroup.mp hm).2 hgroup
    have hall : reactsIn (d.only g).messages g x = reactsIn d.messages g x := by
      refine Bool.eq_iff_iff.mpr ?_
      rw [reactsIn_iff, reactsIn_iff]
      refine exists_congr fun m => ⟨?_, ?_⟩
      · exact fun ⟨hm, h⟩ => ⟨(message_mem_only.mp hm).1, h⟩
      · exact fun ⟨hm, h⟩ => ⟨message_mem_only.mpr ⟨hm, h.2⟩, h⟩
    rw [hgone, hall]
    simp

theorem only_deleteGroup_of_ne (hne : k ≠ g) : (d.deleteGroup k).only g = d.only g := by
  refine Records.ext_rows ?_ ?_ ?_
  · show (d.tables.rows.filter _).filter _ = d.tables.rows.filter _
    rw [List.filter_filter]
    refine List.filter_congr fun row _ => ?_
    rw [Bool.and_eq_left_iff_imp]
    intro hin
    cases row with
    | group x => simpa [Row.inGroup, inGroup_group.mp hin] using hne.symm
    | member r => simpa [Row.inGroup, inGroup_member.mp hin] using hne.symm
  · show (d.messages.rows.filter _).filter _ = d.messages.rows.filter _
    rw [List.filter_filter]
    refine List.filter_congr fun m _ => ?_
    rw [Bool.and_eq_left_iff_imp]
    intro hin
    exact decide_eq_true ((of_decide_eq_true hin).trans_ne hne.symm)
  · show (d.reactions.rows.filter _).filter _ = d.reactions.rows.filter _
    rw [List.filter_filter]
    refine List.filter_congr fun x _ => Bool.eq_iff_iff.mpr ?_
    rw [Bool.and_eq_true, reactsIn_iff, reactsIn_iff, Bool.not_eq_true']
    constructor
    · rintro ⟨⟨m, hm, h⟩, -⟩
      exact ⟨m, (message_mem_deleteGroup.mp hm).1, h⟩
    · rintro ⟨m, hm, hid, hgroup⟩
      refine ⟨⟨m, message_mem_deleteGroup.mpr ⟨hm, hgroup.trans_ne hne.symm⟩, hid, hgroup⟩, ?_⟩
      rw [Bool.eq_false_iff, Ne, reactsIn_eq_iff hm hid, hgroup]
      exact hne.symm

/-! ## Writes to messages -/

/-- A message is put into the group. -/
theorem filter_put_message {t : MessageTable} (hgroup : m.groupId = g) :
    ((t.put m).filter fun m => m.groupId = g).rows =
      ((t.filter fun m => m.groupId = g).put m).rows := by
  show ((t.remove m.id).rows ++ [m]).filter _ = ((t.filter _).remove m.id).rows ++ [m]
  have hin : [m].filter (fun m => decide (m.groupId = g)) = [m] :=
    List.filter_cons_of_pos (decide_eq_true hgroup)
  rw [List.filter_append, hin]
  refine congrArg (· ++ [m]) ?_
  show (t.rows.filter _).filter _ = (t.rows.filter _).filter _
  rw [List.filter_filter, List.filter_filter]
  exact List.filter_congr fun row _ => Bool.and_comm _ _

/-- A message is put into another group, where its id is new or was before. -/
theorem filter_put_message_of_ne {t : MessageTable} (hgroup : m.groupId ≠ g)
    (hid : ∀ m' ∈ t, m'.id = m.id → m'.groupId ≠ g) :
    ((t.put m).filter fun m => m.groupId = g).rows = (t.filter fun m => m.groupId = g).rows := by
  show ((t.remove m.id).rows ++ [m]).filter _ = t.rows.filter _
  have hout : [m].filter (fun m => decide (m.groupId = g)) = [] :=
    List.filter_cons_of_neg fun h => hgroup (of_decide_eq_true h)
  rw [List.filter_append, hout, List.append_nil]
  show (t.rows.filter _).filter _ = t.rows.filter _
  rw [List.filter_filter]
  refine List.filter_congr fun m' hm' => ?_
  rw [Bool.and_eq_left_iff_imp]
  exact fun hin => decide_eq_true fun heq => hid m' hm' heq (of_decide_eq_true hin)

/-- The reactions of the group are the same as long as the messages they are to are. -/
theorem filter_reactsIn_congr {t t' : MessageTable} {rows : List Reaction}
    (h : ∀ x ∈ rows, ((∃ m ∈ t', m.id = x.messageId ∧ m.groupId = g) ↔
      ∃ m ∈ t, m.id = x.messageId ∧ m.groupId = g)) :
    rows.filter (reactsIn t' g) = rows.filter (reactsIn t g) := by
  refine List.filter_congr fun x hx => Bool.eq_iff_iff.mpr ?_
  rw [reactsIn_iff, reactsIn_iff]
  exact h x hx

section PutMessage

variable {fresh : d.messages.find? m.id = none} {group : d.hasGroup m.groupId = true}

/-- Nobody has reacted to a message that is not there yet. -/
theorem reactsIn_putMessage (fresh : d.messages.find? m.id = none) :
    d.reactions.rows.filter (reactsIn (d.messages.put m) g) =
      d.reactions.rows.filter (reactsIn d.messages g) := by
  refine filter_reactsIn_congr fun x hx => ?_
  obtain ⟨m', hm', hid⟩ := d.constraints.reactionMessage x hx
  have hne : ∀ m₀ : Message, m₀.id = x.messageId → m₀.id ≠ m.id := fun m₀ hid₀ heq =>
    Table.find?_eq_none_iff.mp fresh m' hm' (hid.trans (hid₀.symm.trans heq))
  exact exists_congr fun m₀ =>
    and_congr_left fun h => Table.mem_put_of_key_ne (hne m₀ h.1)

theorem only_putMessage (hgroup : m.groupId = g) (fresh' : (d.only g).messages.find? m.id = none)
    (group' : (d.only g).hasGroup m.groupId = true) :
    (d.putMessage m fresh group).only g = (d.only g).putMessage m fresh' group' :=
  Records.ext_rows rfl (filter_put_message hgroup) (reactsIn_putMessage fresh)

theorem only_putMessage_of_ne (hne : m.groupId ≠ g) :
    (d.putMessage m fresh group).only g = d.only g :=
  Records.ext_rows rfl
    (filter_put_message_of_ne hne fun m' hm' hid =>
      absurd hid (Table.find?_eq_none_iff.mp fresh m' hm'))
    (reactsIn_putMessage fresh)

end PutMessage

section RewriteMessage

variable {found : m ∈ d.messages} {change : Change} {now : Instant}

theorem reactsIn_rewriteMessage (found : m ∈ d.messages) :
    d.reactions.rows.filter (reactsIn (d.messages.put (change.apply now m)) g) =
      d.reactions.rows.filter (reactsIn d.messages g) := by
  refine filter_reactsIn_congr fun x _ => ?_
  constructor
  · rintro ⟨m', hm', hid, hgroup⟩
    rcases Table.mem_put.mp hm' with rfl | ⟨hm', -⟩
    · rw [Change.apply_id] at hid
      rw [Change.apply_groupId] at hgroup
      exact ⟨m, found, hid, hgroup⟩
    · exact ⟨m', hm', hid, hgroup⟩
  · rintro ⟨m', hm', hid, hgroup⟩
    by_cases hsame : m'.id = (change.apply now m).id
    · obtain rfl : m' = m := Table.eq_of_key_eq hm' found (hsame.trans (Change.apply_id ..))
      refine ⟨_, Table.mem_put_self _ _, ?_, ?_⟩
      · rwa [Change.apply_id]
      · rwa [Change.apply_groupId]
    · exact ⟨m', (Table.mem_put_of_key_ne hsame).mpr hm', hid, hgroup⟩

theorem only_rewriteMessage (hgroup : m.groupId = g) (found' : m ∈ (d.only g).messages) :
    (d.rewriteMessage m found change now).only g =
      (d.only g).rewriteMessage m found' change now :=
  Records.ext_rows rfl (filter_put_message ((Change.apply_groupId ..).trans hgroup))
    (reactsIn_rewriteMessage found)

theorem only_rewriteMessage_of_ne (hne : m.groupId ≠ g) :
    (d.rewriteMessage m found change now).only g = d.only g := by
  refine Records.ext_rows rfl (filter_put_message_of_ne ?_ fun m' hm' hid => ?_)
    (reactsIn_rewriteMessage found)
  · rwa [Change.apply_groupId]
  · rwa [groupId_eq_of_id_eq hm' found (hid.trans (Change.apply_id ..))]

end RewriteMessage

/-! ## Writes to reactions -/

section Toggles

variable {q : Toggle} {now : Instant}

theorem only_deleteReaction : (d.deleteReaction q).only g = (d.only g).deleteReaction q := by
  refine Records.ext_rows rfl rfl ?_
  show (d.reactions.rows.filter _).filter _ = (d.reactions.rows.filter _).filter _
  rw [List.filter_filter, List.filter_filter]
  exact List.filter_congr fun row _ => Bool.and_comm _ _

theorem only_deleteReaction_of_ne (hm : m ∈ d.messages) (hid : m.id = q.messageId)
    (hne : m.groupId ≠ g) : (d.deleteReaction q).only g = d.only g := by
  refine Records.ext_rows rfl rfl ?_
  show (d.reactions.rows.filter _).filter (reactsIn d.messages g) =
    d.reactions.rows.filter (reactsIn d.messages g)
  rw [List.filter_filter]
  refine List.filter_congr fun x _ => ?_
  rw [Bool.and_eq_left_iff_imp]
  refine fun hin => decide_eq_true fun hmark => hne ?_
  have hto : x.messageId = q.messageId := congrArg Prod.fst hmark
  exact (reactsIn_eq_iff hm (hid.trans hto.symm)).mp hin

variable {unmarked : ¬Marked d.reactions q.mark}
  {found : ∃ m ∈ d.messages.rows, m.id = q.messageId}

theorem find?_reactions_only (h : d.reactions.find? id = none) :
    (d.only g).reactions.find? id = none :=
  Table.find?_eq_none_iff.mpr fun x hx =>
    Table.find?_eq_none_iff.mp h x (Table.mem_filter.mp hx).1

theorem only_putReaction (hfresh : d.reactions.find? id = none) (hm : m ∈ d.messages)
    (hid : m.id = q.messageId) (hgroup : m.groupId = g)
    (unmarked' : ¬Marked (d.only g).reactions q.mark)
    (found' : ∃ m ∈ (d.only g).messages.rows, m.id = q.messageId) :
    (d.putReaction q id now unmarked found).only g =
      (d.only g).putReaction q id now unmarked' found' := by
  refine Records.ext_rows rfl rfl ?_
  show (d.reactions.put (q.toRow id now)).rows.filter (reactsIn d.messages g) =
    ((d.only g).reactions.put (q.toRow id now)).rows
  have hin : reactsIn d.messages g (q.toRow id now) = true := (reactsIn_eq_iff hm hid).mpr hgroup
  rw [Table.rows_put_of_find?_eq_none (r := q.toRow id now) hfresh,
    Table.rows_put_of_find?_eq_none (r := q.toRow id now) (find?_reactions_only hfresh), List.filter_append,
    List.filter_cons_of_pos hin]
  rfl

theorem only_putReaction_of_ne (hfresh : d.reactions.find? id = none) (hm : m ∈ d.messages)
    (hid : m.id = q.messageId) (hne : m.groupId ≠ g) :
    (d.putReaction q id now unmarked found).only g = d.only g := by
  refine Records.ext_rows rfl rfl ?_
  show (d.reactions.put (q.toRow id now)).rows.filter (reactsIn d.messages g) =
    d.reactions.rows.filter (reactsIn d.messages g)
  have hout : ¬reactsIn d.messages g (q.toRow id now) = true := fun h =>
    hne ((reactsIn_eq_iff hm hid).mp h)
  rw [Table.rows_put_of_find?_eq_none (r := q.toRow id now) hfresh, List.filter_append,
    List.filter_cons_of_neg hout, List.filter_nil, List.append_nil]

end Toggles

/-! ## Inserts of rows -/

section Inserts

variable {row : Row} {d' after' : Records}

theorem find?_tables_only {key : Key} (h : d.tables.find? key = none) :
    (d.only g).tables.find? key = none :=
  Table.find?_eq_none_iff.mpr fun row hrow =>
    Table.find?_eq_none_iff.mp h row (Table.mem_filter.mp hrow).1

theorem Added.unique (h : Added d row after) (h' : Added d row after') : after' = after :=
  Records.ext_rows (h'.rows.trans h.rows.symm)
    (congrArg Table.rows (h'.messages.trans h.messages.symm))
    (congrArg Table.rows (h'.reactions.trans h.reactions.symm))

theorem Added.only_messages (h : Added d row after) :
    (after.only g).messages = (d.only g).messages ∧ (after.only g).reactions = (d.only g).reactions := by
  constructor
  · show after.messages.filter _ = d.messages.filter _
    rw [h.messages]
  · show after.reactions.filter (reactsIn after.messages g) = d.reactions.filter (reactsIn d.messages g)
    rw [h.reactions, h.messages]

theorem Added.only (h : Added d row after) (hin : row.inGroup g = true) :
    Added (d.only g) row (after.only g) where
  rows := by
    show after.tables.rows.filter (Row.inGroup g) = d.tables.rows.filter (Row.inGroup g) ++ [row]
    rw [h.rows, List.filter_append, List.filter_cons_of_pos hin, List.filter_nil]
  messages := h.only_messages.1
  reactions := h.only_messages.2

theorem Added.only_of_not_inGroup (h : Added d row after) (hout : ¬row.inGroup g = true) :
    after.only g = d.only g := by
  refine Records.ext_rows ?_ (congrArg Table.rows h.only_messages.1)
    (congrArg Table.rows h.only_messages.2)
  show after.tables.rows.filter (Row.inGroup g) = d.tables.rows.filter (Row.inGroup g)
  rw [h.rows, List.filter_append, List.filter_cons_of_neg hout, List.filter_nil, List.append_nil]

theorem createMember_only (hgroup : r.groupId = g) (hthere : d.hasGroup g = true)
    (hfresh : d.tables.find? (.member r.id) = none) :
    (d.only g).createMember r = (d.createMember r).map fun after => after.only g := by
  have hmember : (∃ me, IsMembership (d.only g) r.groupId r.userId me) ↔
      ∃ me, IsMembership d r.groupId r.userId me := by
    refine exists_congr fun me => ⟨fun h => ?_, fun h => ?_⟩
    · exact ⟨(member_mem_only.mp h.mem).1, h.groupId_eq, h.userId_eq⟩
    · exact ⟨member_mem_only.mpr ⟨h.mem, h.groupId_eq.trans hgroup⟩, h.groupId_eq, h.userId_eq⟩
  have hcases := createMember_cases hfresh (hgroup ▸ hthere)
  have hcases' := createMember_cases (find?_tables_only (g := g) hfresh)
    (by rw [hgroup, hasGroup_only, hthere])
  rw [hmember] at hcases'
  rcases hcases with ⟨hme, hthrown⟩ | ⟨hstranger, after, hinserted, hadded⟩ <;>
    rcases hcases' with ⟨hme', hthrown'⟩ | ⟨hstranger', after', hinserted', hadded'⟩
  · rw [hthrown, hthrown']
    rfl
  · exact absurd hme hstranger'
  · exact absurd hme' hstranger
  · rw [hinserted, hinserted']
    exact congrArg Except.ok ((hadded.only (inGroup_member.mpr hgroup)).unique hadded')

end Inserts

end Groups
end GroupChat

import GroupChat.Messages.Service
import Mathlib.Data.List.Sort

/-!
# The message queries of the summary pipeline

The pipeline reads and writes messages through three statements of its own: does
the group have a summary since a moment, which user messages does the window
hold, and insert a summary.  Everything else that happens to the table comes
from the interactive service.

The two share the table and not their rows.  `mem_iff_of_step` is the frame: a
row that is not a user message is neither made, changed nor lost by the
interactive service.  It rests on `UserCalls`, since an update goes by id alone
and only the query before it has looked at the type.
-/

namespace GroupChat
namespace Messages

open Database

/-! ## Queries -/

/-- Has a summary been posted in the group since this moment? -/
def hasSummarySince (rows : MessageTable) (groupId : Uuid) (since : ℤ) : Bool :=
  rows.rows.any fun m => m.groupId = groupId ∧ m.type = .aiSummary ∧ since ≤ m.createdAt.val

/-- The user messages of the window, oldest first. -/
def findForSummary (rows : MessageTable) (groupId : Uuid) (since : ℤ) : List Message :=
  (rows.rows.filter fun m =>
    m.groupId = groupId ∧ m.type = .user ∧ since ≤ m.createdAt.val ∧
      m.deletedAt = none).insertionSort fun m m' => m.createdAt ≤ m'.createdAt

/-- The row `persistAiSummary` inserts: no sender, and no event. -/
def persistAiSummary (groupId : Uuid) (content : String) (id : Uuid) (now : Instant) : Message :=
  (⟨groupId, none, content, .aiSummary, none⟩ : NewMessage).toRow id now

theorem hasSummarySince_iff {rows : MessageTable} {groupId : Uuid} {since : ℤ} :
    hasSummarySince rows groupId since = true ↔
      ∃ m ∈ rows, m.groupId = groupId ∧ m.type = .aiSummary ∧ since ≤ m.createdAt.val := by
  rw [hasSummarySince, List.any_eq_true]
  constructor
  · rintro ⟨m, hm, h⟩
    exact ⟨m, hm, of_decide_eq_true h⟩
  · rintro ⟨m, hm, h⟩
    exact ⟨m, hm, decide_eq_true h⟩

/-- A summary since a later moment is one since an earlier one. -/
theorem hasSummarySince_of_le {rows : MessageTable} {groupId : Uuid} {since since' : ℤ}
    (hle : since ≤ since') (h : hasSummarySince rows groupId since' = true) :
    hasSummarySince rows groupId since = true := by
  obtain ⟨m, hm, hg, htype, hsince⟩ := hasSummarySince_iff.mp h
  exact hasSummarySince_iff.mpr ⟨m, hm, hg, htype, hle.trans hsince⟩

theorem mem_findForSummary {rows : MessageTable} {groupId : Uuid} {since : ℤ} {m : Message} :
    m ∈ findForSummary rows groupId since ↔
      m ∈ rows ∧ m.groupId = groupId ∧ m.type = .user ∧ since ≤ m.createdAt.val ∧
        m.deletedAt = none := by
  rw [findForSummary, List.mem_insertionSort, List.mem_filter, decide_eq_true_eq]
  exact Iff.rfl

/-! ## The interactive service keeps to user messages -/

/-- Inserts are of user messages, and updates are of rows that a query has found to
be user messages. -/
structure UserCalls (s : State) : Prop where
  persisting : ∀ c data, s.calls c = .persisting data → data.type = .user
  updating : ∀ c id change, s.calls c = .updating id change →
    ∃ m ∈ s.rows, m.id = id ∧ m.type = .user

theorem userCalls_start (rows : MessageTable) : UserCalls (start rows) where
  persisting c data h := absurd h (by simp [start])
  updating c id change h := absurd h (by simp [start])

/-- A row that is not a user message is never the one an update overwrites. -/
theorem UserCalls.type_of_overwrites {s : State} {a : Action} {change : Change} {now : Instant}
    {m : Message} (hs : UserCalls s) (h : Overwrites s a change now m) : m.type = .user := by
  obtain ⟨c, id, messageId, -, hpc, hm⟩ := h
  obtain ⟨m', hm', hid, htype⟩ := hs.updating c messageId change hpc
  have hsame : m = m' :=
    Table.eq_of_key_eq (Table.mem_of_find? hm) hm' ((Table.key_of_find? hm).trans hid.symm)
  rw [hsame, htype]

theorem Change.apply_type (change : Change) (now : Instant) (m : Message) :
    (change.apply now m).type = m.type := by
  cases change <;> rfl

/-- **Frame of the interactive service.**  It leaves every row alone that is not a
user message. -/
theorem mem_iff_of_step {s t : State} {a : Action} {m : Message} (hs : UserCalls s)
    (h : step s a = some t) (hm : m.type ≠ .user) : m ∈ t.rows ↔ m ∈ s.rows := by
  rcases rows_of_step h with hrows | ⟨x, hins, hrows⟩ | ⟨change, now, x, hover, hrows⟩
  · rw [hrows]
  · have hx : x.type = .user := by
      obtain ⟨c, id, now, data, -, hpc, rfl, -⟩ := hins
      exact hs.persisting c data hpc
    rw [hrows, Table.mem_put]
    constructor
    · rintro (rfl | ⟨hmem, -⟩)
      · exact absurd hx hm
      · exact hmem
    · intro hmem
      exact Or.inr ⟨hmem, Table.find?_eq_none_iff.mp hins.find?_eq_none m hmem⟩
  · have hx : x.type = .user := hs.type_of_overwrites hover
    have hxs : x ∈ s.rows := by
      obtain ⟨_, _, _, -, -, hfind⟩ := hover
      exact Table.mem_of_find? hfind
    rw [hrows, Table.mem_put]
    constructor
    · rintro (rfl | ⟨hmem, -⟩)
      · rw [Change.apply_type] at hm
        exact absurd hx hm
      · exact hmem
    · intro hmem
      refine Or.inr ⟨hmem, fun hid => hm ?_⟩
      rw [Change.apply_id] at hid
      rw [Table.eq_of_key_eq hmem hxs hid, hx]

theorem hasSummarySince_of_step {s t : State} {a : Action} (hs : UserCalls s)
    (h : step s a = some t) (groupId : Uuid) (since : ℤ) :
    hasSummarySince t.rows groupId since = hasSummarySince s.rows groupId since := by
  rw [Bool.eq_iff_iff, hasSummarySince_iff, hasSummarySince_iff]
  have hframe : ∀ m : Message, m.type = .aiSummary → (m ∈ t.rows ↔ m ∈ s.rows) := by
    intro m hm
    exact mem_iff_of_step hs h (by rw [hm]; decide)
  constructor
  · rintro ⟨m, hmem, hg, htype, hsince⟩
    exact ⟨m, (hframe m htype).mp hmem, hg, htype, hsince⟩
  · rintro ⟨m, hmem, hg, htype, hsince⟩
    exact ⟨m, (hframe m htype).mpr hmem, hg, htype, hsince⟩

/-- The message of a call is a user message of its caller, in its group. -/
structure Message.OwnedBy (m : Message) (groupId messageId userId : Uuid) : Prop where
  id_eq : m.id = messageId
  groupId_eq : m.groupId = groupId
  senderId_eq : m.senderId = some userId
  type_eq : m.type = .user

theorem assertOwnUserMessage_eq_ok {rows : MessageTable} {groupId messageId userId : Uuid}
    {m : Message} (h : assertOwnUserMessage rows groupId messageId userId = .ok m) :
    m ∈ rows ∧ m.OwnedBy groupId messageId userId := by
  unfold assertOwnUserMessage at h
  split at h
  · exact absurd h (by simp)
  · next existing hfind =>
    have hkey : existing.id = messageId ∧ existing.groupId = groupId := by
      simpa using List.find?_some hfind
    split at h
    · exact absurd h (by simp)
    · next hown =>
      obtain rfl : existing = m := Except.ok.inj h
      rw [not_or, not_not, not_not] at hown
      exact ⟨List.mem_of_find?_eq_some hfind, hkey.1, hkey.2, hown.1, hown.2⟩

/-- The query before an update has found a user message of the caller. -/
theorem authorise_eq_ok {rows : MessageTable} {groupId messageId userId : Uuid} {change : Change}
    {m : Message} (h : authorise rows groupId messageId userId change = .ok m) :
    m ∈ rows ∧ m.OwnedBy groupId messageId userId := by
  cases change with
  | softDelete => exact assertOwnUserMessage_eq_ok h
  | edit content =>
    unfold authorise at h
    cases hown : assertOwnUserMessage rows groupId messageId userId with
    | error e => exact absurd h (by simp [hown, bind, Except.bind])
    | ok existing =>
      simp only [hown, bind, Except.bind] at h
      split at h
      · exact absurd h (by simp)
      · obtain rfl : existing = m := Except.ok.inj h
        exact assertOwnUserMessage_eq_ok hown

/-- What a call has become after its step: an insert it prepares is of a user message,
and an update it prepares is of a user message it has just read. -/
theorem calls_of_step {s t : State} {a : Action} (h : step s a = some t) :
    ∃ c pc, t.calls = Function.update s.calls c pc ∧
      (∀ data, pc = .persisting data → data.type = .user) ∧
      ∀ id change, pc = .updating id change → ∃ m ∈ s.rows, m.id = id ∧ m.type = .user := by
  cases moved_of_step h with
  | @requested c r hpc =>
    refine ⟨c, r.start, rfl, fun data hdata => ?_, fun id change hchange => ?_⟩
    · cases r with
      | create => cases hdata; rfl
      | createWithAttachment => cases hdata; rfl
      | edit => cases hdata
      | softDelete => cases hdata
    · cases r <;> cases hchange
  | authorised hpc hm =>
    refine ⟨_, _, rfl, by simp, fun id' change' hchange => ?_⟩
    cases hchange
    obtain ⟨hrow, howned⟩ := authorise_eq_ok hm
    exact ⟨_, hrow, howned.id_eq, howned.type_eq⟩
  | inserted | collided | refused | updated | vanished | emitted | faulted =>
    exact ⟨_, _, rfl, by simp, by simp⟩

/-- No step loses a user message, or makes it something else. -/
theorem exists_user_of_step {s t : State} {a : Action} {m : Message} (h : step s a = some t)
    (hm : m ∈ s.rows) (htype : m.type = .user) : ∃ m' ∈ t.rows, m'.id = m.id ∧ m'.type = .user := by
  rcases rows_of_step h with hrows | ⟨x, hins, hrows⟩ | ⟨change, now, x, hover, hrows⟩
  · rw [hrows]
    exact ⟨m, hm, rfl, htype⟩
  · have hne : m.id ≠ x.id := Table.find?_eq_none_iff.mp hins.find?_eq_none m hm
    rw [hrows]
    exact ⟨m, (Table.mem_put_of_key_ne hne).mpr hm, rfl, htype⟩
  · rw [hrows]
    obtain ⟨_, _, _, -, -, hfind⟩ := hover
    by_cases hid : m.id = x.id
    · obtain rfl : m = x := Table.eq_of_key_eq hm (Table.mem_of_find? hfind) hid
      refine ⟨change.apply now m, Table.mem_put_self _ _, change.apply_id now m, ?_⟩
      rw [Change.apply_type, htype]
    · refine ⟨m, (Table.mem_put_of_key_ne ?_).mpr hm, rfl, htype⟩
      rw [Change.apply_id]
      exact hid

/-- A row after a step is a new one, or was there before under the same author, group and
time; and a row that is not deleted was not deleted before. -/
theorem prev_of_step {s t : State} {a : Action} {m : Message} (h : step s a = some t)
    (hm : m ∈ t.rows) :
    Inserts s a m ∨ ∃ m' ∈ s.rows, m'.id = m.id ∧ m'.groupId = m.groupId ∧ m'.type = m.type ∧
      m'.createdAt = m.createdAt ∧ (m.deletedAt = none → m'.deletedAt = none) := by
  rcases rows_of_step h with hrows | ⟨x, hins, hrows⟩ | ⟨change, now, x, hover, hrows⟩
  · rw [hrows] at hm
    exact Or.inr ⟨m, hm, rfl, rfl, rfl, rfl, id⟩
  · rw [hrows, Table.mem_put] at hm
    rcases hm with rfl | ⟨hm, -⟩
    · exact Or.inl hins
    · exact Or.inr ⟨m, hm, rfl, rfl, rfl, rfl, id⟩
  · obtain ⟨_, _, _, -, -, hfind⟩ := hover
    rw [hrows, Table.mem_put] at hm
    rcases hm with rfl | ⟨hm, -⟩
    · refine Or.inr ⟨x, Table.mem_of_find? hfind, ?_⟩
      cases change with
      | edit content => exact ⟨rfl, rfl, rfl, rfl, id⟩
      | softDelete => exact ⟨rfl, rfl, rfl, rfl, fun hdel => absurd hdel (by simp [Change.apply])⟩
    · exact Or.inr ⟨m, hm, rfl, rfl, rfl, rfl, id⟩

/-- **The calls keep to user messages**, whatever they do. -/
theorem userCalls_of_step {s t : State} {a : Action} (hs : UserCalls s) (h : step s a = some t) :
    UserCalls t := by
  obtain ⟨c, pc, hcalls, hpers, hupd⟩ := calls_of_step h
  refine ⟨?_, ?_⟩
  · intro c' data hpc
    rw [hcalls] at hpc
    by_cases hc : c' = c
    · subst hc
      rw [Function.update_self] at hpc
      exact hpers data hpc
    · rw [Function.update_of_ne hc] at hpc
      exact hs.persisting c' data hpc
  · intro c' id change hpc
    have hold : ∃ m ∈ s.rows, m.id = id ∧ m.type = .user := by
      rw [hcalls] at hpc
      by_cases hc : c' = c
      · subst hc
        rw [Function.update_self] at hpc
        exact hupd id change hpc
      · rw [Function.update_of_ne hc] at hpc
        exact hs.updating c' id change hpc
    obtain ⟨m, hm, hid, htype⟩ := hold
    obtain ⟨m', hm', hid', htype'⟩ := exists_user_of_step h hm htype
    exact ⟨m', hm', hid'.trans hid, htype'⟩

/-! ## A summary is posted -/

/-- The table after `persistAiSummary`. -/
def State.post (s : State) (m : Message) : State := { s with rows := s.rows.put m }

theorem UserCalls.post {s : State} {m : Message} (hs : UserCalls s)
    (hfree : s.rows.find? m.id = none) : UserCalls (s.post m) := by
  refine ⟨hs.persisting, fun c id change hpc => ?_⟩
  obtain ⟨x, hx, hid, htype⟩ := hs.updating c id change hpc
  have hne : x.id ≠ m.id := Table.find?_eq_none_iff.mp hfree x hx
  exact ⟨x, (Table.mem_put_of_key_ne hne).mpr hx, hid, htype⟩

/-- The summaries after one has been posted: those of before, and the new one. -/
theorem hasSummarySince_post {s : State} {groupId id : Uuid} {content : String} {now : Instant}
    (hfree : s.rows.find? id = none) (g : Uuid) (since : ℤ) :
    hasSummarySince (s.post (persistAiSummary groupId content id now)).rows g since = true ↔
      (g = groupId ∧ since ≤ now.val) ∨ hasSummarySince s.rows g since = true := by
  rw [hasSummarySince_iff, hasSummarySince_iff]
  constructor
  · rintro ⟨m, hm, hg, htype, hsince⟩
    rcases Table.mem_put.mp hm with rfl | ⟨hm, -⟩
    · exact Or.inl ⟨hg.symm, hsince⟩
    · exact Or.inr ⟨m, hm, hg, htype, hsince⟩
  · rintro (⟨rfl, hsince⟩ | ⟨m, hm, hg, htype, hsince⟩)
    · exact ⟨_, Table.mem_put_self _ _, rfl, rfl, hsince⟩
    · have hne : m.id ≠ id := Table.find?_eq_none_iff.mp hfree m hm
      exact ⟨m, (Table.mem_put_of_key_ne hne).mpr hm, hg, htype, hsince⟩

end Messages
end GroupChat

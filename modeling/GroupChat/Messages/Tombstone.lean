import GroupChat.Messages.Service

/-!
# Tombstones

A deletion blanks the text of a message and keeps the row, and `edit` refuses a
row that is already deleted so that no edit brings the text back.  The refusal
reads the row in one statement and the update writes it, by id alone, in another.

What survives every interleaving is that a tombstone stays a tombstone
(`deletedAt_isSome_of_step`): no statement clears `deletedAt`.  What does not is
that it stays empty.  `tombstonesStayEmpty_iff` says exactly when it does: in
the runs each of whose edit updates still finds its row live, or writes the empty
text itself.  `resurrectingRun` is a run that fails the condition.
-/

namespace GroupChat
namespace Messages

open Database Transition

/-! ## The property -/

/-- Every tombstone is empty. -/
def TombstonesEmpty (rows : MessageTable) : Prop :=
  ∀ m ∈ rows, m.deletedAt.isSome → m.content = ""

/-- Along the run, every tombstone is empty when it is seen and the row keeps the
empty text from there on. -/
def TombstonesStayEmpty (s : State) (acts : List Action) : Prop :=
  ∀ as bs u, acts = as ++ bs → exec step s as = some u → ∀ m ∈ u.rows, m.deletedAt.isSome →
    m.content = "" ∧
      AllStates step (fun t => ∃ m' ∈ t.rows, m'.id = m.id ∧ m'.content = "") u bs

/-- The update of an edit still finds its row live, or writes the empty text. -/
def EditFindsLiveRow (s : State) (a : Action) : Prop :=
  ∀ content now m, Overwrites s a (.edit content) now m → m.deletedAt.isSome → content = ""

/-! ## One step -/

/-- **A tombstone stays a tombstone.**  No statement clears `deletedAt`, and none
removes a row. -/
theorem deletedAt_isSome_of_step {s t : State} {a : Action} {m : Message}
    (h : step s a = some t) (hm : m ∈ s.rows) (hdel : m.deletedAt.isSome) :
    ∃ m' ∈ t.rows, m'.id = m.id ∧ m'.deletedAt.isSome := by
  rcases rows_of_step h with hrows | ⟨x, hins, hrows⟩ | ⟨change, now, x, hover, hrows⟩
  · rw [hrows]
    exact ⟨m, hm, rfl, hdel⟩
  · have hne : m.id ≠ x.id := Table.find?_eq_none_iff.mp hins.find?_eq_none m hm
    rw [hrows]
    exact ⟨m, (Table.mem_put_of_key_ne hne).mpr hm, rfl, hdel⟩
  · rw [hrows]
    obtain ⟨_, _, _, -, -, hfind⟩ := hover
    by_cases hid : m.id = x.id
    · have hmx : m = x := Table.eq_of_key_eq hm (Table.mem_of_find? hfind) hid
      subst hmx
      refine ⟨change.apply now m, Table.mem_put_self _ _, change.apply_id now m, ?_⟩
      cases change with
      | edit content => exact hdel
      | softDelete => rfl
    · refine ⟨m, (Table.mem_put_of_key_ne ?_).mpr hm, rfl, hdel⟩
      rw [Change.apply_id]
      exact hid

/-- **The exact step condition.**  From a state with empty tombstones, a step
keeps them empty exactly if the edit update it may be finds its row live or
writes the empty text. -/
theorem tombstonesEmpty_step_iff {s t : State} {a : Action} (hs : TombstonesEmpty s.rows)
    (h : step s a = some t) : TombstonesEmpty t.rows ↔ EditFindsLiveRow s a := by
  constructor
  · intro ht content now m hover hdel
    have hrows : t.rows = s.rows.put ((Change.edit content).apply now m) :=
      hover.rows_of_step h
    refine ht ((Change.edit content).apply now m) ?_ hdel
    rw [hrows]
    exact Table.mem_put_self _ _
  · intro hlive m hm hdel
    rcases rows_of_step h with hrows | ⟨x, hins, hrows⟩ | ⟨change, now, x, hover, hrows⟩
    · rw [hrows] at hm
      exact hs m hm hdel
    · rw [hrows, Table.mem_put] at hm
      rcases hm with rfl | ⟨hm, -⟩
      · rw [hins.deletedAt_eq_none] at hdel
        exact absurd hdel (by simp)
      · exact hs m hm hdel
    · rw [hrows, Table.mem_put] at hm
      rcases hm with rfl | ⟨hm, -⟩
      · cases change with
        | edit content => exact hlive content now x hover hdel
        | softDelete => rfl
      · exact hs m hm hdel

/-! ## Whole runs -/

/-- While all tombstones are empty, one that exists keeps its empty text. -/
theorem keeps_empty_of_allStates {u : State} {bs : List Action} {m : Message}
    (h : AllStates step (fun t => TombstonesEmpty t.rows) u bs)
    (hm : ∃ m' ∈ u.rows, m'.id = m.id ∧ m'.deletedAt.isSome) :
    AllStates step (fun t => ∃ m' ∈ t.rows, m'.id = m.id ∧ m'.content = "") u bs := by
  have hhead : ∃ m' ∈ u.rows, m'.id = m.id ∧ m'.content = "" := by
    obtain ⟨m', hmem, hid, hdel⟩ := hm
    exact ⟨m', hmem, hid, h.head m' hmem hdel⟩
  induction bs generalizing u with
  | nil => exact hhead
  | cons b bs ih =>
    refine ⟨hhead, fun t hstep => ?_⟩
    have hnext : ∃ m' ∈ t.rows, m'.id = m.id ∧ m'.deletedAt.isSome := by
      obtain ⟨m', hmem, hid, hdel⟩ := hm
      obtain ⟨m'', hmem', hid', hdel'⟩ := deletedAt_isSome_of_step hstep hmem hdel
      exact ⟨m'', hmem', hid'.trans hid, hdel'⟩
    have htail : AllStates step (fun t => TombstonesEmpty t.rows) t bs := h.2 t hstep
    obtain ⟨m', hmem, hid, hdel⟩ := hnext
    exact ih htail ⟨m', hmem, hid, hdel⟩ ⟨m', hmem, hid, htail.head m' hmem hdel⟩

/-- That tombstones stay empty is a property of the states a run visits. -/
theorem tombstonesStayEmpty_iff_allStates (s : State) (acts : List Action) :
    TombstonesStayEmpty s acts ↔ AllStates step (fun t => TombstonesEmpty t.rows) s acts := by
  constructor
  · intro h
    refine allStates_of_prefixes fun as bs u hacts hu m hm hdel => ?_
    exact (h as bs u hacts hu m hm hdel).1
  · intro h as bs u hacts hu m hm hdel
    rw [hacts] at h
    have hrest : AllStates step (fun t => TombstonesEmpty t.rows) u bs := h.suffix hu
    exact ⟨hrest.head m hm hdel, keeps_empty_of_allStates hrest ⟨m, hm, rfl, hdel⟩⟩

/-- **When tombstones stay empty.**  Along a run from a table with empty
tombstones they stay empty exactly if every edit update of the run finds its row
live, or writes the empty text. -/
theorem tombstonesStayEmpty_iff (rows : MessageTable) (hrows : TombstonesEmpty rows)
    (acts : List Action) :
    TombstonesStayEmpty (start rows) acts ↔
      AllSteps step EditFindsLiveRow (start rows) acts := by
  rw [tombstonesStayEmpty_iff_allStates]
  exact allStates_iff_allSteps (I := fun _ => True) (fun _ _ _ _ _ => trivial)
    (fun _ _ _ _ hs h => tombstonesEmpty_step_iff hs h) trivial hrows acts

/-! ## A run that brings deleted text back -/

/-- One author's message; an edit and a deletion of it both pass their check, and
the update of the edit comes last. -/
def resurrectingRun : List Action :=
  let t : Instant := epoch
  [ .request 0 (.create 1 2 "secret"), .statement 0 3 t, .emit 0,
    .request 1 (.edit 1 3 2 "secret, edited"), .statement 1 0 t,
    .request 2 (.softDelete 1 3 2), .statement 2 0 t, .statement 2 0 t,
    .statement 1 0 t ]

/-- The condition is read off a concrete run. -/
theorem tombstonesStayEmpty_resurrectingRun_iff :
    TombstonesStayEmpty (start Table.empty) resurrectingRun ↔
      AllSteps step EditFindsLiveRow (start Table.empty) resurrectingRun :=
  tombstonesStayEmpty_iff Table.empty (fun m hm => absurd hm (Table.not_mem_empty m))
    resurrectingRun

/-- The text of the tombstones in a table. -/
def tombstoneTexts (rows : MessageTable) : List String :=
  (rows.rows.filter fun m => m.deletedAt.isSome).map Message.content

theorem tombstoneTexts_resurrectingRun :
    (exec step (start Table.empty) resurrectingRun).map (fun u => tombstoneTexts u.rows) =
      some ["secret, edited"] := by
  decide

/-- **Tombstones do not always stay empty.** -/
theorem not_tombstonesStayEmpty_resurrectingRun :
    ¬ TombstonesStayEmpty (start Table.empty) resurrectingRun := by
  intro h
  obtain ⟨u, hu, htexts⟩ := Option.map_eq_some_iff.mp tombstoneTexts_resurrectingRun
  have hmem : "secret, edited" ∈ tombstoneTexts u.rows := by
    rw [htexts]
    exact List.mem_singleton.mpr rfl
  obtain ⟨m, hm, hcontent⟩ := List.mem_map.mp hmem
  obtain ⟨hm, hdel⟩ := List.mem_filter.mp hm
  have hempty : m.content = "" :=
    (h resurrectingRun [] u (List.append_nil _).symm hu m hm hdel).1
  rw [hcontent] at hempty
  exact absurd hempty (by decide)

end Messages
end GroupChat

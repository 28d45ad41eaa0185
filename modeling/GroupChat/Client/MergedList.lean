import GroupChat.Client.GroupMessages
import GroupChat.Messages.Walk
import GroupChat.Text.PrintedOrder

/-!
# The merged list

`useGroupMessages` sorts what is cached by comparing texts, the times as they are printed and
then the ids, and the server sorts by comparing the values in its columns.  Here the list is
the one the browser computes, with `localeCompare` as it is given, and
`mergedMessages_isCanonical` says that it is determined by what is cached: of each id one
copy, in the order of the history reversed.

Of `localeCompare` it is assumed that it orders printed times and printed ids by their code
units (`AgreesOn`), and the times have to be printed in the fixed format.
-/

namespace GroupChat
namespace Client

open Common Database Messages Text
open Messages.Broadcasts (Snapshot)

/-! ## The comparison of texts -/

/-- On some texts a comparison is the one of code units. -/
structure AgreesOn (localeCompare : String → String → ℤ) (texts : Set String) : Prop where
  neg_iff : ∀ s ∈ texts, ∀ t ∈ texts, localeCompare s t < 0 ↔ s < t
  eq_zero_iff : ∀ s ∈ texts, ∀ t ∈ texts, localeCompare s t = 0 ↔ s = t

/-- The times that are printed in the fixed format. -/
def timestamps : Set String := {s | ∃ t, FourDigitYear t ∧ toISOString t = s}

/-- The ids in the form the database prints. -/
def uuids : Set String := Set.range printUuid

/-- The comparison the list is sorted by. -/
def byTimeAndId (localeCompare : String → String → ℤ) (a b : Snapshot) : ℤ :=
  let byTime := localeCompare (toISOString a.row.createdAt) (toISOString b.row.createdAt)
  if byTime ≠ 0 then byTime else localeCompare (printUuid (idOf a)) (printUuid (idOf b))

/-- The `messages` of `useGroupMessages`, with the comparison of the platform. -/
def mergedMessages (localeCompare : String → String → ℤ) (pages : Option (List MessagePage))
    (live : List Snapshot) : List Snapshot :=
  ((rowsOfPages pages ++ live).foldl setById []).insertionSort
    fun a b => byTimeAndId localeCompare a b ≤ 0

/-! ## The order of the list -/

theorem olderFirst_iff (a b : Snapshot) : OlderFirst a b ↔ a.row.key ≤ b.row.key := by
  unfold OlderFirst Message.key
  rw [Prod.Lex.toLex_le_toLex]
  rfl

instance : IsTrans Snapshot OlderFirst :=
  ⟨fun a b c hab hbc => (olderFirst_iff a c).mpr
    (((olderFirst_iff a b).mp hab).trans ((olderFirst_iff b c).mp hbc))⟩

instance : Std.Total OlderFirst :=
  ⟨fun a b => (le_total a.row.key b.row.key).imp (olderFirst_iff a b).mpr
    (olderFirst_iff b a).mpr⟩

theorem key_eq_iff (a b : Message) : a.key = b.key ↔ a.createdAt = b.createdAt ∧ a.id = b.id := by
  unfold Message.key
  rw [toLex_inj]
  exact Prod.mk_inj

variable {localeCompare : String → String → ℤ}

/-- **The texts are in the order of the values.** -/
theorem byTimeAndId_nonpos_iff (htimes : AgreesOn localeCompare timestamps)
    (hids : AgreesOn localeCompare uuids) {a b : Snapshot}
    (ha : FourDigitYear a.row.createdAt) (hb : FourDigitYear b.row.createdAt) :
    byTimeAndId localeCompare a b ≤ 0 ↔ OlderFirst a b := by
  have hatime : toISOString a.row.createdAt ∈ timestamps := ⟨_, ha, rfl⟩
  have hbtime : toISOString b.row.createdAt ∈ timestamps := ⟨_, hb, rfl⟩
  have haid : printUuid (idOf a) ∈ uuids := ⟨_, rfl⟩
  have hbid : printUuid (idOf b) ∈ uuids := ⟨_, rfl⟩
  have hneg : localeCompare (toISOString a.row.createdAt) (toISOString b.row.createdAt) < 0 ↔
      a.row.createdAt < b.row.createdAt :=
    (htimes.neg_iff _ hatime _ hbtime).trans (toISOString_lt_iff ha hb)
  have hzero : localeCompare (toISOString a.row.createdAt) (toISOString b.row.createdAt) = 0 ↔
      a.row.createdAt = b.row.createdAt := by
    refine (htimes.eq_zero_iff _ hatime _ hbtime).trans ⟨fun h => ?_, fun h => by rw [h]⟩
    -- equal texts are ordered neither way, so neither are the times
    refine le_antisymm (not_lt.mp fun hlt => ?_) (not_lt.mp fun hlt => ?_)
    · exact absurd ((toISOString_lt_iff hb ha).mpr hlt) (by rw [h]; exact lt_irrefl _)
    · exact absurd ((toISOString_lt_iff ha hb).mpr hlt) (by rw [h]; exact lt_irrefl _)
  have hid : localeCompare (printUuid (idOf a)) (printUuid (idOf b)) ≤ 0 ↔ idOf a ≤ idOf b := by
    rw [le_iff_lt_or_eq, hids.neg_iff _ haid _ hbid, hids.eq_zero_iff _ haid _ hbid,
      printUuid_lt_iff, printUuid_injective.eq_iff, ← le_iff_lt_or_eq]
  unfold byTimeAndId OlderFirst
  dsimp only
  split
  · rename_i hne
    have hne' : a.row.createdAt ≠ b.row.createdAt := fun h => hne (hzero.mpr h)
    rw [le_iff_lt_or_eq, hneg]
    constructor
    · exact fun h => Or.inl (h.resolve_right hne)
    · exact fun h => Or.inl (h.resolve_right fun h' => hne' h'.1)
  · rename_i heq
    have heq' : a.row.createdAt = b.row.createdAt := hzero.mp (not_not.mp heq)
    rw [hid, heq']
    simp

/-! ## What the list holds -/

/-- The last copy of its id in a list. -/
def LastCopy (xs : List Snapshot) (m : Snapshot) : Prop :=
  ∃ before after, xs = before ++ m :: after ∧ ∀ x ∈ after, idOf x ≠ idOf m

theorem map_idOf_setById (byId : List Snapshot) (m : Snapshot) :
    (setById byId m).map idOf =
      if idOf m ∈ byId.map idOf then byId.map idOf else byId.map idOf ++ [idOf m] := by
  have hany : (byId.any fun x => idOf x = idOf m) = true ↔ idOf m ∈ byId.map idOf := by
    simp only [List.any_eq_true, decide_eq_true_eq, List.mem_map]
  unfold setById
  split
  · rename_i h
    rw [if_pos (hany.mp h), List.map_map]
    refine List.map_congr_left fun x _ => ?_
    by_cases hx : idOf x = idOf m
    · simp [hx]
    · simp [hx]
  · rename_i h
    rw [if_neg fun hmem => h (hany.mpr hmem), List.map_append, List.map_singleton]

/-- A `Map` has one entry for a key. -/
theorem nodup_foldl_setById (xs : List Snapshot) : ((xs.foldl setById []).map idOf).Nodup := by
  induction xs using List.reverseRecOn with
  | nil => exact List.nodup_nil
  | append_singleton xs m ih =>
    rw [List.foldl_append, List.foldl_cons, List.foldl_nil, map_idOf_setById]
    split
    · exact ih
    · rename_i hnew
      exact List.nodup_append.mpr ⟨ih, List.nodup_singleton _, fun x hx y hy hxy => hnew (by
        rw [← List.mem_singleton.mp hy, ← hxy]
        exact hx)⟩

variable {pages : Option (List MessagePage)} {live : List Snapshot}

/-- **The list of the browser is the list by the values**, when the texts are in their order. -/
theorem mergedMessages_eq (htimes : AgreesOn localeCompare timestamps)
    (hids : AgreesOn localeCompare uuids)
    (hyears : ∀ m ∈ rowsOfPages pages ++ live, FourDigitYear m.row.createdAt) :
    mergedMessages localeCompare pages live = messages pages live := by
  have hmem : ∀ m ∈ (rowsOfPages pages ++ live).foldl setById [], FourDigitYear m.row.createdAt := by
    intro m hm
    obtain ⟨before, after, hxs, -⟩ := mem_foldl_setById.mp hm
    exact hyears m (by rw [hxs]; simp)
  have hmap := List.map_insertionSort (fun a b => byTimeAndId localeCompare a b ≤ 0) OlderFirst id
    ((rowsOfPages pages ++ live).foldl setById []) fun a ha b hb =>
      byTimeAndId_nonpos_iff htimes hids (hmem a ha) (hmem b hb)
  rw [List.map_id, List.map_id] at hmap
  exact hmap

theorem mem_messages_iff_lastCopy {m : Snapshot} :
    m ∈ messages pages live ↔ LastCopy (rowsOfPages pages ++ live) m := by
  unfold messages LastCopy
  rw [List.mem_insertionSort, mem_foldl_setById]

theorem nodup_map_idOf_messages : ((messages pages live).map idOf).Nodup := by
  have hperm : (messages pages live).Perm ((rowsOfPages pages ++ live).foldl setById []) :=
    List.perm_insertionSort _ _
  exact (hperm.map idOf).nodup_iff.mpr (nodup_foldl_setById _)

/-- The list is strictly ascending. -/
theorem pairwise_messages :
    (messages pages live).Pairwise fun a b => a.row.key < b.row.key := by
  have hsorted : (messages pages live).Pairwise OlderFirst := List.pairwise_insertionSort _ _
  have hnodup : (messages pages live).Pairwise fun a b => idOf a ≠ idOf b :=
    List.pairwise_map.mp nodup_map_idOf_messages
  refine (hsorted.and hnodup).imp fun {a b} h => ?_
  refine lt_of_le_of_ne ((olderFirst_iff a b).mp h.1) fun heq => h.2 ?_
  exact ((key_eq_iff a.row b.row).mp heq).2

/-! ## The list is canonical -/

theorem LastCopy.append_left {xs ys : List Snapshot} {m : Snapshot} (h : LastCopy ys m) :
    LastCopy (xs ++ ys) m := by
  obtain ⟨before, after, rfl, hafter⟩ := h
  exact ⟨xs ++ before, after, (List.append_assoc _ _ _).symm, hafter⟩

theorem LastCopy.append_right {xs ys : List Snapshot} {m : Snapshot} (h : LastCopy xs m)
    (hys : ∀ y ∈ ys, idOf y ≠ idOf m) : LastCopy (xs ++ ys) m := by
  obtain ⟨before, after, rfl, hafter⟩ := h
  refine ⟨before, after ++ ys, by simp, fun x hx => ?_⟩
  rcases List.mem_append.mp hx with hx | hx
  · exact hafter x hx
  · exact hys x hx

/-- Copies of one id are equal. -/
def CopiesAgree (xs : List Snapshot) : Prop := ∀ a ∈ xs, ∀ b ∈ xs, idOf a = idOf b → a = b

theorem CopiesAgree.lastCopy_iff {xs : List Snapshot} (h : CopiesAgree xs) {m : Snapshot} :
    LastCopy xs m ↔ m ∈ xs := by
  constructor
  · rintro ⟨before, after, rfl, -⟩
    simp
  · intro hm
    obtain ⟨x, before, after, hxs, hid, hafter⟩ := exists_last ⟨m, hm, rfl⟩
    have hx : x ∈ xs := by
      rw [hxs]
      simp
    rw [← h x hx m hm hid]
    exact ⟨before, after, hxs, hafter⟩

/-- A strictly ordered list is determined by its members. -/
theorem eq_of_pairwise_of_mem_iff {α K : Type*} [Preorder K] {key : α → K} {xs ys : List α}
    (hxs : xs.Pairwise fun a b => key a < key b) (hys : ys.Pairwise fun a b => key a < key b)
    (h : ∀ a, a ∈ xs ↔ a ∈ ys) : xs = ys := by
  have hirrefl : Std.Irrefl fun a b : α => key a < key b := ⟨fun a => lt_irrefl (key a)⟩
  have hantisymm : Std.Antisymm fun a b : α => key a < key b :=
    ⟨fun a b hab hba => absurd (hab.trans hba) (lt_irrefl _)⟩
  exact List.Pairwise.eq_of_mem_iff hxs hys h

/-- What the list of the browser is: a function of what is cached. -/
structure IsCanonical (localeCompare : String → String → ℤ) (pages : Option (List MessagePage))
    (live : List Snapshot) : Prop where
  /-- Every cached id once. -/
  once : ∀ m ∈ rowsOfPages pages ++ live,
    ((mergedMessages localeCompare pages live).map idOf).count (idOf m) = 1
  /-- And no other. -/
  only : ∀ m ∈ mergedMessages localeCompare pages live, m ∈ rowsOfPages pages ++ live
  ascending : (mergedMessages localeCompare pages live).Pairwise fun a b => a.row.key < b.row.key
  /-- What it shares with a page of the server is in the reverse order there. -/
  page_reversed : ∀ host rows groupId limit cursor page,
    findPage host rows groupId limit cursor = .ok page →
      ((mergedMessages localeCompare pages live).map Snapshot.row).filter (· ∈ page.data) =
        (page.data.filter
          (· ∈ (mergedMessages localeCompare pages live).map Snapshot.row)).reverse
  /-- And the whole list is a whole history reversed, when it has the same rows. -/
  walk_reversed : ∀ host history groupId limit walk,
    Walk host history groupId limit 0 none walk →
      (∀ m, m ∈ (mergedMessages localeCompare pages live).map Snapshot.row ↔ m ∈ returned walk) →
        (mergedMessages localeCompare pages live).map Snapshot.row = (returned walk).reverse
  /-- The live copy of an id. -/
  live_copy : ∀ m, LastCopy live m → m ∈ mergedMessages localeCompare pages live
  /-- Without one, the copy of the last page that has one. -/
  page_copy : ∀ before page after m, pages.getD [] = before ++ page :: after →
    LastCopy page.data m → (∀ p ∈ after, ∀ x ∈ p.data, idOf x ≠ idOf m) →
      (∀ x ∈ live, idOf x ≠ idOf m) → m ∈ mergedMessages localeCompare pages live
  /-- Where the messages are cached does not matter, when their copies agree. -/
  independent : CopiesAgree (rowsOfPages pages ++ live) → ∀ pages' live',
    (∀ m, m ∈ rowsOfPages pages' ++ live' ↔ m ∈ rowsOfPages pages ++ live) →
      mergedMessages localeCompare pages' live' = mergedMessages localeCompare pages live

/-- What an ascending list shares with a descending one is the reverse of it. -/
theorem filter_eq_reverse_filter {xs ys : List Message}
    (hxs : xs.Pairwise fun a b => a.key < b.key) (hys : ys.Pairwise fun a b => b.key < a.key) :
    xs.filter (· ∈ ys) = (ys.filter (· ∈ xs)).reverse := by
  refine eq_of_pairwise_of_mem_iff (hxs.filter _) ?_ fun m => ?_
  · rw [List.pairwise_reverse]
    exact hys.filter _
  · simp only [List.mem_reverse, List.mem_filter, decide_eq_true_eq]
    exact and_comm

theorem pairwise_map_row : ((messages pages live).map Snapshot.row).Pairwise
    fun a b => a.key < b.key := List.pairwise_map.mpr pairwise_messages

/-- **The merged list is canonical.** -/
theorem mergedMessages_isCanonical (localeCompare : String → String → ℤ)
    (pages : Option (List MessagePage)) (live : List Snapshot)
    (htimes : AgreesOn localeCompare timestamps) (hids : AgreesOn localeCompare uuids)
    (hyears : ∀ m ∈ rowsOfPages pages ++ live, FourDigitYear m.row.createdAt) :
    IsCanonical localeCompare pages live := by
  have heq : mergedMessages localeCompare pages live = messages pages live :=
    mergedMessages_eq htimes hids hyears
  constructor
  case once =>
    intro m hm
    obtain ⟨x, before, after, hxs, hid, hafter⟩ := exists_last ⟨m, hm, rfl⟩
    have hx : x ∈ messages pages live := mem_messages_iff_lastCopy.mpr ⟨before, after, hxs, hafter⟩
    rw [heq, ← hid]
    exact List.count_eq_one_of_mem nodup_map_idOf_messages (List.mem_map_of_mem hx)
  case only =>
    intro m hm
    rw [heq, mem_messages_iff_lastCopy] at hm
    obtain ⟨before, after, hxs, -⟩ := hm
    rw [hxs]
    simp
  case ascending =>
    rw [heq]
    exact pairwise_messages
  case page_reversed =>
    intro host rows groupId limit cursor page hpage
    rw [heq]
    exact filter_eq_reverse_filter pairwise_map_row (pairwise_of_findPage hpage)
  case walk_reversed =>
    intro host history groupId limit walk hwalk hsame
    rw [heq] at hsame ⊢
    refine eq_of_pairwise_of_mem_iff pairwise_map_row ?_ fun m => ?_
    · rw [List.pairwise_reverse]
      exact hwalk.descending
    · rw [List.mem_reverse]
      exact hsame m
  case live_copy =>
    intro m hm
    rw [heq, mem_messages_iff_lastCopy]
    exact hm.append_left
  case page_copy =>
    intro before page after m hpages hm hafter hlive
    have hrows : rowsOfPages pages =
        before.flatMap MessagePage.data ++ (page.data ++ after.flatMap MessagePage.data) := by
      unfold rowsOfPages
      rw [hpages, List.flatMap_append, List.flatMap_cons]
    rw [heq, mem_messages_iff_lastCopy, hrows]
    refine ((hm.append_right fun y hy => ?_).append_left).append_right hlive
    obtain ⟨p, hp, hy⟩ := List.mem_flatMap.mp hy
    exact hafter p hp y hy
  case independent =>
    intro hagree pages' live' hsame
    have hagree' : CopiesAgree (rowsOfPages pages' ++ live') := fun a ha b hb =>
      hagree a ((hsame a).mp ha) b ((hsame b).mp hb)
    have hyears' : ∀ m ∈ rowsOfPages pages' ++ live', FourDigitYear m.row.createdAt :=
      fun m hm => hyears m ((hsame m).mp hm)
    rw [heq, mergedMessages_eq htimes hids hyears']
    refine eq_of_pairwise_of_mem_iff pairwise_messages pairwise_messages fun m => ?_
    rw [mem_messages_iff_lastCopy, mem_messages_iff_lastCopy, hagree'.lastCopy_iff,
      hagree.lastCopy_iff]
    exact hsame m

/-- The comparison of code units. -/
def byCodeUnits (s t : String) : ℤ := if s < t then -1 else if s = t then 0 else 1

theorem agreesOn_byCodeUnits (texts : Set String) : AgreesOn byCodeUnits texts := by
  constructor
  · intro s _ t _
    unfold byCodeUnits
    split
    · rename_i hlt
      exact iff_of_true (by omega) hlt
    · rename_i hlt
      refine iff_of_false ?_ hlt
      split <;> omega
  · intro s _ t _
    unfold byCodeUnits
    split
    · rename_i hlt
      exact iff_of_false (by omega) hlt.ne
    · split
      · rename_i heq
        exact iff_of_true rfl heq
      · rename_i hne
        exact iff_of_false (by omega) hne

/-- A message of the epoch. -/
def oldMessage (id : Uuid) (content : String) : Snapshot :=
  ⟨⟨id, 2, some 5, content, .user, epoch, none, none, none, none, none⟩, ∅⟩

/-- Two pages that overlap, and an edited copy in the live buffer. -/
theorem mergedMessages_isCanonical_overlap :
    IsCanonical byCodeUnits
      (some [⟨[oldMessage 4 "b", oldMessage 3 "a"], some (JsString.ofString "next")⟩,
        ⟨[oldMessage 3 "a"], none⟩])
      [oldMessage 3 "edited"] := by
  refine mergedMessages_isCanonical byCodeUnits _ _ (agreesOn_byCodeUnits _)
    (agreesOn_byCodeUnits _) fun m hm => ?_
  have hyear : FourDigitYear epoch := by decide
  simp only [rowsOfPages, Option.getD_some, List.flatMap_cons, List.flatMap_nil, List.mem_append,
    List.mem_cons, List.not_mem_nil, or_false] at hm
  rcases hm with ((rfl | rfl) | rfl) | rfl <;> exact hyear

end Client
end GroupChat

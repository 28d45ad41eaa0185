import GroupChat.Messages.Broadcasts
import GroupChat.Messages.Page
import GroupChat.Transition.Replay

/-!
# The messages of a group in the browser

`useGroupMessages` shows one list that comes from two places: the pages of the history,
which requests bring, and the live buffer, which the socket fills.  A message may be in
both, and the merge lets the copy in the live buffer win.

What the socket brings is applied by three reducers.  `new_message` appends to the live
buffer, unless the message is there; `message_updated` and `reaction_updated` patch
the message wherever it is cached, as a whole or in its reactions.  A patch does not
depend on what it replaces (`overwriting_patch`).

`mem_messages_iff` and `exists_mem_messages_iff` say what the list shows: of each id
that is cached somewhere the last copy, the live buffer being read last.
-/

namespace GroupChat
namespace Client

open Common Database Messages Text Transition
open Messages.Broadcasts (Snapshot)

/-! ## The cache -/

/-- A page of the history as it is cached, of its metadata what is read. -/
structure MessagePage where
  data : List Snapshot
  nextCursor : Option JsString
deriving DecidableEq

/-- The id of a message. -/
abbrev idOf (m : Snapshot) : Uuid := m.row.id

/-- `byId.set`: a key keeps its place. -/
def setById (byId : List Snapshot) (m : Snapshot) : List Snapshot :=
  if byId.any fun x => idOf x = idOf m then byId.map fun x => if idOf x = idOf m then m else x
  else byId ++ [m]

/-- The order of the list: by time, and then by id. -/
def OlderFirst (a b : Snapshot) : Prop :=
  a.row.createdAt < b.row.createdAt ∨ a.row.createdAt = b.row.createdAt ∧ idOf a ≤ idOf b

instance : DecidableRel OlderFirst := fun a b =>
  inferInstanceAs (Decidable (a.row.createdAt < b.row.createdAt ∨
    a.row.createdAt = b.row.createdAt ∧ idOf a ≤ idOf b))

/-- What is cached of the history. -/
def rowsOfPages (pages : Option (List MessagePage)) : List Snapshot :=
  (pages.getD []).flatMap MessagePage.data

/-- The `messages` of `useGroupMessages`. -/
def messages (pages : Option (List MessagePage)) (live : List Snapshot) : List Snapshot :=
  ((rowsOfPages pages ++ live).foldl setById []).insertionSort OlderFirst

/-! ## The reducers -/

/-- What the server emits about messages. -/
inductive ServerEvent where
  | newMessage (message : Snapshot)
  | messageUpdated (message : Snapshot)
  | reactionUpdated (messageId : Uuid) (reactions : Finset (String × Uuid))
deriving DecidableEq

/-- The message an event is about. -/
def ServerEvent.messageId : ServerEvent → Uuid
  | .newMessage message => idOf message
  | .messageUpdated message => idOf message
  | .reactionUpdated messageId _ => messageId

/-- What an event makes of a cached message: `replace` and `patch`. -/
def ServerEvent.patch : ServerEvent → Snapshot → Snapshot
  | .newMessage _, m => m
  | .messageUpdated message, m => if idOf m = idOf message then message else m
  | .reactionUpdated messageId reactions, m =>
    if idOf m = messageId then { m with reactions := reactions } else m

/-- What an event makes of the live buffer. -/
def ServerEvent.onLive (live : List Snapshot) : ServerEvent → List Snapshot
  | .newMessage message =>
    if live.any fun m => idOf m = idOf message then live else live ++ [message]
  | .messageUpdated message => live.map (ServerEvent.messageUpdated message).patch
  | .reactionUpdated messageId reactions =>
    live.map (ServerEvent.reactionUpdated messageId reactions).patch

/-- What an event makes of a page of the history. -/
def ServerEvent.onPage (page : MessagePage) : ServerEvent → MessagePage
  | .newMessage _ => page
  | .messageUpdated message =>
    { page with data := page.data.map (ServerEvent.messageUpdated message).patch }
  | .reactionUpdated messageId reactions =>
    { page with data := page.data.map (ServerEvent.reactionUpdated messageId reactions).patch }

/-- Several events, one after another. -/
abbrev replayed (events : List ServerEvent) (m : Snapshot) : Snapshot :=
  patchAll ServerEvent.patch events m

theorem replayed_concat (events : List ServerEvent) (e : ServerEvent) (m : Snapshot) :
    replayed (events ++ [e]) m = e.patch (replayed events m) :=
  patchAll_append events [e] m

/-! ## What the list shows -/

theorem mem_setById {byId : List Snapshot} {m x : Snapshot} :
    x ∈ setById byId m ↔ x = m ∨ x ∈ byId ∧ idOf x ≠ idOf m := by
  unfold setById
  split
  · rename_i hany
    obtain ⟨y, hy, hym⟩ := List.any_eq_true.mp hany
    rw [List.mem_map]
    constructor
    · rintro ⟨z, hz, rfl⟩
      by_cases hzm : idOf z = idOf m
      · exact Or.inl (if_pos hzm)
      · rw [if_neg hzm]
        exact Or.inr ⟨hz, hzm⟩
    · rintro (rfl | ⟨hx, hxm⟩)
      · exact ⟨y, hy, if_pos (of_decide_eq_true hym)⟩
      · exact ⟨x, hx, if_neg hxm⟩
  · rename_i hany
    rw [List.mem_append, List.mem_singleton, or_comm]
    refine or_congr_right ⟨fun hx => ⟨hx, fun hxm => hany ?_⟩, And.left⟩
    exact List.any_eq_true.mpr ⟨x, hx, decide_eq_true hxm⟩

/-- A `Map` that is filled from a list holds the last entry of each key. -/
theorem mem_foldl_setById {xs : List Snapshot} {x : Snapshot} :
    x ∈ xs.foldl setById [] ↔
      ∃ before after, xs = before ++ x :: after ∧ ∀ y ∈ after, idOf y ≠ idOf x := by
  induction xs using List.reverseRecOn with
  | nil => simp
  | append_singleton xs m ih =>
    rw [List.foldl_append, List.foldl_cons, List.foldl_nil, mem_setById, ih]
    constructor
    · rintro (rfl | ⟨⟨before, after, rfl, hafter⟩, hxm⟩)
      · exact ⟨xs, [], rfl, fun y hy => absurd hy List.not_mem_nil⟩
      · refine ⟨before, after ++ [m], by simp, fun y hy => ?_⟩
        rcases List.mem_append.mp hy with hy | hy
        · exact hafter y hy
        · rw [List.mem_singleton.mp hy]
          exact fun h => hxm h.symm
    · rintro ⟨before, after, hxs, hafter⟩
      rcases List.eq_nil_or_concat after with rfl | ⟨after, z, rfl⟩
      · obtain ⟨-, hmx⟩ := List.append_inj' hxs rfl
        exact Or.inl (List.singleton_inj.mp hmx).symm
      · rw [List.concat_eq_append, ← List.cons_append, ← List.append_assoc] at hxs
        obtain ⟨rfl, hmz⟩ := List.append_inj' hxs rfl
        obtain rfl := List.singleton_inj.mp hmz
        refine Or.inr ⟨⟨before, after, rfl, fun y hy => ?_⟩, fun h => ?_⟩
        · exact hafter y (by simp [hy])
        · exact hafter m (by simp) h.symm

/-- A list with an entry of a key has a last one. -/
theorem exists_last {xs : List Snapshot} {id : Uuid} (h : ∃ x ∈ xs, idOf x = id) :
    ∃ x before after, xs = before ++ x :: after ∧ idOf x = id ∧ ∀ y ∈ after, idOf y ≠ idOf x := by
  induction xs with
  | nil => simp at h
  | cons z xs ih =>
    by_cases hrest : ∃ x ∈ xs, idOf x = id
    · obtain ⟨x, before, after, rfl, hx, hafter⟩ := ih hrest
      exact ⟨x, z :: before, after, rfl, hx, hafter⟩
    · obtain ⟨x, hx, hid⟩ := h
      rcases List.mem_cons.mp hx with rfl | hx
      · exact ⟨x, [], xs, rfl, hid, fun y hy hyx => hrest ⟨y, hy, hyx.trans hid⟩⟩
      · exact absurd ⟨x, hx, hid⟩ hrest

variable {pages : Option (List MessagePage)} {live : List Snapshot}

/-- **The list shows an id exactly if it is cached somewhere.** -/
theorem exists_mem_messages_iff {id : Uuid} :
    (∃ x ∈ messages pages live, idOf x = id) ↔
      (∃ x ∈ rowsOfPages pages, idOf x = id) ∨ ∃ x ∈ live, idOf x = id := by
  have hor : ((∃ x ∈ rowsOfPages pages, idOf x = id) ∨ ∃ x ∈ live, idOf x = id) ↔
      ∃ x ∈ rowsOfPages pages ++ live, idOf x = id := by
    simp only [List.mem_append, or_and_right, exists_or]
  rw [hor]
  unfold messages
  simp only [List.mem_insertionSort]
  constructor
  · rintro ⟨x, hx, hid⟩
    obtain ⟨before, after, hxs, -⟩ := mem_foldl_setById.mp hx
    exact ⟨x, by rw [hxs]; simp, hid⟩
  · intro h
    obtain ⟨x, before, after, hxs, hid, hafter⟩ := exists_last h
    exact ⟨x, mem_foldl_setById.mpr ⟨before, after, hxs, hafter⟩, hid⟩

/-- **A copy in the live buffer hides one on a page.** -/
theorem mem_live_or_of_mem_messages {x : Snapshot} (hx : x ∈ messages pages live) :
    x ∈ live ∨ x ∈ rowsOfPages pages ∧ ∀ y ∈ live, idOf y ≠ idOf x := by
  unfold messages at hx
  rw [List.mem_insertionSort, mem_foldl_setById] at hx
  obtain ⟨before, after, hxs, hafter⟩ := hx
  rcases List.append_eq_append_iff.mp hxs with ⟨as, hbefore, hlive⟩ | ⟨bs, hrows, hcons⟩
  · refine Or.inl ?_
    rw [hlive]
    simp
  · cases bs with
    | nil =>
      refine Or.inl ?_
      rw [List.nil_append] at hcons
      rw [← hcons]
      exact List.mem_cons_self
    | cons b bs =>
      obtain ⟨rfl, rfl⟩ := List.cons.inj hcons
      refine Or.inr ⟨by rw [hrows]; simp, fun y hy => hafter y ?_⟩
      exact List.mem_append_right bs hy

/-! ## What an event changes -/

@[simp] theorem ServerEvent.idOf_patch (e : ServerEvent) (m : Snapshot) :
    idOf (e.patch m) = idOf m := by
  cases e with
  | newMessage message => rfl
  | messageUpdated message =>
    simp only [ServerEvent.patch]
    split
    · rename_i h
      exact h.symm
    · rfl
  | reactionUpdated messageId reactions =>
    simp only [ServerEvent.patch]
    split <;> rfl

theorem ServerEvent.patch_of_ne {e : ServerEvent} {m : Snapshot} (h : idOf m ≠ e.messageId) :
    e.patch m = m := by
  cases e with
  | newMessage message => rfl
  | messageUpdated message => exact if_neg h
  | reactionUpdated messageId reactions => exact if_neg h

@[simp] theorem idOf_replayed (events : List ServerEvent) (m : Snapshot) :
    idOf (replayed events m) = idOf m := by
  induction events generalizing m with
  | nil => rfl
  | cons e events ih => rw [replayed, patchAll_cons, ← e.idOf_patch m]; exact ih (e.patch m)

/-- **A patch does not depend on what it replaces.** -/
theorem overwriting_patch : Overwriting ServerEvent.patch := by
  constructor
  · intro e m
    cases e with
    | newMessage message => rfl
    | messageUpdated message =>
      by_cases h : idOf m = idOf message <;> simp [ServerEvent.patch, h]
    | reactionUpdated messageId reactions =>
      by_cases h : idOf m = messageId <;> simp [ServerEvent.patch, h]
  · intro e f m
    by_cases hm : idOf m = e.messageId
    · cases e with
      | newMessage message => rfl
      | messageUpdated message =>
        have hid : ∀ x, idOf x = idOf m → (ServerEvent.messageUpdated message).patch x = message :=
          fun x hx => if_pos (hx.trans hm)
        rw [hid _ (by simp), hid _ (by simp)]
      | reactionUpdated messageId reactions =>
        have hid : ∀ x, idOf x = idOf m → (ServerEvent.reactionUpdated messageId reactions).patch x
            = { x with reactions := reactions } := fun x hx => if_pos (hx.trans hm)
        rw [hid m rfl, hid (f.patch { m with reactions := reactions }) (by simp),
          hid (f.patch m) (by simp)]
        -- the row after `f` does not depend on the reactions before
        cases f with
        | newMessage message => rfl
        | messageUpdated message =>
          simp only [ServerEvent.patch]
          split <;> rfl
        | reactionUpdated messageId' reactions' =>
          simp only [ServerEvent.patch]
          split <;> rfl
    · rw [ServerEvent.patch_of_ne hm]

/-- A page after an event. -/
theorem ServerEvent.onPage_eq (e : ServerEvent) (page : MessagePage) :
    e.onPage page = { page with data := page.data.map e.patch } := by
  cases e with
  | newMessage message =>
    rw [show (ServerEvent.newMessage message).patch = id from rfl, List.map_id]
    rfl
  | messageUpdated message => rfl
  | reactionUpdated messageId reactions => rfl

/-- The live buffer after an event: what was there, patched, and what is new. -/
theorem mem_onLive {e : ServerEvent} {x : Snapshot} (hx : x ∈ e.onLive live) :
    (∃ y ∈ live, e.patch y = x) ∨
      e = .newMessage x ∧ ∀ y ∈ live, idOf y ≠ idOf x := by
  cases e with
  | newMessage message =>
    unfold ServerEvent.onLive at hx
    dsimp only at hx
    split at hx
    · exact Or.inl ⟨x, hx, rfl⟩
    · rename_i hany
      rcases List.mem_append.mp hx with hx | hx
      · exact Or.inl ⟨x, hx, rfl⟩
      · obtain rfl := List.mem_singleton.mp hx
        refine Or.inr ⟨rfl, fun y hy hid => hany ?_⟩
        exact List.any_eq_true.mpr ⟨y, hy, decide_eq_true hid⟩
  | messageUpdated message => exact Or.inl (List.mem_map.mp hx)
  | reactionUpdated messageId reactions => exact Or.inl (List.mem_map.mp hx)

/-- **The live buffer loses no id**, and `new_message` brings its own. -/
theorem exists_mem_onLive_iff {e : ServerEvent} {id : Uuid} :
    (∃ x ∈ e.onLive live, idOf x = id) ↔
      (∃ x ∈ live, idOf x = id) ∨ ∃ message, e = .newMessage message ∧ idOf message = id := by
  have hmap : ∀ f : ServerEvent,
      (∃ x ∈ live.map f.patch, idOf x = id) ↔ ∃ x ∈ live, idOf x = id := by
    intro f
    simp only [List.mem_map, exists_exists_and_eq_and, ServerEvent.idOf_patch]
  cases e with
  | newMessage message =>
    unfold ServerEvent.onLive
    dsimp only
    split
    · rename_i hany
      obtain ⟨y, hy, hym⟩ := List.any_eq_true.mp hany
      refine ⟨Or.inl, ?_⟩
      rintro (h | ⟨message', hmessage, rfl⟩)
      · exact h
      · obtain rfl := ServerEvent.newMessage.inj hmessage
        exact ⟨y, hy, of_decide_eq_true hym⟩
    · simp only [List.mem_append, List.mem_singleton, or_and_right, exists_or,
        ServerEvent.newMessage.injEq, exists_eq_left, exists_eq_left']
  | messageUpdated message =>
    refine (hmap (.messageUpdated message)).trans ⟨Or.inl, fun h => h.resolve_right ?_⟩
    rintro ⟨message', hmessage, -⟩
    cases hmessage
  | reactionUpdated messageId reactions =>
    refine (hmap (.reactionUpdated messageId reactions)).trans ⟨Or.inl, fun h => h.resolve_right ?_⟩
    rintro ⟨message', hmessage, -⟩
    cases hmessage

end Client
end GroupChat

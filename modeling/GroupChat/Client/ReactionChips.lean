import Mathlib.Data.Set.Card
import GroupChat.Client.Responses
import GroupChat.Collections.JsMap
import GroupChat.Messages.Toggles

/-!
# Reaction chips

The server stores a row for each reaction, and sends all of those of a message when one is
toggled.  The browser makes chips of them, one for each emoji, with how many users it is from and
whether one of them is its own.

`chips_tell_who_reacted` follows the rows to the screen: whatever calls overlap, the chips that
any browser makes of any broadcast are a count of the table as it was at some moment, in which no
user is counted twice.  Of the rows themselves it says more: where the calls of one user on one
emoji wait for each other, the chips of what is stored have that user's mark after every other one
of them.  A broadcast may be older than that.
-/

namespace GroupChat
namespace Client

open Collections Common Database Messages.Reactions Responses Text Transition
open Messages (MessageTable)

/-- What a chip shows. -/
structure Chip where
  emoji : JsString
  count : ℕ
  mine : Bool
deriving DecidableEq

/-- One reaction more under its emoji. -/
def Chip.add (userId : Option JsString) (cur : Chip) (r : Responses.Reaction) : Chip :=
  { cur with
    count := cur.count + 1
    mine := if some r.userId = userId then true else cur.mine }

/-- `aggregate` -/
def aggregate (reactions : List Responses.Reaction) (userId : Option JsString) : List Chip :=
  (JsMap.gather Responses.Reaction.emoji (fun emoji => ⟨emoji, 0, false⟩) (Chip.add userId)
    reactions).values

/-! ## What the chips are -/

variable {userId : Option JsString}

theorem foldl_add (reactions : List Responses.Reaction) (cur : Chip) :
    reactions.foldl (Chip.add userId) cur =
      ⟨cur.emoji, cur.count + reactions.length,
        cur.mine || reactions.any fun r => some r.userId = userId⟩ := by
  induction reactions generalizing cur with
  | nil => simp
  | cons r reactions ih =>
    rw [List.foldl_cons, ih]
    by_cases hr : some r.userId = userId
    · simp [Chip.add, hr, Nat.add_assoc, Nat.add_comm 1]
    · simp [Chip.add, hr, Nat.add_assoc, Nat.add_comm 1]

theorem aggregate_eq (reactions : List Responses.Reaction) (userId : Option JsString) :
    aggregate reactions userId =
      (JsMap.firsts (reactions.map Responses.Reaction.emoji)).map fun emoji =>
        ⟨emoji, (reactions.filter fun r => r.emoji = emoji).length,
          (reactions.filter fun r => r.emoji = emoji).any fun r => some r.userId = userId⟩ := by
  rw [aggregate, JsMap.values_gather]
  refine List.map_congr_left fun emoji _ => ?_
  rw [foldl_add]
  simp

/-- The chips are a count of who has reacted to a message. -/
structure Tally (t : ReactionTable) (messageId : Uuid) (viewer : Option Uuid) (chips : List Chip) :
    Prop where
  /-- There is one chip for an emoji. -/
  nodup : (chips.map Chip.emoji).Nodup
  /-- No reaction is left out. -/
  complete : ∀ userId emoji, Marked t (messageId, userId, emoji) →
    JsString.ofString emoji ∈ chips.map Chip.emoji
  /-- A chip counts the users of its emoji, and says whether the viewer is one of them. -/
  sound : ∀ chip ∈ chips, ∃ emoji, chip.emoji = JsString.ofString emoji ∧
    0 < chip.count ∧ chip.count = {userId | Marked t (messageId, userId, emoji)}.ncard ∧
      (chip.mine = true ↔ ∃ userId, viewer = some userId ∧ Marked t (messageId, userId, emoji))

theorem viewUuid_injective : Function.Injective viewUuid :=
  fun _ _ h => printUuid_injective (JsString.ofString_injective h)

variable {t : ReactionTable} {messageId : Uuid}

theorem mem_reactionsOf {r : String × Uuid} :
    r ∈ reactionsOf t messageId ↔ Marked t (messageId, r.2, r.1) := by
  obtain ⟨emoji, userId⟩ := r
  unfold reactionsOf Marked
  simp only [List.mem_map, List.mem_filter, decide_eq_true_eq, Prod.mk.injEq]
  constructor
  · rintro ⟨r, ⟨hr, rfl⟩, rfl, rfl⟩
    exact ⟨r, hr, rfl⟩
  · rintro ⟨r, hr, hmark⟩
    obtain ⟨hmessage, huser, hemoji⟩ : r.messageId = messageId ∧ r.userId = userId ∧
        r.emoji = emoji := by simpa [Reaction.mark] using hmark
    exact ⟨r, ⟨hr, hmessage⟩, hemoji, huser⟩

/-- Nobody is listed twice with one emoji. -/
theorem nodup_reactionsOf (hunique : MarksUnique t) : (reactionsOf t messageId).Nodup := by
  unfold reactionsOf
  have hrows : (t.rows.filter fun r => r.messageId = messageId).Nodup :=
    (List.Nodup.of_map _ t.nodup).filter _
  refine List.Nodup.map_on (fun r hr r' hr' h => ?_) hrows
  simp only [List.mem_filter, decide_eq_true_eq] at hr hr'
  refine hunique r hr.1 r' hr'.1 ?_
  obtain ⟨hemoji, huser⟩ := Prod.mk.inj h
  rw [Reaction.mark, Reaction.mark, hr.2, hr'.2, hemoji, huser]

/-- The reactions under one chip, as they were before they were sent. -/
theorem filter_viewReaction (reactions : List (String × Uuid)) (emoji : String) :
    ((reactions.map viewReaction).filter fun r => r.emoji = JsString.ofString emoji) =
      (reactions.filter fun r => r.1 = emoji).map viewReaction := by
  rw [List.filter_map]
  refine congrArg _ (List.filter_congr fun r _ => ?_)
  exact decide_eq_decide.mpr JsString.ofString_injective.eq_iff

/-- What is under one chip. -/
theorem under_chip (hunique : MarksUnique t) (messageId : Uuid) (viewer : Option Uuid)
    (emoji : String) :
    (((reactionsOf t messageId).map viewReaction).filter fun r =>
        r.emoji = JsString.ofString emoji).length =
      {userId | Marked t (messageId, userId, emoji)}.ncard ∧
    ((((reactionsOf t messageId).map viewReaction).filter fun r =>
        r.emoji = JsString.ofString emoji).any
      (fun r => some r.userId = viewer.map viewUuid) = true ↔
        ∃ userId, viewer = some userId ∧ Marked t (messageId, userId, emoji)) := by
  rw [filter_viewReaction]
  have hmem : ∀ userId, userId ∈ ((reactionsOf t messageId).filter fun r => r.1 = emoji).map
      Prod.snd ↔ Marked t (messageId, userId, emoji) := by
    intro userId
    rw [List.mem_map]
    constructor
    · rintro ⟨r, hr, rfl⟩
      obtain ⟨hr, hemoji⟩ := List.mem_filter.mp hr
      exact of_decide_eq_true hemoji ▸ mem_reactionsOf.mp hr
    · exact fun h => ⟨(emoji, userId),
        List.mem_filter.mpr ⟨mem_reactionsOf.mpr h, decide_eq_true rfl⟩, rfl⟩
  constructor
  · have hnodup : (((reactionsOf t messageId).filter fun r => r.1 = emoji).map Prod.snd).Nodup := by
      refine List.Nodup.map_on (fun r hr r' hr' h => ?_) ((nodup_reactionsOf hunique).filter _)
      have hemoji := of_decide_eq_true (List.mem_filter.mp hr).2
      have hemoji' := of_decide_eq_true (List.mem_filter.mp hr').2
      exact Prod.ext (hemoji.trans hemoji'.symm) h
    have hset : {userId | Marked t (messageId, userId, emoji)} =
        ((((reactionsOf t messageId).filter fun r => r.1 = emoji).map Prod.snd).toFinset :
          Set Uuid) := by
      ext userId
      rw [Finset.mem_coe, List.mem_toFinset, hmem]
      rfl
    rw [hset, Set.ncard_coe_finset, List.toFinset_card_of_nodup hnodup, List.length_map,
      List.length_map]
  · rw [List.any_eq_true]
    constructor
    · rintro ⟨view, hview, hown⟩
      obtain ⟨r, hr, rfl⟩ := List.mem_map.mp hview
      obtain ⟨userId, hviewer, hsame⟩ := Option.map_eq_some_iff.mp (of_decide_eq_true hown).symm
      simp only [viewReaction] at hsame
      have huser : userId = r.2 := viewUuid_injective hsame
      refine ⟨userId, hviewer, (hmem userId).mp ?_⟩
      rw [huser]
      exact List.mem_map_of_mem hr
    · rintro ⟨userId, rfl, hmarked⟩
      obtain ⟨r, hr, rfl⟩ := List.mem_map.mp ((hmem userId).mpr hmarked)
      refine ⟨viewReaction r, List.mem_map_of_mem hr, ?_⟩
      rw [Option.map_some, viewReaction, decide_eq_true_eq]

/-- **The chips are a count.** -/
theorem tally_aggregate (hunique : MarksUnique t) (messageId : Uuid) (viewer : Option Uuid) :
    Tally t messageId viewer
      (aggregate ((reactionsOf t messageId).map viewReaction) (viewer.map viewUuid)) := by
  have hemojis : ((reactionsOf t messageId).map viewReaction).map Responses.Reaction.emoji =
      (reactionsOf t messageId).map fun r => JsString.ofString r.1 := List.map_map
  rw [aggregate_eq, hemojis]
  refine ⟨?_, fun userId emoji hmarked => ?_, fun chip hchip => ?_⟩
  · rw [List.map_map]
    exact (List.map_id _).symm ▸ JsMap.nodup_firsts _
  · rw [List.map_map]
    refine List.mem_map.mpr ⟨_, JsMap.mem_firsts.mpr (List.mem_map.mpr ⟨(emoji, userId), ?_, rfl⟩),
      rfl⟩
    exact mem_reactionsOf.mpr hmarked
  · obtain ⟨text, htext, rfl⟩ := List.mem_map.mp hchip
    obtain ⟨⟨emoji, someone⟩, hmem, rfl⟩ := List.mem_map.mp (JsMap.mem_firsts.mp htext)
    obtain ⟨hcount, hmine⟩ := under_chip hunique messageId viewer emoji
    refine ⟨emoji, rfl, ?_, hcount, hmine⟩
    exact List.length_pos_of_mem (List.mem_filter.mpr
      ⟨List.mem_map_of_mem hmem, decide_eq_true rfl⟩)

/-! ## Whatever overlaps -/

variable {rows : MessageTable} {reactions : ReactionTable} {acts : List Messages.Reactions.Action}
  {s u : Messages.Reactions.State} {a : Messages.Reactions.Action}

/-- **No reaction is stored twice**, also where statements fail. -/
theorem marksUnique_of_moved (hs : MarksUnique s.reactions) (h : Moved s a u) :
    MarksUnique u.reactions := by
  cases h with
  | deleted hpc hmarked =>
    exact fun r hr r' hr' => hs r (Table.mem_filter.mp hr).1 r' (Table.mem_filter.mp hr').1
  | created hpc hfresh hunmarked hfound => exact hs.put hunmarked
  | message | posted | requested | found | missing | absent | overtaken | orphaned | selected
  | emitted | faulted => exact hs

/-- What is broadcast was read at some moment of the run. -/
def ReadOn (rows : MessageTable) (reactions : ReactionTable)
    (acts : List Messages.Reactions.Action) (event : ReactionChanged) : Prop :=
  ∃ before v, before <+: acts ∧ exec step (start rows reactions) before = some v ∧
    MarksUnique v.reactions ∧ event.reactions = reactionsOf v.reactions event.messageId

/-- The events of a run, and those on their way. -/
structure Reads (rows : MessageTable) (reactions : ReactionTable)
    (acts : List Messages.Reactions.Action) (s : Messages.Reactions.State) : Prop where
  run : exec step (start rows reactions) acts = some s
  unique : MarksUnique s.reactions
  emitting : ∀ c event, s.toggles c = .emitting event → ReadOn rows reactions acts event
  events : ∀ event ∈ s.events, ReadOn rows reactions acts event

theorem ReadOn.mono {event : ReactionChanged} {more : List Messages.Reactions.Action}
    (h : ReadOn rows reactions acts event) : ReadOn rows reactions (acts ++ more) event := by
  obtain ⟨before, v, hprefix, hv⟩ := h
  exact ⟨before, v, hprefix.trans (List.prefix_append _ _), hv⟩

/-- A call goes on, with the events as they are. -/
theorem Reads.goto (hs : Reads rows reactions acts s) (hstep : step s a = some u) {c : ℕ}
    {pc : Call} (htoggles : u.toggles = Function.update s.toggles c pc)
    (hevents : ∀ event ∈ u.events, event ∈ s.events ∨ s.toggles c = .emitting event)
    (hpc : ∀ event, pc = .emitting event → event.reactions = reactionsOf s.reactions event.messageId) :
    Reads rows reactions (acts ++ [a]) u where
  run := by
    rw [exec_append, hs.run, Option.bind_some, exec_cons_of_step hstep]
    rfl
  unique := marksUnique_of_moved hs.unique (moved_of_step hstep)
  emitting c' event h := by
    rw [htoggles] at h
    by_cases hc : c' = c
    · subst hc
      rw [Function.update_self] at h
      exact ⟨acts, s, List.prefix_append _ _, hs.run, hs.unique, hpc event h⟩
    · rw [Function.update_of_ne hc] at h
      exact (hs.emitting c' event h).mono
  events event h := by
    rcases hevents event h with hold | hnew
    · exact (hs.events event hold).mono
    · exact (hs.emitting c event hnew).mono

/-- **A step broadcasts what was read.** -/
theorem Reads.of_step (hs : Reads rows reactions acts s) (hstep : step s a = some u) :
    Reads rows reactions (acts ++ [a]) u := by
  have hmoved : Moved s a u := moved_of_step hstep
  cases hmoved with
  | message | posted =>
    refine ⟨?_, hs.unique, fun c event h => (hs.emitting c event h).mono,
      fun event h => (hs.events event h).mono⟩
    rw [exec_append, hs.run, Option.bind_some, exec_cons_of_step hstep]
    rfl
  | requested hpc | found hpc | missing hpc | deleted hpc | absent hpc | overtaken hpc
  | created hpc | orphaned hpc | faulted hpc =>
    exact hs.goto hstep rfl (fun _ h => Or.inl h) (fun _ h => nomatch h)
  | selected hpc =>
    refine hs.goto hstep rfl (fun _ h => Or.inl h) fun event h => ?_
    cases h
    rfl
  | emitted hpc =>
    refine hs.goto hstep rfl (fun event h => ?_) (fun _ h => nomatch h)
    rcases List.mem_append.mp h with hold | hnew
    · exact Or.inl hold
    · exact Or.inr (List.mem_singleton.mp hnew ▸ hpc)

/-- **Chips tell who has reacted.**  Whatever calls overlap, the chips that any viewer makes of any
broadcast are a count of the reactions as they were at some moment of the run.  Where no call
fails, and those of one user on one emoji are made one after the other, each of them turns the
user's own mark on the chips of the rows that are stored in the end. -/
theorem chips_tell_who_reacted (rows : MessageTable) (reactions : ReactionTable)
    (hunique : MarksUnique reactions) (acts : List Messages.Reactions.Action)
    (s : Messages.Reactions.State) (hs : exec step (start rows reactions) acts = some s) :
    (∀ event ∈ s.events, ∃ before v, before <+: acts ∧
      exec step (start rows reactions) before = some v ∧ ∀ viewer,
        Tally v.reactions event.messageId viewer
          (aggregate (event.reactions.map viewReaction) (viewer.map viewUuid))) ∧
    ∀ messageId userId emoji, AllSteps step Proper (start rows reactions) acts →
      AllSteps step (Apart (messageId, userId, emoji)) (start rows reactions) acts →
        Settled (messageId, userId, emoji) s →
          ((∃ chip ∈ aggregate ((reactionsOf s.reactions messageId).map viewReaction)
              (some (viewUuid userId)), chip.emoji = JsString.ofString emoji ∧ chip.mine = true) ↔
            not^[asked (messageId, userId, emoji) acts]
              (present reactions (messageId, userId, emoji)) = true) := by
  have hstart : Reads rows reactions [] (start rows reactions) :=
    ⟨rfl, hunique, fun _ _ h => (nomatch h), fun _ h => (nomatch h)⟩
  have hreads : Reads rows reactions acts s :=
    of_exec_append (P := Reads rows reactions) (fun _ _ _ _ h hst => h.of_step hst) hstart hs
  refine ⟨fun event hevent => ?_, fun messageId userId emoji hproper hapart hsettled => ?_⟩
  · obtain ⟨before, v, hprefix, hv, hvunique, hread⟩ := hreads.events event hevent
    refine ⟨before, v, hprefix, hv, fun viewer => ?_⟩
    rw [hread]
    exact tally_aggregate hvunique event.messageId viewer
  · have htally := tally_aggregate hreads.unique messageId (some userId)
    rw [← (flipped_of_exec hunique hproper hapart hs).settled hsettled, present, decide_eq_true_iff]
    constructor
    · rintro ⟨chip, hchip, hemoji, hmine⟩
      obtain ⟨emoji', hemoji', -, -, hiff⟩ := htally.sound chip hchip
      obtain rfl : emoji = emoji' := JsString.ofString_injective (hemoji.symm.trans hemoji')
      obtain ⟨userId', huser, hmarked⟩ := hiff.mp hmine
      exact Option.some.inj huser ▸ hmarked
    · intro hmarked
      obtain ⟨chip, hchip, hemoji⟩ := List.mem_map.mp (htally.complete userId emoji hmarked)
      obtain ⟨emoji', hemoji', -, -, hiff⟩ := htally.sound chip hchip
      obtain rfl : emoji = emoji' := JsString.ofString_injective (hemoji.symm.trans hemoji')
      exact ⟨chip, hchip, hemoji, hiff.mpr ⟨userId, rfl, hmarked⟩⟩

/-- Two users react to message 1 at once, and each broadcast is of both reactions. -/
def twoAtOnce : List Messages.Reactions.Action :=
  [ .request 0 ⟨2, 1, 6, "+"⟩, .request 1 ⟨2, 1, 7, "+"⟩, .statement 0 0 epoch,
    .statement 1 0 epoch, .statement 0 0 epoch, .statement 1 0 epoch, .statement 0 8 epoch,
    .statement 1 9 epoch, .statement 0 0 epoch, .statement 1 0 epoch, .emit 0, .emit 1 ]

/-- The second broadcast has both, and so have the rows. -/
theorem chips_tell_who_reacted_twoAtOnce :
    ∃ s, exec step (start oneRow Table.empty) twoAtOnce = some s ∧
      s.events = [⟨2, 1, [("+", 6), ("+", 7)]⟩, ⟨2, 1, [("+", 6), ("+", 7)]⟩] ∧
      (∃ before v, before <+: twoAtOnce ∧ exec step (start oneRow Table.empty) before = some v ∧
        ∀ viewer, Tally v.reactions 1 viewer
          (aggregate ([("+", 6), ("+", 7)].map viewReaction) (viewer.map viewUuid))) ∧
      ∃ chip ∈ aggregate ((reactionsOf s.reactions 1).map viewReaction) (some (viewUuid 6)),
        chip.emoji = JsString.ofString "+" ∧ chip.mine = true := by
  have hunique : MarksUnique Table.empty := fun r hr => absurd hr List.not_mem_nil
  have hstart : Settled (1, 6, "+") (start oneRow Table.empty) :=
    settled_of_idle (n := 0) (fun _ => rfl) (by decide)
  have hrun : ∃ s, exec step (start oneRow Table.empty) twoAtOnce = some s ∧
      s.events = [⟨2, 1, [("+", 6), ("+", 7)]⟩, ⟨2, 1, [("+", 6), ("+", 7)]⟩] ∧
        Settled (1, 6, "+") s := by
    refine ⟨_, rfl, by decide, settled_of_idle (n := 2) (fun _ => rfl) (by decide)⟩
  obtain ⟨s, hs, hevents, hsettled⟩ := hrun
  obtain ⟨hcounted, hturned⟩ :=
    chips_tell_who_reacted oneRow Table.empty hunique twoAtOnce s hs
  refine ⟨s, hs, hevents, ?_, ?_⟩
  · exact hcounted ⟨2, 1, [("+", 6), ("+", 7)]⟩ (hevents ▸ List.mem_cons_self)
  · have hapart : AllSteps step (Apart (1, 6, "+")) (start oneRow Table.empty) twoAtOnce :=
      apart_of_cons hstart (by decide)
    exact (hturned 1 6 "+" (by decide) hapart hsettled).mpr (by decide)

end Client
end GroupChat

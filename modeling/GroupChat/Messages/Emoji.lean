import GroupChat.Text.JsString
import Mathlib.Computability.RegularExpressions
import Mathlib.Data.List.Chain

/-!
# Single emoji

A reaction is accepted when it matches `SINGLE_EMOJI`, which is meant to be one pictograph, or
several joined ones, each with at most one mark: a skin-tone modifier or the variation
selector.  The repetition in the pattern ranges over the marks too, so that a pictograph may
have any number of them.

`mem_matches_iff` says what the pattern matches, `isEmoji_iff` how that differs from what it
is meant to, and `acceptsExactly_iff` where the difference shows: at chains of joined
pictographs with two marks in a row.
-/

namespace GroupChat
namespace Messages
namespace Emoji

open Text

/-! ## Code points -/

/-- What the pattern tells apart. -/
inductive Kind where
  | pictographic
  | modifier
  /-- U+FE0F -/
  | selector
  /-- U+200D -/
  | joiner
  | other
deriving DecidableEq

/-- A modifier or the variation selector. -/
def Kind.isMark : Kind → Bool
  | .modifier | .selector => true
  | .pictographic | .joiner | .other => false

def variationSelector : Char := Char.ofNat 0xFE0F

def zeroWidthJoiner : Char := Char.ofNat 0x200D

/-- The two property classes the pattern names, which have no character in common with each
other or with the two characters it names. -/
structure Classes where
  extendedPictographic : Char → Bool
  emojiModifier : Char → Bool
  disjoint : ∀ c, extendedPictographic c = true → emojiModifier c = false
  selector_not_pictographic : extendedPictographic variationSelector = false
  selector_not_modifier : emojiModifier variationSelector = false
  joiner_not_pictographic : extendedPictographic zeroWidthJoiner = false
  joiner_not_modifier : emojiModifier zeroWidthJoiner = false

/-- What a code point is to the pattern. -/
def Classes.kindOf (classes : Classes) : Scalar → Kind
  | .char c =>
    if classes.extendedPictographic c then .pictographic
    else if classes.emojiModifier c then .modifier
    else if c = variationSelector then .selector
    else if c = zeroWidthJoiner then .joiner
    else .other
  | .stray _ => .other

/-- The kinds of the code points of a string. -/
def Classes.kinds (classes : Classes) (s : JsString) : List Kind :=
  (scalars s).map classes.kindOf

/-- **The kind of a character says which parts of the pattern it matches.** -/
theorem Classes.kindOf_char (classes : Classes) (c : Char) :
    (classes.kindOf (.char c) = .pictographic ↔ classes.extendedPictographic c = true) ∧
      (classes.kindOf (.char c) = .modifier ↔ classes.emojiModifier c = true) ∧
        (classes.kindOf (.char c) = .selector ↔ c = variationSelector) ∧
          (classes.kindOf (.char c) = .joiner ↔ c = zeroWidthJoiner) := by
  have hdistinct : variationSelector ≠ zeroWidthJoiner := by decide
  have hselector : c = variationSelector →
      classes.extendedPictographic c = false ∧ classes.emojiModifier c = false := by
    rintro rfl
    exact ⟨classes.selector_not_pictographic, classes.selector_not_modifier⟩
  have hjoiner : c = zeroWidthJoiner →
      classes.extendedPictographic c = false ∧ classes.emojiModifier c = false := by
    rintro rfl
    exact ⟨classes.joiner_not_pictographic, classes.joiner_not_modifier⟩
  have hdisjoint := classes.disjoint c
  unfold Classes.kindOf
  dsimp only
  split_ifs with hpictographic hmodifier hvs hzwj
  · have hnot := hdisjoint hpictographic
    refine ⟨by simp [hpictographic], by simp [hnot], ?_, ?_⟩
    · exact iff_of_false (by simp) fun h => by simp [(hselector h).1] at hpictographic
    · exact iff_of_false (by simp) fun h => by simp [(hjoiner h).1] at hpictographic
  · refine ⟨by simp [hpictographic], by simp [hmodifier], ?_, ?_⟩
    · exact iff_of_false (by simp) fun h => by simp [(hselector h).2] at hmodifier
    · exact iff_of_false (by simp) fun h => by simp [(hjoiner h).2] at hmodifier
  · exact ⟨by simp [hpictographic], by simp [hmodifier], by simp [hvs],
      by simpa [hvs] using hdistinct⟩
  · exact ⟨by simp [hpictographic], by simp [hmodifier], by simpa using hvs, by simp [hzwj]⟩
  · exact ⟨by simp [hpictographic], by simp [hmodifier], by simpa using hvs, by simpa using hzwj⟩

/-! ## The pattern -/

/-- A modifier or the variation selector. -/
def markPattern : RegularExpression Kind :=
  RegularExpression.char Kind.modifier + RegularExpression.char Kind.selector

/-- A pictograph that is joined to what stands before, perhaps with a mark. -/
def joinedPattern : RegularExpression Kind :=
  RegularExpression.char Kind.joiner * RegularExpression.char Kind.pictographic *
    (1 + markPattern)

/-- `SINGLE_EMOJI`, on the kinds of the code points. -/
def SINGLE_EMOJI : RegularExpression Kind :=
  RegularExpression.char Kind.pictographic * (markPattern + joinedPattern).star

/-- The pattern matches the whole string, code point by code point. -/
def matchesSingleEmoji (classes : Classes) (s : JsString) : Bool :=
  SINGLE_EMOJI.rmatch (classes.kinds s)

/-- `ToggleReactionDto`, with the check of the length as it is given. -/
def toggleReactionDto (hasLength : JsString → Bool) (classes : Classes) (emoji : JsString) :
    Bool :=
  hasLength emoji && matchesSingleEmoji classes emoji

/-! ## What it matches -/

/-- What may follow a pictograph in a chain: marks, and pictographs that are joined to it. -/
inductive Tail : List Kind → Prop
  | nil : Tail []
  | mark {m : Kind} {t : List Kind} (hm : m.isMark = true) (ht : Tail t) : Tail (m :: t)
  | join {t : List Kind} (ht : Tail t) : Tail (.joiner :: .pictographic :: t)

/-- Joined pictographs, each followed by any marks. -/
def Chain (w : List Kind) : Prop := ∃ t, w = .pictographic :: t ∧ Tail t

theorem Tail.append {t u : List Kind} (ht : Tail t) (hu : Tail u) : Tail (t ++ u) := by
  induction ht with
  | nil => exact hu
  | mark hm _ ih => exact .mark hm ih
  | join _ ih => exact .join ih

theorem mem_markPattern_iff {y : List Kind} :
    y ∈ markPattern.matches' ↔ ∃ m : Kind, m.isMark = true ∧ y = [m] := by
  unfold markPattern
  rw [RegularExpression.matches'_add, Language.mem_add, RegularExpression.matches'_char,
    RegularExpression.matches'_char]
  constructor
  · rintro (h | h)
    · exact ⟨.modifier, rfl, h⟩
    · exact ⟨.selector, rfl, h⟩
  · rintro ⟨m, hm, rfl⟩
    cases m with
    | modifier => exact Or.inl rfl
    | selector => exact Or.inr rfl
    | pictographic => cases hm
    | joiner => cases hm
    | other => cases hm

theorem mem_joinedPattern_iff {y : List Kind} :
    y ∈ joinedPattern.matches' ↔
      ∃ t, y = .joiner :: .pictographic :: t ∧ (t = [] ∨ t ∈ markPattern.matches') := by
  unfold joinedPattern
  simp only [RegularExpression.matches'_mul, RegularExpression.matches'_char,
    RegularExpression.matches'_add, RegularExpression.matches'_epsilon, Language.mem_mul,
    Language.mem_add, Language.mem_one]
  constructor
  · rintro ⟨front, ⟨a, ha, b, hb, rfl⟩, t, ht, rfl⟩
    rw [Set.mem_singleton_iff.mp ha, Set.mem_singleton_iff.mp hb]
    exact ⟨t, rfl, ht⟩
  · rintro ⟨t, rfl, ht⟩
    exact ⟨_, ⟨[.joiner], rfl, [.pictographic], rfl, rfl⟩, t, ht, rfl⟩

/-- One round of the repetition. -/
theorem tail_of_mem_round {y : List Kind} (h : y ∈ (markPattern + joinedPattern).matches') :
    Tail y := by
  rw [RegularExpression.matches'_add, Language.mem_add] at h
  rcases h with h | h
  · obtain ⟨m, hm, rfl⟩ := mem_markPattern_iff.mp h
    exact .mark hm .nil
  · obtain ⟨t, rfl, rfl | ht⟩ := mem_joinedPattern_iff.mp h
    · exact .join .nil
    · obtain ⟨m, hm, rfl⟩ := mem_markPattern_iff.mp ht
      exact .join (.mark hm .nil)

/-- The repetition. -/
theorem mem_star_iff {t : List Kind} :
    t ∈ (markPattern + joinedPattern).star.matches' ↔ Tail t := by
  rw [RegularExpression.matches'_star, Language.mem_kstar]
  constructor
  · rintro ⟨rounds, rfl, hrounds⟩
    induction rounds with
    | nil => exact .nil
    | cons y rounds ih =>
      rw [List.flatten_cons]
      exact (tail_of_mem_round (hrounds y List.mem_cons_self)).append
        (ih fun z hz => hrounds z (List.mem_cons_of_mem y hz))
  · intro ht
    induction ht with
    | nil => exact ⟨[], rfl, fun y hy => absurd hy List.not_mem_nil⟩
    | @mark m t hm _ ih =>
      obtain ⟨rounds, rfl, hrounds⟩ := ih
      refine ⟨[m] :: rounds, rfl, List.forall_mem_cons.mpr ⟨?_, hrounds⟩⟩
      exact Or.inl (mem_markPattern_iff.mpr ⟨m, hm, rfl⟩)
    | @join t _ ih =>
      obtain ⟨rounds, rfl, hrounds⟩ := ih
      refine ⟨[.joiner, .pictographic] :: rounds, rfl, List.forall_mem_cons.mpr ⟨?_, hrounds⟩⟩
      exact Or.inr (mem_joinedPattern_iff.mpr ⟨[], rfl, Or.inl rfl⟩)

/-- **The pattern matches chains.** -/
theorem rmatch_iff_chain (w : List Kind) : SINGLE_EMOJI.rmatch w = true ↔ Chain w := by
  rw [RegularExpression.rmatch_iff_matches', SINGLE_EMOJI, RegularExpression.matches'_mul,
    RegularExpression.matches'_char, Language.mem_mul]
  constructor
  · rintro ⟨a, ha, t, ht, rfl⟩
    rw [Set.mem_singleton_iff.mp ha]
    exact ⟨t, rfl, mem_star_iff.mp ht⟩
  · rintro ⟨t, rfl, ht⟩
    exact ⟨[.pictographic], rfl, t, mem_star_iff.mpr ht, rfl⟩

/-! ## What it is meant to match -/

/-- A pictograph, perhaps with a mark: `P M?`. -/
inductive Pictograph : List Kind → Prop
  | bare : Pictograph [.pictographic]
  | marked {m : Kind} (hm : m.isMark = true) : Pictograph [.pictographic, m]

/-- A single emoji: `P M? (ZWJ P M?)*`. -/
inductive IsEmoji : List Kind → Prop
  | single {u : List Kind} (hu : Pictograph u) : IsEmoji u
  | joined {u w : List Kind} (hu : Pictograph u) (hw : IsEmoji w) : IsEmoji (u ++ .joiner :: w)

/-- No two marks are adjacent. -/
def MarksApart (w : List Kind) : Prop :=
  w.IsChain fun a b => ¬ (a.isMark = true ∧ b.isMark = true)

instance (w : List Kind) : Decidable (MarksApart w) := inferInstanceAs (Decidable (List.IsChain _ _))

/-- A pictograph after the first one is joined to what stands before. -/
def PictographsJoined (w : List Kind) : Prop :=
  w.IsChain fun a b => b = .pictographic → a = .joiner

theorem marksApart_cons_cons {a b : Kind} {w : List Kind} :
    MarksApart (a :: b :: w) ↔ ¬ (a.isMark = true ∧ b.isMark = true) ∧ MarksApart (b :: w) :=
  List.isChain_cons_cons

/-- What stands before something that is no mark does not matter. -/
theorem MarksApart.cons {a b : Kind} {w : List Kind} (h : MarksApart (b :: w))
    (hb : b.isMark = false) : MarksApart (a :: b :: w) :=
  marksApart_cons_cons.mpr ⟨fun hmarks => by simp [hb] at hmarks, h⟩

theorem IsEmoji.chain {w : List Kind} (h : IsEmoji w) : Chain w ∧ MarksApart w := by
  induction h with
  | single hu =>
    cases hu with
    | bare => exact ⟨⟨[], rfl, .nil⟩, List.isChain_singleton _⟩
    | marked hm =>
      exact ⟨⟨_, rfl, .mark hm .nil⟩,
        marksApart_cons_cons.mpr ⟨fun h => absurd h.1 Bool.false_ne_true, List.isChain_singleton _⟩⟩
  | joined hu _ ih =>
    obtain ⟨⟨t, rfl, ht⟩, hapart⟩ := ih
    have hjoined : MarksApart (.joiner :: .pictographic :: t) := hapart.cons rfl
    cases hu with
    | bare => exact ⟨⟨_, rfl, .join ht⟩, hjoined.cons rfl⟩
    | marked hm =>
      exact ⟨⟨_, rfl, .mark hm (.join ht)⟩,
        marksApart_cons_cons.mpr ⟨fun h => absurd h.1 Bool.false_ne_true, hjoined.cons rfl⟩⟩

/-- What follows a pictograph, with a mark or without: `t` is the rest after either. -/
theorem Tail.isEmoji {t : List Kind} (ht : Tail t) (hapart : MarksApart t) :
    IsEmoji (.pictographic :: t) ∧
      ∀ m : Kind, m.isMark = true → MarksApart (m :: t) → IsEmoji (.pictographic :: m :: t) := by
  induction ht with
  | nil => exact ⟨.single .bare, fun m hm _ => .single (.marked hm)⟩
  | @mark m t hm ht ih =>
    constructor
    · exact (ih hapart.tail).2 m hm hapart
    · -- two marks in a row are not apart
      intro m' hm' hapart'
      exact absurd ⟨hm', hm⟩ (marksApart_cons_cons.mp hapart').1
  | @join t ht ih =>
    have hrest : IsEmoji (.pictographic :: t) := (ih hapart.tail.tail).1
    exact ⟨.joined .bare hrest, fun m hm _ => .joined (.marked hm) hrest⟩

/-- **A single emoji is a chain in which no two marks are adjacent.** -/
theorem isEmoji_iff {w : List Kind} : IsEmoji w ↔ Chain w ∧ MarksApart w := by
  constructor
  · exact IsEmoji.chain
  · rintro ⟨⟨t, rfl, ht⟩, hapart⟩
    exact (ht.isEmoji hapart.tail).1

/-- The pictographs of a chain are joined. -/
theorem Chain.pictographsJoined {w : List Kind} (h : Chain w) : PictographsJoined w := by
  obtain ⟨t, rfl, ht⟩ := h
  generalize Kind.pictographic = a
  induction ht generalizing a with
  | nil => exact List.isChain_singleton _
  | @mark m t hm _ ih =>
    refine List.isChain_cons_cons.mpr ⟨fun h => ?_, ih m⟩
    rw [h] at hm
    cases hm
  | @join t _ ih =>
    refine List.isChain_cons_cons.mpr ⟨fun h => (Kind.noConfusion h), ?_⟩
    exact List.isChain_cons_cons.mpr ⟨fun _ => rfl, ih _⟩

/-! ## The validator -/

/-- At a string the validator accepts exactly single emoji. -/
structure AcceptsExactly (hasLength : JsString → Bool) (classes : Classes) (s : JsString) :
    Prop where
  accepts_iff : toggleReactionDto hasLength classes s = true ↔ IsEmoji (classes.kinds s)
  /-- In particular there are no two marks in a row, -/
  marksApart : toggleReactionDto hasLength classes s = true → MarksApart (classes.kinds s)
  /-- and pictographs are joined. -/
  pictographsJoined :
    toggleReactionDto hasLength classes s = true → PictographsJoined (classes.kinds s)

/-- **Where the validator is exact**: everywhere but at a chain with two marks in a row. -/
theorem acceptsExactly_iff (hasLength : JsString → Bool) (classes : Classes) (s : JsString)
    (hs : hasLength s = true) :
    AcceptsExactly hasLength classes s ↔
      (Chain (classes.kinds s) → MarksApart (classes.kinds s)) := by
  have haccepts : toggleReactionDto hasLength classes s = true ↔ Chain (classes.kinds s) := by
    unfold toggleReactionDto matchesSingleEmoji
    rw [hs, Bool.true_and]
    exact rmatch_iff_chain (classes.kinds s)
  constructor
  · exact fun h hchain => h.marksApart (haccepts.mpr hchain)
  · intro h
    refine ⟨?_, fun hs => h (haccepts.mp hs), fun hs => (haccepts.mp hs).pictographsJoined⟩
    rw [haccepts, isEmoji_iff]
    exact ⟨fun hchain => ⟨hchain, h hchain⟩, And.left⟩

/-- The thumbs-up sign is a pictograph, and the modifiers are the five skin tones. -/
def thumbs : Classes where
  extendedPictographic c := c.toNat = 0x1F44D
  emojiModifier c := 0x1F3FB ≤ c.toNat ∧ c.toNat ≤ 0x1F3FF
  disjoint c hc := by
    rw [decide_eq_true_eq] at hc
    rw [decide_eq_false_iff_not]
    omega
  selector_not_pictographic := by decide
  selector_not_modifier := by decide
  joiner_not_pictographic := by decide
  joiner_not_modifier := by decide

/-- From one to sixteen characters. -/
def upToSixteen (s : JsString) : Bool :=
  decide (1 ≤ (scalars s).length ∧ (scalars s).length ≤ 16)

/-- A thumbs-up sign with two skin tones. -/
def twoTones : JsString := [0xD83D, 0xDC4D, 0xD83C, 0xDFFD, 0xD83C, 0xDFFD]

theorem kinds_twoTones : thumbs.kinds twoTones = [.pictographic, .modifier, .modifier] := by decide

/-- **A pictograph with two skin tones is accepted.** -/
theorem not_acceptsExactly_twoTones : ¬ AcceptsExactly upToSixteen thumbs twoTones := by
  intro h
  have hmatches : matchesSingleEmoji thumbs twoTones = true := by
    unfold matchesSingleEmoji
    rw [kinds_twoTones, rmatch_iff_chain]
    exact ⟨_, rfl, .mark rfl (.mark rfl .nil)⟩
  have hlength : upToSixteen twoTones = true := by decide
  have haccepted : toggleReactionDto upToSixteen thumbs twoTones = true := by
    unfold toggleReactionDto
    rw [hlength, hmatches]
    rfl
  have hapart := h.marksApart haccepted
  rw [kinds_twoTones] at hapart
  exact absurd hapart (by decide)

/-- With one skin tone the validator is exact. -/
theorem acceptsExactly_iff_oneTone :
    AcceptsExactly upToSixteen thumbs [0xD83D, 0xDC4D, 0xD83C, 0xDFFD] :=
  (acceptsExactly_iff upToSixteen thumbs _ (by decide)).mpr fun _ => by decide

end Emoji
end Messages
end GroupChat

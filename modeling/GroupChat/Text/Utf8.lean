import GroupChat.Text.JsString
import Mathlib.Algebra.Group.Nat.Defs

/-!
# UTF-8

`encode` writes a text as bytes.  `decode` reads any bytes as a text, and is the
decoder platforms share: it reads one byte at a time, remembers how many more
bytes the current character needs and in which range the next one has to lie,
and writes one replacement character for what it has to give up.  A byte that
ends a character too early is read again as the first byte of the next one.

`decode_encode` says that whatever was encoded reads back as itself.  What other
bytes are read as is said without the decoder: `Reads` takes off the bytes of a
character where there is one, and elsewhere the longest beginning of one, for which
it has the replacement character.  `decode_eq_iff` is that the decoder returns what
the bytes are read as and nothing else.  A pending character is met there by the
bytes it has and by the characters that begin with them (`Pending.Awaits`).
-/

namespace GroupChat
namespace Text
namespace Utf8

/-- What the decoder writes for bytes that are no character. -/
def replacement : Char := Char.ofNat 0xFFFD

/-- A character some of whose bytes are still to come. -/
structure Pending where
  /-- How many bytes it still needs. -/
  needed : ℕ
  /-- The least byte that may come next. -/
  lower : ℕ
  /-- The greatest one. -/
  upper : ℕ
  /-- The bits read so far. -/
  value : ℕ
deriving DecidableEq

/-- Read the first byte of a character: what is written, and what is pending. -/
def lead (b : ℕ) : List Char × Option Pending :=
  if b < 0x80 then ([Char.ofNat b], none)
  else if 0xC2 ≤ b ∧ b ≤ 0xDF then ([], some ⟨1, 0x80, 0xBF, b % 0x20⟩)
  else if 0xE0 ≤ b ∧ b ≤ 0xEF then
    -- the ranges leave out overlong forms and surrogates
    ([], some ⟨2, if b = 0xE0 then 0xA0 else 0x80, if b = 0xED then 0x9F else 0xBF, b % 0x10⟩)
  else if 0xF0 ≤ b ∧ b ≤ 0xF4 then
    ([], some ⟨3, if b = 0xF0 then 0x90 else 0x80, if b = 0xF4 then 0x8F else 0xBF, b % 0x08⟩)
  else ([replacement], none)

/-- Read a further byte of a character. -/
def continuation (p : Pending) (b : ℕ) : List Char × Option Pending :=
  if p.lower ≤ b ∧ b ≤ p.upper then
    if p.needed = 1 then ([Char.ofNat (p.value * 0x40 + b % 0x40)], none)
    else ([], some ⟨p.needed - 1, 0x80, 0xBF, p.value * 0x40 + b % 0x40⟩)
  else (replacement :: (lead b).1, (lead b).2)

/-- Read one byte. -/
def next : Option Pending → ℕ → List Char × Option Pending
  | none, b => lead b
  | some p, b => continuation p b

/-- Read the rest of the bytes. -/
def decodeFrom : Option Pending → List UInt8 → List Char
  | none, [] => []
  | some _, [] => [replacement]
  | p, b :: bs => (next p b.toNat).1 ++ decodeFrom (next p b.toNat).2 bs

/-- The text some bytes are read as. -/
def decode (bs : List UInt8) : List Char := decodeFrom none bs

/-- The bytes a text is written as. -/
def encode (cs : List Char) : List UInt8 := cs.flatMap String.utf8EncodeChar

/-! ## Reading back -/

theorem decodeFrom_cons (p : Option Pending) (b : UInt8) (bs : List UInt8) :
    decodeFrom p (b :: bs) = (next p b.toNat).1 ++ decodeFrom (next p b.toNat).2 bs := by
  cases p <;> rfl

/-- A byte written for a number is read as that number. -/
theorem toNat_byte {n : ℕ} (h : n < 256) : (UInt8.ofNat n).toNat = n :=
  Nat.mod_eq_of_lt h

theorem lead_of_lt {b : ℕ} (h : b < 0x80) : lead b = ([Char.ofNat b], none) := by
  unfold lead
  rw [if_pos h]

theorem lead_two {b : ℕ} (h : 0xC2 ≤ b) (h' : b ≤ 0xDF) :
    lead b = ([], some ⟨1, 0x80, 0xBF, b % 0x20⟩) := by
  unfold lead
  rw [if_neg (by omega), if_pos ⟨h, h'⟩]

theorem lead_three {b : ℕ} (h : 0xE0 ≤ b) (h' : b ≤ 0xEF) :
    lead b = ([], some ⟨2, if b = 0xE0 then 0xA0 else 0x80, if b = 0xED then 0x9F else 0xBF,
      b % 0x10⟩) := by
  unfold lead
  rw [if_neg (by omega), if_neg (by omega), if_pos ⟨h, h'⟩]

theorem lead_four {b : ℕ} (h : 0xF0 ≤ b) (h' : b ≤ 0xF4) :
    lead b = ([], some ⟨3, if b = 0xF0 then 0x90 else 0x80, if b = 0xF4 then 0x8F else 0xBF,
      b % 0x08⟩) := by
  unfold lead
  rw [if_neg (by omega), if_neg (by omega), if_neg (by omega), if_pos ⟨h, h'⟩]

theorem lead_other {b : ℕ} (h : 0x80 ≤ b) (htwo : ¬(0xC2 ≤ b ∧ b ≤ 0xDF))
    (hthree : ¬(0xE0 ≤ b ∧ b ≤ 0xEF)) (hfour : ¬(0xF0 ≤ b ∧ b ≤ 0xF4)) :
    lead b = ([replacement], none) := by
  unfold lead
  rw [if_neg (by omega), if_neg htwo, if_neg hthree, if_neg hfour]

theorem next_last {lower upper value b : ℕ} (h : lower ≤ b) (h' : b ≤ upper) :
    next (some ⟨1, lower, upper, value⟩) b = ([Char.ofNat (value * 0x40 + b % 0x40)], none) := by
  show continuation _ b = _
  unfold continuation
  rw [if_pos ⟨h, h'⟩, if_pos rfl]

theorem next_more {k lower upper value b : ℕ} (h : lower ≤ b) (h' : b ≤ upper) :
    next (some ⟨k + 2, lower, upper, value⟩) b =
      ([], some ⟨k + 1, 0x80, 0xBF, value * 0x40 + b % 0x40⟩) := by
  show continuation _ b = _
  unfold continuation
  rw [if_pos ⟨h, h'⟩, if_neg (by simp)]
  rfl

/-- **The bytes of one character read back as the character.** -/
theorem decodeFrom_encodeChar (c : Char) (bs : List UInt8) :
    decodeFrom none (String.utf8EncodeChar c ++ bs) = c :: decodeFrom none bs := by
  have hvalid : c.toNat < 0xD800 ∨ 0xDFFF < c.toNat ∧ c.toNat < 0x110000 := c.valid
  have hc : Char.ofNat c.toNat = c := Char.ofNat_toNat c
  have hval : c.val.toNat = c.toNat := rfl
  unfold String.utf8EncodeChar
  rw [hval]
  generalize c.toNat = v at hvalid hc
  dsimp only
  split_ifs with h1 h2 h3
  · rw [List.singleton_append, decodeFrom_cons, toNat_byte (by omega), next, lead_of_lt (by omega),
      hc]
    rfl
  · rw [List.cons_append, List.singleton_append, decodeFrom_cons, toNat_byte (by omega), next,
      lead_two (by omega) (by omega), List.nil_append, decodeFrom_cons, toNat_byte (by omega),
      next_last (by omega) (by omega)]
    have hv : (v / 64 % 32 + 192) % 32 * 64 + (v % 64 + 128) % 64 = v := by omega
    rw [hv, hc]
    rfl
  · have hlower : (if v / 4096 % 16 + 224 = 224 then 160 else 128) ≤ v / 64 % 64 + 128 := by
      split_ifs <;> omega
    have hupper : v / 64 % 64 + 128 ≤ (if v / 4096 % 16 + 224 = 237 then 159 else 191) := by
      split_ifs <;> omega
    rw [List.cons_append, List.cons_append, List.singleton_append, decodeFrom_cons,
      toNat_byte (by omega), next, lead_three (by omega) (by omega), List.nil_append,
      decodeFrom_cons, toNat_byte (by omega), next_more hlower hupper, List.nil_append,
      decodeFrom_cons, toNat_byte (by omega), next_last (by omega) (by omega)]
    have hv : ((v / 4096 % 16 + 224) % 16 * 64 + (v / 64 % 64 + 128) % 64) * 64 +
        (v % 64 + 128) % 64 = v := by omega
    rw [hv, hc]
    rfl
  · have hlower : (if v / 262144 % 8 + 240 = 240 then 144 else 128) ≤ v / 4096 % 64 + 128 := by
      split_ifs <;> omega
    have hupper : v / 4096 % 64 + 128 ≤ (if v / 262144 % 8 + 240 = 244 then 143 else 191) := by
      split_ifs <;> omega
    rw [List.cons_append, List.cons_append, List.cons_append, List.singleton_append,
      decodeFrom_cons, toNat_byte (by omega), next, lead_four (by omega) (by omega),
      List.nil_append, decodeFrom_cons, toNat_byte (by omega), next_more hlower hupper,
      List.nil_append, decodeFrom_cons, toNat_byte (by omega), next_more (by omega) (by omega),
      List.nil_append, decodeFrom_cons, toNat_byte (by omega), next_last (by omega) (by omega)]
    have hv : (((v / 262144 % 8 + 240) % 8 * 64 + (v / 4096 % 64 + 128) % 64) * 64 +
        (v / 64 % 64 + 128) % 64) * 64 + (v % 64 + 128) % 64 = v := by omega
    rw [hv, hc]
    rfl

/-- **Round trip.**  Encoded text decodes to itself. -/
theorem decode_encode (cs : List Char) : decode (encode cs) = cs := by
  unfold decode encode
  induction cs with
  | nil => rfl
  | cons c cs ih => rw [List.flatMap_cons, decodeFrom_encodeChar, ih]

/-! ## What bytes are read as -/

/-- A character begins with the bytes. -/
def Begins (sub : List UInt8) : Prop := ∃ c, sub <+: String.utf8EncodeChar c

/-- The bytes `sub`, with `bs` after them, are no character and are given up together: they
are as many as a character begins with, and otherwise a single one. -/
structure Subpart (sub bs : List UInt8) : Prop where
  illFormed : ∀ c, ¬String.utf8EncodeChar c <+: sub ++ bs
  ne_nil : sub ≠ []
  begins : Begins sub ∨ sub.length = 1
  maximal : ∀ longer, longer <+: sub ++ bs → sub.length < longer.length → ¬Begins longer

/-- **What bytes are read as.** -/
inductive Reads : List UInt8 → List Char → Prop
  | nil : Reads [] []
  | char (c : Char) {bs : List UInt8} {cs : List Char} (rest : Reads bs cs) :
      Reads (String.utf8EncodeChar c ++ bs) (c :: cs)
  | replaced {sub bs : List UInt8} {cs : List Char} (h : Subpart sub bs) (rest : Reads bs cs) :
      Reads (sub ++ bs) (replacement :: cs)

/-! ## There is one way to read bytes -/

/-- Where two characters are encoded, they are the same and so is what follows. -/
theorem encodeChar_append_inj {c d : Char} {bs cs : List UInt8}
    (h : String.utf8EncodeChar c ++ bs = String.utf8EncodeChar d ++ cs) : c = d ∧ bs = cs := by
  have hcd : c = d := by
    have hdecode := congrArg (decodeFrom none) h
    rw [decodeFrom_encodeChar, decodeFrom_encodeChar] at hdecode
    exact (List.cons.inj hdecode).1
  subst hcd
  exact ⟨rfl, List.append_cancel_left h⟩

/-- No character begins with all of another. -/
theorem eq_of_encodeChar_prefix {c d : Char}
    (h : String.utf8EncodeChar c <+: String.utf8EncodeChar d) : c = d := by
  obtain ⟨rest, hrest⟩ := h
  rw [← List.append_nil (String.utf8EncodeChar d)] at hrest
  exact (encodeChar_append_inj hrest).1

/-- What is given up is as long as it can be. -/
theorem Subpart.length_le {sub sub' bs bs' : List UInt8} (h : Subpart sub bs)
    (h' : Subpart sub' bs') (heq : sub ++ bs = sub' ++ bs') : sub'.length ≤ sub.length := by
  refine Nat.le_of_not_lt fun hlt => ?_
  have hprefix : sub' <+: sub ++ bs := heq ▸ List.prefix_append sub' bs'
  rcases h'.begins with hbegins | hone
  · exact h.maximal sub' hprefix hlt hbegins
  · have hpos := List.length_pos_iff.mpr h.ne_nil
    omega

theorem Reads.unique {bs : List UInt8} {cs ds : List Char} (h : Reads bs cs) (h' : Reads bs ds) :
    cs = ds := by
  induction h generalizing ds with
  | nil =>
    generalize hnil : ([] : List UInt8) = bs at h'
    cases h' with
    | nil => rfl
    | char c =>
      have hdecode := decodeFrom_encodeChar c []
      rw [List.append_eq_nil_iff.mp hnil.symm |>.1] at hdecode
      cases hdecode
    | replaced h => exact absurd (List.append_eq_nil_iff.mp hnil.symm).1 h.ne_nil
  | @char c bs cs _ ih =>
    generalize heq : String.utf8EncodeChar c ++ bs = all at h'
    cases h' with
    | nil =>
      have hdecode := decodeFrom_encodeChar c bs
      rw [heq] at hdecode
      cases hdecode
    | char d rest =>
      obtain ⟨rfl, rfl⟩ := encodeChar_append_inj heq
      rw [ih rest]
    | replaced h => exact absurd (heq ▸ List.prefix_append _ bs) (h.illFormed c)
  | @replaced sub bs cs h _ ih =>
    generalize heq : sub ++ bs = all at h'
    cases h' with
    | nil => exact absurd (List.append_eq_nil_iff.mp heq).1 h.ne_nil
    | char c => exact absurd (heq ▸ List.prefix_append _ _) (h.illFormed c)
    | replaced h' rest =>
      have hlength := Nat.le_antisymm (h'.length_le h heq.symm) (h.length_le h' heq)
      obtain ⟨rfl, rfl⟩ := List.append_inj heq hlength
      rw [ih rest]

/-! ## What a pending character waits for -/

/-- The number has the bits that have been read, and its next byte is in range. -/
def Pending.Fits (p : Pending) (n : ℕ) : Prop :=
  n / 64 ^ p.needed = p.value ∧ p.lower ≤ n / 64 ^ (p.needed - 1) % 64 + 128 ∧
    n / 64 ^ (p.needed - 1) % 64 + 128 ≤ p.upper

/-- The last `k` bytes of the character with a number. -/
def trailing : ℕ → ℕ → List UInt8
  | 0, _ => []
  | k + 1, n => UInt8.ofNat (n / 64 ^ k % 64 + 128) :: trailing k n

/-- The bytes `sub` have been read: the characters that begin with them are those that
fit. -/
structure Pending.Awaits (p : Pending) (sub : List UInt8) : Prop where
  ne_nil : sub ≠ []
  needed : p.needed = 1 ∨ p.needed = 2 ∨ p.needed = 3
  lower : 0x80 ≤ p.lower
  range : p.lower ≤ p.upper
  upper : p.upper ≤ 0xBF
  fits : ∀ c, sub <+: String.utf8EncodeChar c → p.Fits c.toNat
  encode : ∀ n, p.Fits n → (Char.ofNat n).toNat = n ∧
    String.utf8EncodeChar (Char.ofNat n) = sub ++ trailing p.needed n

variable {p : Pending} {sub : List UInt8}

theorem Pending.Awaits.exists_fits (h : p.Awaits sub) : ∃ n, p.Fits n := by
  have hlower := h.lower
  have hrange := h.range
  have hupper := h.upper
  refine ⟨p.value * 64 ^ p.needed + (p.lower - 128) * 64 ^ (p.needed - 1), ?_⟩
  unfold Pending.Fits
  rcases h.needed with hneeded | hneeded | hneeded <;> rw [hneeded] <;>
    simp only [Nat.reduceSub, Nat.reducePow] <;> omega

theorem Pending.Awaits.begins (h : p.Awaits sub) : Begins sub := by
  obtain ⟨n, hn⟩ := h.exists_fits
  exact ⟨Char.ofNat n, (h.encode n hn).2 ▸ List.prefix_append _ _⟩

/-- A character goes on with a byte only if the byte is in range. -/
theorem Pending.Awaits.range_of_begins (h : p.Awaits sub) {b : UInt8} {c : Char}
    (hc : sub ++ [b] <+: String.utf8EncodeChar c) :
    p.Fits c.toNat ∧ b.toNat = c.toNat / 64 ^ (p.needed - 1) % 64 + 128 := by
  have hfits := h.fits c ((List.prefix_append _ _).trans hc)
  refine ⟨hfits, ?_⟩
  have hencode := (h.encode _ hfits).2
  rw [Char.ofNat_toNat] at hencode
  rw [hencode, List.prefix_append_right_inj] at hc
  have hnext : trailing p.needed c.toNat = UInt8.ofNat (c.toNat / 64 ^ (p.needed - 1) % 64 + 128) ::
      trailing (p.needed - 1) c.toNat := by
    rcases h.needed with hneeded | hneeded | hneeded <;> rw [hneeded] <;> rfl
  rw [hnext, List.cons_prefix_cons] at hc
  rw [hc.1, toNat_byte (by omega)]

/-- What is pending is given up at the end and before a byte out of range. -/
theorem Pending.Awaits.subpart (h : p.Awaits sub) {bs : List UInt8}
    (hstop : ∀ b ∈ bs.head?, ¬(p.lower ≤ b.toNat ∧ b.toNat ≤ p.upper)) : Subpart sub bs := by
  have hno : ∀ longer, longer <+: sub ++ bs → sub.length < longer.length → ¬Begins longer := by
    rintro longer hlonger hlength ⟨c, hc⟩
    obtain ⟨rest, rfl⟩ : sub <+: longer :=
      List.prefix_of_prefix_length_le (List.prefix_append _ _) hlonger (Nat.le_of_lt hlength)
    cases rest with
    | nil => simp at hlength
    | cons b rest =>
      have hsnoc : sub ++ [b] <+: String.utf8EncodeChar c :=
        List.IsPrefix.trans ⟨rest, by simp⟩ hc
      have hhead : b ∈ bs.head? := by
        rw [List.prefix_append_right_inj] at hlonger
        obtain ⟨more, rfl⟩ := hlonger
        rfl
      obtain ⟨hfits, hb⟩ := h.range_of_begins hsnoc
      exact hstop b hhead (hb ▸ hfits.2)
  refine ⟨fun c hc => ?_, h.ne_nil, Or.inl h.begins, hno⟩
  rcases Nat.lt_or_ge sub.length (String.utf8EncodeChar c).length with hlt | hge
  · exact hno _ hc hlt ⟨c, List.prefix_rfl⟩
  · -- all of the character has been read, while more is waited for
    have hprefix : String.utf8EncodeChar c <+: sub :=
      List.prefix_of_prefix_length_le hc (List.prefix_append _ _) hge
    obtain ⟨n, hn⟩ := h.exists_fits
    have hencode := (h.encode n hn).2
    have hcn : c = Char.ofNat n := eq_of_encodeChar_prefix
      (hencode ▸ hprefix.trans (List.prefix_append _ _))
    have hlength := congrArg List.length hencode
    rw [← hcn, List.length_append] at hlength
    have hpos : 0 < (trailing p.needed n).length := by
      rcases h.needed with hneeded | hneeded | hneeded <;> rw [hneeded] <;> exact Nat.succ_pos _
    omega

/-- A byte in range, and more are needed. -/
theorem Pending.Awaits.more (h : p.Awaits sub) {b : UInt8} (hb : p.lower ≤ b.toNat)
    (hb' : b.toNat ≤ p.upper) (hmore : p.needed ≠ 1) :
    Pending.Awaits ⟨p.needed - 1, 0x80, 0xBF, p.value * 0x40 + b.toNat % 0x40⟩ (sub ++ [b]) := by
  have hlower := h.lower
  have hupper := h.upper
  refine ⟨by simp, ?_, Nat.le_refl _, (by decide : 0x80 ≤ 0xBF), Nat.le_refl _, fun c hc => ?_,
    fun n hn => ?_⟩
  · have hneeded := h.needed
    dsimp only
    omega
  · obtain ⟨⟨hvalue, -⟩, hbyte⟩ := h.range_of_begins hc
    unfold Pending.Fits
    dsimp only
    rcases h.needed with hneeded | hneeded | hneeded
    · exact absurd hneeded hmore
    all_goals
      rw [hneeded] at hvalue hbyte ⊢
      simp only [Nat.reduceSub, Nat.reducePow] at hvalue hbyte ⊢
      omega
  · have hfits : p.Fits n ∧ b.toNat = n / 64 ^ (p.needed - 1) % 64 + 128 := by
      unfold Pending.Fits at hn ⊢
      dsimp only at hn
      rcases h.needed with hneeded | hneeded | hneeded
      · exact absurd hneeded hmore
      all_goals
        rw [hneeded] at hn ⊢
        simp only [Nat.reduceSub, Nat.reducePow] at hn ⊢
        omega
    obtain ⟨hchar, hencode⟩ := h.encode n hfits.1
    have hbyte : UInt8.ofNat (n / 64 ^ (p.needed - 1) % 64 + 128) = b := by
      rw [← hfits.2, UInt8.ofNat_toNat]
    refine ⟨hchar, ?_⟩
    rw [hencode, List.append_assoc]
    rcases h.needed with hneeded | hneeded | hneeded
    · exact absurd hneeded hmore
    all_goals
      rw [hneeded] at hbyte ⊢
      rw [← hbyte]
      rfl

/-- A byte in range, the last one. -/
theorem Pending.Awaits.last (h : p.Awaits sub) {b : UInt8} (hb : p.lower ≤ b.toNat)
    (hb' : b.toNat ≤ p.upper) (hlast : p.needed = 1) :
    String.utf8EncodeChar (Char.ofNat (p.value * 0x40 + b.toNat % 0x40)) = sub ++ [b] := by
  have hlower := h.lower
  have hupper := h.upper
  have hfits : p.Fits (p.value * 0x40 + b.toNat % 0x40) := by
    unfold Pending.Fits
    rw [hlast]
    simp only [Nat.reduceSub, Nat.reducePow]
    omega
  have hbyte : (p.value * 0x40 + b.toNat % 0x40) / 64 ^ 0 % 64 + 128 = b.toNat := by
    simp only [Nat.reducePow]
    omega
  rw [(h.encode _ hfits).2, hlast]
  unfold trailing
  rw [hbyte, UInt8.ofNat_toNat]
  rfl

/-! ## The first byte of a character -/

/-- The first byte of the character with a number. -/
def firstByte (n : ℕ) : ℕ :=
  if n ≤ 0x7F then n
  else if n ≤ 0x7FF then n / 64 % 32 + 192
  else if n ≤ 0xFFFF then n / 4096 % 16 + 224
  else n / 262144 % 8 + 240

theorem firstByte_of_head {b : UInt8} {c : Char} (h : [b] <+: String.utf8EncodeChar c) :
    b.toNat = firstByte c.toNat := by
  have hval : c.val.toNat = c.toNat := rfl
  unfold String.utf8EncodeChar at h
  unfold firstByte
  rw [hval] at h
  dsimp only at h
  split_ifs at h ⊢ <;> rw [List.cons_prefix_cons] at h <;> rw [h.1, toNat_byte (by omega)]

theorem encodeChar_ofNat_one {b : UInt8} (h : b.toNat < 0x80) :
    String.utf8EncodeChar (Char.ofNat b.toNat) = [b] := by
  have hval : (Char.ofNat b.toNat).val.toNat = b.toNat := toNat_ofNat_of_lt (by omega)
  unfold String.utf8EncodeChar
  rw [hval]
  dsimp only
  rw [if_pos (by omega), UInt8.ofNat_toNat]

/-- The bytes of a character in full, for those that have several. -/
theorem encodeChar_ofNat {b : UInt8} {n : ℕ} (hn : n < 0xD800 ∨ 0xDFFF < n ∧ n < 0x110000)
    {k : ℕ} (hk : 0x80 ≤ n ∧ n ≤ 0x7FF ∧ k = 1 ∨ 0x800 ≤ n ∧ n ≤ 0xFFFF ∧ k = 2 ∨
      0x10000 ≤ n ∧ k = 3) (hb : b.toNat = firstByte n) :
    (Char.ofNat n).toNat = n ∧ String.utf8EncodeChar (Char.ofNat n) = [b] ++ trailing k n := by
  have hchar : (Char.ofNat n).toNat = n := toNat_ofNat_of_lt hn
  have hval : (Char.ofNat n).val.toNat = n := hchar
  have hbyte : b = UInt8.ofNat (firstByte n) := by rw [← hb, UInt8.ofNat_toNat]
  refine ⟨hchar, ?_⟩
  unfold String.utf8EncodeChar
  rw [hval, hbyte]
  unfold firstByte
  dsimp only
  rcases hk with ⟨hlow, hhigh, rfl⟩ | ⟨hlow, hhigh, rfl⟩ | ⟨hlow, rfl⟩
  · rw [if_neg (by omega), if_pos hhigh, if_neg (by omega), if_pos hhigh]
    unfold trailing trailing
    rw [Nat.pow_zero, Nat.div_one]
    rfl
  · rw [if_neg (by omega), if_neg (by omega), if_pos hhigh, if_neg (by omega), if_neg (by omega),
      if_pos hhigh]
    unfold trailing trailing trailing
    rw [Nat.pow_zero, Nat.div_one, Nat.pow_one]
    rfl
  · rw [if_neg (by omega), if_neg (by omega), if_neg (by omega), if_neg (by omega),
      if_neg (by omega), if_neg (by omega)]
    unfold trailing trailing trailing trailing
    rw [Nat.pow_zero, Nat.div_one, Nat.pow_one]
    rfl

/-- **A byte that is not all of a character** is waiting for what its range says. -/
theorem Pending.awaits_of_fits {b : UInt8} (hneeded : p.needed = 1 ∨ p.needed = 2 ∨ p.needed = 3)
    (hlower : 0x80 ≤ p.lower) (hrange : p.lower ≤ p.upper) (hupper : p.upper ≤ 0xBF)
    (hfits : ∀ n, n < 0xD800 ∨ 0xDFFF < n ∧ n < 0x110000 → b.toNat = firstByte n → p.Fits n)
    (hfirst : ∀ n, p.Fits n → (n < 0xD800 ∨ 0xDFFF < n ∧ n < 0x110000) ∧
      (0x80 ≤ n ∧ n ≤ 0x7FF ∧ p.needed = 1 ∨ 0x800 ≤ n ∧ n ≤ 0xFFFF ∧ p.needed = 2 ∨
        0x10000 ≤ n ∧ p.needed = 3) ∧ b.toNat = firstByte n) : p.Awaits [b] := by
  refine ⟨List.cons_ne_nil b [], hneeded, hlower, hrange, hupper, fun c hc => ?_, fun n hn => ?_⟩
  · exact hfits c.toNat c.valid (firstByte_of_head hc)
  · obtain ⟨hvalid, hlength, hb⟩ := hfirst n hn
    exact encodeChar_ofNat hvalid hlength hb

theorem awaits_two {b : UInt8} (h : 0xC2 ≤ b.toNat) (h' : b.toNat ≤ 0xDF) :
    Pending.Awaits ⟨1, 0x80, 0xBF, b.toNat % 0x20⟩ [b] := by
  refine Pending.awaits_of_fits (Or.inl rfl) (Nat.le_refl _) (by decide : 0x80 ≤ 0xBF)
    (Nat.le_refl _) ?_ ?_
  all_goals
    unfold Pending.Fits firstByte
    simp only [Nat.reduceSub, Nat.reducePow, Nat.div_one, Nat.reduceEqDiff, and_true, and_false,
      or_false]
    intro n
    split_ifs <;> omega

theorem awaits_three {b : UInt8} (h : 0xE0 ≤ b.toNat) (h' : b.toNat ≤ 0xEF) :
    Pending.Awaits ⟨2, if b.toNat = 0xE0 then 0xA0 else 0x80,
      if b.toNat = 0xED then 0x9F else 0xBF, b.toNat % 0x10⟩ [b] := by
  refine Pending.awaits_of_fits (Or.inr (Or.inl rfl)) ?_ ?_ ?_ ?_ ?_
  · dsimp only
    split_ifs <;> omega
  · dsimp only
    split_ifs <;> omega
  · dsimp only
    split_ifs <;> omega
  all_goals
    unfold Pending.Fits firstByte
    simp only [Nat.reduceSub, Nat.reducePow, Nat.reduceEqDiff, and_true, and_false, or_false,
      false_or]
    intro n
    split_ifs <;> omega

theorem awaits_four {b : UInt8} (h : 0xF0 ≤ b.toNat) (h' : b.toNat ≤ 0xF4) :
    Pending.Awaits ⟨3, if b.toNat = 0xF0 then 0x90 else 0x80,
      if b.toNat = 0xF4 then 0x8F else 0xBF, b.toNat % 0x08⟩ [b] := by
  refine Pending.awaits_of_fits (Or.inr (Or.inr rfl)) ?_ ?_ ?_ ?_ ?_
  · dsimp only
    split_ifs <;> omega
  · dsimp only
    split_ifs <;> omega
  · dsimp only
    split_ifs <;> omega
  all_goals
    unfold Pending.Fits firstByte
    simp only [Nat.reduceSub, Nat.reducePow, Nat.reduceEqDiff, and_true, and_false, false_or]
    intro n
    split_ifs <;> omega

/-- A byte that begins no character. -/
theorem subpart_of_other {b : UInt8} (h : 0x80 ≤ b.toNat)
    (htwo : ¬(0xC2 ≤ b.toNat ∧ b.toNat ≤ 0xDF)) (hthree : ¬(0xE0 ≤ b.toNat ∧ b.toNat ≤ 0xEF))
    (hfour : ¬(0xF0 ≤ b.toNat ∧ b.toNat ≤ 0xF4)) (bs : List UInt8) : Subpart [b] bs := by
  have hno : ∀ c, ¬[b] <+: String.utf8EncodeChar c := by
    intro c hc
    have hvalid : c.toNat < 0xD800 ∨ 0xDFFF < c.toNat ∧ c.toNat < 0x110000 := c.valid
    have hfirst := firstByte_of_head hc
    unfold firstByte at hfirst
    split_ifs at hfirst <;> omega
  have hhead : ∀ {l : List UInt8} {c : Char}, l <+: String.utf8EncodeChar c → l <+: [b] ++ bs →
      l = [] := by
    intro l c hc hl
    cases l with
    | nil => rfl
    | cons x l =>
      rw [List.singleton_append, List.cons_prefix_cons] at hl
      rw [hl.1] at hc
      exact absurd (List.IsPrefix.trans ⟨l, rfl⟩ hc) (hno c)
  refine ⟨fun c hc => ?_, List.cons_ne_nil b [], Or.inr rfl, ?_⟩
  · have hdecode := decodeFrom_encodeChar c []
    rw [hhead List.prefix_rfl hc] at hdecode
    cases hdecode
  · rintro longer hlonger hlength ⟨c, hc⟩
    rw [hhead hc hlonger] at hlength
    exact absurd hlength (Nat.not_lt_zero _)

/-! ## The decoder -/

/-- **The decoder returns what the bytes are read as**, in the middle of a character too. -/
theorem reads_decodeFrom (bs : List UInt8) :
    Reads bs (decodeFrom none bs) ∧
      ∀ p sub, Pending.Awaits p sub → Reads (sub ++ bs) (decodeFrom (some p) bs) := by
  induction bs with
  | nil => exact ⟨.nil, fun p sub h => .replaced (h.subpart (by simp)) .nil⟩
  | cons b bs ih =>
    obtain ⟨ihnone, ihsome⟩ := ih
    have hnone : Reads (b :: bs) (decodeFrom none (b :: bs)) := by
      rw [decodeFrom_cons]
      show Reads _ ((lead b.toNat).1 ++ decodeFrom (lead b.toNat).2 bs)
      rcases Nat.lt_or_ge b.toNat 0x80 with hlt | hge
      · rw [lead_of_lt hlt]
        have hchar := Reads.char (Char.ofNat b.toNat) ihnone
        rwa [encodeChar_ofNat_one hlt] at hchar
      · by_cases htwo : 0xC2 ≤ b.toNat ∧ b.toNat ≤ 0xDF
        · rw [lead_two htwo.1 htwo.2]
          exact ihsome _ [b] (awaits_two htwo.1 htwo.2)
        by_cases hthree : 0xE0 ≤ b.toNat ∧ b.toNat ≤ 0xEF
        · rw [lead_three hthree.1 hthree.2]
          exact ihsome _ [b] (awaits_three hthree.1 hthree.2)
        by_cases hfour : 0xF0 ≤ b.toNat ∧ b.toNat ≤ 0xF4
        · rw [lead_four hfour.1 hfour.2]
          exact ihsome _ [b] (awaits_four hfour.1 hfour.2)
        rw [lead_other hge htwo hthree hfour]
        exact .replaced (subpart_of_other hge htwo hthree hfour bs) ihnone
    refine ⟨hnone, fun p sub h => ?_⟩
    rw [decodeFrom_cons]
    show Reads _ ((continuation p b.toNat).1 ++ decodeFrom (continuation p b.toNat).2 bs)
    unfold continuation
    by_cases hrange : p.lower ≤ b.toNat ∧ b.toNat ≤ p.upper
    · rw [if_pos hrange]
      by_cases hlast : p.needed = 1
      · rw [if_pos hlast]
        have hchar := Reads.char (Char.ofNat (p.value * 0x40 + b.toNat % 0x40)) ihnone
        rwa [h.last hrange.1 hrange.2 hlast, List.append_assoc] at hchar
      · rw [if_neg hlast]
        have hmore := ihsome _ _ (h.more hrange.1 hrange.2 hlast)
        rwa [List.append_assoc] at hmore
    · -- the byte is read again, as the first of what follows
      rw [if_neg hrange]
      rw [decodeFrom_cons] at hnone
      exact .replaced (h.subpart fun x hx => Option.some.inj hx ▸ hrange) hnone

/-- **The decoder returns what the bytes are read as.** -/
theorem decode_eq_iff {bs : List UInt8} {cs : List Char} : decode bs = cs ↔ Reads bs cs := by
  have hreads := (reads_decodeFrom bs).1
  exact ⟨fun h => h ▸ hreads, fun h => hreads.unique h⟩

end Utf8
end Text
end GroupChat

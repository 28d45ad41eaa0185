import GroupChat.Text.JsString
import Mathlib.Tactic.IntervalCases

/-!
# Base64 in its URL alphabet

`encode` writes bytes six bits at a time, in the alphabet that survives in a
query string and without padding.  `decode` reads any string: it takes the symbols
of either alphabet up to the first padding character, passes over everything
else, and drops the bits of an incomplete byte.  Of a code unit it looks at the low
byte only, so `U+0141` is read as the letter `A`.

`decode_encode` says that whatever was encoded reads back as itself.  What other
strings are read as is said without the decoder: `Spells` compares the bits of the
digits of a string with the bits of the bytes, and `decode_eq_iff` is that the
decoder returns the bytes the string spells and no others.
-/

namespace GroupChat
namespace Text
namespace Base64Url

/-! ## Symbols -/

/-- The symbol of six bits. -/
def symbol (n : ℕ) : Char :=
  if n < 26 then Char.ofNat ('A'.toNat + n)
  else if n < 52 then Char.ofNat ('a'.toNat + (n - 26))
  else if n < 62 then Char.ofNat ('0'.toNat + (n - 52))
  else if n = 62 then '-'
  else '_'

/-- The six bits of a symbol, of the URL alphabet or of the ordinary one. -/
def sextet? (c : Char) : Option ℕ :=
  if 'A' ≤ c ∧ c ≤ 'Z' then some (c.toNat - 'A'.toNat)
  else if 'a' ≤ c ∧ c ≤ 'z' then some (c.toNat - 'a'.toNat + 26)
  else if '0' ≤ c ∧ c ≤ '9' then some (c.toNat - '0'.toNat + 52)
  else if c = '-' ∨ c = '+' then some 62
  else if c = '_' ∨ c = '/' then some 63
  else none

theorem sextet?_symbol {n : ℕ} (h : n < 64) : sextet? (symbol n) = some n := by
  interval_cases n <;> rfl

theorem symbol_ne_padding {n : ℕ} (h : n < 64) : symbol n ≠ '=' := by
  interval_cases n <;> decide

/-! ## Regrouping bits -/

/-- Bytes as groups of six bits, three bytes at a time. -/
def sextets : List UInt8 → List ℕ
  | a :: b :: c :: rest =>
    let n := (a.toNat * 256 + b.toNat) * 256 + c.toNat
    n / 262144 :: n / 4096 % 64 :: n / 64 % 64 :: n % 64 :: sextets rest
  | [a, b] =>
    let n := (a.toNat * 256 + b.toNat) * 4
    [n / 4096, n / 64 % 64, n % 64]
  | [a] => [a.toNat * 16 / 64, a.toNat * 16 % 64]
  | [] => []

/-- Groups of six bits as bytes, four groups at a time. -/
def bytes : List ℕ → List UInt8
  | a :: b :: c :: d :: rest =>
    let n := ((a * 64 + b) * 64 + c) * 64 + d
    UInt8.ofNat (n / 65536) :: UInt8.ofNat (n / 256) :: UInt8.ofNat n :: bytes rest
  | [a, b, c] =>
    let n := (a * 64 + b) * 64 + c
    [UInt8.ofNat (n / 1024), UInt8.ofNat (n / 4)]
  | [a, b] => [UInt8.ofNat ((a * 64 + b) / 16)]
  | _ => []

/-- The string some bytes are written as. -/
def encode (bs : List UInt8) : JsString :=
  (sextets bs).map fun n => UInt16.ofNat (symbol n).toNat

/-- The character the decoder takes a code unit for. -/
def lowByte (u : CodeUnit) : Char := Char.ofNat (u.toNat % 256)

/-- The bytes a string is read as. -/
def decode (us : JsString) : List UInt8 :=
  bytes (((us.map lowByte).takeWhile (· ≠ '=')).filterMap sextet?)

/-! ## Reading back -/

theorem ofNat_eq_of_mod {n : ℕ} {a : UInt8} (h : n % 256 = a.toNat) : UInt8.ofNat n = a :=
  UInt8.toNat_inj.mp h

theorem sextets_lt (bs : List UInt8) : ∀ n ∈ sextets bs, n < 64 := by
  induction bs using sextets.induct with
  | case1 a b c rest ih =>
    have ha := a.toNat_lt
    have hb := b.toNat_lt
    have hc := c.toNat_lt
    unfold sextets
    simp only [List.forall_mem_cons]
    exact ⟨by omega, by omega, by omega, by omega, ih⟩
  | case2 a b =>
    have ha := a.toNat_lt
    have hb := b.toNat_lt
    unfold sextets
    simp only [List.forall_mem_cons]
    exact ⟨by omega, by omega, by omega, List.forall_mem_nil _⟩
  | case3 a =>
    have ha := a.toNat_lt
    unfold sextets
    simp only [List.forall_mem_cons]
    exact ⟨by omega, by omega, List.forall_mem_nil _⟩
  | case4 => exact List.forall_mem_nil _

theorem lowByte_symbol {n : ℕ} (h : n < 64) :
    lowByte (UInt16.ofNat (symbol n).toNat) = symbol n := by
  interval_cases n <;> rfl

/-- **Regrouping loses nothing.** -/
theorem bytes_sextets (bs : List UInt8) : bytes (sextets bs) = bs := by
  induction bs using sextets.induct with
  | case1 a b c rest ih =>
    have ha := a.toNat_lt
    have hb := b.toNat_lt
    have hc := c.toNat_lt
    unfold sextets bytes
    rw [ih]
    refine congr (congrArg _ (ofNat_eq_of_mod ?_)) (congr (congrArg _ (ofNat_eq_of_mod ?_))
      (congr (congrArg _ (ofNat_eq_of_mod ?_)) rfl))
    · omega
    · omega
    · omega
  | case2 a b =>
    have ha := a.toNat_lt
    have hb := b.toNat_lt
    unfold sextets bytes
    refine congr (congrArg _ (ofNat_eq_of_mod ?_)) (congr (congrArg _ (ofNat_eq_of_mod ?_)) rfl)
    · omega
    · omega
  | case3 a =>
    have ha := a.toNat_lt
    unfold sextets bytes
    refine congr (congrArg _ (ofNat_eq_of_mod ?_)) rfl
    omega
  | case4 => rfl

/-- **Round trip.**  Encoded bytes decode to themselves. -/
theorem decode_encode (bs : List UInt8) : decode (encode bs) = bs := by
  have hread : ∀ ns : List ℕ, (∀ n ∈ ns, n < 64) →
      (((ns.map fun n => UInt16.ofNat (symbol n).toNat).map lowByte).takeWhile
        (· ≠ '=')).filterMap sextet? = ns := by
    intro ns
    induction ns with
    | nil => intro _; rfl
    | cons n ns ih =>
      intro h
      have hn : n < 64 := h n List.mem_cons_self
      rw [List.map_cons, List.map_cons, lowByte_symbol hn,
        List.takeWhile_cons_of_pos (by simpa using symbol_ne_padding hn),
        List.filterMap_cons_some (sextet?_symbol hn),
        ih fun x hx => h x (List.mem_cons_of_mem _ hx)]
  unfold decode encode
  rw [hread _ (sextets_lt bs), bytes_sextets]

/-- Something is written for every nonempty list of bytes. -/
theorem encode_ne_nil {bs : List UInt8} (h : bs ≠ []) : encode bs ≠ [] := by
  intro hnil
  have hbs : decode (encode bs) = bs := decode_encode bs
  rw [hnil] at hbs
  exact h hbs.symm

/-! ## What a string spells -/

/-- The digits of a string: its symbols up to the first padding character. -/
inductive Digits : JsString → List ℕ → Prop
  | nil : Digits [] []
  | symbol {u : CodeUnit} {us : JsString} {n : ℕ} {ns : List ℕ}
      (h : sextet? (lowByte u) = some n) (rest : Digits us ns) : Digits (u :: us) (n :: ns)
  /-- What is no symbol is passed over. -/
  | other {u : CodeUnit} {us : JsString} {ns : List ℕ} (h : sextet? (lowByte u) = none)
      (hpadding : lowByte u ≠ '=') (rest : Digits us ns) : Digits (u :: us) ns
  | padding {u : CodeUnit} {us : JsString} (h : lowByte u = '=') : Digits (u :: us) []

/-- The lowest `k` bits of a number, the highest of them first. -/
def bits : ℕ → ℕ → List Bool
  | 0, _ => []
  | k + 1, n => bits k (n / 2) ++ [decide (n % 2 = 1)]

/-- The bits of some bytes. -/
def byteBits (bs : List UInt8) : List Bool := bs.flatMap fun b => bits 8 b.toNat

/-- **What a string spells**: six bits for each of its digits, regrouped in eights, where
fewer than eight are left over. -/
def Spells (us : JsString) (bs : List UInt8) : Prop :=
  ∃ ns rest, Digits us ns ∧ ns.flatMap (bits 6) = byteBits bs ++ rest ∧ rest.length < 8

/-! ## Bits -/

@[simp] theorem length_bits (k n : ℕ) : (bits k n).length = k := by
  induction k generalizing n with
  | zero => rfl
  | succ k ih =>
    unfold bits
    rw [List.length_append, ih, List.length_singleton]

/-- The higher bits of a number, and then its lower ones. -/
theorem bits_add (k j n : ℕ) : bits (k + j) n = bits k (n / 2 ^ j) ++ bits j n := by
  induction j generalizing n with
  | zero =>
    rw [Nat.pow_zero, Nat.div_one]
    exact (List.append_nil _).symm
  | succ j ih =>
    show bits (k + j) (n / 2) ++ [decide (n % 2 = 1)] =
      bits k (n / 2 ^ (j + 1)) ++ (bits j (n / 2) ++ [decide (n % 2 = 1)])
    rw [ih, List.append_assoc, Nat.div_div_eq_div_mul, Nat.pow_succ, Nat.mul_comm 2]

/-- The lower bits do not depend on the higher ones. -/
theorem bits_mod (k n : ℕ) : bits k (n % 2 ^ k) = bits k n := by
  induction k generalizing n with
  | zero => rfl
  | succ k ih =>
    have hhalf : n % 2 ^ (k + 1) / 2 = n / 2 % 2 ^ k := by
      rw [Nat.pow_succ, Nat.mul_comm, Nat.mod_mul_right_div_self]
    have hlow : n % 2 ^ (k + 1) % 2 = n % 2 :=
      Nat.mod_mod_of_dvd n ⟨2 ^ k, by rw [Nat.pow_succ, Nat.mul_comm]⟩
    unfold bits
    rw [hhalf, ih, hlow]

/-- Bits of two numbers in a row are those of one. -/
theorem bits_append (k j x : ℕ) {y : ℕ} (hy : y < 2 ^ j) :
    bits k x ++ bits j y = bits (k + j) (x * 2 ^ j + y) := by
  have hdiv : (x * 2 ^ j + y) / 2 ^ j = x := by
    rw [Nat.mul_comm, Nat.mul_add_div (Nat.two_pow_pos j), Nat.div_eq_of_lt hy, Nat.add_zero]
  have hmod : (x * 2 ^ j + y) % 2 ^ j = y := by
    rw [Nat.mul_comm, Nat.mul_add_mod, Nat.mod_eq_of_lt hy]
  rw [bits_add, hdiv, ← bits_mod j (x * 2 ^ j + y), hmod]

theorem bits_byte (n : ℕ) : bits 8 (UInt8.ofNat n).toNat = bits 8 n := bits_mod 8 n

theorem bits_injective {k a b : ℕ} (ha : a < 2 ^ k) (hb : b < 2 ^ k) (h : bits k a = bits k b) :
    a = b := by
  induction k generalizing a b with
  | zero => omega
  | succ k ih =>
    unfold bits at h
    obtain ⟨hhigh, hlow⟩ := List.append_inj' h rfl
    rw [Nat.pow_succ] at ha hb
    have hhalf : a / 2 = b / 2 := ih (by omega) (by omega) hhigh
    have hparity : a % 2 = 1 ↔ b % 2 = 1 :=
      decide_eq_decide.mp (List.singleton_inj.mp hlow)
    omega

@[simp] theorem byteBits_nil : byteBits [] = [] := rfl

@[simp] theorem byteBits_cons (b : UInt8) (bs : List UInt8) :
    byteBits (b :: bs) = bits 8 b.toNat ++ byteBits bs := rfl

theorem length_byteBits (bs : List UInt8) : (byteBits bs).length = 8 * bs.length := by
  induction bs with
  | nil => rfl
  | cons b bs ih =>
    rw [byteBits_cons, List.length_append, length_bits, ih, List.length_cons]
    omega

theorem byteBits_injective {bs cs : List UInt8} (h : byteBits bs = byteBits cs) : bs = cs := by
  have hlength : bs.length = cs.length := by
    have hlength := congrArg List.length h
    rw [length_byteBits, length_byteBits] at hlength
    omega
  induction bs generalizing cs with
  | nil => exact (List.eq_nil_of_length_eq_zero hlength.symm).symm
  | cons b bs ih =>
    cases cs with
    | nil => cases hlength
    | cons c cs =>
      obtain ⟨hhead, htail⟩ := List.append_inj h (by rw [length_bits, length_bits])
      have hbc : b = c := UInt8.toNat_inj.mp (bits_injective b.toNat_lt c.toNat_lt hhead)
      rw [hbc, ih htail (Nat.succ.inj hlength)]

/-! ## The decoder and what is spelled -/

/-- The digits a string has are the ones the decoder collects. -/
theorem digits_filterMap (us : JsString) :
    Digits us (((us.map lowByte).takeWhile (· ≠ '=')).filterMap sextet?) := by
  induction us with
  | nil => exact .nil
  | cons u us ih =>
    by_cases hpadding : lowByte u = '='
    · rw [List.map_cons, List.takeWhile_cons_of_neg (by simpa using hpadding)]
      exact .padding hpadding
    · rw [List.map_cons, List.takeWhile_cons_of_pos (by simpa using hpadding)]
      cases h : sextet? (lowByte u) with
      | none =>
        rw [List.filterMap_cons_none h]
        exact .other h hpadding ih
      | some n =>
        rw [List.filterMap_cons_some h]
        exact .symbol h ih

theorem Digits.unique {us : JsString} {ns ms : List ℕ} (h : Digits us ns) (h' : Digits us ms) :
    ns = ms := by
  have hequals : sextet? '=' = none := rfl
  induction h generalizing ms with
  | nil =>
    cases h'
    rfl
  | symbol h _ ih =>
    cases h' with
    | symbol h₂ rest =>
      rw [h] at h₂
      rw [Option.some.inj h₂, ih rest]
    | other h₂ =>
      rw [h] at h₂
      cases h₂
    | padding h₂ =>
      rw [h₂, hequals] at h
      cases h
  | other h hpadding _ ih =>
    cases h' with
    | symbol h₂ =>
      rw [h] at h₂
      cases h₂
    | other _ _ rest => exact ih rest
    | padding h₂ => exact absurd h₂ hpadding
  | padding h =>
    cases h' with
    | symbol h₂ =>
      rw [h, hequals] at h₂
      cases h₂
    | other _ hpadding => exact absurd h hpadding
    | padding => rfl

theorem sextet?_lt {c : Char} {n : ℕ} (h : sextet? c = some n) : n < 64 := by
  unfold sextet? at h
  split_ifs at h with h1 h2 h3 h4 h5
  · have hle : c.toNat ≤ 90 := h1.2
    have hn : c.toNat - 65 = n := Option.some.inj h
    omega
  · have hle : c.toNat ≤ 122 := h2.2
    have hn : c.toNat - 97 + 26 = n := Option.some.inj h
    omega
  · have hle : c.toNat ≤ 57 := h3.2
    have hn : c.toNat - 48 + 52 = n := Option.some.inj h
    omega
  · cases h
    decide
  · cases h
    decide

theorem Digits.lt {us : JsString} {ns : List ℕ} (h : Digits us ns) : ∀ n ∈ ns, n < 64 := by
  induction h with
  | nil => exact List.forall_mem_nil _
  | symbol h _ ih => exact List.forall_mem_cons.mpr ⟨sextet?_lt h, ih⟩
  | other _ _ _ ih => exact ih
  | padding => exact List.forall_mem_nil _

/-- **Regrouping keeps the bits**, but for those of an incomplete byte. -/
theorem exists_bits_bytes {ns : List ℕ} (h : ∀ n ∈ ns, n < 64) :
    ∃ rest, ns.flatMap (bits 6) = byteBits (bytes ns) ++ rest ∧ rest.length < 8 := by
  induction ns using bytes.induct with
  | case1 a b c d rest ih =>
    simp only [List.forall_mem_cons] at h
    obtain ⟨-, hb, hc, hd, hrest⟩ := h
    obtain ⟨left, hleft, hlength⟩ := ih hrest
    refine ⟨left, ?_, hlength⟩
    have hjoin : bits 6 a ++ (bits 6 b ++ (bits 6 c ++ bits 6 d)) =
        bits 24 (((a * 64 + b) * 64 + c) * 64 + d) := by
      rw [← List.append_assoc, bits_append 6 6 a hb, ← List.append_assoc,
        bits_append 12 6 _ hc, bits_append 18 6 _ hd]
      rfl
    have hsplit : ∀ n, bits 24 n = bits 8 (n / 65536) ++ (bits 8 (n / 256) ++ bits 8 n) := by
      intro n
      rw [bits_add 16 8 n, bits_add 8 8, Nat.div_div_eq_div_mul, List.append_assoc]
      rfl
    unfold bytes
    dsimp only
    rw [byteBits_cons, byteBits_cons, byteBits_cons, bits_byte, bits_byte, bits_byte]
    simp only [List.flatMap_cons, hleft]
    have hgroup := hjoin.trans (hsplit _)
    simp only [← List.append_assoc] at hgroup ⊢
    rw [hgroup]
  | case2 a b c =>
    simp only [List.forall_mem_cons] at h
    obtain ⟨-, hb, hc, -⟩ := h
    refine ⟨bits 2 ((a * 64 + b) * 64 + c), ?_, by rw [length_bits]; decide⟩
    have hsplit : ∀ n, bits 18 n = bits 8 (n / 1024) ++ (bits 8 (n / 4) ++ bits 2 n) := by
      intro n
      rw [bits_add 16 2 n, bits_add 8 8, Nat.div_div_eq_div_mul, List.append_assoc]
      rfl
    unfold bytes
    dsimp only
    rw [byteBits_cons, byteBits_cons, bits_byte, bits_byte, byteBits_nil, List.append_nil,
      List.flatMap_cons, List.flatMap_cons, List.flatMap_singleton, ← List.append_assoc,
      bits_append 6 6 a hb, bits_append 12 6 _ hc, hsplit, List.append_assoc]
    rfl
  | case3 a b =>
    simp only [List.forall_mem_cons] at h
    obtain ⟨-, hb, -⟩ := h
    refine ⟨bits 4 (a * 64 + b), ?_, by rw [length_bits]; decide⟩
    unfold bytes
    rw [byteBits_cons, bits_byte, byteBits_nil, List.append_nil, List.flatMap_cons,
      List.flatMap_singleton, bits_append 6 6 a hb]
    exact bits_add 8 4 _
  | case4 ns hfour hthree htwo =>
    have hbytes : bytes ns = [] := by
      unfold bytes
      split
      · exact absurd rfl (hfour _ _ _ _ _)
      · exact absurd rfl (hthree _ _ _)
      · exact absurd rfl (htwo _ _)
      · rfl
    refine ⟨ns.flatMap (bits 6), by rw [hbytes]; rfl, ?_⟩
    match ns with
    | [] => decide
    | [a] => rw [List.flatMap_singleton, length_bits]; decide
    | [a, b] => exact absurd rfl (htwo a b)
    | [a, b, c] => exact absurd rfl (hthree a b c)
    | a :: b :: c :: d :: rest => exact absurd rfl (hfour a b c d rest)

/-- **The decoder returns what the string spells.** -/
theorem decode_eq_iff {us : JsString} {bs : List UInt8} : decode us = bs ↔ Spells us bs := by
  have hdigits := digits_filterMap us
  obtain ⟨rest, hbits, hrest⟩ := exists_bits_bytes hdigits.lt
  constructor
  · rintro rfl
    exact ⟨_, rest, hdigits, hbits, hrest⟩
  · rintro ⟨ns, rest', hns, hbits', hrest'⟩
    obtain rfl := hns.unique hdigits
    have heq : byteBits (decode us) ++ rest = byteBits bs ++ rest' := hbits.symm.trans hbits'
    have hlength := congrArg List.length heq
    rw [List.length_append, List.length_append, length_byteBits, length_byteBits] at hlength
    exact byteBits_injective (List.append_inj heq (by
      rw [length_byteBits, length_byteBits]
      omega)).1

end Base64Url
end Text
end GroupChat

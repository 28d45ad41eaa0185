import Mathlib.Data.Nat.Digits.Defs
import Mathlib.Data.List.Induction
import Mathlib.Tactic.Ring
import Mathlib.Tactic.IntervalCases

/-!
# Fixed-width numerals

A timestamp and an identifier are both printed as a fixed number of digits, and
both are read back digit by digit.  `render b k n` is `n` in base `b` with
exactly `k` digits, and `parse b` reads a string of digits of base `b`, lower or
upper case, of any length.

`parse_render` is the round trip: reading a rendered numeral gives the number
modulo `b ^ k`, so it gives the number itself exactly when it fits in `k`
digits.  Nothing is assumed about the number beforehand, which is what lets a
caller decide whether truncation is possible.
-/

namespace GroupChat
namespace Text

/-! ## Digits of a number -/

/-- The last `k` digits of `n` in base `b`, most significant first. -/
def digitsOf (b : ℕ) : ℕ → ℕ → List ℕ
  | 0, _ => []
  | k + 1, n => digitsOf b k (n / b) ++ [n % b]

/-- The number a list of digits denotes, most significant first. -/
def valueOf (b : ℕ) (ds : List ℕ) : ℕ :=
  ds.foldl (fun acc d => acc * b + d) 0

theorem valueOf_append_singleton (b : ℕ) (ds : List ℕ) (d : ℕ) :
    valueOf b (ds ++ [d]) = valueOf b ds * b + d := by
  rw [valueOf, List.foldl_append, List.foldl_cons, List.foldl_nil, valueOf]

@[simp] theorem length_digitsOf (b k n : ℕ) : (digitsOf b k n).length = k := by
  induction k generalizing n with
  | zero => rfl
  | succ k ih => rw [digitsOf, List.length_append, ih, List.length_singleton]

theorem lt_of_mem_digitsOf {b k n d : ℕ} (hb : 0 < b) (h : d ∈ digitsOf b k n) : d < b := by
  induction k generalizing n with
  | zero => exact absurd h List.not_mem_nil
  | succ k ih =>
    rw [digitsOf, List.mem_append, List.mem_singleton] at h
    rcases h with h | rfl
    · exact ih h
    · exact Nat.mod_lt n hb

/-- **Digits denote the number they were taken from**, up to the digits that
did not fit. -/
theorem valueOf_digitsOf (b k n : ℕ) : valueOf b (digitsOf b k n) = n % b ^ k := by
  induction k generalizing n with
  | zero => rw [pow_zero, Nat.mod_one]; rfl
  | succ k ih =>
    rw [digitsOf, valueOf_append_singleton, ih, pow_succ']
    have hsplit : n % (b * b ^ k) = n % b + b * (n / b % b ^ k) := Nat.mod_mul
    rw [hsplit, Nat.mul_comm, Nat.add_comm]

theorem valueOf_lt {b : ℕ} {ds : List ℕ} (h : ∀ d ∈ ds, d < b) :
    valueOf b ds < b ^ ds.length := by
  induction ds using List.reverseRecOn with
  | nil => exact Nat.one_pos
  | append_singleton ds d ih =>
    have hds : valueOf b ds < b ^ ds.length :=
      ih fun x hx => h x (List.mem_append_left _ hx)
    have hd : d < b := h d (List.mem_append_right _ (List.mem_singleton.mpr rfl))
    rw [valueOf_append_singleton, List.length_append, List.length_singleton, pow_succ]
    calc valueOf b ds * b + d < valueOf b ds * b + b := by omega
      _ = (valueOf b ds + 1) * b := by ring
      _ ≤ b ^ ds.length * b := Nat.mul_le_mul_right b hds

/-- **The digits of a value are the digits it was read from**, when their number
is known. -/
theorem digitsOf_valueOf {b : ℕ} {ds : List ℕ} (h : ∀ d ∈ ds, d < b) :
    digitsOf b ds.length (valueOf b ds) = ds := by
  induction ds using List.reverseRecOn with
  | nil => rfl
  | append_singleton ds d ih =>
    have hds : digitsOf b ds.length (valueOf b ds) = ds :=
      ih fun x hx => h x (List.mem_append_left _ hx)
    have hd : d < b := h d (List.mem_append_right _ (List.mem_singleton.mpr rfl))
    have hdiv : (valueOf b ds * b + d) / b = valueOf b ds := by
      rw [Nat.mul_comm, Nat.mul_add_div (by omega), Nat.div_eq_of_lt hd, Nat.add_zero]
    have hmod : (valueOf b ds * b + d) % b = d := by
      rw [Nat.mul_comm, Nat.mul_add_mod, Nat.mod_eq_of_lt hd]
    rw [List.length_append, List.length_singleton, valueOf_append_singleton, digitsOf, hdiv, hmod,
      hds]

/-! ## Digits as characters -/

/-- The digit a character stands for, in either letter case. -/
def digitValue (c : Char) : Option ℕ :=
  if '0' ≤ c ∧ c ≤ '9' then some (c.toNat - '0'.toNat)
  else if 'a' ≤ c ∧ c ≤ 'f' then some (c.toNat - 'a'.toNat + 10)
  else if 'A' ≤ c ∧ c ≤ 'F' then some (c.toNat - 'A'.toNat + 10)
  else none

theorem digitValue_digitChar {d : ℕ} (h : d < 16) : digitValue (Nat.digitChar d) = some d := by
  interval_cases d <;> rfl

/-- The digit of base `b` a character stands for. -/
def digitOf (b : ℕ) (c : Char) : Option ℕ :=
  (digitValue c).filter (· < b)

theorem digitOf_digitChar {b d : ℕ} (hb : b ≤ 16) (h : d < b) :
    digitOf b (Nat.digitChar d) = some d := by
  rw [digitOf, digitValue_digitChar (h.trans_le hb)]
  exact Option.filter_eq_some_iff.mpr ⟨rfl, by simpa using h⟩

theorem digitOf_lt {b d : ℕ} {c : Char} (h : digitOf b c = some d) : d < b := by
  simpa using (Option.filter_eq_some_iff.mp h).2

/-- The character is an upper-case hexadecimal letter. -/
def IsUpperHex (c : Char) : Prop := 'A' ≤ c ∧ c ≤ 'F'

instance : DecidablePred IsUpperHex :=
  fun c => inferInstanceAs (Decidable ('A' ≤ c ∧ c ≤ 'F'))

/-- A digit in lower case is the character it is printed as. -/
theorem digitChar_of_digitOf {b d : ℕ} {c : Char} (h : digitOf b c = some d)
    (hlower : ¬IsUpperHex c) : Nat.digitChar d = c := by
  have hvalue : digitValue c = some d := (Option.filter_eq_some_iff.mp h).1
  have hc : c = Char.ofNat c.toNat := (Char.ofNat_toNat c).symm
  unfold digitValue at hvalue
  split_ifs at hvalue with h0 ha hA
  · have hlo : 48 ≤ c.toNat := h0.1
    have hhi : c.toNat ≤ 57 := h0.2
    rw [← Option.some.inj hvalue, hc]
    generalize c.toNat = n at hlo hhi
    interval_cases n <;> rfl
  · have hlo : 97 ≤ c.toNat := ha.1
    have hhi : c.toNat ≤ 102 := ha.2
    rw [← Option.some.inj hvalue, hc]
    generalize c.toNat = n at hlo hhi
    interval_cases n <;> rfl
  · exact absurd hA hlower

/-- A printed digit is not an upper-case letter. -/
theorem not_isUpperHex_digitChar {d : ℕ} (h : d < 16) : ¬IsUpperHex (Nat.digitChar d) := by
  interval_cases d <;> decide

/-- `n` in base `b`, with exactly `k` digits. -/
def render (b k n : ℕ) : List Char :=
  (digitsOf b k n).map Nat.digitChar

/-- Read digits of base `b`; every character has to be one. -/
def parse (b : ℕ) (cs : List Char) : Option ℕ :=
  (cs.mapM (digitOf b)).map (valueOf b)

@[simp] theorem length_render (b k n : ℕ) : (render b k n).length = k := by
  rw [render, List.length_map, length_digitsOf]

/-- The digits of a rendered numeral read back one by one. -/
theorem mapM_digitOf_render {b : ℕ} (hb : 0 < b) (hb' : b ≤ 16) (k n : ℕ) :
    (render b k n).mapM (digitOf b) = some (digitsOf b k n) := by
  have hread : ∀ ds : List ℕ, (∀ d ∈ ds, d < b) →
      (ds.map Nat.digitChar).mapM (digitOf b) = some ds := by
    intro ds
    induction ds with
    | nil => intro _; rfl
    | cons d ds ih =>
      intro h
      rw [List.map_cons, List.mapM_cons, digitOf_digitChar hb' (h d List.mem_cons_self),
        ih fun x hx => h x (List.mem_cons_of_mem _ hx)]
      rfl
  exact hread _ fun d hd => lt_of_mem_digitsOf hb hd

/-- **Round trip.**  A rendered numeral reads back as the number, up to the
digits that did not fit. -/
theorem parse_render {b : ℕ} (hb : 0 < b) (hb' : b ≤ 16) (k n : ℕ) :
    parse b (render b k n) = some (n % b ^ k) := by
  rw [parse, mapM_digitOf_render hb hb', Option.map_some, valueOf_digitsOf]

/-- Reading digit by digit gives one digit of the base for each character. -/
theorem length_and_lt_of_mapM_digitOf {b : ℕ} {cs : List Char} {ds : List ℕ}
    (h : cs.mapM (digitOf b) = some ds) : ds.length = cs.length ∧ ∀ d ∈ ds, d < b := by
  induction cs generalizing ds with
  | nil =>
    rw [← Option.some.inj h]
    exact ⟨rfl, fun d hd => absurd hd List.not_mem_nil⟩
  | cons c cs ih =>
    rw [List.mapM_cons] at h
    obtain ⟨d, hd, h⟩ := Option.bind_eq_some_iff.mp h
    obtain ⟨ds', hds', h⟩ := Option.bind_eq_some_iff.mp h
    obtain ⟨hlength, hlt⟩ := ih hds'
    rw [← Option.some.inj h]
    refine ⟨by rw [List.length_cons, List.length_cons, hlength], ?_⟩
    intro x hx
    rcases List.mem_cons.mp hx with rfl | hx
    · exact digitOf_lt hd
    · exact hlt x hx

/-- Digits in lower case are how the digits they denote are printed. -/
theorem map_digitChar_of_mapM_digitOf {b : ℕ} {cs : List Char} {ds : List ℕ}
    (h : cs.mapM (digitOf b) = some ds) (hlower : ∀ c ∈ cs, ¬IsUpperHex c) :
    ds.map Nat.digitChar = cs := by
  induction cs generalizing ds with
  | nil =>
    rw [← Option.some.inj h]
    rfl
  | cons c cs ih =>
    rw [List.mapM_cons] at h
    obtain ⟨d, hd, h⟩ := Option.bind_eq_some_iff.mp h
    obtain ⟨ds', hds', h⟩ := Option.bind_eq_some_iff.mp h
    have hchar : Nat.digitChar d = c := digitChar_of_digitOf hd (hlower c List.mem_cons_self)
    have hrest : ds'.map Nat.digitChar = cs :=
      ih hds' fun x hx => hlower x (List.mem_cons_of_mem _ hx)
    rw [← Option.some.inj h, List.map_cons, hchar, hrest]

/-- **Round trip, the other way.**  A numeral in lower case is how the number it
denotes is rendered. -/
theorem render_of_parse {b n : ℕ} {cs : List Char} (h : parse b cs = some n)
    (hlower : ∀ c ∈ cs, ¬IsUpperHex c) : render b cs.length n = cs := by
  obtain ⟨ds, hds, rfl⟩ := Option.map_eq_some_iff.mp h
  obtain ⟨hlength, hlt⟩ := length_and_lt_of_mapM_digitOf hds
  rw [render, ← hlength, digitsOf_valueOf hlt]
  exact map_digitChar_of_mapM_digitOf hds hlower

/-- A numeral denotes a number that fits in its digits. -/
theorem lt_of_parse {b n : ℕ} {cs : List Char} (h : parse b cs = some n) :
    n < b ^ cs.length := by
  obtain ⟨ds, hds, rfl⟩ := Option.map_eq_some_iff.mp h
  obtain ⟨hlength, hlt⟩ := length_and_lt_of_mapM_digitOf hds
  rw [← hlength]
  exact valueOf_lt hlt

/-- Digits denote a number. -/
theorem exists_parse {b : ℕ} {cs : List Char} (h : ∀ c ∈ cs, (digitOf b c).isSome) :
    ∃ n, parse b cs = some n := by
  suffices hread : ∃ ds, cs.mapM (digitOf b) = some ds by
    obtain ⟨ds, hds⟩ := hread
    exact ⟨valueOf b ds, by rw [parse, hds, Option.map_some]⟩
  induction cs with
  | nil => exact ⟨[], rfl⟩
  | cons c cs ih =>
    obtain ⟨d, hd⟩ := Option.isSome_iff_exists.mp (h c List.mem_cons_self)
    obtain ⟨ds, hds⟩ := ih fun x hx => h x (List.mem_cons_of_mem c hx)
    exact ⟨d :: ds, by rw [List.mapM_cons, hd, hds]; rfl⟩

/-- A rendered numeral has no upper-case letter. -/
theorem not_isUpperHex_of_mem_render {b k n : ℕ} {c : Char} (hb : 0 < b) (hb' : b ≤ 16)
    (h : c ∈ render b k n) : ¬IsUpperHex c := by
  obtain ⟨d, hd, rfl⟩ := List.mem_map.mp h
  exact not_isUpperHex_digitChar ((lt_of_mem_digitsOf hb hd).trans_le hb')

/-- A rendered numeral is ASCII. -/
theorem toNat_lt_of_mem_render {b k n : ℕ} {c : Char} (hb : 0 < b) (hb' : b ≤ 16)
    (h : c ∈ render b k n) : c.toNat < 128 := by
  obtain ⟨d, hd, rfl⟩ := List.mem_map.mp h
  have hlt : d < 16 := (lt_of_mem_digitsOf hb hd).trans_le hb'
  interval_cases d <;> decide

/-- Every character of a rendered numeral is a digit of the base. -/
theorem isSome_digitOf_of_mem_render {b k n : ℕ} {c : Char} (hb : 0 < b) (hb' : b ≤ 16)
    (h : c ∈ render b k n) : (digitOf b c).isSome := by
  obtain ⟨d, hd, rfl⟩ := List.mem_map.mp h
  rw [digitOf_digitChar hb' (lt_of_mem_digitsOf hb hd)]
  rfl

end Text
end GroupChat

import GroupChat.Common.Uuid
import GroupChat.Text.IsoDate
import Mathlib.Data.String.Basic

/-!
# The order of printed values

The browser compares moments and identifiers as the texts they are printed as, and the
database compares them as values.  A numeral of a fixed width is ordered as the number it
denotes, so the two orders agree: for all identifiers (`printUuid_lt_iff`), and for moments
of the years that are printed with four digits (`toISOString_lt_iff`).
-/

namespace GroupChat
namespace Text

open Common Database

/-! ## Texts of one length -/

section Lex

variable {α : Type*} [LinearOrder α]

/-- Of two texts the first parts decide, when they are of one length. -/
theorem append_lt_append_iff {xs ys : List α} (h : xs.length = ys.length) (xs' ys' : List α) :
    xs ++ xs' < ys ++ ys' ↔ xs < ys ∨ xs = ys ∧ xs' < ys' := by
  induction xs generalizing ys with
  | nil =>
    rw [List.eq_nil_of_length_eq_zero h.symm]
    simp
  | cons x xs ih =>
    obtain ⟨y, ys, rfl⟩ := List.exists_cons_of_length_eq_add_one h.symm
    rw [List.cons_append, List.cons_append, List.cons_lt_cons_iff, List.cons_lt_cons_iff,
      ih (Nat.succ.inj h), List.cons.injEq]
    tauto

theorem cons_lt_cons_self_iff (x : α) (xs ys : List α) : x :: xs < x :: ys ↔ xs < ys := by
  rw [List.cons_lt_cons_iff]
  simp

end Lex

/-! ## Numerals -/

theorem digitChar_lt_digitChar_iff {d e : ℕ} (hd : d < 16) (he : e < 16) :
    Nat.digitChar d < Nat.digitChar e ↔ d < e := by
  interval_cases d <;> interval_cases e <;> decide

theorem render_injective {b k n m : ℕ} (hb : 0 < b) (hb' : b ≤ 16) (hn : n < b ^ k)
    (hm : m < b ^ k) (h : render b k n = render b k m) : n = m := by
  have hread := parse_render hb hb' k n
  rw [h, parse_render hb hb', Nat.mod_eq_of_lt hn, Nat.mod_eq_of_lt hm] at hread
  exact (Option.some.inj hread).symm

/-- **Numerals of one width are ordered as their numbers.** -/
theorem render_lt_render_iff {b k n m : ℕ} (hb : 0 < b) (hb' : b ≤ 16) (hn : n < b ^ k)
    (hm : m < b ^ k) : render b k n < render b k m ↔ n < m := by
  have hsplit : ∀ k n, render b (k + 1) n = render b k (n / b) ++ [Nat.digitChar (n % b)] := by
    intro k n
    unfold render
    rw [digitsOf, List.map_append, List.map_singleton]
  induction k generalizing n m with
  | zero =>
    rw [pow_zero, Nat.lt_one_iff] at hn hm
    subst hn hm
    simp [render, digitsOf]
  | succ k ih =>
    have hdn : n / b < b ^ k := Nat.div_lt_of_lt_mul (by rw [← pow_succ']; exact hn)
    have hdm : m / b < b ^ k := Nat.div_lt_of_lt_mul (by rw [← pow_succ']; exact hm)
    have hlast : [Nat.digitChar (n % b)] < [Nat.digitChar (m % b)] ↔ n % b < m % b := by
      rw [List.cons_lt_cons_iff]
      simp only [List.lt_irrefl, and_false, or_false]
      exact digitChar_lt_digitChar_iff ((Nat.mod_lt n hb).trans_le hb')
        ((Nat.mod_lt m hb).trans_le hb')
    have heq : render b k (n / b) = render b k (m / b) ↔ n / b = m / b :=
      ⟨render_injective hb hb' hdn hdm, fun h => by rw [h]⟩
    have hfront : render b k (n / b) < render b k (m / b) ↔ n / b < m / b := ih hdn hdm
    rw [hsplit, hsplit, append_lt_append_iff (by rw [length_render, length_render]), hlast,
      hfront, heq]
    constructor
    · rintro (h | ⟨hdiv, hmod⟩)
      · exact Nat.lt_of_div_lt_div h
      · rw [← Nat.div_add_mod n b, ← Nat.div_add_mod m b, hdiv]
        omega
    · intro h
      rcases (Nat.div_le_div_right (c := b) h.le).lt_or_eq with hdiv | hdiv
      · exact Or.inl hdiv
      · refine Or.inr ⟨hdiv, ?_⟩
        rw [← Nat.div_add_mod n b, ← Nat.div_add_mod m b, hdiv] at h
        omega

/-- A numeral decides before what follows it. -/
theorem render_append_lt_iff {b k n m : ℕ} (hb : 0 < b) (hb' : b ≤ 16) (hn : n < b ^ k)
    (hm : m < b ^ k) (c : Char) (xs ys : List Char) :
    render b k n ++ c :: xs < render b k m ++ c :: ys ↔ n < m ∨ n = m ∧ xs < ys := by
  have heq : render b k n = render b k m ↔ n = m :=
    ⟨render_injective hb hb' hn hm, fun h => by rw [h]⟩
  rw [append_lt_append_iff (by rw [length_render, length_render]),
    render_lt_render_iff hb hb' hn hm, heq, cons_lt_cons_self_iff]

/-! ## Identifiers -/

/-- Dashes in the same places do not change the order. -/
theorem dashed_lt_dashed_iff {slots : List Slot} {ds es : List Char}
    (hds : ds.length = digitCount slots) (hes : es.length = digitCount slots) :
    dashed slots ds < dashed slots es ↔ ds < es := by
  induction slots generalizing ds es with
  | nil =>
    rw [List.eq_nil_of_length_eq_zero hds, List.eq_nil_of_length_eq_zero hes]
    exact iff_of_false (List.lt_irrefl _) (List.lt_irrefl _)
  | cons slot slots ih =>
    cases slot with
    | hexDigit =>
      rw [digitCount_cons_hexDigit] at hds hes
      obtain ⟨d, ds, rfl⟩ := List.exists_cons_of_length_eq_add_one hds
      obtain ⟨e, es, rfl⟩ := List.exists_cons_of_length_eq_add_one hes
      have hrest : dashed slots ds < dashed slots es ↔ ds < es :=
        ih (Nat.succ.inj hds) (Nat.succ.inj hes)
      rw [dashed, dashed, List.cons_lt_cons_iff, List.cons_lt_cons_iff, hrest]
    | dash =>
      rw [digitCount_cons_dash] at hds hes
      rw [dashed, dashed, cons_lt_cons_self_iff]
      exact ih hds hes

/-- **Identifiers are ordered as their texts.** -/
theorem printUuid_lt_iff (a b : Uuid) : printUuid a < printUuid b ↔ a < b := by
  have hlength : ∀ id : Uuid, (render 16 32 id.val).length = digitCount uuidRe := fun id => by
    rw [length_render, digitCount_uuidRe]
  have ha : a.val < 16 ^ 32 := a.isLt
  have hb : b.val < 16 ^ 32 := b.isLt
  rw [String.lt_iff_toList_lt, printUuid, printUuid, String.toList_ofList, String.toList_ofList,
    dashed_lt_dashed_iff (hlength a) (hlength b),
    render_lt_render_iff (by omega) (by omega) ha hb]
  exact Iff.rfl

/-! ## Moments -/

/-- A moment whose year is printed with four digits. -/
def FourDigitYear (t : Instant) : Prop := 0 ≤ (fieldsOf t.val).year ∧ (fieldsOf t.val).year ≤ 9999

instance (t : Instant) : Decidable (FourDigitYear t) := inferInstanceAs (Decidable (_ ∧ _))

theorem dayFromYear_mono {y z : ℤ} (h : y ≤ z) : dayFromYear y ≤ dayFromYear z := by
  unfold dayFromYear
  omega

theorem monthStart_mono {lengths : List ℕ} {m n : ℕ} (h : m ≤ n) :
    monthStart lengths m ≤ monthStart lengths n := by
  obtain ⟨k, rfl⟩ := Nat.exists_eq_add_of_le h
  unfold monthStart
  rw [List.take_add, List.sum_append]
  exact Nat.le_add_right _ _

/-- The days of a month come before the next one. -/
theorem monthStart_add_lt {lengths : List ℕ} {m d : ℕ} (hm : m < lengths.length)
    (hd : d < lengths.getD m 0) : monthStart lengths m + d < monthStart lengths (m + 1) := by
  rw [List.getD_eq_getElem _ _ hm] at hd
  unfold monthStart
  rw [List.sum_take_succ lengths m hm]
  omega

/-- The parts of a moment, the greatest first. -/
def Fields.parts (f : Fields) : List ℤ :=
  [f.year, f.month, f.day, f.hour, f.minute, f.second, f.milli]

theorem Fields.parts_injective : Function.Injective Fields.parts := by
  intro f g h
  cases f
  cases g
  simpa [Fields.parts] using h

theorem Fields.parts_lt_iff (f g : Fields) :
    f.parts < g.parts ↔
      f.year < g.year ∨ f.year = g.year ∧ (f.month < g.month ∨ f.month = g.month ∧
        (f.day < g.day ∨ f.day = g.day ∧ (f.hour < g.hour ∨ f.hour = g.hour ∧
          (f.minute < g.minute ∨ f.minute = g.minute ∧ (f.second < g.second ∨
            f.second = g.second ∧ f.milli < g.milli))))) := by
  simp only [Fields.parts, List.cons_lt_cons_iff, Nat.cast_lt, Nat.cast_inj, List.lt_irrefl,
    and_false, or_false]

/-- The days before a moment. -/
def Fields.days (f : Fields) : ℤ :=
  dayFromYear f.year + monthStart (monthLengths f.year) f.month + f.day

/-- The milliseconds of its day before it. -/
def Fields.millis (f : Fields) : ℕ :=
  ((f.hour * 60 + f.minute) * 60 + f.second) * 1000 + f.milli

theorem Fields.millis_lt {f : Fields} (h : f.InRange) : f.millis < 86400000 := by
  obtain ⟨-, -, hhour, hminute, hsecond, hmilli⟩ := h
  unfold Fields.millis
  omega

theorem Fields.days_lt_of_month_lt {f : Fields} (h : f.InRange) {m : ℕ} (hm : f.month < m) :
    f.days < dayFromYear f.year + monthStart (monthLengths f.year) m := by
  obtain ⟨hmonth, hday, -⟩ := h
  have hlt : monthStart (monthLengths f.year) f.month + f.day <
      monthStart (monthLengths f.year) (f.month + 1) := monthStart_add_lt hmonth hday
  have hle : monthStart (monthLengths f.year) (f.month + 1) ≤ monthStart (monthLengths f.year) m :=
    monthStart_mono hm
  unfold Fields.days
  omega

/-- The days of a year come before the next one. -/
theorem Fields.days_lt {f : Fields} (h : f.InRange) : f.days < dayFromYear (f.year + 1) := by
  have hlt := Fields.days_lt_of_month_lt h (m := 12) h.1
  rw [dayFromYear_succ]
  exact hlt

theorem Fields.dayFromYear_le (f : Fields) : dayFromYear f.year ≤ f.days := by
  unfold Fields.days
  omega

/-- **The greatest part that differs decides.** -/
theorem timeOf_lt_of_parts_lt {f g : Fields} (hf : f.InRange) (hg : g.InRange)
    (h : f.parts < g.parts) : timeOf f < timeOf g := by
  have hfmillis := Fields.millis_lt hf
  have hgmillis := Fields.millis_lt hg
  have htime : ∀ x : Fields, timeOf x = x.days * msPerDay + x.millis := fun x => rfl
  have hdays : f.days < g.days → timeOf f < timeOf g := by
    intro hlt
    rw [htime, htime]
    unfold msPerDay
    omega
  have hsame : f.days = g.days → f.millis < g.millis → timeOf f < timeOf g := by
    intro heq hlt
    rw [htime, htime, heq]
    omega
  rw [Fields.parts_lt_iff] at h
  rcases h with hyear | ⟨hyear, h⟩
  · have hmono := dayFromYear_mono (y := f.year + 1) (z := g.year) hyear
    exact hdays (lt_of_lt_of_le (Fields.days_lt hf) (hmono.trans g.dayFromYear_le))
  rcases h with hmonth | ⟨hmonth, h⟩
  · have hlt := Fields.days_lt_of_month_lt hf hmonth
    refine hdays (lt_of_lt_of_le hlt ?_)
    unfold Fields.days
    rw [hyear]
    omega
  rcases h with hday | ⟨hday, h⟩
  · refine hdays ?_
    unfold Fields.days
    rw [hyear, hmonth]
    omega
  · obtain ⟨-, -, hfhour, hfminute, hfsecond, hfmilli⟩ := hf
    obtain ⟨-, -, hghour, hgminute, hgsecond, hgmilli⟩ := hg
    refine hsame ?_ ?_
    · unfold Fields.days
      rw [hyear, hmonth, hday]
    · unfold Fields.millis
      omega

theorem timeOf_lt_iff {f g : Fields} (hf : f.InRange) (hg : g.InRange) :
    timeOf f < timeOf g ↔ f.parts < g.parts := by
  constructor
  · intro h
    rcases lt_trichotomy f.parts g.parts with hlt | heq | hgt
    · exact hlt
    · rw [Fields.parts_injective heq] at h
      exact absurd h (lt_irrefl _)
    · exact absurd (h.trans (timeOf_lt_of_parts_lt hg hf hgt)) (lt_irrefl _)
  · exact timeOf_lt_of_parts_lt hf hg

/-- **The text of a moment taken apart is ordered as its parts.** -/
theorem isoText_lt_isoText_iff {f g : Fields} (hf : f.InRange) (hg : g.InRange)
    (hfyear : 0 ≤ f.year ∧ f.year ≤ 9999) (hgyear : 0 ≤ g.year ∧ g.year ≤ 9999) :
    isoText f < isoText g ↔ f.parts < g.parts := by
  have hfday := Fields.day_lt hf
  have hgday := Fields.day_lt hg
  obtain ⟨hfmonth, -, hfhour, hfminute, hfsecond, hfmilli⟩ := hf
  obtain ⟨hgmonth, -, hghour, hgminute, hgsecond, hgmilli⟩ := hg
  have hyear : ∀ {y : ℤ}, 0 ≤ y ∧ y ≤ 9999 → yearText y = render 10 4 y.toNat := fun h =>
    if_pos h
  have hlt : f.year.toNat < g.year.toNat ↔ f.year < g.year := by omega
  have heq : f.year.toNat = g.year.toNat ↔ f.year = g.year := by omega
  rw [isoText_eq, isoText_eq, hyear hfyear, hyear hgyear, Fields.parts_lt_iff,
    render_append_lt_iff (by omega) (by omega) (by omega) (by omega),
    render_append_lt_iff (by omega) (by omega) (by omega) (by omega),
    render_append_lt_iff (by omega) (by omega) (by omega) (by omega),
    render_append_lt_iff (by omega) (by omega) (by omega) (by omega),
    render_append_lt_iff (by omega) (by omega) (by omega) (by omega),
    render_append_lt_iff (by omega) (by omega) (by omega) (by omega),
    render_append_lt_iff (by omega) (by omega) (by omega) (by omega), hlt, heq]
  simp only [List.lt_irrefl, and_false, or_false, Nat.add_lt_add_iff_right, Nat.add_right_cancel_iff]

/-- **Moments are ordered as their texts**, in the years of four digits. -/
theorem toISOString_lt_iff {t u : Instant} (ht : FourDigitYear t) (hu : FourDigitYear u) :
    toISOString t < toISOString u ↔ t < u := by
  obtain ⟨httime, htrange⟩ := timeOf_fieldsOf t.val
  obtain ⟨hutime, hurange⟩ := timeOf_fieldsOf u.val
  rw [String.lt_iff_toList_lt, toISOString, toISOString, String.toList_ofList,
    String.toList_ofList, isoText_lt_isoText_iff htrange hurange ht hu,
    ← timeOf_lt_iff htrange hurange, httime, hutime]
  exact Iff.rfl

end Text
end GroupChat

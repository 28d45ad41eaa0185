import GroupChat.Database.Column
import GroupChat.Text.Digits
import Mathlib.Data.List.GetD

/-!
# Timestamps as text

A moment is printed as `YYYY-MM-DDTHH:mm:ss.sssZ`, with a signed year of six
digits outside the years 0 to 9999, and read back from that form.  The calendar
is the proleptic Gregorian one: `dayFromYear` is the day a year starts on, and
`yearFromDay` finds the year a day lies in by an estimate that is off by at most
one.

`readIso_toISOString` is the round trip, for every moment there is.
-/

namespace GroupChat
namespace Text

open Database

/-! ## The calendar -/

/-- The first day of a year, counted from the epoch. -/
def dayFromYear (y : ℤ) : ℤ :=
  365 * (y - 1970) + (y - 1969) / 4 - (y - 1901) / 100 + (y - 1601) / 400

def IsLeap (y : ℤ) : Prop := y % 4 = 0 ∧ (y % 100 ≠ 0 ∨ y % 400 = 0)

instance (y : ℤ) : Decidable (IsLeap y) :=
  inferInstanceAs (Decidable (y % 4 = 0 ∧ (y % 100 ≠ 0 ∨ y % 400 = 0)))

/-- The year a day lies in. -/
def yearFromDay (d : ℤ) : ℤ :=
  let y := 1970 + d * 400 / 146097
  if d < dayFromYear y then y - 1 else if dayFromYear (y + 1) ≤ d then y + 1 else y

/-- The lengths of the months of a year. -/
def monthLengths (y : ℤ) : List ℕ :=
  [31, if IsLeap y then 29 else 28, 31, 30, 31, 30, 31, 31, 30, 31, 30, 31]

/-- The first day of a month within its year; both count from zero. -/
def monthStart (lengths : List ℕ) (m : ℕ) : ℕ := (lengths.take m).sum

/-- The month a day of a year lies in, and the day within the month. -/
def splitDay : List ℕ → ℕ → ℕ × ℕ
  | [], d => (0, d)
  | l :: ls, d => if d < l then (0, d) else ((splitDay ls (d - l)).1 + 1, (splitDay ls (d - l)).2)

/-- A moment taken apart; months and days count from zero. -/
structure Fields where
  year : ℤ
  month : ℕ
  day : ℕ
  hour : ℕ
  minute : ℕ
  second : ℕ
  milli : ℕ
deriving DecidableEq

/-- The milliseconds of a day. -/
def msPerDay : ℤ := 86400000

/-- Take a moment apart. -/
def fieldsOf (t : ℤ) : Fields :=
  let d := t / msPerDay
  let ms := (t % msPerDay).toNat
  let y := yearFromDay d
  let md := splitDay (monthLengths y) (d - dayFromYear y).toNat
  ⟨y, md.1, md.2, ms / 3600000, ms / 60000 % 60, ms / 1000 % 60, ms % 1000⟩

/-- The moment of its parts. -/
def timeOf (f : Fields) : ℤ :=
  (dayFromYear f.year + monthStart (monthLengths f.year) f.month + f.day) * msPerDay +
    (((f.hour * 60 + f.minute) * 60 + f.second) * 1000 + f.milli : ℕ)

/-- The parts are those of a day and a time of day. -/
def Fields.InRange (f : Fields) : Prop :=
  f.month < 12 ∧ f.day < (monthLengths f.year).getD f.month 0 ∧ f.hour < 24 ∧ f.minute < 60 ∧
    f.second < 60 ∧ f.milli < 1000

instance (f : Fields) : Decidable f.InRange := inferInstanceAs (Decidable (_ ∧ _))

/-! ## The calendar is consistent -/

theorem dayFromYear_succ (y : ℤ) :
    dayFromYear (y + 1) = dayFromYear y + (monthLengths y).sum := by
  have hsum : ((monthLengths y).sum : ℤ) = if IsLeap y then 366 else 365 := by
    unfold monthLengths
    split_ifs <;> rfl
  rw [hsum]
  unfold dayFromYear IsLeap
  split_ifs <;> omega

/-- **The year found is the one the day lies in.** -/
theorem yearFromDay_spec (d : ℤ) :
    dayFromYear (yearFromDay d) ≤ d ∧ d < dayFromYear (yearFromDay d + 1) := by
  have hestimate : dayFromYear (1970 + d * 400 / 146097 - 1) ≤ d ∧
      d < dayFromYear (1970 + d * 400 / 146097 + 1 + 1) := by
    unfold dayFromYear
    omega
  unfold yearFromDay
  dsimp only
  split_ifs with hlow hhigh
  · rw [Int.sub_add_cancel]
    exact ⟨hestimate.1, hlow⟩
  · exact ⟨hhigh, hestimate.2⟩
  · exact ⟨Int.not_lt.mp hlow, Int.not_le.mp hhigh⟩

/-- **Splitting a day of the year.** -/
theorem splitDay_spec {lengths : List ℕ} {d : ℕ} (h : d < lengths.sum) :
    (splitDay lengths d).1 < lengths.length ∧
      (splitDay lengths d).2 < lengths.getD (splitDay lengths d).1 0 ∧
      monthStart lengths (splitDay lengths d).1 + (splitDay lengths d).2 = d := by
  induction lengths generalizing d with
  | nil => exact absurd h (Nat.not_lt_zero d)
  | cons l ls ih =>
    rw [List.sum_cons] at h
    unfold splitDay
    split_ifs with hd
    · exact ⟨Nat.succ_pos _, hd, Nat.zero_add d⟩
    · obtain ⟨hmonth, hday, hsum⟩ := ih (d := d - l) (by omega)
      refine ⟨Nat.succ_lt_succ hmonth, hday, ?_⟩
      unfold monthStart at hsum ⊢
      rw [List.take_succ_cons, List.sum_cons]
      omega

/-- **Taking apart and putting together.** -/
theorem timeOf_fieldsOf (t : ℤ) : timeOf (fieldsOf t) = t ∧ (fieldsOf t).InRange := by
  obtain ⟨hlow, hhigh⟩ := yearFromDay_spec (t / msPerDay)
  rw [dayFromYear_succ] at hhigh
  have hmod : 0 ≤ t % msPerDay := Int.emod_nonneg t (by decide)
  have hlt : t % msPerDay < msPerDay := Int.emod_lt_of_pos t (by decide)
  have hdiv : t / msPerDay * msPerDay + t % msPerDay = t := Int.ediv_mul_add_emod t msPerDay
  have hday : (t / msPerDay - dayFromYear (yearFromDay (t / msPerDay))).toNat <
      (monthLengths (yearFromDay (t / msPerDay))).sum := by omega
  obtain ⟨hmonth, hlength, hsum⟩ := splitDay_spec hday
  have hms : (t % msPerDay).toNat < 86400000 := by
    unfold msPerDay at hlt ⊢
    omega
  constructor
  · unfold timeOf fieldsOf
    dsimp only
    have hdays : dayFromYear (yearFromDay (t / msPerDay)) +
        (monthStart (monthLengths (yearFromDay (t / msPerDay)))
          (splitDay (monthLengths (yearFromDay (t / msPerDay)))
            (t / msPerDay - dayFromYear (yearFromDay (t / msPerDay))).toNat).1 : ℕ) +
        ((splitDay (monthLengths (yearFromDay (t / msPerDay)))
            (t / msPerDay - dayFromYear (yearFromDay (t / msPerDay))).toNat).2 : ℕ) =
        t / msPerDay := by omega
    have htime : (((t % msPerDay).toNat / 3600000 * 60 + (t % msPerDay).toNat / 60000 % 60) * 60 +
        (t % msPerDay).toNat / 1000 % 60) * 1000 + (t % msPerDay).toNat % 1000 =
        (t % msPerDay).toNat := by omega
    rw [hdays, htime, Int.toNat_of_nonneg hmod, hdiv]
  · refine ⟨hmonth, hlength, ?_, ?_, ?_, ?_⟩
    · show (t % msPerDay).toNat / 3600000 < 24
      omega
    · exact Nat.mod_lt _ (by omega)
    · exact Nat.mod_lt _ (by omega)
    · exact Nat.mod_lt _ (by omega)

/-! ## Printing and reading -/

/-- The text of a year. -/
def yearText (y : ℤ) : List Char :=
  if 0 ≤ y ∧ y ≤ 9999 then render 10 4 y.toNat
  else (if 0 ≤ y then '+' else '-') :: render 10 6 y.natAbs

/-- The text of a moment taken apart. -/
def isoText (f : Fields) : List Char :=
  yearText f.year ++ '-' :: render 10 2 (f.month + 1) ++ '-' :: render 10 2 (f.day + 1) ++
    'T' :: render 10 2 f.hour ++ ':' :: render 10 2 f.minute ++ ':' :: render 10 2 f.second ++
    '.' :: render 10 3 f.milli ++ ['Z']

/-- `Date.prototype.toISOString`. -/
def toISOString (t : Instant) : String := String.ofList (isoText (fieldsOf t.val))

/-- Read a number of exactly `k` digits. -/
def numeral (k : ℕ) (cs : List Char) : Option (ℕ × List Char) :=
  if k ≤ cs.length then (parse 10 (cs.take k)).map fun n => (n, cs.drop k) else none

/-- Read one given character. -/
def literal (c : Char) : List Char → Option (List Char)
  | [] => none
  | x :: cs => if x = c then some cs else none

/-- Read a year; there is no year minus zero. -/
def readYear : List Char → Option (ℤ × List Char)
  | [] => none
  | c :: cs =>
    if c = '+' then (numeral 6 cs).map fun r => (r.1, r.2)
    else if c = '-' then (numeral 6 cs).bind fun r => if r.1 = 0 then none else some (-r.1, r.2)
    else (numeral 4 (c :: cs)).map fun r => (r.1, r.2)

/-- Read a moment from the form it is printed in. -/
def readIso (cs : List Char) : Option Fields :=
  (readYear cs).bind fun year => (literal '-' year.2).bind fun cs =>
  (numeral 2 cs).bind fun month => (literal '-' month.2).bind fun cs =>
  (numeral 2 cs).bind fun day => (literal 'T' day.2).bind fun cs =>
  (numeral 2 cs).bind fun hour => (literal ':' hour.2).bind fun cs =>
  (numeral 2 cs).bind fun minute => (literal ':' minute.2).bind fun cs =>
  (numeral 2 cs).bind fun second => (literal '.' second.2).bind fun cs =>
  (numeral 3 cs).bind fun milli => (literal 'Z' milli.2).bind fun cs =>
    let f : Fields :=
      ⟨year.1, month.1 - 1, day.1 - 1, hour.1, minute.1, second.1, milli.1⟩
    if cs = [] ∧ month.1 ≠ 0 ∧ day.1 ≠ 0 ∧ f.InRange then some f else none

/-- The moment, if a `Date` can hold it. -/
def timeClip (t : ℤ) : Option Instant :=
  if h : -maxTimeValue ≤ t ∧ t ≤ maxTimeValue then some ⟨t, h⟩ else none

/-! ## Reading back -/

theorem numeral_render {k n : ℕ} (h : n < 10 ^ k) (cs : List Char) :
    numeral k (render 10 k n ++ cs) = some (n, cs) := by
  have hlength : (render 10 k n).length = k := length_render 10 k n
  unfold numeral
  rw [if_pos (by rw [List.length_append]; omega), List.take_left' hlength,
    List.drop_left' hlength, parse_render (by omega) (by omega), Nat.mod_eq_of_lt h]
  rfl

theorem literal_cons (c : Char) (cs : List Char) : literal c (c :: cs) = some cs := if_pos rfl

theorem readYear_cons (c : Char) (cs : List Char) :
    readYear (c :: cs) =
      if c = '+' then (numeral 6 cs).map fun r => ((r.1 : ℤ), r.2)
      else if c = '-' then (numeral 6 cs).bind fun r => if r.1 = 0 then none else some (-r.1, r.2)
      else (numeral 4 (c :: cs)).map fun r => ((r.1 : ℤ), r.2) :=
  rfl

/-- A digit is not a sign. -/
theorem ne_sign_of_mem_render {k n : ℕ} {c : Char} (h : c ∈ render 10 k n) : c ≠ '+' ∧ c ≠ '-' := by
  have hdigit : (digitOf 10 c).isSome := isSome_digitOf_of_mem_render (by omega) (by omega) h
  constructor
  · rintro rfl
    exact absurd hdigit (by decide)
  · rintro rfl
    exact absurd hdigit (by decide)

theorem readYear_yearText {y : ℤ} (h : y.natAbs < 10 ^ 6) (cs : List Char) :
    readYear (yearText y ++ cs) = some (y, cs) := by
  unfold yearText
  split_ifs with hfour hpos
  · have hlength : (render 10 4 y.toNat).length = 4 := length_render 10 4 y.toNat
    have hnumeral := numeral_render (show y.toNat < 10 ^ 4 by omega) cs
    cases hrender : render 10 4 y.toNat with
    | nil =>
      rw [hrender] at hlength
      cases hlength
    | cons c ds =>
      obtain ⟨hplus, hminus⟩ := ne_sign_of_mem_render (k := 4) (n := y.toNat) (c := c)
        (by rw [hrender]; exact List.mem_cons_self)
      rw [hrender] at hnumeral
      rw [List.cons_append, readYear_cons, if_neg hplus, if_neg hminus, ← List.cons_append,
        hnumeral]
      show some ((y.toNat : ℤ), cs) = some (y, cs)
      rw [Int.toNat_of_nonneg hfour.1]
  · rw [List.cons_append, readYear_cons, if_pos rfl, numeral_render h]
    show some ((y.natAbs : ℤ), cs) = some (y, cs)
    rw [Int.natAbs_of_nonneg hpos]
  · rw [List.cons_append, readYear_cons, if_neg (by decide), if_pos rfl, numeral_render h,
      Option.bind_some, if_neg (by dsimp only; omega)]
    have hy : -(y.natAbs : ℤ) = y := by omega
    rw [hy]

/-- A month has at most 31 days. -/
theorem Fields.day_lt {f : Fields} (h : f.InRange) : f.day < 31 := by
  obtain ⟨hmonth, hday, -⟩ := h
  have hall : ∀ l ∈ monthLengths f.year, l ≤ 31 := by
    unfold monthLengths
    split_ifs <;> decide
  rw [List.getD_eq_getElem _ _ (show f.month < (monthLengths f.year).length from hmonth)] at hday
  exact lt_of_lt_of_le hday (hall _ (List.getElem_mem _))

/-- The text, one part after the other. -/
theorem isoText_eq (f : Fields) :
    isoText f = yearText f.year ++ '-' :: (render 10 2 (f.month + 1) ++
      '-' :: (render 10 2 (f.day + 1) ++ 'T' :: (render 10 2 f.hour ++
      ':' :: (render 10 2 f.minute ++ ':' :: (render 10 2 f.second ++
      '.' :: (render 10 3 f.milli ++ ['Z'])))))) := by
  unfold isoText
  simp only [List.append_assoc, List.cons_append]

/-- **The text of a moment taken apart reads back.** -/
theorem readIso_isoText {f : Fields} (hyear : f.year.natAbs < 10 ^ 6) (h : f.InRange) :
    readIso (isoText f) = some f := by
  have hday := Fields.day_lt h
  obtain ⟨hmonth, hlength, hhour, hminute, hsecond, hmilli⟩ := h
  rw [isoText_eq]
  unfold readIso
  rw [readYear_yearText hyear, Option.bind_some, literal_cons, Option.bind_some,
    numeral_render (by omega), Option.bind_some, literal_cons, Option.bind_some,
    numeral_render (by omega), Option.bind_some, literal_cons, Option.bind_some,
    numeral_render (by omega), Option.bind_some, literal_cons, Option.bind_some,
    numeral_render (by omega), Option.bind_some, literal_cons, Option.bind_some,
    numeral_render (by omega), Option.bind_some, literal_cons, Option.bind_some,
    numeral_render (by omega), Option.bind_some, literal_cons, Option.bind_some]
  exact if_pos ⟨rfl, Nat.succ_ne_zero _, Nat.succ_ne_zero _, hmonth, hlength, hhour, hminute,
    hsecond, hmilli⟩

/-- A printed moment is ASCII. -/
theorem toNat_lt_of_mem_isoText {f : Fields} {c : Char} (h : c ∈ isoText f) : c.toNat < 128 := by
  have hdigits : ∀ {k n : ℕ}, c ∈ render 10 k n → c.toNat < 128 := fun hc =>
    toNat_lt_of_mem_render (by omega) (by omega) hc
  have hyear : c ∈ yearText f.year → c.toNat < 128 := by
    intro hc
    unfold yearText at hc
    split_ifs at hc with hfour hpos
    · exact hdigits hc
    · rcases List.mem_cons.mp hc with rfl | hc
      · decide
      · exact hdigits hc
    · rcases List.mem_cons.mp hc with rfl | hc
      · decide
      · exact hdigits hc
  unfold isoText at h
  simp only [List.mem_append, List.mem_cons, List.not_mem_nil, or_false] at h
  rcases h with ((((((h | rfl | h) | rfl | h) | rfl | h) | rfl | h) | rfl | h) | rfl | h) | rfl
  · exact hyear h
  all_goals first | decide | exact hdigits h

/-- The years of the moments a `Date` can hold have at most six digits. -/
theorem natAbs_year_lt (t : Instant) : (fieldsOf t.val).year.natAbs < 10 ^ 6 := by
  obtain ⟨hlow, hhigh⟩ := t.property
  obtain ⟨hfrom, hto⟩ := yearFromDay_spec (t.val / msPerDay)
  show (yearFromDay (t.val / msPerDay)).natAbs < 10 ^ 6
  generalize yearFromDay (t.val / msPerDay) = y at hfrom hto
  unfold maxTimeValue at hlow hhigh
  unfold msPerDay dayFromYear at hfrom hto
  omega

theorem timeClip_val (t : Instant) : timeClip t.val = some t := dif_pos t.property

/-- **Round trip.**  A printed moment reads back as the moment. -/
theorem readIso_toISOString (t : Instant) :
    (readIso (toISOString t).toList).map timeOf = some t.val := by
  obtain ⟨htime, hrange⟩ := timeOf_fieldsOf t.val
  unfold toISOString
  rw [String.toList_ofList, readIso_isoText (natAbs_year_lt t) hrange, Option.map_some, htime]

end Text
end GroupChat

import Mathlib.Algebra.BigOperators.Group.Finset.Basic
import Mathlib.Algebra.Order.BigOperators.Group.Finset
import Mathlib.Tactic.Ring

set_option relaxedAutoImplicit false
set_option autoImplicit false

/-!
# The Gregorian calendar

Dates of the Gregorian calendar, extended to all years, are numbered by days; dates with a time of
day are numbered by seconds. Both numberings are bijections with the integers, and the fields of a
number are computed with divisions: the years from the cycles of 400, 100, 4 years and one year, the
months by going through their lengths.

Months and days count from 0 here. The numbers count from 1 January 1970.

## Main definitions

* `Taningia.Calendar.slot` — the slot that a number falls in, when slots follow each other.
* `Taningia.Calendar.IsLeap`, `Taningia.Calendar.daysInMonth` — the lengths of years and months.
* `Taningia.Calendar.Date`, `Taningia.Calendar.Moment` — a date, and a date with a time of day.

## Main results

* `Taningia.Calendar.slot_spec`, `Taningia.Calendar.slot_sum` — the slot and the place in it.
* `Taningia.Calendar.number_ofNumber`, `Taningia.Calendar.ofNumber_number` — dates and their
  numbers.
* `Taningia.Calendar.momentEquiv` — moments are numbered by the integers.
-/

namespace Taningia.Calendar

open Finset

/-! ## Slots -/

/-- The first `k` slots have the lengths `f 0, f 1, …`: the slot of a number, and the place in it.
-/
def slot : (ℕ → ℕ) → ℕ → ℕ → ℕ × ℕ
  | _, 0, n => (0, n)
  | f, k + 1, n =>
    if n < f 0 then (0, n)
    else ((slot (fun i => f (i + 1)) k (n - f 0)).1 + 1, (slot (fun i => f (i + 1)) k (n - f 0)).2)

/-- **The slot of a number** that falls in one of the slots.

**Proof sketch.** Induction on the number of slots: the number falls in the first one, or what
is left of it falls in one of the others. -/
lemma slot_spec (f : ℕ → ℕ) (k : ℕ) {n : ℕ} (h : n < ∑ i ∈ range k, f i) :
    (slot f k n).1 < k ∧ (slot f k n).2 < f (slot f k n).1 ∧
      ∑ i ∈ range (slot f k n).1, f i + (slot f k n).2 = n := by
  induction k generalizing f n with
  | zero => simp at h
  | succ k ih =>
    rw [sum_range_succ'] at h
    unfold slot
    by_cases hn : n < f 0
    · rw [if_pos hn]
      exact ⟨by omega, hn, by simp⟩
    · rw [if_neg hn]
      obtain ⟨hslot, hplace, hsum⟩ := ih (fun i => f (i + 1)) (n := n - f 0) (by omega)
      refine ⟨by omega, hplace, ?_⟩
      rw [sum_range_succ']
      omega

/-- A place in a slot is found again.

**Proof sketch.** Induction on the number of slots; a later slot is found behind the first. -/
lemma slot_sum (f : ℕ → ℕ) {k m d : ℕ} (hm : m < k) (hd : d < f m) :
    slot f k (∑ i ∈ range m, f i + d) = (m, d) := by
  induction k generalizing f m with
  | zero => omega
  | succ k ih =>
    unfold slot
    cases m with
    | zero => simp [hd]
    | succ m =>
      rw [sum_range_succ']
      rw [if_neg (by omega)]
      have hrest : ∑ i ∈ range m, f (i + 1) + f 0 + d - f 0 = ∑ i ∈ range m, f (i + 1) + d := by
        omega
      rw [hrest, ih (fun i => f (i + 1)) (by omega) hd]

/-! ## Years and months -/

/-- The year has a 29 February. -/
def IsLeap (year : ℤ) : Prop := 4 ∣ year ∧ (¬ 100 ∣ year ∨ 400 ∣ year)

instance (year : ℤ) : Decidable (IsLeap year) := inferInstanceAs (Decidable (_ ∧ _))

/-- The days of a month, counted from 0. -/
def daysInMonth (year : ℤ) (month : ℕ) : ℕ :=
  if month = 1 then if IsLeap year then 29 else 28
  else if month ∈ [3, 5, 8, 10] then 30
  else 31

/-- The days of a year. -/
def daysInYear (year : ℤ) : ℕ := if IsLeap year then 366 else 365

/-- The days from 1 January of the year 1 to 1 January of the year. -/
def daysBeforeYear (year : ℤ) : ℤ :=
  365 * (year - 1) + (year - 1) / 4 - (year - 1) / 100 + (year - 1) / 400

/-- The year of the day with the number, counted from 1 January of the year 1: the cycles of 400
years have 146097 days, those of 100 years 36524 but for the last, those of 4 years 1461. -/
def yearOf (n : ℤ) : ℤ :=
  let hundreds := min (n % 146097 / 36524) 3
  let rest := n % 146097 - 36524 * hundreds
  400 * (n / 146097) + 100 * hundreds + 4 * (rest / 1461) + min (rest % 1461 / 365) 3 + 1

/-- The months make up the year. -/
lemma sum_daysInMonth (year : ℤ) : ∑ i ∈ range 12, daysInMonth year i = daysInYear year := by
  by_cases h : IsLeap year
  · simp [sum_range_succ, daysInMonth, daysInYear, h]
  · simp [sum_range_succ, daysInMonth, daysInYear, h]

/-- The days before the next year. -/
lemma daysBeforeYear_succ (year : ℤ) :
    daysBeforeYear (year + 1) = daysBeforeYear year + daysInYear year := by
  unfold daysBeforeYear daysInYear
  by_cases h : IsLeap year
  · rw [if_pos h]
    unfold IsLeap at h
    omega
  · rw [if_neg h]
    unfold IsLeap at h
    omega

/-- A later year begins behind the end of an earlier one. -/
lemma daysBeforeYear_lt {year year' : ℤ} (h : year < year') :
    daysBeforeYear (year + 1) ≤ daysBeforeYear year' := by
  unfold daysBeforeYear
  omega

/-- A year by its cycles begins where the cycles in front of it end. -/
lemma daysBeforeYear_cycles {a b c d : ℤ} (hb : 0 ≤ b ∧ b ≤ 3) (hc : 0 ≤ c ∧ c ≤ 24)
    (hd : 0 ≤ d ∧ d ≤ 3) :
    daysBeforeYear (400 * a + 100 * b + 4 * c + d + 1) =
      146097 * a + 36524 * b + 1461 * c + 365 * d := by
  unfold daysBeforeYear
  omega

/-- The year at the end of a cycle of 4 is a leap year, but for the last one of a cycle of 100, but
for the last one of a cycle of 400. -/
lemma daysInYear_cycles {a b c d : ℤ} (hb : 0 ≤ b ∧ b ≤ 3) (hc : 0 ≤ c ∧ c ≤ 24)
    (hd : 0 ≤ d ∧ d ≤ 3) :
    daysInYear (400 * a + 100 * b + 4 * c + d + 1) =
      if d = 3 ∧ (c ≠ 24 ∨ b = 3) then 366 else 365 := by
  have hleap : IsLeap (400 * a + 100 * b + 4 * c + d + 1) ↔ d = 3 ∧ (c ≠ 24 ∨ b = 3) := by
    unfold IsLeap
    omega
  unfold daysInYear
  simp only [hleap]

/-- **The day falls in its year.**

**Proof sketch.** With `b` centuries, `c` spans of four years and `d` years, each in its bounds,
the day and the year are linear in them (`daysBeforeYear_cycles`, `daysInYear_cycles`). The
minima take care of the last day of a leap year at the end of a span. -/
lemma yearOf_spec (n : ℤ) :
    daysBeforeYear (yearOf n) ≤ n ∧ n < daysBeforeYear (yearOf n) + daysInYear (yearOf n) := by
  set b := min (n % 146097 / 36524) 3 with hb
  set c := (n % 146097 - 36524 * b) / 1461 with hc
  set d := min ((n % 146097 - 36524 * b) % 1461 / 365) 3 with hd
  have hyear : yearOf n = 400 * (n / 146097) + 100 * b + 4 * c + d + 1 := rfl
  have hb' : 0 ≤ b ∧ b ≤ 3 := by omega
  have hc' : 0 ≤ c ∧ c ≤ 24 := by omega
  have hd' : 0 ≤ d ∧ d ≤ 3 := by omega
  rw [hyear, daysBeforeYear_cycles hb' hc' hd', daysInYear_cycles hb' hc' hd']
  constructor
  · omega
  · by_cases hleap : d = 3 ∧ (c ≠ 24 ∨ b = 3)
    · rw [if_pos hleap]
      omega
    · rw [if_neg hleap]
      omega

/-- A day falls in one year. -/
lemma yearOf_eq {n year : ℤ} (h : daysBeforeYear year ≤ n)
    (h' : n < daysBeforeYear year + daysInYear year) : yearOf n = year := by
  obtain ⟨hle, hlt⟩ := yearOf_spec n
  rw [← daysBeforeYear_succ] at h' hlt
  rcases lt_trichotomy (yearOf n) year with hyear | hyear | hyear
  · have := daysBeforeYear_lt hyear
    omega
  · exact hyear
  · have := daysBeforeYear_lt hyear
    omega

/-! ## Dates -/

/-- A date; the month and the day count from 0. -/
@[ext]
structure Date where
  year : ℤ
  month : ℕ
  day : ℕ
  month_lt : month < 12
  day_lt : day < daysInMonth year month

/-- The days from 1 January of the year 1 to 1 January 1970. -/
def epoch : ℤ := 719162

/-- The number of a date: 1 January 1970 has the number 0. -/
def Date.number (date : Date) : ℤ :=
  daysBeforeYear date.year +
    (∑ i ∈ range date.month, daysInMonth date.year i + date.day : ℕ) - epoch

/-- The place of a day in its year. -/
def dayOfYear (n : ℤ) : ℕ := (n - daysBeforeYear (yearOf n)).toNat

/-- The day of the year falls in one of its months. -/
lemma dayOfYear_lt (n : ℤ) :
    dayOfYear n < ∑ i ∈ range 12, daysInMonth (yearOf n) i := by
  obtain ⟨hle, hlt⟩ := yearOf_spec n
  rw [sum_daysInMonth, dayOfYear]
  omega

/-- The month of a day, and the place in it. -/
def monthOf (n : ℤ) : ℕ × ℕ := slot (daysInMonth (yearOf n)) 12 (dayOfYear n)

/-- The date with the number. -/
def Date.ofNumber (number : ℤ) : Date where
  year := yearOf (number + epoch)
  month := (monthOf (number + epoch)).1
  day := (monthOf (number + epoch)).2
  month_lt := (slot_spec _ 12 (dayOfYear_lt _)).1
  day_lt := (slot_spec _ 12 (dayOfYear_lt _)).2.1

/-- A number is the number of its date. -/
lemma number_ofNumber (number : ℤ) : (Date.ofNumber number).number = number := by
  obtain ⟨hle, -⟩ := yearOf_spec (number + epoch)
  have hsum := (slot_spec _ 12 (dayOfYear_lt (number + epoch))).2.2
  unfold Date.number Date.ofNumber monthOf
  dsimp only
  rw [hsum]
  unfold dayOfYear
  omega

/-- The days in front of a date in its year are fewer than the year has. -/
lemma Date.lt_daysInYear (date : Date) :
    ∑ i ∈ range date.month, daysInMonth date.year i + date.day < daysInYear date.year := by
  have hmonth : range (date.month + 1) ⊆ range 12 := range_subset_range.mpr date.month_lt
  have hle := sum_le_sum_of_subset (f := daysInMonth date.year) hmonth
  rw [sum_range_succ, sum_daysInMonth] at hle
  have hday := date.day_lt
  omega

/-- A date is the date of its number.

**Proof sketch.** The year is the one whose days contain the number, and `slot_sum` finds the
month and the day again. -/
lemma ofNumber_number (date : Date) : Date.ofNumber date.number = date := by
  have hlt := date.lt_daysInYear
  have hyear : yearOf (date.number + epoch) = date.year := by
    apply yearOf_eq
    · unfold Date.number
      omega
    · unfold Date.number
      omega
  have hday : dayOfYear (date.number + epoch) =
      ∑ i ∈ range date.month, daysInMonth date.year i + date.day := by
    rw [dayOfYear, hyear]
    unfold Date.number
    omega
  have hmonth : monthOf (date.number + epoch) = (date.month, date.day) := by
    rw [monthOf, hyear, hday]
    exact slot_sum _ date.month_lt date.day_lt
  ext
  · exact hyear
  · exact congrArg Prod.fst hmonth
  · exact congrArg Prod.snd hmonth

/-! ## Moments -/

/-- A date with a time of day. -/
@[ext]
structure Moment where
  date : Date
  hour : ℕ
  min : ℕ
  sec : ℕ
  hour_lt : hour < 24
  min_lt : min < 60
  sec_lt : sec < 60

/-- The seconds from the start of 1970 to the moment. -/
def Moment.seconds (m : Moment) : ℤ :=
  86400 * m.date.number + (3600 * m.hour + 60 * m.min + m.sec : ℕ)

/-- The moment with so many seconds. -/
def Moment.ofSeconds (t : ℤ) : Moment where
  date := Date.ofNumber (t / 86400)
  hour := (t % 86400).toNat / 3600
  min := (t % 86400).toNat / 60 % 60
  sec := (t % 86400).toNat % 60
  hour_lt := by omega
  min_lt := by omega
  sec_lt := by omega

/-- The seconds are the seconds of their moment. -/
lemma seconds_ofSeconds (t : ℤ) : (Moment.ofSeconds t).seconds = t := by
  unfold Moment.seconds Moment.ofSeconds
  dsimp only
  rw [number_ofNumber]
  omega

/-- A moment is the moment of its seconds.

**Proof sketch.** Division by the length of a day gives the date and the remainder the time of
day; division of this by hour and minute gives its parts. -/
lemma ofSeconds_seconds (m : Moment) : Moment.ofSeconds m.seconds = m := by
  have hhour := m.hour_lt
  have hmin := m.min_lt
  have hsec := m.sec_lt
  have hday : m.seconds / 86400 = m.date.number := by
    unfold Moment.seconds
    omega
  have htime : (m.seconds % 86400).toNat = 3600 * m.hour + 60 * m.min + m.sec := by
    unfold Moment.seconds
    omega
  unfold Moment.ofSeconds
  simp only [hday, htime]
  apply Moment.ext
  · exact ofNumber_number m.date
  · show (3600 * m.hour + 60 * m.min + m.sec) / 3600 = m.hour
    omega
  · show (3600 * m.hour + 60 * m.min + m.sec) / 60 % 60 = m.min
    omega
  · show (3600 * m.hour + 60 * m.min + m.sec) % 60 = m.sec
    omega

/-- **Moments are numbered by the integers.** -/
def momentEquiv : Moment ≃ ℤ where
  toFun := Moment.seconds
  invFun := Moment.ofSeconds
  left_inv := ofSeconds_seconds
  right_inv := seconds_ofSeconds

end Taningia.Calendar

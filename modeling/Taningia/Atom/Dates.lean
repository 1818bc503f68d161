import Taningia.Atom.EntryParse
import Taningia.Lib.Calendar

set_option relaxedAutoImplicit false
set_option autoImplicit false

/-!
# Timestamps

`time_to_iso8601` prints the fields that `gmtime` gives, which are those of UTC, and marks them with
a `Z`. `iso8601_to_time` reads them back, but hands them to `mktime`, which takes them for local
time. So a time that is written and read is off by the offset of the machine.

## Main definitions

* `Taningia.tmOf` — the fields of a moment.
* `Taningia.TimeLib.Fixed` — the calendar functions on a machine with a fixed offset from UTC.
* `Taningia.fixedLib` — simple functions of this kind.

## Main results

* `Taningia.iso8601_shift` — what becomes of a time that is written and read.
* `Taningia.iso8601_round_trip_iff` — it is the same time exactly when the offset is 0.
-/

namespace Taningia

open Calendar

variable {N : Type}

/-! ## The calendar functions -/

/-- The fields of a moment in a `struct tm`. -/
def tmOf (m : Moment) : Tm :=
  ⟨m.sec, m.min, m.hour, m.date.day + 1, m.date.month, m.date.year - 1900⟩

/-- The year of a moment has four digits. -/
def FourDigits (m : Moment) : Prop := 1000 ≤ m.date.year ∧ m.date.year ≤ 9999

/-- A numeral of `width` decimal digits, with zeros in front, for a number. -/
structure IsNumeral (width : ℕ) (s : Str) (n : ℤ) : Prop where
  length : s.length = width
  digits : ∀ c ∈ s, isdigit c = true
  value : (Nat.ofDigitChars 10 s 0 : ℤ) = n

/-- The calendar functions on a machine whose time is `offset` seconds ahead of UTC: `gmtime` gives
the fields of UTC, `strptime` reads the six numerals of the format, and `mktime` takes the fields
for those of local time. -/
structure TimeLib.Fixed (lib : TimeLib) (offset : ℤ) : Prop where
  gmtime : ∀ t, FourDigits (momentEquiv.symm t) → lib.gmtime t = tmOf (momentEquiv.symm t)
  strptime : ∀ (year mon mday hour min sec : Str) (m : Moment), IsNumeral 4 year m.date.year →
    IsNumeral 2 mon (m.date.month + 1) → IsNumeral 2 mday (m.date.day + 1) →
    IsNumeral 2 hour m.hour → IsNumeral 2 min m.min → IsNumeral 2 sec m.sec →
    lib.strptime (year ++ "-".toList ++ mon ++ "-".toList ++ mday ++ "T".toList ++ hour ++
      ":".toList ++ min ++ ":".toList ++ sec ++ "Z".toList) "%Y-%m-%dT%H:%M:%SZ".toList
      ⟨0, 0, 0, 0, 0, 0⟩ = tmOf m
  mktime : ∀ m, FourDigits m → lib.mktime (tmOf m) = m.seconds - offset

/-! ## Numerals -/

/-- A printed number of the right length is a numeral. -/
lemma isNumeral_sprintfInt {width : ℕ} {n : ℤ} (hn : 0 ≤ n)
    (hlen : (sprintfInt n).length = width) : IsNumeral width (sprintfInt n) n where
  length := hlen
  digits _ hc := isdigit_of_mem_sprintfInt hn hc
  value := by
    rw [ofDigitChars_sprintfInt hn]
    omega

/-- A number of at most `width` digits is printed with zeros up to `width`.

**Proof sketch.** The zeros in front make up the length and do not change the value. -/
lemma isNumeral_sprintfPad {width : ℕ} (hwidth : 0 < width) {n : ℤ} (hn : 0 ≤ n)
    (hlt : n.toNat < 10 ^ width) : IsNumeral width (sprintfPad width '0' n) n where
  length := by
    have hle : (sprintfInt n).length ≤ width := by
      rw [sprintfInt, if_neg (by omega), Nat.length_toDigits_le_iff (by decide) hwidth]
      exact hlt
    unfold sprintfPad
    rw [List.length_append, List.length_replicate]
    omega
  digits c hc := by
    rcases List.mem_append.mp hc with hc | hc
    · rw [List.eq_of_mem_replicate hc]
      decide
    · exact isdigit_of_mem_sprintfInt hn hc
  value := by
    unfold sprintfPad
    rw [Nat.ofDigitChars_append, Nat.ofDigitChars_replicate_zero, Nat.mul_zero,
      ofDigitChars_sprintfInt hn]
    omega

/-- Two digits are enough for the fields of a moment other than the year. -/
lemma isNumeral_field {n : ℕ} (h : n < 100) : IsNumeral 2 (sprintfPad 2 '0' n) n :=
  isNumeral_sprintfPad (by decide) (by omega) (by omega)

/-- A year of four digits is printed as it is.

**Proof sketch.** Between 1000 and 9999 there are four digits, and nothing is padded. -/
lemma isNumeral_year {year : ℤ} (h : 1000 ≤ year ∧ year ≤ 9999) :
    IsNumeral 4 (sprintfPad 4 ' ' year) year := by
  have hlen : (sprintfInt year).length = 4 := by
    rw [sprintfInt, if_neg (by omega)]
    have hle : (Nat.toDigits 10 year.toNat).length ≤ 4 := by
      rw [Nat.length_toDigits_le_iff (by decide) (by decide)]
      omega
    have hnot : ¬ (Nat.toDigits 10 year.toNat).length ≤ 3 := by
      rw [Nat.length_toDigits_le_iff (by decide) (by decide)]
      omega
    omega
  have hpad : sprintfPad 4 ' ' year = sprintfInt year := by
    unfold sprintfPad
    rw [hlen]
    rfl
  rw [hpad]
  exact isNumeral_sprintfInt (by omega) hlen

/-! ## Writing and reading a time -/

/-- The day of a month is one of 31. -/
lemma day_lt (date : Date) : date.day < 31 := by
  have hday := date.day_lt
  unfold daysInMonth at hday
  split_ifs at hday <;> omega

/-- The fields are read back from the text.

**Proof sketch.** Each field is printed as a numeral of its width, in its range, and the library
reads such texts back. -/
lemma strptime_timeToIso8601 {lib : TimeLib} {offset : ℤ} (hlib : lib.Fixed offset) {t : ℤ}
    (ht : FourDigits (momentEquiv.symm t)) :
    lib.strptime (timeToIso8601 lib t) "%Y-%m-%dT%H:%M:%SZ".toList ⟨0, 0, 0, 0, 0, 0⟩ =
      tmOf (momentEquiv.symm t) := by
  set m := momentEquiv.symm t with hm
  have hmonth := m.date.month_lt
  have hday := day_lt m.date
  have hyear : IsNumeral 4 (sprintfPad 4 ' ' (m.date.year - 1900 + 1900)) m.date.year := by
    rw [sub_add_cancel]
    exact isNumeral_year ht
  have hmon : IsNumeral 2 (sprintfPad 2 '0' (m.date.month + 1)) (m.date.month + 1) :=
    isNumeral_field (n := m.date.month + 1) (by omega)
  have hmday : IsNumeral 2 (sprintfPad 2 '0' (m.date.day + 1)) (m.date.day + 1) :=
    isNumeral_field (n := m.date.day + 1) (by omega)
  have hhour : IsNumeral 2 (sprintfPad 2 '0' m.hour) m.hour :=
    isNumeral_field (m.hour_lt.trans (by decide))
  have hmin : IsNumeral 2 (sprintfPad 2 '0' m.min) m.min :=
    isNumeral_field (m.min_lt.trans (by decide))
  have hsec : IsNumeral 2 (sprintfPad 2 '0' m.sec) m.sec :=
    isNumeral_field (m.sec_lt.trans (by decide))
  unfold timeToIso8601
  rw [hlib.gmtime t ht, ← hm]
  unfold tmOf
  dsimp only
  -- the 20 letters fit into the buffer
  rw [List.take_of_length_le]
  · exact hlib.strptime _ _ _ _ _ _ m hyear hmon hmday hhour hmin hsec
  · simp only [List.length_append, hyear.length, hmon.length, hmday.length, hhour.length,
      hmin.length, hsec.length]
    decide

/-- **A time that is written and read** is off by the offset. -/
lemma iso8601_shift {lib : TimeLib} {offset : ℤ} (hlib : lib.Fixed offset) {t : ℤ}
    (ht : FourDigits (momentEquiv.symm t)) :
    iso8601ToTime lib (timeToIso8601 lib t) = t - offset := by
  rw [iso8601ToTime, strptime_timeToIso8601 hlib ht, hlib.mktime _ ht]
  exact congrArg (· - offset) (momentEquiv.apply_symm_apply t)

/-- The dates that the entry parser sets are off by the offset, when they are texts of
`time_to_iso8601`. -/
lemma readOptional_shift {lib : TimeLib} {offset : ℤ} (hlib : lib.Fixed offset) (x : Iksemel N)
    (ik : N) (entry : Entry) {updated published : ℤ}
    (hupdated : FourDigits (momentEquiv.symm updated))
    (hpublished : FourDigits (momentEquiv.symm published))
    (hread : x.findCdata ik "updated".toList = some (timeToIso8601 lib updated))
    (hread' : x.findCdata ik "published".toList = some (timeToIso8601 lib published)) :
    (readOptional x lib ik entry).updated = updated - offset ∧
      (readOptional x lib ik entry).published = published - offset := by
  unfold readOptional
  rw [hread, hread']
  exact ⟨iso8601_shift hlib hupdated, iso8601_shift hlib hpublished⟩

/-! ## Simple calendar functions -/

/-- The number that a stretch of a text stands for. -/
def numeralAt (start width : ℕ) (s : Str) : ℤ := Nat.ofDigitChars 10 ((s.drop start).take width) 0

/-- Calendar functions for a fixed offset; `strptime` reads the numerals at their places. -/
def fixedLib (offset : ℤ) : TimeLib where
  gmtime t := tmOf (momentEquiv.symm t)
  strptime dt _ _ := ⟨numeralAt 17 2 dt, numeralAt 14 2 dt, numeralAt 11 2 dt, numeralAt 8 2 dt,
    numeralAt 5 2 dt - 1, numeralAt 0 4 dt - 1900⟩
  mktime tm := 86400 * (daysBeforeYear (tm.year + 1900) +
      ∑ i ∈ Finset.range tm.mon.toNat, daysInMonth (tm.year + 1900) i + (tm.mday - 1) - epoch) +
    3600 * tm.hour + 60 * tm.min + tm.sec - offset

/-- The library with a fixed offset is an instance.

**Proof sketch.** The numerals have the lengths that the reader expects, so it takes them apart
letter by letter. -/
lemma fixedLib_fixed (offset : ℤ) : (fixedLib offset).Fixed offset where
  gmtime _ _ := rfl
  strptime year mon mday hour min sec m hyear hmon hmday hhour hmin hsec := by
    obtain ⟨y₁, y₂, y₃, y₄, rfl⟩ := List.length_eq_four.mp hyear.length
    obtain ⟨o₁, o₂, rfl⟩ := List.length_eq_two.mp hmon.length
    obtain ⟨d₁, d₂, rfl⟩ := List.length_eq_two.mp hmday.length
    obtain ⟨h₁, h₂, rfl⟩ := List.length_eq_two.mp hhour.length
    obtain ⟨i₁, i₂, rfl⟩ := List.length_eq_two.mp hmin.length
    obtain ⟨s₁, s₂, rfl⟩ := List.length_eq_two.mp hsec.length
    unfold tmOf
    rw [← hyear.value, ← hhour.value, ← hmin.value, ← hsec.value,
      ← add_sub_cancel_right (m.date.month : ℤ) 1, ← hmon.value, ← hmday.value]
    rfl
  mktime m _ := by
    unfold fixedLib tmOf Moment.seconds Date.number
    dsimp only
    rw [sub_add_cancel, Int.toNat_natCast]
    push_cast
    ring

/-! ## When timestamps round-trip -/

/-- **Timestamps round-trip** exactly on a machine whose local time is UTC: for every time whose
year has four digits, and every offset. -/
theorem iso8601_round_trip_iff {lib : TimeLib} {offset : ℤ} (hlib : lib.Fixed offset) {t : ℤ}
    (ht : FourDigits (momentEquiv.symm t)) :
    iso8601ToTime lib (timeToIso8601 lib t) = t ↔ offset = 0 := by
  rw [iso8601_shift hlib ht]
  omega

/-- 29 February 2000, at noon, where local time is UTC. -/
theorem iso8601_round_trip_utc :
    iso8601ToTime (fixedLib 0) (timeToIso8601 (fixedLib 0) 951825600) = 951825600 :=
  (iso8601_round_trip_iff (fixedLib_fixed 0) ⟨by decide, by decide⟩).mpr rfl

/-- The start of 1970, one hour east of UTC, comes back an hour early. -/
theorem iso8601_round_trip_east :
    iso8601ToTime (fixedLib 3600) (timeToIso8601 (fixedLib 3600) 0) ≠ 0 := by
  rw [iso8601_shift (fixedLib_fixed 3600) ⟨by decide, by decide⟩]
  decide

end Taningia

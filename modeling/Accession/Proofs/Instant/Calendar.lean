import Mathlib.Tactic.IntervalCases
import Accession.Instant.Basic
set_option autoImplicit false

/-!
# Dates and days

The days and the dates that the calendar has correspond to each other. A day is a place in years
that begin in March: a cycle of 400 years, a hundred in it, four years in that, a year and a day of
the year. Such places are counted by the days before them, and each of them has a date.

## Main definitions

* `MarchDay` — a place, with `MarchDay.count` and `MarchDay.ofCount`.
* `MarchDay.Exists` — whether the calendar has the place.
* `MarchDay.date` — its date.
* `Date.next` — the date after another one.

## Main results

* `MarchDay.ofCount_count`, `MarchDay.count_ofCount` — the places are counted without gaps.
* `Date.toDay_ofDay`, `Date.ofDay_toDay` — the dates correspond to the days.
* `Date.ofDay_succ` — the dates of the days follow each other as the calendar has them.
-/

namespace Accession

/-! ### Years and months -/

namespace Date

/-- Every fourth year is a leap year, but of the years that end a century only every fourth. -/
theorem isLeap_iff (year : Int) :
    isLeap year ↔ year % 4 = 0 ∧ (year % 100 ≠ 0 ∨ year % 400 = 0) := by
  simp [isLeap]

/-- The month with an index from zero for March. -/
def monthOf (n : Nat) : Nat :=
  if n < 10 then n + 3 else n - 9

/-- An index stands for one of the twelve months. -/
theorem monthOf_mem {n : Nat} (h : n ≤ 11) : 1 ≤ monthOf n ∧ monthOf n ≤ 12 := by
  rw [monthOf]
  split <;> omega

/-- A month has the index that it was made from. -/
theorem index_monthOf {n : Nat} (h : n ≤ 11) : (monthOf n + 9) % 12 = n := by
  rw [monthOf]
  split <;> omega

/-- Before February the months of a March year are the same every year. -/
theorem daysBefore_succ (year : Int) {n : Nat} (h : n < 11) :
    daysBefore (n + 1) = daysBefore n + monthLength year (monthOf n) := by
  interval_cases n <;> rfl

/-- The year in whose March the year of a date begins. -/
def marchYear (d : Date) : Int :=
  if d.month ≤ 2 then d.year - 1 else d.year

/-- The month of a date, from zero for March. -/
def monthIndex (d : Date) : Nat :=
  (d.month + 9) % 12

variable {d : Date}

/-- The index of a date stands for its month. -/
theorem Valid.monthOf_monthIndex (h : d.Valid) : monthOf d.monthIndex = d.month := by
  obtain ⟨hfirst, hlast, -, -⟩ := h
  rw [monthOf, monthIndex]
  split <;> omega

/-- A date comes before the end of its month in the March year, and at the end of the year only
if the next year is a leap year. -/
theorem Valid.daysBefore_add_day_le (h : d.Valid) :
    daysBefore d.monthIndex + d.day ≤ daysBefore (d.monthIndex + 1) ∧
      daysBefore d.monthIndex + d.day ≤ if isLeap (d.marchYear + 1) then 366 else 365 := by
  have hmonth := h.monthOf_monthIndex
  have hlength := h.2.2.2
  rcases Nat.lt_or_eq_of_le (show d.monthIndex ≤ 11 by rw [monthIndex]; omega) with
    hlt | hfebruary
  · have hend := daysBefore_succ d.year hlt
    rw [hmonth] at hend
    refine ⟨by omega, ?_⟩
    have hyearEnd : daysBefore (d.monthIndex + 1) ≤ 337 := by
      rw [daysBefore]
      omega
    split <;> omega
  · rw [hfebruary] at hmonth ⊢
    have hyear : d.marchYear + 1 = d.year := by
      rw [marchYear, ← hmonth]
      exact Int.sub_add_cancel d.year 1
    have hlength' : d.day ≤ if isLeap d.year then 29 else 28 := by
      rw [← hmonth] at hlength
      exact hlength
    rw [hyear]
    simp only [daysBefore]
    by_cases hleap : isLeap d.year
    · rw [if_pos hleap] at hlength' ⊢
      omega
    · rw [if_neg hleap] at hlength' ⊢
      omega

end Date

/-! ### Places in March years -/

/-- A cycle of 400 years that begin in March, a hundred years of it, four years of those, a year of
them and a day of that year, each but the cycle from zero. -/
structure MarchDay where
  cycle : Int
  hundreds : Nat
  fours : Nat
  years : Nat
  inYear : Nat

namespace MarchDay

/-- The bounds of a place. Only the last of four years has a leap day, and the last year of a
hundred has it only in the last hundred. -/
structure Exists (p : MarchDay) : Prop where
  hundreds : p.hundreds ≤ 3
  fours : p.fours ≤ 24
  years : p.years ≤ 3
  inYear : p.inYear ≤ 365
  leapDay : p.inYear = 365 → p.years = 3 ∧ (p.fours = 24 → p.hundreds = 3)

/-- The number of days before a place, from the first of March of the year zero. -/
def count (p : MarchDay) : Int :=
  146097 * p.cycle + (36524 * p.hundreds + 1461 * p.fours + 365 * p.years + p.inYear : Nat)

/-- The place with a number of days before it. -/
def ofCount (since : Int) : MarchDay :=
  let inCycle := (since % 146097).toNat
  let hundreds := min 3 (inCycle / 36524)
  let inHundred := inCycle - 36524 * hundreds
  let inFour := inHundred % 1461
  let years := min 3 (inFour / 365)
  ⟨since / 146097, hundreds, inHundred / 1461, years, inFour - 365 * years⟩

/-- The year in whose March the year of a place begins. -/
def year (p : MarchDay) : Int :=
  400 * p.cycle + 100 * p.hundreds + 4 * p.fours + p.years

/-- The month of a place, from zero for March. -/
def monthIndex (p : MarchDay) : Nat :=
  (5 * p.inYear + 2) / 153

/-- The date of a place. -/
def date (p : MarchDay) : Date :=
  let month := Date.monthOf p.monthIndex
  ⟨if month ≤ 2 then p.year + 1 else p.year, month,
    p.inYear - Date.daysBefore p.monthIndex + 1⟩

/-- The place with so many days before it is one that the calendar has. -/
theorem exists_ofCount (since : Int) : (ofCount since).Exists := by
  constructor <;> simp only [ofCount] <;> omega

/-- The place with so many days before it has so many days before it, also before the first cycle.
-/
theorem count_ofCount (since : Int) : (ofCount since).count = since := by
  simp only [count, ofCount]
  omega

variable {p : MarchDay}

/-- A place that the calendar has is the one with as many days before it. -/
theorem ofCount_count (h : p.Exists) : ofCount p.count = p := by
  obtain ⟨cycle, hundreds, fours, years, inYear⟩ := p
  obtain ⟨hhundreds, hfours, hyears, hinYear, hleap⟩ := h
  simp only at hhundreds hfours hyears hinYear hleap
  -- the days of each part are fewer than its length, but for a leap day at the end of the last one
  have hinFour : 365 * years + inYear ≤ 1460 := by omega
  have hinHundred : 1461 * fours + (365 * years + inYear) ≤ 36524 := by omega
  have hinCycle :
      36524 * hundreds + (1461 * fours + (365 * years + inYear)) < 146097 := by omega
  have hcycle : count ⟨cycle, hundreds, fours, years, inYear⟩ / 146097 = cycle := by
    simp only [count]
    omega
  have hrest : (count ⟨cycle, hundreds, fours, years, inYear⟩ % 146097).toNat =
      36524 * hundreds + (1461 * fours + (365 * years + inYear)) := by
    simp only [count]
    omega
  have hhundred :
      min 3 ((36524 * hundreds + (1461 * fours + (365 * years + inYear))) / 36524) = hundreds := by
    omega
  simp only [ofCount, hcycle, hrest, hhundred, Nat.add_sub_cancel_left, mk.injEq, true_and]
  have hfour : (1461 * fours + (365 * years + inYear)) % 1461 = 365 * years + inYear := by omega
  rw [hfour]
  omega

/-! ### The dates of places -/

/-- The days up to the year of a place are those of the cycles, centuries and years before it, with
one more for each leap year among them. -/
theorem daysToYear_year (h : p.Exists) :
    Date.daysToYear p.year =
      146097 * p.cycle + (36524 * p.hundreds + 1461 * p.fours + 365 * p.years : Nat) := by
  obtain ⟨hhundreds, hfours, hyears, -, -⟩ := h
  simp only [Date.daysToYear, year]
  omega

/-- The leap day at the end of the year of a place comes in leap years only. -/
theorem isLeap_year_succ (h : p.Exists) (hday : p.inYear = 365) : Date.isLeap (p.year + 1) := by
  obtain ⟨hyears, hhundreds⟩ := h.leapDay hday
  have hfours := h.fours
  rw [Date.isLeap_iff, year]
  omega

/-- Every day of a year lies in one of its twelve months. -/
theorem monthIndex_le (h : p.Exists) : p.monthIndex ≤ 11 := by
  have := h.inYear
  rw [monthIndex]
  omega

/-- A place is in the month that begins before it and does not end before it. -/
theorem monthIndex_eq_iff {n : Nat} :
    p.monthIndex = n ↔ Date.daysBefore n ≤ p.inYear ∧ p.inYear < Date.daysBefore (n + 1) := by
  rw [monthIndex, Date.daysBefore, Date.daysBefore]
  omega

/-- A place that the calendar has is a date that there is. -/
theorem valid_date (h : p.Exists) : p.date.Valid := by
  have hindex := monthIndex_le h
  obtain ⟨hbegin, hend⟩ := monthIndex_eq_iff.1 (rfl : p.monthIndex = _)
  obtain ⟨hfirst, hlast⟩ := Date.monthOf_mem hindex
  refine ⟨hfirst, hlast, Nat.le_add_left _ _, ?_⟩
  rcases Nat.lt_or_eq_of_le hindex with hlt | hfebruary
  · have hlength := Date.daysBefore_succ p.date.year hlt
    simp only [date] at hlength ⊢
    omega
  · show p.inYear - Date.daysBefore p.monthIndex + 1 ≤
      Date.monthLength (if Date.monthOf p.monthIndex ≤ 2 then p.year + 1 else p.year)
        (Date.monthOf p.monthIndex)
    rw [hfebruary]
    show p.inYear - 337 + 1 ≤ if Date.isLeap (p.year + 1) then 29 else 28
    have hinYear := h.inYear
    split
    · omega
    · have hne : p.inYear ≠ 365 := fun hday => ‹¬_› (isLeap_year_succ h hday)
      omega

/-- The day of the date of a place is the number of days before the place. -/
theorem toDay_date (h : p.Exists) : p.date.toDay = Date.epoch + p.count := by
  have hyear : (if p.date.month ≤ 2 then p.date.year - 1 else p.date.year) = p.year := by
    simp only [date]
    split <;> omega
  have hmonth : (p.date.month + 9) % 12 = p.monthIndex := Date.index_monthOf (monthIndex_le h)
  have hday : p.date.day = p.inYear - Date.daysBefore p.monthIndex + 1 := rfl
  have hbegin := (monthIndex_eq_iff.1 (rfl : p.monthIndex = _)).1
  simp only [Date.toDay, hyear, hmonth, daysToYear_year h, hday, count]
  omega

/-- Every year has its days, and a leap day if the next year is a leap year. -/
theorem exists_year_eq (year : Int) {inYear : Nat}
    (h : inYear < if Date.isLeap (year + 1) then 366 else 365) :
    ∃ p : MarchDay, p.Exists ∧ p.year = year ∧ p.inYear = inYear := by
  simp only [Date.isLeap_iff] at h
  let inCycle := (year % 400).toNat
  refine ⟨⟨year / 400, inCycle / 100, inCycle % 100 / 4, inCycle % 4, inYear⟩, ?_, ?_, rfl⟩
  · split at h <;> constructor <;> simp only [inCycle] <;> omega
  · simp only [MarchDay.year, inCycle]
    omega

/-- Every date that the calendar has is the date of a place.

**Proof sketch.** The year of the place is the one that began in the March before. The index of the
month is the only one with the day between the beginnings of it and of the next month. -/
theorem exists_date_eq {d : Date} (h : d.Valid) : ∃ p : MarchDay, p.Exists ∧ p.date = d := by
  obtain ⟨hmonth, hyear⟩ := h.daysBefore_add_day_le
  have hday := h.2.2.1
  obtain ⟨p, hp, hpyear, hinYear⟩ := exists_year_eq d.marchYear
    (show Date.daysBefore d.monthIndex + d.day - 1 < _ by omega)
  have hindex : p.monthIndex = d.monthIndex := monthIndex_eq_iff.2 (by omega)
  refine ⟨p, hp, ?_⟩
  have hdate : p.date =
      ⟨if d.month ≤ 2 then d.marchYear + 1 else d.marchYear, d.month, d.day⟩ := by
    rw [date, hindex, h.monthOf_monthIndex, hpyear, hinYear,
      show Date.daysBefore d.monthIndex + d.day - 1 - Date.daysBefore d.monthIndex + 1 = d.day by
        omega]
  rw [hdate, Date.marchYear]
  split
  · rw [Int.sub_add_cancel]
  · rfl

end MarchDay

namespace Date

/-- **The day of the date of a day is the day.** -/
theorem toDay_ofDay (day : Int) : (ofDay day).toDay = day := by
  have htoDay := MarchDay.toDay_date (MarchDay.exists_ofCount (day - epoch))
  rw [MarchDay.count_ofCount] at htoDay
  exact htoDay.trans (by omega)

/-- The calendar has the date of every day. -/
theorem valid_ofDay (day : Int) : (ofDay day).Valid :=
  MarchDay.valid_date (MarchDay.exists_ofCount (day - epoch))

/-- **The date of the day of a date is the date.** -/
theorem ofDay_toDay {d : Date} (h : d.Valid) : ofDay d.toDay = d := by
  obtain ⟨p, hp, rfl⟩ := MarchDay.exists_date_eq h
  rw [MarchDay.toDay_date hp]
  show (MarchDay.ofCount (epoch + p.count - epoch)).date = p.date
  rw [add_sub_cancel_left, MarchDay.ofCount_count hp]

/-! ### The order of dates -/

variable {d : Date}

/-- The date after another one. -/
def next (d : Date) : Date :=
  if d.day < monthLength d.year d.month then { d with day := d.day + 1 }
  else if d.month < 12 then ⟨d.year, d.month + 1, 1⟩
  else ⟨d.year + 1, 1, 1⟩

/-- The date after one that there is, is one that there is. -/
theorem valid_next (h : d.Valid) : d.next.Valid := by
  have hpos (year : Int) (month : Nat) : 1 ≤ monthLength year month := by
    rw [monthLength]
    split_ifs <;> decide
  obtain ⟨hfirst, hlast, hday, hlength⟩ := h
  rw [next]
  split_ifs with hlt hyear
  · exact ⟨hfirst, hlast, Nat.le_add_left _ _, hlt⟩
  · exact ⟨Nat.le_add_left _ _, hyear, le_rfl, hpos _ _⟩
  · exact ⟨le_rfl, Nat.le_add_left 1 11, le_rfl, hpos _ _⟩

/-- A year has 366 days if it ends in the February of a leap year, and else 365. -/
theorem daysToYear_succ (year : Int) :
    daysToYear (year + 1) = daysToYear year + if isLeap (year + 1) then 366 else 365 := by
  simp only [daysToYear, isLeap_iff]
  split <;> omega

/-- The next date is a day later.

**Proof sketch.** At the end of a month other than February the first day of the next month is in
the same March year, by the length of the month later. February ends its March year, whose length
is that of the leap years. -/
theorem toDay_next (h : d.Valid) : d.next.toDay = d.toDay + 1 := by
  have htoDay (d : Date) :
      d.toDay = epoch + daysToYear d.marchYear + daysBefore d.monthIndex + (d.day - 1) := rfl
  have hmonth := h.monthOf_monthIndex
  obtain ⟨hfirst, hlast, -, hlength⟩ := h
  by_cases hlt : d.day < monthLength d.year d.month
  · rw [next, if_pos hlt, htoDay, htoDay]
    simp only [marchYear, monthIndex]
    omega
  have hday : d.day = monthLength d.year d.month := by omega
  by_cases hfebruary : d.month = 2
  · have hleap := daysToYear_succ (d.year - 1)
    rw [next, if_neg hlt, if_pos (by omega), htoDay, htoDay, hday]
    rw [Int.sub_add_cancel] at hleap
    simp only [marchYear, monthIndex, hfebruary, monthLength, daysBefore]
    split_ifs at hleap ⊢ <;> omega
  · have hend := daysBefore_succ d.year (show d.monthIndex < 11 by rw [monthIndex]; omega)
    rw [hmonth, ← hday] at hend
    have hnext : d.next.marchYear = d.marchYear ∧ d.next.monthIndex = d.monthIndex + 1 ∧
        d.next.day = 1 := by
      rw [next, if_neg hlt]
      split
      · refine ⟨?_, ?_, rfl⟩ <;> simp only [marchYear, monthIndex] <;> omega
      · refine ⟨?_, ?_, rfl⟩ <;> simp only [marchYear, monthIndex] <;> omega
    rw [htoDay, htoDay, hnext.1, hnext.2.1, hnext.2.2, hend]
    omega

/-- **The day after a day has the date after its date.** -/
theorem ofDay_succ (day : Int) : ofDay (day + 1) = (ofDay day).next := by
  have hvalid := valid_ofDay day
  rw [← ofDay_toDay (valid_next hvalid), toDay_next hvalid, toDay_ofDay]

/-- The days are counted from the beginning of 1970. -/
theorem ofDay_zero : ofDay 0 = ⟨1970, 1, 1⟩ := by
  decide

end Date

end Accession

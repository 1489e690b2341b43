import Accession.Text.Character
set_option autoImplicit false

/-!
# Instants

Moments of time, the days of the calendar that they fall on, and how they are written.

## Main definitions

* `Date` — a year, a month and a day.
* `Date.Valid` — whether the calendar has the date.
* `Date.toDay`, `Date.ofDay` — from dates to days and back.
* `Instant` — a moment of time.
* `Instant.ofParts` — the moment that a date, a time of day and a distance to universal time name.
* `Instant.ofNanos` — the moment some nanoseconds after the beginning of 1970.
* `Instant.afterSeconds` — a moment some seconds later.
* `Instant.render` — the written form of a moment.
-/

/-! ## The calendar

Days of the proleptic Gregorian calendar, with a year zero, counted from the first of January 1970.

Counting is easiest in years that begin in March: the leap day is then the last day of its year, a
cycle of four years is longer than three of them by it, and the months from March on have the same
lengths every year. -/

namespace Accession

/-- A year, a month from 1 and a day from 1. -/
structure Date where
  year : Int
  month : Nat
  day : Nat
  deriving DecidableEq, Repr

namespace Date

/-- Whether a year has a leap day. -/
def isLeap (year : Int) : Bool :=
  year % 4 = 0 && (year % 100 ≠ 0 || year % 400 = 0)

/-- The number of days of a month. -/
def monthLength (year : Int) (month : Nat) : Nat :=
  if month = 2 then if isLeap year then 29 else 28
  else if month = 4 ∨ month = 6 ∨ month = 9 ∨ month = 11 then 30
  else 31

/-- Whether the calendar has the date. -/
def Valid (d : Date) : Prop :=
  1 ≤ d.month ∧ d.month ≤ 12 ∧ 1 ≤ d.day ∧ d.day ≤ monthLength d.year d.month

instance (d : Date) : Decidable d.Valid :=
  inferInstanceAs (Decidable (_ ∧ _))

/-- The number of days of a March year before its `n`-th month. -/
def daysBefore (n : Nat) : Nat :=
  (153 * n + 2) / 5

/-- The number of days from the first of March of the year zero to that of another year. -/
def daysToYear (year : Int) : Int :=
  365 * year + year / 4 - year / 100 + year / 400

/-- The day number of the first of March of the year zero. -/
def epoch : Int :=
  -719468

/-- The day number of a date; the first of January 1970 is zero. -/
def toDay (d : Date) : Int :=
  let year := if d.month ≤ 2 then d.year - 1 else d.year
  epoch + daysToYear year + daysBefore ((d.month + 9) % 12) + (d.day - 1)

/-- The date of a day number. A day in a cycle of 400 years is looked for in its hundred years, its
four years and its year; the last of four hundreds or years in a cycle may be longer than the
others by the leap day. -/
def ofDay (day : Int) : Date :=
  let since := day - epoch
  let inCycle := (since % 146097).toNat
  let hundreds := min 3 (inCycle / 36524)
  let inHundred := inCycle - 36524 * hundreds
  let inFour := inHundred % 1461
  let years := min 3 (inFour / 365)
  let inYear := inFour - 365 * years
  let year : Int := 400 * (since / 146097) + 100 * hundreds + 4 * (inHundred / 1461) + years
  let n := (5 * inYear + 2) / 153
  let month := if n < 10 then n + 3 else n - 9
  ⟨if month ≤ 2 then year + 1 else year, month, inYear - daysBefore n + 1⟩

end Date

end Accession

/-! ## Moments

A moment of time: seconds from the beginning of 1970, without leap seconds, and nanoseconds. A leap
second is kept as a second and more of nanoseconds on top of the last second of its minute. -/

namespace Accession

/-- A moment of time. -/
structure Instant where
  /-- Seconds from the beginning of 1970. -/
  seconds : Int
  /-- Nanoseconds on top; a thousand million or more inside a leap second. -/
  nanos : Nat
  deriving DecidableEq, Repr, Inhabited

namespace Instant

/-- The number of nanoseconds in a second. -/
def nanosPerSecond : Nat :=
  1000000000

/-- The number of seconds in a day without a leap second. -/
def secondsPerDay : Nat :=
  86400

/-- A time of day, with a second of sixty for a leap second. -/
structure TimeOfDay where
  hour : Nat
  minute : Nat
  second : Nat
  nanos : Nat
  deriving DecidableEq, Repr

/-- Whether a day may have the time. -/
def TimeOfDay.Valid (t : TimeOfDay) : Prop :=
  t.hour < 24 ∧ t.minute < 60 ∧ t.second ≤ 60 ∧ t.nanos < nanosPerSecond

instance (t : TimeOfDay) : Decidable t.Valid :=
  inferInstanceAs (Decidable (_ ∧ _))

/-- The moment of a date and a time of day at a place that is `offset` seconds ahead of universal
time. -/
def ofParts (date : Date) (time : TimeOfDay) (offset : Int) : Instant :=
  let second := min time.second 59
  { seconds := date.toDay * secondsPerDay + (time.hour * 3600 + time.minute * 60 + second : Nat) -
      offset
    nanos := time.nanos + nanosPerSecond * (time.second - second) }

/-- The date of a moment, in universal time. -/
def date (t : Instant) : Date :=
  Date.ofDay (t.seconds / secondsPerDay)

/-- The time of day of a moment, in universal time. -/
def timeOfDay (t : Instant) : TimeOfDay :=
  let inDay := (t.seconds % secondsPerDay).toNat
  { hour := inDay / 3600
    minute := inDay / 60 % 60
    second := inDay % 60 + t.nanos / nanosPerSecond
    nanos := t.nanos % nanosPerSecond }

/-- The moment some nanoseconds after the beginning of 1970. -/
def ofNanos (n : Int) : Instant :=
  ⟨n / nanosPerSecond, (n % nanosPerSecond).toNat⟩

/-- The moment `n` seconds later. From inside a leap second the first of them leads into the next
minute. -/
def afterSeconds (t : Instant) : Nat → Instant
  | 0 => t
  | n + 1 => ⟨t.seconds + (n + 1 : Nat), t.nanos % nanosPerSecond⟩

end Instant

end Accession

/-! ## Writing instants

A moment is written in universal time by the rules of RFC 3339, with as few digits of the second as
keep it exact: none, three, six or nine. A year that does not have four digits is written with a
sign and at least four digits. -/

namespace Accession.Instant

/-- A year: four digits, or a sign and at least four digits. -/
def renderYear (year : Int) : List Char :=
  if 0 ≤ year ∧ year ≤ 9999 then Numeral.padded 4 year.toNat
  else (if year < 0 then '-' else '+') :: Numeral.padded 4 year.natAbs

/-- A date. -/
def renderDate (d : Date) : List Char :=
  renderYear d.year ++ '-' :: Numeral.padded 2 d.month ++ '-' :: Numeral.padded 2 d.day

/-- A fraction of a second. -/
def renderFraction (nanos : Nat) : List Char :=
  if nanos = 0 then []
  else if nanos % 1000000 = 0 then '.' :: Numeral.padded 3 (nanos / 1000000)
  else if nanos % 1000 = 0 then '.' :: Numeral.padded 6 (nanos / 1000)
  else '.' :: Numeral.padded 9 nanos

/-- A time of day. -/
def renderTime (t : TimeOfDay) : List Char :=
  Numeral.padded 2 t.hour ++ ':' :: Numeral.padded 2 t.minute ++ ':' :: Numeral.padded 2 t.second ++
    renderFraction t.nanos

/-- The written form of a moment, as characters. -/
def renderChars (t : Instant) : List Char :=
  renderDate t.date ++ 'T' :: renderTime t.timeOfDay ++ ['Z']

/-- The written form of a moment. -/
def render (t : Instant) : String :=
  String.ofList t.renderChars

end Accession.Instant

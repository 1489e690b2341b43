import Accession.Instant.Basic
import Accession.Proofs.Instant.Calendar
import Accession.Proofs.Instant.Forms
set_option autoImplicit false

/-!
# Written moments are read back

What a clock shows at a moment, and that a moment is read back from its written form.

## Main definitions

* `Instant.ahead` — the moment that clocks ahead of universal time show.
* `Instant.Proper` — leap seconds are at the end of minutes.
* `Instant.InFourDigits` — the year of a moment has four digits.
* `Instant.parts` — the parts that a moment is written with.

## Main results

* `Instant.date_ofParts`, `Instant.timeOfDay_ofParts` — a named moment shows what it is named by.
* `Instant.ofParts_date_timeOfDay` — a moment is named by what it shows.
* `Instant.ofParts_endOfDay` — the end of a day is the beginning of the next day.
* `Instant.chars_parts` — the written form of a moment is the text of its parts.
* `Instant.parse_render` — the written form of a moment is read as the moment.
-/

/-! ## What a clock shows

A moment that is named by a date and a time of day shows that date and that time of day on the
clocks of its place, and a moment is named by the date and the time that it shows. -/

namespace Accession.Instant

/-- The moment that clocks show at a place that is `offset` seconds ahead of universal time. -/
def ahead (t : Instant) (offset : Int) : Instant :=
  ⟨t.seconds + offset, t.nanos⟩

variable {date : Date} {time : TimeOfDay} {offset : Int}

/-- Ahead by its offset again, an instant has the seconds of its date and time, a leap second
counting as the second before it. -/
theorem seconds_ahead_ofParts :
    ((ofParts date time offset).ahead offset).seconds =
      date.toDay * 86400 + (time.hour * 3600 + time.minute * 60 + min time.second 59 : Nat) :=
  Int.sub_add_cancel _ _

/-- An instant keeps the date that it was made from. -/
theorem date_ofParts (hdate : date.Valid) (htime : time.Valid) :
    ((ofParts date time offset).ahead offset).date = date := by
  obtain ⟨hhour, hminute, -, -⟩ := htime
  have hday : ((ofParts date time offset).ahead offset).seconds / 86400 = date.toDay := by
    rw [seconds_ahead_ofParts]
    omega
  show Date.ofDay (_ / 86400) = date
  rw [hday, Date.ofDay_toDay hdate]

/-- An instant keeps the time of day that it was made from, a leap second included. -/
theorem timeOfDay_ofParts (htime : time.Valid) :
    ((ofParts date time offset).ahead offset).timeOfDay = time := by
  obtain ⟨hour, minute, second, nanos⟩ := time
  obtain ⟨hhour, hminute, hsecond, hnanos⟩ := htime
  simp only [nanosPerSecond] at hhour hminute hsecond hnanos
  have hinDay : (((ofParts date ⟨hour, minute, second, nanos⟩ offset).ahead offset).seconds %
      86400).toNat = hour * 3600 + minute * 60 + min second 59 := by
    rw [seconds_ahead_ofParts]
    dsimp only
    omega
  have hall : ((ofParts date ⟨hour, minute, second, nanos⟩ offset).ahead offset).nanos =
      nanos + 1000000000 * (second - min second 59) := rfl
  simp only [timeOfDay, secondsPerDay, nanosPerSecond, hall, Nat.cast_ofNat, hinDay,
    TimeOfDay.mk.injEq]
  omega

/-- The end of a day is the beginning of the next day. -/
theorem ofParts_endOfDay (hdate : date.Valid) :
    ofParts date ⟨24, 0, 0, 0⟩ offset = ofParts date.next ⟨0, 0, 0, 0⟩ offset := by
  have hseconds : date.toDay * (86400 : Int) + (86400 : Nat) - offset =
      (date.toDay + 1) * 86400 + (0 : Nat) - offset := by
    omega
  rw [← Date.toDay_next hdate] at hseconds
  exact congrArg (fun seconds => (⟨seconds, 0⟩ : Instant)) hseconds

/-- Leap seconds come at the end of minutes. -/
structure Proper (t : Instant) : Prop where
  nanos_lt : t.nanos < 2 * nanosPerSecond
  leapSecond : nanosPerSecond ≤ t.nanos → t.seconds % 60 = 59

/-- The time of day of a proper instant is one that there is. -/
theorem valid_timeOfDay {t : Instant} (h : t.Proper) : t.timeOfDay.Valid := by
  obtain ⟨hnanos, hleap⟩ := h
  simp only [nanosPerSecond] at hnanos hleap
  simp only [TimeOfDay.Valid, timeOfDay, secondsPerDay, nanosPerSecond]
  omega

/-- **A moment is named by the date and the time of day that it shows.** -/
theorem ofParts_date_timeOfDay {t : Instant} (h : t.Proper) :
    ofParts t.date t.timeOfDay 0 = t := by
  obtain ⟨seconds, nanos⟩ := t
  obtain ⟨hnanos, hleap⟩ := h
  simp only [nanosPerSecond] at hnanos hleap
  simp only [ofParts, date, Date.toDay_ofDay, timeOfDay, secondsPerDay, nanosPerSecond, mk.injEq]
  omega

end Accession.Instant

/-! ## Reading back

A moment with a year of four digits is written in the form with a distance to universal time, and
what is written means that moment to the nanosecond, also inside a leap second. -/

namespace Accession.Instant

/-! ### The parts of a written moment -/

/-- The year of a moment, in universal time, has four digits. -/
def InFourDigits (t : Instant) : Prop :=
  0 ≤ t.date.year ∧ t.date.year ≤ 9999

instance (t : Instant) : Decidable t.InFourDigits :=
  inferInstanceAs (Decidable (_ ∧ _))

/-- A number of two digits. -/
def twoDigits (n : Nat) : Field :=
  ⟨[], Numeral.padded 2 n⟩

/-- Nanoseconds as a fraction of a second. -/
def shortestFraction (nanos : Nat) : Fraction :=
  if nanos = 0 then none
  else if nanos % 1000000 = 0 then some (Numeral.padded 3 (nanos / 1000000))
  else if nanos % 1000 = 0 then some (Numeral.padded 6 (nanos / 1000))
  else some (Numeral.padded 9 nanos)

/-- The parts that a moment with a year of four digits is written with. -/
def parts (t : Instant) : Written where
  sign := none
  year := Numeral.padded 4 t.date.year.toNat
  month := twoDigits t.date.month
  day := twoDigits t.date.day
  separator := 'T'
  hour := twoDigits t.timeOfDay.hour
  minute := twoDigits t.timeOfDay.minute
  second := twoDigits t.timeOfDay.second
  fraction := shortestFraction t.timeOfDay.nanos
  zone := some (.universal 'Z')

/-- The shortest fraction is written as the renderer writes it. -/
theorem chars_shortestFraction (nanos : Nat) :
    (shortestFraction nanos).chars = renderFraction nanos := by
  rw [shortestFraction, renderFraction]
  split_ifs <;> rfl

variable {t : Instant}

/-- **The written form of a moment is the text of its parts.** -/
theorem chars_parts (h : t.InFourDigits) : t.parts.chars = t.renderChars := by
  have hyear : renderYear t.date.year = Numeral.padded 4 t.date.year.toNat := if_pos h
  rw [renderChars, renderDate, hyear, renderTime, ← chars_shortestFraction]
  simp only [Written.chars, Written.zoneChars, parts, Field.chars, twoDigits, Zone.chars,
    Option.toList_none, Option.elim_some, List.nil_append, List.append_assoc, List.cons_append]

/-! ### What the parts mean -/

/-- Two places are a tight field, which has the value that was written. -/
theorem tight_twoDigits {n : Nat} (h : n < 100) :
    (twoDigits n).Tight ∧ (twoDigits n).value = n := by
  obtain ⟨hlength, hdigits, hnumber⟩ := padded_spec (show 0 < 2 by decide) h
  exact ⟨⟨rfl, hdigits, hlength⟩, hnumber⟩

/-- A padded number makes a fraction that is worth as many of its parts of a second. -/
theorem wellFormed_padded {width n : Nat} (hwidth : 0 < width) (h : n < 10 ^ width) :
    Fraction.WellFormed (some (Numeral.padded width n)) ∧
      Fraction.nanos (some (Numeral.padded width n)) = n * nanosPerSecond / 10 ^ width := by
  obtain ⟨hlength, hdigits, hnumber⟩ := padded_spec hwidth h
  refine ⟨⟨hdigits, List.ne_nil_of_length_pos (hlength.symm ▸ hwidth)⟩, ?_⟩
  rw [Fraction.nanos, fractionNanos, hlength, hnumber]

/-- A fraction of a second is exact with the digits that it is written with. -/
theorem nanos_shortestFraction {nanos : Nat} (h : nanos < nanosPerSecond) :
    (shortestFraction nanos).WellFormed ∧ (shortestFraction nanos).nanos = nanos := by
  rw [nanosPerSecond] at h
  rw [shortestFraction]
  split_ifs with hzero hmillis hmicros
  · exact ⟨trivial, hzero.symm⟩
  · obtain ⟨hwell, hnanos⟩ := wellFormed_padded (show 0 < 3 by decide)
      (show nanos / 1000000 < 10 ^ 3 by omega)
    refine ⟨hwell, hnanos.trans ?_⟩
    rw [nanosPerSecond]
    omega
  · obtain ⟨hwell, hnanos⟩ := wellFormed_padded (show 0 < 6 by decide)
      (show nanos / 1000 < 10 ^ 6 by omega)
    refine ⟨hwell, hnanos.trans ?_⟩
    rw [nanosPerSecond]
    omega
  · obtain ⟨hwell, hnanos⟩ := wellFormed_padded (show 0 < 9 by decide)
      (show nanos < 10 ^ 9 by omega)
    exact ⟨hwell, hnanos.trans (Nat.mul_div_cancel _ (by decide))⟩

/-- The month and the day of a date have two digits at most. -/
theorem lt_hundred_of_valid {d : Date} (h : d.Valid) : d.month < 100 ∧ d.day < 100 := by
  obtain ⟨-, hmonth, -, hday⟩ := h
  rw [Date.monthLength] at hday
  split_ifs at hday <;> omega

/-- Every part of a written moment has its width. -/
theorem offsetForm_parts (h : t.Proper) (hyear : t.InFourDigits) :
    t.parts.OffsetForm ∧ t.parts.date = t.date ∧ t.parts.time = t.timeOfDay := by
  have hdate : t.date.Valid := Date.valid_ofDay _
  have htime : t.timeOfDay.Valid := valid_timeOfDay h
  obtain ⟨hmonth, hday⟩ := lt_hundred_of_valid hdate
  obtain ⟨hhour, hminute, hsecond, hnanos⟩ := htime
  obtain ⟨hlength, hdigits, hnumber⟩ := padded_spec (show 0 < 4 by decide)
    (show t.date.year.toNat < 10 ^ 4 by have := hyear.2; omega)
  have hmonth := tight_twoDigits hmonth
  have hday := tight_twoDigits hday
  have hhour := tight_twoDigits (show t.timeOfDay.hour < 100 by omega)
  have hminute := tight_twoDigits (show t.timeOfDay.minute < 100 by omega)
  have hsecond := tight_twoDigits (show t.timeOfDay.second < 100 by omega)
  have hfraction := nanos_shortestFraction hnanos
  have hdateParts : t.parts.date = t.date := by
    have hsigned : signedYear none (Numeral.padded 4 t.date.year.toNat) = t.date.year := by
      show (number _ : Int) = t.date.year
      rw [hnumber, Int.toNat_of_nonneg hyear.1]
    simp only [Written.date, parts, hsigned, hmonth.2, hday.2]
  have htimeParts : t.parts.time = t.timeOfDay := by
    simp only [Written.time, parts, hhour.2, hminute.2, hsecond.2, hfraction.2]
  have htight : ∀ f ∈ t.parts.fields, f.Tight :=
    Written.forall_fields_iff.2 ⟨hmonth.1, hday.1, hhour.1, hminute.1, hsecond.1⟩
  have hshaped : t.parts.Shaped :=
    { year := hdigits
      year_ne_nil := List.ne_nil_of_length_eq_add_one hlength
      fields := fun f hf => (htight f hf).loose
      separator := rfl
      fraction := hfraction.1
      zone := by rintro _ ⟨⟩; exact .inl rfl }
  refine ⟨⟨hshaped, rfl, hlength, htight, Option.some_ne_none _, ?_, ?_⟩, hdateParts, htimeParts⟩
  · rw [hdateParts]
    exact hdate
  · rw [htimeParts]
    exact valid_timeOfDay h

/-! ### Reading back -/

/-- Nothing is trimmed off a text that neither begins nor ends blank. -/
theorem trim_eq_self {text : List Char} (hfirst : ∀ c ∈ text.head?, ¬Blank.isBlank c)
    (hlast : ∀ c ∈ text.getLast?, ¬Blank.isBlank c) : Blank.trim text = text := by
  rw [← List.head?_reverse] at hlast
  rw [Blank.trim, dropWhile_isBlank_of_head hfirst, Blank.trimEnd,
    dropWhile_isBlank_of_head hlast, List.reverse_reverse]

/-- **The written form of a moment is read as the moment.**

**Proof sketch.** The text begins with a digit and ends with a letter, so there are no blanks around
it; its parts have the form that is read, and name the moment by the date and the time that it
shows. -/
theorem parse_render (h : t.Proper) (hyear : t.InFourDigits) : parse t.render = some t := by
  obtain ⟨hform, hdate, htime⟩ := offsetForm_parts h hyear
  have htrim : Blank.trim t.render.toList = t.parts.chars := by
    rw [render, String.toList_ofList, ← chars_parts hyear]
    refine trim_eq_self ?_ ?_
    · obtain ⟨c, year, hc⟩ := List.exists_cons_of_ne_nil hform.year_ne_nil
      have hdigit := hform.year c (hc ▸ List.mem_cons_self)
      rw [Written.chars, hform.sign, hc]
      rintro _ ⟨⟩
      exact not_isBlank_of_isDecimal hdigit
    · rw [chars_parts hyear, renderChars, List.getLast?_concat]
      rintro _ ⟨⟩
      decide
  refine parse_eq_some_iff.2 ⟨t.parts, .inl hform, htrim, ?_⟩
  rw [Written.instant, hdate, htime]
  exact ofParts_date_timeOfDay h

end Accession.Instant

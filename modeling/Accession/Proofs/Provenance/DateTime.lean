import Accession.Proofs.Instant.Forms
import Accession.Proofs.Instant.RoundTrip
import Accession.Provenance.Record
set_option autoImplicit false

/-!
# Dates and times of XML Schema

PREMIS has the dates and times of XML Schema: an optional minus sign, a year of at least four
digits, two digits in every other field, and an optional distance to universal time. The moment of
an event is read from most of them, and from some other texts.

## Main definitions

* `Instant.Written.Lexical` — the dates and times of XML Schema.
* `Instant.Written.EndsDay` — the end of a day as its hour twenty-four.
* `Instant.Written.Means` — a clock at the place shows what is written.
* `Instant.Written.Read` — the dates and times of XML Schema that are read.

## Main results

* `Instant.Written.Lexical.means` — every date and time of XML Schema means a moment.
* `Instant.Written.Lexical.form`, `Instant.Written.Lexical.read_of_chars_eq` — which of them have
  one of the forms that are read.
* `Provenance.EventRecord.timestamp_iff` — the texts that have a moment, and the moment.
-/

namespace Accession

namespace Instant

/-! ### Lexical forms -/

/-- The zones of XML Schema: universal time, or up to fourteen hours from it. -/
def Zone.Lexical : Zone → Prop
  | .universal letter => letter = 'Z'
  | .distance sign hours minutes =>
    (sign = '+' ∨ sign = '-') ∧ hours.Tight ∧ minutes.Tight ∧ minutes.value < 60 ∧
      hours.value * 60 + minutes.value ≤ 14 * 60

instance : (zone : Zone) → Decidable zone.Lexical
  | .universal letter => inferInstanceAs (Decidable (letter = 'Z'))
  | .distance _ _ _ => inferInstanceAs (Decidable (_ ∧ _ ∧ _ ∧ _ ∧ _))

/-- A zone of XML Schema is one that can be read. -/
theorem Zone.Lexical.readable {zone : Zone} (h : zone.Lexical) : zone.Readable := by
  cases zone with
  | universal letter => exact .inl h
  | distance sign hours minutes =>
    obtain ⟨hsign, hhours, hminutes, hlt, hle⟩ := h
    exact ⟨hsign.imp_right .inl, hhours, hminutes, by omega, hlt⟩

namespace Written

/-- The end of a day, written as its hour twenty-four. -/
def EndsDay (w : Written) : Prop :=
  w.hour.value = 24 ∧ w.minute.value = 0 ∧ w.second.value = 0 ∧
    ∀ digits ∈ w.fraction, digits.all (· == '0')

instance (w : Written) : Decidable w.EndsDay :=
  inferInstanceAs (Decidable (_ ∧ _ ∧ _ ∧ _))

/-- The dates and times of XML Schema. -/
structure Lexical (w : Written) : Prop where
  sign : w.sign = none ∨ w.sign = some '-'
  year : IsDigits w.year
  width : 4 ≤ w.year.length
  tight : ∀ f ∈ w.fields, f.Tight
  separator : w.separator = 'T'
  fraction : w.fraction.WellFormed
  zone : ∀ zone ∈ w.zone, zone.Lexical
  date : w.date.Valid
  time : w.time.Valid ∨ w.EndsDay

instance (w : Written) : Decidable w.Lexical :=
  decidable_of_iff
    ((w.sign = none ∨ w.sign = some '-') ∧ IsDigits w.year ∧ 4 ≤ w.year.length ∧
      (∀ f ∈ w.fields, f.Tight) ∧ w.separator = 'T' ∧ w.fraction.WellFormed ∧
      (∀ zone ∈ w.zone, zone.Lexical) ∧ w.date.Valid ∧ (w.time.Valid ∨ w.EndsDay))
    ⟨fun ⟨hsign, hyear, hwidth, htight, hseparator, hfraction, hzone, hdate, htime⟩ =>
        ⟨hsign, hyear, hwidth, htight, hseparator, hfraction, hzone, hdate, htime⟩,
      fun h => ⟨h.sign, h.year, h.width, h.tight, h.separator, h.fraction, h.zone, h.date, h.time⟩⟩

/-- The years of XML Schema that are read: those of four digits, and without a zone also those with
a minus sign. -/
def YearRead (w : Written) : Prop :=
  w.sign = none ∧ w.year.length = 4 ∨ w.sign = some '-' ∧ w.zone = none

instance (w : Written) : Decidable w.YearRead :=
  inferInstanceAs (Decidable (_ ∨ _))

variable {w w' : Written}

/-- A date and time of XML Schema has the parts that every form has. -/
theorem Lexical.shaped (h : w.Lexical) : w.Shaped where
  year := h.year
  year_ne_nil := List.ne_nil_of_length_pos (Nat.zero_lt_of_lt h.width)
  fields := fun f hf => (h.tight f hf).loose
  separator := by rw [h.separator]; rfl
  fraction := h.fraction
  zone := fun zone hzone => (h.zone zone hzone).readable

/-- The end of a day is no time that the clock shows. -/
theorem EndsDay.not_valid (h : w.EndsDay) : ¬w.time.Valid :=
  fun hvalid => absurd (h.1 ▸ hvalid.1 : 24 < 24) (Nat.lt_irrefl 24)

/-! ### What they mean -/

/-- A clock at the place of some parts shows the date and the time that they write, or the beginning
of the next day if they write the end of a day. -/
def Means (w : Written) (t : Instant) : Prop :=
  ((t.ahead w.offset).date, (t.ahead w.offset).timeOfDay) =
    if w.EndsDay then (w.date.next, ⟨0, 0, 0, 0⟩) else (w.date, w.time)

/-- A date and a time that the calendar and the clock have mean the moment at which they show them.
-/
theorem means_of_valid (hdate : w.date.Valid) (htime : w.time.Valid) : w.Means w.instant := by
  rw [Means, if_neg fun hends => hends.not_valid htime, instant, date_ofParts hdate htime,
    timeOfDay_ofParts htime]

/-- The end of a day is the hour twenty-four and nothing more. -/
theorem EndsDay.time_eq (h : w.EndsDay) : w.time = ⟨24, 0, 0, 0⟩ := by
  obtain ⟨hhour, hminute, hsecond, hzeros⟩ := h
  have hnanos : w.fraction.nanos = 0 := by
    rcases hfraction : w.fraction with - | digits
    · rfl
    · have hzeros := List.all_eq_true.1 (hzeros digits hfraction)
      rw [Fraction.nanos, fractionNanos,
        List.eq_replicate_of_mem fun c hc => beq_iff_eq.1 (hzeros c hc), number_zeros,
        Nat.zero_mul, Nat.zero_div]
  rw [time, hhour, hminute, hsecond, hnanos]

/-- **A date and time of XML Schema means the moment of its parts.** -/
theorem Lexical.means (h : w.Lexical) : w.Means w.instant := by
  rcases h.time with htime | hends
  · exact means_of_valid h.date htime
  · have hzero : TimeOfDay.Valid ⟨0, 0, 0, 0⟩ := by decide
    rw [Means, if_pos hends, instant, hends.time_eq, ofParts_endOfDay h.date,
      date_ofParts (Date.valid_next h.date) hzero, timeOfDay_ofParts hzero]

/-! ### Which of them are read -/

/-- What is read of the dates and times of XML Schema. -/
structure Read (w : Written) : Prop where
  year : w.YearRead
  representable : isRepresentable w.date.year
  notEndsDay : ¬w.EndsDay

instance (w : Written) : Decidable w.Read :=
  decidable_of_iff (w.YearRead ∧ isRepresentable w.date.year ∧ ¬w.EndsDay)
    ⟨fun h => ⟨h.1, h.2.1, h.2.2⟩, fun h => ⟨h.year, h.representable, h.notEndsDay⟩⟩

/-- **A date and time of XML Schema that is read has one of the forms that are read.** -/
theorem Lexical.form (h : w.Lexical) (hread : w.Read) : w.OffsetForm ∨ w.LocalForm := by
  have htime : w.time.Valid := h.time.resolve_right hread.notEndsDay
  by_cases hzone : w.zone = none
  · right
    have hyear : YearReadable w.sign w.year := by
      rcases hread.year with ⟨hsign, hwidth⟩ | ⟨hsign, -⟩
      · exact .inl ⟨hsign, hwidth.le⟩
      · exact .inr (.inl hsign)
    exact ⟨h.shaped, hyear, h.separator, hzone, hread.representable, h.date, htime⟩
  · left
    obtain ⟨hsign, hwidth⟩ := hread.year.resolve_right fun hlocal => hzone hlocal.2
    exact ⟨h.shaped, hsign, hwidth, h.tight, hzone, h.date, htime⟩

/-- A year has digits, and no other sign than plus or minus. -/
structure YearShaped (w : Written) : Prop where
  digits : IsDigits w.year
  ne_nil : w.year ≠ []
  sign : w.sign = none ∨ w.sign = some '-' ∨ w.sign = some '+'

/-- The digits in front are the year, or there is a sign in front of them. -/
theorem takeWhile_chars (h : w.YearShaped) :
    w.chars.takeWhile Numeral.isDecimal = w.sign.elim w.year fun _ => [] := by
  rw [chars]
  rcases h.sign with hs | hs | hs <;> rw [hs]
  · exact takeWhile_isDecimal_append h.digits (noDigitFirst_cons (by decide))
  · exact List.takeWhile_cons_of_neg (by decide)
  · exact List.takeWhile_cons_of_neg (by decide)

/-- The digits that a text begins with are the year, unless there is a sign. -/
theorem YearShaped.year_eq (h : w.YearShaped) (h' : w'.YearShaped) (hchars : w'.chars = w.chars)
    (hnone : w.sign = none) : w'.sign = none ∧ w'.year = w.year := by
  have hyear := takeWhile_chars h
  have hyear' := takeWhile_chars h'
  rw [← hchars, hyear', hnone, Option.elim_none] at hyear
  rcases hs : w'.sign with - | c
  · rw [hs] at hyear
    exact ⟨rfl, hyear⟩
  · rw [hs] at hyear
    exact absurd hyear.symm h.ne_nil

/-- **A date and time of XML Schema with the text of a form that is read is read.**

**Proof sketch.** Both texts have the same digits in front of the first dash, so their years have
the same width; what the reader makes of the one text is what it makes of the other. -/
theorem Lexical.read_of_chars_eq (h : w.Lexical) (hform : w'.OffsetForm ∨ w'.LocalForm)
    (hchars : w'.chars = w.chars) : w.Read := by
  have hshaped : w.YearShaped := ⟨h.year, h.shaped.year_ne_nil, h.sign.imp_right .inl⟩
  rcases hform with hform | hform
  · have hshaped' : w'.YearShaped := ⟨hform.year, hform.year_ne_nil, .inl hform.sign⟩
    obtain ⟨hsign, hyear⟩ := hshaped'.year_eq hshaped hchars.symm hform.sign
    have hfour : w.year.length = 4 := by rw [hyear, hform.width]
    have hread := hform.read
    rw [hchars, readOffsetForm_chars h.shaped hsign hfour h.tight] at hread
    obtain ⟨zone, hzone, hvalid⟩ := Option.bind_eq_some_iff.1 hread
    obtain ⟨⟨-, htime⟩, -⟩ := ofValid_eq_some_iff.1 hvalid
    refine ⟨.inl ⟨hsign, hfour⟩, ?_, fun hends => hends.not_valid htime⟩
    have hlt := number_lt h.year
    rw [hfour] at hlt
    rw [Written.date, hsign]
    show -262143 ≤ (number w.year : Int) ∧ (number w.year : Int) ≤ 262142
    omega
  · have hshaped' : w'.YearShaped :=
      ⟨hform.year, hform.year_ne_nil, hform.sign.imp_left And.left⟩
    have hfour (hsign : w.sign = none) : w.year.length = 4 := by
      obtain ⟨hsign', hyear⟩ := hshaped.year_eq hshaped' hchars hsign
      have hle : w'.year.length ≤ 4 := by
        simpa [YearReadable, hsign'] using hform.sign
      exact Nat.le_antisymm (hyear ▸ hle) h.width
    have hreadable : YearReadable w.sign w.year :=
      h.sign.imp (fun hsign => ⟨hsign, (hfour hsign).le⟩) .inl
    have hread := hform.read
    rw [hchars, readLocalForm_chars h.shaped hreadable] at hread
    obtain ⟨⟨-, hzone, hrange⟩, hvalid⟩ := Option.ite_none_right_eq_some.1 hread
    obtain ⟨⟨-, htime⟩, -⟩ := ofValid_eq_some_iff.1 hvalid
    exact ⟨h.sign.imp (fun hsign => ⟨hsign, hfour hsign⟩) fun hsign => ⟨hsign, hzone⟩, hrange,
      fun hends => hends.not_valid htime⟩

end Written

end Instant

namespace Provenance

/-! ### The moments of events -/

open Instant in
/-- **The texts that have a moment.** The date and time of an event is read exactly if it has one of
the two forms without the blanks around it, as the moment that these parts mean. A date and time of
XML Schema is read unless it is the end of a day, or its year has a sign in front of a zone or more
than four digits without a sign, or is beyond the years that are represented; it means the moment
that it is read as.

**Proof sketch.** What is read in the two forms is `Instant.parse_eq_some_iff`. A date and time of
XML Schema that is read has one of the forms itself; the others do not have the text of a form. -/
theorem EventRecord.timestamp_iff (event : EventRecord) :
    (∀ t, event.timestamp = some t ↔
      ∃ w : Written, (w.OffsetForm ∨ w.LocalForm) ∧
        Blank.trim event.dateTime.toList = w.chars ∧ w.instant = t ∧ w.Means t) ∧
    ∀ w : Written, w.Lexical → Blank.trim event.dateTime.toList = w.chars →
      w.Means w.instant ∧ (w.Read → event.timestamp = some w.instant) ∧
        (¬w.Read → event.timestamp = none) := by
  constructor
  · intro t
    rw [timestamp, parse_eq_some_iff]
    constructor
    · rintro ⟨w, hform, htext, rfl⟩
      have hmeans : w.Means w.instant :=
        hform.elim (fun h => w.means_of_valid h.date h.time) fun h => w.means_of_valid h.date h.time
      exact ⟨w, hform, htext, rfl, hmeans⟩
    · rintro ⟨w, hform, htext, ht, -⟩
      exact ⟨w, hform, htext, ht⟩
  · intro w hw htext
    refine ⟨hw.means, fun hread => parse_eq_some_iff.2 ⟨w, hw.form hread, htext, rfl⟩,
      fun hread => ?_⟩
    by_contra hsome
    obtain ⟨t, ht⟩ := Option.ne_none_iff_exists'.1 hsome
    obtain ⟨w', hform, htext', -⟩ := parse_eq_some_iff.1 ht
    exact hread (hw.read_of_chars_eq hform (htext'.symm.trans htext))

/-- An event with a date and time. -/
def eventAt (dateTime : String) : EventRecord :=
  ⟨.uuid "1", "validation", dateTime, "", "valid", "", .uuid "2"⟩

/-- A leap day far ahead of universal time, with a fraction of a second. -/
def leapDay : Instant.Written :=
  ⟨none, ['2', '0', '2', '4'], ⟨[], ['0', '2']⟩, ⟨[], ['2', '9']⟩, 'T', ⟨[], ['0', '0']⟩,
    ⟨[], ['3', '0']⟩, ⟨[], ['0', '0']⟩, some ['2', '5'],
    some (.distance '+' ⟨[], ['1', '4']⟩ ⟨[], ['0', '0']⟩)⟩

/-- A day in a year before the year zero, in universal time. -/
def ides : Instant.Written :=
  ⟨some '-', ['0', '0', '4', '3'], ⟨[], ['0', '3']⟩, ⟨[], ['1', '5']⟩, 'T', ⟨[], ['1', '2']⟩,
    ⟨[], ['0', '0']⟩, ⟨[], ['0', '0']⟩, none, some (.universal 'Z')⟩

/-- The leap day is read, and is still the day before in universal time; a year with a sign is not
read with a zone. -/
theorem timestamp_leapDay_and_ides :
    leapDay.Lexical ∧ leapDay.Read ∧
      (eventAt "2024-02-29T00:30:00.25+14:00").timestamp = some ⟨1709116200, 250000000⟩ ∧
      ides.Lexical ∧ ¬ides.Read ∧ (eventAt "-0043-03-15T12:00:00Z").timestamp = none := by
  have hleap : leapDay.Lexical := by decide
  have hleapRead : leapDay.Read := by decide
  have hides : ides.Lexical := by decide
  have hidesRead : ¬ides.Read := by decide
  have hmoment : leapDay.instant = ⟨1709116200, 250000000⟩ := by decide
  refine ⟨hleap, hleapRead, ?_, hides, hidesRead, ?_⟩
  · rw [← hmoment]
    exact ((eventAt "2024-02-29T00:30:00.25+14:00").timestamp_iff.2 leapDay hleap
      (by decide +kernel)).2.1 hleapRead
  · exact ((eventAt "-0043-03-15T12:00:00Z").timestamp_iff.2 ides hides
      (by decide +kernel)).2.2 hidesRead

/-- The end of a day as its hour twenty-four. -/
def midnight : Instant.Written :=
  ⟨none, ['2', '0', '2', '4'], ⟨[], ['0', '1']⟩, ⟨[], ['0', '1']⟩, 'T', ⟨[], ['2', '4']⟩,
    ⟨[], ['0', '0']⟩, ⟨[], ['0', '0']⟩, none, some (.universal 'Z')⟩

/-- The end of a day is a date and time of XML Schema, the beginning of the next day, but has no
moment. -/
theorem timestamp_midnight :
    midnight.Lexical ∧ midnight.chars = "2024-01-01T24:00:00Z".toList ∧
      midnight.instant = ⟨1704153600, 0⟩ ∧
      (midnight.instant.date, midnight.instant.timeOfDay) = (⟨2024, 1, 2⟩, ⟨0, 0, 0, 0⟩) ∧
      (eventAt "2024-01-01T24:00:00Z").timestamp = none := by
  exact ⟨by decide, by decide +kernel, by decide, by decide, by decide +kernel⟩

end Provenance

end Accession

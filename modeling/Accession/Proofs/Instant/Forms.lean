import Mathlib.Data.Option.Basic
import Accession.Proofs.Instant.Fields
set_option autoImplicit false

/-!
# Written dates and times

A date and time in its parts, as characters and as the moment that the parts mean, and the two forms
in which a text is read.

## Main definitions

* `Instant.Zone`, `Instant.Written` — the parts of a text that names a moment.
* `Instant.Written.chars`, `Instant.Written.instant` — the text, and the moment.
* `Instant.Written.OffsetForm`, `Instant.Written.LocalForm` — the forms that are read.

## Main results

* `Instant.Written.readBehindYear_chars`, `Instant.Written.exists_of_readBehindYear` — how the
  fields that both forms have are read.
* `Instant.Written.readOffsetForm_chars`, `Instant.Written.readLocalForm_chars` — what the readers
  make of the text of some parts.
* `Instant.readOffsetForm_eq_some_iff`, `Instant.readLocalForm_eq_some_iff` — the texts that are
  read, and what as.
* `Instant.parse_eq_some_iff` — a text is read exactly if it has one of the forms.
-/

namespace Accession.Instant

/-! ### Parts -/

/-- A distance to universal time: a letter, or a sign with hours and minutes. -/
inductive Zone where
  | universal (letter : Char)
  | distance (sign : Char) (hours minutes : Field)

namespace Zone

/-- The characters of a zone. -/
def chars : Zone → List Char
  | universal letter => [letter]
  | distance sign hours minutes => sign :: (hours.chars ++ ':' :: minutes.chars)

/-- How many seconds a zone is ahead of universal time. -/
def offset : Zone → Int
  | universal _ => 0
  | distance sign hours minutes =>
    (if sign = '+' then 1 else -1) * (hours.value * 3600 + minutes.value * 60)

/-- The zones that are read. -/
def Readable : Zone → Prop
  | universal letter => letter = 'Z' ∨ letter = 'z'
  | distance sign hours minutes =>
    (sign = '+' ∨ sign = '-' ∨ sign = '\u2212') ∧ hours.Tight ∧ minutes.Tight ∧
      hours.value < 24 ∧ minutes.value < 60

end Zone

/-- The number of a year with a sign. -/
def signedYear (sign : Option Char) (digits : List Char) : Int :=
  if sign = some '-' then -(number digits : Int) else number digits

/-- A year of up to four digits, or with a sign and any digits. -/
def YearReadable (sign : Option Char) (digits : List Char) : Prop :=
  sign = none ∧ digits.length ≤ 4 ∨ sign = some '-' ∨ sign = some '+'

/-- The parts of a text that names a moment. -/
structure Written where
  sign : Option Char
  /-- The digits of the year. -/
  year : List Char
  month : Field
  day : Field
  /-- The character between the date and the time. -/
  separator : Char
  hour : Field
  minute : Field
  second : Field
  fraction : Fraction
  zone : Option Zone

namespace Written

/-- The characters of a zone that may be missing. -/
def zoneChars (w : Written) : List Char :=
  w.zone.elim [] Zone.chars

/-- The characters of some parts. -/
def chars (w : Written) : List Char :=
  w.sign.toList ++ (w.year ++ '-' :: (w.month.chars ++ '-' :: (w.day.chars ++ w.separator ::
    (w.hour.chars ++ ':' :: (w.minute.chars ++ ':' :: (w.second.chars ++
      (w.fraction.chars ++ w.zoneChars)))))))

/-- The date that some parts name. -/
def date (w : Written) : Date :=
  ⟨signedYear w.sign w.year, w.month.value, w.day.value⟩

/-- The time of day that some parts name. -/
def time (w : Written) : TimeOfDay :=
  ⟨w.hour.value, w.minute.value, w.second.value, w.fraction.nanos⟩

/-- How many seconds the place of some parts is ahead of universal time, in which those without a
zone are. -/
def offset (w : Written) : Int :=
  w.zone.elim 0 Zone.offset

/-- The moment that some parts mean. -/
def instant (w : Written) : Instant :=
  ofParts w.date w.time w.offset

/-- The fields behind the year. -/
def fields (w : Written) : List Field :=
  [w.month, w.day, w.hour, w.minute, w.second]

/-- What holds of all fields holds of each of the five. -/
theorem forall_fields_iff {w : Written} {p : Field → Prop} :
    (∀ f ∈ w.fields, p f) ↔ p w.month ∧ p w.day ∧ p w.hour ∧ p w.minute ∧ p w.second := by
  simp [fields]

/-- There are numbers where numbers belong, and zones where zones do. -/
structure Shaped (w : Written) : Prop where
  year : IsDigits w.year
  year_ne_nil : w.year ≠ []
  fields : ∀ f ∈ w.fields, f.Loose
  separator : isSeparator w.separator
  fraction : w.fraction.WellFormed
  zone : ∀ zone ∈ w.zone, zone.Readable

/-- The form with a distance to universal time: a year of four digits, and two digits in every other
field. -/
structure OffsetForm (w : Written) : Prop extends w.Shaped where
  sign : w.sign = none
  width : w.year.length = 4
  tight : ∀ f ∈ w.fields, f.Tight
  hasZone : w.zone ≠ none
  date : w.date.Valid
  time : w.time.Valid

/-- The form without a distance to universal time: a year of up to four digits, or with a sign and
any digits. -/
structure LocalForm (w : Written) : Prop extends w.Shaped where
  sign : YearReadable w.sign w.year
  separator_eq : w.separator = 'T'
  noZone : w.zone = none
  representable : isRepresentable w.date.year
  date : w.date.Valid
  time : w.time.Valid

end Written

/-! ### Reading parts -/

/-- An offset goes ahead behind a plus, and back behind either kind of minus. -/
theorem direction?_eq_some_iff {c : Char} {direction : Int} :
    direction? c = some direction ↔
      (c = '+' ∨ c = '-' ∨ c = '\u2212') ∧ (if c = '+' then 1 else -1) = direction := by
  rw [direction?]
  split_ifs with hplus hminus <;> simp_all

/-- An offset is read exactly off the zones that can be read. -/
theorem readOffset_eq_some_iff {text : List Char} {offset : Int} :
    readOffset text = some offset ↔
      ∃ zone : Zone, zone.Readable ∧ zone.offset = offset ∧ text = zone.chars := by
  constructor
  · intro h
    match text with
    | c :: rest =>
      rw [readOffset] at h
      split at h
      · rename_i hletter
        simp only [Option.ite_none_right_eq_some, List.isEmpty_iff, Option.some.injEq] at h
        obtain ⟨rfl, hoffset⟩ := h
        exact ⟨.universal c, hletter, hoffset, rfl⟩
      · simp only [Option.bind_eq_bind, Option.bind_eq_some_iff, Prod.exists,
          readFixed_two_eq_some_iff, expect_eq_some_iff, direction?_eq_some_iff,
          Option.ite_none_right_eq_some, Option.some.injEq, List.isEmpty_iff, beq_iff_eq] at h
        obtain ⟨_, ⟨hsign, rfl⟩, _, _, ⟨hours, hhours, rfl, rfl⟩, _, ⟨_, rfl, rfl⟩, _, _,
          ⟨minutes, hminutes, rfl, rfl⟩, ⟨rfl, hbounds⟩, rfl⟩ := h
        refine ⟨.distance c hours minutes, ⟨hsign, hhours, hminutes, hbounds⟩, rfl, ?_⟩
        rw [Zone.chars, List.append_nil]
  · rintro ⟨letter | ⟨sign, hours, minutes⟩, hread, rfl, rfl⟩
    · rw [Zone.chars, readOffset]
      exact (if_pos hread).trans rfl
    · obtain ⟨hsign, hhours, hminutes, hbounds⟩ := hread
      have hletter : ¬(sign = 'Z' ∨ sign = 'z') := by
        rcases hsign with rfl | rfl | rfl <;> decide
      have hminutes' : readFixed 2 minutes.chars = some (minutes.value, []) :=
        readFixed_two_eq_some_iff.2 ⟨minutes, hminutes, rfl, (List.append_nil _).symm⟩
      rw [Zone.chars, readOffset, if_neg hletter, direction?_eq_some_iff.2 ⟨hsign, rfl⟩,
        Option.bind_eq_bind, Option.bind_some,
        readFixed_two_eq_some_iff.2 ⟨hours, hhours, rfl, rfl⟩, Option.bind_eq_bind,
        Option.bind_some]
      simp only [expect, beq_self_eq_true, if_true, Option.bind_eq_bind, Option.bind_some,
        hminutes']
      exact if_pos ⟨rfl, hbounds⟩

variable {text rest : List Char}

/-- A text that does not begin blank has no blanks to be dropped. -/
theorem dropWhile_isBlank_of_head (h : ∀ c ∈ text.head?, ¬Blank.isBlank c) :
    text.dropWhile Blank.isBlank = text := by
  cases text with
  | nil => rfl
  | cons c text => exact List.dropWhile_cons_of_neg (h c rfl)

/-- What is read as a year in front of something else than a digit. -/
theorem readYear_append {sign : Option Char} {digits : List Char} (h : YearReadable sign digits)
    (hdigits : IsDigits digits) (hne : digits ≠ []) (hrest : NoDigitFirst rest) :
    readYear (sign.toList ++ (digits ++ rest)) = some (signedYear sign digits, rest) := by
  have hall : readDigits (digits ++ rest).length (digits ++ rest) = some (number digits, rest) :=
    readDigits_eq_some_iff.2 ⟨digits, hdigits, hne, by simp, .inr hrest, rfl, rfl⟩
  rcases h with ⟨rfl, hlength⟩ | rfl | rfl
  · obtain ⟨c, digits, rfl⟩ := List.exists_cons_of_ne_nil hne
    have hc := hdigits c List.mem_cons_self
    have hblank : ∀ d ∈ (c :: digits ++ rest).head?, ¬Blank.isBlank d := by
      rintro d ⟨⟩
      exact not_isBlank_of_isDecimal hc
    rw [readYear, Option.toList_none, List.nil_append, dropWhile_isBlank_of_head hblank]
    split
    · rename_i heq
      exact absurd hc (by rw [(List.cons.inj heq).1]; decide)
    · rename_i heq
      exact absurd hc (by rw [(List.cons.inj heq).1]; decide)
    · rw [readDigits_eq_some_iff.2 ⟨_, hdigits, hne, hlength, .inr hrest, rfl, rfl⟩]
      rfl
  · show (readDigits (digits ++ rest).length (digits ++ rest)).map _ = _
    rw [hall]
    rfl
  · show (readDigits (digits ++ rest).length (digits ++ rest)).map _ = _
    rw [hall]
    rfl

/-- How a text begins that is read as a year, if it does not begin with a blank. -/
theorem exists_of_readYear (hblank : ∀ c ∈ text.head?, ¬Blank.isBlank c) {year : Int}
    (h : readYear text = some (year, rest)) :
    ∃ sign digits, YearReadable sign digits ∧ IsDigits digits ∧ digits ≠ [] ∧
      signedYear sign digits = year ∧ text = sign.toList ++ (digits ++ rest) := by
  rw [readYear, dropWhile_isBlank_of_head hblank] at h
  split at h <;>
    simp only [Option.map_eq_some_iff, Prod.exists, readDigits_eq_some_iff, Prod.mk.injEq] at h <;>
    obtain ⟨_, _, ⟨digits, hdigits, hne, hlength, -, rfl, rfl⟩, rfl, rfl⟩ := h
  · exact ⟨some '-', digits, .inr (.inl rfl), hdigits, hne, rfl, rfl⟩
  · exact ⟨some '+', digits, .inr (.inr rfl), hdigits, hne, rfl, rfl⟩
  · exact ⟨none, digits, .inl ⟨rfl, hlength⟩, hdigits, hne, rfl, rfl⟩

/-- A text does not begin with a digit if its first character is none. -/
theorem noDigitFirst_cons {c : Char} (h : ¬Numeral.isDecimal c) : NoDigitFirst (c :: rest) := by
  rintro d ⟨⟩
  exact h

/-- What separates date and time is no digit, so the day ends in front of it. -/
theorem noDigitFirst_separator {c : Char} (h : isSeparator c) (rest : List Char) :
    NoDigitFirst (c :: rest) := by
  refine noDigitFirst_cons ?_
  simp only [isSeparator, Bool.or_eq_true, beq_iff_eq] at h
  rcases h with (rfl | rfl) | rfl <;> decide

/-- `ReadsFields read p`: what is read is a field with the property `p`, and such a field is read in
front of something else than a digit. -/
structure ReadsFields (read : List Char → Option (Nat × List Char)) (p : Field → Prop) : Prop where
  read_chars {f : Field} {rest : List Char} (h : p f) (hrest : NoDigitFirst rest) :
    read (f.chars ++ rest) = some (f.value, rest)
  exists_field {text rest : List Char} {v : Nat} (h : read text = some (v, rest)) :
    ∃ f, p f ∧ f.value = v ∧ text = f.chars ++ rest

/-- Two digits are read off exactly the tight fields. -/
theorem readsFields_tight : ReadsFields (readFixed 2) Field.Tight where
  read_chars h _ := readFixed_two_eq_some_iff.2 ⟨_, h, rfl, rfl⟩
  exists_field := readFixed_two_eq_some_iff.1

/-- Up to two digits behind blanks are read off exactly the loose fields. -/
theorem readsFields_loose : ReadsFields (readUpTo 2) Field.Loose where
  read_chars h hrest := readUpTo_two_eq_some_iff.2 ⟨_, h, .inr hrest, rfl, rfl⟩
  exists_field h :=
    have ⟨f, hf, _, hv, htext⟩ := readUpTo_two_eq_some_iff.1 h
    ⟨f, hf, hv, htext⟩

/-- A character that is expected is taken off the front. -/
theorem expect_cons {p : Char → Bool} {c : Char} (h : p c) : expect p (c :: rest) = some rest :=
  if_pos h

/-- If one character is expected and found, the text begins with it. -/
theorem eq_cons_of_expect {c : Char} (h : expect (· == c) text = some rest) : text = c :: rest := by
  obtain ⟨d, hd, rfl⟩ := expect_eq_some_iff.1 h
  rw [beq_iff_eq.1 hd]

/-! ### What both forms have behind the year -/

/-- What both forms have behind the year: a month, a day, an hour, a minute and a second that one
reader reads, with characters between them, and a fraction. What to do with the rest is up to the
form. -/
def readBehindYear (read : List Char → Option (Nat × List Char)) (separates : Char → Bool)
    (finish : Nat → Nat → TimeOfDay → List Char → Option Instant) (text : List Char) :
    Option Instant := do
  let text ← expect (· == '-') text
  let (month, text) ← read text
  let text ← expect (· == '-') text
  let (day, text) ← read text
  let text ← expect separates text
  let (hour, text) ← read text
  let text ← expect (· == ':') text
  let (minute, text) ← read text
  let text ← expect (· == ':') text
  let (second, text) ← read text
  let (nanos, text) ← readFraction text
  finish month day ⟨hour, minute, second, nanos⟩ text

/-- The form with an offset: a year of four digits, tight fields, any separator, and the offset
behind them. -/
theorem readOffsetForm_eq (text : List Char) :
    readOffsetForm text = (readFixed 4 text).bind fun year =>
      readBehindYear (readFixed 2) isSeparator (fun month day time text =>
        (readOffset text).bind (ofValid ⟨year.1, month, day⟩ time)) year.2 :=
  rfl

/-- The form without an offset: a year of four digits or behind a sign, loose fields, the separator
`T`, and nothing behind them. -/
theorem readLocalForm_eq (text : List Char) :
    readLocalForm text = (readYear text).bind fun year =>
      readBehindYear (readUpTo 2) (· == 'T') (fun month day time text =>
        if text.isEmpty ∧ isRepresentable year.1 then ofValid ⟨year.1, month, day⟩ time 0 else none)
        year.2 :=
  rfl

section

variable {read : List Char → Option (Nat × List Char)} {separates : Char → Bool}
  {finish : Nat → Nat → TimeOfDay → List Char → Option Instant} {p : Field → Prop}

namespace Written

variable {w : Written}

/-- A zone begins neither with a digit nor with a dot, so seconds and fraction end in front of it.
-/
theorem head?_zoneChars (h : w.Shaped) :
    ∀ c ∈ w.zoneChars.head?, ¬Numeral.isDecimal c ∧ c ≠ '.' := by
  rcases hzone : w.zone with - | zone
  · simp [zoneChars, hzone]
  · have hread := h.zone zone hzone
    rw [zoneChars, hzone]
    rcases zone with letter | ⟨sign, hours, minutes⟩
    · rintro c ⟨⟩
      rcases hread with rfl | rfl <;> decide
    · rintro c ⟨⟩
      rcases hread.1 with rfl | rfl | rfl <;> decide

/-- A fraction is read up to the zone. -/
theorem readFraction_chars (h : w.Shaped) :
    readFraction (w.fraction.chars ++ w.zoneChars) = some (w.fraction.nanos, w.zoneChars) := by
  refine readFraction_eq_some_iff.2 ⟨w.fraction, h.fraction, ?_, rfl, rfl⟩
  have hhead := head?_zoneChars h
  cases w.fraction with
  | none => exact fun hdot => (hhead '.' hdot).2 rfl
  | some digits => exact fun c hc => (hhead c hc).1

/-- The seconds end where the fraction or the zone begins. -/
theorem noDigitFirst_fraction (h : w.Shaped) :
    NoDigitFirst (w.fraction.chars ++ w.zoneChars) := by
  cases w.fraction with
  | none => exact fun c hc => (head?_zoneChars h c hc).1
  | some digits => exact noDigitFirst_cons (by decide)

/-- What some parts are behind their year, in front of a rest. -/
def charsBehindYear (w : Written) (rest : List Char) : List Char :=
  '-' :: (w.month.chars ++ '-' :: (w.day.chars ++ w.separator ::
    (w.hour.chars ++ ':' :: (w.minute.chars ++ ':' :: (w.second.chars ++
      (w.fraction.chars ++ rest))))))

/-- A written time is a sign, a year and what stands behind that. -/
theorem chars_eq (w : Written) :
    w.chars = w.sign.toList ++ (w.year ++ w.charsBehindYear w.zoneChars) :=
  rfl

/-- What stands behind the year is read field by field, if the separator is one that the form has.
-/
theorem readBehindYear_chars (hread : ReadsFields read p) (h : w.Shaped)
    (hfields : ∀ f ∈ w.fields, p f) :
    readBehindYear read separates finish (w.charsBehindYear w.zoneChars) =
      if separates w.separator then finish w.month.value w.day.value w.time w.zoneChars
      else none := by
  have hdash {rest : List Char} : NoDigitFirst ('-' :: rest) := noDigitFirst_cons (by decide)
  have hcolon {rest : List Char} : NoDigitFirst (':' :: rest) := noDigitFirst_cons (by decide)
  obtain ⟨hmonth, hday, hhour, hminute, hsecond⟩ := forall_fields_iff.1 hfields
  have hmark (c : Char) (rest : List Char) : expect (· == c) (c :: rest) = some rest :=
    expect_cons (beq_self_eq_true c)
  simp only [readBehindYear, charsBehindYear, hmark, hread.read_chars hmonth hdash,
    hread.read_chars hday (noDigitFirst_separator h.separator _), Option.bind_eq_bind,
    Option.bind_some]
  by_cases hseparates : separates w.separator
  · simp only [expect_cons hseparates, hread.read_chars hhour hcolon, hmark,
      hread.read_chars hminute hcolon, hread.read_chars hsecond (noDigitFirst_fraction h),
      readFraction_chars h, Option.bind_some, if_pos hseparates]
    rfl
  · rw [expect, if_neg hseparates, if_neg hseparates, Option.bind_none]

/-- **The form without a distance to universal time does not go on into a zone.** -/
theorem readLocalForm_chars (h : w.Shaped) (hyear : YearReadable w.sign w.year) :
    readLocalForm w.chars =
      if w.separator = 'T' ∧ w.zone = none ∧ isRepresentable w.date.year then
        ofValid w.date w.time 0
      else none := by
  have hdash : NoDigitFirst (w.charsBehindYear w.zoneChars) := noDigitFirst_cons (by decide)
  rw [readLocalForm_eq, chars_eq, readYear_append hyear h.year h.year_ne_nil hdash,
    Option.bind_some, readBehindYear_chars readsFields_loose h h.fields]
  have hzone : w.zoneChars.isEmpty ↔ w.zone = none := by
    rcases hz : w.zone with - | (_ | _) <;> simp [zoneChars, hz, Zone.chars]
  by_cases hT : w.separator = 'T'
  · rw [if_pos (beq_iff_eq.2 hT)]
    exact if_congr (by rw [hzone, and_iff_right hT, date]) rfl rfl
  · rw [if_neg (mt beq_iff_eq.1 hT), if_neg fun hcond => hT hcond.1]

/-- **The form with a distance to universal time needs a zone.** -/
theorem readOffsetForm_chars (h : w.Shaped) (hsign : w.sign = none) (hwidth : w.year.length = 4)
    (htight : ∀ f ∈ w.fields, f.Tight) :
    readOffsetForm w.chars = w.zone.bind fun zone => ofValid w.date w.time zone.offset := by
  have hyear (rest : List Char) : readFixed 4 (w.year ++ rest) = some (number w.year, rest) :=
    hwidth ▸ readFixed_append h.year rest
  have hdate : w.date = ⟨number w.year, w.month.value, w.day.value⟩ := by
    rw [Written.date, hsign]
    rfl
  rw [readOffsetForm_eq, chars_eq, hsign, Option.toList_none, List.nil_append, hyear,
    Option.bind_some, readBehindYear_chars readsFields_tight h htight, if_pos h.separator, hdate,
    zoneChars]
  rcases hzone : w.zone with - | zone
  · rfl
  · have hread : readOffset zone.chars = some zone.offset :=
      readOffset_eq_some_iff.2 ⟨zone, h.zone zone hzone, rfl, rfl⟩
    rw [Option.elim_some, hread, Option.bind_some, Option.bind_some]

/-- What is read behind a year are the parts of a moment, up to a rest. -/
theorem exists_of_readBehindYear (hread : ReadsFields read p) {t : Instant}
    (h : readBehindYear read separates finish text = some t) :
    ∃ (w : Written) (rest : List Char), (∀ f ∈ w.fields, p f) ∧ separates w.separator ∧
      w.fraction.WellFormed ∧ text = w.charsBehindYear rest ∧
      finish w.month.value w.day.value w.time rest = some t := by
  obtain ⟨_, htext, h₁⟩ := Option.bind_eq_some_iff.1 h
  obtain rfl := eq_cons_of_expect htext
  obtain ⟨⟨_, _⟩, htext, h₂⟩ := Option.bind_eq_some_iff.1 h₁
  obtain ⟨month, hmonth, rfl, rfl⟩ := hread.exists_field htext
  obtain ⟨_, htext, h₃⟩ := Option.bind_eq_some_iff.1 h₂
  obtain rfl := eq_cons_of_expect htext
  obtain ⟨⟨_, _⟩, htext, h₄⟩ := Option.bind_eq_some_iff.1 h₃
  obtain ⟨day, hday, rfl, rfl⟩ := hread.exists_field htext
  obtain ⟨_, htext, h₅⟩ := Option.bind_eq_some_iff.1 h₄
  obtain ⟨separator, hseparator, rfl⟩ := expect_eq_some_iff.1 htext
  obtain ⟨⟨_, _⟩, htext, h₆⟩ := Option.bind_eq_some_iff.1 h₅
  obtain ⟨hour, hhour, rfl, rfl⟩ := hread.exists_field htext
  obtain ⟨_, htext, h₇⟩ := Option.bind_eq_some_iff.1 h₆
  obtain rfl := eq_cons_of_expect htext
  obtain ⟨⟨_, _⟩, htext, h₈⟩ := Option.bind_eq_some_iff.1 h₇
  obtain ⟨minute, hminute, rfl, rfl⟩ := hread.exists_field htext
  obtain ⟨_, htext, h₉⟩ := Option.bind_eq_some_iff.1 h₈
  obtain rfl := eq_cons_of_expect htext
  obtain ⟨⟨_, _⟩, htext, h₁₀⟩ := Option.bind_eq_some_iff.1 h₉
  obtain ⟨second, hsecond, rfl, rfl⟩ := hread.exists_field htext
  obtain ⟨⟨_, rest⟩, htext, h₁₁⟩ := Option.bind_eq_some_iff.1 h₁₀
  obtain ⟨fraction, hfraction, -, rfl, rfl⟩ := readFraction_eq_some_iff.1 htext
  exact ⟨⟨none, [], month, day, separator, hour, minute, second, fraction, none⟩, rest,
    forall_fields_iff.2 ⟨hmonth, hday, hhour, hminute, hsecond⟩, hseparator, hfraction, rfl, h₁₁⟩

end Written

end

/-! ### The texts that are read -/

/-- Date and time make an instant exactly if both are such as there are. -/
theorem ofValid_eq_some_iff {date : Date} {time : TimeOfDay} {offset : Int} {t : Instant} :
    ofValid date time offset = some t ↔
      (date.Valid ∧ time.Valid) ∧ ofParts date time offset = t := by
  rw [ofValid, Option.ite_none_right_eq_some, Option.some.injEq]

/-- A time written with an offset is read as its instant. -/
theorem Written.OffsetForm.read {w : Written} (h : w.OffsetForm) :
    readOffsetForm w.chars = some w.instant := by
  obtain ⟨zone, hzone⟩ := Option.ne_none_iff_exists'.1 h.hasZone
  rw [readOffsetForm_chars h.toShaped h.sign h.width h.tight, hzone]
  refine ofValid_eq_some_iff.2 ⟨⟨h.date, h.time⟩, ?_⟩
  rw [instant, offset, hzone]
  rfl

/-- A time written without an offset is read as its instant. -/
theorem Written.LocalForm.read {w : Written} (h : w.LocalForm) :
    readLocalForm w.chars = some w.instant := by
  rw [readLocalForm_chars h.toShaped h.sign,
    if_pos ⟨h.separator_eq, h.noZone, h.representable⟩]
  refine ofValid_eq_some_iff.2 ⟨⟨h.date, h.time⟩, ?_⟩
  rw [instant, offset, h.noZone]
  rfl

/-- **A text is read in the form with a distance to universal time exactly if it has the form.** -/
theorem readOffsetForm_eq_some_iff {t : Instant} :
    readOffsetForm text = some t ↔
      ∃ w : Written, w.OffsetForm ∧ text = w.chars ∧ w.instant = t := by
  constructor
  · intro h
    rw [readOffsetForm_eq] at h
    obtain ⟨⟨_, _⟩, hread, hbehind⟩ := Option.bind_eq_some_iff.1 h
    obtain ⟨year, hyear, hwidth, rfl, rfl⟩ := readFixed_eq_some_iff.1 hread
    obtain ⟨w, _, htight, hseparator, hfraction, rfl, hfinish⟩ :=
      Written.exists_of_readBehindYear readsFields_tight hbehind
    obtain ⟨_, hread, hvalid⟩ := Option.bind_eq_some_iff.1 hfinish
    obtain ⟨zone, hzone, rfl, rfl⟩ := readOffset_eq_some_iff.1 hread
    obtain ⟨⟨hdate, htime⟩, rfl⟩ := ofValid_eq_some_iff.1 hvalid
    have hshaped : Written.Shaped { w with sign := none, year, zone := some zone } :=
      { year := hyear
        year_ne_nil := List.ne_nil_of_length_eq_add_one hwidth
        fields := fun f hf => (htight f hf).loose
        separator := hseparator
        fraction := hfraction
        zone := by rintro _ ⟨⟩; exact hzone }
    exact ⟨_, ⟨hshaped, rfl, hwidth, htight, Option.some_ne_none zone, hdate, htime⟩, rfl, rfl⟩
  · rintro ⟨w, hw, rfl, rfl⟩
    exact hw.read

/-- **A text that does not begin with a blank is read in the form without a distance to universal
time exactly if it has the form.** -/
theorem readLocalForm_eq_some_iff (hblank : ∀ c ∈ text.head?, ¬Blank.isBlank c) {t : Instant} :
    readLocalForm text = some t ↔
      ∃ w : Written, w.LocalForm ∧ text = w.chars ∧ w.instant = t := by
  constructor
  · intro h
    rw [readLocalForm_eq] at h
    obtain ⟨⟨_, _⟩, hread, hbehind⟩ := Option.bind_eq_some_iff.1 h
    obtain ⟨sign, year, hsign, hyear, hne, rfl, rfl⟩ := exists_of_readYear hblank hread
    obtain ⟨w, rest, hloose, hseparator, hfraction, rfl, hfinish⟩ :=
      Written.exists_of_readBehindYear readsFields_loose hbehind
    obtain ⟨⟨hend, hrange⟩, hvalid⟩ := Option.ite_none_right_eq_some.1 hfinish
    obtain rfl := List.isEmpty_iff.1 hend
    obtain ⟨⟨hdate, htime⟩, rfl⟩ := ofValid_eq_some_iff.1 hvalid
    have hT : w.separator = 'T' := beq_iff_eq.1 hseparator
    have hshaped : Written.Shaped { w with sign, year, zone := none } :=
      { year := hyear
        year_ne_nil := hne
        fields := hloose
        separator := by rw [hT]; rfl
        fraction := hfraction
        zone := nofun }
    exact ⟨_, ⟨hshaped, hsign, hT, rfl, hrange, hdate, htime⟩, rfl, rfl⟩
  · rintro ⟨w, hw, rfl, rfl⟩
    exact hw.read

/-- A time written with an offset is not one without: something stands behind its fields. -/
theorem readLocalForm_chars_of_offsetForm {w : Written} (h : w.OffsetForm) :
    readLocalForm w.chars = none := by
  rw [w.readLocalForm_chars h.toShaped (.inl ⟨h.sign, h.width.le⟩)]
  exact if_neg fun hlocal => h.hasZone hlocal.2.1

/-- A trimmed text does not begin blank. -/
theorem head?_trim (text : List Char) : ∀ c ∈ (Blank.trim text).head?, ¬Blank.isBlank c := by
  intro c hc hblank
  obtain ⟨rest, hrest⟩ := List.head?_eq_some_iff.1 hc
  have hprefix : Blank.trim text <+: text.dropWhile Blank.isBlank := by
    rw [Blank.trim, Blank.trimEnd, ← List.reverse_suffix, List.reverse_reverse]
    exact List.dropWhile_suffix _
  obtain ⟨after, hafter⟩ := hprefix
  have hnot := List.head?_dropWhile_not Blank.isBlank text
  rw [← hafter, hrest] at hnot
  simp [hblank] at hnot

/-- **A text names a moment exactly if it has one of the two forms without the blanks around it.**

**Proof sketch.** A text with a zone is not read in the form without one, so the form that is tried
first takes nothing from the other. -/
theorem parse_eq_some_iff {text : String} {t : Instant} :
    parse text = some t ↔
      ∃ w : Written, (w.OffsetForm ∨ w.LocalForm) ∧ Blank.trim text.toList = w.chars ∧
        w.instant = t := by
  have hlocal := readLocalForm_eq_some_iff (head?_trim text.toList) (t := t)
  show (readOffsetForm _ <|> readLocalForm _) = some t ↔ _
  rw [Option.orElse_eq_some, readOffsetForm_eq_some_iff, hlocal]
  constructor
  · rintro (⟨w, hw, htext⟩ | ⟨-, w, hw, htext⟩)
    · exact ⟨w, .inl hw, htext⟩
    · exact ⟨w, .inr hw, htext⟩
  · rintro ⟨w, hw | hw, htext⟩
    · exact .inl ⟨w, hw, htext⟩
    · refine .inr ⟨?_, w, hw, htext⟩
      by_contra hne
      obtain ⟨_, hread⟩ := Option.ne_none_iff_exists'.1 hne
      obtain ⟨w', hw', htext', -⟩ := readOffsetForm_eq_some_iff.1 hread
      have hnone := readLocalForm_chars_of_offsetForm hw'
      rw [← htext', hlocal.2 ⟨w, hw, htext⟩] at hnone
      exact nomatch hnone

end Accession.Instant

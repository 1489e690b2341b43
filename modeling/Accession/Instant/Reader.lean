import Accession.Instant.Basic
import Accession.Text.Character
set_option autoImplicit false

/-!
# Reading instants

A date and time is read by one of two forms, with the blanks around it left out. The first is that
of RFC 3339, whose fields have fixed widths and which ends with a distance to universal time. The
second has no such distance and is taken as universal time; its fields may be shorter and have
blanks in front, and its year may have a sign and more digits.

## Main definitions

* `Instant.readOffsetForm` — the form with a distance to universal time.
* `Instant.readLocalForm` — the form without.
* `Instant.parse` — the moment that a text names.
-/

namespace Accession.Instant

/-- The number that decimal digits write. -/
def number (digits : List Char) : Nat :=
  digits.foldl (fun n c => n * 10 + (c.toNat - 48)) 0

/-- Reads exactly `n` digits. -/
def readFixed (n : Nat) (text : List Char) : Option (Nat × List Char) :=
  let digits := text.take n
  if digits.length = n ∧ digits.all Numeral.isDecimal then some (number digits, text.drop n)
  else none

/-- Reads a character that satisfies a condition. -/
def expect (p : Char → Bool) : List Char → Option (List Char)
  | [] => none
  | c :: rest => if p c then some rest else none

/-- Reads the digits of a fraction of a second as nanoseconds; those behind the ninth do not
count. -/
def readDigitsAsNanos (text : List Char) : Option (Nat × List Char) :=
  let digits := text.takeWhile Numeral.isDecimal
  if digits.isEmpty then none
  else some (number ((digits ++ List.replicate 9 '0').take 9), text.drop digits.length)

/-- Reads a fraction of a second, if a point announces one. -/
def readFraction : List Char → Option (Nat × List Char)
  | '.' :: rest => readDigitsAsNanos rest
  | text => some (0, text)

/-- Whether a character separates the date from the time in the form with a distance. -/
def isSeparator (c : Char) : Bool :=
  c == 'T' || c == 't' || c == ' '

/-- The direction that a sign gives: ahead of universal time, or behind it. The minus sign may be
the mathematical one. -/
def direction? (c : Char) : Option Int :=
  if c = '+' then some 1
  else if c = '-' ∨ c = '\u2212' then some (-1)
  else none

/-- Reads a distance to universal time up to the end, in seconds. -/
def readOffset : List Char → Option Int
  | [] => none
  | c :: rest =>
    if c = 'Z' ∨ c = 'z' then if rest.isEmpty then some 0 else none
    else do
      let sign ← direction? c
      let (hours, rest) ← readFixed 2 rest
      let rest ← expect (· == ':') rest
      let (minutes, rest) ← readFixed 2 rest
      if rest.isEmpty ∧ hours < 24 ∧ minutes < 60 then
        some (sign * (hours * 3600 + minutes * 60))
      else none

/-- The moment of a date and a time that the calendar and the day have. -/
def ofValid (date : Date) (time : TimeOfDay) (offset : Int) : Option Instant :=
  if date.Valid ∧ time.Valid then some (ofParts date time offset) else none

/-- Reads a moment in the form with a distance to universal time. -/
def readOffsetForm (text : List Char) : Option Instant := do
  let (year, text) ← readFixed 4 text
  let text ← expect (· == '-') text
  let (month, text) ← readFixed 2 text
  let text ← expect (· == '-') text
  let (day, text) ← readFixed 2 text
  let text ← expect isSeparator text
  let (hour, text) ← readFixed 2 text
  let text ← expect (· == ':') text
  let (minute, text) ← readFixed 2 text
  let text ← expect (· == ':') text
  let (second, text) ← readFixed 2 text
  let (nanos, text) ← readFraction text
  let offset ← readOffset text
  ofValid ⟨year, month, day⟩ ⟨hour, minute, second, nanos⟩ offset

/-- Reads at least one and at most `n` digits. -/
def readDigits (n : Nat) (text : List Char) : Option (Nat × List Char) :=
  let digits := (text.take n).takeWhile Numeral.isDecimal
  if digits.isEmpty then none else some (number digits, text.drop digits.length)

/-- Reads at least one and at most `n` digits, behind any blanks. -/
def readUpTo (n : Nat) (text : List Char) : Option (Nat × List Char) :=
  readDigits n (text.dropWhile Blank.isBlank)

/-- Reads a year behind any blanks: a sign and any number of digits, or up to four digits. -/
def readYear (text : List Char) : Option (Int × List Char) :=
  match text.dropWhile Blank.isBlank with
  | '-' :: text => (readDigits text.length text).map fun (year, text) => (-year, text)
  | '+' :: text => (readDigits text.length text).map fun (year, text) => (year, text)
  | text => (readDigits 4 text).map fun (year, text) => (year, text)

/-- The years that the form without a distance may name. -/
def isRepresentable (year : Int) : Prop :=
  -262143 ≤ year ∧ year ≤ 262142

instance (year : Int) : Decidable (isRepresentable year) :=
  inferInstanceAs (Decidable (_ ∧ _))

/-- Reads a moment in the form without a distance to universal time. -/
def readLocalForm (text : List Char) : Option Instant := do
  let (year, text) ← readYear text
  let text ← expect (· == '-') text
  let (month, text) ← readUpTo 2 text
  let text ← expect (· == '-') text
  let (day, text) ← readUpTo 2 text
  let text ← expect (· == 'T') text
  let (hour, text) ← readUpTo 2 text
  let text ← expect (· == ':') text
  let (minute, text) ← readUpTo 2 text
  let text ← expect (· == ':') text
  let (second, text) ← readUpTo 2 text
  let (nanos, text) ← readFraction text
  if text.isEmpty ∧ isRepresentable year then
    ofValid ⟨year, month, day⟩ ⟨hour, minute, second, nanos⟩ 0
  else none

/-- The moment that a text names. -/
def parse (text : String) : Option Instant :=
  let text := Blank.trim text.toList
  readOffsetForm text <|> readLocalForm text

end Accession.Instant

import Mathlib.Algebra.Order.Ring.Nat
import Mathlib.Data.List.Induction
import Mathlib.Data.List.TakeWhile
import Mathlib.Tactic.Ring
import Accession.Instant.Reader
set_option autoImplicit false

/-!
# Numbers in fields

What a field of a date and time writes, and what the readers of fields take. Each reader takes the
digits in front of a text and leaves the rest, so a field is read whatever comes behind it, and what
was read shows how the text begins.

## Main definitions

* `Instant.IsDigits` — a text is made of decimal digits.
* `Instant.fractionNanos` — the nanoseconds of the digits of a fraction.
* `Instant.Fraction`, `Instant.Field` — a fraction of a second, and a number behind blanks.
* `Instant.NoDigitFirst` — a text goes on with something else than a digit.

## Main results

* `Instant.padded_spec` — leading zeros give a number its width, and it is the number they write.
* `Instant.number_take_nine` — the first nine digits of a fraction are its nanoseconds.
* `Instant.readFixed_two_eq_some_iff`, `Instant.readUpTo_two_eq_some_iff`,
  `Instant.readFraction_eq_some_iff` — what the readers take.
-/

namespace Accession.Instant

/-! ### The number of some digits -/

/-- A text is made of decimal digits. -/
def IsDigits (text : List Char) : Prop :=
  ∀ c ∈ text, Numeral.isDecimal c

instance (text : List Char) : Decidable (IsDigits text) :=
  List.decidableBAll (fun c => Numeral.isDecimal c = true) text

/-- Digits are joined from digits. -/
theorem isDigits_append {a b : List Char} : IsDigits (a ++ b) ↔ IsDigits a ∧ IsDigits b := by
  simp only [IsDigits, List.mem_append, or_imp, forall_and]

/-- A number is read from left to right: the digits behind move those in front up. -/
theorem number_append (a b : List Char) :
    number (a ++ b) = number a * 10 ^ b.length + number b := by
  have hfold (b : List Char) (n : Nat) :
      b.foldl (fun n c => n * 10 + (c.toNat - 48)) n = n * 10 ^ b.length + number b := by
    induction b generalizing n with
    | nil => exact (Nat.mul_one n).symm
    | cons c b ih =>
      rw [number, List.foldl_cons, List.foldl_cons, ih, ih, List.length_cons]
      ring
  rw [number, List.foldl_append, hfold]
  rfl

/-- Zeros stand for zero, however many they are. -/
theorem number_zeros (n : Nat) : number (List.replicate n '0') = 0 := by
  induction n with
  | zero => rfl
  | succ n ih =>
    rw [List.replicate_succ', number_append, ih]
    rfl

/-- A number is less than the power of ten that its digits have. -/
theorem number_lt {text : List Char} (h : IsDigits text) : number text < 10 ^ text.length := by
  induction text using List.reverseRecOn with
  | nil => exact Nat.one_pos
  | append_singleton text c ih =>
    obtain ⟨htext, hc⟩ := isDigits_append.1 h
    have hlast : number [c] < 10 := by
      have hdecimal := hc c (List.mem_singleton_self c)
      simp only [Numeral.isDecimal, Bool.and_eq_true, decide_eq_true_eq] at hdecimal
      simp only [number, List.foldl_cons, List.foldl_nil]
      omega
    have hinit := ih htext
    rw [number_append, List.length_append, pow_add]
    simp only [List.length_singleton, pow_one]
    omega

/-! ### Written numbers -/

/-- The character of a digit is a digit. -/
theorem isDecimal_digitChar {d : Nat} (h : d < 10) : Numeral.isDecimal (Numeral.digitChar d) := by
  revert d
  decide

/-- The character of a digit is read as that digit. -/
theorem number_digitChar {d : Nat} (h : d < 10) : number [Numeral.digitChar d] = d := by
  revert d
  decide

/-- The digits of a number are put down from the last one to the first. -/
theorem digitsOnto_eq (n : Nat) (after : List Char) :
    Numeral.digitsOnto 10 n after =
      if n < 10 then Numeral.digitChar n :: after
      else Numeral.digitsOnto 10 (n / 10) (Numeral.digitChar (n % 10) :: after) := by
  rw [Numeral.digitsOnto]
  split_ifs <;> first | rfl | omega

/-- What stands behind the digits is left alone. -/
theorem digitsOnto_append (n : Nat) (before after : List Char) :
    Numeral.digitsOnto 10 n (before ++ after) = Numeral.digitsOnto 10 n before ++ after := by
  induction n using Nat.strong_induction_on generalizing before with
  | _ n ih =>
    rw [digitsOnto_eq, digitsOnto_eq n before]
    split_ifs with hn
    · rfl
    · exact ih _ (Nat.div_lt_self (by omega) (by decide)) (_ :: before)

/-- The last digit of a number stands behind the digits of its tenth. -/
theorem digits_eq (n : Nat) :
    Numeral.digits 10 n =
      if n < 10 then [Numeral.digitChar n]
      else Numeral.digits 10 (n / 10) ++ [Numeral.digitChar (n % 10)] := by
  rw [Numeral.digits, digitsOnto_eq, Numeral.digits, ← digitsOnto_append, List.nil_append]

/-- In one place a digit stands as it is. -/
theorem padded_one {n : Nat} (h : n < 10) : Numeral.padded 1 n = [Numeral.digitChar n] := by
  rw [Numeral.padded, digits_eq, if_pos h]
  rfl

/-- The last digit of a padded number stands behind its padded tenth. -/
theorem padded_succ {width : Nat} (h : 0 < width) (n : Nat) :
    Numeral.padded (width + 1) n =
      Numeral.padded width (n / 10) ++ [Numeral.digitChar (n % 10)] := by
  rw [Numeral.padded, Numeral.padded, digits_eq n]
  split_ifs with hn
  · obtain ⟨width, rfl⟩ := Nat.exists_eq_succ_of_ne_zero h.ne'
    rw [Nat.div_eq_of_lt hn, Nat.mod_eq_of_lt hn, digits_eq 0, if_pos (by decide)]
    show List.replicate (width + 1) '0' ++ _ = (List.replicate width '0' ++ ['0']) ++ _
    rw [List.replicate_succ']
  · rw [List.length_append, List.length_singleton, Nat.add_sub_add_right, List.append_assoc]

/-- Leading zeros give a number its width.

**Proof sketch.** A wider number is the number of the tens with one digit behind it, so the
induction is on the width. -/
theorem padded_spec {width : Nat} (h : 0 < width) {n : Nat} (hn : n < 10 ^ width) :
    (Numeral.padded width n).length = width ∧ IsDigits (Numeral.padded width n) ∧
      number (Numeral.padded width n) = n := by
  induction width, h using Nat.le_induction generalizing n with
  | base =>
    rw [padded_one hn]
    exact ⟨rfl, List.forall_mem_singleton.2 (isDecimal_digitChar hn), number_digitChar hn⟩
  | succ width h ih =>
    have hlast : n % 10 < 10 := Nat.mod_lt _ (by decide)
    obtain ⟨hlength, hdigits, hnumber⟩ := ih (n := n / 10) (by rw [pow_succ] at hn; omega)
    rw [padded_succ h]
    refine ⟨by rw [List.length_append, hlength]; rfl,
      isDigits_append.2 ⟨hdigits, List.forall_mem_singleton.2 (isDecimal_digitChar hlast)⟩, ?_⟩
    rw [number_append, hnumber, number_digitChar hlast]
    exact Nat.div_add_mod' n 10

/-! ### Fractions -/

/-- The nanoseconds of the digits of a fraction; what is less than a nanosecond does not count. -/
def fractionNanos (digits : List Char) : Nat :=
  number digits * nanosPerSecond / 10 ^ digits.length

/-- **The first nine digits of a fraction are its nanoseconds.**

**Proof sketch.** With nine zeros behind them the digits write a number of that many nanoseconds and
smaller parts; cutting off all digits but nine divides it by the parts. -/
theorem number_take_nine {digits : List Char} (h : IsDigits digits) :
    number ((digits ++ List.replicate 9 '0').take 9) = fractionNanos digits := by
  have hzeros : IsDigits (List.replicate 9 '0') := by
    intro c hc
    rw [List.eq_of_mem_replicate hc]
    decide
  have hall : IsDigits (digits ++ List.replicate 9 '0') := isDigits_append.2 ⟨h, hzeros⟩
  have hcut := number_append ((digits ++ List.replicate 9 '0').take 9)
    ((digits ++ List.replicate 9 '0').drop 9)
  have hrest := number_lt (isDigits_append.1
    ((List.take_append_drop 9 (digits ++ List.replicate 9 '0')).symm ▸ hall)).2
  have hlength : ((digits ++ List.replicate 9 '0').drop 9).length = digits.length := by
    rw [List.length_drop, List.length_append, List.length_replicate, Nat.add_sub_cancel]
  rw [List.take_append_drop, number_append, number_zeros, List.length_replicate, hlength,
    Nat.add_zero, Nat.add_comm] at hcut
  rw [hlength] at hrest
  rw [fractionNanos, show nanosPerSecond = 10 ^ 9 from rfl, hcut,
    Nat.add_mul_div_right _ _ (Nat.pow_pos (by decide)), Nat.div_eq_of_lt hrest, Nat.zero_add]

/-- A fraction of a second: the digits behind its point, if it has one. -/
abbrev Fraction :=
  Option (List Char)

namespace Fraction

/-- The characters of a fraction. -/
def chars : Fraction → List Char
  | none => []
  | some digits => '.' :: digits

/-- The nanoseconds of a fraction. -/
def nanos : Fraction → Nat
  | none => 0
  | some digits => fractionNanos digits

/-- There are digits behind the point. -/
def WellFormed : Fraction → Prop
  | none => True
  | some digits => IsDigits digits ∧ digits ≠ []

instance : (fraction : Fraction) → Decidable fraction.WellFormed
  | none => inferInstanceAs (Decidable True)
  | some digits => inferInstanceAs (Decidable (IsDigits digits ∧ digits ≠ []))

end Fraction

/-! ### The readers -/

variable {text rest : List Char} {n v : Nat}

/-- The check whether all characters are digits is what it says. -/
theorem all_isDecimal_iff : text.all Numeral.isDecimal ↔ IsDigits text :=
  List.all_eq_true

/-- Digits of the right number are read, and what follows is left. -/
theorem readFixed_append {digits : List Char} (h : IsDigits digits) (rest : List Char) :
    readFixed digits.length (digits ++ rest) = some (number digits, rest) := by
  rw [readFixed, List.take_left, List.drop_left]
  exact if_pos ⟨rfl, all_isDecimal_iff.2 h⟩

/-- Reading so many digits means to find them at the front. -/
theorem readFixed_eq_some_iff :
    readFixed n text = some (v, rest) ↔
      ∃ digits, IsDigits digits ∧ digits.length = n ∧ number digits = v ∧
        text = digits ++ rest := by
  constructor
  · intro h
    simp only [readFixed, Option.ite_none_right_eq_some, Option.some.injEq, Prod.mk.injEq] at h
    obtain ⟨⟨hlength, hdigits⟩, hnumber, hrest⟩ := h
    exact ⟨text.take n, all_isDecimal_iff.1 hdigits, hlength, hnumber, by
      rw [← hrest, List.take_append_drop]⟩
  · rintro ⟨digits, hdigits, rfl, rfl, rfl⟩
    exact readFixed_append hdigits rest

/-- An expected character is found exactly at the front. -/
theorem expect_eq_some_iff {p : Char → Bool} :
    expect p text = some rest ↔ ∃ c, p c ∧ text = c :: rest := by
  cases text with
  | nil => simp [expect]
  | cons c text =>
    rw [expect]
    split <;> simp_all

/-- A text goes on with something else than a digit, or it ends. -/
def NoDigitFirst (text : List Char) : Prop :=
  ∀ c ∈ text.head?, ¬Numeral.isDecimal c

/-- A fraction does not go on into a text. -/
def Fraction.EndsAt (text : List Char) : Fraction → Prop
  | none => text.head? ≠ some '.'
  | some _ => NoDigitFirst text

/-- The digits at the front end where something else follows. -/
theorem takeWhile_isDecimal_append {digits : List Char} (h : IsDigits digits)
    (hrest : NoDigitFirst rest) : (digits ++ rest).takeWhile Numeral.isDecimal = digits := by
  rw [List.takeWhile_append_of_pos h]
  cases rest with
  | nil => rw [List.takeWhile_nil, List.append_nil]
  | cons c rest => rw [List.takeWhile_cons_of_neg (hrest c rfl), List.append_nil]

/-- Behind the digits at the front stands what is left without them. -/
theorem drop_length_takeWhile (text : List Char) :
    text.drop (text.takeWhile Numeral.isDecimal).length = text.dropWhile Numeral.isDecimal := by
  have hcut := congrArg (List.drop (text.takeWhile Numeral.isDecimal).length)
    (List.takeWhile_append_dropWhile (p := Numeral.isDecimal) (l := text)).symm
  rwa [List.drop_left] at hcut

/-- What is left without the digits at the front does not begin with one. -/
theorem noDigitFirst_dropWhile (text : List Char) :
    NoDigitFirst (text.dropWhile Numeral.isDecimal) := by
  intro c hc hdecimal
  have hnot := List.head?_dropWhile_not Numeral.isDecimal text
  rw [Option.mem_def.1 hc] at hnot
  simp [hdecimal] at hnot

/-- The digits at the front are digits. -/
theorem isDigits_takeWhile (text : List Char) : IsDigits (text.takeWhile Numeral.isDecimal) :=
  fun _ => List.mem_takeWhile_imp

/-- What is read as a fraction behind its point. -/
theorem readDigitsAsNanos_eq_some_iff :
    readDigitsAsNanos text = some (v, rest) ↔
      ∃ digits, IsDigits digits ∧ digits ≠ [] ∧ NoDigitFirst rest ∧ fractionNanos digits = v ∧
        text = digits ++ rest := by
  constructor
  · intro h
    simp only [readDigitsAsNanos, Option.ite_none_left_eq_some, Option.some.injEq,
      Prod.mk.injEq] at h
    obtain ⟨hne, hnumber, hrest⟩ := h
    refine ⟨text.takeWhile Numeral.isDecimal, isDigits_takeWhile text, ?_, ?_, ?_, ?_⟩
    · exact fun hnil => hne (by rw [hnil]; rfl)
    · rw [← hrest, drop_length_takeWhile]
      exact noDigitFirst_dropWhile text
    · rw [← number_take_nine (isDigits_takeWhile text), hnumber]
    · rw [← hrest, drop_length_takeWhile, List.takeWhile_append_dropWhile]
  · rintro ⟨digits, hdigits, hne, hrest, rfl, rfl⟩
    rw [readDigitsAsNanos, takeWhile_isDecimal_append hdigits hrest, List.drop_left,
      number_take_nine hdigits]
    exact if_neg (by simpa using hne)

/-- What is read as a fraction, if a point announces one. -/
theorem readFraction_eq_some_iff :
    readFraction text = some (v, rest) ↔
      ∃ fraction : Fraction, fraction.WellFormed ∧ fraction.EndsAt rest ∧ fraction.nanos = v ∧
        text = fraction.chars ++ rest := by
  unfold readFraction
  split
  · rw [readDigitsAsNanos_eq_some_iff]
    constructor
    · rintro ⟨digits, hdigits, hne, hrest, hv, rfl⟩
      exact ⟨some digits, ⟨hdigits, hne⟩, hrest, hv, rfl⟩
    · rintro ⟨- | digits, hwell, hend, hv, htext⟩
      · exact absurd (congrArg List.head? htext).symm hend
      · exact ⟨digits, hwell.1, hwell.2, hend, hv, List.tail_eq_of_cons_eq htext⟩
  · rename_i hpoint
    rw [Option.some.injEq, Prod.mk.injEq]
    constructor
    · rintro ⟨rfl, rfl⟩
      refine ⟨none, trivial, fun hdot => ?_, rfl, rfl⟩
      obtain ⟨rest, rfl⟩ := List.head?_eq_some_iff.1 hdot
      exact hpoint rest rfl
    · rintro ⟨- | digits, -, -, hv, rfl⟩
      · exact ⟨hv, rfl⟩
      · exact absurd rfl (hpoint _)

/-- What is read as a number of at most `n` digits. -/
theorem readDigits_eq_some_iff :
    readDigits n text = some (v, rest) ↔
      ∃ digits, IsDigits digits ∧ digits ≠ [] ∧ digits.length ≤ n ∧
        (digits.length = n ∨ NoDigitFirst rest) ∧ number digits = v ∧ text = digits ++ rest := by
  constructor
  · intro h
    simp only [readDigits, Option.ite_none_left_eq_some, Option.some.injEq, Prod.mk.injEq] at h
    obtain ⟨hne, hnumber, hrest⟩ := h
    have hcut : text = (text.take n).takeWhile Numeral.isDecimal ++
        ((text.take n).dropWhile Numeral.isDecimal ++ text.drop n) := by
      rw [← List.append_assoc, List.takeWhile_append_dropWhile, List.take_append_drop]
    have hrest : rest = (text.take n).dropWhile Numeral.isDecimal ++ text.drop n := by
      rw [← hrest]
      have := congrArg (List.drop ((text.take n).takeWhile Numeral.isDecimal).length) hcut
      rwa [List.drop_left] at this
    refine ⟨_, isDigits_takeWhile _, fun hnil => hne (by rw [hnil]; rfl), ?_, ?_, hnumber,
      hrest ▸ hcut⟩
    · exact (List.takeWhile_sublist _).length_le.trans (List.length_take_le n text)
    · -- the digits end at something else, or they are all that was looked at
      rcases hstop : (text.take n).dropWhile Numeral.isDecimal with - | ⟨c, stop⟩
      · have hall := List.takeWhile_append_dropWhile (p := Numeral.isDecimal) (l := text.take n)
        rw [hstop, List.append_nil] at hall
        rw [hall, hrest, hstop, List.nil_append]
        rcases Nat.le_total n text.length with hle | hle
        · exact .inl (List.length_take_of_le hle)
        · rw [List.drop_eq_nil_of_le hle]
          exact .inr fun c hc => nomatch hc
      · right
        have hnone := noDigitFirst_dropWhile (text.take n)
        rw [hrest]
        rw [hstop] at hnone ⊢
        exact hnone
  · rintro ⟨digits, hdigits, hne, hlength, hstop, rfl, rfl⟩
    have hrun : ((digits ++ rest).take n).takeWhile Numeral.isDecimal = digits := by
      rw [List.take_append, List.take_of_length_le hlength]
      refine takeWhile_isDecimal_append hdigits fun c hc => ?_
      rw [List.head?_take] at hc
      split at hc
      · exact nomatch hc
      · exact hstop.resolve_left (by omega) c hc
    rw [readDigits, hrun, List.drop_left]
    exact if_neg (by simpa using hne)

/-! ### Fields -/

/-- A number as it is written, with blanks in front of it. -/
structure Field where
  blanks : List Char
  digits : List Char

namespace Field

/-- The characters of a field. -/
def chars (f : Field) : List Char :=
  f.blanks ++ f.digits

/-- The number in a field. -/
def value (f : Field) : Nat :=
  number f.digits

/-- One or two digits behind any blanks. -/
structure Loose (f : Field) : Prop where
  blanks : ∀ c ∈ f.blanks, Blank.isBlank c
  digits : IsDigits f.digits
  ne_nil : f.digits ≠ []
  length_le : f.digits.length ≤ 2

/-- Two digits and no blanks. -/
structure Tight (f : Field) : Prop where
  blanks : f.blanks = []
  digits : IsDigits f.digits
  length : f.digits.length = 2

instance (f : Field) : Decidable f.Tight :=
  decidable_of_iff (f.blanks = [] ∧ IsDigits f.digits ∧ f.digits.length = 2)
    ⟨fun h => ⟨h.1, h.2.1, h.2.2⟩, fun h => ⟨h.blanks, h.digits, h.length⟩⟩

variable {f : Field}

/-- A field of two digits is one where blanks and a single digit are allowed as well. -/
theorem Tight.loose (h : f.Tight) : f.Loose where
  blanks := by simp [h.blanks]
  digits := h.digits
  ne_nil := List.ne_nil_of_length_eq_add_one h.length
  length_le := h.length.le

end Field

/-- No digit is blank, so a field has one reading only. -/
theorem not_isBlank_of_isDecimal {c : Char} (h : Numeral.isDecimal c) : ¬Blank.isBlank c := by
  simp only [Numeral.isDecimal, Bool.and_eq_true, decide_eq_true_eq] at h
  simp only [Blank.isBlank, Bool.or_eq_true, Bool.and_eq_true, decide_eq_true_eq, beq_iff_eq]
  omega

/-- What is read as a number of two digits. -/
theorem readFixed_two_eq_some_iff :
    readFixed 2 text = some (v, rest) ↔
      ∃ f : Field, f.Tight ∧ f.value = v ∧ text = f.chars ++ rest := by
  rw [readFixed_eq_some_iff]
  constructor
  · rintro ⟨digits, hdigits, hlength, hv, htext⟩
    exact ⟨⟨[], digits⟩, ⟨rfl, hdigits, hlength⟩, hv, htext⟩
  · rintro ⟨⟨_, digits⟩, ⟨rfl, hdigits, hlength⟩, hv, htext⟩
    exact ⟨digits, hdigits, hlength, hv, htext⟩

/-- What is read as a number of one or two digits behind any blanks. -/
theorem readUpTo_two_eq_some_iff :
    readUpTo 2 text = some (v, rest) ↔
      ∃ f : Field, f.Loose ∧ (f.digits.length = 2 ∨ NoDigitFirst rest) ∧ f.value = v ∧
        text = f.chars ++ rest := by
  rw [readUpTo, readDigits_eq_some_iff]
  constructor
  · rintro ⟨digits, hdigits, hne, hlength, hrest, hv, htext⟩
    refine ⟨⟨text.takeWhile Blank.isBlank, digits⟩, ⟨fun _ => List.mem_takeWhile_imp, hdigits, hne,
      hlength⟩, hrest, hv, ?_⟩
    rw [Field.chars, List.append_assoc, ← htext, List.takeWhile_append_dropWhile]
  · rintro ⟨⟨blanks, digits⟩, ⟨hblanks, hdigits, hne, hlength⟩, hrest, hv, rfl⟩
    refine ⟨digits, hdigits, hne, hlength, hrest, hv, ?_⟩
    rw [Field.chars, List.append_assoc, List.dropWhile_append_of_pos hblanks]
    obtain ⟨c, digits, rfl⟩ := List.exists_cons_of_ne_nil hne
    exact List.dropWhile_cons_of_neg
      (not_isBlank_of_isDecimal (hdigits c List.mem_cons_self))

end Accession.Instant

import Accession.Text.Character
import Mathlib.Data.List.Basic
set_option autoImplicit false

/-!
# Numerals and quoted texts are read back

Digits write one number, and a quoted form one text.

## Main definitions

* `Printable.StaysInLine` — the characters that end no line and are no control characters.
* `Quoted.next?` — what the beginning of a quoted form stands for.

## Main results

* `Numeral.exists_of_mem_digits` — the digits of a number are digits.
* `Numeral.value?_digits` — the digits of a number write that number.
* `Quoted.next?_escape` — the quoted form of a character stands for it.
* `Quoted.quoteChars_append_inj` — two texts with one quoted form in front are the same.
* `Quoted.staysInLine_of_mem_quoteChars` — a quoted form stays inside its line.
-/

/-! ## Written numbers read back -/

namespace Accession.Numeral

variable {base : Nat}

/-- The digits up to nine and the letters behind them have codes in a row. -/
theorem toNat_digitChar {d : Nat} (h : d < 16) :
    (digitChar d).toNat = if d < 10 then 48 + d else 87 + d := by
  revert d
  decide

/-- The character of a digit has its value. -/
theorem digitValue?_digitChar (hbase : base ≤ 16) {d : Nat} (h : d < base) :
    digitValue? base (digitChar d) = some d := by
  have hvalue := toNat_digitChar (show d < 16 by omega)
  simp only [digitValue?, hvalue, Bool.and_eq_true, decide_eq_true_eq]
  by_cases hten : d < 10
  · simp only [if_pos hten]
    rw [if_pos (show 48 ≤ 48 + d ∧ 48 + d ≤ 57 by omega), Nat.add_sub_cancel_left, if_pos h]
  · simp only [if_neg hten]
    rw [if_neg (show ¬(48 ≤ 87 + d ∧ 87 + d ≤ 57) by omega),
      if_pos (show 97 ≤ 87 + d ∧ 87 + d ≤ 102 by omega), Nat.add_sub_cancel_left, if_pos h]

/-- The number that some digits write behind the digits of `n`. -/
def valueFrom? (base n : Nat) (text : List Char) : Option Nat :=
  text.foldlM (fun n c => (digitValue? base c).map (n * base + ·)) n

/-- A digit is read behind those that have been. -/
theorem valueFrom?_digitChar (hbase : base ≤ 16) {d : Nat} (h : d < base) (n : Nat)
    (text : List Char) :
    valueFrom? base n (digitChar d :: text) = valueFrom? base (n * base + d) text := by
  rw [valueFrom?, List.foldlM_cons, digitValue?_digitChar hbase h]
  rfl

/-- Digits in front of others make up the number that the others are written behind.

**Proof sketch.** A number of one digit is that digit. Otherwise its last digit is the first one of
the others, and the rest of it is a smaller number. -/
theorem valueFrom?_digitsOnto (hbase : 2 ≤ base) (hbase' : base ≤ 16) (n : Nat)
    (after : List Char) :
    valueFrom? base 0 (digitsOnto base n after) = valueFrom? base n after := by
  fun_induction digitsOnto base n after with
  | case1 n after hshort =>
    rw [valueFrom?_digitChar hbase' (by omega), Nat.zero_mul, Nat.zero_add]
  | case2 n after hlong ih =>
    rw [ih, valueFrom?_digitChar hbase' (Nat.mod_lt _ (by omega)), Nat.mul_comm, Nat.div_add_mod]

/-- **The digits of a number write that number.** -/
theorem value?_digits (hbase : 2 ≤ base) (hbase' : base ≤ 16) (n : Nat) :
    value? base (digits base n) = some n :=
  valueFrom?_digitsOnto hbase hbase' n []

/-- What is put in front of a text is digits. -/
theorem exists_of_mem_digitsOnto (hbase : 2 ≤ base) {n : Nat} {after : List Char} {c : Char}
    (h : c ∈ digitsOnto base n after) : (∃ d < base, c = digitChar d) ∨ c ∈ after := by
  fun_induction digitsOnto base n after with
  | case1 n after hshort => exact (List.mem_cons.1 h).imp_left fun heq => ⟨n, by omega, heq⟩
  | case2 n after hlong ih =>
    rcases ih h with hdigit | h
    · exact .inl hdigit
    · exact (List.mem_cons.1 h).imp_left fun heq => ⟨_, Nat.mod_lt _ (by omega), heq⟩

/-- The digits of a number are characters of digits. -/
theorem exists_of_mem_digits (hbase : 2 ≤ base) {n : Nat} {c : Char}
    (h : c ∈ digits base n) : ∃ d < base, c = digitChar d :=
  (exists_of_mem_digitsOnto hbase h).resolve_right nofun

end Accession.Numeral

/-! ## Quoted texts are unambiguous

A quoted text can be read back, whatever it holds and whatever follows it: no escape is the
beginning of another one, and the closing quote is the only one without a backslash. All of it stays
inside its line. -/

namespace Accession

/-! ### Characters inside a line -/

namespace Printable

/-- A character that is no control character, and no line or paragraph separator. -/
def StaysInLine (c : Char) : Prop :=
  0x20 ≤ c.toNat ∧ ¬(0x7F ≤ c.toNat ∧ c.toNat ≤ 0x9F) ∧ c.toNat ≠ 0x2028 ∧ c.toNat ≠ 0x2029

instance : DecidablePred StaysInLine := fun _ =>
  inferInstanceAs (Decidable (_ ∧ _))

/-- A printable character stays in its line. -/
theorem staysInLine_of_printable {c : Char} (h : isUnprintable c = false) : StaysInLine c := by
  have hseparator : ∀ code ∈ [0x2028, 0x2029], c.toNat ≠ code := by
    rintro code hcode heq
    have htable : ∀ code ∈ [0x2028, 0x2029], inRanges unprintableRanges code = true := by
      decide +kernel
    rw [isUnprintable, heq, htable code hcode] at h
    simp only [List.mem_cons, List.not_mem_nil, or_false] at hcode
    rcases hcode with rfl | rfl <;> cases h
  obtain ⟨hlow, hcontrol⟩ := not_control_of_printable c h
  exact ⟨hlow, hcontrol, hseparator _ (by simp), hseparator _ (by simp)⟩

end Printable

open Printable (StaysInLine)

namespace Quoted

/-! ### Hexadecimal escapes -/

/-- No digit is the brace that ends a code. -/
theorem ne_brace_of_mem_digits {n : Nat} {d : Char} (h : d ∈ Numeral.digits 16 n) :
    (d != '\x7d') = true := by
  have hdigit : ∀ m < 16, (Numeral.digitChar m != '\x7d') = true := by decide
  obtain ⟨m, hm, rfl⟩ := Numeral.exists_of_mem_digits (by decide) h
  exact hdigit m hm

/-! ### Reading back -/

/-- The character that the beginning of a quoted form stands for, and what follows. -/
def next? : List Char → Option (Char × List Char)
  | '\\' :: 'u' :: '\x7b' :: rest => do
    let code ← Numeral.value? 16 (rest.takeWhile (· != '\x7d'))
    return (Char.ofNat code, (rest.dropWhile (· != '\x7d')).tail)
  | '\\' :: '0' :: rest => some ('\x00', rest)
  | '\\' :: 't' :: rest => some ('\t', rest)
  | '\\' :: 'n' :: rest => some ('\n', rest)
  | '\\' :: 'r' :: rest => some ('\r', rest)
  | '\\' :: c :: rest => some (c, rest)
  | c :: rest => some (c, rest)
  | [] => none

/-- The code of a character stands for it. -/
theorem next?_escapeCode (c : Char) (rest : List Char) :
    next? (escapeCode c ++ rest) = some (c, rest) := by
  have htake : (Numeral.digits 16 c.toNat ++ '\x7d' :: rest).takeWhile (· != '\x7d') =
      Numeral.digits 16 c.toNat := by
    rw [List.takeWhile_append_of_pos fun d hd => ne_brace_of_mem_digits hd,
      List.takeWhile_cons_of_neg (by decide), List.append_nil]
  have hdrop : (Numeral.digits 16 c.toNat ++ '\x7d' :: rest).dropWhile (· != '\x7d') =
      '\x7d' :: rest := by
    rw [List.dropWhile_append_of_pos fun d hd => ne_brace_of_mem_digits hd,
      List.dropWhile_cons_of_neg (by decide)]
  have hcode : Numeral.value? 16 (Numeral.digits 16 c.toNat) = some c.toNat :=
    Numeral.value?_digits (by decide) (by decide) _
  simp only [escapeCode, List.append_assoc, List.cons_append, List.nil_append, next?, htake, hdrop,
    hcode]
  simp [Char.ofNat_toNat]

/-- **The quoted form of a character stands for it**, whatever follows. -/
theorem next?_escape (c : Char) (rest : List Char) :
    next? (escape c ++ rest) = some (c, rest) := by
  unfold escape
  split_ifs with hnul htab hbreak hreturn hquote hbackslash hcode
  · subst hnul; rfl
  · subst htab; rfl
  · subst hbreak; rfl
  · subst hreturn; rfl
  · subst hquote; rfl
  · subst hbackslash; rfl
  · exact next?_escapeCode c rest
  · rw [List.singleton_append]
    simp [next?, hbackslash]

/-- No escape is the beginning of another one. -/
theorem escape_append_inj {c d : Char} {rest rest' : List Char}
    (h : escape c ++ rest = escape d ++ rest') : c = d ∧ rest = rest' := by
  have hnext := congrArg next? h
  rw [next?_escape, next?_escape] at hnext
  exact Prod.mk.inj (Option.some.inj hnext)

/-- A quote inside a quoted form has a backslash before it. -/
theorem escape_append_ne (c : Char) (rest rest' : List Char) :
    escape c ++ rest ≠ '"' :: rest' := by
  intro h
  have hquote : next? ('"' :: rest') = some ('"', rest') := rfl
  rw [← h, next?_escape] at hquote
  obtain ⟨rfl, rfl⟩ := Prod.mk.inj (Option.some.inj hquote)
  have hlength := congrArg List.length h
  have htwo : (escape '"').length = 2 := rfl
  rw [List.length_append, List.length_cons, htwo] at hlength
  omega

/-- Escaped texts end at the closing quote, and can be told apart. -/
theorem flatMap_escape_append_inj {text text' rest rest' : List Char}
    (h : text.flatMap escape ++ '"' :: rest = text'.flatMap escape ++ '"' :: rest') :
    text = text' ∧ rest = rest' := by
  induction text generalizing text' with
  | nil =>
    cases text' with
    | nil => exact ⟨rfl, (List.cons.inj h).2⟩
    | cons d text' =>
      rw [List.flatMap_cons, List.append_assoc] at h
      exact absurd h.symm (escape_append_ne d _ _)
  | cons c text ih =>
    cases text' with
    | nil =>
      rw [List.flatMap_cons, List.append_assoc] at h
      exact absurd h (escape_append_ne c _ _)
    | cons d text' =>
      rw [List.flatMap_cons, List.flatMap_cons, List.append_assoc, List.append_assoc] at h
      obtain ⟨rfl, hrest⟩ := escape_append_inj h
      obtain ⟨rfl, rfl⟩ := ih hrest
      exact ⟨rfl, rfl⟩

/-- **Two texts with one quoted form in front of a line are the same**, and so is what follows. -/
theorem quoteChars_append_inj {text text' rest rest' : List Char} :
    quoteChars text ++ rest = quoteChars text' ++ rest' ↔ text = text' ∧ rest = rest' := by
  constructor
  · intro h
    simp only [quoteChars, List.cons_append, List.append_assoc, List.cons.injEq,
      true_and] at h
    exact flatMap_escape_append_inj h
  · rintro ⟨rfl, rfl⟩
    rfl

/-! ### Staying inside the line -/

/-- A code is written with characters that stay in their line. -/
theorem staysInLine_of_mem_escapeCode {c d : Char} (h : d ∈ escapeCode c) : StaysInLine d := by
  have hmarks : ∀ d ∈ ['\\', 'u', '\x7b', '\x7d'], StaysInLine d := by
    simp [StaysInLine]
  have hdigits : ∀ n < 16, StaysInLine (Numeral.digitChar n) := by decide
  rw [escapeCode, List.mem_append, List.mem_append] at h
  rcases h with (hfront | hdigit) | hback
  · exact hmarks d (List.mem_append_left ['\x7d'] hfront)
  · obtain ⟨n, hn, rfl⟩ := Numeral.exists_of_mem_digits (by decide) hdigit
    exact hdigits n hn
  · exact hmarks d (List.mem_append_right ['\\', 'u', '\x7b'] hback)

/-- Whatever a character is, its escaped form stays in its line. -/
theorem staysInLine_of_mem_escape {c d : Char} (h : d ∈ escape c) : StaysInLine d := by
  unfold escape at h
  split_ifs at h with hnul htab hbreak hreturn hquote hbackslash hcode
  -- The short escapes consist of a backslash and one more character.
  iterate 6
    · rcases List.mem_pair.1 h with rfl | rfl <;> decide
  · exact staysInLine_of_mem_escapeCode h
  · rw [Bool.or_eq_true, not_or, Bool.not_eq_true] at hcode
    rw [List.mem_singleton.1 h]
    exact Printable.staysInLine_of_printable hcode.1

/-- **A quoted form stays inside its line.** -/
theorem staysInLine_of_mem_quoteChars {text : List Char} {d : Char} (h : d ∈ quoteChars text) :
    StaysInLine d := by
  rw [quoteChars, List.mem_append, List.mem_cons, List.mem_flatMap] at h
  rcases h with (rfl | ⟨c, -, hc⟩) | h
  · decide
  · exact staysInLine_of_mem_escape hc
  · rw [List.mem_singleton.1 h]
    decide

end Quoted

end Accession

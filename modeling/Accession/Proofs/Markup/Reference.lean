import Accession.Markup.Attribute
import Accession.Proofs.Text.Utf8
set_option autoImplicit false

/-!
# Written forms of a text

Inside marked-up text a character may stand for itself, or be written as a reference: by one of
five names, or by its number in decimal or hexadecimal digits. Many written forms thus spell one
text; resolving the references of any of them gives that text back, and escaping yields one.

## Main definitions

* `Markup.Reference` — the references to a character.
* `Markup.Spells` — the written forms of a text.

## Main results

* `Markup.resolve_eq_ok_of_spells` — resolving a written form gives the text.
* `Markup.decodeText_encode_of_spells` — the same for the octets of a written form.
* `Markup.spells_escape` — escaping gives a written form.
-/

namespace Accession.Markup

/-- What stands between the ampersand and the semicolon of a reference to a character. -/
inductive Reference : List Char → Char → Prop
  | lt : Reference ['l', 't'] '<'
  | gt : Reference ['g', 't'] '>'
  | amp : Reference ['a', 'm', 'p'] '&'
  | apos : Reference ['a', 'p', 'o', 's'] '\''
  | quot : Reference ['q', 'u', 'o', 't'] '"'
  | decimal {digits : List Char} {c : Char} (hdigits : digits ≠ []) (hc : c ≠ '\x00')
      (h : Numeral.value? 10 digits = some c.toNat) : Reference ('#' :: digits) c
  | hexadecimal {digits : List Char} {c : Char} (hdigits : digits ≠ []) (hc : c ≠ '\x00')
      (h : Numeral.value? 16 digits = some c.toNat) : Reference ('#' :: 'x' :: digits) c

/-- `Spells written text`: the text is written with any of its characters as references, and all
ampersands. -/
inductive Spells : List Char → List Char → Prop
  | nil : Spells [] []
  | plain {c : Char} {written text : List Char} (hc : c ≠ '&') (h : Spells written text) :
      Spells (c :: written) (c :: text)
  | reference {name : List Char} {c : Char} {written text : List Char} (hname : Reference name c)
      (h : Spells written text) : Spells ('&' :: (name ++ ';' :: written)) (c :: text)

/-! ### Numbers -/

/-- The characters that stand around digits, or that mark a text up. -/
def marks : List Char :=
  ['&', ';', '+', '-', 'x', '<', '>', '\'', '"']

/-- A digit is a letter or a decimal digit. -/
theorem ne_of_digitValue? {base d : Nat} {c : Char} (h : Numeral.digitValue? base c = some d)
    {e : Char} (he : e ∈ marks) : c ≠ e := by
  rintro rfl
  have hnone : ∀ e ∈ marks, Numeral.digitValue? base e = none := by
    simp [marks, Numeral.digitValue?]
  rw [hnone c he] at h
  cases h

/-- The number of some digits after others is at least that of the others. -/
theorem le_of_foldlM_digits {base n m : Nat} {digits : List Char} (hbase : 0 < base)
    (h : digits.foldlM (fun n c => (Numeral.digitValue? base c).map (n * base + ·)) n = some m) :
    n ≤ m := by
  induction digits generalizing n with
  | nil =>
    obtain rfl : n = m := by simpa using h
    exact Nat.le_refl n
  | cons c digits ih =>
    rw [List.foldlM_cons] at h
    cases hd : Numeral.digitValue? base c with
    | none => simp [hd] at h
    | some d =>
      rw [hd] at h
      have hle := ih (show _ = some m from h)
      have hmul : n * 1 ≤ n * base := Nat.mul_le_mul_left n hbase
      simp only at hle
      omega

/-- A number of at most 32 bits is read from its digits. -/
theorem readNumber_eq_ok {base n m : Nat} {digits : List Char} (hbase : 0 < base)
    (hm : m < 0x100000000)
    (h : digits.foldlM (fun n c => (Numeral.digitValue? base c).map (n * base + ·)) n = some m) :
    readNumber base n digits = .ok m := by
  induction digits generalizing n with
  | nil =>
    obtain rfl : n = m := by simpa using h
    rfl
  | cons c digits ih =>
    rw [List.foldlM_cons] at h
    cases hd : Numeral.digitValue? base c with
    | none => simp [hd] at h
    | some d =>
      rw [hd] at h
      have hrest := show digits.foldlM _ (n * base + d) = some m from h
      have hle := le_of_foldlM_digits hbase hrest
      rw [readNumber, hd]
      dsimp only
      rw [if_pos (by omega), ih hrest]

/-- The digits of a character give its number back. -/
theorem referenceNumber_eq_ok {base : Nat} {digits : List Char} {c : Char} (hbase : 0 < base)
    (hdigits : digits ≠ []) (h : Numeral.value? base digits = some c.toNat) :
    referenceNumber base digits = .ok c.toNat := by
  have hlt : c.toNat < 0x100000000 := by
    have := c.valid
    have hval : c.val.toNat = c.toNat := rfl
    simp only [UInt32.isValidChar, Nat.isValidChar, hval] at this
    omega
  cases digits with
  | nil => exact absurd rfl hdigits
  | cons d digits =>
    have hd : ∃ v, Numeral.digitValue? base d = some v := by
      cases hv : Numeral.digitValue? base d with
      | none => simp [Numeral.value?, List.foldlM_cons, hv] at h
      | some v => exact ⟨v, rfl⟩
    obtain ⟨v, hv⟩ := hd
    have hsign : ¬(d = '+' ∨ d = '-') := by
      rintro (hp | hp)
      · exact ne_of_digitValue? hv (by simp [marks]) hp
      · exact ne_of_digitValue? hv (by simp [marks]) hp
    rw [referenceNumber, if_neg hsign]
    exact readNumber_eq_ok hbase hlt h

/-! ### References -/

/-- None of the marks stands among digits. -/
theorem not_mem_digits {base n m : Nat} {digits : List Char} {e : Char} (he : e ∈ marks)
    (h : digits.foldlM (fun n c => (Numeral.digitValue? base c).map (n * base + ·)) n = some m) :
    e ∉ digits := by
  induction digits generalizing n with
  | nil => exact List.not_mem_nil
  | cons c digits ih =>
    rw [List.foldlM_cons] at h
    cases hd : Numeral.digitValue? base c with
    | none => simp [hd] at h
    | some d =>
      rw [hd] at h
      rw [List.mem_cons, not_or]
      exact ⟨(ne_of_digitValue? hd he).symm, ih (show _ = some m from h)⟩

/-- A reference holds none of the characters that end it, or that mark a text up. -/
theorem Reference.not_mem {name : List Char} {c e : Char} (h : Reference name c)
    (he : e ∈ ['&', ';', '<', '>', '\'', '"']) : e ∉ name := by
  have hmark : e ∈ marks := by
    revert e
    decide
  have hnumber : e ≠ '#' ∧ e ≠ 'x' := by
    revert e
    decide
  cases h with
  | lt => revert e; decide
  | gt => revert e; decide
  | amp => revert e; decide
  | apos => revert e; decide
  | quot => revert e; decide
  | decimal hdigits hc h => simp [hnumber, not_mem_digits hmark h]
  | hexadecimal hdigits hc h => simp [hnumber, not_mem_digits hmark h]

/-- A code point that is not zero gives its character. -/
theorem toNat_ne_zero {c : Char} (h : c ≠ '\x00') : c.toNat ≠ 0 :=
  fun hc => h (Char.toNat_inj.1 hc)

/-- A reference refers to its character. -/
theorem referent_eq_ok {name : List Char} {c : Char} (h : Reference name c) (first : Nat) :
    referent first name = .ok c := by
  cases h with
  | lt => rfl
  | gt => rfl
  | amp => rfl
  | apos => rfl
  | quot => rfl
  | @decimal digits c hdigits hc h =>
    have hx : ∀ rest, digits ≠ 'x' :: rest := by
      rintro rest rfl
      exact not_mem_digits (e := 'x') (by simp [marks]) h (by simp)
    have hnumbered : numbered digits = .ok c := by
      unfold numbered
      split
      · exact absurd rfl (hx _)
      · rw [referenceNumber_eq_ok (by omega) hdigits h]
        have hvalid : c.toNat.isValidChar := c.valid
        simp [bind, Except.bind, toNat_ne_zero hc, hvalid]
    rw [referent, hnumbered]
    rfl
  | @hexadecimal digits c hdigits hc h =>
    have hnumbered : numbered ('x' :: digits) = .ok c := by
      have hnumber : referenceNumber 16 digits = .ok c.toNat :=
        referenceNumber_eq_ok (by omega) hdigits h
      have hvalid : c.toNat.isValidChar := c.valid
      simp [numbered, hnumber, bind, Except.bind, toNat_ne_zero hc, hvalid]
    rw [referent, hnumbered]
    rfl

/-! ### Resolving -/

/-- Resolving goes through a written form and collects the text. -/
theorem resolveFrom_eq_ok {written text : List Char} (h : Spells written text) (total : Nat)
    (done : List Char) (position : Nat) :
    resolveFrom total done position written = .ok (done.reverse ++ text) := by
  induction h generalizing done position with
  | nil => simp [resolveFrom]
  | plain hc _ ih =>
    rw [resolveFrom, if_neg hc, ih]
    simp
  | @reference name c written text hname _ ih =>
    have hno : ∀ d ∈ name, (d != '&' && d != ';') = true := by
      intro d hd
      have hamp : '&' ∉ name := hname.not_mem (by simp)
      have hsemi : ';' ∉ name := hname.not_mem (by simp)
      simp only [Bool.and_eq_true, bne_iff_ne]
      exact ⟨fun e => hamp (e ▸ hd), fun e => hsemi (e ▸ hd)⟩
    have htake : (name ++ ';' :: written).takeWhile (fun d => d != '&' && d != ';') = name := by
      rw [List.takeWhile_append_of_pos hno]
      simp
    have hdrop : (name ++ ';' :: written).dropWhile (fun d => d != '&' && d != ';') =
        ';' :: written := by
      rw [List.dropWhile_append_of_pos hno]
      simp
    rw [resolveFrom, if_pos rfl]
    split
    · rename_i after heq
      rw [hdrop] at heq
      obtain rfl : written = after := (List.cons.inj heq).2
      rw [htake]
      dsimp only
      rw [referent_eq_ok hname]
      dsimp only
      rw [ih]
      simp
    · rename_i hne
      exact absurd hdrop (hne _)

/-- Resolving a written form gives the text. -/
theorem resolve_eq_ok_of_spells {written text : List Char} (h : Spells written text) :
    resolve written = .ok text :=
  resolveFrom_eq_ok h _ [] 0

/-- The octets of a written form stand for the text. -/
theorem decodeText_encode_of_spells {written text : List Char} (h : Spells written text) :
    decodeText (Utf8.encode written) = .ok (String.ofList text) := by
  have hdecode : (Utf8.decode (Utf8.encode written)).mapError Error.encoding = .ok written := by
    rw [Utf8.decode_encode]
    rfl
  have hresolve : (resolve written).mapError Error.entity = .ok text := by
    rw [resolve_eq_ok_of_spells h]
    rfl
  simp only [decodeText, hdecode, hresolve, bind, Except.bind, pure, Except.pure]

/-! ### Escaping -/

/-- A text without ampersands is a written form of itself. -/
theorem spells_self {text : List Char} (h : '&' ∉ text) : Spells text text := by
  induction text with
  | nil => exact .nil
  | cons c text ih =>
    rw [List.mem_cons, not_or] at h
    exact .plain (Ne.symm h.1) (ih h.2)

/-- The name of a character refers to it. -/
theorem reference_entityName? {c : Char} {name : String} (h : entityName? c = some name) :
    Reference name.toList c := by
  unfold entityName? at h
  repeat' split at h
  all_goals cases h
  · subst c; exact .lt
  · subst c; exact .gt
  · subst c; exact .amp
  · subst c; exact .apos
  · subst c; exact .quot

/-- A character without a name is none of the five. -/
theorem ne_of_entityName?_eq_none {c : Char} (h : entityName? c = none) :
    c ≠ '<' ∧ c ≠ '>' ∧ c ≠ '&' ∧ c ≠ '\'' ∧ c ≠ '"' := by
  refine ⟨?_, ?_, ?_, ?_, ?_⟩ <;> rintro rfl <;> simp [entityName?] at h

/-- Escaping gives a written form. -/
theorem spells_escape (text : List Char) : Spells (escape text) text := by
  induction text with
  | nil => exact .nil
  | cons c text ih =>
    have hcons : escape (c :: text) = escapeChar c ++ escape text := List.flatMap_cons
    rw [hcons, escapeChar]
    cases hname : entityName? c with
    | none => exact .plain (ne_of_entityName?_eq_none hname).2.2.1 ih
    | some name => simpa using Spells.reference (reference_entityName? hname) ih

/-- Angle brackets and quotes are written by their names. -/
theorem not_mem_escape {d : Char} (hd : d ∈ ['<', '>', '\'', '"']) (text : List Char) :
    d ∉ escape text := by
  have hmark : d ∈ ['&', ';', '<', '>', '\'', '"'] ∧ d ≠ '&' ∧ d ≠ ';' := by
    revert d
    decide
  intro hmem
  obtain ⟨c, -, hc⟩ := List.mem_flatMap.1 hmem
  rw [escapeChar] at hc
  cases hname : entityName? c with
  | none =>
    rw [hname] at hc
    obtain rfl : d = c := by simpa using hc
    obtain ⟨h1, h2, -, h4, h5⟩ := ne_of_entityName?_eq_none hname
    simp [h1, h2, h4, h5] at hd
  | some name =>
    have hletters : d ∉ name.toList := (reference_entityName? hname).not_mem hmark.1
    rw [hname] at hc
    simp [hletters, hmark.2] at hc

end Accession.Markup

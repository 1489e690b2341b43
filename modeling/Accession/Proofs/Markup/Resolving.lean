import Accession.Proofs.Markup.Reference
import Accession.Proofs.Text.Decoding
set_option autoImplicit false

/-!
# Texts that are resolved in parts

Resolving takes the written forms of texts and nothing else. So octets that stand for a text can be
cut into two that stand for its parts, unless the cut goes through a character or a reference.

## Main definitions

* `Markup.Piece` — the octets of a character, and those of a reference.
* `Markup.Uncut` — a cut that goes through no character and no reference.

## Main results

* `Markup.resolve_eq_ok_iff` — characters are resolved to a text if and only if they spell it.
* `Markup.exists_decodeText_of_append` — the parts of a text on both sides of a cut.
-/

namespace Accession.Markup

open Utf8 (encode)

/-! ### References that are resolved -/

/-- The number that is read is that of the digits. -/
theorem foldlM_of_readNumber {base n m : Nat} {digits : List Char}
    (h : readNumber base n digits = .ok m) :
    digits.foldlM (fun n c => (Numeral.digitValue? base c).map (n * base + ·)) n = some m := by
  induction digits generalizing n with
  | nil =>
    cases h
    rfl
  | cons c digits ih =>
    rw [readNumber] at h
    cases hd : Numeral.digitValue? base c with
    | none =>
      rw [hd] at h
      cases h
    | some d =>
      rw [hd] at h
      dsimp only at h
      split at h
      · rw [List.foldlM_cons, hd]
        exact ih h
      · cases h

/-- The number of a reference is that of its digits, of which there is one at least. -/
theorem value?_of_referenceNumber {base m : Nat} {digits : List Char}
    (h : referenceNumber base digits = .ok m) :
    digits ≠ [] ∧ Numeral.value? base digits = some m := by
  cases digits with
  | nil => cases h
  | cons c digits =>
    rw [referenceNumber] at h
    split at h
    · cases h
    · exact ⟨by simp, foldlM_of_readNumber h⟩

/-- A number that is read is that of a character. -/
theorem reference_of_numbered {digits : List Char} {c : Char} (h : numbered digits = .ok c) :
    Reference ('#' :: digits) c := by
  have hchar {code : Nat} (h : (if code = 0 then Except.error .null
      else if code.isValidChar then .ok (Char.ofNat code) else .error (.noCharacter code)) =
        (.ok c : Except ReferenceFault Char)) : c ≠ '\x00' ∧ c.toNat = code := by
    split at h
    · cases h
    · rename_i hzero
      split at h
      · rename_i hvalid
        cases h
        have hcode := Utf8.toNat_ofNat_of_isValidChar hvalid
        refine ⟨fun hnull => hzero ?_, hcode⟩
        rw [← hcode, hnull]
        rfl
      · cases h
  unfold numbered at h
  split at h
  · rename_i digits
    cases hnumber : referenceNumber 16 digits with
    | error fault =>
      rw [hnumber] at h
      cases h
    | ok code =>
      rw [hnumber] at h
      obtain ⟨hnull, rfl⟩ := hchar h
      obtain ⟨hdigits, hvalue⟩ := value?_of_referenceNumber hnumber
      exact .hexadecimal hdigits hnull hvalue
  · cases hnumber : referenceNumber 10 digits with
    | error fault =>
      rw [hnumber] at h
      cases h
    | ok code =>
      rw [hnumber] at h
      obtain ⟨hnull, rfl⟩ := hchar h
      obtain ⟨hdigits, hvalue⟩ := value?_of_referenceNumber hnumber
      exact .decimal hdigits hnull hvalue

/-- A name that is found is that of a character. -/
theorem reference_of_named? {name : List Char} {c : Char} (h : named? name = some c) :
    Reference name c := by
  unfold named? at h
  repeat' split at h
  all_goals cases h
  · subst name; exact .lt
  · subst name; exact .gt
  · subst name; exact .amp
  · subst name; exact .apos
  · subst name; exact .quot

/-- What is resolved is a reference. -/
theorem reference_of_referent {first : Nat} {name : List Char} {c : Char}
    (h : referent first name = .ok c) : Reference name c := by
  unfold referent at h
  split at h
  · rename_i digits
    cases hnumbered : numbered digits with
    | error fault =>
      rw [hnumbered] at h
      cases h
    | ok d =>
      rw [hnumbered] at h
      cases h
      exact reference_of_numbered hnumbered
  · split at h
    · rename_i hnamed
      cases h
      exact reference_of_named? hnamed
    · cases h

/-! ### Texts that are resolved -/

/-- Resolving collects a text that the characters spell. -/
theorem exists_spells_of_resolveFrom {total position : Nat} {done written text : List Char}
    (h : resolveFrom total done position written = .ok text) :
    ∃ more, text = done.reverse ++ more ∧ Spells written more := by
  induction hlength : written.length using Nat.strongRecOn generalizing written done position with
  | ind length ih =>
    cases written with
    | nil =>
      rw [resolveFrom] at h
      cases h
      exact ⟨[], by simp, .nil⟩
    | cons c rest =>
      rw [List.length_cons] at hlength
      rw [resolveFrom] at h
      split at h
      · rename_i hamp
        subst hamp
        have hsplit :=
          List.takeWhile_append_dropWhile (p := fun c => c != '&' && c != ';') (l := rest)
        split at h
        · rename_i after hafter
          rw [hafter] at hsplit
          dsimp only at h
          split at h
          · rename_i c hreferent
            have hlt : after.length < length := by
              rw [← hlength, ← hsplit, List.length_append, List.length_cons]
              omega
            obtain ⟨more, htext, hspells⟩ := ih _ hlt h rfl
            refine ⟨c :: more, ?_, ?_⟩
            · rw [htext]
              simp
            · rw [← hsplit]
              exact .reference (reference_of_referent hreferent) hspells
          · cases h
        · cases h
      · rename_i hplain
        obtain ⟨more, htext, hspells⟩ := ih rest.length (by omega) h rfl
        refine ⟨c :: more, ?_, .plain hplain hspells⟩
        rw [htext]
        simp

/-- **Characters are resolved to a text if and only if they spell it.** -/
theorem resolve_eq_ok_iff {written text : List Char} :
    resolve written = .ok text ↔ Spells written text := by
  refine ⟨fun h => ?_, resolve_eq_ok_of_spells⟩
  obtain ⟨more, rfl, hspells⟩ := exists_spells_of_resolveFrom h
  exact hspells

/-- Octets stand for a text if and only if they are those of one of its written forms. -/
theorem decodeText_eq_ok_iff {bytes : List UInt8} {text : String} :
    decodeText bytes = .ok text ↔
      ∃ written, bytes = encode written ∧ Spells written text.toList := by
  constructor
  · intro h
    rw [decodeText] at h
    cases hdecode : Utf8.decode bytes with
    | error fault =>
      rw [hdecode] at h
      cases h
    | ok written =>
      rw [hdecode] at h
      change ((resolve written).mapError Error.entity >>= fun text => pure (String.ofList text)) =
        .ok text at h
      cases hresolve : resolve written with
      | error fault =>
        rw [hresolve] at h
        cases h
      | ok resolved =>
        rw [hresolve] at h
        cases h
        refine ⟨written, Utf8.decode_eq_ok_iff.1 hdecode, ?_⟩
        rw [String.toList_ofList]
        exact resolve_eq_ok_iff.1 hresolve
  · rintro ⟨written, rfl, hspells⟩
    rw [decodeText_encode_of_spells hspells, String.ofList_toList]

/-! ### Cuts -/

/-- The octets of a character, and those of a reference. -/
inductive Piece : List UInt8 → Prop
  | character (c : Char) : Piece (String.utf8EncodeChar c)
  | reference {name : List Char} {c : Char} (h : Reference name c) :
      Piece (encode ('&' :: (name ++ [';'])))

/-- The cut between these octets goes through no character and no reference. -/
def Uncut (before after : List UInt8) : Prop :=
  ∀ front back, Piece (front ++ back) → front <:+ before → back <+: after → front = [] ∨ back = []

/-- A cut behind octets without an ampersand and in front of an octet of ASCII goes through
nothing. -/
theorem uncut_of_plain {before after : List UInt8} (hbefore : 0x26 ∉ before)
    (hafter : ∀ b ∈ after.head?, b.toNat < 0x80) : Uncut before after := by
  intro front back hpiece hfront hback
  rcases front with _ | ⟨a, front⟩
  · exact .inl rfl
  rcases back with _ | ⟨b, back⟩
  · exact .inr rfl
  exfalso
  generalize hall : a :: front ++ b :: back = piece at hpiece
  cases hpiece with
  | character c =>
    obtain ⟨rest, rfl⟩ := hback
    have hascii : b.toNat < 0x80 := hafter b rfl
    have hmem : b ∈ String.utf8EncodeChar c := by
      rw [← hall]
      simp
    have hc : c.toNat < 0x80 := by
      rw [Utf8.toNat_eq_of_mem_utf8EncodeChar hascii hmem]
      exact hascii
    rw [Utf8.utf8EncodeChar_of_lt hc] at hall
    have hlength := congrArg List.length hall
    simp at hlength
  | reference =>
    have hamp : a = 0x26 := (List.cons.inj hall).1
    exact hbefore (hfront.subset (by rw [hamp]; simp))

/-- A cut through the written form of a text goes between two characters of the text, or through a
reference. -/
theorem Spells.exists_or_of_append {first last text : List Char} (h : Spells (first ++ last) text) :
    (∃ before after, text = before ++ after ∧ Spells first before ∧ Spells last after) ∨
      ∃ name c front back, Reference name c ∧ '&' :: (name ++ [';']) = front ++ back ∧
        front <:+ first ∧ back <+: last ∧ front ≠ [] ∧ back ≠ [] := by
  generalize hwritten : first ++ last = written at h
  induction h generalizing first with
  | nil =>
    obtain ⟨rfl, rfl⟩ := List.append_eq_nil_iff.1 hwritten
    exact .inl ⟨[], [], rfl, .nil, .nil⟩
  | @plain c written text hc h ih =>
    rcases List.append_eq_cons_iff.1 hwritten with ⟨rfl, rfl⟩ | ⟨first, rfl, rfl⟩
    · exact .inl ⟨[], c :: text, rfl, .nil, .plain hc h⟩
    · rcases ih rfl with
        ⟨before, after, rfl, hfirst, hlast⟩ | ⟨name, d, front, back, href, hpiece, hfront, hback⟩
      · exact .inl ⟨c :: before, after, rfl, .plain hc hfirst, hlast⟩
      · exact .inr ⟨name, d, front, back, href, hpiece, hfront.trans (List.suffix_cons ..), hback⟩
  | @reference name c written text hname h ih =>
    have hpiece : first ++ last = ('&' :: (name ++ [';'])) ++ written := by
      rw [hwritten]
      simp
    rcases List.append_eq_append_iff.1 hpiece with ⟨back, hcut, rfl⟩ | ⟨rest, rfl, rfl⟩
    · -- the cut lies at an end of the reference or within it; only then is a part left over
      by_cases hfirst : first = []
      · subst hfirst
        rw [List.nil_append] at hcut
        refine .inl ⟨[], c :: text, rfl, .nil, ?_⟩
        rw [← hcut, List.cons_append, List.append_assoc]
        exact .reference hname h
      by_cases hback : back = []
      · subst hback
        rw [List.append_nil] at hcut
        refine .inl ⟨[c], text, rfl, ?_, h⟩
        rw [← hcut]
        exact .reference hname .nil
      exact .inr ⟨name, c, first, back, hname, hcut, List.suffix_rfl, List.prefix_append ..,
        hfirst, hback⟩
    · -- the cut lies behind the reference
      rcases ih rfl with
        ⟨before, after, rfl, hfirst, hlast⟩ | ⟨name', d, front, back, href, hcut, hfront, hback⟩
      · refine .inl ⟨c :: before, after, rfl, ?_, hlast⟩
        rw [List.cons_append, List.append_assoc]
        exact .reference hname hfirst
      · exact .inr ⟨name', d, front, back, href, hcut, hfront.trans (List.suffix_append ..), hback⟩

/-- **The parts of a text on both sides of a cut.** -/
theorem exists_decodeText_of_append {before after : List UInt8} {text : String}
    (h : decodeText (before ++ after) = .ok text) (huncut : Uncut before after) :
    ∃ first last, decodeText before = .ok first ∧ decodeText after = .ok last ∧
      text = first ++ last := by
  obtain ⟨written, hbytes, hspells⟩ := decodeText_eq_ok_iff.1 h
  rcases Utf8.exists_encode_or_of_append hbytes.symm with
    ⟨first, last, rfl, rfl, rfl⟩ | ⟨c, front, back, hc, hfront, hback, hne⟩
  · rcases hspells.exists_or_of_append with
      ⟨one, two, htext, hfirst, hlast⟩ | ⟨name, c, front, back, href, hpiece, hfront, hback, hne⟩
    · refine ⟨String.ofList one, String.ofList two, decodeText_encode_of_spells hfirst,
        decodeText_encode_of_spells hlast, ?_⟩
      rw [← String.ofList_append, ← htext, String.ofList_toList]
    · obtain ⟨lead, rfl⟩ := hfront
      obtain ⟨trail, rfl⟩ := hback
      have hcut : Piece (encode front ++ encode back) := by
        rw [← Utf8.encode_append, ← hpiece]
        exact .reference href
      rcases huncut (encode front) (encode back) hcut
        (by rw [Utf8.encode_append]; exact List.suffix_append ..)
        (by rw [Utf8.encode_append]; exact List.prefix_append ..) with hnil | hnil
      · exact absurd (Utf8.encode_injective hnil) hne.1
      · exact absurd (Utf8.encode_injective hnil) hne.2
  · rcases huncut front back (hc ▸ .character c) hfront hback with hnil | hnil
    · exact absurd hnil hne.1
    · exact absurd hnil hne.2

end Accession.Markup

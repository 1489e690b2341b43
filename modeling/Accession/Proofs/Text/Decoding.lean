import Accession.Proofs.Text.Utf8
set_option autoImplicit false

/-!
# Strict decoding is exact

Strict decoding takes the octets of texts and nothing else: a character is read off the octets that
encode it. So octets that decode to a text can be cut between any two of its characters, and a cut
anywhere else goes through the octets of a character.

## Main results

* `Utf8.eq_append_of_next` — a character is read off its own octets.
* `Utf8.decode_eq_ok_iff` — octets decode to a text if and only if they are those of the text.
* `Utf8.exists_encode_or_of_append` — a cut goes between two characters, or through one.
-/

namespace Accession.Utf8

variable {c : Char} {rest bytes : List UInt8}

/-! ### Octets of a character, by its number -/

/-- A character with a code has that code. -/
theorem toNat_ofNat_of_isValidChar {v : Nat} (h : v.isValidChar) : (Char.ofNat v).toNat = v := by
  rw [Char.ofNat, dif_pos h]
  rfl

/-- The octets of a character are given by its number. -/
theorem utf8EncodeChar_ofNat {v : Nat} (h : v.isValidChar) :
    String.utf8EncodeChar (Char.ofNat v) =
      if v ≤ 0x7F then [UInt8.ofNat v]
      else if v ≤ 0x7FF then [UInt8.ofNat (v / 64 % 0x20 + 0xC0), UInt8.ofNat (v % 0x40 + 0x80)]
      else if v ≤ 0xFFFF then
        [UInt8.ofNat (v / 4096 % 0x10 + 0xE0), UInt8.ofNat (v / 64 % 0x40 + 0x80),
          UInt8.ofNat (v % 0x40 + 0x80)]
      else
        [UInt8.ofNat (v / 262144 % 0x08 + 0xF0), UInt8.ofNat (v / 4096 % 0x40 + 0x80),
          UInt8.ofNat (v / 64 % 0x40 + 0x80), UInt8.ofNat (v % 0x40 + 0x80)] := by
  have hback : (Char.ofNat v).val.toNat = v := toNat_ofNat_of_isValidChar h
  simp only [String.utf8EncodeChar, hback]

/-! ### Octets that are read -/

/-- The last octet of a character. -/
theorem exists_of_follow_last {value count : Nat} {low high : UInt8}
    (h : follow value count low high 0 bytes = .scalar c rest) :
    ∃ b, bytes = b :: rest ∧ low.toNat ≤ b.toNat ∧ b.toNat ≤ high.toNat ∧
      c = Char.ofNat (value * 64 + b.toNat % 64) := by
  cases bytes with
  | nil => cases h
  | cons b bytes =>
    rw [follow] at h
    split at h
    · rename_i hrange
      cases h
      exact ⟨b, rfl, UInt8.le_iff_toNat_le.1 hrange.1, UInt8.le_iff_toNat_le.1 hrange.2, rfl⟩
    · cases h

/-- An octet inside a character. -/
theorem exists_of_follow_more {value count more : Nat} {low high : UInt8}
    (h : follow value count low high (more + 1) bytes = .scalar c rest) :
    ∃ b tail, bytes = b :: tail ∧ low.toNat ≤ b.toNat ∧ b.toNat ≤ high.toNat ∧
      follow (value * 64 + b.toNat % 64) (count + 1) 0x80 0xBF more tail = .scalar c rest := by
  cases bytes with
  | nil => cases h
  | cons b bytes =>
    rw [follow] at h
    split at h
    · rename_i hrange
      exact ⟨b, bytes, rfl, UInt8.le_iff_toNat_le.1 hrange.1, UInt8.le_iff_toNat_le.1 hrange.2, h⟩
    · cases h

/-- An octet inside a character carries six bits. -/
theorem exists_bits {b low high : UInt8} (hlow : 0x80 ≤ low.toNat) (hhigh : high.toNat ≤ 0xBF)
    (hb : low.toNat ≤ b.toNat) (hb' : b.toNat ≤ high.toNat) :
    ∃ k, b = UInt8.ofNat (k + 0x80) ∧ k < 64 ∧ b.toNat % 64 = k ∧ low.toNat ≤ k + 0x80 ∧
      k + 0x80 ≤ high.toNat := by
  refine ⟨b.toNat - 0x80, ?_, by omega, by omega, by omega, by omega⟩
  rw [Nat.sub_add_cancel (by omega), UInt8.ofNat_toNat]

/-- A character of two octets is read off its own octets. -/
theorem eq_append_of_follow_two {i count : Nat} (hi : 2 ≤ i) (hi' : i < 32)
    (h : follow i count 0x80 0xBF 0 bytes = .scalar c rest) :
    UInt8.ofNat (i + 0xC0) :: bytes = String.utf8EncodeChar c ++ rest := by
  obtain ⟨b, rfl, hb, hb', rfl⟩ := exists_of_follow_last h
  obtain ⟨j, rfl, hj, hbits, -⟩ := exists_bits (by decide) (by decide) hb hb'
  rw [hbits]
  have hvalid : (i * 64 + j).isValidChar := by
    simp only [Nat.isValidChar]
    omega
  have hfirst : (i * 64 + j) / 64 % 0x20 = i := by omega
  have hlast : (i * 64 + j) % 0x40 = j := by omega
  rw [utf8EncodeChar_ofNat hvalid, if_neg (by omega), if_pos (by omega), hfirst, hlast]
  rfl

/-- A character of three octets is read off its own octets. -/
theorem eq_append_of_follow_three {i count : Nat} {low high : UInt8} (hi : i < 16)
    (hlow : 0x80 ≤ low.toNat) (hhigh : high.toNat ≤ 0xBF) (hlong : i = 0 → 0xA0 ≤ low.toNat)
    (hsurrogate : i = 13 → high.toNat ≤ 0x9F)
    (h : follow i count low high 1 bytes = .scalar c rest) :
    UInt8.ofNat (i + 0xE0) :: bytes = String.utf8EncodeChar c ++ rest := by
  obtain ⟨b, tail, rfl, hb, hb', h⟩ := exists_of_follow_more h
  obtain ⟨j, rfl, hj, hbits, hjlow, hjhigh⟩ := exists_bits hlow hhigh hb hb'
  obtain ⟨d, rfl, hd, hd', rfl⟩ := exists_of_follow_last h
  obtain ⟨k, rfl, hk, hbits', -⟩ := exists_bits (by decide) (by decide) hd hd'
  rw [hbits, hbits']
  have hvalue : (i * 64 + j) * 64 + k = i * 4096 + j * 64 + k := by omega
  rw [hvalue]
  have hvalid : (i * 4096 + j * 64 + k).isValidChar := by
    simp only [Nat.isValidChar]
    omega
  have hfirst : (i * 4096 + j * 64 + k) / 4096 % 0x10 = i := by omega
  have hsecond : (i * 4096 + j * 64 + k) / 64 % 0x40 = j := by omega
  have hlast : (i * 4096 + j * 64 + k) % 0x40 = k := by omega
  rw [utf8EncodeChar_ofNat hvalid, if_neg (by omega), if_neg (by omega), if_pos (by omega), hfirst,
    hsecond, hlast]
  rfl

/-- A character of four octets is read off its own octets. -/
theorem eq_append_of_follow_four {i count : Nat} {low high : UInt8} (hi : i < 5)
    (hlow : 0x80 ≤ low.toNat) (hhigh : high.toNat ≤ 0xBF) (hlong : i = 0 → 0x90 ≤ low.toNat)
    (hgreat : i = 4 → high.toNat ≤ 0x8F)
    (h : follow i count low high 2 bytes = .scalar c rest) :
    UInt8.ofNat (i + 0xF0) :: bytes = String.utf8EncodeChar c ++ rest := by
  obtain ⟨b, tail, rfl, hb, hb', h⟩ := exists_of_follow_more h
  obtain ⟨j, rfl, hj, hbits, hjlow, hjhigh⟩ := exists_bits hlow hhigh hb hb'
  obtain ⟨d, tail, rfl, hd, hd', h⟩ := exists_of_follow_more h
  obtain ⟨k, rfl, hk, hbits', -⟩ := exists_bits (by decide) (by decide) hd hd'
  obtain ⟨e, rfl, he, he', rfl⟩ := exists_of_follow_last h
  obtain ⟨l, rfl, hl, hbits'', -⟩ := exists_bits (by decide) (by decide) he he'
  rw [hbits, hbits', hbits'']
  have hvalue : ((i * 64 + j) * 64 + k) * 64 + l = i * 262144 + j * 4096 + k * 64 + l := by omega
  rw [hvalue]
  have hvalid : (i * 262144 + j * 4096 + k * 64 + l).isValidChar := by
    simp only [Nat.isValidChar]
    omega
  have hfirst : (i * 262144 + j * 4096 + k * 64 + l) / 262144 % 0x08 = i := by omega
  have hsecond : (i * 262144 + j * 4096 + k * 64 + l) / 4096 % 0x40 = j := by omega
  have hthird : (i * 262144 + j * 4096 + k * 64 + l) / 64 % 0x40 = k := by omega
  have hlast : (i * 262144 + j * 4096 + k * 64 + l) % 0x40 = l := by omega
  rw [utf8EncodeChar_ofNat hvalid, if_neg (by omega), if_neg (by omega), if_neg (by omega), hfirst,
    hsecond, hthird, hlast]
  rfl

/-- **A character is read off its own octets.** -/
theorem eq_append_of_next {b : UInt8} (h : next b bytes = .scalar c rest) :
    b :: bytes = String.utf8EncodeChar c ++ rest := by
  obtain ⟨n, rfl, hn⟩ : ∃ n, b = UInt8.ofNat n ∧ n < 256 :=
    ⟨b.toNat, UInt8.ofNat_toNat.symm, b.toNat_lt⟩
  by_cases hascii : n < 0x80
  · rw [next_one _ hascii] at h
    cases h
    rw [utf8EncodeChar_ofNat (.inl (by omega)), if_pos (by omega)]
    rfl
  rw [next_ofNat _ hn (by omega), lead?_ofNat hn] at h
  by_cases hnone : n < 0xC2
  · rw [if_pos hnone] at h
    cases h
  rw [if_neg hnone] at h
  by_cases htwo : n < 0xE0
  · have hlead : n = n % 32 + 0xC0 := by omega
    rw [if_pos htwo] at h
    dsimp only at h
    rw [hlead]
    exact eq_append_of_follow_two (by omega) (by omega) h
  rw [if_neg htwo] at h
  by_cases hthree : n < 0xF0
  · have hlead : n = n % 16 + 0xE0 := by omega
    rw [hlead]
    -- behind `0xE0` and `0xED` the second octet is limited: no spare octets, no surrogates
    by_cases hlong : n = 0xE0
    · rw [if_pos hlong] at h
      dsimp only at h
      exact eq_append_of_follow_three (by omega) (by decide) (by decide) (fun _ => by decide)
        (by omega) h
    rw [if_neg hlong] at h
    by_cases hsurrogate : n = 0xED
    · rw [if_pos hsurrogate] at h
      dsimp only at h
      exact eq_append_of_follow_three (by omega) (by decide) (by decide) (by omega)
        (fun _ => by decide) h
    rw [if_neg hsurrogate, if_pos hthree] at h
    dsimp only at h
    exact eq_append_of_follow_three (by omega) (by decide) (by decide) (by omega) (by omega) h
  have hlead (hle : n ≤ 0xF4) : n = n % 8 + 0xF0 := by omega
  rw [if_neg (by omega), if_neg (by omega), if_neg hthree] at h
  -- so it is behind `0xF0`, and behind `0xF4`, where the code points end
  by_cases hlong : n = 0xF0
  · rw [if_pos hlong] at h
    dsimp only at h
    rw [hlead (by omega)]
    exact eq_append_of_follow_four (by omega) (by decide) (by decide) (fun _ => by decide)
      (by omega) h
  rw [if_neg hlong] at h
  by_cases hfour : n < 0xF4
  · rw [if_pos hfour] at h
    dsimp only at h
    rw [hlead (by omega)]
    exact eq_append_of_follow_four (by omega) (by decide) (by decide) (by omega) (by omega) h
  rw [if_neg hfour] at h
  by_cases hgreat : n = 0xF4
  · rw [if_pos hgreat] at h
    dsimp only at h
    rw [hlead (by omega)]
    exact eq_append_of_follow_four (by omega) (by decide) (by decide) (by omega)
      (fun _ => by decide) h
  rw [if_neg hgreat] at h
  cases h

/-! ### Texts that are read -/

/-- Octets that decode to a text are those of the text. -/
theorem eq_encode_of_decodeFrom {text done : List Char} {index : Nat}
    (h : decodeFrom done index bytes = .ok text) :
    ∃ more, text = done.reverse ++ more ∧ bytes = encode more := by
  induction hlength : bytes.length using Nat.strongRecOn generalizing bytes done index with
  | ind length ih =>
    cases bytes with
    | nil =>
      rw [decodeFrom] at h
      cases h
      exact ⟨[], by simp, rfl⟩
    | cons b bytes =>
      rw [decodeFrom] at h
      split at h
      · rename_i c rest hnext
        have hle := length_rest_next b bytes
        rw [hnext, Step.rest] at hle
        have hlt : rest.length < length := by
          rw [← hlength, List.length_cons]
          omega
        obtain ⟨more, htext, hrest⟩ := ih _ hlt h rfl
        refine ⟨c :: more, ?_, ?_⟩
        · rw [htext]
          simp
        · rw [eq_append_of_next hnext, hrest, encode_cons]
      · cases h
      · cases h

/-- **Octets decode to a text if and only if they are those of the text.** -/
theorem decode_eq_ok_iff {text : List Char} : decode bytes = .ok text ↔ bytes = encode text := by
  constructor
  · intro h
    obtain ⟨more, htext, hbytes⟩ := eq_encode_of_decodeFrom h
    rw [hbytes, htext]
    rfl
  · rintro rfl
    exact decode_encode text

/-- **A cut through the octets of a text goes between two characters, or through one.** -/
theorem exists_encode_or_of_append {text : List Char} {before after : List UInt8}
    (h : encode text = before ++ after) :
    (∃ first last, text = first ++ last ∧ before = encode first ∧ after = encode last) ∨
      ∃ c front back, String.utf8EncodeChar c = front ++ back ∧ front <:+ before ∧
        back <+: after ∧ front ≠ [] ∧ back ≠ [] := by
  induction text generalizing before with
  | nil =>
    obtain ⟨rfl, rfl⟩ := List.append_eq_nil_iff.1 h.symm
    exact .inl ⟨[], [], rfl, rfl, rfl⟩
  | cons c text ih =>
    rw [encode_cons] at h
    rcases List.append_eq_append_iff.1 h with ⟨rest, rfl, htext⟩ | ⟨back, hchar, rfl⟩
    · -- the cut lies behind the first character
      rcases ih htext with ⟨first, last, rfl, rfl, rfl⟩ | ⟨d, front, back, hd, hfront, hback, hne⟩
      · exact .inl ⟨c :: first, last, rfl, (encode_cons c first).symm, rfl⟩
      · exact .inr ⟨d, front, back, hd, hfront.trans (List.suffix_append ..), hback, hne⟩
    · by_cases hbefore : before = []
      · subst hbefore
        refine .inl ⟨[], c :: text, rfl, rfl, ?_⟩
        rw [encode_cons, hchar]
        rfl
      by_cases hback : back = []
      · subst hback
        refine .inl ⟨[c], text, rfl, ?_, rfl⟩
        rw [encode_cons, hchar]
        simp
      exact .inr ⟨c, before, back, hchar, List.suffix_rfl, List.prefix_append .., hbefore, hback⟩

end Accession.Utf8

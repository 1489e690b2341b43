import Accession.Text.Utf8
set_option autoImplicit false

/-!
# UTF-8 is read back

What the octets of a text say of it: they are read back, and stand in the order of the texts.

## Main results

* `Utf8.exists_next_utf8EncodeChar` — a character is read back from the front of some octets.
* `Utf8.decode_encode`, `Utf8.decodeLossy_encode` — a text is read back from its octets.
* `Utf8.mem_encode_iff`, `Utf8.infix_of_infix_encode` — characters of ASCII, and rows of them, are
  found in the octets of a text only where they stand in the text.
* `Utf8.encode_lt_encode_iff` — texts stand in the order of their octets.
-/

/-! ## Reading back

A text is read back from its octets by both decodings, and the octets of ASCII stand in it for
nothing but their own characters, so that a text can be searched for marks as octets. -/

namespace Accession.Utf8

/-- What is said of all characters of a text is decided along the text. There are finitely many
characters, but too many to go through. -/
instance decidableForallMem (p : Char → Prop) [DecidablePred p] (text : List Char) :
    Decidable (∀ c ∈ text, p c) :=
  List.decidableBAll p text

/-! ### Reading characters -/

/-- An octet has the number that it was made of; the bound is a numeral, as arithmetic needs it. -/
theorem toNat_ofNat_of_lt {n : Nat} (h : n < 256) : (UInt8.ofNat n).toNat = n :=
  UInt8.toNat_ofNat_of_lt' h

/-- An octet at the end of a character carries its last six bits. -/
theorem follow_last (value count n : Nat) (low high : UInt8) (rest : List UInt8) (hn : n < 256)
    (hlow : low.toNat ≤ n) (hhigh : n ≤ high.toNat) :
    follow value count low high 0 (UInt8.ofNat n :: rest) =
      .scalar (Char.ofNat (value * 64 + n % 64)) rest := by
  have hle : low ≤ UInt8.ofNat n ∧ UInt8.ofNat n ≤ high := by
    rw [UInt8.le_iff_toNat_le, UInt8.le_iff_toNat_le, toNat_ofNat_of_lt hn]
    exact ⟨hlow, hhigh⟩
  rw [follow, if_pos hle, toNat_ofNat_of_lt hn]

/-- An octet in range is read on with its six lowest bits. -/
theorem follow_more (value count more n : Nat) (low high : UInt8) (rest : List UInt8)
    (hn : n < 256) (hlow : low.toNat ≤ n) (hhigh : n ≤ high.toNat) :
    follow value count low high (more + 1) (UInt8.ofNat n :: rest) =
      follow (value * 64 + n % 64) (count + 1) 0x80 0xBF more rest := by
  have hle : low ≤ UInt8.ofNat n ∧ UInt8.ofNat n ≤ high := by
    rw [UInt8.le_iff_toNat_le, UInt8.le_iff_toNat_le, toNat_ofNat_of_lt hn]
    exact ⟨hlow, hhigh⟩
  rw [follow, if_pos hle, toNat_ofNat_of_lt hn]

/-- The announcement of a lead octet, by its value. -/
theorem lead?_ofNat {n : Nat} (h : n < 256) :
    lead? (UInt8.ofNat n) =
      if n < 0xC2 then none
      else if n < 0xE0 then some ⟨n % 32, 0x80, 0xBF, 0⟩
      else if n = 0xE0 then some ⟨n % 16, 0xA0, 0xBF, 1⟩
      else if n = 0xED then some ⟨n % 16, 0x80, 0x9F, 1⟩
      else if n < 0xF0 then some ⟨n % 16, 0x80, 0xBF, 1⟩
      else if n = 0xF0 then some ⟨n % 8, 0x90, 0xBF, 2⟩
      else if n < 0xF4 then some ⟨n % 8, 0x80, 0xBF, 2⟩
      else if n = 0xF4 then some ⟨n % 8, 0x80, 0x8F, 2⟩
      else none := by
  simp only [lead?, UInt8.lt_iff_toNat_lt, ← UInt8.toNat_inj, toNat_ofNat_of_lt h]
  rfl

/-- An octet above ASCII begins what its announcement says. -/
theorem next_ofNat {n : Nat} (rest : List UInt8) (h : n < 256) (hn : 0x80 ≤ n) :
    next (UInt8.ofNat n) rest =
      match lead? (UInt8.ofNat n) with
      | some lead => follow lead.payload 1 lead.low lead.high lead.more rest
      | none => .invalid 1 rest := by
  have hlt : ¬UInt8.ofNat n < 0x80 := by
    rw [UInt8.lt_iff_toNat_lt, toNat_ofNat_of_lt h]
    exact Nat.not_lt.2 hn
  rw [next]
  exact if_neg hlt

/-- A character of one octet. -/
theorem next_one {v : Nat} (rest : List UInt8) (h : v < 0x80) :
    next (UInt8.ofNat v) rest = .scalar (Char.ofNat v) rest := by
  have hlt : UInt8.ofNat v < 0x80 := by
    rw [UInt8.lt_iff_toNat_lt, toNat_ofNat_of_lt (by omega)]
    exact h
  rw [next, if_pos hlt, toNat_ofNat_of_lt (by omega)]

/-- A character of two octets. -/
theorem next_two {v : Nat} (rest : List UInt8) (h : 0x80 ≤ v) (h' : v < 0x800) :
    next (UInt8.ofNat (v / 64 % 0x20 + 0xC0)) (UInt8.ofNat (v % 0x40 + 0x80) :: rest) =
      .scalar (Char.ofNat v) rest := by
  rw [next_ofNat _ (by omega) (by omega), lead?_ofNat (by omega), if_neg (by omega),
    if_pos (by omega)]
  dsimp only
  rw [follow_last _ _ _ _ _ _ (by omega) (by simp) (by simp; omega)]
  congr 2
  omega

/-- The octets that may follow the lead octet of a character of three: the bounds leave out the
overlong forms and the surrogates. -/
theorem exists_lead?_three {n m : Nat} (h : 0xE0 ≤ n) (h' : n < 0xF0) (hm : 0x80 ≤ m)
    (hm' : m ≤ 0xBF) (hlong : n = 0xE0 → 0xA0 ≤ m) (hsurrogate : n = 0xED → m ≤ 0x9F) :
    ∃ low high, lead? (UInt8.ofNat n) = some ⟨n % 16, low, high, 1⟩ ∧
      low.toNat ≤ m ∧ m ≤ high.toNat := by
  rw [lead?_ofNat (by omega), if_neg (by omega), if_neg (by omega)]
  by_cases he : n = 0xE0
  · rw [if_pos he]
    exact ⟨_, _, rfl, hlong he, hm'⟩
  · rw [if_neg he]
    by_cases hd : n = 0xED
    · rw [if_pos hd]
      exact ⟨_, _, rfl, hm, hsurrogate hd⟩
    · rw [if_neg hd, if_pos (by omega)]
      exact ⟨_, _, rfl, hm, hm'⟩

/-- The octets that may follow the lead octet of a character of four: the bounds leave out the
overlong forms and everything above U+10FFFF. -/
theorem exists_lead?_four {n m : Nat} (h : 0xF0 ≤ n) (h' : n ≤ 0xF4) (hm : 0x80 ≤ m)
    (hm' : m ≤ 0xBF) (hlong : n = 0xF0 → 0x90 ≤ m) (hgreat : n = 0xF4 → m ≤ 0x8F) :
    ∃ low high, lead? (UInt8.ofNat n) = some ⟨n % 8, low, high, 2⟩ ∧
      low.toNat ≤ m ∧ m ≤ high.toNat := by
  rw [lead?_ofNat (by omega), if_neg (by omega), if_neg (by omega), if_neg (by omega),
    if_neg (by omega), if_neg (by omega)]
  by_cases he : n = 0xF0
  · rw [if_pos he]
    exact ⟨_, _, rfl, hlong he, hm'⟩
  · rw [if_neg he]
    by_cases hlt : n < 0xF4
    · rw [if_pos hlt]
      exact ⟨_, _, rfl, hm, hm'⟩
    · rw [if_neg hlt, if_pos (by omega)]
      exact ⟨_, _, rfl, hm, hgreat (by omega)⟩

/-- A character of three octets. -/
theorem next_three {v : Nat} (rest : List UInt8) (h : 0x800 ≤ v) (h' : v < 0x10000)
    (hv : v < 0xD800 ∨ 0xDFFF < v) :
    next (UInt8.ofNat (v / 4096 % 0x10 + 0xE0))
        (UInt8.ofNat (v / 64 % 0x40 + 0x80) :: UInt8.ofNat (v % 0x40 + 0x80) :: rest) =
      .scalar (Char.ofNat v) rest := by
  obtain ⟨low, high, hlead, hlow, hhigh⟩ := exists_lead?_three (n := v / 4096 % 0x10 + 0xE0)
    (m := v / 64 % 0x40 + 0x80) (by omega) (by omega) (by omega) (by omega) (by omega) (by omega)
  rw [next_ofNat _ (by omega) (by omega), hlead]
  dsimp only
  rw [follow_more _ _ _ _ _ _ _ (by omega) hlow hhigh,
    follow_last _ _ _ _ _ _ (by omega) (by simp) (by simp; omega)]
  congr 2
  omega

/-- A character of four octets. -/
theorem next_four {v : Nat} (rest : List UInt8) (h : 0x10000 ≤ v) (h' : v < 0x110000) :
    next (UInt8.ofNat (v / 262144 % 0x08 + 0xF0))
        (UInt8.ofNat (v / 4096 % 0x40 + 0x80) :: UInt8.ofNat (v / 64 % 0x40 + 0x80) ::
          UInt8.ofNat (v % 0x40 + 0x80) :: rest) =
      .scalar (Char.ofNat v) rest := by
  obtain ⟨low, high, hlead, hlow, hhigh⟩ := exists_lead?_four (n := v / 262144 % 0x08 + 0xF0)
    (m := v / 4096 % 0x40 + 0x80) (by omega) (by omega) (by omega) (by omega) (by omega) (by omega)
  rw [next_ofNat _ (by omega) (by omega), hlead]
  dsimp only
  rw [follow_more _ _ _ _ _ _ _ (by omega) hlow hhigh,
    follow_more _ _ _ _ _ _ _ (by omega) (by simp) (by simp; omega),
    follow_last _ _ _ _ _ _ (by omega) (by simp) (by simp; omega)]
  congr 2
  omega

/-- The octets of a character: the first of them, from which the character is read back. -/
theorem exists_next_utf8EncodeChar (c : Char) :
    ∃ b tail, String.utf8EncodeChar c = b :: tail ∧
      ∀ rest, next b (tail ++ rest) = .scalar c rest := by
  have hvalid : c.toNat < 0xD800 ∨ 0xDFFF < c.toNat ∧ c.toNat < 0x110000 := c.valid
  have hback : Char.ofNat c.toNat = c := Char.ofNat_toNat c
  simp only [String.utf8EncodeChar, show c.val.toNat = c.toNat from rfl]
  by_cases h1 : c.toNat ≤ 0x7F
  · rw [if_pos h1]
    exact ⟨_, _, rfl, fun rest => by rw [List.nil_append, next_one rest (by omega), hback]⟩
  · rw [if_neg h1]
    by_cases h2 : c.toNat ≤ 0x7FF
    · rw [if_pos h2]
      exact ⟨_, _, rfl, fun rest => (next_two rest (by omega) (by omega)).trans (by rw [hback])⟩
    · rw [if_neg h2]
      by_cases h3 : c.toNat ≤ 0xFFFF
      · rw [if_pos h3]
        exact ⟨_, _, rfl, fun rest =>
          (next_three rest (by omega) (by omega) (by omega)).trans (by rw [hback])⟩
      · rw [if_neg h3]
        exact ⟨_, _, rfl, fun rest => (next_four rest (by omega) (by omega)).trans (by rw [hback])⟩

/-! ### Decoding what was encoded -/

/-- The empty text has no octets. -/
@[simp] theorem encode_nil : encode [] = [] :=
  rfl

/-- Texts are encoded one behind the other. -/
@[simp] theorem encode_append (s t : List Char) : encode (s ++ t) = encode s ++ encode t :=
  List.flatMap_append

/-- Characters are encoded one by one. -/
theorem encode_cons (c : Char) (text : List Char) :
    encode (c :: text) = String.utf8EncodeChar c ++ encode text :=
  List.flatMap_cons

/-- Strict decoding goes through octets that encode a text. -/
theorem decodeFrom_encode (text done : List Char) (index : Nat) :
    decodeFrom done index (encode text) = .ok (done.reverse ++ text) := by
  induction text generalizing done index with
  | nil => simp [decodeFrom]
  | cons c text ih =>
    obtain ⟨b, tail, hc, hnext⟩ := exists_next_utf8EncodeChar c
    rw [encode_cons, hc, List.cons_append, decodeFrom]
    split
    · rename_i c' rest hstep
      rw [hnext] at hstep
      obtain ⟨rfl, rfl⟩ := Step.scalar.inj hstep
      rw [ih]
      simp
    · rename_i hstep
      rw [hnext] at hstep
      cases hstep
    · rename_i hstep
      rw [hnext] at hstep
      cases hstep

/-- Lenient decoding goes through octets that encode a text. -/
theorem decodeLossyFrom_encode (text done : List Char) :
    decodeLossyFrom done (encode text) = done.reverse ++ text := by
  induction text generalizing done with
  | nil => simp [decodeLossyFrom]
  | cons c text ih =>
    obtain ⟨b, tail, hc, hnext⟩ := exists_next_utf8EncodeChar c
    rw [encode_cons, hc, List.cons_append, decodeLossyFrom]
    split
    · rename_i c' rest hstep
      rw [hnext] at hstep
      obtain ⟨rfl, rfl⟩ := Step.scalar.inj hstep
      rw [ih]
      simp
    · rename_i hstep
      rw [hnext] at hstep
      cases hstep
    · rename_i hstep
      rw [hnext] at hstep
      cases hstep

/-- A text is read back from its octets. -/
@[simp] theorem decode_encode (text : List Char) : decode (encode text) = .ok text :=
  decodeFrom_encode text [] 0

/-- A text is read back from its octets, leniently as well. -/
@[simp] theorem decodeLossy_encode (text : List Char) : decodeLossy (encode text) = text :=
  decodeLossyFrom_encode text []

/-- Different texts have different octets. -/
theorem encode_injective {s t : List Char} (h : encode s = encode t) : s = t := by
  have hdecode := congrArg decodeLossy h
  rwa [decodeLossy_encode, decodeLossy_encode] at hdecode

/-! ### Octets of ASCII -/

/-- An octet of ASCII in the octets of a character is that character. -/
theorem toNat_eq_of_mem_utf8EncodeChar {c : Char} {b : UInt8} (hb : b.toNat < 0x80)
    (h : b ∈ String.utf8EncodeChar c) : c.toNat = b.toNat := by
  simp only [String.utf8EncodeChar, show c.val.toNat = c.toNat from rfl] at h
  have hlarge {n : Nat} (hn : n < 256) (hn' : 0x80 ≤ n) : b ≠ UInt8.ofNat n := by
    rintro rfl
    rw [toNat_ofNat_of_lt hn] at hb
    omega
  split at h
  · rename_i hc
    rw [List.mem_singleton.1 h, toNat_ofNat_of_lt (by omega)]
  · exfalso
    split at h
    · simp only [List.mem_cons, List.not_mem_nil, or_false] at h
      rcases h with h | h <;> exact hlarge (by omega) (by omega) h
    · split at h
      · simp only [List.mem_cons, List.not_mem_nil, or_false] at h
        rcases h with h | h | h <;> exact hlarge (by omega) (by omega) h
      · simp only [List.mem_cons, List.not_mem_nil, or_false] at h
        rcases h with h | h | h | h <;> exact hlarge (by omega) (by omega) h

/-- A character of ASCII is one octet. -/
theorem utf8EncodeChar_of_lt {c : Char} (h : c.toNat < 0x80) :
    String.utf8EncodeChar c = [UInt8.ofNat c.toNat] := by
  simp only [String.utf8EncodeChar, show c.val.toNat = c.toNat from rfl]
  rw [if_pos (by omega)]

/-- An octet of ASCII stands in the octets of a text for its own character only. -/
theorem mem_encode_iff {c : Char} (hc : c.toNat < 0x80) (text : List Char) :
    UInt8.ofNat c.toNat ∈ encode text ↔ c ∈ text := by
  have hval : (UInt8.ofNat c.toNat).toNat = c.toNat := toNat_ofNat_of_lt (by omega)
  constructor
  · intro h
    obtain ⟨d, hd, hmem⟩ := List.mem_flatMap.1 h
    have heq := toNat_eq_of_mem_utf8EncodeChar (by omega) hmem
    rwa [Char.toNat_inj.1 (heq.trans hval)] at hd
  · intro h
    exact List.mem_flatMap.2 ⟨c, h, by simp [utf8EncodeChar_of_lt hc]⟩

/-- What begins with a character of ASCII does not begin inside another character. -/
theorem infix_of_infix_append {b : UInt8} (hb : b.toNat < 0x80) {pattern before after : List UInt8}
    (hbefore : ∀ x ∈ before, 0x80 ≤ x.toNat) (h : b :: pattern <:+: before ++ after) :
    b :: pattern <:+: after := by
  induction before with
  | nil => exact h
  | cons x before ih =>
    rw [List.cons_append, List.infix_cons_iff] at h
    rcases h with h | h
    · obtain rfl : b = x := (List.cons_prefix_cons.1 h).1
      have := hbefore b List.mem_cons_self
      omega
    · exact ih (fun y hy => hbefore y (List.mem_cons_of_mem x hy)) h

/-- The octets of a character: either it is of ASCII, or none of its octets is. -/
theorem utf8EncodeChar_cases (c : Char) :
    (c.toNat < 0x80 ∧ String.utf8EncodeChar c = [UInt8.ofNat c.toNat]) ∨
      ∀ b ∈ String.utf8EncodeChar c, 0x80 ≤ b.toNat := by
  by_cases hc : c.toNat < 0x80
  · exact .inl ⟨hc, utf8EncodeChar_of_lt hc⟩
  · refine .inr fun b hb => Nat.not_lt.1 fun hlt => hc ?_
    rw [toNat_eq_of_mem_utf8EncodeChar hlt hb]
    exact hlt

/-- A row of characters of ASCII that begins the octets of a text begins the text. -/
theorem prefix_of_prefix_encode {pattern text : List Char} (hascii : ∀ c ∈ pattern, c.toNat < 0x80)
    (h : encode pattern <+: encode text) : pattern <+: text := by
  induction pattern generalizing text with
  | nil => exact List.nil_prefix
  | cons c pattern ih =>
    have hc : c.toNat < 0x80 := hascii c List.mem_cons_self
    rw [encode_cons, utf8EncodeChar_of_lt hc, List.singleton_append] at h
    cases text with
    | nil => exact absurd (List.prefix_nil.1 h) (List.cons_ne_nil _ _)
    | cons d text =>
      have hval : (UInt8.ofNat c.toNat).toNat = c.toNat := toNat_ofNat_of_lt (by omega)
      rw [encode_cons] at h
      rcases utf8EncodeChar_cases d with ⟨hd, hsingle⟩ | hlarge
      · rw [hsingle, List.singleton_append, List.cons_prefix_cons] at h
        have hval' : (UInt8.ofNat d.toNat).toNat = d.toNat := toNat_ofNat_of_lt (by omega)
        obtain rfl : c = d := Char.toNat_inj.1 (by rw [← hval, h.1, hval'])
        exact List.cons_prefix_cons.2
          ⟨rfl, ih (fun e he => hascii e (List.mem_cons_of_mem c he)) h.2⟩
      · obtain ⟨b, tail, hcons, -⟩ := exists_next_utf8EncodeChar d
        rw [hcons, List.cons_append, List.cons_prefix_cons] at h
        have := hlarge b (by simp [hcons])
        rw [← h.1, hval] at this
        omega

/-- A row of characters of ASCII is found in the octets of a text only where it stands in the
text. -/
theorem infix_of_infix_encode {pattern text : List Char} (hascii : ∀ c ∈ pattern, c.toNat < 0x80)
    (h : encode pattern <:+: encode text) : pattern <:+: text := by
  induction text with
  | nil => exact (prefix_of_prefix_encode hascii (List.infix_nil.1 h ▸ List.nil_prefix)).isInfix
  | cons d text ih =>
    cases pattern with
    | nil => exact List.nil_infix
    | cons c pattern =>
      have hc : c.toNat < 0x80 := hascii c List.mem_cons_self
      have hval : (UInt8.ofNat c.toNat).toNat < 0x80 := by
        rwa [toNat_ofNat_of_lt (by omega)]
      by_cases hprefix : encode (c :: pattern) <+: encode (d :: text)
      · exact (prefix_of_prefix_encode hascii hprefix).isInfix
      · refine List.infix_cons (ih ?_)
        obtain ⟨b, tail, hcons, -⟩ := exists_next_utf8EncodeChar d
        have htail : ∀ x ∈ tail, 0x80 ≤ x.toNat := by
          intro x hx
          rcases utf8EncodeChar_cases d with ⟨-, hsingle⟩ | hlarge
          · rw [hcons] at hsingle
            rw [(List.cons.inj hsingle).2] at hx
            cases hx
          · exact hlarge x (by simp [hcons, hx])
        rw [encode_cons d, hcons, List.cons_append] at h hprefix
        have hrest := (List.infix_cons_iff.1 h).resolve_left hprefix
        rw [encode_cons, utf8EncodeChar_of_lt hc, List.singleton_append] at hrest ⊢
        exact infix_of_infix_append hval htail hrest

end Accession.Utf8

/-! ## The order of texts is that of their octets

Texts are ordered by the code points of their characters. UTF-8 is made so that this is the same as
the order of their octets: of two characters the earlier one has the smaller octet where their
octets first differ. -/

namespace Accession.Utf8

/-! ### Single characters -/

/-- Rows of octets of which the first has the smaller octet where they first differ, so that it
comes first whatever follows them. -/
def Below (first second : List UInt8) : Prop :=
  ∃ before low high rest rest', first = before ++ low :: rest ∧ second = before ++ high :: rest' ∧
    low < high

/-- The smaller octet in front decides. -/
theorem Below.head {m n : Nat} (hm : m < 256) (hn : n < 256) (h : m < n) (rest rest' : List UInt8) :
    Below (UInt8.ofNat m :: rest) (UInt8.ofNat n :: rest') := by
  refine ⟨[], _, _, rest, rest', rfl, rfl, ?_⟩
  rw [UInt8.lt_iff_toNat_lt, toNat_ofNat_of_lt hm, toNat_ofNat_of_lt hn]
  exact h

/-- What is in front of both decides nothing. -/
theorem Below.cons {first second : List UInt8} (h : Below first second) (b : UInt8) :
    Below (b :: first) (b :: second) := by
  obtain ⟨before, low, high, rest, rest', rfl, rfl, hlt⟩ := h
  exact ⟨b :: before, low, high, rest, rest', rfl, rfl, hlt⟩

/-- Rows that begin with numbers: the smaller number decides, or else what follows. -/
theorem Below.of_le {m n : Nat} (hm : m < 256) (hn : n < 256) {rest rest' : List UInt8}
    (hle : m ≤ n) (h : m = n → Below rest rest') :
    Below (UInt8.ofNat m :: rest) (UInt8.ofNat n :: rest') := by
  rcases Nat.lt_or_eq_of_le hle with hlt | heq
  · exact Below.head hm hn hlt rest rest'
  · subst heq
    exact (h rfl).cons _

/-- What differs is decided, whatever follows. -/
theorem Below.append_lt {first second : List UInt8} (h : Below first second)
    (rest rest' : List UInt8) : first ++ rest < second ++ rest' := by
  obtain ⟨before, low, high, tail, tail', rfl, rfl, hlt⟩ := h
  rw [List.append_assoc, List.append_assoc]
  exact List.append_left_lt (List.cons_lt_cons_iff.2 (.inl hlt))

/-- Of two characters the earlier one has the earlier octets: either it has fewer of them, which its
first octet shows, or the bits of both are spread over as many octets. -/
theorem below_utf8EncodeChar {c d : Char} (h : c < d) :
    Below (String.utf8EncodeChar c) (String.utf8EncodeChar d) := by
  have hlt : c.toNat < d.toNat := h
  have hmax : d.toNat < 0x110000 := by
    have hvalid : d.toNat < 0xD800 ∨ 0xDFFF < d.toNat ∧ d.toNat < 0x110000 := d.valid
    omega
  simp only [String.utf8EncodeChar, show c.val.toNat = c.toNat from rfl,
    show d.val.toNat = d.toNat from rfl]
  -- the cases follow the number of octets; `d` never has fewer than `c`
  by_cases hc₁ : c.toNat ≤ 0x7F
  · rw [if_pos hc₁]
    by_cases hd₁ : d.toNat ≤ 0x7F
    · rw [if_pos hd₁]
      exact Below.head (by omega) (by omega) hlt _ _
    · rw [if_neg hd₁]
      by_cases hd₂ : d.toNat ≤ 0x7FF
      · rw [if_pos hd₂]
        exact Below.head (by omega) (by omega) (by omega) _ _
      · rw [if_neg hd₂]
        split <;> exact Below.head (by omega) (by omega) (by omega) _ _
  · rw [if_neg hc₁, if_neg (c := d.toNat ≤ 0x7F) (by omega)]
    by_cases hc₂ : c.toNat ≤ 0x7FF
    · rw [if_pos hc₂]
      by_cases hd₂ : d.toNat ≤ 0x7FF
      · rw [if_pos hd₂]
        refine Below.of_le (by omega) (by omega) (by omega) fun _ => ?_
        exact Below.head (by omega) (by omega) (by omega) _ _
      · rw [if_neg hd₂]
        split <;> exact Below.head (by omega) (by omega) (by omega) _ _
    · rw [if_neg hc₂, if_neg (c := d.toNat ≤ 0x7FF) (by omega)]
      by_cases hc₃ : c.toNat ≤ 0xFFFF
      · rw [if_pos hc₃]
        by_cases hd₃ : d.toNat ≤ 0xFFFF
        · rw [if_pos hd₃]
          refine Below.of_le (by omega) (by omega) (by omega) fun _ => ?_
          refine Below.of_le (by omega) (by omega) (by omega) fun _ => ?_
          exact Below.head (by omega) (by omega) (by omega) _ _
        · rw [if_neg hd₃]
          exact Below.head (by omega) (by omega) (by omega) _ _
      · rw [if_neg hc₃, if_neg (c := d.toNat ≤ 0xFFFF) (by omega)]
        refine Below.of_le (by omega) (by omega) (by omega) fun _ => ?_
        refine Below.of_le (by omega) (by omega) (by omega) fun _ => ?_
        refine Below.of_le (by omega) (by omega) (by omega) fun _ => ?_
        exact Below.head (by omega) (by omega) (by omega) _ _

/-! ### Texts -/

/-- The order of texts by their characters is that of their octets. -/
theorem encode_lt_encode {s t : List Char} (h : s < t) : encode s < encode t := by
  induction s generalizing t with
  | nil =>
    cases t with
    | nil => exact absurd h (List.not_lt_nil _)
    | cons d t =>
      obtain ⟨b, tail, hd, -⟩ := exists_next_utf8EncodeChar d
      rw [encode_cons, hd]
      exact List.nil_lt_cons _ _
  | cons c s ih =>
    cases t with
    | nil => exact absurd h (List.not_lt_nil _)
    | cons d t =>
      rw [encode_cons, encode_cons]
      rcases List.cons_lt_cons_iff.1 h with hlt | ⟨rfl, hrest⟩
      · exact (below_utf8EncodeChar hlt).append_lt _ _
      · exact List.append_left_lt (ih hrest)

/-- **Texts stand in the order of their octets.** -/
theorem encode_lt_encode_iff {s t : String} : encode s.toList < encode t.toList ↔ s < t := by
  constructor
  · intro h
    refine Decidable.byContradiction fun hge => ?_
    by_cases heq : s = t
    · rw [heq] at h
      exact List.lt_irrefl _ h
    · have hlt : t < s := Decidable.byContradiction fun hge' =>
        heq (String.le_antisymm (String.not_lt.1 hge') (String.not_lt.1 hge))
      exact List.lt_asymm h (encode_lt_encode (String.lt_iff.1 hlt))
  · intro h
    exact encode_lt_encode (String.lt_iff.1 h)

end Accession.Utf8

import Accession.Markup.Attribute
import Accession.Proofs.Lists
import Accession.Proofs.Text.Utf8
import Mathlib.Data.List.TakeWhile
import Mathlib.Tactic.Set
set_option autoImplicit false

/-!
# Written tags

A tag is written as a name, attributes with values between quotes, and layout around them. This
file has the written form and what the cutting of events makes of it: the tag is one event, its
name is the name, and its attributes are the attributes, without a fault.

## Main definitions

* `Markup.PlainName` — a name without the marks that separate the parts of a tag.
* `Markup.WrittenAttribute`, `Markup.WrittenTag` — attributes and tags as they are written.
* `Markup.Balanced` — octets that leave a tag as open as they find it.

## Main results

* `Markup.WrittenTag.nameOf_octets`, `Markup.WrittenTag.attributes_octets` — what is read off a
  written tag.
* `Markup.WrittenTag.nextEvent_start`, `Markup.WrittenTag.nextEvent_empty`,
  `Markup.nextEvent_close` — the events of tags.
-/

namespace Accession.Markup

open Utf8 (encode)

/-! ### Layout and names -/

/-- Whether a character is layout: a space, a tab, a line feed or a carriage return. -/
def isLayout (c : Char) : Bool :=
  c = ' ' || c = '\t' || c = '\n' || c = '\r'

/-- Whether a character may stand in a name: neither layout nor a mark of a tag. -/
def isNameChar (c : Char) : Bool :=
  !isLayout c && !(['<', '>', '/', '=', '"', '\'', '!', '?'].contains c)

/-- A name without layout and without marks of a tag. -/
def PlainName (name : List Char) : Prop :=
  name ≠ [] ∧ ∀ c ∈ name, isNameChar c

instance (name : List Char) : Decidable (PlainName name) :=
  inferInstanceAs (Decidable (_ ∧ _))

/-- No characters are layout. -/
theorem isLayout_of_mem_nil : ∀ c ∈ [], isLayout c :=
  nofun

/-- A space is layout. -/
theorem isLayout_of_mem_space : ∀ c ∈ [' '], isLayout c := by
  decide

/-- A space is enough to separate an attribute from what is in front of it. -/
theorem space_ne_nil : [' '] ≠ [] :=
  List.cons_ne_nil _ _

/-- The octets of layout are spaces. -/
theorem isSpace_of_mem_encode {layout : List Char} (h : ∀ c ∈ layout, isLayout c) {b : UInt8}
    (hb : b ∈ encode layout) : isSpace b := by
  obtain ⟨c, hc, hmem⟩ := List.mem_flatMap.1 hb
  have hlayout := h c hc
  simp only [isLayout, Bool.or_eq_true, decide_eq_true_eq] at hlayout
  rcases hlayout with ((rfl | rfl) | rfl) | rfl <;>
    (rw [List.mem_singleton.1 hmem]; decide)

/-- An octet of ASCII is not among the octets of a text without its character. -/
theorem not_mem_encode {c : Char} (hc : c.toNat < 0x80) {text : List Char} (h : c ∉ text) :
    UInt8.ofNat c.toNat ∉ encode text :=
  fun hb => h ((Utf8.mem_encode_iff hc text).1 hb)

/-- A plain name holds none of the marks. -/
theorem PlainName.not_mem {name : List Char} (h : PlainName name) {c : Char}
    (hc : isNameChar c = false) : c ∉ name := by
  intro hmem
  rw [h.2 c hmem] at hc
  cases hc

/-- The octets of a plain name are no spaces. -/
theorem PlainName.not_isSpace {name : List Char} (h : PlainName name) {b : UInt8}
    (hb : b ∈ encode name) : isSpace b = false := by
  have hno (c : Char) (hc : c.toNat < 0x80) (hname : isNameChar c = false) :
      b ≠ UInt8.ofNat c.toNat := by
    rintro rfl
    exact not_mem_encode hc (h.not_mem hname) hb
  have h1 := hno ' ' (by decide) (by decide)
  have h2 := hno '\t' (by decide) (by decide)
  have h3 := hno '\n' (by decide) (by decide)
  have h4 := hno '\r' (by decide) (by decide)
  simp only [isSpace, Bool.or_eq_false_iff, beq_eq_false_iff_ne]
  exact ⟨⟨⟨h1, h2⟩, h3⟩, h4⟩

/-- The octets of a plain name are not nothing. -/
theorem PlainName.encode_ne_nil {name : List Char} (h : PlainName name) : encode name ≠ [] := by
  obtain ⟨c, rest, rfl⟩ := List.exists_cons_of_ne_nil h.1
  obtain ⟨b, tail, hc, -⟩ := Utf8.exists_next_utf8EncodeChar c
  rw [Utf8.encode_cons, hc]
  simp

/-! ### Balanced octets -/

/-- Octets after which a tag is as open as before them: it does not end inside them, and they leave
no quote open. -/
def Balanced (bytes : List UInt8) : Prop :=
  ∀ done rest, cutTag none done (bytes ++ rest) = cutTag none (bytes.reverse ++ done) rest

/-- No octets leave no quote open. -/
theorem Balanced.nil : Balanced [] :=
  fun _ _ => rfl

/-- Balanced octets may follow each other. -/
theorem Balanced.append {bytes bytes' : List UInt8} (h : Balanced bytes) (h' : Balanced bytes') :
    Balanced (bytes ++ bytes') := by
  intro done rest
  rw [List.append_assoc, h, h', List.reverse_append, List.append_assoc]

/-- Octets without the closing bracket and without quotes are balanced. -/
theorem Balanced.of_not_mem {bytes : List UInt8} (hclose : 0x3E ∉ bytes) (hdouble : 0x22 ∉ bytes)
    (hsingle : 0x27 ∉ bytes) : Balanced bytes := by
  induction bytes with
  | nil => exact Balanced.nil
  | cons b bytes ih =>
    simp only [List.mem_cons, not_or] at hclose hdouble hsingle
    intro done rest
    have hquote : ¬(b = 0x22 ∨ b = 0x27) := not_or.2 ⟨Ne.symm hdouble.1, Ne.symm hsingle.1⟩
    rw [List.cons_append, cutTag, if_neg (Ne.symm hclose.1), if_neg hquote,
      ih hclose.2 hdouble.2 hsingle.2]
    simp

/-- A slash leaves no quote open. -/
theorem balanced_slash : Balanced [0x2F] :=
  Balanced.of_not_mem (by decide) (by decide) (by decide)

/-- Inside quotes nothing but the same quote counts. -/
theorem cutTag_quoted {quote : UInt8} {bytes : List UInt8} (h : quote ∉ bytes)
    (done rest : List UInt8) :
    cutTag (some quote) done (bytes ++ quote :: rest) =
      cutTag none (quote :: (bytes.reverse ++ done)) rest := by
  induction bytes generalizing done with
  | nil => simp [cutTag]
  | cons b bytes ih =>
    rw [List.mem_cons, not_or] at h
    rw [List.cons_append, cutTag, if_neg (Ne.symm h.1), ih h.2]
    simp

/-- Octets between quotes are balanced. -/
theorem Balanced.quoted {quote : UInt8} (hquote : quote = 0x22 ∨ quote = 0x27) {bytes : List UInt8}
    (h : quote ∉ bytes) : Balanced (quote :: (bytes ++ [quote])) := by
  intro done rest
  have hclose : quote ≠ 0x3E := by
    rcases hquote with rfl | rfl <;> decide
  rw [List.cons_append, cutTag, if_neg hclose, if_pos hquote, List.append_assoc,
    List.singleton_append, cutTag_quoted h]
  simp

/-- A tag ends behind balanced octets. -/
theorem Balanced.cutTag_eq {bytes : List UInt8} (h : Balanced bytes) (rest : List UInt8) :
    cutTag none [] (bytes ++ 0x3E :: rest) = some (bytes, rest) := by
  rw [h, cutTag]
  simp

/-- The octets of a text without quotes and closing brackets are balanced. -/
theorem balanced_encode {text : List Char} (hclose : '>' ∉ text) (hdouble : '"' ∉ text)
    (hsingle : '\'' ∉ text) : Balanced (encode text) :=
  Balanced.of_not_mem (not_mem_encode (c := '>') (by decide) hclose)
    (not_mem_encode (c := '"') (by decide) hdouble)
    (not_mem_encode (c := '\'') (by decide) hsingle)

/-- A plain name leaves no quote open. -/
theorem PlainName.balanced {name : List Char} (h : PlainName name) : Balanced (encode name) :=
  balanced_encode (h.not_mem (by decide)) (h.not_mem (by decide)) (h.not_mem (by decide))

/-- Layout leaves no quote open. -/
theorem balanced_layout {layout : List Char} (h : ∀ c ∈ layout, isLayout c) :
    Balanced (encode layout) := by
  have hno {c : Char} (hc : isLayout c = false) : c ∉ layout := by
    intro hmem
    rw [h c hmem] at hc
    cases hc
  exact balanced_encode (hno (by decide)) (hno (by decide)) (hno (by decide))

/-! ### Written attributes -/

/-- An attribute as it is written: layout, a key, an equals sign that may have layout around it, and
a value between quotes that do not stand in it. -/
structure WrittenAttribute where
  lead : List Char
  key : List Char
  before : List Char
  after : List Char
  quote : Char
  value : List Char
  lead_ne : lead ≠ []
  lead_layout : ∀ c ∈ lead, isLayout c
  key_plain : PlainName key
  before_layout : ∀ c ∈ before, isLayout c
  after_layout : ∀ c ∈ after, isLayout c
  quote_eq : quote = '"' ∨ quote = '\''
  quote_not_mem : quote ∉ value

namespace WrittenAttribute

/-- The characters of an attribute. -/
def chars (a : WrittenAttribute) : List Char :=
  a.lead ++ a.key ++ a.before ++ '=' :: (a.after ++ a.quote :: (a.value ++ [a.quote]))

/-- The key and the value as octets. -/
def raw (a : WrittenAttribute) : Attribute :=
  ⟨encode a.key, encode a.value⟩

/-- The octet of the quotes. -/
def quoteOctet (a : WrittenAttribute) : UInt8 :=
  UInt8.ofNat a.quote.toNat

/-- A value stands between double or single quotes. -/
theorem quoteOctet_eq (a : WrittenAttribute) : a.quoteOctet = 0x22 ∨ a.quoteOctet = 0x27 := by
  rw [quoteOctet]
  rcases a.quote_eq with h | h <;> rw [h]
  · exact .inl rfl
  · exact .inr rfl

/-- A quote takes one octet. -/
theorem quote_lt (a : WrittenAttribute) : a.quote.toNat < 0x80 := by
  rcases a.quote_eq with h | h <;> rw [h] <;> decide

/-- The quote does not stand inside the value. -/
theorem quoteOctet_not_mem (a : WrittenAttribute) : a.quoteOctet ∉ encode a.value :=
  not_mem_encode a.quote_lt a.quote_not_mem

/-- The octets of an attribute. -/
theorem encode_chars (a : WrittenAttribute) :
    encode a.chars = encode a.lead ++ (encode a.key ++ (encode a.before ++ 0x3D ::
      (encode a.after ++ (a.quoteOctet :: (encode a.value ++ [a.quoteOctet]))))) := by
  have hquote (text : List Char) : encode (a.quote :: text) = a.quoteOctet :: encode text := by
    rw [Utf8.encode_cons, Utf8.utf8EncodeChar_of_lt a.quote_lt]
    rfl
  have hequals (text : List Char) : encode ('=' :: text) = 0x3D :: encode text := rfl
  simp only [chars, Utf8.encode_append, hequals, hquote, Utf8.encode_nil, List.append_assoc]

/-- A whole attribute leaves no quote open. -/
theorem balanced (a : WrittenAttribute) : Balanced (encode a.chars) := by
  have hequals : Balanced [0x3D] := Balanced.of_not_mem (by decide) (by decide) (by decide)
  have hvalue := Balanced.quoted a.quoteOctet_eq a.quoteOctet_not_mem
  rw [encode_chars]
  exact (balanced_layout a.lead_layout).append <| a.key_plain.balanced.append <|
    (balanced_layout a.before_layout).append <| hequals.append <|
    (balanced_layout a.after_layout).append hvalue

/-- An attribute ends with its closing quote. -/
theorem getLast?_encode_chars_ne (a : WrittenAttribute) :
    (encode a.chars).getLast? ≠ some 0x2F := by
  have hlast : (encode a.chars).getLast? = some a.quoteOctet := by
    rw [encode_chars]
    simp [List.getLast?_append, List.getLast?_cons]
  rw [hlast]
  rcases a.quoteOctet_eq with h | h <;> rw [h] <;> decide

end WrittenAttribute

/-! ### Reading written attributes -/

/-- The value of an attribute is read up to its closing quote. -/
theorem cutAt_quote {quote : UInt8} {bytes : List UInt8} (h : quote ∉ bytes)
    (done rest : List UInt8) :
    cutAt [quote] done (bytes ++ quote :: rest) = some (done.reverse ++ bytes, rest) := by
  induction bytes generalizing done with
  | nil => simp [cutAt, List.isPrefixOf]
  | cons b bytes ih =>
    rw [List.mem_cons, not_or] at h
    have hne : (quote == b) = false := beq_eq_false_iff_ne.2 h.1
    rw [List.cons_append, cutAt, List.isPrefixOf, hne, Bool.false_and, if_neg Bool.false_ne_true,
      ih h.2]
    simp

/-- Spaces are no part of a key. -/
theorem isKeyOctet_of_isSpace {b : UInt8} (h : isSpace b) : isKeyOctet b = false := by
  simp [isKeyOctet, h]

/-- The octets of a plain name may all stand in a key. -/
theorem isKeyOctet_of_plainName {key : List Char} (h : PlainName key) {b : UInt8}
    (hb : b ∈ encode key) : isKeyOctet b := by
  have hequals : b ≠ 0x3D := by
    rintro rfl
    exact not_mem_encode (c := '=') (by decide) (h.not_mem (by decide)) hb
  simp [isKeyOctet, h.not_isSpace hb, hequals]

/-- What stands behind the equals sign is read as the value. -/
theorem exists_cutValue_eq (a : WrittenAttribute) (key : List UInt8) (start position : Nat)
    (rest : List UInt8) :
    ∃ next, cutValue key start position (encode a.after ++ a.quoteOctet ::
        (encode a.value ++ a.quoteOctet :: rest)) =
      .pair ⟨key, encode a.value⟩ start next rest := by
  have hafter := List.takeWhile_dropWhile_append isSpace (encode a.after)
    (a.quoteOctet :: (encode a.value ++ a.quoteOctet :: rest))
    (fun _ => isSpace_of_mem_encode a.after_layout)
    (by rcases a.quoteOctet_eq with h | h <;> simp [h, isSpace])
  unfold cutValue
  rw [hafter.1, hafter.2]
  dsimp only
  rw [if_pos a.quoteOctet_eq, cutAt_quote a.quoteOctet_not_mem]
  exact ⟨_, rfl⟩

/-- An attribute in front of other octets is read with its key and its value. -/
theorem exists_nextAttribute_eq (a : WrittenAttribute) {seen : List (List UInt8 × Nat)}
    (hseen : seen.lookup (encode a.key) = none) (position : Nat) (rest : List UInt8) :
    ∃ start next, nextAttribute seen position (encode a.chars ++ rest) =
      .pair a.raw start next rest := by
  obtain ⟨first, tail, hkey⟩ := List.exists_cons_of_ne_nil a.key_plain.encode_ne_nil
  have hfirst : isSpace first = false := a.key_plain.not_isSpace (by simp [hkey])
  have htail : ∀ b ∈ tail, isKeyOctet b := fun b hb =>
    isKeyOctet_of_plainName a.key_plain (by simp [hkey, hb])
  set value := encode a.after ++ a.quoteOctet :: (encode a.value ++ a.quoteOctet :: rest)
    with hvalue
  have hchars : encode a.chars ++ rest =
      encode a.lead ++ first :: (tail ++ (encode a.before ++ 0x3D :: value)) := by
    simp [a.encode_chars, hkey, hvalue]
  have hlead := List.takeWhile_dropWhile_append isSpace (encode a.lead)
    (first :: (tail ++ (encode a.before ++ 0x3D :: value)))
    (fun _ => isSpace_of_mem_encode a.lead_layout) (by simp [hfirst])
  have hstop : ∀ b ∈ (encode a.before ++ 0x3D :: value).head?, isKeyOctet b = false := by
    cases hbefore : encode a.before with
    | nil => simp [isKeyOctet]
    | cons b before =>
      have hspace := isSpace_of_mem_encode a.before_layout (b := b) (by simp [hbefore])
      simp [isKeyOctet_of_isSpace hspace]
  have hbody := List.takeWhile_dropWhile_append _ _ _ htail hstop
  have hbefore := List.takeWhile_dropWhile_append isSpace (encode a.before)
    (0x3D :: value) (fun _ => isSpace_of_mem_encode a.before_layout) (by simp [isSpace])
  rw [hchars]
  unfold nextAttribute
  rw [hlead.1, hlead.2]
  dsimp only
  rw [hbody.1, hbody.2, hbefore.1, hbefore.2]
  dsimp only
  rw [if_pos rfl, ← hkey, hseen]
  obtain ⟨next, hnext⟩ := exists_cutValue_eq a (encode a.key) (position + (encode a.lead).length)
    (position + (encode a.lead).length + (encode a.key).length + (encode a.before).length + 1) rest
  exact ⟨_, next, hnext⟩

/-- Behind the last attribute only layout may stand. -/
theorem nextAttribute_layout {layout : List Char} (h : ∀ c ∈ layout, isLayout c)
    (seen : List (List UInt8 × Nat)) (position : Nat) :
    nextAttribute seen position (encode layout) = .done := by
  have hdrop : (encode layout).dropWhile isSpace = [] :=
    List.dropWhile_eq_nil_iff.2 fun _ => isSpace_of_mem_encode h
  unfold nextAttribute
  rw [hdrop]

/-- Attributes are read one after the other, if no key comes twice. -/
theorem attributesFrom_eq (written : List WrittenAttribute) {trail : List Char}
    (htrail : ∀ c ∈ trail, isLayout c) (done : List Attribute) (seen : List (List UInt8 × Nat))
    (hseen : ∀ a ∈ written, seen.lookup (encode a.key) = none)
    (hkeys : (written.map (·.key)).Nodup) (position : Nat) :
    attributesFrom done seen position (encode (written.flatMap (·.chars) ++ trail)) =
      (done.reverse ++ written.map (·.raw), none) := by
  induction written generalizing done seen position with
  | nil =>
    rw [attributesFrom]
    split
    · simp
    · rename_i fault heq
      rw [List.flatMap_nil, List.nil_append, nextAttribute_layout htrail] at heq
      cases heq
    · rename_i pair start next rest heq
      rw [List.flatMap_nil, List.nil_append, nextAttribute_layout htrail] at heq
      cases heq
  | cons a written ih =>
    rw [List.map_cons, List.nodup_cons] at hkeys
    have hchars : encode ((a :: written).flatMap (·.chars) ++ trail) =
        encode a.chars ++ encode (written.flatMap (·.chars) ++ trail) := by
      simp
    obtain ⟨start, next, hnext⟩ := exists_nextAttribute_eq a (hseen a List.mem_cons_self) position
      (encode (written.flatMap (·.chars) ++ trail))
    rw [hchars, attributesFrom]
    split
    · rename_i heq
      rw [hnext] at heq
      cases heq
    · rename_i heq
      rw [hnext] at heq
      cases heq
    · rename_i pair start' next' rest heq
      rw [hnext] at heq
      cases heq
      rw [ih]
      · simp
      · -- the key just read counts as seen from here on, and no later one is the same
        intro a' ha'
        have hne : encode a'.key ≠ encode a.key := by
          intro h
          have hkey : a'.key = a.key := Utf8.encode_injective h
          exact hkeys.1 (hkey ▸ List.mem_map_of_mem ha')
        rw [List.lookup_cons]
        have hbeq : (encode a'.key == a.raw.key) = false := beq_eq_false_iff_ne.2 hne
        rw [hbeq]
        exact hseen a' (List.mem_cons_of_mem _ ha')
      · exact hkeys.2

/-! ### Written tags -/

/-- A start tag as it is written: a name, attributes with different keys, and layout. -/
structure WrittenTag where
  name : List Char
  attributes : List WrittenAttribute
  trail : List Char
  name_plain : PlainName name
  keys_nodup : (attributes.map (·.key)).Nodup
  trail_layout : ∀ c ∈ trail, isLayout c

namespace WrittenTag

/-- What stands behind the name. -/
def afterName (t : WrittenTag) : List Char :=
  t.attributes.flatMap (·.chars) ++ t.trail

/-- The characters of a tag between its brackets. -/
def chars (t : WrittenTag) : List Char :=
  t.name ++ t.afterName

/-- The octets of a tag between its brackets. -/
def octets (t : WrittenTag) : List UInt8 :=
  encode t.chars

/-- The octets of a tag are those of its name and those of what follows. -/
theorem octets_eq (t : WrittenTag) : t.octets = encode t.name ++ encode t.afterName :=
  Utf8.encode_append ..

/-- Behind the name of a tag nothing follows, or layout first. -/
theorem afterName_eq_layout_append (t : WrittenTag) :
    t.afterName = [] ∨ ∃ c rest, t.afterName = c :: rest ∧ isLayout c := by
  rw [afterName]
  cases hattributes : t.attributes with
  | nil =>
    cases htrail : t.trail with
    | nil => exact .inl rfl
    | cons c trail => exact .inr ⟨c, trail, rfl, t.trail_layout c (by simp [htrail])⟩
  | cons a attributes =>
    obtain ⟨c, lead, hlead⟩ := List.exists_cons_of_ne_nil a.lead_ne
    have hchars : a.chars = c :: a.chars.tail := by
      simp only [WrittenAttribute.chars, hlead, List.cons_append, List.tail_cons]
    refine .inr ⟨c, a.chars.tail ++ attributes.flatMap (·.chars) ++ t.trail, ?_,
      a.lead_layout c (by simp [hlead])⟩
    rw [List.flatMap_cons, hchars]
    simp

/-- A name ends at the first space. -/
theorem isSpace_head_afterName (t : WrittenTag) :
    ∀ b ∈ (encode t.afterName).head?, (!isSpace b) = false := by
  rcases t.afterName_eq_layout_append with h | ⟨c, rest, h, hc⟩
  · simp [h]
  · intro b hb
    have hmem : b ∈ encode [c] := by
      obtain ⟨first, tail, hchar, -⟩ := Utf8.exists_next_utf8EncodeChar c
      rw [h, Utf8.encode_cons, hchar] at hb
      rw [Utf8.encode_cons, hchar]
      simp_all
    have hlayout : ∀ d ∈ [c], isLayout d := by simpa using hc
    simp [isSpace_of_mem_encode hlayout hmem]

/-- The name read off a written tag is its name. -/
theorem nameOf_octets (t : WrittenTag) : nameOf t.octets = encode t.name := by
  rw [octets_eq, nameOf]
  exact (List.takeWhile_dropWhile_append _ _ _ (fun b hb => by simp [t.name_plain.not_isSpace hb])
    t.isSpace_head_afterName).1

/-- The attributes read off a written tag are its attributes, without a fault. -/
theorem attributes_octets (t : WrittenTag) :
    Markup.attributes t.octets = (t.attributes.map (·.raw), none) := by
  have hdrop : t.octets.drop (encode t.name).length = encode t.afterName := by
    rw [octets_eq, List.drop_left]
  rw [Markup.attributes, nameOf_octets, hdrop]
  exact attributesFrom_eq t.attributes t.trail_layout [] [] (fun _ _ => rfl) t.keys_nodup _

/-- A written tag is balanced. -/
theorem balanced (t : WrittenTag) : Balanced t.octets := by
  have hattributes : Balanced (encode (t.attributes.flatMap (·.chars))) := by
    induction t.attributes with
    | nil => exact Balanced.nil
    | cons a attributes ih =>
      rw [List.flatMap_cons, Utf8.encode_append]
      exact a.balanced.append ih
  rw [octets_eq, afterName, Utf8.encode_append]
  exact t.name_plain.balanced.append (hattributes.append (balanced_layout t.trail_layout))

/-- The first octet of a tag belongs to its name. -/
theorem exists_octets_eq_cons (t : WrittenTag) :
    ∃ b rest, t.octets = b :: rest ∧ b ≠ 0x21 ∧ b ≠ 0x3F ∧ b ≠ 0x2F := by
  obtain ⟨b, tail, hname⟩ := List.exists_cons_of_ne_nil t.name_plain.encode_ne_nil
  have hno {c : Char} (hc : c.toNat < 0x80) (hmark : isNameChar c = false) :
      b ≠ UInt8.ofNat c.toNat := by
    rintro rfl
    exact not_mem_encode hc (t.name_plain.not_mem hmark) (by simp [hname])
  refine ⟨b, tail ++ encode t.afterName, by rw [octets_eq, hname, List.cons_append], ?_, ?_, ?_⟩
  · exact hno (c := '!') (by decide) (by decide)
  · exact hno (c := '?') (by decide) (by decide)
  · exact hno (c := '/') (by decide) (by decide)

/-- The last octet of a tag is no slash: it belongs to the name, is a quote, or is a space. -/
theorem getLast?_octets_ne (t : WrittenTag) : t.octets.getLast? ≠ some 0x2F := by
  have hname : (encode t.name).getLast? ≠ some 0x2F := fun h =>
    not_mem_encode (c := '/') (by decide) (t.name_plain.not_mem (by decide))
      (List.mem_of_getLast? h)
  have hattributes : (encode (t.attributes.flatMap (·.chars))).getLast? ≠ some 0x2F := by
    induction t.attributes with
    | nil => simp
    | cons a attributes ih =>
      rw [List.flatMap_cons, Utf8.encode_append]
      exact List.getLast?_append_ne a.getLast?_encode_chars_ne ih
  have htrail : (encode t.trail).getLast? ≠ some 0x2F := by
    intro h
    have := isSpace_of_mem_encode t.trail_layout (List.mem_of_getLast? h)
    revert this
    decide
  rw [octets_eq, afterName, Utf8.encode_append]
  exact List.getLast?_append_ne hname (List.getLast?_append_ne hattributes htrail)

end WrittenTag

/-! ### The events of tags -/

/-- A start tag is one event. -/
theorem WrittenTag.nextEvent_start (t : WrittenTag) (rest : List UInt8) :
    nextEvent (0x3C :: (t.octets ++ 0x3E :: rest)) = .event (.start t.octets) rest := by
  obtain ⟨b, tail, hcons, hbang, hquery, hslash⟩ := t.exists_octets_eq_cons
  have hcut := t.balanced.cutTag_eq rest
  have hhead : t.octets.head? ≠ some 0x2F := by
    rw [hcons]
    simpa using hslash
  rw [nextEvent, if_pos rfl]
  rw [hcons, List.cons_append] at hcut ⊢
  rw [markup, if_neg hbang, if_neg hquery, tag, hcut, ← hcons]
  dsimp only
  rw [tagEvent, if_neg hhead, if_neg t.getLast?_octets_ne]

/-- A tag that is an element by itself is one event. -/
theorem WrittenTag.nextEvent_empty (t : WrittenTag) (rest : List UInt8) :
    nextEvent (0x3C :: (t.octets ++ 0x2F :: 0x3E :: rest)) = .event (.empty t.octets) rest := by
  obtain ⟨b, tail, hcons, hbang, hquery, hslash⟩ := t.exists_octets_eq_cons
  have hcut := (t.balanced.append balanced_slash).cutTag_eq rest
  have hhead : (t.octets ++ [0x2F]).head? ≠ some 0x2F := by
    rw [hcons]
    simpa using hslash
  have hlast : (t.octets ++ [0x2F]).getLast? = some 0x2F := by simp
  have hassoc : t.octets ++ 0x2F :: 0x3E :: rest = t.octets ++ [0x2F] ++ 0x3E :: rest := by simp
  rw [nextEvent, if_pos rfl, hassoc]
  rw [hcons, List.cons_append, List.cons_append] at hcut ⊢
  rw [markup, if_neg hbang, if_neg hquery, tag, hcut, ← List.cons_append, ← hcons]
  dsimp only
  rw [tagEvent, if_neg hhead, if_pos hlast, List.dropLast_concat]

/-- Spaces behind the name of an end tag do not belong to it. -/
theorem closingName_append {name layout : List Char} (hname : PlainName name)
    (hlayout : ∀ c ∈ layout, isLayout c) :
    closingName (encode name ++ encode layout) = encode name := by
  obtain ⟨b, tail, hcons⟩ := List.exists_cons_of_ne_nil hname.encode_ne_nil
  have hall : ¬(encode name ++ encode layout).all isSpace = true := by
    rw [hcons]
    simp [hname.not_isSpace (b := b) (by simp [hcons])]
  have hstop := List.takeWhile_dropWhile_append isSpace (encode layout).reverse
    (encode name).reverse (fun b hb => isSpace_of_mem_encode hlayout (List.mem_reverse.1 hb))
    (fun b hb => hname.not_isSpace (List.mem_reverse.1 (List.mem_of_head? hb)))
  rw [closingName, if_neg hall, List.reverse_append, hstop.2, List.reverse_reverse]

/-- An end tag is one event, with the name it bears. -/
theorem nextEvent_close {name layout : List Char} (hname : PlainName name)
    (hlayout : ∀ c ∈ layout, isLayout c) (rest : List UInt8) :
    nextEvent (0x3C :: 0x2F :: (encode name ++ (encode layout ++ 0x3E :: rest))) =
      .event (.close (encode name)) rest := by
  have hcut :=
    (balanced_slash.append (hname.balanced.append (balanced_layout hlayout))).cutTag_eq rest
  simp only [List.append_assoc, List.cons_append, List.nil_append] at hcut
  rw [nextEvent, if_pos rfl, markup, if_neg (by decide), if_neg (by decide), tag, hcut]
  dsimp only
  rw [tagEvent, if_pos (by simp), List.drop_one, List.tail_cons, closingName_append hname hlayout]

/-- A tag that is open at the end of the text is no event. -/
theorem nextEvent_unclosed {bytes : List UInt8} (h : Balanced bytes)
    (hhead : ∀ b ∈ bytes.head?, b ≠ 0x21 ∧ b ≠ 0x3F) :
    nextEvent (0x3C :: bytes) = .fault (.token .tag) := by
  rw [nextEvent, if_pos rfl]
  cases bytes with
  | nil => rfl
  | cons b bytes =>
    have hcut := h [] []
    rw [List.append_nil, cutTag] at hcut
    obtain ⟨hbang, hquery⟩ := hhead b rfl
    rw [markup, if_neg hbang, if_neg hquery, tag, hcut]

end Accession.Markup

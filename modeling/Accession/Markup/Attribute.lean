import Accession.Markup.Error
import Accession.Markup.Event
import Accession.Text.Character
set_option autoImplicit false

/-!
# References and attributes

What is inside a text or a tag: references to characters, and attributes.

## Main definitions

* `Markup.escape` — a text with the five named characters as references.
* `Markup.resolve` — a text with its references replaced.
* `Markup.decodeText` — octets decoded, and then resolved.
* `Markup.Attribute` — a key and a value.
* `Markup.attributes` — the attributes of a tag up to the first fault, and that fault.
-/

/-! ## References in texts and values

Five characters have names, and every character can be written by its number. Escaping writes the
five by their names; resolving replaces all references by what they refer to. -/

namespace Accession.Markup

/-- The name of a character that is always written as a reference. -/
def entityName? (c : Char) : Option String :=
  if c = '<' then some "lt"
  else if c = '>' then some "gt"
  else if c = '&' then some "amp"
  else if c = '\'' then some "apos"
  else if c = '"' then some "quot"
  else none

/-- A character as it is written in texts and values. -/
def escapeChar (c : Char) : List Char :=
  match entityName? c with
  | some name => '&' :: name.toList ++ [';']
  | none => [c]

/-- A text as it is written. -/
def escape (text : List Char) : List Char :=
  text.flatMap escapeChar

/-- The character of a name. -/
def named? (name : List Char) : Option Char :=
  if name = ['l', 't'] then some '<'
  else if name = ['g', 't'] then some '>'
  else if name = ['a', 'm', 'p'] then some '&'
  else if name = ['a', 'p', 'o', 's'] then some '\''
  else if name = ['q', 'u', 'o', 't'] then some '"'
  else none

/-- Reads the digits of a number of at most 32 bits, after those that make up `n`. -/
def readNumber (base n : Nat) : List Char → Except ReferenceFault Nat
  | [] => .ok n
  | c :: rest =>
    match Numeral.digitValue? base c with
    | none => .error .digit
    | some d =>
      let n := n * base + d
      if n < 0x100000000 then readNumber base n rest else .error .overflow

/-- The number that some digits write; it has no sign, and at least one digit. -/
def referenceNumber (base : Nat) (digits : List Char) : Except ReferenceFault Nat :=
  match digits with
  | [] => .error .empty
  | c :: _ => if c = '+' ∨ c = '-' then .error .sign else readNumber base 0 digits

/-- The character of a number sign and what follows it: digits, or an `x` and hexadecimal
digits. -/
def numbered (digits : List Char) : Except ReferenceFault Char := do
  let code ← match digits with
    | 'x' :: digits => referenceNumber 16 digits
    | _ => referenceNumber 10 digits
  if code = 0 then .error .null
  else if code.isValidChar then .ok (Char.ofNat code)
  else .error (.noCharacter code)

/-- The character that a reference to `name`, which begins at offset `first`, stands for. -/
def referent (first : Nat) (name : List Char) : Except EntityFault Char :=
  match name with
  | '#' :: digits => (numbered digits).mapError .reference
  | _ =>
    match named? name with
    | some c => .ok c
    | none => .error (.unknown first (first + String.utf8ByteSize (String.ofList name))
        (String.ofList name))

/-- Replaces the references of a text of `total` octets from offset `position` on, after the
characters `done` (last one first). -/
def resolveFrom (total : Nat) (done : List Char) (position : Nat) :
    List Char → Except EntityFault (List Char)
  | [] => .ok done.reverse
  | c :: rest =>
    if c = '&' then
      let name := rest.takeWhile fun c => c != '&' && c != ';'
      match _h : rest.dropWhile fun c => c != '&' && c != ';' with
      | ';' :: after =>
        match referent (position + 1) name with
        | .ok c => resolveFrom total (c :: done)
            (position + 2 + String.utf8ByteSize (String.ofList name)) after
        | .error fault => .error fault
      | _ => .error (.unterminated position total)
    else resolveFrom total (c :: done) (position + c.utf8Size) rest
  termination_by text => text.length
  decreasing_by
    · have hle : (rest.dropWhile fun c => c != '&' && c != ';').length ≤ rest.length :=
        (List.dropWhile_suffix _).length_le
      rw [_h, List.length_cons] at hle
      simp only [List.length_cons]
      omega
    · simp

/-- A text with its references replaced. -/
def resolve (text : List Char) : Except EntityFault (List Char) :=
  resolveFrom (String.utf8ByteSize (String.ofList text)) [] 0 text

/-- The text that octets stand for, decoded and then resolved. -/
def decodeText (bytes : List UInt8) : Except Error String := do
  let text ← (Utf8.decode bytes).mapError .encoding
  let text ← (resolve text).mapError .entity
  return String.ofList text

end Accession.Markup

/-! ## Attributes

The attributes of a tag, read off its content after the name. Keys and values stay octets, and the
reading stops at the first fault, so that a reader who needs only the first attributes does not
notice a fault behind them. -/

namespace Accession.Markup

/-- A key and a value, as they are written. -/
structure Attribute where
  key : List UInt8
  value : List UInt8
  deriving DecidableEq, Repr

/-- What stands at the front of the rest of a tag. -/
inductive AttributeCut where
  | done
  | fault (fault : AttributeFault)
  /-- An attribute whose key stands at `position`, the position after it, and the octets there. -/
  | pair (pair : Attribute) (position next : Nat) (rest : List UInt8)

/-- Whether an octet goes on with a key. The first octet of a key may be anything but a space. -/
def isKeyOctet (b : UInt8) : Bool :=
  !isSpace b && b != 0x3D

/-- The value of an attribute whose key stands at `start`; `bytes`, at `position`, follow the
equals sign. -/
def cutValue (key : List UInt8) (start position : Nat) (bytes : List UInt8) : AttributeCut :=
  let position := position + (bytes.takeWhile isSpace).length
  match bytes.dropWhile isSpace with
  | [] => .fault (.missingValue position)
  | quote :: rest =>
    if quote = 0x22 ∨ quote = 0x27 then
      match cutAt [quote] [] rest with
      | some (value, rest) => .pair ⟨key, value⟩ start (position + value.length + 2) rest
      | none => .fault (.unclosed (position + 1 + rest.length) (Char.ofNat quote.toNat))
    else .fault (.unquoted position)

/-- The first attribute of the octets at `position`, when the keys `seen` stand before it, each
with its position. -/
def nextAttribute (seen : List (List UInt8 × Nat)) (position : Nat) (bytes : List UInt8) :
    AttributeCut :=
  let start := position + (bytes.takeWhile isSpace).length
  match bytes.dropWhile isSpace with
  | [] => .done
  | first :: bytes =>
    let key := first :: bytes.takeWhile isKeyOctet
    let bytes := bytes.dropWhile isKeyOctet
    let equals := start + key.length + (bytes.takeWhile isSpace).length
    match bytes.dropWhile isSpace with
    | [] => .fault (.missingEquals equals)
    | b :: rest =>
      if b = 0x3D then
        match seen.lookup key with
        | some earlier => .fault (.duplicate start earlier)
        | none => cutValue key start (equals + 1) rest
      else .fault (.missingEquals equals)

/-- An attribute takes at least one octet, so a tag has only finitely many. -/
theorem length_cutValue {key bytes rest : List UInt8} {start position first next : Nat}
    {pair : Attribute} (h : cutValue key start position bytes = .pair pair first next rest) :
    rest.length < bytes.length := by
  have hle : (bytes.dropWhile isSpace).length ≤ bytes.length :=
    (List.dropWhile_suffix _).length_le
  unfold cutValue at h
  simp only at h
  split at h
  · cases h
  · rename_i quote after hafter
    rw [hafter, List.length_cons] at hle
    split at h
    · split at h
      · rename_i hcut
        cases h
        have := length_cutAt hcut
        omega
      · cases h
    · cases h

/-- An attribute uses up at least one octet. -/
theorem length_nextAttribute {seen : List (List UInt8 × Nat)} {position start next : Nat}
    {bytes rest : List UInt8} {pair : Attribute}
    (h : nextAttribute seen position bytes = .pair pair start next rest) :
    rest.length < bytes.length := by
  have hskip (p : UInt8 → Bool) (l : List UInt8) : (l.dropWhile p).length ≤ l.length :=
    (List.dropWhile_suffix _).length_le
  unfold nextAttribute at h
  simp only at h
  split at h
  · cases h
  · rename_i first rest₁ hrest₁
    have h1 := hskip isSpace bytes
    have h2 := hskip isKeyOctet rest₁
    have h3 := hskip isSpace (rest₁.dropWhile isKeyOctet)
    rw [hrest₁, List.length_cons] at h1
    split at h
    · cases h
    · rename_i b after hafter
      rw [hafter, List.length_cons] at h3
      split at h
      · split at h
        · cases h
        · have h4 := length_cutValue h
          omega
      · cases h

/-- The attributes in the octets at `position`, after the attributes `done` (last one first). -/
def attributesFrom (done : List Attribute) (seen : List (List UInt8 × Nat)) (position : Nat)
    (bytes : List UInt8) : List Attribute × Option AttributeFault :=
  match _h : nextAttribute seen position bytes with
  | .done => (done.reverse, none)
  | .fault fault => (done.reverse, some fault)
  | .pair pair start next rest =>
    attributesFrom (pair :: done) ((pair.key, start) :: seen) next rest
  termination_by bytes.length
  decreasing_by exact length_nextAttribute _h

/-- The attributes of a tag with this content, up to the first fault, and that fault. -/
def attributes (content : List UInt8) : List Attribute × Option AttributeFault :=
  let name := nameOf content
  attributesFrom [] [] name.length (content.drop name.length)

end Accession.Markup

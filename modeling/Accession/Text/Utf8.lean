set_option autoImplicit false

/-!
# UTF-8

Texts as octets. Encoding is the standard one, and decoding comes in two strengths: a strict one
that says where the octets first depart from UTF-8, and a lenient one that replaces every
departure by the replacement character.

A departure covers the longest run of octets that still begins some character (at least one
octet), so that decoding goes on with the first octet that made the run impossible.

## Main definitions

* `Utf8.encode` — the octets of a text.
* `Utf8.next` — one character, or one departure, from the front of some octets.
* `Utf8.decode` — the text of well-formed octets, or the first departure.
* `Utf8.decodeLossy` — the text with U+FFFD for every departure.
-/

namespace Accession.Utf8

/-- The octets of a text, character by character. -/
def encode (text : List Char) : List UInt8 :=
  text.flatMap String.utf8EncodeChar

/-- Where octets first depart from UTF-8. -/
inductive Fault where
  /-- The `count` octets from `index` on begin no character that the next octet continues. -/
  | invalid (index count : Nat)
  /-- The octets from `index` to the end begin a character and do not finish it. -/
  | incomplete (index : Nat)
  deriving DecidableEq, Repr

/-- What stands at the front of some octets. -/
inductive Step where
  /-- A character, and the octets after it. -/
  | scalar (c : Char) (rest : List UInt8)
  /-- A departure of `count` octets, and the octets after it. -/
  | invalid (count : Nat) (rest : List UInt8)
  /-- The beginning of a character, cut off by the end. -/
  | incomplete

/-- What a lead octet above ASCII announces: the payload it carries, the least and greatest second
octet, and how many octets come after the second. -/
structure Lead where
  payload : Nat
  low : UInt8
  high : UInt8
  more : Nat

/-- The announcement of a lead octet. The bounds on the second octet shut out the overlong forms,
the surrogates and everything above U+10FFFF. -/
def lead? (b : UInt8) : Option Lead :=
  if b < 0xC2 then none
  else if b < 0xE0 then some ⟨b.toNat % 32, 0x80, 0xBF, 0⟩
  else if b = 0xE0 then some ⟨b.toNat % 16, 0xA0, 0xBF, 1⟩
  else if b = 0xED then some ⟨b.toNat % 16, 0x80, 0x9F, 1⟩
  else if b < 0xF0 then some ⟨b.toNat % 16, 0x80, 0xBF, 1⟩
  else if b = 0xF0 then some ⟨b.toNat % 8, 0x90, 0xBF, 2⟩
  else if b < 0xF4 then some ⟨b.toNat % 8, 0x80, 0xBF, 2⟩
  else if b = 0xF4 then some ⟨b.toNat % 8, 0x80, 0x8F, 2⟩
  else none

/-- Reads the octets after a lead octet. `value` is the payload so far, `count` the octets read,
and `more` the octets due after the next one, which lies between `low` and `high`. -/
def follow (value count : Nat) (low high : UInt8) (more : Nat) : List UInt8 → Step
  | [] => .incomplete
  | b :: rest =>
    if low ≤ b ∧ b ≤ high then
      match more with
      | 0 => .scalar (Char.ofNat (value * 64 + b.toNat % 64)) rest
      | more + 1 => follow (value * 64 + b.toNat % 64) (count + 1) 0x80 0xBF more rest
    else .invalid count (b :: rest)

/-- What stands at the front of the octets `b :: rest`. -/
def next (b : UInt8) (rest : List UInt8) : Step :=
  if b < 0x80 then .scalar (Char.ofNat b.toNat) rest
  else match lead? b with
    | some lead => follow lead.payload 1 lead.low lead.high lead.more rest
    | none => .invalid 1 rest

/-- The octets left over by a step. -/
def Step.rest : Step → List UInt8
  | .scalar _ rest => rest
  | .invalid _ rest => rest
  | .incomplete => []

/-- Following octets are taken off the front, so nothing is read twice. -/
theorem length_rest_follow (value count : Nat) (low high : UInt8) (more : Nat)
    (bytes : List UInt8) :
    (follow value count low high more bytes).rest.length ≤ bytes.length := by
  induction bytes generalizing value count low high more with
  | nil => simp [follow, Step.rest]
  | cons b rest ih =>
    unfold follow
    split
    · split
      · simp [Step.rest]
      · exact Nat.le_succ_of_le (ih ..)
    · simp [Step.rest]

/-- A step uses up at least one octet. -/
theorem length_rest_next (b : UInt8) (rest : List UInt8) :
    (next b rest).rest.length ≤ rest.length := by
  unfold next
  split
  · simp [Step.rest]
  · split
    · exact length_rest_follow ..
    · simp [Step.rest]

/-- Decodes the octets from offset `index` on, after the characters `done` (last one first). -/
def decodeFrom (done : List Char) (index : Nat) : List UInt8 → Except Fault (List Char)
  | [] => .ok done.reverse
  | b :: rest =>
    match _h : next b rest with
    | .scalar c rest' => decodeFrom (c :: done) (index + (rest.length + 1 - rest'.length)) rest'
    | .invalid count _ => .error (.invalid index count)
    | .incomplete => .error (.incomplete index)
  termination_by bytes => bytes.length
  decreasing_by
    have hle := length_rest_next b rest
    rw [_h] at hle
    exact Nat.lt_succ_of_le hle

/-- The text of some octets, or where they first depart from UTF-8. -/
def decode (bytes : List UInt8) : Except Fault (List Char) :=
  decodeFrom [] 0 bytes

/-- The character that stands for a departure. -/
def replacement : Char := '\uFFFD'

/-- Decodes leniently after the characters `done` (last one first). -/
def decodeLossyFrom (done : List Char) : List UInt8 → List Char
  | [] => done.reverse
  | b :: rest =>
    match _h : next b rest with
    | .scalar c rest' => decodeLossyFrom (c :: done) rest'
    | .invalid _ rest' => decodeLossyFrom (replacement :: done) rest'
    | .incomplete => (replacement :: done).reverse
  termination_by bytes => bytes.length
  decreasing_by
    all_goals
      have hle := length_rest_next b rest
      rw [_h] at hle
      exact Nat.lt_succ_of_le hle

/-- The text of some octets, with the replacement character for every departure from UTF-8. -/
def decodeLossy (bytes : List UInt8) : List Char :=
  decodeLossyFrom [] bytes

/-- What is wrong, in words. -/
def Fault.message : Fault → String
  | .invalid index count => s!"invalid utf-8 sequence of {count} bytes from index {index}"
  | .incomplete index => s!"incomplete utf-8 byte sequence from index {index}"

end Accession.Utf8

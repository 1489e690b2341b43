set_option autoImplicit false

/-!
# Iterated digests

A digest scheme compresses a message block by block: the message is padded to whole blocks with a
one bit, zeros, and its length in bits; the blocks are then folded into a chaining value, from
which the digest is read off.

The same digest is computed in two ways: of a message as a whole, and octet by octet, holding no
more than one block at a time.

## Main definitions

* `Digest.Scheme` — what tells one scheme from another.
* `Digest.Scheme.digest` — the digest of a whole message.
* `Digest.Hasher` — a digest under way, which takes octets as they come.
* `Digest.Hasher.update`, `Digest.Hasher.finish` — takes more octets, and the digest of all taken.
-/

namespace Accession.Digest

/-- The width of the words that a scheme works on. Sixteen words make a block. -/
inductive WordWidth where
  | bits32
  | bits64
  deriving DecidableEq, Repr

/-- The number of octets in a block. -/
def WordWidth.blockSize : WordWidth → Nat
  | .bits32 => 64
  | .bits64 => 128

/-- A digest scheme: its words, its chaining values, the octets of a message length (given in bits),
how a block is compressed into a chaining value, and how a digest is read off. -/
structure Scheme where
  width : WordWidth
  Chain : Type
  start : Chain
  lengthField : Nat → List UInt8
  compress : Chain → List UInt8 → Chain
  output : Chain → List UInt8

namespace Scheme

variable (s : Scheme)

/-- The number of octets in a block. -/
def blockSize : Nat :=
  s.width.blockSize

/-- A block holds at least one octet, so cutting into blocks comes to an end. -/
theorem blockSize_pos : 0 < s.blockSize := by
  unfold blockSize
  cases s.width <;> decide

/-- What follows a message of `n` octets: a one bit, as few zeros as make whole blocks, and the
length. -/
def padding (n : Nat) : List UInt8 :=
  let field := s.lengthField (8 * n)
  let zeros := (s.blockSize - (n + 1 + field.length) % s.blockSize) % s.blockSize
  0x80 :: List.replicate zeros 0 ++ field

/-- Octets in pieces of the block size; only the last one may be shorter. -/
def blocks (bytes : List UInt8) : List (List UInt8) :=
  if _h : bytes = [] then []
  else bytes.take s.blockSize :: blocks (bytes.drop s.blockSize)
  termination_by bytes.length
  decreasing_by
    have := List.length_pos_iff.2 _h
    have := s.blockSize_pos
    simp only [List.length_drop]
    omega

/-- The digest of a whole message. -/
def digest (bytes : List UInt8) : List UInt8 :=
  s.output ((s.blocks (bytes ++ s.padding bytes.length)).foldl s.compress s.start)

end Scheme

/-- A digest under way: the chaining value of the whole blocks so far, the octets after them (last
one first) with their number, and the number of all octets taken. -/
structure Hasher (s : Scheme) where
  chain : s.Chain
  pending : List UInt8
  count : Nat
  total : Nat

namespace Hasher

variable {s : Scheme}

/-- A digest of nothing so far. -/
def new (s : Scheme) : Hasher s :=
  ⟨s.start, [], 0, 0⟩

/-- Takes one octet, and compresses the block if that fills it. -/
def absorb (h : Hasher s) (b : UInt8) : Hasher s :=
  if h.count + 1 = s.blockSize then
    ⟨s.compress h.chain (b :: h.pending).reverse, [], 0, h.total + 1⟩
  else ⟨h.chain, b :: h.pending, h.count + 1, h.total + 1⟩

/-- Takes octets in order. -/
def update (h : Hasher s) (bytes : List UInt8) : Hasher s :=
  bytes.foldl absorb h

/-- The digest of all octets taken. -/
def finish (h : Hasher s) : List UInt8 :=
  s.output (h.update (s.padding h.total)).chain

/-- Taking octets in two portions is taking them at once. -/
theorem update_append (h : Hasher s) (xs ys : List UInt8) :
    h.update (xs ++ ys) = (h.update xs).update ys :=
  List.foldl_append

end Hasher

/-! ### Words and octets -/

/-- Words of four octets each, most significant octet first. -/
def bigEndian32 : List UInt8 → List UInt32
  | a :: b :: c :: d :: rest =>
    (a.toUInt32 <<< 24 ||| b.toUInt32 <<< 16 ||| c.toUInt32 <<< 8 ||| d.toUInt32) ::
      bigEndian32 rest
  | _ => []

/-- Words of four octets each, least significant octet first. -/
def littleEndian32 : List UInt8 → List UInt32
  | a :: b :: c :: d :: rest =>
    (d.toUInt32 <<< 24 ||| c.toUInt32 <<< 16 ||| b.toUInt32 <<< 8 ||| a.toUInt32) ::
      littleEndian32 rest
  | _ => []

/-- Words of eight octets each, most significant octet first. -/
def bigEndian64 : List UInt8 → List UInt64
  | a :: b :: c :: d :: e :: f :: g :: h :: rest =>
    (a.toUInt64 <<< 56 ||| b.toUInt64 <<< 48 ||| c.toUInt64 <<< 40 ||| d.toUInt64 <<< 32 |||
      e.toUInt64 <<< 24 ||| f.toUInt64 <<< 16 ||| g.toUInt64 <<< 8 ||| h.toUInt64) ::
      bigEndian64 rest
  | _ => []

/-- The lowest `n` octets of a number, least significant first. -/
def littleEndianOctets : Nat → Nat → List UInt8
  | 0, _ => []
  | n + 1, value => UInt8.ofNat value :: littleEndianOctets n (value / 256)

/-- The lowest `n` octets of a number, most significant first. -/
def bigEndianOctets (n value : Nat) : List UInt8 :=
  (littleEndianOctets n value).reverse

/-- A word turned left by `n` bits, `0 < n < 32`. -/
def rotateLeft32 (x : UInt32) (n : UInt32) : UInt32 :=
  x <<< n ||| x >>> (32 - n)

/-- A word turned right by `n` bits, `0 < n < 64`. -/
def rotateRight64 (x : UInt64) (n : UInt64) : UInt64 :=
  x >>> n ||| x <<< (64 - n)

end Accession.Digest

import Accession.Digest.Scheme
set_option autoImplicit false

/-!
# MD5, SHA-1 and SHA-2

The digest schemes that checksums are computed with.

## Main definitions

* `Digest.md5` — the digest scheme.
* `Digest.sha1` — the digest scheme.
* `Digest.Sha2.Width` — what tells the two apart.
* `Digest.sha256`, `Digest.sha512` — the digest schemes.
-/

/-! ## MD5

The digest scheme MD5: four words of 32 bits, blocks of 64 octets, least significant octet first. -/

namespace Accession.Digest

namespace Md5

/-- Four words, the chaining value. -/
structure Four where
  a : UInt32
  b : UInt32
  c : UInt32
  d : UInt32

/-- The absolute sines of 1 to 64, scaled by two to the power of 32 and rounded down. -/
def constants : List UInt32 :=
  [0xD76AA478, 0xE8C7B756, 0x242070DB, 0xC1BDCEEE, 0xF57C0FAF, 0x4787C62A,
   0xA8304613, 0xFD469501, 0x698098D8, 0x8B44F7AF, 0xFFFF5BB1, 0x895CD7BE,
   0x6B901122, 0xFD987193, 0xA679438E, 0x49B40821, 0xF61E2562, 0xC040B340,
   0x265E5A51, 0xE9B6C7AA, 0xD62F105D, 0x02441453, 0xD8A1E681, 0xE7D3FBC8,
   0x21E1CDE6, 0xC33707D6, 0xF4D50D87, 0x455A14ED, 0xA9E3E905, 0xFCEFA3F8,
   0x676F02D9, 0x8D2A4C8A, 0xFFFA3942, 0x8771F681, 0x6D9D6122, 0xFDE5380C,
   0xA4BEEA44, 0x4BDECFA9, 0xF6BB4B60, 0xBEBFBC70, 0x289B7EC6, 0xEAA127FA,
   0xD4EF3085, 0x04881D05, 0xD9D4D039, 0xE6DB99E5, 0x1FA27CF8, 0xC4AC5665,
   0xF4292244, 0x432AFF97, 0xAB9423A7, 0xFC93A039, 0x655B59C3, 0x8F0CCC92,
   0xFFEFF47D, 0x85845DD1, 0x6FA87E4F, 0xFE2CE6E0, 0xA3014314, 0x4E0811A1,
   0xF7537E82, 0xBD3AF235, 0x2AD7D2BB, 0xEB86D391]

/-- How a step of one of the four rounds mixes three words, which word of the block it takes as
its `i`-th step, and by how many bits it turns. -/
structure Round where
  mix : UInt32 → UInt32 → UInt32 → UInt32
  word : Nat → Nat
  turns : List UInt32

/-- The round that a step belongs to. -/
def roundOf (i : Nat) : Round :=
  match i / 16 with
  | 0 => ⟨fun b c d => (b &&& c) ||| (~~~b &&& d), fun i => i, [7, 12, 17, 22]⟩
  | 1 => ⟨fun b c d => (d &&& b) ||| (~~~d &&& c), fun i => 5 * i + 1, [5, 9, 14, 20]⟩
  | 2 => ⟨fun b c d => b ^^^ c ^^^ d, fun i => 3 * i + 5, [4, 11, 16, 23]⟩
  | _ => ⟨fun b c d => c ^^^ (b ||| ~~~d), fun i => 7 * i, [6, 10, 15, 21]⟩

/-- The `i`-th step on the words of a block. -/
def step (words : Array UInt32) (x : Four) (constant : UInt32) (i : Nat) : Four :=
  let round := roundOf i
  let sum := x.a + round.mix x.b x.c x.d + constant + words.getD (round.word i % 16) 0
  ⟨x.d, x.b + rotateLeft32 sum (round.turns.getD (i % 4) 0), x.b, x.c⟩

/-- Compresses the sixteen words of a block into a chaining value. -/
def compress (x : Four) (words : List UInt32) : Four :=
  let y := constants.zipIdx.foldl (fun y ki => step words.toArray y ki.1 ki.2) x
  ⟨x.a + y.a, x.b + y.b, x.c + y.c, x.d + y.d⟩

end Md5

/-- MD5. -/
def md5 : Scheme where
  width := .bits32
  Chain := Md5.Four
  start := ⟨0x67452301, 0xEFCDAB89, 0x98BADCFE, 0x10325476⟩
  lengthField := littleEndianOctets 8
  compress x block := Md5.compress x (littleEndian32 block)
  output x := [x.a, x.b, x.c, x.d].flatMap fun word => littleEndianOctets 4 word.toNat

end Accession.Digest

/-! ## SHA-1

The digest scheme SHA-1: five words of 32 bits, blocks of 64 octets, most significant octet first.
-/

namespace Accession.Digest

namespace Sha1

/-- Five words, the chaining value. -/
structure Five where
  a : UInt32
  b : UInt32
  c : UInt32
  d : UInt32
  e : UInt32

/-- Extends the message schedule (last word first) by `n` words. -/
def extend : Nat → List UInt32 → List UInt32
  | 0, words => words
  | n + 1, words =>
    extend n (rotateLeft32 (words.getD 2 0 ^^^ words.getD 7 0 ^^^ words.getD 13 0 ^^^
      words.getD 15 0) 1 :: words)

/-- How the `i`-th step mixes three words, with its constant added. -/
def mix (i : Nat) (b c d : UInt32) : UInt32 :=
  match i / 20 with
  | 0 => ((b &&& c) ||| (~~~b &&& d)) + 0x5A827999
  | 1 => (b ^^^ c ^^^ d) + 0x6ED9EBA1
  | 2 => ((b &&& c) ||| (b &&& d) ||| (c &&& d)) + 0x8F1BBCDC
  | _ => (b ^^^ c ^^^ d) + 0xCA62C1D6

/-- The `i`-th step, with its word of the schedule. -/
def step (x : Five) (word : UInt32) (i : Nat) : Five :=
  ⟨rotateLeft32 x.a 5 + mix i x.b x.c x.d + x.e + word, x.a, rotateLeft32 x.b 30, x.c, x.d⟩

/-- Compresses the sixteen words of a block into a chaining value. -/
def compress (x : Five) (words : List UInt32) : Five :=
  let y := (extend 64 words.reverse).reverse.zipIdx.foldl (fun y wi => step y wi.1 wi.2) x
  ⟨x.a + y.a, x.b + y.b, x.c + y.c, x.d + y.d, x.e + y.e⟩

end Sha1

/-- SHA-1. -/
def sha1 : Scheme where
  width := .bits32
  Chain := Sha1.Five
  start := ⟨0x67452301, 0xEFCDAB89, 0x98BADCFE, 0x10325476, 0xC3D2E1F0⟩
  lengthField := bigEndianOctets 8
  compress x block := Sha1.compress x (bigEndian32 block)
  output x := [x.a, x.b, x.c, x.d, x.e].flatMap fun word => bigEndianOctets 4 word.toNat

end Accession.Digest

/-! ## SHA-256 and SHA-512

The two widths of one scheme: words of 32 bits in blocks of 64 octets, and words of 64 bits in
blocks of 128 octets. They share the message schedule and the round, and differ in the word, the
amounts by which words are turned, the constants and the start value. -/

namespace Accession.Digest

namespace Sha2

/-- Eight words, the chaining value. -/
structure Eight (ω : Type) where
  a : ω
  b : ω
  c : ω
  d : ω
  e : ω
  f : ω
  g : ω
  h : ω

/-- Word by word sum. -/
def Eight.add {ω : Type} [Add ω] (x y : Eight ω) : Eight ω :=
  ⟨x.a + y.a, x.b + y.b, x.c + y.c, x.d + y.d, x.e + y.e, x.f + y.f, x.g + y.g, x.h + y.h⟩

/-- The words in order. -/
def Eight.toList {ω : Type} (x : Eight ω) : List ω :=
  [x.a, x.b, x.c, x.d, x.e, x.f, x.g, x.h]

/-- A width of the scheme: the four functions that mix the bits of one word, the constant of each
round, and the start value. -/
structure Width (ω : Type) where
  sum0 : ω → ω
  sum1 : ω → ω
  sigma0 : ω → ω
  sigma1 : ω → ω
  constants : List ω
  start : Eight ω

section

variable {ω : Type} [Add ω] [AndOp ω] [XorOp ω] [Complement ω] [OfNat ω 0] (w : Width ω)

/-- Extends the message schedule (last word first) by `n` words. -/
def extend : Nat → List ω → List ω
  | 0, words => words
  | n + 1, words =>
    extend n ((w.sigma1 (words.getD 1 0) + words.getD 6 0 + w.sigma0 (words.getD 14 0) +
      words.getD 15 0) :: words)

/-- One round, with its constant and its word of the schedule. -/
def round (x : Eight ω) (constant word : ω) : Eight ω :=
  let choice := (x.e &&& x.f) ^^^ (~~~x.e &&& x.g)
  let majority := (x.a &&& x.b) ^^^ (x.a &&& x.c) ^^^ (x.b &&& x.c)
  let t1 := x.h + w.sum1 x.e + choice + constant + word
  let t2 := w.sum0 x.a + majority
  ⟨t1 + t2, x.a, x.b, x.c, x.d + t1, x.e, x.f, x.g⟩

/-- Compresses the sixteen words of a block into a chaining value. -/
def compress (x : Eight ω) (words : List ω) : Eight ω :=
  let schedule := (extend w (w.constants.length - 16) words.reverse).reverse
  x.add ((w.constants.zip schedule).foldl (fun x kw => round w x kw.1 kw.2) x)

end

/-- A word turned right by `n` bits, `0 < n < 32`. -/
def right32 (x n : UInt32) : UInt32 :=
  rotateLeft32 x (32 - n)

/-- The first 32 bits after the point of the cube roots of the first 64 primes. -/
def constants256 : List UInt32 :=
  [0x428A2F98, 0x71374491, 0xB5C0FBCF, 0xE9B5DBA5, 0x3956C25B, 0x59F111F1,
   0x923F82A4, 0xAB1C5ED5, 0xD807AA98, 0x12835B01, 0x243185BE, 0x550C7DC3,
   0x72BE5D74, 0x80DEB1FE, 0x9BDC06A7, 0xC19BF174, 0xE49B69C1, 0xEFBE4786,
   0x0FC19DC6, 0x240CA1CC, 0x2DE92C6F, 0x4A7484AA, 0x5CB0A9DC, 0x76F988DA,
   0x983E5152, 0xA831C66D, 0xB00327C8, 0xBF597FC7, 0xC6E00BF3, 0xD5A79147,
   0x06CA6351, 0x14292967, 0x27B70A85, 0x2E1B2138, 0x4D2C6DFC, 0x53380D13,
   0x650A7354, 0x766A0ABB, 0x81C2C92E, 0x92722C85, 0xA2BFE8A1, 0xA81A664B,
   0xC24B8B70, 0xC76C51A3, 0xD192E819, 0xD6990624, 0xF40E3585, 0x106AA070,
   0x19A4C116, 0x1E376C08, 0x2748774C, 0x34B0BCB5, 0x391C0CB3, 0x4ED8AA4A,
   0x5B9CCA4F, 0x682E6FF3, 0x748F82EE, 0x78A5636F, 0x84C87814, 0x8CC70208,
   0x90BEFFFA, 0xA4506CEB, 0xBEF9A3F7, 0xC67178F2]

/-- The first 64 bits after the point of the cube roots of the first 80 primes. -/
def constants512 : List UInt64 :=
  [0x428A2F98D728AE22, 0x7137449123EF65CD, 0xB5C0FBCFEC4D3B2F, 0xE9B5DBA58189DBBC,
   0x3956C25BF348B538, 0x59F111F1B605D019, 0x923F82A4AF194F9B, 0xAB1C5ED5DA6D8118,
   0xD807AA98A3030242, 0x12835B0145706FBE, 0x243185BE4EE4B28C, 0x550C7DC3D5FFB4E2,
   0x72BE5D74F27B896F, 0x80DEB1FE3B1696B1, 0x9BDC06A725C71235, 0xC19BF174CF692694,
   0xE49B69C19EF14AD2, 0xEFBE4786384F25E3, 0x0FC19DC68B8CD5B5, 0x240CA1CC77AC9C65,
   0x2DE92C6F592B0275, 0x4A7484AA6EA6E483, 0x5CB0A9DCBD41FBD4, 0x76F988DA831153B5,
   0x983E5152EE66DFAB, 0xA831C66D2DB43210, 0xB00327C898FB213F, 0xBF597FC7BEEF0EE4,
   0xC6E00BF33DA88FC2, 0xD5A79147930AA725, 0x06CA6351E003826F, 0x142929670A0E6E70,
   0x27B70A8546D22FFC, 0x2E1B21385C26C926, 0x4D2C6DFC5AC42AED, 0x53380D139D95B3DF,
   0x650A73548BAF63DE, 0x766A0ABB3C77B2A8, 0x81C2C92E47EDAEE6, 0x92722C851482353B,
   0xA2BFE8A14CF10364, 0xA81A664BBC423001, 0xC24B8B70D0F89791, 0xC76C51A30654BE30,
   0xD192E819D6EF5218, 0xD69906245565A910, 0xF40E35855771202A, 0x106AA07032BBD1B8,
   0x19A4C116B8D2D0C8, 0x1E376C085141AB53, 0x2748774CDF8EEB99, 0x34B0BCB5E19B48A8,
   0x391C0CB3C5C95A63, 0x4ED8AA4AE3418ACB, 0x5B9CCA4F7763E373, 0x682E6FF3D6B2B8A3,
   0x748F82EE5DEFB2FC, 0x78A5636F43172F60, 0x84C87814A1F0AB72, 0x8CC702081A6439EC,
   0x90BEFFFA23631E28, 0xA4506CEBDE82BDE9, 0xBEF9A3F7B2C67915, 0xC67178F2E372532B,
   0xCA273ECEEA26619C, 0xD186B8C721C0C207, 0xEADA7DD6CDE0EB1E, 0xF57D4F7FEE6ED178,
   0x06F067AA72176FBA, 0x0A637DC5A2C898A6, 0x113F9804BEF90DAE, 0x1B710B35131C471B,
   0x28DB77F523047D84, 0x32CAAB7B40C72493, 0x3C9EBE0A15C9BEBC, 0x431D67C49C100D4C,
   0x4CC5D4BECB3E42B6, 0x597F299CFC657E2A, 0x5FCB6FAB3AD6FAEC, 0x6C44198C4A475817]

/-- The width of 32 bits. It starts from the first bits after the point of the square roots of the
first eight primes. -/
def width256 : Width UInt32 where
  sum0 x := right32 x 2 ^^^ right32 x 13 ^^^ right32 x 22
  sum1 x := right32 x 6 ^^^ right32 x 11 ^^^ right32 x 25
  sigma0 x := right32 x 7 ^^^ right32 x 18 ^^^ x >>> 3
  sigma1 x := right32 x 17 ^^^ right32 x 19 ^^^ x >>> 10
  constants := constants256
  start :=
    ⟨0x6A09E667, 0xBB67AE85, 0x3C6EF372, 0xA54FF53A,
     0x510E527F, 0x9B05688C, 0x1F83D9AB, 0x5BE0CD19⟩

/-- The width of 64 bits, which starts from the same square roots. -/
def width512 : Width UInt64 where
  sum0 x := rotateRight64 x 28 ^^^ rotateRight64 x 34 ^^^ rotateRight64 x 39
  sum1 x := rotateRight64 x 14 ^^^ rotateRight64 x 18 ^^^ rotateRight64 x 41
  sigma0 x := rotateRight64 x 1 ^^^ rotateRight64 x 8 ^^^ x >>> 7
  sigma1 x := rotateRight64 x 19 ^^^ rotateRight64 x 61 ^^^ x >>> 6
  constants := constants512
  start :=
    ⟨0x6A09E667F3BCC908, 0xBB67AE8584CAA73B, 0x3C6EF372FE94F82B,
     0xA54FF53A5F1D36F1, 0x510E527FADE682D1, 0x9B05688C2B3E6C1F,
     0x1F83D9ABFB41BD6B, 0x5BE0CD19137E2179⟩

end Sha2

/-- SHA-256. -/
def sha256 : Scheme where
  width := .bits32
  Chain := Sha2.Eight UInt32
  start := Sha2.width256.start
  lengthField := bigEndianOctets 8
  compress x block := Sha2.compress Sha2.width256 x (bigEndian32 block)
  output x := x.toList.flatMap fun word => bigEndianOctets 4 word.toNat

/-- SHA-512. -/
def sha512 : Scheme where
  width := .bits64
  Chain := Sha2.Eight UInt64
  start := Sha2.width512.start
  lengthField := bigEndianOctets 16
  compress x block := Sha2.compress Sha2.width512 x (bigEndian64 block)
  output x := x.toList.flatMap fun word => bigEndianOctets 8 word.toNat

end Accession.Digest

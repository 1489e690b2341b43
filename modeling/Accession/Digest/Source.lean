import Accession.Digest.Functions
import Accession.Files.Access
import Accession.Text.Character
set_option autoImplicit false

/-!
# Checksums

The checksum algorithms by their names, and the checksum of what a source or a file hands out.

## Main definitions

* `Digest.Algorithm` — the four algorithms.
* `Digest.Error` — why there is no digest.
* `Digest.Algorithm.ofName?`, `Digest.Algorithm.named` — the algorithm of a name.
* `Digest.Algorithm.digest` — the digest of some octets, as lower-case hexadecimal digits.
* `Digest.Read` — what one read of a source yields.
* `Digest.Algorithm.digestReads` — the digest of what a source hands out.
* `Files.digest` — the digest of the file at a path.
-/

/-! ## Checksum algorithms

The checksum algorithms that a manifest may name, with their names and their digest schemes.
Names are compared exactly, with regard to case. -/

namespace Accession.Digest

/-- The algorithms a manifest may name. -/
inductive Algorithm where
  | md5
  | sha1
  | sha256
  | sha512
  deriving DecidableEq, Repr

/-- Why there is no digest. -/
inductive Error where
  | unsupportedAlgorithm (name : String)
  /-- The octets could not be read. -/
  | unreadable (reason : String)
  deriving DecidableEq, Repr

/-- What is wrong, in words. -/
def Error.message : Error → String
  | .unsupportedAlgorithm name => "unsupported checksum algorithm: " ++ Quoted.quote name
  | .unreadable reason => "I/O error: " ++ reason

namespace Algorithm

/-- Every algorithm. -/
def all : List Algorithm :=
  [.md5, .sha1, .sha256, .sha512]

/-- The name in manifests. -/
def name : Algorithm → String
  | .md5 => "MD5"
  | .sha1 => "SHA-1"
  | .sha256 => "SHA-256"
  | .sha512 => "SHA-512"

/-- The algorithm of a name. -/
def ofName? (name : String) : Option Algorithm :=
  all.find? (·.name = name)

/-- The algorithm of a name, or that there is none. -/
def named (name : String) : Except Error Algorithm :=
  match ofName? name with
  | some algorithm => .ok algorithm
  | none => .error (.unsupportedAlgorithm name)

/-- The digest scheme. -/
def scheme : Algorithm → Scheme
  | .md5 => Digest.md5
  | .sha1 => Digest.sha1
  | .sha256 => Digest.sha256
  | .sha512 => Digest.sha512

/-- The digest of some octets, as lower-case hexadecimal digits. -/
def digest (algorithm : Algorithm) (bytes : List UInt8) : String :=
  Numeral.hex (algorithm.scheme.digest bytes)

/-- A name finds the algorithm that bears it. -/
theorem ofName?_eq_some_iff {name : String} {algorithm : Algorithm} :
    ofName? name = some algorithm ↔ algorithm.name = name := by
  constructor
  · intro h
    simpa using List.find?_some h
  · rintro rfl
    cases algorithm <;> decide +kernel

end Algorithm

end Accession.Digest

/-! ## Digests of a source of octets

A source hands out its octets in portions, one for each read. A read may also be interrupted, in
which case it is tried again, or fail, which ends the digest. A portion without octets is the end.
-/

namespace Accession.Digest

/-- What one read of a source yields. -/
inductive Read where
  /-- Some octets; none at all mean the end. -/
  | portion (bytes : List UInt8)
  /-- Nothing yet: the read is to be tried again. -/
  | interrupted
  /-- A failure, in the words of the source. -/
  | failure (reason : String)
  deriving DecidableEq, Repr

/-- Feeds what a source hands out into a digest under way, up to the end or the first failure. -/
def Hasher.readAll {s : Scheme} (h : Hasher s) : List Read → Except String (Hasher s)
  | [] => .ok h
  | .portion [] :: _ => .ok h
  | .portion bytes :: reads => readAll (h.update bytes) reads
  | .interrupted :: reads => readAll h reads
  | .failure reason :: _ => .error reason

/-- The digest of what a source hands out, as lower-case hexadecimal digits, or the failure of a
read. -/
def Algorithm.digestReads (algorithm : Algorithm) (reads : List Read) : Except Error String :=
  match (Hasher.new algorithm.scheme).readAll reads with
  | .ok h => .ok (Numeral.hex h.finish)
  | .error reason => .error (.unreadable reason)

end Accession.Digest

/-! ## Digests of files

The digest of a file is that of the octets that reading it hands out. The name of the algorithm is
looked at before the file. -/

namespace Accession.Files

/-- The digest of the file at a path, under the algorithm of this name. -/
def digest (t : FileTree) (path algorithm : String) : Except Digest.Error String := do
  let algorithm ← Digest.Algorithm.named algorithm
  match read t path with
  | .ok content => algorithm.digestReads [.portion content]
  | .error fault => .error (.unreadable fault.message)

end Accession.Files

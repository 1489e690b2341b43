import Accession.Manifest.Reader
import Accession.Text.Character
set_option autoImplicit false

/-!
# Reconciling a manifest with files

The declared files are compared with the files that are there. A file is missing if it is only
declared, unexpected if it is only there, and its checksum is computed and compared if it is both.
Findings are data: a package with problems has a report like any other.

Checksums come from a source that may fail, and whose requests may be observed, so the comparison
runs in whatever monad the source lives in. It asks for the paths in order and stops at the first
failure.

## Main definitions

* `FileSet` — paths in order, each once.
* `Package.Report` — what a comparison finds.
* `Package.reconcile` — the comparison.
-/

namespace Accession

/-- A set of paths. -/
abbrev FileSet :=
  Index String Unit

namespace Package

/-- What a comparison finds: the missing and the unexpected paths, and one line for each checksum
that differs. -/
structure Report where
  missing : List String
  unexpected : List String
  mismatches : List String
  deriving DecidableEq, Repr

/-- Whether anything was found. -/
def Report.failed (report : Report) : Bool :=
  !report.missing.isEmpty || !report.unexpected.isEmpty || !report.mismatches.isEmpty

/-- The line for a checksum that differs. The three texts are quoted, so the line holds no line
break of theirs. -/
def mismatchLine (path expected computed : String) : String :=
  "Checksum mismatch for " ++ Quoted.quote path ++ " (expected: " ++ Quoted.quote expected ++
    ", got: " ++ Quoted.quote computed ++ ")"

variable {m : Type → Type} [Monad m]

/-- Asks for the checksum of each declared file in turn, and keeps a line for each one that
differs. -/
def mismatches (checksum : String → String → m String) :
    List (String × Declaration) → m (List String)
  | [] => pure []
  | (path, declared) :: rest => do
    let computed ← checksum path declared.algorithm
    let lines ← mismatches checksum rest
    if computed = declared.hash then pure lines
    else pure (mismatchLine path declared.hash computed :: lines)

/-- Compares a manifest with files, taking the checksum of a path under an algorithm from
`checksum`. -/
def reconcile (manifest : Manifest) (files : FileSet) (checksum : String → String → m String) :
    m Report := do
  let lines ← mismatches checksum (manifest.entries.filter fun entry => files.contains entry.1)
  return {
    missing := manifest.keys.filter (!files.contains ·)
    unexpected := files.keys.filter (!manifest.contains ·)
    mismatches := lines }

end Package

end Accession

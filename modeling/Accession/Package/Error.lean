import Accession.Digest.Source
import Accession.Manifest.Reader
set_option autoImplicit false

/-!
# What can go wrong with a package

The causes for which a package cannot be read or checked. Findings about its files are none of
them.

## Main definitions

* `Package.Error` — the causes.
* `Package.Error.message`, `Package.Error.causes` — the wording, and that of what is behind it.
-/

namespace Accession.Package

/-- Why a package cannot be read or checked. -/
inductive Error where
  | manifest (error : Manifest.Error)
  /-- The file system refused `action` on `path`. -/
  | storage (action path reason : String)
  | unsupportedAlgorithm (name : String)
  | unknownKind (name : String)
  deriving DecidableEq, Repr

/-- What is wrong, in words. -/
def Error.message : Error → String
  | .manifest error => error.message
  | .storage action path reason => s!"{action} {path}: {reason}"
  | .unsupportedAlgorithm name => (Digest.Error.unsupportedAlgorithm name).message
  | .unknownKind name => "unknown package type: " ++ Quoted.quote name

/-- What is behind it, outermost first. -/
def Error.causes : Error → List String
  | .manifest error => error.causes
  | .storage _ _ reason => [reason]
  | _ => []

end Accession.Package

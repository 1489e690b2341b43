import Accession.Files.Access
import Accession.Files.Path
import Accession.Json
import Accession.Manifest.Reader
import Accession.Package.Kind
import Accession.Text.Utf8
set_option autoImplicit false

/-!
# The identifier sidecar

When a package is restructured for preservation its files move, and keep the identifiers that the
manifest gave them. These are kept in a file beside the package.

## Main definitions

* `Restructured.Error` — the causes, with their wording.
* `Restructured.Rule` — where a file goes.
* `Restructured.projectPath` — the new location of a declared path.
* `Restructured.project` — the records of all declared files that have one.
* `Restructured.sidecar` — the text of a sidecar.
* `Restructured.readSidecar` — the records in the text of a sidecar.
* `Restructured.writeSidecar` — puts the sidecar into a file.
-/

/-! ## What can go wrong with a sidecar

The causes for which no sidecar is written. -/

namespace Accession.Restructured

/-- Why no sidecar is written. -/
inductive Error where
  /-- The manifest declares nothing. -/
  | emptyManifest
  /-- The file system refused `action` on `path`. -/
  | storage (action path reason : String)
  deriving DecidableEq, Repr

/-- What is wrong, in words. -/
def Error.message : Error → String
  | .emptyManifest => "no files in manifest"
  | .storage action path reason => s!"{action} {path}: {reason}"

/-- What is behind it, outermost first. -/
def Error.causes : Error → List String
  | .emptyManifest => []
  | .storage _ _ reason => [reason]

end Accession.Restructured

/-! ## Projecting identifiers

When a package is restructured for preservation its files move, and keep the identifiers that the
manifest gave them. A rule looks at the last segment of a path, or at the first, and says where the
file goes; a file that no rule knows is left out. -/

namespace Accession.Restructured

/-- An identifier with its type. -/
structure LocalIdentifier where
  identifier : String
  identifierType : String
  deriving DecidableEq, Repr

/-- A file of the restructured package and the identifiers it keeps. -/
structure Record where
  file : String
  identifiers : List LocalIdentifier
  deriving DecidableEq, Repr

/-- The last segment of a path. -/
def baseName (path : String) : String :=
  (Path.segments path).getLastD ""

/-- The first segment of a path. -/
def firstName (path : String) : String :=
  (Path.segments path).headD ""

/-- Where a file goes. -/
inductive Rule where
  /-- With the provenance and the updated metadata, under its own name. -/
  | provenance
  /-- In place of the metadata of the package. -/
  | metadata
  /-- With the payload, under its own path. -/
  | payload
  deriving DecidableEq, Repr

/-- Whether a file of this name goes with the provenance. -/
def isProvenance (base : String) : Bool :=
  Package.provenanceSuffix.toList.isSuffixOf base.toList || base = "UpdatedAreldaMetadata.xml"

/-- The rule for a path that starts from the package: the first that applies. -/
def rule? (path : String) : Option Rule :=
  let base := baseName path
  if isProvenance base then some .provenance
  else if base = "metadata.xml" then some .metadata
  else if firstName path = Package.contentDirectory then some .payload
  else none

/-- Where a rule takes a path that starts from the package called `name`. -/
def Rule.target (rule : Rule) (name path : String) : String :=
  match rule with
  | .provenance => "metadata/" ++ baseName path
  | .metadata => "objects/" ++ name ++ "/header/metadata.xml"
  | .payload => "objects/" ++ name ++ "/" ++ path

/-- A path of a manifest, as it starts from the package. -/
def rooted (kind : Package.Kind) (path : String) : String :=
  match kind.scanRoot with
  | some root => root ++ "/" ++ path
  | none => path

/-- The new location of a path of a manifest; `none` if the file is left out. -/
def projectPath (path : String) (kind : Package.Kind) (name : String) : Option String :=
  let path := rooted kind path
  (rule? path).map (·.target name path)

/-- The type of all projected identifiers. -/
def localType : String :=
  "local"

/-- The record of a declared file, unless it is left out. -/
def record? (kind : Package.Kind) (name : String) (entry : String × Declaration) : Option Record :=
  (projectPath entry.1 kind name).map fun file => ⟨file, [⟨entry.2.id, localType⟩]⟩

/-- The records of a manifest that declares something, in the order of their files; records of one
file keep the order of the manifest. -/
def project (manifest : Manifest) (kind : Package.Kind) (name : String) :
    Except Error (List Record) :=
  if manifest.isEmpty then .error .emptyManifest
  else .ok ((manifest.entries.filterMap (record? kind name)).mergeSort fun a b => a.file ≤ b.file)

end Accession.Restructured

/-! ## Sidecars

The records of a restructured package are kept beside it as a JSON list of records, one for each
file. -/

namespace Accession.Restructured

/-- An identifier as a JSON value. -/
def LocalIdentifier.toJson (id : LocalIdentifier) : Json :=
  .record [("identifier", .string id.identifier), ("identifierType", .string id.identifierType)]

/-- A record as a JSON value. -/
def Record.toJson (record : Record) : Json :=
  .record [
    ("file", .string record.file),
    ("identifiers", .list (record.identifiers.map (·.toJson)))]

/-- The text of a sidecar: a list, indented by four spaces, and a line break. -/
def sidecar (records : List Record) : String :=
  Json.render 4 (.list (records.map (·.toJson))) ++ "\n"

/-- The text in a field. -/
def textField? (fields : List (String × Json)) (key : String) : Option String :=
  match fields.lookup key with
  | some (.string text) => some text
  | _ => none

/-- The identifier that a JSON value stands for. -/
def LocalIdentifier.ofJson? : Json → Option LocalIdentifier
  | .record fields => do
    return ⟨← textField? fields "identifier", ← textField? fields "identifierType"⟩
  | _ => none

/-- The record that a JSON value stands for. -/
def Record.ofJson? : Json → Option Record
  | .record fields =>
    match fields.lookup "identifiers" with
    | some (.list items) => do
      return ⟨← textField? fields "file", ← items.mapM LocalIdentifier.ofJson?⟩
    | _ => none
  | _ => none

/-- The records in the text of a sidecar. -/
def readSidecar (text : String) : Option (List Record) := do
  match ← Json.parse text with
  | .list items => items.mapM Record.ofJson?
  | _ => none

/-- A failure of the file system. -/
def failed (action path : String) (fault : Files.Fault) : Error :=
  .storage action path fault.message

/-- Makes the directories that lead to a file. -/
def makeParents (path : String) : Files.Change Error Unit :=
  match Path.parent? path with
  | none | some "" => pure ()
  | some parent => (Files.makeDirectories parent).adapt (failed "create directory" parent)

/-- Puts the sidecar of some records into a file, and makes the directories that lead there. They
stay even if the file cannot be written. -/
def writeSidecar (path : String) (records : List Record) : Files.Change Error Unit := do
  makeParents path
  Files.Change.of fun t =>
    (Files.write t path (Utf8.encode (sidecar records).toList)).mapError
      (failed "write identifiers" path)

end Accession.Restructured

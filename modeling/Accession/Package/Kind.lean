set_option autoImplicit false

/-!
# Kinds of package

A package is born digital or digitized, and is submitted or archived. Its kind fixes where its
manifest lies, which directory the paths of the manifest start from, and which file is in the
package without being declared.

## Main definitions

* `Package.Kind` — the four kinds.
* `Package.Kind.manifestPath`, `Package.Kind.scanRoot`, `Package.Kind.excludedPath` — the layout.
-/

namespace Accession.Package

/-- The kinds of package: submitted (SIP) or archived (AIP), born digital or digitized. -/
inductive Kind where
  | bornDigitalSip
  | digitizedSip
  | bornDigitalAip
  | digitizedAip
  deriving DecidableEq, Repr

/-- The directory of the payload. -/
def contentDirectory : String :=
  "content"

/-- The end of the names of provenance files that digitization leaves behind. -/
def provenanceSuffix : String :=
  "_PREMIS.xml"

namespace Kind

/-- Every kind. -/
def all : List Kind :=
  [.bornDigitalSip, .digitizedSip, .bornDigitalAip, .digitizedAip]

/-- The kind of an archived or submitted, digitized or born digital package. -/
def of (isAip isDigitized : Bool) : Kind :=
  match isAip, isDigitized with
  | false, false => .bornDigitalSip
  | false, true => .digitizedSip
  | true, false => .bornDigitalAip
  | true, true => .digitizedAip

/-- Whether the package is archived. -/
def isAip : Kind → Bool
  | .bornDigitalAip | .digitizedAip => true
  | _ => false

/-- Whether the package is digitized. -/
def isDigitized : Kind → Bool
  | .digitizedSip | .digitizedAip => true
  | _ => false

/-- The name of a kind. -/
def name : Kind → String
  | .bornDigitalSip => "born-digital-sip"
  | .digitizedSip => "digitized-sip"
  | .bornDigitalAip => "born-digital-aip"
  | .digitizedAip => "digitized-aip"

/-- The kind of a name. -/
def ofName? (name : String) : Option Kind :=
  all.find? (·.name = name)

/-- The metadata of a submitted package, which is its manifest. -/
def sipMetadata : String :=
  "header/metadata.xml"

/-- The manifest of an archived package. -/
def aipManifest : String :=
  "additional/UpdatedAreldaMetadata.xml"

/-- Where the manifest lies in the package. -/
def manifestPath (kind : Kind) : String :=
  if kind.isAip then aipManifest else sipMetadata

/-- Where the metadata of the submission lies in the package. -/
def metadataPath (kind : Kind) : String :=
  if kind.isAip then "header/old/SIP/metadata.xml" else sipMetadata

/-- The directory in the package that the paths of the manifest start from; `none` is the package
itself. -/
def scanRoot : Kind → Option String
  | .digitizedAip => some contentDirectory
  | _ => none

/-- The file below the scan root that the manifest never declares. -/
def excludedPath (kind : Kind) : Option String :=
  if kind.isAip then none else some sipMetadata

end Kind

end Accession.Package

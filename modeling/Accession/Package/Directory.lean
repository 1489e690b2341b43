import Accession.Digest.Source
import Accession.Files.Access
import Accession.Manifest.Reader
import Accession.Package.Error
import Accession.Package.Kind
import Accession.Package.Reconcile
set_option autoImplicit false

/-!
# Package directories

What is in the directory of a package: which files there are, of what kind it is, and whether the
files are those that its manifest declares.

## Main definitions

* `FileTree.Enumeration` — the order in which the names in directories are handed out.
* `Package.collect` — what is found at and below a directory.
* `Package.listFiles` — the files below a directory.
* `Package` — a directory and its kind, with `Package.openAt`.
* `Package.Kind.detect` — the kind of a directory.
* `Package.scan` — the files of a package.
* `Package.checksum` — the checksum of a file.
* `Package.verify` — the report on a package.
-/

/-! ## Listing files

The files below a directory are found by reading it name by name, in whatever order the names are
handed out, and by entering the directories in it, each by its own path. Links are neither listed
nor followed. A file is listed by what its path has behind the path that the search began with, and
as that is shown: a name that is not UTF-8 is listed with U+FFFD in it, like another one may be. -/

namespace Accession

namespace FileTree

/-- For every directory, the names in it in the order in which they are handed out. -/
structure Enumeration (t : FileTree) where
  names : Location → List Octets
  perm : ∀ location, (names location).Perm (t.namesIn location)

/-- The order in which a tree keeps its entries. -/
def storedOrder (t : FileTree) : t.Enumeration :=
  ⟨t.namesIn, fun _ => .refl _⟩

/-- The greatest number of names that lead to something. -/
def depth (t : FileTree) : Nat :=
  t.nodes.entries.foldr (fun entry deepest => max entry.1.length deepest) 0

end FileTree

namespace Package

/-- Adds to `found` what the name of an entry of a directory leads to: the file, under its path
behind `base`, or what `enter` finds in the directory of that name. -/
def addEntry (t : FileTree) (base : Octets) (enter : Octets → FileSet → Except Error FileSet)
    (dir : Octets) (location : Location) (found : FileSet) (name : Octets) :
    Except Error FileSet :=
  let path := Path.join dir name
  match t.node? (location ++ [name]) with
  | some .directory => enter path found
  | some (.file _) =>
    match Path.relativeTo? base path with
    | some rest => .ok (found.insert (Path.shown (rest.filterMap Path.Component.name?)) ())
    | none => .ok found
  | some (.link _) | none => .ok found

/-- Adds to `found` the files below the directory at the path `dir`, under their paths behind
`base`. No more than `levels` directories are entered one inside the other. -/
def collect (t : FileTree) (order : t.Enumeration) (base : Octets) :
    Nat → Octets → FileSet → Except Error FileSet
  | 0, _, found => .ok found
  | levels + 1, dir, found =>
    match Files.directory t dir with
    | .error fault => .error (.storage "read directory" dir.shown fault.message)
    | .ok location =>
      (order.names location).foldlM
        (addEntry t base (collect t order base levels) dir location) found

/-- The files below a directory, if the names in directories are handed out in this order. Nothing
is deeper in the tree than its depth, so that many levels leave no directory unread. -/
def listFilesIn (t : FileTree) (order : t.Enumeration) (path : String) : Except Error FileSet :=
  collect t order path (t.depth + 1) path Index.empty

/-- The files below a directory, through directories only: links are neither listed nor
followed. -/
def listFiles (t : FileTree) (path : String) : Except Error FileSet :=
  listFilesIn t t.storedOrder path

end Package

end Accession

/-! ## Packages

A package is a directory of a kind. The kind can be told from what is in the directory; then the
manifest is read, the files below the scan root are listed, and both are reconciled, with checksums
computed from the files themselves. -/

namespace Accession

/-- A package directory and its kind. -/
structure Package where
  path : String
  kind : Package.Kind
  deriving DecidableEq, Repr

namespace Package

/-! ### Finding out the kind -/

/-- The beginning of the directory names of digitized packages. -/
def digitizedStem : String :=
  "Vecteur_"

/-- Whether the name of a directory says that the package in it is digitized. -/
def isNamedDigitized (path : String) : Bool :=
  match Path.fileName? path with
  | some name => digitizedStem.toList.isPrefixOf name.toList
  | none => false

/-- Whether a directory holds the provenance of a digitization. There may be no such directory, and
a name that is not UTF-8 is none of a provenance file. -/
def holdsProvenance (t : FileTree) (path : String) : Bool :=
  match Files.names t path with
  | .ok names => (names.filterMap Octets.text?).any fun name =>
    provenanceSuffix.toList.isSuffixOf name.toList
  | .error _ => false

/-- The kind of the package in a directory. An updated manifest marks an archived package; the name
of the directory, or a provenance file beside the manifest, marks a digitized one. -/
def Kind.detect (t : FileTree) (path : String) : Except Error Kind :=
  if Files.isDirectory t path then
    let isAip := Files.isFile t (Path.join path Kind.aipManifest)
    let beside := Path.join path (if isAip then "additional" else "header")
    .ok (Kind.of isAip (isNamedDigitized path || holdsProvenance t beside))
  else .error (.storage "open package" path "not a directory")

/-- The package in a directory, of the given kind or else of the kind that the directory shows. -/
def openAt (t : FileTree) (path : String) (kind : Option Kind) : Except Error Package :=
  match kind with
  | some kind => .ok ⟨path, kind⟩
  | none => (Kind.detect t path).map fun kind => ⟨path, kind⟩

/-- The name of the package: that of its directory. -/
def name (p : Package) : String :=
  (Path.fileName? p.path).getD ""

/-- Where the manifest is. -/
def manifestPath (p : Package) : String :=
  Path.join p.path p.kind.manifestPath

/-- Where the paths of the manifest start from. -/
def scanRoot (p : Package) : String :=
  match p.kind.scanRoot with
  | some directory => Path.join p.path directory
  | none => p.path

/-! ### Files -/

/-- The manifest in a file. -/
def readManifest (t : FileTree) (path : String) : Except Error Manifest :=
  match Files.node t path with
  | .error fault => .error (.storage "open manifest" path fault.message)
  | .ok (.file content) => (Manifest.parse content).mapError .manifest
  | .ok _ => .error (.manifest (.malformed (.unreadable Files.Fault.isDirectory.message)))

/-- The files of a package, without the one that is never declared. -/
def scan (t : FileTree) (p : Package) : Except Error FileSet := do
  let files ← listFiles t p.scanRoot
  return files.filter fun path _ => p.kind.excludedPath ≠ some path

/-- The checksum of the file at a path below `root`, under the algorithm of this name. -/
def checksum (t : FileTree) (root path algorithm : String) : Except Error String :=
  let full := Path.join root path
  match Files.digest t full algorithm with
  | .ok digest => .ok digest
  | .error (.unsupportedAlgorithm name) => .error (.unsupportedAlgorithm name)
  | .error (.unreadable reason) => .error (.storage "checksum" full reason)

/-- The report on a package. -/
def verify (t : FileTree) (p : Package) : Except Error Report := do
  let manifest ← readManifest t p.manifestPath
  let files ← scan t p
  reconcile manifest files (checksum t p.scanRoot)

end Package

end Accession

import Accession.Package.Directory
import Accession.Provenance.Document
set_option autoImplicit false

/-!
# Activities on a PREMIS file

An activity loads the document in a file (or starts a new one if there is no file), changes it, and
writes the whole file back. If anything fails before that, the file stays as it was.

Recording objects and agents again changes nothing; recording an event again records another event.

## Main definitions

* `Provenance.Workspace` — the files, and where identifiers and times come from.
* `Provenance.Activity` — what may fail, and leaves a workspace behind.
* `Provenance.addObjects`, `Provenance.addAgent`, `Provenance.addEvent`,
  `Provenance.addValidationEvent` — the activities.
* `Provenance.identifyFormats` — the formats of content files.
-/

namespace Accession.Provenance

/-- The files, and where identifiers and times come from. -/
structure Workspace where
  files : FileTree
  context : Context

/-- What may fail, and leaves a workspace behind in any case. -/
abbrev Activity (α : Type) :=
  ExceptT Error (StateM Workspace) α

/-! ### Loading and saving -/

/-- The document in a file, or a new one if there is no file. -/
def Document.load (t : FileTree) (path : String) : Except Error Document :=
  match Files.read t path with
  | .ok content => parse content
  | .error .notFound => .ok new
  | .error fault => .error (.storage "read PREMIS file" path fault.message)

/-- Writes a document to a file. -/
def Document.save (d : Document) (t : FileTree) (path : String) : Except Error FileTree :=
  (Files.write t path (Utf8.encode d.render.toList)).mapError fun fault =>
    .storage "write PREMIS file" path fault.message

/-- What the files of the workspace decide. -/
def look {α : Type} (f : FileTree → Except Error α) : Activity α := do
  match f (← get).files with
  | .ok a => return a
  | .error error => throw error

/-- Loads the document in a file. -/
def load (path : String) : Activity Document :=
  look fun files => Document.load files path

/-- Writes a document to a file of the workspace. -/
def save (path : String) (d : Document) : Activity Unit := do
  let files ← look fun files => d.save files path
  modify fun workspace => { workspace with files }

/-- The files below a content directory, in order. -/
def contentFiles (t : FileTree) (content : String) : Except Error (List String) :=
  match Package.listFiles t content with
  | .ok files => .ok files.keys
  | .error error => .error (.listing error)

/-- The original name of a content file. -/
def originalName (path : String) : String :=
  "data/objects/" ++ path

/-! ### Recording -/

/-- Records an object for each path, and counts those that are new. Each path takes an identifier,
whether or not its object is new. -/
def recordPaths (paths : List String) (d : Document) (context : Context) :
    Nat × Document × Context :=
  paths.foldl
    (fun (added, d, context) path =>
      let (value, context) := context.nextId
      let (isNew, d) := d.appendObject (originalName path) (.uuid value)
      (if isNew then added + 1 else added, d, context))
    (0, d, context)

/-- Records an object for every file below a content directory, and counts those that are new. -/
def addObjects (premis content : String) : Activity Nat := do
  let d ← load premis
  let paths ← look fun files => contentFiles files content
  let workspace ← get
  let (added, d, context) := recordPaths paths d workspace.context
  set { workspace with context }
  save premis d
  return added

/-- Records an agent, and says whether it is new. -/
def addAgent (premis : String) (agent : Agent) : Activity Bool := do
  let d ← load premis
  let (added, d) := d.appendAgent agent
  save premis d
  return added

/-- Records an event on a document, taking its identifier and time from the workspace. -/
def recordEvent (d : Document) (summary : Summary) (agent : Agent) (targets : Targets) :
    Activity (Identifier × Document) := do
  let workspace ← get
  match d.appendEvent summary agent targets workspace.context with
  | .ok (id, d, context) =>
    set { workspace with context }
    return (id, d)
  | .error error => throw error

/-- Records an event that concerns every object, together with its agent. -/
def addEvent (premis : String) (summary : Summary) (agent : Agent) : Activity Identifier := do
  let d ← load premis
  let (id, d) ← recordEvent (d.appendAgent agent).2 summary agent .all
  save premis d
  return id

/-! ### Formats -/

/-- The format of each file, by original name. -/
abbrev FormatMap :=
  Index String String

/-- Says the format of the file at a path, or why it cannot, outermost cause first. -/
abbrev FormatIdentifier :=
  String → Except (List String) String

/-- Causes as one text. -/
def joinCauses (causes : List String) : String :=
  String.ofList (List.intercalate [':', ' '] (causes.map String.toList))

/-- The formats of some files below a content directory. -/
def identifyPaths (content : String) (identify : FormatIdentifier) :
    List String → Except Error (List (String × String))
  | [] => .ok []
  | path :: paths =>
    let full := Path.join content path
    match identify full with
    | .error causes => .error (.unidentified full (joinCauses causes))
    | .ok format => do
      return (originalName path, format) :: (← identifyPaths content identify paths)

/-- The formats of all files below a content directory. -/
def identifyFormats (t : FileTree) (content : String) (identify : FormatIdentifier) :
    Except Error FormatMap := do
  let paths ← contentFiles t content
  return Index.ofList (← identifyPaths content identify paths)

/-- A program that validates files: who it is, and which formats it can judge. -/
structure Validator where
  agent : Agent
  covers : String → Bool

/-- A validator for a list of formats. -/
def Validator.ofFormats (agent : Agent) (formats : List String) : Validator :=
  ⟨agent, formats.contains⟩

/-- The original names of the files whose format a validator covers. -/
def covered (validator : Validator) (formats : FormatMap) : List String :=
  (formats.entries.filter (validator.covers ·.2)).map (·.1)

/-- Records a validation of the files whose format a validator covers, together with its agent;
their objects have to exist. If there are none, nothing is recorded. -/
def addValidationEvent (premis : String) (summary : Summary) (validator : Validator)
    (formats : FormatMap) : Activity (Option Identifier) := do
  let names := covered validator formats
  if names.isEmpty then return none
  let d ← load premis
  let (id, d) ← recordEvent d summary validator.agent (.named names)
  save premis (d.appendAgent validator.agent).2
  return some id

end Accession.Provenance

import Accession.Command.Arguments
import Accession.Command.Report
import Accession.Package.Directory
import Accession.Provenance.Activity
import Accession.Restructured.Sidecar
import Accession.Settings.File
set_option autoImplicit false

/-!
# Running commands

What a command does with a workspace, how it fails, and which files it needs.

## Main definitions

* `Failure` — what a command could not do, and why.
* `Failure.render` — the text that is shown.
* `Command.Outcome` — what a command shows, and whether all was well.
* `Command.perform` — runs a command.
* `Command.run` — runs the program on its arguments.
* `Command.paths` — the paths that a command may look at, with everything below them.
* `Settings.pathOf` — the settings file.
-/

/-! ## Failures of commands

A command that fails says what it could not do and what is behind it, down to the root. One cause
stands alone, several are numbered; the lines of a cause are indented. -/

namespace Accession

/-- What a command could not do, and the causes, outermost first. -/
structure Failure where
  message : String
  causes : List String
  deriving DecidableEq, Repr

namespace Failure

/-- A text with `indent` after every line break. -/
def indentLines (indent : List Char) (text : List Char) : List Char :=
  text.flatMap fun c => if c = '\n' then '\n' :: indent else [c]

/-- A cause that stands alone. -/
def renderOnly (cause : String) : List Char :=
  let indent := List.replicate 4 ' '
  indent ++ indentLines indent cause.toList

/-- One of several causes, behind its number. -/
def renderNumbered (cause : String × Nat) : List Char :=
  let number := (toString cause.2).toList
  List.replicate (5 - number.length) ' ' ++ number ++ [':', ' '] ++
    indentLines (List.replicate 7 ' ') cause.1.toList

/-- The lines for some causes. -/
def renderCauses : List String → List (List Char)
  | [cause] => [renderOnly cause]
  | causes => causes.zipIdx.map renderNumbered

/-- The text that is shown. -/
def render (failure : Failure) : String :=
  let head := "Error: " ++ failure.message
  let causes :=
    if failure.causes.isEmpty then ""
    else "\n\nCaused by:" ++
      String.ofList ((renderCauses failure.causes).flatMap fun line => '\n' :: line)
  head ++ causes ++ "\n"

end Failure

end Accession

/-! ## Commands

A command works on a workspace and shows a text, or fails. Nothing is shown before it has succeeded.
-/

namespace Accession.Command

open Provenance (Workspace Activity Document)

/-- What a command shows, and whether all was well. -/
structure Outcome where
  text : String
  clean : Bool
  deriving DecidableEq, Repr

/-- What may fail, and leaves a workspace behind in any case. -/
abbrev Action (α : Type) :=
  ExceptT Failure (StateM Workspace) α

/-- What a text that could not be dealt with is about, in front of what is wrong. -/
def because (message : String) (cause : String) (causes : List String) : Failure :=
  ⟨message, cause :: causes⟩

/-- What a package needs from the files, or else the failure of `message`. -/
def onPackage {α : Type} (message : String) (f : FileTree → Except Package.Error α) :
    Action α := do
  match f (← get).files with
  | .ok a => return a
  | .error e => throw (because message e.message e.causes)

/-- An activity, or else the failure of `message`. -/
def onProvenance {α : Type} (message : String) (activity : Activity α) : Action α := do
  let (result, workspace) := activity.run.run (← get)
  set workspace
  match result with
  | .ok a => return a
  | .error e => throw (because message e.message e.causes)

/-- A change to the files, or else the failure of `message`. -/
def onFiles (message : String) (change : Files.Change Restructured.Error Unit) : Action Unit := do
  let workspace ← get
  let (result, files) := change.run.run workspace.files
  set { workspace with files }
  match result with
  | .ok () => return
  | .error e => throw (because message e.message e.causes)

/-- The package in a directory. -/
def openPackage (path : String) (kind : Option Package.Kind) : Action Package :=
  onPackage s!"failed to open package {path}" fun files => Package.openAt files path kind

/-- Checks a package. -/
def verifyPackage (shown : Bool) (path : String) (kind : Option Package.Kind) (json : Bool) :
    Action Outcome := do
  let package ← openPackage path kind
  let report ← onPackage s!"failed to verify package {path}" fun files => package.verify files
  let text :=
    if json then Report.verificationJson report else Report.verification shown package report
  return ⟨text, !report.failed⟩

/-- Writes the sidecar of a package. -/
def writeIdentifiers (shown : Bool) (path output : String) (kind : Option Package.Kind)
    (name : Option String) : Action String := do
  let package ← openPackage path kind
  let manifest ← onPackage s!"failed to parse manifest {package.manifestPath}" fun files =>
    Package.readManifest files package.manifestPath
  let name := name.getD package.name
  match Restructured.project manifest package.kind name with
  | .error e => throw (because s!"failed to project identifiers for {name}" e.message e.causes)
  | .ok records =>
    onFiles s!"failed to write {output}" (Restructured.writeSidecar output records)
    return Report.done shown s!"{records.length} identifiers written to {output}"

/-- Loads the document in a file. -/
def loadDocument (file : String) : Action Document :=
  onProvenance s!"failed to load PREMIS file {file}" (Provenance.load file)

/-- An identifier that was given, or else the next one of the workspace. -/
def idOr (id : Option String) : Action String := do
  match id with
  | some id => return id
  | none =>
    let workspace ← get
    let (id, context) := workspace.context.nextId
    set { workspace with context }
    return id

/-- Records one object. -/
def recordOne (shown : Bool) (file name : String) (id : Option String) : Action String := do
  let d ← loadDocument file
  let id ← idOr id
  let (added, d) := d.appendObject name (.uuid id)
  if added then
    onProvenance s!"failed to write PREMIS file {file}" (Provenance.save file d)
    return Report.done shown s!"Object {name} recorded"
  else return Report.known shown s!"Object {name} already recorded"

/-- Records an object for each file of a directory. -/
def recordAll (shown : Bool) (file content : String) : Action String := do
  let added ← onProvenance s!"failed to record objects for {content}"
    (Provenance.addObjects file content)
  return Report.done shown s!"{added} objects recorded"

/-- Records the agent of the settings. -/
def recordAgentIn (shown : Bool) (file : String) (agent : Provenance.Agent) : Action String := do
  let added ← onProvenance s!"failed to record agent in {file}" (Provenance.addAgent file agent)
  if added then return Report.done shown s!"Agent {agent.name} recorded"
  else return Report.known shown s!"Agent {agent.name} already recorded"

/-- Records an event that concerns every object. -/
def recordEventIn (shown : Bool) (file : String) (summary : Provenance.Summary)
    (agent : Provenance.Agent) : Action String := do
  let id ← onProvenance s!"failed to record event in {file}"
    (Provenance.addEvent file summary agent)
  return Report.done shown s!"Event {id.value} recorded"

/-- Shows the log of a document. -/
def showLog (shown : Bool) (file : String) : Action String := do
  if Files.isFile (← get).files file then
    return Report.log shown file (← loadDocument file)
  else throw ⟨s!"PREMIS file {file} does not exist", []⟩

/-- A text, with all being well. -/
def cleanly (action : Action String) : Action Outcome := do
  return ⟨← action, true⟩

/-- Runs a command. -/
def perform (shown : Bool) (settings : Settings) : Command → Action Outcome
  | .verify package kind json => verifyPackage shown package kind json
  | .identifiers package output kind name =>
    cleanly (writeIdentifiers shown package (output.getD settings.identifiersFile) kind name)
  | .recordObject file name id => cleanly (recordOne shown file name id)
  | .recordObjects file content => cleanly (recordAll shown file content)
  | .recordAgent file => cleanly (recordAgentIn shown file settings.agent)
  | .recordEvent file summary => cleanly (recordEventIn shown file summary settings.agent)
  | .log file => cleanly (showLog shown file)

/-- Loads the settings and runs a command. -/
def start (shown : Bool) (named : Option String) (command : Command) : Action Outcome := do
  match Settings.load (← get).files named with
  | .ok settings => perform shown settings command
  | .error e => throw ⟨e.message, e.causes⟩

/-- What the program leaves behind: what it shows, what it says about a failure, and its exit
code. -/
structure Exit where
  code : Nat
  text : String
  errors : String
  deriving DecidableEq, Repr

/-- What the program shows when it is asked for its version. -/
def versionText : String :=
  "sipx 0.1.0\n"

/-- What the program shows when it is asked what it can do. -/
def usage : String :=
  "Usage: sipx [--config FILE] [--verbose] COMMAND\n\n" ++
  "  verify PACKAGE [--type TYPE] [--json]\n" ++
  "  identifiers PACKAGE [--output FILE] [--type TYPE] [--name NAME]\n" ++
  "  premis object FILE --name NAME [--id ID]\n" ++
  "  premis objects FILE CONTENT\n" ++
  "  premis agent FILE\n" ++
  "  premis event FILE --type TYPE [--detail TEXT] [--outcome TEXT] [--note TEXT]\n" ++
  "  premis log FILE\n"

/-- Runs the program on its arguments. -/
def run (shown : Bool) (args : List String) (workspace : Workspace) : Exit × Workspace :=
  match Arguments.parse args with
  | none => (⟨2, "", usage⟩, workspace)
  | some .version => (⟨0, versionText, ""⟩, workspace)
  | some .help => (⟨0, usage, ""⟩, workspace)
  | some (.run named command) =>
    let (result, workspace) := (start shown named command).run.run workspace
    match result with
    | .ok outcome => (⟨if outcome.clean then 0 else 1, outcome.text, ""⟩, workspace)
    | .error failure => (⟨1, "", failure.render⟩, workspace)

end Accession.Command

/-! ## What a command can reach

A command looks at the files that its arguments and the settings name, and at nothing else. Whoever
provides the files for a command has to provide these. -/

namespace Accession

/-- The settings file that is read: the one that is named, or else the one with the fixed name. -/
def Settings.pathOf (named : Option String) : String :=
  named.getD Settings.defaultFile

namespace Package

/-- The paths that concern the package in a directory. The directories and the file in it that have
names of their own come apart, since they may be links. -/
def paths (directory : String) : List String :=
  directory :: ["header", Kind.sipMetadata, "additional", Kind.aipManifest, contentDirectory].map
    (Path.join directory)

end Package

namespace Command

/-- The paths that a command may look at, with everything below them. -/
def paths (settings : Settings) : Command → List String
  | .verify package _ _ => Package.paths package
  | .identifiers package output _ _ =>
    output.getD settings.identifiersFile :: Package.paths package
  | .recordObjects file content => [file, content]
  | .recordObject file _ _ | .recordAgent file | .recordEvent file _ | .log file => [file]

end Command

end Accession

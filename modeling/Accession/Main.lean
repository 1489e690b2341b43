import Accession.Command.Run
import Accession.Provenance.Context
import Std.Time.DateTime.Timestamp
set_option autoImplicit false

/-!
# The command line

Takes the files that a command can reach from the file system into a tree, runs the command on the
tree, and puts the changes back. Everything that a command does is done by `Command.run`; here is
only what has to touch the world.

## Main definitions

* `Outside.takeAll` — what is at some paths, as a tree.
* `Outside.putBack` — makes the changes of a tree in the file system.
* `main` — the program.
-/

namespace Accession.Outside

/-- What is being taken from the file system. -/
abbrev Taking :=
  StateT FileTree IO

/-- The path of a location. The names in it are ones that the file system has told as texts. -/
def pathOf (location : Location) : String :=
  "/" ++ Path.shown location

/-- Puts something into the tree, unless there is something already. -/
def add (directory : Location) (name : Octets) (node : Taking FileNode) : Taking Unit := do
  if ((← get).node? (directory ++ [name])).isNone then
    let node ← node
    modify fun t => (Files.put t directory name node).toOption.getD t

/-- The content of the file at a location. -/
def contentOf (location : Location) : IO (List UInt8) :=
  return (← IO.FS.readBinFile (pathOf location)).toList

/-- Where the link at a location leads in the end, if anything is there. -/
def targetOf? (location : Location) : IO (Option String) := do
  try return some (← IO.FS.realPath (pathOf location)).toString
  catch _ => return none

/-- The target of a link that leads nowhere: a name that nothing can bear. -/
def nowhere : String :=
  "\x00"

/-- What bears a name in a directory, links not followed, if anything does. -/
def kindOf? (directory : Location) (name : String) : IO (Option IO.FS.FileType) := do
  let entry : IO.FS.DirEntry := ⟨pathOf directory, name⟩
  try return some (← entry.path.symlinkMetadata).type
  catch _ => return none

/-- Takes what bears a name in a directory, links not followed, and says what it is. -/
def takeEntry (directory : Location) (name : String) : Taking (Option IO.FS.FileType) := do
  let kind ← kindOf? directory name
  let location := directory ++ [Octets.ofText name]
  match kind with
  | some .dir => add directory name (pure .directory)
  | some .file => add directory name (return .file (← contentOf location))
  | some .symlink => add directory name (return .link ((← targetOf? location).getD nowhere))
  | _ => pure ()
  return kind

/-- Takes everything below a directory. -/
partial def takeBelow (directory : Location) : Taking Unit := do
  for entry in ← (← IO.FS.realPath (pathOf directory)).readDir do
    if let some .dir ← takeEntry directory entry.fileName then
      takeBelow (directory ++ [Octets.ofText entry.fileName])

/-- Takes what segments lead to from a location, with everything on the way and below. -/
partial def takeFrom (here : Location) : List String → Taking Unit
  | [] => takeBelow here
  | segment :: rest => do
    if Path.isIdle segment then takeFrom here rest
    else if Path.isUp segment then takeFrom here.dropLast rest
    else
      match ← takeEntry here segment with
      | some .dir => takeFrom (here ++ [Octets.ofText segment]) rest
      | some .symlink =>
        if let some target ← targetOf? (here ++ [Octets.ofText segment]) then
          takeFrom [] (Path.segments target ++ rest)
      | _ => pure ()

/-- Takes the directories that lead to a location, which is written without links. -/
def takeWay (here : Location) : Location → Taking Unit
  | [] => pure ()
  | name :: rest => do
    add here name (pure .directory)
    takeWay (here ++ [name]) rest

/-- Takes what is at a path. -/
def takePath (path : String) : Taking Unit := do
  if path ≠ "" ∧ !path.toList.contains '\x00' then
    takeFrom (Files.origin (← get).working path) (Path.segments path)

/-- Takes what is at some paths. -/
def takeAll (paths : List String) (t : FileTree) : IO FileTree := do
  let ((), t) ← (paths.forM takePath).run t
  return t

/-- The working directory, with nothing in it. -/
def workingTree : IO FileTree := do
  let path ← IO.FS.realPath "."
  let names := (Path.segments path.toString).filter (!Path.isIdle ·)
  let location := names.map Octets.ofText
  let ((), t) ← (takeWay [] location).run { FileTree.empty with working := location }
  return t

/-- Makes one change of a tree in the file system. Commands make no links. -/
def putOne : Location × FileNode → IO Unit
  | (location, .file content) => IO.FS.writeBinFile (pathOf location) ⟨content.toArray⟩
  | (location, .directory) => IO.FS.createDir (pathOf location)
  | (_, .link _) => pure ()

/-- Makes the changes of a tree in the file system. -/
def putBack (earlier t : FileTree) : IO Unit :=
  (t.changesSince earlier).forM putOne

/-- The files that a request can reach. -/
def reach : Option Request → IO FileTree
  | some (.run named command) => do
    let t ← takeAll [Settings.pathOf named] (← workingTree)
    match Settings.load t named with
    | .ok settings => takeAll (command.paths settings) t
    | .error _ => return t
  | _ => return FileTree.empty

/-- Random identifiers, and the time. -/
def context : IO Provenance.Context := do
  let seed ← IO.getRandomBytes 32
  let now ← Std.Time.Timestamp.now
  return ⟨Uuid.supply seed.toList,
    Supply.constant (Instant.ofNanos now.toNanosecondsSinceUnixEpoch.val)⟩

/-- Whether styles are shown. -/
def areStylesShown : IO Bool := do
  let force ← IO.getEnv "CLICOLOR_FORCE"
  let never ← IO.getEnv "NO_COLOR"
  let terminal ← IO.getEnv "CLICOLOR"
  return Style.areShown force never terminal (← (← IO.getStdout).isTty)

/-- Runs the program on its arguments. -/
def run (args : List String) : IO UInt32 := do
  let files ← reach (Arguments.parse args)
  let (exit, workspace) := Command.run (← areStylesShown) args ⟨files, ← context⟩
  putBack files workspace.files
  IO.print exit.text
  IO.eprint exit.errors
  return exit.code.toUInt32

end Accession.Outside

/-- The program. -/
def main (args : List String) : IO UInt32 :=
  Accession.Outside.run args

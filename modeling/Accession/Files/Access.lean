import Accession.Files.Path
import Accession.Files.Tree
set_option autoImplicit false

/-!
# Access by path

A path is followed name by name, from the root or from the working directory. Symbolic links on the
way are followed, up to a fixed number of them; a name behind a file leads nowhere. Paths come here
as the system takes them, as octets; a text stands for its own.

## Main definitions

* `Files.Fault` — why an access is refused.
* `Files.resolve` — the location that a path leads to.
* `Files.read`, `Files.isFile`, `Files.isDirectory`, `Files.names` — what is there.
* `Files.write`, `Files.makeDirectory`, `Files.remove` — single changes.
* `Files.Change`, `Files.makeDirectories` — changes one after the other.
-/

namespace Accession.Files

/-- Why an access is refused. -/
inductive Fault where
  | notFound
  | exists
  | notDirectory
  | isDirectory
  | tooManyLinks
  | nulCharacter
  deriving DecidableEq, Repr

/-- What is wrong, in the words of the system. -/
def Fault.message : Fault → String
  | .notFound => "No such file or directory (os error 2)"
  | .exists => "File exists (os error 17)"
  | .notDirectory => "Not a directory (os error 20)"
  | .isDirectory => "Is a directory (os error 21)"
  | .tooManyLinks => "Too many levels of symbolic links (os error 40)"
  | .nulCharacter => "file name contained an unexpected NUL byte"

/-! ### Following a path -/

/-- Where the segments of a path start from, if relative paths start from `here`. -/
def origin (here : Location) (path : Octets) : Location :=
  if Path.isAbsolute path then [] else here

/-- What a path is followed for. -/
inductive Purpose where
  /-- To see what is there. -/
  | looking
  /-- To write a file there, which may be new. -/
  | writing
  deriving DecidableEq, Repr

/-- Whether only slashes are left of a path. -/
def isSlashes (segments : List Octets) : Bool :=
  !segments.isEmpty && segments.all (·.toList.isEmpty)

/-- Follows segments from the location `here`, where `links` more links may be met. The last
segment may name something that is not there yet; if a file is to be written there, no slash may
follow it. -/
def walk (t : FileTree) (purpose : Purpose) (links : Nat) (here : Location) :
    List Octets → Except Fault Location
  | [] => .ok here
  | segment :: rest =>
    if t.node? here ≠ some .directory then .error .notDirectory
    else if Path.isIdle segment then walk t purpose links here rest
    else if Path.isUp segment then walk t purpose links here.dropLast rest
    else if purpose = .writing ∧ isSlashes rest then .error .isDirectory
    else
      match t.node? (here ++ [segment]) with
      | none => if rest.isEmpty then .ok (here ++ [segment]) else .error .notFound
      | some (.link target) =>
        match links with
        | 0 => .error .tooManyLinks
        | links + 1 =>
          walk t purpose links (origin here target) (Path.segments target ++ rest)
      | some _ => walk t purpose links (here ++ [segment]) rest
  termination_by segments => (links, segments.length)

/-- The number of links that a path may lead through. -/
def maxLinks : Nat :=
  40

/-- The location that a path leads to. -/
def resolve (t : FileTree) (purpose : Purpose) (path : Octets) : Except Fault Location :=
  if path.toList.contains 0 then .error .nulCharacter
  else if path.toList.isEmpty then .error .notFound
  else walk t purpose maxLinks (origin t.working path) (Path.segments path)

/-- What is where a path leads to. -/
def node (t : FileTree) (path : Octets) : Except Fault FileNode := do
  match t.node? (← resolve t .looking path) with
  | some node => .ok node
  | none => .error .notFound

/-! ### Looking -/

/-- The content of the file that a path leads to. -/
def read (t : FileTree) (path : Octets) : Except Fault (List UInt8) := do
  match ← node t path with
  | .file content => .ok content
  | _ => .error .isDirectory

/-- Whether a path leads to a file. -/
def isFile (t : FileTree) (path : Octets) : Bool :=
  match node t path with
  | .ok (.file _) => true
  | _ => false

/-- Whether a path leads to a directory. -/
def isDirectory (t : FileTree) (path : Octets) : Bool :=
  match node t path with
  | .ok .directory => true
  | _ => false

/-- The location of the directory that a path leads to. -/
def directory (t : FileTree) (path : Octets) : Except Fault Location := do
  let location ← resolve t .looking path
  match t.node? location with
  | some .directory => .ok location
  | some _ => .error .notDirectory
  | none => .error .notFound

/-- The names in the directory that a path leads to. -/
def names (t : FileTree) (path : Octets) : Except Fault (List Octets) :=
  (directory t path).map t.namesIn

/-! ### Changing -/

/-- Puts something at a location that is not a directory, in a directory that is there. -/
def put (t : FileTree) (parent : Location) (name : Octets) (node : FileNode) :
    Except Fault FileTree :=
  if hparent : t.node? parent = some .directory then
    if hfree : t.node? (parent ++ [name]) ≠ some .directory then
      if hname : ProperName name then .ok (t.place parent name node hparent hfree hname)
      else .error .notFound
    else .error .isDirectory
  else .error .notDirectory

/-- Puts a file at a location. -/
def putFile (t : FileTree) (location : Location) (content : List UInt8) : Except Fault FileTree :=
  match location.getLast? with
  | some name => put t location.dropLast name (.file content)
  | none => .error .isDirectory

/-- Writes the file that a path leads to, and makes it if it is not there. -/
def write (t : FileTree) (path : Octets) (content : List UInt8) : Except Fault FileTree := do
  putFile t (← resolve t .writing path) content

/-- The path without the slashes at its end. -/
def withoutSlashes (path : Octets) : Octets :=
  ⟨(path.toList.reverse.dropWhile (· = Mark.slash)).reverse⟩

/-- Splits segments into the last one and those before it. -/
def splitLast (segments : List Octets) : List Octets × Octets :=
  (segments.dropLast, segments.getLastD ⟨[]⟩)

/-- The directory that a path goes into, and the name it gives there; the name itself is not
followed. -/
def resolveParent (t : FileTree) (path : Octets) : Except Fault (Location × Octets) := do
  let named := withoutSlashes path
  if path.toList.contains 0 then .error .nulCharacter
  else if path.toList.isEmpty then .error .notFound
  else
    let (before, name) := splitLast (Path.segments named)
    let parent ← walk t .looking maxLinks (origin t.working path) before
    match t.node? parent with
    | some .directory => .ok (parent, name)
    | some _ => .error .notDirectory
    | none => .error .notFound

/-- Makes a directory or a link under a name that nothing has yet. -/
def make (t : FileTree) (path : Octets) (node : FileNode) : Except Fault FileTree := do
  let (parent, name) ← resolveParent t path
  if Path.isIdle name ∨ Path.isUp name ∨ (t.node? (parent ++ [name])).isSome then .error .exists
  else put t parent name node

/-- Makes the directory that a path names. -/
def makeDirectory (t : FileTree) (path : Octets) : Except Fault FileTree :=
  make t path .directory

/-- A refusal to make the directory that a path names does not matter if it is there. -/
def accept (t : FileTree) (path : Octets) (made : Except Fault FileTree) : Except Fault FileTree :=
  match made with
  | .ok t => .ok t
  | .error fault => if isDirectory t path then .ok t else .error fault

/-- Changes to a tree one after the other. Those before a refusal stay. -/
abbrev Change (ε α : Type) :=
  ExceptT ε (StateM FileTree) α

/-- A single change, which is made or refused. -/
def Change.of {ε : Type} (f : FileTree → Except ε FileTree) : Change ε Unit := do
  match f (← get) with
  | .ok t => set t
  | .error e => throw e

/-- Makes the directory that some segments (last one first) name, and those that lead there. -/
def makeAll : List Octets → Change Fault Unit
  | [] => pure ()
  | segment :: rest =>
    if Path.isIdle segment then makeAll rest
    else do
      let path := Path.ofSegments (segment :: rest).reverse
      match makeDirectory (← get) path with
      | .error .notFound =>
        makeAll rest
        Change.of fun t => accept t path (makeDirectory t path)
      | made => Change.of fun t => accept t path made

/-- Makes the directory that a path names, and those that lead there. What is there already may
stay. -/
def makeDirectories (path : Octets) : Change Fault Unit :=
  makeAll (Path.segments path).reverse

/-- Takes out what a path names, with everything below it; a link itself is taken out. -/
def remove (t : FileTree) (path : Octets) : Except Fault FileTree := do
  let (parent, name) ← resolveParent t path
  if (t.node? (parent ++ [name])).isSome then .ok (t.remove (parent ++ [name]) (by simp))
  else .error .notFound

end Accession.Files

import Accession.Files.Path
import Accession.Index
import Accession.Markup.Attribute
import Accession.Markup.Error
import Accession.Markup.Event
import Accession.Text.Character
set_option autoImplicit false

/-!
# Manifests

What a manifest declares, and how it is read.

## Main definitions

* `Declaration` — what a manifest says about one file.
* `Manifest` — the declarations by path.
* `Manifest.Error` — why a text is no manifest.
* `Manifest.Element` — the elements of the inventory.
* `Manifest.State` — where a reader stands between two events.
* `Manifest.step` — what one event does to it.
* `Manifest.parse` — the manifest in some octets.
-/

/-! ## Declarations

A manifest declares the files of a package: for each path, the identifier of the file, the name of
a checksum algorithm and the checksum. Paths are relative, with `/` between their segments. -/

namespace Accession

/-- What a manifest says about one file. -/
structure Declaration where
  id : String
  algorithm : String
  hash : String
  deriving DecidableEq, Repr, Inhabited

/-- The declared files, by path. -/
abbrev Manifest :=
  Index String Declaration

namespace Manifest

/-- Why a text is no manifest. -/
inductive Error where
  /-- It is not marked up well enough to be read. -/
  | malformed (error : Markup.Error)
  /-- It ends inside an element of the inventory. -/
  | truncated (tag : String)
  deriving DecidableEq, Repr

/-- What is wrong, in words. -/
def Error.message : Error → String
  | .malformed error => "malformed manifest XML: " ++ error.message
  | .truncated tag => s!"truncated manifest: <{tag}> is never closed"

/-- What is behind it, outermost first. -/
def Error.causes : Error → List String
  | .malformed error => error.message :: error.causes
  | .truncated _ => []

end Manifest

end Accession

/-! ## Reading a manifest

The inventory of a manifest is a tree of folders and files. The path of a file is made of the names
of the folders around it, outermost first, and of its own name. Seven elements make up the
inventory, whatever prefix their names carry; any other element is passed over with everything in
it. Reading ends with the inventory, so nothing behind it can change the outcome.

The reader keeps the open elements, each with the length that the path had when it was opened, and
cuts the path back to that length when a folder or a file is closed. -/

namespace Accession.Manifest

open Markup (Event)

/-- The elements of the inventory. -/
inductive Element where
  | package
  | inventory
  | folder
  | file
  | name
  | algorithm
  | hash
  deriving DecidableEq, Repr

/-- The tag of an element, without prefix. -/
def Element.tag : Element → String
  | .package => "paket"
  | .inventory => "inhaltsverzeichnis"
  | .folder => "ordner"
  | .file => "datei"
  | .name => "name"
  | .algorithm => "pruefalgorithmus"
  | .hash => "pruefsumme"

/-- Every element of the inventory. -/
def Element.all : List Element :=
  [.package, .inventory, .folder, .file, .name, .algorithm, .hash]

/-- The element of a tag with this content. -/
def Element.ofContent? (content : List UInt8) : Option Element :=
  Element.all.find? fun element =>
    Markup.octets element.tag = Markup.localName (Markup.nameOf content)

/-- An open element, with the length of the path when it was opened. -/
structure Frame where
  element : Element
  depth : Nat
  deriving DecidableEq, Repr

/-- Where a reader stands between two events: the open elements (innermost first), the segments of
the path (outermost first), the file being read, whether the innermost name has put its segment on
the path, the element being passed over with the number of elements of its name open inside it, and
the files read so far. -/
structure State where
  frames : List Frame
  path : List String
  pending : Option Declaration
  nameStarted : Bool
  passing : Option (List UInt8 × Nat)
  manifest : Manifest

/-- Where a reader starts. -/
def State.initial : State :=
  ⟨[], [], none, false, none, Index.empty⟩

/-- How a reader goes on. -/
inductive Progress where
  | reading (state : State)
  /-- The inventory is closed. -/
  | finished (manifest : Manifest)

/-- The identifier of a file: the first attribute called `id`, and empty without one. What stands
behind that attribute is not looked at. -/
def fileId (content : List UInt8) : Except Error String :=
  let (attributes, fault) := Markup.attributes content
  match attributes.find? (fun a => Markup.localName a.key = Markup.octets "id") with
  | some a => (Markup.decodeText a.value).mapError .malformed
  | none =>
    match fault with
    | some fault => .error (.malformed (.attributes fault))
    | none => .ok ""

namespace State

/-- Opens an element. A file starts a declaration, and a name has no segment yet. -/
def openElement (s : State) (element : Element) (content : List UInt8) : Except Error State := do
  let frames := ⟨element, s.path.length⟩ :: s.frames
  match element with
  | .file => return { s with frames, pending := some ⟨← fileId content, "", ""⟩ }
  | .name => return { s with frames, nameStarted := false }
  | _ => return { s with frames }

/-- A declaration with the blanks around its checksum fields removed. -/
def trimmed (file : Declaration) : Declaration :=
  { file with
    algorithm := String.ofList (Blank.trim file.algorithm.toList)
    hash := String.ofList (Blank.trim file.hash.toList) }

/-- The files after the file opened at path length `depth` is closed. It counts if it has a
name. -/
def commit (s : State) (depth : Nat) : Manifest :=
  match s.pending with
  | some file =>
    if depth < s.path.length then s.manifest.insert (Path.ofSegments s.path) (trimmed file)
    else s.manifest
  | none => s.manifest

/-- Closes the innermost element. -/
def closeElement (s : State) : Progress :=
  match s.frames with
  | [] => .reading s
  | ⟨element, depth⟩ :: frames =>
    match element with
    | .file => .reading { s with
        frames
        path := s.path.take depth
        pending := none
        manifest := s.commit depth }
    | .folder => .reading { s with frames, path := s.path.take depth }
    | .name => .reading { s with frames, nameStarted := false }
    | .inventory => .finished s.manifest
    | _ => .reading { s with frames }

/-- The element whose text counts: the name of a folder or a file, or a checksum field of a
file. -/
def textElement? (s : State) : Option Element :=
  match s.frames with
  | ⟨.name, _⟩ :: ⟨.folder, _⟩ :: _ | ⟨.name, _⟩ :: ⟨.file, _⟩ :: _ => some .name
  | ⟨.algorithm, _⟩ :: ⟨.file, _⟩ :: _ => some .algorithm
  | ⟨.hash, _⟩ :: ⟨.file, _⟩ :: _ => some .hash
  | _ => none

/-- A declaration with more text in the name of its algorithm. -/
def addAlgorithm (text : String) (file : Declaration) : Declaration :=
  { file with algorithm := file.algorithm ++ text }

/-- A declaration with more text in its checksum. -/
def addHash (text : String) (file : Declaration) : Declaration :=
  { file with hash := file.hash ++ text }

/-- Takes a text. In the name of a folder or a file it is a segment of the path, or goes on the
segment that this name has begun; in a checksum field of a file it goes on that field; anywhere
else it means nothing. -/
def takeText (s : State) (text : String) : State :=
  if text.isEmpty then s
  else match s.textElement? with
    | some .name =>
      if s.nameStarted then { s with path := s.path.modify (s.path.length - 1) (· ++ text) }
      else { s with path := s.path ++ [text], nameStarted := true }
    | some .algorithm => { s with pending := s.pending.map (addAlgorithm text) }
    | some .hash => { s with pending := s.pending.map (addHash text) }
    | _ => s

end State

/-- What an event does inside an element that is passed over. -/
def pass (name : List UInt8) (depth : Nat) : Event → Option (List UInt8 × Nat)
  | .start content => some (name, if Markup.nameOf content = name then depth + 1 else depth)
  | .close closed =>
    if closed = name then
      match depth with
      | 0 => none
      | depth + 1 => some (name, depth)
    else some (name, depth)
  | _ => some (name, depth)

/-- What an event does outside the elements that are passed over. -/
def readEvent (s : State) : Event → Except Error Progress
  | .start content =>
    match Element.ofContent? content with
    | some element => do return .reading (← s.openElement element content)
    | none => .ok (.reading { s with passing := some (Markup.nameOf content, 0) })
  | .empty content =>
    match Element.ofContent? content with
    | some element => do return (← s.openElement element content).closeElement
    | none => .ok (.reading s)
  | .close _ => .ok s.closeElement
  | .text bytes => do
    let text ← (Markup.decodeText bytes).mapError .malformed
    return .reading (s.takeText text)
  | .characterData bytes =>
    .ok (.reading (s.takeText (String.ofList (Utf8.decodeLossy bytes))))
  | .aside => .ok (.reading s)

/-- What one event does. -/
def step (s : State) (event : Event) : Except Error Progress :=
  match s.passing with
  | some (name, depth) => .ok (.reading { s with passing := pass name depth event })
  | none => readEvent s event

/-- What the end of the text means: nothing may be open. -/
def finish (s : State) : Except Error Manifest :=
  match s.passing with
  | some (name, _) =>
    match Utf8.decode name with
    | .ok name => .error (.malformed (.nesting (.unclosed (String.ofList name))))
    | .error fault => .error (.malformed (.encoding fault))
  | none =>
    match s.frames with
    | frame :: _ => .error (.truncated frame.element.tag)
    | [] => .ok s.manifest

/-- Reads events from a state on; `fault` is what cut them short. -/
def run (fault : Option Markup.Error) (s : State) : List Event → Except Error Manifest
  | [] =>
    match fault with
    | some error => .error (.malformed error)
    | none => finish s
  | event :: events =>
    match step s event with
    | .error error => .error error
    | .ok (.finished manifest) => .ok manifest
    | .ok (.reading s) => run fault s events

/-- The manifest in some octets. A text without an inventory declares nothing. -/
def parse (bytes : List UInt8) : Except Error Manifest :=
  let document := Markup.read bytes
  run document.fault State.initial document.events

end Accession.Manifest

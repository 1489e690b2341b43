import Accession.Markup.Attribute
import Accession.Markup.Event
import Accession.Text.Character
set_option autoImplicit false

/-!
# Element trees

A marked-up text as a tree of elements, as it is written and as it is read.

## Main definitions

* `Node` — an element.
* `Node.localName`, `Node.namespacePrefix?` — the two parts of a name.
* `Node.childrenNamed`, `Node.textAt` — children by local name, and the text of a descendant.
* `Node.renderAt` — the written form of an element inside others.
* `Node.render` — the written form of a tree.
* `Node.ReadError` — why there is no tree.
* `Node.Opened` — an element whose end is still to come.
* `Node.readStep` — what one event does to the open elements.
* `Node.parse` — the tree in some octets.
-/

/-! ## Trees

An element with its name as it is written, its attributes, its text and its child elements. The
text of an element is one text, whatever children stand between its parts. -/

namespace Accession

/-- An element: its name as written, its attributes in order, its text and its children. -/
structure Node where
  name : String
  attributes : List (String × String)
  text : String
  children : List Node
  deriving Inhabited, Repr

namespace Node

mutual

/-- Equality of elements is decided part by part. -/
def decEq : (a b : Node) → Decidable (a = b)
  | ⟨name, attributes, text, children⟩, ⟨name', attributes', text', children'⟩ =>
    if h : name = name' ∧ attributes = attributes' ∧ text = text' then
      match decEqList children children' with
      | isTrue hc => isTrue (by rw [h.1, h.2.1, h.2.2, hc])
      | isFalse hc => isFalse fun e => hc (by injection e)
    else isFalse fun e => h (by injection e with h₁ h₂ h₃; exact ⟨h₁, h₂, h₃⟩)
  termination_by structural a => a

/-- Equality of rows of elements is decided one by one. -/
def decEqList : (as bs : List Node) → Decidable (as = bs)
  | [], [] => isTrue rfl
  | [], _ :: _ => isFalse nofun
  | _ :: _, [] => isFalse nofun
  | a :: as, b :: bs =>
    match decEq a b with
    | isFalse h => isFalse fun e => h (List.cons.inj e).1
    | isTrue h =>
      match decEqList as bs with
      | isFalse ht => isFalse fun e => ht (List.cons.inj e).2
      | isTrue ht => isTrue (by rw [h, ht])
  termination_by structural as => as

end

instance : DecidableEq Node :=
  decEq

/-- An element without content. -/
def leaf (name text : String) : Node :=
  ⟨name, [], text, []⟩

/-- An element with children only. -/
def parent (name : String) (children : List Node) : Node :=
  ⟨name, [], "", children⟩

/-- The characters of a name before and after its first colon. -/
def splitName (name : List Char) : List Char × List Char :=
  name.span (· != ':')

/-- The name without its namespace prefix: what follows the first colon, or all of it. -/
def localName (n : Node) : String :=
  match splitName n.name.toList with
  | (_, _ :: rest) => String.ofList rest
  | (_, []) => n.name

/-- The namespace prefix: what stands before the first colon. -/
def namespacePrefix? (n : Node) : Option String :=
  match splitName n.name.toList with
  | (before, _ :: _) => some (String.ofList before)
  | (_, []) => none

/-- The value of an attribute. -/
def attribute? (n : Node) (key : String) : Option String :=
  n.attributes.lookup key

/-- The first child with a local name. -/
def child? (n : Node) (name : String) : Option Node :=
  n.children.find? (·.localName = name)

/-- The children with a local name. -/
def childrenNamed (n : Node) (name : String) : List Node :=
  n.children.filter (·.localName = name)

/-- The descendant that a path of local names leads to, always by the first child. -/
def descendant? (n : Node) : List String → Option Node
  | [] => some n
  | name :: path => do (← n.child? name).descendant? path

/-- The text of the descendant at a path of local names, and empty without one. -/
def textAt (n : Node) (path : List String) : String :=
  match n.descendant? path with
  | some n => n.text
  | none => ""

end Node

end Accession

/-! ## Writing an element tree

A tree is written with a declaration in front, each tag on a line of its own and indented by two
spaces for every element around it. Nothing is put next to a text, so that reading back finds the
text as it was. -/

namespace Accession.Node

/-- A line break, and the indentation inside `depth` elements. -/
def newline (depth : Nat) : List Char :=
  '\n' :: List.replicate (2 * depth) ' '

/-- An attribute of a tag. -/
def renderAttribute (a : String × String) : List Char :=
  ' ' :: a.1.toList ++ ['=', '"'] ++ Markup.escape a.2.toList ++ ['"']

/-- The content of a start tag. -/
def renderStart (name : String) (attributes : List (String × String)) : List Char :=
  name.toList ++ attributes.flatMap renderAttribute

mutual

/-- An element inside `depth` others. The end tag has a line of its own after children only. -/
def renderAt (depth : Nat) : Node → List Char
  | ⟨name, attributes, text, children⟩ =>
    if children.isEmpty && text.isEmpty then
      '<' :: renderStart name attributes ++ ['/', '>']
    else
      '<' :: renderStart name attributes ++ ['>'] ++ Markup.escape text.toList ++
        renderChildren (depth + 1) text.isEmpty children ++
        (if children.isEmpty then [] else newline depth) ++ ['<', '/'] ++ name.toList ++ ['>']
  termination_by structural node => node

/-- Children inside `depth` elements. The first one has a line of its own if `fresh`. -/
def renderChildren (depth : Nat) (fresh : Bool) : List Node → List Char
  | [] => []
  | child :: children =>
    (if fresh then newline depth else []) ++ renderAt depth child ++
      renderChildren depth true children
  termination_by structural children => children

end

/-- The declaration in front of a tree. -/
def declaration : String :=
  "<?xml version=\"1.0\" encoding=\"UTF-8\"?>"

/-- The written form of a tree. -/
def render (root : Node) : String :=
  String.ofList (declaration.toList ++ newline 0 ++ renderAt 0 root ++ ['\n'])

end Accession.Node

/-! ## Reading an element tree

The tree of the first element of a marked-up text. Reading ends with that element. An element with
children keeps its text only if some of it is not blank, since blanks between elements are layout;
an element without children keeps its text exactly. -/

namespace Accession.Node

open Markup (Event)

/-- Why there is no tree. -/
inductive ReadError where
  | malformed (error : Markup.Error)
  /-- The text ends before the outermost element does. -/
  | truncated (name : String)
  deriving DecidableEq, Repr

/-- An element whose end is still to come, with its children so far, last one first. -/
structure Opened where
  name : String
  attributes : List (String × String)
  text : String
  children : List Node

/-- How a reader goes on. -/
inductive Progress where
  /-- The open elements, innermost first. -/
  | reading (stack : List Opened)
  /-- The outermost element is closed. -/
  | finished (root : Node)

/-- Attributes as texts, in order; the first one that is no text is the error, and `fault` comes
after all of them. -/
def readAttributes (fault : Option Markup.AttributeFault) :
    List Markup.Attribute → Except ReadError (List (String × String))
  | [] =>
    match fault with
    | some fault => .error (.malformed (.attributes fault))
    | none => .ok []
  | a :: rest => do
    let value ← (Markup.decodeText a.value).mapError .malformed
    return (String.ofList (Utf8.decodeLossy a.key), value) :: (← readAttributes fault rest)

/-- The element that a tag with this content opens. -/
def openTag (content : List UInt8) : Except ReadError Opened := do
  let (attributes, fault) := Markup.attributes content
  return {
    name := String.ofList (Utf8.decodeLossy (Markup.nameOf content))
    attributes := ← readAttributes fault attributes
    text := ""
    children := [] }

/-- An open element with one more child. -/
def Opened.add (o : Opened) (child : Node) : Opened :=
  { o with children := child :: o.children }

/-- The element, now that its end has come. Blank text beside children is layout. -/
def Opened.close (o : Opened) : Node where
  name := o.name
  attributes := o.attributes
  text := if !o.children.isEmpty && o.text.toList.all Blank.isBlank then "" else o.text
  children := o.children.reverse

/-- A complete element goes into the innermost open one, or is the outermost. -/
def place (node : Node) : List Opened → Progress
  | [] => .finished node
  | parent :: stack => .reading (parent.add node :: stack)

/-- A text goes on the text of the innermost open element. -/
def addText (text : String) : List Opened → List Opened
  | [] => []
  | o :: stack => { o with text := o.text ++ text } :: stack

/-- What one event does to the open elements. Text outside all elements is not looked at. -/
def readStep (stack : List Opened) : Event → Except ReadError Progress
  | .start content => do return .reading ((← openTag content) :: stack)
  | .empty content => do
    let o ← openTag content
    return place ⟨o.name, o.attributes, "", []⟩ stack
  | .close _ =>
    match stack with
    | [] => .ok (.reading [])
    | o :: stack => .ok (place o.close stack)
  | .text bytes =>
    match stack with
    | [] => .ok (.reading [])
    | _ => do return .reading (addText (← (Markup.decodeText bytes).mapError .malformed) stack)
  | .characterData bytes =>
    .ok (.reading (addText (String.ofList (Utf8.decodeLossy bytes)) stack))
  | .aside => .ok (.reading stack)

/-- What the end of the text means: an open element is cut off, and without any there is no
tree. -/
def readEnd (fault : Option Markup.Error) (stack : List Opened) : Except ReadError (Option Node) :=
  match fault with
  | some error => .error (.malformed error)
  | none =>
    match stack.getLast? with
    | some o => .error (.truncated o.name)
    | none => .ok none

/-- Reads events with these elements open; `fault` is what cut the events short. -/
def readEvents (fault : Option Markup.Error) (stack : List Opened) :
    List Event → Except ReadError (Option Node)
  | [] => readEnd fault stack
  | event :: events =>
    match readStep stack event with
    | .error error => .error error
    | .ok (.finished root) => .ok (some root)
    | .ok (.reading stack) => readEvents fault stack events

/-- The tree in some octets; `none` if there is no element. -/
def parse (bytes : List UInt8) : Except ReadError (Option Node) :=
  let document := Markup.read bytes
  readEvents document.fault [] document.events

end Accession.Node

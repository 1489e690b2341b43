import Accession.Index
import Accession.Text.Utf8
set_option autoImplicit false

/-!
# Paths

Names with slashes between them. Joining and cutting paths works on the marks that they are spelled
with, and does not look at any file. A path keeps the spelling it was given, since messages show it.

A program names its files by texts, and the system keeps names and paths as octets, which need not
be UTF-8. Both are spelled alike, so what is said about paths is said of both. A text stands for its
octets; octets are shown as a text with U+FFFD in place of what is not UTF-8, so different octets
may be shown alike.

## Main definitions

* `Octets` — what the system keeps, with `Octets.ofText` and `Octets.shown`.
* `Spelled` — what a path can be spelled in.
* `Path.segments` — what stands between the slashes.
* `Path.join` — a path that starts from another.
* `Path.components`, `Path.relativeTo?` — what a path is made of, and what of that is behind another
  path.
* `Path.fileName?`, `Path.parent?` — the last name, and the path without it.
-/

namespace Accession

/-! ### Octets -/

/-- A name or a path as the system keeps it. -/
structure Octets where
  toList : List UInt8
  deriving DecidableEq, Repr

namespace Octets

/-- The octets of a text. -/
def ofText (text : String) : Octets :=
  ⟨Utf8.encode text.toList⟩

instance : Coe String Octets :=
  ⟨ofText⟩

/-- The text that octets are shown as, with U+FFFD for what is not UTF-8. -/
def shown (octets : Octets) : String :=
  String.ofList (Utf8.decodeLossy octets.toList)

/-- The text that octets spell, if they spell one. -/
def text? (octets : Octets) : Option String :=
  match Utf8.decode octets.toList with
  | .ok text => some (String.ofList text)
  | .error _ => none

/-- Whether octets spell a text. -/
def IsText (octets : Octets) : Prop :=
  ∃ text : String, octets = text

instance : LT Octets :=
  ⟨fun first second => first.toList < second.toList⟩

instance : DecidableLT Octets := fun first second =>
  inferInstanceAs (Decidable (first.toList < second.toList))

instance : Std.Irrefl (fun first second : Octets => first < second) :=
  ⟨fun octets => List.lt_irrefl octets.toList⟩

instance : Ordered UInt8 where
  lt_trans := UInt8.lt_trans
  eq_of_not_lt h h' := UInt8.le_antisymm (UInt8.not_lt.1 h') (UInt8.not_lt.1 h)

instance : Ordered Octets where
  lt_trans {a b c} := Ordered.lt_trans (a := a.toList) (b := b.toList) (c := c.toList)
  eq_of_not_lt {a b} h h' := congrArg mk (Ordered.eq_of_not_lt (a := a.toList) (b := b.toList) h h')

end Octets

/-! ### Spellings -/

/-- The marks that paths are spelled with: one separates names, and one, or two of it in a row,
stands for a directory. -/
class Mark (μ : Type) where
  slash : μ
  dot : μ

instance : Mark Char where
  slash := '/'
  dot := '.'

instance : Mark UInt8 where
  slash := 0x2F
  dot := 0x2E

/-- What a path can be spelled in: rows of marks. -/
class Spelled (τ : Type) (μ : outParam Type) where
  marks : τ → List μ
  ofMarks : List μ → τ
  marks_ofMarks : ∀ row, marks (ofMarks row) = row
  ofMarks_marks : ∀ path, ofMarks (marks path) = path

instance : Spelled String Char where
  marks := String.toList
  ofMarks := String.ofList
  marks_ofMarks _ := String.toList_ofList
  ofMarks_marks _ := String.ofList_toList

instance : Spelled Octets UInt8 where
  marks := Octets.toList
  ofMarks := Octets.mk
  marks_ofMarks _ := rfl
  ofMarks_marks _ := rfl

namespace Path

open Mark Spelled

variable {τ μ : Type} [DecidableEq μ] [Mark μ] [Spelled τ μ]

/-- What stands between the slashes of a path. -/
def segments (path : τ) : List τ :=
  ((marks path).splitOn slash).map ofMarks

omit [DecidableEq μ] in
/-- Segments with slashes between them. -/
def ofSegments (segments : List τ) : τ :=
  ofMarks (List.intercalate [slash] (segments.map marks))

/-- Whether a path starts from the root of the file system. -/
def isAbsolute (path : τ) : Bool :=
  (marks path).head? = some slash

/-- Whether a path ends with a slash. -/
def endsWithSlash (path : τ) : Bool :=
  (marks path).getLast? = some slash

/-- The path that `path` names when it starts from `base`. -/
def join (base path : τ) : τ :=
  if isAbsolute path ∨ marks base = [] then path
  else if endsWithSlash base then ofMarks (marks base ++ marks path)
  else ofMarks (marks base ++ slash :: marks path)

/-- Whether a segment leads nowhere. -/
def isIdle (segment : τ) : Bool :=
  marks segment = [] || marks segment = [dot]

/-- Whether a segment leads up. -/
def isUp (segment : τ) : Bool :=
  marks segment = [dot, dot]

/-! ### Components -/

/-- What a path is made of. -/
inductive Component (τ : Type) where
  /-- The root of the file system. -/
  | root
  /-- A dot that begins a path. Other dots are idle. -/
  | current
  /-- Two dots. -/
  | up
  | name (name : τ)
  deriving DecidableEq, Repr

/-- What a segment stands for that is not idle. -/
def Component.ofSegment (segment : τ) : Component τ :=
  if isUp segment then .up else .name segment

omit [DecidableEq μ] [Mark μ] [Spelled τ μ] in
/-- The name that a component is, if it is one. -/
def Component.name? : Component τ → Option τ
  | .name own => some own
  | _ => none

/-- What a path is made of, however many slashes and idle dots it is spelled with. -/
def components (path : τ) : List (Component τ) :=
  let inner := ((segments path).filter (!isIdle ·)).map .ofSegment
  if isAbsolute path then .root :: inner
  else if (segments path).head?.map marks = some [dot] then .current :: inner
  else inner

/-- What a path is made of behind `base`; `none` if it does not begin with all of that. -/
def relativeTo? [DecidableEq τ] (base path : τ) : Option (List (Component τ)) :=
  (components base).isPrefixOf? (components path)

/-- Names as a text: each as it is shown, with slashes between them. -/
def shown (names : List Octets) : String :=
  ofSegments (names.map Octets.shown)

/-! ### Last names -/

/-- Segments (last one first) without the idle ones in front. -/
def dropIdle (segments : List τ) : List τ :=
  segments.dropWhile isIdle

/-- The last name of a path; `none` if the path ends by going up, or names nothing. -/
def fileName? (path : τ) : Option τ :=
  match dropIdle (segments path).reverse with
  | [] => none
  | name :: _ => if isUp name then none else some name

/-- Segments (last one first) without idle ones in front. A dot that begins a path stays. -/
def trimRight : List τ → List τ
  | [] => []
  | [segment] => if marks segment = [] then [] else [segment]
  | segment :: rest => if isIdle segment then trimRight rest else segment :: rest

/-- The path without its last name; `none` if there is no name to leave out. -/
def parent? (path : τ) : Option τ :=
  if isAbsolute path then
    match dropIdle (segments path).reverse with
    | [] => none
    | _ :: rest => some (ofMarks (slash :: marks (ofSegments (dropIdle rest).reverse)))
  else
    match trimRight (segments path).reverse with
    | [] => none
    | _ :: rest => some (ofSegments (trimRight rest).reverse)

end Path

end Accession

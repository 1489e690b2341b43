import Accession.Text.Character
set_option autoImplicit false

/-!
# JSON

The JSON values that reports and sidecars are made of, as they are written and as they are read.

## Main definitions

* `Json` — a value.
* `Json.escape` — a character inside a text.
* `Json.render` — the written form of a value.
* `Json.readText` — the rest of a text after its opening quote.
* `Json.parse` — the value of a whole text.
-/

/-! ## JSON values

The JSON values that reports and sidecars are made of: texts, lists and records. They hold no
numbers and no truth values. -/

namespace Accession

/-- A JSON value without numbers and truth values. A record keeps the order of its fields. -/
inductive Json where
  | string (text : String)
  | list (items : List Json)
  | record (fields : List (String × Json))

end Accession

/-! ## Writing JSON

A value is written over several lines, each item and each field on a line of its own, indented by a
fixed number of spaces for every list or record around it. An empty list is `[]`, and an empty
record is a pair of braces. -/

namespace Accession.Json

/-- A character inside a text. Only the quote, the backslash and the characters below the space
have written forms other than themselves. -/
def escape (c : Char) : List Char :=
  if c = '"' then ['\\', '"']
  else if c = '\\' then ['\\', '\\']
  else if c = '\x08' then ['\\', 'b']
  else if c = '\x0c' then ['\\', 'f']
  else if c = '\n' then ['\\', 'n']
  else if c = '\r' then ['\\', 'r']
  else if c = '\t' then ['\\', 't']
  else if c.toNat < 0x20 then
    ['\\', 'u', '0', '0', Numeral.digitChar (c.toNat / 16), Numeral.digitChar (c.toNat % 16)]
  else [c]

/-- A text between quotes. -/
def renderText (text : String) : List Char :=
  '"' :: text.toList.flatMap escape ++ ['"']

/-- A line break, and the indentation of `depth` levels of `width` spaces. -/
def newline (width depth : Nat) : List Char :=
  '\n' :: List.replicate (width * depth) ' '

mutual

/-- A value inside `depth` lists and records. -/
def renderAt (width depth : Nat) : Json → List Char
  | .string text => renderText text
  | .list [] => ['[', ']']
  | .list (item :: items) =>
    '[' :: newline width (depth + 1) ++ renderAt width (depth + 1) item ++
      renderItems width (depth + 1) items ++ newline width depth ++ [']']
  | .record [] => ['\x7b', '\x7d']
  | .record ((key, value) :: fields) =>
    '\x7b' :: newline width (depth + 1) ++ renderText key ++ [':', ' '] ++
      renderAt width (depth + 1) value ++ renderFields width (depth + 1) fields ++
      newline width depth ++ ['\x7d']
  termination_by structural value => value

/-- Further items of a list. -/
def renderItems (width depth : Nat) : List Json → List Char
  | [] => []
  | item :: items =>
    ',' :: newline width depth ++ renderAt width depth item ++ renderItems width depth items
  termination_by structural items => items

/-- Further fields of a record. -/
def renderFields (width depth : Nat) : List (String × Json) → List Char
  | [] => []
  | (key, value) :: fields =>
    ',' :: newline width depth ++ renderText key ++ [':', ' '] ++ renderAt width depth value ++
      renderFields width depth fields
  termination_by structural fields => fields

end

/-- The written form of a value, with `width` spaces for each level. -/
def render (width : Nat) (value : Json) : String :=
  String.ofList (renderAt width 0 value)

end Accession.Json

/-! ## Reading JSON

The value that a text writes: texts, lists and records, with blanks between the parts. -/

namespace Accession.Json

/-- Blanks between the parts of a value. -/
def isBlank (c : Char) : Bool :=
  c == ' ' || c == '\n' || c == '\t' || c == '\r'

/-- A text without the blanks at its front. -/
def skip (text : List Char) : List Char :=
  text.dropWhile isBlank

/-- The character of a short escape. -/
def unescape? (c : Char) : Option Char :=
  if c = '"' then some '"'
  else if c = '\\' then some '\\'
  else if c = '/' then some '/'
  else if c = 'b' then some '\x08'
  else if c = 'f' then some '\x0c'
  else if c = 'n' then some '\n'
  else if c = 'r' then some '\r'
  else if c = 't' then some '\t'
  else none

/-- Reads a text up to its closing quote, after the characters `done` (last one first); the result
is the text and what follows the quote. -/
def readText (done : List Char) : List Char → Option (String × List Char)
  | [] => none
  | '"' :: rest => some (String.ofList done.reverse, rest)
  | '\\' :: 'u' :: a :: b :: c :: d :: rest => do
    let code ← Numeral.value? 16 [a, b, c, d]
    if code.isValidChar then readText (Char.ofNat code :: done) rest else none
  | '\\' :: c :: rest => do readText ((← unescape? c) :: done) rest
  | c :: rest => if c.toNat < 0x20 then none else readText (c :: done) rest

mutual

/-- Reads a value; `fuel` bounds the number of steps. -/
def readValue (fuel : Nat) (text : List Char) : Option (Json × List Char) :=
  match fuel with
  | 0 => none
  | fuel + 1 =>
    match skip text with
    | '"' :: rest => (readText [] rest).map fun (text, rest) => (.string text, rest)
    | '[' :: rest =>
      match skip rest with
      | ']' :: rest => some (.list [], rest)
      | rest => (readItems fuel rest).map fun (items, rest) => (.list items, rest)
    | '\x7b' :: rest =>
      match skip rest with
      | '\x7d' :: rest => some (.record [], rest)
      | rest => (readFields fuel rest).map fun (fields, rest) => (.record fields, rest)
    | _ => none

/-- Reads the items of a list up to its closing bracket; there is at least one. -/
def readItems (fuel : Nat) (text : List Char) : Option (List Json × List Char) :=
  match fuel with
  | 0 => none
  | fuel + 1 => do
    let (item, rest) ← readValue fuel text
    match skip rest with
    | ',' :: rest =>
      let (items, rest) ← readItems fuel rest
      return (item :: items, rest)
    | ']' :: rest => return ([item], rest)
    | _ => none

/-- Reads the fields of a record up to its closing brace; there is at least one. -/
def readFields (fuel : Nat) (text : List Char) : Option (List (String × Json) × List Char) :=
  match fuel with
  | 0 => none
  | fuel + 1 =>
    match skip text with
    | '"' :: rest => do
      let (key, rest) ← readText [] rest
      match skip rest with
      | ':' :: rest =>
        let (value, rest) ← readValue fuel rest
        match skip rest with
        | ',' :: rest =>
          let (fields, rest) ← readFields fuel rest
          return ((key, value) :: fields, rest)
        | '\x7d' :: rest => return ([(key, value)], rest)
        | _ => none
      | _ => none
    | _ => none

end

/-- The value of a whole text. A value takes fewer steps than twice its characters. -/
def parse (text : String) : Option Json := do
  let (value, rest) ← readValue (2 * text.toList.length + 2) text.toList
  if (skip rest).isEmpty then some value else none

end Accession.Json

import Accession.Instant.Basic
import Accession.Text.Character
set_option autoImplicit false

/-!
# TOML

What a TOML document says, as far as settings need it, and how it is read.

## Main definitions

* `Toml.Value` — a value.
* `Toml.Section` — a header and the entries under it.
* `Toml.Document` — the entries before the first header, and the sections.
* `Toml.areCompatible` — whether keys can stand side by side in one table.
* `Toml.isScalar` — whether a word is one of them.
* `Toml.isDate` — whether a word is a date, which a time may follow after a space.
* `Toml.readKey`, `Toml.readValue` — a dotted key, and a value.
* `Toml.parse` — the document in a text.
-/

/-! ## TOML documents

What a TOML document says, as far as settings need it: texts, lists and tables. Numbers, truth
values and dates are kept apart from these, but not from each other. -/

namespace Accession.Toml

/-- A dotted key, as the keys between its dots. -/
abbrev Key :=
  List String

/-- A value. An inline table keeps its entries as they are written. -/
inductive Value where
  | string (text : String)
  /-- A number, a truth value or a date. -/
  | scalar
  | list (items : List Value)
  | table (entries : List (Key × Value))

/-- How a header begins a section: as the one table of its name, or as one more in a list. -/
inductive Header where
  | table (key : Key)
  | element (key : Key)
  deriving DecidableEq, Repr

/-- A header and the entries under it. -/
structure Section where
  header : Header
  entries : List (Key × Value)

/-- The entries before the first header, and the sections. -/
structure Document where
  entries : List (Key × Value)
  sections : List Section

/-- Whether keys can stand side by side in one table: none of them begins another, or is written
twice. -/
def areCompatible : List Key → Bool
  | [] => true
  | key :: keys =>
    keys.all (fun other => !key.isPrefixOf other && !other.isPrefixOf key) && areCompatible keys

end Accession.Toml

/-! ## Numbers, truth values and dates

Which words of a TOML document are numbers, truth values or dates. Their values are not needed. -/

namespace Accession.Toml

open Numeral (isDecimal)

/-- Whether digits of a base stand in groups with an underscore between them. -/
def isGrouped (base : Nat) (digits : List Char) : Bool :=
  (digits.splitOn '_').all fun group =>
    !group.isEmpty && group.all fun c => (Numeral.digitValue? base c).isSome

/-- The value of grouped digits. -/
def groupedValue (base : Nat) (digits : List Char) : Nat :=
  (Numeral.value? base (digits.filter (· != '_'))).getD 0

/-- A word without its sign, and whether the sign is a minus. -/
def dropSign : List Char → Bool × List Char
  | '+' :: rest => (false, rest)
  | '-' :: rest => (true, rest)
  | word => (false, word)

/-- Whether digits are the whole part of a number: grouped, and without needless zeros. -/
def isWhole (digits : List Char) : Bool :=
  isGrouped 10 digits && (digits.length ≤ 1 || digits.head? != some '0')

/-- The least whole number that has no place in 64 bits with a sign. -/
def limit : Nat :=
  0x8000000000000000

/-- Whether a word is a whole number of 64 bits. Only decimal ones have a sign. -/
def isInteger (word : List Char) : Bool :=
  match word with
  | '0' :: 'x' :: digits => isGrouped 16 digits && groupedValue 16 digits < limit
  | '0' :: 'o' :: digits => isGrouped 8 digits && groupedValue 8 digits < limit
  | '0' :: 'b' :: digits => isGrouped 2 digits && groupedValue 2 digits < limit
  | _ =>
    let (negative, digits) := dropSign word
    isWhole digits && groupedValue 10 digits < limit + (if negative then 1 else 0)

/-- Whether a character begins the exponent of a number. -/
def isExponentMark (c : Char) : Bool :=
  c == 'e' || c == 'E'

/-- Whether a word is a number with a fraction or an exponent, or one of the special numbers. -/
def isFloat (word : List Char) : Bool :=
  let (_, word) := dropSign word
  let mantissa := word.takeWhile (!isExponentMark ·)
  let exponent := word.dropWhile (!isExponentMark ·)
  let whole := mantissa.takeWhile (· != '.')
  let fraction := mantissa.dropWhile (· != '.')
  word == "inf".toList || word == "nan".toList ||
    (isWhole whole && (fraction.isEmpty || isGrouped 10 (fraction.drop 1)) &&
      (exponent.isEmpty || isGrouped 10 (dropSign (exponent.drop 1)).2) &&
      !(fraction.isEmpty && exponent.isEmpty))

/-- Whether a word is `n` digits, and then their value satisfies a condition. -/
def isFixed (n : Nat) (p : Nat → Bool) (digits : List Char) : Bool :=
  digits.length == n && digits.all isDecimal && p (groupedValue 10 digits)

/-- Whether a word is a date of the calendar. -/
def isDate (word : List Char) : Bool :=
  match word.splitOn '-' with
  | [year, month, day] =>
    isFixed 4 (fun _ => true) year && isFixed 2 (fun _ => true) month &&
      isFixed 2 (fun _ => true) day &&
      decide (Date.Valid ⟨groupedValue 10 year, groupedValue 10 month, groupedValue 10 day⟩)
  | _ => false

/-- Whether a word is a time of day. -/
def isTime (word : List Char) : Bool :=
  let fraction := word.dropWhile (· != '.')
  (match (word.takeWhile (· != '.')).splitOn ':' with
    | [hour, minute, second] =>
      isFixed 2 (· < 24) hour && isFixed 2 (· < 60) minute && isFixed 2 (· ≤ 60) second
    | _ => false) &&
    (fraction.isEmpty || (!(fraction.drop 1).isEmpty && (fraction.drop 1).all isDecimal))

/-- Whether a word is a distance to universal time. -/
def isOffset (word : List Char) : Bool :=
  match word with
  | [] => true
  | ['Z'] | ['z'] => true
  | sign :: rest =>
    (sign == '+' || sign == '-') &&
      match rest.splitOn ':' with
      | [hours, minutes] => isFixed 2 (· < 24) hours && isFixed 2 (· < 60) minutes
      | _ => false

/-- Whether a word is a date and a time of day, with or without a distance to universal time. -/
def isDateTime (word : List Char) : Bool :=
  let isTimeChar c := isDecimal c || c == ':' || c == '.'
  let time := word.drop 11
  isDate (word.take 10) && [some 'T', some 't', some ' '].contains word[10]? &&
    isTime (time.takeWhile isTimeChar) && isOffset (time.dropWhile isTimeChar)

/-- Whether a word is a number, a truth value or a date. -/
def isScalar (word : List Char) : Bool :=
  word == "true".toList || word == "false".toList || isInteger word || isFloat word ||
    isDate word || isTime word || isDateTime word

end Accession.Toml

/-! ## Reading TOML

A document is read line by line: entries, headers, comments. Values may span lines. Each reader
takes a text and gives what it read together with the rest, or nothing if the text is not as it
should be. -/

namespace Accession.Toml

/-! ### Blanks and comments -/

/-- Blanks within a line. -/
def isBlank (c : Char) : Bool :=
  c == ' ' || c == '\t'

/-- A text without the blanks at its front. -/
def skip (text : List Char) : List Char :=
  text.dropWhile isBlank

/-- Whether a character may stand in comments and texts: no control but the tab. -/
def isPlain (c : Char) : Bool :=
  c == '\t' || (0x20 ≤ c.toNat && c.toNat != 0x7F)

/-- The rest behind a line break, which may have two characters. -/
def newline? : List Char → Option (List Char)
  | '\n' :: rest => some rest
  | '\r' :: '\n' :: rest => some rest
  | _ => none

/-- Reads up to the end of a line, or of the text: blanks and a comment. -/
def readLineEnd (text : List Char) : Option (List Char) :=
  let text := skip text
  let rest := if text.head? = some '#' then text.dropWhile isPlain else text
  if rest.isEmpty then some [] else newline? rest

/-- Skips blanks, line breaks and comments; `inComment` says whether a comment is open. -/
def skipLines (inComment : Bool) : List Char → Option (List Char)
  | [] => some []
  | '\n' :: rest => skipLines false rest
  | '\r' :: '\n' :: rest => skipLines false rest
  | c :: rest =>
    if inComment then if isPlain c then skipLines true rest else none
    else if isBlank c then skipLines false rest
    else if c = '#' then skipLines true rest
    else some (c :: rest)

/-! ### Texts -/

/-- The character with a code that hexadecimal digits write. -/
def coded? (digits : List Char) : Option Char := do
  let code ← Numeral.value? 16 digits
  if code.isValidChar then some (Char.ofNat code) else none

/-- The character of a short escape. -/
def escaped? (c : Char) : Option Char :=
  if c = 'b' then some '\x08'
  else if c = 't' then some '\t'
  else if c = 'n' then some '\n'
  else if c = 'f' then some '\x0c'
  else if c = 'r' then some '\r'
  else if c = '"' then some '"'
  else if c = '\\' then some '\\'
  else none

/-- Reads a text up to its closing quote, after the characters `done` (last one first). -/
def readBasic (done : List Char) : List Char → Option (String × List Char)
  | [] => none
  | '"' :: rest => some (String.ofList done.reverse, rest)
  | '\\' :: 'u' :: a :: b :: c :: d :: rest => do
    readBasic ((← coded? [a, b, c, d]) :: done) rest
  | '\\' :: 'U' :: a :: b :: c :: d :: e :: f :: g :: h :: rest => do
    readBasic ((← coded? [a, b, c, d, e, f, g, h]) :: done) rest
  | '\\' :: c :: rest => do readBasic ((← escaped? c) :: done) rest
  | c :: rest => if isPlain c then readBasic (c :: done) rest else none

/-- Reads a text without escapes up to its closing quote. -/
def readLiteral (text : List Char) : Option (String × List Char) :=
  let content := text.takeWhile fun c => isPlain c && c != '\''
  match text.drop content.length with
  | '\'' :: rest => some (String.ofList content, rest)
  | _ => none

/-- Reads a text over several lines up to its three closing quotes; up to two more quotes may stand
before them. `joining` says whether a backslash at the end of a line has been read, so that blanks
and line breaks do not count. -/
def readLongBasic (joining : Bool) (done : List Char) : List Char → Option (String × List Char)
  | [] => none
  | '"' :: '"' :: '"' :: '"' :: '"' :: rest =>
    some (String.ofList ('"' :: '"' :: done).reverse, rest)
  | '"' :: '"' :: '"' :: '"' :: rest => some (String.ofList ('"' :: done).reverse, rest)
  | '"' :: '"' :: '"' :: rest => some (String.ofList done.reverse, rest)
  | '\n' :: rest => readLongBasic joining (if joining then done else '\n' :: done) rest
  | '\r' :: '\n' :: rest => readLongBasic joining (if joining then done else '\n' :: done) rest
  | '\\' :: 'u' :: a :: b :: c :: d :: rest => do
    readLongBasic false ((← coded? [a, b, c, d]) :: done) rest
  | '\\' :: 'U' :: a :: b :: c :: d :: e :: f :: g :: h :: rest => do
    readLongBasic false ((← coded? [a, b, c, d, e, f, g, h]) :: done) rest
  | '\\' :: c :: rest =>
    match escaped? c with
    | some c => readLongBasic false (c :: done) rest
    | none =>
      if (newline? (skip (c :: rest))).isSome then readLongBasic true done (c :: rest) else none
  | c :: rest =>
    if joining && isBlank c then readLongBasic true done rest
    else if isPlain c then readLongBasic false (c :: done) rest
    else none

/-- Reads a text over several lines, without escapes, up to its three closing quotes. -/
def readLongLiteral (done : List Char) : List Char → Option (String × List Char)
  | [] => none
  | '\'' :: '\'' :: '\'' :: '\'' :: '\'' :: rest =>
    some (String.ofList ('\'' :: '\'' :: done).reverse, rest)
  | '\'' :: '\'' :: '\'' :: '\'' :: rest => some (String.ofList ('\'' :: done).reverse, rest)
  | '\'' :: '\'' :: '\'' :: rest => some (String.ofList done.reverse, rest)
  | '\n' :: rest => readLongLiteral ('\n' :: done) rest
  | '\r' :: '\n' :: rest => readLongLiteral ('\n' :: done) rest
  | c :: rest => if isPlain c then readLongLiteral (c :: done) rest else none

/-- The line break right behind the opening quotes of a text over several lines does not count. -/
def dropNewline (text : List Char) : List Char :=
  (newline? text).getD text

/-! ### Keys and values -/

/-- Whether a character may stand in a key without quotes. -/
def isBare (c : Char) : Bool :=
  c.isAlphanum || c == '_' || c == '-'

/-- Reads one key. -/
def readSimpleKey : List Char → Option (String × List Char)
  | '"' :: rest => readBasic [] rest
  | '\'' :: rest => readLiteral rest
  | text =>
    let key := text.takeWhile isBare
    if key.isEmpty then none else some (String.ofList key, text.drop key.length)

/-- Reads a dotted key, with blanks around its dots. -/
def readKey (fuel : Nat) (text : List Char) : Option (Key × List Char) :=
  match fuel with
  | 0 => none
  | fuel + 1 => do
    let (key, rest) ← readSimpleKey (skip text)
    match skip rest with
    | '.' :: rest =>
      let (keys, rest) ← readKey fuel rest
      return (key :: keys, rest)
    | rest => return ([key], rest)

/-- Whether a character may stand in a number, a truth value or a date. -/
def isWordChar (c : Char) : Bool :=
  isBare c || c == '+' || c == '.' || c == ':'

/-- Reads a number, a truth value or a date. -/
def readScalar (text : List Char) : Option (Value × List Char) :=
  let word := text.takeWhile isWordChar
  let rest := text.drop word.length
  let more := (rest.drop 1).takeWhile isWordChar
  if isDate word ∧ rest.head? = some ' ' ∧ (more.head?.map Numeral.isDecimal) = some true then
    if isScalar (word ++ ' ' :: more) then some (.scalar, rest.drop (1 + more.length)) else none
  else if isScalar word then some (.scalar, rest)
  else none

mutual

/-- Reads a value with at most `depth` lists and tables inside each other; `fuel` bounds the number
of steps. -/
def readValue (fuel depth : Nat) (text : List Char) : Option (Value × List Char) :=
  match fuel with
  | 0 => none
  | fuel + 1 =>
    match text with
    | '"' :: '"' :: '"' :: rest =>
      (readLongBasic false [] (dropNewline rest)).map fun (s, rest) => (.string s, rest)
    | '"' :: rest => (readBasic [] rest).map fun (s, rest) => (.string s, rest)
    | '\'' :: '\'' :: '\'' :: rest =>
      (readLongLiteral [] (dropNewline rest)).map fun (s, rest) => (.string s, rest)
    | '\'' :: rest => (readLiteral rest).map fun (s, rest) => (.string s, rest)
    | '[' :: rest =>
      match depth with
      | 0 => none
      | depth + 1 => (readItems fuel depth rest).map fun (items, rest) => (.list items, rest)
    | '\x7b' :: rest =>
      match depth with
      | 0 => none
      | depth + 1 => do
        let (entries, rest) ← match skip rest with
          | '\x7d' :: rest => some ([], rest)
          | rest => readEntries fuel depth rest
        if areCompatible (entries.map (·.1)) then some (.table entries, rest) else none
    | _ => readScalar text

/-- Reads the items of a list up to its closing bracket. -/
def readItems (fuel depth : Nat) (text : List Char) : Option (List Value × List Char) :=
  match fuel with
  | 0 => none
  | fuel + 1 => do
    match ← skipLines false text with
    | ']' :: rest => return ([], rest)
    | text =>
      let (item, rest) ← readValue fuel depth text
      match ← skipLines false rest with
      | ',' :: rest =>
        let (items, rest) ← readItems fuel depth rest
        return (item :: items, rest)
      | ']' :: rest => return ([item], rest)
      | _ => none

/-- Reads the entries of an inline table up to its closing brace; there is at least one. -/
def readEntries (fuel depth : Nat) (text : List Char) : Option (List (Key × Value) × List Char) :=
  match fuel with
  | 0 => none
  | fuel + 1 => do
    let (entry, rest) ← readEntry fuel depth text
    match skip rest with
    | ',' :: rest =>
      let (entries, rest) ← readEntries fuel depth rest
      return (entry :: entries, rest)
    | '\x7d' :: rest => return ([entry], rest)
    | _ => none

/-- Reads a key, an equals sign and a value. -/
def readEntry (fuel depth : Nat) (text : List Char) : Option ((Key × Value) × List Char) :=
  match fuel with
  | 0 => none
  | fuel + 1 => do
    let (key, rest) ← readKey fuel text
    match rest with
    | '=' :: rest =>
      let (value, rest) ← readValue fuel depth (skip rest)
      return ((key, value), rest)
    | _ => none

end

/-! ### Documents -/

/-- The number of lists and tables that may be inside each other. -/
def maxDepth : Nat :=
  79

/-- Reads a header. -/
def readHeader (fuel : Nat) : List Char → Option (Header × List Char)
  | '[' :: '[' :: rest => do
    match ← readKey fuel rest with
    | (key, ']' :: ']' :: rest) => return (.element key, rest)
    | _ => none
  | '[' :: rest => do
    match ← readKey fuel rest with
    | (key, ']' :: rest) => return (.table key, rest)
    | _ => none
  | _ => none

/-- Reads the entries up to the next header, or to the end. -/
def readBody (fuel : Nat) (text : List Char) : Option (List (Key × Value) × List Char) :=
  match fuel with
  | 0 => none
  | fuel + 1 => do
    match ← skipLines false text with
    | [] => return ([], [])
    | '[' :: rest => return ([], '[' :: rest)
    | text =>
      let (entry, rest) ← readEntry fuel maxDepth text
      let (entries, rest) ← readBody fuel (← readLineEnd rest)
      return (entry :: entries, rest)

/-- Reads sections up to the end. -/
def readSections (fuel : Nat) (text : List Char) : Option (List Section) :=
  match fuel with
  | 0 => none
  | fuel + 1 =>
    if text.isEmpty then some []
    else do
      let (header, rest) ← readHeader fuel text
      let (entries, rest) ← readBody fuel (← readLineEnd rest)
      let sections ← readSections fuel rest
      if areCompatible (entries.map (·.1)) then some (⟨header, entries⟩ :: sections) else none

/-- The document in a text, which may begin with a byte order mark. Every step but a few for each
value takes a character. -/
def parse (text : String) : Option Document := do
  let text := match text.toList with
    | '\uFEFF' :: rest => rest
    | text => text
  let fuel := 4 * text.length + 4
  let (entries, rest) ← readBody fuel text
  let sections ← readSections fuel rest
  if areCompatible (entries.map (·.1)) then some ⟨entries, sections⟩ else none

end Accession.Toml

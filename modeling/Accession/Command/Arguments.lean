import Accession.Package.Kind
import Accession.Provenance.Record
set_option autoImplicit false

/-!
# Command line arguments

The arguments of the command line, level by level: options of the whole program, then a command
with its own options and operands. Options of the whole program may stand at every level, and the
innermost counts.

An option has a long name and perhaps a short one; a value follows it after an equals sign or as
the next argument, which then may not look like an option. Two dashes end the options.

## Main definitions

* `Command` — what is to be done.
* `Arguments.Level` — the options, operands and commands that a level knows.
* `Arguments.scan` — the arguments of one level.
* `Arguments.parse` — what the arguments ask for.
-/

namespace Accession

/-- What is to be done. -/
inductive Command where
  | verify (package : String) (kind : Option Package.Kind) (json : Bool)
  | identifiers (package : String) (output : Option String) (kind : Option Package.Kind)
      (name : Option String)
  | recordObject (file name : String) (id : Option String)
  | recordObjects (file content : String)
  | recordAgent (file : String)
  | recordEvent (file : String) (summary : Provenance.Summary)
  | log (file : String)
  deriving DecidableEq, Repr

/-- What the arguments ask for. -/
inductive Request where
  | run (settings : Option String) (command : Command)
  | version
  | help
  deriving DecidableEq, Repr

namespace Arguments

/-- What values an option or an operand takes. -/
inductive ValueKind where
  | text
  /-- A path, which may not be empty. -/
  | path
  | packageKind
  deriving DecidableEq, Repr

/-- Whether a text is a value of a kind. -/
def ValueKind.accepts : ValueKind → String → Bool
  | .text, _ => true
  | .path, value => value ≠ ""
  | .packageKind, value => (Package.Kind.ofName? value).isSome

/-- What an option does. -/
inductive Action where
  | flag
  | value (kind : ValueKind)
  | version
  | help
  deriving DecidableEq, Repr

/-- An option. -/
structure Spec where
  name : String
  letter : Option Char
  action : Action
  deriving DecidableEq, Repr

/-- The options, operands and commands that a level knows. -/
structure Level where
  options : List Spec
  operands : List ValueKind
  commands : List String

/-- What has been found at a level: options with their values, operands, and the command with the
arguments behind it. -/
structure Found where
  options : List (String × String)
  operands : List String
  command : Option (String × List String)
  deriving DecidableEq, Repr

/-- Why a level is left early. -/
inductive Stop where
  | version
  | help
  | rejected
  deriving DecidableEq, Repr

/-- A level at which nothing has been found. -/
def Found.nothing : Found :=
  ⟨[], [], none⟩

/-- Takes an option, which may be given only once. -/
def Found.addOption (f : Found) (spec : Spec) (kind : ValueKind) (value : String) :
    Except Stop Found :=
  if f.options.any (·.1 = spec.name) ∨ !kind.accepts value then .error .rejected
  else .ok { f with options := f.options ++ [(spec.name, value)] }

/-- Takes an operand, if the level still expects one. -/
def Found.addOperand (f : Found) (level : Level) (value : String) : Except Stop Found :=
  match level.operands[f.operands.length]? with
  | some kind =>
    if kind.accepts value then .ok { f with operands := f.operands ++ [value] }
    else .error .rejected
  | none => .error .rejected

/-- Whether an argument looks like an option. A single dash does not. -/
def isOptionLike (arg : String) : Bool :=
  arg.toList.head? = some '-' && arg ≠ "-"

/-- Takes an option whose value is the next argument. -/
def Found.addFromNext (f : Found) (spec : Spec) (kind : ValueKind) (rest : List String) :
    Except Stop (Found × List String) :=
  match rest with
  | [] => .error .rejected
  | value :: rest =>
    if isOptionLike value then .error .rejected
    else do return (← f.addOption spec kind value, rest)

/-- Takes a long option: a name, perhaps with an equals sign and a value. -/
def Found.addLong (f : Found) (level : Level) (arg : List Char) (rest : List String) :
    Except Stop (Found × List String) :=
  let name := String.ofList (arg.takeWhile (· != '='))
  let attached := (arg.dropWhile (· != '=')).tail?.map String.ofList
  match level.options.find? (·.name = name) with
  | none => .error .rejected
  | some spec =>
    match spec.action, attached with
    | .version, none => .error .version
    | .help, none => .error .help
    | .flag, none => do return (← f.addOption spec .text "", rest)
    | .value kind, some value => do return (← f.addOption spec kind value, rest)
    | .value kind, none => f.addFromNext spec kind rest
    | _, some _ => .error .rejected

/-- Takes short options: letters in a row, the last of which may take the remaining characters, or
else the next argument, as its value. -/
def Found.addShort (f : Found) (level : Level) (rest : List String) :
    List Char → Except Stop (Found × List String)
  | [] => .ok (f, rest)
  | letter :: letters =>
    match level.options.find? (·.letter = some letter) with
    | none => .error .rejected
    | some spec =>
      match spec.action with
      | .version => .error .version
      | .help => .error .help
      | .flag => do (← f.addOption spec .text "").addShort level rest letters
      | .value kind =>
        match letters with
        | [] => f.addFromNext spec kind rest
        | '=' :: value => do return (← f.addOption spec kind (String.ofList value), rest)
        | value => do return (← f.addOption spec kind (String.ofList value), rest)

/-- Takes the arguments behind two dashes, which are all operands. -/
def Found.addOperands (f : Found) (level : Level) (args : List String) : Except Stop Found :=
  args.foldlM (fun f arg => f.addOperand level arg) f

/-- Reads the arguments of a level, up to its command or to the end; `fuel` is their number. -/
def scan (level : Level) (fuel : Nat) (f : Found) (args : List String) : Except Stop Found :=
  match fuel, args with
  | _, [] => .ok f
  | 0, _ => .error .rejected
  | fuel + 1, arg :: rest =>
    match arg.toList with
    | ['-', '-'] => f.addOperands level rest
    | '-' :: '-' :: name => do
      let (f, rest) ← f.addLong level name rest
      scan level fuel f rest
    | '-' :: letter :: letters => do
      let (f, rest) ← f.addShort level rest (letter :: letters)
      scan level fuel f rest
    | _ =>
      if level.commands.contains arg then .ok { f with command := some (arg, rest) }
      else if !level.commands.isEmpty && arg = "help" then .error .help
      else do scan level fuel (← f.addOperand level arg) rest

/-! ### The levels -/

/-- The options that may stand at every level. -/
def globalOptions : List Spec :=
  [⟨"config", none, .value .path⟩,
   ⟨"verbose", some 'v', .flag⟩,
   ⟨"help", some 'h', .help⟩]

/-- The whole program. -/
def topLevel : Level where
  options := globalOptions ++ [⟨"version", some 'V', .version⟩]
  operands := []
  commands := ["verify", "identifiers", "premis"]

/-- The commands that concern a PREMIS file. -/
def premisLevel : Level where
  options := globalOptions
  operands := []
  commands := ["object", "objects", "agent", "event", "log"]

/-- A command with options and operands of its own. -/
def commandLevel (options : List Spec) (operands : List ValueKind) : Level where
  options := globalOptions ++ options
  operands := operands
  commands := []

/-- An option with a text. -/
def textOption (name : String) : Spec :=
  ⟨name, none, .value .text⟩

/-- The option for the kind of a package. -/
def kindOption : Spec :=
  ⟨"type", none, .value .packageKind⟩

/-! ### Commands -/

/-- The arguments of a level, with a command if the level has any, and all operands. -/
def readLevel (level : Level) (args : List String) : Except Stop Found := do
  let f ← scan level args.length Found.nothing args
  if f.operands.length ≠ level.operands.length then .error .rejected
  else if f.command.isNone && !level.commands.isEmpty then .error .rejected
  else .ok f

/-- The value of an option. -/
def Found.option? (f : Found) (name : String) : Option String :=
  f.options.lookup name

/-- The value of an option that has to be there. -/
def Found.require (f : Found) (name : String) : Except Stop String :=
  match f.option? name with
  | some value => .ok value
  | none => .error .rejected

/-- The value of an option with an empty default. -/
def Found.optionOrEmpty (f : Found) (name : String) : String :=
  (f.option? name).getD ""

/-- The kind of package that is asked for. -/
def Found.kind? (f : Found) : Option Package.Kind :=
  (f.option? kindOption.name).bind Package.Kind.ofName?

/-- An operand. -/
def Found.operand (f : Found) (i : Nat) : String :=
  f.operands.getD i ""

/-- A command, and the settings file named at its level. -/
abbrev Parsed :=
  Option String × Command

/-- The arguments behind `verify`. -/
def parseVerify (args : List String) : Except Stop Parsed := do
  let f ← readLevel (commandLevel [kindOption, ⟨"json", none, .flag⟩] [.path]) args
  return (f.option? "config", .verify (f.operand 0) f.kind? (f.option? "json").isSome)

/-- The arguments behind `identifiers`. -/
def parseIdentifiers (args : List String) : Except Stop Parsed := do
  let f ← readLevel (commandLevel
    [⟨"output", some 'o', .value .path⟩, kindOption, textOption "name"] [.path]) args
  return (f.option? "config",
    .identifiers (f.operand 0) (f.option? "output") f.kind? (f.option? "name"))

/-- The arguments behind `premis object`. -/
def parseObject (args : List String) : Except Stop Parsed := do
  let f ← readLevel (commandLevel [textOption "name", textOption "id"] [.path]) args
  return (f.option? "config", .recordObject (f.operand 0) (← f.require "name") (f.option? "id"))

/-- The arguments behind `premis objects`. -/
def parseObjects (args : List String) : Except Stop Parsed := do
  let f ← readLevel (commandLevel [] [.path, .path]) args
  return (f.option? "config", .recordObjects (f.operand 0) (f.operand 1))

/-- The arguments behind `premis agent`. -/
def parseAgent (args : List String) : Except Stop Parsed := do
  let f ← readLevel (commandLevel [] [.path]) args
  return (f.option? "config", .recordAgent (f.operand 0))

/-- The arguments behind `premis event`. -/
def parseEvent (args : List String) : Except Stop Parsed := do
  let f ← readLevel (commandLevel
    [textOption "type", textOption "detail", textOption "outcome", textOption "note"] [.path]) args
  return (f.option? "config", .recordEvent (f.operand 0)
    ⟨← f.require "type", f.optionOrEmpty "detail", f.optionOrEmpty "outcome",
      f.optionOrEmpty "note"⟩)

/-- The arguments behind `premis log`. -/
def parseLog (args : List String) : Except Stop Parsed := do
  let f ← readLevel (commandLevel [] [.path]) args
  return (f.option? "config", .log (f.operand 0))

/-- The settings file that counts is the one named at the inner level. -/
def within (f : Found) (parsed : Parsed) : Parsed :=
  (parsed.1 <|> f.option? "config", parsed.2)

/-- The arguments behind `premis`. -/
def parsePremis (args : List String) : Except Stop Parsed := do
  let f ← readLevel premisLevel args
  let parsed ← match f.command with
    | some ("object", args) => parseObject args
    | some ("objects", args) => parseObjects args
    | some ("agent", args) => parseAgent args
    | some ("event", args) => parseEvent args
    | some ("log", args) => parseLog args
    | _ => .error .rejected
  return within f parsed

/-- The arguments of the whole program. -/
def parseAll (args : List String) : Except Stop Parsed := do
  let f ← readLevel topLevel args
  let parsed ← match f.command with
    | some ("verify", args) => parseVerify args
    | some ("identifiers", args) => parseIdentifiers args
    | some ("premis", args) => parsePremis args
    | _ => .error .rejected
  return within f parsed

/-- What the arguments ask for; `none` if they are not understood. -/
def parse (args : List String) : Option Request :=
  match parseAll args with
  | .ok (settings, command) => some (.run settings command)
  | .error .version => some .version
  | .error .help => some .help
  | .error .rejected => none

end Arguments

end Accession

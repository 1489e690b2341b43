import Accession.Files.Access
import Accession.Provenance.Record
import Accession.Text.Utf8
import Accession.Toml
set_option autoImplicit false

/-!
# Settings

The settings of the command line, and the file that they are read from.

## Main definitions

* `Settings` — the settings.
* `Settings.parse` — the settings in a text.
* `Settings.Error` — why there are no settings.
* `Settings.load` — the settings.
-/

/-! ## What is set

The settings of the command line: the agent that events are ascribed to, and where the sidecar goes
if nothing else is said. They are read from a TOML document with two tables; what is left out has a
default, and anything else in the document is refused. -/

namespace Accession

/-- The settings of the command line. -/
structure Settings where
  agent : Provenance.Agent
  identifiersFile : String
  deriving DecidableEq, Repr

namespace Settings

/-- The settings where nothing is said. -/
def default : Settings where
  agent := ⟨⟨"url", "https://github.com/artefactual-sdps/enduro"⟩, "Enduro", "software"⟩
  identifiersFile := "metadata/identifiers.json"

/-- The tables of the document, each with its keys in order. -/
def tables : List (String × List String) :=
  [("agent", ["id_type", "id_value", "name", "agent_type"]), ("pip", ["identifiers_file"])]

/-- The text of an entry whose key is one of `keys`. -/
def textOf? (keys : List String) : Toml.Key × Toml.Value → Option (String × String)
  | ([key], .string text) => if keys.contains key then some (key, text) else none
  | _ => none

/-- The texts of a table by key. A table may also be a list of texts, in the order of the keys;
items behind them do not count. -/
def texts? (keys : List String) : Toml.Value → Option (List (String × String))
  | .table entries => entries.mapM (textOf? keys)
  | .list items =>
    (keys.zip items).mapM fun
      | (key, .string text) => some (key, text)
      | _ => none
  | _ => none

/-- The value that an entry before all headers gives to a table: its whole value, or one entry of
it. -/
def leading? : Toml.Key × Toml.Value → Option (String × Toml.Value × Bool)
  | ([table], value) => some (table, value, true)
  | ([table, key], value) => some (table, .table [([key], value)], false)
  | _ => none

/-- The texts that a document gives to a table. It is given as a whole, by a header, or by entries
with dotted keys, and only in one of these ways. -/
def tableTexts? (d : Toml.Document) (table : String) (keys : List String) :
    Option (List (String × String)) := do
  let leading ← d.entries.mapM leading?
  let own := leading.filter (·.1 = table)
  let sections := d.sections.filter (·.header = .table [table])
  match own, sections with
  | [], [] => some []
  | [], [part] => texts? keys (.table part.entries)
  | [(_, value, true)], [] => texts? keys value
  | own, [] =>
    if own.all (!·.2.2) then (own.mapM fun entry => texts? keys entry.2.1).map List.flatten
    else none
  | _, _ => none

/-- Whether a document has no tables but those of the settings. -/
def hasOnlyTables (d : Toml.Document) : Bool :=
  d.entries.all (fun entry => tables.any fun table => entry.1.head? = some table.1) &&
    d.sections.all fun part => tables.any fun table => part.header = .table [table.1]

/-- The settings that texts by key give. -/
def ofTexts (agent pip : List (String × String)) : Settings where
  agent :=
    { identifier :=
        { type := (agent.lookup "id_type").getD default.agent.identifier.type
          value := (agent.lookup "id_value").getD default.agent.identifier.value }
      name := (agent.lookup "name").getD default.agent.name
      agentType := (agent.lookup "agent_type").getD default.agent.agentType }
  identifiersFile := (pip.lookup "identifiers_file").getD default.identifiersFile

/-- The settings in a text. -/
def parse (text : String) : Option Settings := do
  let d ← Toml.parse text
  match ← tables.mapM fun table => tableTexts? d table.1 table.2 with
  | [agent, pip] => if hasOnlyTables d then some (ofTexts agent pip) else none
  | _ => none

end Settings

end Accession

/-! ## Settings files

Settings are read from a file that is named, which then has to exist, or from a file with a fixed
name in the working directory, if it exists. -/

namespace Accession.Settings

/-- Why there are no settings. -/
inductive Error where
  | unreadable (path reason : String)
  | invalid (path : String)
  deriving DecidableEq, Repr

/-- What is wrong with the text of settings, in words. -/
def invalidMessage : String :=
  "invalid configuration"

/-- What is wrong, in words. -/
def Error.message : Error → String
  | .unreadable path _ => "failed to read config " ++ path
  | .invalid path => "failed to load config " ++ path

/-- What is behind it, outermost first. -/
def Error.causes : Error → List String
  | .unreadable _ reason => [reason]
  | .invalid _ => [invalidMessage, "TOML parse error"]

/-- The name of the settings file in the working directory. -/
def defaultFile : String :=
  "sipx.toml"

/-- The settings in a file. -/
def readFile (t : FileTree) (path : String) : Except Error Settings :=
  match Files.read t path with
  | .error fault => .error (.unreadable path fault.message)
  | .ok content =>
    match Utf8.decode content with
    | .error _ => .error (.unreadable path "stream did not contain valid UTF-8")
    | .ok text =>
      match parse (String.ofList text) with
      | some settings => .ok settings
      | none => .error (.invalid path)

/-- The settings in the file that is named, or else in the one in the working directory. -/
def load (t : FileTree) (named : Option String) : Except Error Settings :=
  match named with
  | some path => readFile t path
  | none => if Files.isFile t defaultFile then readFile t defaultFile else .ok default

end Accession.Settings

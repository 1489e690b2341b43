import Accession.Instant.Reader
import Accession.Markup.Node
import Accession.Package.Error
import Accession.Text.Character
set_option autoImplicit false

/-!
# Provenance records

What a PREMIS document holds, and for what causes it cannot be had.

## Main definitions

* `Provenance.Identifier` — a typed identifier.
* `Provenance.ObjectRecord`, `Provenance.EventRecord`, `Provenance.Agent` — the records.
* `Provenance.Summary` — what a caller says about an event.
* `Provenance.Error` — the causes.
* `Provenance.Error.message`, `Provenance.Error.causes` — the wording, and that of what is behind
  it.
-/

/-! ## Records

The records of a PREMIS document: objects (files), events that concern them, and the agents that
performed the events. Records refer to each other by typed identifiers. -/

namespace Accession.Provenance

/-- A typed identifier. -/
structure Identifier where
  type : String
  value : String
  deriving DecidableEq, Repr, Inhabited

/-- An identifier of the type that all identifiers made here have. -/
def Identifier.uuid (value : String) : Identifier :=
  ⟨"UUID", value⟩

/-- A file. -/
structure ObjectRecord where
  identifier : Identifier
  /-- Empty until the format is known. -/
  formatName : String
  /-- The path of the file when it was received. -/
  originalName : String
  /-- The events that concern the file, in the order in which they were linked. -/
  linkedEvents : List Identifier
  deriving DecidableEq, Repr

/-- An action on files. -/
structure EventRecord where
  identifier : Identifier
  eventType : String
  /-- The date and time as it is written. -/
  dateTime : String
  detail : String
  outcome : String
  outcomeDetail : String
  /-- The agent that performed the action. -/
  linkingAgent : Identifier
  deriving DecidableEq, Repr

/-- The moment of an event, if its date and time can be read. -/
def EventRecord.timestamp (event : EventRecord) : Option Instant :=
  Instant.parse event.dateTime

/-- A person, an organization or a program. Two agents are the same if they agree in all parts. -/
structure Agent where
  identifier : Identifier
  name : String
  agentType : String
  deriving DecidableEq, Repr

/-- A program, which is identified by its name and version. -/
def Agent.software (name version : String) : Agent :=
  ⟨⟨"Name", name ++ " v" ++ version⟩, name, "software"⟩

/-- Whether a validation found problems. -/
inductive Outcome where
  | valid
  | invalid
  deriving DecidableEq, Repr

/-- How an outcome is written. -/
def Outcome.name : Outcome → String
  | .valid => "valid"
  | .invalid => "invalid"

/-- What a caller says about an event. -/
structure Summary where
  eventType : String
  detail : String
  outcome : String
  outcomeDetail : String
  deriving DecidableEq, Repr

/-- Texts with a line break between them. -/
def joinLines (lines : List String) : String :=
  String.ofList (List.intercalate ['\n'] (lines.map String.toList))

/-- A validation that found these problems. -/
def Summary.validation (detail : String) (problems : List String) : Summary :=
  if problems.isEmpty then ⟨"validation", detail, Outcome.valid.name, "No problems found"⟩
  else ⟨"validation", detail, Outcome.invalid.name, joinLines problems⟩

end Accession.Provenance

/-! ## What can go wrong with provenance

The causes for which a PREMIS document cannot be read, changed or written. -/

namespace Accession.Provenance

/-- Why a PREMIS document cannot be read, changed or written. -/
inductive Error where
  /-- The text holds no element, or another than a PREMIS document. -/
  | noRoot
  | malformed (error : Markup.Error)
  | truncated (name : String)
  | objectNotFound (originalName : String)
  | noTargets
  /-- The content files cannot be listed. -/
  | listing (error : Package.Error)
  | unidentified (path reason : String)
  /-- The file system refused `action` on `path`. -/
  | storage (action path reason : String)
  deriving DecidableEq, Repr

/-- What is wrong, in words. -/
def Error.message : Error → String
  | .noRoot => "no root premis element found"
  | .malformed error => "malformed PREMIS document: " ++ error.message
  | .truncated name => s!"truncated PREMIS document: <{name}> is never closed"
  | .objectNotFound name => "element not found: object with originalName " ++ Quoted.quote name
  | .noTargets => "event has no target objects"
  | .listing error => "failed to list content files: " ++ error.message
  | .unidentified path reason => s!"format identification failed for {path}: {reason}"
  | .storage action path reason => s!"{action} {path}: {reason}"

/-- What is behind it, outermost first. -/
def Error.causes : Error → List String
  | .malformed error => error.message :: error.causes
  | .listing error => error.message :: error.causes
  | .storage _ _ reason => [reason]
  | _ => []

/-- Why a tree cannot be read. -/
def Error.ofReadError : Node.ReadError → Error
  | .malformed error => .malformed error
  | .truncated name => .truncated name

end Accession.Provenance

import Accession.Instant.Basic
import Accession.Markup.Node
import Accession.Provenance.Context
import Accession.Provenance.Record
set_option autoImplicit false

/-!
# PREMIS documents

A document is the element tree it was read from. Records are looked up in the tree, and new records
are put into it, so whatever else the tree holds stays as it is. Elements are told apart by their
local names; new ones get the namespace prefix of the root.

Among the children of the root, objects come before events, events before agents and agents before
rights: a new record is put in front of the first record of a later kind.

## Main definitions

* `Provenance.Document` — a document, with `Document.parse` and `Document.render`.
* `Document.objects`, `Document.events`, `Document.agents` — its records.
* `Document.appendObject`, `Document.appendAgent`, `Document.appendEvent` — new records.
* `Document.object?`, `Document.agent?`, `Document.eventsFor` — look-ups.
-/

namespace Accession.Provenance

/-- A PREMIS document. -/
structure Document where
  root : Node
  deriving DecidableEq, Repr

/-- The objects that a new event concerns. -/
inductive Targets where
  /-- Every object in the document. -/
  | all
  /-- The objects with these original names, each of which has to exist. -/
  | named (names : List String)
  deriving DecidableEq, Repr

/-- The namespace of schema instances. -/
def instanceNamespace : String :=
  "http://www.w3.org/2001/XMLSchema-instance"

/-- The attribute that declares the namespace of schema instances. -/
def instanceAttribute : String × String :=
  ("xmlns:xsi", instanceNamespace)

/-! ### Building elements -/

/-- A local name with the namespace prefix of a root. -/
def qualify (root : Node) (name : String) : String :=
  match root.namespacePrefix? with
  | some namespacePrefix => namespacePrefix ++ ":" ++ name
  | none => name

/-- An element with a text. -/
def leaf (root : Node) (name text : String) : Node :=
  .leaf (qualify root name) text

/-- An element with children. -/
def branch (root : Node) (name : String) (children : List Node) : Node :=
  .parent (qualify root name) children

/-- An identifier, as an element with a type and a value. -/
def identifierElement (root : Node) (name : String) (id : Identifier) : Node :=
  branch root name [leaf root (name ++ "Type") id.type, leaf root (name ++ "Value") id.value]

/-- A new object: its format is not known yet, and no event concerns it. -/
def objectElement (root : Node) (originalName : String) (id : Identifier) : Node :=
  { branch root "object" [
      identifierElement root "objectIdentifier" id,
      branch root "objectCharacteristics" [
        branch root "format" [branch root "formatDesignation" [leaf root "formatName" ""]]],
      leaf root "originalName" originalName] with
    attributes := [("xsi:type", qualify root "file")] }

/-- A new agent. -/
def agentElement (root : Node) (agent : Agent) : Node :=
  branch root "agent" [
    identifierElement root "agentIdentifier" agent.identifier,
    leaf root "agentName" agent.name,
    leaf root "agentType" agent.agentType]

/-- A new event. -/
def eventElement (root : Node) (id : Identifier) (time : Instant) (summary : Summary)
    (agent : Identifier) : Node :=
  branch root "event" [
    identifierElement root "eventIdentifier" id,
    leaf root "eventType" summary.eventType,
    leaf root "eventDateTime" time.render,
    branch root "eventDetailInformation" [leaf root "eventDetail" summary.detail],
    branch root "eventOutcomeInformation" [
      leaf root "eventOutcome" summary.outcome,
      branch root "eventOutcomeDetail" [
        leaf root "eventOutcomeDetailNote" summary.outcomeDetail]],
    identifierElement root "linkingAgentIdentifier" agent]

/-- A link to an event. -/
def linkElement (root : Node) (event : Identifier) : Node :=
  identifierElement root "linkingEventIdentifier" event

/-! ### Reading elements -/

/-- The identifier in the child called `name`. -/
def readIdentifier (n : Node) (name : String) : Identifier :=
  ⟨n.textAt [name, name ++ "Type"], n.textAt [name, name ++ "Value"]⟩

/-- The event that a link leads to. -/
def readLink (link : Node) : Identifier :=
  ⟨link.textAt ["linkingEventIdentifierType"], link.textAt ["linkingEventIdentifierValue"]⟩

/-- The original name of an object. -/
def originalNameOf (n : Node) : String :=
  n.textAt ["originalName"]

/-- The record of an object. -/
def readObject (n : Node) : ObjectRecord where
  identifier := readIdentifier n "objectIdentifier"
  formatName := n.textAt ["objectCharacteristics", "format", "formatDesignation", "formatName"]
  originalName := originalNameOf n
  linkedEvents := (n.childrenNamed "linkingEventIdentifier").map readLink

/-- The record of an event. -/
def readEvent (n : Node) : EventRecord where
  identifier := readIdentifier n "eventIdentifier"
  eventType := n.textAt ["eventType"]
  dateTime := n.textAt ["eventDateTime"]
  detail := n.textAt ["eventDetailInformation", "eventDetail"]
  outcome := n.textAt ["eventOutcomeInformation", "eventOutcome"]
  outcomeDetail :=
    n.textAt ["eventOutcomeInformation", "eventOutcomeDetail", "eventOutcomeDetailNote"]
  linkingAgent := readIdentifier n "linkingAgentIdentifier"

/-- The record of an agent. -/
def readAgent (n : Node) : Agent where
  identifier := readIdentifier n "agentIdentifier"
  name := n.textAt ["agentName"]
  agentType := n.textAt ["agentType"]

/-! ### Places -/

/-- The kinds of record in the order in which they stand in a document. -/
def recordOrder : List String :=
  ["object", "event", "agent", "rights"]

/-- Whether an element is a record of a later kind than `kind`. -/
def isLater (kind : String) (n : Node) : Bool :=
  match recordOrder.idxOf? kind, recordOrder.idxOf? n.localName with
  | some own, some other => own < other
  | _, _ => false

/-- Puts a record among the children of a root, in front of the first one of a later kind. -/
def insertRecord (record : Node) (root : Node) : Node :=
  let place := root.children.findIdx (isLater record.localName)
  { root with children := root.children.insertIdx place record }

/-- Whether an element is a link to an event. -/
def isEventLink (n : Node) : Bool :=
  n.localName = "linkingEventIdentifier"

/-- Whether an element is a link to a rights statement. -/
def isRightsLink (n : Node) : Bool :=
  n.localName = "linkingRightsStatementIdentifier"

/-- The place for a new event link among the children of an object: behind the last one, or else in
front of the first link to a rights statement, or else at the end. -/
def linkPlace (children : List Node) : Nat :=
  if children.any isEventLink then children.length - children.reverse.findIdx isEventLink
  else children.findIdx isRightsLink

/-- Puts an event link into an object. -/
def insertLink (link object : Node) : Node :=
  { object with children := object.children.insertIdx (linkPlace object.children) link }

namespace Document

/-! ### Documents as texts -/

/-- The document without records. -/
def new : Document where
  root :=
    { name := "premis:premis"
      attributes := [
        ("xmlns:premis", "http://www.loc.gov/premis/v3"),
        instanceAttribute,
        ("xsi:schemaLocation",
          "http://www.loc.gov/premis/v3 https://www.loc.gov/standards/premis/premis.xsd"),
        ("version", "3.0")]
      text := ""
      children := [] }

instance : Inhabited Document :=
  ⟨new⟩

/-- The document in some octets. -/
def parse (bytes : List UInt8) : Except Error Document :=
  match Node.parse bytes with
  | .error error => .error (.ofReadError error)
  | .ok none => .error .noRoot
  | .ok (some root) => if root.localName = "premis" then .ok ⟨root⟩ else .error .noRoot

/-- The document in a text. -/
def parseText (text : String) : Except Error Document :=
  parse (Utf8.encode text.toList)

/-- The written form of a document. -/
def render (d : Document) : String :=
  d.root.render

/-! ### Records -/

/-- Whether an element is the record of an object, an event or an agent. -/
def isRecord (n : Node) : Bool :=
  ["object", "event", "agent"].contains n.localName

/-- Whether there are neither objects nor events nor agents. -/
def isEmpty (d : Document) : Bool :=
  !d.root.children.any isRecord

/-- The objects, in document order. -/
def objects (d : Document) : List ObjectRecord :=
  (d.root.childrenNamed "object").map readObject

/-- The events, in document order. -/
def events (d : Document) : List EventRecord :=
  (d.root.childrenNamed "event").map readEvent

/-- The agents, in document order. -/
def agents (d : Document) : List Agent :=
  (d.root.childrenNamed "agent").map readAgent

/-- Whether an element is an object with this original name. -/
def isObjectNamed (name : String) (n : Node) : Bool :=
  n.localName = "object" && originalNameOf n = name

/-- The place of the first object with an original name. -/
def objectPlace? (d : Document) (name : String) : Option Nat :=
  d.root.children.findIdx? (isObjectNamed name)

/-- The first object with an original name. -/
def object? (d : Document) (name : String) : Option ObjectRecord :=
  (d.root.children.find? (isObjectNamed name)).map readObject

/-- The first agent with an identifier. -/
def agent? (d : Document) (id : Identifier) : Option Agent :=
  d.agents.find? (·.identifier = id)

/-- The first event with an identifier. -/
def event? (d : Document) (id : Identifier) : Option EventRecord :=
  d.events.find? (·.identifier = id)

/-- The events that the object with this original name is linked to, in the order of its links. -/
def eventsFor (d : Document) (name : String) : List EventRecord :=
  match d.object? name with
  | some object => object.linkedEvents.filterMap d.event?
  | none => []

/-! ### New records -/

/-- A root that declares the namespace of schema instances. -/
def declareInstance (root : Node) : Node :=
  if (root.attribute? instanceAttribute.1).isSome then root
  else { root with attributes := root.attributes ++ [instanceAttribute] }

/-- Adds an object, unless there is one with its original name. An object that is there is left as
it is. The result says whether one was added. -/
def appendObject (d : Document) (originalName : String) (id : Identifier) : Bool × Document :=
  if (d.objectPlace? originalName).isSome then (false, d)
  else (true, ⟨insertRecord (objectElement d.root originalName id) (declareInstance d.root)⟩)

/-- Adds an agent, unless there is one that agrees with it in all parts. The result says whether it
was added. -/
def appendAgent (d : Document) (agent : Agent) : Bool × Document :=
  if d.agents.contains agent then (false, d)
  else (true, ⟨insertRecord (agentElement d.root agent) d.root⟩)

/-- The place of the object with this original name, which has to exist. -/
def requirePlace (d : Document) (name : String) : Except Error Nat :=
  match d.objectPlace? name with
  | some place => .ok place
  | none => .error (.objectNotFound name)

/-- The places of the objects that an event concerns. -/
def targetPlaces (d : Document) : Targets → Except Error (List Nat)
  | .all => .ok ((d.root.children.zipIdx.filter (·.1.localName = "object")).map (·.2))
  | .named [] => .error .noTargets
  | .named names => names.mapM d.requirePlace

/-- The children of a root with a link put into the object at each of some places. -/
def linkAt (link : Node) (places : List Nat) (children : List Node) : List Node :=
  places.foldl (fun children place => children.modify place (insertLink link)) children

/-- Records a new event and links it from the objects it concerns. If one of them does not exist,
nothing is changed, and neither an identifier nor a time is taken. -/
def appendEvent (d : Document) (summary : Summary) (agent : Agent) (targets : Targets)
    (context : Context) : Except Error (Identifier × Document × Context) := do
  let places ← d.targetPlaces targets
  let (value, context) := context.nextId
  let (time, context) := context.now
  let id := Identifier.uuid value
  let linked := { d.root with children := linkAt (linkElement d.root id) places d.root.children }
  let event := eventElement d.root id time summary agent.identifier
  return (id, ⟨insertRecord event linked⟩, context)

end Document

end Accession.Provenance

import Accession.Proofs.Lists
import Accession.Proofs.Provenance.Activities
import Accession.Proofs.Provenance.Recording
import Mathlib.Data.List.InsertIdx
set_option autoImplicit false

/-!
# Agents at any time

An agent may be recorded before or after an object or an event: the answers are the same, and so is
the document. A new record goes in front of the first one of a later kind, so of two records of
different kinds neither keeps the other from its place. An event is linked from the objects at
certain places; a new agent moves these places, but not the objects.

## Main definitions

* `Provenance.agentFirst`, `Provenance.eventFirst` — an event and its agent in either order.

## Main results

* `Provenance.insertRecord_comm` — two records of different kinds.
* `Provenance.Document.exists_linkAt_insertRecord` — links and a record that is no object.
* `Provenance.agent_commutes` — an agent before or after an object or an event.
-/

namespace Accession.Provenance

/-! ### Records of different kinds -/

/-- **Two records of different kinds can be put into a root in either order.** -/
theorem insertRecord_comm {first second : Node} (h : isLater first.localName second = true)
    (root : Node) :
    insertRecord first (insertRecord second root) =
      insertRecord second (insertRecord first root) := by
  obtain ⟨i, hi, j, hj, hij⟩ := isLater_iff.1 h
  have hqp (n : Node) (hn : isLater second.localName n = true) :
      isLater first.localName n = true := by
    obtain ⟨j', hj', k, hk, hjk⟩ := isLater_iff.1 hn
    obtain rfl : j = j' := Option.mem_unique hj hj'
    exact isLater_iff.2 ⟨i, hi, k, hk, hij.trans hjk⟩
  have hx : ¬isLater second.localName first = true := by
    intro hlater
    obtain ⟨j', hj', i', hi', hji⟩ := isLater_iff.1 hlater
    obtain rfl : i = i' := Option.mem_unique hi hi'
    obtain rfl : j = j' := Option.mem_unique hj hj'
    omega
  have hchildren := List.insertIdx_findIdx_comm hqp hx h root.children
  simp only [insertRecord]
  exact congrArg (fun children => { root with children }) hchildren

/-- A namespace is declared apart from the records. -/
theorem declareInstance_insertRecord (record root : Node) :
    Document.declareInstance (insertRecord record root) =
      insertRecord record (Document.declareInstance root) := by
  have hsame : (insertRecord record root).attribute? = root.attribute? := rfl
  rw [Document.declareInstance, Document.declareInstance, hsame]
  by_cases h : (root.attribute? instanceAttribute.1).isSome = true
  · rw [if_pos h, if_pos h]
  · rw [if_neg h, if_neg h]
    rfl

/-- What is new depends on a root only by its name. -/
theorem elements_congr {root root' : Node} (h : root'.name = root.name) :
    objectElement root' = objectElement root ∧ agentElement root' = agentElement root ∧
      eventElement root' = eventElement root ∧ linkElement root' = linkElement root := by
  have hqualify : qualify root' = qualify root := by
    funext name
    rw [qualify, qualify, Node.namespacePrefix?, Node.namespacePrefix?, h]
  refine ⟨?_, ?_, ?_, ?_⟩ <;> funext <;>
    simp only [objectElement, agentElement, eventElement, linkElement, identifierElement, leaf,
      branch, hqualify]

/-- The place for a record does not depend on links. -/
theorem findIdx_linkAt (record link : Node) (places : List Nat) (children : List Node) :
    (Document.linkAt link places children).findIdx (isLater record.localName) =
      children.findIdx (isLater record.localName) := by
  let later (other : Option Nat) : Bool :=
    (rank? record).any fun i => other.any fun j => i < j
  have hlater : isLater record.localName = later ∘ rank? := by
    funext n
    rw [Bool.eq_iff_iff, isLater_iff]
    show _ ↔ ((rank? record).any fun i => (rank? n).any fun j => i < j) = true
    cases rank? record <;> cases rank? n <;> simp
  rw [hlater, ← List.findIdx_map, ← List.findIdx_map, Document.map_rank?_linkAt]

namespace Document

variable {d : Document} {record : Node}

/-! ### Targets and a record that is no object -/

/-- The place of an object moves with the object. -/
theorem objectPlace?_insertRecord (hrecord : record.localName ≠ "object") (name : String) :
    (⟨insertRecord record d.root⟩ : Document).objectPlace? name =
      (d.objectPlace? name).map
        (List.placeAfter (d.root.children.findIdx (isLater record.localName))) :=
  List.findIdx?_insertIdx (by simp [isObjectNamed, hrecord]) d.root.children _

/-- Links at places that moved are in the same elements. -/
theorem linkAt_insertIdx (link x : Node) (place : Nat) (places : List Nat) (children : List Node) :
    linkAt link (places.map (List.placeAfter place)) (children.insertIdx place x) =
      (linkAt link places children).insertIdx place x := by
  induction places generalizing children with
  | nil => rfl
  | cons i places ih =>
    rw [List.map_cons, linkAt, List.foldl_cons, List.modify_insertIdx]
    exact ih (children.modify i (insertLink link))

/-- **A record that is no object changes nothing about the targets of an event**: what is missing
is still missing, and the links are put into the same objects. -/
theorem exists_linkAt_insertRecord (hrecord : record.localName ≠ "object") (targets : Targets) :
    let d' : Document := ⟨insertRecord record d.root⟩
    match d.targetPlaces targets with
    | .error error => d'.targetPlaces targets = .error error
    | .ok places => ∃ places', d'.targetPlaces targets = .ok places' ∧
        ∀ link, { d'.root with children := linkAt link places' d'.root.children } =
          insertRecord record { d.root with children := linkAt link places d.root.children } := by
  intro d'
  let place := d.root.children.findIdx (isLater record.localName)
  have hroot {places places' : List Nat} (link : Node)
      (h : linkAt link places' (d.root.children.insertIdx place record) =
        (linkAt link places d.root.children).insertIdx place record) :
      { d'.root with children := linkAt link places' d'.root.children } =
        insertRecord record { d.root with children := linkAt link places d.root.children } := by
    rw [insertRecord, findIdx_linkAt]
    exact congrArg (fun children => { d.root with children }) h
  cases targets with
  | all =>
    -- both times the places are those of the objects, so the links follow the kinds alone
    obtain ⟨places, hplaces, hnodup, hobjects⟩ := d.targetPlaces_all
    obtain ⟨places', hplaces', hnodup', hobjects'⟩ := d'.targetPlaces_all
    rw [hplaces]
    refine ⟨places', hplaces', fun link => hroot link ?_⟩
    have hold := linkAt_eq_map link hnodup (p := (·.localName = "object"))
      fun i n hn => (hobjects i n hn).trans decide_eq_true_iff.symm
    have hnew : linkAt link places' (d.root.children.insertIdx place record) = _ :=
      linkAt_eq_map link hnodup' (p := (·.localName = "object"))
        fun i n hn => (hobjects' i n hn).trans decide_eq_true_iff.symm
    rw [hold, hnew]
    have hmap := List.map_insertIdx
      (fun n => if decide (n.localName = "object") = true then insertLink link n else n)
      d.root.children place record
    rw [if_neg (by simpa using hrecord)] at hmap
    exact hmap
  | named names =>
    by_cases hne : names = []
    · subst hne
      rfl
    · -- names may come twice, so here the places themselves are followed
      have hplace := objectPlace?_insertRecord (d := d) hrecord
      rw [targetPlaces_named d hne, targetPlaces_named d' hne]
      simp only [d', hplace, Option.isNone_map]
      cases names.find? fun name => (d.objectPlace? name).isNone with
      | some name => rfl
      | none =>
        refine ⟨_, rfl, fun link => hroot link ?_⟩
        rw [← List.map_filterMap]
        exact linkAt_insertIdx link record place _ d.root.children

/-! ### Agents, objects and events -/

/-- **An agent is recorded before or after an object.** -/
theorem appendObject_appendAgent (d : Document) (agent : Agent) (originalName : String)
    (id : Identifier) :
    (d.appendAgent agent).2.appendObject originalName id =
      ((d.appendObject originalName id).1,
        ((d.appendObject originalName id).2.appendAgent agent).2) := by
  by_cases hagent : agent ∈ d.agents
  · have hagent' : agent ∈ (d.appendObject originalName id).2.agents := by
      rwa [agents_appendObject]
    rw [appendAgent_of_known hagent, appendAgent_of_known hagent']
  · by_cases hname : originalName ∈ d.objects.map (·.originalName)
    · have hname' : originalName ∈ (d.appendAgent agent).2.objects.map (·.originalName) := by
        rwa [objects_appendAgent]
      rw [appendObject_of_known hname, appendObject_of_known hname']
    · -- both are new, and the object comes in front of the agent
      have hagent' : agent ∉ (d.appendObject originalName id).2.agents := by
        rwa [agents_appendObject]
      have hname' : originalName ∉ (d.appendAgent agent).2.objects.map (·.originalName) := by
        rwa [objects_appendAgent]
      have hlater : isLater (objectElement d.root originalName id).localName
          (agentElement d.root agent) = true := by
        rw [localName_objectElement, isLater, localName_agentElement]
        decide
      rw [appendObject_of_unknown hname', appendAgent_of_unknown hagent',
        appendObject_of_unknown hname, appendAgent_of_unknown hagent]
      dsimp only
      have hroot : (insertRecord (agentElement d.root agent) d.root).name = d.root.name := rfl
      have hroot' : (insertRecord (objectElement d.root originalName id)
          (declareInstance d.root)).name = d.root.name := name_declareInstance d.root
      rw [(elements_congr hroot).1, (elements_congr hroot').2.1, declareInstance_insertRecord,
        insertRecord_comm hlater]

/-- **An agent is recorded before or after an event**, which is refused or recorded alike. -/
theorem appendEvent_appendAgent (d : Document) (agent : Agent) (summary : Summary) (author : Agent)
    (targets : Targets) (context : Context) :
    (d.appendAgent agent).2.appendEvent summary author targets context =
      (d.appendEvent summary author targets context).map fun (id, d', context') =>
        (id, (d'.appendAgent agent).2, context') := by
  by_cases hagent : agent ∈ d.agents
  · rw [appendAgent_of_known hagent]
    cases hevent : d.appendEvent summary author targets context with
    | error error => rfl
    | ok recorded =>
      obtain ⟨id, d', context'⟩ := recorded
      have hagent' : agent ∈ d'.agents := by rwa [agents_of_appendEvent hevent]
      rw [Except.map]
      dsimp only
      rw [appendAgent_of_known hagent']
  · -- a new agent comes behind every event, and the targets do not see it
    have hkind : (agentElement d.root agent).localName ≠ "object" := by
      rw [localName_agentElement]
      decide
    have htargets := exists_linkAt_insertRecord (d := d) hkind targets
    rw [appendAgent_of_unknown hagent]
    have hevent := appendEvent_eq d summary author targets context
    cases hplaces : d.targetPlaces targets with
    | error error =>
      rw [hplaces] at htargets hevent
      rw [appendEvent_eq, htargets, hevent]
      rfl
    | ok places =>
      rw [hplaces] at htargets hevent
      obtain ⟨places', hplaces', hlinks⟩ := htargets
      dsimp only at hevent
      rw [hevent, Except.map]
      dsimp only
      rw [appendAgent_of_unknown (by rwa [agents_of_appendEvent hevent]), appendEvent_eq, hplaces']
      dsimp only at hlinks ⊢
      refine congrArg (fun root : Node => Except.ok (_, (⟨root⟩ : Document), _)) ?_
      have hlater (id : Identifier) (time : Instant) :
          isLater (eventElement d.root id time summary author.identifier).localName
            (agentElement d.root agent) = true := by
        rw [localName_eventElement, isLater, localName_agentElement]
        decide
      have hroot : (insertRecord (agentElement d.root agent) d.root).name = d.root.name := rfl
      rw [(elements_congr hroot).2.2.1, (elements_congr hroot).2.2.2, hlinks,
        insertRecord_comm (hlater _ _)]
      exact congrArg (insertRecord · _) (congrFun (elements_congr rfl).2.1.symm agent)

end Document

/-! ### Calls in either order -/

namespace Session

/-- Two calls are one and then the other. -/
theorem run_pair {s s' s'' : Session} {first second : Call} {answer answer' : Answer}
    (hfirst : s.step first = .ok (answer, s')) (hsecond : s'.step second = .ok (answer', s'')) :
    s.run [first, second] = .ok ([answer, answer'], s'') := by
  simp only [run, hfirst, bind, Except.bind, hsecond, pure, Except.pure]

/-- A call that adds an agent never fails, and changes only the document. -/
theorem step_agent (s : Session) (agent : Agent) :
    s.step (.agent agent) = .ok (.added (!s.document.agents.contains agent),
      { s with document := (s.document.appendAgent agent).2 }) := by
  rw [← Document.fst_appendAgent]
  rfl

/-- An agent and an object are recorded in either order. -/
theorem exists_run_agent_object (s : Session) (agent : Agent) (originalName : String)
    (id : Identifier) :
    ∃ isNew added s',
      s.run [.agent agent, .object originalName id] = .ok ([.added isNew, .added added], s') ∧
      s.run [.object originalName id, .agent agent] = .ok ([.added added, .added isNew], s') := by
  let added := s.document.appendObject originalName id
  have hobject : s.step (.object originalName id) =
    .ok (.added added.1, { s with document := added.2 }) := rfl
  have hobject' : { s with document := (s.document.appendAgent agent).2 }.step
      (.object originalName id) =
        .ok (.added added.1, { s with document := (added.2.appendAgent agent).2 }) := by
    rw [step, Document.appendObject_appendAgent]
  have hagent' := step_agent { s with document := added.2 } agent
  dsimp only at hagent'
  rw [Document.agents_appendObject] at hagent'
  exact ⟨_, added.1, _, run_pair (s.step_agent agent) hobject', run_pair hobject hagent'⟩

/-- An agent and an event are recorded in either order, or the event is refused in both. -/
theorem exists_run_agent_event (s : Session) (agent : Agent) (summary : Summary) (author : Agent)
    (targets : Targets) :
    ∃ isNew answer s',
      s.run [.agent agent, .event summary author targets] = .ok ([.added isNew, answer], s') ∧
      s.run [.event summary author targets, .agent agent] = .ok ([answer, .added isNew], s') := by
  have hevent := Document.appendEvent_appendAgent s.document agent summary author targets s.context
  cases hrecorded : s.document.appendEvent summary author targets s.context with
  | error error =>
    rw [hrecorded] at hevent
    refine ⟨_, .refused error, _, run_pair (s.step_agent agent) ?_,
      run_pair ?_ (s.step_agent agent)⟩
    · rw [step, hevent]
      rfl
    · rw [step, hrecorded]
  | ok recorded =>
    obtain ⟨id, d, context⟩ := recorded
    rw [hrecorded] at hevent
    have hagent' := step_agent ⟨d, context⟩ agent
    dsimp only at hagent'
    rw [Document.agents_of_appendEvent hrecorded] at hagent'
    refine ⟨_, .recorded id, _, run_pair (s.step_agent agent) ?_, run_pair ?_ hagent'⟩
    · rw [step, hevent]
      rfl
    · rw [step, hrecorded]

end Session

/-! ### Activities -/

/-- Records an agent, and then an event. -/
def agentFirst (premis : String) (summary : Summary) (agent : Agent) (targets : Targets) :
    Activity Identifier := do
  let d ← load premis
  let (id, d) ← recordEvent (d.appendAgent agent).2 summary agent targets
  save premis d
  return id

/-- Records an event, and then its agent. -/
def eventFirst (premis : String) (summary : Summary) (agent : Agent) (targets : Targets) :
    Activity Identifier := do
  let d ← load premis
  let (id, d) ← recordEvent d summary agent targets
  save premis (d.appendAgent agent).2
  return id

/-- An event and its agent are recorded in either order, or fail alike. -/
theorem agentFirst_eq_eventFirst (premis : String) (summary : Summary) (agent : Agent)
    (targets : Targets) : agentFirst premis summary agent targets =
      eventFirst premis summary agent targets := by
  refine funext fun w => ?_
  show (agentFirst premis summary agent targets).run.run w =
    (eventFirst premis summary agent targets).run.run w
  simp only [agentFirst, eventFirst, load, run_bind, run_look, run_recordEvent,
    Document.appendEvent_appendAgent]
  cases Document.load w.files premis with
  | error => rfl
  | ok d =>
    dsimp only
    cases d.appendEvent summary agent targets w.context <;> rfl

/-- **An agent may be recorded before or after an object or an event.** Both orders get the same
answers and end with the same document and context, also if the event is refused. So an activity
that records an agent and then an event, and one that records the event first, do the same.

**Proof sketch.** A record goes in front of the first element of a later kind. A new agent is one
for objects and events, and these are none for the agent, so the two insertions commute. An agent is
no object, so it changes no target. -/
theorem agent_commutes (agent : Agent) :
    (∀ (s : Session) originalName id, ∃ isNew added s',
      s.run [.agent agent, .object originalName id] = .ok ([.added isNew, .added added], s') ∧
      s.run [.object originalName id, .agent agent] = .ok ([.added added, .added isNew], s')) ∧
    (∀ (s : Session) summary author targets, ∃ isNew answer s',
      s.run [.agent agent, .event summary author targets] = .ok ([.added isNew, answer], s') ∧
      s.run [.event summary author targets, .agent agent] = .ok ([answer, .added isNew], s')) ∧
    (∀ premis summary,
      addEvent premis summary agent = eventFirst premis summary agent .all) ∧
    ∀ premis summary covers formats,
      let names := covered ⟨agent, covers⟩ formats
      addValidationEvent premis summary ⟨agent, covers⟩ formats =
        if names.isEmpty then return none
        else return some (← agentFirst premis summary agent (.named names)) := by
  refine ⟨fun s => s.exists_run_agent_object agent, fun s => s.exists_run_agent_event agent,
    fun premis summary => agentFirst_eq_eventFirst premis summary agent .all, ?_⟩
  intro premis summary covers formats names
  rw [agentFirst_eq_eventFirst]
  simp only [eventFirst, bind_assoc, pure_bind]
  rfl

end Accession.Provenance

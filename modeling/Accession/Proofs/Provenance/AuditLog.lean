import Accession.Proofs.Provenance.Records
import Accession.Proofs.Provenance.Resaving
set_option autoImplicit false

/-!
# A document is an audit log

A document that is only changed by adding records says the same as a plain log of the calls: which
objects and agents came first, which events were recorded, and which events concern an object. It
may be written and read again at any time.

## Main definitions

* `Provenance.Session` — a document with its context, and the calls on it.
* `Provenance.AuditLog` — the log, and what the calls mean for it.
* `Provenance.Tracks` — a session stands where a log does.
* `Provenance.Document.Shows` — a document says what a log does.

## Main results

* `Provenance.Tracks.step` — every call keeps session and log together.
* `Provenance.exists_run_and_shows` — a run of any calls answers as the log does, and ends with a
  document that shows the log.
-/

namespace Accession

namespace Supply

/-- The items of a supply that are still to come are all different. -/
def Fresh {α : Type} (s : Supply α) : Prop :=
  ∀ i j, s.item (s.taken + i) = s.item (s.taken + j) → i = j

/-- Numbered identifiers are all different. -/
theorem fresh_sequential (stem : String) : (sequential stem).Fresh := by
  intro i j h
  have hlist := congrArg String.toList h
  simp only [sequential, String.toList_append] at hlist
  have hdigits : Nat.toDigits 10 (0 + i + 1) = Nat.toDigits 10 (0 + j + 1) := by
    rw [← Nat.toList_repr, ← Nat.toList_repr]
    exact List.append_cancel_left hlist
  have hnumber := congrArg (Nat.ofDigitChars 10 · 0) hdigits
  simp only [Nat.ofDigitChars_ten_toDigits] at hnumber
  omega

end Supply

namespace Provenance

/-! ### Sessions -/

/-- A call on a document that is kept for a while, or the reload of its written form. -/
inductive Call where
  | object (originalName : String) (id : Identifier)
  | agent (agent : Agent)
  | event (summary : Summary) (agent : Agent) (targets : Targets)
  | reload

/-- No call names a target twice. -/
def Call.Distinct : Call → Prop
  | .event _ _ targets => targets.Distinct
  | _ => True

/-- What a call answers. -/
inductive Answer where
  | added (isNew : Bool)
  | recorded (id : Identifier)
  | refused (error : Error)
  | reloaded
  deriving DecidableEq, Repr

/-- A document, and where identifiers and times for it come from. -/
structure Session where
  document : Document
  context : Context

namespace Session

/-- A call on a session. A refused event changes nothing. -/
def step (s : Session) : Call → Except Error (Answer × Session)
  | .object originalName id =>
    let (isNew, document) := s.document.appendObject originalName id
    .ok (.added isNew, { s with document })
  | .agent agent =>
    let (isNew, document) := s.document.appendAgent agent
    .ok (.added isNew, { s with document })
  | .event summary agent targets =>
    match s.document.appendEvent summary agent targets s.context with
    | .ok (id, document, context) => .ok (.recorded id, ⟨document, context⟩)
    | .error error => .ok (.refused error, s)
  | .reload => do
    let document ← Document.parseText s.document.render
    return (.reloaded, { s with document })

/-- Calls on a session, one after the other. -/
def run (s : Session) : List Call → Except Error (List Answer × Session)
  | [] => .ok ([], s)
  | call :: calls => do
    let (answer, s) ← s.step call
    let (answers, s) ← s.run calls
    return (answer :: answers, s)

end Session

/-! ### The log -/

/-- An event with its targets and the original names that were known when it was recorded. -/
structure LoggedEvent where
  record : EventRecord
  targets : Targets
  known : List String

/-- Whether an event concerns an object: the object was known, and the targets speak of it. -/
def LoggedEvent.concerns (event : LoggedEvent) (name : String) : Bool :=
  event.known.contains name && event.targets.includes name

/-- Original names with their identifiers, agents and events, first ones first. -/
structure AuditLog where
  objects : List (String × Identifier)
  agents : List Agent
  events : List LoggedEvent

namespace AuditLog

/-- The log before any call. -/
def empty : AuditLog :=
  ⟨[], [], []⟩

/-- The original names that are known. -/
def names (log : AuditLog) : List String :=
  log.objects.map (·.1)

/-- Why an event with these targets is refused, if it is. -/
def refusal? (log : AuditLog) : Targets → Option Error
  | .all => none
  | .named [] => some .noTargets
  | .named names => (names.find? fun name => !log.names.contains name).map .objectNotFound

/-- The identifier of the next event: each event takes one from the context. -/
def nextId (context : Context) (log : AuditLog) : Identifier :=
  .uuid (context.ids.item (context.ids.taken + log.events.length))

/-- The record of the next event. -/
def nextRecord (context : Context) (log : AuditLog) (summary : Summary) (agent : Agent) :
    EventRecord where
  identifier := log.nextId context
  eventType := summary.eventType
  dateTime := (context.times.item (context.times.taken + log.events.length)).render
  detail := summary.detail
  outcome := summary.outcome
  outcomeDetail := summary.outcomeDetail
  linkingAgent := agent.identifier

/-- What a call means for the log: an object is known by its original name and an agent by all its
parts, and every event that is not refused is recorded. -/
def step (context : Context) (log : AuditLog) : Call → Answer × AuditLog
  | .object originalName id =>
    if log.names.contains originalName then (.added false, log)
    else (.added true, { log with objects := log.objects ++ [(originalName, id)] })
  | .agent agent =>
    if log.agents.contains agent then (.added false, log)
    else (.added true, { log with agents := log.agents ++ [agent] })
  | .event summary agent targets =>
    match log.refusal? targets with
    | some error => (.refused error, log)
    | none => (.recorded (log.nextId context), { log with
        events := log.events ++ [⟨log.nextRecord context summary agent, targets, log.names⟩] })
  | .reload => (.reloaded, log)

/-- What some calls mean for the log, one after the other. -/
def run (context : Context) (log : AuditLog) : List Call → List Answer × AuditLog
  | [] => ([], log)
  | call :: calls =>
    let (answer, log) := log.step context call
    let (answers, log) := log.run context calls
    (answer :: answers, log)

/-! ### Invariants of the log -/

/-- What holds of every log: nothing is listed twice, events know only objects that are listed, and
their identifiers are the first ones of the context. -/
structure Sound (context : Context) (log : AuditLog) : Prop where
  names_nodup : log.names.Nodup
  agents_nodup : log.agents.Nodup
  known : ∀ event ∈ log.events, ∀ name ∈ event.known, name ∈ log.names
  identifiers : log.events.map (·.record.identifier) = (List.range log.events.length).map fun n =>
    Identifier.uuid (context.ids.item (context.ids.taken + n))

/-- A log with nothing in it is sound. -/
theorem sound_empty (context : Context) : Sound context empty :=
  ⟨List.nodup_nil, List.nodup_nil, by simp [empty], rfl⟩

/-- A new object is known by its name from then on. -/
theorem names_append_object (log : AuditLog) (name : String) (id : Identifier) :
    ({ log with objects := log.objects ++ [(name, id)] } : AuditLog).names =
      log.names ++ [name] := by
  rw [names, List.map_append]
  rfl

/-- Every call keeps the log sound. -/
theorem Sound.step {context : Context} {log : AuditLog} (h : Sound context log) (call : Call) :
    Sound context (log.step context call).2 := by
  cases call with
  | object originalName id =>
    rw [AuditLog.step]
    split
    · exact h
    · rename_i hnew
      have hnot : originalName ∉ log.names := by simpa using hnew
      refine ⟨?_, h.agents_nodup, fun event hevent name hname => ?_, h.identifiers⟩
      · rw [names_append_object]
        exact h.names_nodup.append (List.nodup_singleton _) (by simpa using hnot)
      · rw [names_append_object]
        exact List.mem_append_left _ (h.known event hevent name hname)
  | agent agent =>
    rw [AuditLog.step]
    split
    · exact h
    · rename_i hnew
      have hnot : agent ∉ log.agents := by simpa using hnew
      exact ⟨h.names_nodup, h.agents_nodup.append (List.nodup_singleton _) (by simpa using hnot),
        h.known, h.identifiers⟩
  | event summary agent targets =>
    rw [AuditLog.step]
    split
    · exact h
    · refine ⟨h.names_nodup, h.agents_nodup, fun event hevent name hname => ?_, ?_⟩
      · rcases List.mem_append.1 hevent with hold | hnew
        · exact h.known event hold name hname
        · rw [List.mem_singleton.1 hnew] at hname
          exact hname
      · rw [List.map_append, h.identifiers, List.length_append, List.length_singleton,
          List.range_succ, List.map_append]
        rfl
  | reload => exact h

/-- The identifiers of the events are different, if those of the context are. -/
theorem Sound.identifiers_nodup {context : Context} {log : AuditLog} (h : Sound context log)
    (hids : context.ids.Fresh) : (log.events.map (·.record.identifier)).Nodup := by
  rw [h.identifiers]
  refine List.nodup_range.map fun i j hij => hids i j ?_
  exact congrArg Identifier.value hij

/-- No event concerns an object that is not listed. -/
theorem Sound.filter_concerns_eq_nil {context : Context} {log : AuditLog} (h : Sound context log)
    {name : String} (hname : name ∉ log.names) : log.events.filter (·.concerns name) = [] := by
  rw [List.filter_eq_nil_iff]
  intro event hevent hconcerns
  rw [LoggedEvent.concerns, Bool.and_eq_true, List.contains_iff_mem] at hconcerns
  exact hname (h.known event hevent name hconcerns.1)

/-! ### Objects of the log -/

/-- The identifiers of the events that concern an object. -/
def links (log : AuditLog) (name : String) : List Identifier :=
  (log.events.filter (·.concerns name)).map (·.record.identifier)

/-- The objects as records, with the events that concern them. -/
def objectRecords (log : AuditLog) : List ObjectRecord :=
  log.objects.map fun (name, id) => ⟨id, "", name, log.links name⟩

/-- The records of the objects have the names that are known. -/
theorem originalName_objectRecords (log : AuditLog) :
    log.objectRecords.map (·.originalName) = log.names := by
  rw [objectRecords, List.map_map, names]
  rfl

/-- A new object is the last one, and no event concerns it. -/
theorem Sound.objectRecords_append_object {context : Context} {log : AuditLog}
    (h : Sound context log) {name : String} (hname : name ∉ log.names) (id : Identifier) :
    ({ log with objects := log.objects ++ [(name, id)] } : AuditLog).objectRecords =
      log.objectRecords ++ [⟨id, "", name, []⟩] := by
  have hlinks : log.links name = [] := by
    rw [links, h.filter_concerns_eq_nil hname, List.map_nil]
  rw [objectRecords, List.map_append, objectRecords, List.map_singleton]
  show _ ++ [ObjectRecord.mk id "" name (log.links name)] = _
  rw [hlinks]
  rfl

/-- A new event links the known objects that its targets speak of. -/
theorem objectRecords_append_event (log : AuditLog) (record : EventRecord) (targets : Targets) :
    ({ log with events := log.events ++ [⟨record, targets, log.names⟩] } :
        AuditLog).objectRecords =
      log.objectRecords.map fun object =>
        if targets.includes object.originalName then object.link record.identifier else object := by
  rw [objectRecords, objectRecords, List.map_map]
  refine List.map_congr_left fun ⟨name, id⟩ hmem => ?_
  have hknown : log.names.contains name = true :=
    List.contains_iff_mem.2 (List.mem_map_of_mem (f := (·.1)) hmem)
  have hconcerns : (LoggedEvent.mk record targets log.names).concerns name =
      targets.includes name := by
    rw [LoggedEvent.concerns, hknown, Bool.true_and]
  have hlinks : ({ log with events := log.events ++ [⟨record, targets, log.names⟩] } :
      AuditLog).links name =
        log.links name ++ if targets.includes name then [record.identifier] else [] := by
    rw [links, List.filter_append, List.filter_singleton, hconcerns, List.map_append, links]
    cases targets.includes name <;> rfl
  rw [Function.comp_apply]
  dsimp only
  rw [hlinks]
  split
  · rfl
  · rw [List.append_nil]

end AuditLog

/-! ### Sessions and logs -/

/-- The context after some events: each takes an identifier and a time. -/
def Context.skip (context : Context) (count : Nat) : Context where
  ids := { context.ids with taken := context.ids.taken + count }
  times := { context.times with taken := context.times.taken + count }

/-- A session stands where a log does: its document has the records of the log in the order of their
kinds, and a layout that survives a reload. -/
structure Tracks (context : Context) (s : Session) (log : AuditLog) : Prop where
  laidOut : s.document.LaidOut
  ordered : Ordered s.document.root.children
  objects : s.document.objects = log.objectRecords
  agents : s.document.agents = log.agents
  events : s.document.events = log.events.map (·.record)
  remaining : s.context = context.skip log.events.length
  sound : log.Sound context

/-- A session with a new document stands where an empty log does. -/
theorem tracks_new (context : Context) : Tracks context ⟨.new, context⟩ .empty :=
  ⟨Document.laidOut_new, .nil, rfl, rfl, rfl, rfl, AuditLog.sound_empty context⟩

namespace Tracks

variable {context : Context} {s : Session} {log : AuditLog}

/-- The objects of the document have the names that are known to the log, in the same order. -/
theorem originalNames (h : Tracks context s log) :
    s.document.objects.map (·.originalName) = log.names := by
  rw [h.objects, AuditLog.originalName_objectRecords]

/-- A session and a log agree on a call that adds an object. -/
theorem step_object (h : Tracks context s log) (originalName : String) (id : Identifier) :
    ∃ s', s.step (.object originalName id) =
        .ok ((log.step context (.object originalName id)).1, s') ∧
      Tracks context s' (log.step context (.object originalName id)).2 := by
  have hsound := h.sound.step (.object originalName id)
  have hlaidOut := h.laidOut.apply (.object originalName id)
  rw [Session.step]
  rw [AuditLog.step] at hsound ⊢
  by_cases hknown : originalName ∈ log.names
  · rw [if_pos (List.contains_iff_mem.2 hknown),
      Document.appendObject_of_known (h.originalNames ▸ hknown)]
    exact ⟨s, rfl, h⟩
  · have hnot : ¬log.names.contains originalName = true := fun hmem =>
      hknown (List.contains_iff_mem.1 hmem)
    rw [if_neg hnot] at hsound ⊢
    obtain ⟨d', hadded, hordered, hobjects, hevents, hagents⟩ :=
      Document.appendObject_of_new h.ordered (h.originalNames ▸ hknown) id
    rw [Document.apply, hadded] at hlaidOut
    rw [hadded]
    refine ⟨⟨d', s.context⟩, rfl, hlaidOut, hordered, ?_, ?_, ?_, h.remaining, hsound⟩
    · rw [hobjects, h.objects, h.sound.objectRecords_append_object hknown]
    · rw [hagents, h.agents]
    · rw [hevents, h.events]

/-- A session and a log agree on a call that adds an agent. -/
theorem step_agent (h : Tracks context s log) (agent : Agent) :
    ∃ s', s.step (.agent agent) = .ok ((log.step context (.agent agent)).1, s') ∧
      Tracks context s' (log.step context (.agent agent)).2 := by
  have hsound := h.sound.step (.agent agent)
  have hlaidOut := h.laidOut.apply (.agent agent)
  rw [Session.step]
  rw [AuditLog.step] at hsound ⊢
  by_cases hknown : agent ∈ log.agents
  · rw [if_pos (List.contains_iff_mem.2 hknown),
      Document.appendAgent_of_known (h.agents ▸ hknown)]
    exact ⟨s, rfl, h⟩
  · have hnot : ¬log.agents.contains agent = true := fun hmem =>
      hknown (List.contains_iff_mem.1 hmem)
    rw [if_neg hnot] at hsound ⊢
    obtain ⟨d', hadded, hordered, hobjects, hevents, hagents⟩ :=
      Document.appendAgent_of_new h.ordered (h.agents ▸ hknown)
    rw [Document.apply, hadded] at hlaidOut
    rw [hadded]
    refine ⟨⟨d', s.context⟩, rfl, hlaidOut, hordered, ?_, ?_, ?_, h.remaining, hsound⟩
    · rw [hobjects, h.objects]
      rfl
    · rw [hagents, h.agents]
    · rw [hevents, h.events]

/-- Targets are refused by the document for the reason they are refused by the log. -/
theorem targetPlaces (h : Tracks context s log) (targets : Targets) :
    match log.refusal? targets with
    | some error => s.document.targetPlaces targets = .error error
    | none => ∃ places, s.document.targetPlaces targets = .ok places := by
  cases targets with
  | all =>
    obtain ⟨places, hplaces, -⟩ := s.document.targetPlaces_all
    exact ⟨places, hplaces⟩
  | named names =>
    cases names with
    | nil => rfl
    | cons name names =>
      have hmissing (name : String) :
          (s.document.objectPlace? name).isNone = !log.names.contains name := by
        rw [← Option.not_isSome, Bool.not_inj_iff, Bool.eq_iff_iff,
          Document.isSome_objectPlace?, h.originalNames, List.contains_iff_mem]
      have hnamed := s.document.targetPlaces_named (List.cons_ne_nil name names)
      simp only [hmissing] at hnamed
      rw [AuditLog.refusal?, hnamed]
      · cases (name :: names).find? fun name => !log.names.contains name with
        | none => exact ⟨_, rfl⟩
        | some name => rfl
      · exact List.cons_ne_nil name names

/-- A session and a log agree on an event, refused or not, whose targets are listed once. -/
theorem step_event (h : Tracks context s log) (summary : Summary) (agent : Agent)
    {targets : Targets} (htargets : targets.Distinct) :
    ∃ s', s.step (.event summary agent targets) =
        .ok ((log.step context (.event summary agent targets)).1, s') ∧
      Tracks context s' (log.step context (.event summary agent targets)).2 := by
  have hsound := h.sound.step (.event summary agent targets)
  have hlaidOut := h.laidOut.apply (.event summary agent targets s.context)
  have hfound := h.targetPlaces targets
  rw [Session.step]
  rw [AuditLog.step] at hsound ⊢
  cases hrefusal : log.refusal? targets with
  | some error =>
    rw [hrefusal] at hfound
    rw [Document.appendEvent_eq, hfound]
    exact ⟨s, rfl, h⟩
  | none =>
    rw [hrefusal] at hfound hsound
    obtain ⟨places, hplaces⟩ := hfound
    obtain ⟨d', hevent, hordered, hobjects, hevents, hagents⟩ :=
      Document.appendEvent_of_places h.ordered (h.originalNames ▸ h.sound.names_nodup) htargets
        hplaces summary agent s.context
    rw [Document.apply, hevent] at hlaidOut
    rw [hevent]
    have hid : Identifier.uuid (s.context.ids.item s.context.ids.taken) = log.nextId context := by
      rw [h.remaining]
      rfl
    refine ⟨_, by rw [← hid], hlaidOut, hordered, ?_, ?_, ?_, ?_, hsound⟩
    · rw [hobjects, h.objects, AuditLog.objectRecords_append_event, hid]
      rfl
    · rw [hagents, h.agents]
    · rw [hevents, h.events, List.map_append, h.remaining]
      rfl
    · rw [h.remaining, List.length_append, List.length_singleton]
      rfl

/-- **Every call keeps session and log together**, and both answer the same. -/
theorem step (h : Tracks context s log) {call : Call} (hcall : call.Distinct) :
    ∃ s', s.step call = .ok ((log.step context call).1, s') ∧
      Tracks context s' (log.step context call).2 := by
  cases call with
  | object originalName id => exact h.step_object originalName id
  | agent agent => exact h.step_agent agent
  | event summary agent targets => exact h.step_event summary agent hcall
  | reload =>
    refine ⟨s, ?_, h⟩
    rw [Session.step, h.laidOut.parseText_render]
    rfl

/-- Any calls keep session and log together. -/
theorem run (h : Tracks context s log) {calls : List Call}
    (hcalls : ∀ call ∈ calls, call.Distinct) :
    ∃ s', s.run calls = .ok ((log.run context calls).1, s') ∧
      Tracks context s' (log.run context calls).2 := by
  induction calls generalizing s log with
  | nil => exact ⟨s, rfl, h⟩
  | cons call calls ih =>
    obtain ⟨s₁, hstep, h₁⟩ := h.step (hcalls call List.mem_cons_self)
    obtain ⟨s₂, hrun, h₂⟩ := ih h₁ fun c hc => hcalls c (List.mem_cons_of_mem call hc)
    refine ⟨s₂, ?_, h₂⟩
    rw [Session.run, hstep]
    show (do let (answers, s) ← s₁.run calls; return (_ :: answers, s)) = _
    rw [hrun]
    rfl

end Tracks

/-! ### What the document says -/

/-- A document says what a log does: each original name once with the identifier it came with, each
agent once, one record for each event, and for every object the events that concern it. -/
structure Document.Shows (d : Document) (log : AuditLog) : Prop where
  objects : d.objects.map (fun object => (object.originalName, object.identifier)) = log.objects
  names_nodup : (d.objects.map (·.originalName)).Nodup
  agents : d.agents = log.agents
  agents_nodup : d.agents.Nodup
  events : d.events = log.events.map (·.record)
  identifiers_nodup : (d.events.map (·.identifier)).Nodup
  eventsFor : ∀ name, d.eventsFor name = (log.events.filter (·.concerns name)).map (·.record)

/-- The links of an object lead to the events that concern it. -/
theorem Tracks.filterMap_links {context : Context} {s : Session} {log : AuditLog}
    (h : Tracks context s log) (hids : context.ids.Fresh) (name : String) :
    (log.links name).filterMap s.document.event? =
      (log.events.filter (·.concerns name)).map (·.record) := by
  have hnodup : (s.document.events.map (·.identifier)).Nodup := by
    rw [h.events, List.map_map]
    exact h.sound.identifiers_nodup hids
  have hfound {event : LoggedEvent} (hevent : event ∈ log.events) :
      s.document.event? event.record.identifier = some event.record := by
    refine List.find?_key_eq_some EventRecord.identifier hnodup ?_
    rw [h.events]
    exact List.mem_map_of_mem hevent
  rw [AuditLog.links, List.filterMap_map, ← List.filterMap_eq_map]
  refine List.filterMap_congr fun event hevent => ?_
  exact hfound (List.mem_filter.1 hevent).1

/-- A session that stands where a log does shows the log. -/
theorem Tracks.shows {context : Context} {s : Session} {log : AuditLog}
    (h : Tracks context s log) (hids : context.ids.Fresh) : s.document.Shows log := by
  have hnames : (s.document.objects.map (·.originalName)).Nodup := by
    rw [h.originalNames]
    exact h.sound.names_nodup
  refine ⟨?_, hnames, h.agents, ?_, h.events, ?_, fun name => ?_⟩
  · rw [h.objects, AuditLog.objectRecords, List.map_map]
    exact List.map_id log.objects
  · rw [h.agents]
    exact h.sound.agents_nodup
  · rw [h.events, List.map_map]
    exact h.sound.identifiers_nodup hids
  · rw [Document.eventsFor, Document.object?_eq_find?]
    by_cases hknown : name ∈ log.names
    · obtain ⟨⟨name', id⟩, hmem, rfl⟩ := List.mem_map.1 hknown
      have hrecord : (⟨id, "", name', log.links name'⟩ : ObjectRecord) ∈ s.document.objects := by
        rw [h.objects]
        exact List.mem_map_of_mem hmem
      rw [List.find?_key_eq_some ObjectRecord.originalName hnames hrecord]
      exact h.filterMap_links hids name'
    · have hnone : s.document.objects.find? (·.originalName = name) = none := by
        rw [List.find?_eq_none]
        intro object hobject hname
        rw [← h.originalNames] at hknown
        exact hknown (List.mem_map.2 ⟨object, hobject, of_decide_eq_true hname⟩)
      rw [hnone, h.sound.filter_concerns_eq_nil hknown, List.map_nil]

/-- **A document is an audit log.** A run of any calls on the document without records, with reloads
anywhere between them, answers as the log does and ends with a document that shows the log.

**Proof sketch.** The session stands where the log does before the first call, and every call keeps
it so: a new record is the last one of its kind since the records stand in the order of their kinds,
an event is linked once to each known object that its targets speak of, and a reload gives the
document back. Since no identifier comes twice, the links of an object lead to its own events. -/
theorem exists_run_and_shows {context : Context} (hids : context.ids.Fresh) {calls : List Call}
    (hcalls : ∀ call ∈ calls, call.Distinct) :
    ∃ s, Session.run ⟨.new, context⟩ calls = .ok ((AuditLog.run context .empty calls).1, s) ∧
      s.document.Shows (AuditLog.run context .empty calls).2 := by
  obtain ⟨s, hrun, htracks⟩ := (tracks_new context).run hcalls
  exact ⟨s, hrun, htracks.shows hids⟩

/-- Numbered identifiers, and a clock that stands at the beginning of 1970. -/
def numberedContext : Context :=
  ⟨.sequential "event", .constant ⟨0, 0⟩⟩

/-- Two objects, an event between them that concerns all, a refused event, and after a reload an
event that concerns the second object. -/
def reloadedCalls : List Call :=
  let summary : Summary := ⟨"ingest", " <a> & b\n", "", "\"c\""⟩
  let agent : Agent := .software "s" "1"
  [.object "a" (.uuid "1"), .event summary agent .all, .object "b" (.uuid "2"),
    .object "a" (.uuid "3"), .event summary agent (.named ["b", "c"]), .reload,
    .event summary agent (.named ["b"])]

/-- Additions, a refusal and a reload: the first event concerns only the object that there was. -/
theorem run_reloadedCalls_and_shows :
    numberedContext.ids.Fresh ∧ (∀ call ∈ reloadedCalls, call.Distinct) ∧
      ∃ s, Session.run ⟨.new, numberedContext⟩ reloadedCalls = .ok ([.added true,
          .recorded (.uuid "event-1"), .added true, .added false,
          .refused (.objectNotFound "c"), .reloaded, .recorded (.uuid "event-2")], s) ∧
        (s.document.eventsFor "a").map (·.identifier) = [.uuid "event-1"] ∧
        (s.document.eventsFor "b").map (·.identifier) = [.uuid "event-2"] := by
  have hids : numberedContext.ids.Fresh := Supply.fresh_sequential "event"
  have hcalls : ∀ call ∈ reloadedCalls, call.Distinct := by
    simp [reloadedCalls, Call.Distinct, Targets.Distinct]
  obtain ⟨s, hrun, hshows⟩ := exists_run_and_shows hids hcalls
  refine ⟨hids, hcalls, s, hrun.trans ?_, ?_, ?_⟩
  · rfl
  · rw [hshows.eventsFor]
    decide +kernel
  · rw [hshows.eventsFor]
    decide +kernel

end Provenance

end Accession

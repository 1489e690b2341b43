import Accession.Proofs.Lists
import Accession.Proofs.Package.Collecting
import Accession.Proofs.Provenance.AuditLog
import Accession.Proofs.Provenance.Orderly
set_option autoImplicit false

/-!
# No reference dangles

A PREMIS file that only the activities have written holds a closed document: each event that an
object is linked to stands in it exactly once, and so does an agent for every event. This is so
whatever the activities are asked for and however many of them fail, since each of them reads the
whole document, and puts an event, its links and its agent into it before anything is written.

## Main definitions

* `Provenance.Document.Closed` — every reference leads somewhere.
* `Provenance.Document.Consistent`, `Provenance.Document.Settled` — the invariant of stored
  documents, for their records and for themselves.
* `Provenance.Document.Keeps` — a later state of a document.
* `Provenance.Request.Linked` — what a request that recorded an event has promised.

## Main results

* `Provenance.Request.settled_change` — every change keeps the invariant, and keeps its promise.
* `Provenance.Workspace.closed_after` — closed documents after any requests.
-/

namespace Accession

namespace Supply

variable {α : Type}

/-- A supply from which some more items have been taken. -/
def Follows (later s : Supply α) : Prop :=
  ∃ count, later = { s with taken := s.taken + count }

/-- No items have to be taken. -/
theorem Follows.refl (s : Supply α) : s.Follows s :=
  ⟨0, rfl⟩

/-- Items are taken behind those that have been. -/
theorem Follows.trans {s s' s'' : Supply α} (h : s'.Follows s) (h' : s''.Follows s') :
    s''.Follows s := by
  obtain ⟨count, rfl⟩ := h
  obtain ⟨count', rfl⟩ := h'
  exact ⟨count + count', by rw [Nat.add_assoc]⟩

/-- A supply without repetition has none later. -/
theorem Fresh.of_follows {s s' : Supply α} (h : s.Fresh) (hfollows : s'.Follows s) : s'.Fresh := by
  obtain ⟨count, rfl⟩ := hfollows
  intro i j hitem
  have := h (count + i) (count + j) (by simpa only [Nat.add_assoc] using hitem)
  omega

end Supply

namespace Provenance

/-! ### Closed documents -/

namespace Document

/-- Every reference leads somewhere: a link to exactly one event, and every event to an agent. -/
structure Closed (d : Document) : Prop where
  links : ∀ object ∈ d.objects, ∀ id ∈ object.linkedEvents,
    ∃ event, d.events.filter (·.identifier = id) = [event]
  agents : ∀ event ∈ d.events, ∃ agent, d.agent? event.linkingAgent = some agent

/-- Objects and events to which another event can be added: no original name and no event comes
twice, no link dangles, and the identifiers that are still to come are not those of the events. -/
structure Consistent (ids : Supply String) (objects : List ObjectRecord)
    (events : List EventRecord) : Prop where
  names_nodup : (objects.map (·.originalName)).Nodup
  identifiers_nodup : (events.map (·.identifier)).Nodup
  linked : ∀ object ∈ objects, ∀ id ∈ object.linkedEvents, id ∈ events.map (·.identifier)
  unused : ∀ count, Identifier.uuid (ids.item (ids.taken + count)) ∉ events.map (·.identifier)

/-- A document that is read back from its written form and has consistent records, which stand in
the order of their kinds. -/
structure Sound (ids : Supply String) (d : Document) : Prop where
  laidOut : d.LaidOut
  ordered : Ordered d.root.children
  consistent : Consistent ids d.objects d.events

/-- A sound document is orderly. -/
theorem Sound.orderly {ids : Supply String} {d : Document} (h : Sound ids d) : Orderly d :=
  ⟨h.laidOut, h.ordered, h.consistent.names_nodup⟩

/-- A sound document in which the agents of all events stand as well. -/
structure Settled (ids : Supply String) (d : Document) : Prop extends Sound ids d where
  performed : ∀ event ∈ d.events, event.linkingAgent ∈ d.agents.map (·.identifier)

/-- A new document is settled: there is nothing in it. -/
theorem settled_new (ids : Supply String) : Settled ids new :=
  ⟨⟨laidOut_new, .nil, .nil, .nil, nofun, fun _ => List.not_mem_nil⟩, nofun⟩

/-- A settled document is closed. -/
theorem Settled.closed {ids : Supply String} {d : Document} (h : Settled ids d) : Closed d := by
  refine ⟨fun object hobject id hid => ?_, fun event hevent => ?_⟩
  · obtain ⟨event, hevent, rfl⟩ := List.mem_map.1 (h.consistent.linked object hobject id hid)
    have hnodup := h.consistent.identifiers_nodup
    exact ⟨event, List.filter_key_eq_singleton EventRecord.identifier hnodup hevent⟩
  · obtain ⟨agent, hagent, hid⟩ := List.mem_map.1 (h.performed event hevent)
    refine Option.isSome_iff_exists.1 ?_
    rw [agent?, List.find?_isSome]
    exact ⟨agent, hagent, decide_eq_true hid⟩

/-- Identifiers that are taken for nothing do no harm. -/
theorem Settled.of_follows {ids ids' : Supply String} {d : Document} (h : Settled ids d)
    (hfollows : ids'.Follows ids) : Settled ids' d := by
  obtain ⟨count, rfl⟩ := hfollows
  have hconsistent := h.consistent
  refine ⟨⟨h.laidOut, h.ordered, { hconsistent with unused := fun more => ?_ }⟩, h.performed⟩
  rw [Nat.add_assoc]
  exact hconsistent.unused (count + more)

end Document

/-! ### Later states -/

namespace Document

/-- A later state of a document: all objects and events are still there. -/
structure Keeps (old new : Document) : Prop where
  objects : ∀ object ∈ old.objects, ∃ object' ∈ new.objects, object.Grown object'
  events : ∀ event ∈ old.events, event ∈ new.events

/-- Every document keeps what it has. -/
theorem Keeps.refl (d : Document) : Keeps d d :=
  ⟨fun object hobject => ⟨object, hobject, .refl object⟩, fun _ => id⟩

/-- What is kept and kept again is kept. -/
theorem Keeps.trans {a b c : Document} (h : Keeps a b) (h' : Keeps b c) : Keeps a c := by
  refine ⟨fun object hobject => ?_, fun event hevent => h'.events event (h.events event hevent)⟩
  obtain ⟨object', hobject', hgrown⟩ := h.objects object hobject
  obtain ⟨object'', hobject'', hgrown'⟩ := h'.objects object' hobject'
  exact ⟨object'', hobject'', hgrown.trans hgrown'⟩

/-! ### New records -/

section Records

variable {ids : Supply String} {objects : List ObjectRecord} {events : List EventRecord}

/-- A new object is linked to nothing yet. -/
theorem Consistent.add_object (h : Consistent ids objects events) {originalName : String}
    (hnew : originalName ∉ objects.map (·.originalName)) (id : Identifier) :
    Consistent ids (objects ++ [⟨id, "", originalName, []⟩]) events := by
  refine { h with names_nodup := ?_, linked := fun object hobject => ?_ }
  · rw [List.map_append]
    exact h.names_nodup.append (List.nodup_singleton _) (by simpa using hnew)
  · rcases List.mem_append.1 hobject with hobject | hobject
    · exact h.linked object hobject
    · rw [List.mem_singleton.1 hobject]
      exact nofun

/-- A new event takes the next identifier, which the objects it concerns are linked to. -/
theorem Consistent.add_event (h : Consistent ids objects events) (hids : ids.Fresh)
    (targets : Targets) {event : EventRecord}
    (hevent : event.identifier = .uuid (ids.item ids.taken)) :
    Consistent { ids with taken := ids.taken + 1 }
      (objects.map fun object =>
        if targets.includes object.originalName then object.link (.uuid (ids.item ids.taken))
        else object)
      (events ++ [event]) := by
  have hidentifiers : (events ++ [event]).map (·.identifier) =
      events.map (·.identifier) ++ [.uuid (ids.item ids.taken)] := by
    rw [List.map_append, List.map_singleton, hevent]
  refine ⟨?_, ?_, fun object' hobject' id hmem => ?_, fun count hmem => ?_⟩
  · rw [ObjectRecord.map_originalName_link]
    exact h.names_nodup
  · rw [hidentifiers]
    refine h.identifiers_nodup.append (List.nodup_singleton _) ?_
    rw [List.disjoint_singleton]
    exact h.unused 0
  · obtain ⟨object, hobject, rfl⟩ := List.mem_map.1 hobject'
    rw [hidentifiers, List.mem_append]
    split at hmem
    · exact (List.mem_append.1 hmem).imp_left (h.linked object hobject id)
    · exact .inl (h.linked object hobject id hmem)
  · rw [hidentifiers, List.mem_append, Nat.add_assoc] at hmem
    rcases hmem with hmem | hmem
    · exact h.unused (1 + count) hmem
    · have hvalue := congrArg Identifier.value (List.mem_singleton.1 hmem)
      have := hids (1 + count) 0 hvalue
      omega

end Records

section Calls

variable {ids : Supply String} {d : Document}

/-- An object can be recorded in a settled document. -/
theorem Settled.appendObject (h : Settled ids d) (originalName : String) (id : Identifier) :
    Settled ids (d.appendObject originalName id).2 ∧
      Keeps d (d.appendObject originalName id).2 := by
  have horderly := h.orderly.appendObject originalName id
  by_cases hknown : originalName ∈ d.objects.map (·.originalName)
  · rw [appendObject_of_known hknown]
    exact ⟨h, .refl d⟩
  · obtain ⟨d', hadded, -, hobjects, hevents, hagents⟩ :=
      appendObject_of_new h.ordered hknown id
    rw [hadded] at horderly ⊢
    refine ⟨⟨⟨horderly.laidOut, horderly.ordered, ?_⟩, ?_⟩,
      ⟨fun object hobject => ?_, fun event hevent => ?_⟩⟩
    · rw [hobjects, hevents]
      exact h.consistent.add_object hknown id
    · rw [hevents, hagents]
      exact h.performed
    · rw [hobjects]
      exact ⟨object, List.mem_append_left _ hobject, .refl object⟩
    · rwa [hevents]

/-- An agent can be recorded in a sound document, and stands in it then. -/
theorem Sound.appendAgent (h : Sound ids d) (agent : Agent) :
    Sound ids (d.appendAgent agent).2 ∧ (d.appendAgent agent).2.objects = d.objects ∧
      (d.appendAgent agent).2.events = d.events ∧
      ∀ other, other ∈ (d.appendAgent agent).2.agents ↔ other ∈ d.agents ∨ other = agent := by
  have horderly := h.orderly.appendAgent agent
  by_cases hknown : agent ∈ d.agents
  · rw [appendAgent_of_known hknown]
    refine ⟨h, rfl, rfl, fun other => ⟨.inl, ?_⟩⟩
    rintro (hother | rfl)
    · exact hother
    · exact hknown
  · obtain ⟨d', hadded, -, hobjects, hevents, hagents⟩ := appendAgent_of_new h.ordered hknown
    rw [hadded] at horderly ⊢
    refine ⟨⟨horderly.laidOut, horderly.ordered, ?_⟩, hobjects, hevents, fun other => ?_⟩
    · rw [hobjects, hevents]
      exact h.consistent
    · rw [hagents, List.mem_append, List.mem_singleton]

/-- Once its agent stands in it, a sound document is settled. -/
theorem Sound.settled_appendAgent (h : Sound ids d) {agent : Agent}
    (hperformed : ∀ event ∈ d.events, event.linkingAgent ∈ d.agents.map (·.identifier) ∨
      event.linkingAgent = agent.identifier) :
    Settled ids (d.appendAgent agent).2 ∧ Keeps d (d.appendAgent agent).2 := by
  obtain ⟨hsound, hobjects, hevents, hagents⟩ := h.appendAgent agent
  refine ⟨⟨hsound, fun event hevent => ?_⟩, ⟨fun object hobject => ?_, fun event hevent => ?_⟩⟩
  · rw [hevents] at hevent
    rw [List.mem_map]
    rcases hperformed event hevent with hold | hnew
    · obtain ⟨other, hother, hid⟩ := List.mem_map.1 hold
      exact ⟨other, (hagents other).2 (.inl hother), hid⟩
    · exact ⟨agent, (hagents agent).2 (.inr rfl), hnew.symm⟩
  · rw [hobjects]
    exact ⟨object, hobject, .refl object⟩
  · rwa [hevents]

/-- An event that is not refused can be recorded in a sound document. Its agent is not. -/
theorem Sound.appendEvent {context context' : Context} (h : Sound context.ids d)
    (hids : context.ids.Fresh) {targets : Targets} (htargets : targets.Distinct)
    {summary : Summary} {agent : Agent} {id : Identifier} {d' : Document}
    (hevent : d.appendEvent summary agent targets context = .ok (id, d', context')) :
    Sound context'.ids d' ∧ Keeps d d' ∧ context'.ids.Follows context.ids ∧
      (∀ object ∈ d.objects, targets.includes object.originalName →
        ∃ object' ∈ d'.objects, object.Grown object' ∧ id ∈ object'.linkedEvents) ∧
      (∃ event, d'.events = d.events ++ [event] ∧ event.identifier = id ∧
        event.linkingAgent = agent.identifier) ∧
      d'.agents = d.agents := by
  have horderly := h.orderly.appendEvent htargets hevent
  cases hplaces : d.targetPlaces targets with
  | error error =>
    rw [appendEvent_eq, hplaces] at hevent
    cases hevent
  | ok places =>
    obtain ⟨d'', hevent', -, hobjects, hevents, hagents⟩ :=
      appendEvent_of_places h.ordered h.consistent.names_nodup htargets hplaces summary agent
        context
    rw [hevent'] at hevent
    cases hevent
    refine ⟨⟨horderly.laidOut, horderly.ordered, ?_⟩,
      ⟨fun object hobject => ?_, fun event hevent => ?_⟩, ⟨1, rfl⟩,
      fun object hobject hincluded => ?_, ⟨_, hevents, rfl, rfl⟩, hagents⟩
    · rw [hobjects, hevents]
      exact h.consistent.add_event hids targets rfl
    · rw [hobjects]
      refine ⟨_, List.mem_map_of_mem hobject, ?_⟩
      split
      · exact object.grown_link _
      · exact .refl object
    · rw [hevents]
      exact List.mem_append_left _ hevent
    · rw [hobjects]
      refine ⟨_, List.mem_map_of_mem hobject, ?_⟩
      rw [if_pos hincluded]
      exact ⟨object.grown_link _, List.mem_append_right _ (List.mem_singleton_self _)⟩

end Calls

end Document

/-! ### Changes -/

/-- Targets that are found by name are objects. -/
theorem Document.exists_of_targetPlaces_named {d : Document} {names : List String}
    {places : List Nat} (h : d.targetPlaces (.named names) = .ok places) :
    ∃ object ∈ d.objects, (Targets.named names).includes object.originalName := by
  cases names with
  | nil => cases h
  | cons name names =>
    rw [d.targetPlaces_named (List.cons_ne_nil name names)] at h
    split at h
    · cases h
    · rename_i hnone
      have hsome := List.find?_eq_none.1 hnone name List.mem_cons_self
      have hplace : (d.objectPlace? name).isSome := by
        cases hplace : d.objectPlace? name with
        | none => simp [hplace] at hsome
        | some place => rfl
      obtain ⟨object, hobject, rfl⟩ :=
        List.mem_map.1 ((Document.isSome_objectPlace? d name).1 hplace)
      exact ⟨object, hobject, by simp [Targets.includes]⟩

namespace Request

open Document (Sound Settled Keeps)

/-- What a request that recorded an event has promised: the event stands in every later document,
and each object that was there before — for a validation, one object at least — is linked to it. -/
def Linked (request : Request) (before later : Document) (response : Response) : Prop :=
  match request, response with
  | .recordEvent _ _, .recorded id =>
    (∃ event ∈ later.events, event.identifier = id) ∧
      ∀ object ∈ before.objects, ∃ object' ∈ later.objects,
        object.Grown object' ∧ id ∈ object'.linkedEvents
  | .recordValidation _ _ _, .recorded id =>
    (∃ event ∈ later.events, event.identifier = id) ∧
      ∃ object ∈ later.objects, id ∈ object.linkedEvents
  | _, _ => True

/-- A promise stays fulfilled in a document that keeps what it has. -/
theorem Linked.of_keeps {request : Request} {before d d' : Document} {response : Response}
    (h : request.Linked before d response) (hkeeps : Keeps d d') :
    request.Linked before d' response := by
  have hevent {id : Identifier} (h : ∃ event ∈ d.events, event.identifier = id) :
      ∃ event ∈ d'.events, event.identifier = id :=
    h.imp fun event h => ⟨hkeeps.events event h.1, h.2⟩
  unfold Linked at h ⊢
  split
  · refine ⟨hevent h.1, fun object hobject => ?_⟩
    obtain ⟨object', hobject', hgrown, hid⟩ := h.2 object hobject
    obtain ⟨object'', hobject'', hgrown'⟩ := hkeeps.objects object' hobject'
    exact ⟨object'', hobject'', hgrown.trans hgrown', hgrown'.mem_linkedEvents hid⟩
  · refine ⟨hevent h.1, ?_⟩
    obtain ⟨object, hobject, hid⟩ := h.2
    obtain ⟨object', hobject', hgrown⟩ := hkeeps.objects object hobject
    exact ⟨object', hobject', hgrown.mem_linkedEvents hid⟩
  · trivial

section Changes

variable {files : FileTree} {d d' : Document} {context context' : Context} {response : Response}
  (h : Settled context.ids d) (hids : context.ids.Fresh)

include h

/-- Objects are recorded one after the other, each with an identifier that no event gets. -/
theorem settled_recordPaths (paths : List String) :
    Settled (recordPaths paths d context).2.2.ids (recordPaths paths d context).2.1 ∧
      Keeps d (recordPaths paths d context).2.1 ∧
      (recordPaths paths d context).2.2.ids.Follows context.ids := by
  refine recordPaths_induction
    (p := fun d' context' =>
      Settled context'.ids d' ∧ Keeps d d' ∧ context'.ids.Follows context.ids)
    (fun path d' context' ⟨hsettled, hkeeps, hfollows⟩ => ?_) paths ⟨h, .refl d, .refl context.ids⟩
  have hnext : context'.nextId.2.ids.Follows context'.ids := ⟨1, rfl⟩
  obtain ⟨hsettled', hkeeps'⟩ :=
    hsettled.appendObject (originalName path) (.uuid context'.nextId.1)
  exact ⟨hsettled'.of_follows hnext, hkeeps.trans hkeeps', hfollows.trans hnext⟩

include hids

/-- The agent of an event for all objects comes first, and the event is put into a settled
document. -/
theorem settled_recordEvent {summary : Summary} {agent : Agent} {id : Identifier}
    (hevent : (d.appendAgent agent).2.appendEvent summary agent .all context =
      .ok (id, d', context')) :
    Settled context'.ids d' ∧ Keeps d d' ∧ context'.ids.Follows context.ids ∧
      (recordEvent summary agent).Linked d d' (.recorded id) := by
  obtain ⟨-, hobjects, -, hagents⟩ := h.toSound.appendAgent agent
  obtain ⟨hsettled, hkeeps⟩ :=
    h.toSound.settled_appendAgent fun event hevent => .inl (h.performed event hevent)
  obtain ⟨hsound, hkeeps', hfollows, hlinked, ⟨event, hevents, hid, hperformer⟩, hagents'⟩ :=
    hsettled.toSound.appendEvent hids (show Targets.all.Distinct from trivial) hevent
  refine ⟨⟨hsound, fun other hother => ?_⟩, hkeeps.trans hkeeps', hfollows, ⟨event, ?_, hid⟩,
    fun object hobject => hlinked object (hobjects ▸ hobject) rfl⟩
  · rw [hagents']
    rw [hevents, List.mem_append, List.mem_singleton] at hother
    rcases hother with hother | rfl
    · exact hsettled.performed other hother
    · rw [hperformer]
      exact List.mem_map_of_mem ((hagents agent).2 (.inr rfl))
  · simp [hevents]

/-- The agent of a validation comes last, and the document is settled again. -/
theorem settled_recordValidation {summary : Summary} {validator : Validator} {formats : FormatMap}
    {id : Identifier}
    (hevent : d.appendEvent summary validator.agent (.named (covered validator formats)) context =
      .ok (id, d', context')) :
    Settled context'.ids (d'.appendAgent validator.agent).2 ∧
      Keeps d (d'.appendAgent validator.agent).2 ∧ context'.ids.Follows context.ids ∧
      (recordValidation summary validator formats).Linked d (d'.appendAgent validator.agent).2
        (.recorded id) := by
  obtain ⟨hsound, hkeeps, hfollows, hlinked, ⟨event, hevents, hid, hperformer⟩, hagents⟩ :=
    h.toSound.appendEvent hids (distinct_covered validator formats) hevent
  obtain ⟨hsettled, hkeeps'⟩ := hsound.settled_appendAgent fun other hother => by
    rw [hevents, List.mem_append, List.mem_singleton] at hother
    rw [hagents]
    rcases hother with hother | rfl
    · exact .inl (h.performed other hother)
    · exact .inr hperformer
  have hpromise : (recordValidation summary validator formats).Linked d d' (.recorded id) := by
    rw [Document.appendEvent_eq] at hevent
    cases hplaces : d.targetPlaces (.named (covered validator formats)) with
    | error error =>
      rw [hplaces] at hevent
      cases hevent
    | ok places =>
      obtain ⟨object, hobject, hincluded⟩ := Document.exists_of_targetPlaces_named hplaces
      obtain ⟨object', hobject', -, hlink⟩ := hlinked object hobject hincluded
      exact ⟨⟨event, by simp [hevents], hid⟩, object', hobject', hlink⟩
  exact ⟨hsettled, hkeeps.trans hkeeps', hfollows, hpromise.of_keeps hkeeps'⟩

/-- **Every change keeps the invariant of stored documents**, and what is in them, and keeps its
promise. -/
theorem settled_change {request : Request}
    (hchange : request.change files d context = .ok (response, d', context')) :
    Settled context'.ids d' ∧ Keeps d d' ∧ context'.ids.Follows context.ids ∧
      request.Linked d d' response := by
  cases request with
  | recordObjects content =>
    rw [change] at hchange
    obtain ⟨paths, -, hrecorded⟩ := Except.exists_of_map_eq_ok hchange
    cases hrecorded
    obtain ⟨hsettled, hkeeps, hfollows⟩ := settled_recordPaths h paths
    exact ⟨hsettled, hkeeps, hfollows, trivial⟩
  | recordAgent agent =>
    cases hchange
    obtain ⟨hsettled, hkeeps⟩ :=
      h.toSound.settled_appendAgent fun event hevent => .inl (h.performed event hevent)
    exact ⟨hsettled, hkeeps, .refl context.ids, trivial⟩
  | recordEvent summary agent =>
    rw [change] at hchange
    obtain ⟨⟨id, d₁, context₁⟩, hevent, hrecorded⟩ := Except.exists_of_map_eq_ok hchange
    cases hrecorded
    exact settled_recordEvent h hids hevent
  | recordValidation summary validator formats =>
    rw [change] at hchange
    obtain ⟨⟨id, d₁, context₁⟩, hevent, hrecorded⟩ := Except.exists_of_map_eq_ok hchange
    cases hrecorded
    exact settled_recordValidation h hids hevent

end Changes

end Request

/-! ### Stored documents -/

namespace Document

variable {d : Document} {t t' : FileTree} {path : String}

/-- Where there is no file, the document without records is loaded, or nothing is. -/
theorem eq_new_of_load (habsent : ∀ content, Files.read t path ≠ .ok content)
    (hload : load t path = .ok d) : d = new := by
  rw [load] at hload
  split at hload
  · rename_i content hread
    exact absurd hread (habsent content)
  · exact (Except.ok.inj hload).symm
  · cases hload

/-- What was saved is loaded. -/
theorem LaidOut.load_of_save (h : LaidOut d) (hsave : d.save t path = .ok t') :
    load t' path = .ok d := by
  rw [load, Files.read_of_write (save_eq_ok_iff.1 hsave)]
  exact h.parseText_render

end Document

open Document (Settled Keeps)

namespace Workspace

/-- A workspace in which only requests have written the PREMIS file. -/
structure Tended (premis : String) (w : Workspace) : Prop where
  fresh : w.context.ids.Fresh
  settled : ∀ d, Document.load w.files premis = .ok d → Settled w.context.ids d

variable {premis : String} {w : Workspace}

/-- Where there is no PREMIS file, none has been written by anything but requests. -/
theorem Tended.of_absent (habsent : ∀ content, Files.read w.files premis ≠ .ok content)
    (hids : w.context.ids.Fresh) : Tended premis w := by
  refine ⟨hids, fun d hload => ?_⟩
  rw [Document.eq_new_of_load habsent hload]
  exact Document.settled_new _

/-- Identifiers may be taken for nothing. -/
theorem Tended.of_follows (h : Tended premis w) {context : Context}
    (hfollows : context.ids.Follows w.context.ids) : Tended premis { w with context } :=
  ⟨h.fresh.of_follows hfollows, fun d hload => (h.settled d hload).of_follows hfollows⟩

/-- **Every request keeps the invariant and what is stored**, whether or not it succeeds. -/
theorem Tended.run (h : Tended premis w) (request : Request) :
    Tended premis (request.run premis w).2 ∧
      ∀ d, Document.load w.files premis = .ok d →
        ∃ d', Document.load (request.run premis w).2.files premis = .ok d' ∧ Keeps d d' ∧
          ∀ response, (request.run premis w).1 = .ok response → request.Linked d d' response := by
  rcases request.run_cases premis w with ⟨result, context, hrun, hresult, hcontext⟩ |
    ⟨d, response, d', context, files, hload, hchange, hsave, hrun⟩
  · rw [hrun]
    have hfollows : context.ids.Follows w.context.ids := by
      rcases hcontext with rfl | ⟨d, response, d', hload, hchange⟩
      · exact .refl _
      · exact (Request.settled_change (h.settled d hload) h.fresh hchange).2.2.1
    refine ⟨h.of_follows hfollows, fun d hload => ⟨d, hload, .refl d, fun response hok => ?_⟩⟩
    rcases hresult with rfl | ⟨error, rfl⟩
    · cases hok
      cases request <;> exact trivial
    · cases hok
  · obtain ⟨hsettled, hkeeps, hfollows, hlinked⟩ :=
      Request.settled_change (h.settled d hload) h.fresh hchange
    have hload' := hsettled.laidOut.load_of_save hsave
    rw [hrun]
    refine ⟨⟨h.fresh.of_follows hfollows, fun d₂ hload₂ => ?_⟩, fun d₁ hload₁ =>
      ⟨d', hload', ?_, fun response' hok => ?_⟩⟩
    · cases hload'.symm.trans hload₂
      exact hsettled
    · cases hload.symm.trans hload₁
      exact hkeeps
    · cases hload.symm.trans hload₁
      cases hok
      exact hlinked

/-- A workspace after some requests on a PREMIS file, whatever comes of them. -/
def after (w : Workspace) (premis : String) (requests : List Request) : Workspace :=
  requests.foldl (fun w request => (request.run premis w).2) w

/-- Any requests keep the invariant and what is stored. -/
theorem Tended.after (h : Tended premis w) (requests : List Request) :
    Tended premis (w.after premis requests) ∧
      ∀ d, Document.load w.files premis = .ok d →
        ∃ d', Document.load (w.after premis requests).files premis = .ok d' ∧ Keeps d d' := by
  induction requests generalizing w with
  | nil => exact ⟨h, fun d hload => ⟨d, hload, .refl d⟩⟩
  | cons request requests ih =>
    obtain ⟨htended, hrun⟩ := h.run request
    obtain ⟨htended', hafter⟩ := ih htended
    refine ⟨htended', fun d hload => ?_⟩
    obtain ⟨d₁, hload₁, hkeeps₁, -⟩ := hrun d hload
    obtain ⟨d₂, hload₂, hkeeps₂⟩ := hafter d₁ hload₁
    exact ⟨d₂, hload₂, hkeeps₁.trans hkeeps₂⟩

/-- **After any requests on a PREMIS file that was not there, the stored document is closed**, and
the events that the requests recorded are linked as each of them has promised.

**Proof sketch.** Nothing is stored before the first request. Each request that succeeds loads the
settled document of the last one, changes it and stores a settled document that keeps it; one that
fails stores nothing, and at most takes identifiers. -/
theorem closed_after (habsent : ∀ content, Files.read w.files premis ≠ .ok content)
    (hids : w.context.ids.Fresh) (requests : List Request) :
    (Files.read w.files premis = .error .notFound →
      ∃ d, Document.load (w.after premis requests).files premis = .ok d) ∧
    ∀ d, Document.load (w.after premis requests).files premis = .ok d →
      d.Closed ∧
        ∀ earlier request later response before, requests = earlier ++ request :: later →
          Document.load (w.after premis earlier).files premis = .ok before →
          (request.run premis (w.after premis earlier)).1 = .ok response →
          request.Linked before d response := by
  have htended := Tended.of_absent habsent hids
  obtain ⟨htended', hafter⟩ := htended.after requests
  refine ⟨fun hread => ?_, fun d hload => ⟨(htended'.settled d hload).closed, ?_⟩⟩
  · obtain ⟨d, hload, -⟩ := hafter .new (by rw [Document.load, hread])
    exact ⟨d, hload⟩
  · rintro earlier request later response before rfl hbefore hok
    obtain ⟨htended₁, -⟩ := htended.after earlier
    obtain ⟨htended₂, hrun⟩ := htended₁.run request
    obtain ⟨d₂, hload₂, -, hlinked⟩ := hrun before hbefore
    obtain ⟨d₃, hload₃, hkeeps₃⟩ := (htended₂.after later).2 d₂ hload₂
    have hsame : w.after premis (earlier ++ request :: later) =
        (request.run premis (w.after premis earlier)).2.after premis later := by
      rw [after, List.foldl_append]
      rfl
    rw [hsame, hload₃] at hload
    cases hload
    exact (hlinked response hok).of_keeps hkeeps₃

/-- A directory `c` with a file `a` in it, and nothing else. -/
def intakeTree : FileTree :=
  let placed : Except Files.Fault FileTree := do
    let t ← Files.put .empty [] "c" .directory
    Files.put t ["c"] "a" (.file [0x61])
  placed.toOption.getD .empty

/-- The path leads to the directory. -/
theorem directory_intakeTree : Files.directory intakeTree "c" = .ok ["c"] :=
  Files.directory_of_proper (by decide) rfl rfl

/-- The directory has the one file. -/
theorem contentFiles_intakeTree : contentFiles intakeTree "c" = .ok ["a"] := by
  have hkeys : (Package.pathsBelow intakeTree ["c"]).keys = ["a"] := by decide +kernel
  rw [contentFiles, Package.listFiles_eq, directory_intakeTree]
  exact congrArg Except.ok hkeys

/-- There is no PREMIS file yet. -/
theorem read_intakeTree : Files.read intakeTree "p" = .error .notFound := by
  have hnone : intakeTree.node? ["p"] = none := rfl
  have hresolve : Files.resolve intakeTree .looking "p" = .ok ["p"] :=
    Files.resolve_of_proper (by decide) rfl nofun
  simp only [Files.read, Files.node, hresolve, bind, Except.bind, hnone]

/-- A document can be saved beside that directory, where nothing or another one is. -/
theorem exists_save_intake {t : FileTree} (hsame : intakeTree.SameBut ["p"] t)
    (hdirectory : t.node? ["p"] ≠ some .directory)
    (hlink : ∀ target, t.node? ["p"] ≠ some (.link target)) (d : Document) :
    ∃ t', d.save t "p" = .ok t' ∧ intakeTree.SameBut ["p"] t' ∧
      t'.node? ["p"] = some (.file (Utf8.encode d.render.toList)) := by
  have hworking : t.working = [] := hsame.working
  have hplace : t.working ++ [Octets.ofText "p"] = (["p"] : Location) := by
    rw [hworking, List.nil_append]
  have hname : ProperName "p" := by decide
  have hexists := Files.exists_write (t := t) hname (by rw [hworking]; rfl)
    (by rwa [hplace]) (by rwa [hplace]) (Utf8.encode d.render.toList)
  rw [hplace] at hexists
  obtain ⟨t', hwrite, hsame', hfile⟩ := hexists
  exact ⟨t', Document.save_eq_ok_iff.2 hwrite, hsame.trans hsame', hfile⟩

/-- That directory without a PREMIS file, and numbered identifiers. -/
def intake : Workspace :=
  ⟨intakeTree, numberedContext⟩

/-- The file is recorded in a new document. -/
theorem exists_run_recordObjects_intake :
    let d := (recordPaths ["a"] .new numberedContext).2.1
    let context := (recordPaths ["a"] .new numberedContext).2.2
    ∃ t, (Request.recordObjects "c").run "p" intake = (.ok (.counted 1), ⟨t, context⟩) ∧
      Document.load t "p" = .ok d ∧ intakeTree.SameBut ["p"] t ∧
      t.node? ["p"] = some (.file (Utf8.encode d.render.toList)) := by
  intro d context
  obtain ⟨t, hsave, hsame, hfile⟩ := exists_save_intake (.refl intakeTree ["p"]) nofun nofun d
  have hlaidOut : d.LaidOut := Document.laidOut_new.apply (.object _ _)
  have hload : Document.load intakeTree "p" = .ok .new := by
    rw [Document.load, read_intakeTree]
  refine ⟨t, Request.run_of_ok rfl hload ?_ hsave, hlaidOut.load_of_save hsave, hsame, hfile⟩
  rw [intake, Request.change, contentFiles_intakeTree]
  rfl

/-- The event that the objects are linked to. -/
def ingest : Request :=
  .recordEvent ⟨"ingest", "", "", ""⟩ (.software "s" "1")

/-- The object of the file takes the first identifier, and the event the second one. -/
theorem exists_run_ingest :
    ∃ d object, Document.load (intake.after "p" [.recordObjects "c"]).files "p" = .ok d ∧
      d.objects = [object] ∧
      (ingest.run "p" (intake.after "p" [.recordObjects "c"])).1 =
        .ok (.recorded (.uuid "event-2")) := by
  let d₁ : Document := (recordPaths ["a"] .new numberedContext).2.1
  let context₁ : Context := (recordPaths ["a"] .new numberedContext).2.2
  obtain ⟨t₁, hfirst, hload₁, hsame₁, hfile₁⟩ := exists_run_recordObjects_intake
  obtain ⟨d₂, context₂, hchange⟩ : ∃ d₂ context₂,
      ingest.change t₁ d₁ context₁ = .ok (.recorded (.uuid "event-2"), d₂, context₂) := by
    have hid : Identifier.uuid (context₁.ids.item context₁.ids.taken) = .uuid "event-2" := by
      decide +kernel
    rw [← hid, ingest, Request.change, Document.appendEvent_eq]
    exact ⟨_, _, rfl⟩
  obtain ⟨t₂, hsave₂, -⟩ :=
    exists_save_intake hsame₁ (by simp [hfile₁]) (by simp [hfile₁]) d₂
  have hsecond := Request.run_of_ok (w := ⟨t₁, context₁⟩) rfl hload₁ hchange hsave₂
  have hafter : intake.after "p" [.recordObjects "c"] = ⟨t₁, context₁⟩ := by
    rw [after, List.foldl_cons, hfirst]
    rfl
  rw [hafter, hsecond]
  exact ⟨d₁, _, hload₁, rfl, rfl⟩

/-- Behind an intake and an event the document is closed, and the object is linked to the event. -/
theorem closed_after_ingest :
    (∀ content, Files.read intake.files "p" ≠ .ok content) ∧ intake.context.ids.Fresh ∧
      ∃ d, Document.load (intake.after "p" [.recordObjects "c", ingest]).files "p" = .ok d ∧
        d.Closed ∧ ∃ object ∈ d.objects, .uuid "event-2" ∈ object.linkedEvents := by
  have hread : Files.read intake.files "p" = .error .notFound := read_intakeTree
  have habsent : ∀ content, Files.read intake.files "p" ≠ .ok content := by
    intro content h
    cases hread.symm.trans h
  have hids : intake.context.ids.Fresh := Supply.fresh_sequential "event"
  obtain ⟨hstored, hclosed⟩ := closed_after habsent hids [.recordObjects "c", ingest]
  obtain ⟨d, hload⟩ := hstored hread
  obtain ⟨hd, hlinked⟩ := hclosed d hload
  obtain ⟨d₁, object, hload₁, hobjects, hrun⟩ := exists_run_ingest
  obtain ⟨-, hall⟩ := hlinked [.recordObjects "c"] ingest [] _ d₁ rfl hload₁ hrun
  obtain ⟨object', hobject', -, hid⟩ := hall object (by simp [hobjects])
  exact ⟨habsent, hids, d, hload, hd, object', hobject', hid⟩

end Workspace

end Provenance

end Accession

import Accession.Command.Run
import Accession.Proofs.Provenance.Targeting
set_option autoImplicit false

/-!
# What the log of a document shows

The log has an entry for each object of a document, in order, with events below it. The events are
looked up by the original name of the object. So they are those of the first object with that name,
which are its own if no object in front of it has the name. Objects that share a name, or have none,
all show the events of the first one.

## Main definitions

* `Provenance.Document.ownEvents` — the events that an object is linked to.
* `Report.entryLines` — the lines for an object with some events below it.

## Main results

* `Provenance.Document.eventsFor_eq_ownEvents_of_first` — the first object with a name has its own
  events.
* `Report.log_eq_unlines` — the log as entries.
* `Command.run_log` — what the program shows when it is asked for a log.
-/

namespace Accession

open Provenance (Document EventRecord ObjectRecord Workspace Activity)

/-! ### Events of an object -/

namespace Provenance.Document

variable {d : Document}

/-- The events that an object is linked to, in the order of its links; links to events that are not
there are passed over. -/
def ownEvents (d : Document) (object : ObjectRecord) : List EventRecord :=
  object.linkedEvents.filterMap d.event?

/-- The events that are looked up by a name are those of the first object with it. -/
theorem eventsFor_eq_ownEvents {name : String} {first : ObjectRecord}
    (h : d.objects.find? (·.originalName = name) = some first) :
    d.eventsFor name = d.ownEvents first := by
  rw [eventsFor, object?_eq_find?, h]
  rfl

/-- For the first object with a name its own events are looked up. -/
theorem eventsFor_eq_ownEvents_of_first {i : Nat} {object : ObjectRecord}
    (hobject : d.objects[i]? = some object)
    (hfirst : d.objects.findIdx? (·.originalName = object.originalName) = some i) :
    d.eventsFor object.originalName = d.ownEvents object := by
  obtain ⟨hi, rfl⟩ := List.getElem?_eq_some_iff.1 hobject
  obtain ⟨_, _, hearlier⟩ := List.findIdx?_eq_some_iff_getElem.1 hfirst
  refine eventsFor_eq_ownEvents (List.find?_eq_some_iff_getElem.2
    ⟨decide_eq_true rfl, i, hi, rfl, fun j hj => ?_⟩)
  simpa using hearlier j hj

end Provenance.Document

/-! ### Entries of the log -/

namespace Report

/-- The lines for an object itself. -/
def captionLines (shown : Bool) (object : ObjectRecord) : List String :=
  [Style.paint { bold := true, colour := some .cyan } shown "Object" ++ " " ++
      (coloured .cyan).paint shown object.originalName,
    "  " ++ labelled shown "ID" s!"{object.identifier.value} ({object.identifier.type})"] ++
  if object.formatName.isEmpty then [] else ["  " ++ labelled shown "Format" object.formatName]

/-- The line that says that there are no events. -/
def noneLine (shown : Bool) : String :=
  "  " ++ labelled shown "Events" ((coloured .yellow).paint shown "none")

/-- The lines for an object with some events below it. -/
def entryLines (shown : Bool) (d : Document) (object : ObjectRecord) (events : List EventRecord) :
    List String :=
  captionLines shown object ++
    (if events = [] then [noneLine shown] else events.flatMap (eventLines shown d)) ++ [""]

/-- The lines in front of the entries. -/
def headLines (shown : Bool) (file : String) (d : Document) : List String :=
  [heading.paint shown "PREMIS Record",
    labelled shown "File" file,
    labelled shown "Objects" (toString d.objects.length) ++ "  " ++
      labelled shown "Events" (toString d.events.length) ++ "  " ++
      labelled shown "Agents" (toString d.agents.length),
    ""]

/-- The lines for the agents. -/
def agentLines (shown : Bool) (d : Document) : List String :=
  if d.agents.isEmpty then [] else bold.paint shown "Agents" :: d.agents.map (agentLine shown)

/-- Below an object stand the events that are looked up by its name, whichever object the look-up
comes upon first. -/
theorem objectLines_eq_entryLines (shown : Bool) (d : Document) (object : ObjectRecord) :
    objectLines shown d object =
      entryLines shown d object (d.eventsFor object.originalName) := by
  rw [objectLines, entryLines, captionLines]
  cases d.eventsFor object.originalName with
  | nil => simp [noneLine]
  | cons event events => simp

/-- **The log of a document that is not empty has an entry for each object**, with the events that
are looked up by its name. -/
theorem log_eq_unlines {d : Document} (h : d.isEmpty = false) (shown : Bool) (file : String) :
    log shown file d = unlines (headLines shown file d ++
      d.objects.flatMap (fun object =>
        entryLines shown d object (d.eventsFor object.originalName)) ++
      agentLines shown d) := by
  rw [log, if_neg (by simp [h])]
  simp only [← objectLines_eq_entryLines]
  rfl

end Report

/-! ### Asking for a log -/

/-- A document that is not empty was read from a file. -/
theorem Provenance.Document.isFile_of_load {t : FileTree} {path : String} {d : Document}
    (hload : load t path = .ok d) (hne : d.isEmpty = false) : Files.isFile t path = true := by
  rw [load] at hload
  cases hread : Files.read t path with
  | ok content =>
    rw [Files.read] at hread
    rw [Files.isFile]
    cases hnode : Files.node t path with
    | error fault =>
      rw [hnode] at hread
      cases hread
    | ok node =>
      rw [hnode] at hread
      cases node with
      | file => rfl
      | directory | link => cases hread
  | error fault =>
    rw [hread] at hload
    cases fault with
    | notFound =>
      cases hload
      cases hne
    | _ => cases hload

namespace Command

open Provenance (run_bind run_get run_look)

/-- An activity in a command does what it does alone. -/
theorem run_onProvenance {α : Type} (message : String) (activity : Activity α) (w : Workspace) :
    (onProvenance message activity).run.run w =
      match activity.run.run w with
      | (.ok a, w) => (.ok a, w)
      | (.error error, w) => (.error (because message error.message error.causes), w) := by
  simp only [onProvenance, run_bind, run_get]
  obtain ⟨result, w'⟩ := activity.run.run w
  cases result <;> rfl

/-- Showing a log leaves the workspace alone. -/
theorem run_showLog {w : Workspace} {file : String} {d : Document}
    (hload : Document.load w.files file = .ok d) (hne : d.isEmpty = false) (shown : Bool) :
    (showLog shown file).run.run w = (.ok (Report.log shown file d), w) := by
  simp only [showLog, run_bind, run_get]
  rw [if_pos (Document.isFile_of_load hload hne)]
  simp only [run_bind, loadDocument, run_onProvenance, Provenance.load, run_look, hload]
  rfl

/-- The program shows the log of a document that is not empty, and changes nothing. -/
theorem run_eq_log {args : List String} {named : Option String} {file : String} {w : Workspace}
    {settings : Settings} {d : Document}
    (hargs : Arguments.parse args = some (.run named (.log file)))
    (hsettings : Settings.load w.files named = .ok settings)
    (hload : Document.load w.files file = .ok d) (hne : d.isEmpty = false) (shown : Bool) :
    run shown args w = (⟨0, Report.log shown file d, ""⟩, w) := by
  simp only [run, hargs, start, run_bind, run_get, hsettings, perform, cleanly,
    run_showLog hload hne]
  rfl

/-- **What the program shows when it is asked for the log of a document that is not empty**, in any
file: an entry for each object, in order, and nothing changes. The events below an object are those
that the first object with its original name is linked to; if there are none, a line says so. So
they are its own for each object that is the first one with its name, and for all objects if no two
of them have the same name.

**Proof sketch.** The lines of each object are those of the events that are looked up by its name,
and the look-up takes the first object of that name. -/
theorem run_log {args : List String} {named : Option String} {file : String} {w : Workspace}
    {settings : Settings} {d : Document}
    (hargs : Arguments.parse args = some (.run named (.log file)))
    (hsettings : Settings.load w.files named = .ok settings)
    (hload : Document.load w.files file = .ok d) (hne : d.isEmpty = false) (shown : Bool) :
    ∃ entries : List (ObjectRecord × List EventRecord),
      run shown args w = (⟨0, Report.unlines (Report.headLines shown file d ++
        entries.flatMap (fun entry => Report.entryLines shown d entry.1 entry.2) ++
        Report.agentLines shown d), ""⟩, w) ∧
      entries.map (·.1) = d.objects ∧
      (∀ entry ∈ entries, ∃ first,
        d.objects.find? (·.originalName = entry.1.originalName) = some first ∧
          entry.2 = d.ownEvents first) ∧
      (∀ i object events, entries[i]? = some (object, events) →
        d.objects.findIdx? (·.originalName = object.originalName) = some i →
          events = d.ownEvents object) ∧
      ((d.objects.map (·.originalName)).Nodup →
        ∀ entry ∈ entries, entry.2 = d.ownEvents entry.1) := by
  let entries := d.objects.map fun object => (object, d.eventsFor object.originalName)
  have hfirst : ∀ entry ∈ entries, ∃ first,
      d.objects.find? (·.originalName = entry.1.originalName) = some first ∧
        entry.2 = d.ownEvents first := by
    intro entry hentry
    obtain ⟨object, hobject, rfl⟩ := List.mem_map.1 hentry
    have hsome : (d.objects.find? (·.originalName = object.originalName)).isSome :=
      List.find?_isSome.2 ⟨object, hobject, decide_eq_true rfl⟩
    obtain ⟨first, hfind⟩ := Option.isSome_iff_exists.1 hsome
    exact ⟨first, hfind, Document.eventsFor_eq_ownEvents hfind⟩
  refine ⟨entries, ?_, ?_, hfirst, ?_, ?_⟩
  · rw [run_eq_log hargs hsettings hload hne, Report.log_eq_unlines hne, List.flatMap_map]
  · rw [List.map_map]
    exact List.map_id' d.objects
  · intro i object events hentry hindex
    rw [List.getElem?_map, Option.map_eq_some_iff] at hentry
    obtain ⟨object', hobject, hpair⟩ := hentry
    cases hpair
    exact Document.eventsFor_eq_ownEvents_of_first hobject hindex
  · intro hnodup entry hentry
    obtain ⟨object, hobject, rfl⟩ := List.mem_map.1 hentry
    obtain ⟨first, hfind, hevents⟩ := hfirst _ hentry
    have hname : first.originalName = object.originalName := by
      simpa using List.find?_some hfind
    rw [hevents, List.inj_on_of_nodup_map hnodup (List.mem_of_find?_eq_some hfind) hobject hname]

/-! ### Objects without a name -/

/-- A directory without a settings file has the settings that hold by default. -/
theorem load_settings_premisTree (text : String) :
    Settings.load (Provenance.premisTree text) none = .ok .default := by
  have hnone : (Provenance.premisTree text).node? ["sipx.toml"] = none := rfl
  have hresolve : Files.resolve (Provenance.premisTree text) .looking "sipx.toml" =
      .ok ["sipx.toml"] :=
    Files.resolve_of_proper (by decide +kernel) rfl nofun
  have hfile : Files.isFile (Provenance.premisTree text) Settings.defaultFile = false := by
    simp only [Files.isFile, Files.node, Settings.defaultFile, hresolve, bind, Except.bind, hnone]
  rw [Settings.load, if_neg (by simp [hfile])]

/-- A document with two objects that have no name, and nothing else. -/
def namelessDocument : Document :=
  ⟨⟨"premis", [], "", [⟨"object", [], "", []⟩, ⟨"object", [], "", []⟩]⟩⟩

/-- The same document after an event was recorded for the objects without a name: this links the
first one. -/
def halfLinkedDocument : Document :=
  namelessDocument.apply
    (.event Provenance.checkup (.software "s" "1") (.named [""]) Provenance.numberedContext)

/-- The document with two nameless objects is laid out as a saved one is. -/
theorem laidOut_namelessDocument : namelessDocument.LaidOut := by
  have hobject : Node.Every Node.Regular ⟨"object", [], "", []⟩ :=
    .intro ⟨⟨by decide, nofun, .nil⟩, .inl rfl⟩ nofun
  refine ⟨.intro ⟨⟨by decide, nofun, .nil⟩, .inl rfl⟩ ?_, rfl, rfl, ?_⟩
  · simpa [namelessDocument] using hobject
  · simp [namelessDocument]

/-- A file with that document. -/
def halfLinked : Workspace :=
  ⟨Provenance.premisTree halfLinkedDocument.render, Provenance.numberedContext⟩

/-- The file is read as the document that was written to it. -/
theorem load_halfLinked : Document.load halfLinked.files "p" = .ok halfLinkedDocument :=
  Provenance.load_premisTree (laidOut_namelessDocument.apply _).parseText_render

/-- The document has records, so there is something to log. -/
theorem isEmpty_halfLinkedDocument : halfLinkedDocument.isEmpty = false := by
  decide +kernel

/-- The words of the command are understood as a request for the log. -/
theorem parse_log : Arguments.parse ["premis", "log", "p"] = some (.run none (.log "p")) := by
  decide +kernel

/-- Below both objects the log has the event that only the first one is linked to. -/
theorem events_halfLinked :
    Document.load halfLinked.files "p" = .ok halfLinkedDocument ∧
    halfLinkedDocument.objects.map (fun object =>
      (halfLinkedDocument.ownEvents object).map (·.identifier)) = [[.uuid "event-1"], []] ∧
    run false ["premis", "log", "p"] halfLinked = (⟨0, Report.unlines [
      "PREMIS Record", "File: p", "Objects: 2  Events: 1  Agents: 0", "",
      "Object ", "  ID:  ()", "    - 1970-01-01T00:00:00Z validation [valid]", "",
      "Object ", "  ID:  ()", "    - 1970-01-01T00:00:00Z validation [valid]", ""], ""⟩,
      halfLinked) := by
  refine ⟨load_halfLinked, by decide +kernel, ?_⟩
  rw [run_eq_log parse_log (load_settings_premisTree _) load_halfLinked isEmpty_halfLinkedDocument,
    Report.log_eq_unlines isEmpty_halfLinkedDocument]
  refine Prod.ext (congrArg (fun lines => Exit.mk 0 (Report.unlines lines) "") ?_) rfl
  decide +kernel

/-- The events below both objects are those of the first one. -/
theorem run_log_halfLinked :
    Arguments.parse ["premis", "log", "p"] = some (.run none (.log "p")) ∧
    Settings.load halfLinked.files none = .ok .default ∧
    Document.load halfLinked.files "p" = .ok halfLinkedDocument ∧
    halfLinkedDocument.isEmpty = false ∧
    ∃ entries : List (ObjectRecord × List EventRecord),
      run false ["premis", "log", "p"] halfLinked =
        (⟨0, Report.unlines (Report.headLines false "p" halfLinkedDocument ++
          entries.flatMap (fun entry =>
            Report.entryLines false halfLinkedDocument entry.1 entry.2) ++
          Report.agentLines false halfLinkedDocument), ""⟩, halfLinked) ∧
      entries.length = 2 ∧ ∀ entry ∈ entries, entry.2.map (·.identifier) = [.uuid "event-1"] := by
  have hsettings : Settings.load halfLinked.files none = .ok .default :=
    load_settings_premisTree _
  obtain ⟨entries, hrun, hobjects, hevents, -⟩ :=
    run_log parse_log hsettings load_halfLinked isEmpty_halfLinkedDocument false
  refine ⟨parse_log, hsettings, load_halfLinked, isEmpty_halfLinkedDocument, entries, hrun, ?_,
    fun entry hentry => ?_⟩
  · rw [← List.length_map (·.1), hobjects]
    decide +kernel
  · obtain ⟨first, hfind, hown⟩ := hevents entry hentry
    have hnameless : ∀ object ∈ halfLinkedDocument.objects, object.originalName = "" := by
      decide +kernel
    have hmem : entry.1 ∈ halfLinkedDocument.objects := by
      rw [← hobjects]
      exact List.mem_map_of_mem hentry
    have hfirst : (halfLinkedDocument.objects.find? (·.originalName = "")).map (fun object =>
        (halfLinkedDocument.ownEvents object).map (·.identifier)) = some [.uuid "event-1"] := by
      decide +kernel
    rw [hnameless entry.1 hmem] at hfind
    rw [hfind] at hfirst
    rw [hown]
    exact Option.some.inj hfirst

end Command

end Accession

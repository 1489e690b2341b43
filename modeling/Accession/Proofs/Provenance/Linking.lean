import Accession.Proofs.Lists
import Accession.Proofs.Provenance.AuditLog
import Accession.Proofs.Provenance.Growth
import Accession.Proofs.Provenance.Resaving
import Mathlib.Data.List.Nodup
set_option autoImplicit false

/-!
# Events in any document

What recording an event does to a document, whatever that holds: its records may stand in any order,
and objects may have one original name in common, or none at all. An event is refused, and then
nothing is taken from the context, or it takes one identifier and one time, and its record is new.
Targets pick the first object with each name that they give. An object is linked as often as its
name is given, so it does not matter in which order names are given, but it matters how often.

## Main definitions

* `Provenance.Targets.picks`, `Provenance.Targets.mentions` — whether and how often targets speak of
  an object.
* `Provenance.Document.Holds` — the objects that targets speak of are there.

## Main results

* `Provenance.Document.objects_linkAt` — the objects after links were put in.
* `Provenance.Document.exists_appendEvent_of_places` — the records after an event.
* `Provenance.Session.refuses_or_records_event` — an event is refused without a trace, or recorded.
* `Provenance.Document.appendEvent_named_eq_iff` — when two lists of names mean the same.
-/

namespace Accession.Provenance

/-! ### Objects that targets speak of -/

/-- Whether targets pick the object at a place among all: every object, or the first one with each
name. -/
def Targets.picks (objects : List ObjectRecord) (i : Nat) (object : ObjectRecord) :
    Targets → Bool
  | .all => true
  | .named names => names.contains object.originalName &&
      objects.findIdx? (·.originalName = object.originalName) = some i

/-- How often targets speak of the object at a place among all: once if they speak of all, or else
as often as they name the first object with its name. -/
def Targets.mentions (objects : List ObjectRecord) (i : Nat) (object : ObjectRecord) :
    Targets → Nat
  | .all => 1
  | .named names =>
    if objects.findIdx? (·.originalName = object.originalName) = some i
    then names.count object.originalName else 0

/-- Targets that name nothing twice speak of an object once, or not at all. -/
theorem Targets.Distinct.mentions_eq {targets : Targets} (h : targets.Distinct)
    (objects : List ObjectRecord) (i : Nat) (object : ObjectRecord) :
    targets.mentions objects i object = if targets.picks objects i object then 1 else 0 := by
  cases targets with
  | all => rfl
  | named names =>
    rw [Targets.mentions, Targets.picks, List.Nodup.count h]
    by_cases hfirst : objects.findIdx? (·.originalName = object.originalName) = some i
    · simp [hfirst]
    · simp [hfirst]

/-- An object that is linked to an event several times. -/
theorem ObjectRecord.iterate_link (id : Identifier) (count : Nat) (object : ObjectRecord) :
    (ObjectRecord.link id)^[count] object =
      { object with linkedEvents := object.linkedEvents ++ List.replicate count id } := by
  induction count generalizing object with
  | zero => simp
  | succ count ih =>
    rw [Function.iterate_succ_apply, ih, ObjectRecord.link, List.append_assoc]
    rfl

/-- An object with links put into it is read as the object with as many more links. -/
theorem readObject_iterate_insertLink {link : Node} (h : isEventLink link) (object : Node)
    (count : Nat) :
    readObject ((insertLink link)^[count] object) =
      (ObjectRecord.link (readLink link))^[count] (readObject object) := by
  have hsemiconj : Function.Semiconj readObject (insertLink link)
      (ObjectRecord.link (readLink link)) := readObject_insertLink h
  exact hsemiconj.iterate_right count object

namespace Document

/-- The objects that targets speak of are there; named targets name one at least. -/
def Holds (d : Document) : Targets → Prop
  | .all => True
  | .named names => names ≠ [] ∧ ∀ name ∈ names, name ∈ d.objects.map (·.originalName)

variable {d : Document} {targets : Targets} {places : List Nat}

/-! ### Places of targets -/

/-- Named targets are found if there is an object with each name. -/
theorem targetPlaces_named_eq (d : Document) {names : List String} (hne : names ≠ []) :
    d.targetPlaces (.named names) =
      match names.find? (· ∉ d.objects.map (·.originalName)) with
      | some name => .error (.objectNotFound name)
      | none => .ok (names.filterMap d.objectPlace?) := by
  have hmissing : (fun name => (d.objectPlace? name).isNone) =
      fun name => decide (name ∉ d.objects.map (·.originalName)) := by
    funext name
    rw [← Option.not_isSome, Bool.eq_iff_iff, Bool.not_eq_true', ← Bool.not_eq_true,
      isSome_objectPlace?, decide_eq_true_iff]
  have hnamed := targetPlaces_named d hne
  rw [hmissing] at hnamed
  exact hnamed

/-- Targets are found exactly if their objects are there. -/
theorem exists_targetPlaces_iff :
    (∃ places, d.targetPlaces targets = .ok places) ↔ d.Holds targets := by
  cases targets with
  | all => exact ⟨fun _ => trivial, fun _ => ⟨_, rfl⟩⟩
  | named names =>
    by_cases hne : names = []
    · subst hne
      simp [Document.targetPlaces, Holds]
    · rw [targetPlaces_named_eq d hne, Holds, and_iff_right hne]
      cases hfind : names.find? (· ∉ d.objects.map (·.originalName)) with
      | none => simpa using hfind
      | some name =>
        have hmem := List.mem_of_find?_eq_some hfind
        have hname := List.find?_some hfind
        simp only [reduceCtorEq, exists_false, false_iff]
        exact fun hall => of_decide_eq_true hname (hall name hmem)

/-- Named targets are the places of the first object of each name, as often as it is named. -/
theorem eq_filterMap_of_targetPlaces {names : List String}
    (h : d.targetPlaces (.named names) = .ok places) : places = names.filterMap d.objectPlace? := by
  cases names with
  | nil => cases h
  | cons name names =>
    rw [targetPlaces_named d (List.cons_ne_nil name names)] at h
    split at h
    · cases h
    · exact (Except.ok.inj h).symm

/-- An object stands first with a name among the elements exactly if its record does so among the
objects. -/
theorem findIdx?_objects_iff {i : Nat} {n : Node} (hn : d.root.children[i]? = some n)
    (hobject : n.localName = "object") (name : String) :
    d.objects.findIdx? (·.originalName = name) =
        some (List.placeAmong (·.localName = "object") d.root.children i) ↔
      d.objectPlace? name = some i := by
  rw [objects, List.findIdx?_map, Node.childrenNamed]
  exact List.findIdx?_filter_eq_some_iff _ hn (decide_eq_true hobject)

/-- **The place of an object is listed as often as targets speak of the object.** -/
theorem count_targetPlaces (h : d.targetPlaces targets = .ok places) {i : Nat} {n : Node}
    (hn : d.root.children[i]? = some n) (hobject : n.localName = "object") :
    places.count i = targets.mentions d.objects
      (List.placeAmong (·.localName = "object") d.root.children i) (readObject n) := by
  cases targets with
  | all =>
    obtain ⟨places', hplaces', hnodup, hmem⟩ := d.targetPlaces_all
    obtain rfl : places = places' := Except.ok.inj (h.symm.trans hplaces')
    exact List.count_eq_one_of_mem hnodup ((hmem i n hn).2 hobject)
  | named names =>
    -- only the name of the object itself leads to its place, so just that name is counted
    have hown {name : String} (hplace : d.objectPlace? name = some i) :
        (readObject n).originalName = name := by
      obtain ⟨m, hm, -, hname⟩ := exists_of_objectPlace?_eq_some hplace
      obtain rfl : m = n := Option.some.inj (hm.symm.trans hn)
      exact hname
    rw [eq_filterMap_of_targetPlaces h, List.count_filterMap, Targets.mentions]
    simp only [findIdx?_objects_iff hn hobject]
    split
    · rename_i hfirst
      refine List.countP_congr fun name _ => ?_
      rw [beq_iff_eq, beq_iff_eq]
      exact ⟨fun hplace => (hown hplace).symm, fun hname => hname ▸ hfirst⟩
    · rename_i hfirst
      rw [List.countP_eq_zero]
      intro name _ hplace
      have hplace' := eq_of_beq hplace
      exact hfirst (hown hplace' ▸ hplace')

/-! ### Links -/

/-- Links do not change elements of other kinds. -/
theorem childrenNamed_linkAt {link : Node} {children : List Node}
    (hobjects : ∀ i ∈ places, ∀ n, children[i]? = some n → n.localName = "object")
    {kind : String} (hkind : kind ≠ "object") :
    (linkAt link places children).filter (·.localName = kind) =
      children.filter (·.localName = kind) := by
  rw [linkAt_eq_mapIdx, List.filter_mapIdx (g := fun _ n => n)]
  · refine List.ext_getElem? fun i => ?_
    rw [List.getElem?_mapIdx, Option.map_id']
  · intro i n
    rw [localName_iterate_insertLink]
  · intro i n hn hname
    have hnot : i ∉ places := fun hmem =>
      hkind ((of_decide_eq_true hname).symm.trans (hobjects i hmem n hn))
    rw [List.count_eq_zero_of_not_mem hnot]
    rfl

/-- **Each object gains a link as often as targets speak of it.** -/
theorem objects_linkAt {link : Node} (hlink : isEventLink link)
    (h : d.targetPlaces targets = .ok places) :
    (⟨{ d.root with children := linkAt link places d.root.children }⟩ : Document).objects =
      d.objects.mapIdx fun i object =>
        (ObjectRecord.link (readLink link))^[targets.mentions d.objects i object] object := by
  let linked (i : Nat) (n : Node) : Node :=
    (insertLink link)^[targets.mentions d.objects i (readObject n)] n
  have hnamed : (linkAt link places d.root.children).filter (·.localName = "object") =
      (d.root.childrenNamed "object").mapIdx linked := by
    rw [linkAt_eq_mapIdx, List.filter_mapIdx, Node.childrenNamed]
    · intro i n
      rw [localName_iterate_insertLink]
    · intro i n hn hobject
      rw [count_targetPlaces h hn (of_decide_eq_true hobject)]
  rw [objects, Node.childrenNamed, hnamed]
  exact List.map_mapIdx_comm (f := linked) (fun i n => readObject_iterate_insertLink hlink n _) _

/-! ### Records -/

/-- A record is put among those of its kind, and those of other kinds stay. -/
theorem exists_childrenNamed_insertRecord (record root : Node) (kind : String) :
    ∃ before after, root.childrenNamed kind = before ++ after ∧
      (insertRecord record root).childrenNamed kind =
        before ++ (if record.localName = kind then [record] else []) ++ after := by
  obtain ⟨before, after, hold, hnew⟩ := exists_children_insertRecord record root
  refine ⟨before.filter (·.localName = kind), after.filter (·.localName = kind), ?_, ?_⟩
  · rw [Node.childrenNamed, hold, List.filter_append]
  · rw [Node.childrenNamed, hnew, List.filter_append, List.filter_append, List.filter_cons,
      List.filter_nil]
    simp only [decide_eq_true_eq]

/-- A new record leaves the elements of other kinds as they are. -/
theorem childrenNamed_insertRecord_of_ne {record : Node} {kind : String}
    (h : record.localName ≠ kind) (root : Node) :
    (insertRecord record root).childrenNamed kind = root.childrenNamed kind := by
  obtain ⟨before, after, hold, hnew⟩ := exists_childrenNamed_insertRecord record root kind
  rw [hnew, if_neg h, List.append_nil, hold]

/-- **An event that finds its targets is recorded**, wherever records stand: its record is put among
the events, and each object is linked as often as the targets speak of it. -/
theorem exists_appendEvent_of_places (h : d.targetPlaces targets = .ok places) (summary : Summary)
    (agent : Agent) (context : Context) :
    let id := Identifier.uuid context.ids.take.1
    ∃ d' before after, d.appendEvent summary agent targets context =
        .ok (id, d', ⟨context.ids.take.2, context.times.take.2⟩) ∧
      d.events = before ++ after ∧
      d'.events = before ++ [{
        identifier := id
        eventType := summary.eventType
        dateTime := context.times.take.1.render
        detail := summary.detail
        outcome := summary.outcome
        outcomeDetail := summary.outcomeDetail
        linkingAgent := agent.identifier }] ++ after ∧
      d'.objects = d.objects.mapIdx (fun i object =>
        (ObjectRecord.link id)^[targets.mentions d.objects i object] object) ∧
      d'.agents = d.agents := by
  intro id
  let link := linkElement d.root id
  let event := eventElement d.root id context.times.take.1 summary agent.identifier
  let linked := { d.root with children := linkAt link places d.root.children }
  have hobjects (i : Nat) (hi : i ∈ places) (n : Node) (hn : d.root.children[i]? = some n) :
      n.localName = "object" := localName_of_mem_targetPlaces h hi hn
  have hname : event.localName = "event" := localName_eventElement ..
  have hlink : isEventLink link := decide_eq_true (localName_linkElement d.root id)
  have hlinked {kind : String} (hkind : kind ≠ "object") :
      linked.childrenNamed kind = d.root.childrenNamed kind :=
    childrenNamed_linkAt hobjects hkind
  -- the events of `linked` are those of the document, so they are cut in the same place
  obtain ⟨before, after, hold, hnew⟩ := exists_childrenNamed_insertRecord event linked "event"
  rw [hlinked (by decide)] at hold
  rw [if_pos hname] at hnew
  refine ⟨⟨insertRecord event linked⟩, before.map readEvent, after.map readEvent, ?_, ?_, ?_, ?_,
    ?_⟩
  · rw [appendEvent_eq, h]
    rfl
  · rw [events, hold, List.map_append]
  · rw [events, hnew, List.map_append, List.map_append, List.map_singleton,
      readEvent_eventElement]
  · rw [objects, childrenNamed_insertRecord_of_ne (by rw [hname]; decide)]
    have hmentions := objects_linkAt hlink h
    rwa [readLink_linkElement] at hmentions
  · rw [agents, childrenNamed_insertRecord_of_ne (by rw [hname]; decide), hlinked (by decide),
      agents]

end Document

/-! ### Refused or recorded -/

/-- **An event is refused without a trace, or recorded.** It is refused without targets, and for the
first name that no object has; document and context stay as they are. Otherwise it takes one
identifier and one time, and its record with these is new among the events. Each object that the
targets pick is linked to it behind the events that it is linked to; all other objects and all
agents stay as they are.

**Proof sketch.** The targets have places among the children of the root exactly if all of them are
held. The links at these places are read back as links of the objects there, and the record of the
event is read back as what it was made of. -/
theorem Session.refuses_or_records_event (s : Session) (summary : Summary) (agent : Agent) :
    s.step (.event summary agent (.named [])) = .ok (.refused .noTargets, s) ∧
    (∀ names missing,
      names.find? (· ∉ s.document.objects.map (·.originalName)) = some missing →
      s.step (.event summary agent (.named names)) =
        .ok (.refused (.objectNotFound missing), s)) ∧
    ∀ targets : Targets, targets.Distinct → s.document.Holds targets →
      let id := Identifier.uuid s.context.ids.take.1
      ∃ d before after, s.step (.event summary agent targets) = .ok (.recorded id,
          ⟨d, ⟨s.context.ids.take.2, s.context.times.take.2⟩⟩) ∧
        s.document.events = before ++ after ∧
        d.events = before ++ [{
          identifier := id
          eventType := summary.eventType
          dateTime := s.context.times.take.1.render
          detail := summary.detail
          outcome := summary.outcome
          outcomeDetail := summary.outcomeDetail
          linkingAgent := agent.identifier }] ++ after ∧
        d.objects = s.document.objects.mapIdx (fun i object =>
          if targets.picks s.document.objects i object then object.link id else object) ∧
        d.agents = s.document.agents := by
  refine ⟨rfl, fun names missing hmissing => ?_, fun targets hdistinct hholds => ?_⟩
  · have hne : names ≠ [] := by
      rintro rfl
      cases hmissing
    rw [step, Document.appendEvent_eq, Document.targetPlaces_named_eq s.document hne, hmissing]
  · obtain ⟨places, hplaces⟩ := Document.exists_targetPlaces_iff.2 hholds
    obtain ⟨d, before, after, hevent, hold, hnew, hobjects, hagents⟩ :=
      Document.exists_appendEvent_of_places hplaces summary agent s.context
    refine ⟨d, before, after, ?_, hold, hnew, ?_, hagents⟩
    · rw [step, hevent]
    · rw [hobjects]
      congr 1
      funext i object
      rw [hdistinct.mentions_eq]
      split <;> rfl

/-- A document with an agent in front of its objects, of which two have the same name and one has
none. -/
def sharedText : String :=
  "<premis><agent/><object><originalName>a</originalName></object>" ++
    "<object><originalName>a</originalName></object><object/></premis>"

/-- What is read from it. -/
def sharedDocument : Document :=
  let named : Node := ⟨"object", [], "", [⟨"originalName", [], "a", []⟩]⟩
  ⟨⟨"premis", [], "", [⟨"agent", [], "", []⟩, named, named, ⟨"object", [], "", []⟩]⟩⟩

/-- What is said about an event in it. -/
def checkup : Summary :=
  ⟨"validation", "checked", "valid", ""⟩

/-- A name that is missing is reported, and of two objects with one name the first is linked. -/
theorem refuses_or_records_checkup :
    let s : Session := ⟨sharedDocument, numberedContext⟩
    let agent : Agent := .software "s" "1"
    Document.parseText sharedText = .ok sharedDocument ∧
    ["a", "b"].find? (· ∉ s.document.objects.map (·.originalName)) = some "b" ∧
    s.step (.event checkup agent (.named ["a", "b"])) =
      .ok (.refused (.objectNotFound "b"), s) ∧
    (Targets.named ["", "a"]).Distinct ∧ s.document.Holds (.named ["", "a"]) ∧
    ∃ s', s.step (.event checkup agent (.named ["", "a"])) =
        .ok (.recorded (.uuid "event-1"), s') ∧
      s'.document.objects.map (·.linkedEvents) =
        [[.uuid "event-1"], [], [.uuid "event-1"]] := by
  intro s agent
  obtain ⟨-, hrefused, hrecorded⟩ := s.refuses_or_records_event checkup agent
  have hmissing : ["a", "b"].find? (· ∉ s.document.objects.map (·.originalName)) = some "b" := by
    decide +kernel
  have hdistinct : (Targets.named ["", "a"]).Distinct := by simp [Targets.Distinct]
  have hholds : s.document.Holds (.named ["", "a"]) :=
    ⟨List.cons_ne_nil _ _, by decide +kernel⟩
  have hid : Identifier.uuid s.context.ids.take.1 = .uuid "event-1" := by decide +kernel
  obtain ⟨d, before, after, hevent, -, -, hobjects, -⟩ := hrecorded _ hdistinct hholds
  rw [hid] at hevent
  refine ⟨Except.eq_ok_of_toOption (by decide +kernel), hmissing, hrefused _ _ hmissing,
    hdistinct, hholds, _, hevent, ?_⟩
  rw [hobjects]
  decide +kernel

/-! ### Names in any order -/

namespace Document

variable {d : Document}

/-- If the objects after two lists of names are the same, each name of an object is given as often
in one as in the other. -/
theorem count_eq_of_mapIdx_eq {names names' : List String} {id : Identifier}
    (h : d.objects.mapIdx (fun i object =>
        (ObjectRecord.link id)^[(Targets.named names).mentions d.objects i object] object) =
      d.objects.mapIdx fun i object =>
        (ObjectRecord.link id)^[(Targets.named names').mentions d.objects i object] object)
    {name : String} (hname : name ∈ d.objects.map (·.originalName)) :
    names.count name = names'.count name := by
  obtain ⟨i, hfirst⟩ : ∃ i, d.objects.findIdx? (·.originalName = name) = some i := by
    rw [← Option.isSome_iff_exists, List.findIdx?_isSome, List.any_eq_true]
    obtain ⟨object, hobject, rfl⟩ := List.mem_map.1 hname
    exact ⟨object, hobject, decide_eq_true rfl⟩
  obtain ⟨hi, hnamed, -⟩ := List.findIdx?_eq_some_iff_getElem.1 hfirst
  have hown : d.objects[i].originalName = name := of_decide_eq_true hnamed
  have hsame := List.mapIdx_eq_mapIdx_iff.1 h i hi
  rw [ObjectRecord.iterate_link, ObjectRecord.iterate_link] at hsame
  have hlength := congrArg (·.linkedEvents.length) hsame
  simpa [Targets.mentions, hown, hfirst] using hlength

/-- The order of places does not matter. -/
theorem linkAt_perm {places places' : List Nat} (h : places.Perm places') (link : Node)
    (children : List Node) : linkAt link places children = linkAt link places' children := by
  refine List.ext_getElem? fun i => ?_
  rw [getElem?_linkAt, getElem?_linkAt, h.count_eq]

/-- The order in which names are given does not matter. -/
theorem appendEvent_perm {names names' : List String} (h : names.Perm names')
    (hholds : d.Holds (.named names)) (summary : Summary) (agent : Agent) (context : Context) :
    d.appendEvent summary agent (.named names) context =
      d.appendEvent summary agent (.named names') context := by
  have hholds' : d.Holds (.named names') :=
    ⟨fun hnil => hholds.1 (List.perm_nil.1 (hnil ▸ h)),
      fun name hname => hholds.2 name (h.mem_iff.2 hname)⟩
  obtain ⟨places, hplaces⟩ := exists_targetPlaces_iff.2 hholds
  obtain ⟨places', hplaces'⟩ := exists_targetPlaces_iff.2 hholds'
  have hperm : places.Perm places' := by
    rw [eq_filterMap_of_targetPlaces hplaces, eq_filterMap_of_targetPlaces hplaces']
    exact h.filterMap _
  rw [appendEvent_eq, appendEvent_eq, hplaces, hplaces']
  dsimp only
  rw [linkAt_perm hperm]

/-- An event is refused if the objects that its targets speak of are not all there. -/
theorem exists_appendEvent_eq_error {targets : Targets} (h : ¬d.Holds targets) (summary : Summary)
    (agent : Agent) (context : Context) :
    ∃ error, d.appendEvent summary agent targets context = .error error := by
  rw [appendEvent_eq]
  cases hplaces : d.targetPlaces targets with
  | error error => exact ⟨error, rfl⟩
  | ok places => exact absurd (exists_targetPlaces_iff.1 ⟨places, hplaces⟩) h

/-- **Two lists of the same names mean the same exactly if each name is given equally often.** With
either list an event is refused, or it is recorded under one identifier; the documents are equal
exactly if the lists are the same up to their order. An object is linked as often as its name is
given.

**Proof sketch.** An object is linked once for each mention. Links of one event are equal, so only
their number counts: equal documents have equal numbers, and lists with the same names as often can
be sorted into each other. -/
theorem appendEvent_named_eq_iff (d : Document) (summary : Summary) (agent : Agent)
    (context : Context) {names names' : List String}
    (hsame : ∀ name, name ∈ names ↔ name ∈ names') :
    (∃ error error',
      d.appendEvent summary agent (.named names) context = .error error ∧
      d.appendEvent summary agent (.named names') context = .error error') ∨
    ∃ id d₁ d₂ context',
      d.appendEvent summary agent (.named names) context = .ok (id, d₁, context') ∧
      d.appendEvent summary agent (.named names') context = .ok (id, d₂, context') ∧
      (d₁ = d₂ ↔ names.Perm names') ∧
      (names.Nodup → names'.Nodup → d₁ = d₂) ∧
      d₁.objects = d.objects.mapIdx fun i object =>
        (ObjectRecord.link id)^[(Targets.named names).mentions d.objects i object] object := by
  have hholds : d.Holds (.named names) ↔ d.Holds (.named names') := by
    simp only [Holds, ne_eq, List.eq_nil_iff_forall_not_mem, hsame]
  by_cases hfound : d.Holds (.named names)
  · right
    obtain ⟨places, hplaces⟩ := exists_targetPlaces_iff.2 hfound
    obtain ⟨places', hplaces'⟩ := exists_targetPlaces_iff.2 (hholds.1 hfound)
    obtain ⟨d₁, -, -, hevent, -, -, hobjects, -⟩ :=
      exists_appendEvent_of_places hplaces summary agent context
    obtain ⟨d₂, -, -, hevent', -, -, hobjects', -⟩ :=
      exists_appendEvent_of_places hplaces' summary agent context
    have hperm : d₁ = d₂ ↔ names.Perm names' := by
      constructor
      · -- a listed name has an object, whose new links count how often it is listed
        rintro rfl
        rw [List.perm_iff_count]
        intro name
        by_cases hname : name ∈ names
        · exact count_eq_of_mapIdx_eq (hobjects.symm.trans hobjects') (hfound.2 name hname)
        · rw [List.count_eq_zero_of_not_mem hname,
            List.count_eq_zero_of_not_mem (mt (hsame name).2 hname)]
      · intro hperm
        rw [appendEvent_perm hperm hfound, hevent'] at hevent
        cases hevent
        rfl
    exact ⟨_, d₁, d₂, _, hevent, hevent', hperm,
      fun hnodup hnodup' => hperm.2 ((List.perm_ext_iff_of_nodup hnodup hnodup').2 hsame),
      hobjects⟩
  · obtain ⟨error, hrefused⟩ := exists_appendEvent_eq_error hfound summary agent context
    obtain ⟨error', hrefused'⟩ :=
      exists_appendEvent_eq_error (mt hholds.2 hfound) summary agent context
    exact .inl ⟨error, error', hrefused, hrefused'⟩

/-- The same names in another order, and one of them twice, give another document under the same
identifier. -/
theorem appendEvent_named_checkup :
    (∀ name, name ∈ ["a", ""] ↔ name ∈ ["", "a", "a"]) ∧
    ∃ id d₁ d₂ context',
      sharedDocument.appendEvent checkup (.software "s" "1") (.named ["a", ""]) numberedContext =
        .ok (id, d₁, context') ∧
      sharedDocument.appendEvent checkup (.software "s" "1") (.named ["", "a", "a"])
        numberedContext = .ok (id, d₂, context') ∧
      d₁ ≠ d₂ := by
  have hsame : ∀ name, name ∈ ["a", ""] ↔ name ∈ ["", "a", "a"] := by simp [or_comm]
  refine ⟨hsame, ?_⟩
  rcases appendEvent_named_eq_iff sharedDocument checkup (.software "s" "1") numberedContext hsame
    with ⟨error, -, hrefused, -⟩ | ⟨id, d₁, d₂, context', hevent, hevent', hperm, -⟩
  · cases hrefused
  · exact ⟨id, d₁, d₂, context', hevent, hevent', fun heq => absurd (hperm.1 heq) (by decide)⟩

/-- An object whose name is given twice is linked twice to one event. -/
theorem linkedEvents_of_name_twice :
    (∀ name, name ∈ ["a"] ↔ name ∈ ["a", "a"]) ∧
    (sharedDocument.appendEvent checkup (.software "s" "1") (.named ["a"])
        numberedContext).toOption.map (fun (id, d, _) => (id, d.objects.map (·.linkedEvents))) =
      some (.uuid "event-1", [[.uuid "event-1"], [], []]) ∧
    (sharedDocument.appendEvent checkup (.software "s" "1") (.named ["a", "a"])
        numberedContext).toOption.map (fun (id, d, _) => (id, d.objects.map (·.linkedEvents))) =
      some (.uuid "event-1", [[.uuid "event-1", .uuid "event-1"], [], []]) := by
  refine ⟨by simp, ?_, ?_⟩
  · decide +kernel
  · decide +kernel

end Document

end Accession.Provenance

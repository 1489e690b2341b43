import Accession.Proofs.Provenance.Placement
set_option autoImplicit false

/-!
# Records after a call

What each call does to the records that are read off a document. As long as the records stand in
the order of their kinds, a new record is the last one of its kind, and an event adds its link to
the objects it concerns; all other records stay as they are.

## Main definitions

* `Provenance.Targets.includes` — the original names that targets speak of.
* `Provenance.ObjectRecord.link`, `Provenance.ObjectRecord.Grown` — an object that gained a link, or
  any links.

## Main results

* `Provenance.Document.appendObject_of_new`, `Provenance.Document.appendAgent_of_new` — records
  after a new object or agent.
* `Provenance.Document.appendEvent_of_places` — records after a new event.
* `Provenance.Document.mem_targetPlaces_iff` — which objects an event is linked to.
-/

namespace Accession.Provenance

/-- Whether targets speak of an original name. -/
def Targets.includes (name : String) : Targets → Bool
  | .all => true
  | .named names => names.contains name

/-- Whether all names that targets give are different. -/
def Targets.Distinct : Targets → Prop
  | .all => True
  | .named names => names.Nodup

/-- An object with one more link. -/
def ObjectRecord.link (id : Identifier) (object : ObjectRecord) : ObjectRecord :=
  { object with linkedEvents := object.linkedEvents ++ [id] }

/-- Links do not change what objects are called. -/
theorem ObjectRecord.map_originalName_link (targets : Targets) (id : Identifier)
    (objects : List ObjectRecord) :
    (objects.map fun object =>
        if targets.includes object.originalName then object.link id else object).map
      (·.originalName) = objects.map (·.originalName) := by
  rw [List.map_map]
  refine List.map_congr_left fun object _ => ?_
  rw [Function.comp_apply]
  split <;> rfl

/-- An object to which more events may have been linked. -/
def ObjectRecord.Grown (old new : ObjectRecord) : Prop :=
  ∃ ids, new = { old with linkedEvents := old.linkedEvents ++ ids }

/-- An object is grown from itself. -/
theorem ObjectRecord.Grown.refl (object : ObjectRecord) : object.Grown object :=
  ⟨[], by rw [List.append_nil]⟩

instance : Std.Refl ObjectRecord.Grown :=
  ⟨.refl⟩

/-- What is grown from a grown object is grown from the first. -/
theorem ObjectRecord.Grown.trans {a b c : ObjectRecord} (h : a.Grown b) (h' : b.Grown c) :
    a.Grown c := by
  obtain ⟨ids, rfl⟩ := h
  obtain ⟨ids', rfl⟩ := h'
  exact ⟨ids ++ ids', by rw [List.append_assoc]⟩

/-- An object grows by a link. -/
theorem ObjectRecord.grown_link (object : ObjectRecord) (id : Identifier) :
    object.Grown (object.link id) :=
  ⟨[id], rfl⟩

/-- A grown object keeps its links. -/
theorem ObjectRecord.Grown.mem_linkedEvents {old new : ObjectRecord} (h : old.Grown new)
    {id : Identifier} (hid : id ∈ old.linkedEvents) : id ∈ new.linkedEvents := by
  obtain ⟨ids, rfl⟩ := h
  exact List.mem_append_left _ hid

namespace Document

/-! ### Looking records up -/

/-- The first object with a name is the first record with it. -/
theorem object?_eq_find? (d : Document) (name : String) :
    d.object? name = d.objects.find? (·.originalName = name) := by
  have hnamed : isObjectNamed name = fun n =>
      decide (n.localName = "object" ∧ (readObject n).originalName = name) := by
    funext n
    rw [isObjectNamed, ← Bool.decide_and]
    rfl
  rw [object?, objects, Node.childrenNamed, List.find?_map, List.find?_filter, hnamed]
  simp only [decide_eq_true_eq, Function.comp_apply]

/-- There is a place for a name if there is a record with it. -/
theorem isSome_objectPlace? (d : Document) (name : String) :
    (d.objectPlace? name).isSome ↔ name ∈ d.objects.map (·.originalName) := by
  rw [objectPlace?, List.findIdx?_isSome, List.any_eq_true, objects, List.map_map, List.mem_map]
  simp only [isObjectNamed, Bool.and_eq_true, decide_eq_true_eq, Node.childrenNamed,
    List.mem_filter, and_assoc]
  rfl

/-! ### New objects and agents -/

/-- The records of a document, kind by kind. -/
theorem records_insertRecord {d : Document} (h : Ordered d.root.children) {record : Node}
    {own : String} (hname : record.localName = own) (hown : own ∈ recordOrder) :
    let d' : Document := ⟨insertRecord record d.root⟩
    d'.objects = d.objects ++ (if own = "object" then [readObject record] else []) ∧
      d'.events = d.events ++ (if own = "event" then [readEvent record] else []) ∧
      d'.agents = d.agents ++ (if own = "agent" then [readAgent record] else []) := by
  refine ⟨?_, ?_, ?_⟩
  · rw [objects, childrenNamed_insertRecord h hname hown, List.map_append, apply_ite (List.map _)]
    rfl
  · rw [events, childrenNamed_insertRecord h hname hown, List.map_append, apply_ite (List.map _)]
    rfl
  · rw [agents, childrenNamed_insertRecord h hname hown, List.map_append, apply_ite (List.map _)]
    rfl

/-- **An object with a new name becomes the last object.** -/
theorem appendObject_of_new {d : Document} (h : Ordered d.root.children) {originalName : String}
    (hnew : originalName ∉ d.objects.map (·.originalName)) (id : Identifier) :
    ∃ d', d.appendObject originalName id = (true, d') ∧ Ordered d'.root.children ∧
      d'.objects = d.objects ++ [⟨id, "", originalName, []⟩] ∧
      d'.events = d.events ∧ d'.agents = d.agents := by
  have hplace : ¬(d.objectPlace? originalName).isSome := fun hsome =>
    hnew ((isSome_objectPlace? d originalName).1 hsome)
  have hdeclared : Ordered (declareInstance d.root).children := by
    rwa [children_declareInstance]
  have hnamed (kind : String) :
      (declareInstance d.root).childrenNamed kind = d.root.childrenNamed kind := by
    rw [Node.childrenNamed, children_declareInstance, Node.childrenNamed]
  obtain ⟨hobjects, hevents, hagents⟩ := records_insertRecord (d := ⟨declareInstance d.root⟩)
    hdeclared (localName_objectElement d.root originalName id) (by decide)
  rw [appendObject, if_neg hplace]
  refine ⟨_, rfl, hdeclared.insertRecord _, ?_, ?_, ?_⟩
  · rw [hobjects, if_pos rfl, readObject_objectElement, objects, hnamed, objects]
  · rw [hevents, if_neg (by decide), List.append_nil, events, hnamed, events]
  · rw [hagents, if_neg (by decide), List.append_nil, agents, hnamed, agents]

/-- An object whose name is known is not added. -/
theorem appendObject_of_known {d : Document} {originalName : String}
    (hknown : originalName ∈ d.objects.map (·.originalName)) (id : Identifier) :
    d.appendObject originalName id = (false, d) := by
  rw [appendObject, if_pos ((isSome_objectPlace? d originalName).2 hknown)]

/-- **A new agent becomes the last agent.** -/
theorem appendAgent_of_new {d : Document} (h : Ordered d.root.children) {agent : Agent}
    (hnew : agent ∉ d.agents) :
    ∃ d', d.appendAgent agent = (true, d') ∧ Ordered d'.root.children ∧
      d'.objects = d.objects ∧ d'.events = d.events ∧ d'.agents = d.agents ++ [agent] := by
  obtain ⟨hobjects, hevents, hagents⟩ :=
    records_insertRecord h (localName_agentElement d.root agent) (by decide)
  rw [appendAgent, if_neg (by simpa using hnew)]
  refine ⟨_, rfl, h.insertRecord _, ?_, ?_, ?_⟩
  · rw [hobjects, if_neg (by decide), List.append_nil]
  · rw [hevents, if_neg (by decide), List.append_nil]
  · rw [hagents, if_pos rfl, readAgent_agentElement]

/-- An agent that is known is not added. -/
theorem appendAgent_of_known {d : Document} {agent : Agent} (hknown : agent ∈ d.agents) :
    d.appendAgent agent = (false, d) := by
  rw [appendAgent, if_pos (by simpa using hknown)]

/-- An agent changes neither objects nor events. -/
theorem records_appendAgent {d : Document} (h : Ordered d.root.children) (agent : Agent) :
    (d.appendAgent agent).2.objects = d.objects ∧ (d.appendAgent agent).2.events = d.events := by
  by_cases hknown : agent ∈ d.agents
  · rw [appendAgent_of_known hknown]
    exact ⟨rfl, rfl⟩
  · obtain ⟨d', hadded, -, hobjects, hevents, -⟩ := appendAgent_of_new h hknown
    rw [hadded]
    exact ⟨hobjects, hevents⟩

/-! ### New events -/

/-- Two objects of a document have different names, if all objects do. -/
theorem eq_of_originalNameOf_eq {d : Document} (hnames : (d.objects.map (·.originalName)).Nodup)
    {i j : Nat} {m n : Node} (hm : d.root.children[i]? = some m) (hn : d.root.children[j]? = some n)
    (hmObject : m.localName = "object") (hnObject : n.localName = "object")
    (hname : originalNameOf m = originalNameOf n) : i = j := by
  have hpairs : d.root.children.Pairwise fun a b =>
      a.localName = "object" → b.localName = "object" → originalNameOf a ≠ originalNameOf b := by
    rw [objects, List.map_map, List.Nodup, List.pairwise_map, Node.childrenNamed,
      List.pairwise_filter] at hnames
    simp only [decide_eq_true_eq] at hnames
    exact hnames
  obtain ⟨hi, rfl⟩ := List.getElem?_eq_some_iff.1 hm
  obtain ⟨hj, rfl⟩ := List.getElem?_eq_some_iff.1 hn
  rw [List.pairwise_iff_getElem] at hpairs
  rcases Nat.lt_trichotomy i j with hlt | heq | hlt
  · exact absurd hname (hpairs i j hi hj hlt hmObject hnObject)
  · exact heq
  · exact absurd hname.symm (hpairs j i hj hi hlt hnObject hmObject)

/-- **An event is linked once to each object that its targets speak of**, and to nothing else. -/
theorem mem_targetPlaces_iff {d : Document} (hnames : (d.objects.map (·.originalName)).Nodup)
    {targets : Targets} (htargets : targets.Distinct) {places : List Nat}
    (h : d.targetPlaces targets = .ok places) :
    places.Nodup ∧ ∀ i n, d.root.children[i]? = some n →
      (i ∈ places ↔ n.localName = "object" ∧ targets.includes (originalNameOf n)) := by
  cases targets with
  | all =>
    obtain ⟨places', hplaces', hnodup, hmem⟩ := d.targetPlaces_all
    obtain rfl : places = places' := Except.ok.inj (h.symm.trans hplaces')
    exact ⟨hnodup, fun i n hn => by simp [hmem i n hn, Targets.includes]⟩
  | named names =>
    by_cases hne : names = []
    · subst hne
      cases h
    rw [d.targetPlaces_named hne] at h
    split at h
    · cases h
    · rename_i hnone
      cases h
      refine ⟨htargets.filterMap fun name name' place hplace hplace' => ?_, fun i n hn => ?_⟩
      · obtain ⟨m, hm, -, rfl⟩ := exists_of_objectPlace?_eq_some hplace
        obtain ⟨m', hm', -, rfl⟩ := exists_of_objectPlace?_eq_some hplace'
        rw [Option.some.inj (hm.symm.trans hm')]
      · rw [List.mem_filterMap, Targets.includes, List.contains_iff_mem]
        constructor
        · rintro ⟨name, hmem, hplace⟩
          obtain ⟨m, hm, hobject, rfl⟩ := exists_of_objectPlace?_eq_some hplace
          obtain rfl : m = n := Option.some.inj (hm.symm.trans hn)
          exact ⟨hobject, hmem⟩
        · rintro ⟨hobject, hmem⟩
          refine ⟨originalNameOf n, hmem, ?_⟩
          have hsome := List.find?_eq_none.1 hnone _ hmem
          rw [Option.isNone_iff_eq_none, ← ne_eq, Option.ne_none_iff_exists'] at hsome
          obtain ⟨place, hplace⟩ := hsome
          obtain ⟨m, hm, hmObject, hname⟩ := exists_of_objectPlace?_eq_some hplace
          rw [eq_of_originalNameOf_eq hnames hn hm hobject hmObject hname.symm]
          exact hplace

/-- Links at the places of targets change the objects that the targets speak of. -/
theorem records_linkAt {d : Document} {link : Node} (hlink : isEventLink link)
    {targets : Targets} {places : List Nat} (hnodup : places.Nodup)
    (hplaces : ∀ i n, d.root.children[i]? = some n →
      (i ∈ places ↔ n.localName = "object" ∧ targets.includes (originalNameOf n))) :
    let d' : Document := ⟨{ d.root with children := linkAt link places d.root.children }⟩
    d'.objects = d.objects.map (fun object =>
        if targets.includes object.originalName then object.link (readLink link) else object) ∧
      d'.events = d.events ∧ d'.agents = d.agents := by
  -- links go by places, the claim by names: `concerned` says the same of an element
  let concerned (n : Node) : Bool :=
    n.localName = "object" && targets.includes (originalNameOf n)
  have hmap := linkAt_eq_map link hnodup (p := concerned) fun i n hn => by
    rw [hplaces i n hn, Bool.and_eq_true, decide_eq_true_eq]
  have hlocalName (n : Node) :
      (if concerned n then insertLink link n else n).localName = n.localName := by
    split <;> rfl
  have hnamed (kind : String) :
      (linkAt link places d.root.children).filter (·.localName = kind) =
        (d.root.childrenNamed kind).map fun n => if concerned n then insertLink link n else n := by
    rw [hmap, List.filter_map, Node.childrenNamed]
    refine congrArg _ (List.filter_congr fun n _ => ?_)
    rw [Function.comp_apply, hlocalName]
  have hother {kind : String} (hkind : kind ≠ "object") :
      (linkAt link places d.root.children).filter (·.localName = kind) =
        d.root.childrenNamed kind := by
    rw [hnamed]
    conv_rhs => rw [← List.map_id (d.root.childrenNamed kind)]
    refine List.map_congr_left fun n hn => if_neg ?_
    have hname : n.localName = kind := of_decide_eq_true (List.mem_filter.1 hn).2
    simp [concerned, hname, hkind]
  refine ⟨?_, ?_, ?_⟩
  · rw [objects, objects, Node.childrenNamed, hnamed, List.map_map, List.map_map]
    refine List.map_congr_left fun n hn => ?_
    have hname : n.localName = "object" := of_decide_eq_true (List.mem_filter.1 hn).2
    have hconcerned : concerned n = targets.includes (readObject n).originalName := by
      rw [← Bool.true_and (targets.includes _), ← decide_eq_true hname]
      rfl
    rw [Function.comp_apply, Function.comp_apply, hconcerned]
    split
    · exact readObject_insertLink hlink n
    · rfl
  · rw [events, Node.childrenNamed, hother (by decide), events]
  · rw [agents, Node.childrenNamed, hother (by decide), agents]

/-- **A new event becomes the last event, and the objects it concerns are linked to it.** -/
theorem appendEvent_of_places {d : Document} (h : Ordered d.root.children)
    (hnames : (d.objects.map (·.originalName)).Nodup) {targets : Targets}
    (htargets : targets.Distinct) {places : List Nat}
    (hplaces : d.targetPlaces targets = .ok places) (summary : Summary) (agent : Agent)
    (context : Context) :
    let id := Identifier.uuid (context.ids.item context.ids.taken)
    let time := context.times.item context.times.taken
    ∃ d', d.appendEvent summary agent targets context = .ok (id, d',
        { ids := { context.ids with taken := context.ids.taken + 1 }
          times := { context.times with taken := context.times.taken + 1 } }) ∧
      Ordered d'.root.children ∧
      d'.objects = d.objects.map (fun object =>
        if targets.includes object.originalName then object.link id else object) ∧
      d'.events = d.events ++ [{
        identifier := id
        eventType := summary.eventType
        dateTime := time.render
        detail := summary.detail
        outcome := summary.outcome
        outcomeDetail := summary.outcomeDetail
        linkingAgent := agent.identifier }] ∧
      d'.agents = d.agents := by
  intro id time
  obtain ⟨hnodup, hmem⟩ := mem_targetPlaces_iff hnames htargets hplaces
  have hlink : isEventLink (linkElement d.root id) :=
    decide_eq_true (localName_linkElement d.root id)
  let linked : Document :=
    ⟨{ d.root with children := linkAt (linkElement d.root id) places d.root.children }⟩
  have hordered : Ordered linked.root.children := ordered_linkAt h _ _
  obtain ⟨hobjects, hevents, hagents⟩ := records_linkAt hlink hnodup hmem
  obtain ⟨hobjects', hevents', hagents'⟩ := records_insertRecord (d := linked) hordered
    (localName_eventElement d.root id time summary agent.identifier) (by decide)
  refine ⟨⟨insertRecord (eventElement d.root id time summary agent.identifier) linked.root⟩,
    ?_, hordered.insertRecord _, ?_, ?_, ?_⟩
  · rw [appendEvent_eq, hplaces]
  · rw [hobjects', if_neg (by decide), List.append_nil, hobjects, readLink_linkElement]
  · rw [hevents', if_pos rfl, hevents, readEvent_eventElement]
  · rw [hagents', if_neg (by decide), List.append_nil, hagents]

end Document

end Accession.Provenance

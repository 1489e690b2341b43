import Accession.Proofs.Lists
import Accession.Proofs.Provenance.Chronology
set_option autoImplicit false

/-!
# Once recorded, always recorded

What recording an object or an agent does to a document, whatever that holds: a new record is put
among those of its kind, and all other records stay. A document may have several objects with one
original name, or an agent several times; no call adds to these. Once there is an object with a
name, each of them stays, and gains links at most; recording it again changes nothing.

## Main definitions

* `Provenance.Document.objectsNamed` — the objects with an original name.

## Main results

* `Provenance.Document.exists_appendObject_of_new`, `Provenance.Document.exists_appendAgent_of_new`
  — the records after a new object or agent, in any document.
* `Provenance.Document.objectsNamed_apply`, `Provenance.Document.count_agents_apply` — what one call
  does to the objects with a name, and to an agent.
* `Provenance.Document.stays_recorded_after` — what any calls do to them.
-/

namespace Accession.Provenance.Document

variable {d : Document}

/-! ### New records in any document -/

/-- An object with a name that no other has is put into the document. -/
theorem appendObject_of_unknown {originalName : String}
    (hnew : originalName ∉ d.objects.map (·.originalName)) (id : Identifier) :
    d.appendObject originalName id =
      (true, ⟨insertRecord (objectElement d.root originalName id) (declareInstance d.root)⟩) := by
  rw [appendObject, if_neg (mt (isSome_objectPlace? d originalName).1 hnew)]

/-- An agent that is not there yet is put into the document. -/
theorem appendAgent_of_unknown {agent : Agent} (hnew : agent ∉ d.agents) :
    d.appendAgent agent = (true, ⟨insertRecord (agentElement d.root agent) d.root⟩) := by
  rw [appendAgent, if_neg (by simpa using hnew)]

/-- An agent is new if it is not there. -/
theorem fst_appendAgent (d : Document) (agent : Agent) :
    (d.appendAgent agent).1 = !d.agents.contains agent := by
  rw [appendAgent]
  split <;> simp_all

/-- **A new object is put among the objects**, and nothing else changes. -/
theorem exists_appendObject_of_new {originalName : String}
    (hnew : originalName ∉ d.objects.map (·.originalName)) (id : Identifier) :
    ∃ d' before after, d.appendObject originalName id = (true, d') ∧
      d.objects = before ++ after ∧
      d'.objects = before ++ [⟨id, "", originalName, []⟩] ++ after ∧
      d'.events = d.events ∧ d'.agents = d.agents := by
  let record := objectElement d.root originalName id
  let root := declareInstance d.root
  have hname : record.localName = "object" := localName_objectElement d.root originalName id
  have hnamed (kind : String) : root.childrenNamed kind = d.root.childrenNamed kind := by
    rw [Node.childrenNamed, children_declareInstance, Node.childrenNamed]
  have hother {kind : String} (hkind : "object" ≠ kind) :
      (insertRecord record root).childrenNamed kind = d.root.childrenNamed kind := by
    rw [childrenNamed_insertRecord_of_ne (hname ▸ hkind), hnamed]
  obtain ⟨before, after, hold, hadded⟩ := exists_childrenNamed_insertRecord record root "object"
  rw [hnamed] at hold
  rw [if_pos hname] at hadded
  refine ⟨⟨insertRecord record root⟩, before.map readObject, after.map readObject,
    appendObject_of_unknown hnew id, ?_, ?_, ?_, ?_⟩
  · rw [objects, hold, List.map_append]
  · rw [objects, hadded, List.map_append, List.map_append, List.map_singleton,
      readObject_objectElement]
  · rw [events, hother (by decide), events]
  · rw [agents, hother (by decide), agents]

/-- **A new agent is put among the agents**, and nothing else changes. -/
theorem exists_appendAgent_of_new {agent : Agent} (hnew : agent ∉ d.agents) :
    ∃ d' before after, d.appendAgent agent = (true, d') ∧
      d.agents = before ++ after ∧ d'.agents = before ++ [agent] ++ after ∧
      d'.objects = d.objects ∧ d'.events = d.events := by
  let record := agentElement d.root agent
  have hname : record.localName = "agent" := localName_agentElement d.root agent
  have hother {kind : String} (hkind : "agent" ≠ kind) :
      (insertRecord record d.root).childrenNamed kind = d.root.childrenNamed kind :=
    childrenNamed_insertRecord_of_ne (hname ▸ hkind) d.root
  obtain ⟨before, after, hold, hadded⟩ := exists_childrenNamed_insertRecord record d.root "agent"
  rw [if_pos hname] at hadded
  refine ⟨⟨insertRecord record d.root⟩, before.map readAgent, after.map readAgent,
    appendAgent_of_unknown hnew, ?_, ?_, ?_, ?_⟩
  · rw [agents, hold, List.map_append]
  · rw [agents, hadded, List.map_append, List.map_append, List.map_singleton,
      readAgent_agentElement]
  · rw [objects, hother (by decide), objects]
  · rw [events, hother (by decide), events]

/-- An object changes no agents. -/
theorem agents_appendObject (d : Document) (originalName : String) (id : Identifier) :
    (d.appendObject originalName id).2.agents = d.agents := by
  by_cases hknown : originalName ∈ d.objects.map (·.originalName)
  · rw [appendObject_of_known hknown]
  · obtain ⟨d', before, after, hadded, -, -, -, hagents⟩ := exists_appendObject_of_new hknown id
    rw [hadded, hagents]

/-- An agent changes no objects. -/
theorem objects_appendAgent (d : Document) (agent : Agent) :
    (d.appendAgent agent).2.objects = d.objects := by
  by_cases hknown : agent ∈ d.agents
  · rw [appendAgent_of_known hknown]
  · obtain ⟨d', before, after, hadded, -, -, hobjects, -⟩ := exists_appendAgent_of_new hknown
    rw [hadded, hobjects]

/-- An agent changes no events. -/
theorem events_appendAgent (d : Document) (agent : Agent) :
    (d.appendAgent agent).2.events = d.events := by
  by_cases hknown : agent ∈ d.agents
  · rw [appendAgent_of_known hknown]
  · obtain ⟨d', before, after, hadded, -, -, -, hevents⟩ := exists_appendAgent_of_new hknown
    rw [hadded, hevents]

/-- An event changes no agents. -/
theorem agents_of_appendEvent {summary : Summary} {agent : Agent} {targets : Targets}
    {context context' : Context} {id : Identifier} {d' : Document}
    (h : d.appendEvent summary agent targets context = .ok (id, d', context')) :
    d'.agents = d.agents := by
  cases hplaces : d.targetPlaces targets with
  | error error =>
    rw [appendEvent_eq, hplaces] at h
    cases h
  | ok places =>
    obtain ⟨d'', -, -, hevent, -, -, -, hagents⟩ :=
      exists_appendEvent_of_places hplaces summary agent context
    cases h.symm.trans hevent
    exact hagents

/-- An agent that is recorded is there once more if it was not there, and as often as before
otherwise; other agents are there as often as before. -/
theorem count_agents_appendAgent (d : Document) (agent other : Agent) :
    (d.appendAgent agent).2.agents.count other =
      if other = agent then max 1 (d.agents.count agent) else d.agents.count other := by
  by_cases hknown : agent ∈ d.agents
  · have hpos := List.count_pos_iff.2 hknown
    rw [appendAgent_of_known hknown]
    dsimp only
    split
    · subst other
      omega
    · rfl
  · obtain ⟨d', before, after, hadded, hold, hnew, -⟩ := exists_appendAgent_of_new hknown
    have hzero := List.count_eq_zero_of_not_mem hknown
    rw [hadded, hnew]
    rw [hold] at hzero ⊢
    simp only [List.count_append, List.count_singleton, beq_iff_eq] at hzero ⊢
    by_cases hother : other = agent
    · subst other
      simp
      omega
    · simp [hother, Ne.symm hother]

/-! ### Objects with a name -/

/-- The objects with an original name. -/
def objectsNamed (d : Document) (name : String) : List ObjectRecord :=
  d.objects.filter (·.originalName = name)

/-- The first object with a name is the one that is found. -/
theorem object?_eq_head? (d : Document) (name : String) :
    d.object? name = (d.objectsNamed name).head? := by
  rw [object?_eq_find?, objectsNamed, List.head?_filter]

/-- There are no objects of a name exactly if the name is not among theirs. -/
theorem objectsNamed_eq_nil_iff {name : String} :
    d.objectsNamed name = [] ↔ name ∉ d.objects.map (·.originalName) := by
  simp [objectsNamed, List.filter_eq_nil_iff]

/-- A name is known exactly if an object is found by it. -/
theorem isSome_object?_iff {name : String} :
    (d.object? name).isSome ↔ name ∈ d.objects.map (·.originalName) := by
  rw [object?_eq_head?, List.isSome_head?, ne_eq, objectsNamed_eq_nil_iff, not_not]

/-- An object with a new name is the only one with it. -/
theorem objectsNamed_appendObject_of_new {originalName : String}
    (hnew : originalName ∉ d.objects.map (·.originalName)) (id : Identifier) :
    (d.appendObject originalName id).2.objectsNamed originalName =
      [⟨id, "", originalName, []⟩] := by
  obtain ⟨d', before, after, hadded, hold, hobjects, -⟩ := exists_appendObject_of_new hnew id
  have hnone := objectsNamed_eq_nil_iff.2 hnew
  rw [objectsNamed, hold, List.filter_append, List.append_eq_nil_iff] at hnone
  simp [hadded, objectsNamed, hobjects, List.filter_append, hnone]

/-- Objects with other names stay as they are. -/
theorem objectsNamed_appendObject_of_ne {originalName name : String} (hne : originalName ≠ name)
    (d : Document) (id : Identifier) :
    (d.appendObject originalName id).2.objectsNamed name = d.objectsNamed name := by
  by_cases hknown : originalName ∈ d.objects.map (·.originalName)
  · rw [appendObject_of_known hknown]
  · obtain ⟨d', before, after, hadded, hold, hobjects, -⟩ := exists_appendObject_of_new hknown id
    simp [hadded, objectsNamed, hobjects, hold, hne]

/-- After an object was recorded, one with its name is found: the new one, or one that was there. -/
theorem exists_object?_appendObject (d : Document) (originalName : String) (id : Identifier) :
    ∃ object, (d.appendObject originalName id).2.object? originalName = some object ∧
      ((d.appendObject originalName id).1 = true ∧ object = ⟨id, "", originalName, []⟩ ∨
        d.appendObject originalName id = (false, d)) := by
  by_cases hknown : originalName ∈ d.objects.map (·.originalName)
  · obtain ⟨object, hobject⟩ := Option.isSome_iff_exists.1 (isSome_object?_iff.2 hknown)
    rw [appendObject_of_known hknown]
    exact ⟨object, hobject, .inr rfl⟩
  · obtain ⟨d', -, -, hadded, -⟩ := exists_appendObject_of_new hknown id
    have hnamed := objectsNamed_appendObject_of_new hknown id
    refine ⟨_, ?_, .inl ⟨by rw [hadded], rfl⟩⟩
    rw [object?_eq_head?, hnamed, List.head?_singleton]

/-- Objects that gain links keep their names. -/
theorem forall₂_grown_filter {olds news : List ObjectRecord}
    (h : List.Forall₂ ObjectRecord.Grown olds news) (name : String) :
    List.Forall₂ ObjectRecord.Grown (olds.filter (·.originalName = name))
      (news.filter (·.originalName = name)) := by
  refine List.rel_filter (fun old new hgrown => ?_) h
  obtain ⟨ids, rfl⟩ := hgrown
  exact Iff.rfl

/-- **One call leaves the objects with a name**, but for links that they gain, or it adds the first
one. -/
theorem objectsNamed_apply (d : Document) (change : Change) (name : String) :
    List.Forall₂ ObjectRecord.Grown (d.objectsNamed name) ((d.apply change).objectsNamed name) ∨
      d.objectsNamed name = [] ∧
        ∃ id, (d.apply change).objectsNamed name = [⟨id, "", name, []⟩] := by
  have hsame : List.Forall₂ ObjectRecord.Grown (d.objectsNamed name) (d.objectsNamed name) :=
    List.forall₂_refl _
  cases change with
  | object originalName id =>
    rw [apply]
    by_cases hknown : originalName ∈ d.objects.map (·.originalName)
    · rw [appendObject_of_known hknown]
      exact .inl hsame
    · by_cases hname : originalName = name
      · subst hname
        exact .inr ⟨objectsNamed_eq_nil_iff.2 hknown, id,
          objectsNamed_appendObject_of_new hknown id⟩
      · rw [objectsNamed_appendObject_of_ne hname]
        exact .inl hsame
  | agent agent =>
    rw [apply, objectsNamed, objectsNamed, objects_appendAgent]
    exact .inl hsame
  | event summary agent targets context =>
    rw [apply]
    cases hplaces : d.targetPlaces targets with
    | error error =>
      rw [appendEvent_eq, hplaces]
      exact .inl hsame
    | ok places =>
      obtain ⟨d', -, -, hevent, -, -, hobjects, -⟩ :=
        exists_appendEvent_of_places hplaces summary agent context
      rw [hevent, objectsNamed, objectsNamed, hobjects]
      exact .inl (forall₂_grown_filter (forall₂_grown_mapIdx _ _ _) name)

/-- Objects with a name stay, if there are any. -/
theorem forall₂_objectsNamed_after {name : String} (h : d.objectsNamed name ≠ [])
    (changes : List Change) :
    List.Forall₂ ObjectRecord.Grown (d.objectsNamed name)
      ((d.after changes).objectsNamed name) := by
  induction changes generalizing d with
  | nil => exact List.forall₂_refl _
  | cons change changes ih =>
    rcases objectsNamed_apply d change name with hgrown | ⟨hnone, -⟩
    · have hthere : (d.apply change).objectsNamed name ≠ [] := by
        rwa [← List.length_pos_iff, ← hgrown.length_eq, List.length_pos_iff]
      exact List.forall₂_trans hgrown (ih hthere) fun _ _ _ => ObjectRecord.Grown.trans
    · exact absurd hnone h

/-- The object that is found by a name is found by it later on. -/
theorem exists_object?_after {name : String} {object : ObjectRecord}
    (h : d.object? name = some object) (changes : List Change) :
    ∃ object', (d.after changes).object? name = some object' ∧ object.Grown object' := by
  rw [object?_eq_head?, List.head?_eq_some_iff] at h
  obtain ⟨rest, hnamed⟩ := h
  have hgrown := forall₂_objectsNamed_after (hnamed ▸ List.cons_ne_nil object rest) changes
  rw [hnamed, List.forall₂_cons_left_iff] at hgrown
  obtain ⟨object', rest', hfirst, -, hnow⟩ := hgrown
  rw [object?_eq_head?, hnow]
  exact ⟨object', rfl, hfirst⟩

/-- No calls add an object whose name is there. -/
theorem length_objectsNamed_after_le (d : Document) (changes : List Change) (name : String) :
    ((d.after changes).objectsNamed name).length ≤ max 1 (d.objectsNamed name).length := by
  induction changes generalizing d with
  | nil => exact Nat.le_max_right ..
  | cons change changes ih =>
    have hrest := ih (d.apply change)
    rcases objectsNamed_apply d change name with hgrown | ⟨-, id, hone⟩
    · rwa [← hgrown.length_eq] at hrest
    · rw [hone] at hrest
      exact hrest.trans (Nat.le_max_left ..)

/-! ### Agents -/

/-- **One call leaves an agent as often as it is there**, or adds it if it is not there. -/
theorem count_agents_apply (d : Document) (change : Change) (agent : Agent) :
    (d.apply change).agents.count agent = d.agents.count agent ∨
      d.agents.count agent = 0 ∧ (d.apply change).agents.count agent = 1 := by
  cases change with
  | object originalName id =>
    rw [apply, agents_appendObject]
    exact .inl rfl
  | agent other =>
    rw [apply, count_agents_appendAgent]
    split
    · subst other
      omega
    · exact .inl rfl
  | event summary author targets context =>
    rw [apply]
    cases hevent : d.appendEvent summary author targets context with
    | error error => exact .inl rfl
    | ok recorded =>
      obtain ⟨id, d', context'⟩ := recorded
      exact .inl (congrArg _ (agents_of_appendEvent hevent))

/-- Changes add an agent once at most, and take none away. -/
theorem count_agents_after (d : Document) (changes : List Change) (agent : Agent) :
    (d.after changes).agents.count agent ≤ max 1 (d.agents.count agent) ∧
      d.agents.count agent ≤ (d.after changes).agents.count agent := by
  induction changes generalizing d with
  | nil => exact ⟨Nat.le_max_right .., Nat.le_refl _⟩
  | cons change changes ih =>
    obtain ⟨hmost, hleast⟩ := ih (d.apply change)
    have hafter : d.after (change :: changes) = (d.apply change).after changes := rfl
    rw [hafter]
    have hstep := count_agents_apply d change agent
    omega

/-! ### Any calls -/

/-- **What is recorded once stays recorded**, in any document and through any calls. After an object
was recorded, the first object with its name is found; it is as it was asked for if it is new. It
keeps its identifier, its format and its name through any later calls and only gains links, and to
record it again changes nothing. An agent that was recorded is there, and to record it again changes
nothing. No calls leave more objects with a name, or an agent more often, than there were, unless
there was none.

**Proof sketch.** Whether a name or an agent is there decides whether a call adds one, and no call
takes one away. So a count that has reached one stays, and the first object of a name stays the
first. -/
theorem stays_recorded_after (d : Document) (earlier later : List Change) :
    (∀ originalName id,
      let called := (d.after earlier).appendObject originalName id
      let now := called.2.after later
      ∃ object object', called.2.object? originalName = some object ∧
        (called.1 = true ∧ object = ⟨id, "", originalName, []⟩ ∨
          called = (false, d.after earlier)) ∧
        now.object? originalName = some object' ∧ object.Grown object' ∧
        ∀ id', now.appendObject originalName id' = (false, now)) ∧
    (∀ agent,
      let called := (d.after earlier).appendAgent agent
      let now := called.2.after later
      agent ∈ called.2.agents ∧ agent ∈ now.agents ∧ now.appendAgent agent = (false, now)) ∧
    (∀ name, ((d.after earlier).objectsNamed name).length ≤ max 1 (d.objectsNamed name).length) ∧
    ∀ agent, (d.after earlier).agents.count agent ≤ max 1 (d.agents.count agent) := by
  refine ⟨fun originalName id => ?_, fun agent => ?_, length_objectsNamed_after_le d earlier,
    fun agent => (count_agents_after d earlier agent).1⟩
  · intro called now
    obtain ⟨object, hobject, hcalled⟩ :=
      exists_object?_appendObject (d.after earlier) originalName id
    obtain ⟨object', hobject', hgrown⟩ := exists_object?_after hobject later
    have hknown : originalName ∈ now.objects.map (·.originalName) :=
      isSome_object?_iff.1 (Option.isSome_of_mem hobject')
    exact ⟨object, object', hobject, hcalled, hobject', hgrown, appendObject_of_known hknown⟩
  · intro called now
    have hmem : agent ∈ called.2.agents := by
      rw [← List.count_pos_iff, count_agents_appendAgent, if_pos rfl]
      omega
    have hnow : agent ∈ now.agents := by
      rw [← List.count_pos_iff] at hmem ⊢
      exact hmem.trans_le (count_agents_after called.2 later agent).2
    exact ⟨hmem, hnow, appendAgent_of_known hnow⟩

end Accession.Provenance.Document

import Accession.Proofs.Lists
import Accession.Proofs.Provenance.Linking
set_option autoImplicit false

/-!
# Records in the order of their kinds

If objects, events, agents and rights stand in this order in a document, they still do after any
calls, whatever else stands between them, and the record of a call comes behind all others of its
kind. So the records of each kind are a log that only grows at its end: what was there stays, but
for the links that objects gain behind theirs.

## Main definitions

* `Provenance.Document.Extends` — the records of a document, and behind them those that were added.

## Main results

* `Provenance.Ordered.filter_eq_flatMap` — elements in order are the objects, then the events, then
  the agents, then the rights.
* `Provenance.Document.extends_apply` — what one call adds.
* `Provenance.Document.ordered_and_extends_after` — what any calls add.
-/

namespace Accession.Provenance

/-! ### Elements in order -/

/-- Elements in the order of some kinds are those of the first kind, then those of the second one,
and so on. -/
theorem filter_contains_eq_flatMap {kinds : List String} (hkinds : kinds.Nodup)
    {children : List Node}
    (h : children.Pairwise fun a b =>
      ∀ i ∈ kinds.idxOf? a.localName, ∀ j ∈ kinds.idxOf? b.localName, i ≤ j) :
    children.filter (kinds.contains ·.localName) =
      kinds.flatMap fun kind => children.filter (·.localName = kind) := by
  induction kinds with
  | nil => simp
  | cons kind kinds ih =>
    obtain ⟨hkind, hrest⟩ := List.nodup_cons.1 hkinds
    -- a later kind has one more kind in front of it than it has among the later kinds alone
    have hlater {name : String} {i : Nat} (hi : i ∈ kinds.idxOf? name) :
        i + 1 ∈ (kind :: kinds).idxOf? name := by
      have hname : name ∈ kinds := List.isSome_idxOf?.1 (Option.isSome_of_mem hi)
      have hne : ¬(kind == name) = true := fun heq => hkind (eq_of_beq heq ▸ hname)
      rw [List.idxOf?_cons, if_neg hne, Option.mem_def.1 hi]
      rfl
    rw [List.flatMap_cons, ← ih hrest, ← List.filter_or_eq_append]
    · refine List.filter_congr fun n _ => ?_
      rw [List.contains_cons]
      rfl
    · intro n hfirst hmem
      rw [of_decide_eq_true hfirst] at hmem
      exact hkind (List.contains_iff_mem.1 hmem)
    · refine h.imp fun {a b} hab hmem hfirst => ?_
      obtain ⟨i, hi⟩ := Option.isSome_iff_exists.1
        (List.isSome_idxOf?.2 (List.contains_iff_mem.1 hmem))
      have hzero : 0 ∈ (kind :: kinds).idxOf? b.localName := by
        rw [of_decide_eq_true hfirst, List.idxOf?_cons, if_pos (beq_self_eq_true kind)]
        rfl
      exact Nat.not_succ_le_zero i (hab _ (hlater hi) _ hzero)
    · refine h.imp fun {a b} hab i hi j hj => ?_
      exact Nat.le_of_succ_le_succ (hab _ (hlater hi) _ (hlater hj))

/-- **Records in order are the objects, then the events, then the agents, then the rights.** -/
theorem Ordered.filter_eq_flatMap {children : List Node} (h : Ordered children) :
    children.filter (recordOrder.contains ·.localName) =
      recordOrder.flatMap fun kind => children.filter (·.localName = kind) :=
  filter_contains_eq_flatMap (by decide) (List.pairwise_map.1 h)

/-! ### Elements that gain links -/

section

variable {links : List Node} {old new : Node} {olds news : List Node}

/-- Links change no name. -/
theorem Gains.localName_eq (h : Gains links old new) : new.localName = old.localName := by
  rw [Node.localName, Node.localName, h.name]

/-- Only objects gain links. -/
theorem Gains.eq_of_ne_object (h : Gains links old new) (hkind : old.localName ≠ "object") :
    new = old := by
  obtain ⟨gained, hinserted, -, hobject⟩ := h.children
  obtain rfl : gained = [] := by
    by_contra hne
    exact hkind (hobject hne)
  have hperm := hinserted.perm
  rw [List.append_nil] at hperm
  have hchildren : old.children = new.children :=
    hinserted.sublist.eq_of_length hperm.length_eq.symm
  cases old
  cases new
  cases h.name
  cases h.attributes
  cases h.text
  cases hchildren
  rfl

/-- Links in a row of elements change no name. -/
theorem map_localName_of_forall₂_gains (h : List.Forall₂ (Gains links) olds news) :
    news.map Node.localName = olds.map Node.localName := by
  induction h with
  | nil => rfl
  | cons hgains _ ih => rw [List.map_cons, List.map_cons, hgains.localName_eq, ih]

/-- What gains links is still of its kind. -/
theorem forall₂_gains_filter (h : List.Forall₂ (Gains links) olds news) (kind : String) :
    List.Forall₂ (Gains links) (olds.filter (·.localName = kind))
      (news.filter (·.localName = kind)) := by
  refine List.rel_filter (fun old new hgains => ?_) h
  show decide (old.localName = kind) = true ↔ decide (new.localName = kind) = true
  rw [hgains.localName_eq]

/-- Only objects gain links. -/
theorem eq_of_forall₂_gains (h : List.Forall₂ (Gains links) olds news)
    (hkind : ∀ old ∈ olds, old.localName ≠ "object") : news = olds := by
  induction h with
  | nil => rfl
  | cons hgains _ ih =>
    obtain ⟨hfirst, hrest⟩ := List.forall_mem_cons.1 hkind
    rw [hgains.eq_of_ne_object hfirst, ih hrest]

end

namespace Document

/-! ### What is added to a document -/

/-- `Extends links added old new`: the document `new` has the elements that `old` had of each kind
and behind them those of the elements `added`, up to links among `links` that objects gained behind
theirs. -/
structure Extends (links added : List Node) (old new : Document) : Prop where
  kinds (kind : String) : List.Forall₂ (Gains links)
    (old.root.childrenNamed kind ++ added.filter (·.localName = kind))
    (new.root.childrenNamed kind)
  objects : List.Forall₂ ObjectRecord.Grown
    (old.objects ++ (added.filter (·.localName = "object")).map readObject) new.objects
  events : new.events = old.events ++ (added.filter (·.localName = "event")).map readEvent
  agents : new.agents = old.agents ++ (added.filter (·.localName = "agent")).map readAgent

namespace Extends

variable {links links' added added' : List Node} {a b c : Document}

/-- Events and agents are as they were, since they gain no links. -/
theorem of_kinds
    (hkinds : ∀ kind, List.Forall₂ (Gains links)
      (a.root.childrenNamed kind ++ added.filter (·.localName = kind)) (b.root.childrenNamed kind))
    (hobjects : List.Forall₂ ObjectRecord.Grown
      (a.objects ++ (added.filter (·.localName = "object")).map readObject) b.objects) :
    Extends links added a b := by
  have hsame {kind : String} (hkind : kind ≠ "object") : b.root.childrenNamed kind =
      a.root.childrenNamed kind ++ added.filter (·.localName = kind) := by
    refine eq_of_forall₂_gains (hkinds kind) fun n hn => ?_
    rw [Node.childrenNamed, ← List.filter_append] at hn
    rwa [of_decide_eq_true (List.mem_filter.1 hn).2]
  refine ⟨hkinds, hobjects, ?_, ?_⟩
  · rw [Document.events, hsame (by decide), List.map_append, Document.events]
  · rw [Document.agents, hsame (by decide), List.map_append, Document.agents]

/-- Without a change there is nothing added. -/
theorem refl (d : Document) : Extends [] [] d d := by
  refine .of_kinds (fun kind => ?_) ?_
  · rw [List.filter_nil, List.append_nil]
    exact List.forall₂_refl _
  · rw [List.filter_nil, List.map_nil, List.append_nil]
    exact List.forall₂_refl _

/-- Additions behind additions are additions. -/
theorem trans (h : Extends links added a b) (h' : Extends links' added' b c) :
    Extends (links ++ links') (added ++ added') a c := by
  -- what is added later stands behind all that was there before, and does not gain links until then
  refine .of_kinds (fun kind => ?_) ?_
  · have hkinds := List.rel_append (h.kinds kind)
      (List.forall₂_refl (added'.filter (·.localName = kind)))
    rw [List.filter_append, ← List.append_assoc]
    exact List.forall₂_trans hkinds (h'.kinds kind) fun _ _ _ => Gains.trans
  · have hobjects := List.rel_append h.objects
      (List.forall₂_refl ((added'.filter (·.localName = "object")).map readObject))
    rw [List.filter_append, List.map_append, ← List.append_assoc]
    exact List.forall₂_trans hobjects h'.objects fun _ _ _ => ObjectRecord.Grown.trans

end Extends

/-- A record that is put into a root whose records are in order comes behind those of its kind. -/
theorem extends_insertRecord {d : Document} {links : List Node} {root record : Node} {own : String}
    (h : Ordered root.children) (hgains : List.Forall₂ (Gains links) d.root.children root.children)
    (hobjects : List.Forall₂ ObjectRecord.Grown d.objects (⟨root⟩ : Document).objects)
    (hname : record.localName = own) (hown : own ∈ recordOrder) :
    Ordered (insertRecord record root).children ∧
      Extends links [record] d ⟨insertRecord record root⟩ := by
  have hadded (kind : String) : [record].filter (·.localName = kind) =
      if own = kind then [record] else [] := by
    rw [List.filter_singleton, hname]
    simp
  refine ⟨h.insertRecord record, .of_kinds (fun kind => ?_) ?_⟩
  · rw [hadded, childrenNamed_insertRecord h hname hown]
    exact List.rel_append (forall₂_gains_filter hgains kind) (List.forall₂_refl _)
  · rw [hadded, (records_insertRecord (d := ⟨root⟩) h hname hown).1, apply_ite (List.map _)]
    exact List.rel_append hobjects (List.forall₂_refl _)

/-- Objects stay, but for links that they gain. -/
theorem forall₂_grown_mapIdx (id : Identifier) (count : Nat → ObjectRecord → Nat)
    (objects : List ObjectRecord) :
    List.Forall₂ ObjectRecord.Grown objects
      (objects.mapIdx fun i object => (ObjectRecord.link id)^[count i object] object) := by
  rw [List.forall₂_iff_get]
  refine ⟨by simp, fun i hi hi' => ?_⟩
  rw [List.get_eq_getElem, List.get_eq_getElem, List.getElem_mapIdx]
  exact ⟨_, ObjectRecord.iterate_link id _ _⟩

/-- **What one call adds**: a record that comes behind all others of its kind, or nothing. -/
theorem extends_apply {d : Document} (h : Ordered d.root.children) (change : Change) :
    Ordered (d.apply change).root.children ∧
      Extends (d.newLink? change).toList (d.newRecord? change).toList d (d.apply change) := by
  have hsame : List.Forall₂ (Gains []) d.root.children d.root.children := List.forall₂_refl _
  have hobjects : List.Forall₂ ObjectRecord.Grown d.objects d.objects := List.forall₂_refl _
  cases change with
  | object originalName id =>
    rw [apply, newRecord?, appendObject]
    split
    · exact ⟨h, .refl d⟩
    · have hdeclared : (⟨declareInstance d.root⟩ : Document).objects = d.objects := by
        rw [objects, Node.childrenNamed, children_declareInstance, objects, Node.childrenNamed]
      refine extends_insertRecord ?_ ?_ (hdeclared ▸ hobjects)
        (localName_objectElement d.root originalName id) (by decide)
      · rwa [children_declareInstance]
      · rwa [children_declareInstance]
  | agent agent =>
    rw [apply, newRecord?, appendAgent]
    split
    · exact ⟨h, .refl d⟩
    · exact extends_insertRecord h hsame hobjects (localName_agentElement d.root agent) (by decide)
  | event summary agent targets context =>
    rw [apply, newRecord?, newLink?, appendEvent_eq]
    cases hplaces : d.targetPlaces targets with
    | error error => exact ⟨h, .refl d⟩
    | ok places =>
      let id := Identifier.uuid (context.ids.item context.ids.taken)
      have hlink : isEventLink (linkElement d.root id) :=
        decide_eq_true (localName_linkElement d.root id)
      refine extends_insertRecord (ordered_linkAt h _ _) ?_ ?_ (localName_eventElement ..)
        (by decide)
      · exact forall₂_gains_linkAt _ fun i hi n hn => localName_of_mem_targetPlaces hplaces hi hn
      · rw [objects_linkAt hlink hplaces]
        exact forall₂_grown_mapIdx _ _ _

/-! ### Any calls -/

/-- Any changes keep the order of the records and add theirs behind those that there were. -/
theorem ordered_and_extends_run {d : Document} (h : Ordered d.root.children)
    (changes : List Change) :
    Ordered (d.after changes).root.children ∧
      Extends (made newLink? d changes) (made newRecord? d changes) d (d.after changes) := by
  induction changes generalizing d with
  | nil => exact ⟨h, .refl d⟩
  | cons change changes ih =>
    obtain ⟨hordered, hstep⟩ := extends_apply h change
    obtain ⟨hordered', hrun⟩ := ih hordered
    exact ⟨hordered', hstep.trans hrun⟩

/-- What calls make are objects, events and agents. -/
theorem localName_of_mem_newRecord {d : Document} {change : Change} {n : Node}
    (h : n ∈ d.newRecord? change) : n.localName ∈ ["object", "event", "agent"] := by
  cases change with
  | object originalName id =>
    rw [newRecord?, Option.mem_ite_none_right] at h
    rw [← Option.some.inj h.2, localName_objectElement]
    decide
  | agent agent =>
    rw [newRecord?, Option.mem_ite_none_right] at h
    rw [← Option.some.inj h.2, localName_agentElement]
    decide
  | event summary agent targets context =>
    rw [newRecord?] at h
    split at h
    · rw [← Option.some.inj h, localName_eventElement]
      decide
    · cases h

/-- The elements of a document that was made from nothing are records that calls made. -/
theorem localName_of_mem_after_new {changes : List Change} {n : Node}
    (h : n ∈ (new.after changes).root.children) : n.localName ∈ ["object", "event", "agent"] := by
  obtain ⟨whole, hinserted, hgains⟩ := exists_grown_children new changes
  have hmem := List.mem_map_of_mem (f := Node.localName) h
  rw [map_localName_of_forall₂_gains hgains] at hmem
  obtain ⟨record, hrecord, hname⟩ := List.mem_map.1 hmem
  rw [← hname]
  have hmade : record ∈ made newRecord? new changes := hinserted.perm.subset hrecord
  exact of_mem_made (p := fun n => n.localName ∈ ["object", "event", "agent"])
    (fun d _ change n hn => localName_of_mem_newRecord hn) hmade

/-- A document that was new has its objects first, then its events, then its agents, and nothing
else. -/
theorem children_after_new (changes : List Change) :
    let root := (new.after changes).root
    root.children =
      root.childrenNamed "object" ++ root.childrenNamed "event" ++ root.childrenNamed "agent" := by
  intro root
  have hordered : Ordered root.children := (ordered_and_extends_run (d := new) .nil changes).1
  have hall : root.children.filter (recordOrder.contains ·.localName) = root.children := by
    rw [List.filter_eq_self]
    intro n hn
    exact List.contains_iff_mem.2
      (List.mem_append_left ["rights"] (localName_of_mem_after_new hn))
  have hrights : root.childrenNamed "rights" = [] := by
    rw [Node.childrenNamed, List.filter_eq_nil_iff]
    intro n hn hname
    have hkind := localName_of_mem_after_new hn
    rw [of_decide_eq_true hname] at hkind
    exact absurd hkind (by decide)
  have hkinds := hall.symm.trans hordered.filter_eq_flatMap
  rw [List.append_assoc, ← List.append_nil (root.childrenNamed "agent"), ← hrights,
    ← List.append_nil (root.childrenNamed "rights")]
  exact hkinds

/-- **Any calls keep records in the order of their kinds, and add behind those of each kind.** If
the records of a document are in order, they are after any calls. Later calls leave the records
after earlier ones at the front of their kind, up to links that objects gained, and put the records
that they make behind them in the order of the calls. A document that was made from nothing consists
of its objects, then its events, then its agents.

**Proof sketch.** By induction on the calls. A record is inserted in front of the first one of a
later kind, so it comes behind those of its own, and links change no kind. -/
theorem ordered_and_extends_after {d : Document} (h : Ordered d.root.children)
    (earlier later : List Change) :
    Ordered (d.after (earlier ++ later)).root.children ∧
    Extends (made newLink? (d.after earlier) later) (made newRecord? (d.after earlier) later)
      (d.after earlier) (d.after (earlier ++ later)) ∧
    ∀ changes : List Change, (new.after changes).root.children =
      (new.after changes).root.childrenNamed "object" ++
        (new.after changes).root.childrenNamed "event" ++
        (new.after changes).root.childrenNamed "agent" := by
  have hordered : Ordered (d.after earlier).root.children := (ordered_and_extends_run h earlier).1
  have hafter : d.after (earlier ++ later) = (d.after earlier).after later := List.foldl_append ..
  obtain ⟨hlater, hextends⟩ := ordered_and_extends_run hordered later
  rw [hafter]
  exact ⟨hlater, hextends, children_after_new⟩

/-- A document with other elements between its records. -/
def scatteredText : String :=
  "<premis><note/><object/><note/><event/><note/><rights/></premis>"

/-- What is read from it. -/
def scatteredDocument : Document :=
  let element (name : String) : Node := ⟨name, [], "", []⟩
  ⟨⟨"premis", [], "", ["note", "object", "note", "event", "note", "rights"].map element⟩⟩

/-- An object, an event that concerns both objects, and an agent, in a document with other elements
between its records. -/
theorem ordered_and_extends_scattered :
    let agent : Agent := .software "s" "1"
    let earlier := [Change.object "a" (.uuid "a")]
    let later := [Change.event checkup agent .all numberedContext, Change.agent agent]
    parseText scatteredText = .ok scatteredDocument ∧
    Ordered scatteredDocument.root.children ∧
    Ordered (scatteredDocument.after (earlier ++ later)).root.children ∧
    (scatteredDocument.after (earlier ++ later)).agents = [agent] ∧
    (scatteredDocument.after (earlier ++ later)).root.children.map Node.localName =
      ["note", "object", "note", "object", "event", "note", "event", "agent", "rights"] := by
  intro agent earlier later
  have hordered : Ordered scatteredDocument.root.children := by
    unfold Ordered
    decide
  obtain ⟨hafter, hextends, -⟩ := ordered_and_extends_after hordered earlier later
  refine ⟨Except.eq_ok_of_toOption (by decide +kernel), hordered, hafter, ?_, ?_⟩
  · rw [hextends.agents]
    decide +kernel
  · decide +kernel

end Document

end Accession.Provenance

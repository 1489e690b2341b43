import Accession.Proofs.Provenance.Placement
set_option autoImplicit false

/-!
# Adding to documents

Calls that add to a document put new elements into its root and into objects. Names that can be
written stay so. A text stays where it is, so a document without text beside children remains one
exactly if nothing is ever put into an element that has a text.

## Main definitions

* `Provenance.Change`, `Provenance.Document.after` — calls that change a document, and what becomes
  of it.
* `Provenance.Document.Tidy` — no text stands beside children.
* `Provenance.Document.receivers` — the elements that a call puts something into.

## Main results

* `Provenance.Document.every_wellNamed_after` — names that can be written stay so.
* `Provenance.Document.tidy_apply_iff` — when one call leaves a document tidy.
* `Provenance.Document.tidy_after_iff` — when any calls do.
-/

namespace Accession.Provenance

open Node (Every Unmixed WellNamed)

/-! ### Calls -/

/-- A call that may change a document. -/
inductive Change where
  | object (originalName : String) (id : Identifier)
  | agent (agent : Agent)
  | event (summary : Summary) (agent : Agent) (targets : Targets) (context : Context)

/-! ### One more child -/

/-- An element with one more child is unmixed exactly if it has no text. -/
theorem every_unmixed_of_insert {n n' new : Node} (htext : n'.text = n.text)
    (hchildren : ∀ child, child ∈ n'.children ↔ child = new ∨ child ∈ n.children)
    (hnew : Every Unmixed new) :
    Every Unmixed n' ↔ n.text = "" ∧ Every Unmixed n := by
  constructor
  · intro h
    have hempty : n.text = "" := by
      rw [← htext]
      exact h.self.resolve_right (List.ne_nil_of_mem ((hchildren new).2 (.inl rfl)))
    exact ⟨hempty, .intro (.inl hempty) fun child hchild =>
      h.children ((hchildren child).2 (.inr hchild))⟩
  · rintro ⟨hempty, h⟩
    refine .intro (.inl (htext.trans hempty)) fun child hchild => ?_
    rcases (hchildren child).1 hchild with rfl | hold
    · exact hnew
    · exact h.children hold

/-- A record can be added without a text beside children exactly if the root has no text and nothing
was mixed before. -/
theorem every_unmixed_insertRecord_iff {record root : Node} (hrecord : Every Unmixed record) :
    Every Unmixed (insertRecord record root) ↔ root.text = "" ∧ Every Unmixed root :=
  every_unmixed_of_insert rfl (fun _ => mem_children_insertRecord) hrecord

/-- A link can be added without a text beside children exactly if the object has no text and nothing
was mixed before. -/
theorem every_unmixed_insertLink_iff {link object : Node} (hlink : Every Unmixed link) :
    Every Unmixed (insertLink link object) ↔ object.text = "" ∧ Every Unmixed object :=
  every_unmixed_of_insert rfl (fun _ => mem_children_insertLink) hlink

/-- Links leave the text of an element as it is. -/
theorem text_iterate_insertLink (link object : Node) (count : Nat) :
    ((insertLink link)^[count] object).text = object.text := by
  induction count generalizing object with
  | zero => rfl
  | succ count ih =>
    rw [Function.iterate_succ_apply, ih]
    rfl

/-- An element may gain any number of links, but the first one only if it has no text. -/
theorem every_unmixed_iterate_insertLink_iff {link : Node} (hlink : Every Unmixed link)
    (object : Node) (count : Nat) :
    Every Unmixed ((insertLink link)^[count] object) ↔
      (0 < count → object.text = "") ∧ Every Unmixed object := by
  induction count generalizing object with
  | zero => simp
  | succ count ih =>
    rw [Function.iterate_succ_apply, ih, every_unmixed_insertLink_iff hlink]
    have htext : (insertLink link object).text = object.text := rfl
    rw [htext]
    exact ⟨fun h => ⟨fun _ => h.2.1, h.2.2⟩,
      fun h => ⟨fun _ => h.1 (Nat.succ_pos _), h.1 (Nat.succ_pos _), h.2⟩⟩

namespace Document

/-- What a call makes of a document. A call that fails leaves the document as it is. -/
def apply (d : Document) : Change → Document
  | .object originalName id => (d.appendObject originalName id).2
  | .agent agent => (d.appendAgent agent).2
  | .event summary agent targets context =>
    match d.appendEvent summary agent targets context with
    | .ok (_, d', _) => d'
    | .error _ => d

/-- What becomes of a document after some calls. -/
def after (d : Document) (changes : List Change) : Document :=
  changes.foldl apply d

/-! ### Names -/

/-- The declaration of the namespace of schema instances can be written. -/
theorem wellNamed_declareInstance {root : Node} (h : WellNamed root) :
    WellNamed (declareInstance root) := by
  rw [Document.declareInstance]
  split
  · exact h
  · rename_i hnone
    have hkey : instanceAttribute.1 ∉ root.attributes.map (·.1) := by
      rw [Node.attribute?, List.lookup_isSome_iff] at hnone
      intro hmem
      obtain ⟨a, ha, hkey⟩ := List.mem_map.1 hmem
      exact hnone ⟨a, ha, by simp [hkey]⟩
    refine ⟨h.name_plain, ?_, ?_⟩
    · intro a ha
      rcases List.mem_append.1 ha with ha | ha
      · exact h.keys_plain a ha
      · rw [List.mem_singleton.1 ha]
        decide
    · rw [List.map_append]
      exact h.keys_nodup.append (List.nodup_singleton _) (by simpa using hkey)

/-- A child with names that can be written does not change the other names. -/
theorem every_wellNamed_of_insert {n n' new : Node} (hname : n'.name = n.name)
    (hattributes : n'.attributes = n.attributes)
    (hchildren : ∀ child, child ∈ n'.children → child = new ∨ child ∈ n.children)
    (hnew : Every WellNamed new) (h : Every WellNamed n) : Every WellNamed n' := by
  refine .intro ?_ fun child hchild => ?_
  · obtain ⟨hplain, hkeys, hnodup⟩ := h.self
    exact ⟨hname ▸ hplain, hattributes ▸ hkeys, hattributes ▸ hnodup⟩
  · rcases hchildren child hchild with rfl | hold
    · exact hnew
    · exact h.children hold

/-- A well named record leaves the document well named. -/
theorem every_wellNamed_insertRecord {record root : Node} (hrecord : Every WellNamed record)
    (h : Every WellNamed root) : Every WellNamed (insertRecord record root) :=
  every_wellNamed_of_insert (n := root) rfl rfl (fun _ => mem_children_insertRecord.1) hrecord h

/-- A well named link leaves the object well named. -/
theorem every_wellNamed_insertLink {link object : Node} (hlink : Every WellNamed link)
    (h : Every WellNamed object) : Every WellNamed (insertLink link object) :=
  every_wellNamed_of_insert (n := object) rfl rfl (fun _ => mem_children_insertLink.1) hlink h

/-- Any number of well named links leave the object well named. -/
theorem every_wellNamed_iterate_insertLink {link object : Node} (hlink : Every WellNamed link)
    (h : Every WellNamed object) (count : Nat) :
    Every WellNamed ((insertLink link)^[count] object) := by
  induction count with
  | zero => exact h
  | succ count ih =>
    rw [Function.iterate_succ_apply']
    exact every_wellNamed_insertLink hlink ih

/-- **Names that can be written stay so**, whatever is added. -/
theorem every_wellNamed_apply {d : Document} (h : Every WellNamed d.root) (change : Change) :
    Every WellNamed (d.apply change).root := by
  have hplain := h.self.name_plain
  cases change with
  | object originalName id =>
    rw [apply, appendObject]
    split
    · exact h
    · have hdeclared : Every WellNamed (declareInstance d.root) := by
        refine .intro (wellNamed_declareInstance h.self) ?_
        rw [children_declareInstance]
        exact fun _ => h.children
      exact every_wellNamed_insertRecord
        ((NewElement.object d.root originalName id).every_wellNamed hplain) hdeclared
  | agent agent =>
    rw [apply, appendAgent]
    split
    · exact h
    · exact every_wellNamed_insertRecord
        ((NewElement.agent d.root agent).every_wellNamed hplain) h
  | event summary agent targets context =>
    rw [apply, appendEvent_eq]
    cases d.targetPlaces targets with
    | error error => exact h
    | ok places =>
      have hlink := (NewElement.link d.root
        (Identifier.uuid (context.ids.item context.ids.taken))).every_wellNamed hplain
      refine every_wellNamed_insertRecord
        ((NewElement.event d.root _ _ summary _).every_wellNamed hplain) ?_
      refine .intro ⟨h.self.name_plain, h.self.keys_plain, h.self.keys_nodup⟩ fun child hchild => ?_
      obtain ⟨i, hi⟩ := List.mem_iff_getElem?.1 hchild
      rw [getElem?_linkAt] at hi
      obtain ⟨n, hn, rfl⟩ := Option.map_eq_some_iff.1 hi
      exact every_wellNamed_iterate_insertLink hlink (h.children (List.mem_of_getElem? hn)) _

/-- Any changes leave the document well named. -/
theorem every_wellNamed_after {d : Document} (h : Every WellNamed d.root)
    (changes : List Change) : Every WellNamed (d.after changes).root := by
  induction changes generalizing d with
  | nil => exact h
  | cons change changes ih => exact ih (every_wellNamed_apply h change)

/-! ### Texts -/

/-- The root keeps its name and its text. -/
theorem name_and_text_apply (d : Document) (change : Change) :
    (d.apply change).root.name = d.root.name ∧ (d.apply change).root.text = d.root.text := by
  cases change with
  | object originalName id =>
    rw [apply, appendObject]
    split
    · exact ⟨rfl, rfl⟩
    · exact ⟨name_declareInstance d.root, text_declareInstance d.root⟩
  | agent agent =>
    rw [apply, appendAgent]
    split <;> exact ⟨rfl, rfl⟩
  | event summary agent targets context =>
    rw [apply, appendEvent_eq]
    cases d.targetPlaces targets <;> exact ⟨rfl, rfl⟩

/-- No change renames the root. -/
theorem name_after (d : Document) (changes : List Change) :
    (d.after changes).root.name = d.root.name := by
  induction changes generalizing d with
  | nil => rfl
  | cons change changes ih => exact (ih (d.apply change)).trans (name_and_text_apply d change).1

/-- A child of the root has no text, or it was there and had the same text. -/
theorem text_of_mem_children_apply {d : Document} {change : Change} {n : Node}
    (h : n ∈ (d.apply change).root.children) :
    n.text = "" ∨ ∃ old ∈ d.root.children, old.localName = n.localName ∧ old.text = n.text := by
  have hsame (hold : n ∈ d.root.children) :
      n.text = "" ∨ ∃ old ∈ d.root.children, old.localName = n.localName ∧ old.text = n.text :=
    .inr ⟨n, hold, rfl, rfl⟩
  cases change with
  | object originalName id =>
    rw [apply, appendObject] at h
    split at h
    · exact hsame h
    · rcases mem_children_insertRecord.1 h with rfl | hold
      · exact .inl rfl
      · rw [children_declareInstance] at hold
        exact hsame hold
  | agent agent =>
    rw [apply, appendAgent] at h
    split at h
    · exact hsame h
    · rcases mem_children_insertRecord.1 h with rfl | hold
      · exact .inl rfl
      · exact hsame hold
  | event summary agent targets context =>
    rw [apply, appendEvent_eq] at h
    cases hplaces : d.targetPlaces targets with
    | error error =>
      rw [hplaces] at h
      exact hsame h
    | ok places =>
      rw [hplaces] at h
      rcases mem_children_insertRecord.1 h with rfl | hlinked
      · exact .inl rfl
      · obtain ⟨i, hi⟩ := List.mem_iff_getElem?.1 hlinked
        rw [getElem?_linkAt] at hi
        obtain ⟨old, hold, rfl⟩ := Option.map_eq_some_iff.1 hi
        exact .inr ⟨old, List.mem_of_getElem? hold,
          (localName_iterate_insertLink _ old _).symm, (text_iterate_insertLink _ old _).symm⟩

/-! ### Tidy documents -/

/-- No element has both a text and children. -/
def Tidy (d : Document) : Prop :=
  Every Unmixed d.root

/-- The elements of a document that a call puts something into: the root, unless nothing is to be
added, and the objects that an event concerns. -/
def receivers (d : Document) : Change → List Node
  | .object originalName _ => if (d.objectPlace? originalName).isSome then [] else [d.root]
  | .agent agent => if d.agents.contains agent then [] else [d.root]
  | .event _ _ targets _ =>
    match d.targetPlaces targets with
    | .error _ => []
    | .ok places => d.root :: places.filterMap (d.root.children[·]?)

/-- An element is unmixed all through if it is unmixed and its children are all through. -/
theorem every_unmixed_iff {n : Node} :
    Every Unmixed n ↔ Unmixed n ∧ ∀ child ∈ n.children, Every Unmixed child :=
  ⟨fun h => ⟨h.self, fun _ hchild => h.children hchild⟩, fun h => .intro h.1 h.2⟩

/-- Links leave the children of a root unmixed exactly if none is put into one with a text. -/
theorem every_unmixed_linkAt_iff {link : Node} (hlink : Every Unmixed link) (places : List Nat)
    (children : List Node) :
    (∀ child ∈ linkAt link places children, Every Unmixed child) ↔
      (∀ n ∈ places.filterMap (children[·]?), n.text = "") ∧
        ∀ child ∈ children, Every Unmixed child := by
  have hlinked (i : Nat) (n : Node) (hn : children[i]? = some n) :
      (linkAt link places children)[i]? = some ((insertLink link)^[places.count i] n) := by
    rw [getElem?_linkAt, hn, Option.map_some]
  constructor
  · intro h
    have hold (i : Nat) (n : Node) (hn : children[i]? = some n) :
        (0 < places.count i → n.text = "") ∧ Every Unmixed n := by
      have hmem := List.mem_of_getElem? (hlinked i n hn)
      exact (every_unmixed_iterate_insertLink_iff hlink n _).1 (h _ hmem)
    constructor
    · intro n hn
      obtain ⟨i, hi, hn⟩ := List.mem_filterMap.1 hn
      exact (hold i n hn).1 (List.count_pos_iff.2 hi)
    · intro child hchild
      obtain ⟨i, hi⟩ := List.mem_iff_getElem?.1 hchild
      exact (hold i child hi).2
  · rintro ⟨htext, hchildren⟩ child hchild
    obtain ⟨i, hi⟩ := List.mem_iff_getElem?.1 hchild
    rw [getElem?_linkAt] at hi
    obtain ⟨n, hn, rfl⟩ := Option.map_eq_some_iff.1 hi
    refine (every_unmixed_iterate_insertLink_iff hlink n _).2
      ⟨fun hcount => ?_, hchildren n (List.mem_of_getElem? hn)⟩
    exact htext n (List.mem_filterMap.2 ⟨i, List.count_pos_iff.1 hcount, hn⟩)

/-- **A call leaves a document tidy exactly if it was, and nothing is put into an element that has a
text.** -/
theorem tidy_apply_iff (d : Document) (change : Change) :
    (d.apply change).Tidy ↔ (∀ n ∈ d.receivers change, n.text = "") ∧ d.Tidy := by
  cases change with
  | object originalName id =>
    rw [apply, appendObject, receivers]
    split
    · simp
    · rw [Tidy, every_unmixed_insertRecord_iff (NewElement.object _ _ _).every_unmixed,
        every_unmixed_iff, Unmixed, text_declareInstance, children_declareInstance,
        List.forall_mem_singleton, Tidy, every_unmixed_iff (n := d.root), Unmixed]
  | agent agent =>
    rw [apply, appendAgent, receivers]
    split
    · simp
    · rw [Tidy, every_unmixed_insertRecord_iff (NewElement.agent _ _).every_unmixed,
        List.forall_mem_singleton, Tidy]
  | event summary agent targets context =>
    rw [apply, appendEvent_eq, receivers]
    cases d.targetPlaces targets with
    | error error => simp
    | ok places =>
      have hlinked := every_unmixed_linkAt_iff (NewElement.link d.root
        (Identifier.uuid (context.ids.item context.ids.taken))).every_unmixed places
        d.root.children
      rw [Tidy, every_unmixed_insertRecord_iff (NewElement.event _ _ _ _ _).every_unmixed,
        every_unmixed_iff, List.forall_mem_cons, Tidy, every_unmixed_iff (n := d.root)]
      constructor
      · rintro ⟨htext, -, hchildren⟩
        obtain ⟨htexts, hchildren⟩ := hlinked.1 hchildren
        exact ⟨⟨htext, htexts⟩, .inl htext, hchildren⟩
      · rintro ⟨⟨htext, htexts⟩, -, hchildren⟩
        exact ⟨htext, .inl htext, hlinked.2 ⟨htexts, hchildren⟩⟩

/-- **Any calls leave a document tidy exactly if it was, and no call puts something into an element
that has a text by then.** -/
theorem tidy_after_iff (d : Document) (changes : List Change) :
    (d.after changes).Tidy ↔
      (∀ before change rest, changes = before ++ change :: rest →
        ∀ n ∈ (d.after before).receivers change, n.text = "") ∧ d.Tidy := by
  induction changes generalizing d with
  | nil => simp [after]
  | cons first changes ih =>
    have hafter (changes : List Change) :
        d.after (first :: changes) = (d.apply first).after changes := rfl
    rw [hafter, ih, tidy_apply_iff]
    constructor
    · rintro ⟨hlater, hfirst, htidy⟩
      refine ⟨fun before change rest hsplit => ?_, htidy⟩
      cases before with
      | nil =>
        obtain ⟨rfl, -⟩ := List.cons.inj hsplit
        exact hfirst
      | cons _ before =>
        obtain ⟨rfl, htail⟩ := List.cons.inj hsplit
        rw [hafter]
        exact hlater before change rest htail
    · rintro ⟨hall, htidy⟩
      refine ⟨fun before change rest hsplit => ?_, hall [] first changes rfl, htidy⟩
      rw [← hafter]
      exact hall (first :: before) change rest (by rw [hsplit, List.cons_append])

end Document

end Accession.Provenance

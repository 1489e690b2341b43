import Accession.Proofs.Lists
import Accession.Proofs.Provenance.Adding
import Mathlib.Data.List.Induction
set_option autoImplicit false

/-!
# What a document keeps while it grows

A document may hold anything besides its records, in any order. Whatever is added to it, the
elements that were there stay as they are and where they are among each other. New records come
between them, and an object may gain links to events; nothing else is new, and everything new has
the namespace prefix of the root.

## Main definitions

* `Provenance.Inserted` — elements that were put among others.
* `Provenance.Gains` — an element that is as it was, up to links that an object gained.
* `Provenance.Document.made` — what the calls of a run make.

## Main results

* `Provenance.Document.exists_grown_apply` — what one call leaves as it was.
* `Provenance.Document.exists_grown_after` — what any calls leave as it was.
-/

namespace Accession.Provenance

open Node (Every)

/-! ### Elements among others -/

/-- `Inserted old added all`: the elements `all` are the elements `old` in their order, with the
elements `added` put among them. -/
structure Inserted (old added all : List Node) : Prop where
  sublist : old.Sublist all
  perm : all.Perm (old ++ added)

namespace Inserted

variable {old added added' mid all before after : List Node}

/-- Nothing is put among the elements. -/
theorem refl (old : List Node) : Inserted old [] old :=
  ⟨.refl old, by simp⟩

/-- What is put among elements and then among all of them is put among the first. -/
theorem trans (h : Inserted old added mid) (h' : Inserted mid added' all) :
    Inserted old (added ++ added') all := by
  refine ⟨h.sublist.trans h'.sublist, h'.perm.trans ?_⟩
  rw [← List.append_assoc]
  exact h.perm.append_right added'

/-- Elements that are put at some place. -/
theorem middle (before added after : List Node) :
    Inserted (before ++ after) added (before ++ added ++ after) := by
  refine ⟨(List.sublist_append_left before added).append_right after, ?_⟩
  rw [List.append_assoc, List.append_assoc]
  exact List.perm_append_comm.append_left before

end Inserted

/-! ### Objects that gain links -/

/-- `Gains links old new`: the element `new` is `old` as it was, or `old` is an object and has some
of these links put among its children. -/
structure Gains (links : List Node) (old new : Node) : Prop where
  name : new.name = old.name
  attributes : new.attributes = old.attributes
  text : new.text = old.text
  children : ∃ gained, Inserted old.children gained new.children ∧ gained ⊆ links ∧
    (gained ≠ [] → old.localName = "object")

/-- An element that stays as it is gains nothing. -/
theorem Gains.refl (links : List Node) (n : Node) : Gains links n n :=
  ⟨rfl, rfl, rfl, [], .refl _, List.nil_subset links, nofun⟩

instance (links : List Node) : Std.Refl (Gains links) :=
  ⟨.refl links⟩

/-- What gains links and then more of them gains them all. -/
theorem Gains.trans {links links' : List Node} {a b c : Node} (h : Gains links a b)
    (h' : Gains links' b c) : Gains (links ++ links') a c := by
  obtain ⟨gained, hinserted, hlinks, hobject⟩ := h.children
  obtain ⟨gained', hinserted', hlinks', hobject'⟩ := h'.children
  refine ⟨h'.name.trans h.name, h'.attributes.trans h.attributes, h'.text.trans h.text,
    gained ++ gained', hinserted.trans hinserted', ?_, fun hne => ?_⟩
  · exact List.append_subset.2 ⟨List.subset_append_of_subset_left links' hlinks,
      List.subset_append_of_subset_right links hlinks'⟩
  · by_cases hnil : gained = []
    · have hlocalName : b.localName = a.localName := by
        rw [Node.localName, Node.localName, h.name]
      rw [← hlocalName]
      exact hobject' (by simpa [hnil] using hne)
    · exact hobject hnil

/-- Links that are gained among some are gained among more. -/
theorem Gains.mono {links links' : List Node} (hsub : links ⊆ links') {old new : Node}
    (h : Gains links old new) : Gains links' old new := by
  obtain ⟨gained, hinserted, hlinks, hobject⟩ := h.children
  exact ⟨h.name, h.attributes, h.text, gained, hinserted, List.Subset.trans hlinks hsub, hobject⟩

/-- An object gains the link that is put into it. -/
theorem gains_insertLink (link : Node) {object : Node} (hobject : object.localName = "object") :
    Gains [link] object (insertLink link object) := by
  obtain ⟨before, after, hold, hnew, -⟩ := exists_children_insertLink link object
  refine ⟨rfl, rfl, rfl, [link], ?_, List.Subset.refl _, fun _ => hobject⟩
  have hmiddle := Inserted.middle before [link] after
  rwa [← List.append_cons, ← hold, ← hnew] at hmiddle

/-- An object gains a link however often it is put into it. -/
theorem gains_iterate_insertLink (link : Node) {n : Node} {count : Nat}
    (hobject : 0 < count → n.localName = "object") :
    Gains [link] n ((insertLink link)^[count] n) := by
  induction count with
  | zero => exact .refl _ n
  | succ count ih =>
    have hname := hobject (Nat.succ_pos count)
    have hfirst := ih fun _ => hname
    rw [Function.iterate_succ_apply']
    refine (hfirst.trans (gains_insertLink link ?_)).mono (by simp)
    rw [Document.localName_iterate_insertLink, hname]

/-! ### Everything new has the prefix of the root -/

/-- An element with the namespace prefix of a root. -/
def SharesPrefix (root n : Node) : Prop :=
  n.namespacePrefix? = root.namespacePrefix?

/-- The prefix of a root depends on its name only. -/
theorem sharesPrefix_congr {root root' : Node} (h : root'.name = root.name) :
    SharesPrefix root' = SharesPrefix root := by
  funext n
  rw [SharesPrefix, SharesPrefix, Node.namespacePrefix?, Node.namespacePrefix?, h]
  rfl

/-- A new element has the prefix of the root throughout. -/
theorem NewElement.every_sharesPrefix {root n : Node} (h : NewElement root n) :
    Every (SharesPrefix root) n :=
  h.every (fun _ _ hname => (parts_of_name_eq_qualify hname.2 rfl).2)
    (fun _ _ hname => (parts_of_name_eq_qualify hname.2 rfl).2) fun _ hn => hn

namespace Document

/-! ### What calls make -/

/-- The record that a call makes and puts into a document, if it does. -/
def newRecord? (d : Document) : Change → Option Node
  | .object originalName id =>
    if (d.appendObject originalName id).1 then some (objectElement d.root originalName id) else none
  | .agent agent => if (d.appendAgent agent).1 then some (agentElement d.root agent) else none
  | .event summary agent targets context =>
    match d.appendEvent summary agent targets context with
    | .ok (id, _, _) => some (eventElement d.root id context.now.1 summary agent.identifier)
    | .error _ => none

/-- The link that a call makes for the objects it concerns, if it records an event. -/
def newLink? (d : Document) : Change → Option Node
  | .event summary agent targets context =>
    match d.appendEvent summary agent targets context with
    | .ok (id, _, _) => some (linkElement d.root id)
    | .error _ => none
  | _ => none

/-- The last change comes upon the document as the others leave it. -/
theorem after_append_singleton (d : Document) (changes : List Change) (change : Change) :
    d.after (changes ++ [change]) = (d.after changes).apply change :=
  List.foldl_concat ..

/-- What the calls of a run make, each of them of the document as it is by then. -/
def made (make : Document → Change → Option Node) (d : Document) : List Change → List Node
  | [] => []
  | change :: changes => (make d change).toList ++ made make (d.apply change) changes

/-- What the last change makes comes last. -/
theorem made_append_singleton (make : Document → Change → Option Node) (d : Document)
    (changes : List Change) (change : Change) :
    made make d (changes ++ [change]) =
      made make d changes ++ (make (d.after changes) change).toList := by
  induction changes generalizing d with
  | nil => simp [made, after]
  | cons first changes ih =>
    rw [List.cons_append, made, made, ih, List.append_assoc]
    rfl

/-- Whatever is made of documents with one root name, each time from that name, is made in a run. -/
theorem of_mem_made {make : Document → Change → Option Node} {p : Node → Prop} {d : Document}
    (h : ∀ d' : Document, d'.root.name = d.root.name → ∀ change, ∀ n ∈ make d' change, p n)
    {changes : List Change} {n : Node} (hn : n ∈ made make d changes) : p n := by
  induction changes generalizing d with
  | nil => cases hn
  | cons change changes ih =>
    rw [made, List.mem_append, Option.mem_toList] at hn
    rcases hn with hn | hn
    · exact h d rfl change n hn
    · refine ih (fun d' hname => h d' (hname.trans ?_)) hn
      exact (name_and_text_apply d change).1

/-! ### One call -/

/-- Each element gains as many links as its place is named. -/
theorem linkAt_eq_mapIdx (link : Node) (places : List Nat) (children : List Node) :
    linkAt link places children =
      children.mapIdx fun i n => (insertLink link)^[places.count i] n := by
  refine List.ext_getElem? fun i => ?_
  rw [getElem?_linkAt, List.getElem?_mapIdx]

/-- Links that are put into objects change nothing else. -/
theorem forall₂_gains_linkAt (link : Node) {places : List Nat} {children : List Node}
    (hobjects : ∀ i ∈ places, ∀ n, children[i]? = some n → n.localName = "object") :
    List.Forall₂ (Gains [link]) children (linkAt link places children) := by
  rw [linkAt_eq_mapIdx, List.forall₂_iff_get]
  refine ⟨by simp, fun i hi hi' => ?_⟩
  rw [List.get_eq_getElem, List.get_eq_getElem, List.getElem_mapIdx]
  refine gains_iterate_insertLink link fun hcount => ?_
  exact hobjects i (List.count_pos_iff.1 hcount) _ (List.getElem?_eq_getElem hi)

/-- A record is put somewhere among the elements of a root. -/
theorem exists_children_insertRecord (record root : Node) :
    ∃ before after, root.children = before ++ after ∧
      (insertRecord record root).children = before ++ [record] ++ after := by
  refine ⟨_, _, (List.takeWhile_append_dropWhile (p := (!isLater record.localName ·))).symm, ?_⟩
  rw [children_insertRecord, List.append_cons]

/-- **What one call leaves as it was**: all elements of the root, up to links that objects gained,
with the record that the call makes put among them. -/
theorem exists_grown_apply (d : Document) (change : Change) :
    ∃ before after,
      List.Forall₂ (Gains (d.newLink? change).toList) d.root.children (before ++ after) ∧
      (d.apply change).root.children = before ++ (d.newRecord? change).toList ++ after := by
  have hsame (links : List Node) : List.Forall₂ (Gains links) d.root.children d.root.children :=
    List.forall₂_same.2 fun n _ => .refl links n
  cases change with
  | object originalName id =>
    rw [apply, newRecord?, appendObject]
    split
    · exact ⟨[], d.root.children, hsame _, rfl⟩
    · obtain ⟨before, after, hold, hnew⟩ :=
        exists_children_insertRecord (objectElement d.root originalName id) (declareInstance d.root)
      rw [children_declareInstance] at hold
      exact ⟨before, after, hold ▸ hsame _, hnew⟩
  | agent agent =>
    rw [apply, newRecord?, appendAgent]
    split
    · exact ⟨[], d.root.children, hsame _, rfl⟩
    · obtain ⟨before, after, hold, hnew⟩ :=
        exists_children_insertRecord (agentElement d.root agent) d.root
      exact ⟨before, after, hold ▸ hsame _, hnew⟩
  | event summary agent targets context =>
    rw [apply, newRecord?, newLink?, appendEvent_eq]
    cases hplaces : d.targetPlaces targets with
    | error error => exact ⟨[], d.root.children, hsame _, rfl⟩
    | ok places =>
      let id := Identifier.uuid (context.ids.item context.ids.taken)
      let linked := { d.root with
        children := linkAt (linkElement d.root id) places d.root.children }
      obtain ⟨before, after, hold, hnew⟩ := exists_children_insertRecord
        (eventElement d.root id context.now.1 summary agent.identifier) linked
      have hgains := forall₂_gains_linkAt (linkElement d.root id) fun i hi n hn =>
        localName_of_mem_targetPlaces hplaces hi hn
      refine ⟨before, after, ?_, hnew⟩
      rw [← hold]
      exact hgains

/-- The attributes of the root stay, and the namespace of schema instances may be declared behind
them. -/
theorem attributes_apply (d : Document) (change : Change) :
    (d.apply change).root.attributes = d.root.attributes ∨
      d.root.attribute? instanceAttribute.1 = none ∧
        (d.apply change).root.attributes = d.root.attributes ++ [instanceAttribute] := by
  cases change with
  | object originalName id =>
    rw [apply, appendObject]
    split
    · exact .inl rfl
    · show (declareInstance d.root).attributes = _ ∨ _ ∧ (declareInstance d.root).attributes = _
      rw [declareInstance]
      split
      · exact .inl rfl
      · rename_i hnone
        exact .inr ⟨Option.not_isSome_iff_eq_none.1 hnone, rfl⟩
  | agent agent =>
    rw [apply, appendAgent]
    split <;> exact .inl rfl
  | event summary agent targets context =>
    rw [apply, appendEvent_eq]
    cases d.targetPlaces targets <;> exact .inl rfl

/-- A root that has declared a namespace is not asked to again. -/
theorem attributes_after (d : Document) (changes : List Change) :
    (d.after changes).root.attributes = d.root.attributes ∨
      d.root.attribute? instanceAttribute.1 = none ∧
        (d.after changes).root.attributes = d.root.attributes ++ [instanceAttribute] := by
  induction changes using List.reverseRecOn with
  | nil => exact .inl rfl
  | append_singleton changes change ih =>
    have hstep := attributes_apply (d.after changes) change
    rw [after_append_singleton]
    rcases ih with hsame | ⟨hnone, hdeclared⟩
    · rw [Node.attribute?, hsame] at hstep
      exact hstep
    · refine .inr ⟨hnone, ?_⟩
      rcases hstep with hsame | ⟨hundeclared, -⟩
      · exact hsame.trans hdeclared
      · rw [Node.attribute?, hdeclared, List.lookup_eq_none_iff] at hundeclared
        have hne := hundeclared instanceAttribute (List.mem_append_right _ List.mem_cons_self)
        simp at hne

/-! ### Any calls -/

/-- No change touches the text of the root. -/
theorem text_after (d : Document) (changes : List Change) :
    (d.after changes).root.text = d.root.text := by
  induction changes using List.reverseRecOn with
  | nil => rfl
  | append_singleton changes change ih =>
    rw [after_append_singleton]
    exact (name_and_text_apply (d.after changes) change).2.trans ih

/-- The elements that were there, with the records of all calls among them. -/
theorem exists_grown_children (d : Document) (changes : List Change) :
    ∃ whole, Inserted d.root.children (made newRecord? d changes) whole ∧
      List.Forall₂ (Gains (made newLink? d changes)) whole (d.after changes).root.children := by
  induction changes using List.reverseRecOn with
  | nil => exact ⟨d.root.children, .refl _, List.forall₂_same.2 fun n _ => .refl _ n⟩
  | append_singleton changes change ih =>
    obtain ⟨whole, hinserted, hgains⟩ := ih
    obtain ⟨before, after, hstep, hchildren⟩ := exists_grown_apply (d.after changes) change
    -- the elements between which the new record goes, as they were before they gained links
    have hall := List.forall₂_trans hgains hstep fun _ _ _ => Gains.trans
    let first := whole.take before.length
    let rest := whole.drop before.length
    have hwhole : first ++ rest = whole := List.take_append_drop ..
    let records := ((d.after changes).newRecord? change).toList
    have hrecord := List.forall₂_same.2 fun n (_ : n ∈ records) =>
      Gains.refl (made newLink? d changes ++ ((d.after changes).newLink? change).toList) n
    rw [made_append_singleton, made_append_singleton, after_append_singleton, hchildren]
    refine ⟨first ++ records ++ rest, ?_, ?_⟩
    · rw [← hwhole] at hinserted
      exact hinserted.trans (.middle first _ rest)
    · exact List.rel_append (List.rel_append (List.forall₂_take_append whole before after hall)
        hrecord) (List.forall₂_drop_append whole before after hall)

/-- A record that a call makes has the prefix of the root throughout. -/
theorem every_sharesPrefix_newRecord {d : Document} {change : Change} {n : Node}
    (h : n ∈ d.newRecord? change) : Every (SharesPrefix d.root) n := by
  cases change with
  | object originalName id =>
    rw [newRecord?, Option.mem_ite_none_right] at h
    rw [← Option.some.inj h.2]
    exact (NewElement.object d.root originalName id).every_sharesPrefix
  | agent agent =>
    rw [newRecord?, Option.mem_ite_none_right] at h
    rw [← Option.some.inj h.2]
    exact (NewElement.agent d.root agent).every_sharesPrefix
  | event summary agent targets context =>
    rw [newRecord?] at h
    split at h
    · rw [← Option.some.inj h]
      exact (NewElement.event d.root _ _ summary _).every_sharesPrefix
    · cases h

/-- A link that a call makes is one to an event. -/
theorem exists_linkElement_of_newLink {d : Document} {change : Change} {n : Node}
    (h : n ∈ d.newLink? change) : ∃ id, n = linkElement d.root id := by
  cases change with
  | object | agent => cases h
  | event summary agent targets context =>
    rw [newLink?] at h
    split at h
    · exact ⟨_, (Option.some.inj h).symm⟩
    · cases h

/-- **What any calls leave as it was.** Up to links that objects gained, the root has the elements
that it had, in their order, with the records that the calls made put among them: each record once,
for each call that made one. An object gained no other links than those that calls of the run made.
The name and the text of the root stay, and so do its attributes, up to a declaration of the
namespace of schema instances behind them. All that is new has the prefix of the root.

**Proof sketch.** By induction on the calls. One call inserts its record and then puts its link into
some of the objects; both are put among what is there, and links of earlier and later calls add up.
-/
theorem exists_grown_after (d : Document) (changes : List Change) :
    (∃ whole, Inserted d.root.children (made newRecord? d changes) whole ∧
      List.Forall₂ (Gains (made newLink? d changes)) whole (d.after changes).root.children) ∧
    (d.after changes).root.name = d.root.name ∧
    (d.after changes).root.text = d.root.text ∧
    ((d.after changes).root.attributes = d.root.attributes ∨
      d.root.attribute? instanceAttribute.1 = none ∧
        (d.after changes).root.attributes = d.root.attributes ++ [instanceAttribute]) ∧
    (∀ n ∈ made newRecord? d changes ++ made newLink? d changes, Every (SharesPrefix d.root) n) ∧
    ∀ link ∈ made newLink? d changes, isEventLink link := by
  refine ⟨exists_grown_children d changes, name_after d changes, text_after d changes,
    attributes_after d changes, fun n hn => ?_, fun link hlink => ?_⟩
  · rcases List.mem_append.1 hn with hrecord | hlink
    · refine of_mem_made (fun d' hname change n hn => ?_) hrecord
      rw [← sharesPrefix_congr hname]
      exact every_sharesPrefix_newRecord hn
    · refine of_mem_made (fun d' hname change n hn => ?_) hlink
      obtain ⟨id, rfl⟩ := exists_linkElement_of_newLink hn
      rw [← sharesPrefix_congr hname]
      exact (NewElement.link d'.root id).every_sharesPrefix
  · refine of_mem_made (p := (isEventLink · = true)) (fun d' _ change n hn => ?_) hlink
    obtain ⟨id, rfl⟩ := exists_linkElement_of_newLink hn
    exact decide_eq_true (localName_linkElement d'.root id)

end Document

end Accession.Provenance

import Accession.Proofs.Lists
import Accession.Proofs.Markup.Node
import Accession.Provenance.Document
import Mathlib.Data.List.TakeDrop
set_option autoImplicit false

/-!
# The elements of records

What the elements of new records look like from outside: their local names do not depend on the
prefix of the root, they can be written below any root that can be written, and reading them gives
the record back.

## Main definitions

* `Provenance.NewElement` — what all of them have in common.

## Main results

* `Provenance.localName_leaf`, `Provenance.localName_branch` — the local name is the one asked for.
* `Provenance.NewElement.every` — what holds of all elements of a new one.
* `Provenance.readObject_objectElement`, `Provenance.readAgent_agentElement`,
  `Provenance.readEvent_eventElement`, `Provenance.readLink_linkElement` — reading a new element.
-/

namespace Accession.Provenance

open Markup (PlainName)
open Node (Every Unmixed WellNamed)

/-! ### Qualified names -/

/-- A name is cut at its first colon. -/
theorem splitName_append {before after : List Char} (h : ':' ∉ before) :
    Node.splitName (before ++ ':' :: after) = (before, ':' :: after) := by
  have hrun : ∀ c ∈ before, (c != ':') = true := by
    intro c hc
    rw [bne_iff_ne]
    rintro rfl
    exact h hc
  have hcut := List.takeWhile_dropWhile_append (· != ':') before (':' :: after) hrun (by simp)
  rw [Node.splitName, List.span_eq_takeWhile_dropWhile, hcut.1, hcut.2]

/-- A name without a colon is not cut. -/
theorem splitName_of_not_mem {name : List Char} (h : ':' ∉ name) :
    Node.splitName name = (name, []) := by
  have hrun : ∀ c ∈ name, (c != ':') = true := by
    intro c hc
    rw [bne_iff_ne]
    rintro rfl
    exact h hc
  rw [Node.splitName, List.span_eq_takeWhile_dropWhile, List.takeWhile_eq_self_iff.2 hrun,
    List.dropWhile_eq_nil_iff.2 hrun]

/-- The prefix of a root is what stands before the first colon of its name. -/
theorem eq_of_namespacePrefix? {root : Node} {namespacePrefix : String}
    (h : root.namespacePrefix? = some namespacePrefix) :
    ':' ∉ namespacePrefix.toList ∧ ∃ rest, root.name.toList = namespacePrefix.toList ++ rest := by
  unfold Node.namespacePrefix? at h
  split at h
  · rename_i before first rest hsplit
    obtain rfl := Option.some.inj h
    rw [Node.splitName, List.span_eq_takeWhile_dropWhile] at hsplit
    obtain ⟨hbefore, hafter⟩ := Prod.mk.inj hsplit
    rw [String.toList_ofList]
    refine ⟨fun hmem => ?_, first :: rest, ?_⟩
    · rw [← hbefore] at hmem
      have := List.mem_takeWhile_imp hmem
      simp at this
    · rw [← hbefore, ← hafter, List.takeWhile_append_dropWhile]
  · cases h

/-- The parts of a qualified name are the name that was qualified and the prefix of the root. -/
theorem parts_of_name_eq_qualify {n root : Node} {name : String} (hname : ':' ∉ name.toList)
    (h : n.name = qualify root name) :
    n.localName = name ∧ n.namespacePrefix? = root.namespacePrefix? := by
  rw [qualify] at h
  split at h
  · rename_i namespacePrefix hroot
    have hcut : Node.splitName n.name.toList =
        (namespacePrefix.toList, ':' :: name.toList) := by
      rw [h, String.toList_append, String.toList_append, List.append_assoc]
      exact splitName_append (eq_of_namespacePrefix? hroot).1
    rw [Node.localName, Node.namespacePrefix?, hcut, hroot]
    exact ⟨String.ofList_toList, congrArg some String.ofList_toList⟩
  · rename_i hroot
    have hcut : Node.splitName n.name.toList = (name.toList, []) := by
      rw [h, splitName_of_not_mem hname]
    rw [Node.localName, Node.namespacePrefix?, hcut]
    exact ⟨h, hroot.symm⟩

/-- The local name of a qualified name is the name that was qualified. -/
theorem localName_of_name_eq_qualify {n root : Node} {name : String} (hname : ':' ∉ name.toList)
    (h : n.name = qualify root name) : n.localName = name :=
  (parts_of_name_eq_qualify hname h).1

/-- Below a root with a plain name, qualified names are plain. -/
theorem plainName_qualify {root : Node} (hroot : PlainName root.name.toList) {name : String}
    (hname : PlainName name.toList) : PlainName (qualify root name).toList := by
  rw [qualify]
  split
  · rename_i namespacePrefix hprefix
    obtain ⟨-, rest, hrest⟩ := eq_of_namespacePrefix? hprefix
    rw [String.toList_append, String.toList_append]
    refine ⟨by simp, fun c hc => ?_⟩
    rw [List.append_assoc, List.mem_append, List.mem_append] at hc
    rcases hc with hc | hc | hc
    · exact hroot.2 c (by simp [hrest, hc])
    · obtain rfl : c = ':' := by simpa using hc
      decide
    · exact hname.2 c hc
  · exact hname

/-- An element with a text has the name that it was made with, whatever the prefix of the root. -/
theorem localName_leaf (root : Node) {name : String} (hname : ':' ∉ name.toList) (text : String) :
    (leaf root name text).localName = name :=
  localName_of_name_eq_qualify hname rfl

/-- An element with children has the name that it was made with, whatever the prefix of the root. -/
theorem localName_branch (root : Node) {name : String} (hname : ':' ∉ name.toList)
    (children : List Node) : (branch root name children).localName = name :=
  localName_of_name_eq_qualify hname rfl

/-- A new object is counted among the objects. -/
theorem localName_objectElement (root : Node) (originalName : String) (id : Identifier) :
    (objectElement root originalName id).localName = "object" :=
  localName_of_name_eq_qualify (by decide) rfl

/-- A new event is counted among the events. -/
theorem localName_eventElement (root : Node) (id : Identifier) (time : Instant) (summary : Summary)
    (agent : Identifier) : (eventElement root id time summary agent).localName = "event" :=
  localName_branch root (by decide) _

/-- A new agent is counted among the agents. -/
theorem localName_agentElement (root : Node) (agent : Agent) :
    (agentElement root agent).localName = "agent" :=
  localName_branch root (by decide) _

/-- A new link is counted among the links. -/
theorem localName_linkElement (root : Node) (id : Identifier) :
    (linkElement root id).localName = "linkingEventIdentifier" :=
  localName_branch root (by decide) _

/-! ### New elements -/

/-- A name that can be written and has no prefix of its own. -/
def BareName (name : String) : Prop :=
  PlainName name.toList ∧ ':' ∉ name.toList

instance : DecidablePred BareName := fun _ =>
  inferInstanceAs (Decidable (_ ∧ _))

/-- A bare name stays so with a bare name behind it. -/
theorem BareName.append {name suffix : String} (h : BareName name) (hsuffix : BareName suffix) :
    BareName (name ++ suffix) := by
  rw [BareName, String.toList_append]
  refine ⟨⟨by simp [h.1.1], fun c hc => ?_⟩, ?_⟩
  · exact (List.mem_append.1 hc).elim (h.1.2 c) (hsuffix.1.2 c)
  · exact fun hmem => (List.mem_append.1 hmem).elim h.2 hsuffix.2

/-- The elements that are made below a root: with a bare name behind the prefix of the root, and
either a text or such elements as children. They have no attributes, or the type of a file. -/
inductive NewElement (root : Node) : Node → Prop
  | leaf {name : String} (hname : BareName name) (text : String) :
      NewElement root (leaf root name text)
  | branch {name : String} {children : List Node} (hname : BareName name)
      (hchildren : ∀ child ∈ children, NewElement root child) :
      NewElement root (branch root name children)
  | typed {n : Node} (h : NewElement root n) :
      NewElement root { n with attributes := [("xsi:type", qualify root "file")] }

namespace NewElement

variable {root n : Node}

/-- An element with one new child is new. -/
theorem wrap {name : String} (hname : BareName name) (h : NewElement root n) :
    NewElement root (Provenance.branch root name [n]) :=
  .branch hname (List.forall_mem_singleton.2 h)

/-- An identifier is a new element. -/
theorem identifier (root : Node) {name : String} (hname : BareName name) (id : Identifier) :
    NewElement root (identifierElement root name id) := by
  refine .branch hname ?_
  simp only [List.forall_mem_cons, List.not_mem_nil, false_implies, implies_true, and_true]
  exact ⟨.leaf (hname.append (by decide)) _, .leaf (hname.append (by decide)) _⟩

/-- A link is a new element. -/
theorem link (root : Node) (id : Identifier) : NewElement root (linkElement root id) :=
  identifier root (by decide) id

/-- An agent is a new element. -/
theorem agent (root : Node) (agent : Agent) : NewElement root (agentElement root agent) := by
  refine .branch (by decide) ?_
  simp only [List.forall_mem_cons, List.not_mem_nil, false_implies, implies_true, and_true]
  exact ⟨identifier root (by decide) _, .leaf (by decide) _, .leaf (by decide) _⟩

/-- An event is a new element. -/
theorem event (root : Node) (id : Identifier) (time : Instant) (summary : Summary)
    (agent : Identifier) : NewElement root (eventElement root id time summary agent) := by
  have houtcome : NewElement root (Provenance.branch root "eventOutcomeInformation" [
      Provenance.leaf root "eventOutcome" summary.outcome, Provenance.branch root
        "eventOutcomeDetail"
        [Provenance.leaf root "eventOutcomeDetailNote" summary.outcomeDetail]]) := by
    refine .branch (by decide) ?_
    simp only [List.forall_mem_cons, List.not_mem_nil, false_implies, implies_true, and_true]
    exact ⟨.leaf (by decide) _, wrap (by decide) (.leaf (by decide) _)⟩
  refine .branch (by decide) ?_
  simp only [List.forall_mem_cons, List.not_mem_nil, false_implies, implies_true, and_true]
  exact ⟨identifier root (by decide) _, .leaf (by decide) _, .leaf (by decide) _,
    wrap (by decide) (.leaf (by decide) _), houtcome, identifier root (by decide) _⟩

/-- An object is a new element, with the type of a file. -/
theorem object (root : Node) (originalName : String) (id : Identifier) :
    NewElement root (objectElement root originalName id) := by
  refine .typed (.branch (by decide) ?_)
  simp only [List.forall_mem_cons, List.not_mem_nil, false_implies, implies_true, and_true]
  exact ⟨identifier root (by decide) _,
    wrap (by decide) (wrap (by decide) (wrap (by decide) (.leaf (by decide) _))),
    .leaf (by decide) _⟩

/-- **What holds of all elements of a new one**: a property of elements with a text, of those with
children, and of those that get a type. -/
theorem every {p : Node → Prop} (h : NewElement root n)
    (hleaf : ∀ name text, BareName name → p (Provenance.leaf root name text))
    (hbranch : ∀ name children, BareName name → p (Provenance.branch root name children))
    (htyped : ∀ n, p n → p { n with attributes := [("xsi:type", qualify root "file")] }) :
    Every p n := by
  induction h with
  | leaf hname text => exact .intro (hleaf _ text hname) nofun
  | branch hname _ ih => exact .intro (hbranch _ _ hname) ih
  | typed _ ih => exact .intro (htyped _ ih.self) fun _ hchild => ih.children hchild

/-- No text stands beside children in a new element. -/
theorem every_unmixed (h : NewElement root n) : Every Unmixed n :=
  h.every (fun _ _ _ => .inr rfl) (fun _ _ _ => .inl rfl) fun _ hn => hn

/-- A new element below a root with a plain name can be written. -/
theorem every_wellNamed (h : NewElement root n) (hroot : PlainName root.name.toList) :
    Every WellNamed n := by
  refine h.every (fun name text hname => ?_) (fun name children hname => ?_) fun n hn => ?_
  · exact ⟨plainName_qualify hroot hname.1, nofun, .nil⟩
  · exact ⟨plainName_qualify hroot hname.1, nofun, .nil⟩
  · refine ⟨hn.name_plain, fun a ha => ?_, List.nodup_singleton _⟩
    rw [List.mem_singleton.1 ha]
    exact (by decide : PlainName "xsi:type".toList)

end NewElement

/-! ### New elements are read back as records -/

/-- The text at a path is that of the first child with the first name, further along the path. -/
theorem textAt_cons (n : Node) (name : String) (path : List String) :
    n.textAt (name :: path) =
      match n.child? name with
      | some child => child.textAt path
      | none => "" := by
  rw [Node.textAt, Node.descendant?]
  cases n.child? name <;> rfl

/-- An element with a text says it. -/
theorem textAt_leaf (root : Node) (name text : String) : (leaf root name text).textAt [] = text :=
  rfl

/-- The children of an element decide where a path leads to. -/
theorem child?_eq_find? (n : Node) (name : String) :
    n.child? name = n.children.find? (·.localName = name) :=
  rfl

/-- An element with children has those that it was made with. -/
theorem children_branch (root : Node) (name : String) (children : List Node) :
    (branch root name children).children = children :=
  rfl

/-- A new link says the identifier that it was made for. -/
theorem readLink_linkElement (root : Node) (id : Identifier) :
    readLink (linkElement root id) = id := by
  simp (disch := decide) [readLink, linkElement, identifierElement, textAt_cons, child?_eq_find?,
    List.find?_cons, children_branch, localName_leaf, textAt_leaf]

/-- A new agent says what it was made of. -/
theorem readAgent_agentElement (root : Node) (agent : Agent) :
    readAgent (agentElement root agent) = agent := by
  simp (disch := decide) [readAgent, readIdentifier, agentElement, identifierElement, textAt_cons,
    child?_eq_find?, List.find?_cons, children_branch, localName_leaf, localName_branch,
    textAt_leaf]

/-- A new event says what it was made of. -/
theorem readEvent_eventElement (root : Node) (id : Identifier) (time : Instant)
    (summary : Summary) (agent : Identifier) :
    readEvent (eventElement root id time summary agent) =
      { identifier := id
        eventType := summary.eventType
        dateTime := time.render
        detail := summary.detail
        outcome := summary.outcome
        outcomeDetail := summary.outcomeDetail
        linkingAgent := agent } := by
  simp (disch := decide) [readEvent, readIdentifier, eventElement, identifierElement, textAt_cons,
    child?_eq_find?, List.find?_cons, children_branch, localName_leaf, localName_branch,
    textAt_leaf]

/-- A new object says its name and its identifier, and is linked to no event. -/
theorem readObject_objectElement (root : Node) (originalName : String) (id : Identifier) :
    readObject (objectElement root originalName id) =
      { identifier := id
        formatName := ""
        originalName := originalName
        linkedEvents := [] } := by
  simp (disch := decide) [readObject, readIdentifier, originalNameOf, objectElement,
    identifierElement, textAt_cons, child?_eq_find?, List.find?_cons, children_branch,
    localName_leaf, localName_branch, textAt_leaf, Node.childrenNamed]

end Accession.Provenance

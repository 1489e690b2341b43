import Accession.Markup.Node
import Accession.Proofs.Markup.Content
import Mathlib.Data.List.Forall2
set_option autoImplicit false

/-!
# Element trees are read back from their written form

Writing puts line breaks and blanks between elements, and reading has to drop exactly these. A
tree in which no element has both a text and children is read back as it was, if its names are
plain and no element bears a key twice: its texts and values may be any texts. Where a text stands
beside children, the layout between them is read as more of that text, and what comes back is a
longer text, or none at all if there was nothing but blanks.

## Main definitions

* `Node.Every` — a property of all elements of a tree.
* `Node.WellNamed`, `Node.Unmixed` — an element with names that can be written, and one without
  text beside children; an element that is both is `Node.Regular`.
* `Node.reread` — what is read from the written form of an element.
* `Node.ReadsAs` — characters that are read as one element, wherever they stand.

## Main results

* `Node.readsAs_renderAt` — how the written form of an element is read.
* `Node.parse_render_eq_reread`, `Node.parse_render` — the same of a tree, and of one that is read
  back as it was.
* `Node.reread_eq_self_iff` — a tree is read back as it was only if it is unmixed.
-/

namespace Accession.Node

open Markup (BeforeMarkup Complete Cuts Event Nested PlainName SaysAll WrittenAttribute WrittenTag)
open Utf8 (encode)

/-! ### Properties of all elements -/

/-- A property of an element and of all elements inside it. -/
inductive Every (p : Node → Prop) : Node → Prop
  | intro {n : Node} (self : p n) (children : ∀ child ∈ n.children, Every p child) : Every p n

/-- What holds of all elements holds of the outermost. -/
theorem Every.self {p : Node → Prop} {n : Node} (h : Every p n) : p n := by
  cases h with
  | intro self _ => exact self

/-- What holds of all elements holds of all inside a child. -/
theorem Every.children {p : Node → Prop} {n : Node} (h : Every p n) {child : Node}
    (hchild : child ∈ n.children) : Every p child := by
  cases h with
  | intro _ children => exact children child hchild

/-- What follows from a property of all elements holds of all of them. -/
theorem Every.imp {p q : Node → Prop} (h : ∀ n, p n → q n) {n : Node} (hn : Every p n) :
    Every q n := by
  induction hn with
  | intro self _ ih => exact .intro (h _ self) ih

/-- Two properties hold of all elements together or one by one. -/
theorem every_and_iff {p q : Node → Prop} {n : Node} :
    Every (fun n => p n ∧ q n) n ↔ Every p n ∧ Every q n := by
  refine ⟨fun h => ⟨h.imp fun _ => And.left, h.imp fun _ => And.right⟩, ?_⟩
  rintro ⟨hp, hq⟩
  induction hp with
  | intro self _ ih =>
    exact .intro ⟨self, hq.self⟩ fun child hchild => ih child hchild (hq.children hchild)

/-- Induction over a tree: from the children of an element to the element. -/
theorem induction_on {motive : Node → Prop} (n : Node)
    (step : ∀ n : Node, (∀ child ∈ n.children, motive child) → motive n) : motive n :=
  step n fun child _ => induction_on child step
  termination_by n
  decreasing_by
    rename_i hchild
    have hlt := List.sizeOf_lt_of_mem hchild
    cases n
    simp only [Node.mk.sizeOf_spec] at hlt ⊢
    omega

/-- An element whose tags are read as they were written: its names are plain, and no key comes
twice. -/
structure WellNamed (n : Node) : Prop where
  name_plain : PlainName n.name.toList
  keys_plain : ∀ a ∈ n.attributes, PlainName a.1.toList
  keys_nodup : (n.attributes.map (·.1)).Nodup

/-- No text stands beside children. -/
def Unmixed (n : Node) : Prop :=
  n.text = "" ∨ n.children = []

/-- An element that is read back as it was written. -/
structure Regular (n : Node) : Prop extends WellNamed n where
  unmixed : Unmixed n

/-- An element is regular exactly if it is well named and no text stands beside its children. -/
theorem regular_iff {n : Node} : Regular n ↔ WellNamed n ∧ Unmixed n :=
  ⟨fun h => ⟨h.toWellNamed, h.unmixed⟩, fun h => ⟨h.1, h.2⟩⟩

/-- All elements are regular exactly if all are well named and none is mixed. -/
theorem every_regular_iff {n : Node} :
    Every Regular n ↔ Every WellNamed n ∧ Every Unmixed n := by
  rw [← every_and_iff]
  exact ⟨Every.imp fun _ => regular_iff.1, Every.imp fun _ => regular_iff.2⟩

/-! ### What is read from a written element -/

/-- The layout that is written behind the first of the children of an element inside `depth`
others: in front of each other child, last of all in front of the end tag. -/
def layoutAfter (depth : Nat) (children : List Node) : List Char :=
  (children.flatMap fun _ => newline (depth + 1)) ++ newline depth

/-- Everything that is written besides the children of an element with a text: the text, the layout
in front of the first child, which a text does without, and the layout behind it. -/
def besideChildren (depth : Nat) (text : String) (others : List Node) : List Char :=
  text.toList ++ (if text.isEmpty then newline (depth + 1) else []) ++ layoutAfter depth others

/-- The text that is read from the written form of an element. -/
def rereadText (depth : Nat) (text : String) : List Node → String
  | [] => text
  | _ :: others =>
    if (besideChildren depth text others).all Blank.isBlank then ""
    else String.ofList (besideChildren depth text others)

mutual

/-- The element that is read from the written form of an element inside `depth` others. -/
def reread (depth : Nat) : Node → Node
  | ⟨name, attributes, text, children⟩ =>
    ⟨name, attributes, rereadText depth text children, rereadAll (depth + 1) children⟩
  termination_by structural n => n

/-- The same for the elements of a row. -/
def rereadAll (depth : Nat) : List Node → List Node
  | [] => []
  | n :: ns => reread depth n :: rereadAll depth ns
  termination_by structural ns => ns

end

/-- The elements of a row are read back one by one. -/
theorem rereadAll_eq_map (depth : Nat) (ns : List Node) :
    rereadAll depth ns = ns.map (reread depth) := by
  induction ns with
  | nil => rfl
  | cons n ns ih => rw [rereadAll, ih, List.map_cons]

section

variable (depth : Nat) (n : Node)

/-- The name is read back. -/
@[simp] theorem name_reread : (n.reread depth).name = n.name := by
  cases n; rfl

/-- The attributes are read back. -/
@[simp] theorem attributes_reread : (n.reread depth).attributes = n.attributes := by
  cases n; rfl

/-- The text that is read back depends on the text and on whether there are children. -/
theorem text_reread : (n.reread depth).text = rereadText depth n.text n.children := by
  cases n; rfl

/-- The children are read back one by one, one level further inside. -/
theorem children_reread : (n.reread depth).children = n.children.map (reread (depth + 1)) := by
  obtain ⟨name, attributes, text, children⟩ := n
  exact rereadAll_eq_map (depth + 1) children

end

/-! ### Written tags of elements -/

/-- An attribute as it is written. -/
def writtenAttribute (a : String × String) (h : PlainName a.1.toList) : WrittenAttribute where
  lead := [' ']
  key := a.1.toList
  before := []
  after := []
  quote := '"'
  value := Markup.escape a.2.toList
  lead_ne := Markup.space_ne_nil
  lead_layout := Markup.isLayout_of_mem_space
  key_plain := h
  before_layout := Markup.isLayout_of_mem_nil
  after_layout := Markup.isLayout_of_mem_nil
  quote_eq := .inl rfl
  quote_not_mem := Markup.not_mem_escape (by simp) _

/-- An attribute is written as the renderer writes it. -/
theorem chars_writtenAttribute (a : String × String) (h : PlainName a.1.toList) :
    (writtenAttribute a h).chars = renderAttribute a := by
  simp [writtenAttribute, WrittenAttribute.chars, renderAttribute]

/-- The start tag of an element as it is written. -/
def WellNamed.tag {n : Node} (h : WellNamed n) : WrittenTag where
  name := n.name.toList
  attributes := n.attributes.attach.map fun a => writtenAttribute a.1 (h.keys_plain a.1 a.2)
  trail := []
  name_plain := h.name_plain
  keys_nodup := by
    have hkeys : ((n.attributes.map (·.1)).map String.toList).Nodup :=
      List.Pairwise.map String.toList (fun _ _ hne h => hne (String.toList_inj.1 h)) h.keys_nodup
    rw [List.map_map] at hkeys ⊢
    rw [← List.attach_map_val (l := n.attributes)] at hkeys
    exact hkeys
  trail_layout := Markup.isLayout_of_mem_nil

/-- A start tag is written as the renderer writes it. -/
theorem WellNamed.chars_tag {n : Node} (h : WellNamed n) :
    h.tag.chars = renderStart n.name n.attributes := by
  have hattributes : h.tag.attributes.flatMap (·.chars) = n.attributes.flatMap renderAttribute := by
    simp [tag, List.flatMap_map, chars_writtenAttribute]
  rw [WrittenTag.chars, WrittenTag.afterName, hattributes]
  simp [tag, renderStart]

/-- Attributes are read with the texts that their values spell. -/
theorem readAttributes_eq_ok {written : List WrittenAttribute}
    {attributes : List (String × String)}
    (h : List.Forall₂ (fun (w : WrittenAttribute) a =>
      w.key = a.1.toList ∧ Markup.Spells w.value a.2.toList) written attributes) :
    readAttributes none (written.map (·.raw)) = .ok attributes := by
  induction h with
  | nil => rfl
  | @cons w a written attributes hwa _ ih =>
    have hvalue : Markup.decodeText w.raw.value = .ok a.2 := by
      rw [WrittenAttribute.raw, Markup.decodeText_encode_of_spells hwa.2, String.ofList_toList]
    have hkey : String.ofList (Utf8.decodeLossy w.raw.key) = a.1 := by
      rw [WrittenAttribute.raw, Utf8.decodeLossy_encode, hwa.1, String.ofList_toList]
    rw [List.map_cons, readAttributes, hvalue, hkey, ih]
    rfl

/-- The start tag of an element opens that element. -/
theorem WellNamed.openTag_eq {n : Node} (h : WellNamed n) :
    openTag h.tag.octets = .ok ⟨n.name, n.attributes, "", []⟩ := by
  have hattributes : readAttributes none (h.tag.attributes.map (·.raw)) = .ok n.attributes := by
    have hall : List.Forall₂ (fun (w : WrittenAttribute) a =>
        w.key = a.1.toList ∧ Markup.Spells w.value a.2.toList) h.tag.attributes
        (n.attributes.attach.map (·.1)) := by
      rw [WellNamed.tag, List.forall₂_map_left_iff, List.forall₂_map_right_iff, List.forall₂_same]
      intro a _
      exact ⟨rfl, Markup.spells_escape _⟩
    rw [List.attach_map_subtype_val] at hall
    exact readAttributes_eq_ok hall
  rw [openTag, WrittenTag.attributes_octets, WrittenTag.nameOf_octets]
  dsimp only
  rw [hattributes, Utf8.decodeLossy_encode]
  show Except.ok (Opened.mk (String.ofList n.name.toList) _ _ _) = _
  rw [String.ofList_toList]

/-! ### Reading on -/

/-- Goes on with the events behind one, unless that closed the outermost element. -/
def readOn (fault : Option Markup.Error) (events : List Event) :
    Progress → Except ReadError (Option Node)
  | .reading stack => readEvents fault stack events
  | .finished root => .ok (some root)

/-- Events are read one by one. -/
theorem readEvents_cons {stack : List Opened} {event : Event} {progress : Progress}
    (h : readStep stack event = .ok progress) (fault : Option Markup.Error) (events : List Event) :
    readEvents fault stack (event :: events) = readOn fault events progress := by
  rw [readEvents, h]
  cases progress <;> rfl

/-- Characters that are read as one element by these events, wherever they stand. -/
structure ReadsAs (chars : List Char) (n : Node) (events : List Event) : Prop
    extends Complete chars events where
  reads : ∀ fault stack more,
    readEvents fault stack (events ++ more) = readOn fault more (place n stack)

/-- Characters that are read as children of an open element by these events, and besides as a text
that comes behind its own. -/
structure ReadsInside (chars text : List Char) (children : List Node) (events : List Event) : Prop
    extends BeforeMarkup chars events where
  reads : ∀ fault (o : Opened) stack more,
    readEvents fault (o :: stack) (events ++ more) =
      readEvents fault ({ o with
        text := o.text ++ String.ofList text
        children := children.reverse ++ o.children } :: stack) more

/-- Events that say a text put it behind the text of the open element. -/
theorem readEvents_saysAll {events : List Event} {text : List Char} (h : SaysAll events text)
    (fault : Option Markup.Error) (o : Opened) (stack : List Opened) (more : List Event) :
    readEvents fault (o :: stack) (events ++ more) =
      readEvents fault ({ o with text := o.text ++ String.ofList text } :: stack) more := by
  induction h generalizing o with
  | nil => simp
  | @cons event events text rest hsays _ ih =>
    have hstep : readStep (o :: stack) event =
        .ok (.reading ({ o with text := o.text ++ String.ofList text } :: stack)) := by
      cases hsays with
      | text h =>
        rw [readStep, Markup.decodeText_encode_of_spells h]
        · rfl
        · simp
      | characterData =>
        rw [readStep, Utf8.decodeLossy_encode]
        rfl
    rw [List.cons_append, readEvents_cons hstep, readOn, ih]
    simp [String.append_assoc]

/-- Outside all elements a text is passed over. -/
theorem readEvents_saysAll_outside {events : List Event} {text : List Char}
    (h : SaysAll events text) (fault : Option Markup.Error) (more : List Event) :
    readEvents fault [] (events ++ more) = readEvents fault [] more := by
  induction h with
  | nil => rfl
  | @cons event events text rest hsays _ ih =>
    have hstep : readStep [] event = .ok (.reading []) := by
      cases hsays <;> rfl
    rw [List.cons_append, readEvents_cons hstep, readOn, ih]

/-! ### Layout -/

/-- The layout in front of an element is blank. -/
theorem isBlank_newline (depth : Nat) : (newline depth).all Blank.isBlank := by
  rw [newline, List.all_cons, List.all_replicate]
  simp [Blank.isBlank]

/-- A line break and its indentation, in front of a tag, say themselves. -/
theorem exists_beforeMarkup_newline (depth : Nat) :
    ∃ events, BeforeMarkup (newline depth) events ∧ SaysAll events (newline depth) :=
  Markup.exists_beforeMarkup_run (Markup.spells_self (by simp [newline])) (by simp [newline])

/-! ### Elements -/

/-- A text, an element and what is read behind them are read one after the other. -/
theorem ReadsInside.cons {before text element rest restText : List Char} {child : Node}
    {children : List Node} {first events last : List Event} (hbefore : BeforeMarkup before first)
    (htext : SaysAll first text) (helement : ReadsAs element child events)
    (hrest : ReadsInside rest restText children last) :
    ReadsInside (before ++ (element ++ rest)) (text ++ restText) (child :: children)
      (first ++ (events ++ last)) := by
  refine ⟨hbefore.surround helement.toComplete hrest.toBeforeMarkup, fun fault o stack more => ?_⟩
  rw [List.append_assoc, readEvents_saysAll htext, List.append_assoc, helement.reads, place,
    readOn, Opened.add, hrest.reads, String.ofList_append, String.append_assoc, List.reverse_cons,
    List.append_assoc]
  rfl

section Children

variable {depth : Nat}

/-- Children are read one after the other, with the layout in front of each, up to the layout in
front of the end tag. -/
theorem readsInside_renderChildren {children : List Node}
    (h : ∀ child ∈ children, ∃ events,
      ReadsAs (renderAt (depth + 1) child) (child.reread (depth + 1)) events) :
    ∃ events, ReadsInside (renderChildren (depth + 1) true children ++ newline depth)
      (layoutAfter depth children) (children.map (reread (depth + 1))) events := by
  induction children with
  | nil =>
    obtain ⟨events, hcuts, hsays⟩ := exists_beforeMarkup_newline depth
    exact ⟨events, hcuts, readEvents_saysAll hsays⟩
  | cons child children ih =>
    obtain ⟨blanks, hcuts, hsays⟩ := exists_beforeMarkup_newline (depth + 1)
    obtain ⟨first, hfirst⟩ := h child List.mem_cons_self
    obtain ⟨others, hothers⟩ := ih fun c hc => h c (List.mem_cons_of_mem child hc)
    have hchars : renderChildren (depth + 1) true (child :: children) ++ newline depth =
        newline (depth + 1) ++ (renderAt (depth + 1) child ++
          (renderChildren (depth + 1) true children ++ newline depth)) := by
      simp [renderChildren]
    have hlayout : layoutAfter depth (child :: children) =
        newline (depth + 1) ++ layoutAfter depth children := by
      simp [layoutAfter]
    rw [hchars, hlayout]
    exact ⟨_, .cons hcuts hsays hfirst hothers⟩

/-- What stands between the tags of an element with children is read as its text, the children and
the layout between them. -/
theorem readsInside_content (text : String) {child : Node} {others : List Node}
    (h : ∀ c ∈ child :: others, ∃ events,
      ReadsAs (renderAt (depth + 1) c) (c.reread (depth + 1)) events) :
    ∃ events, ReadsInside (Markup.escape text.toList ++
        (renderChildren (depth + 1) text.isEmpty (child :: others) ++ newline depth))
      (besideChildren depth text others) ((child :: others).map (reread (depth + 1))) events := by
  obtain ⟨first, hfirst⟩ := h child List.mem_cons_self
  obtain ⟨last, hlast⟩ := readsInside_renderChildren fun c hc => h c (List.mem_cons_of_mem child hc)
  by_cases htext : text = ""
  · subst htext
    obtain ⟨blanks, hcuts, hsays⟩ := exists_beforeMarkup_newline (depth + 1)
    have hinside := ReadsInside.cons hcuts hsays hfirst hlast
    refine ⟨blanks ++ (first ++ last), ?_⟩
    simpa [renderChildren, besideChildren, Markup.escape] using hinside
  · obtain ⟨events, hcuts, hsays⟩ := Markup.exists_beforeMarkup_run
      (Markup.spells_escape text.toList) (Markup.not_mem_escape (by simp) _)
    have hinside := ReadsInside.cons hcuts hsays hfirst hlast
    refine ⟨events ++ (first ++ last), ?_⟩
    simpa [renderChildren, besideChildren, htext] using hinside

end Children

/-- A start tag opens the element whose children and text are still to come. -/
theorem WellNamed.readStep_start {n : Node} (h : WellNamed n) (stack : List Opened) :
    readStep stack (.start h.tag.octets) =
      .ok (.reading (⟨n.name, n.attributes, "", []⟩ :: stack)) := by
  rw [readStep, h.openTag_eq]
  rfl

/-- An element without text and children is read from its one tag. -/
theorem WellNamed.readsAs_empty {n : Node} (h : WellNamed n) (htext : n.text = "")
    (hchildren : n.children = []) : ReadsAs h.tag.emptyElement n [.empty h.tag.octets] := by
  refine ⟨h.tag.complete_emptyElement, fun fault stack more => ?_⟩
  have hstep : readStep stack (.empty h.tag.octets) = .ok (place n stack) := by
    rw [readStep, h.openTag_eq]
    obtain ⟨name, attributes, text, children⟩ := n
    subst htext hchildren
    rfl
  rw [List.singleton_append, readEvents_cons hstep]

/-- An element is read from its two tags, as what stands between them makes it. -/
theorem WellNamed.readsAs_element {n m : Node} (h : WellNamed n) {inner : List Char}
    {events : List Event} (hinner : BeforeMarkup inner events)
    (hreads : ∀ fault stack more, ∃ o : Opened,
      readEvents fault (⟨n.name, n.attributes, "", []⟩ :: stack) (events ++ more) =
        readEvents fault (o :: stack) more ∧ o.close = m) :
    ReadsAs (h.tag.element inner []) m
      (.start h.tag.octets :: (events ++ [.close (encode h.tag.name)])) := by
  refine ⟨h.tag.complete_element (by simp) hinner, fun fault stack more => ?_⟩
  obtain ⟨o, hmore, hclose⟩ := hreads fault stack (.close (encode h.tag.name) :: more)
  rw [List.cons_append, readEvents_cons (h.readStep_start stack), readOn, List.append_assoc,
    List.singleton_append, hmore]
  refine readEvents_cons ?_ fault more
  rw [readStep, hclose]

/-- An element without children is read with its text. -/
theorem WellNamed.readsAs_text {n : Node} (h : WellNamed n) (hchildren : n.children = []) :
    ∃ events, ReadsAs (h.tag.element (Markup.escape n.text.toList) []) n events := by
  obtain ⟨events, hcuts, hsays⟩ := Markup.exists_beforeMarkup_run
    (Markup.spells_escape n.text.toList) (Markup.not_mem_escape (by simp) _)
  refine ⟨_, h.readsAs_element hcuts fun fault stack more =>
    ⟨⟨n.name, n.attributes, n.text, []⟩, ?_, ?_⟩⟩
  · rw [readEvents_saysAll hsays, String.empty_append, String.ofList_toList]
  · obtain ⟨name, attributes, text, children⟩ := n
    subst hchildren
    rfl

/-- An element with children is read with them, and with what stands beside them for a text. -/
theorem WellNamed.readsAs_children {n : Node} (h : WellNamed n) {depth : Nat} {inner : List Char}
    {child : Node} {others : List Node} {events : List Event}
    (hchildren : n.children = child :: others)
    (hinner : ReadsInside inner (besideChildren depth n.text others)
      ((child :: others).map (reread (depth + 1))) events) :
    ∃ events', ReadsAs (h.tag.element inner []) (n.reread depth) events' := by
  refine ⟨_, h.readsAs_element hinner.toBeforeMarkup fun fault stack more =>
    ⟨_, hinner.reads fault ⟨n.name, n.attributes, "", []⟩ stack more, ?_⟩⟩
  obtain ⟨name, attributes, text, children⟩ := n
  obtain rfl : children = child :: others := hchildren
  simp only [Opened.close, reread, rereadText, rereadAll_eq_map, List.append_nil,
    List.reverse_reverse, String.empty_append, String.toList_ofList]
  simp

/-! ### Written elements -/

/-- An element with nothing in it is written as one tag. -/
theorem WellNamed.renderAt_of_empty {n : Node} (h : WellNamed n) (htext : n.text = "")
    (hchildren : n.children = []) (depth : Nat) : renderAt depth n = h.tag.emptyElement := by
  rw [WrittenTag.emptyElement, h.chars_tag]
  obtain ⟨name, attributes, text, children⟩ := n
  subst htext hchildren
  rfl

/-- An element without children is written with its text alone between the tags. -/
theorem WellNamed.renderAt_of_text {n : Node} (h : WellNamed n) (htext : n.text ≠ "")
    (hchildren : n.children = []) (depth : Nat) :
    renderAt depth n = h.tag.element (Markup.escape n.text.toList) [] := by
  rw [WrittenTag.element, h.chars_tag, WellNamed.tag]
  obtain ⟨name, attributes, text, children⟩ := n
  subst hchildren
  simp [renderAt, renderChildren, show text ≠ "" from htext]

/-- An element with children is written with its text in front of them, and its end tag on a line of
its own. -/
theorem WellNamed.renderAt_of_children {n : Node} (h : WellNamed n) (hchildren : n.children ≠ [])
    (depth : Nat) :
    renderAt depth n = h.tag.element (Markup.escape n.text.toList ++
      (renderChildren (depth + 1) n.text.isEmpty n.children ++ newline depth)) [] := by
  rw [WrittenTag.element, h.chars_tag, WellNamed.tag]
  obtain ⟨name, attributes, text, children⟩ := n
  simp [renderAt, show children ≠ [] from hchildren]

/-- **How the written form of an element is read.**

**Proof sketch.** By induction over the tree. An element without text and children is one tag; one
with a text has that text as its only event between two tags; and in one with children the reader
goes through the written children and collects the text and the layout besides. -/
theorem readsAs_renderAt {n : Node} (h : Every WellNamed n) (depth : Nat) :
    ∃ events, ReadsAs (renderAt depth n) (n.reread depth) events := by
  induction h generalizing depth with
  | @intro n self _ ih =>
    cases hchildren : n.children with
    | nil =>
      have hreread : n.reread depth = n := by
        obtain ⟨name, attributes, text, children⟩ := n
        obtain rfl : children = [] := hchildren
        rfl
      rw [hreread]
      by_cases htext : n.text = ""
      · rw [self.renderAt_of_empty htext hchildren]
        exact ⟨_, self.readsAs_empty htext hchildren⟩
      · rw [self.renderAt_of_text htext hchildren]
        exact self.readsAs_text hchildren
    | cons child others =>
      have hall : ∀ c ∈ child :: others, ∃ events,
          ReadsAs (renderAt (depth + 1) c) (c.reread (depth + 1)) events := by
        intro c hc
        exact ih c (hchildren ▸ hc) (depth + 1)
      obtain ⟨events, hinner⟩ := readsInside_content n.text hall
      rw [self.renderAt_of_children (by simp [hchildren]), hchildren]
      exact self.readsAs_children hchildren hinner

/-! ### Trees that are read back as they were -/

/-- The layout behind the first child is blank. -/
theorem isBlank_layoutAfter (depth : Nat) (children : List Node) :
    (layoutAfter depth children).all Blank.isBlank := by
  rw [layoutAfter, List.all_append, List.all_flatMap, isBlank_newline]
  simp [isBlank_newline]

/-- Beside children nothing is left of layout alone. -/
theorem rereadText_empty (depth : Nat) (children : List Node) :
    rereadText depth "" children = "" := by
  cases children with
  | nil => rfl
  | cons child others =>
    refine if_pos ?_
    rw [besideChildren, List.all_append, List.all_append, isBlank_layoutAfter]
    simp [isBlank_newline]

/-- A text beside children is read back as a longer one, or not at all. -/
theorem rereadText_ne {depth : Nat} {text : String} (htext : text ≠ "") (child : Node)
    (others : List Node) : rereadText depth text (child :: others) ≠ text := by
  rw [rereadText]
  split
  · exact htext.symm
  · intro heq
    have hlength := congrArg List.length (congrArg String.toList heq)
    have hnewline : 0 < (newline depth).length := Nat.succ_pos _
    rw [String.toList_ofList, besideChildren, layoutAfter] at hlength
    simp only [List.length_append] at hlength
    omega

/-- **A tree is read back as it was exactly if it is unmixed.** -/
theorem reread_eq_self_iff {n : Node} {depth : Nat} :
    n.reread depth = n ↔ Every Unmixed n := by
  induction n using induction_on generalizing depth with
  | step n ih =>
    obtain ⟨name, attributes, text, children⟩ := n
    have hchildren : children.map (reread (depth + 1)) = children ↔
        ∀ child ∈ children, Every Unmixed child := by
      conv_lhs => rhs; rw [← List.map_id children]
      rw [List.map_inj_left]
      exact forall₂_congr fun child hchild => ih child hchild
    have htext : rereadText depth text children = text ↔ text = "" ∨ children = [] := by
      cases children with
      | nil => simp [rereadText]
      | cons child others =>
        by_cases hempty : text = ""
        · simp [hempty, rereadText_empty]
        · simp [hempty, rereadText_ne]
    rw [reread, rereadAll_eq_map, Node.mk.injEq, hchildren, htext]
    simp only [true_and]
    exact ⟨fun h => .intro h.1 h.2, fun h => ⟨h.self, fun child hchild => h.children hchild⟩⟩

/-! ### Trees -/

/-- The declaration in front of a tree is one event. -/
theorem nextEvent_declaration (rest : List UInt8) :
    Markup.nextEvent (encode declaration.toList ++ rest) = .event .aside rest := by
  let content := Markup.octets "xml version=\"1.0\" encoding=\"UTF-8\""
  have hbytes : encode declaration.toList =
      0x3C :: 0x3F :: (content ++ Markup.instructionEnd) := by
    decide +kernel
  have hno : ¬Markup.instructionEnd <:+: content := by decide +kernel
  have hhead : content.head? ≠ some 0x3E := by decide +kernel
  rw [hbytes, List.cons_append, List.cons_append, List.append_assoc]
  exact Markup.nextEvent_instruction hno hhead rest

/-- No mark stands in front of the declaration. -/
theorem dropMark_declaration (rest : List UInt8) :
    Markup.dropMark (encode declaration.toList ++ rest) = encode declaration.toList ++ rest := by
  have hfirst : encode declaration.toList = 0x3C :: (encode declaration.toList).tail := by
    decide +kernel
  rw [hfirst, List.cons_append]
  exact Markup.dropMark_bracket [] _

/-- The octets of a written tree, before which no mark stands. -/
theorem dropMark_encode_render (n : Node) :
    Markup.dropMark (encode n.render.toList) = encode declaration.toList ++
      (encode (newline 0) ++ (encode (renderAt 0 n) ++ encode ['\n'])) := by
  rw [← dropMark_declaration]
  simp [render]

/-- **How the written form of a tree is read.** -/
theorem parse_render_eq_reread {n : Node} (h : Every WellNamed n) :
    parse (encode n.render.toList) = .ok (some (n.reread 0)) := by
  obtain ⟨events, hn⟩ := readsAs_renderAt h 0
  obtain ⟨blanks, hblanks, hsays⟩ := exists_beforeMarkup_newline 0
  have hcuts : Cuts (Markup.dropMark (encode n.render.toList)) (.aside :: (blanks ++ events))
      (encode ['\n']) := by
    rw [dropMark_encode_render]
    exact .cons (nextEvent_declaration _)
      ((hblanks.cuts _ (hn.head _)).append (hn.cuts _))
  have hnested : Nested (.aside :: (blanks ++ events)) :=
    Nested.aside.append (hblanks.nested.append hn.nested)
  rw [parse, Markup.read_eq_of_cuts hcuts hnested]
  dsimp only
  -- what stands in front of the outermost element is passed over
  have haside : readStep [] .aside = .ok (.reading []) := rfl
  rw [List.cons_append, readEvents_cons haside, readOn, List.append_assoc,
    readEvents_saysAll_outside hsays, hn.reads, place, readOn]

/-- **A tree is read back from its written form.** -/
theorem parse_render {n : Node} (h : Every Regular n) :
    parse (encode n.render.toList) = .ok (some n) := by
  obtain ⟨hnames, hunmixed⟩ := every_regular_iff.1 h
  rw [parse_render_eq_reread hnames, reread_eq_self_iff.2 hunmixed]

end Accession.Node

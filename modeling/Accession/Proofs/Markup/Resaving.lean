import Accession.Proofs.Lists
import Accession.Proofs.Markup.Node
import Mathlib.Logic.Function.Iterate
set_option autoImplicit false

/-!
# Trees that are written and read again

Which trees stay what they are when they are written and read, and which are written in lines.

## Main definitions

* `Node.Stripped` — an element without blank text beside its children.
* `Node.lines` — an element as lines, with a line for each tag.

## Main results

* `Node.every_stripped_of_parse` — what a reader leaves.
* `Node.every_unmixed_reread_iff` — a text beside children does not go away.
* `Node.iterate_reread_eq_iff`, `Node.render_iterate_reread_eq_iff` — saves are alike exactly if no
  text stands beside children.
* `Node.renderLine_eq_iff` — when an element is written in these lines.
* `Node.render_eq_iff` — the same of a tree.
-/

/-! ## Writing and reading again

A tree that came out of a reader is written and read again, any number of times. The reader leaves
no blank text beside children, so what stands there is a text that writing cannot keep apart from
the layout around it: the text grows with every save. Without such a text nothing changes, from the
first save on. -/

namespace Accession.Node

open Markup (Event)

/-! ### What a reader leaves -/

/-- No blank text stands beside children. -/
def Stripped (n : Node) : Prop :=
  n.text = "" ∨ n.children = [] ∨ n.text.toList.all Blank.isBlank = false

/-- What holds of a reader that has read some of a text: all complete elements are stripped. -/
def Progress.AllStripped : Progress → Prop
  | .reading stack => ∀ o ∈ stack, ∀ child ∈ o.children, Every Stripped child
  | .finished root => Every Stripped root

/-- The end of an element strips it. -/
theorem every_stripped_close {o : Opened} (h : ∀ child ∈ o.children, Every Stripped child) :
    Every Stripped o.close := by
  refine .intro ?_ fun child hchild => h child (List.mem_reverse.1 hchild)
  rw [Stripped, Opened.close]
  cases hblank : o.text.toList.all Blank.isBlank with
  | true =>
    by_cases hchildren : o.children = []
    · simp [hchildren]
    · simp [hchildren]
  | false =>
    rw [Bool.and_false, if_neg Bool.false_ne_true]
    exact .inr (.inr hblank)

/-- Where an element is put that is stripped, all elements stay stripped. -/
theorem allStripped_place {n : Node} (hn : Every Stripped n) {stack : List Opened}
    (hstack : (Progress.reading stack).AllStripped) : (place n stack).AllStripped := by
  cases stack with
  | nil => exact hn
  | cons parent stack =>
    obtain ⟨hparent, hrest⟩ := List.forall_mem_cons.1 hstack
    exact List.forall_mem_cons.2 ⟨List.forall_mem_cons.2 ⟨hn, hparent⟩, hrest⟩

/-- An element that is opened has no children yet. -/
theorem children_openTag {content : List UInt8} {o : Opened} (h : openTag content = .ok o) :
    o.children = [] := by
  rw [openTag] at h
  cases hattributes : readAttributes (Markup.attributes content).2
    (Markup.attributes content).1 with
  | error error =>
    simp only [hattributes, bind, Except.bind] at h
    cases h
  | ok attributes =>
    simp only [hattributes, bind, Except.bind] at h
    cases h
    rfl

/-- A text changes no element that is closed. -/
theorem allStripped_addText {stack : List Opened} (h : (Progress.reading stack).AllStripped)
    (text : String) : (Progress.reading (addText text stack)).AllStripped := by
  cases stack with
  | nil => exact h
  | cons o stack => exact List.forall_mem_cons.2 (List.forall_mem_cons.1 h)

/-- One event leaves complete elements stripped. -/
theorem allStripped_readStep {stack : List Opened} (h : (Progress.reading stack).AllStripped)
    {event : Event} {progress : Progress} (hstep : readStep stack event = .ok progress) :
    progress.AllStripped := by
  cases event with
  | start content =>
    rw [readStep] at hstep
    cases hopen : openTag content with
    | error error =>
      rw [hopen] at hstep
      cases hstep
    | ok o =>
      rw [hopen] at hstep
      cases hstep
      refine List.forall_mem_cons.2 ⟨?_, h⟩
      rw [children_openTag hopen]
      simp
  | empty content =>
    rw [readStep] at hstep
    cases hopen : openTag content with
    | error error =>
      rw [hopen] at hstep
      cases hstep
    | ok o =>
      rw [hopen] at hstep
      cases hstep
      exact allStripped_place (.intro (.inl rfl) (by simp)) h
  | close name =>
    cases stack with
    | nil =>
      cases hstep
      exact h
    | cons o stack =>
      cases hstep
      obtain ⟨ho, hstack⟩ := List.forall_mem_cons.1 h
      exact allStripped_place (every_stripped_close ho) hstack
  | text bytes =>
    cases stack with
    | nil =>
      cases hstep
      exact h
    | cons o stack =>
      rw [readStep] at hstep
      · cases htext : Markup.decodeText bytes with
        | error error =>
          rw [htext] at hstep
          cases hstep
        | ok text =>
          rw [htext] at hstep
          cases hstep
          exact allStripped_addText h text
      · simp
  | characterData bytes =>
    cases hstep
    exact allStripped_addText h _
  | aside =>
    cases hstep
    exact h

/-- All events together leave the tree stripped. -/
theorem every_stripped_of_readEvents {fault : Option Markup.Error} {events : List Event}
    {stack : List Opened} (h : (Progress.reading stack).AllStripped) {n : Node}
    (hread : readEvents fault stack events = .ok (some n)) : Every Stripped n := by
  induction events generalizing stack with
  | nil =>
    rw [readEvents] at hread
    unfold readEnd at hread
    split at hread
    · cases hread
    · split at hread <;> cases hread
  | cons event events ih =>
    rw [readEvents] at hread
    cases hstep : readStep stack event with
    | error error =>
      rw [hstep] at hread
      cases hread
    | ok progress =>
      have hprogress := allStripped_readStep h hstep
      rw [hstep] at hread
      cases progress with
      | finished root =>
        cases hread
        exact hprogress
      | reading stack => exact ih hprogress hread

/-- **A reader leaves no blank text beside children.** -/
theorem every_stripped_of_parse {bytes : List UInt8} {n : Node}
    (h : parse bytes = .ok (some n)) : Every Stripped n :=
  have hnone : (Progress.reading []).AllStripped := nofun
  every_stripped_of_readEvents hnone h

/-! ### Again and again -/

/-- Reading again changes no name. -/
theorem every_wellNamed_reread {n : Node} (h : Every WellNamed n) (depth : Nat) :
    Every WellNamed (n.reread depth) := by
  induction h generalizing depth with
  | @intro n self _ ih =>
    refine .intro ?_ fun child hchild => ?_
    · refine ⟨?_, ?_, ?_⟩
      · rw [name_reread]
        exact self.name_plain
      · rw [attributes_reread]
        exact self.keys_plain
      · rw [attributes_reread]
        exact self.keys_nodup
    · rw [children_reread] at hchild
      obtain ⟨old, hold, rfl⟩ := List.mem_map.1 hchild
      exact ih old hold (depth + 1)

/-- What is read again is stripped. -/
theorem every_stripped_reread (n : Node) (depth : Nat) : Every Stripped (n.reread depth) := by
  induction n using induction_on generalizing depth with
  | step n ih =>
    refine .intro ?_ fun child hchild => ?_
    · rw [Stripped, text_reread, children_reread]
      cases n.children with
      | nil => exact .inr (.inl rfl)
      | cons child others =>
        rw [rereadText]
        split
        · exact .inl rfl
        · rename_i hblank
          rw [String.toList_ofList]
          exact .inr (.inr (Bool.not_eq_true _ ▸ hblank))
    · rw [children_reread] at hchild
      obtain ⟨old, hold, rfl⟩ := List.mem_map.1 hchild
      exact ih old hold (depth + 1)

/-- A text beside children that is not blank is read again beside them. -/
theorem rereadText_ne_empty {depth : Nat} {text : String}
    (h : text.toList.all Blank.isBlank = false) (child : Node) (others : List Node) :
    rereadText depth text (child :: others) ≠ "" := by
  have hwhole : (besideChildren depth text others).all Blank.isBlank = false := by
    rw [besideChildren, List.all_append, List.all_append, h]
    rfl
  rw [rereadText, hwhole, if_neg Bool.false_ne_true]
  intro heq
  have hnil : besideChildren depth text others = [] := by
    simpa using congrArg String.toList heq
  rw [hnil] at hwhole
  cases hwhole

/-- **A text beside children does not go away**, and none comes up. -/
theorem every_unmixed_reread_iff {n : Node} (h : Every Stripped n) (depth : Nat) :
    Every Unmixed (n.reread depth) ↔ Every Unmixed n := by
  refine ⟨fun hunmixed => ?_, fun hunmixed => by rwa [reread_eq_self_iff.2 hunmixed]⟩
  induction h generalizing depth with
  | @intro n self _ ih =>
    refine .intro ?_ fun child hchild => ?_
    · have hself := hunmixed.self
      rw [Unmixed, text_reread, children_reread, List.map_eq_nil_iff] at hself
      rcases self with htext | hchildren | hblank
      · exact .inl htext
      · exact .inr hchildren
      · cases hchildren : n.children with
        | nil => exact .inr hchildren
        | cons child others =>
          rw [hchildren] at hself
          exact absurd hself
            (not_or.2 ⟨rereadText_ne_empty hblank child others, List.cons_ne_nil _ _⟩)
    · refine ih child hchild (depth + 1) (hunmixed.children ?_)
      rw [children_reread]
      exact List.mem_map_of_mem hchild

/-- The tree that is read after some saves. -/
theorem parse_render_iterate_reread {n : Node} (h : Every WellNamed n) (count : Nat) :
    parse (Utf8.encode ((reread 0)^[count] n).render.toList) =
      .ok (some ((reread 0)^[count + 1] n)) := by
  have hnames : Every WellNamed ((reread 0)^[count] n) := by
    induction count with
    | zero => exact h
    | succ count ih =>
      rw [Function.iterate_succ_apply']
      exact every_wellNamed_reread ih 0
  rw [parse_render_eq_reread hnames, Function.iterate_succ_apply']

/-- However often a stripped element is saved and read, no text stands beside children exactly if
none did at first. -/
theorem every_unmixed_iterate_reread_iff {n : Node} (h : Every Stripped n) (count : Nat) :
    Every Unmixed ((reread 0)^[count] n) ↔ Every Unmixed n := by
  induction count generalizing n with
  | zero => rfl
  | succ count ih =>
    rw [Function.iterate_succ_apply, ih (every_stripped_reread n 0), every_unmixed_reread_iff h]

/-- **A save changes nothing exactly if no text stands beside children.** -/
theorem iterate_reread_eq_iff {n : Node} (h : Every Stripped n) (count : Nat) :
    (reread 0)^[count + 1] n = (reread 0)^[count] n ↔ Every Unmixed n := by
  rw [Function.iterate_succ_apply', reread_eq_self_iff, every_unmixed_iterate_reread_iff h]

/-- **Two saves in a row are alike exactly if no text stands beside children.**

**Proof sketch.** Alike texts are read as the same tree, so if two saves are alike then the next two
trees are. -/
theorem render_iterate_reread_eq_iff {n : Node} (h : Every Stripped n) (hnames : Every WellNamed n)
    (count : Nat) :
    ((reread 0)^[count + 1] n).render = ((reread 0)^[count] n).render ↔ Every Unmixed n := by
  constructor
  · intro hrender
    have hnext := parse_render_iterate_reread hnames (count + 1)
    rw [hrender, parse_render_iterate_reread hnames count] at hnext
    have heq := Option.some.inj (Except.ok.inj hnext)
    exact (iterate_reread_eq_iff h (count + 1)).1 heq.symm
  · intro hunmixed
    rw [(iterate_reread_eq_iff h count).2 hunmixed]

end Accession.Node

/-! ## Indented trees

In an indented text every tag begins a line of its own, behind two blanks for each element around
it. Trees without text beside children are written so, and no others: where a text stands in front
of the first child, writing puts no line break between them, and the text comes out shorter. -/

namespace Accession.Node

mutual

/-- The lines of an element inside `depth` others, each with the line break in front of it. An
element without children has a line, and one with children has a line for each of its tags. -/
def lines (depth : Nat) : Node → List (List Char)
  | ⟨name, attributes, text, children⟩ =>
    let start := newline depth ++ '<' :: renderStart name attributes
    let close := ['<', '/'] ++ name.toList ++ ['>']
    if children.isEmpty then
      [start ++ if text.isEmpty then ['/', '>'] else '>' :: (Markup.escape text.toList ++ close)]
    else
      (start ++ '>' :: Markup.escape text.toList) ::
        (linesOfAll (depth + 1) children ++ [newline depth ++ close])
  termination_by structural n => n

/-- The lines of some elements. -/
def linesOfAll (depth : Nat) : List Node → List (List Char)
  | [] => []
  | n :: ns => lines depth n ++ linesOfAll depth ns
  termination_by structural ns => ns

end

/-- The lines of a row are those of its elements, one behind the other. -/
theorem linesOfAll_eq_flatMap (depth : Nat) (ns : List Node) :
    linesOfAll depth ns = ns.flatMap (lines depth) := by
  induction ns with
  | nil => rfl
  | cons n ns ih => rw [linesOfAll, ih, List.flatMap_cons]

/-- Children that have lines of their own are written one after the other. -/
theorem renderChildren_true_eq_flatMap (depth : Nat) (children : List Node) :
    renderChildren depth true children =
      children.flatMap fun child => newline depth ++ renderAt depth child := by
  induction children with
  | nil => rfl
  | cons child children ih =>
    rw [renderChildren, ih, if_pos rfl, List.flatMap_cons]

/-- The first child has a line of its own if there is no text in front of it. -/
theorem renderChildren_cons (depth : Nat) (fresh : Bool) (child : Node) (children : List Node) :
    renderChildren depth fresh (child :: children) =
      (if fresh then newline depth else []) ++ (renderAt depth child ++
        children.flatMap fun child => newline depth ++ renderAt depth child) := by
  rw [renderChildren, renderChildren_true_eq_flatMap, List.append_assoc]

/-- An element with the line break in front of it. -/
def renderLine (depth : Nat) (n : Node) : List Char :=
  newline depth ++ renderAt depth n

/-- An element without children is a line. -/
theorem renderLine_of_leaf (depth : Nat) {n : Node} (h : n.children = []) :
    renderLine depth n = (lines depth n).flatten := by
  obtain ⟨name, attributes, text, children⟩ := n
  obtain rfl : children = [] := h
  by_cases htext : text = ""
  · simp [renderLine, renderAt, lines, htext]
  · simp [renderLine, renderAt, renderChildren, lines, htext]

/-- An element with children is written between its tags, each behind its line break, and so are
the children if there is no text. -/
theorem exists_renderLine_of_children (depth : Nat) {n child : Node} {others : List Node}
    (h : n.children = child :: others) :
    ∃ opening closing, renderLine depth n = opening ++ ((if n.text.isEmpty then
        newline (depth + 1) else []) ++ (renderAt (depth + 1) child ++
          others.flatMap (renderLine (depth + 1))) ++ closing) ∧
      (lines depth n).flatten = opening ++
        ((child :: others).flatMap (fun c => (lines (depth + 1) c).flatten) ++ closing) := by
  obtain ⟨name, attributes, text, children⟩ := n
  obtain rfl : children = child :: others := h
  refine ⟨newline depth ++ '<' :: renderStart name attributes ++ '>' :: Markup.escape text.toList,
    newline depth ++ (['<', '/'] ++ name.toList ++ ['>']), ?_, ?_⟩
  · have hlines : (fun child => newline (depth + 1) ++ renderAt (depth + 1) child) =
        renderLine (depth + 1) := rfl
    rw [renderLine, renderAt, renderChildren_cons, hlines]
    simp
  · have hflatten : (others.flatMap (lines (depth + 1))).flatten =
        others.flatMap fun c => (lines (depth + 1) c).flatten := by
      rw [← List.flatMap_id, List.flatMap_assoc]
      simp only [List.flatMap_id]
    rw [lines, linesOfAll_eq_flatMap]
    simp [hflatten]

/-- An element is not longer than its lines, and as long only if no text stands beside children. -/
theorem length_renderLine_le (n : Node) (depth : Nat) :
    (renderLine depth n).length ≤ (lines depth n).flatten.length ∧
      ((renderLine depth n).length = (lines depth n).flatten.length → Every Unmixed n) := by
  induction n using induction_on generalizing depth with
  | step n ih =>
    cases hchildren : n.children with
    | nil =>
      rw [renderLine_of_leaf depth hchildren]
      exact ⟨Nat.le_refl _, fun _ => .intro (.inr hchildren) (by simp [hchildren])⟩
    | cons child others =>
      obtain ⟨opening, closing, hline, hlines⟩ := exists_renderLine_of_children depth hchildren
      have hpieces : ∀ c ∈ child :: others, (renderLine (depth + 1) c).length ≤
          ((fun c => (lines (depth + 1) c).flatten) c).length :=
        fun c hc => (ih c (hchildren ▸ hc) (depth + 1)).1
      obtain ⟨hle, heq⟩ := List.length_flatMap_le hpieces
      have hnewline : 0 < (newline (depth + 1)).length := Nat.succ_pos _
      have hfirst : (renderLine (depth + 1) child).length =
          (newline (depth + 1)).length + (renderAt (depth + 1) child).length :=
        List.length_append
      rw [hline, hlines]
      simp only [List.flatMap_cons, List.length_append] at hle heq ⊢
      by_cases htext : n.text = ""
      · rw [if_pos (by simp [htext])]
        refine ⟨by omega, fun hlength => .intro (.inl htext) fun c hc => ?_⟩
        exact (ih c hc (depth + 1)).2 (heq (by omega) c (hchildren ▸ hc))
      · rw [if_neg (by simp [htext]), List.length_nil]
        exact ⟨by omega, fun hlength => by omega⟩

/-- **An element is written in lines exactly if no text stands beside children.** -/
theorem renderLine_eq_iff {n : Node} {depth : Nat} :
    renderLine depth n = (lines depth n).flatten ↔ Every Unmixed n := by
  refine ⟨fun h => (length_renderLine_le n depth).2 (congrArg List.length h), fun h => ?_⟩
  induction h generalizing depth with
  | @intro n self _ ih =>
    cases hchildren : n.children with
    | nil => exact renderLine_of_leaf depth hchildren
    | cons child others =>
      have htext : n.text = "" := self.resolve_right (by simp [hchildren])
      obtain ⟨opening, closing, hline, hlines⟩ := exists_renderLine_of_children depth hchildren
      have hall : (child :: others).flatMap (renderLine (depth + 1)) =
          (child :: others).flatMap fun c => (lines (depth + 1) c).flatten :=
        List.flatMap_congr fun c hc => ih c (hchildren ▸ hc)
      rw [hline, hlines, ← hall, htext]
      simp [renderLine]

/-- **A tree is written in lines, behind its declaration, exactly if no text stands beside
children.** -/
theorem render_eq_iff {n : Node} :
    n.render = String.ofList (declaration.toList ++ (lines 0 n).flatten ++ ['\n']) ↔
      Every Unmixed n := by
  have hlines : renderLine 0 n = (lines 0 n).flatten ↔ Every Unmixed n := renderLine_eq_iff
  rw [← hlines, render, String.ofList_inj, List.append_assoc declaration.toList]
  constructor
  · intro h
    exact List.append_cancel_left (List.append_cancel_right h)
  · intro h
    rw [renderLine] at h
    rw [h]

end Accession.Node

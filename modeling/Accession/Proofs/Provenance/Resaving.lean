import Accession.Proofs.Lists
import Accession.Proofs.Markup.Resaving
import Accession.Proofs.Markup.Tearing
import Accession.Proofs.Provenance.Adding
import Accession.Provenance.Document
set_option autoImplicit false

/-!
# Documents that are written and read again

What becomes of a document that is saved and loaded: one that calls have made, and one that came
from elsewhere.

## Main definitions

* `Provenance.Document.LaidOut` — the invariant.

## Main results

* `Provenance.Document.LaidOut.apply` — every call keeps the invariant.
* `Provenance.Document.LaidOut.parseText_render` — with it, a document is read back.
* `Provenance.Document.parseText_render_after_new` — documents made by any calls are read back.
* `Provenance.Document.exists_body_of_render_after_new` — without the last bracket of their root,
  they are not.
* `Provenance.Document.parse_eq_ok_iff` — when there is a document.
* `Provenance.Document.exists_saves` — what becomes of a document that is loaded and saved any
  number of times.
* `Provenance.Document.tidy_after_and_written` — what becomes of a tidy document that was read, and
  what it is written as.
-/

/-! ## Documents are read back as they were written

A document that is changed by adding records keeps a layout that survives writing and reading: its
names stay plain, and neither the root nor an object nor any other element gets a text beside its
children. The texts of the records themselves may be any texts. What is left of a written document
when its end is torn off, at whatever octet, is refused. -/

namespace Accession.Provenance.Document

open Node (Every Regular)

/-- A document that is read back as it was written, and still is when records have been added:
besides its elements being regular, the root and the objects have no text, since they are what new
children are put into. -/
structure LaidOut (d : Document) : Prop where
  regular : Every Regular d.root
  localName_root : d.root.localName = "premis"
  text_root : d.root.text = ""
  text_object : ∀ n ∈ d.root.children, n.localName = "object" → n.text = ""

/-- **A document with this layout is read back from its written form.** -/
theorem LaidOut.parseText_render {d : Document} (h : LaidOut d) : parseText d.render = .ok d := by
  rw [parseText, parse, render, Node.parse_render h.regular]
  dsimp only
  rw [if_pos h.localName_root]

/-! ### Every call keeps the layout -/

/-- The document without records has the layout. -/
theorem laidOut_new : LaidOut new := by
  refine ⟨.intro ⟨⟨by decide, by decide, by decide⟩, .inl rfl⟩ (by simp [new]), by decide, rfl, ?_⟩
  simp [new]

/-- With this layout nothing is put into an element that has a text. -/
theorem LaidOut.text_receivers {d : Document} (h : LaidOut d) (change : Change) :
    ∀ n ∈ d.receivers change, n.text = "" := by
  intro n hn
  cases change with
  | object originalName id =>
    rw [receivers] at hn
    split at hn
    · cases hn
    · rw [List.mem_singleton.1 hn]
      exact h.text_root
  | agent agent =>
    rw [receivers] at hn
    split at hn
    · cases hn
    · rw [List.mem_singleton.1 hn]
      exact h.text_root
  | event summary agent targets context =>
    rw [receivers] at hn
    cases hplaces : d.targetPlaces targets with
    | error error =>
      rw [hplaces] at hn
      cases hn
    | ok places =>
      rw [hplaces] at hn
      rcases List.mem_cons.1 hn with rfl | hn
      · exact h.text_root
      · obtain ⟨i, hi, hn⟩ := List.mem_filterMap.1 hn
        exact h.text_object n (List.mem_of_getElem? hn)
          (localName_of_mem_targetPlaces hplaces hi hn)

/-- **Every call keeps the layout.** -/
theorem LaidOut.apply {d : Document} (h : LaidOut d) (change : Change) :
    LaidOut (d.apply change) := by
  obtain ⟨hnames, htidy⟩ := Node.every_regular_iff.1 h.regular
  refine ⟨Node.every_regular_iff.2 ⟨every_wellNamed_apply hnames change,
    (tidy_apply_iff d change).2 ⟨h.text_receivers change, htidy⟩⟩, ?_, ?_, ?_⟩
  · rw [Node.localName, (name_and_text_apply d change).1]
    exact h.localName_root
  · rw [(name_and_text_apply d change).2]
    exact h.text_root
  · intro n hn hobject
    rcases text_of_mem_children_apply hn with htext | ⟨old, hold, hname, htext⟩
    · exact htext
    · rw [← htext]
      exact h.text_object old hold (hname.trans hobject)

/-- Any calls keep the layout. -/
theorem LaidOut.after {d : Document} (h : LaidOut d) (changes : List Change) :
    LaidOut (d.after changes) := by
  induction changes generalizing d with
  | nil => exact h
  | cons change changes ih => exact ih (h.apply change)

/-- **Whatever calls have made a document, it is read back from its written form.** -/
theorem parseText_render_after_new (changes : List Change) :
    parseText (new.after changes).render = .ok (new.after changes) :=
  (laidOut_new.after changes).parseText_render

/-! ### Torn documents -/

/-- Octets that hold no tree are refused for what they lack. -/
theorem exists_error_of_parse_ne {bytes : List UInt8}
    (h : ∀ root, Node.parse bytes ≠ .ok (some root)) :
    ∃ error, parse bytes = .error error ∧
      (error = .noRoot ∨ (∃ fault, error = .malformed fault) ∨
        ∃ name, error = .truncated name) := by
  rw [parse]
  cases hparse : Node.parse bytes with
  | error error =>
    refine ⟨.ofReadError error, rfl, ?_⟩
    cases error with
    | malformed fault => exact .inr (.inl ⟨fault, rfl⟩)
    | truncated name => exact .inr (.inr ⟨name, rfl⟩)
  | ok root? =>
    cases root? with
    | none => exact ⟨.noRoot, rfl, .inl rfl⟩
    | some root => exact absurd hparse (h root)

/-- **Whatever calls have made a document, nothing is read from its written form if the last bracket
of the root is missing**: what is left is refused, wherever it ends, although all of it is read.

**Proof sketch.** A cut in front of the last bracket of the root goes through an event or leaves the
root open. So no prefix is read as the document, and the reader has only these errors for what is
not. -/
theorem exists_body_of_render_after_new (changes : List Change) :
    ∃ body, Utf8.encode (new.after changes).render.toList = body ++ Markup.octets ">\n" ∧
      parse (body ++ Markup.octets ">\n") = .ok (new.after changes) ∧
      ∀ torn, torn <+: body → ∃ error, parse torn = .error error ∧
        (error = .noRoot ∨ (∃ fault, error = .malformed fault) ∨
          ∃ name, error = .truncated name) := by
  have hlaidOut := laidOut_new.after changes
  have hnamed := (Node.every_regular_iff.1 hlaidOut.regular).1
  obtain ⟨body, hbytes, htorn⟩ := Node.exists_body_of_render hnamed
  refine ⟨body, hbytes, ?_, fun torn htear => exists_error_of_parse_ne (htorn torn htear)⟩
  rw [← hbytes]
  exact hlaidOut.parseText_render

end Accession.Provenance.Document

/-! ## Documents that are saved again

A document that is loaded and saved without any change is written as a text that can be loaded
again, if its names can be written at all. It stays what it was exactly if no element has a text
beside its children: such a text takes in the layout around it with every save, and is never
written twice in the same way. -/

namespace Accession.Provenance.Document

open Node (Every Unmixed WellNamed)

/-- There is a document if there is a tree, and its root is called `premis`. -/
theorem parse_eq_ok_iff {bytes : List UInt8} {d : Document} :
    parse bytes = .ok d ↔
      Node.parse bytes = .ok (some d.root) ∧ d.root.localName = "premis" := by
  rw [parse]
  rcases Node.parse bytes with error | - | root
  · simp
  · simp
  · obtain ⟨root'⟩ := d
    by_cases hname : root.localName = "premis"
    · simp only [if_pos hname, Except.ok.injEq, Option.some.injEq, Document.mk.injEq]
      exact ⟨fun heq => ⟨heq, heq ▸ hname⟩, And.left⟩
    · simp only [if_neg hname, reduceCtorEq, Except.ok.injEq, Option.some.injEq, false_iff]
      rintro ⟨rfl, hroot⟩
      exact hname hroot

/-- What is read from the written form of a document. -/
theorem parseText_render_eq {d : Document} (hname : d.root.localName = "premis")
    (hnames : Every WellNamed d.root) : parseText d.render = .ok ⟨d.root.reread 0⟩ := by
  refine parse_eq_ok_iff.2 ⟨Node.parse_render_eq_reread hnames, ?_⟩
  rw [Node.localName, Node.name_reread]
  exact hname

/-- **A document is read back as it was exactly if no text stands beside children.** -/
theorem parseText_render_iff {d : Document} (hname : d.root.localName = "premis")
    (hnames : Every WellNamed d.root) :
    parseText d.render = .ok d ↔ Every Unmixed d.root := by
  obtain ⟨root⟩ := d
  rw [parseText_render_eq hname hnames, Except.ok.injEq, Document.mk.injEq,
    Node.reread_eq_self_iff]

/-- **Loaded and saved any number of times, a document can be loaded again.** It stays what it was,
and is written as it was, exactly if no text stands beside children; if one does, no save is like
the one before.

**Proof sketch.** What is read back from a written document is `Node.reread` of it. Read elements
are stripped, and stay so; on these `Node.reread` changes nothing exactly if no text stands beside
children. -/
theorem exists_saves {bytes : List UInt8} {d : Document} (hparse : parse bytes = .ok d)
    (hnames : Every WellNamed d.root) :
    ∃ saved : Nat → Document, saved 0 = d ∧
      (∀ count, parseText (saved count).render = .ok (saved (count + 1))) ∧
      (∀ count, saved (count + 1) = saved count ↔ Every Unmixed d.root) ∧
      ∀ count, (saved (count + 1)).render = (saved count).render ↔ Every Unmixed d.root := by
  obtain ⟨hroot, hname⟩ := parse_eq_ok_iff.1 hparse
  have hstripped := Node.every_stripped_of_parse hroot
  have hpremis (count : Nat) : ((Node.reread 0)^[count] d.root).localName = "premis" := by
    induction count with
    | zero => exact hname
    | succ count ih =>
      rw [Function.iterate_succ_apply', Node.localName, Node.name_reread]
      exact ih
  refine ⟨fun count => ⟨(Node.reread 0)^[count] d.root⟩, rfl, fun count => ?_, fun count => ?_,
    fun count => ?_⟩
  · exact parse_eq_ok_iff.2
      ⟨Node.parse_render_iterate_reread hnames count, hpremis (count + 1)⟩
  · rw [Document.mk.injEq]
    exact Node.iterate_reread_eq_iff hstripped count
  · exact Node.render_iterate_reread_eq_iff hstripped hnames count

/-! ### Documents that change -/

/-- A document with a text beside a child. -/
def mixedText : String :=
  "<premis>a<b/></premis>"

/-- What is read from it. -/
def mixedDocument : Document :=
  ⟨⟨"premis", [], "a", [⟨"b", [], "", []⟩]⟩⟩

/-- The text is read as that document. -/
theorem parseText_mixedText : parseText mixedText = .ok mixedDocument :=
  Except.eq_ok_of_toOption (by decide +kernel)

/-- All names in the document can be written. -/
theorem every_wellNamed_mixedDocument : Every WellNamed mixedDocument.root := by
  refine .intro ⟨by decide, by decide, by decide⟩ ?_
  simp only [mixedDocument, List.forall_mem_singleton]
  exact .intro ⟨by decide, by decide, by decide⟩ nofun

/-- A text beside a child grows with every save. -/
theorem exists_saves_mixedText :
    ∃ saved : Nat → Document, parseText mixedText = .ok (saved 0) ∧
      (∀ count, parseText (saved count).render = .ok (saved (count + 1))) ∧
      (∀ count, saved (count + 1) ≠ saved count) ∧
      ∀ count, (saved (count + 1)).render ≠ (saved count).render := by
  have hmixed : ¬Every Unmixed mixedDocument.root := by
    intro h
    rcases h.self with htext | hchildren
    · exact absurd htext (by decide)
    · exact absurd hchildren (by simp [mixedDocument])
  obtain ⟨saved, hfirst, hnext, hsame, hrender⟩ :=
    exists_saves parseText_mixedText every_wellNamed_mixedDocument
  refine ⟨saved, ?_, hnext, fun count => ?_, fun count => ?_⟩
  · rw [hfirst]
    exact parseText_mixedText
  · exact fun heq => hmixed ((hsame count).1 heq)
  · exact fun heq => hmixed ((hrender count).1 heq)

/-- A name has to be one that can be written: an element without a name is read, and its written
form is the end tag of another. -/
theorem parseText_render_nameless :
    ∃ d, parseText "<premis>< /></premis>" = .ok d ∧ (parseText d.render).toOption = none := by
  refine ⟨⟨⟨"premis", [], "", [⟨"", [], "", []⟩]⟩⟩, Except.eq_ok_of_toOption ?_, ?_⟩
  · decide +kernel
  · decide +kernel

end Accession.Provenance.Document

/-! ## Tidy documents

A document that was read has no blank text beside children, but an element without children keeps
its text, and if a record or a link is then put into it, the text stays in front of what is new. As
long as nothing is put into an element with a text, a tidy document is written in lines and read
back as it was. From then on it is neither. -/

namespace Accession.Provenance.Document

open Node (Every WellNamed)

/-! ### Documents that were read -/

/-- **What becomes of a tidy document that was read**: whatever is added, it stays tidy exactly if
nothing is put into an element that has a text. It is written in lines, and it is read back as it
was, exactly if it is tidy.

**Proof sketch.** Whether a change leaves a document tidy is said by the texts of the elements that
it puts something into, and no change makes a text vanish. A document is written in lines exactly if
it is tidy, element by element. -/
theorem tidy_after_and_written {bytes : List UInt8} {d : Document} (hparse : parse bytes = .ok d)
    (htidy : d.Tidy) (changes : List Change) :
    ((d.after changes).Tidy ↔ ∀ before change rest, changes = before ++ change :: rest →
      ∀ n ∈ (d.after before).receivers change, n.text = "") ∧
    ((d.after changes).render = String.ofList (Node.declaration.toList ++
      (Node.lines 0 (d.after changes).root).flatten ++ ['\n']) ↔ (d.after changes).Tidy) ∧
    (Every WellNamed d.root →
      (parseText (d.after changes).render = .ok (d.after changes) ↔ (d.after changes).Tidy)) := by
  obtain ⟨-, hname⟩ := parse_eq_ok_iff.1 hparse
  refine ⟨?_, ?_, fun hnames => ?_⟩
  · rw [tidy_after_iff, and_iff_left htidy]
  · rw [render, Node.render_eq_iff, Tidy]
  · refine parseText_render_iff ?_ (every_wellNamed_after hnames changes)
    rw [Node.localName, name_after]
    exact hname

/-! ### A root with a text -/

/-- A document whose root holds a line break and nothing else. -/
def blankText : String :=
  "<premis>\n</premis>"

/-- What is read from it. -/
def blankDocument : Document :=
  ⟨⟨"premis", [], "\n", []⟩⟩

/-- The line break is read as the text of the root. -/
theorem parseText_blankText : parseText blankText = .ok blankDocument :=
  Except.eq_ok_of_toOption (by decide +kernel)

/-- The call that adds an agent to it. -/
def addingAgent : Change :=
  .agent ⟨⟨"local", "a"⟩, "Archive", "organization"⟩

/-- The line break stays in front of the agent: the document is not tidy any more, not written in
lines and not read back as it was. -/
theorem not_tidy_blankDocument :
    parseText blankText = .ok blankDocument ∧ blankDocument.Tidy ∧
      ¬(blankDocument.after [addingAgent]).Tidy ∧
      (blankDocument.after [addingAgent]).render ≠ String.ofList (Node.declaration.toList ++
        (Node.lines 0 (blankDocument.after [addingAgent]).root).flatten ++ ['\n']) ∧
      parseText (blankDocument.after [addingAgent]).render ≠
        .ok (blankDocument.after [addingAgent]) := by
  have htidy : blankDocument.Tidy := .intro (.inr rfl) nofun
  have hnames : Every WellNamed blankDocument.root :=
    .intro ⟨by decide, by decide, by decide⟩ nofun
  obtain ⟨hcalls, hlines, hreload⟩ :=
    tidy_after_and_written parseText_blankText htidy [addingAgent]
  have hroot : blankDocument.root ∈ (blankDocument.after []).receivers addingAgent := by
    decide +kernel
  have hnot : ¬(blankDocument.after [addingAgent]).Tidy := by
    intro h
    have htext := hcalls.1 h [] addingAgent [] rfl blankDocument.root hroot
    exact absurd htext (by decide)
  exact ⟨parseText_blankText, htidy, hnot, fun heq => hnot (hlines.1 heq),
    fun heq => hnot ((hreload hnames).1 heq)⟩

end Accession.Provenance.Document

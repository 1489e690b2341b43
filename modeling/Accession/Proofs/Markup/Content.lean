import Accession.Proofs.Lists
import Accession.Proofs.Markup.Cutting
import Accession.Proofs.Markup.Nesting
import Accession.Proofs.Markup.Reference
set_option autoImplicit false

/-!
# Written texts and elements

What may stand in an element as it is written, and the events that it is cut into.

## Main definitions

* `Markup.Complete`, `Markup.BeforeMarkup` — characters and the events they are cut into.
* `Markup.WrittenText` — the written forms of a text between tags.
* `Markup.SaysAll` — the text that some events say.
* `Markup.WrittenTag.element`, `Markup.WrittenTag.emptyElement` — elements as they are written.
* `Markup.WrittenAside` — comments and instructions as they are written.
* `Markup.WrittenContent` — what may stand between the tags of an element.

## Main results

* `Markup.complete_characterData`, `Markup.complete_comment`, `Markup.complete_instruction` — the
  events of what stands between texts.
* `Markup.WrittenText.exists_beforeMarkup` — the events of a written text say that text.
* `Markup.WrittenTag.complete_element`, `Markup.WrittenTag.complete_emptyElement` — the events of
  elements.
* `Markup.WrittenAside.complete` — an aside is one event.
* `Markup.WrittenContent.exists_beforeMarkup` — content is cut into events with every element
  closed.
-/

/-! ## Texts and elements

Between two tags a text is written as runs of characters and references, with character data
sections between them. Around it stand the tags of an element. This file has both as they are
written, and the events they are cut into. -/

namespace Accession.Markup

open Utf8 (encode)

/-! ### Characters and their events -/

/-- Characters that are cut into these events wherever they stand: whole elements. -/
structure Complete (chars : List Char) (events : List Event) : Prop where
  head : ∀ rest, (encode chars ++ rest).head? = some 0x3C
  cuts : ∀ rest, Cuts (encode chars ++ rest) events rest
  nested : Nested events

/-- Characters that are cut into these events if markup follows: what may end with a text. -/
structure BeforeMarkup (chars : List Char) (events : List Event) : Prop where
  cuts : ∀ rest, rest.head? = some 0x3C → Cuts (encode chars ++ rest) events rest
  nested : Nested events

/-- Nothing makes no events. -/
theorem BeforeMarkup.nil : BeforeMarkup [] [] :=
  ⟨fun rest _ => Cuts.nil rest, Nested.nil⟩

/-- Characters around a whole element. -/
theorem BeforeMarkup.surround {before element after : List Char} {first events last : List Event}
    (hbefore : BeforeMarkup before first) (helement : Complete element events)
    (hafter : BeforeMarkup after last) :
    BeforeMarkup (before ++ (element ++ after)) (first ++ (events ++ last)) := by
  refine ⟨fun rest hrest => ?_, hbefore.nested.append (helement.nested.append hafter.nested)⟩
  rw [Utf8.encode_append, Utf8.encode_append, List.append_assoc, List.append_assoc]
  exact (hbefore.cuts _ (helement.head _)).append
    ((helement.cuts _).append (hafter.cuts rest hrest))

/-! ### Local names -/

/-- What follows the first colon of a name, or all of it. -/
def localPart (name : List Char) : List Char :=
  if ':' ∈ name then (name.dropWhile (· != ':')).drop 1 else name

/-- The local name of octets is that of the name. -/
theorem localName_encode (name : List Char) :
    localName (encode name) = encode (localPart name) := by
  have hmem : 0x3A ∈ encode name ↔ ':' ∈ name := Utf8.mem_encode_iff (c := ':') (by decide) name
  by_cases hcolon : ':' ∈ name
  · rw [localName, localPart, if_pos (List.contains_iff_mem.2 (hmem.2 hcolon)), if_pos hcolon]
    have hsplit := List.takeWhile_append_dropWhile (p := (· != ':')) (l := name)
    have hno : ':' ∉ name.takeWhile (· != ':') := fun h => by
      simpa using List.mem_takeWhile_imp h
    cases hafter : name.dropWhile (· != ':') with
    | nil =>
      rw [hafter, List.append_nil] at hsplit
      rw [hsplit] at hno
      exact absurd hcolon hno
    | cons c rest =>
      have hc : c = ':' := by
        have := List.head?_dropWhile_not (· != ':') name
        rw [hafter] at this
        simpa using this
      subst hc
      have hencode : encode name = encode (name.takeWhile (· != ':')) ++ 0x3A :: encode rest := by
        rw [hafter] at hsplit
        have hwhole := congrArg encode hsplit
        rw [Utf8.encode_append] at hwhole
        exact hwhole.symm
      have hcut := List.takeWhile_dropWhile_append (· != 0x3A)
        (encode (name.takeWhile (· != ':'))) (0x3A :: encode rest)
        (fun b hb => by
          rw [bne_iff_ne]
          rintro rfl
          exact not_mem_encode (c := ':') (by decide) hno hb)
        (by simp)
      rw [hencode, hcut.2]
      rfl
  · have hno : ¬(encode name).contains 0x3A = true := fun h =>
      hcolon (hmem.1 (List.contains_iff_mem.1 h))
    rw [localName, localPart, if_neg hno, if_neg hcolon]

/-! ### Texts -/

/-- `WrittenText written text`: the text is written between tags, with any of its characters as
references and any of its parts in character data sections. -/
inductive WrittenText : List Char → List Char → Prop
  | run {written text : List Char} (h : Spells written text) (hopen : '<' ∉ written) :
      WrittenText written text
  | characterData {written text content rest restText : List Char} (h : Spells written text)
      (hopen : '<' ∉ written) (hend : ¬[']', ']', '>'] <:+: content)
      (hrest : WrittenText rest restText) :
      WrittenText (written ++ ("<![CDATA[".toList ++ (content ++ ([']', ']', '>'] ++ rest))))
        (text ++ (content ++ restText))

/-- The text that an event says. -/
inductive Says : Event → List Char → Prop
  | text {written text : List Char} (h : Spells written text) : Says (.text (encode written)) text
  | characterData (content : List Char) : Says (.characterData (encode content)) content

/-- The text that some events say together. -/
inductive SaysAll : List Event → List Char → Prop
  | nil : SaysAll [] []
  | cons {event : Event} {events : List Event} {text rest : List Char} (h : Says event text)
      (hrest : SaysAll events rest) : SaysAll (event :: events) (text ++ rest)

/-- One event says what it says. -/
theorem SaysAll.single {event : Event} {text : List Char} (h : Says event text) :
    SaysAll [event] text := by
  simpa using SaysAll.cons h .nil

/-- Events and others behind them say their texts one behind the other. -/
theorem SaysAll.append {events events' : List Event} {text text' : List Char}
    (h : SaysAll events text) (h' : SaysAll events' text') :
    SaysAll (events ++ events') (text ++ text') := by
  induction h with
  | nil => exact h'
  | cons hsays _ ih =>
    rw [List.cons_append, List.append_assoc]
    exact .cons hsays ih

/-- Characters in front of markup are one event. -/
theorem beforeMarkup_text {written : List Char} (hne : written ≠ []) (hopen : '<' ∉ written) :
    BeforeMarkup written [.text (encode written)] := by
  refine ⟨fun rest hrest => Cuts.single ?_, Nested.text _⟩
  refine nextEvent_text (fun hencode => hne ?_) ?_ hrest
  · exact Utf8.encode_injective hencode
  · exact not_mem_encode (c := '<') (by decide) hopen

/-- Characters and references in front of markup are no event or one. -/
theorem exists_beforeMarkup_run {written text : List Char} (h : Spells written text)
    (hopen : '<' ∉ written) : ∃ events, BeforeMarkup written events ∧ SaysAll events text := by
  by_cases hnil : written = []
  · subst hnil
    cases h
    exact ⟨[], .nil, .nil⟩
  · exact ⟨_, beforeMarkup_text hnil hopen, .single (.text h)⟩

/-- A character data section is one event. -/
theorem complete_characterData {content : List Char} (hend : ¬[']', ']', '>'] <:+: content) :
    Complete ("<![CDATA[".toList ++ (content ++ [']', ']', '>']))
      [.characterData (encode content)] := by
  have hopen : octets "<![CDATA[" = 0x3C :: 0x21 :: octets "[CDATA[" := by decide +kernel
  have hclose : encode [']', ']', '>'] = sectionEnd := by decide +kernel
  have hno : ¬sectionEnd <:+: encode content := by
    intro hinfix
    rw [← hclose] at hinfix
    exact hend (Utf8.infix_of_infix_encode (by decide) hinfix)
  have hbytes (rest : List UInt8) :
      encode ("<![CDATA[".toList ++ (content ++ [']', ']', '>'])) ++ rest =
        octets "<![CDATA[" ++ (encode content ++ (sectionEnd ++ rest)) := by
    simp only [Utf8.encode_append, hclose, octets, List.append_assoc]
  refine ⟨fun rest => ?_, fun rest => ?_, Nested.characterData _⟩
  · rw [hbytes, hopen]
    rfl
  · rw [hbytes]
    exact Cuts.single (nextEvent_characterData hno rest)

/-- An instruction is one event. -/
theorem complete_instruction {content : List Char} (hend : ¬['?', '>'] <:+: content)
    (hhead : content.head? ≠ some '>') :
    Complete ('<' :: '?' :: (content ++ ['?', '>'])) [.aside] := by
  have hclose : encode ['?', '>'] = instructionEnd := by decide +kernel
  have hno : ¬instructionEnd <:+: encode content := by
    intro hinfix
    rw [← hclose] at hinfix
    exact hend (Utf8.infix_of_infix_encode (by decide) hinfix)
  have hfirst : (encode content).head? ≠ some 0x3E := by
    intro hoctet
    obtain ⟨tail, htail⟩ := List.head?_eq_some_iff.1 hoctet
    have hprefix : encode ['>'] <+: encode content := ⟨tail, htail.symm⟩
    obtain ⟨tail', htail'⟩ := Utf8.prefix_of_prefix_encode (by decide) hprefix
    exact hhead (by rw [← htail']; rfl)
  have hbytes (rest : List UInt8) : encode ('<' :: '?' :: (content ++ ['?', '>'])) ++ rest =
      0x3C :: 0x3F :: (encode content ++ (instructionEnd ++ rest)) := by
    have hopen (text : List Char) : encode ('<' :: '?' :: text) = 0x3C :: 0x3F :: encode text := rfl
    rw [hopen, Utf8.encode_append, hclose]
    simp
  refine ⟨fun rest => rfl, fun rest => ?_, Nested.aside⟩
  rw [hbytes]
  exact .single (nextEvent_instruction hno hfirst rest)

/-- A comment is one event. -/
theorem complete_comment {content : List Char} (hend : ¬['-', '-', '>'] <:+: content) :
    Complete ("<!--".toList ++ (content ++ ['-', '-', '>'])) [.aside] := by
  have hclose : encode ['-', '-', '>'] = commentEnd := by decide +kernel
  have hno : ¬commentEnd <:+: encode content := by
    intro hinfix
    rw [← hclose] at hinfix
    exact hend (Utf8.infix_of_infix_encode (by decide) hinfix)
  have hbytes (rest : List UInt8) :
      encode ("<!--".toList ++ (content ++ ['-', '-', '>'])) ++ rest =
        0x3C :: 0x21 :: 0x2D :: 0x2D :: (encode content ++ (commentEnd ++ rest)) := by
    have hopen : encode "<!--".toList = [0x3C, 0x21, 0x2D, 0x2D] := by decide +kernel
    rw [Utf8.encode_append, hopen, Utf8.encode_append, hclose]
    simp
  refine ⟨fun rest => ?_, fun rest => ?_, Nested.aside⟩
  · rw [hbytes]
    rfl
  · rw [hbytes]
    exact .single (nextEvent_comment hno rest)

/-- A text written in front of markup is cut into events that say the text. -/
theorem WrittenText.exists_beforeMarkup {written text : List Char} (h : WrittenText written text) :
    ∃ events, BeforeMarkup written events ∧ SaysAll events text := by
  induction h with
  | run h hopen => exact exists_beforeMarkup_run h hopen
  | @characterData written text content after afterText h hopen hend _ ih =>
    obtain ⟨before, hbefore, hsays⟩ := exists_beforeMarkup_run h hopen
    obtain ⟨behind, hbehind, hsays'⟩ := ih
    have hcuts := hbefore.surround (complete_characterData hend) hbehind
    simp only [List.append_assoc] at hcuts
    exact ⟨_, hcuts, hsays.append (.cons (.characterData content) hsays')⟩

/-- Layout is a written text. -/
theorem writtenText_layout {layout : List Char} (h : ∀ c ∈ layout, isLayout c) :
    WrittenText layout layout := by
  have hno {c : Char} (hc : isLayout c = false) : c ∉ layout := by
    intro hmem
    rw [h c hmem] at hc
    cases hc
  exact .run (spells_self (hno (by decide))) (hno (by decide))

/-! ### Elements -/

namespace WrittenTag

/-- An element with something between its tags. -/
def element (t : WrittenTag) (inner trail : List Char) : List Char :=
  '<' :: (t.chars ++ '>' :: (inner ++ '<' :: '/' :: (t.name ++ (trail ++ ['>']))))

/-- An element of one tag. -/
def emptyElement (t : WrittenTag) : List Char :=
  '<' :: (t.chars ++ ['/', '>'])

/-- The events of what stands between the tags come between those of the tags. -/
theorem complete_element (t : WrittenTag) {inner trail : List Char}
    (htrail : ∀ c ∈ trail, isLayout c) {events : List Event} (hinner : BeforeMarkup inner events) :
    Complete (t.element inner trail) (.start t.octets :: (events ++ [.close (encode t.name)])) := by
  refine ⟨fun rest => rfl, fun rest => ?_, hinner.nested.element t.nameOf_octets⟩
  have hopen (text : List Char) : encode ('<' :: text) = 0x3C :: encode text := rfl
  have hslash (text : List Char) : encode ('/' :: text) = 0x2F :: encode text := rfl
  have hend (text : List Char) : encode ('>' :: text) = 0x3E :: encode text := rfl
  have hbytes : encode (t.element inner trail) ++ rest = 0x3C :: (t.octets ++ 0x3E ::
      (encode inner ++ 0x3C :: 0x2F :: (encode t.name ++ (encode trail ++ 0x3E :: rest)))) := by
    simp only [element, hopen, hslash, hend, Utf8.encode_append, Utf8.encode_nil, octets,
      List.cons_append, List.append_assoc, List.nil_append]
  rw [hbytes]
  exact .cons (t.nextEvent_start _)
    ((hinner.cuts _ rfl).append (Cuts.single (nextEvent_close t.name_plain htrail rest)))

/-- An element of one tag is one event. -/
theorem complete_emptyElement (t : WrittenTag) :
    Complete t.emptyElement [.empty t.octets] := by
  refine ⟨fun rest => rfl, fun rest => ?_, Nested.empty _⟩
  have hbytes : encode t.emptyElement ++ rest = 0x3C :: (t.octets ++ 0x2F :: 0x3E :: rest) := by
    have hopen (text : List Char) : encode ('<' :: text) = 0x3C :: encode text := rfl
    have hend : encode ['/', '>'] = [0x2F, 0x3E] := rfl
    simp only [emptyElement, hopen, hend, Utf8.encode_append, octets, List.cons_append,
      List.append_assoc, List.nil_append]
  rw [hbytes]
  exact Cuts.single (t.nextEvent_empty rest)

end WrittenTag

end Accession.Markup

/-! ## Written content

What stands in a marked-up text beside its own elements: comments, instructions, and elements with
any content. All of it is cut into events with every element closed, wherever it stands. -/

namespace Accession.Markup

open Utf8 (encode)

/-- Comments and instructions: their end does not stand inside them, and an instruction has a
name. -/
inductive WrittenAside : List Char → Prop
  | comment {content : List Char} (hend : ¬['-', '-', '>'] <:+: content) :
      WrittenAside ("<!--".toList ++ (content ++ ['-', '-', '>']))
  | instruction {content : List Char} (hend : ¬['?', '>'] <:+: content)
      (hhead : content.head? ≠ some '>') :
      WrittenAside ('<' :: '?' :: (content ++ ['?', '>']))

/-- What may stand between the tags of an element: characters, and between them character data
sections, comments, instructions and elements. References are not looked at. -/
inductive WrittenContent : List Char → Prop
  | run {run : List Char} (hrun : '<' ∉ run) : WrittenContent run
  | characterData {run content rest : List Char} (hrun : '<' ∉ run)
      (hend : ¬[']', ']', '>'] <:+: content) (hrest : WrittenContent rest) :
      WrittenContent (run ++ ("<![CDATA[".toList ++ (content ++ [']', ']', '>']) ++ rest))
  | aside {run aside rest : List Char} (hrun : '<' ∉ run) (haside : WrittenAside aside)
      (hrest : WrittenContent rest) : WrittenContent (run ++ (aside ++ rest))
  | element {run inner trail rest : List Char} (hrun : '<' ∉ run) (t : WrittenTag)
      (hinner : WrittenContent inner) (htrail : ∀ c ∈ trail, isLayout c)
      (hrest : WrittenContent rest) : WrittenContent (run ++ (t.element inner trail ++ rest))
  | emptyElement {run rest : List Char} (hrun : '<' ∉ run) (t : WrittenTag)
      (hrest : WrittenContent rest) : WrittenContent (run ++ (t.emptyElement ++ rest))

/-- An aside is one event. -/
theorem WrittenAside.complete {chars : List Char} (h : WrittenAside chars) :
    Complete chars [.aside] := by
  cases h with
  | comment hend => exact complete_comment hend
  | instruction hend hhead => exact complete_instruction hend hhead

/-- The events of an element with every element inside closed. -/
theorem WrittenTag.wellNested_element (t : WrittenTag) {events : List Event}
    (h : WellNested events) :
    WellNested (.start t.octets :: (events ++ [.close (encode t.name)])) := by
  rw [← t.nameOf_octets]
  exact .element t.octets h

/-- Characters in front of markup are no event or one, which closes nothing. -/
theorem exists_wellNested_run {run : List Char} (hrun : '<' ∉ run) :
    ∃ events, BeforeMarkup run events ∧ WellNested events := by
  by_cases hnil : run = []
  · subst hnil
    exact ⟨[], .nil, .nil⟩
  · exact ⟨_, beforeMarkup_text hnil hrun, .leaf trivial⟩

/-- Characters, something that is complete, and more content. -/
theorem exists_wellNested_surround {run piece rest : List Char} {events : List Event}
    (hrun : '<' ∉ run) (hpiece : Complete piece events) (hevents : WellNested events)
    (hrest : ∃ last, BeforeMarkup rest last ∧ WellNested last) :
    ∃ all, BeforeMarkup (run ++ (piece ++ rest)) all ∧ WellNested all := by
  obtain ⟨first, hfirst, hnested⟩ := exists_wellNested_run hrun
  obtain ⟨last, hlast, hnested'⟩ := hrest
  exact ⟨_, hfirst.surround hpiece hlast, hnested.append (hevents.append hnested')⟩

/-- **Content is cut into events with every element closed.** -/
theorem WrittenContent.exists_beforeMarkup {chars : List Char} (h : WrittenContent chars) :
    ∃ events, BeforeMarkup chars events ∧ WellNested events := by
  induction h with
  | run hrun => exact exists_wellNested_run hrun
  | characterData hrun hend _ ih =>
    exact exists_wellNested_surround hrun (complete_characterData hend) (.leaf trivial) ih
  | aside hrun haside _ ih =>
    exact exists_wellNested_surround hrun haside.complete (.leaf trivial) ih
  | element hrun t _ htrail _ ihInner ihRest =>
    obtain ⟨events, hcuts, hnested⟩ := ihInner
    exact exists_wellNested_surround hrun (t.complete_element htrail hcuts)
      (t.wellNested_element hnested) ihRest
  | emptyElement hrun t _ ih =>
    exact exists_wellNested_surround hrun t.complete_emptyElement (.leaf trivial) ih

end Accession.Markup

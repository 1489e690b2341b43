import Accession.Proofs.Markup.Extending
import Accession.Proofs.Markup.Node
set_option autoImplicit false

/-!
# Torn trees

Reading ends with the outermost element, and what follows makes no difference. So a tree that is
read from the first octets of a text is read from all of them. The written form of a tree holds no
tree before its last bracket; hence none of it holds one before.

## Main definitions

* `Node.readNested` — reads events whose nesting is still to be checked.
* `Node.Torn` — characters that end inside a tag.

## Main results

* `Node.parse_append` — what is read stays, whatever follows.
* `Node.exists_body_of_render` — the written form of a tree, torn before its last bracket.
-/

namespace Accession.Node

open Markup (BeforeMarkup Cuts Event Nested WrittenTag)
open Utf8 (encode)

/-! ### Trees that are followed by more -/

/-- Reads events whose nesting is still to be checked, with these names and elements open. -/
def readNested (fault : Option Markup.Error) (opened : List (List UInt8)) (stack : List Opened)
    (events : List Event) : Except ReadError (Option Node) :=
  let document := Markup.nestFrom fault [] opened events
  readEvents document.fault stack document.events

/-- A document is its events, nested and read one by one. -/
theorem parse_eq_readNested (bytes : List UInt8) :
    parse bytes = readNested (Markup.events bytes).2 [] [] (Markup.events bytes).1 :=
  rfl

/-- At the end of the events there is no tree. -/
theorem readEnd_ne_some {fault : Option Markup.Error} {stack : List Opened} {n : Node} :
    readEnd fault stack ≠ .ok (some n) := by
  intro h
  unfold readEnd at h
  split at h
  · cases h
  · split at h <;> cases h

/-- A text closes no element. -/
theorem readStep_text {bytes : List UInt8} {stack : List Opened} {progress : Progress}
    (h : readStep stack (.text bytes) = .ok progress) : ∃ stack', progress = .reading stack' := by
  cases stack with
  | nil =>
    cases h
    exact ⟨[], rfl⟩
  | cons o stack =>
    rw [readStep] at h
    · cases htext : Markup.decodeText bytes with
      | error error =>
        rw [htext] at h
        cases h
      | ok text =>
        rw [htext] at h
        cases h
        exact ⟨_, rfl⟩
    · simp

/-- One event is read and then the others, or reading ends with a fault. -/
theorem readNested_cons (opened : List (List UInt8)) (stack : List Opened) (event : Event) :
    (∃ opened', ∀ fault events, readNested fault opened stack (event :: events) =
      match readStep stack event with
      | .error error => .error error
      | .ok (.finished root) => .ok (some root)
      | .ok (.reading stack) => readNested fault opened' stack events) ∨
    ∃ error, ∀ fault events,
      readNested fault opened stack (event :: events) = readEnd (some error) stack := by
  rcases Markup.nestFrom_cons opened event with ⟨opened', hpass⟩ | ⟨error, hstop⟩
  · refine .inl ⟨opened', fun fault events => ?_⟩
    rw [readNested, hpass]
    rfl
  · refine .inr ⟨error, fun fault events => ?_⟩
    rw [readNested, hstop]
    rfl

/-- Texts at the end make no tree. -/
theorem readNested_texts_ne {fault : Option Markup.Error} {opened : List (List UInt8)}
    {stack : List Opened} {events : List Event} (htexts : ∀ event ∈ events, event.IsText)
    (n : Node) : readNested fault opened stack events ≠ .ok (some n) := by
  induction events generalizing opened stack with
  | nil => exact readEnd_ne_some
  | cons event events ih =>
    obtain ⟨htext, hrest⟩ := List.forall_mem_cons.1 htexts
    rcases readNested_cons opened stack event with ⟨opened', hpass⟩ | ⟨error, hstop⟩
    · rw [hpass]
      cases event with
      | text bytes =>
        cases hstep : readStep stack (.text bytes) with
        | error error => simp
        | ok progress =>
          obtain ⟨stack', rfl⟩ := readStep_text hstep
          exact ih hrest
      | start | empty | close | characterData | aside => cases htext
    · rw [hstop]
      exact readEnd_ne_some

/-- A tree that is read from some events and texts is read from those events, whatever comes in
place of the texts. -/
theorem readNested_append {fault : Option Markup.Error} {opened : List (List UInt8)}
    {stack : List Opened} {events last : List Event} (hlast : ∀ event ∈ last, event.IsText)
    {n : Node} (h : readNested fault opened stack (events ++ last) = .ok (some n))
    (fault' : Option Markup.Error) (more : List Event) :
    readNested fault' opened stack (events ++ more) = .ok (some n) := by
  induction events generalizing opened stack with
  | nil => exact absurd h (readNested_texts_ne hlast n)
  | cons event events ih =>
    rw [List.cons_append] at h ⊢
    rcases readNested_cons opened stack event with ⟨opened', hpass⟩ | ⟨error, hstop⟩
    · rw [hpass] at h ⊢
      cases hstep : readStep stack event with
      | error error =>
        rw [hstep] at h
        cases h
      | ok progress =>
        rw [hstep] at h
        cases progress with
        | finished root => exact h
        | reading stack' => exact ih h
    · rw [hstop] at h
      exact absurd h readEnd_ne_some

/-- Octets without a bracket hold no tree. -/
theorem parse_ne_of_not_mem {bytes : List UInt8} (h : 0x3C ∉ bytes) (n : Node) :
    parse bytes ≠ .ok (some n) := by
  have hdrop : 0x3C ∉ Markup.dropMark bytes := by
    rw [Markup.dropMark]
    split
    · exact fun hmem => h (List.mem_of_mem_drop hmem)
    · exact h
  have htexts : ∀ event ∈ (Markup.eventsFrom [] (Markup.dropMark bytes)).1, event.IsText := by
    cases hbytes : Markup.dropMark bytes with
    | nil => simp [Markup.eventsFrom]
    | cons b rest =>
      rw [hbytes, List.mem_cons, not_or] at hdrop
      have hrest : rest.dropWhile (· != 0x3C) = [] := by
        refine List.dropWhile_eq_nil_iff.2 fun c hc => ?_
        rw [bne_iff_ne]
        rintro rfl
        exact hdrop.2 hc
      have hnext : Markup.nextEvent (b :: rest) =
          .event (.text (b :: rest.takeWhile (· != 0x3C))) [] := by
        rw [Markup.nextEvent, if_neg (Ne.symm hdrop.1), hrest]
      rw [Markup.eventsFrom_event hnext, Markup.eventsFrom]
      simp [Event.IsText]
  exact readNested_texts_ne htexts n

/-- **What is read stays, whatever follows.** -/
theorem parse_append {bytes : List UInt8} {n : Node} (h : parse bytes = .ok (some n))
    (more : List UInt8) : parse (bytes ++ more) = .ok (some n) := by
  obtain ⟨events, last, rest, fault, hevents, hlast, hcuts⟩ :=
    Markup.exists_cuts_append (Markup.dropMark bytes)
  have hmore := hcuts more
  have hmem : 0x3C ∈ bytes := by_contra fun hno => parse_ne_of_not_mem hno n h
  rw [← Markup.dropMark_append hmem] at hmore
  rw [parse_eq_readNested, Markup.events, hevents] at h
  rw [parse_eq_readNested, Markup.events, hmore.eventsFrom_eq, Markup.eventsFrom_eq,
    List.append_nil, List.reverse_reverse]
  exact readNested_append hlast h _ _

/-! ### Trees that are torn in their last tag -/

/-- Events that fit each other are passed over by the check of the nesting. -/
theorem readNested_of_nested {events : List Event} (h : Nested events)
    (fault : Option Markup.Error) (more : List Event) :
    readNested fault [] [] (events ++ more) =
      readEvents (Markup.nestFrom fault [] [] more).fault []
        (events ++ (Markup.nestFrom fault [] [] more).events) := by
  rw [readNested, h, List.append_nil, Markup.nestFrom_eq, List.reverse_reverse]

/-- Characters that begin with a tag, and are no tree since a tag is open at their end. -/
structure Torn (chars : List Char) : Prop where
  head : (encode chars).head? = some 0x3C
  reads : readNested (Markup.eventsFrom [] (encode chars)).2 [] []
    (Markup.eventsFrom [] (encode chars)).1 = .error (.malformed (.token .tag))

/-- The declaration and the layout in front of a torn tree do not mend it. -/
theorem Torn.parse_eq {chars : List Char} (h : Torn chars) :
    parse (encode (declaration.toList ++ (newline 0 ++ chars))) =
      .error (.malformed (.token .tag)) := by
  obtain ⟨blanks, hblanks, hsays⟩ := exists_beforeMarkup_newline 0
  have hcuts : Cuts (encode declaration.toList ++ (encode (newline 0) ++ encode chars))
      (.aside :: blanks) (encode chars) :=
    .cons (nextEvent_declaration _) (hblanks.cuts _ h.head)
  have hnested : Nested (.aside :: blanks) := Nested.aside.append hblanks.nested
  have haside : readStep [] .aside = .ok (.reading []) := rfl
  rw [parse_eq_readNested, Utf8.encode_append, Utf8.encode_append, Markup.events,
    dropMark_declaration, hcuts.eventsFrom_eq, Markup.eventsFrom_eq, List.append_nil,
    List.reverse_reverse]
  dsimp only
  rw [readNested_of_nested hnested, List.cons_append, readEvents_cons haside, readOn,
    readEvents_saysAll_outside hsays]
  exact h.reads

/-- An element of one tag without its bracket. -/
theorem WellNamed.torn_emptyElement {n : Node} (h : WellNamed n) :
    Torn ('<' :: (h.tag.chars ++ ['/'])) := by
  obtain ⟨b, tail, hcons, hbang, hquery, -⟩ := h.tag.exists_octets_eq_cons
  have hbytes : encode ('<' :: (h.tag.chars ++ ['/'])) = 0x3C :: (h.tag.octets ++ [0x2F]) := by
    rw [Utf8.encode_cons, Utf8.encode_append]
    rfl
  have hfault : Markup.nextEvent (0x3C :: (h.tag.octets ++ [0x2F])) = .fault (.token .tag) := by
    refine Markup.nextEvent_unclosed (h.tag.balanced.append Markup.balanced_slash) ?_
    rw [hcons]
    simpa using ⟨hbang, hquery⟩
  refine ⟨rfl, ?_⟩
  rw [hbytes, Markup.eventsFrom_fault hfault]
  rfl

/-- An element of two tags without its last bracket. -/
theorem WellNamed.torn_element {n : Node} (h : WellNamed n) {inner : List Char}
    {events : List Event} (hinner : BeforeMarkup inner events)
    (hreads : ∀ fault stack more, ∃ o : Opened,
      readEvents fault (⟨n.name, n.attributes, "", []⟩ :: stack) (events ++ more) =
        readEvents fault (o :: stack) more) :
    Torn ('<' :: (h.tag.chars ++ '>' :: (inner ++ '<' :: '/' :: n.name.toList))) := by
  have hbytes : encode ('<' :: (h.tag.chars ++ '>' :: (inner ++ '<' :: '/' :: n.name.toList))) =
      0x3C :: (h.tag.octets ++ 0x3E :: (encode inner ++ 0x3C :: 0x2F :: encode n.name.toList)) := by
    have hopen (text : List Char) : encode ('<' :: text) = 0x3C :: encode text := rfl
    have hstroke (text : List Char) : encode ('/' :: text) = 0x2F :: encode text := rfl
    have hend (text : List Char) : encode ('>' :: text) = 0x3E :: encode text := rfl
    simp only [hopen, hstroke, hend, Utf8.encode_append, WrittenTag.octets]
  have hcuts : Cuts (0x3C :: (h.tag.octets ++ 0x3E ::
      (encode inner ++ 0x3C :: 0x2F :: encode n.name.toList)))
      (.start h.tag.octets :: events) (0x3C :: 0x2F :: encode n.name.toList) :=
    .cons (h.tag.nextEvent_start _) (hinner.cuts _ rfl)
  have hfault : Markup.nextEvent (0x3C :: 0x2F :: encode n.name.toList) = .fault (.token .tag) :=
    Markup.nextEvent_unclosed (Markup.balanced_slash.append h.name_plain.balanced) (by simp)
  refine ⟨rfl, ?_⟩
  rw [hbytes, hcuts.eventsFrom_eq, Markup.eventsFrom_eq, Markup.eventsFrom_fault hfault]
  -- the events of the content are nested, and the start tag in front of them stays open
  have hpass (fault : Option Markup.Error) :
      Markup.nestFrom fault [] [] (.start h.tag.octets :: events) =
        ⟨.start h.tag.octets :: events, fault⟩ := by
    have hnested := hinner.nested fault [.start h.tag.octets] [Markup.nameOf h.tag.octets] []
    rw [List.append_nil] at hnested
    rw [Markup.nestFrom, hnested, Markup.nestFrom]
    simp
  obtain ⟨o, hread⟩ := hreads (some (.token .tag)) [] []
  rw [List.append_nil] at hread
  simp only [List.append_nil, List.reverse_reverse, List.reverse_nil]
  rw [readNested, hpass, readEvents_cons (h.readStep_start []), readOn, hread]
  rfl

/-- The written form of an element is torn without its last bracket. -/
theorem exists_torn_renderAt {n : Node} (h : Every WellNamed n) (depth : Nat) :
    ∃ chars, renderAt depth n = chars ++ ['>'] ∧ Torn chars := by
  have hself := h.self
  cases hchildren : n.children with
  | nil =>
    by_cases htext : n.text = ""
    · refine ⟨_, ?_, hself.torn_emptyElement⟩
      rw [hself.renderAt_of_empty htext hchildren, WrittenTag.emptyElement]
      simp
    · obtain ⟨events, hcuts, hsays⟩ := Markup.exists_beforeMarkup_run
        (Markup.spells_escape n.text.toList) (Markup.not_mem_escape (by simp) _)
      refine ⟨_, ?_, hself.torn_element hcuts fun fault stack more =>
        ⟨_, readEvents_saysAll hsays fault _ stack more⟩⟩
      rw [hself.renderAt_of_text htext hchildren, WrittenTag.element, WellNamed.tag]
      simp
  | cons child others =>
    have hall : ∀ c ∈ child :: others, ∃ events,
        ReadsAs (renderAt (depth + 1) c) (c.reread (depth + 1)) events := fun c hc =>
      readsAs_renderAt (h.children (hchildren ▸ hc)) (depth + 1)
    obtain ⟨events, hinner⟩ := readsInside_content n.text hall
    refine ⟨_, ?_, hself.torn_element hinner.toBeforeMarkup fun fault stack more =>
      ⟨_, hinner.reads fault _ stack more⟩⟩
    rw [hself.renderAt_of_children (by simp [hchildren]), hchildren, WrittenTag.element,
      WellNamed.tag]
    simp

/-- **The written form of a tree holds no tree before its last bracket.** -/
theorem exists_body_of_render {n : Node} (h : Every WellNamed n) :
    ∃ body, encode n.render.toList = body ++ Markup.octets ">\n" ∧
      ∀ torn, torn <+: body → ∀ m, parse torn ≠ .ok (some m) := by
  obtain ⟨chars, hchars, htorn⟩ := exists_torn_renderAt h 0
  refine ⟨encode (declaration.toList ++ (newline 0 ++ chars)), ?_, ?_⟩
  · rw [render, hchars, String.toList_ofList, Markup.octets, ← Utf8.encode_append]
    simp
  · rintro torn ⟨missing, hbody⟩ m hparse
    have hwhole := parse_append hparse missing
    rw [hbody, htorn.parse_eq] at hwhole
    cases hwhole

end Accession.Node

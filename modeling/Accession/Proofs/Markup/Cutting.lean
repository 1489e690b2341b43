import Accession.Markup.Event
import Accession.Proofs.Lists
import Accession.Proofs.Markup.Tag
import Mathlib.Order.Basic
set_option autoImplicit false

/-!
# Cutting marked-up text into events

Octets that begin with written markup are cut into the events of that markup, whatever follows.
The relation of octets to the events they begin with is put together piece by piece, and rows of
events whose end tags fit their start tags pass the check of the nesting.

## Main definitions

* `Markup.Cuts` — octets begin with some events, and leave some octets.
* `Markup.Nested` — events whose end tags fit their start tags.

## Main results

* `Markup.Cuts.append` — one row of events behind another.
* `Markup.read_eq_of_cuts` — the events that octets begin with are the first ones read.
* `Markup.nextEvent_text`, `Markup.nextEvent_comment`, `Markup.nextEvent_characterData`,
  `Markup.nextEvent_instruction` — the events of what is no tag.
* `Markup.dropMark_append` — a byte order mark stands in front of octets, or not, whatever follows.
-/

namespace Accession.Markup

open Utf8 (encode)

/-! ### Rows of events -/

/-- `Cuts bytes events rest`: the octets begin with these events, and leave the octets `rest`. -/
inductive Cuts : List UInt8 → List Event → List UInt8 → Prop
  | nil (bytes : List UInt8) : Cuts bytes [] bytes
  | cons {bytes mid rest : List UInt8} {event : Event} {events : List Event}
      (h : nextEvent bytes = .event event mid) (htail : Cuts mid events rest) :
      Cuts bytes (event :: events) rest

/-- An event that comes next is cut off by itself. -/
theorem Cuts.single {bytes rest : List UInt8} {event : Event}
    (h : nextEvent bytes = .event event rest) : Cuts bytes [event] rest :=
  .cons h (.nil rest)

/-- Events behind events. -/
theorem Cuts.append {bytes mid rest : List UInt8} {events events' : List Event}
    (h : Cuts bytes events mid) (h' : Cuts mid events' rest) :
    Cuts bytes (events ++ events') rest := by
  induction h with
  | nil => exact h'
  | cons hnext _ ih => exact .cons hnext (ih h')

/-- The first events of some octets, as many as asked for, and the octets that they leave. -/
def firstEvents : Nat → List UInt8 → Option (List Event × List UInt8)
  | 0, bytes => some ([], bytes)
  | n + 1, bytes =>
    match nextEvent bytes with
    | .event event rest => (firstEvents n rest).map fun row => (event :: row.1, row.2)
    | _ => none

/-- The events that octets begin with can be computed. -/
theorem cuts_iff_firstEvents {bytes rest : List UInt8} {events : List Event} :
    Cuts bytes events rest ↔ firstEvents events.length bytes = some (events, rest) := by
  induction events generalizing bytes with
  | nil =>
    rw [List.length_nil, firstEvents]
    refine ⟨fun h => ?_, fun h => ?_⟩
    · cases h
      rfl
    · cases h
      exact .nil _
  | cons event events ih =>
    rw [List.length_cons, firstEvents]
    refine ⟨fun h => ?_, fun h => ?_⟩
    · cases h with
      | cons hnext htail =>
        rw [hnext]
        dsimp only
        rw [ih.1 htail]
        rfl
    · split at h
      · rename_i hnext
        obtain ⟨row, hrow, heq⟩ := Option.map_eq_some_iff.1 h
        cases heq
        exact .cons hnext (ih.2 hrow)
      · cases h

instance (bytes : List UInt8) (events : List Event) (rest : List UInt8) :
    Decidable (Cuts bytes events rest) :=
  decidable_of_iff _ cuts_iff_firstEvents.symm

/-- The first event goes behind those that were cut off before it. -/
theorem eventsFrom_event {bytes rest : List UInt8} {event : Event}
    (h : nextEvent bytes = .event event rest) (done : List Event) :
    eventsFrom done bytes = eventsFrom (event :: done) rest := by
  cases bytes with
  | nil => simp [nextEvent] at h
  | cons b bytes =>
    rw [eventsFrom]
    split
    · rename_i hcut
      rw [h] at hcut
      cases hcut
    · rename_i hcut
      rw [h] at hcut
      cases hcut
    · rename_i hcut
      rw [h] at hcut
      cases hcut
      rfl

/-- What is no event ends the cutting. -/
theorem eventsFrom_fault {bytes : List UInt8} {error : Error}
    (h : nextEvent bytes = .fault error) (done : List Event) :
    eventsFrom done bytes = (done.reverse, some error) := by
  cases bytes with
  | nil => cases h
  | cons b bytes =>
    rw [eventsFrom]
    split
    · rename_i hcut
      rw [h] at hcut
      cases hcut
    · rename_i hcut
      rw [h] at hcut
      cases hcut
      rfl
    · rename_i hcut
      rw [h] at hcut
      cases hcut

/-- Events that were cut off before come first. -/
theorem eventsFrom_eq (done : List Event) (bytes : List UInt8) :
    eventsFrom done bytes =
      (done.reverse ++ (eventsFrom [] bytes).1, (eventsFrom [] bytes).2) := by
  induction hlength : bytes.length using Nat.strong_induction_on generalizing done bytes with
  | _ length ih =>
    cases bytes with
    | nil => simp [eventsFrom]
    | cons b bytes =>
      cases hcut : nextEvent (b :: bytes) with
      | done =>
        rw [eventsFrom, eventsFrom]
        split <;> simp_all
      | fault error => simp [eventsFrom_fault hcut]
      | event event rest =>
        have hle := length_nextEvent b bytes
        rw [hcut] at hle
        simp only [Cut.rest] at hle
        have hlt : rest.length < length := by
          rw [← hlength, List.length_cons]
          omega
        rw [eventsFrom_event hcut done, eventsFrom_event hcut [], ih _ hlt (event :: done) rest rfl,
          ih _ hlt [event] rest rfl]
        simp

/-- The events that octets begin with go behind those that were cut off before them. -/
theorem Cuts.eventsFrom_eq {bytes rest : List UInt8} {events : List Event}
    (h : Cuts bytes events rest) (done : List Event) :
    eventsFrom done bytes = eventsFrom (events.reverse ++ done) rest := by
  induction h generalizing done with
  | nil => rfl
  | cons hnext _ ih =>
    rw [eventsFrom_event hnext, ih]
    simp

/-! ### Nesting -/

/-- Events whose end tags fit their start tags: the check of the nesting passes over them, whatever
is open around them. -/
def Nested (events : List Event) : Prop :=
  ∀ fault done opened more,
    nestFrom fault done opened (events ++ more) =
      nestFrom fault (events.reverse ++ done) opened more

/-- No events are nested. -/
theorem Nested.nil : Nested [] :=
  fun _ _ _ _ => rfl

/-- Nested events may follow each other. -/
theorem Nested.append {events events' : List Event} (h : Nested events) (h' : Nested events') :
    Nested (events ++ events') := by
  intro fault done opened more
  rw [List.append_assoc, h, h', List.reverse_append, List.append_assoc]

/-- An element of one tag opens and closes nothing else. -/
theorem Nested.empty (content : List UInt8) : Nested [.empty content] :=
  fun _ _ _ _ => rfl

/-- A text opens and closes nothing. -/
theorem Nested.text (bytes : List UInt8) : Nested [.text bytes] :=
  fun _ _ _ _ => rfl

/-- A character data section opens and closes nothing. -/
theorem Nested.characterData (bytes : List UInt8) : Nested [.characterData bytes] :=
  fun _ _ _ _ => rfl

/-- What means nothing opens and closes nothing. -/
theorem Nested.aside : Nested [.aside] :=
  fun _ _ _ _ => rfl

/-- Events between a start tag and its end tag. -/
theorem Nested.element {content name : List UInt8} {events : List Event} (h : Nested events)
    (hname : nameOf content = name) : Nested (.start content :: (events ++ [.close name])) := by
  intro fault done opened more
  rw [List.cons_append, nestFrom, List.append_assoc, h, List.singleton_append, nestFrom,
    if_pos hname]
  simp

/-- Events that passed before come first. -/
theorem nestFrom_eq (fault : Option Error) (done : List Event) (opened : List (List UInt8))
    (events : List Event) :
    nestFrom fault done opened events =
      ⟨done.reverse ++ (nestFrom fault [] opened events).events,
        (nestFrom fault [] opened events).fault⟩ := by
  induction events generalizing done opened with
  | nil => simp [nestFrom]
  | cons event events ih =>
    cases event with
    | start content =>
      rw [nestFrom, nestFrom, ih, ih [.start content]]
      simp
    | close name =>
      cases opened with
      | nil => simp [nestFrom]
      | cons expected opened =>
        rw [nestFrom, nestFrom]
        split
        · rw [ih, ih [.close name]]
          simp
        · simp
    | empty content =>
      rw [nestFrom, nestFrom, ih, ih [.empty content]] <;> simp
    | text bytes =>
      rw [nestFrom, nestFrom, ih, ih [.text bytes]] <;> simp
    | characterData bytes =>
      rw [nestFrom, nestFrom, ih, ih [.characterData bytes]] <;> simp
    | aside =>
      rw [nestFrom, nestFrom, ih, ih [.aside]] <;> simp

/-- The events that octets begin with are the first ones read, if they are nested. -/
theorem read_eq_of_cuts {bytes rest : List UInt8} {events : List Event}
    (h : Cuts (dropMark bytes) events rest) (hnested : Nested events) :
    read bytes =
      ⟨events ++ (nest (eventsFrom [] rest)).events, (nest (eventsFrom [] rest)).fault⟩ := by
  have hevents : Markup.events bytes =
      (events ++ (eventsFrom [] rest).1, (eventsFrom [] rest).2) := by
    rw [Markup.events, h.eventsFrom_eq, eventsFrom_eq]
    simp
  rw [read, nest, hevents, hnested, nestFrom_eq]
  simp [nest]

/-! ### Texts -/

/-- A text up to the next bracket or up to the end is one event. -/
theorem nextEvent_run {bytes rest : List UInt8} (hne : bytes ≠ []) (hopen : 0x3C ∉ bytes)
    (hrest : ∀ b ∈ rest.head?, b = 0x3C) :
    nextEvent (bytes ++ rest) = .event (.text bytes) rest := by
  obtain ⟨b, tail, rfl⟩ := List.exists_cons_of_ne_nil hne
  rw [List.mem_cons, not_or] at hopen
  have hstop := List.takeWhile_dropWhile_append (· != 0x3C) tail rest
    (fun x hx => by
      rw [bne_iff_ne]
      rintro rfl
      exact hopen.2 hx)
    (fun x hx => by
      rw [hrest x hx]
      rfl)
  rw [List.cons_append, nextEvent, if_neg (Ne.symm hopen.1), hstop.1, hstop.2]

/-- A text up to the next tag is one event. -/
theorem nextEvent_text {bytes rest : List UInt8} (hne : bytes ≠ []) (hopen : 0x3C ∉ bytes)
    (hrest : rest.head? = some 0x3C) : nextEvent (bytes ++ rest) = .event (.text bytes) rest := by
  refine nextEvent_run hne hopen fun b hb => ?_
  rw [hrest] at hb
  exact (Option.mem_some_iff.1 hb).symm

/-! ### Markup that ends with a pattern -/

/-- A pattern that does not end with a proper beginning of its own. -/
def Borderless (pattern : List UInt8) : Prop :=
  ∀ k < pattern.length, 0 < k → ¬pattern.drop k <+: pattern

instance (pattern : List UInt8) : Decidable (Borderless pattern) :=
  inferInstanceAs (Decidable (∀ k < _, _))

/-- Octets without a borderless pattern, followed by the pattern, do not hold it any earlier. -/
theorem Borderless.not_prefix {pattern content rest : List UInt8} (h : Borderless pattern)
    (hcontent : content ≠ []) (hno : ¬pattern <:+: content) :
    ¬pattern <+: content ++ (pattern ++ rest) := by
  intro hprefix
  have hlength : 0 < content.length := List.length_pos_iff.2 hcontent
  rcases List.prefix_or_prefix_of_prefix hprefix (List.prefix_append content _) with hin | hover
  · exact hno hin.isInfix
  · obtain ⟨tail, htail⟩ := hover
    have hdrop : pattern.drop content.length = tail := by
      rw [← htail, List.drop_left]
    by_cases hempty : tail = []
    · rw [hempty, List.append_nil] at htail
      exact hno (htail ▸ List.infix_rfl)
    · have htailLength : 0 < tail.length := List.length_pos_iff.2 hempty
      have hsum : content.length + tail.length = pattern.length := by
        rw [← List.length_append, htail]
      refine h content.length (by omega) hlength ?_
      -- the end of the pattern lies over the beginning of the one that follows
      rw [hdrop]
      have hover : tail <+: pattern ++ rest := by
        rw [← htail] at hprefix
        exact (List.prefix_append_right_inj content).1 (htail ▸ hprefix)
      exact List.prefix_of_prefix_length_le hover (List.prefix_append ..) (by omega)

/-- Markup is cut at its end pattern, if that does not stand inside it. -/
theorem cutAt_eq {pattern : List UInt8} (h : Borderless pattern) (hpattern : pattern ≠ [])
    {content : List UInt8} (hno : ¬pattern <:+: content) (done rest : List UInt8) :
    cutAt pattern done (content ++ (pattern ++ rest)) = some (done.reverse ++ content, rest) := by
  induction content generalizing done with
  | nil =>
    obtain ⟨b, tail, rfl⟩ := List.exists_cons_of_ne_nil hpattern
    have hself : (b :: tail).isPrefixOf (b :: (tail ++ rest)) = true :=
      List.isPrefixOf_iff_prefix.2 ⟨rest, rfl⟩
    rw [List.nil_append, List.cons_append, cutAt, if_pos hself, List.length_cons,
      List.drop_succ_cons, List.drop_left, List.append_nil]
  | cons b content ih =>
    have hfirst : ¬pattern.isPrefixOf (b :: (content ++ (pattern ++ rest))) = true := fun hp =>
      h.not_prefix (List.cons_ne_nil b content) hno (List.isPrefixOf_iff_prefix.1 hp)
    have htail : ¬pattern <:+: content := fun hp => hno (List.infix_cons hp)
    rw [List.cons_append, cutAt, if_neg hfirst, ih htail]
    simp

/-- The end of a character data section. -/
def sectionEnd : List UInt8 :=
  [0x5D, 0x5D, 0x3E]

/-- The end of an instruction. -/
def instructionEnd : List UInt8 :=
  [0x3F, 0x3E]

/-- The end of a comment. -/
def commentEnd : List UInt8 :=
  [0x2D, 0x2D, 0x3E]

/-- A comment is one event, which means nothing, if its end does not stand inside it. -/
theorem nextEvent_comment {content : List UInt8} (h : ¬commentEnd <:+: content)
    (rest : List UInt8) :
    nextEvent (0x3C :: 0x21 :: 0x2D :: 0x2D :: (content ++ (commentEnd ++ rest))) =
      .event .aside rest := by
  have hborder : Borderless commentEnd := by decide
  have hcut := cutAt_eq hborder (by decide) h [] rest
  rw [nextEvent, if_pos rfl, markup, if_pos rfl, declaration, if_neg (by decide), if_pos rfl,
    comment]
  rw [commentEnd] at hcut ⊢
  rw [hcut]

/-- A character data section is one event, if its end does not stand inside it. -/
theorem nextEvent_characterData {content : List UInt8} (h : ¬sectionEnd <:+: content)
    (rest : List UInt8) :
    nextEvent (octets "<![CDATA[" ++ (content ++ (sectionEnd ++ rest))) =
      .event (.characterData content) rest := by
  have hborder : Borderless sectionEnd := by decide
  have hopen : octets "<![CDATA[" = 0x3C :: 0x21 :: octets "[CDATA[" := by decide +kernel
  have hstart : (octets "[CDATA[").isPrefixOf
      (octets "[CDATA[" ++ (content ++ (sectionEnd ++ rest))) = true :=
    List.isPrefixOf_iff_prefix.2 (List.prefix_append ..)
  have hlength : (octets "[CDATA[").length = 7 := by decide +kernel
  have hcons : octets "[CDATA[" = 0x5B :: octets "CDATA[" := by decide +kernel
  have hcut := cutAt_eq hborder (by decide) h [] rest
  rw [hopen, List.cons_append, List.cons_append, nextEvent, if_pos rfl, markup, if_pos rfl, hcons,
    List.cons_append, declaration, if_pos rfl, ← List.cons_append, ← hcons, characterData,
    if_pos hstart, ← hlength, List.drop_left]
  rw [sectionEnd] at hcut ⊢
  rw [hcut]
  rfl

/-- An instruction is one event, which means nothing, if its end does not stand inside it. -/
theorem nextEvent_instruction {content : List UInt8} (h : ¬instructionEnd <:+: content)
    (hhead : content.head? ≠ some 0x3E) (rest : List UInt8) :
    nextEvent (0x3C :: 0x3F :: (content ++ (instructionEnd ++ rest))) = .event .aside rest := by
  have hborder : Borderless instructionEnd := by decide
  have hcut := cutAt_eq hborder (by decide) h [] rest
  have hfirst : (content ++ (instructionEnd ++ rest)).head? ≠ some 0x3E := by
    cases content with
    | nil => simp [instructionEnd]
    | cons b content => simpa using hhead
  rw [nextEvent, if_pos rfl, markup, if_neg (by decide), if_pos rfl, instruction, if_neg hfirst]
  rw [instructionEnd] at hcut ⊢
  rw [hcut]

/-! ### The byte order mark -/

/-- At most a mark in front is dropped. -/
theorem dropMark_suffix (bytes : List UInt8) : dropMark bytes <:+ bytes := by
  unfold dropMark
  split
  · exact List.drop_suffix ..
  · exact List.suffix_rfl

/-- A mark in front of octets is dropped, whatever follows them. -/
theorem dropMark_of_marked {lead : List UInt8} (h : byteOrderMark <+: lead) (more : List UInt8) :
    dropMark (lead ++ more) = lead.drop 3 ++ more := by
  have hlength : 3 ≤ lead.length := h.length_le
  rw [dropMark, if_pos (List.isPrefixOf_iff_prefix.2 (h.trans (List.prefix_append ..))),
    List.drop_append_of_le_length hlength]

/-- Octets without a mark are left as they are. -/
theorem dropMark_of_unmarked {bytes : List UInt8} (h : ¬byteOrderMark <+: bytes) :
    dropMark bytes = bytes := by
  rw [dropMark, if_neg fun hp => h (List.isPrefixOf_iff_prefix.1 hp)]

/-- The byte order mark stands in front of a bracket as a whole or not at all. -/
theorem dropMark_bracket (lead tail : List UInt8) :
    dropMark (lead ++ 0x3C :: tail) = dropMark lead ++ 0x3C :: tail := by
  by_cases hmark : byteOrderMark <+: lead
  · have hself := dropMark_of_marked hmark []
    rw [List.append_nil, List.append_nil] at hself
    rw [dropMark_of_marked hmark, hself]
  · rw [dropMark_of_unmarked hmark, dropMark_of_unmarked]
    intro hprefix
    rcases List.prefix_or_prefix_of_prefix hprefix (List.prefix_append ..) with hin | ⟨more, hmore⟩
    · exact hmark hin
    · rw [← hmore, List.prefix_append_right_inj] at hprefix
      cases more with
      | nil => exact hmark ⟨[], by rw [← hmore, List.append_nil, List.append_nil]⟩
      | cons b more =>
        obtain rfl := (List.cons_prefix_cons.1 hprefix).1
        have hno : (0x3C : UInt8) ∉ byteOrderMark := by decide
        exact hno (by rw [← hmore]; simp)

/-- Octets with markup among them have the byte order mark in front, or not, whatever follows. -/
theorem dropMark_append {front : List UInt8} (h : 0x3C ∈ front) (more : List UInt8) :
    dropMark (front ++ more) = dropMark front ++ more := by
  obtain ⟨lead, tail, rfl⟩ := List.append_of_mem h
  rw [List.append_assoc, List.cons_append, dropMark_bracket, dropMark_bracket, List.append_assoc,
    List.cons_append]

/-- Octets keep or lose a mark at their front if what follows some place in them is replaced by
markup. -/
theorem dropMark_replace {lead front rest : List UInt8}
    (h : dropMark (lead ++ rest) = front ++ rest) (tail : List UInt8) :
    dropMark (lead ++ 0x3C :: tail) = front ++ 0x3C :: tail := by
  by_cases hmark : byteOrderMark <+: lead
  · rw [dropMark_of_marked hmark] at h ⊢
    rw [List.append_cancel_right h]
  · rw [dropMark_bracket, dropMark_of_unmarked hmark]
    by_cases hover : byteOrderMark <+: lead ++ rest
    · -- then more octets would be left than there are behind the mark
      have hlength := hover.length_le
      have hthree : byteOrderMark.length = 3 := rfl
      rw [dropMark, if_pos (List.isPrefixOf_iff_prefix.2 hover)] at h
      have hsum := congrArg List.length h
      simp only [List.length_drop, List.length_append] at hsum hlength
      exact absurd (List.prefix_of_prefix_length_le hover (List.prefix_append ..) (by omega)) hmark
    · rw [dropMark_of_unmarked hover] at h
      rw [List.append_cancel_right h]

end Accession.Markup

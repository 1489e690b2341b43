import Accession.Proofs.Markup.Breaking
import Accession.Proofs.Manifest.Reading
set_option autoImplicit false

/-!
# How a reader gets on

A manifest is read event by event, and the check of the nesting goes along: where an event stands is
told by the names of the open elements and by the state of the reader. This module says what one
event does to the two, and what a row of events does. The frames of the reader are the open elements
outside those that are passed over, and complete elements leave them as they were.

## Main definitions

* `Manifest.Place`, `Manifest.readOn` — where a reading stands, and how it goes on.
* `Manifest.Reads`, `Manifest.Finishes` — events that a reading goes through, and one that ends it.
* `Manifest.Moves` — what one event may do to a reader.
* `Manifest.Agrees` — the reader knows the open elements.
* `Manifest.Restores` — a reader is back where it was, up to the files read in between.

## Main results

* `Manifest.readOn_of_reads` — a reading goes on behind the events it goes through.
* `Manifest.exists_reads_of_readOn` — a reading without error ends with an event, or at the end.
* `Manifest.Agrees.reads` — a reader that knows the open elements goes on knowing them.
* `Manifest.Reads.restores` — complete elements leave the open elements as they were.
-/

namespace Accession.Manifest

open Markup (Cuts Event Opens WellNested nameOf nextEvent openAfter)

/-! ### Places -/

/-- Where a reading stands: the names of the open elements, innermost first, and the reader. -/
structure Place where
  opened : List (List UInt8)
  state : State

/-- Where a reading starts. -/
def Place.start : Place :=
  ⟨[], State.initial⟩

/-- Reads some octets from a place on. -/
def readOn (p : Place) (bytes : List UInt8) : Except Error Manifest :=
  let document := Markup.nestFrom (Markup.eventsFrom [] bytes).2 [] p.opened
    (Markup.eventsFrom [] bytes).1
  run document.fault p.state document.events

/-- A manifest is read from the start on. -/
theorem parse_eq_readOn (bytes : List UInt8) :
    parse bytes = readOn .start (Markup.dropMark bytes) :=
  rfl

variable {p q r : Place} {bytes rest : List UInt8} {event : Event} {events : List Event}
  {manifest : Manifest}

/-- Where no octets are left the reading ends. -/
theorem readOn_nil (p : Place) : readOn p [] = finish p.state := by
  rw [readOn, Markup.eventsFrom]
  rfl

/-- What is no event is an error. -/
theorem readOn_fault {error : Markup.Error} (h : nextEvent bytes = .fault error) (p : Place) :
    readOn p bytes = .error (.malformed error) := by
  rw [readOn, Markup.eventsFrom_fault h]
  rfl

/-- An event passes the check of the nesting, and then it is the reader's. -/
theorem readOn_event (h : nextEvent bytes = .event event rest) (p : Place) :
    readOn p bytes =
      match openAfter p.opened event with
      | .error error => .error (.malformed error)
      | .ok opened =>
        match step p.state event with
        | .error error => .error error
        | .ok (.finished manifest) => .ok manifest
        | .ok (.reading state) => readOn ⟨opened, state⟩ rest := by
  rw [readOn, Markup.eventsFrom_event h, Markup.eventsFrom_eq, List.reverse_singleton,
    List.singleton_append]
  dsimp only
  rw [Markup.nestFrom_cons_eq]
  cases openAfter p.opened event with
  | error error => rfl
  | ok opened =>
    dsimp only
    rw [run]
    rfl

/-- A reading without error goes on behind an event, or ends with it. -/
theorem cases_of_readOn_event (hnext : nextEvent bytes = .event event rest)
    (h : readOn p bytes = .ok manifest) :
    ∃ opened, openAfter p.opened event = .ok opened ∧
      (step p.state event = .ok (.finished manifest) ∨
        ∃ state, step p.state event = .ok (.reading state) ∧
          readOn ⟨opened, state⟩ rest = .ok manifest) := by
  rw [readOn_event hnext] at h
  cases hopen : openAfter p.opened event with
  | error error =>
    rw [hopen] at h
    cases h
  | ok opened =>
    rw [hopen] at h
    dsimp only at h
    cases hstep : step p.state event with
    | error error =>
      rw [hstep] at h
      cases h
    | ok progress =>
      rw [hstep] at h
      cases progress with
      | finished closed =>
        cases h
        exact ⟨opened, rfl, .inl rfl⟩
      | reading state => exact ⟨opened, rfl, .inr ⟨state, rfl, h⟩⟩

/-! ### Rows of events -/

/-- `Reads p events q`: from the place `p` a reading goes through these events, and then stands at
the place `q`. -/
inductive Reads : Place → List Event → Place → Prop
  | nil (p : Place) : Reads p [] p
  | cons {p q : Place} {opened : List (List UInt8)} {state : State} {event : Event}
      {events : List Event} (hopen : openAfter p.opened event = .ok opened)
      (hstep : step p.state event = .ok (.reading state)) (htail : Reads ⟨opened, state⟩ events q) :
      Reads p (event :: events) q

/-- An event passes the check of the nesting, and the inventory is closed with it. -/
def Finishes (p : Place) (event : Event) (manifest : Manifest) : Prop :=
  (∃ opened, openAfter p.opened event = .ok opened) ∧
    step p.state event = .ok (.finished manifest)

namespace Reads

/-- Readings are put together where one stands as the other begins. -/
theorem append {events' : List Event} (h : Reads p events q) (h' : Reads q events' r) :
    Reads p (events ++ events') r := by
  induction h with
  | nil => exact h'
  | cons hopen hstep _ ih => exact .cons hopen hstep (ih h')

/-- A reading of some events and then others stands somewhere in between. -/
theorem of_append {events' : List Event} (h : Reads p (events ++ events') r) :
    ∃ q, Reads p events q ∧ Reads q events' r := by
  induction events generalizing p with
  | nil => exact ⟨p, .nil p, h⟩
  | cons event events ih =>
    cases h with
    | cons hopen hstep htail =>
      obtain ⟨q, hfront, hback⟩ := ih htail
      exact ⟨q, .cons hopen hstep hfront, hback⟩

/-- A reading goes through some events in one way only. -/
theorem unique (h : Reads p events q) (h' : Reads p events r) : q = r := by
  induction h with
  | nil =>
    cases h'
    rfl
  | cons hopen hstep _ ih =>
    cases h' with
    | cons hopen' hstep' htail' =>
      rw [hopen] at hopen'
      rw [hstep] at hstep'
      cases hopen'
      cases hstep'
      exact ih htail'

/-- The open elements are those that the check of the nesting has. -/
theorem opens (h : Reads p events q) : Opens p.opened events q.opened := by
  induction h with
  | nil => exact .nil _
  | cons hopen _ _ ih => exact .cons hopen ih

end Reads

/-- **A reading goes on behind the events it goes through.** -/
theorem readOn_of_reads (hcuts : Cuts bytes events rest) (h : Reads p events q) :
    readOn p bytes = readOn q rest := by
  induction h generalizing bytes with
  | nil =>
    cases hcuts
    rfl
  | cons hopen hstep _ ih =>
    cases hcuts with
    | cons hnext htail =>
      rw [readOn_event hnext, hopen]
      dsimp only
      rw [hstep]
      exact ih htail

/-- The event that closes the inventory ends a reading. -/
theorem readOn_of_finishes (h : Finishes p event manifest)
    (hnext : nextEvent bytes = .event event rest) : readOn p bytes = .ok manifest := by
  obtain ⟨⟨opened, hopen⟩, hstep⟩ := h
  rw [readOn_event hnext, hopen]
  dsimp only
  rw [hstep]

/-- **A reading without error ends with the event that closes the inventory, or at the end** of the
octets. -/
theorem exists_reads_of_readOn (h : readOn p bytes = .ok manifest) :
    ∃ events rest q, Cuts bytes events rest ∧ Reads p events q ∧
      ((∃ event rest', nextEvent rest = .event event rest' ∧ Finishes q event manifest) ∨
        rest = [] ∧ finish q.state = .ok manifest) := by
  induction hlength : bytes.length using Nat.strong_induction_on generalizing bytes p with
  | _ length ih =>
    cases bytes with
    | nil => exact ⟨[], [], p, .nil _, .nil p, .inr ⟨rfl, readOn_nil p ▸ h⟩⟩
    | cons b bytes =>
      cases hnext : nextEvent (b :: bytes) with
      | done => exact absurd hnext (Markup.nextEvent_ne_done b bytes)
      | fault error =>
        rw [readOn_fault hnext] at h
        cases h
      | event event rest =>
        have hlt : rest.length < length := hlength ▸ Markup.length_lt_of_nextEvent hnext
        obtain ⟨opened, hopen, hstep | ⟨state, hstep, hon⟩⟩ := cases_of_readOn_event hnext h
        · exact ⟨[], b :: bytes, p, .nil _, .nil p,
            .inl ⟨event, rest, hnext, ⟨opened, hopen⟩, hstep⟩⟩
        · obtain ⟨events, rest', q, hcuts, hreads, hend⟩ := ih _ hlt hon rfl
          exact ⟨event :: events, rest', q, .cons hnext hcuts, .cons hopen hstep hreads, hend⟩

/-! ### One event -/

/-- The element whose name this is, with any prefix. -/
def Element.ofName? (name : List UInt8) : Option Element :=
  Element.all.find? fun element => Markup.octets element.tag = Markup.localName name

/-- Which element a tag opens is said by its name, whatever its attributes are. -/
theorem Element.ofContent?_eq (content : List UInt8) :
    Element.ofContent? content = Element.ofName? (nameOf content) :=
  rfl

/-- The elements that have a part of the path to themselves. -/
def Element.IsEntry (element : Element) : Prop :=
  element = .folder ∨ element = .file

/-- What it is to open an element: the frame is new, a file starts a declaration, and a name has no
segment yet. -/
structure Enters (s : State) (element : Element) (content : List UInt8) (s' : State) : Prop where
  frames : s'.frames = ⟨element, s.path.length⟩ :: s.frames
  path : s'.path = s.path
  started : s'.nameStarted = true → element ≠ .name ∧ s.nameStarted = true
  passing : s'.passing = s.passing
  manifest : s'.manifest = s.manifest
  pending : element ≠ .file → s'.pending = s.pending
  declared : element = .file → ∃ id, fileId content = .ok id ∧ s'.pending = some ⟨id, "", ""⟩

/-- Opening an element enters it. -/
theorem enters_of_openElement {s s' : State} {element : Element} {content : List UInt8}
    (h : s.openElement element content = .ok s') : Enters s element content s' := by
  by_cases hfile : element = .file
  · subst hfile
    rw [State.openElement] at h
    cases hid : fileId content with
    | error error =>
      rw [hid] at h
      cases h
    | ok id =>
      rw [hid] at h
      cases h
      exact ⟨rfl, rfl, fun hstarted => ⟨by decide, hstarted⟩, rfl, rfl, fun hne => absurd rfl hne,
        fun _ => ⟨id, hid, rfl⟩⟩
  · rw [s.openElement_of_ne hfile] at h
    cases h
    exact ⟨rfl, rfl, by simp [State.opened], rfl, rfl, fun _ => rfl, fun h => absurd h hfile⟩

/-- What it is to close an element that is not the inventory: its frame is gone, a folder or a file
cuts the path back, and a file is read no longer, but counts if it has a name. -/
structure Leaves (s : State) (s' : State) : Prop where
  frames : s'.frames = s.frames.tail
  cut : ∀ frame ∈ s.frames.head?, frame.element.IsEntry → s'.path = s.path.take frame.depth
  path : (∀ frame ∈ s.frames.head?, ¬frame.element.IsEntry) → s'.path = s.path
  started : s'.nameStarted = true →
    s.nameStarted = true ∧ ∀ frame ∈ s.frames.head?, frame.element ≠ .name
  passing : s'.passing = s.passing
  pending : s'.pending = none ∨
    s'.pending = s.pending ∧ ∀ frame ∈ s.frames.head?, frame.element ≠ .file
  manifest : s'.manifest = s.manifest ∨
    ∃ depth frames, s.frames = ⟨.file, depth⟩ :: frames ∧ s'.manifest = s.commit depth

/-- Closing an element that is not the inventory leaves it. -/
theorem leaves_of_closeElement {s s' : State} (h : s.closeElement = .reading s') :
    Leaves s s' := by
  unfold State.closeElement at h
  split at h
  · rename_i hframes
    cases h
    exact ⟨by rw [hframes]; rfl, by simp [hframes], fun _ => rfl, by simp [hframes], rfl,
      .inr ⟨rfl, by simp [hframes]⟩, .inl rfl⟩
  · rename_i element depth frames hframes
    cases element with
    | file =>
      cases h
      exact ⟨by rw [hframes]; rfl, by simp [hframes], by simp [hframes, Element.IsEntry],
        by simp [hframes], rfl, .inl rfl, .inr ⟨depth, frames, hframes, rfl⟩⟩
    | inventory => cases h
    | package | folder | name | algorithm | hash =>
      cases h
      exact ⟨by rw [hframes]; rfl, by simp [hframes, Element.IsEntry],
        by simp [hframes, Element.IsEntry], by simp [hframes], rfl,
        .inr ⟨rfl, by simp [hframes]⟩, .inl rfl⟩

/-- What one event may do to a reader that goes on. -/
inductive Moves (s : State) : Event → State → Prop
  | passed {event : Event} {name : List UInt8} {depth : Nat}
      (hpassing : s.passing = some (name, depth)) :
      Moves s event { s with passing := pass name depth event }
  | enters {content : List UInt8} {element : Element} {s' : State} (hpassing : s.passing = none)
      (helement : Element.ofContent? content = some element)
      (henters : Enters s element content s') : Moves s (.start content) s'
  | skips {content : List UInt8} (hpassing : s.passing = none)
      (helement : Element.ofContent? content = none) :
      Moves s (.start content) { s with passing := some (nameOf content, 0) }
  | visits {content : List UInt8} {element : Element} {mid s' : State} (hpassing : s.passing = none)
      (helement : Element.ofContent? content = some element)
      (henters : Enters s element content mid) (hleaves : Leaves mid s') :
      Moves s (.empty content) s'
  | ignores {content : List UInt8} (hpassing : s.passing = none)
      (helement : Element.ofContent? content = none) : Moves s (.empty content) s
  | leaves {name : List UInt8} {s' : State} (hpassing : s.passing = none) (hleaves : Leaves s s') :
      Moves s (.close name) s'
  | text {bytes : List UInt8} (text : String) (hpassing : s.passing = none) :
      Moves s (.text bytes) (s.takeText text)
  | characterData {bytes : List UInt8} (text : String) (hpassing : s.passing = none) :
      Moves s (.characterData bytes) (s.takeText text)
  | aside (hpassing : s.passing = none) : Moves s .aside s

section Steps

variable {s : State} {content : List UInt8} {progress : Progress} (hpassing : s.passing = none)

include hpassing

/-- A start tag opens an element of a manifest, or one that is passed over. -/
theorem cases_of_step_start (h : step s (.start content) = .ok progress) :
    (∃ element mid, Element.ofContent? content = some element ∧ Enters s element content mid ∧
      progress = .reading mid) ∨
    Element.ofContent? content = none ∧
      progress = .reading { s with passing := some (nameOf content, 0) } := by
  rw [step_of_none hpassing, readEvent] at h
  cases helement : Element.ofContent? content with
  | none =>
    rw [helement] at h
    cases h
    exact .inr ⟨rfl, rfl⟩
  | some element =>
    rw [helement] at h
    dsimp only at h
    cases hopen : s.openElement element content with
    | error error =>
      rw [hopen] at h
      cases h
    | ok mid =>
      rw [hopen] at h
      cases h
      exact .inl ⟨element, mid, rfl, enters_of_openElement hopen, rfl⟩

/-- A tag that is an element by itself opens and closes one of a manifest, or does nothing. -/
theorem cases_of_step_empty (h : step s (.empty content) = .ok progress) :
    (∃ element mid, Element.ofContent? content = some element ∧ Enters s element content mid ∧
      mid.closeElement = progress) ∨
    Element.ofContent? content = none ∧ progress = .reading s := by
  rw [step_of_none hpassing, readEvent] at h
  cases helement : Element.ofContent? content with
  | none =>
    rw [helement] at h
    cases h
    exact .inr ⟨rfl, rfl⟩
  | some element =>
    rw [helement] at h
    dsimp only at h
    cases hopen : s.openElement element content with
    | error error =>
      rw [hopen] at h
      cases h
    | ok mid =>
      rw [hopen] at h
      exact .inl ⟨element, mid, rfl, enters_of_openElement hopen, Except.ok.inj h⟩

/-- A text that can be read is taken. -/
theorem exists_takeText_of_step {bytes : List UInt8}
    (h : step s (.text bytes) = .ok progress) :
    ∃ text, progress = .reading (s.takeText text) := by
  rw [step_of_none hpassing, readEvent] at h
  cases hdecode : Markup.decodeText bytes with
  | error error =>
    rw [hdecode] at h
    cases h
  | ok text =>
    rw [hdecode] at h
    cases h
    exact ⟨text, rfl⟩

end Steps

/-- **An event does no more than this** to a reader that goes on. -/
theorem moves_of_step {s s' : State} (h : step s event = .ok (.reading s')) :
    Moves s event s' := by
  cases hpassing : s.passing with
  | some skipped =>
    obtain ⟨name, depth⟩ := skipped
    rw [step, hpassing] at h
    cases h
    exact .passed hpassing
  | none =>
    cases event with
    | start content =>
      rcases cases_of_step_start hpassing h with ⟨element, mid, helement, henters, hmid⟩ |
        ⟨helement, hskips⟩
      · cases hmid
        exact .enters hpassing helement henters
      · cases hskips
        exact .skips hpassing helement
    | empty content =>
      rcases cases_of_step_empty hpassing h with ⟨element, mid, helement, henters, hclose⟩ |
        ⟨helement, hignores⟩
      · exact .visits hpassing helement henters (leaves_of_closeElement hclose)
      · cases hignores
        exact .ignores hpassing helement
    | close name =>
      rw [step_of_none hpassing] at h
      have hclose : s.closeElement = .reading s' := Except.ok.inj h
      exact .leaves hpassing (leaves_of_closeElement hclose)
    | text bytes =>
      obtain ⟨text, htext⟩ := exists_takeText_of_step hpassing h
      cases htext
      exact .text text hpassing
    | characterData bytes =>
      rw [step_of_none hpassing] at h
      cases h
      exact .characterData _ hpassing
    | aside =>
      rw [step_of_none hpassing] at h
      cases h
      exact .aside hpassing

/-- Closing an element ends a reading if it is the inventory. -/
theorem exists_frames_of_closeElement {s : State} (h : s.closeElement = .finished manifest) :
    manifest = s.manifest ∧ ∃ depth frames, s.frames = ⟨.inventory, depth⟩ :: frames := by
  unfold State.closeElement at h
  split at h
  · cases h
  · rename_i element depth frames hframes
    cases element with
    | inventory =>
      cases h
      exact ⟨rfl, depth, frames, hframes⟩
    | package | folder | file | name | algorithm | hash => cases h

/-- What ends a reading: an inventory is closed, by an end tag or by a tag that is an element by
itself. -/
theorem closes_of_step {s : State} (h : step s event = .ok (.finished manifest)) :
    s.passing = none ∧ manifest = s.manifest ∧
      ((∃ name depth frames, event = .close name ∧ s.frames = ⟨.inventory, depth⟩ :: frames) ∨
        ∃ content, event = .empty content ∧ Element.ofContent? content = some .inventory) := by
  cases hpassing : s.passing with
  | some skipped =>
    rw [step, hpassing] at h
    cases h
  | none =>
    refine ⟨rfl, ?_⟩
    cases event with
    | start content =>
      rcases cases_of_step_start hpassing h with ⟨element, mid, -, -, hmid⟩ | ⟨-, hskips⟩
      · cases hmid
      · cases hskips
    | empty content =>
      rcases cases_of_step_empty hpassing h with ⟨element, mid, helement, henters, hclose⟩ |
        ⟨-, hignores⟩
      · obtain ⟨rfl, depth, frames, hframes⟩ := exists_frames_of_closeElement hclose
        rw [henters.frames] at hframes
        cases hframes
        exact ⟨henters.manifest, .inr ⟨content, rfl, helement⟩⟩
      · cases hignores
    | close name =>
      rw [step_of_none hpassing] at h
      obtain ⟨rfl, depth, frames, hframes⟩ := exists_frames_of_closeElement (Except.ok.inj h)
      exact ⟨rfl, .inl ⟨name, depth, frames, rfl, hframes⟩⟩
    | text bytes =>
      obtain ⟨text, htext⟩ := exists_takeText_of_step hpassing h
      cases htext
    | characterData | aside =>
      rw [step_of_none hpassing] at h
      cases h

/-- The event that closes the inventory is a tag. -/
theorem Finishes.not_isText (h : Finishes p event manifest) : ¬event.IsText := by
  rcases closes_of_step h.2 with ⟨-, -, ⟨name, depth, frames, rfl, -⟩ | ⟨content, rfl, -⟩⟩
  · exact id
  · exact id

/-! ### The reader knows the open elements -/

/-- Outside the elements that are passed over the frames are the open elements; inside, they are the
open elements around it, and the depth counts the elements of its name inside. -/
inductive Agrees : Place → Prop
  | reading {opened : List (List UInt8)} {s : State} (hpassing : s.passing = none)
      (hframes : opened.map Element.ofName? = s.frames.map (some ·.element)) : Agrees ⟨opened, s⟩
  | passing (inner : List (List UInt8)) {outer : List (List UInt8)} {name : List UInt8} {s : State}
      (hpassing : s.passing = some (name, inner.count name))
      (hframes : outer.map Element.ofName? = s.frames.map (some ·.element)) :
      Agrees ⟨inner ++ name :: outer, s⟩

/-- In the beginning nothing is open and nothing is passed over. -/
theorem Agrees.start : Agrees .start :=
  .reading rfl rfl

/-- The frames stay the open elements while an event is read. -/
theorem agrees_of_moves {opened opened' : List (List UInt8)} {s s' : State}
    (hpassing : s.passing = none)
    (hframes : opened.map Element.ofName? = s.frames.map (some ·.element))
    (hopen : openAfter opened event = .ok opened') (hmoves : Moves s event s') :
    Agrees ⟨opened', s'⟩ := by
  cases hmoves with
  | passed hsome =>
    rw [hpassing] at hsome
    cases hsome
  | enters _ helement henters =>
    cases hopen
    refine .reading (henters.passing.trans hpassing) ?_
    rw [henters.frames, List.map_cons, List.map_cons, ← hframes, ← Element.ofContent?_eq, helement]
  | skips =>
    cases hopen
    exact .passing [] rfl hframes
  | visits _ _ henters hleaves =>
    cases hopen
    refine .reading (hleaves.passing.trans (henters.passing.trans hpassing)) ?_
    rw [hleaves.frames, henters.frames]
    exact hframes
  | leaves _ hleaves =>
    obtain rfl := Markup.eq_of_openAfter_close hopen
    refine .reading (hleaves.passing.trans hpassing) ?_
    rw [hleaves.frames, List.map_tail, ← hframes]
    rfl
  | ignores | aside =>
    cases hopen
    exact .reading hpassing hframes
  | text | characterData =>
    cases hopen
    refine .reading ((State.passing_takeText ..).trans hpassing) ?_
    rw [State.frames_takeText]
    exact hframes

/-- The depth stays the number of elements of the same name while elements are passed over. -/
theorem agrees_of_pass {inner outer opened : List (List UInt8)} {name : List UInt8} {s : State}
    (hframes : outer.map Element.ofName? = s.frames.map (some ·.element))
    (hopen : openAfter (inner ++ name :: outer) event = .ok opened) :
    Agrees ⟨opened, { s with passing := pass name (inner.count name) event }⟩ := by
  cases event with
  | start content =>
    cases hopen
    refine .passing (nameOf content :: inner) ?_ hframes
    simp only [pass, List.count_cons, beq_iff_eq]
    split <;> rfl
  | close closed =>
    have hopened := Markup.eq_of_openAfter_close hopen
    cases inner with
    | nil =>
      -- the element that is passed over is closed itself
      obtain ⟨rfl, rfl⟩ := List.cons_eq_cons.1 hopened
      refine .reading ?_ hframes
      simp [pass]
    | cons other inner =>
      obtain ⟨rfl, rfl⟩ := List.cons_eq_cons.1 hopened
      refine .passing inner ?_ hframes
      by_cases hother : other = name
      · simp [pass, hother]
      · simp [pass, hother]
  | empty | text | characterData | aside =>
    cases hopen
    exact .passing inner rfl hframes

/-- A reader that knows the open elements knows them after one more event. -/
theorem Agrees.step {opened : List (List UInt8)} {s : State} (h : Agrees p)
    (hopen : openAfter p.opened event = .ok opened)
    (hstep : Manifest.step p.state event = .ok (.reading s)) : Agrees ⟨opened, s⟩ := by
  cases h with
  | reading hpassing hframes => exact agrees_of_moves hpassing hframes hopen (moves_of_step hstep)
  | passing inner hpassing hframes =>
    rw [Manifest.step, hpassing] at hstep
    cases hstep
    exact agrees_of_pass hframes hopen

/-- **A reader that knows the open elements goes on knowing them.** -/
theorem Agrees.reads (h : Agrees p) (hreads : Reads p events q) : Agrees q := by
  induction hreads with
  | nil => exact h
  | cons hopen hstep _ ih => exact ih (h.step hopen hstep)

/-- The end is no end as long as an element is open. -/
theorem Agrees.exists_finish_eq_error (h : Agrees p) (hopened : p.opened ≠ []) :
    ∃ error, finish p.state = .error error := by
  cases h with
  | @reading opened s hpassing hframes =>
    cases hs : s.frames with
    | nil =>
      rw [hs] at hframes
      exact absurd (List.map_eq_nil_iff.1 hframes) hopened
    | cons frame frames => exact ⟨_, by rw [finish, hpassing, hs]⟩
  | passing inner hpassing =>
    rw [finish, hpassing]
    dsimp only
    split <;> exact ⟨_, rfl⟩

/-! ### Complete elements -/

/-- A text may change the checksum fields of the file being read. -/
theorem State.exists_pending_takeText (s : State) (text : String) :
    ∃ change : Declaration → Declaration, (∀ file, (change file).id = file.id) ∧
      (s.takeText text).pending = s.pending.map change := by
  have hsame : ∃ change : Declaration → Declaration, (∀ file, (change file).id = file.id) ∧
      s.pending = s.pending.map change :=
    ⟨id, fun _ => rfl, by rw [Option.map_id, id]⟩
  unfold State.takeText
  split
  · exact hsame
  · split
    · split <;> exact hsame
    · exact ⟨addAlgorithm text, fun _ => rfl, rfl⟩
    · exact ⟨addHash text, fun _ => rfl, rfl⟩
    · exact hsame

/-- A reader is back where it was: the frames are the same, and so is what it passes over. The file
being read is the same one, if there is one. -/
structure Restores (s s' : State) : Prop where
  frames : s'.frames = s.frames
  passing : s'.passing = s.passing
  pending : ∀ file' ∈ s'.pending, ∃ file ∈ s.pending, file'.id = file.id

namespace Restores

/-- A reader is where it is. -/
theorem refl (s : State) : Restores s s :=
  ⟨rfl, rfl, fun file hfile => ⟨file, hfile, rfl⟩⟩

/-- A reader that comes back and comes back again is back. -/
theorem trans {s s' s'' : State} (h : Restores s s') (h' : Restores s' s'') : Restores s s'' where
  frames := h'.frames.trans h.frames
  passing := h'.passing.trans h.passing
  pending file hfile := by
    obtain ⟨file', hfile', hid'⟩ := h'.pending file hfile
    obtain ⟨file'', hfile'', hid''⟩ := h.pending file' hfile'
    exact ⟨file'', hfile'', hid'.trans hid''⟩

/-- A text changes neither the frames nor what is passed over, nor which file is being read. -/
theorem takeText (s : State) (text : String) : Restores s (s.takeText text) where
  frames := s.frames_takeText text
  passing := s.passing_takeText text
  pending file hfile := by
    obtain ⟨change, hid, hpending⟩ := s.exists_pending_takeText text
    rw [hpending] at hfile
    obtain ⟨file', hfile', rfl⟩ := Option.map_eq_some_iff.1 hfile
    exact ⟨file', hfile', hid file'⟩

/-- An element that is entered and left again. -/
theorem of_visits {s mid mid' s' : State} {element : Element} {content : List UInt8}
    (henters : Enters s element content mid) (h : Restores mid mid') (hleaves : Leaves mid' s') :
    Restores s s' where
  frames := by rw [hleaves.frames, h.frames, henters.frames, List.tail_cons]
  passing := hleaves.passing.trans (h.passing.trans henters.passing)
  pending file hfile := by
    rcases hleaves.pending with hnone | ⟨hsame, hother⟩
    · rw [hnone] at hfile
      cases hfile
    · have hne : element ≠ .file := hother ⟨element, s.path.length⟩ (by
        rw [h.frames, henters.frames]
        rfl)
      rw [hsame] at hfile
      rw [← henters.pending hne]
      exact h.pending file hfile

/-- A tag that is no start tag and no end tag. -/
theorem of_leaf {s s' : State} (h : Moves s event s') (hleaf : event.IsLeaf) : Restores s s' := by
  cases h with
  | @passed _ name depth hpassing =>
    have hsame : pass name depth event = s.passing := by
      cases event with
      | start | close => exact hleaf.elim
      | empty | text | characterData | aside => exact hpassing.symm
    rw [hsame]
    exact refl s
  | enters | skips | leaves => exact hleaf.elim
  | visits _ _ henters hleaves => exact of_visits henters (refl _) hleaves
  | ignores | aside => exact refl s
  | text | characterData => exact takeText s _

/-- A start tag, something that restores the reader, and the end tag. -/
theorem of_element {s mid mid' s' : State} {content : List UInt8}
    (hstart : Moves s (.start content) mid) (h : Restores mid mid')
    (hclose : Moves mid' (.close (nameOf content)) s') : Restores s s' := by
  cases hstart with
  | @passed _ name depth hpassing =>
    have hmid : mid'.passing = pass name depth (.start content) := h.passing
    cases hclose with
    | passed hsome =>
      refine ⟨h.frames, ?_, h.pending⟩
      rw [hsome, pass] at hmid
      cases hmid
      dsimp only
      rw [hpassing]
      by_cases hname : nameOf content = name
      · simp [pass, hname]
      · simp [pass, hname]
    | leaves hnone =>
      rw [hnone] at hmid
      cases hmid
  | enters hpassing helement henters =>
    cases hclose with
    | passed hsome =>
      rw [h.passing, henters.passing, hpassing] at hsome
      cases hsome
    | leaves _ hleaves => exact of_visits henters h hleaves
  | skips hpassing helement =>
    cases hclose with
    | passed hsome =>
      rw [h.passing] at hsome
      cases hsome
      refine ⟨h.frames, ?_, h.pending⟩
      dsimp only
      rw [hpassing]
      simp [pass]
    | leaves hnone =>
      rw [h.passing] at hnone
      cases hnone

end Restores

/-- **Complete elements leave the open elements as they were.**

**Proof sketch.** By induction over the elements. Inside an element of the inventory, and inside one
that is passed over, the claim holds for what it contains; so its end tag finds what its start tag
left. -/
theorem Reads.restores (h : Reads p events q) (hnested : WellNested events) :
    Restores p.state q.state := by
  induction hnested generalizing p q with
  | nil =>
    cases h
    exact .refl _
  | leaf hleaf =>
    cases h with
    | cons _ hstep htail =>
      cases htail
      exact .of_leaf (moves_of_step hstep) hleaf
  | element content _ ih =>
    cases h with
    | cons _ hstep htail =>
      obtain ⟨mid, hinner, hlast⟩ := htail.of_append
      cases hlast with
      | cons _ hstep' hnil =>
        cases hnil
        exact .of_element (moves_of_step hstep) (ih hinner) (moves_of_step hstep')
  | append _ _ ih ih' =>
    obtain ⟨mid, hfront, hback⟩ := h.of_append
    exact (ih hfront).trans (ih' hback)

end Accession.Manifest

import Accession.Proofs.Manifest.Layering
set_option autoImplicit false

/-!
# The segments of the path

A name may say its text in parts, with other elements between them, and these may have names of
their own. The reader knows one thing only, whether the innermost name has begun a segment, and goes
on the last segment of the path then. This module says that it is the right one: as long as a
segment can be gone on with, the name that has begun it is open, and the segment is the last one.
With the order of the lengths and with what folders and files leave behind, that is the discipline
that the path keeps to.

## Main definitions

* `Manifest.Since` — what has become of a reader since a text put a segment on the path.
* `Manifest.Begun` — the text that has begun the segment, and where the reading has stood since
  then.
* `Manifest.Unreadable` — an event that is an error wherever it is read.

## Main results

* `Manifest.Since.moves` — the segment stays the last one as long as it can be gone on with.
* `Manifest.Reads.exists_begun` — who has begun the segment.
* `Manifest.exists_reads_and_layered_of_opens` — the discipline of the path, at every step.
-/

namespace Accession.Manifest

open Markup (Event Opens WellNested octets)

variable {p q : Place} {event : Event} {events : List Event} {content : List UInt8}
  {element : Element} {s s' : State}

/-! ### Segments -/

/-- What has become of the state `m` since the text `first` put a segment on its path: the elements
that were open then still are, no name is open among those inside, and the segment is the last one
on the path, maybe with more text. -/
structure Since (m : State) (first : String) (s : State) : Prop where
  frames : ∃ inner, s.frames = inner ++ m.frames ∧
    ∀ frame ∈ inner, frame.element ≠ .name ∧ frame.depth = m.path.length + 1
  path : ∃ later, s.path = m.path ++ [first ++ later]

namespace Since

variable {m : State} {first : String}

/-- It depends on the frames and on the path only. -/
theorem of_eq (h : Since m first s) (hframes : s'.frames = s.frames) (hpath : s'.path = s.path) :
    Since m first s' := by
  refine ⟨?_, ?_⟩
  · rw [hframes]
    exact h.frames
  · rw [hpath]
    exact h.path

/-- The path is longer by the one segment. -/
theorem length_path (h : Since m first s) : s.path.length = m.path.length + 1 := by
  obtain ⟨later, hpath⟩ := h.path
  rw [hpath, List.length_append, List.length_singleton]

/-- In the name of a folder or a file, nothing was opened inside the name that has the segment. -/
theorem frames_eq (h : Since m first s) (hname : s.textElement? = some .name) :
    s.frames = m.frames := by
  obtain ⟨inner, hframes, hinner⟩ := h.frames
  obtain ⟨depth, frames, htop⟩ := State.exists_frames_of_textElement? hname
  cases inner with
  | nil => exact hframes
  | cons frame inner =>
    rw [htop] at hframes
    cases hframes
    exact absurd rfl (hinner _ List.mem_cons_self).1

/-- A further element inside has the length with the segment; it is no name, since the segment can
still be gone on with. -/
theorem enters (h : Since m first s) (henters : Enters s element content s')
    (hstarted : s'.nameStarted = true) : Since m first s' := by
  obtain ⟨inner, hframes, hinner⟩ := h.frames
  refine ⟨⟨⟨element, s.path.length⟩ :: inner, ?_, ?_⟩, ?_⟩
  · rw [henters.frames, hframes, List.cons_append]
  · exact List.forall_mem_cons.2 ⟨⟨(henters.started hstarted).1, h.length_path⟩, hinner⟩
  · rw [henters.path]
    exact h.path

/-- What was opened since then cuts nothing off the path. -/
theorem leaves (h : Since m first s) (hname : m.textElement? = some .name)
    (hleaves : Leaves s s') (hstarted : s'.nameStarted = true) : Since m first s' := by
  obtain ⟨inner, hframes, hinner⟩ := h.frames
  obtain ⟨depth, frames, htop⟩ := State.exists_frames_of_textElement? hname
  have hother := (hleaves.started hstarted).2
  cases inner with
  | nil =>
    -- behind the end of the name that has the segment, no segment can be gone on with
    rw [hframes, htop] at hother
    exact absurd rfl (hother _ rfl)
  | cons frame inner =>
    have hpath : s'.path = s.path := by
      by_cases hentry : frame.element.IsEntry
      · rw [hleaves.cut frame (by rw [hframes]; rfl) hentry, (hinner _ List.mem_cons_self).2,
          ← h.length_path, List.take_length]
      · exact hleaves.path (by simpa [hframes] using hentry)
    refine ⟨⟨inner, ?_, fun frame hframe => hinner frame (List.mem_cons_of_mem _ hframe)⟩, ?_⟩
    · rw [hleaves.frames, hframes, List.cons_append, List.tail_cons]
    · rw [hpath]
      exact h.path

/-- A text inside goes on the segment, as it has been begun. -/
theorem takeText (h : Since m first s) (hstarted : s.nameStarted = true) (text : String) :
    Since m first (s.takeText text) := by
  refine ⟨?_, ?_⟩
  · rw [State.frames_takeText]
    exact h.frames
  · obtain ⟨later, hpath⟩ := h.path
    rcases s.cases_takeText text with ⟨hsame, -⟩ | ⟨hname, -, -⟩
    · exact ⟨later, hsame.trans hpath⟩
    · exact ⟨later ++ text,
        by rw [State.path_takeText_of_inSegment ⟨hname, hstarted⟩ hpath, String.append_assoc]⟩

/-- An event behind which the segment can still be gone on with leaves it where it is. -/
theorem moves (h : Since m first s) (hname : m.textElement? = some .name)
    (hstarted : s.nameStarted = true) (hmoves : Moves s event s')
    (hstarted' : s'.nameStarted = true) : Since m first s' := by
  cases hmoves with
  | passed | skips => exact h.of_eq rfl rfl
  | enters _ _ henters => exact h.enters henters hstarted'
  | visits _ _ henters hleaves =>
    have hgrows := (grows_of_visits henters rfl (.refl _) hleaves).1
    refine h.of_eq ?_ (hgrows.begun hstarted').2
    rw [hleaves.frames, henters.frames, List.tail_cons]
  | leaves _ hleaves => exact h.leaves hname hleaves hstarted'
  | text | characterData => exact h.takeText hstarted _
  | ignores | aside => exact h

end Since

/-- `Begun events p m first`: one of the events is the text `first` of a folder's or a file's name,
which the reader `m` takes; it puts a segment on the path. Wherever the reading has stood since
then, up to the place `p`, the name was open and the segment was the last one on the path. -/
inductive Begun : List Event → Place → State → String → Prop
  | intro {before more : List Event} {said : Event} {m p : Place} {first : String}
      (hbefore : Reads .start before m) (hname : m.state.textElement? = some .name)
      (hnew : m.state.nameStarted = false)
      (hsaid : step m.state said = .ok (.reading (m.state.takeText first)))
      (hfirst : (m.state.takeText first).path = m.state.path ++ [first])
      (hafter : Reads ⟨m.opened, m.state.takeText first⟩ more p)
      (hsince : ∀ part r, part <+: more → Reads ⟨m.opened, m.state.takeText first⟩ part r →
        Since m.state first r.state) :
      Begun (before ++ said :: more) p m.state first

namespace Begun

variable {m : State} {first : String}

/-- The segment was put on the path by the text of a name. -/
theorem name (h : Begun events p m first) : m.textElement? = some .name := by
  obtain ⟨-, hname, -⟩ := h
  exact hname

/-- Where the reading stands now the name is open, and the segment is the last one on the path. -/
theorem since (h : Begun events p m first) : Since m first p.state := by
  obtain ⟨-, -, -, -, -, hafter, hsince⟩ := h
  exact hsince _ p List.prefix_rfl hafter

/-- One more event, behind which the segment can still be gone on with. -/
theorem concat (h : Begun events p m first) (hstarted : p.state.nameStarted = true)
    (hreads : Reads p [event] q) (hstarted' : q.state.nameStarted = true) :
    Begun (events ++ [event]) q m first := by
  have hlast : Since m first q.state := by
    cases hreads with
    | cons _ hstep hnil =>
      cases hnil
      exact h.since.moves h.name hstarted (moves_of_step hstep) hstarted'
  obtain @⟨before, more, said, m, p, first, hbefore, hname, hnew, hsaid, hfirst, hafter,
    hsince⟩ := h
  rw [List.append_assoc, List.cons_append]
  refine .intro hbefore hname hnew hsaid hfirst (hafter.append hreads) fun part r hpart hon => ?_
  rcases List.prefix_concat_iff.1 hpart with rfl | hpart
  · rw [hon.unique (hafter.append hreads)]
    exact hlast
  · exact hsince part r hpart hon

end Begun

/-- Only a text in the name of a folder or a file begins a segment. -/
theorem exists_takeText_of_started (hmoves : Moves s event s') (hnew : s.nameStarted = false)
    (hstarted : s'.nameStarted = true) :
    event.IsLeaf ∧ ∃ first, s' = s.takeText first ∧ s.textElement? = some .name ∧
      s'.path = s.path ++ [first] := by
  have hnot : s.nameStarted ≠ true := Bool.eq_false_iff.1 hnew
  have htext (text : String) (h : (s.takeText text).nameStarted = true) :
      ∃ first, s.takeText text = s.takeText first ∧ s.textElement? = some .name ∧
        (s.takeText text).path = s.path ++ [first] := by
    rcases s.cases_takeText text with ⟨-, hsame⟩ | ⟨hname, -, hpath⟩
    · exact absurd (hsame.symm.trans h) hnot
    · rw [if_neg hnot] at hpath
      exact ⟨text, rfl, hname, hpath⟩
  cases hmoves with
  | text text | characterData text => exact ⟨trivial, htext text hstarted⟩
  | enters _ _ henters => exact absurd (henters.started hstarted).2 hnot
  | visits _ _ henters hleaves =>
    exact absurd (henters.started (hleaves.started hstarted).1).2 hnot
  | leaves _ hleaves => exact absurd (hleaves.started hstarted).1 hnot
  | passed | skips | ignores | aside => exact absurd hstarted hnot

/-- **A segment that can be gone on with was begun by a name that is still open.**

**Proof sketch.** By induction over the events, the last one first. If a segment could be gone on
with before that event, it is the same segment. Otherwise the event is the text that begins it. -/
theorem Reads.exists_begun (h : Reads .start events p) (hstarted : p.state.nameStarted = true) :
    ∃ m first, Begun events p m first := by
  induction events using List.reverseRecOn generalizing p with
  | nil =>
    cases h
    cases hstarted
  | append_singleton events event ih =>
    obtain ⟨r, hfront, hlast⟩ := h.of_append
    cases hbefore : r.state.nameStarted with
    | true =>
      obtain ⟨m, first, hbegun⟩ := ih hfront hbefore
      exact ⟨m, first, hbegun.concat hbefore hlast hstarted⟩
    | false =>
      cases hlast with
      | cons hopen hstep hnil =>
        cases hnil
        obtain ⟨hleaf, first, rfl, hname, hfirst⟩ :=
          exists_takeText_of_started (moves_of_step hstep) hbefore hstarted
        rw [Markup.openAfter_of_isLeaf hleaf] at hopen
        cases hopen
        refine ⟨r.state, first, .intro hfront hname hbefore hstep hfirst (.nil _) ?_⟩
        rintro part r' hpart hon
        obtain rfl := List.prefix_nil.1 hpart
        cases hon
        exact ⟨⟨[], State.frames_takeText .., by simp⟩, "", by rw [hfirst, String.append_empty]⟩

/-! ### Properly nested events -/

/-- An event that is an error wherever it is read: a text that cannot be decoded, or the tag of a
file whose identifier cannot be read. -/
inductive Unreadable : Event → Prop
  | text {bytes : List UInt8} {fault : Markup.Error} (h : Markup.decodeText bytes = .error fault) :
      Unreadable (.text bytes)
  | start {content : List UInt8} {error : Error}
      (helement : Element.ofContent? content = some .file)
      (h : fileId content = .error error) : Unreadable (.start content)
  | empty {content : List UInt8} {error : Error}
      (helement : Element.ofContent? content = some .file)
      (h : fileId content = .error error) : Unreadable (.empty content)

/-- An element that cannot be opened is a file whose identifier cannot be read. -/
theorem exists_fileId_of_openElement {error : Error}
    (h : s.openElement element content = .error error) :
    element = .file ∧ ∃ error, fileId content = .error error := by
  by_cases hfile : element = .file
  · subst hfile
    refine ⟨rfl, ?_⟩
    cases hid : fileId content with
    | error error => exact ⟨error, rfl⟩
    | ok id =>
      rw [State.openElement, hid] at h
      cases h
  · rw [s.openElement_of_ne hfile] at h
    cases h

/-- A tag that is an error is the one of a file, whatever comes of the opened element. -/
theorem exists_fileId_of_tag {goOn : State → Progress} {ignored : Progress} {error : Error}
    (h : (match Element.ofContent? content with
      | some element => do return goOn (← s.openElement element content)
      | none => .ok ignored) = .error error) :
    Element.ofContent? content = some .file ∧ ∃ error, fileId content = .error error := by
  cases helement : Element.ofContent? content with
  | none =>
    rw [helement] at h
    cases h
  | some element =>
    rw [helement] at h
    dsimp only at h
    cases hopen : s.openElement element content with
    | ok mid =>
      rw [hopen] at h
      cases h
    | error error =>
      obtain ⟨rfl, hid⟩ := exists_fileId_of_openElement hopen
      exact ⟨rfl, hid⟩

/-- An error comes from an event that cannot be read. -/
theorem unreadable_of_step {error : Error} (h : step s event = .error error) :
    Unreadable event := by
  cases hpassing : s.passing with
  | some skipped =>
    rw [step, hpassing] at h
    cases h
  | none =>
    rw [step_of_none hpassing] at h
    cases event with
    | start content =>
      obtain ⟨helement, error, hid⟩ := exists_fileId_of_tag h
      exact .start helement hid
    | empty content =>
      obtain ⟨helement, error, hid⟩ := exists_fileId_of_tag h
      exact .empty helement hid
    | text bytes =>
      rw [readEvent] at h
      cases hdecode : Markup.decodeText bytes with
      | error fault => exact .text hdecode
      | ok text =>
        rw [hdecode] at h
        cases h
    | close | characterData | aside => cases h

/-- Events with end tags that fit are read, up to one that closes the inventory or cannot be
read. -/
theorem exists_reads_of_opens {opened opened' : List (List UInt8)} (h : Opens opened events opened')
    (s : State) : ∃ front rest q, events = front ++ rest ∧ Reads ⟨opened, s⟩ front q ∧
      ∀ event ∈ rest.head?, (∃ manifest, Finishes q event manifest) ∨ Unreadable event := by
  induction h generalizing s with
  | nil opened => exact ⟨[], [], _, rfl, .nil _, nofun⟩
  | @cons opened mid opened' event events hopen _ ih =>
    cases hstep : step s event with
    | error error =>
      refine ⟨[], event :: events, _, rfl, .nil _, fun _ hfirst => ?_⟩
      cases hfirst
      exact .inr (unreadable_of_step hstep)
    | ok progress =>
      cases progress with
      | finished manifest =>
        refine ⟨[], event :: events, _, rfl, .nil _, fun _ hfirst => ?_⟩
        cases hfirst
        exact .inl ⟨manifest, ⟨mid, hopen⟩, hstep⟩
      | reading s' =>
        obtain ⟨front, rest, q, rfl, hreads, hend⟩ := ih s'
        exact ⟨event :: front, rest, q, rfl, .cons hopen hstep hreads, hend⟩

/-- **The path keeps step with the open elements**, however they are nested. Events with end tags
that fit are read up to one that closes the inventory or cannot be read, and wherever a reading of
them stands

* the lengths in the frames are in order, and none is above that of the path;
* a folder or a file that is read from there on leaves the frames and the path as they are;
* a text that goes on a segment goes on the one that the name around it has begun, and on no other.

**Proof sketch.** The lengths are in order at the start, and every event keeps them so. A complete
element keeps the settled segments, which are all of them inside a folder or a file, so that cutting
the path back leaves those that were there when it was opened. As long as a segment can be gone on
with, no name is opened or closed, and what else is opened cuts nothing off. -/
theorem exists_reads_and_layered_of_opens {opened : List (List UInt8)}
    (h : Opens [] events opened) :
    (∃ front rest p, events = front ++ rest ∧ Reads .start front p ∧
      ∀ event ∈ rest.head?, (∃ manifest, Finishes p event manifest) ∨ Unreadable event) ∧
    ∀ front p, front <+: events → Reads .start front p →
      Layered p.state ∧
      (∀ entry q, WholeEntry entry → Reads p entry q →
        q.state.frames = p.state.frames ∧ q.state.path = p.state.path) ∧
      (p.state.InSegment → ∃ m first later, Begun front p m first ∧
        p.state.frames = m.frames ∧ p.state.path = m.path ++ [first ++ later] ∧
        ∀ text, (p.state.takeText text).path = m.path ++ [first ++ later ++ text]) := by
  refine ⟨exists_reads_of_opens h State.initial, fun front p _ hreads => ⟨?_, ?_, fun hin => ?_⟩⟩
  · exact Layered.start.reads hreads
  · exact fun entry q hentry hon => hon.eq_of_wholeEntry hentry
  · obtain ⟨m, first, hbegun⟩ := hreads.exists_begun hin.2
    obtain ⟨later, hpath⟩ := hbegun.since.path
    exact ⟨m, first, later, hbegun, hbegun.since.frames_eq hin.1, hpath,
      fun text => State.path_takeText_of_inSegment hin hpath text⟩

/-- A folder up to the middle of its name. -/
def halfNameEvents : List Event :=
  [.start (octets "ordner"), .start (octets "name"), .text (octets "a")]

/-- A file with a name. -/
def innerFileEvents : List Event :=
  [.start (octets "datei"), .start (octets "name"), .text (octets "b"), .close (octets "name"),
    .close (octets "datei")]

/-- A folder up to the end of its name, with a file in the middle of the name. -/
def splitNameEvents : List Event :=
  halfNameEvents ++ (innerFileEvents ++ [.text (octets "c")])

/-- A name with a file in the middle: the file leaves frames and path as they were, and what follows
in the name goes on a segment of its own. -/
theorem exists_reads_and_layered_splitName :
    Opens [] splitNameEvents [octets "name", octets "ordner"] ∧
      ∃ p q r, Reads .start halfNameEvents p ∧ Reads p innerFileEvents q ∧
        Reads .start splitNameEvents r ∧
        (p.state.path = ["a"] ∧ q.state.frames = p.state.frames ∧ q.state.path = ["a"]) ∧
        Layered r.state ∧ r.state.InSegment ∧ r.state.path = ["a", "c"] ∧
        ∃ m first, Begun splitNameEvents r m first ∧ r.state.frames = m.frames ∧
          (r.state.takeText "d").path = ["a", "cd"] := by
  have hopens : Opens [] splitNameEvents [octets "name", octets "ordner"] := by decide +kernel
  obtain ⟨-, hall⟩ := exists_reads_and_layered_of_opens hopens
  have hentry : WholeEntry innerFileEvents := by
    have htext : WellNested [.text (octets "b")] := .leaf trivial
    have hfile : Element.ofContent? (octets "datei") = some .file := by decide +kernel
    exact .element hfile (.inr rfl) (.element (octets "name") htext)
  have hfile {s : State} (hpassing : s.passing = none) :=
    step_file (t := bareTag "datei" (by decide)) hpassing (by decide) rfl
  have hread : ∃ p q r, Reads .start halfNameEvents p ∧ Reads p innerFileEvents q ∧
      Reads q [.text (octets "c")] r ∧ p.state.path = ["a"] ∧ r.state.InSegment ∧
      r.state.path = ["a"] ++ ["c"] :=
    ⟨_, _, _, .cons rfl rfl (.cons rfl rfl (.cons rfl
        (step_text rfl (Markup.spells_self (by decide))) (.nil _))),
      .cons rfl (hfile rfl) (.cons rfl rfl (.cons rfl
        (step_text rfl (Markup.spells_self (by decide))) (.cons rfl rfl (.cons rfl rfl (.nil _))))),
      .cons rfl (step_text rfl (Markup.spells_self (by decide))) (.nil _), rfl, ⟨rfl, rfl⟩, rfl⟩
  obtain ⟨p, q, r, hhalf, hinner, hlast, hp, hin, hr⟩ := hread
  have hwhole : Reads .start splitNameEvents r := hhalf.append (hinner.append hlast)
  obtain ⟨hframes, hpath⟩ := (hall _ p ⟨_, rfl⟩ hhalf).2.1 _ q hentry hinner
  obtain ⟨hlayered, -, hbegun⟩ := hall _ r List.prefix_rfl hwhole
  obtain ⟨m, first, later, hbegun, hm, hsegment, htext⟩ := hbegun hin
  refine ⟨hopens, p, q, r, hhalf, hinner, hwhole, ⟨hp, hframes, hpath.trans hp⟩, hlayered, hin, hr,
    m, first, hbegun, hm, ?_⟩
  rw [hr] at hsegment
  obtain ⟨hbase, hfirst⟩ := List.append_inj' hsegment rfl
  rw [htext, ← hbase, ← (List.cons.inj hfirst).1]
  rfl

end Accession.Manifest

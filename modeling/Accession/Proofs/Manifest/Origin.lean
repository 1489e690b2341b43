import Accession.Proofs.Manifest.Ending
import Mathlib.Data.List.Induction
set_option autoImplicit false

/-!
# Where the files of a manifest come from

Every file in a manifest is declared by a file element of the text: its start tag has the
identifier, and where its end tag stands the path is longer than where its start tag stood. A file
element that is read declares its file wherever it stands. The reader does not ask for an inventory
around it, so a text without an inventory may declare files too.

## Main definitions

* `Manifest.Declares` — a file element of a text declares a file.
* `Manifest.InInventory` — a place inside an inventory.

## Main results

* `Manifest.exists_declares_of_reads` — the files read so far are declared by file elements.
* `Manifest.contains_of_declares` — what a file element declares is in the manifest.
* `Manifest.exists_declares_of_parse` — where the files of a manifest come from.
* `Manifest.parse_strayText` — a file outside of any inventory.
-/

namespace Accession.Manifest

open Markup (Cuts Event Opens WellNested dropMark nameOf nextEvent octets openAfter)

variable {p q : Place} {bytes rest : List UInt8} {event : Event} {events before : List Event}
  {path : String} {file : Declaration} {manifest : Manifest}

/-! ### Files that are declared -/

/-- `Declares bytes before path file`: a file element that begins behind the events `before` is read
up to its end tag, where its file has the name `path` and the declaration `file`. -/
inductive Declares (bytes : List UInt8) (before : List Event) : String → Declaration → Prop
  | intro {content : List UInt8} {inside : List Event} {rest : List UInt8} {p : Place} {depth : Nat}
      {frames : List Frame} {file : Declaration}
      (hcuts : Cuts (dropMark bytes)
        (before ++ .start content :: (inside ++ [.close (nameOf content)])) rest)
      (helement : Element.ofContent? content = some .file) (hinside : WellNested inside)
      (hreads : Reads .start (before ++ .start content :: inside) p)
      (hpassing : p.state.passing = none) (hframes : p.state.frames = ⟨.file, depth⟩ :: frames)
      (hpending : p.state.pending = some file) (hid : fileId content = .ok file.id)
      (hname : depth < p.state.path.length) :
      Declares bytes before (Path.ofSegments p.state.path) (State.trimmed file)

/-- Behind these events an inventory is open. -/
def InInventory (before : List Event) : Prop :=
  ∃ opened, Opens [] before opened ∧ ∃ name ∈ opened, Element.ofName? name = some .inventory

/-! ### What one event adds -/

/-- A text adds nothing to the manifest. -/
theorem State.manifest_takeText (s : State) (text : String) :
    (s.takeText text).manifest = s.manifest := by
  unfold State.takeText
  repeat' split
  all_goals rfl

/-- Only an end tag adds a file: the one of a file element. -/
theorem manifest_of_moves {s s' : State} (h : Moves s event s') :
    s'.manifest = s.manifest ∨ ∃ name depth frames, event = .close name ∧ s.passing = none ∧
      s.frames = ⟨.file, depth⟩ :: frames ∧ s'.manifest = s.commit depth := by
  cases h with
  | passed | skips | ignores | aside => exact .inl rfl
  | enters _ _ henters => exact .inl henters.manifest
  | @visits content element mid s' _ _ henters hleaves =>
    left
    rcases hleaves.manifest with hsame | ⟨depth, frames, hframes, hcommit⟩
    · exact hsame.trans henters.manifest
    · -- a tag that is an element by itself gives its file no name
      rw [henters.frames] at hframes
      cases hframes
      have hshort : ¬s.path.length < mid.path.length := by rw [henters.path]; exact Nat.lt_irrefl _
      rw [hcommit, State.commit]
      split
      · rw [if_neg hshort, henters.manifest]
      · exact henters.manifest
  | @leaves name s' hpassing hleaves =>
    rcases hleaves.manifest with hsame | ⟨depth, frames, hframes, hcommit⟩
    · exact .inl hsame
    · exact .inr ⟨name, depth, frames, rfl, hpassing, hframes, hcommit⟩
  | text | characterData => exact .inl (State.manifest_takeText ..)

/-- Closing a file adds it, if it has a name, and changes nothing else. -/
theorem find?_commit (s : State) (depth : Nat) (path : String) :
    (s.commit depth).find? path = s.manifest.find? path ∨
      ∃ file, s.pending = some file ∧ depth < s.path.length ∧ path = Path.ofSegments s.path ∧
        (s.commit depth).find? path = some (State.trimmed file) := by
  rw [State.commit]
  split
  · rename_i file hpending
    split
    · rename_i hname
      rw [Index.find?_insert]
      split
      · rename_i hpath
        exact .inr ⟨file, hpending, hname, hpath, rfl⟩
      · exact .inl rfl
    · exact .inl rfl
  · exact .inl rfl

/-- No event takes a file away. -/
theorem contains_of_moves {s s' : State} (h : Moves s event s')
    (hcontains : s.manifest.contains path = true) : s'.manifest.contains path = true := by
  rcases manifest_of_moves h with hsame | ⟨-, depth, -, -, -, -, hcommit⟩
  · rwa [hsame]
  · rw [Index.contains_eq_isSome_find?] at hcontains ⊢
    rw [hcommit]
    rcases find?_commit s depth path with hsame | ⟨file, -, -, -, hfind⟩
    · rwa [hsame]
    · rw [hfind]
      rfl

/-- What is in the manifest stays there. -/
theorem contains_of_reads (h : Reads p events q)
    (hcontains : p.state.manifest.contains path = true) :
    q.state.manifest.contains path = true := by
  induction h with
  | nil => exact hcontains
  | cons _ hstep _ ih => exact ih (contains_of_moves (moves_of_step hstep) hcontains)

/-- The result of a reading is the manifest that it stands at. -/
theorem manifest_of_finish {s : State} (h : finish s = .ok manifest) : manifest = s.manifest := by
  unfold finish at h
  split at h
  · split at h <;> cases h
  · split at h <;> cases h
    rfl

/-- No file is taken away up to the end of a reading. -/
theorem contains_of_readOn (h : readOn p bytes = .ok manifest)
    (hcontains : p.state.manifest.contains path = true) : manifest.contains path = true := by
  obtain ⟨events, rest, q, -, hreads, hend⟩ := exists_reads_of_readOn h
  have hlast := contains_of_reads hreads hcontains
  rcases hend with ⟨event, rest', -, hfinishes⟩ | ⟨-, hfinish⟩
  · rw [(closes_of_step hfinishes.2).2.1]
    exact hlast
  · rwa [manifest_of_finish hfinish]

/-! ### File elements -/

/-- The file being read has the identifier of the tag that started it. -/
theorem fileId_of_reads {content : List UInt8} {inside : List Event}
    (h : Reads p (.start content :: inside) q) (hinside : WellNested inside)
    (hcontent : Element.ofContent? content = some .file) (hpassing : q.state.passing = none)
    (file : Declaration) (hfile : file ∈ q.state.pending) : fileId content = .ok file.id := by
  cases h with
  | cons _ hstep htail =>
    have hrestores := htail.restores hinside
    obtain ⟨started, hstarted, hid⟩ := hrestores.pending file hfile
    rw [hrestores.passing] at hpassing
    cases moves_of_step hstep with
    | @passed _ name depth hsome => cases hpassing
    | skips hnone helement =>
      rw [hcontent] at helement
      cases helement
    | enters hnone helement henters =>
      rw [hcontent] at helement
      cases helement
      obtain ⟨id, hdeclared, hpending⟩ := henters.declared rfl
      dsimp only at hstarted
      rw [hpending] at hstarted
      cases hstarted
      rw [hid]
      exact hdeclared

/-- Inside a file element the frame of the file is the innermost one: its start tag stands in front
of complete elements, and the file has the identifier of that tag. -/
theorem exists_fileStart (h : Reads .start events p) (hpassing : p.state.passing = none)
    {depth : Nat} {frames : List Frame} (hframes : p.state.frames = ⟨.file, depth⟩ :: frames) :
    ∃ before content inside outer, events = before ++ .start content :: inside ∧
      WellNested inside ∧ Element.ofContent? content = some .file ∧
      p.opened = nameOf content :: outer ∧
      ∀ file ∈ p.state.pending, fileId content = .ok file.id := by
  -- the innermost open element is the file
  obtain ⟨name, outer, hopened, hname⟩ : ∃ name outer, p.opened = name :: outer ∧
      Element.ofName? name = some .file := by
    cases Agrees.start.reads h with
    | @reading opened s hnone hagree =>
      rw [hframes] at hagree
      obtain ⟨name, outer, rfl, hname, -⟩ := List.map_eq_cons_iff.1 hagree
      exact ⟨name, outer, rfl, hname⟩
    | passing inner hsome =>
      rw [hpassing] at hsome
      cases hsome
  have hopens : Opens [] events p.opened := h.opens
  rw [hopened] at hopens
  obtain ⟨before, content, inside, rfl, rfl, -, hinside⟩ := hopens.exists_start
  refine ⟨before, content, inside, outer, rfl, hinside, hname, hopened, fun file hfile => ?_⟩
  obtain ⟨front, -, hback⟩ := h.of_append
  exact fileId_of_reads hback hinside hname hpassing file hfile

/-- **The files read so far are declared by file elements.**

**Proof sketch.** From the last event backwards. Only the end tag of a file adds one, and in front
of it the frame of the file is the innermost. -/
theorem exists_declares_of_reads (hcuts : Cuts (dropMark bytes) events rest)
    (h : Reads .start events p) (hfind : p.state.manifest.find? path = some file) :
    ∃ before, Declares bytes before path file := by
  induction events using List.reverseRecOn generalizing rest p with
  | nil =>
    cases h
    cases hfind
  | append_singleton events event ih =>
    obtain ⟨mid, hcutsFront, hcutsLast⟩ := hcuts.exists_of_append
    obtain ⟨r, hfront, hlast⟩ := h.of_append
    cases hlast with
    | cons hopen hstep hnil =>
      cases hnil
      rcases manifest_of_moves (moves_of_step hstep) with
        hsame | ⟨name, depth, frames, rfl, hpassing, hframes, hcommit⟩
      · exact ih hcutsFront hfront (hsame ▸ hfind)
      · dsimp only at hfind
        rw [hcommit] at hfind
        rcases find?_commit r.state depth path with hsame | ⟨declared, hpending, hname, rfl, hnew⟩
        · exact ih hcutsFront hfront (hsame ▸ hfind)
        · rw [hnew] at hfind
          cases hfind
          obtain ⟨before, content, inside, outer, rfl, hinside, helement, hopened, hid⟩ :=
            exists_fileStart hfront hpassing hframes
          have hclose := Markup.eq_of_openAfter_close hopen
          rw [hopened] at hclose
          cases hclose
          rw [List.append_assoc, List.cons_append] at hcuts
          exact ⟨before, .intro hcuts helement hinside hfront hpassing hframes hpending
            (hid declared hpending) hname⟩

/-- **What a file element declares is in the manifest.** -/
theorem contains_of_declares (h : parse bytes = .ok manifest)
    (hdeclares : Declares bytes before path file) : manifest.contains path = true := by
  cases hdeclares with
  | @intro content inside rest p depth frames file hcuts helement hinside hreads hpassing hframes
      hpending hid hname =>
    -- the end tag fits, and adds the file
    obtain ⟨r, -, hback⟩ := hreads.of_append
    obtain ⟨outer, hopened⟩ : ∃ outer, p.opened = nameOf content :: outer := by
      cases hback with
      | cons hopen _ htail =>
        cases hopen
        exact ⟨_, (htail.opens.unique (hinside.opens _))⟩
    have hopen : openAfter p.opened (.close (nameOf content)) = .ok outer := by
      rw [hopened]
      exact Markup.openAfter_close ..
    have hstep : step p.state (.close (nameOf content)) = .ok (.reading { p.state with
        frames
        path := p.state.path.take depth
        pending := none
        manifest := p.state.commit depth }) := by
      rw [step_close hpassing, State.closeElement, hframes]
    have hcommit : p.state.commit depth =
        p.state.manifest.insert (Path.ofSegments p.state.path) (State.trimmed file) := by
      rw [State.commit, hpending]
      exact if_pos hname
    have hall := hreads.append (.cons hopen hstep (.nil _))
    rw [List.append_assoc, List.cons_append] at hall
    rw [parse_eq_readOn, readOn_of_reads hcuts hall] at h
    refine contains_of_readOn h ?_
    dsimp only
    rw [hcommit, Index.contains_insert, decide_eq_true rfl, Bool.true_or]

/-- **Where the files of a manifest come from**: from file elements, wherever these stand. So if
none stands outside of an inventory, every file comes from one inside, and without file elements
there are no files.

**Proof sketch.** Only the end tag of a file adds an entry. By induction from the last event on,
such a tag has a start tag of its own, behind which every element is closed; that is the file
element. -/
theorem exists_declares_of_parse (h : parse bytes = .ok manifest) :
    (∀ path file, manifest.find? path = some file → ∃ before, Declares bytes before path file) ∧
      (∀ before path file, Declares bytes before path file → manifest.contains path = true) ∧
      ((∀ before content after, (Markup.events bytes).1 = before ++ .start content :: after →
          Element.ofContent? content = some .file → InInventory before) →
        ∀ path file, manifest.find? path = some file →
          ∃ before, Declares bytes before path file ∧ InInventory before) := by
  have horigin (path : String) (file : Declaration) (hfind : manifest.find? path = some file) :
      ∃ before, Declares bytes before path file := by
    rw [parse_eq_readOn] at h
    obtain ⟨events, rest, q, hcuts, hreads, hend⟩ := exists_reads_of_readOn h
    refine exists_declares_of_reads hcuts hreads ?_
    rcases hend with ⟨event, rest', -, hfinishes⟩ | ⟨-, hfinish⟩
    · rwa [← (closes_of_step hfinishes.2).2.1]
    · rwa [← manifest_of_finish hfinish]
  refine ⟨horigin, fun before path file hdeclares => contains_of_declares h hdeclares,
    fun hinside path file hfind => ?_⟩
  obtain ⟨before, hdeclares⟩ := horigin path file hfind
  refine ⟨before, hdeclares, ?_⟩
  cases hdeclares with
  | @intro content inside rest _ _ _ _ hcuts helement =>
    refine hinside before content (inside ++ [.close (nameOf content)] ++
      (Markup.eventsFrom [] rest).1) ?_ helement
    rw [Markup.events, hcuts.eventsFrom_eq, Markup.eventsFrom_eq]
    simp

/-- The text of an inventory with a file, and what cuts it short. -/
theorem events_closedText : (Markup.events (octets closedText)).1 =
    .aside :: (closedEvents ++ [.close (octets "inhaltsverzeichnis"), .text (octets "&")]) := by
  have hcuts : Cuts (dropMark (octets closedText)) (.aside :: (closedEvents ++
      [.close (octets "inhaltsverzeichnis"), .text (octets "&")])) (octets "<") := by
    decide +kernel
  have hfault : nextEvent (octets "<") = .fault (.token .tag) := rfl
  rw [Markup.events, hcuts.eventsFrom_eq, Markup.eventsFrom_fault hfault, List.append_nil,
    List.reverse_reverse]

/-- The entry of the closed manifest comes from a file element in its inventory. -/
theorem exists_declares_closedText :
    parse (octets closedText) = .ok (Index.ofList [("x", ⟨"", "", ""⟩)]) ∧
      ∃ before, Declares (octets closedText) before "x" ⟨"", "", ""⟩ ∧ InInventory before := by
  have hparse := closesAt_closedText.parse_take_append ((octets closedText).drop 84)
  rw [List.take_append_drop] at hparse
  have hinside := (exists_declares_of_parse hparse).2.2
  refine ⟨hparse, hinside (fun before content after h helement => ?_) "x" _ (by decide +kernel)⟩
  rw [events_closedText] at h
  -- only the third start tag is the one of a file
  simp only [closedEvents, List.cons_append, List.nil_append, List.cons_eq_append_iff,
    List.cons.injEq, reduceCtorEq, false_and, and_false, Event.start.injEq, List.nil_eq,
    List.append_eq_nil_iff, exists_const, or_self, or_false, ↓existsAndEq, true_and, false_or] at h
  obtain ⟨_, rfl, ⟨-, rfl, -⟩ | ⟨_, rfl, ⟨-, rfl, -⟩ | ⟨_, rfl, ⟨rfl, rfl, -⟩ | ⟨-, rfl, -⟩⟩⟩⟩ := h
  · exact absurd helement (by decide +kernel)
  · exact absurd helement (by decide +kernel)
  · exact ⟨[octets "inhaltsverzeichnis", octets "paket"], by decide +kernel, _,
      List.mem_cons_self, by decide +kernel⟩
  · exact absurd helement (by decide +kernel)

/-- The element that a tag opens. -/
def element? : Event → Option Element
  | .start content | .empty content => Element.ofContent? content
  | _ => none

/-- A file without an inventory. -/
def strayText : String :=
  "<paket><datei><name>a</name></datei></paket>"

/-- The events of a file without an inventory. -/
def strayEvents : List Event :=
  [.start (octets "paket"), .start (octets "datei"), .start (octets "name"), .text (octets "a"),
    .close (octets "name"), .close (octets "datei"), .close (octets "paket")]

/-- **A file outside of any inventory is in the manifest.** -/
theorem parse_strayText :
    parse (octets strayText) = .ok (Index.ofList [("a", ⟨"", "", ""⟩)]) ∧
      ∀ event ∈ (Markup.events (octets strayText)).1, element? event ≠ some .inventory := by
  have hcuts : Cuts (dropMark (octets strayText)) strayEvents [] := by decide +kernel
  have hread : ∃ q, Reads .start strayEvents q ∧
      finish q.state = .ok (Index.ofList [("a", ⟨"", "", ""⟩)]) :=
    ⟨_, .cons rfl rfl (.cons rfl (step_file (t := bareTag "datei" (by decide)) rfl (by decide) rfl)
      (.cons rfl rfl (.cons rfl (step_text rfl (Markup.spells_self (by decide)))
        (.cons rfl rfl (.cons rfl rfl (.cons rfl rfl (.nil _))))))), rfl⟩
  obtain ⟨q, hreads, hfinish⟩ := hread
  constructor
  · rw [parse_eq_readOn, readOn_of_reads hcuts hreads, readOn_nil]
    exact hfinish
  · have hevents : (Markup.events (octets strayText)).1 = strayEvents := by
      rw [Markup.events, hcuts.eventsFrom_eq, Markup.eventsFrom]
      simp
    rw [hevents]
    decide +kernel

end Accession.Manifest

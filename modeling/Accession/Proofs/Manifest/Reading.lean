import Accession.Proofs.Index
import Accession.Proofs.Lists
import Accession.Proofs.Manifest.Written
set_option autoImplicit false

/-!
# Written manifests are read

A reader goes through the written form of an inventory with a row of open elements and a path. It
takes a text in any number of parts as it takes it whole, and after a complete element its open
elements and its path are those from before, so that files are put into the manifest under the names
of the folders around them, in document order.

## Main definitions

* `Manifest.Puts` — what some events do to a reader: they put the files of some entries into the
  manifest.

## Main results

* `Manifest.State.takeText_append` — a text may come in parts.
* `Manifest.exists_run_field`, `Manifest.exists_puts_entries` — what a field and some entries do to
  a reader.
* `Manifest.parse_eq_ofList` — a written manifest is read as the files it declares, of which the
  last one with a path counts.
-/

namespace Accession.Manifest

open Markup (BeforeMarkup Complete Cuts Event Nested SaysAll WrittenTag WrittenText isLayout
  localPart)
open Utf8 (encode)

/-! ### Taking texts -/

namespace State

/-- An empty text changes nothing. -/
theorem takeText_empty (s : State) : s.takeText "" = s :=
  if_pos rfl

/-- Text outside the elements that have a text means nothing. -/
theorem takeText_of_none {s : State} (h : s.textElement? = none) (text : String) :
    s.takeText text = s := by
  rw [takeText, h]
  split <;> rfl

/-- A text opens and closes no element. -/
@[simp] theorem frames_takeText (s : State) (text : String) :
    (s.takeText text).frames = s.frames := by
  unfold takeText
  repeat' split
  all_goals rfl

/-- A text does not change what is passed over. -/
@[simp] theorem passing_takeText (s : State) (text : String) :
    (s.takeText text).passing = s.passing := by
  unfold takeText
  repeat' split
  all_goals rfl

/-- A text does not change which element texts belong to. -/
theorem textElement?_takeText (s : State) (text : String) :
    (s.takeText text).textElement? = s.textElement? := by
  rw [textElement?, frames_takeText, textElement?]

/-- A text that is not empty goes where the open elements say. -/
theorem takeText_of_ne {s : State} {text : String} (h : text ≠ "") :
    s.takeText text =
      match s.textElement? with
      | some .name =>
        if s.nameStarted then { s with path := s.path.modify (s.path.length - 1) (· ++ text) }
        else { s with path := s.path ++ [text], nameStarted := true }
      | some .algorithm => { s with pending := s.pending.map (addAlgorithm text) }
      | some .hash => { s with pending := s.pending.map (addHash text) }
      | _ => s := by
  rw [takeText]
  exact if_neg (by simpa using h)

/-- What goes on the last segment of a path goes on what was put there before. -/
theorem modify_last_append (path : List String) (a b : String) :
    (path.modify (path.length - 1) (· ++ a)).modify (path.length - 1) (· ++ b) =
      path.modify (path.length - 1) (· ++ (a ++ b)) := by
  rw [List.modify_modify_eq]
  refine congrArg _ (funext fun segment => ?_)
  exact String.append_assoc

/-- **A text may come in parts.** -/
theorem takeText_append (s : State) (a b : String) :
    (s.takeText a).takeText b = s.takeText (a ++ b) := by
  by_cases ha : a = ""
  · rw [ha, takeText_empty, String.empty_append]
  by_cases hb : b = ""
  · rw [hb, takeText_empty, String.append_empty]
  have hab : a ++ b ≠ "" := fun h => ha (String.append_eq_empty_iff.1 h).1
  rw [takeText_of_ne hb, textElement?_takeText, takeText_of_ne ha, takeText_of_ne hab]
  cases helement : s.textElement? with
  | none => rfl
  | some element =>
    cases element with
    | name =>
      dsimp only
      cases hstarted : s.nameStarted with
      | true => simp [modify_last_append]
      | false => simp [List.modify_length_append_singleton]
    | algorithm =>
      have hfile : addAlgorithm b ∘ addAlgorithm a = addAlgorithm (a ++ b) := by
        funext file
        simp [addAlgorithm, String.append_assoc]
      simp [hfile]
    | hash =>
      have hfile : addHash b ∘ addHash a = addHash (a ++ b) := by
        funext file
        simp [addHash, String.append_assoc]
      simp [hfile]
    | package => rfl
    | inventory => rfl
    | folder => rfl
    | file => rfl

/-- The state inside an element that was just opened. -/
def opened (s : State) (element : Element) : State :=
  { s with
    frames := ⟨element, s.path.length⟩ :: s.frames
    nameStarted := if element = .name then false else s.nameStarted }

/-- Only the tag of a file is looked at. -/
theorem openElement_of_ne (s : State) {element : Element} (h : element ≠ .file)
    (content : List UInt8) : s.openElement element content = .ok (s.opened element) := by
  cases element <;> first | rfl | exact absurd rfl h

end State

/-! ### Reading on -/

/-- Goes on with the events behind one, unless that closed the inventory. -/
def runOn (fault : Option Markup.Error) (events : List Event) : Progress → Except Error Manifest
  | .reading s => run fault s events
  | .finished manifest => .ok manifest

/-- Events are taken one by one. -/
theorem run_cons {s : State} {event : Event} {progress : Progress}
    (h : step s event = .ok progress) (fault : Option Markup.Error) (events : List Event) :
    run fault s (event :: events) = runOn fault events progress := by
  rw [run, h]
  cases progress <;> rfl

/-- Outside the elements that are passed over every event is read. -/
theorem step_of_none {s : State} (h : s.passing = none) (event : Event) :
    step s event = readEvent s event := by
  rw [step, h]

/-- A text is taken as the text that it spells. -/
theorem step_text {s : State} (hpassing : s.passing = none) {written text : List Char}
    (h : Markup.Spells written text) :
    step s (.text (encode written)) = .ok (.reading (s.takeText (String.ofList text))) := by
  rw [step_of_none hpassing, readEvent, Markup.decodeText_encode_of_spells h]
  rfl

/-- Events that say a text are taken as that text. -/
theorem run_saysAll {events : List Event} {text : List Char} (h : SaysAll events text) {s : State}
    (hpassing : s.passing = none) (fault : Option Markup.Error) (more : List Event) :
    run fault s (events ++ more) = run fault (s.takeText (String.ofList text)) more := by
  induction h generalizing s with
  | nil => rw [List.nil_append, String.ofList_nil, State.takeText_empty]
  | @cons event events text rest hsays _ ih =>
    have hstep : step s event = .ok (.reading (s.takeText (String.ofList text))) := by
      cases hsays with
      | text h => exact step_text hpassing h
      | characterData => rw [step_of_none hpassing, readEvent, Utf8.decodeLossy_encode]
    rw [List.cons_append, run_cons hstep, runOn, ih (by rwa [State.passing_takeText]),
      State.takeText_append, String.ofList_append]

/-- Layout is passed over where no text counts. -/
theorem run_layout {events : List Event} {layout : List Char} (h : SaysAll events layout)
    {s : State} (hpassing : s.passing = none) (htext : s.textElement? = none)
    (fault : Option Markup.Error) (more : List Event) :
    run fault s (events ++ more) = run fault s more := by
  rw [run_saysAll h hpassing, State.takeText_of_none htext]

/-! ### Tags -/

/-- The element of a tag is the one whose name it bears. -/
theorem ofContent?_octets {t : WrittenTag} {element : Element} (h : Bears t element) :
    Element.ofContent? t.octets = some element := by
  have hname : Markup.localName (Markup.nameOf t.octets) = Markup.octets element.tag := by
    rw [t.nameOf_octets, Markup.localName_encode, h, Markup.octets]
  rw [Element.ofContent?, hname]
  cases element <;> decide +kernel

/-- A start tag opens its element. -/
theorem step_start {s : State} (hpassing : s.passing = none) {t : WrittenTag} {element : Element}
    (h : Bears t element) {s' : State} (hopen : s.openElement element t.octets = .ok s') :
    step s (.start t.octets) = .ok (.reading s') := by
  rw [step_of_none hpassing, readEvent, ofContent?_octets h]
  dsimp only
  rw [hopen]
  rfl

/-- A tag that is an element by itself opens and closes it. -/
theorem step_empty {s : State} (hpassing : s.passing = none) {t : WrittenTag} {element : Element}
    (h : Bears t element) {s' : State} (hopen : s.openElement element t.octets = .ok s') :
    step s (.empty t.octets) = .ok s'.closeElement := by
  rw [step_of_none hpassing, readEvent, ofContent?_octets h]
  dsimp only
  rw [hopen]
  rfl

/-- Outside the elements that are passed over an end tag closes the innermost element. -/
theorem step_close {s : State} (hpassing : s.passing = none) (name : List UInt8) :
    step s (.close name) = .ok s.closeElement := by
  rw [step_of_none hpassing, readEvent]

/-- An element is opened, what stands inside is read, and the element is closed. -/
theorem run_element {s : State} (hpassing : s.passing = none) {t : WrittenTag} {element : Element}
    (h : Bears t element) {s' s'' : State} (hopen : s.openElement element t.octets = .ok s')
    {events : List Event} {fault : Option Markup.Error}
    (hinner : ∀ more, run fault s' (events ++ more) = run fault s'' more)
    (hpassing' : s''.passing = none) (more : List Event) :
    run fault s (.start t.octets :: (events ++ [.close (encode t.name)]) ++ more) =
      runOn fault more s''.closeElement := by
  rw [List.cons_append, run_cons (step_start hpassing h hopen), runOn, List.append_assoc, hinner,
    List.singleton_append, run_cons (step_close hpassing' _)]

/-! ### Fields -/

/-- A field is opened, takes its text and is closed. -/
theorem exists_run_field {element : Element} (helement : element ≠ .file) {text : String}
    {chars : List Char} (h : WrittenField element text chars) :
    ∃ events, Complete chars events ∧ ∀ fault (s : State) more, s.passing = none →
      run fault s (events ++ more) =
        runOn fault more ((s.opened element).takeText text).closeElement := by
  cases h with
  | element ht hwritten htrail =>
    obtain ⟨events, hcuts, hsays⟩ := hwritten.exists_beforeMarkup
    refine ⟨_, WrittenTag.complete_element _ htrail hcuts, fun fault s more hpassing => ?_⟩
    have hopened : (s.opened element).passing = none := hpassing
    exact run_element hpassing ht (s.openElement_of_ne helement _)
      (fun more => run_saysAll hsays hopened fault more) (by rwa [State.passing_takeText]) more
  | @empty t ht =>
    refine ⟨_, WrittenTag.complete_emptyElement _, fun fault s more hpassing => ?_⟩
    rw [List.singleton_append,
      run_cons (step_empty hpassing ht (s.openElement_of_ne helement _)), State.takeText_empty]

/-- The name of a folder or a file is the next segment of the path. -/
theorem closeElement_name {s : State} {top : Element} (htop : top = .folder ∨ top = .file)
    {depth : Nat} {frames : List Frame} (hframes : s.frames = ⟨top, depth⟩ :: frames)
    {text : String} (htext : text ≠ "") :
    ((s.opened .name).takeText text).closeElement =
      .reading { s with path := s.path ++ [text], nameStarted := false } := by
  have hname : (s.opened .name).textElement? = some .name := by
    rw [State.textElement?, State.opened, hframes]
    rcases htop with rfl | rfl <;> rfl
  rw [State.takeText_of_ne htext, hname]
  rfl

/-- The algorithm and the checksum of a file go on what the file has of them. -/
theorem closeElement_checksum {element : Element} {add : String → Declaration → Declaration}
    (hadd : element = .algorithm ∧ add = State.addAlgorithm ∨
      element = .hash ∧ add = State.addHash)
    {s : State} {depth : Nat} {frames : List Frame}
    (hframes : s.frames = ⟨.file, depth⟩ :: frames) (text : String) :
    ((s.opened element).takeText text).closeElement =
      .reading { s with pending := s.pending.map (add text) } := by
  by_cases htext : text = ""
  · have hsame : add "" = id := by
      funext file
      rcases hadd with ⟨-, rfl⟩ | ⟨-, rfl⟩ <;> simp [State.addAlgorithm, State.addHash]
    rw [htext, State.takeText_empty, hsame, Option.map_id]
    rcases hadd with ⟨rfl, -⟩ | ⟨rfl, -⟩ <;> rfl
  · have helement : (s.opened element).textElement? = some element := by
      rw [State.textElement?, State.opened, hframes]
      rcases hadd with ⟨rfl, -⟩ | ⟨rfl, -⟩ <;> rfl
    rw [State.takeText_of_ne htext, helement]
    rcases hadd with ⟨rfl, rfl⟩ | ⟨rfl, rfl⟩ <;> rfl

/-- Layout in front of a field means nothing, and what is behind the field is read on. -/
theorem exists_run_layout_field {element : Element} (helement : element ≠ .file)
    {layout field rest : List Char} (hlayout : ∀ c ∈ layout, isLayout c) {text : String}
    (hfield : WrittenField element text field) {others : List Event}
    (hothers : BeforeMarkup rest others) :
    ∃ events, BeforeMarkup (layout ++ (field ++ rest)) events ∧
      ∀ fault (s : State) more, s.passing = none → s.textElement? = none →
        run fault s (events ++ more) =
          runOn fault (others ++ more) ((s.opened element).takeText text).closeElement := by
  obtain ⟨blanks, hblanks, hsays⟩ := (Markup.writtenText_layout hlayout).exists_beforeMarkup
  obtain ⟨events, hcuts, hrun⟩ := exists_run_field helement hfield
  refine ⟨_, hblanks.surround hcuts hothers, fun fault s more hpassing htext => ?_⟩
  rw [List.append_assoc, run_layout hsays hpassing htext, List.append_assoc, hrun _ _ _ hpassing]

/-- The fields of a file add a segment to the path and complete the file being read. -/
theorem exists_run_fields {name algorithm hash : Option String} {chars : List Char}
    (h : WrittenFields name algorithm hash chars) (hname : ∀ text ∈ name, text ≠ "") :
    ∃ events, BeforeMarkup chars events ∧
      ∀ fault depth frames path (file : Declaration) manifest more,
        run fault ⟨⟨.file, depth⟩ :: frames, path, some file, false, none, manifest⟩
            (events ++ more) =
          run fault ⟨⟨.file, depth⟩ :: frames, path ++ name.toList,
            some ⟨file.id, file.algorithm ++ algorithm.getD "", file.hash ++ hash.getD ""⟩,
            false, none, manifest⟩ more := by
  induction h with
  | nil hlayout =>
    obtain ⟨events, hcuts, hsays⟩ := (Markup.writtenText_layout hlayout).exists_beforeMarkup
    refine ⟨events, hcuts, fun fault depth frames path file manifest more => ?_⟩
    rw [run_layout hsays rfl rfl]
    simp
  | name hlayout hfield _ ih =>
    obtain ⟨others, hothers, hmore⟩ := ih (by simp)
    obtain ⟨events, hcuts, hrun⟩ := exists_run_layout_field (by decide) hlayout hfield hothers
    refine ⟨events, hcuts, fun fault depth frames path file manifest more => ?_⟩
    rw [hrun _ _ _ rfl rfl, closeElement_name (.inr rfl) rfl (hname _ rfl), runOn, hmore]
    simp
  | algorithm hlayout hfield _ ih =>
    obtain ⟨others, hothers, hmore⟩ := ih hname
    obtain ⟨events, hcuts, hrun⟩ := exists_run_layout_field (by decide) hlayout hfield hothers
    refine ⟨events, hcuts, fun fault depth frames path file manifest more => ?_⟩
    rw [hrun _ _ _ rfl rfl, closeElement_checksum (.inl ⟨rfl, rfl⟩) rfl, runOn, Option.map_some,
      hmore]
    simp [State.addAlgorithm]
  | hash hlayout hfield _ ih =>
    obtain ⟨others, hothers, hmore⟩ := ih hname
    obtain ⟨events, hcuts, hrun⟩ := exists_run_layout_field (by decide) hlayout hfield hothers
    refine ⟨events, hcuts, fun fault depth frames path file manifest more => ?_⟩
    rw [hrun _ _ _ rfl rfl, closeElement_checksum (.inr ⟨rfl, rfl⟩) rfl, runOn, Option.map_some,
      hmore]
    simp [State.addHash]

/-! ### Entries -/

/-- The identifier of a file is the one that its attribute spells. -/
theorem fileId_octets {t : WrittenTag} {id : String} (h : Identifies t id) :
    fileId t.octets = .ok id := by
  obtain ⟨a, ha, hspells⟩ := h
  have hkey (w : Markup.WrittenAttribute) :
      decide (Markup.localName w.raw.key = Markup.octets "id") =
        decide (localPart w.key = ['i', 'd']) := by
    refine decide_eq_decide.2 ?_
    rw [Markup.WrittenAttribute.raw, Markup.localName_encode]
    exact ⟨fun h => Utf8.encode_injective h, fun h => by rw [h]; rfl⟩
  have hfind : (t.attributes.map (·.raw)).find?
      (fun w => Markup.localName w.key = Markup.octets "id") = some a.raw := by
    rw [List.find?_map]
    simp only [Function.comp_def, hkey, ha, Option.map_some]
  rw [fileId, t.attributes_octets]
  dsimp only
  rw [hfind, Markup.WrittenAttribute.raw]
  dsimp only
  rw [Markup.decodeText_encode_of_spells hspells, String.ofList_toList]
  rfl

/-- A file without attributes is opened without an identifier. -/
theorem step_file {s : State} (hpassing : s.passing = none) {t : WrittenTag} (h : Bears t .file)
    (hattributes : t.attributes = []) :
    step s (.start t.octets) = .ok (.reading { s with
      frames := ⟨.file, s.path.length⟩ :: s.frames
      pending := some ⟨"", "", ""⟩ }) := by
  have hid : fileId t.octets = .ok "" := by
    rw [fileId, t.attributes_octets, hattributes]
    rfl
  refine step_start hpassing h ?_
  rw [State.openElement, hid]
  rfl

/-- A manifest with more files, of which the last one with a path counts. -/
def addFiles (manifest : Manifest) (files : List (String × Declaration)) : Manifest :=
  files.foldl (fun manifest file => manifest.insert file.1 file.2) manifest

/-- Files are added in their order, so that the last one of a path wins. -/
theorem addFiles_append (manifest : Manifest) (a b : List (String × Declaration)) :
    addFiles manifest (a ++ b) = addFiles (addFiles manifest a) b :=
  List.foldl_append

/-- A folder is left with the path with which it was entered. -/
theorem closeElement_folder (frames : List Frame) (path more : List String) (manifest : Manifest) :
    State.closeElement
        ⟨⟨.folder, path.length⟩ :: frames, path ++ more, none, false, none, manifest⟩ =
      .reading ⟨frames, path, none, false, none, manifest⟩ := by
  rw [State.closeElement]
  dsimp only
  rw [List.take_left]

/-- A file with a name is put into the manifest, and left with the path with which it was
entered. -/
theorem closeElement_file (frames : List Frame) (path : List String) (name : String)
    (file : Declaration) (manifest : Manifest) :
    State.closeElement
        ⟨⟨.file, path.length⟩ :: frames, path ++ [name], some file, false, none, manifest⟩ =
      .reading ⟨frames, path, none, false, none,
        manifest.insert (Path.ofSegments (path ++ [name])) (State.trimmed file)⟩ := by
  have hlong : path.length < (path ++ [name]).length := by simp
  rw [State.closeElement]
  dsimp only
  rw [List.take_left, State.commit]
  dsimp only
  rw [if_pos hlong]

/-- The files of two rows of entries are those of one and then those of the other. -/
theorem files_append (folders : List String) (a b : List Entry) :
    files folders (a ++ b) = files folders a ++ files folders b := by
  induction a with
  | nil => rfl
  | cons entry a ih => rw [List.cons_append, files, files, ih, List.append_assoc]

/-- Some events put the files that entries declare into the manifest, and leave open elements and
path as they were. -/
def Puts (entries : List Entry) (events : List Event) : Prop :=
  ∀ fault top depth frames path manifest more, top = .inventory ∨ top = .folder →
    run fault ⟨⟨top, depth⟩ :: frames, path, none, false, none, manifest⟩ (events ++ more) =
      run fault ⟨⟨top, depth⟩ :: frames, path, none, false, none,
        addFiles manifest (files path entries)⟩ more

/-- Two rows of entries are written one behind the other. -/
theorem Puts.append {a b : List Entry} {events events' : List Event} (h : Puts a events)
    (h' : Puts b events') : Puts (a ++ b) (events ++ events') := by
  intro fault top depth frames path manifest more htop
  rw [List.append_assoc, h _ _ _ _ _ _ _ htop, h' _ _ _ _ _ _ _ htop, files_append,
    addFiles_append]

/-- Layout between entries means nothing. -/
theorem puts_layout {layout : List Char} {events : List Event} (h : SaysAll events layout) :
    Puts [] events := by
  intro fault top depth frames path manifest more htop
  have htext : State.textElement? ⟨⟨top, depth⟩ :: frames, path, none, false, none, manifest⟩ =
      none := by
    rcases htop with rfl | rfl <;> rfl
  rw [run_layout h rfl htext]
  rfl

/-- A folder puts its name on the path, its entries are read below that path, and its end cuts the
path back. -/
theorem exists_puts_folder {t : WrittenTag} (ht : Bears t .folder)
    {inside field inner trail : List Char} (hinside : ∀ c ∈ inside, isLayout c) {name : String}
    (hname : name ≠ "")
    (hfield : WrittenField .name name field) {entries : List Entry}
    (hinner : ∃ events, BeforeMarkup inner events ∧ Puts entries events)
    (htrail : ∀ c ∈ trail, isLayout c) :
    ∃ events, Complete (t.element (inside ++ (field ++ inner)) trail) events ∧
      Puts [.folder name entries] events := by
  obtain ⟨blanks, hblanks, hsays⟩ := (Markup.writtenText_layout hinside).exists_beforeMarkup
  obtain ⟨nameEvents, hnameCuts, hnameRun⟩ := exists_run_field (by decide) hfield
  obtain ⟨innerEvents, hinnerCuts, hinnerRun⟩ := hinner
  refine ⟨_, t.complete_element htrail (hblanks.surround hnameCuts hinnerCuts),
    fun fault top depth frames path manifest more htop => ?_⟩
  have hopen : State.openElement
      ⟨⟨top, depth⟩ :: frames, path, none, false, none, manifest⟩ .folder t.octets =
      .ok ⟨⟨.folder, path.length⟩ :: ⟨top, depth⟩ :: frames, path, none, false, none, manifest⟩ :=
    rfl
  have hread (more : List Event) :
      run fault ⟨⟨.folder, path.length⟩ :: ⟨top, depth⟩ :: frames, path, none, false, none,
          manifest⟩ (blanks ++ (nameEvents ++ innerEvents) ++ more) =
        run fault ⟨⟨.folder, path.length⟩ :: ⟨top, depth⟩ :: frames, path ++ [name], none, false,
          none, addFiles manifest (files (path ++ [name]) entries)⟩ more := by
    rw [List.append_assoc, run_layout hsays rfl rfl, List.append_assoc, hnameRun _ _ _ rfl,
      closeElement_name (.inl rfl) rfl hname, runOn]
    exact hinnerRun fault .folder path.length _ _ manifest more (.inr rfl)
  rw [run_element rfl ht hopen hread rfl, closeElement_folder, runOn, files, Entry.files, files,
    List.append_nil]

/-- A file starts a declaration, its fields complete it and put its name on the path, and its end
puts the file into the manifest and cuts the path back. -/
theorem exists_puts_file {t : WrittenTag} (ht : Bears t .file) {id : String} (hid : Identifies t id)
    {fields trail : List Char} {name : String} (hname : name ≠ "") {algorithm hash : Option String}
    (hfields : WrittenFields (some name) algorithm hash fields)
    (htrail : ∀ c ∈ trail, isLayout c) :
    ∃ events, Complete (t.element fields trail) events ∧
      Puts [.file name ⟨id, algorithm.getD "", hash.getD ""⟩] events := by
  obtain ⟨fieldEvents, hfieldCuts, hfieldRun⟩ := exists_run_fields hfields (by simpa using hname)
  refine ⟨_, t.complete_element htrail hfieldCuts,
    fun fault top depth frames path manifest more htop => ?_⟩
  have hopen : State.openElement
      ⟨⟨top, depth⟩ :: frames, path, none, false, none, manifest⟩ .file t.octets =
      .ok ⟨⟨.file, path.length⟩ :: ⟨top, depth⟩ :: frames, path, some ⟨id, "", ""⟩, false, none,
        manifest⟩ := by
    rw [State.openElement]
    dsimp only
    rw [fileId_octets hid]
    rfl
  have hread (more : List Event) :
      run fault ⟨⟨.file, path.length⟩ :: ⟨top, depth⟩ :: frames, path, some ⟨id, "", ""⟩, false,
          none, manifest⟩ (fieldEvents ++ more) =
        run fault ⟨⟨.file, path.length⟩ :: ⟨top, depth⟩ :: frames, path ++ [name],
          some ⟨id, algorithm.getD "", hash.getD ""⟩, false, none, manifest⟩ more := by
    rw [hfieldRun, String.empty_append, String.empty_append]
    rfl
  rw [run_element rfl ht hopen hread rfl, closeElement_file, runOn, files, Entry.files, files]
  rfl

/-- **Entries put the files they declare into the manifest**, and leave open elements and path as
they were.

**Proof sketch.** By induction over the written form: layout means nothing between entries, and each
entry puts its own files there. -/
theorem exists_puts_entries {entries : List Entry} {chars : List Char}
    (h : WrittenEntries entries chars) :
    ∃ events, BeforeMarkup chars events ∧ Puts entries events := by
  induction h with
  | nil hlayout =>
    obtain ⟨events, hcuts, hsays⟩ := (Markup.writtenText_layout hlayout).exists_beforeMarkup
    exact ⟨events, hcuts, puts_layout hsays⟩
  | folder hlayout ht hinside hname hfield _ htrail _ ihInner ihMore =>
    obtain ⟨blanks, hblanks, hsays⟩ := (Markup.writtenText_layout hlayout).exists_beforeMarkup
    obtain ⟨events, hcuts, hputs⟩ := exists_puts_folder ht hinside hname hfield ihInner htrail
    obtain ⟨others, hothers, hmore⟩ := ihMore
    exact ⟨_, hblanks.surround hcuts hothers, (puts_layout hsays).append (hputs.append hmore)⟩
  | file hlayout ht hid hname hfields htrail _ ihMore =>
    obtain ⟨blanks, hblanks, hsays⟩ := (Markup.writtenText_layout hlayout).exists_beforeMarkup
    obtain ⟨events, hcuts, hputs⟩ := exists_puts_file ht hid hname hfields htrail
    obtain ⟨others, hothers, hmore⟩ := ihMore
    exact ⟨_, hblanks.surround hcuts hothers, (puts_layout hsays).append (hputs.append hmore)⟩

/-! ### Manifests -/

/-- The end of the inventory ends the reading. -/
theorem exists_run_inventory {entries : List Entry} {chars : List Char}
    (h : WrittenInventory entries chars) :
    ∃ events, Complete chars events ∧ ∀ fault frames manifest more,
      run fault ⟨frames, [], none, false, none, manifest⟩ (events ++ more) =
        .ok (addFiles manifest (files [] entries)) := by
  cases h with
  | @element t entries inner trail ht hinner htrail =>
    obtain ⟨events, hcuts, hrun⟩ := exists_puts_entries hinner
    refine ⟨_, t.complete_element htrail hcuts, fun fault frames manifest more => ?_⟩
    have hopen : State.openElement ⟨frames, [], none, false, none, manifest⟩ .inventory t.octets =
        .ok ⟨⟨.inventory, 0⟩ :: frames, [], none, false, none, manifest⟩ :=
      rfl
    rw [run_element rfl ht hopen (fun more => hrun fault _ _ _ _ _ more (.inl rfl)) rfl]
    rfl
  | @empty t ht =>
    refine ⟨_, t.complete_emptyElement, fun fault frames manifest more => ?_⟩
    have hopen : State.openElement ⟨frames, [], none, false, none, manifest⟩ .inventory t.octets =
        .ok ⟨⟨.inventory, 0⟩ :: frames, [], none, false, none, manifest⟩ :=
      rfl
    rw [List.singleton_append, run_cons (step_empty rfl ht hopen)]
    rfl

/-- What stands in front of the package is passed over. -/
theorem exists_run_prolog {chars : List Char} (h : WrittenProlog chars) :
    ∃ events, BeforeMarkup chars events ∧ ∀ fault more,
      run fault State.initial (events ++ more) = run fault State.initial more := by
  cases h with
  | layout hlayout =>
    obtain ⟨events, hcuts, hsays⟩ := (Markup.writtenText_layout hlayout).exists_beforeMarkup
    exact ⟨events, hcuts, fun fault more => run_layout hsays rfl rfl fault more⟩
  | @instruction content layout hend hhead hlayout =>
    obtain ⟨events, hcuts, hsays⟩ := (Markup.writtenText_layout hlayout).exists_beforeMarkup
    have hinstruction := BeforeMarkup.nil.surround (Markup.complete_instruction hend hhead) hcuts
    simp only [List.nil_append, List.cons_append, List.append_assoc] at hinstruction
    refine ⟨_, hinstruction, fun fault more => ?_⟩
    have haside : step State.initial .aside = .ok (.reading State.initial) := rfl
    rw [List.cons_append, run_cons haside, runOn, run_layout hsays rfl rfl]

/-- No byte order mark stands at the front of a prolog. -/
theorem dropMark_prolog {prolog : List Char} (h : WrittenProlog prolog) {rest : List UInt8}
    (hrest : rest.head? = some 0x3C) :
    Markup.dropMark (encode prolog ++ rest) = encode prolog ++ rest := by
  have hfirst : ∃ b tail, encode prolog ++ rest = b :: tail ∧ b ≠ 0xEF := by
    cases h with
    | layout hlayout =>
      cases prolog with
      | nil =>
        obtain ⟨tail, htail⟩ := List.head?_eq_some_iff.1 hrest
        exact ⟨0x3C, tail, htail, by decide⟩
      | cons c layout =>
        have hascii : c.toNat < 0x80 ∧ UInt8.ofNat c.toNat ≠ 0xEF := by
          have hc := hlayout c List.mem_cons_self
          simp only [isLayout, Bool.or_eq_true, decide_eq_true_eq] at hc
          rcases hc with ((rfl | rfl) | rfl) | rfl <;> decide
        rw [Utf8.encode_cons, Utf8.utf8EncodeChar_of_lt hascii.1]
        exact ⟨_, _, rfl, hascii.2⟩
    | instruction => exact ⟨0x3C, _, rfl, by decide⟩
  obtain ⟨b, tail, hcons, hne⟩ := hfirst
  have hmark : ¬Markup.byteOrderMark.isPrefixOf (b :: tail) = true := by
    simp [Markup.byteOrderMark, List.isPrefixOf, Ne.symm hne]
  rw [hcons, Markup.dropMark, if_neg hmark]

/-- A byte order mark at the front is dropped. -/
theorem dropMark_byteOrderMark (bytes : List UInt8) :
    Markup.dropMark (encode ['\uFEFF'] ++ bytes) = bytes := by
  have hmark : encode ['\uFEFF'] = Markup.byteOrderMark := by decide +kernel
  have hprefix : Markup.byteOrderMark.isPrefixOf (Markup.byteOrderMark ++ bytes) = true :=
    List.isPrefixOf_iff_prefix.2 (List.prefix_append ..)
  rw [hmark, Markup.dropMark, if_pos hprefix]
  rfl

/-- **A written manifest is read as the files that its inventory declares**: every path has the
declaration of the last file with that path, in document order.

**Proof sketch.** Each part of the written form is cut into a row of events, which the reader goes
through: prolog and layout change nothing, and the inventory adds its files. A mark in front is
dropped before all of it. -/
theorem parse_eq_ofList {entries : List Entry} {text : List Char}
    (h : WrittenManifest entries text) :
    parse (encode text) = .ok (Index.ofList (files [] entries)) ∧
      ∀ path, (Index.ofList (files [] entries)).find? path =
        ((files [] entries).reverse.find? (·.1 = path)).map (·.2) := by
  refine ⟨?_, Index.find?_ofList _⟩
  cases h with
  | @intro mark prolog before inventory after trail rest t _ hmark hprolog ht hbefore hinventory
      hafter htrail =>
    obtain ⟨prologEvents, hprologCuts, hprologRun⟩ := exists_run_prolog hprolog
    obtain ⟨blanks, hblanks, hsays⟩ := (Markup.writtenText_layout hbefore).exists_beforeMarkup
    obtain ⟨events, hcuts, hrun⟩ := exists_run_inventory hinventory
    obtain ⟨blanks', hblanks', -⟩ := (Markup.writtenText_layout hafter).exists_beforeMarkup
    have hpackage := t.complete_element htrail (hblanks.surround hcuts hblanks')
    have hbytes : Markup.dropMark (encode (mark ++ (prolog ++
        (t.element (before ++ (inventory ++ after)) trail ++ rest)))) =
        encode prolog ++ (encode (t.element (before ++ (inventory ++ after)) trail) ++
          encode rest) := by
      rw [Utf8.encode_append, Utf8.encode_append, Utf8.encode_append]
      rcases hmark with rfl | rfl
      · exact dropMark_prolog hprolog (hpackage.head _)
      · exact dropMark_byteOrderMark _
    have hread := Markup.read_eq_of_cuts
      (hbytes ▸ (hprologCuts.cuts _ (hpackage.head _)).append (hpackage.cuts _))
      (hprologCuts.nested.append hpackage.nested)
    have hopen : State.openElement State.initial .package t.octets =
        .ok ⟨[⟨.package, 0⟩], [], none, false, none, Index.empty⟩ :=
      rfl
    rw [parse, hread]
    dsimp only
    rw [List.append_assoc, hprologRun, List.cons_append, run_cons (step_start rfl ht hopen), runOn,
      List.append_assoc, List.append_assoc, run_layout hsays rfl rfl, List.append_assoc, hrun]
    rfl

/-- A start tag without attributes. -/
def bareTag (name : String) (h : Markup.PlainName name.toList) : WrittenTag :=
  ⟨name.toList, [], [], h, List.nodup_nil, Markup.isLayout_of_mem_nil⟩

/-- The start tag of a file with an identifier. -/
def numberedTag : WrittenTag where
  name := "datei".toList
  attributes := [⟨[' '], ['i', 'd'], [], [], '\'', ['1'], Markup.space_ne_nil,
    Markup.isLayout_of_mem_space, by decide, Markup.isLayout_of_mem_nil,
    Markup.isLayout_of_mem_nil, .inr rfl, by decide⟩]
  trail := []
  name_plain := by decide
  keys_nodup := by decide
  trail_layout := Markup.isLayout_of_mem_nil

/-- A file without algorithm in a folder, with a prefix, a line break, a reference and a character
data section. -/
def nestedText : String :=
  "<p:paket><inhaltsverzeichnis>\n" ++ "<ordner><name>c</name><datei id='1'>" ++
    "<pruefsumme> 00</pruefsumme>" ++ "<name>d&amp;<![CDATA[e]]></name></datei></ordner>" ++
    "</inhaltsverzeichnis></p:paket>"

/-- A manifest with a prefix, an escape and a folder is read as its one file. -/
theorem parse_nestedText_eq_ofList :
    WrittenManifest [.folder "c" [.file "d&e" ⟨"1", "", " 00"⟩]] nestedText.toList ∧
      parse (encode nestedText.toList) = .ok (Index.ofList [("c/d&e", ⟨"1", "", "00"⟩)]) := by
  have hnone := Markup.isLayout_of_mem_nil
  have hself (text : List Char) (hamp : '&' ∉ text) (hopen : '<' ∉ text) : WrittenText text text :=
    .run (Markup.spells_self hamp) hopen
  have hsplit : WrittenText (['d', '&', 'a', 'm', 'p', ';'] ++ ("<![CDATA[".toList ++ (['e'] ++
      ([']', ']', '>'] ++ [])))) (['d', '&'] ++ (['e'] ++ [])) :=
    .characterData (.plain (by decide) (.reference .amp .nil)) (by decide) (by decide)
      (.run .nil (by decide))
  have hfields : WrittenFields (some "d&e") none (some " 00") _ :=
    .hash hnone (.element (t := bareTag "pruefsumme" (by decide)) (by decide)
        (hself [' ', '0', '0'] (by decide) (by decide)) hnone) <|
      .name hnone (.element (t := bareTag "name" (by decide)) (by decide) hsplit hnone)
        (.nil hnone)
  have hfolder : WrittenField .name "c" _ :=
    .element (t := bareTag "name" (by decide)) (by decide)
      (hself ['c'] (by decide) (by decide)) hnone
  have hid : Identifies numberedTag "1" := ⟨_, rfl, Markup.spells_self (by decide)⟩
  have hentries : WrittenEntries [.folder "c" [.file "d&e" ⟨"1", "", " 00"⟩]] _ :=
    .folder (t := bareTag "ordner" (by decide)) (by decide : ∀ c ∈ ['\n'], isLayout c = true)
      (by decide) hnone (by decide) hfolder
      (.file hnone (by decide) hid (by decide) hfields hnone (.nil hnone)) hnone (.nil hnone)
  have hmanifest : WrittenManifest _ ([] ++ ([] ++ (_ ++ []))) :=
    .intro (t := bareTag "p:paket" (by decide)) (.inl rfl) (.layout hnone) (by decide) hnone
      (.element (t := bareTag "inhaltsverzeichnis" (by decide)) (by decide) hentries hnone) hnone
      hnone
  have hwritten : WrittenManifest [.folder "c" [.file "d&e" ⟨"1", "", " 00"⟩]]
      nestedText.toList :=
    Eq.mp (congrArg (WrittenManifest _) (by decide +kernel)) hmanifest
  have hfiles : files [] [.folder "c" [.file "d&e" ⟨"1", "", " 00"⟩]] =
      [("c/d&e", ⟨"1", "", "00"⟩)] := by
    decide +kernel
  have hparse := (parse_eq_ofList hwritten).1
  rw [hfiles] at hparse
  exact ⟨hwritten, hparse⟩

end Accession.Manifest

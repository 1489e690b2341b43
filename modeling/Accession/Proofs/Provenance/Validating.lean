import Accession.Proofs.Lists
import Accession.Proofs.Provenance.Linking
import Accession.Proofs.Provenance.Retrying
set_option autoImplicit false

/-!
# Validations of recorded files

The objects of content files and the formats of these files are told by the same original names. So
once the files below a content directory are recorded and their formats are known, a validation
finds the object of every file that its validator covers: it is recorded, and linked from these
objects, or there is no such file and nothing happens.

## Main definitions

* `Provenance.Outside` — a path that leads to a place outside a directory.
* `Provenance.Validator.coveredNames` — the original names of the files that a validator covers.

## Main results

* `Provenance.mem_covered_iff` — the names that a validation is about are those of files.
* `Provenance.exists_change_recordValidation` — a validation of objects that are there is recorded.
* `Provenance.run_recordValidation_of_recorded` — files, objects and formats agree.
-/

namespace Accession.Provenance

open Document (Orderly)

/-! ### A PREMIS file outside the content directory -/

/-- A file that is written at this path is not below the directory that another one leads to. -/
def Outside (t : FileTree) (premis content : String) : Prop :=
  ∀ place directory, Files.resolve t .writing premis = .ok place →
    Files.directory t content = .ok directory → ¬directory <+: place

/-- The content files are the same after a document is saved outside. -/
theorem contentFiles_of_save {t t' : FileTree} {premis content : String} {paths : List String}
    {d : Document} (houtside : Outside t premis content)
    (hpaths : contentFiles t content = .ok paths) (hsave : d.save t premis = .ok t') :
    contentFiles t' content = .ok paths := by
  have hwrite := Document.save_eq_ok_iff.1 hsave
  obtain ⟨place, hplace, -, hsame, hfile⟩ := Files.exists_of_write hwrite
  obtain ⟨files, hlisting, -⟩ := exists_listing_of_contentFiles hpaths
  obtain ⟨directory, hdirectory, -⟩ := hlisting.exists_directory
  rw [← hpaths]
  exact contentFiles_of_sameBut hsame (Files.node?_ne_directory_of_write hwrite hplace)
    (Files.node?_ne_link_of_resolve hplace) hfile hdirectory
    (houtside place directory hplace hdirectory)

/-! ### Formats of files -/

/-- Whether a validator covers the format that is said of the file at a path. -/
def Validator.coversFile (validator : Validator) (identify : FormatIdentifier) (path : String) :
    Bool :=
  match identify path with
  | .ok format => validator.covers format
  | .error _ => false

/-- The original names of the files below a content directory whose format a validator covers. -/
def Validator.coveredNames (validator : Validator) (identify : FormatIdentifier) (content : String)
    (files : List (List Octets)) : List String :=
  (files.filter fun names =>
    validator.coversFile identify (Path.join content (Path.shown names))).map nameBelow

/-- **Each file is identified**, and its format stands under its original name. -/
theorem exists_of_identifyPaths {content : String} {identify : FormatIdentifier}
    {paths : List String} {entries : List (String × String)}
    (h : identifyPaths content identify paths = .ok entries) :
    entries.map (·.1) = paths.map originalName ∧
      ∀ name format, (name, format) ∈ entries ↔
        ∃ path ∈ paths, identify (Path.join content path) = .ok format ∧
          name = originalName path := by
  induction paths generalizing entries with
  | nil =>
    cases h
    simp
  | cons path paths ih =>
    rw [identifyPaths] at h
    cases hidentify : identify (Path.join content path) with
    | error causes =>
      rw [hidentify] at h
      cases h
    | ok format =>
      rw [hidentify] at h
      cases hrest : identifyPaths content identify paths with
      | error error =>
        rw [hrest] at h
        cases h
      | ok rest =>
        rw [hrest] at h
        cases h
        obtain ⟨hkeys, hmem⟩ := ih hrest
        refine ⟨by rw [List.map_cons, hkeys, List.map_cons], fun name other => ?_⟩
        rw [List.mem_cons, hmem, List.exists_mem_cons_iff, hidentify, Prod.mk.injEq,
          Except.ok.injEq, and_comm, eq_comm (a := other)]

/-- The format of each content file stands under its original name. -/
theorem exists_of_identifyFormats {t : FileTree} {content : String} {identify : FormatIdentifier}
    {formats : FormatMap} {paths : List String} (hpaths : contentFiles t content = .ok paths)
    (h : identifyFormats t content identify = .ok formats) :
    ∃ entries, identifyPaths content identify paths = .ok entries ∧
      formats = Index.ofList entries := by
  simp only [identifyFormats, hpaths, bind, Except.bind] at h
  cases hidentified : identifyPaths content identify paths with
  | error error =>
    rw [hidentified] at h
    cases h
  | ok entries =>
    rw [hidentified] at h
    cases h
    exact ⟨entries, rfl, rfl⟩

/-- A validator covers a file exactly if its format is found out and is one that it covers. -/
theorem Validator.coversFile_iff {validator : Validator} {identify : FormatIdentifier}
    {path : String} : validator.coversFile identify path = true ↔
      ∃ format, identify path = .ok format ∧ validator.covers format = true := by
  rw [coversFile]
  cases identify path <;> simp

/-- **The names that a validation is about are those of the files that its validator covers.** -/
theorem mem_covered_iff {t : FileTree} {content : String} {identify : FormatIdentifier}
    {formats : FormatMap} {files : List (List Octets)}
    (hpaths : contentFiles t content = .ok (files.map Path.shown))
    (hnodup : (files.map Path.shown).Nodup)
    (hformats : identifyFormats t content identify = .ok formats) (validator : Validator)
    {name : String} :
    name ∈ covered validator formats ↔ name ∈ validator.coveredNames identify content files := by
  obtain ⟨entries, hidentified, rfl⟩ := exists_of_identifyFormats hpaths hformats
  obtain ⟨hkeys, hentries⟩ := exists_of_identifyPaths hidentified
  have hkeysNodup : (entries.map (·.1)).Nodup := by
    rw [hkeys]
    exact hnodup.map originalName_injective
  have hcovered : name ∈ covered validator (Index.ofList entries) ↔
      ∃ format, (name, format) ∈ entries ∧ validator.covers format = true := by
    simp only [mem_covered, Index.find?_ofList_eq_some_iff hkeysNodup]
  rw [hcovered, Validator.coveredNames]
  simp only [hentries, List.mem_map, List.mem_filter, Validator.coversFile_iff]
  constructor
  · rintro ⟨format, ⟨_, ⟨names, hnames, rfl⟩, hformat, rfl⟩, hcovers⟩
    exact ⟨names, ⟨hnames, format, hformat, hcovers⟩, rfl⟩
  · rintro ⟨names, ⟨hnames, format, hformat, hcovers⟩, rfl⟩
    exact ⟨format, ⟨_, ⟨names, hnames, rfl⟩, hformat, rfl⟩, hcovers⟩

/-- A validation is about nothing exactly if its validator covers no format. -/
theorem covered_eq_nil_iff {validator : Validator} {formats : FormatMap} :
    covered validator formats = [] ↔
      ∀ entry ∈ formats.entries, validator.covers entry.2 = false := by
  rw [covered, List.map_eq_nil_iff, List.filter_eq_nil_iff]
  simp only [Bool.not_eq_true]

/-! ### Validations -/

/-- **A validation of objects that are there is recorded**: the objects that it is about are linked
to it, and its event is the last one. -/
theorem exists_change_recordValidation {d : Document} (h : Orderly d) {validator : Validator}
    {formats : FormatMap} (hcovered : covered validator formats ≠ [])
    (hobjects : ∀ name ∈ covered validator formats, name ∈ d.objects.map (·.originalName))
    (summary : Summary) (files : FileTree) (context : Context) :
    let id := Identifier.uuid context.ids.take.1
    ∃ d' context', (Request.recordValidation summary validator formats).change files d context =
        .ok (.recorded id, d', context') ∧
      d'.objects = d.objects.map (fun object =>
        if object.originalName ∈ covered validator formats then object.link id else object) ∧
      d'.events = d.events ++ [{
        identifier := id
        eventType := summary.eventType
        dateTime := context.times.take.1.render
        detail := summary.detail
        outcome := summary.outcome
        outcomeDetail := summary.outcomeDetail
        linkingAgent := validator.agent.identifier }] := by
  intro id
  have hholds : d.Holds (.named (covered validator formats)) := ⟨hcovered, hobjects⟩
  obtain ⟨places, hplaces⟩ := Document.exists_targetPlaces_iff.2 hholds
  obtain ⟨d', hevent, hordered, hlinked, hevents, -⟩ := Document.appendEvent_of_places h.ordered
    h.names_nodup (distinct_covered validator formats) hplaces summary validator.agent context
  obtain ⟨hobjects', hevents'⟩ := Document.records_appendAgent hordered validator.agent
  refine ⟨(d'.appendAgent validator.agent).2, ⟨context.ids.take.2, context.times.take.2⟩, ?_, ?_,
    hevents'.trans hevents⟩
  · rw [Request.change, hevent]
    rfl
  · rw [hobjects', hlinked]
    simp only [Targets.includes, List.contains_iff_mem]
    rfl

/-- What is recorded of the files below a content directory, when these are recorded in a document
that only requests have written. -/
theorem exists_orderly_of_run_recordObjects {premis content : String} {w w₁ : Workspace}
    {response : Response}
    (hwritten : ∀ octets, Files.read w.files premis = .ok octets → Written octets)
    (houtside : Outside w.files premis content)
    (hrun : (Request.recordObjects content).run premis w = (.ok response, w₁)) :
    ∃ files d, Package.Listing w₁.files content files ∧
      contentFiles w₁.files content = .ok (files.map Path.shown) ∧
      (∃ octets, Files.read w₁.files premis = .ok octets) ∧
      Document.load w₁.files premis = .ok d ∧ Orderly d ∧
      ∀ name ∈ files.map nameBelow,
        ∃ object, d.objects.filter (·.originalName = name) = [object] := by
  obtain ⟨before, d, hload, hchange, hsave⟩ := Request.exists_of_run_eq_ok rfl hrun
  have horderly := Document.orderly_of_load
    (fun octets hread => (hwritten octets hread).exists_orderly) hload
  rw [Request.change] at hchange
  obtain ⟨paths, hpaths, hchange⟩ := Except.exists_of_map_eq_ok hchange
  have hpaths₁ := contentFiles_of_save houtside hpaths hsave
  obtain ⟨files, hlisting, rfl⟩ := exists_listing_of_contentFiles hpaths₁
  obtain ⟨d', context, hrecorded, horderly', hrecord⟩ :=
    horderly.recorded_recordPaths hlisting.nodup w.context
  rw [hrecorded] at hchange
  cases hchange
  have hnames : (files.map Path.shown).map originalName = files.map nameBelow :=
    List.map_map
  rw [hnames] at hrecord
  exact ⟨files, d, hlisting, hpaths₁, ⟨_, Files.read_of_write (Document.save_eq_ok_iff.1 hsave)⟩,
    horderly'.laidOut.load_of_save hsave, horderly', hrecord.exists_unique⟩

/-- **A validation finds the object of every file that its validator covers.** After the files below
a content directory are recorded, each of them has one object. If their formats are known and the
validator covers none, nothing is recorded. Otherwise the validation is recorded, whatever the
validator covers and however files and formats are called: one event comes behind the others, and
the objects of the covered files are linked to it, and no other ones.

**Proof sketch.** Recording leaves an orderly document that holds the name of each listed file once.
The names that the validator covers are those of listed files, so all of them are found. -/
theorem run_recordValidation_of_recorded {premis content : String} {w w₁ w₂ : Workspace}
    {t : FileTree} {response : Response} {identify : FormatIdentifier} {formats : FormatMap}
    (hwritten : ∀ octets, Files.read w.files premis = .ok octets → Written octets)
    (houtside : Outside w.files premis content)
    (hrun : (Request.recordObjects content).run premis w = (.ok response, w₁))
    (hcontent : contentFiles t content = contentFiles w₁.files content)
    (hformats : identifyFormats t content identify = .ok formats)
    (hstored : Files.read w₂.files premis = Files.read w₁.files premis)
    (summary : Summary) (validator : Validator) :
    let request := Request.recordValidation summary validator formats
    let id := Identifier.uuid w₂.context.ids.take.1
    ∃ files before, Package.Listing w₁.files content files ∧
      Document.load w₁.files premis = .ok before ∧
      (∀ name ∈ files.map nameBelow,
        ∃ object, before.objects.filter (·.originalName = name) = [object]) ∧
      ((∀ entry ∈ formats.entries, validator.covers entry.2 = false) →
        request.run premis w₂ = (.ok .uncovered, w₂)) ∧
      ((∃ entry ∈ formats.entries, validator.covers entry.2 = true) →
        ∃ after w₃, request.run premis w₂ = (.ok (.recorded id), w₃) ∧
          Document.load w₃.files premis = .ok after ∧
          after.objects = before.objects.map (fun object =>
            if object.originalName ∈ validator.coveredNames identify content files
            then object.link id else object) ∧
          after.events = before.events ++ [{
            identifier := id
            eventType := summary.eventType
            dateTime := w₂.context.times.take.1.render
            detail := summary.detail
            outcome := summary.outcome
            outcomeDetail := summary.outcomeDetail
            linkingAgent := validator.agent.identifier }]) := by
  intro request id
  obtain ⟨files, before, hlisting, hpaths, ⟨octets, hread⟩, hload, horderly, hunique⟩ :=
    exists_orderly_of_run_recordObjects hwritten houtside hrun
  have hcovered {name : String} : name ∈ covered validator formats ↔
      name ∈ validator.coveredNames identify content files :=
    mem_covered_iff (hcontent.trans hpaths) hlisting.nodup hformats validator
  refine ⟨files, before, hlisting, hload, hunique, fun hnone => ?_, fun hsome => ?_⟩
  · have hidle : request.isIdle = true := List.isEmpty_iff.2 (covered_eq_nil_iff.2 hnone)
    rw [Request.run_eq, if_pos hidle]
  · have hne : covered validator formats ≠ [] := by
      obtain ⟨entry, hentry, hcovers⟩ := hsome
      intro hnil
      rw [covered_eq_nil_iff.1 hnil entry hentry] at hcovers
      cases hcovers
    have hidle : request.isIdle = false := List.isEmpty_eq_false_iff.2 hne
    have hobjects : ∀ name ∈ covered validator formats,
        name ∈ before.objects.map (·.originalName) := by
      intro name hname
      have hfile : name ∈ files.map nameBelow :=
        (List.filter_sublist.map nameBelow).subset (hcovered.1 hname)
      obtain ⟨object, hobject⟩ := hunique name hfile
      have hmem := List.mem_filter.1 (hobject ▸ List.mem_singleton_self object)
      exact List.mem_map.2 ⟨object, hmem.1, of_decide_eq_true hmem.2⟩
    obtain ⟨after, context, hchange, hlinked, hevents⟩ :=
      exists_change_recordValidation horderly hne hobjects summary w₂.files w₂.context
    have hload₂ := (Document.load_congr hstored).trans hload
    obtain ⟨files₃, hwrite⟩ :=
      Files.exists_write_of_read (hstored.trans hread) (Utf8.encode after.render.toList)
    have hsave := Document.save_eq_ok_iff.2 hwrite
    have horderly' := horderly.change hchange
    simp only [hcovered] at hlinked
    exact ⟨after, _, Request.run_of_ok hidle hload₂ hchange hsave,
      horderly'.laidOut.load_of_save hsave, hlinked, hevents⟩

section Intake

open Workspace

/-- A validation of the file `a` after it was recorded: by a validator that covers no format, and by
one that covers the format of the file. -/
theorem run_recordValidation_intake :
    let agent : Agent := .software "v" "1"
    let identify : FormatIdentifier := fun _ => .ok "fmt/354"
    ∃ w₁ formats, (∀ octets, Files.read intake.files "p" = .ok octets → Written octets) ∧
      Outside intake.files "p" "c" ∧
      (Request.recordObjects "c").run "p" intake = (.ok (.counted 1), w₁) ∧
      identifyFormats w₁.files "c" identify = .ok formats ∧
      (Request.recordValidation checkup (.ofFormats agent []) formats).run "p" w₁ =
        (.ok .uncovered, w₁) ∧
      ∃ after w₃,
        (Request.recordValidation checkup (.ofFormats agent ["fmt/354"]) formats).run "p" w₁ =
          (.ok (.recorded (.uuid "event-2")), w₃) ∧
        Document.load w₃.files "p" = .ok after ∧
        after.objects.map (·.linkedEvents) = [[.uuid "event-2"]] := by
  intro agent identify
  obtain ⟨t, hrun, hload, hsame, hfile⟩ := exists_run_recordObjects_intake
  obtain ⟨hplace, hcontent⟩ := contentFiles_intake hsame hfile
  let context : Context := (recordPaths ["a"] .new numberedContext).2.2
  let w₁ : Workspace := ⟨t, context⟩
  let formats : FormatMap := Index.ofList [("data/objects/a", "fmt/354")]
  have hwritten : ∀ octets, Files.read intake.files "p" = .ok octets → Written octets := by
    intro octets hread
    cases read_intakeTree.symm.trans hread
  have houtside : Outside intake.files "p" "c" := by
    intro place directory hwriting hdirectory
    have hname : Files.resolve intakeTree .writing "p" = .ok ["p"] :=
      Files.resolve_of_proper (by decide) rfl nofun
    cases hname.symm.trans hwriting
    cases directory_intakeTree.symm.trans hdirectory
    decide
  have hformats : identifyFormats t "c" identify = .ok formats := by
    rw [identifyFormats, hcontent]
    rfl
  have hstored : Files.read w₁.files "p" = Files.read t "p" := rfl
  have hagree :=
    run_recordValidation_of_recorded hwritten houtside hrun rfl hformats hstored checkup
  have hid : Identifier.uuid context.ids.take.1 = .uuid "event-2" := by decide +kernel
  obtain ⟨-, -, -, -, -, huncovered, -⟩ := hagree (.ofFormats agent [])
  obtain ⟨files, before, hlisting, hbefore, -, -, hcovered⟩ := hagree (.ofFormats agent ["fmt/354"])
  obtain ⟨after, w₃, hrecorded, hafter, hobjects, -⟩ :=
    hcovered ⟨("data/objects/a", "fmt/354"), by decide +kernel, by decide +kernel⟩
  rw [hid] at hrecorded hobjects
  refine ⟨w₁, formats, hwritten, houtside, hrun, hformats, huncovered fun _ _ => rfl, after, w₃,
    hrecorded, hafter, ?_⟩
  -- the document that was loaded has one object, and the listed files are those that are there
  cases hload.symm.trans hbefore
  obtain ⟨location, hdirectory, -, hlisted⟩ := hlisting.exists_directory
  cases hplace.symm.trans hdirectory
  have hreaches : t.Reaches ["c"] ["a"] [0x61] :=
    .file ((hsame.node? ["c"] (by decide)).trans rfl)
      ((hsame.node? ["c", "a"] (by decide)).trans rfl)
  have hname := (hlisted _ _ hreaches).2 (by simp [Octets.IsText])
  have hconcerned : "data/objects/a" ∈
      (Validator.ofFormats agent ["fmt/354"]).coveredNames identify "c" files :=
    List.mem_map.2 ⟨["a"], List.mem_filter.2 ⟨hname, by decide +kernel⟩, by decide +kernel⟩
  have hobject : (recordPaths ["a"] .new numberedContext).2.1.objects =
      [⟨.uuid "event-1", "", "data/objects/a", []⟩] := by decide +kernel
  rw [hobjects, hobject, List.map_singleton, if_pos hconcerned]
  rfl

end Intake

end Accession.Provenance

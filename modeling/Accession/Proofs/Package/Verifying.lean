import Accession.Proofs.Digest.Streaming
import Accession.Proofs.Lists
import Accession.Proofs.Package.Listing
set_option autoImplicit false

/-!
# Clean packages

A manifest that declares the files of its package, and does not declare itself, leaves nothing to
report: no file is missing, none is unexpected and no checksum differs. The kinds of package differ
in how they leave the manifest out. A submitted package never lists it, and in an archived digitized
one it lies outside the scan root. An archived born digital package keeps everything, and so lists
its own manifest as the one file that nobody declared.

## Main definitions

* `Package.IsPayload` — a file below the scan root, other than the manifest.
* `Package.DeclaresPayload` — a manifest declares exactly these files, with their digests.

## Main results

* `Package.scan_eq_ok_iff` — the files of a package.
* `Package.join_scanRoot_eq_manifestPath_iff`, `Package.Kind.scanRoot_eq_none_and_iff` — when the
  manifest lies below the scan root, and whether it is left out then.
* `Package.checksum_file` — the checksum of a file below the scan root.
* `Package.exists_verify_of_declaresPayload` — the report on a package whose manifest declares its
  files.
-/

namespace Accession.Package

open Spelled

/-! ### Comparing -/

/-- Checksums that agree leave no line. -/
theorem mismatches_eq_nil {m : Type → Type} [Monad m] [LawfulMonad m]
    {checksum : String → String → m String} {entries : List (String × Declaration)}
    (h : ∀ entry ∈ entries, checksum entry.1 entry.2.algorithm = pure entry.2.hash) :
    mismatches checksum entries = pure [] := by
  induction entries with
  | nil => rfl
  | cons entry entries ih =>
    obtain ⟨path, declared⟩ := entry
    have hhead : checksum path declared.algorithm = pure declared.hash :=
      h (path, declared) List.mem_cons_self
    have htail := ih fun entry hentry => h entry (List.mem_cons_of_mem _ hentry)
    rw [mismatches, hhead, pure_bind, htail, pure_bind, if_pos rfl]

variable {t : FileTree} {p : Package}

/-! ### The files of a package -/

/-- The files of a package are those below its scan root, without the one that is never
declared. -/
theorem scan_eq_ok_iff {files : FileSet} :
    scan t p = .ok files ↔
      ∃ location, Files.directory t p.scanRoot = .ok location ∧
        files = (pathsBelow t location).filter fun path _ => p.kind.excludedPath ≠ some path := by
  rw [scan, listFiles_eq]
  cases hdirectory : Files.directory t p.scanRoot with
  | error fault => simp [bind, Except.bind]
  | ok location => simp [bind, Except.bind, pure, Except.pure, eq_comm]

/-- A scan has the paths of all files below the root but for the excluded one. -/
theorem contains_scan {location : Location} {path : String} :
    ((pathsBelow t location).filter fun path _ => p.kind.excludedPath ≠ some path).contains path =
        true ↔
      p.kind.excludedPath ≠ some path ∧
        ∃ names content, t.node? (location ++ names) = some (.file content) ∧
          path = Path.shown names := by
  rw [Index.contains_filter_key (fun path => decide (p.kind.excludedPath ≠ some path)),
    Bool.and_eq_true, decide_eq_true_iff, contains_pathsBelow]

/-- The checksum of a file below the scan root whose path a text spells, under an algorithm there
is, is the digest of its content. -/
theorem checksum_file {root text : String} {location : Location} {names : List Octets}
    {content : List UInt8} (hroot : Files.directory t root = .ok location)
    (hfile : t.node? (location ++ names) = some (.file content))
    (htext : Octets.ofText text = Path.ofSegments names) (algorithm : Digest.Algorithm) :
    checksum t root text algorithm.name = .ok (algorithm.digest content) := by
  have hnamed : Digest.Algorithm.named algorithm.name = .ok algorithm := by
    rw [Digest.Algorithm.named, Digest.Algorithm.ofName?_eq_some_iff.2 rfl]
  simp only [checksum, Files.digest, hnamed, Files.read_join_text hroot hfile htext, bind,
    Except.bind, Digest.Algorithm.digestReads_portion]

/-! ### Where the manifest lies -/

/-- A path below the scan root leads to the manifest only if the whole package is scanned, and it is
the path of the manifest. -/
theorem join_scanRoot_eq_manifestPath_iff {path : Octets} (hpath : Path.isAbsolute path = false) :
    Path.join (p.scanRoot : Octets) path = p.manifestPath ↔
      p.kind.scanRoot = none ∧ path = p.kind.manifestPath := by
  obtain ⟨before, hjoin⟩ := Path.exists_marks_join_eq_append (p.path : Octets)
  have hmanifest : marks (p.manifestPath : Octets) =
      before ++ marks (p.kind.manifestPath : Octets) := by
    rw [manifestPath, Path.ofText_join]
    exact hjoin _ (by cases p.kind <;> decide)
  rw [← Path.marks_injective.eq_iff, hmanifest]
  cases hkind : p.kind.scanRoot with
  | none =>
    rw [scanRoot, hkind, hjoin _ hpath, List.append_cancel_left_eq, Path.marks_injective.eq_iff]
    exact (and_iff_right rfl).symm
  | some directory =>
    -- The scan root is the directory of the payload, which is not the one of the manifest.
    have hdigitized : p.kind = .digitizedAip ∧ directory = contentDirectory := by
      revert hkind
      cases p.kind <;> simp [Kind.scanRoot, eq_comm]
    obtain ⟨hp, rfl⟩ := hdigitized
    have hprefix := Path.marks_prefix_marks_join (p.scanRoot : Octets) hpath
    have hroot : marks (p.scanRoot : Octets) = before ++ marks (contentDirectory : Octets) := by
      rw [scanRoot, hkind]
      exact (congrArg marks (Path.ofText_join _ _)).trans (hjoin _ (by decide))
    simp only [hp, reduceCtorEq, false_and, iff_false]
    intro heq
    rw [heq, hroot, List.prefix_append_right_inj] at hprefix
    exact absurd hprefix (by decide)

/-- The layouts agree: a manifest that lies below the scan root is the file that is never declared,
or that of an archived born digital package. -/
theorem Kind.scanRoot_eq_none_and_iff {kind : Kind} {path : String} :
    kind.scanRoot = none ∧ path = kind.manifestPath ↔
      kind.excludedPath = some path ∨ kind = .bornDigitalAip ∧ path = aipManifest := by
  cases kind <;> simp [excludedPath, isAip, scanRoot, manifestPath, eq_comm]

/-! ### Clean packages -/

/-- A file below the scan root, other than the manifest, with its path from there and its
content. -/
def IsPayload (t : FileTree) (p : Package) (path : Octets) (content : List UInt8) : Prop :=
  ∃ location names, Files.directory t p.scanRoot = .ok location ∧
    t.node? (location ++ names) = some (.file content) ∧ path = Path.ofSegments names ∧
    Path.join (p.scanRoot : Octets) path ≠ p.manifestPath

/-- A manifest declares exactly the files below the scan root other than itself, each by its path,
with an algorithm there is and the digest of its content. -/
structure DeclaresPayload (t : FileTree) (p : Package) (manifest : Manifest) : Prop where
  complete : ∀ path content, IsPayload t p path content →
    ∃ text : String, path = text ∧ manifest.contains text = true
  sound : ∀ (path : String) declaration, manifest.find? path = some declaration →
    ∃ content algorithm, IsPayload t p path content ∧
      declaration.algorithm = Digest.Algorithm.name algorithm ∧
      declaration.hash = algorithm.digest content

/-- The declared paths are those of the payload. -/
theorem DeclaresPayload.contains_iff {manifest : Manifest} (h : DeclaresPayload t p manifest)
    {path : String} :
    manifest.contains path = true ↔ ∃ content, IsPayload t p path content := by
  constructor
  · intro hcontains
    rw [Index.contains_eq_isSome_find?, Option.isSome_iff_exists] at hcontains
    obtain ⟨declaration, hdeclaration⟩ := hcontains
    obtain ⟨content, -, hpayload, -⟩ := h.sound path declaration hdeclaration
    exact ⟨content, hpayload⟩
  · rintro ⟨content, hpayload⟩
    obtain ⟨text, heq, hcontains⟩ := h.complete path content hpayload
    rwa [Octets.ofText_injective heq]

/-- The path of a file below the scan root does not start from the root of the file system. -/
theorem isAbsolute_of_node? {root : String} {location : Location} {names : List Octets}
    {content : List UInt8} (hroot : Files.directory t root = .ok location)
    (hfile : t.node? (location ++ names) = some (.file content)) :
    Path.isAbsolute (Path.ofSegments names) = false := by
  obtain ⟨hnames, hproper⟩ :=
    FileTree.proper_of_node? (Files.directory_eq_ok_iff.1 hroot).2 hfile
  exact Path.isAbsolute_of_proper hnames hproper

section

variable {manifest : Manifest} (h : DeclaresPayload t p manifest) {location : Location}
  {names : List Octets} {content : List UInt8}
  (hroot : Files.directory t p.scanRoot = .ok location)
  (hfile : t.node? (location ++ names) = some (.file content))

include h hroot hfile

/-- The files below the scan root are listed by their own paths: what is declared are texts, and so
is where the manifest lies. -/
theorem DeclaresPayload.ofText_shown :
    Octets.ofText (Path.shown names) = Path.ofSegments names := by
  obtain ⟨hne, hproper⟩ := FileTree.proper_of_node? (Files.directory_eq_ok_iff.1 hroot).2 hfile
  have htext : ∃ text : String, Octets.ofText text = Path.ofSegments names := by
    by_cases hjoin : Path.join (p.scanRoot : Octets) (Path.ofSegments names) = p.manifestPath
    · rw [join_scanRoot_eq_manifestPath_iff (isAbsolute_of_node? hroot hfile)] at hjoin
      exact ⟨_, hjoin.2.symm⟩
    · obtain ⟨text, heq, -⟩ := h.complete _ content ⟨location, names, hroot, hfile, rfl, hjoin⟩
      exact ⟨text, heq.symm⟩
  obtain ⟨text, htext⟩ := htext
  exact Path.ofText_shown ((Path.ofText_eq_ofSegments_iff hne hproper).1 htext).1

/-- A file below the scan root is left undeclared only if it is the manifest. -/
theorem DeclaresPayload.not_contains_iff :
    ¬manifest.contains (Path.shown names) = true ↔
      p.kind.scanRoot = none ∧ Path.shown names = p.kind.manifestPath := by
  have hshown := h.ofText_shown hroot hfile
  rw [← Octets.ofText_injective.eq_iff, hshown,
    ← join_scanRoot_eq_manifestPath_iff (isAbsolute_of_node? hroot hfile), h.contains_iff]
  constructor
  · intro hno
    by_contra hjoin
    exact hno ⟨content, location, names, hroot, hfile, hshown, hshown ▸ hjoin⟩
  · rintro hjoin ⟨_, _, _, _, _, _, hne⟩
    exact hne (hshown ▸ hjoin)

end

/-- Whatever is declared is among the files of the package: the one that is left out is the
manifest. -/
theorem DeclaresPayload.contains_files {manifest : Manifest} {files : FileSet}
    (h : DeclaresPayload t p manifest) (hfiles : scan t p = .ok files) {path : String}
    (hpath : manifest.contains path = true) : files.contains path = true := by
  obtain ⟨location, hroot, rfl⟩ := scan_eq_ok_iff.1 hfiles
  obtain ⟨content, location', names, hroot', hfile, hpath, hne⟩ := h.contains_iff.1 hpath
  obtain rfl : location' = location := Except.ok.inj (hroot'.symm.trans hroot)
  have hshown : path = Path.shown names :=
    Octets.ofText_injective (hpath.trans (h.ofText_shown hroot hfile).symm)
  rw [hpath, Ne, join_scanRoot_eq_manifestPath_iff (isAbsolute_of_node? hroot hfile), ← hpath,
    Octets.ofText_injective.eq_iff, Kind.scanRoot_eq_none_and_iff] at hne
  exact contains_scan.2 ⟨fun hexcluded => hne (.inl hexcluded), names, content, hfile, hshown⟩

/-- Of the files of a package only the manifest of an archived born digital one is left
undeclared. -/
theorem DeclaresPayload.undeclared_iff {manifest : Manifest} {files : FileSet}
    (h : DeclaresPayload t p manifest) (hfiles : scan t p = .ok files) {path : String}
    (hpath : files.contains path = true) :
    ¬manifest.contains path = true ↔ p.kind = .bornDigitalAip ∧ path = Kind.aipManifest := by
  obtain ⟨location, hroot, rfl⟩ := scan_eq_ok_iff.1 hfiles
  obtain ⟨hexcluded, names, content, hfile, rfl⟩ := contains_scan.1 hpath
  rw [h.not_contains_iff hroot hfile, Kind.scanRoot_eq_none_and_iff, or_iff_right hexcluded]

/-- Every checksum that a manifest declares is the one that is computed. -/
theorem DeclaresPayload.checksum_eq {manifest : Manifest} (h : DeclaresPayload t p manifest)
    {entry : String × Declaration} (hentry : entry ∈ manifest.entries) :
    checksum t p.scanRoot entry.1 entry.2.algorithm = .ok entry.2.hash := by
  obtain ⟨content, algorithm, ⟨location, names, hroot, hfile, hpath, -⟩, halgorithm, hhash⟩ :=
    h.sound entry.1 entry.2 (Index.mem_entries_iff.1 hentry)
  rw [halgorithm, hhash, checksum_file hroot hfile hpath algorithm]

/-- What is reported on a package whose manifest declares its files: at most the manifest.

**Proof sketch.** Every declared file is scanned, and its checksum is computed from the very file
that was listed, so nothing is missing and nothing differs. The undeclared files among those scanned
are read off the layout of the kind. -/
theorem DeclaresPayload.verify_eq {manifest : Manifest} {files : FileSet}
    (h : DeclaresPayload t p manifest)
    (hmanifest : readManifest t p.manifestPath = .ok manifest) (hfiles : scan t p = .ok files) :
    verify t p = .ok
      { missing := []
        unexpected := if p.kind = .bornDigitalAip ∧ files.contains Kind.aipManifest = true then
          [Kind.aipManifest] else []
        mismatches := [] } := by
  have hmissing : manifest.keys.filter (!files.contains ·) = [] := by
    refine List.filter_eq_nil_iff.2 fun path hpath => ?_
    simp [h.contains_files hfiles (Index.mem_keys_iff.1 hpath)]
  have hmismatches : mismatches (checksum t p.scanRoot)
      (manifest.entries.filter fun entry => files.contains entry.1) = .ok [] :=
    mismatches_eq_nil fun entry hentry => h.checksum_eq (List.mem_filter.1 hentry).1
  have hunexpected : files.keys.filter (!manifest.contains ·) =
      if p.kind = .bornDigitalAip ∧ files.contains Kind.aipManifest = true then
        [Kind.aipManifest] else [] := by
    have hfilter : files.keys.filter (!manifest.contains ·) =
        files.keys.filter fun path => decide (p.kind = .bornDigitalAip ∧ path = Kind.aipManifest) :=
      List.filter_congr fun path hpath => by
        rw [Bool.eq_iff_iff, Bool.not_eq_true', decide_eq_true_iff, ← Bool.not_eq_true,
          h.undeclared_iff hfiles (Index.mem_keys_iff.1 hpath)]
    rw [hfilter]
    by_cases hkind : p.kind = .bornDigitalAip
    · simp only [hkind, true_and, ← Index.mem_keys_iff]
      rw [List.filter_eq, files.nodup_keys.count]
      split <;> rfl
    · simp [hkind]
  rw [verify, hmanifest]
  simp only [hfiles, bind, Except.bind, reconcile, hmismatches, hmissing, hunexpected]
  rfl

/-- **A package whose manifest declares all its files but itself is clean**, unless it is an
archived born digital one. There the manifest is one of the files that are scanned (if it is not
reached through a link), and then it is the only thing that is reported.

**Proof sketch.** The scanned files are the payload, and in an archived born digital package the
manifest besides. So no path is missing, and every common path has the declared digest. -/
theorem exists_verify_of_declaresPayload {manifest : Manifest} {files : FileSet}
    (hmanifest : readManifest t p.manifestPath = .ok manifest) (hfiles : scan t p = .ok files)
    (h : DeclaresPayload t p manifest) :
    ∃ report, verify t p = .ok report ∧ report.missing = [] ∧ report.mismatches = [] ∧
      report.unexpected =
        (if p.kind = .bornDigitalAip ∧ files.contains Kind.aipManifest = true then
          [Kind.aipManifest] else []) ∧
      (report.failed = true ↔
        p.kind = .bornDigitalAip ∧ files.contains Kind.aipManifest = true) := by
  refine ⟨_, h.verify_eq hmanifest hfiles, rfl, rfl, rfl, ?_⟩
  simp only [Report.failed]
  split
  · rename_i hscanned
    simp [hscanned]
  · rename_i hclean
    simpa using hclean

/-! ### A package with one file -/

/-- A manifest that declares one file, with the digest of the letter `a`. -/
def soleText : List UInt8 :=
  Utf8.encode ("<paket><inhaltsverzeichnis><datei><name>p</name>" ++
    "<pruefalgorithmus>MD5</pruefalgorithmus>" ++
    "<pruefsumme>0cc175b9c0f1b6a831c399e269772661</pruefsumme></datei>" ++
    "</inhaltsverzeichnis></paket>").toList

/-- What it declares. -/
def soleManifest : Manifest :=
  Index.ofList [("p", ⟨"", "MD5", "0cc175b9c0f1b6a831c399e269772661"⟩)]

/-- The manifest of the package with one file is read as declaring it. -/
theorem parse_soleText : Manifest.parse soleText = .ok soleManifest :=
  Except.eq_ok_of_toOption (by decide +kernel)

/-- The directory and the name of the manifest of a kind of package. -/
def manifestPlace (kind : Kind) : Octets × Octets :=
  if kind.isAip then ("additional", "UpdatedAreldaMetadata.xml") else ("header", "metadata.xml")

/-- A package `S` of some kind, with the letter `a` in a file beside its manifest. -/
def soleTree (kind : Kind) (manifest : List UInt8) : FileTree :=
  let placed : Except Files.Fault FileTree := do
    let t ← Files.put .empty [] "S" .directory
    let t ← Files.put t ["S"] "p" (.file [0x61])
    let t ← Files.put t ["S"] (manifestPlace kind).1 .directory
    Files.put t ["S", (manifestPlace kind).1] (manifestPlace kind).2 (.file manifest)
  placed.toOption.getD .empty

/-- The path of the package leads to it. -/
theorem directory_soleTree (kind : Kind) (manifest : List UInt8) :
    Files.directory (soleTree kind manifest) "S" = .ok ["S"] := by
  cases kind <;> exact Files.directory_of_proper (by decide) rfl rfl

/-- The manifest of the package is found where its kind has it. -/
theorem readManifest_soleTree (kind : Kind) :
    readManifest (soleTree kind soleText) (manifestPath ⟨"S", kind⟩) = .ok soleManifest := by
  have hfile : (soleTree kind soleText).node?
      ["S", (manifestPlace kind).1, (manifestPlace kind).2] = some (.file soleText) := by
    cases kind <;> rfl
  have hpath : Octets.ofText kind.manifestPath =
      Path.ofSegments [(manifestPlace kind).1, (manifestPlace kind).2] := by
    cases kind <;> decide +kernel
  have hresolve := Files.resolve_join_text (directory_soleTree kind soleText) hfile hpath
  rw [readManifest, Files.node, manifestPath, hresolve]
  simp only [bind, Except.bind, List.singleton_append, hfile]
  exact congrArg (Except.mapError Error.manifest) parse_soleText

/-- The package has its manifest and the one file. -/
theorem filesBelow_soleTree (kind : Kind) (manifest : List UInt8) :
    (soleTree kind manifest).filesBelow ["S"] =
      [[(manifestPlace kind).1, (manifestPlace kind).2], ["p"]] := by
  cases kind <;> rfl

/-- The names of the manifest are shown as the path that the kind has for it. -/
theorem shown_manifestPlace (kind : Kind) :
    Path.shown [(manifestPlace kind).1, (manifestPlace kind).2] = kind.manifestPath := by
  cases kind <;> decide +kernel

section

variable (kind : Kind) (hkind : kind.scanRoot = none) (manifest : List UInt8)

include hkind

/-- The scan of an archived package lists its manifest. -/
theorem scan_soleTree :
    scan (soleTree kind manifest) ⟨"S", kind⟩ =
      .ok (Index.ofList
        ((if kind.isAip then [(kind.manifestPath, ())] else []) ++ [("p", ())])) := by
  refine scan_eq_ok_iff.2 ⟨["S"], ?_, ?_⟩
  · rw [scanRoot, hkind]
    exact directory_soleTree kind manifest
  · rw [pathsBelow, filesBelow_soleTree, List.map_cons, shown_manifestPlace]
    cases kind <;> decide +kernel

/-- The manifest declares the only file besides itself. -/
theorem declaresPayload_soleTree :
    DeclaresPayload (soleTree kind manifest) ⟨"S", kind⟩ soleManifest := by
  have hroot : Files.directory (soleTree kind manifest) (scanRoot ⟨"S", kind⟩) = .ok ["S"] := by
    rw [scanRoot, hkind]
    exact directory_soleTree kind manifest
  have hmanifest : Path.ofSegments [(manifestPlace kind).1, (manifestPlace kind).2] =
      Octets.ofText kind.manifestPath := by
    cases kind <;> decide +kernel
  constructor
  case complete =>
    rintro path content ⟨location, names, hlocation, hfile, rfl, hne⟩
    obtain rfl : location = (["S"] : Location) := Except.ok.inj (hlocation.symm.trans hroot)
    rw [Ne, join_scanRoot_eq_manifestPath_iff (isAbsolute_of_node? hroot hfile)] at hne
    have hmem := FileTree.mem_filesBelow.2 ⟨content, hfile⟩
    rw [filesBelow_soleTree, List.mem_cons, List.mem_singleton] at hmem
    rcases hmem with rfl | rfl
    · exact absurd ⟨hkind, hmanifest⟩ hne
    · exact ⟨"p", Path.ofSegments_singleton _, by decide +kernel⟩
  case sound =>
    intro path declaration hdeclaration
    rw [← Index.mem_entries_iff] at hdeclaration
    obtain ⟨rfl, rfl⟩ : path = "p" ∧
        declaration = ⟨"", "MD5", "0cc175b9c0f1b6a831c399e269772661"⟩ := by
      simpa [soleManifest, Index.ofList, Index.insert, Index.insertInto, Index.empty]
        using hdeclaration
    refine ⟨[0x61], .md5,
      ⟨["S"], ["p"], hroot, ?_, (Path.ofSegments_singleton _).symm, ?_⟩, rfl, ?_⟩
    · cases kind <;> rfl
    · rw [Ne, join_scanRoot_eq_manifestPath_iff (by decide)]
      rintro ⟨-, hpath⟩
      revert hpath
      cases kind <;> decide +kernel
    · rw [Digest.Algorithm.digest, ← Digest.Hasher.finish_update_new]
      decide +kernel

end

/-- A digitized SIP with one declared file is clean. -/
theorem verify_soleTree_digitizedSip :
    readManifest (soleTree .digitizedSip soleText) "S/header/metadata.xml" = .ok soleManifest ∧
      scan (soleTree .digitizedSip soleText) ⟨"S", .digitizedSip⟩ =
        .ok (Index.ofList [("p", ())]) ∧
      DeclaresPayload (soleTree .digitizedSip soleText) ⟨"S", .digitizedSip⟩ soleManifest ∧
      verify (soleTree .digitizedSip soleText) ⟨"S", .digitizedSip⟩ = .ok ⟨[], [], []⟩ := by
  have hmanifest := readManifest_soleTree .digitizedSip
  have hfiles := scan_soleTree .digitizedSip rfl soleText
  have hdeclares := declaresPayload_soleTree .digitizedSip rfl soleText
  obtain ⟨⟨missing, unexpected, lines⟩, hverify, hmissing, hlines, hunexpected, -⟩ :=
    exists_verify_of_declaresPayload hmanifest hfiles hdeclares
  simp only [reduceCtorEq, false_and, if_false] at hmissing hlines hunexpected
  subst hmissing hlines hunexpected
  exact ⟨hmanifest, hfiles, hdeclares, hverify⟩

/-- The scan of an archived born digital package finds the manifest, which nothing declares: it is
reported although every other file is declared. -/
theorem failed_verify_soleTree_bornDigitalAip :
    readManifest (soleTree .bornDigitalAip soleText) "S/additional/UpdatedAreldaMetadata.xml" =
        .ok soleManifest ∧
      scan (soleTree .bornDigitalAip soleText) ⟨"S", .bornDigitalAip⟩ =
        .ok (Index.ofList [("additional/UpdatedAreldaMetadata.xml", ()), ("p", ())]) ∧
      DeclaresPayload (soleTree .bornDigitalAip soleText) ⟨"S", .bornDigitalAip⟩ soleManifest ∧
      ∃ report, verify (soleTree .bornDigitalAip soleText) ⟨"S", .bornDigitalAip⟩ = .ok report ∧
        report.unexpected = ["additional/UpdatedAreldaMetadata.xml"] ∧ report.failed = true := by
  have hmanifest := readManifest_soleTree .bornDigitalAip
  have hfiles := scan_soleTree .bornDigitalAip rfl soleText
  have hdeclares := declaresPayload_soleTree .bornDigitalAip rfl soleText
  have hverify := hdeclares.verify_eq hmanifest hfiles
  exact ⟨hmanifest, hfiles, hdeclares, _, hverify, by decide +kernel, by decide +kernel⟩

end Accession.Package

import Accession.Proofs.Package.Reconciling
import Accession.Proofs.Package.Verifying
set_option autoImplicit false

/-!
# A package is checked against its own files

A manifest may declare any texts as paths: names that lead up, paths that start from the root, paths
of links. A checksum is asked for only under a path that the scan has listed. If the names of the
listed file are texts, such a path, joined to the scan root, leads to that very file. So a package
with such names that is found clean has exactly the declared files, with the declared digests, and
what any file outside it holds has no effect on the result.

A name that is no text is listed as the text that it is shown as. Another file may have that text as
its name, or a link that leads out of the package; then what is there is read in place of the listed
file.

## Main definitions

* `Package.DeclaresReached` — a manifest declares the files that directories lead to, and their
  digests.
* `Package.MayRead` — the files that a verification may read.

## Main results

* `Package.checksum_eq_ok_iff` — when there is a checksum, and what it is.
* `Package.declaresReached_of_verify` — a package that is found clean is clean.
* `Package.exists_reaches_of_mem_observe` — what checksums are asked for.
* `Package.verify_congr` — what other files hold has no effect.
* `Package.verify_confined` — what a clean package is, and what is read to find that out.
* `Package.verify_respelledTree_ne` — a file outside of a package decides whether it is found clean.
-/

namespace Accession.Package

open FileTree

variable {t t' : FileTree} {p : Package}

/-! ### Checksums -/

/-- There is a checksum if the algorithm is one that there is and the path leads to a file. -/
theorem checksum_eq_ok_iff {root path algorithm computed : String} :
    checksum t root path algorithm = .ok computed ↔
      ∃ known content, algorithm = Digest.Algorithm.name known ∧
        Files.read t (Path.join root path : String) = .ok content ∧
        computed = known.digest content := by
  rw [checksum, Files.digest, Digest.Algorithm.named]
  cases hknown : Digest.Algorithm.ofName? algorithm with
  | none =>
    simp only [bind, Except.bind, reduceCtorEq, false_iff]
    rintro ⟨known, content, halgorithm, -, -⟩
    rw [Digest.Algorithm.ofName?_eq_some_iff.2 halgorithm.symm] at hknown
    cases hknown
  | some known =>
    have hname := Digest.Algorithm.ofName?_eq_some_iff.1 hknown
    cases hread : Files.read t (Path.join root path : String) with
    | error fault => simp [bind, Except.bind]
    | ok content =>
      simp only [bind, Except.bind, Digest.Algorithm.digestReads_portion, Except.ok.injEq]
      constructor
      · rintro rfl
        exact ⟨known, content, hname.symm, rfl, rfl⟩
      · rintro ⟨known', content', halgorithm, rfl, rfl⟩
        rw [halgorithm, Digest.Algorithm.ofName?_eq_some_iff.2 rfl] at hknown
        rw [Option.some.inj hknown]

/-- A checksum depends on the tree only through the file that the path leads to. -/
theorem checksum_congr {root path : String}
    (h : Files.read t' (Path.join root path : String) = Files.read t (Path.join root path : String))
    (algorithm : String) : checksum t' root path algorithm = checksum t root path algorithm := by
  rw [checksum, checksum, Files.digest, Files.digest, h]

/-! ### Clean packages -/

section Root

variable {root : Location} (hroot : Files.directory t p.scanRoot = .ok root)

include hroot

/-- The files of a package are reached from its scan root through directories only. -/
theorem contains_scan_iff_reaches {path : String} :
    ((pathsBelow t root).filter fun path _ => p.kind.excludedPath ≠ some path).contains path =
        true ↔
      p.kind.excludedPath ≠ some path ∧
        ∃ names content, Reaches t root names content ∧ path = Path.shown names := by
  have hdirectory := (Files.directory_eq_ok_iff.1 hroot).2
  simp only [contains_scan, reaches_iff hdirectory]

/-- The declared checksum of a file whose names are texts is the computed one exactly if it is the
digest of what that file holds. -/
theorem checksum_reached_iff {names : List Octets} {content : List UInt8}
    (hreaches : Reaches t root names content) (htexts : ∀ name ∈ names, name.IsText)
    {algorithm computed : String} :
    checksum t p.scanRoot (Path.shown names) algorithm = .ok computed ↔
      ∃ known, algorithm = Digest.Algorithm.name known ∧ computed = known.digest content := by
  rw [checksum_eq_ok_iff, Files.read_join_text hroot hreaches.node? (Path.ofText_shown htexts)]
  simp

end Root

/-- A verification comes to a report exactly if the manifest can be read, the files can be listed
and the comparison comes to it. -/
theorem verify_eq_ok_iff {report : Report} :
    verify t p = .ok report ↔
      ∃ manifest files, readManifest t p.manifestPath = .ok manifest ∧ scan t p = .ok files ∧
        reconcile manifest files (checksum t p.scanRoot) = .ok report := by
  rw [verify]
  cases readManifest t p.manifestPath with
  | error error => simp [bind, Except.bind]
  | ok manifest =>
    cases scan t p with
    | error error => simp [bind, Except.bind]
    | ok files => simp [bind, Except.bind]

/-- A manifest declares exactly the paths by which files below a root are listed, but for the one
that is never declared. Each of them leads to a file with the declared digest, under an algorithm
there is; a listed file whose names are texts is that file. -/
structure DeclaresReached (t : FileTree) (p : Package) (root : Location) (manifest : Manifest) :
    Prop where
  contains_iff : ∀ path, manifest.contains path = true ↔
    p.kind.excludedPath ≠ some path ∧
      ∃ names content, Reaches t root names content ∧ path = Path.shown names
  read : ∀ path declared, manifest.find? path = some declared →
    ∃ algorithm content, Files.read t (Path.join p.scanRoot path : String) = .ok content ∧
      declared.algorithm = Digest.Algorithm.name algorithm ∧
      declared.hash = algorithm.digest content
  digest : ∀ names content, Reaches t root names content → (∀ name ∈ names, name.IsText) →
    p.kind.excludedPath ≠ some (Path.shown names) →
    ∃ declared algorithm, manifest.find? (Path.shown names) = some declared ∧
      declared.algorithm = Digest.Algorithm.name algorithm ∧
      declared.hash = algorithm.digest content

/-- **A package that is found clean is clean**, as far as the names of its files are texts. -/
theorem declaresReached_of_verify {report : Report} (hverify : verify t p = .ok report)
    (hclean : report.failed = false) :
    ∃ manifest root, readManifest t p.manifestPath = .ok manifest ∧
      Files.directory t p.scanRoot = .ok root ∧ DeclaresReached t p root manifest := by
  obtain ⟨manifest, files, hmanifest, hfiles, hreport⟩ := verify_eq_ok_iff.1 hverify
  obtain ⟨root, hroot, rfl⟩ := scan_eq_ok_iff.1 hfiles
  obtain ⟨hanswers, rfl⟩ := reconcile_eq_ok_iff.1 hreport
  have hintact := (failed_exactReport_iff hanswers).not.1 (by rw [hclean]; decide)
  simp only [not_exists, not_and, not_not] at hintact
  refine ⟨manifest, root, hmanifest, hroot, ?_⟩
  constructor
  case contains_iff =>
    intro path
    rw [← contains_scan_iff_reaches hroot]
    constructor
    · intro hdeclared
      obtain ⟨_, _, hfile, _⟩ := hintact path (.inl hdeclared)
      exact hfile
    · intro hfile
      obtain ⟨declared, hfind, _⟩ := hintact path (.inr hfile)
      rw [Index.contains_eq_isSome_find?, hfind]
      rfl
  case read =>
    intro path declared hfind
    have hdeclared : manifest.contains path = true := by
      rw [Index.contains_eq_isSome_find?, hfind]
      rfl
    obtain ⟨declared', hfind', -, hcomputed⟩ := hintact path (.inl hdeclared)
    obtain rfl : declared' = declared := Option.some.inj (hfind'.symm.trans hfind)
    obtain ⟨algorithm, content, halgorithm, hread, hhash⟩ := checksum_eq_ok_iff.1 hcomputed
    exact ⟨algorithm, content, hread, halgorithm, hhash⟩
  case digest =>
    intro names content hreaches htexts hkept
    have hfile := (contains_scan_iff_reaches hroot).2 ⟨hkept, names, content, hreaches, rfl⟩
    obtain ⟨declared, hfind, -, hcomputed⟩ := hintact _ (.inr hfile)
    obtain ⟨algorithm, halgorithm, hhash⟩ :=
      (checksum_reached_iff hroot hreaches htexts).1 hcomputed
    exact ⟨declared, algorithm, hfind, halgorithm, hhash⟩

/-! ### What is read -/

/-- The files that a verification may read: the manifest, and those that listed paths lead to. -/
inductive MayRead (t : FileTree) (p : Package) : Location → Prop where
  | manifest {location : Location}
      (hlocation : Files.resolve t .looking p.manifestPath = .ok location) : MayRead t p location
  | listed {root location : Location} {names : List Octets} {content : List UInt8}
      (hroot : Files.directory t p.scanRoot = .ok root) (hreaches : Reaches t root names content)
      (hkept : p.kind.excludedPath ≠ some (Path.shown names))
      (hlocation : Files.resolve t .looking (Path.join p.scanRoot (Path.shown names) : String) =
        .ok location) : MayRead t p location

/-- The path by which a file is listed leads to that file, if its names are texts. -/
theorem MayRead.cases {location : Location} (h : MayRead t p location) :
    Files.resolve t .looking p.manifestPath = .ok location ∨
      ∃ root names content, Files.directory t p.scanRoot = .ok root ∧
        Reaches t root names content ∧ p.kind.excludedPath ≠ some (Path.shown names) ∧
        ((∀ name ∈ names, name.IsText) → location = root ++ names) := by
  cases h with
  | manifest hlocation => exact .inl hlocation
  | @listed root location names content hroot hreaches hkept hlocation =>
    refine .inr ⟨root, names, content, hroot, hreaches, hkept, fun htexts => ?_⟩
    have hresolve := Files.resolve_join_text hroot hreaches.node? (Path.ofText_shown htexts)
    exact Except.ok.inj (hlocation.symm.trans hresolve)

/-- A path that is both declared and listed is one by which a file is listed. -/
theorem exists_reaches_of_mem_common {manifest : Manifest} {files : FileSet}
    (hfiles : scan t p = .ok files) {path : String} {declared : Declaration}
    (h : (path, declared) ∈ common manifest files) :
    ∃ root names content, Files.directory t p.scanRoot = .ok root ∧
      Reaches t root names content ∧ path = Path.shown names ∧
      p.kind.excludedPath ≠ some path := by
  obtain ⟨root, hroot, rfl⟩ := scan_eq_ok_iff.1 hfiles
  obtain ⟨hkept, names, content, hreaches, hpath⟩ :=
    (contains_scan_iff_reaches hroot).1 (mem_common.1 h).2
  exact ⟨root, names, content, hroot, hreaches, hpath, hkept⟩

/-- **Every checksum that is asked for is that of a listed path**; joined to the scan root, it leads
to the listed file if the names of this are texts. -/
theorem exists_reaches_of_mem_observe {manifest : Manifest} {files : FileSet}
    (hfiles : scan t p = .ok files) {path algorithm : String}
    (h : (path, algorithm) ∈ (observe manifest files (checksum t p.scanRoot)).2) :
    ∃ root names content, Files.directory t p.scanRoot = .ok root ∧
      Reaches t root names content ∧ path = Path.shown names ∧
      p.kind.excludedPath ≠ some path ∧
      ((∀ name ∈ names, name.IsText) →
        Files.resolve t .looking (Path.join p.scanRoot path : String) = .ok (root ++ names)) := by
  obtain ⟨declared, hcommon, -⟩ := exists_of_mem_observe h
  obtain ⟨root, names, content, hroot, hreaches, rfl, hkept⟩ :=
    exists_reaches_of_mem_common hfiles hcommon
  exact ⟨root, names, content, hroot, hreaches, rfl, hkept, fun htexts =>
    Files.resolve_join_text hroot hreaches.node? (Path.ofText_shown htexts)⟩

section Congr

variable (h : SameOutline t t')

include h

/-- The same files are listed, whatever they hold. -/
theorem scan_congr : scan t' p = scan t p := by
  have hbelow (location : Location) : pathsBelow t' location = pathsBelow t location :=
    pathsBelow_congr fun _ => h.mem_filesBelow_iff
  have hlist : listFiles t' p.scanRoot = listFiles t p.scanRoot := by
    rw [listFiles_eq, listFiles_eq, Files.directory_congr h]
    cases Files.directory t p.scanRoot with
    | error fault => rfl
    | ok location => exact congrArg Except.ok (hbelow location)
  rw [scan, scan, hlist]

/-- What a path leads to depends on what is at the one place where it leads. -/
theorem node_congr {path : Octets}
    (hsame : ∀ location, Files.resolve t .looking path = .ok location →
      t'.node? location = t.node? location) : Files.node t' path = Files.node t path := by
  rw [Files.node, Files.node, Files.resolve_congr h]
  cases hlocation : Files.resolve t .looking path with
  | error fault => rfl
  | ok location => simp only [bind, Except.bind, hsame location hlocation]

/-- **What other files hold has no effect**, whether the verification comes to a report or fails. -/
theorem verify_congr (hsame : ∀ location, MayRead t p location →
    t'.node? location = t.node? location) : verify t' p = verify t p := by
  have hmanifest : readManifest t' p.manifestPath = readManifest t p.manifestPath := by
    rw [readManifest, readManifest,
      node_congr h fun location hlocation => hsame location (.manifest hlocation)]
  rw [verify, verify, hmanifest, scan_congr h]
  cases readManifest t p.manifestPath with
  | error error => rfl
  | ok manifest =>
    cases hfiles : scan t p with
    | error error => rfl
    | ok files =>
      refine reconcile_congr fun path declared hcommon => checksum_congr ?_ _
      obtain ⟨root, names, content, hroot, hreaches, rfl, hkept⟩ :=
        exists_reaches_of_mem_common hfiles hcommon
      rw [Files.read, Files.read, node_congr h fun location hlocation =>
        hsame location (.listed hroot hreaches hkept hlocation)]

end Congr

/-- **A verification is confined to the files that it lists, as far as their names are texts.** A
package that is found clean has exactly the declared paths, by which directories lead to its files,
and every such path leads to a file with the declared digest. Whatever comes of it, checksums are
asked for under listed paths only, and no file but those that these paths lead to, and the manifest,
has any effect on the result. A path leads to the file that is listed by it if the names of that
file are texts; otherwise it may lead anywhere.

**Proof sketch.** A report without findings leaves no path that is declared or listed, but not both.
A checksum is asked for under a common path, which is listed, so names lead to a file that is listed
by it; if they are texts, the joined path leads back along them. -/
theorem verify_confined (t : FileTree) (p : Package) :
    (∀ report, verify t p = .ok report → report.failed = false →
      ∃ manifest root, readManifest t p.manifestPath = .ok manifest ∧
        Files.directory t p.scanRoot = .ok root ∧ DeclaresReached t p root manifest) ∧
    (∀ manifest files, readManifest t p.manifestPath = .ok manifest → scan t p = .ok files →
      verify t p = (observe manifest files (checksum t p.scanRoot)).1 ∧
      ∀ path algorithm, (path, algorithm) ∈ (observe manifest files (checksum t p.scanRoot)).2 →
        ∃ root names content, Files.directory t p.scanRoot = .ok root ∧
          Reaches t root names content ∧ path = Path.shown names ∧
          p.kind.excludedPath ≠ some path ∧
          ((∀ name ∈ names, name.IsText) →
            Files.resolve t .looking (Path.join p.scanRoot path : String) = .ok (root ++ names))) ∧
    (∀ t', SameOutline t t' →
      (∀ location, MayRead t p location → t'.node? location = t.node? location) →
      verify t' p = verify t p) ∧
    ∀ location, MayRead t p location →
      Files.resolve t .looking p.manifestPath = .ok location ∨
        ∃ root names content, Files.directory t p.scanRoot = .ok root ∧
          Reaches t root names content ∧ p.kind.excludedPath ≠ some (Path.shown names) ∧
          ((∀ name ∈ names, name.IsText) → location = root ++ names) := by
  refine ⟨?_, ?_, ?_, ?_⟩
  · intro report hverify hclean
    exact declaresReached_of_verify hverify hclean
  · intro manifest files hmanifest hfiles
    refine ⟨?_, fun path algorithm h => exists_reaches_of_mem_observe hfiles h⟩
    rw [fst_observe, verify, hmanifest]
    simp only [bind, Except.bind, hfiles]
  · intro t' h hsame
    exact verify_congr h hsame
  · intro location h
    exact h.cases

/-! ### A package with a file beside it -/

/-- At the top of every tree there is a directory. -/
theorem node?_nil (t : FileTree) : t.node? [] = some .directory :=
  rfl

/-- The package `S` with one file, beside a file `o` that is not in it. -/
def besideTree (content : List UInt8) : FileTree :=
  (soleTree .digitizedSip soleText).place [] "o" (.file content) (node?_nil _)
    (by decide +kernel) (by decide)

/-- But for the file beside it there is the package and nothing else, whatever that file holds. -/
theorem node?_besideTree (content : List UInt8) {location : Location}
    (h : location ≠ (["o"] : Location)) :
    (besideTree content).node? location = (soleTree .digitizedSip soleText).node? location := by
  rw [besideTree, node?_place]
  exact if_neg h

/-- The path of the package leads to it. -/
theorem directory_besideTree (content : List UInt8) :
    Files.directory (besideTree content) "S" = .ok ["S"] := by
  have hnode : (besideTree content).node? ["S"] = some .directory :=
    node?_besideTree content (by decide)
  exact Files.directory_of_proper (by decide) rfl hnode

/-- No path of the package leads to the file beside it: all its names are texts. -/
theorem not_mayRead_besideTree (content : List UInt8) :
    ¬MayRead (besideTree content) ⟨"S", .digitizedSip⟩ ["o"] := by
  have hroot := directory_besideTree content
  have hmanifest : (besideTree content).node? ["S", "header", "metadata.xml"] =
      some (.file soleText) := node?_besideTree content (by decide)
  have hpath : Octets.ofText (Kind.manifestPath .digitizedSip) =
      Path.ofSegments (["header", "metadata.xml"] : Location) := by decide +kernel
  have hresolve := Files.resolve_join_text hroot hmanifest hpath
  intro h
  rcases h.cases with hlocation | ⟨root, names, payload, hdirectory, hreaches, -, hlocation⟩
  · exact absurd (Except.ok.inj (hresolve.symm.trans hlocation)) (by decide)
  · cases hroot.symm.trans hdirectory
    have htexts : ∀ name ∈ names, name.IsText := by
      have hbelow : names ∈ (besideTree content).filesBelow ["S"] :=
        mem_filesBelow.2 ⟨payload, hreaches.node?⟩
      have hnames : (besideTree content).filesBelow ["S"] =
          ([["header", "metadata.xml"], ["p"]] : List Location) := rfl
      rw [hnames, List.mem_cons, List.mem_singleton] at hbelow
      rcases hbelow with rfl | rfl <;> simp [Octets.IsText]
    have hhead : Octets.ofText "o" = "S" := (List.cons.inj (hlocation htexts)).1
    exact absurd hhead (by decide +kernel)

/-- A clean package has the declared file, and what is beside the package has no effect. -/
theorem verify_confined_besideTree :
    (∃ manifest declared algorithm,
      readManifest (soleTree .digitizedSip soleText) "S/header/metadata.xml" = .ok manifest ∧
        manifest.find? "p" = some declared ∧
        declared.hash = Digest.Algorithm.digest algorithm [0x61]) ∧
    verify (besideTree [0x62]) ⟨"S", .digitizedSip⟩ =
      verify (besideTree [0x61]) ⟨"S", .digitizedSip⟩ := by
  constructor
  · have hverify := (declaresPayload_soleTree .digitizedSip rfl soleText).verify_eq
      (readManifest_soleTree .digitizedSip) (scan_soleTree .digitizedSip rfl soleText)
    simp only [reduceCtorEq, false_and, if_false] at hverify
    obtain ⟨manifest, root, hmanifest, hroot, hdeclares⟩ := (verify_confined _ _).1 _ hverify rfl
    obtain rfl : (["S"] : Location) = root :=
      Except.ok.inj ((directory_soleTree .digitizedSip soleText).symm.trans hroot)
    have hfile : Reaches (soleTree .digitizedSip soleText) ["S"] ["p"] [0x61] :=
      .file (by rfl) (by rfl)
    obtain ⟨declared, algorithm, hfind, -, hhash⟩ :=
      hdeclares.digest _ _ hfile (by simp [Octets.IsText]) (by decide +kernel)
    rw [show Path.shown ["p"] = "p" by decide +kernel] at hfind
    exact ⟨manifest, declared, algorithm, hmanifest, hfind, hhash⟩
  · refine (verify_confined (besideTree [0x61]) ⟨"S", .digitizedSip⟩).2.2.1 _ ?_ ?_
    · exact sameOutline_place _ _ _
    · intro location hread
      have hne : location ≠ ["o"] := by
        rintro rfl
        exact not_mayRead_besideTree [0x61] hread
      rw [node?_besideTree _ hne, node?_besideTree _ hne]

/-! ### A file that is read in place of another -/

/-- A manifest that declares one file, under a name that octets are shown as which are no text. -/
def respelledText : List UInt8 :=
  Utf8.encode ("<paket><inhaltsverzeichnis><datei><name>\uFFFD</name>" ++
    "<pruefalgorithmus>MD5</pruefalgorithmus>" ++
    "<pruefsumme>0cc175b9c0f1b6a831c399e269772661</pruefsumme></datei>" ++
    "</inhaltsverzeichnis></paket>").toList

/-- What it declares: the digest of the letter `a`. -/
def respelledManifest : Manifest :=
  Index.ofList [("\uFFFD", ⟨"", "MD5", "0cc175b9c0f1b6a831c399e269772661"⟩)]

/-- A package `S` with the letter `b` in a file whose name is no text. What that name is shown as is
the name of a link that leads out of the package. -/
def respelledPackage : FileTree :=
  let placed := do
    let t ← Files.put .empty [] "S" .directory
    let t ← Files.put t ["S"] "header" .directory
    let t ← Files.put t ["S", "header"] "metadata.xml" (.file respelledText)
    let t ← Files.put t ["S"] ⟨[0xFF]⟩ (.file [0x62])
    Files.put t ["S"] "\uFFFD" (.link "../o")
  placed.toOption.getD .empty

/-- The package beside the file that the link leads to. -/
def respelledTree (content : List UInt8) : FileTree :=
  respelledPackage.place [] "o" (.file content) (node?_nil _) (by decide +kernel) (by decide)

section Respelled

variable (content : List UInt8)

/-- But for the file beside it there is the package and nothing else, whatever that file holds. -/
theorem node?_respelledTree {location : Location} (h : location ≠ (["o"] : Location)) :
    (respelledTree content).node? location = respelledPackage.node? location := by
  rw [respelledTree, node?_place]
  exact if_neg h

/-- The path of the package leads to it. -/
theorem directory_respelledTree : Files.directory (respelledTree content) "S" = .ok ["S"] := by
  have hnode : (respelledTree content).node? ["S"] = some .directory :=
    node?_respelledTree content (by decide)
  exact Files.directory_of_proper (by decide) rfl hnode

/-- The manifest of the package is the declaration of the one file. -/
theorem readManifest_respelledTree :
    readManifest (respelledTree content) (manifestPath ⟨"S", .digitizedSip⟩) =
      .ok respelledManifest := by
  have hfile : (respelledTree content).node? ["S", "header", "metadata.xml"] =
      some (.file respelledText) := node?_respelledTree content (by decide)
  have hpath : Octets.ofText (Kind.manifestPath .digitizedSip) =
      Path.ofSegments (["header", "metadata.xml"] : Location) := by decide +kernel
  have hresolve := Files.resolve_join_text (directory_respelledTree content) hfile hpath
  have hparse : Manifest.parse respelledText = .ok respelledManifest :=
    Except.eq_ok_of_toOption (by decide +kernel)
  rw [readManifest, Files.node, manifestPath, hresolve]
  simp only [bind, Except.bind, List.singleton_append, hfile]
  exact congrArg (Except.mapError Error.manifest) hparse

/-- The file is listed by the name that it is shown as, which it does not have. -/
theorem scan_respelledTree :
    scan (respelledTree content) ⟨"S", .digitizedSip⟩ = .ok (Index.ofList [("\uFFFD", ())]) := by
  have hbelow : (respelledTree content).filesBelow ["S"] =
      ([["header", "metadata.xml"], [⟨[0xFF]⟩]] : List Location) := rfl
  refine scan_eq_ok_iff.2 ⟨["S"], directory_respelledTree content, ?_⟩
  rw [pathsBelow, hbelow]
  decide +kernel

/-- Joined to the scan root, that name leads through the link and out of the package. -/
theorem read_respelledTree :
    Files.read (respelledTree content) (Path.join "S" "\uFFFD" : String) = .ok content := by
  have hroot : (respelledTree content).node? ["S"] = some .directory :=
    node?_respelledTree content (by decide)
  have hlink : (respelledTree content).node? ["S", "\uFFFD"] = some (.link "../o") :=
    (node?_respelledTree content (by decide)).trans (by decide +kernel)
  have hfile : (respelledTree content).node? ["o"] = some (.file content) := by
    rw [respelledTree, node?_place]
    rfl
  have hsegments : Path.segments (Octets.ofText (Path.join "S" "\uFFFD")) =
      (["S", "\uFFFD"] : List Octets) := by
    decide +kernel
  have htarget : Path.segments (Octets.ofText "../o") ++ [] = (["..", "o"] : List Octets) := by
    decide +kernel
  have horigin : Files.origin ["S"] "../o" = (["S"] : Location) := by decide +kernel
  refine Files.read_eq_ok_iff.2
    ⟨["o"], Files.resolve_eq_ok_iff.2 ⟨by decide +kernel, by decide +kernel, ?_⟩, hfile⟩
  rw [hsegments]
  calc Files.walk (respelledTree content) .looking (39 + 1) [] ["S", "\uFFFD"]
      _ = Files.walk (respelledTree content) .looking (39 + 1) ["S"] ["\uFFFD"] :=
        Files.walk_of_node? hroot nofun
      _ = Files.walk (respelledTree content) .looking 39 ["S"] ["..", "o"] := by
        rw [Files.walk_of_link hlink, horigin, htarget]
      _ = Files.walk (respelledTree content) .looking 39 [] ["o"] :=
        Files.walk_up hroot (by decide) (by decide)
      _ = .ok ["o"] := Files.walk_names hfile nofun

/-- The report is about the file that the link leads to. -/
theorem verify_respelledTree :
    verify (respelledTree content) ⟨"S", .digitizedSip⟩ =
      .ok ⟨[], [],
        if Digest.Algorithm.digest .md5 content = "0cc175b9c0f1b6a831c399e269772661" then []
        else [mismatchLine "\uFFFD" "0cc175b9c0f1b6a831c399e269772661"
          (Digest.Algorithm.digest .md5 content)]⟩ := by
  have hchecksum : checksum (respelledTree content) "S" "\uFFFD" "MD5" =
      .ok (Digest.Algorithm.digest .md5 content) :=
    checksum_eq_ok_iff.2 ⟨.md5, content, rfl, read_respelledTree content, rfl⟩
  have hcommon : common respelledManifest (Index.ofList [("\uFFFD", ())]) =
      [("\uFFFD", ⟨"", "MD5", "0cc175b9c0f1b6a831c399e269772661"⟩)] := by
    decide +kernel
  refine verify_eq_ok_iff.2 ⟨_, _, readManifest_respelledTree content, scan_respelledTree content,
    reconcile_eq_ok_iff.2 ⟨?_, ?_⟩⟩
  · rw [hcommon]
    intro entry hentry
    obtain rfl := List.mem_singleton.1 hentry
    exact ⟨_, hchecksum⟩
  · have hmissing : respelledManifest.keys.filter
        (!(Index.ofList [("\uFFFD", ())] : FileSet).contains ·) = [] := by
      decide +kernel
    have hunexpected : (Index.ofList [("\uFFFD", ())] : FileSet).keys.filter
        (!respelledManifest.contains ·) = [] := by
      decide +kernel
    rw [exactReport, hmissing, hunexpected, hcommon, List.filterMap_cons, List.filterMap_nil,
      lineFor?, show scanRoot ⟨"S", .digitizedSip⟩ = "S" from rfl, hchecksum]
    split <;> simp_all

end Respelled

/-- A package is found clean although its file holds something else than is declared, and what a
file holds that lies outside the package decides it: that file is read in place of the one that is
listed. -/
theorem verify_respelledTree_ne :
    verify (respelledTree [0x61]) ⟨"S", .digitizedSip⟩ = .ok ⟨[], [], []⟩ ∧
    Reaches (respelledTree [0x61]) ["S"] [⟨[0xFF]⟩] [0x62] ∧
    (readManifest (respelledTree [0x61]) "S/header/metadata.xml" = .ok respelledManifest ∧
      ∃ declared, respelledManifest.find? "\uFFFD" = some declared ∧
        respelledManifest.keys = ["\uFFFD"] ∧ declared.algorithm = "MD5" ∧
        declared.hash ≠ Digest.Algorithm.digest .md5 [0x62]) ∧
    SameOutline (respelledTree [0x61]) (respelledTree [0x62]) ∧
    (∀ location : Location, location ≠ (["o"] : Location) →
      (respelledTree [0x62]).node? location = (respelledTree [0x61]).node? location) ∧
    verify (respelledTree [0x62]) ⟨"S", .digitizedSip⟩ ≠
      verify (respelledTree [0x61]) ⟨"S", .digitizedSip⟩ := by
  have hdeclared : Digest.Algorithm.digest .md5 [0x61] = "0cc175b9c0f1b6a831c399e269772661" := by
    rw [Digest.Algorithm.digest, ← Digest.Hasher.finish_update_new]
    decide +kernel
  have hother : Digest.Algorithm.digest .md5 [0x62] ≠ "0cc175b9c0f1b6a831c399e269772661" := by
    rw [Digest.Algorithm.digest, ← Digest.Hasher.finish_update_new]
    decide +kernel
  have hclean := verify_respelledTree [0x61]
  have hfailed := verify_respelledTree [0x62]
  rw [if_pos hdeclared] at hclean
  rw [if_neg hother] at hfailed
  refine ⟨hclean, .file ?_ ?_, ⟨readManifest_respelledTree [0x61],
    ⟨"", "MD5", "0cc175b9c0f1b6a831c399e269772661"⟩, by decide +kernel, by decide +kernel, rfl,
    hother.symm⟩, sameOutline_place _ _ _, fun location hne => ?_, ?_⟩
  · exact node?_respelledTree [0x61] (by decide)
  · exact (node?_respelledTree [0x61] (by decide)).trans (by decide +kernel)
  · rw [node?_respelledTree _ hne, node?_respelledTree _ hne]
  · rw [hclean, hfailed]
    intro heq
    exact List.cons_ne_nil _ _ (congrArg Report.mismatches (Except.ok.inj heq))

end Accession.Package

import Mathlib.Tactic.Choose
import Accession.Package.Directory
import Accession.Proofs.Files.Writing
import Accession.Proofs.Package.Collecting
set_option autoImplicit false

/-!
# The files that are listed

The files below a directory are listed by their paths, in the order of these. Files whose names are
texts have different paths, so there are as many paths as such files, and each path leads back to
its file. Names that are no texts are listed as what they are shown as; several files may then have
one path, which leads to none of them. What is written elsewhere has no effect.

## Main definitions

* `Package.Listing` — the files below the directory that a path leads to, in the order of their
  paths.
* `Package.ListsFiles` — a set of paths is that of the files below a directory.

## Main results

* `Package.exists_listing_of_listFiles` — each file is listed by its path.
* `Package.listFiles_of_sameBut` — the same files are listed after one is written elsewhere.
* `Package.exists_listsFiles_of_isDirectory` — the search finds exactly the files below a directory.
* `Package.listFiles_misspelledTree` — two files are listed by one path, which leads to neither.
-/

namespace Accession.Package

variable {t t' : FileTree} {location : Location} {path : String} {index : FileSet}

/-- The paths depend on which files there are. -/
theorem pathsBelow_congr
    (h : ∀ names, names ∈ t'.filesBelow location ↔ names ∈ t.filesBelow location) :
    pathsBelow t' location = pathsBelow t location := by
  refine Index.ext_contains fun path => ?_
  rw [Bool.eq_iff_iff, pathsBelow, pathsBelow, Index.contains_ofList, Index.contains_ofList]
  simp only [List.mem_map, h]

/-- Files are listed exactly if the path leads to a directory, and they are those below it. -/
theorem listFiles_eq_ok_iff :
    listFiles t path = .ok index ↔
      ∃ location, Files.directory t path = .ok location ∧ index = pathsBelow t location := by
  rw [listFiles_eq]
  cases Files.directory t path with
  | error fault => simp
  | ok location => simp [eq_comm]

/-! ### Files and their paths -/

/-- A file below a directory can be told from its path if its names are texts. -/
theorem names_eq_of_reaches {names names' : List Octets} {content content' : List UInt8}
    (hreaches : t.Reaches location names content) (hreaches' : t.Reaches location names' content')
    (htexts : ∀ name ∈ names, name.IsText) (htexts' : ∀ name ∈ names', name.IsText)
    (h : Path.shown names = Path.shown names') : names = names' := by
  obtain ⟨hne, hproper⟩ := FileTree.proper_of_node? hreaches.node?_directory hreaches.node?
  obtain ⟨hne', hproper'⟩ := FileTree.proper_of_node? hreaches'.node?_directory hreaches'.node?
  exact Path.names_eq_of_shown_eq hne hne' hproper hproper' htexts htexts' h

/-- The files below the directory that a path leads to, each with the names that lead to it through
directories, in the order of the paths that they are listed by. Every file whose names are texts is
there. Others may be listed by one path; then one file stands for all of these. -/
structure Listing (t : FileTree) (path : String) (files : List (List Octets)) : Prop where
  exists_directory : ∃ location, Files.directory t path = .ok location ∧
    (∀ names ∈ files, ∃ content, t.Reaches location names content) ∧
    ∀ names content, t.Reaches location names content →
      Path.shown names ∈ files.map Path.shown ∧ ((∀ name ∈ names, name.IsText) → names ∈ files)
  sorted : (files.map Path.shown).Pairwise (· < ·)

/-- No path stands twice in a listing. -/
theorem Listing.nodup {files : List (List Octets)} (h : Listing t path files) :
    (files.map Path.shown).Nodup := by
  refine List.Pairwise.imp (fun {a b} hlt heq => ?_) h.sorted
  rw [heq] at hlt
  exact String.lt_irrefl b hlt

/-- Where all names are texts, these are all the files, each once. -/
theorem Listing.mem_iff {files : List (List Octets)} (h : Listing t path files)
    (hlocation : Files.directory t path = .ok location)
    (htexts : ∀ names content, t.Reaches location names content → ∀ name ∈ names, name.IsText)
    (names : List Octets) : names ∈ files ↔ ∃ content, t.Reaches location names content := by
  obtain ⟨location', hdirectory, hreached, hlisted⟩ := h.exists_directory
  obtain rfl : location' = location := Except.ok.inj (hdirectory.symm.trans hlocation)
  refine ⟨hreached names, ?_⟩
  rintro ⟨content, hreaches⟩
  exact (hlisted names content hreaches).2 (htexts names content hreaches)

/-- Of the files that are listed by one path, one whose names are texts is the only one of that
kind. -/
theorem exists_representative {listed : String}
    (h : ∃ names content, t.Reaches location names content ∧ listed = Path.shown names) :
    ∃ names, Path.shown names = listed ∧ (∃ content, t.Reaches location names content) ∧
      ∀ other content, t.Reaches location other content → Path.shown other = listed →
        (∀ name ∈ other, name.IsText) → other = names := by
  by_cases htext : ∃ names content, t.Reaches location names content ∧ Path.shown names = listed ∧
      ∀ name ∈ names, name.IsText
  · obtain ⟨names, content, hreaches, hshown, htexts⟩ := htext
    refine ⟨names, hshown, ⟨content, hreaches⟩, fun other content' hother heq htexts' => ?_⟩
    exact names_eq_of_reaches hother hreaches htexts' htexts (heq.trans hshown.symm)
  · obtain ⟨names, content, hreaches, hshown⟩ := h
    refine ⟨names, hshown.symm, ⟨content, hreaches⟩, fun other content' hother heq htexts' => ?_⟩
    exact absurd ⟨other, content', hother, heq, htexts'⟩ htext

/-- **Each file is listed by its path.** -/
theorem exists_listing_of_listFiles (h : listFiles t path = .ok index) :
    ∃ files, Listing t path files ∧ index.keys = files.map Path.shown := by
  obtain ⟨location, hdirectory, rfl⟩ := listFiles_eq_ok_iff.1 h
  have hlocation := (Files.directory_eq_ok_iff.1 hdirectory).2
  have hkey {listed : String} : listed ∈ (pathsBelow t location).keys ↔
      ∃ names content, t.Reaches location names content ∧ listed = Path.shown names := by
    simp only [Index.mem_keys_iff, contains_pathsBelow, FileTree.reaches_iff hlocation]
  have hchoice : ∀ listed ∈ (pathsBelow t location).keys, _ :=
    fun listed hlisted => exists_representative (hkey.1 hlisted)
  choose! file hshown hreaches hunique using hchoice
  have hkeys : (pathsBelow t location).keys = ((pathsBelow t location).keys.map file).map
      Path.shown := by
    rw [List.map_map]
    exact (List.map_id _).symm.trans (List.map_congr_left fun listed hlisted =>
      (hshown listed hlisted).symm)
  refine ⟨(pathsBelow t location).keys.map file, ⟨⟨location, hdirectory, ?_, ?_⟩, ?_⟩, hkeys⟩
  · intro names hnames
    obtain ⟨listed, hlisted, rfl⟩ := List.mem_map.1 hnames
    exact hreaches listed hlisted
  · intro names content hnames
    have hlisted : Path.shown names ∈ (pathsBelow t location).keys :=
      hkey.2 ⟨names, content, hnames, rfl⟩
    refine ⟨hkeys ▸ hlisted, fun htexts => List.mem_map.2 ⟨_, hlisted, ?_⟩⟩
    exact (hunique _ hlisted names content hnames rfl htexts).symm
  · rw [← hkeys]
    exact List.pairwise_map.2 (pathsBelow t location).sorted

/-- **The same files are listed after one is written elsewhere.** -/
theorem listFiles_of_sameBut {place : Location} {content : List UInt8}
    (hsame : t.SameBut place t') (hplace : t.node? place ≠ some .directory)
    (hlink : ∀ target, t.node? place ≠ some (.link target))
    (hfile : t'.node? place = some (.file content))
    (hdirectory : Files.directory t path = .ok location) (houtside : ¬location <+: place) :
    listFiles t' path = listFiles t path := by
  have hdirectory' := Files.directory_of_sameBut hsame hplace hlink hfile hdirectory
  have hbelow : pathsBelow t' location = pathsBelow t location :=
    pathsBelow_congr fun _ => hsame.mem_filesBelow_iff houtside
  rw [listFiles_eq_ok_iff.2 ⟨location, hdirectory, rfl⟩,
    listFiles_eq_ok_iff.2 ⟨location, hdirectory', rfl⟩, hbelow]

/-! ### Exactly the files below a directory -/

/-- A set of paths is that of the files below a directory: each path is what the names are shown as
by which directories lead to a file. It spells the path of that file exactly if the names are texts,
and then no other such file has it, and joined to the path `root` of the directory it leads there.
-/
structure ListsFiles (t : FileTree) (root : String) (location : Location) (index : FileSet) :
    Prop where
  contains_iff : ∀ path, index.contains path = true ↔
    ∃ names content, t.Reaches location names content ∧ path = Path.shown names
  spells_iff : ∀ names content, t.Reaches location names content →
    ((Path.shown names : Octets) = Path.ofSegments names ↔ ∀ name ∈ names, name.IsText)
  names_eq : ∀ names names' content content', t.Reaches location names content →
    t.Reaches location names' content' → (∀ name ∈ names, name.IsText) →
    (∀ name ∈ names', name.IsText) → Path.shown names = Path.shown names' → names = names'
  resolve_join : ∀ names content, t.Reaches location names content →
    (∀ name ∈ names, name.IsText) →
    Files.resolve t .looking (Path.join root (Path.shown names) : String) = .ok (location ++ names)
  read_join : ∀ names content, t.Reaches location names content →
    (∀ name ∈ names, name.IsText) →
    Files.read t (Path.join root (Path.shown names) : String) = .ok content

/-- The paths below a directory are those of the files that are reached from it. -/
theorem listsFiles_pathsBelow {root : String} (h : Files.directory t root = .ok location) :
    ListsFiles t root location (pathsBelow t location) := by
  have hlocation := (Files.directory_eq_ok_iff.1 h).2
  constructor
  case contains_iff =>
    intro path
    simp only [contains_pathsBelow, FileTree.reaches_iff hlocation]
  case spells_iff =>
    intro names content hreaches
    obtain ⟨hne, hproper⟩ := FileTree.proper_of_node? hlocation hreaches.node?
    rw [Path.ofText_eq_ofSegments_iff hne hproper, and_iff_left rfl]
  case names_eq =>
    intro names names' content content' hreaches hreaches' htexts htexts' hpaths
    exact names_eq_of_reaches hreaches hreaches' htexts htexts' hpaths
  case resolve_join =>
    intro names content hreaches htexts
    exact Files.resolve_join_text h hreaches.node? (Path.ofText_shown htexts)
  case read_join =>
    intro names content hreaches htexts
    exact Files.read_join_text h hreaches.node? (Path.ofText_shown htexts)

/-- **The files that are listed are exactly those that directories lead to.** However the path of a
directory is spelled, and through whatever links it leads, the search answers with the set of the
paths of the files below that directory, the same one in whatever order names are handed out. Links
are neither listed nor followed. Files whose names are texts have different paths, and each such
path leads to its file when it is joined to that of the directory; the path by which another file is
listed spells something else.

**Proof sketch.** In whatever order names come, the search collects the set `pathsBelow`, which
speaks of the place that the path leads to and not of its spelling. A listed path spells the names
of its file exactly if these are texts, and can then be joined. -/
theorem exists_listsFiles_of_isDirectory {root : String} (h : Files.isDirectory t root = true) :
    ∃ location index, Files.directory t root = .ok location ∧ listFiles t root = .ok index ∧
      (∀ order : t.Enumeration, listFilesIn t order root = .ok index) ∧
      (∀ root' : String, Files.directory t root' = .ok location → listFiles t root' = .ok index) ∧
      ListsFiles t root location index := by
  obtain ⟨location, hroot⟩ := Files.isDirectory_iff.1 h
  have hsearch (root' : String) (hroot' : Files.directory t root' = .ok location)
      (order : t.Enumeration) : listFilesIn t order root' = .ok (pathsBelow t location) := by
    rw [listFilesIn_eq, hroot']
  exact ⟨location, pathsBelow t location, hroot, hsearch root hroot t.storedOrder,
    hsearch root hroot, fun root' hroot' => hsearch root' hroot' t.storedOrder,
    listsFiles_pathsBelow hroot⟩

/-- A directory with a file, a file in a directory of its own and a link to a file, and beside it a
link to the directory. -/
def linkedTree : FileTree :=
  let placed := do
    let t ← Files.put .empty [] "c" .directory
    let t ← Files.put t ["c"] "a" (.file [0x61])
    let t ← Files.put t ["c"] "l" (.link "a")
    let t ← Files.put t ["c"] "s" .directory
    let t ← Files.put t ["c", "s"] "b" (.file [0x62])
    Files.put t [] "d" (.link "c/")
  placed.toOption.getD .empty

/-- The path leads through the link to the directory. -/
theorem directory_linkedTree : Files.directory linkedTree "d/." = .ok ["c"] := by
  have hnode : linkedTree.node? ["c"] = some .directory := rfl
  have hlink : linkedTree.node? ["d"] = some (.link "c/") := by decide +kernel
  have hsegments : Path.segments (Octets.ofText "d/.") = (["d", "."] : List Octets) := by
    decide +kernel
  have htarget : Path.segments (Octets.ofText "c/") ++ [Octets.ofText "."] =
      (["c", "", "."] : List Octets) := by
    decide +kernel
  refine Files.directory_eq_ok_iff.2
    ⟨Files.resolve_eq_ok_iff.2 ⟨by decide, by decide, ?_⟩, hnode⟩
  rw [hsegments, show Files.origin linkedTree.working "d/." = [] by decide,
    Files.walk_name rfl (by decide) (by decide), List.nil_append, hlink]
  show Files.walk linkedTree .looking 39 [] (Path.segments (Octets.ofText "c/") ++ _) = .ok ["c"]
  rw [htarget, Files.walk_name rfl (by decide) (by decide), List.nil_append, hnode]
  show Files.walk linkedTree .looking 39 ["c"] ["", "."] = .ok ["c"]
  rw [Files.walk_idle hnode (by decide), Files.walk_idle hnode (by decide), Files.walk]

/-- Through the link beside it, the directory is found to hold two files. -/
theorem exists_listsFiles_linkedTree :
    Files.isDirectory linkedTree "d/." = true ∧
    ∃ index, (∀ order : linkedTree.Enumeration, listFilesIn linkedTree order "d/." = .ok index) ∧
      index.keys = ["a", "s/b"] ∧ Files.read linkedTree "d/./s/b" = .ok [0x62] := by
  have hdirectory : Files.isDirectory linkedTree "d/." = true :=
    Files.isDirectory_iff.2 ⟨["c"], directory_linkedTree⟩
  obtain ⟨location, index, hroot, hlist, horder, -, hlists⟩ :=
    exists_listsFiles_of_isDirectory hdirectory
  obtain rfl : location = ["c"] := Except.ok.inj (hroot.symm.trans directory_linkedTree)
  have hindex : index = pathsBelow linkedTree ["c"] := by
    rw [listFiles_eq, hroot] at hlist
    exact (Except.ok.inj hlist).symm
  have hreaches : linkedTree.Reaches ["c"] ["s", "b"] [0x62] :=
    (FileTree.reaches_iff rfl).2 rfl
  refine ⟨hdirectory, index, horder, ?_, ?_⟩
  · rw [hindex]
    decide +kernel
  · have hread := hlists.read_join ["s", "b"] [0x62] hreaches (by simp [Octets.IsText])
    rwa [show Path.join "d/." (Path.shown ["s", "b"]) = "d/./s/b" by decide +kernel] at hread

/-! ### Files that are listed by one path -/

/-- A directory with two files whose names are single octets, neither of them UTF-8. -/
def misspelledTree : FileTree :=
  let placed := do
    let t ← Files.put .empty [] "c" .directory
    let t ← Files.put t ["c"] ⟨[0xFE]⟩ (.file [0x61])
    Files.put t ["c"] ⟨[0xFF]⟩ (.file [0x62])
  placed.toOption.getD .empty

/-- The path leads to the directory. -/
theorem directory_misspelledTree : Files.directory misspelledTree "c" = .ok ["c"] :=
  Files.directory_of_proper (by decide) rfl rfl

/-- Both are listed by the one path that they are shown as, and it leads to neither. -/
theorem listFiles_misspelledTree :
    misspelledTree.Reaches ["c"] [⟨[0xFE]⟩] [0x61] ∧
    misspelledTree.Reaches ["c"] [⟨[0xFF]⟩] [0x62] ∧
    (∃ index, listFiles misspelledTree "c" = .ok index ∧ index.keys = ["\uFFFD"]) ∧
    Files.read misspelledTree (Path.join "c" "\uFFFD" : String) = .error .notFound := by
  have hnone : misspelledTree.node? ["c", "\uFFFD"] = none := by decide +kernel
  have hsegments : Path.segments (Octets.ofText (Path.join "c" "\uFFFD")) =
      (["c", "\uFFFD"] : List Octets) := by
    decide +kernel
  have hresolve : Files.resolve misspelledTree .looking (Path.join "c" "\uFFFD" : String) =
      .ok ["c", "\uFFFD"] := by
    refine Files.resolve_eq_ok_iff.2 ⟨by decide +kernel, by decide +kernel, ?_⟩
    rw [hsegments, Files.walk_name rfl (by decide) (by decide)]
    show Files.walk misspelledTree .looking 40 ["c"] ["\uFFFD"] = .ok ["c", "\uFFFD"]
    rw [Files.walk_name rfl (by decide +kernel) (by decide +kernel)]
    exact hnone ▸ rfl
  refine ⟨(FileTree.reaches_iff rfl).2 rfl, (FileTree.reaches_iff rfl).2 rfl, ?_, ?_⟩
  · refine ⟨_, listFiles_eq_ok_iff.2 ⟨_, directory_misspelledTree, rfl⟩, ?_⟩
    decide +kernel
  · simp only [Files.read, Files.node, hresolve, bind, Except.bind, hnone]

end Accession.Package

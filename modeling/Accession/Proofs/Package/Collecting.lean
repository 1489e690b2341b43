import Accession.Package.Directory
import Accession.Proofs.Files.Contents
set_option autoImplicit false

/-!
# Searching a directory

A search that enters one directory after the other, each by its own path, finds exactly the files
that directories lead to. Every directory that is entered is found again under its path, so nothing
is refused on the way; and a path that the search comes to begins with the one that it started
from, however that is spelled, so no file is left out and each is listed by the names that lead to
it. In which order the names in a directory are handed out makes no difference.

## Main definitions

* `FileTree.ReachesBy` — what a name in a directory leads to.
* `Package.Adds` — a set of paths that has some paths more than another one.
* `Package.pathsBelow` — the paths of the files below a directory.

## Main results

* `Package.exists_addEntry` — what the name of one entry adds.
* `Package.exists_collect` — what is found at and below a directory.
* `Package.listFilesIn_eq` — the files that are listed, in whatever order the search takes them.
-/

namespace Accession

namespace FileTree

variable {t : FileTree}

/-- The names in a directory are those of what is there. -/
theorem mem_namesIn {directory : Location} {name : Octets} :
    name ∈ t.namesIn directory ↔ (t.node? (directory ++ [name])).isSome := by
  have hentry (location : Location) (node : FileNode) : (location, node) ∈ t.nodes.entries ↔
      t.nodes.find? location = some node := Index.mem_entries_iff
  have hfind : (t.node? (directory ++ [name])).isSome =
      (t.nodes.find? (directory ++ [name])).isSome := by
    cases directory <;> rfl
  rw [namesIn, List.mem_filterMap, hfind, Option.isSome_iff_exists]
  constructor
  · rintro ⟨⟨location, node⟩, hmem, hname⟩
    cases hreverse : location.reverse with
    | nil => simp [hreverse] at hname
    | cons last rest =>
      simp only [hreverse, Option.ite_none_right_eq_some, Option.some.injEq] at hname
      obtain ⟨rfl, rfl⟩ := hname
      rw [← List.reverse_cons, ← hreverse, List.reverse_reverse]
      exact ⟨node, (hentry _ _).1 hmem⟩
  · rintro ⟨node, hnode⟩
    exact ⟨_, (hentry _ _).2 hnode, by simp⟩

/-- Nothing is deeper in a tree than its depth. -/
theorem length_le_depth {location : Location} (h : (t.node? location).isSome) :
    location.length ≤ t.depth := by
  cases location with
  | nil => exact Nat.zero_le _
  | cons head tail =>
    obtain ⟨node, hnode⟩ := Option.isSome_iff_exists.1 h
    have hmem : (head :: tail, node) ∈ t.nodes.entries := Index.mem_entries_iff.2 hnode
    rw [depth]
    generalize t.nodes.entries = entries at hmem
    induction entries with
    | nil => cases hmem
    | cons entry entries ih =>
      rw [List.foldr_cons]
      rcases List.mem_cons.1 hmem with rfl | hrest
      · exact Nat.le_max_left ..
      · exact Nat.le_trans (ih hrest) (Nat.le_max_right ..)

/-- A name in a directory is that of a file, or that of a directory from which the file is reached
by the rest of the names. -/
def ReachesBy (t : FileTree) (directory : Location) (name : Octets) (rest : List Octets)
    (content : List UInt8) : Prop :=
  rest = [] ∧ t.node? (directory ++ [name]) = some (.file content) ∨
    t.Reaches (directory ++ [name]) rest content

/-- Whatever is reached from a directory is reached by a name in it. -/
theorem reaches_iff_exists_name {directory : Location} {names : List Octets}
    {content : List UInt8} (hdirectory : t.node? directory = some .directory) :
    Reaches t directory names content ↔ ∃ name ∈ t.namesIn directory, ∃ rest,
      t.ReachesBy directory name rest content ∧ names = name :: rest := by
  constructor
  · intro h
    cases h with
    | file _ hfile =>
      exact ⟨_, mem_namesIn.2 (by rw [hfile]; rfl), [], .inl ⟨rfl, hfile⟩, rfl⟩
    | enter _ hreaches =>
      have hnext := hreaches.node?_directory
      exact ⟨_, mem_namesIn.2 (by rw [hnext]; rfl), _, .inr hreaches, rfl⟩
  · rintro ⟨name, -, rest, ⟨rfl, hfile⟩ | hreaches, rfl⟩
    · exact .file hdirectory hfile
    · exact .enter hdirectory hreaches

end FileTree

namespace Package

variable {t : FileTree}

/-! ### Sets with some paths more -/

/-- The set `found'` has the paths of `found` and those that satisfy a condition. -/
def Adds (found found' : FileSet) (p : String → Prop) : Prop :=
  ∀ path, found'.contains path = true ↔ found.contains path = true ∨ p path

/-- A search that comes upon nothing adds nothing. -/
theorem adds_nothing {found : FileSet} {p : String → Prop} (h : ∀ path, ¬p path) :
    Adds found found p := by
  intro path
  simp [h path]

/-- Inserting a path adds that one path. -/
theorem adds_insert (found : FileSet) (path : String) :
    Adds found (found.insert path ()) (· = path) := by
  intro other
  rw [Index.contains_insert, Bool.or_eq_true, decide_eq_true_iff, or_comm]

/-- What each step adds is added by all of them. -/
theorem exists_foldlM_adds {step : FileSet → Octets → Except Error FileSet} {names : List Octets}
    {p : Octets → String → Prop}
    (h : ∀ found, ∀ name ∈ names, ∃ found', step found name = .ok found' ∧
      Adds found found' (p name)) (found : FileSet) :
    ∃ found', names.foldlM step found = .ok found' ∧
      Adds found found' fun path => ∃ name ∈ names, p name path := by
  induction names generalizing found with
  | nil => exact ⟨found, rfl, adds_nothing (by simp)⟩
  | cons name names ih =>
    obtain ⟨next, hstep, hnext⟩ := h found name List.mem_cons_self
    obtain ⟨found', hrest, hfound'⟩ :=
      ih (fun found other hother => h found other (List.mem_cons_of_mem _ hother)) next
    refine ⟨found', ?_, fun path => ?_⟩
    · rw [List.foldlM_cons, hstep]
      exact hrest
    · rw [hfound', hnext, or_assoc]
      simp only [List.mem_cons, exists_eq_or_imp]

/-! ### The search -/

section

variable {base dir name : Octets} {location : Location} {names : List Octets}
  (hdirectory : Files.directory t dir = .ok location)
  (hcomponents : Path.components dir = Path.components base ++ names.map .name)

include hdirectory hcomponents

/-- The path of an entry is made of the names that lead to it, behind what the search began with. -/
theorem components_entry (hname : (t.node? (location ++ [name])).isSome) :
    Path.components (Path.join dir name) =
      Path.components base ++ (names ++ [name]).map .name := by
  have hdir : dir.toList ≠ [] :=
    (Files.resolve_eq_ok_iff.1 (Files.directory_eq_ok_iff.1 hdirectory).1).2.1
  rw [Path.components_join hdir (t.closed location name hname).2, hcomponents, List.map_append,
    List.append_assoc]
  rfl

/-- **What the name of an entry adds**: the file of that name, or what is found in the directory of
that name, and nothing if it is the name of a link. -/
theorem exists_addEntry {enter : Octets → FileSet → Except Error FileSet} (found : FileSet)
    (hname : (t.node? (location ++ [name])).isSome)
    (henter : t.node? (location ++ [name]) = some .directory →
      ∃ found', enter (Path.join dir name) found = .ok found' ∧
        Adds found found' fun path => ∃ rest content,
          t.Reaches (location ++ [name]) rest content ∧
          path = Path.shown (names ++ [name] ++ rest)) :
    ∃ found', addEntry t base enter dir location found name = .ok found' ∧
      Adds found found' fun path => ∃ rest content,
        t.ReachesBy location name rest content ∧ path = Path.shown (names ++ name :: rest) := by
  have hpath := components_entry hdirectory hcomponents hname
  obtain ⟨node, hnode⟩ := Option.isSome_iff_exists.1 hname
  rw [addEntry, hnode]
  cases node with
  | link target =>
    refine ⟨found, rfl, adds_nothing ?_⟩
    rintro path ⟨rest, content, ⟨-, hfile⟩ | hreaches, -⟩
    · rw [hfile] at hnode
      cases hnode
    · rw [hreaches.node?_directory] at hnode
      cases hnode
  | file content =>
    simp only [Path.relativeTo?_of_components hpath, Path.filterMap_name?_map_name]
    refine ⟨_, rfl, fun path => ?_⟩
    rw [adds_insert]
    refine or_congr_right ⟨?_, ?_⟩
    · rintro rfl
      exact ⟨[], content, .inl ⟨rfl, hnode⟩, rfl⟩
    · rintro ⟨rest, content', ⟨rfl, -⟩ | hreaches, rfl⟩
      · rfl
      · rw [hreaches.node?_directory] at hnode
        cases hnode
  | directory =>
    obtain ⟨found', hentered, hadds⟩ := henter hnode
    refine ⟨found', hentered, fun path => ?_⟩
    rw [hadds]
    simp [FileTree.ReachesBy, hnode, List.append_assoc]

/-- **What is found at and below a directory**: each file that directories lead to from there, by
the names that lead there from the directory that the search began with.

**Proof sketch.** By induction on the levels that are left. There are enough, as nothing is deeper
than the tree. Each name adds what is reached by it, and whatever is reached is reached by one of
the names, in whatever order they come. -/
theorem exists_collect (order : t.Enumeration) {levels : Nat}
    (hlevels : t.depth < location.length + levels) (found : FileSet) :
    ∃ found', collect t order base levels dir found = .ok found' ∧
      Adds found found' fun path => ∃ below content,
        t.Reaches location below content ∧ path = Path.shown (names ++ below) := by
  have hlocation := (Files.directory_eq_ok_iff.1 hdirectory).2
  induction levels generalizing dir location names found with
  | zero =>
    have hsome : (t.node? location).isSome := by rw [hlocation]; rfl
    have hdepth := FileTree.length_le_depth hsome
    omega
  | succ levels ih =>
    have hentry (found : FileSet) (name : Octets) (hname : name ∈ order.names location) :=
      exists_addEntry hdirectory hcomponents found
        (FileTree.mem_namesIn.1 ((order.perm location).mem_iff.1 hname)) fun hnode =>
          ih (Files.directory_join hdirectory hnode)
            (components_entry hdirectory hcomponents (by rw [hnode]; rfl))
            (by rw [List.length_append, List.length_singleton]; omega) found hnode
    obtain ⟨found', hfold, hadds⟩ := exists_foldlM_adds hentry found
    rw [collect, hdirectory]
    refine ⟨found', hfold, fun path => ?_⟩
    rw [hadds path]
    simp only [FileTree.reaches_iff_exists_name hlocation, (order.perm location).mem_iff]
    refine or_congr_right ?_
    constructor
    · rintro ⟨name, hname, rest, content, hreaches, rfl⟩
      exact ⟨name :: rest, content, ⟨name, hname, rest, hreaches, rfl⟩, rfl⟩
    · rintro ⟨_, content, ⟨name, hname, rest, hreaches, rfl⟩, rfl⟩
      exact ⟨name, hname, rest, content, hreaches, rfl⟩

end

/-! ### The files that are listed -/

/-- The paths of the files below a directory. -/
def pathsBelow (t : FileTree) (location : Location) : FileSet :=
  Index.ofList ((t.filesBelow location).map fun names => (Path.shown names, ()))

/-- A path is found below a place exactly if names that lead to a file there are shown as it. -/
theorem contains_pathsBelow {location : Location} {path : String} :
    (pathsBelow t location).contains path = true ↔
      ∃ names content, t.node? (location ++ names) = some (.file content) ∧
        path = Path.shown names := by
  rw [pathsBelow, Index.contains_ofList]
  simp only [List.mem_map, Prod.exists, FileTree.mem_filesBelow]
  constructor
  · rintro ⟨_, _, ⟨names, ⟨content, hnode⟩, heq⟩, rfl⟩
    cases heq
    exact ⟨names, content, hnode, rfl⟩
  · rintro ⟨names, content, hnode, rfl⟩
    exact ⟨_, (), ⟨names, ⟨content, hnode⟩, rfl⟩, rfl⟩

/-- **The files that are listed are those below the directory**, in whatever order the search takes
them. Only the directory itself may be refused. -/
theorem listFilesIn_eq (order : t.Enumeration) (path : String) :
    listFilesIn t order path = match Files.directory t path with
      | .error fault => .error (.storage "read directory" path fault.message)
      | .ok location => .ok (pathsBelow t location) := by
  rw [listFilesIn]
  cases hdirectory : Files.directory t path with
  | error fault => rw [collect, hdirectory, Octets.shown_ofText]
  | ok location =>
    have hlocation := (Files.directory_eq_ok_iff.1 hdirectory).2
    have hnothing : Path.components (path : Octets) =
        Path.components (path : Octets) ++ ([] : List Octets).map .name :=
      (List.append_nil _).symm
    have hlevels : t.depth < location.length + (t.depth + 1) := by omega
    obtain ⟨found, hcollect, hadds⟩ :=
      exists_collect hdirectory hnothing order hlevels Index.empty
    have hfound : found = pathsBelow t location := by
      refine Index.ext_contains fun other => ?_
      rw [Bool.eq_iff_iff, hadds, contains_pathsBelow]
      simp only [FileTree.reaches_iff hlocation, List.nil_append]
      exact or_iff_right (by simp [Index.contains, Index.empty])
    rw [hcollect, hfound]

/-- The files are listed below the place where the path leads, or the path leads to no directory. -/
theorem listFiles_eq (t : FileTree) (path : String) :
    listFiles t path = match Files.directory t path with
      | .error fault => .error (.storage "read directory" path fault.message)
      | .ok location => .ok (pathsBelow t location) :=
  listFilesIn_eq t.storedOrder path

end Package

end Accession

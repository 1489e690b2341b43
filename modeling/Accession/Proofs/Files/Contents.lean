import Accession.Proofs.Files.Walking
set_option autoImplicit false

/-!
# Trees that differ in contents

Where a path leads depends on directories, links and names, and on no content of any file. So trees
that have the same things at the same places, up to what the files hold, are walked alike, and list
the same files.

## Main definitions

* `FileTree.SameOutline` — two trees have the same things at the same places, up to the contents of
  files.
* `FileTree.Reaches` — a file lies below a directory, and only directories lead to it.

## Main results

* `FileTree.reaches_iff` — the files below a directory are those that directories lead to.
* `Files.resolve_congr`, `Files.directory_congr` — paths lead to the same places in such trees.
-/

namespace Accession

namespace FileNode

/-- What is at a place, whatever a file there holds. -/
def outline : FileNode → FileNode
  | .file _ => .file []
  | node => node

/-- The outline tells where there is a directory. -/
theorem map_outline_eq_directory_iff {node? : Option FileNode} :
    node?.map outline = some .directory ↔ node? = some .directory := by
  rcases node? with - | - | - | - <;> simp [outline]

/-- The outline tells where there is a link, and its target. -/
theorem map_outline_eq_link_iff {node? : Option FileNode} {target : Octets} :
    node?.map outline = some (.link target) ↔ node? = some (.link target) := by
  rcases node? with - | - | - | - <;> simp [outline]

/-- The outline tells where there is a file, but not what it holds. -/
theorem map_outline_eq_file_iff {node? : Option FileNode} :
    node?.map outline = some (.file []) ↔ ∃ content, node? = some (.file content) := by
  rcases node? with - | - | - | - <;> simp [outline]

end FileNode

namespace FileTree

variable {t t' : FileTree}

/-- Two trees have the same things at the same places, and the same working directory; files may
hold something else. -/
structure SameOutline (t t' : FileTree) : Prop where
  working : t'.working = t.working
  outline : ∀ location,
    (t'.node? location).map FileNode.outline = (t.node? location).map FileNode.outline

section

variable (h : SameOutline t t') {location : Location}

include h

/-- Trees of one outline have the same directories. -/
theorem SameOutline.node?_eq_directory_iff :
    t'.node? location = some .directory ↔ t.node? location = some .directory := by
  rw [← FileNode.map_outline_eq_directory_iff, h.outline, FileNode.map_outline_eq_directory_iff]

/-- Trees of one outline have the same links with the same targets. -/
theorem SameOutline.node?_eq_link_iff {target : Octets} :
    t'.node? location = some (.link target) ↔ t.node? location = some (.link target) := by
  rw [← FileNode.map_outline_eq_link_iff, h.outline, FileNode.map_outline_eq_link_iff]

/-- Trees of one outline have files at the same places, whatever these hold. -/
theorem SameOutline.exists_file_iff :
    (∃ content, t'.node? location = some (.file content)) ↔
      ∃ content, t.node? location = some (.file content) := by
  rw [← FileNode.map_outline_eq_file_iff, h.outline, FileNode.map_outline_eq_file_iff]

/-- Trees of one outline have nothing at the same places. -/
theorem SameOutline.node?_eq_none_iff : t'.node? location = none ↔ t.node? location = none := by
  rw [← Option.map_eq_none_iff (f := FileNode.outline), h.outline, Option.map_eq_none_iff]

/-- The same files are below a directory. -/
theorem SameOutline.mem_filesBelow_iff {names : List Octets} :
    names ∈ t'.filesBelow location ↔ names ∈ t.filesBelow location := by
  rw [mem_filesBelow, mem_filesBelow, h.exists_file_iff]

end

/-- Whatever a file holds that is put somewhere, the outline is the same. -/
theorem sameOutline_place {directory : Location} {name : Octets} {content content' : List UInt8}
    (hdirectory : t.node? directory = some .directory)
    (hfree : t.node? (directory ++ [name]) ≠ some .directory) (hname : ProperName name) :
    SameOutline (t.place directory name (.file content) hdirectory hfree hname)
      (t.place directory name (.file content') hdirectory hfree hname) where
  working := rfl
  outline location := by
    rw [node?_place, node?_place]
    split <;> rfl

/-! ### Through directories only -/

/-- A file with some content is reached from a directory by entering directories, one after the
other. No link is followed. -/
inductive Reaches (t : FileTree) : Location → List Octets → List UInt8 → Prop where
  /-- The file is in the directory itself. -/
  | file {directory : Location} {name : Octets} {content : List UInt8}
      (hdirectory : t.node? directory = some .directory)
      (hfile : t.node? (directory ++ [name]) = some (.file content)) :
      Reaches t directory [name] content
  /-- The file is below a directory in the directory. -/
  | enter {directory : Location} {name : Octets} {names : List Octets} {content : List UInt8}
      (hdirectory : t.node? directory = some .directory)
      (hreaches : Reaches t (directory ++ [name]) names content) :
      Reaches t directory (name :: names) content

/-- A file that is reached is in the tree, at the place the names lead to. -/
theorem Reaches.node? {directory : Location} {names : List Octets} {content : List UInt8}
    (h : Reaches t directory names content) :
    t.node? (directory ++ names) = some (.file content) := by
  induction h with
  | file _ hfile => exact hfile
  | enter _ _ ih => simpa using ih

/-- Only from a directory is anything reached. -/
theorem Reaches.node?_directory {directory : Location} {names : List Octets}
    {content : List UInt8} (h : Reaches t directory names content) :
    t.node? directory = some .directory := by
  cases h with
  | file hdirectory _ => exact hdirectory
  | enter hdirectory _ => exact hdirectory

/-- **The files below a directory are reached through directories only**: whatever leads to
something in a tree is a directory. -/
theorem reaches_iff {directory : Location} {names : List Octets} {content : List UInt8}
    (hdirectory : t.node? directory = some .directory) :
    Reaches t directory names content ↔
      t.node? (directory ++ names) = some (.file content) := by
  refine ⟨Reaches.node?, fun hfile => ?_⟩
  induction names generalizing directory with
  | nil =>
    rw [List.append_nil, hdirectory] at hfile
    cases hfile
  | cons name names ih =>
    by_cases hlast : names = []
    · subst hlast
      exact .file hdirectory hfile
    · rw [show directory ++ name :: names = (directory ++ [name]) ++ names by simp] at hfile
      have hnext := (node?_of_append hlast (by rw [hfile]; rfl)).1
      exact .enter hdirectory (ih hnext hfile)

end FileTree

/-! ### Following a path -/

namespace Files

open FileTree

variable {t t' : FileTree} (h : SameOutline t t')

include h

/-- A path is followed alike in trees of the same outline.

**Proof sketch.** Along the recursion of `walk`, each step of which asks only whether something is
there, whether it is a directory, and where a link leads. -/
theorem walk_congr (purpose : Purpose) (links : Nat) (here : Location) (segments : List Octets) :
    walk t' purpose links here segments = walk t purpose links here segments := by
  have hstay {here : Location} (hhere : ¬t.node? here ≠ some .directory) :
      ¬t'.node? here ≠ some .directory := by
    rwa [Ne, h.node?_eq_directory_iff]
  fun_induction walk t purpose links here segments with
  | case1 links here => rw [walk]
  | case2 links here segment rest hhere =>
    rw [walk, if_pos (by rwa [Ne, h.node?_eq_directory_iff])]
  | case3 links here segment rest hhere hidle ih =>
    rw [walk, if_neg (hstay hhere), if_pos hidle, ih]
  | case4 links here segment rest hhere hidle hup ih =>
    rw [walk, if_neg (hstay hhere), if_neg hidle, if_pos hup, ih]
  | case5 links here segment rest hhere hidle hup hwriting =>
    rw [walk, if_neg (hstay hhere), if_neg hidle, if_neg hup,
      if_pos hwriting]
  | case6 links here segment rest hhere hidle hup hwriting hnone hlast =>
    rw [walk, if_neg (hstay hhere), if_neg hidle, if_neg hup,
      if_neg hwriting, h.node?_eq_none_iff.2 hnone]
    exact if_pos hlast
  | case7 links here segment rest hhere hidle hup hwriting hnone hlast =>
    rw [walk, if_neg (hstay hhere), if_neg hidle, if_neg hup,
      if_neg hwriting, h.node?_eq_none_iff.2 hnone]
    exact if_neg hlast
  | case8 here segment rest hhere hidle hup hwriting target hlink =>
    rw [walk, if_neg (hstay hhere), if_neg hidle, if_neg hup,
      if_neg hwriting, h.node?_eq_link_iff.2 hlink]
  | case9 here segment rest hhere hidle hup hwriting target hlink links ih =>
    rw [walk, if_neg (hstay hhere), if_neg hidle, if_neg hup,
      if_neg hwriting, h.node?_eq_link_iff.2 hlink]
    exact ih
  | case10 links here segment rest hhere hidle hup hwriting node hnode hsome ih =>
    rw [walk, if_neg (hstay hhere), if_neg hidle, if_neg hup,
      if_neg hwriting]
    cases node with
    | link target => exact (hnode target rfl).elim
    | file content =>
      obtain ⟨content', hsome'⟩ := h.exists_file_iff.2 ⟨content, hsome⟩
      rw [hsome']
      exact ih
    | directory =>
      rw [h.node?_eq_directory_iff.2 hsome]
      exact ih

/-- Where a path leads depends on the outline only, since no file is read on the way. -/
theorem resolve_congr (purpose : Purpose) (path : Octets) :
    resolve t' purpose path = resolve t purpose path := by
  rw [resolve, resolve, h.working, walk_congr h]

/-- A path leads to the same directory in trees of the same outline. -/
theorem directory_congr (path : Octets) : directory t' path = directory t path := by
  rw [directory, directory, resolve_congr h]
  cases resolve t .looking path with
  | error fault => rfl
  | ok location =>
    simp only [bind, Except.bind]
    cases hnode : t.node? location with
    | none => rw [h.node?_eq_none_iff.2 hnode]
    | some node =>
      cases node with
      | directory => rw [h.node?_eq_directory_iff.2 hnode]
      | link target => rw [h.node?_eq_link_iff.2 hnode]
      | file content =>
        obtain ⟨content', hnode'⟩ := h.exists_file_iff.2 ⟨content, hnode⟩
        rw [hnode']

end Files

end Accession

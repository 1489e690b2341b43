import Accession.Files.Path
set_option autoImplicit false

/-!
# File trees

The files, directories and symbolic links of a file system, with the directory that relative paths
start from. A tree is an index from locations to what is there. Whatever is in a tree lies in
directories of the tree, and bears a name that a path can spell.

## Main definitions

* `FileTree` — a tree, with `FileTree.node?`, what is at a location.
* `FileTree.place` — puts something into a directory.
* `FileTree.remove` — takes something out, with everything below it.
* `FileTree.namesIn` — the names in a directory.

## Main results

* `FileTree.node?_place`, `FileTree.node?_remove` — what is where afterwards.
-/

namespace Accession

/-- A place: the names that lead there from the root. -/
abbrev Location :=
  List Octets

/-- What can be at a place. -/
inductive FileNode where
  | file (content : List UInt8)
  /-- A symbolic link to a path, which starts from the directory of the link if it is relative. -/
  | link (target : Octets)
  | directory
  deriving DecidableEq, Repr

/-- Whether a path can spell a name: it is not empty, does not stand for a directory itself, and
holds no octet that ends it. -/
def ProperName (name : Octets) : Prop :=
  ¬Path.isIdle name ∧ ¬Path.isUp name ∧ Mark.slash ∉ name.toList ∧ 0 ∉ name.toList

instance (name : Octets) : Decidable (ProperName name) :=
  inferInstanceAs (Decidable (_ ∧ _))

/-- What an index holds at a location. The root itself is no entry. -/
def nodeAt? (nodes : Index Location FileNode) : Location → Option FileNode
  | [] => some .directory
  | location => nodes.find? location

/-- Files, directories and links, and where relative paths start from. -/
structure FileTree where
  nodes : Index Location FileNode
  working : Location
  /-- The root, which is always there, is no entry. -/
  rootless : nodes.find? [] = none
  /-- Whatever is there is in a directory, under a proper name. -/
  closed : ∀ (directory : Location) (name : Octets),
    (nodeAt? nodes (directory ++ [name])).isSome →
      nodeAt? nodes directory = some .directory ∧ ProperName name

namespace FileTree

/-- What is at a location. -/
def node? (t : FileTree) (location : Location) : Option FileNode :=
  nodeAt? t.nodes location

/-- A root with nothing in it. -/
def empty : FileTree where
  nodes := Index.empty
  working := []
  rootless := rfl
  closed directory name h := by
    have : nodeAt? Index.empty (directory ++ [name]) = none := by
      cases directory <;> rfl
    simp [this] at h

instance : Inhabited FileTree :=
  ⟨empty⟩

/-- A node that is put somewhere is found there, and every other place holds what it held. -/
theorem nodeAt?_insert (nodes : Index Location FileNode) (directory location : Location)
    (name : Octets) (node : FileNode) :
    nodeAt? (nodes.insert (directory ++ [name]) node) location =
      if location = directory ++ [name] then some node else nodeAt? nodes location := by
  cases location with
  | nil => simp [nodeAt?]
  | cons head tail => simp [nodeAt?, Index.find?_insert]

/-- Puts something into a directory, under a proper name that no directory has. -/
def place (t : FileTree) (directory : Location) (name : Octets) (node : FileNode)
    (hdirectory : t.node? directory = some .directory)
    (hfree : t.node? (directory ++ [name]) ≠ some .directory) (hname : ProperName name) :
    FileTree where
  nodes := t.nodes.insert (directory ++ [name]) node
  working := t.working
  rootless := by rw [Index.find?_insert, if_neg (by simp), t.rootless]
  closed directory' name' h := by
    rw [nodeAt?_insert] at h ⊢
    split at h
    · rename_i heq
      obtain ⟨rfl, hn⟩ := List.append_inj' heq rfl
      obtain rfl : name' = name := by simpa using hn
      have : directory' ≠ directory' ++ [name'] := by
        intro h'
        have := congrArg List.length h'
        simp at this
      rw [if_neg this]
      exact ⟨hdirectory, hname⟩
    · have hold := t.closed directory' name' h
      split
      · rename_i heq
        exact absurd (heq ▸ hold.1) hfree
      · exact hold

/-- After something is put into a directory, it is there, and all else is as before. -/
theorem node?_place (t : FileTree) (directory : Location) (name : Octets) (node : FileNode)
    (hdirectory : t.node? directory = some .directory)
    (hfree : t.node? (directory ++ [name]) ≠ some .directory) (hname : ProperName name)
    (location : Location) :
    (t.place directory name node hdirectory hfree hname).node? location =
      if location = directory ++ [name] then some node else t.node? location :=
  nodeAt?_insert ..

/-- The entries outside a location. -/
def outside (nodes : Index Location FileNode) (location : Location) : Index Location FileNode :=
  nodes.filter fun other _ => !location.isPrefixOf other

/-- What is left outside a place is everything but the place and what is below it. -/
theorem nodeAt?_outside (nodes : Index Location FileNode) {location : Location}
    (h : location ≠ []) (other : Location) :
    nodeAt? (outside nodes location) other =
      if location <+: other then none else nodeAt? nodes other := by
  cases other with
  | nil => simp [nodeAt?, h]
  | cons head tail =>
    simp only [nodeAt?, outside, Index.find?_filter_key (fun other => !location.isPrefixOf other)]
    by_cases hp : location <+: head :: tail
    · simp [hp, List.isPrefixOf_iff_prefix.2 hp]
    · simp [hp, Bool.eq_false_iff.2 fun h => hp (List.isPrefixOf_iff_prefix.1 h)]

/-- Takes something out of a tree, with everything below it. -/
def remove (t : FileTree) (location : Location) (h : location ≠ []) : FileTree where
  nodes := outside t.nodes location
  working := t.working
  rootless := by
    rw [outside, Index.find?_filter_key (fun other => !location.isPrefixOf other), t.rootless,
      ite_self]
  closed directory name hn := by
    rw [nodeAt?_outside _ h] at hn ⊢
    split at hn
    · cases hn
    · rename_i hp
      rw [if_neg fun hq => hp (hq.trans (List.prefix_append ..))]
      exact t.closed directory name hn

/-- After something is taken out, all else is as before. -/
theorem node?_remove (t : FileTree) {location : Location} (h : location ≠ [])
    (other : Location) :
    (t.remove location h).node? other = if location <+: other then none else t.node? other :=
  nodeAt?_outside _ h other

/-- The names in a directory. -/
def namesIn (t : FileTree) (directory : Location) : List Octets :=
  t.nodes.entries.filterMap fun entry =>
    match entry.1.reverse with
    | name :: rest => if rest.reverse = directory then some name else none
    | [] => none

/-- What is in a tree and was not there, or was something else, in an earlier one. Directories come
before what is in them. -/
def changesSince (t earlier : FileTree) : List (Location × FileNode) :=
  t.nodes.entries.filter fun entry => earlier.node? entry.1 ≠ some entry.2

end FileTree

end Accession

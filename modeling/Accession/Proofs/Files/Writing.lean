import Accession.Proofs.Files.Walking
set_option autoImplicit false

/-!
# Written files

A file is written where its path leads, and nowhere else. The path leads there afterwards as well,
since nothing on the way to the file is changed: so what was written is read back, and can be
written again. Directories are where they were, and elsewhere the same files are below them.

## Main definitions

* `FileTree.SameBut` — trees that differ in one place at most.

## Main results

* `Files.exists_of_write` — what writing a file changes, and where.
* `Files.read_of_write` — what was written is read.
* `Files.exists_write_of_read`, `Files.exists_write_of_write` — what can be read, or written once,
  can be written.
* `Files.directory_of_sameBut` — paths to directories lead where they did.
-/

namespace Accession

namespace FileTree

variable {t : FileTree}

/-- A tree and a later one, in which at most one place holds something else. -/
structure SameBut (location : Location) (t t' : FileTree) : Prop where
  working : t'.working = t.working
  node? : ∀ other, other ≠ location → t'.node? other = t.node? other

/-- A tree is the same as itself. -/
theorem SameBut.refl (t : FileTree) (location : Location) : t.SameBut location t :=
  ⟨rfl, fun _ _ => rfl⟩

/-- Two changes at one place are a change at that place. -/
theorem SameBut.trans {location : Location} {t' t'' : FileTree} (h : t.SameBut location t')
    (h' : t'.SameBut location t'') : t.SameBut location t'' :=
  ⟨h'.working.trans h.working, fun other hother =>
    (h'.node? other hother).trans (h.node? other hother)⟩

/-- Whatever a directory lies in is a directory. -/
theorem node?_dropLast {location : Location} (h : t.node? location = some .directory) :
    t.node? location.dropLast = some .directory := by
  induction location using List.reverseRecOn with
  | nil => exact h
  | append_singleton before name =>
    rw [List.dropLast_concat]
    exact (t.closed before name (by rw [← node?, h]; rfl)).1

end FileTree

namespace Files

variable {t t' : FileTree} {links : Nat} {here there : Location} {segments rest : List Octets}

/-! ### Putting a file at a place -/

/-- A file is put into a directory, where no other directory is. -/
theorem exists_of_putFile {location : Location} {content : List UInt8}
    (h : putFile t location content = .ok t') :
    ∃ directory name hdirectory hfree hname, location = directory ++ [name] ∧
      t' = t.place directory name (.file content) hdirectory hfree hname := by
  unfold putFile at h
  split at h
  · rename_i name hlast
    obtain ⟨directory, rfl⟩ := List.getLast?_eq_some_iff.1 hlast
    rw [List.dropLast_concat] at h
    unfold put at h
    split at h
    · rename_i hdirectory
      split at h
      · rename_i hfree
        split at h
        · rename_i hname
          cases h
          exact ⟨directory, name, hdirectory, hfree, hname, rfl, rfl⟩
        · cases h
      · cases h
    · cases h
  · cases h

/-- A file is put where there is no directory, and changes nothing else. -/
theorem putFile_eq_ok {location : Location} {content : List UInt8}
    (h : putFile t location content = .ok t') :
    t.node? location ≠ some .directory ∧ t.SameBut location t' ∧
      t'.node? location = some (.file content) := by
  obtain ⟨directory, name, hdirectory, hfree, hname, rfl, rfl⟩ := exists_of_putFile h
  refine ⟨hfree, ⟨rfl, fun other hother => ?_⟩, ?_⟩
  · rw [FileTree.node?_place, if_neg hother]
  · rw [FileTree.node?_place, if_pos rfl]

/-- A file is put where there is no directory. -/
theorem putFile_eq {directory : Location} {name : Octets}
    (hdirectory : t.node? directory = some .directory)
    (hfree : t.node? (directory ++ [name]) ≠ some .directory) (hname : ProperName name)
    (content : List UInt8) :
    putFile t (directory ++ [name]) content =
      .ok (t.place directory name (.file content) hdirectory hfree hname) := by
  rw [putFile, List.getLast?_concat, List.dropLast_concat]
  dsimp only
  rw [put, dif_pos hdirectory, dif_pos hfree, dif_pos hname]

/-! ### The path of a written file -/

/-- A path that is followed does not end at a link. -/
theorem node?_ne_link_of_walk {purpose : Purpose}
    (hwalk : walk t purpose links here segments = .ok there)
    (hhere : segments = [] → ∀ target, t.node? here ≠ some (.link target)) (target : Octets) :
    t.node? there ≠ some (.link target) := by
  fun_induction walk t purpose links here segments with
  | case1 links here =>
    cases hwalk
    exact hhere rfl target
  | case3 links here segment segments hdirectory _ ih =>
    exact ih hwalk fun _ target => by simp [not_not.1 hdirectory]
  | case4 links here segment segments hdirectory _ _ ih =>
    exact ih hwalk fun _ target => by simp [FileTree.node?_dropLast (not_not.1 hdirectory)]
  | case6 links here segment segments _ _ _ _ hnone =>
    cases hwalk
    simp [hnone]
  | case9 here segment segments _ _ _ _ target' _ links ih =>
    refine ih hwalk fun hnil => ?_
    rw [List.append_eq_nil_iff, Path.segments, List.map_eq_nil_iff] at hnil
    exact absurd hnil.1 (List.splitOn_ne_nil _ _)
  | case10 links here segment segments _ _ _ _ node hnode hsome ih =>
    refine ih hwalk fun _ target hlink => ?_
    rw [hsome] at hlink
    exact hnode target (Option.some.inj hlink)
  | case2 | case5 | case7 | case8 => cases hwalk

/-- **A path to the written file, or to a directory, leads there afterwards.**

**Proof sketch.** Along the recursion of `walk`. The place of the file is no directory and no link,
so a path that comes there ends there, and whatever else it goes through is as it was. -/
theorem walk_of_sameBut {purpose : Purpose} {place : Location} {content : List UInt8}
    (hsame : t.SameBut place t') (hdirectory : t.node? place ≠ some .directory)
    (hlink : ∀ target, t.node? place ≠ some (.link target))
    (hfile : t'.node? place = some (.file content))
    (hthere : there = place ∨ t.node? there = some .directory)
    (hwalk : walk t purpose links here segments = .ok there) :
    walk t' .looking links here segments = .ok there := by
  have hstays {location : Location} (h : t.node? location = some .directory) :
      t'.node? location = some .directory := by
    rw [hsame.node? location (by rintro rfl; exact hdirectory h), h]
  fun_induction walk t purpose links here segments with
  | case1 links here => rw [walk, ← hwalk]
  | case3 links here segment segments hhere hidle ih =>
    rw [walk_idle (hstays (not_not.1 hhere)) hidle]
    exact ih hwalk
  | case4 links here segment segments hhere hidle hup ih =>
    rw [walk_up (hstays (not_not.1 hhere)) hidle hup]
    exact ih hwalk
  | case6 links here segment segments hhere hidle hup _ hnone hlast =>
    cases hwalk
    obtain rfl := hthere.resolve_right (by simp [hnone])
    rw [walk_name (hstays (not_not.1 hhere)) hidle hup, hfile, List.isEmpty_iff.1 hlast]
    exact walk.eq_1 ..
  | case9 here segment segments hhere hidle hup _ target htarget links ih =>
    have hother : here ++ [segment] ≠ place := by
      rintro rfl
      exact hlink target htarget
    rw [walk_name (hstays (not_not.1 hhere)) hidle hup, hsame.node? _ hother, htarget]
    exact ih hwalk
  | case10 links here segment segments hhere hidle hup _ node hnode hsome ih =>
    rw [walk_name (hstays (not_not.1 hhere)) hidle hup]
    -- the written place is a file in both trees, so the way goes on behind it alike
    by_cases hother : here ++ [segment] = place
    · rw [hother, hfile]
      exact hother ▸ ih hwalk
    · rw [hsame.node? _ hother, hsome]
      cases node with
      | link target => exact (hnode target rfl).elim
      | file | directory => exact ih hwalk
  | case2 | case5 | case7 | case8 => cases hwalk

/-- A path that leads to something else does not go on with slashes alone. -/
theorem not_isSlashes_of_walk (hfile : t.node? there ≠ some .directory)
    (hwalk : walk t .looking links here (segments ++ rest) = .ok there) :
    ¬isSlashes rest = true := by
  intro hslashes
  rw [isSlashes, Bool.and_eq_true, Bool.not_eq_true', List.isEmpty_eq_false_iff,
    List.all_eq_true] at hslashes
  obtain ⟨hne, hempty⟩ := hslashes
  have hlast : Path.isIdle (rest.getLast hne) = true := by
    simpa [Path.isIdle] using .inl (List.isEmpty_iff.1 (hempty _ (List.getLast_mem hne)))
  rw [← List.dropLast_concat_getLast hne, ← List.append_assoc] at hwalk
  exact hfile (node?_of_walk_idle hlast hwalk)

/-- **Whatever a path leads to can be written**, unless it is a directory.

**Proof sketch.** Along the recursion of `walk`. The one path that may be followed but not written
has a slash at its end, and leads to a directory. -/
theorem walk_writing (hfile : t.node? there ≠ some .directory)
    (hwalk : walk t .looking links here segments = .ok there) :
    walk t .writing links here segments = .ok there := by
  fun_induction walk t .looking links here segments with
  | case1 links here => rw [walk, ← hwalk]
  | case3 links here segment segments hhere hidle ih =>
    rw [walk, if_neg hhere, if_pos hidle]
    exact ih hwalk
  | case4 links here segment segments hhere hidle hup ih =>
    rw [walk, if_neg hhere, if_neg hidle, if_pos hup]
    exact ih hwalk
  | case6 links here segment segments hhere hidle hup _ hnone hlast =>
    rw [walk, if_neg hhere, if_neg hidle, if_neg hup, List.isEmpty_iff.1 hlast, hnone, ← hwalk]
    rfl
  | case9 here segment segments hhere hidle hup _ target hlink links ih =>
    have hslashes := not_isSlashes_of_walk hfile hwalk
    rw [walk, if_neg hhere, if_neg hidle, if_neg hup, if_neg (by simp [hslashes]), hlink]
    exact ih hwalk
  | case10 links here segment segments hhere hidle hup _ node hnode hsome ih =>
    have hslashes : ¬isSlashes segments = true := not_isSlashes_of_walk hfile
      (show walk t .looking links (here ++ [segment]) ([] ++ segments) = .ok there from hwalk)
    rw [walk, if_neg hhere, if_neg hidle, if_neg hup, if_neg (by simp [hslashes]), hsome]
    cases node with
    | link target => exact (hnode target rfl).elim
    | file | directory => exact ih hwalk
  | case2 | case5 | case7 | case8 => cases hwalk

/-- A path does not lead to a link. -/
theorem node?_ne_link_of_resolve {purpose : Purpose} {path : Octets} {location : Location}
    (h : resolve t purpose path = .ok location) (target : Octets) :
    t.node? location ≠ some (.link target) := by
  obtain ⟨-, -, hwalk⟩ := resolve_eq_ok_iff.1 h
  refine node?_ne_link_of_walk hwalk (fun hnil => ?_) target
  rw [Path.segments, List.map_eq_nil_iff] at hnil
  exact absurd hnil (List.splitOn_ne_nil _ _)

/-- A file is not written where a directory is. -/
theorem node?_ne_directory_of_write {path : Octets} {content : List UInt8} {location : Location}
    (h : write t path content = .ok t') (hresolve : resolve t .writing path = .ok location) :
    t.node? location ≠ some .directory := by
  rw [write, hresolve] at h
  exact (putFile_eq_ok h).1

/-- **A file is written where its path leads**, before and afterwards, and nothing else changes. -/
theorem exists_of_write {path : Octets} {content : List UInt8}
    (h : write t path content = .ok t') :
    ∃ location, resolve t .writing path = .ok location ∧
      resolve t' .looking path = .ok location ∧ t.SameBut location t' ∧
      t'.node? location = some (.file content) := by
  rw [write] at h
  cases hresolve : resolve t .writing path with
  | error fault =>
    rw [hresolve] at h
    cases h
  | ok location =>
    rw [hresolve] at h
    obtain ⟨hdirectory, hsame, hfile⟩ := putFile_eq_ok h
    obtain ⟨hnul, hne, hwalk⟩ := resolve_eq_ok_iff.1 hresolve
    have hlink := node?_ne_link_of_resolve hresolve
    refine ⟨location, rfl, resolve_eq_ok_iff.2 ⟨hnul, hne, ?_⟩, hsame, hfile⟩
    rw [hsame.working]
    exact walk_of_sameBut hsame hdirectory hlink hfile (.inl rfl) hwalk

/-- A file can be written in the working directory, under any name that neither a directory nor a
link has there. -/
theorem exists_write {name : Octets} (hname : ProperName name)
    (hworking : t.node? t.working = some .directory)
    (hdirectory : t.node? (t.working ++ [name]) ≠ some .directory)
    (hlink : ∀ target, t.node? (t.working ++ [name]) ≠ some (.link target))
    (content : List UInt8) :
    ∃ t', write t name content = .ok t' ∧ t.SameBut (t.working ++ [name]) t' ∧
      t'.node? (t.working ++ [name]) = some (.file content) := by
  have hput := putFile_eq hworking hdirectory hname content
  refine ⟨_, ?_, (putFile_eq_ok hput).2⟩
  rw [write, resolve_of_proper hname hworking hlink]
  exact hput

/-- **What was written is read.** -/
theorem read_of_write {path : Octets} {content : List UInt8} (h : write t path content = .ok t') :
    read t' path = .ok content := by
  obtain ⟨location, -, hresolve, -, hfile⟩ := exists_of_write h
  exact read_eq_ok_iff.2 ⟨location, hresolve, hfile⟩

/-- **A file that can be read can be written.** -/
theorem exists_write_of_read {path : Octets} {content : List UInt8}
    (h : read t path = .ok content) (content' : List UInt8) :
    ∃ t', write t path content' = .ok t' := by
  obtain ⟨location, hresolve, hfile⟩ := read_eq_ok_iff.1 h
  obtain ⟨hnul, hne, hwalk⟩ := resolve_eq_ok_iff.1 hresolve
  have hfree : t.node? location ≠ some .directory := by simp [hfile]
  have hwriting : resolve t .writing path = .ok location :=
    resolve_eq_ok_iff.2 ⟨hnul, hne, walk_writing hfree hwalk⟩
  rcases List.eq_nil_or_concat location with rfl | ⟨directory, name, rfl⟩
  · exact absurd rfl hfree
  · rw [List.concat_eq_append] at *
    obtain ⟨hdirectory, hname⟩ := t.closed directory name (by rw [← FileTree.node?, hfile]; rfl)
    rw [write, hwriting]
    exact ⟨_, putFile_eq hdirectory hfree hname content'⟩

/-- Whether a file is written does not depend on what is written. -/
theorem exists_write_of_write {path : Octets} {content : List UInt8}
    (h : write t path content = .ok t') (content' : List UInt8) :
    ∃ t'', write t path content' = .ok t'' := by
  rw [write] at h ⊢
  cases hresolve : resolve t .writing path with
  | error fault =>
    rw [hresolve] at h
    cases h
  | ok location =>
    rw [hresolve] at h
    obtain ⟨directory, name, hdirectory, hfree, hname, rfl, -⟩ := exists_of_putFile h
    exact ⟨_, putFile_eq hdirectory hfree hname content'⟩

/-! ### What is elsewhere -/

/-- A path to a directory leads there after a file is written. -/
theorem directory_of_sameBut {place location : Location} {content : List UInt8} {path : Octets}
    (hsame : t.SameBut place t') (hdirectory : t.node? place ≠ some .directory)
    (hlink : ∀ target, t.node? place ≠ some (.link target))
    (hfile : t'.node? place = some (.file content)) (h : directory t path = .ok location) :
    directory t' path = .ok location := by
  obtain ⟨hresolve, hlocation⟩ := directory_eq_ok_iff.1 h
  obtain ⟨hnul, hne, hwalk⟩ := resolve_eq_ok_iff.1 hresolve
  refine directory_eq_ok_iff.2 ⟨resolve_eq_ok_iff.2 ⟨hnul, hne, ?_⟩, ?_⟩
  · rw [hsame.working]
    exact walk_of_sameBut hsame hdirectory hlink hfile (.inr hlocation) hwalk
  · rw [hsame.node? location (by rintro rfl; exact hdirectory hlocation), hlocation]

end Files

/-- Outside a directory, a change of files changes nothing below it. -/
theorem FileTree.SameBut.mem_filesBelow_iff {t t' : FileTree} {place directory : Location}
    (h : t.SameBut place t') (houtside : ¬directory <+: place) {names : List Octets} :
    names ∈ t'.filesBelow directory ↔ names ∈ t.filesBelow directory := by
  have hother : directory ++ names ≠ place := by
    rintro rfl
    exact houtside (List.prefix_append ..)
  rw [mem_filesBelow, mem_filesBelow, h.node? _ hother]

end Accession

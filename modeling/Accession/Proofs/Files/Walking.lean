import Accession.Files.Access
import Accession.Proofs.Files.Spelling
set_option autoImplicit false

/-!
# Paths into a directory

A path that leads to a directory can be continued by the names of a file below it. Joined, the two
lead to that very file, whatever links the first one goes through and however it is spelled.

## Main definitions

* `FileTree.filesBelow` — the files below a directory.

## Main results

* `FileTree.mem_filesBelow` — what the files below a directory are.
* `Files.walk_append` — a path that leads to a directory can be continued there.
* `Files.resolve_join` — joining the path of a directory with that of a file below it leads to the
  file.
* `Files.resolve_join_text`, `Files.read_join_text` — so does a text that spells the path of the
  file, which is read there.
-/

namespace Accession

/-! ### What is below a directory -/

namespace FileTree

/-- The files below a directory, each with the names that lead there from the directory. -/
def filesBelow (t : FileTree) (directory : Location) : List (List Octets) :=
  t.nodes.entries.filterMap fun
    | (location, .file _) =>
      if directory.isPrefixOf location then some (location.drop directory.length) else none
    | _ => none

variable {t : FileTree} {directory : Location} {names : List Octets}

/-- The files below a directory are those at the locations that continue its own. -/
theorem mem_filesBelow : names ∈ t.filesBelow directory ↔
    ∃ content, t.node? (directory ++ names) = some (.file content) := by
  have hentry : ∀ location content, (location, FileNode.file content) ∈ t.nodes.entries ↔
      t.node? location = some (.file content) := by
    intro location content
    rw [Index.mem_entries_iff]
    cases location with
    | nil => simp [node?, nodeAt?, t.rootless]
    | cons => rfl
  simp only [filesBelow, List.mem_filterMap, Prod.exists]
  constructor
  · rintro ⟨location, node, hmem, hnames⟩
    cases node with
    | file content =>
      simp only [Option.ite_none_right_eq_some, List.isPrefixOf_iff_prefix, Option.some.injEq]
        at hnames
      obtain ⟨⟨rest, rfl⟩, rfl⟩ := hnames
      exact ⟨content, by simpa using (hentry _ _).1 hmem⟩
    | link => cases hnames
    | directory => cases hnames
  · rintro ⟨content, hnode⟩
    exact ⟨_, _, (hentry _ _).2 hnode, by simp⟩

/-- Whatever leads to something is a directory, and the names on the way are proper ones. -/
theorem node?_of_append (hne : names ≠ []) (h : (t.node? (directory ++ names)).isSome) :
    t.node? directory = some .directory ∧ ∀ name ∈ names, ProperName name := by
  induction names using List.reverseRecOn with
  | nil => exact absurd rfl hne
  | append_singleton before name ih =>
    rw [← List.append_assoc] at h
    obtain ⟨hparent, hname⟩ := t.closed (directory ++ before) name h
    by_cases hbefore : before = []
    · subst hbefore
      exact ⟨by simpa [node?] using hparent, by simpa using hname⟩
    · obtain ⟨hdirectory, hnames⟩ := ih hbefore (by rw [node?, hparent]; rfl)
      refine ⟨hdirectory, fun other hother => ?_⟩
      rcases List.mem_append.1 hother with hother | hother
      · exact hnames other hother
      · exact List.mem_singleton.1 hother ▸ hname

/-- The names that lead from a directory to a file are proper, and there is one at least. -/
theorem proper_of_node? {content : List UInt8} (hdirectory : t.node? directory = some .directory)
    (hfile : t.node? (directory ++ names) = some (.file content)) :
    names ≠ [] ∧ ∀ name ∈ names, ProperName name := by
  have hne : names ≠ [] := by
    rintro rfl
    simp [hdirectory] at hfile
  exact ⟨hne, (node?_of_append hne (by rw [hfile]; rfl)).2⟩

end FileTree

/-! ### Following a path -/

namespace Files

open Mark Spelled

variable {t : FileTree} {links : Nat} {here there : Location} {segments rest : List Octets}

/-- Nothing is behind a file. -/
theorem walk_of_ne_directory {purpose : Purpose} (hhere : t.node? here ≠ some .directory)
    (segment : Octets) (rest : List Octets) :
    walk t purpose links here (segment :: rest) = .error .notDirectory := by
  rw [walk, if_pos hhere]

/-- Looking into a directory, an idle segment leads nowhere. -/
theorem walk_idle (hhere : t.node? here = some .directory) {segment : Octets}
    (hidle : Path.isIdle segment = true) :
    walk t .looking links here (segment :: rest) = walk t .looking links here rest := by
  rw [walk, if_neg (by simp [hhere]), if_pos hidle]

/-- Two dots lead up. -/
theorem walk_up (hhere : t.node? here = some .directory) {segment : Octets}
    (hidle : ¬Path.isIdle segment = true) (hup : Path.isUp segment = true) :
    walk t .looking links here (segment :: rest) = walk t .looking links here.dropLast rest := by
  rw [walk, if_neg (by simp [hhere]), if_neg hidle, if_pos hup]

/-- Any other segment names something in the directory, if it is there. -/
theorem walk_name (hhere : t.node? here = some .directory) {segment : Octets}
    (hidle : ¬Path.isIdle segment = true) (hup : ¬Path.isUp segment = true) :
    walk t .looking links here (segment :: rest) =
      match t.node? (here ++ [segment]) with
      | none => if rest.isEmpty then .ok (here ++ [segment]) else .error .notFound
      | some (.link target) =>
        match links with
        | 0 => .error .tooManyLinks
        | links + 1 =>
          walk t .looking links (origin here target) (Path.segments target ++ rest)
      | some _ => walk t .looking links (here ++ [segment]) rest := by
  rw [walk, if_neg (by simp [hhere]), if_neg hidle, if_neg hup]
  exact if_neg (by simp)

/-- The name of something other than a link leads there. -/
theorem walk_of_node? {segment : Octets} {node : FileNode}
    (hnode : t.node? (here ++ [segment]) = some node) (hlink : ∀ target, node ≠ .link target) :
    walk t .looking links here (segment :: rest) =
      walk t .looking links (here ++ [segment]) rest := by
  obtain ⟨hhere, hidle, hup, -⟩ := t.closed here segment (by rw [← FileTree.node?, hnode]; rfl)
  rw [walk_name hhere hidle hup, hnode]
  cases node with
  | link target => exact absurd rfl (hlink target)
  | file | directory => rfl

/-- The name of a link leads where its target does, with one link less. -/
theorem walk_of_link {segment target : Octets}
    (hlink : t.node? (here ++ [segment]) = some (.link target)) :
    walk t .looking (links + 1) here (segment :: rest) =
      walk t .looking links (origin here target) (Path.segments target ++ rest) := by
  obtain ⟨hhere, hidle, hup, -⟩ := t.closed here segment (by rw [← FileTree.node?, hlink]; rfl)
  rw [walk_name hhere hidle hup, hlink]

/-- **A path that leads to a directory can be continued there**, with the links that are left.

**Proof sketch.** Along the recursion of `walk`. A last name that is not there yet leads to no
directory, so the step that follows a path past its end is never taken. -/
theorem walk_append (hwalk : walk t .looking links here segments = .ok there)
    (hthere : t.node? there = some .directory) (rest : List Octets) :
    ∃ left, walk t .looking links here (segments ++ rest) = walk t .looking left there rest := by
  fun_induction walk t .looking links here segments with
  | case1 links here =>
    cases hwalk
    exact ⟨links, rfl⟩
  | case3 links here segment segments hhere hidle ih =>
    rw [List.cons_append, walk_idle (not_not.1 hhere) hidle]
    exact ih hwalk
  | case4 links here segment segments hhere hidle hup ih =>
    rw [List.cons_append, walk_up (not_not.1 hhere) hidle hup]
    exact ih hwalk
  | case6 links here segment segments _ _ _ _ hnone =>
    cases hwalk
    rw [hnone] at hthere
    cases hthere
  | case9 here segment segments hhere hidle hup _ target hlink links ih =>
    rw [List.cons_append, walk_name (not_not.1 hhere) hidle hup, hlink]
    simpa only [List.append_assoc] using ih hwalk
  | case10 links here segment segments hhere hidle hup _ node hnode hsome ih =>
    rw [List.cons_append, walk_name (not_not.1 hhere) hidle hup, hsome]
    cases node with
    | link target => exact (hnode target rfl).elim
    | file => exact ih hwalk
    | directory => exact ih hwalk
  | case2 | case5 | case7 | case8 => cases hwalk

/-- A path leads to the same place without an idle segment in it. -/
theorem walk_of_walk_idle {idle : Octets} (hidle : Path.isIdle idle = true)
    (hwalk : walk t .looking links here (segments ++ idle :: rest) = .ok there) :
    walk t .looking links here (segments ++ rest) = .ok there := by
  induction links, here, segments using walk.induct t .looking with
  | case1 links here =>
    by_cases hhere : t.node? here = some .directory
    · rwa [List.nil_append, walk_idle hhere hidle] at hwalk
    · rw [List.nil_append, walk_of_ne_directory hhere] at hwalk
      cases hwalk
  | case2 links here segment segments hhere =>
    rw [List.cons_append, walk_of_ne_directory hhere] at hwalk
    cases hwalk
  | case3 links here segment segments hhere hsegment ih =>
    rw [List.cons_append, walk_idle (not_not.1 hhere) hsegment] at hwalk ⊢
    exact ih hwalk
  | case4 links here segment segments hhere hsegment hup ih =>
    rw [List.cons_append, walk_up (not_not.1 hhere) hsegment hup] at hwalk ⊢
    exact ih hwalk
  | case5 links here segment segments _ _ _ hwriting => cases hwriting.1
  | case6 links here segment segments hhere hsegment hup _ hnone
  | case7 links here segment segments hhere hsegment hup _ hnone =>
    -- Something follows the name, at least the idle segment, so it has to be there.
    rw [List.cons_append, walk_name (not_not.1 hhere) hsegment hup, hnone] at hwalk
    simp at hwalk
  | case8 here segment segments hhere hsegment hup _ target hlink =>
    rw [List.cons_append, walk_name (not_not.1 hhere) hsegment hup, hlink] at hwalk
    cases hwalk
  | case9 here segment segments hhere hsegment hup _ target hlink links ih =>
    rw [List.cons_append, walk_name (not_not.1 hhere) hsegment hup, hlink] at hwalk ⊢
    simp only [← List.append_assoc] at hwalk ⊢
    exact ih hwalk
  | case10 links here segment segments hhere hsegment hup _ node hnode hsome ih =>
    rw [List.cons_append, walk_name (not_not.1 hhere) hsegment hup, hsome] at hwalk ⊢
    cases node with
    | link target => exact (hnode target rfl).elim
    | file => exact ih hwalk
    | directory => exact ih hwalk

/-- A path with a slash at its end leads to a directory. -/
theorem node?_of_walk_idle {idle : Octets} (hidle : Path.isIdle idle = true)
    (hwalk : walk t .looking links here (segments ++ [idle]) = .ok there) :
    t.node? there = some .directory := by
  induction links, here, segments using walk.induct t .looking with
  | case1 links here =>
    by_cases hhere : t.node? here = some .directory
    · rw [List.nil_append, walk_idle hhere hidle, walk] at hwalk
      cases hwalk
      exact hhere
    · rw [List.nil_append, walk_of_ne_directory hhere] at hwalk
      cases hwalk
  | case2 links here segment segments hhere =>
    rw [List.cons_append, walk_of_ne_directory hhere] at hwalk
    cases hwalk
  | case3 links here segment segments hhere hsegment ih =>
    rw [List.cons_append, walk_idle (not_not.1 hhere) hsegment] at hwalk
    exact ih hwalk
  | case4 links here segment segments hhere hsegment hup ih =>
    rw [List.cons_append, walk_up (not_not.1 hhere) hsegment hup] at hwalk
    exact ih hwalk
  | case5 links here segment segments _ _ _ hwriting => cases hwriting.1
  | case6 links here segment segments hhere hsegment hup _ hnone
  | case7 links here segment segments hhere hsegment hup _ hnone =>
    rw [List.cons_append, walk_name (not_not.1 hhere) hsegment hup, hnone] at hwalk
    simp at hwalk
  | case8 here segment segments hhere hsegment hup _ target hlink =>
    rw [List.cons_append, walk_name (not_not.1 hhere) hsegment hup, hlink] at hwalk
    cases hwalk
  | case9 here segment segments hhere hsegment hup _ target hlink links ih =>
    rw [List.cons_append, walk_name (not_not.1 hhere) hsegment hup, hlink] at hwalk
    simp only [← List.append_assoc] at hwalk
    exact ih hwalk
  | case10 links here segment segments hhere hsegment hup _ node hnode hsome ih =>
    rw [List.cons_append, walk_name (not_not.1 hhere) hsegment hup, hsome] at hwalk
    cases node with
    | link target => exact (hnode target rfl).elim
    | file => exact ih hwalk
    | directory => exact ih hwalk

/-- Names that lead from a directory to something other than a link are followed there. -/
theorem walk_names {names : List Octets} {node : FileNode}
    (hnode : t.node? (here ++ names) = some node) (hlink : ∀ target, node ≠ .link target) :
    walk t .looking links here names = .ok (here ++ names) := by
  induction names generalizing here with
  | nil => rw [walk, List.append_nil]
  | cons name names ih =>
    obtain ⟨hhere, hnames⟩ :=
      FileTree.node?_of_append (List.cons_ne_nil name names) (by rw [hnode]; rfl)
    obtain ⟨hidle, hup, -, -⟩ := hnames name List.mem_cons_self
    have happend : here ++ name :: names = (here ++ [name]) ++ names := by simp
    rw [happend] at hnode ⊢
    have hnext : t.node? (here ++ [name]) = some .directory ∨
        t.node? (here ++ [name]) = some node := by
      by_cases hlast : names = []
      · exact .inr (by simpa [hlast] using hnode)
      · exact .inl (FileTree.node?_of_append hlast (by rw [hnode]; rfl)).1
    rw [walk_name hhere hidle hup]
    rcases hnext with hnext | hnext <;> rw [hnext]
    · exact ih hnode
    · cases node with
      | link target => exact absurd rfl (hlink target)
      | file => exact ih hnode
      | directory => exact ih hnode

/-! ### Joined paths -/

/-- A path leads to a place exactly if it can be handed to the system, is not empty, and the walk
along its names ends there. -/
theorem resolve_eq_ok_iff {purpose : Purpose} {path : Octets} {location : Location} :
    resolve t purpose path = .ok location ↔
      0 ∉ path.toList ∧ path.toList ≠ [] ∧
        walk t purpose maxLinks (origin t.working path) (Path.segments path) = .ok location := by
  rw [resolve]
  split
  · rename_i hnul
    simp_all
  · split <;> simp_all

/-- A path names a directory exactly if it leads to a place where there is one. -/
theorem directory_eq_ok_iff {path : Octets} {location : Location} :
    directory t path = .ok location ↔
      resolve t .looking path = .ok location ∧ t.node? location = some .directory := by
  rw [directory]
  cases resolve t .looking path with
  | error => simp [bind, Except.bind]
  | ok there =>
    constructor
    · intro h
      simp only [bind, Except.bind] at h
      split at h
      · rename_i hthere
        cases h
        exact ⟨rfl, hthere⟩
      · cases h
      · cases h
    · rintro ⟨h, hthere⟩
      cases h
      simp only [bind, Except.bind, hthere]

/-- A path leads to a directory exactly if there is a location of that directory. -/
theorem isDirectory_iff {path : Octets} :
    isDirectory t path = true ↔ ∃ location, directory t path = .ok location := by
  simp only [directory_eq_ok_iff, isDirectory, node]
  cases resolve t .looking path with
  | error fault => simp [bind, Except.bind]
  | ok location =>
    simp only [bind, Except.bind, Except.ok.injEq, exists_eq_left']
    cases t.node? location with
    | none => simp
    | some node => cases node <;> simp

/-- A path leads to the content that is read there. -/
theorem read_eq_ok_iff {path : Octets} {content : List UInt8} :
    read t path = .ok content ↔ ∃ location, resolve t .looking path = .ok location ∧
      t.node? location = some (.file content) := by
  rw [read, node]
  cases resolve t .looking path with
  | error => simp [bind, Except.bind]
  | ok location =>
    simp only [bind, Except.bind, Except.ok.injEq, exists_eq_left']
    cases t.node? location with
    | none => simp
    | some node => cases node <;> simp

/-- A name leads to a place in the working directory, unless a link has it there. -/
theorem resolve_of_proper {purpose : Purpose} {name : Octets} (hname : ProperName name)
    (hworking : t.node? t.working = some .directory)
    (hlink : ∀ target, t.node? (t.working ++ [name]) ≠ some (.link target)) :
    resolve t purpose name = .ok (t.working ++ [name]) := by
  have hself : Path.ofSegments [name] = name := Path.ofSegments_singleton name
  have hproper : ∀ other ∈ [name], ProperName other := by simpa using hname
  have hsegments := Path.segments_of_proper (List.cons_ne_nil name []) hproper
  have habsolute := Path.isAbsolute_of_proper (List.cons_ne_nil name []) hproper
  rw [hself] at hsegments habsolute
  have hwalk : walk t purpose maxLinks t.working [name] = .ok (t.working ++ [name]) := by
    rw [walk, if_neg (by simp [hworking]), if_neg hname.1, if_neg hname.2.1,
      if_neg (by simp [isSlashes])]
    cases hnode : t.node? (t.working ++ [name]) with
    | none => rfl
    | some node =>
      cases node with
      | file | directory => exact walk.eq_1 ..
      | link target => exact absurd hnode (hlink target)
  refine resolve_eq_ok_iff.2 ⟨hname.2.2.2, Path.toList_ne_nil_of_proper hname, ?_⟩
  rw [origin, habsolute, hsegments]
  exact hwalk

/-- A name leads to the directory that it has in the working directory. -/
theorem directory_of_proper {name : Octets} (hname : ProperName name)
    (hworking : t.node? t.working = some .directory)
    (hnode : t.node? (t.working ++ [name]) = some .directory) :
    directory t name = .ok (t.working ++ [name]) := by
  refine directory_eq_ok_iff.2 ⟨resolve_of_proper hname hworking fun target hlink => ?_, hnode⟩
  cases hnode.symm.trans hlink

/-- **A path to a directory, joined with names that lead to something below it, leads there**,
unless it is a link.

**Proof sketch.** The joined path has the segments of the first one, up to a slash at its end,
followed by the names. The first part leads to the directory and the names from there on. -/
theorem resolve_join_of_ne_link {root : Octets} {location : Location} {names : List Octets}
    {node : FileNode} (hroot : directory t root = .ok location) (hnames : names ≠ [])
    (hnode : t.node? (location ++ names) = some node) (hlink : ∀ target, node ≠ .link target) :
    resolve t .looking (Path.join root (Path.ofSegments names)) = .ok (location ++ names) := by
  obtain ⟨hresolve, hlocation⟩ := directory_eq_ok_iff.1 hroot
  obtain ⟨hnul, hne, hwalk⟩ := resolve_eq_ok_iff.1 hresolve
  have hproper := (FileTree.node?_of_append hnames (by rw [hnode]; rfl)).2
  have hmarks : marks root ≠ [] := hne
  obtain ⟨before, hbefore, hjoin⟩ := Path.exists_join_eq hmarks
  rw [hjoin _ (Path.isAbsolute_of_proper hnames hproper)]
  have horigin : origin t.working (ofMarks (before ++ slash :: marks (Path.ofSegments names))) =
      origin t.working root := by
    rw [origin, origin, ← ofMarks_marks root]
    rcases hbefore with h | h
    · rw [h, Path.isAbsolute_ofMarks_append (h ▸ hmarks)]
    · rw [h, ← List.singleton_append, ← List.append_assoc,
        Path.isAbsolute_ofMarks_append (by simp)]
  have hnulJoin : 0 ∉ before ++ slash :: marks (Path.ofSegments names) := by
    simp only [List.mem_append, List.mem_cons, not_or]
    refine ⟨fun hmem => hnul ?_, by decide, Path.nul_not_mem_of_proper hproper⟩
    show 0 ∈ marks root
    rcases hbefore with h | h <;> rw [h]
    · exact hmem
    · exact List.mem_append_left _ hmem
  refine resolve_eq_ok_iff.2 ⟨hnulJoin, by simp [ofMarks], ?_⟩
  rw [horigin, Path.segments_ofMarks_append, ofMarks_marks,
    Path.segments_of_proper hnames hproper]
  rw [← ofMarks_marks root] at hwalk
  rcases hbefore with h | h <;> rw [h] at hwalk
  · obtain ⟨left, hleft⟩ := walk_append hwalk hlocation names
    rw [← ofMarks_marks root, h, hleft, walk_names hnode hlink]
  · rw [Path.segments_ofMarks_concat] at hwalk
    obtain ⟨left, hleft⟩ := walk_append hwalk hlocation names
    rw [List.append_assoc, List.singleton_append, walk_names hnode hlink] at hleft
    rw [← ofMarks_marks root, h]
    exact walk_of_walk_idle (by decide) hleft

/-- **A path to a directory, joined with the path of a file below it, leads to that file.** -/
theorem resolve_join {root : Octets} {location : Location} {names : List Octets}
    {content : List UInt8} (hroot : directory t root = .ok location)
    (hfile : t.node? (location ++ names) = some (.file content)) :
    resolve t .looking (Path.join root (Path.ofSegments names)) = .ok (location ++ names) := by
  have hnames := (FileTree.proper_of_node? (directory_eq_ok_iff.1 hroot).2 hfile).1
  exact resolve_join_of_ne_link hroot hnames hfile nofun

/-- A path to a directory, joined with the name of a directory in it, leads to that directory. -/
theorem directory_join {root name : Octets} {location : Location}
    (hroot : directory t root = .ok location)
    (hnode : t.node? (location ++ [name]) = some .directory) :
    directory t (Path.join root name) = .ok (location ++ [name]) := by
  have hresolve := resolve_join_of_ne_link hroot (List.cons_ne_nil name []) hnode nofun
  rw [Path.ofSegments_singleton] at hresolve
  exact directory_eq_ok_iff.2 ⟨hresolve, hnode⟩

/-- **A text that is joined to the path of a directory leads to the file whose path it spells.** -/
theorem resolve_join_text {root text : String} {location : Location} {names : List Octets}
    {content : List UInt8} (hroot : directory t root = .ok location)
    (hfile : t.node? (location ++ names) = some (.file content))
    (htext : Octets.ofText text = Path.ofSegments names) :
    resolve t .looking (Path.join root text : String) = .ok (location ++ names) := by
  rw [Path.ofText_join, htext]
  exact resolve_join hroot hfile

/-- The file whose path a text spells is read. -/
theorem read_join_text {root text : String} {location : Location} {names : List Octets}
    {content : List UInt8} (hroot : directory t root = .ok location)
    (hfile : t.node? (location ++ names) = some (.file content))
    (htext : Octets.ofText text = Path.ofSegments names) :
    read t (Path.join root text : String) = .ok content :=
  read_eq_ok_iff.2 ⟨_, resolve_join_text hroot hfile htext, hfile⟩

end Files

end Accession

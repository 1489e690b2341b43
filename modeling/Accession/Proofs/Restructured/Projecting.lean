import Accession.Proofs.Files.Walking
import Accession.Proofs.Lists
import Accession.Proofs.Text.Utf8
import Accession.Restructured.Sidecar
set_option autoImplicit false

/-!
# Where identifiers go

A file of the payload keeps a place of its own, and a file whose name is that of metadata goes where
all files of that name go. So two files share a place exactly if they share such a name, and of the
records of a manifest only those of metadata can be about one file. No record is lost on the way:
the records are those of the files that are kept, sorted by their places, and records about one
place stay in the order of the manifest.

## Main definitions

* `Restructured.IsMetadataName` — the names of files that go with the metadata.
* `Restructured.Rule.Applies` — when a rule decides about a path.
* `Restructured.Carries` — what the record of a declared file says.
* `Restructured.ComesBefore` — the order of the records of a manifest.

## Main results

* `Restructured.rule?_eq_some_iff`, `Restructured.rule?_eq_none_iff` — which rule decides.
* `Restructured.eq_of_payload` — nothing else goes where a file of the payload goes.
* `Restructured.file_eq_iff` — when two files go to one place.
* `Restructured.file_eq_iff_and_pairwise_ofOneName` — all about shared places.
* `Restructured.exists_moves_project` — all about the records of a manifest.
-/

namespace Accession.Restructured

/-! ### Segments -/

/-- The last name of a path is that behind any of its separators. -/
theorem baseName_append_slash (before after : String) :
    baseName (before ++ "/" ++ after) = baseName after := by
  have hne : Path.segments after ≠ [] := by
    rw [Path.segments, ne_eq, List.map_eq_nil_iff]
    exact List.splitOn_ne_nil _ _
  rw [baseName, baseName, Path.segments_append_slash, List.getLastD_eq_getLast?,
    List.getLast?_append_of_ne_nil _ hne, ← List.getLastD_eq_getLast?]

/-- The first name of a path is that in front of any of its separators. -/
theorem firstName_append_slash (before after : String) :
    firstName (before ++ "/" ++ after) = firstName before := by
  have hne : Path.segments before ≠ [] := by
    rw [Path.segments, ne_eq, List.map_eq_nil_iff]
    exact List.splitOn_ne_nil _ _
  obtain ⟨first, rest, hcons⟩ := List.exists_cons_of_ne_nil hne
  rw [firstName, firstName, Path.segments_append_slash, hcons]
  rfl

variable {kind : Package.Kind} {name path path' : String}

/-- Starting from the package changes no last name. -/
theorem baseName_rooted (kind : Package.Kind) (path : String) :
    baseName (rooted kind path) = baseName path := by
  rw [rooted]
  split
  · exact baseName_append_slash _ _
  · rfl

/-- Different paths stay different below the root of the kind. -/
theorem rooted_inj : rooted kind path = rooted kind path' ↔ path = path' := by
  constructor
  · intro heq
    simp only [rooted] at heq
    split at heq
    · exact (String.append_right_inj _).1 heq
    · exact heq
  · rintro rfl
    rfl

/-- A path of the manifest is one of the payload if the manifest is about the payload alone, or if
the path says so. -/
theorem firstName_rooted_eq_iff (kind : Package.Kind) (path : String) :
    firstName (rooted kind path) = Package.contentDirectory ↔
      kind = .digitizedAip ∨ firstName path = Package.contentDirectory := by
  cases kind with
  | digitizedAip =>
    have hfirst : firstName (rooted .digitizedAip path) = Package.contentDirectory :=
      (firstName_append_slash Package.contentDirectory path).trans (by decide)
    simp [hfirst]
  | bornDigitalSip | digitizedSip | bornDigitalAip => simp [rooted, Package.Kind.scanRoot]

/-! ### Names of metadata -/

/-- The names of files that go with the metadata. -/
def IsMetadataName (base : String) : Prop :=
  base = "metadata.xml" ∨ base = "UpdatedAreldaMetadata.xml" ∨ ∃ stem, base = stem ++ "_PREMIS.xml"

/-- Names of provenance files are the updated metadata of an AIP, and what ends as PREMIS files do.
-/
theorem isProvenance_iff (base : String) :
    isProvenance base = true ↔
      base = "UpdatedAreldaMetadata.xml" ∨ ∃ stem, base = stem ++ "_PREMIS.xml" := by
  have hsuffix : Package.provenanceSuffix.toList <:+ base.toList ↔
      ∃ stem, base = stem ++ "_PREMIS.xml" := by
    constructor
    · rintro ⟨stem, hstem⟩
      exact ⟨String.ofList stem, String.toList_injective (by
        rw [← hstem, String.toList_append, String.toList_ofList]
        rfl)⟩
    · rintro ⟨stem, rfl⟩
      exact ⟨stem.toList, (String.toList_append ..).symm⟩
  rw [isProvenance, Bool.or_eq_true, List.isSuffixOf_iff_suffix, hsuffix, decide_eq_true_eq,
    or_comm]

/-- Files that go with the metadata are those of provenance and the metadata itself. -/
theorem isMetadataName_iff (base : String) :
    IsMetadataName base ↔ isProvenance base = true ∨ base = "metadata.xml" := by
  rw [IsMetadataName, isProvenance_iff, or_comm]

instance : DecidablePred IsMetadataName := fun base =>
  decidable_of_iff _ (isMetadataName_iff base).symm

/-! ### Rules -/

/-- When a rule decides about a path that starts from the package. -/
def Rule.Applies (path : String) : Rule → Prop
  | .provenance => isProvenance (baseName path) = true
  | .metadata => baseName path = "metadata.xml"
  | .payload => ¬IsMetadataName (baseName path) ∧ firstName path = Package.contentDirectory

variable {rule rule' : Rule}

/-- The rule for a path is the one that applies. -/
theorem rule?_eq_some_iff : rule? path = some rule ↔ rule.Applies path := by
  have hmetadata : isProvenance "metadata.xml" = false := by decide
  simp only [rule?]
  split_ifs with hprovenance hbase hfirst
  · cases rule with
    | provenance => simp [Rule.Applies, hprovenance]
    | metadata =>
      have hne : baseName path ≠ "metadata.xml" := by
        intro heq
        rw [heq, hmetadata] at hprovenance
        cases hprovenance
      simp [Rule.Applies, hne]
    | payload => simp [Rule.Applies, isMetadataName_iff, hprovenance]
  · cases rule <;> simp [Rule.Applies, isMetadataName_iff, hbase, hmetadata]
  · cases rule <;> simp [Rule.Applies, isMetadataName_iff, hprovenance, hbase, hfirst]
  · cases rule <;> simp [Rule.Applies, hprovenance, hbase, hfirst]

/-- No rule knows a file that has no name of metadata and is not in the payload. -/
theorem rule?_eq_none_iff : rule? path = none ↔
    ¬IsMetadataName (baseName path) ∧ firstName path ≠ Package.contentDirectory := by
  simp only [rule?, isMetadataName_iff]
  split_ifs with hprovenance hbase hfirst <;> simp [*]

/-- Files with one name of metadata have one rule. -/
theorem rule?_eq_of_isMetadataName (hbase : baseName path = baseName path')
    (h : IsMetadataName (baseName path)) : rule? path = rule? path' := by
  rw [isMetadataName_iff] at h
  simp only [rule?, ← hbase]
  rcases h with h | h
  · rw [if_pos h, if_pos h]
  · split <;> rfl

/-! ### Places -/

/-- What goes with the provenance goes elsewhere than all else. -/
theorem metadata_append_ne (base after : String) : "metadata/" ++ base ≠ "objects/" ++ after := by
  intro heq
  have hhead := congrArg (·.toList.head?) heq
  simp at hhead

/-- The payload has no header. -/
theorem ne_header_of_firstName (h : firstName path = Package.contentDirectory) :
    "/" ++ path ≠ "/header/metadata.xml" := by
  intro heq
  rw [show "/header/metadata.xml" = "/" ++ "header/metadata.xml" from rfl,
    String.append_right_inj] at heq
  rw [heq] at h
  revert h
  decide

/-- Where a file goes shows the rule that took it there. -/
theorem rule_eq_of_target_eq (h : rule.Applies path) (h' : rule'.Applies path')
    (heq : rule.target name path = rule'.target name path') : rule = rule' := by
  cases rule <;> cases rule' <;> simp only [Rule.target, String.append_assoc] at heq
  case provenance.provenance => rfl
  case provenance.metadata => exact absurd heq (metadata_append_ne _ _)
  case provenance.payload => exact absurd heq (metadata_append_ne _ _)
  case metadata.provenance => exact absurd heq.symm (metadata_append_ne _ _)
  case metadata.metadata => rfl
  case metadata.payload =>
    rw [String.append_right_inj, String.append_right_inj] at heq
    exact absurd heq.symm (ne_header_of_firstName h'.2)
  case payload.provenance => exact absurd heq.symm (metadata_append_ne _ _)
  case payload.metadata =>
    rw [String.append_right_inj, String.append_right_inj] at heq
    exact absurd heq (ne_header_of_firstName h.2)
  case payload.payload => rfl

/-- One rule takes two paths to one place exactly if they are one path of the payload, or have one
name of metadata. -/
theorem target_eq_iff (h : rule.Applies path) (h' : rule.Applies path') :
    rule.target name path = rule.target name path' ↔
      path = path' ∨ baseName path = baseName path' ∧ IsMetadataName (baseName path) := by
  cases rule with
  | provenance =>
    have hname : IsMetadataName (baseName path) := (isMetadataName_iff _).2 (.inl h)
    rw [Rule.target, Rule.target, String.append_right_inj]
    constructor
    · exact fun heq => .inr ⟨heq, hname⟩
    · rintro (rfl | ⟨heq, -⟩)
      · rfl
      · exact heq
  | metadata =>
    exact iff_of_true rfl (.inr ⟨h.trans h'.symm, .inl h⟩)
  | payload =>
    rw [Rule.target, Rule.target, String.append_right_inj]
    exact ⟨.inl, fun heq => heq.resolve_right fun hname => h.1 hname.2⟩

variable {file file' : String}

/-- A path is taken to a place by the rule that applies. -/
theorem projectPath_eq_some_iff : projectPath path kind name = some file ↔
    ∃ rule : Rule, rule.Applies (rooted kind path) ∧
      rule.target name (rooted kind path) = file := by
  simp only [projectPath, Option.map_eq_some_iff, rule?_eq_some_iff]

/-- A declared file is left out if it has no name of metadata and is not in the payload; a manifest
that is about the payload alone declares no such file. -/
theorem projectPath_eq_none_iff (kind : Package.Kind) (name path : String) :
    projectPath path kind name = none ↔ kind ≠ .digitizedAip ∧
      firstName path ≠ Package.contentDirectory ∧ ¬IsMetadataName (baseName path) := by
  simp only [projectPath, Option.map_eq_none_iff, rule?_eq_none_iff, baseName_rooted, ne_eq,
    firstName_rooted_eq_iff, not_or]
  tauto

/-- **Two files go to one place exactly if they have one name of metadata.** -/
theorem file_eq_iff (hne : path ≠ path') (h : projectPath path kind name = some file)
    (h' : projectPath path' kind name = some file') :
    file = file' ↔ baseName (rooted kind path) = baseName (rooted kind path') ∧
      IsMetadataName (baseName (rooted kind path)) := by
  obtain ⟨rule, happlies, rfl⟩ := projectPath_eq_some_iff.1 h
  obtain ⟨rule', happlies', rfl⟩ := projectPath_eq_some_iff.1 h'
  constructor
  · intro heq
    obtain rfl := rule_eq_of_target_eq happlies happlies' heq
    exact ((target_eq_iff happlies happlies').1 heq).resolve_left fun hsame =>
      hne (rooted_inj.1 hsame)
  · rintro ⟨hbase, hname⟩
    have hrule := rule?_eq_of_isMetadataName hbase hname
    rw [rule?_eq_some_iff.2 happlies, rule?_eq_some_iff.2 happlies'] at hrule
    obtain rfl := Option.some.inj hrule
    exact (target_eq_iff happlies happlies').2 (.inr ⟨hbase, hname⟩)

/-- **Nothing else goes where a file of the payload goes.** -/
theorem eq_of_payload (h : rule? (rooted kind path) = some .payload)
    (heq : projectPath path' kind name = projectPath path kind name) : path' = path := by
  have happlies := rule?_eq_some_iff.1 h
  have hfile : projectPath path kind name = some (Rule.payload.target name (rooted kind path)) :=
    projectPath_eq_some_iff.2 ⟨.payload, happlies, rfl⟩
  by_contra hne
  have hshared := (file_eq_iff (Ne.symm hne) hfile (heq.trans hfile)).1 rfl
  exact happlies.1 hshared.2

/-! ### Records -/

/-- What the record of a declared file says: where the file goes, and its identifier. -/
def Carries (kind : Package.Kind) (name : String) (entry : String × Declaration)
    (record : Record) : Prop :=
  projectPath entry.1 kind name = some record.file ∧ record.identifiers = [⟨entry.2.id, "local"⟩]

/-- Records stand in the order of the octets of their files, and records of one file in the order
of the octets of the paths that the manifest declares. -/
def ComesBefore (first second : (String × Declaration) × Record) : Prop :=
  Utf8.encode first.2.file.toList < Utf8.encode second.2.file.toList ∨
    first.2.file = second.2.file ∧
      Utf8.encode first.1.1.toList < Utf8.encode second.1.1.toList

/-- A declared file has a record exactly if it goes somewhere, and this record says where. -/
theorem record?_eq_some_iff {entry : String × Declaration} {record : Record} :
    record? kind name entry = some record ↔ Carries kind name entry record := by
  rw [record?, Option.map_eq_some_iff, Carries]
  constructor
  · rintro ⟨file, hfile, rfl⟩
    exact ⟨hfile, rfl⟩
  · rintro ⟨hfile, hidentifiers⟩
    exact ⟨record.file, hfile, by rw [localType, ← hidentifiers]⟩

/-- A declared file together with its record, if it is kept. -/
def move? (kind : Package.Kind) (name : String) (entry : String × Declaration) :
    Option ((String × Declaration) × Record) :=
  (record? kind name entry).map (entry, ·)

/-- A declared file is kept with its record exactly if it has one. -/
theorem move?_eq_some_iff {entry : String × Declaration}
    {move : (String × Declaration) × Record} :
    move? kind name entry = some move ↔ entry = move.1 ∧ Carries kind name move.1 move.2 := by
  obtain ⟨entry', record⟩ := move
  simp only [move?, Option.map_eq_some_iff, Prod.mk.injEq, record?_eq_some_iff]
  constructor
  · rintro ⟨_, hcarries, rfl, rfl⟩
    exact ⟨rfl, hcarries⟩
  · rintro ⟨rfl, hcarries⟩
    exact ⟨record, hcarries, rfl, rfl⟩

/-- The declared files that are kept, in the order of the manifest, are those that have a record. -/
theorem map_fst_filterMap_move? (entries : List (String × Declaration)) :
    (entries.filterMap (move? kind name)).map (·.1) =
      entries.filter fun entry => (projectPath entry.1 kind name).isSome := by
  induction entries with
  | nil => rfl
  | cons entry entries ih =>
    rw [List.filterMap_cons, List.filter_cons, move?, record?]
    cases hfile : projectPath entry.1 kind name with
    | none => simpa using ih
    | some file => simpa using ih

/-- The declared files that are kept, with their records, in the order of the records. -/
def moves (manifest : Manifest) (kind : Package.Kind) (name : String) :
    List ((String × Declaration) × Record) :=
  (manifest.entries.filterMap (move? kind name)).mergeSort fun a b => a.2.file ≤ b.2.file

section Moves

variable {manifest : Manifest}

/-- A manifest that declares something has the records of the files that are kept. -/
theorem project_eq_ok (h : manifest.isEmpty = false) (kind : Package.Kind) (name : String) :
    project manifest kind name = .ok ((moves manifest kind name).map (·.2)) := by
  have hrecords : (manifest.entries.filterMap (move? kind name)).map (·.2) =
      manifest.entries.filterMap (record? kind name) := by
    rw [List.map_filterMap]
    refine List.filterMap_congr fun entry _ => ?_
    rw [move?, Option.map_map]
    exact Option.map_id'
  rw [project, if_neg (by simp [h]), moves, ← hrecords]
  refine congrArg Except.ok (Eq.symm (List.map_mergeSort ?_))
  exact fun _ _ _ _ => rfl

/-- The files that are kept are the declared ones that have a record. -/
theorem mem_moves_iff {move : (String × Declaration) × Record} :
    move ∈ moves manifest kind name ↔
      move.1 ∈ manifest.entries ∧ Carries kind name move.1 move.2 := by
  rw [moves, (List.mergeSort_perm _ _).mem_iff, List.mem_filterMap]
  simp only [move?_eq_some_iff]
  constructor
  · rintro ⟨entry, hentry, rfl, hcarries⟩
    exact ⟨hentry, hcarries⟩
  · rintro ⟨hentry, hcarries⟩
    exact ⟨move.1, hentry, rfl, hcarries⟩

/-- Each declared file that goes somewhere is kept once. -/
theorem perm_map_fst_moves : ((moves manifest kind name).map (·.1)).Perm
    (manifest.entries.filter fun entry => (projectPath entry.1 kind name).isSome) := by
  rw [← map_fst_filterMap_move?]
  exact (List.mergeSort_perm _ _).map _

/-- The records are in order, and those of one file in the order of the declared paths. -/
theorem pairwise_moves : (moves manifest kind name).Pairwise ComesBefore := by
  have hsorted : (manifest.entries.filterMap (move? kind name)).Pairwise
      fun first second => first.1.1 < second.1.1 := by
    refine manifest.sorted.filterMap _ fun first second hlt move hmove move' hmove' => ?_
    rw [move?_eq_some_iff] at hmove hmove'
    rwa [← hmove.1, ← hmove'.1]
  refine (List.pairwise_mergeSort_key _ hsorted).imp fun hbefore => ?_
  rw [ComesBefore, Utf8.encode_lt_encode_iff, Utf8.encode_lt_encode_iff]
  exact hbefore

end Moves

/-! ### Shared places -/

/-- Two records are those of two declared files with one name of metadata. -/
def OfOneName (manifest : Manifest) (kind : Package.Kind) (name : String)
    (first second : Record) : Prop :=
  ∃ entry ∈ manifest.entries, ∃ other ∈ manifest.entries, entry.1 ≠ other.1 ∧
    Carries kind name entry first ∧ Carries kind name other second ∧
    baseName (rooted kind entry.1) = baseName (rooted kind other.1) ∧
    IsMetadataName (baseName (rooted kind entry.1))

/-- Records of one file are those of files with one name of metadata. -/
theorem pairwise_ofOneName_moves {manifest : Manifest} :
    (moves manifest kind name).Pairwise fun first second =>
      first.2.file = second.2.file → OfOneName manifest kind name first.2 second.2 := by
  refine pairwise_moves.imp_of_mem fun {first second} hfirst hsecond hbefore heq => ?_
  obtain ⟨hentry, hcarries⟩ := mem_moves_iff.1 hfirst
  obtain ⟨hother, hcarries'⟩ := mem_moves_iff.1 hsecond
  have hne : first.1.1 ≠ second.1.1 := by
    intro hsame
    rw [ComesBefore, heq, hsame] at hbefore
    exact hbefore.elim (List.lt_irrefl _) fun h => List.lt_irrefl _ h.2
  have hshared := (file_eq_iff hne hcarries.1 hcarries'.1).1 heq
  exact ⟨first.1, hentry, second.1, hother, hne, hcarries, hcarries', hshared⟩

/-- **Two declared files go to one place exactly if they have one name of metadata.** So a file of
the payload shares its place with no other file, and two records of a manifest are about one file
only if they are those of two declared files with one name of metadata.

**Proof sketch.** A file of the payload keeps its whole path, which begins with another segment
than the header does. Where any other file goes is told by its last name alone. -/
theorem file_eq_iff_and_pairwise_ofOneName (kind : Package.Kind) (name : String) :
    (∀ path path' file file', path ≠ path' → projectPath path kind name = some file →
      projectPath path' kind name = some file' →
      (file = file' ↔ baseName (rooted kind path) = baseName (rooted kind path') ∧
        IsMetadataName (baseName (rooted kind path)))) ∧
    (∀ path path', rule? (rooted kind path) = some .payload → path' ≠ path →
      projectPath path' kind name ≠ projectPath path kind name) ∧
    ∀ manifest records, project manifest kind name = .ok records →
      records.Pairwise fun first second =>
        first.file = second.file → OfOneName manifest kind name first second := by
  refine ⟨fun _ _ _ _ hne h h' => file_eq_iff hne h h',
    fun _ _ hrule hne heq => hne (eq_of_payload hrule heq), fun manifest records hproject => ?_⟩
  cases hempty : manifest.isEmpty with
  | true => simp [project, hempty] at hproject
  | false =>
    rw [project_eq_ok hempty kind name] at hproject
    rw [← Except.ok.inj hproject, List.pairwise_map]
    exact pairwise_ofOneName_moves

/-- A manifest of scans with a file of metadata in each of two directories. -/
def scans : Manifest :=
  .ofList [("d1/metadata.xml", ⟨"m1", "MD5", ""⟩), ("d2/metadata.xml", ⟨"m2", "MD5", ""⟩),
    ("d2/00000001.jp2", ⟨"s", "MD5", ""⟩)]

/-- The files of metadata go to one place, and the scan to another. -/
theorem file_eq_scans :
    ("d1/metadata.xml" ≠ "d2/metadata.xml" ∧
      projectPath "d1/metadata.xml" .digitizedAip "A" = some "objects/A/header/metadata.xml" ∧
      projectPath "d2/metadata.xml" .digitizedAip "A" = some "objects/A/header/metadata.xml" ∧
      baseName (rooted .digitizedAip "d1/metadata.xml") =
        baseName (rooted .digitizedAip "d2/metadata.xml") ∧
      IsMetadataName (baseName (rooted .digitizedAip "d1/metadata.xml"))) ∧
    (rule? (rooted .digitizedAip "d2/00000001.jp2") = some .payload ∧
      projectPath "d2/metadata.xml" .digitizedAip "A" ≠
        projectPath "d2/00000001.jp2" .digitizedAip "A") ∧
    ∃ records, project scans .digitizedAip "A" = .ok records ∧
      records.Pairwise fun first second =>
        first.file = second.file → OfOneName scans .digitizedAip "A" first second := by
  obtain ⟨hshared, hpayload, hrecords⟩ := file_eq_iff_and_pairwise_ofOneName .digitizedAip "A"
  have hne : "d1/metadata.xml" ≠ "d2/metadata.xml" := by decide
  have hfirst : projectPath "d1/metadata.xml" .digitizedAip "A" =
      some "objects/A/header/metadata.xml" := by decide
  have hsecond : projectPath "d2/metadata.xml" .digitizedAip "A" =
      some "objects/A/header/metadata.xml" := by decide
  have hrule : rule? (rooted .digitizedAip "d2/00000001.jp2") = some .payload := by decide
  have hempty : scans.isEmpty = false := by decide
  have hproject := project_eq_ok hempty .digitizedAip "A"
  exact ⟨⟨hne, hfirst, hsecond, (hshared _ _ _ _ hne hfirst hsecond).1 rfl⟩,
    ⟨hrule, hpayload _ _ hrule (by decide)⟩, _, hproject, hrecords _ _ hproject⟩

/-! ### Records in order -/

/-- **No identifier is lost, doubled or given to another file.** The records of a manifest that
declares something are those of the declared files that are kept, each with the one identifier of
its file. They stand in the order of the octets of their files, and records of one file in the order
of the octets of the declared paths. A manifest about the payload alone keeps every file; otherwise
a file is left out exactly if its path has another first segment than the payload, and its name is
none of the metadata.

**Proof sketch.** Each entry is kept with its record, and sorting by file permutes them. It is
stable, and the entries come in the order of their paths. -/
theorem exists_moves_project {manifest : Manifest} (h : manifest.isEmpty = false)
    (kind : Package.Kind) (name : String) :
    ∃ moves : List ((String × Declaration) × Record),
      project manifest kind name = .ok (moves.map (·.2)) ∧
      (moves.map (·.1)).Perm
        (manifest.entries.filter fun entry => (projectPath entry.1 kind name).isSome) ∧
      (∀ move ∈ moves, Carries kind name move.1 move.2) ∧
      moves.Pairwise ComesBefore ∧
      ∀ path, projectPath path kind name = none ↔
        kind ≠ .digitizedAip ∧ firstName path ≠ "content" ∧ ¬IsMetadataName (baseName path) :=
  ⟨moves manifest kind name, project_eq_ok h kind name, perm_map_fst_moves,
    fun _ hmove => (mem_moves_iff.1 hmove).2, pairwise_moves, projectPath_eq_none_iff kind name⟩

/-- All three scans are kept. -/
theorem exists_moves_scans :
    scans.isEmpty = false ∧ ∃ moves : List ((String × Declaration) × Record),
      project scans .digitizedAip "A" = .ok (moves.map (·.2)) ∧ moves.length = 3 ∧
      (∀ move ∈ moves, Carries .digitizedAip "A" move.1 move.2) ∧
      moves.Pairwise ComesBefore := by
  have hempty : scans.isEmpty = false := by decide
  obtain ⟨moves, hproject, hperm, hcarries, hbefore, -⟩ :=
    exists_moves_project hempty .digitizedAip "A"
  have hlength := hperm.length_eq
  rw [List.length_map] at hlength
  exact ⟨hempty, moves, hproject, hlength.trans (by decide), hcarries, hbefore⟩

end Accession.Restructured

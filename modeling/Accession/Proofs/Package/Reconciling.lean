import Accession.Package.Reconcile
import Accession.Proofs.Index
import Accession.Proofs.Text.Utf8
import Mathlib.Data.List.Forall2
set_option autoImplicit false

/-!
# Reconciling is exact

Whatever a manifest declares, whatever files there are and whatever checksums come out, a report
says of each path exactly what is the matter with it. The checksums of the paths that are both
declared and there are asked for in the order of the paths, once each, up to the first one that
cannot be had; nothing else is asked for, and then that failure is all there is.

## Main definitions

* `Package.recorded`, `Package.observe` — a comparison together with the requests it makes.
* `Package.Finding`, `Package.Finds` — what can be the matter with a path, and when it is.
* `Package.Exact` — a report that says what is the matter with each path.

## Main results

* `Package.run_mismatches_of_ok`, `Package.run_mismatches_of_error` — the requests, and what comes
  of them, with and without a failure.
* `Package.exact_exactReport` — the report is exact if every checksum can be had.
* `Package.reconcile_eq_ok_iff` — and only then there is a report.
* `Package.exists_common_observe` — the whole of a comparison, whatever its source answers.
-/

namespace Accession.Package

variable {ε : Type}

/-! ### Requests for checksums -/

/-- The paths and algorithms that were asked for, in order. -/
abbrev Requests :=
  List (String × String)

/-- A source of checksums that also records what it is asked for. -/
def recorded (source : String → String → Except ε String) (path algorithm : String) :
    ExceptT ε (StateM Requests) String := do
  modify (· ++ [(path, algorithm)])
  ExceptT.mk (pure (source path algorithm))

/-- What a comparison comes to, and what it asks its source for meanwhile. -/
def observe (manifest : Manifest) (files : FileSet) (source : String → String → Except ε String) :
    Except ε Report × Requests :=
  (reconcile manifest files (recorded source)).run.run []

/-- What is asked for an entry: its path, under the algorithm that is declared for it. -/
def request (entry : String × Declaration) : String × String :=
  (entry.1, entry.2.algorithm)

/-- A source has a checksum for an entry. -/
def Answers (source : String → String → Except ε String) (entry : String × Declaration) : Prop :=
  ∃ computed, source entry.1 entry.2.algorithm = .ok computed

/-- The line for an entry, if its checksum can be had and differs. -/
def lineFor? (source : String → String → Except ε String) (entry : String × Declaration) :
    Option String :=
  match source entry.1 entry.2.algorithm with
  | .ok computed =>
    if computed = entry.2.hash then none else some (mismatchLine entry.1 entry.2.hash computed)
  | .error _ => none

section Requests

variable {source : String → String → Except ε String}

/-- A request is recorded, whatever the answer. -/
theorem run_recorded (source : String → String → Except ε String) (path algorithm : String)
    (log : Requests) :
    (recorded source path algorithm).run.run log =
      (source path algorithm, log ++ [(path, algorithm)]) :=
  rfl

section Bind

variable {α β : Type} {x : ExceptT ε (StateM Requests) α} {log log' : Requests}
  (next : α → ExceptT ε (StateM Requests) β)

/-- A step that succeeds hands its result and the log on. -/
theorem run_bind_of_ok {a : α} (h : x.run.run log = (.ok a, log')) :
    (x >>= next).run.run log = (next a).run.run log' := by
  rw [ExceptT.run_bind, StateT.run_bind, h]
  rfl

/-- A step that fails is the last one. -/
theorem run_bind_of_error {error : ε} (h : x.run.run log = (.error error, log')) :
    (x >>= next).run.run log = (.error error, log') := by
  rw [ExceptT.run_bind, StateT.run_bind, h]
  rfl

end Bind

/-- **If every checksum can be had, each entry is asked for once**, in order, and the lines are
those of the entries. -/
theorem run_mismatches_of_ok {entries : List (String × Declaration)}
    (h : ∀ entry ∈ entries, Answers source entry) (log : Requests) :
    (mismatches (recorded source) entries).run.run log =
      (.ok (entries.filterMap (lineFor? source)), log ++ entries.map request) := by
  induction entries generalizing log with
  | nil =>
    rw [List.map_nil, List.append_nil]
    rfl
  | cons entry entries ih =>
    obtain ⟨path, declared⟩ := entry
    obtain ⟨computed, hcomputed⟩ := h (path, declared) List.mem_cons_self
    have hfirst := run_recorded source path declared.algorithm log
    rw [hcomputed] at hfirst
    have hrest := ih (fun entry hentry => h entry (List.mem_cons_of_mem _ hentry))
      (log ++ [(path, declared.algorithm)])
    rw [mismatches, run_bind_of_ok _ hfirst, run_bind_of_ok _ hrest]
    have hlog : log ++ [(path, declared.algorithm)] ++ entries.map request =
        log ++ ((path, declared) :: entries).map request := by
      simp [request]
    rw [hlog, List.filterMap_cons, lineFor?, hcomputed]
    by_cases heq : computed = declared.hash
    · simp only [if_pos heq]
      rfl
    · simp only [if_neg heq]
      rfl

/-- **The first checksum that cannot be had ends the comparison**: nothing behind it is asked
for. -/
theorem run_mismatches_of_error {before after : List (String × Declaration)} {path : String}
    {declared : Declaration} {error : ε} (h : ∀ entry ∈ before, Answers source entry)
    (herror : source path declared.algorithm = .error error) (log : Requests) :
    (mismatches (recorded source) (before ++ (path, declared) :: after)).run.run log =
      (.error error, log ++ (before ++ [(path, declared)]).map request) := by
  induction before generalizing log with
  | nil =>
    have hfirst := run_recorded source path declared.algorithm log
    rw [herror] at hfirst
    rw [List.nil_append, mismatches, run_bind_of_error _ hfirst]
    rfl
  | cons entry before ih =>
    obtain ⟨first, its⟩ := entry
    obtain ⟨computed, hcomputed⟩ := h (first, its) List.mem_cons_self
    have hfirst := run_recorded source first its.algorithm log
    rw [hcomputed] at hfirst
    have hrest := ih (fun entry hentry => h entry (List.mem_cons_of_mem _ hentry))
      (log ++ [(first, its.algorithm)])
    rw [List.cons_append, mismatches, run_bind_of_ok _ hfirst, run_bind_of_error _ hrest]
    simp [request]

/-- Recording what is asked for changes nothing about what comes of it. -/
theorem fst_run_mismatches (source : String → String → Except ε String)
    (entries : List (String × Declaration)) (log : Requests) :
    ((mismatches (recorded source) entries).run.run log).1 = mismatches source entries := by
  induction entries generalizing log with
  | nil => rfl
  | cons entry entries ih =>
    obtain ⟨path, declared⟩ := entry
    have hfirst := run_recorded source path declared.algorithm log
    rw [mismatches, mismatches]
    cases hanswer : source path declared.algorithm with
    | error error =>
      rw [hanswer] at hfirst
      rw [run_bind_of_error _ hfirst]
      rfl
    | ok computed =>
      rw [hanswer] at hfirst
      rw [run_bind_of_ok _ hfirst]
      have hrest := ih (log ++ [(path, declared.algorithm)])
      rcases hrun : (mismatches (recorded source) entries).run.run
        (log ++ [(path, declared.algorithm)]) with ⟨result, log'⟩
      rw [hrun] at hrest
      rw [← hrest]
      cases result with
      | error error =>
        rw [run_bind_of_error _ hrun]
        rfl
      | ok lines =>
        rw [run_bind_of_ok _ hrun]
        by_cases heq : computed = declared.hash
        · rw [if_pos heq]
          simp only [bind, Except.bind, if_pos heq]
          rfl
        · rw [if_neg heq]
          simp only [bind, Except.bind, if_neg heq]
          rfl

end Requests

/-! ### What is the matter with a path -/

/-- What can be the matter with a path. -/
inductive Finding where
  /-- It is declared, and no file is there. -/
  | missing
  /-- A file is there that nothing declares. -/
  | unexpected
  /-- The checksum of the file is another than the declared one. -/
  | mismatched
  /-- The checksum of the file is the declared one. -/
  | intact
  deriving DecidableEq, Repr

/-- When it is the matter with a path. -/
def Finds (manifest : Manifest) (files : FileSet) (source : String → String → Except ε String)
    (path : String) : Finding → Prop
  | .missing => manifest.contains path = true ∧ files.contains path = false
  | .unexpected => files.contains path = true ∧ manifest.contains path = false
  | .mismatched => ∃ declared computed, manifest.find? path = some declared ∧
      files.contains path = true ∧ source path declared.algorithm = .ok computed ∧
      computed ≠ declared.hash
  | .intact => ∃ declared, manifest.find? path = some declared ∧ files.contains path = true ∧
      source path declared.algorithm = .ok declared.hash

/-- Paths in the order of their octets, each once. -/
def InOrder (paths : List String) : Prop :=
  paths.Pairwise fun p q => Utf8.encode p.toList < Utf8.encode q.toList

/-- A line that says of a path which checksum is declared, and which other one was computed. -/
def SaysMismatch (manifest : Manifest) (source : String → String → Except ε String)
    (path line : String) : Prop :=
  ∃ declared computed, manifest.find? path = some declared ∧
    source path declared.algorithm = .ok computed ∧
    line = mismatchLine path declared.hash computed

/-- A report that says exactly what is the matter with each path: every path of the manifest and
of the files has one finding, and the report fails if one of them is not intact. -/
structure Exact (manifest : Manifest) (files : FileSet)
    (source : String → String → Except ε String) (report : Report) : Prop where
  missing_inOrder : InOrder report.missing
  mem_missing : ∀ path, path ∈ report.missing ↔ Finds manifest files source path .missing
  unexpected_inOrder : InOrder report.unexpected
  mem_unexpected : ∀ path, path ∈ report.unexpected ↔ Finds manifest files source path .unexpected
  mismatches_inOrder : ∃ paths, InOrder paths ∧
    (∀ path, path ∈ paths ↔ Finds manifest files source path .mismatched) ∧
    List.Forall₂ (SaysMismatch manifest source) paths report.mismatches
  existsUnique_finding : ∀ path, manifest.contains path = true ∨ files.contains path = true →
    ∃! finding, Finds manifest files source path finding
  failed_iff : report.failed = true ↔
    ∃ path, (manifest.contains path = true ∨ files.contains path = true) ∧
      ¬Finds manifest files source path .intact

/-! ### Paths in order -/

/-- Entries with increasing keys are in order. -/
theorem InOrder.of_sorted {α : Type} {entries : List (String × α)}
    (h : entries.Pairwise fun a b => a.1 < b.1) : InOrder (entries.map (·.1)) := by
  rw [InOrder, List.pairwise_map]
  exact h.imp fun hlt => Utf8.encode_lt_encode_iff.2 hlt

/-- Some of the paths in order are in order. -/
theorem InOrder.filter {paths : List String} (h : InOrder paths) (keep : String → Bool) :
    InOrder (paths.filter keep) :=
  List.Pairwise.filter keep h

/-- The keys of an index are in order. -/
theorem inOrder_keys {α : Type} (m : Index String α) : InOrder m.keys :=
  InOrder.of_sorted m.sorted

/-! ### Exact reports -/

/-- The declarations of the paths at which a file is there, in order. -/
def common (manifest : Manifest) (files : FileSet) : List (String × Declaration) :=
  manifest.entries.filter fun entry => files.contains entry.1

/-- A declaration is compared exactly if its path is listed. -/
theorem mem_common {manifest : Manifest} {files : FileSet} {path : String}
    {declared : Declaration} : (path, declared) ∈ common manifest files ↔
      manifest.find? path = some declared ∧ files.contains path = true := by
  rw [common, List.mem_filter, Index.mem_entries_iff]

/-- Declarations are compared in the order of their paths. -/
theorem inOrder_common (manifest : Manifest) (files : FileSet) :
    InOrder ((common manifest files).map (·.1)) :=
  InOrder.of_sorted (manifest.sorted.filter _)

section Exact

variable {manifest : Manifest} {files : FileSet} {source : String → String → Except ε String}

/-- A path has one finding, if its checksum can be had where it is needed. -/
theorem existsUnique_finds (h : ∀ entry ∈ common manifest files, Answers source entry)
    {path : String} (hpath : manifest.contains path = true ∨ files.contains path = true) :
    ∃! finding, Finds manifest files source path finding := by
  have hdeclared := Index.contains_eq_isSome_find? manifest path
  cases hfind : manifest.find? path with
  | none =>
    rw [hfind, Option.isSome_none] at hdeclared
    have hfile : files.contains path = true := by
      simpa [hdeclared] using hpath
    refine ⟨.unexpected, ⟨hfile, hdeclared⟩, ?_⟩
    intro finding hfinds
    cases finding <;> simp_all [Finds]
  | some declared =>
    rw [hfind, Option.isSome_some] at hdeclared
    cases hfile : files.contains path with
    | false =>
      refine ⟨.missing, ⟨hdeclared, hfile⟩, ?_⟩
      intro finding hfinds
      cases finding <;> simp_all [Finds]
    | true =>
      obtain ⟨computed, hcomputed⟩ := h (path, declared) (mem_common.2 ⟨hfind, hfile⟩)
      simp only at hcomputed
      by_cases heq : computed = declared.hash
      · refine ⟨.intact, ⟨declared, hfind, hfile, heq ▸ hcomputed⟩, ?_⟩
        intro finding hfinds
        cases finding <;> simp_all [Finds]
      · refine ⟨.mismatched, ⟨declared, computed, hfind, hfile, hcomputed, heq⟩, ?_⟩
        intro finding hfinds
        cases finding <;> simp_all [Finds]

/-- The paths whose checksums differ, among some entries. -/
def differing (source : String → String → Except ε String)
    (entries : List (String × Declaration)) : List String :=
  (entries.filter fun entry => (lineFor? source entry).isSome).map (·.1)

/-- There is a line for a declared file exactly if its checksum is known and differs. -/
theorem isSome_lineFor?_iff {entry : String × Declaration} :
    (lineFor? source entry).isSome = true ↔
      ∃ computed, source entry.1 entry.2.algorithm = .ok computed ∧ computed ≠ entry.2.hash := by
  rw [lineFor?]
  cases hanswer : source entry.1 entry.2.algorithm with
  | error error => simp
  | ok computed =>
    by_cases heq : computed = entry.2.hash
    · simp [heq]
    · simp [heq]

/-- Differing paths keep the order of the declarations. -/
theorem inOrder_differing {entries : List (String × Declaration)}
    (h : InOrder (entries.map (·.1))) : InOrder (differing source entries) := by
  rw [InOrder, List.pairwise_map] at h
  rw [differing, InOrder, List.pairwise_map]
  exact h.filter _

/-- The paths that differ are those that are found mismatched. -/
theorem mem_differing_common {path : String} :
    path ∈ differing source (common manifest files) ↔
      Finds manifest files source path .mismatched := by
  simp only [differing, List.mem_map, List.mem_filter, Prod.exists, isSome_lineFor?_iff,
    mem_common, Finds]
  constructor
  · rintro ⟨_, declared, ⟨⟨hfind, hfile⟩, computed, hcomputed, hne⟩, rfl⟩
    exact ⟨declared, computed, hfind, hfile, hcomputed, hne⟩
  · rintro ⟨declared, computed, hfind, hfile, hcomputed, hne⟩
    exact ⟨path, declared, ⟨⟨hfind, hfile⟩, computed, hcomputed, hne⟩, rfl⟩

/-- There is one line for each path whose checksum differs, in the order of the paths. -/
theorem forall₂_saysMismatch {entries : List (String × Declaration)}
    (h : ∀ entry ∈ entries, manifest.find? entry.1 = some entry.2) :
    List.Forall₂ (SaysMismatch manifest source) (differing source entries)
      (entries.filterMap (lineFor? source)) := by
  induction entries with
  | nil => exact .nil
  | cons entry entries ih =>
    have hrest := ih fun entry hentry => h entry (List.mem_cons_of_mem _ hentry)
    rw [differing] at hrest
    rw [differing, List.filter_cons, List.filterMap_cons]
    cases hline : lineFor? source entry with
    | none =>
      rw [Option.isSome_none, if_neg Bool.false_ne_true]
      exact hrest
    | some line =>
      obtain ⟨computed, hcomputed, hne⟩ := isSome_lineFor?_iff.1 (by rw [hline]; rfl)
      have heq : line = mismatchLine entry.1 entry.2.hash computed := by
        rw [lineFor?, hcomputed] at hline
        simp only [if_neg hne, Option.some.injEq] at hline
        exact hline.symm
      simp only [Option.isSome_some, if_true, List.map_cons]
      exact .cons ⟨entry.2, computed, h entry List.mem_cons_self, hcomputed, heq⟩ hrest

/-- The report of a comparison in which every checksum was had. -/
def exactReport (manifest : Manifest) (files : FileSet)
    (source : String → String → Except ε String) : Report where
  missing := manifest.keys.filter (!files.contains ·)
  unexpected := files.keys.filter (!manifest.contains ·)
  mismatches := (common manifest files).filterMap (lineFor? source)

/-- A report fails exactly if it lists something. -/
theorem failed_eq_true_iff {report : Report} :
    report.failed = true ↔
      (∃ path, path ∈ report.missing) ∨ (∃ path, path ∈ report.unexpected) ∨
        ∃ line, line ∈ report.mismatches := by
  simp only [Report.failed, Bool.or_eq_true, Bool.not_eq_true',
    List.isEmpty_eq_false_iff_exists_mem, or_assoc]

/-- The missing paths of a report are those that are found missing. -/
theorem mem_missing_exactReport {path : String} :
    path ∈ (exactReport manifest files source).missing ↔
      Finds manifest files source path .missing := by
  simp [exactReport, Finds, List.mem_filter, Index.mem_keys_iff]

/-- The unexpected paths of a report are those that are found unexpected. -/
theorem mem_unexpected_exactReport {path : String} :
    path ∈ (exactReport manifest files source).unexpected ↔
      Finds manifest files source path .unexpected := by
  simp [exactReport, Finds, List.mem_filter, Index.mem_keys_iff]

/-- Some path is mismatched exactly if there is a line. -/
theorem exists_mem_mismatches_exactReport_iff :
    (∃ line, line ∈ (exactReport manifest files source).mismatches) ↔
      ∃ path, Finds manifest files source path .mismatched := by
  have hlines : List.Forall₂ (SaysMismatch manifest source)
      (differing source (common manifest files))
      (exactReport manifest files source).mismatches :=
    forall₂_saysMismatch fun entry hentry => (mem_common.1 hentry).1
  rw [← List.length_pos_iff_exists_mem, ← hlines.length_eq, List.length_pos_iff_exists_mem]
  simp only [mem_differing_common]

/-- A report fails exactly if some path is not intact.

**Proof sketch.** Each path has one finding. If it is not that the path is intact, then the path, or
a line about it, is in the report; and what is in the report has another finding. -/
theorem failed_exactReport_iff (h : ∀ entry ∈ common manifest files, Answers source entry) :
    (exactReport manifest files source).failed = true ↔
      ∃ path, (manifest.contains path = true ∨ files.contains path = true) ∧
        ¬Finds manifest files source path .intact := by
  rw [failed_eq_true_iff, exists_mem_mismatches_exactReport_iff]
  simp only [mem_missing_exactReport, mem_unexpected_exactReport]
  constructor
  · have hother {path : String} {finding : Finding}
        (hpath : manifest.contains path = true ∨ files.contains path = true)
        (hfinds : Finds manifest files source path finding) (hne : finding ≠ .intact) :
        ∃ path, (manifest.contains path = true ∨ files.contains path = true) ∧
          ¬Finds manifest files source path .intact :=
      ⟨path, hpath, fun hintact => hne ((existsUnique_finds h hpath).unique hfinds hintact)⟩
    rintro (⟨path, hfinds⟩ | ⟨path, hfinds⟩ | ⟨path, hfinds⟩)
    · exact hother (.inl hfinds.1) hfinds (by decide)
    · exact hother (.inr hfinds.1) hfinds (by decide)
    · have hfile : files.contains path = true := by
        obtain ⟨_, _, _, hfile, _⟩ := hfinds
        exact hfile
      exact hother (.inr hfile) hfinds (by decide)
  · rintro ⟨path, hpath, hnot⟩
    obtain ⟨finding, hfinds, -⟩ := existsUnique_finds h hpath
    cases finding with
    | missing => exact .inl ⟨path, hfinds⟩
    | unexpected => exact .inr (.inl ⟨path, hfinds⟩)
    | mismatched => exact .inr (.inr ⟨path, hfinds⟩)
    | intact => exact absurd hfinds hnot

/-- **The report is exact.** -/
theorem exact_exactReport (h : ∀ entry ∈ common manifest files, Answers source entry) :
    Exact manifest files source (exactReport manifest files source) where
  missing_inOrder := (inOrder_keys manifest).filter _
  mem_missing _ := mem_missing_exactReport
  unexpected_inOrder := (inOrder_keys files).filter _
  mem_unexpected _ := mem_unexpected_exactReport
  mismatches_inOrder := by
    refine ⟨differing source (common manifest files), inOrder_differing (inOrder_common _ _), ?_,
      ?_⟩
    · intro path
      exact mem_differing_common
    · exact forall₂_saysMismatch fun entry hentry => (mem_common.1 hentry).1
  existsUnique_finding _ := existsUnique_finds h
  failed_iff := failed_exactReport_iff h

/-! ### Comparing -/

/-- Entries are all answered, or there is a first one that is not. -/
theorem answers_or_first_failure (source : String → String → Except ε String)
    (entries : List (String × Declaration)) :
    (∀ entry ∈ entries, Answers source entry) ∨
      ∃ before path declared after error, entries = before ++ (path, declared) :: after ∧
        (∀ entry ∈ before, Answers source entry) ∧
        source path declared.algorithm = .error error := by
  induction entries with
  | nil => exact .inl nofun
  | cons entry entries ih =>
    obtain ⟨path, declared⟩ := entry
    cases hanswer : source path declared.algorithm with
    | error error => exact .inr ⟨[], path, declared, entries, error, rfl, nofun, hanswer⟩
    | ok computed =>
      have hfirst : Answers source (path, declared) := ⟨computed, hanswer⟩
      rcases ih with hall | ⟨before, path', declared', after, error, rfl, hbefore, herror⟩
      · exact .inl (List.forall_mem_cons.2 ⟨hfirst, hall⟩)
      · exact .inr ⟨(path, declared) :: before, path', declared', after, error, rfl,
          List.forall_mem_cons.2 ⟨hfirst, hbefore⟩, herror⟩

/-- Recording what is asked for changes nothing about what a comparison comes to. -/
theorem fst_observe : (observe manifest files source).1 = reconcile manifest files source := by
  have hlines := fst_run_mismatches source (common manifest files) []
  rcases hrun : (mismatches (recorded source) (common manifest files)).run.run [] with
    ⟨result, log⟩
  rw [hrun] at hlines
  rw [observe, reconcile, reconcile]
  change ((mismatches (recorded source) (common manifest files) >>= _).run.run []).1 =
    (mismatches source (common manifest files) >>= _)
  rw [← hlines]
  cases result with
  | error error =>
    rw [run_bind_of_error _ hrun]
    rfl
  | ok lines =>
    rw [run_bind_of_ok _ hrun]
    rfl

/-- If every checksum is known, all are asked for, and the report is exact. -/
theorem observe_of_ok (h : ∀ entry ∈ common manifest files, Answers source entry) :
    observe manifest files source =
      (.ok (exactReport manifest files source), (common manifest files).map request) := by
  have hrun := run_mismatches_of_ok h []
  rw [observe, reconcile]
  exact run_bind_of_ok _ hrun

/-- The first checksum that cannot be had is the last one asked for, and its error is the result. -/
theorem observe_of_error {before after : List (String × Declaration)} {path : String}
    {declared : Declaration} {error : ε}
    (hcommon : common manifest files = before ++ (path, declared) :: after)
    (h : ∀ entry ∈ before, Answers source entry)
    (herror : source path declared.algorithm = .error error) :
    observe manifest files source =
      (.error error, (before ++ [(path, declared)]).map request) := by
  have hrun : (mismatches (recorded source) (before ++ (path, declared) :: after)).run.run [] =
      (.error error, (before ++ [(path, declared)]).map request) :=
    run_mismatches_of_error h herror []
  rw [← hcommon] at hrun
  rw [observe, reconcile]
  exact run_bind_of_error _ hrun

/-- A comparison that comes to a report had every checksum it needed. -/
theorem reconcile_eq_ok_iff {report : Report} :
    reconcile manifest files source = .ok report ↔
      (∀ entry ∈ common manifest files, Answers source entry) ∧
        report = exactReport manifest files source := by
  rw [← fst_observe]
  rcases answers_or_first_failure source (common manifest files) with
    hall | ⟨before, path, declared, after, error, hcommon, hbefore, herror⟩
  · rw [observe_of_ok hall]
    exact ⟨fun heq => ⟨hall, (Except.ok.inj heq).symm⟩, fun h => congrArg Except.ok h.2.symm⟩
  · rw [observe_of_error hcommon hbefore herror]
    simp only [reduceCtorEq, false_iff, not_and]
    intro hall
    obtain ⟨computed, hcomputed⟩ := hall (path, declared) (by rw [hcommon]; simp)
    rw [herror] at hcomputed
    cases hcomputed

/-- Whatever is asked for is asked for a common path, under its declared algorithm. -/
theorem exists_of_mem_observe {path algorithm : String}
    (h : (path, algorithm) ∈ (observe manifest files source).2) :
    ∃ declared, (path, declared) ∈ common manifest files ∧ algorithm = declared.algorithm := by
  have hmem : (path, algorithm) ∈ (common manifest files).map request := by
    rcases answers_or_first_failure source (common manifest files) with
      hall | ⟨before, first, declared, after, error, hcommon, hbefore, herror⟩
    · rwa [observe_of_ok hall] at h
    · rw [observe_of_error hcommon hbefore herror] at h
      rw [hcommon, ← List.singleton_append, ← List.append_assoc, List.map_append]
      exact List.mem_append_left _ h
  obtain ⟨⟨_, declared⟩, hentry, heq⟩ := List.mem_map.1 hmem
  cases heq
  exact ⟨declared, hentry, rfl⟩

/-- Lines depend on the source only through the checksums of the entries. -/
theorem mismatches_congr {source' : String → String → Except ε String}
    {entries : List (String × Declaration)}
    (h : ∀ path declared, (path, declared) ∈ entries →
      source' path declared.algorithm = source path declared.algorithm) :
    mismatches source' entries = mismatches source entries := by
  induction entries with
  | nil => rfl
  | cons entry entries ih =>
    obtain ⟨path, declared⟩ := entry
    have hrest := ih fun path declared hentry => h path declared (List.mem_cons_of_mem _ hentry)
    rw [mismatches, mismatches, h path declared List.mem_cons_self, hrest]

/-- A comparison depends on its source only through the checksums of the common paths. -/
theorem reconcile_congr {source' : String → String → Except ε String}
    (h : ∀ path declared, (path, declared) ∈ common manifest files →
      source' path declared.algorithm = source path declared.algorithm) :
    reconcile manifest files source' = reconcile manifest files source := by
  rw [common] at h
  rw [reconcile, reconcile, mismatches_congr h]

/-- **A comparison asks for the checksums of the common paths**, in the order of their octets and
under the declared algorithms, once each. It ends with the first one that cannot be had; if there is
none, the report is exact.

**Proof sketch.** Either all checksums of the common paths can be had, or there is a first one that
cannot. In both cases the comparison is followed path by path, with the log of what it has asked
for. -/
theorem exists_common_observe (manifest : Manifest) (files : FileSet)
    (source : String → String → Except ε String) :
    ∃ entries : List (String × Declaration), InOrder (entries.map (·.1)) ∧
      (∀ path declared, (path, declared) ∈ entries ↔
        manifest.find? path = some declared ∧ files.contains path = true) ∧
      (observe manifest files source).1 = reconcile manifest files source ∧
      ((∃ before path declared after error, entries = before ++ (path, declared) :: after ∧
          (∀ entry ∈ before, ∃ computed, source entry.1 entry.2.algorithm = .ok computed) ∧
          source path declared.algorithm = .error error ∧
          observe manifest files source =
            (.error error, (before ++ [(path, declared)]).map request)) ∨
        ((∀ entry ∈ entries, ∃ computed, source entry.1 entry.2.algorithm = .ok computed) ∧
          ∃ report, observe manifest files source = (.ok report, entries.map request) ∧
            Exact manifest files source report)) := by
  refine ⟨common manifest files, inOrder_common manifest files, fun _ _ => mem_common,
    fst_observe, ?_⟩
  rcases answers_or_first_failure source (common manifest files) with
    hall | ⟨before, path, declared, after, error, hcommon, hbefore, herror⟩
  · exact .inr ⟨hall, _, observe_of_ok hall, exact_exactReport hall⟩
  · exact .inl ⟨before, path, declared, after, error, hcommon, hbefore, herror,
      observe_of_error hcommon hbefore herror⟩

end Exact

end Accession.Package

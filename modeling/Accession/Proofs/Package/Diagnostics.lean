import Accession.Command.Report
import Accession.Proofs.Lists
import Accession.Proofs.Package.Reconciling
import Accession.Proofs.Text.Quoted
set_option autoImplicit false

/-!
# The lines of a report

A line about a checksum that differs shows a path, the declared checksum and the computed one, and
all three come from outside. Whatever they hold, the line says which they are and stays one line. So
a report has a line about a path exactly if its checksum differs.

The printed report shows these lines among others. It shows the paths of missing and unexpected
files, and that of the package, as they are. As long as none of those paths has a line break, what
is printed has the lines of the report and says which report it is. A path with line breaks can make
it look like the report on another package.

## Main definitions

* `Report.Unbroken` — nothing that is shown as it is has a line break.
* `Report.Unmarked` — lines do not begin with some mark.

## Main results

* `Report.splitOn_unlines_iff` — what lines are printed as such.
* `Report.verificationLines_inj` — the lines of a report say which one it is.
* `Package.mismatchLine_inj` — a line determines the path and both checksums.
* `Package.staysInLine_of_mem_mismatchLine` — a line stays one line.
* `Package.mismatchLine_inj_and_verification` — what the lines of a report are, and when they can be
  read off the printed report.
* `Package.verification_forged` — two reports that are printed alike.
-/

namespace Accession

open Printable (StaysInLine)

namespace Report

/-! ### Printed lines -/

/-- Lines without line breaks are printed as such. -/
theorem splitOn_unlines {lines : List String} (h : ∀ line ∈ lines, '\n' ∉ line.toList) :
    (unlines lines).toList.splitOn '\n' = (lines ++ [""]).map String.toList := by
  rw [unlines, String.toList_ofList]
  induction lines with
  | nil => rfl
  | cons line lines ih =>
    rw [List.flatMap_cons, List.append_assoc, List.singleton_append,
      List.splitOn_append_cons_self, List.splitOn_eq_singleton (h line List.mem_cons_self),
      ih fun other hother => h other (List.mem_cons_of_mem _ hother)]
    rfl

/-- **Lines are printed as such exactly if they have no line breaks.** -/
theorem splitOn_unlines_iff {lines : List String} :
    (unlines lines).toList.splitOn '\n' = (lines ++ [""]).map String.toList ↔
      ∀ line ∈ lines, '\n' ∉ line.toList := by
  refine ⟨fun h line hline => ?_, splitOn_unlines⟩
  have hmem : line.toList ∈ (lines ++ [""]).map String.toList :=
    List.mem_map_of_mem (List.mem_append_left _ hline)
  rw [← h] at hmem
  exact List.not_mem_of_mem_splitOn hmem

/-- Lines without line breaks are told apart when they are printed. -/
theorem unlines_inj {lines lines' : List String} (hlines : ∀ line ∈ lines, '\n' ∉ line.toList)
    (hlines' : ∀ line ∈ lines', '\n' ∉ line.toList) (h : unlines lines = unlines lines') :
    lines = lines' := by
  have hpieces := splitOn_unlines hlines
  rw [h, splitOn_unlines hlines'] at hpieces
  exact (List.append_cancel_right
    (List.map_injective_iff.2 (fun _ _ => String.toList_injective) hpieces)).symm

/-! ### Line breaks in a report -/

/-- Nothing that the printed report on a package shows as it is has a line break: neither its path
nor a path that is missing or unexpected. -/
structure Unbroken (p : Package) (report : Package.Report) : Prop where
  path : '\n' ∉ p.path.toList
  missing : ∀ path ∈ report.missing, '\n' ∉ path.toList
  unexpected : ∀ path ∈ report.unexpected, '\n' ∉ path.toList

/-- What follows a text without line breaks has those of both. -/
theorem newline_mem_append_iff {before : String} (h : '\n' ∉ before.toList) (after : String) :
    '\n' ∈ (before ++ after).toList ↔ '\n' ∈ after.toList := by
  rw [String.toList_append, List.mem_append, or_iff_right h]

/-- A count has no line breaks. -/
theorem newline_not_mem_toString (n : Nat) : '\n' ∉ (toString n).toList := by
  intro hmem
  have hdigits : (toString n).toList = Nat.toDigits 10 n := String.toList_ofList
  rw [hdigits] at hmem
  have hdigit := Nat.isDigit_of_mem_toDigits (by decide) (by decide) hmem
  revert hdigit
  decide

/-- The lines for findings have the line breaks of these. -/
theorem newline_not_mem_findings_iff {shown : Bool} {title : String} {lines : List String}
    (htitle : '\n' ∉ ((boldColoured .yellow).paint shown title).toList) :
    (∀ line ∈ findings shown title lines, '\n' ∉ line.toList) ↔
      ∀ line ∈ lines, '\n' ∉ line.toList := by
  have hcount : '\n' ∉ (s!" ({lines.length}):").toList := by
    simp only [String.toList_append, List.mem_append, not_or]
    exact ⟨⟨by decide, newline_not_mem_toString _⟩, by decide⟩
  have hitem (line : String) : '\n' ∉ ("  - " ++ line).toList ↔ '\n' ∉ line.toList :=
    not_congr (newline_mem_append_iff (by decide) line)
  rw [findings]
  split
  · rename_i hempty
    rw [List.isEmpty_iff.1 hempty]
  · simp only [List.forall_mem_append, List.forall_mem_singleton, List.forall_mem_map, hitem,
      newline_mem_append_iff htitle]
    exact ⟨fun h => h.1.2, fun h => ⟨⟨hcount, h⟩, by decide⟩⟩

/-- A report that finds nothing is the empty one. -/
theorem eq_of_not_failed {report : Package.Report} (h : ¬report.failed = true) :
    report = ⟨[], [], []⟩ := by
  obtain ⟨missing, unexpected, mismatches⟩ := report
  simpa [Package.Report.failed, and_assoc] using h

/-- **The lines of a report have no line breaks exactly if nothing that is shown as it is has
one**, as far as the lines about checksums have none. -/
theorem newline_not_mem_verificationLines_iff {shown : Bool} {p : Package}
    {report : Package.Report} (hmismatches : ∀ line ∈ report.mismatches, '\n' ∉ line.toList) :
    (∀ line ∈ verificationLines shown p report, '\n' ∉ line.toList) ↔ Unbroken p report := by
  have hpath : '\n' ∉ (labelled shown "Package" p.path).toList ↔ '\n' ∉ p.path.toList :=
    not_congr (newline_mem_append_iff (by cases shown <;> decide) p.path)
  have hheading : '\n' ∉ (heading.paint shown "Manifest Verification").toList := by
    cases shown <;> decide
  have hkind : '\n' ∉ (labelled shown "Type" p.kind.name).toList := by
    cases shown <;> cases p.kind <;> decide
  have hstatus : '\n' ∉ (statusLine shown).toList := by
    cases shown <;> decide
  have hintact : '\n' ∉ ((boldColoured .green).paint shown "✓" ++
      " All declared files present and intact").toList := by
    cases shown <;> decide
  rw [verificationLines]
  split
  · simp only [List.forall_mem_append, List.forall_mem_cons, hpath]
    rw [newline_not_mem_findings_iff (by cases shown <;> decide),
      newline_not_mem_findings_iff (by cases shown <;> decide),
      newline_not_mem_findings_iff (by cases shown <;> decide)]
    exact ⟨fun h => ⟨h.1.2.1, h.2.1.1.1, h.2.1.1.2⟩, fun h =>
      ⟨⟨hheading, h.path, hkind, by decide⟩, ⟨⟨h.missing, h.unexpected⟩, hmismatches⟩, hstatus,
        nofun⟩⟩
  · rename_i hclean
    obtain rfl := eq_of_not_failed hclean
    simp only [List.forall_mem_append, List.forall_mem_cons, hpath]
    exact ⟨fun h => ⟨h.1.2.1, nofun, nofun⟩, fun h =>
      ⟨⟨hheading, h.path, hkind, by decide, nofun⟩, hintact, nofun⟩⟩

/-! ### Telling reports apart -/

/-- Lines of which the first one, if there is one, does not begin with a mark. -/
def Unmarked (mark : String) (lines : List String) : Prop :=
  ∀ line ∈ lines.head?, ¬mark.toList <+: line.toList

/-- Lines in front of which there are findings do not begin with a mark, if neither the title of
these begins so nor the lines. -/
theorem Unmarked.findings_append {shown : Bool} {mark title : String} {rest : List String}
    (h : ¬mark.toList <+: ((boldColoured .yellow).paint shown title).toList)
    (h' : ¬((boldColoured .yellow).paint shown title).toList <+: mark.toList)
    (hrest : Unmarked mark rest) (lines : List String) :
    Unmarked mark (findings shown title lines ++ rest) := by
  rw [findings]
  split
  · exact hrest
  · intro line hline
    obtain rfl : _ = line := Option.some.inj hline
    rw [String.toList_append]
    exact List.not_prefix_append h h' _

/-- Items behind which there is an empty line are told apart from what follows that. -/
theorem map_append_cons_inj {lines lines' rest rest' : List String}
    (h : lines.map ("  - " ++ ·) ++ "" :: rest = lines'.map ("  - " ++ ·) ++ "" :: rest') :
    lines = lines' ∧ rest = rest' := by
  have hitem (line : String) : "  - " ++ line ≠ "" := by
    intro hempty
    have hlist := congrArg String.toList hempty
    simp at hlist
  induction lines generalizing lines' with
  | nil =>
    cases lines' with
    | nil => exact ⟨rfl, (List.cons.inj h).2⟩
    | cons line' lines' => exact absurd (List.cons.inj h).1.symm (hitem line')
  | cons line lines ih =>
    cases lines' with
    | nil => exact absurd (List.cons.inj h).1 (hitem line)
    | cons line' lines' =>
      obtain ⟨hhead, htail⟩ := List.cons.inj h
      obtain ⟨rfl, rfl⟩ := ih htail
      exact ⟨congrArg (· :: lines) ((String.append_right_inj _).1 hhead), rfl⟩

/-- Findings are told apart from lines behind them that do not begin with their title. -/
theorem findings_append_inj {shown : Bool} {title : String} {lines lines' rest rest' : List String}
    (hrest : Unmarked ((boldColoured .yellow).paint shown title) rest)
    (hrest' : Unmarked ((boldColoured .yellow).paint shown title) rest')
    (h : findings shown title lines ++ rest = findings shown title lines' ++ rest') :
    lines = lines' ∧ rest = rest' := by
  have htitled (after : String) : ((boldColoured .yellow).paint shown title).toList <+:
      ((boldColoured .yellow).paint shown title ++ after).toList := by
    rw [String.toList_append]
    exact List.prefix_append ..
  rw [findings, findings] at h
  split at h <;> split at h
  · rename_i hempty hempty'
    exact ⟨(List.isEmpty_iff.1 hempty).trans (List.isEmpty_iff.1 hempty').symm, h⟩
  · rw [List.nil_append] at h
    subst h
    exact absurd (htitled _) (hrest _ rfl)
  · rw [List.nil_append] at h
    subst h
    exact absurd (htitled _) (hrest' _ rfl)
  · simp only [List.append_assoc, List.cons_append, List.nil_append, List.cons.injEq] at h
    exact map_append_cons_inj h.2

/-- The last line does not begin with a mark that it does not begin with. -/
theorem unmarked_statusLine {shown : Bool} {mark : String}
    (h : ¬mark.toList <+: (statusLine shown).toList) : Unmarked mark [statusLine shown] := by
  intro line hline
  obtain rfl : statusLine shown = line := Option.some.inj hline
  exact h

/-- No section of a report begins as one does that stands before it, nor as the line that says that
nothing was found. -/
theorem unmarked_sections (shown : Bool) (missing unexpected mismatches : List String) :
    Unmarked ((boldColoured .yellow).paint shown "Checksum mismatches") [statusLine shown] ∧
    Unmarked ((boldColoured .yellow).paint shown "Unexpected files")
      (findings shown "Checksum mismatches" mismatches ++ [statusLine shown]) ∧
    Unmarked ((boldColoured .yellow).paint shown "Missing files")
      (findings shown "Unexpected files" unexpected ++
        (findings shown "Checksum mismatches" mismatches ++ [statusLine shown])) ∧
    Unmarked ((boldColoured .green).paint shown "✓")
      (findings shown "Missing files" missing ++ (findings shown "Unexpected files" unexpected ++
        (findings shown "Checksum mismatches" mismatches ++ [statusLine shown]))) := by
  refine ⟨unmarked_statusLine ?_, .findings_append ?_ ?_ (unmarked_statusLine ?_) _,
    .findings_append ?_ ?_ (.findings_append ?_ ?_ (unmarked_statusLine ?_) _) _,
    .findings_append ?_ ?_
      (.findings_append ?_ ?_ (.findings_append ?_ ?_ (unmarked_statusLine ?_) _) _) _⟩ <;>
    cases shown <;> decide

/-- **The lines of a report say which one it is**, and on which package. -/
theorem verificationLines_inj {shown : Bool} {p p' : Package} {report report' : Package.Report}
    (h : verificationLines shown p report = verificationLines shown p' report') :
    p = p' ∧ report = report' := by
  obtain ⟨path, kind⟩ := p
  obtain ⟨path', kind'⟩ := p'
  obtain ⟨missing, unexpected, mismatches⟩ := report
  obtain ⟨missing', unexpected', mismatches'⟩ := report'
  rw [verificationLines, verificationLines] at h
  simp only [List.cons_append, List.nil_append, List.cons.injEq, true_and, labelled] at h
  obtain ⟨hpath, hkind, hbody⟩ := h
  obtain rfl : path = path' := (String.append_right_inj _).1 hpath
  have hname : kind.name = kind'.name := (String.append_right_inj _).1 hkind
  obtain rfl : kind = kind' := by
    revert hname
    cases kind <;> cases kind' <;> decide
  refine ⟨rfl, ?_⟩
  obtain ⟨hlast, hthird, hsecond, hfirst⟩ := unmarked_sections shown missing unexpected mismatches
  obtain ⟨hlast', hthird', hsecond', hfirst'⟩ :=
    unmarked_sections shown missing' unexpected' mismatches'
  have hintact : ((boldColoured .green).paint shown "✓").toList <+:
      ((boldColoured .green).paint shown "✓" ++
        " All declared files present and intact").toList := by
    rw [String.toList_append]
    exact List.prefix_append ..
  simp only [List.append_assoc] at hbody
  split at hbody <;> split at hbody
  · obtain ⟨rfl, hbehind⟩ := findings_append_inj hsecond hsecond' hbody
    obtain ⟨rfl, hrest⟩ := findings_append_inj hthird hthird' hbehind
    obtain ⟨rfl, -⟩ := findings_append_inj hlast hlast' hrest
    rfl
  · exact absurd hintact (hfirst _ (congrArg List.head? hbody))
  · exact absurd hintact (hfirst' _ (congrArg List.head? hbody).symm)
  · rename_i hclean hclean'
    exact (eq_of_not_failed hclean).trans (eq_of_not_failed hclean').symm

/-- **Two reports that are printed alike are the same**, as far as nothing that is shown as it is
has a line break, and no line about a checksum. -/
theorem verification_inj {shown : Bool} {p p' : Package} {report report' : Package.Report}
    (hmismatches : ∀ line ∈ report.mismatches, '\n' ∉ line.toList)
    (hmismatches' : ∀ line ∈ report'.mismatches, '\n' ∉ line.toList)
    (hreport : Unbroken p report) (hreport' : Unbroken p' report')
    (h : verification shown p report = verification shown p' report') :
    p = p' ∧ report = report' :=
  verificationLines_inj <| unlines_inj
    ((newline_not_mem_verificationLines_iff hmismatches).2 hreport)
    ((newline_not_mem_verificationLines_iff hmismatches').2 hreport') h

end Report

namespace Package

/-! ### Single lines -/

/-- Three quoted texts among other texts, character by character. -/
theorem toList_quotes (v path w expected x computed y : String) :
    (v ++ Quoted.quote path ++ w ++ Quoted.quote expected ++ x ++ Quoted.quote computed ++
        y).toList =
      v.toList ++ (Quoted.quoteChars path.toList ++ (w.toList ++
        (Quoted.quoteChars expected.toList ++ (x.toList ++
          (Quoted.quoteChars computed.toList ++ y.toList))))) := by
  simp only [Quoted.quote, String.toList_append, String.toList_ofList, List.append_assoc]

/-- A mismatch line is three quoted texts in a fixed frame. -/
theorem toList_mismatchLine (path expected computed : String) :
    (mismatchLine path expected computed).toList =
      "Checksum mismatch for ".toList ++ (Quoted.quoteChars path.toList ++
        (" (expected: ".toList ++ (Quoted.quoteChars expected.toList ++
          (", got: ".toList ++ (Quoted.quoteChars computed.toList ++ ")".toList))))) :=
  toList_quotes _ _ _ _ _ _ _

/-- **A line determines the path and both checksums.** -/
theorem mismatchLine_inj {path expected computed path' expected' computed' : String} :
    mismatchLine path expected computed = mismatchLine path' expected' computed' ↔
      path = path' ∧ expected = expected' ∧ computed = computed' := by
  constructor
  · intro heq
    have hchars := congrArg String.toList heq
    rw [toList_mismatchLine, toList_mismatchLine, List.append_cancel_left_eq,
      Quoted.quoteChars_append_inj, List.append_cancel_left_eq, Quoted.quoteChars_append_inj,
      List.append_cancel_left_eq, Quoted.quoteChars_append_inj] at hchars
    obtain ⟨hpath, hexpected, hcomputed, -⟩ := hchars
    exact ⟨String.toList_injective hpath, String.toList_injective hexpected,
      String.toList_injective hcomputed⟩
  · rintro ⟨rfl, rfl, rfl⟩
    rfl

/-- **A line stays one line.** -/
theorem staysInLine_of_mem_mismatchLine {path expected computed : String} {c : Char}
    (h : c ∈ (mismatchLine path expected computed).toList) : StaysInLine c := by
  have hwords : ∀ words ∈ ["Checksum mismatch for ", " (expected: ", ", got: ", ")"],
      ∀ c ∈ words.toList, StaysInLine c := by
    decide
  simp only [toList_mismatchLine, List.mem_append] at h
  rcases h with h | h | h | h | h | h | h
  · exact hwords _ (by simp) c h
  · exact Quoted.staysInLine_of_mem_quoteChars h
  · exact hwords _ (by simp) c h
  · exact Quoted.staysInLine_of_mem_quoteChars h
  · exact hwords _ (by simp) c h
  · exact Quoted.staysInLine_of_mem_quoteChars h
  · exact hwords _ (by simp) c h

/-- No text breaks a mismatch line. -/
theorem newline_not_mem_mismatchLine (path expected computed : String) :
    '\n' ∉ (mismatchLine path expected computed).toList := by
  intro hmem
  have hstays := staysInLine_of_mem_mismatchLine hmem
  revert hstays
  decide

/-! ### The lines of a report -/

section Lines

variable {ε : Type} {manifest : Manifest} {files : FileSet}
  {source : String → String → Except ε String} {line path expected computed : String}

/-- There is a line for a declared file exactly if its checksum is known and differs. -/
theorem lineFor?_eq_some_iff {entry : String × Declaration} :
    lineFor? source entry = some line ↔
      ∃ computed, source entry.1 entry.2.algorithm = .ok computed ∧ computed ≠ entry.2.hash ∧
        mismatchLine entry.1 entry.2.hash computed = line := by
  rw [lineFor?]
  cases hanswer : source entry.1 entry.2.algorithm with
  | error error => simp
  | ok computed =>
    by_cases heq : computed = entry.2.hash
    · simp [heq]
    · simp [heq]

/-- All lines about checksums are mismatch lines. -/
theorem exists_of_mem_mismatches
    (h : line ∈ (exactReport manifest files source).mismatches) :
    ∃ path expected computed, line = mismatchLine path expected computed := by
  obtain ⟨entry, -, hline⟩ := List.mem_filterMap.1 h
  obtain ⟨computed, -, -, rfl⟩ := lineFor?_eq_some_iff.1 hline
  exact ⟨_, _, computed, rfl⟩

/-- A report has a line exactly if what the line says is so. -/
theorem mismatchLine_mem_iff :
    mismatchLine path expected computed ∈ (exactReport manifest files source).mismatches ↔
      ∃ declared, manifest.find? path = some declared ∧ files.contains path = true ∧
        declared.hash = expected ∧ source path declared.algorithm = .ok computed ∧
        computed ≠ expected := by
  simp only [exactReport, List.mem_filterMap, Prod.exists, mem_common, lineFor?_eq_some_iff,
    mismatchLine_inj]
  constructor
  · rintro ⟨_, declared, ⟨hfind, hfile⟩, _, hcomputed, hne, rfl, rfl, rfl⟩
    exact ⟨declared, hfind, hfile, rfl, hcomputed, hne⟩
  · rintro ⟨declared, hfind, hfile, rfl, hcomputed, hne⟩
    exact ⟨path, declared, ⟨hfind, hfile⟩, computed, hcomputed, hne, rfl, rfl, rfl⟩

/-- No line stands in a report twice. -/
theorem nodup_mismatches (manifest : Manifest) (files : FileSet)
    (source : String → String → Except ε String) :
    (exactReport manifest files source).mismatches.Nodup := by
  refine List.Pairwise.filterMap _ ?_ (manifest.sorted.filter _)
  intro first second hlt line hline line' hline' heq
  obtain ⟨_, -, -, rfl⟩ := lineFor?_eq_some_iff.1 hline
  obtain ⟨_, -, -, rfl⟩ := lineFor?_eq_some_iff.1 hline'
  rw [(mismatchLine_inj.1 heq).1] at hlt
  exact String.lt_irrefl _ hlt

end Lines

/-- What a comparison reports of checksums has no line breaks. -/
theorem newline_not_mem_of_reconcile {ε : Type} {manifest : Manifest} {files : FileSet}
    {source : String → String → Except ε String} {report : Report}
    (h : reconcile manifest files source = .ok report) :
    ∀ line ∈ report.mismatches, '\n' ∉ line.toList := by
  obtain ⟨-, rfl⟩ := reconcile_eq_ok_iff.1 h
  intro line hline
  obtain ⟨path, expected, computed, rfl⟩ := exists_of_mem_mismatches hline
  exact newline_not_mem_mismatchLine path expected computed

/-- **Lines about checksums are unambiguous.** A line determines the path and both checksums, and
holds no control character and no line break. So a report has a line exactly if what it says is so,
and has it once.

**What is printed of a report is unambiguous as far as no path has a line break** that is shown as
it is: that of the package, one that is missing or one that is unexpected. Exactly then the lines of
what is printed are those of the report, and two such reports that are printed alike are the same.

**Proof sketch.** A quoted text ends at its own closing quote and stays in its line. So what is
printed falls apart into its lines exactly if none of these has a break, and the headings tell where
a section begins. -/
theorem mismatchLine_inj_and_verification (ε : Type) :
    (∀ path expected computed path' expected' computed',
      mismatchLine path expected computed = mismatchLine path' expected' computed' ↔
        path = path' ∧ expected = expected' ∧ computed = computed') ∧
    (∀ path expected computed, ∀ c ∈ (mismatchLine path expected computed).toList,
      StaysInLine c) ∧
    ∀ (manifest : Manifest) (files : FileSet) (source : String → String → Except ε String) report,
      reconcile manifest files source = .ok report →
        report.mismatches.Nodup ∧
        (∀ line ∈ report.mismatches, ∃ path expected computed,
          line = mismatchLine path expected computed) ∧
        (∀ path expected computed, mismatchLine path expected computed ∈ report.mismatches ↔
          ∃ declared, manifest.find? path = some declared ∧ files.contains path = true ∧
            declared.hash = expected ∧ source path declared.algorithm = .ok computed ∧
            computed ≠ expected) ∧
        ∀ shown p,
          ((Report.verification shown p report).toList.splitOn '\n' =
              (Report.verificationLines shown p report ++ [""]).map String.toList ↔
            Report.Unbroken p report) ∧
          ∀ (manifest' : Manifest) (files' : FileSet)
            (source' : String → String → Except ε String) report' p',
            reconcile manifest' files' source' = .ok report' → Report.Unbroken p report →
              Report.Unbroken p' report' →
              Report.verification shown p report = Report.verification shown p' report' →
              p = p' ∧ report = report' := by
  refine ⟨fun _ _ _ _ _ _ => mismatchLine_inj,
    fun _ _ _ _ hmem => staysInLine_of_mem_mismatchLine hmem,
    fun manifest files source report hreport => ?_⟩
  have hlines := newline_not_mem_of_reconcile hreport
  obtain ⟨-, rfl⟩ := reconcile_eq_ok_iff.1 hreport
  refine ⟨nodup_mismatches manifest files source, fun _ => exists_of_mem_mismatches,
    fun _ _ _ => mismatchLine_mem_iff, fun shown p => ⟨?_, ?_⟩⟩
  · rw [Report.verification, Report.splitOn_unlines_iff,
      Report.newline_not_mem_verificationLines_iff hlines]
  · intro manifest' files' source' report' p' hreport' hunbroken hunbroken' hprinted
    exact Report.verification_inj hlines (newline_not_mem_of_reconcile hreport') hunbroken
      hunbroken' hprinted

/-- A manifest whose path holds a line break and whose checksum holds the words of a line. -/
def hostile : Manifest :=
  .ofList [("a\n", ⟨"i", "MD5", "x\" (expected: \"y"⟩)]

/-- Its line is in the report, once, and stays one line when the report is printed. -/
theorem mem_mismatches_hostile :
    ∃ report, reconcile hostile (.ofList [("a\n", ())])
        (fun _ _ => (.ok "z" : Except Error String)) = .ok report ∧
      report.mismatches.Nodup ∧
      mismatchLine "a\n" "x\" (expected: \"y" "z" ∈ report.mismatches ∧
      (∀ c ∈ (mismatchLine "a\n" "x\" (expected: \"y" "z").toList, StaysInLine c) ∧
      (Report.verification false ⟨"S", .bornDigitalSip⟩ report).toList.splitOn '\n' =
        (Report.verificationLines false ⟨"S", .bornDigitalSip⟩ report ++ [""]).map
          String.toList := by
  obtain ⟨-, hstays, hreport⟩ := mismatchLine_inj_and_verification Error
  have hanswers : ∀ entry ∈ common hostile (.ofList [("a\n", ())]),
      Answers (fun _ _ => (.ok "z" : Except Error String)) entry := fun _ _ => ⟨"z", rfl⟩
  have hok := reconcile_eq_ok_iff.2 ⟨hanswers, rfl⟩
  obtain ⟨hnodup, -, hmem, hprinted⟩ := hreport _ _ _ _ hok
  have hmissing : (exactReport hostile (.ofList [("a\n", ())])
      fun _ _ => (.ok "z" : Except Error String)).missing = [] := by
    decide
  have hunexpected : (exactReport hostile (.ofList [("a\n", ())])
      fun _ _ => (.ok "z" : Except Error String)).unexpected = [] := by
    decide
  have hunbroken : Report.Unbroken ⟨"S", .bornDigitalSip⟩
      (exactReport hostile (.ofList [("a\n", ())])
        fun _ _ => (.ok "z" : Except Error String)) :=
    ⟨by decide, by rw [hmissing]; exact nofun, by rw [hunexpected]; exact nofun⟩
  exact ⟨_, hok, hnodup,
    (hmem _ _ _).2 ⟨⟨"i", "MD5", "x\" (expected: \"y"⟩, by decide, by decide, rfl, rfl, by decide⟩,
    hstays _ _ _, (hprinted false _).1.2 hunbroken⟩

/-- A manifest of one path, in which line breaks lead to a line about another file. -/
def forging : Manifest :=
  .ofList [("x\n\nChecksum mismatches (1):\n  - " ++ mismatchLine "victim" "a" "b",
    ⟨"i", "MD5", "a"⟩)]

/-- A manifest of two paths. -/
def honest : Manifest :=
  .ofList [("victim", ⟨"i", "MD5", "a"⟩), ("x", ⟨"i", "MD5", "a"⟩)]

/-- Where no file is there for the one path, what is printed is what there would be if a path `x`
were missing and the checksum of a file `victim` differed. -/
theorem verification_forged :
    ∃ forged mismatched,
      reconcile forging (.ofList []) (fun _ _ => (.ok "b" : Except Error String)) = .ok forged ∧
      reconcile honest (.ofList [("victim", ())])
        (fun _ _ => (.ok "b" : Except Error String)) = .ok mismatched ∧
      forged.mismatches = [] ∧
      mismatched.mismatches = [mismatchLine "victim" "a" "b"] ∧
      Report.verification false ⟨"S", .bornDigitalSip⟩ forged =
        Report.verification false ⟨"S", .bornDigitalSip⟩ mismatched := by
  have hanswers {manifest : Manifest} {files : FileSet} : ∀ entry ∈ common manifest files,
      Answers (fun _ _ => (.ok "b" : Except Error String)) entry := fun _ _ => ⟨"b", rfl⟩
  exact ⟨_, _, reconcile_eq_ok_iff.2 ⟨hanswers, rfl⟩, reconcile_eq_ok_iff.2 ⟨hanswers, rfl⟩,
    by decide +kernel, by decide +kernel, by decide +kernel⟩

end Package

end Accession

import Accession.Proofs.Json.Written
import Accession.Proofs.Lists
import Accession.Restructured.Sidecar
set_option autoImplicit false

/-!
# Sidecars read back

The records of a sidecar can be read off its text, whatever their files and identifiers are. The
text ends with a single line break, and its control characters are the line breaks of its layout:
their number depends on how many records there are, and how many identifiers each of them has, and
not on what they hold.

## Main definitions

* `Restructured.Record.lineCount`, `Restructured.lineCount` — the lines of a record and of a
  sidecar.

## Main results

* `Restructured.readSidecar_eq` — the records are read off the text.
* `Restructured.controls_sidecar` — the control characters of the text are its line breaks.
* `Restructured.readSidecar_sidecar` — all about the text of a sidecar.
-/

namespace Accession.Restructured

open Json (HasBreaks breaksAround controls)

/-! ### Records -/

/-- An identifier is read back from its value. -/
theorem LocalIdentifier.ofJson?_toJson (id : LocalIdentifier) :
    LocalIdentifier.ofJson? id.toJson = some id :=
  rfl

/-- A record is read back from its value. -/
theorem Record.ofJson?_toJson (record : Record) : Record.ofJson? record.toJson = some record := by
  have hidentifiers := List.mapM_map_eq_some LocalIdentifier.ofJson?_toJson record.identifiers
  change ((some record.file).bind fun file =>
    ((record.identifiers.map (·.toJson)).mapM LocalIdentifier.ofJson?).bind fun identifiers =>
      some (⟨file, identifiers⟩ : Record)) = some record
  rw [hidentifiers]
  rfl

/-! ### Texts -/

/-- A sidecar is the list of its records and a line break. -/
theorem sidecar_eq (records : List Record) :
    sidecar records =
      String.ofList (Json.renderAt 4 0 (.list (records.map (·.toJson))) ++ ['\n']) := by
  rw [sidecar, Json.render, String.ofList_append]

/-- **The records are read off the text of their sidecar.** -/
theorem readSidecar_eq (records : List Record) :
    readSidecar (sidecar records) = some records := by
  have hblank : ∀ c ∈ ['\n'], Json.isBlank c = true := List.forall_mem_singleton.2 rfl
  rw [readSidecar, sidecar_eq, Json.parse_ofList_renderAt_append 4 _ hblank]
  exact List.mapM_map_eq_some Record.ofJson?_toJson records

/-- A sidecar ends with the closing bracket of its list and a line break. -/
theorem exists_sidecar_eq (records : List Record) : ∃ body, sidecar records = body ++ "]\n" := by
  have hlist : ∀ items, ∃ body, Json.renderAt 4 0 (.list items) = body ++ [']'] := by
    intro items
    cases items with
    | nil => exact ⟨['['], by rw [Json.renderAt]; rfl⟩
    | cons item items => exact ⟨_, by rw [Json.renderAt]⟩
  obtain ⟨body, hbody⟩ := hlist (records.map (·.toJson))
  refine ⟨String.ofList body, ?_⟩
  rw [sidecar_eq, hbody, List.append_assoc, String.ofList_append]
  rfl

/-! ### Lines -/

/-- The lines of a record: one for each brace, one for the file, and one for the identifiers if
there are none. Otherwise these take a line for each bracket, and each of them has four. -/
def Record.lineCount (record : Record) : Nat :=
  if record.identifiers.isEmpty then 4 else 5 + 4 * record.identifiers.length

/-- The lines of a sidecar: those of the records between two brackets. -/
def lineCount (records : List Record) : Nat :=
  if records.isEmpty then 1 else 2 + (records.map (·.lineCount)).sum

/-- What is written of several things has the line breaks of each. -/
theorem forall₂_hasBreaks_map {α : Type} {count : α → Nat} {write : α → Json}
    (h : ∀ a, HasBreaks 4 (count a) (write a)) (items : List α) :
    List.Forall₂ (HasBreaks 4) (items.map count) (items.map write) := by
  rw [List.forall₂_map_left_iff, List.forall₂_map_right_iff, List.forall₂_same]
  exact fun a _ => h a

/-- An identifier takes three line breaks: one in front of each of its two fields and one behind
them. -/
theorem LocalIdentifier.hasBreaks_toJson (id : LocalIdentifier) : HasBreaks 4 3 id.toJson := by
  have hfields : HasBreaks 4 (breaksAround [0, 0]) id.toJson :=
    Json.hasBreaks_record (.cons (Json.hasBreaks_string 4 _)
      (.cons (Json.hasBreaks_string 4 _) .nil))
  exact hfields

/-- The line breaks inside a record are those between its lines. -/
theorem Record.hasBreaks_toJson (record : Record) :
    HasBreaks 4 (record.lineCount - 1) record.toJson := by
  have hidentifiers := Json.hasBreaks_list
    (forall₂_hasBreaks_map LocalIdentifier.hasBreaks_toJson record.identifiers)
  have hfields : HasBreaks 4
      (breaksAround [0, breaksAround (record.identifiers.map fun _ => 3)]) record.toJson :=
    Json.hasBreaks_record (.cons (Json.hasBreaks_string 4 _) (.cons hidentifiers .nil))
  have hcount : record.lineCount - 1 =
      breaksAround [0, breaksAround (record.identifiers.map fun _ => 3)] := by
    rw [lineCount]
    cases record.identifiers with
    | nil => rfl
    | cons id identifiers =>
      simp only [List.isEmpty_cons, Bool.false_eq_true, if_false, List.map_const', List.map_cons,
        List.length_cons, List.length_replicate, List.length_nil, List.sum_cons, List.sum_nil,
        List.sum_replicate_nat, breaksAround]
      omega
  rw [hcount]
  exact hfields

/-- A record takes at least one line. -/
theorem Record.one_le_lineCount (record : Record) : 1 ≤ record.lineCount := by
  rw [lineCount]
  split <;> omega

/-- The last line of each record ends outside of it. -/
theorem sum_lineCount (records : List Record) :
    (records.map (·.lineCount)).sum =
      (records.map fun record => record.lineCount - 1).sum + records.length := by
  induction records with
  | nil => rfl
  | cons record records ih =>
    have hline := record.one_le_lineCount
    rw [List.map_cons, List.map_cons, List.sum_cons, List.sum_cons, List.length_cons, ih]
    omega

/-- **The control characters of a sidecar are the ends of its lines.** -/
theorem controls_sidecar (records : List Record) :
    controls (sidecar records).toList = List.replicate (lineCount records) '\n' := by
  have hrecords := Json.hasBreaks_list (forall₂_hasBreaks_map Record.hasBreaks_toJson records) 0
  have hend : controls ['\n'] = ['\n'] := by decide
  have hcount : lineCount records =
      breaksAround (records.map fun record => record.lineCount - 1) + 1 := by
    rw [lineCount, sum_lineCount]
    cases records with
    | nil => rfl
    | cons record records =>
      simp only [List.isEmpty_cons, Bool.false_eq_true, if_false, List.map_cons, List.length_cons,
        List.length_map, List.sum_cons, breaksAround]
      omega
  rw [sidecar_eq, String.toList_ofList, Json.controls_append, hrecords, hend, hcount,
    List.replicate_succ']

/-- **A sidecar reads back.** The records can be read off its text, whatever texts they hold. It
ends with a single line break, and its control characters are the ends of its lines: brackets,
braces, files and identifiers have them, whatever they hold.

**Proof sketch.** The reader takes each value off its written form, whatever follows; the escaped
texts hold no control character, so the line breaks are those of the layout. -/
theorem readSidecar_sidecar (records : List Record) :
    readSidecar (sidecar records) = some records ∧
    (∃ body, sidecar records = body ++ "]\n") ∧
    (sidecar records).toList.filter (·.toNat < 0x20) =
      List.replicate (lineCount records) '\n' :=
  ⟨readSidecar_eq records, exists_sidecar_eq records, controls_sidecar records⟩

end Accession.Restructured

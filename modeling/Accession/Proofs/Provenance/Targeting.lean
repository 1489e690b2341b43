import Accession.Proofs.Lists
import Accession.Proofs.Provenance.Recording
import Accession.Proofs.Provenance.Validating
import Accession.Proofs.Text.Utf8
set_option autoImplicit false

/-!
# Validations on any PREMIS file

What comes of a validation, whatever its PREMIS file holds: objects may lack a name or share one,
and records may stand in any order. The names that a validation is about are those whose format the
validator covers, in the order of their octets. So the first name without an object is the least
one, and that is reported; if each name has an object, the first one with the name is linked.

## Main definitions

* `Provenance.Context.nextRecord` — the record of the next event.
* `Provenance.premisTree` — a PREMIS file with a text, and nothing else.

## Main results

* `Provenance.encode_le_of_find?` — the first of the names that are missing is the least one.
* `Provenance.change_recordValidation_of_holds` — a validation whose objects are there.
* `Provenance.run_recordValidation` — a validation is about nothing, fails, or is recorded.
-/

namespace Accession.Provenance

variable {validator : Validator} {formats : FormatMap}

/-! ### Names in order -/

/-- **Of texts in order, the first one with a property is the least one** by the order of octets. -/
theorem encode_le_of_find? {names : List String} (hsorted : names.Pairwise (· < ·))
    {p : String → Bool} {name : String} (hfind : names.find? p = some name) {other : String}
    (hother : other ∈ names) (hp : p other = true) :
    Utf8.encode name.toList ≤ Utf8.encode other.toList := by
  obtain ⟨-, before, after, rfl, hbefore⟩ := List.find?_eq_some_iff_append.1 hfind
  obtain ⟨-, hafter, -⟩ := List.pairwise_append.1 hsorted
  rw [← List.not_lt, Utf8.encode_lt_encode_iff]
  rcases List.mem_append.1 hother with hearlier | hlater
  · have hnot := hbefore other hearlier
    simp [hp] at hnot
  · rcases List.mem_cons.1 hlater with rfl | hrest
    · exact String.lt_irrefl other
    · exact String.lt_asymm (List.rel_of_pairwise_cons hafter hrest)

/-! ### Changes -/

/-- The record of the next event: it has the next identifier and the next time. -/
def Context.nextRecord (context : Context) (summary : Summary) (agent : Agent) : EventRecord where
  identifier := .uuid context.ids.take.1
  eventType := summary.eventType
  dateTime := context.times.take.1.render
  detail := summary.detail
  outcome := summary.outcome
  outcomeDetail := summary.outcomeDetail
  linkingAgent := agent.identifier

/-- **A validation whose objects are there is recorded**: its event is new, each object that it is
about is linked to it, and its agent is there. -/
theorem change_recordValidation_of_holds {d : Document}
    (hholds : d.Holds (.named (covered validator formats))) (summary : Summary) (files : FileTree)
    (context : Context) :
    let targets := Targets.named (covered validator formats)
    let id := Identifier.uuid context.ids.take.1
    let d' := d.after [.event summary validator.agent targets context, .agent validator.agent]
    (Request.recordValidation summary validator formats).change files d context =
        .ok (.recorded id, d', ⟨context.ids.take.2, context.times.take.2⟩) ∧
      (∃ before after, d.events = before ++ after ∧
        d'.events = before ++ [context.nextRecord summary validator.agent] ++ after) ∧
      d'.objects = d.objects.mapIdx (fun i object =>
        if targets.picks d.objects i object then object.link id else object) ∧
      ∀ agent, d'.agents.count agent =
        if agent = validator.agent then max 1 (d.agents.count agent)
        else d.agents.count agent := by
  intro targets id d'
  obtain ⟨places, hplaces⟩ := Document.exists_targetPlaces_iff.2 hholds
  obtain ⟨linked, before, after, hevent, hold, hnew, hobjects, hagents⟩ :=
    Document.exists_appendEvent_of_places hplaces summary validator.agent context
  have hd' : d' = (linked.appendAgent validator.agent).2 := by
    show ((d.apply (.event summary validator.agent targets context)).appendAgent _).2 = _
    rw [Document.apply, hevent]
  rw [hd']
  refine ⟨?_, ⟨before, after, hold, ?_⟩, ?_, fun agent => ?_⟩
  · rw [Request.change, hevent]
    rfl
  · rw [Document.events_appendAgent]
    exact hnew
  · rw [Document.objects_appendAgent, hobjects]
    refine congrArg (List.mapIdx · d.objects) (funext fun i => funext fun object => ?_)
    rw [(distinct_covered validator formats).mentions_eq]
    split <;> rfl
  · rw [Document.count_agents_appendAgent, hagents]
    split
    · subst agent
      rfl
    · rfl

/-- A validation fails at the first name that no object has. -/
theorem change_recordValidation_of_missing {d : Document} {name : String}
    (hmissing : (covered validator formats).find? (· ∉ d.objects.map (·.originalName)) = some name)
    (summary : Summary) (files : FileTree) (context : Context) :
    (Request.recordValidation summary validator formats).change files d context =
      .error (.objectNotFound name) := by
  have hne : covered validator formats ≠ [] :=
    List.ne_nil_of_mem (List.mem_of_find?_eq_some hmissing)
  rw [Request.change, Document.appendEvent_eq, Document.targetPlaces_named_eq d hne, hmissing]
  rfl

/-! ### Runs -/

/-- Without names a validation leaves the workspace alone, whatever the PREMIS file holds. -/
theorem run_of_covered_eq_nil {premis : String} {summary : Summary} {w : Workspace}
    (hnil : covered validator formats = []) :
    (Request.recordValidation summary validator formats).run premis w = (.ok .uncovered, w) := by
  have hidle : (Request.recordValidation summary validator formats).isIdle = true :=
    List.isEmpty_iff.2 hnil
  rw [Request.run_eq, if_pos hidle]

/-- Only a validation without names says that it is about nothing. -/
theorem fst_run_eq_uncovered_iff (premis : String) {summary : Summary} (w : Workspace) :
    ((Request.recordValidation summary validator formats).run premis w).1 = .ok .uncovered ↔
      covered validator formats = [] := by
  constructor
  · intro hrun
    by_contra hne
    have hbusy : (Request.recordValidation summary validator formats).isIdle = false :=
      List.isEmpty_eq_false_iff.2 hne
    obtain ⟨_, _, -, hchange, -⟩ := Request.exists_of_run_eq_ok hbusy (Prod.ext hrun rfl)
    exact Request.ne_uncovered_of_change hchange rfl
  · intro hnil
    rw [run_of_covered_eq_nil hnil]

/-- If names have no object, a validation fails with the first one and leaves the workspace
alone. -/
theorem run_of_missing {premis : String} {w : Workspace} {d : Document}
    (hload : Document.load w.files premis = .ok d) {name : String}
    (hmissing : (covered validator formats).find? (· ∉ d.objects.map (·.originalName)) = some name)
    (summary : Summary) :
    (Request.recordValidation summary validator formats).run premis w =
      (.error (.objectNotFound name), w) := by
  have hne : covered validator formats ≠ [] :=
    List.ne_nil_of_mem (List.mem_of_find?_eq_some hmissing)
  have hbusy : ¬(Request.recordValidation summary validator formats).isIdle = true :=
    mt List.isEmpty_iff.1 hne
  rw [Request.run_eq, if_neg hbusy, hload]
  dsimp only
  rw [change_recordValidation_of_missing hmissing]

/-- **A validation on any PREMIS file that can be loaded and written.** It is about the names whose
format its validator covers. If there are none, and only then, nothing happens. If some of them have
no object, it fails with the least of these in the order of octets, and nothing is written or taken
from the context. Otherwise the document is written with one event and the validator's agent added.
The first object of each name gains one link to the event, and no other object any. The agent is
there as often as before, or once if it was not there.

**Proof sketch.** The covered names come in the order of octets, so the first that no object has is
the least. If there is none, the event is recorded as any other, and its links are counted object by
object. -/
theorem run_recordValidation {premis : String} {w : Workspace} {d : Document} {t : FileTree}
    {octets : List UInt8} (hload : Document.load w.files premis = .ok d)
    (hwrite : Files.write w.files premis octets = .ok t) (summary : Summary)
    (validator : Validator) (formats : FormatMap) :
    let request := Request.recordValidation summary validator formats
    let names := covered validator formats
    let id := Identifier.uuid w.context.ids.take.1
    (∀ name, name ∈ names ↔
      ∃ format, formats.find? name = some format ∧ validator.covers format = true) ∧
    ((request.run premis w).1 = .ok .uncovered ↔ names = []) ∧
    (names = [] → (request.run premis w).2 = w) ∧
    ((∃ name ∈ names, name ∉ d.objects.map (·.originalName)) →
      ∃ name ∈ names, name ∉ d.objects.map (·.originalName) ∧
        (∀ other ∈ names, other ∉ d.objects.map (·.originalName) →
          Utf8.encode name.toList ≤ Utf8.encode other.toList) ∧
        request.run premis w = (.error (.objectNotFound name), w)) ∧
    (names ≠ [] → (∀ name ∈ names, name ∈ d.objects.map (·.originalName)) →
      ∃ d' t' before after,
        request.run premis w =
          (.ok (.recorded id), ⟨t', ⟨w.context.ids.take.2, w.context.times.take.2⟩⟩) ∧
        Files.write w.files premis (Utf8.encode d'.render.toList) = .ok t' ∧
        d' = d.after [.event summary validator.agent (.named names) w.context,
          .agent validator.agent] ∧
        d.events = before ++ after ∧
        d'.events = before ++ [w.context.nextRecord summary validator.agent] ++ after ∧
        d'.objects = d.objects.mapIdx (fun i object =>
          if (Targets.named names).picks d.objects i object then object.link id else object) ∧
        ∀ agent, d'.agents.count agent =
          if agent = validator.agent then max 1 (d.agents.count agent)
          else d.agents.count agent) := by
  intro request names id
  refine ⟨fun name => mem_covered validator formats, fst_run_eq_uncovered_iff premis w,
    fun hnil => ?_, fun ⟨name, hname, hunknown⟩ => ?_, fun hne hknown => ?_⟩
  · rw [run_of_covered_eq_nil hnil]
  · have hsome : (names.find? (· ∉ d.objects.map (·.originalName))).isSome :=
      List.find?_isSome.2 ⟨name, hname, decide_eq_true hunknown⟩
    obtain ⟨least, hfind⟩ := Option.isSome_iff_exists.1 hsome
    have hleast := List.find?_some hfind
    exact ⟨least, List.mem_of_find?_eq_some hfind, of_decide_eq_true hleast,
      fun other hother hunknown' => encode_le_of_find? (sorted_covered validator formats)
        hfind hother (decide_eq_true hunknown'),
      run_of_missing hload hfind summary⟩
  · have hbusy : request.isIdle = false := List.isEmpty_eq_false_iff.2 hne
    obtain ⟨hchange, ⟨before, after, hold, hnew⟩, hobjects, hagents⟩ :=
      change_recordValidation_of_holds (d := d) ⟨hne, hknown⟩ summary w.files w.context
    obtain ⟨t', hwrite'⟩ := Files.exists_write_of_write hwrite _
    exact ⟨_, t', before, after,
      Request.run_of_ok hbusy hload hchange (Document.save_eq_ok_iff.2 hwrite'), hwrite', rfl,
      hold, hnew, hobjects, hagents⟩

/-- A file `p` with a text, and nothing else. -/
def premisTree (text : String) : FileTree :=
  (Files.put .empty [] "p" (.file (Utf8.encode text.toList))).toOption.getD .empty

/-- The file holds the octets of the text. -/
theorem read_premisTree (text : String) :
    Files.read (premisTree text) "p" = .ok (Utf8.encode text.toList) := by
  have hnode : (premisTree text).node? ["p"] = some (.file (Utf8.encode text.toList)) := rfl
  exact Files.read_eq_ok_iff.2 ⟨["p"], Files.resolve_of_proper (by decide) rfl nofun, hnode⟩

/-- What is read from the text is loaded. -/
theorem load_premisTree {text : String} {d : Document} (h : Document.parseText text = .ok d) :
    Document.load (premisTree text) "p" = .ok d := by
  rw [Document.load, read_premisTree]
  exact h

/-- A validator that covers nothing, one that covers the format of files without an object, and one
that covers the formats of files with objects of which two share a name. -/
theorem run_recordValidation_shared :
    let w : Workspace := ⟨premisTree sharedText, numberedContext⟩
    let agent : Agent := .software "v" "1"
    let formats : FormatMap :=
      Index.ofList [("c", "fmt/2"), ("b", "fmt/2"), ("a", "fmt/1"), ("", "fmt/1")]
    let run (covers : List String) :=
      (Request.recordValidation checkup (.ofFormats agent covers) formats).run "p" w
    Document.load w.files "p" = .ok sharedDocument ∧
    (∃ t, Files.write w.files "p" [] = .ok t) ∧
    run [] = (.ok .uncovered, w) ∧
    run ["fmt/1", "fmt/2"] = (.error (.objectNotFound "b"), w) ∧
    ∃ (d : Document) (t : FileTree) (context : Context),
      run ["fmt/1"] = (.ok (.recorded (.uuid "event-1")), ⟨t, context⟩) ∧
      Files.write w.files "p" (Utf8.encode d.render.toList) = .ok t ∧
      d.objects.map (·.linkedEvents) = [[.uuid "event-1"], [], [.uuid "event-1"]] := by
  intro w agent formats run
  have hload : Document.load w.files "p" = .ok sharedDocument :=
    load_premisTree (Except.eq_ok_of_toOption (by decide +kernel))
  obtain ⟨t, hwrite⟩ := Files.exists_write_of_read (read_premisTree sharedText) []
  have hcases (covers : List String) :=
    run_recordValidation hload hwrite checkup (.ofFormats agent covers) formats
  have hnone : covered (.ofFormats agent []) formats = [] := by decide +kernel
  have hsome : covered (.ofFormats agent ["fmt/1"]) formats = ["", "a"] := by decide +kernel
  have hall : covered (.ofFormats agent ["fmt/1", "fmt/2"]) formats = ["", "a", "b", "c"] := by
    decide +kernel
  have hid : Identifier.uuid w.context.ids.take.1 = .uuid "event-1" := by decide +kernel
  refine ⟨hload, ⟨t, hwrite⟩, ?_, ?_, ?_⟩
  · obtain ⟨-, hcovered, hleft, -⟩ := hcases []
    exact Prod.ext (hcovered.2 hnone) (hleft hnone)
  · obtain ⟨-, -, -, hmissing, -⟩ := hcases ["fmt/1", "fmt/2"]
    rw [hall] at hmissing
    obtain ⟨name, hname, hunknown, hleast, hrun⟩ := hmissing ⟨"b", by decide, by decide +kernel⟩
    have hb := hleast "b" (by decide) (by decide +kernel)
    simp only [List.mem_cons, List.not_mem_nil, or_false] at hname
    rcases hname with rfl | rfl | rfl | rfl
    · exact absurd (by decide +kernel) hunknown
    · exact absurd (by decide +kernel) hunknown
    · exact hrun
    · exact absurd hb (by decide +kernel)
  · obtain ⟨-, -, -, -, hrecorded⟩ := hcases ["fmt/1"]
    rw [hsome, hid] at hrecorded
    obtain ⟨d, t', -, -, hrun, hwrite', -, -, -, hobjects, -⟩ :=
      hrecorded (List.cons_ne_nil _ _) (by decide +kernel)
    refine ⟨d, t', _, hrun, hwrite', ?_⟩
    rw [hobjects]
    decide +kernel

end Accession.Provenance

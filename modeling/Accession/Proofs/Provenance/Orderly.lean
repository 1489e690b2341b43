import Accession.Proofs.Lists
import Accession.Proofs.Provenance.Activities
import Accession.Proofs.Provenance.Records
import Accession.Proofs.Provenance.Resaving
set_option autoImplicit false

/-!
# Orderly documents

What requests do to a document keeps it orderly, wherever the identifiers come from: it is read back
as it was written, its records stand in the order of their kinds, and each original name is that of
one object.

## Main definitions

* `Provenance.Document.Orderly` — the invariant.

## Main results

* `Provenance.Document.Orderly.change` — every change of a request keeps the invariant.
-/

namespace Accession.Provenance

namespace Document

/-- A document that is read back from its written form, in which the records stand in the order of
their kinds and no two objects have the same original name. -/
structure Orderly (d : Document) : Prop where
  laidOut : d.LaidOut
  ordered : Ordered d.root.children
  names_nodup : (d.objects.map (·.originalName)).Nodup

/-- A new document is orderly. -/
theorem orderly_new : Orderly new :=
  ⟨laidOut_new, .nil, .nil⟩

/-! ### Calls -/

section Calls

variable {d : Document} (h : Orderly d)

include h

/-- An orderly document stays so with an object more. -/
theorem Orderly.appendObject (originalName : String) (id : Identifier) :
    Orderly (d.appendObject originalName id).2 := by
  have hlaidOut := h.laidOut.apply (.object originalName id)
  rw [apply] at hlaidOut
  by_cases hknown : originalName ∈ d.objects.map (·.originalName)
  · rw [appendObject_of_known hknown]
    exact h
  · obtain ⟨d', hadded, hordered, hobjects, -⟩ := appendObject_of_new h.ordered hknown id
    rw [hadded] at hlaidOut ⊢
    refine ⟨hlaidOut, hordered, ?_⟩
    rw [hobjects, List.map_append]
    exact h.names_nodup.append (List.nodup_singleton _) (by simpa using hknown)

/-- An orderly document stays so with an agent more. -/
theorem Orderly.appendAgent (agent : Agent) : Orderly (d.appendAgent agent).2 := by
  have hlaidOut := h.laidOut.apply (.agent agent)
  rw [apply] at hlaidOut
  by_cases hknown : agent ∈ d.agents
  · rw [appendAgent_of_known hknown]
    exact h
  · obtain ⟨d', hadded, hordered, hobjects, -⟩ := appendAgent_of_new h.ordered hknown
    rw [hadded] at hlaidOut ⊢
    refine ⟨hlaidOut, hordered, ?_⟩
    rw [hobjects]
    exact h.names_nodup

/-- An orderly document stays so with an event more whose targets are listed once. -/
theorem Orderly.appendEvent {targets : Targets} (htargets : targets.Distinct) {summary : Summary}
    {agent : Agent} {context context' : Context} {id : Identifier} {d' : Document}
    (hevent : d.appendEvent summary agent targets context = .ok (id, d', context')) :
    Orderly d' := by
  have hlaidOut := h.laidOut.apply (.event summary agent targets context)
  rw [apply, hevent] at hlaidOut
  cases hplaces : d.targetPlaces targets with
  | error error =>
    rw [appendEvent_eq, hplaces] at hevent
    cases hevent
  | ok places =>
    obtain ⟨d'', hevent', hordered, hobjects, -⟩ :=
      appendEvent_of_places h.ordered h.names_nodup htargets hplaces summary agent context
    rw [hevent'] at hevent
    cases hevent
    refine ⟨hlaidOut, hordered, ?_⟩
    rw [hobjects, ObjectRecord.map_originalName_link]
    exact h.names_nodup

end Calls

end Document

/-! ### Changes -/

section Covered

variable (validator : Validator) (formats : FormatMap)

/-- A file is covered if its format is. -/
theorem mem_covered {name : String} :
    name ∈ covered validator formats ↔
      ∃ format, formats.find? name = some format ∧ validator.covers format = true := by
  simp [covered, Index.mem_entries_iff]

/-- Covered files stand in the order of their names. -/
theorem sorted_covered : (covered validator formats).Pairwise (· < ·) := by
  rw [covered, List.pairwise_map]
  exact formats.sorted.filter _

/-- No file is covered twice. -/
theorem distinct_covered : (Targets.named (covered validator formats)).Distinct := by
  refine (sorted_covered validator formats).imp fun {name other} hlt heq => ?_
  rw [heq] at hlt
  exact String.lt_irrefl other hlt

end Covered

/-- Objects are recorded one after the other: what each of them keeps, all of them keep. -/
theorem recordPaths_induction {p : Document → Context → Prop}
    (hstep : ∀ path d context, p d context →
      p (d.appendObject (originalName path) (.uuid context.nextId.1)).2 context.nextId.2)
    (paths : List String) {d : Document} {context : Context} (h : p d context) :
    p (recordPaths paths d context).2.1 (recordPaths paths d context).2.2 :=
  List.foldlRecOn paths _ (motive := fun s : Nat × Document × Context => p s.2.1 s.2.2) h
    fun s hs path _ => hstep path s.2.1 s.2.2 hs

/-- **Every change of a request keeps a document orderly.** -/
theorem Document.Orderly.change {d d' : Document} (h : Orderly d) {request : Request}
    {files : FileTree} {context context' : Context} {response : Response}
    (hchange : request.change files d context = .ok (response, d', context')) : Orderly d' := by
  cases request with
  | recordObjects content =>
    rw [Request.change] at hchange
    obtain ⟨paths, -, hrecorded⟩ := Except.exists_of_map_eq_ok hchange
    cases hrecorded
    exact recordPaths_induction (p := fun d _ => Orderly d)
      (fun path d context h => h.appendObject _ _) paths h
  | recordAgent agent =>
    cases hchange
    exact h.appendAgent agent
  | recordEvent summary agent =>
    rw [Request.change] at hchange
    obtain ⟨⟨id, d₁, context₁⟩, hevent, hrecorded⟩ := Except.exists_of_map_eq_ok hchange
    cases hrecorded
    exact (h.appendAgent agent).appendEvent (show Targets.all.Distinct from trivial) hevent
  | recordValidation summary validator formats =>
    rw [Request.change] at hchange
    obtain ⟨⟨id, d₁, context₁⟩, hevent, hrecorded⟩ := Except.exists_of_map_eq_ok hchange
    cases hrecorded
    exact (h.appendEvent (distinct_covered validator formats) hevent).appendAgent validator.agent

end Accession.Provenance

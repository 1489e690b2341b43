import Accession.Proofs.Files.Writing
import Accession.Proofs.Lists
import Accession.Provenance.Activity
set_option autoImplicit false

/-!
# What activities do to the files

An activity loads a document, changes it and writes it back as its last step. So it writes the one
file that its path leads to, or nothing at all.

## Main definitions

* `Provenance.Request` — the activities with what they are asked for.
* `Provenance.Request.change` — what a request does to a loaded document.

## Main results

* `Provenance.Request.run_eq` — every request loads, changes and saves.
* `Provenance.Request.files_run` — what a request leaves of the files.
-/

namespace Accession.Provenance

/-! ### Running activities -/

section Steps

variable {ε α β : Type}

/-- One step runs, and what follows it goes on from its workspace. -/
theorem run_bind (step : ExceptT ε (StateM Workspace) α)
    (next : α → ExceptT ε (StateM Workspace) β) (w : Workspace) :
    (step >>= next).run.run w =
      match step.run.run w with
      | (.ok a, w) => (next a).run.run w
      | (.error error, w) => (.error error, w) := by
  rw [ExceptT.run_bind, StateT.run_bind]
  rcases step.run.run w with ⟨_ | _, w⟩ <;> rfl

/-- The workspace is read without a change to it. -/
theorem run_get (w : Workspace) :
    (get : ExceptT ε (StateM Workspace) Workspace).run.run w = (.ok w, w) :=
  rfl

/-- The workspace is replaced. -/
theorem run_set (w w' : Workspace) :
    (set w' : ExceptT ε (StateM Workspace) PUnit).run.run w = (.ok ⟨⟩, w') :=
  rfl

end Steps

/-- Looking at the files leaves the workspace alone. -/
theorem run_look {α : Type} (f : FileTree → Except Error α) (w : Workspace) :
    (look f).run.run w = (f w.files, w) := by
  rw [look, run_bind, run_get]
  dsimp only
  cases f w.files <;> rfl

/-- A document is saved, or the workspace is left alone. -/
theorem run_save (premis : String) (d : Document) (w : Workspace) :
    (save premis d).run.run w =
      match d.save w.files premis with
      | .ok files => (.ok (), { w with files })
      | .error error => (.error error, w) := by
  rw [save, run_bind, run_look]
  cases d.save w.files premis <;> rfl

/-- Recording an event takes an identifier and a time, unless it is refused. -/
theorem run_recordEvent (d : Document) (summary : Summary) (agent : Agent) (targets : Targets)
    (w : Workspace) :
    (recordEvent d summary agent targets).run.run w =
      match d.appendEvent summary agent targets w.context with
      | .ok (id, d, context) => (.ok (id, d), { w with context })
      | .error error => (.error error, w) := by
  rw [recordEvent, run_bind, run_get]
  dsimp only
  cases d.appendEvent summary agent targets w.context <;> rfl

/-! ### Requests -/

/-- What can be asked for on a PREMIS file. -/
inductive Request where
  /-- To record the files below a content directory. -/
  | recordObjects (content : String)
  | recordAgent (agent : Agent)
  /-- To record an event that concerns every object. -/
  | recordEvent (summary : Summary) (agent : Agent)
  /-- To record a validation of the files whose format a validator covers. -/
  | recordValidation (summary : Summary) (validator : Validator) (formats : FormatMap)

/-- What is said to a request that succeeds. -/
inductive Response where
  | counted (added : Nat)
  | added (isNew : Bool)
  | recorded (id : Identifier)
  /-- No file has a format that the validator covers. -/
  | uncovered
  deriving DecidableEq, Repr

namespace Request

/-- The activity that is asked for. -/
def perform (premis : String) : Request → Activity Response
  | .recordObjects content => return .counted (← addObjects premis content)
  | .recordAgent agent => return .added (← addAgent premis agent)
  | .recordEvent summary agent => return .recorded (← addEvent premis summary agent)
  | .recordValidation summary validator formats => do
    match ← addValidationEvent premis summary validator formats with
    | some id => return .recorded id
    | none => return .uncovered

/-- What comes of a request, and the workspace afterwards. -/
def run (premis : String) (request : Request) (w : Workspace) :
    Except Error Response × Workspace :=
  (request.perform premis).run.run w

/-! ### Loading, changing, saving -/

/-- Whether there is nothing to record, so that not even the document is loaded. -/
def isIdle : Request → Bool
  | .recordValidation _ validator formats => (covered validator formats).isEmpty
  | _ => false

/-- What a request does to a loaded document. -/
def change (files : FileTree) (d : Document) (context : Context) :
    Request → Except Error (Response × Document × Context)
  | .recordObjects content =>
    (contentFiles files content).map fun paths =>
      let (added, d, context) := recordPaths paths d context
      (.counted added, d, context)
  | .recordAgent agent =>
    let (isNew, d) := d.appendAgent agent
    .ok (.added isNew, d, context)
  | .recordEvent summary agent =>
    ((d.appendAgent agent).2.appendEvent summary agent .all context).map fun (id, d, context) =>
      (.recorded id, d, context)
  | .recordValidation summary validator formats =>
    let names := covered validator formats
    (d.appendEvent summary validator.agent (.named names) context).map fun (id, d, context) =>
      (.recorded id, (d.appendAgent validator.agent).2, context)

/-- **Every request loads the document, changes it and saves it**, up to the first of the three that
fails. -/
theorem run_eq (premis : String) (request : Request) (w : Workspace) :
    request.run premis w =
      if request.isIdle then (.ok .uncovered, w)
      else
        match Document.load w.files premis with
        | .error error => (.error error, w)
        | .ok d =>
          match request.change w.files d w.context with
          | .error error => (.error error, w)
          | .ok (response, d, context) =>
            match d.save w.files premis with
            | .error error => (.error error, { w with context })
            | .ok files => (.ok response, ⟨files, context⟩) := by
  cases request with
  | recordObjects content =>
    simp only [run, perform, addObjects, load, run_bind, run_look, run_get, run_set, run_save,
      change]
    cases Document.load w.files premis with
    | error => rfl
    | ok d =>
      dsimp only
      cases contentFiles w.files content with
      | error => rfl
      | ok paths =>
        dsimp only [Except.map, isIdle]
        obtain ⟨added, d, context⟩ := recordPaths paths d w.context
        dsimp only
        cases d.save w.files premis <;> rfl
  | recordAgent agent =>
    simp only [run, perform, addAgent, load, run_bind, run_look, run_save, change]
    cases Document.load w.files premis with
    | error => rfl
    | ok d =>
      dsimp only
      cases (d.appendAgent agent).2.save w.files premis <;> rfl
  | recordEvent summary agent =>
    simp only [run, perform, addEvent, load, run_bind, run_look, run_recordEvent, run_save, change]
    cases Document.load w.files premis with
    | error => rfl
    | ok d =>
      dsimp only
      cases (d.appendAgent agent).2.appendEvent summary agent .all w.context with
      | error => rfl
      | ok recorded =>
        obtain ⟨id, d, context⟩ := recorded
        dsimp only [Except.map]
        cases d.save w.files premis <;> rfl
  | recordValidation summary validator formats =>
    simp only [run, perform, addValidationEvent]
    by_cases hidle : isIdle (recordValidation summary validator formats) = true
    · -- a validation that covers nothing ends before the document is loaded
      have hempty : (covered validator formats).isEmpty = true := hidle
      rw [if_pos hidle, if_pos hempty]
      rfl
    · have hempty : ¬(covered validator formats).isEmpty = true := hidle
      rw [if_neg hidle, if_neg hempty]
      simp only [load, run_bind, run_look, run_recordEvent, run_save, change]
      cases Document.load w.files premis with
      | error => rfl
      | ok d =>
        dsimp only
        cases d.appendEvent summary validator.agent (.named (covered validator formats))
          w.context with
        | error => rfl
        | ok recorded =>
          obtain ⟨id, d, context⟩ := recorded
          dsimp only [Except.map]
          cases (d.appendAgent validator.agent).2.save w.files premis <;> rfl

/-- A request succeeds if all three do. -/
theorem run_of_ok {premis : String} {request : Request} {w : Workspace} {d d' : Document}
    {response : Response} {context : Context} {files : FileTree}
    (hidle : request.isIdle = false) (hload : Document.load w.files premis = .ok d)
    (hchange : request.change w.files d w.context = .ok (response, d', context))
    (hsave : d'.save w.files premis = .ok files) :
    request.run premis w = (.ok response, ⟨files, context⟩) := by
  rw [run_eq, if_neg (by simp [hidle]), hload]
  dsimp only
  rw [hchange]
  dsimp only
  rw [hsave]

/-- All three succeed if a request does that has something to record. -/
theorem exists_of_run_eq_ok {premis : String} {request : Request} {w w' : Workspace}
    {response : Response} (hidle : request.isIdle = false)
    (hrun : request.run premis w = (.ok response, w')) :
    ∃ d d', Document.load w.files premis = .ok d ∧
      request.change w.files d w.context = .ok (response, d', w'.context) ∧
      d'.save w.files premis = .ok w'.files := by
  rw [run_eq, if_neg (by simp [hidle])] at hrun
  split at hrun
  · cases hrun
  · rename_i d hload
    split at hrun
    · cases hrun
    · rename_i response d' context hchange
      split at hrun
      · cases hrun
      · rename_i files hsave
        cases hrun
        exact ⟨d, d', hload, hchange, hsave⟩

/-! ### What is left of the files -/

/-- **A request leaves the files alone, or it loads, changes and saves the document.** Identifiers
and times that a change has taken are gone even if saving fails. -/
theorem run_cases (premis : String) (request : Request) (w : Workspace) :
    (∃ result context, request.run premis w = (result, { w with context }) ∧
      (result = .ok .uncovered ∨ ∃ error, result = .error error) ∧
      (context = w.context ∨ ∃ d response d', Document.load w.files premis = .ok d ∧
        request.change w.files d w.context = .ok (response, d', context))) ∨
    ∃ d response d' context files, Document.load w.files premis = .ok d ∧
      request.change w.files d w.context = .ok (response, d', context) ∧
      d'.save w.files premis = .ok files ∧
      request.run premis w = (.ok response, ⟨files, context⟩) := by
  rw [run_eq]
  split
  · exact .inl ⟨_, w.context, rfl, .inl rfl, .inl rfl⟩
  · split
    · exact .inl ⟨_, w.context, rfl, .inr ⟨_, rfl⟩, .inl rfl⟩
    · rename_i d hload
      split
      · exact .inl ⟨_, w.context, rfl, .inr ⟨_, rfl⟩, .inl rfl⟩
      · rename_i response d' context hchange
        split
        · exact .inl ⟨_, context, rfl, .inr ⟨_, rfl⟩, .inr ⟨d, response, d', hload, hchange⟩⟩
        · rename_i files hsave
          exact .inr ⟨d, response, d', context, files, hload, hchange, hsave, rfl⟩

/-- A document that is changed is not left alone for want of covered files. -/
theorem ne_uncovered_of_change {request : Request} {files : FileTree} {d d' : Document}
    {context context' : Context} {response : Response}
    (h : request.change files d context = .ok (response, d', context')) :
    response ≠ .uncovered := by
  rintro rfl
  cases request with
  | recordAgent agent => cases h
  | recordObjects | recordEvent | recordValidation =>
    rw [change] at h
    obtain ⟨_, -, hresponse⟩ := Except.exists_of_map_eq_ok h
    cases hresponse

end Request

/-- Saving a document writes its file. -/
theorem Document.save_eq_ok_iff {d : Document} {t t' : FileTree} {path : String} :
    d.save t path = .ok t' ↔ Files.write t path (Utf8.encode d.render.toList) = .ok t' := by
  rw [save]
  cases Files.write t path (Utf8.encode d.render.toList) <;> simp [Except.mapError]

/-- **A request that fails or has nothing to record leaves all files as they were**, whatever it
failed at; one that succeeds changes nothing but the file that its path leads to.

**Proof sketch.** A request either ends before it saves, with the files untouched, or its only write
is the last thing that it does. -/
theorem Request.files_run (premis : String) (request : Request) (w : Workspace) :
    match request.run premis w with
    | (.error _, after) => after.files = w.files
    | (.ok .uncovered, after) => after.files = w.files
    | (.ok _, after) =>
      ∃ location, Files.resolve w.files .writing premis = .ok location ∧
        Files.resolve after.files .looking premis = .ok location ∧
        w.files.SameBut location after.files ∧
        ∃ d : Document,
          after.files.node? location = some (.file (Utf8.encode d.render.toList)) := by
  rcases request.run_cases premis w with ⟨result, context, hrun, hresult, -⟩ |
    ⟨d, response, d', context, files, -, hchange, hsave, hrun⟩
  · rw [hrun]
    rcases hresult with rfl | ⟨error, rfl⟩ <;> rfl
  · obtain ⟨location, hbefore, hafter, hsame, hfile⟩ :=
      Files.exists_of_write (Document.save_eq_ok_iff.1 hsave)
    rw [hrun]
    cases response with
    | uncovered => exact absurd rfl (ne_uncovered_of_change hchange)
    | counted | added | recorded => exact ⟨location, hbefore, hafter, hsame, d', hfile⟩

end Accession.Provenance

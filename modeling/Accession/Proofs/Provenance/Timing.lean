import Accession.Proofs.Instant.RoundTrip
import Accession.Proofs.Provenance.Recording
import Mathlib.Data.Multiset.ZeroCons
set_option autoImplicit false

/-!
# The times of events

An event is written with the time of its recording, and the time is read back from the document to
the nanosecond. With a clock that moves on by a second each time it is read, the times of events
are in the order of the calls that recorded them.

## Main definitions

* `<` on `Instant` — one moment comes before another.
* `Provenance.Answer.recorded?` — the event that a call recorded.
* `Provenance.Records` — events that are recorded one after the other with one context.

## Main results

* `Provenance.Records.dateTime_eq` — such events have the times of the clock.
* `Provenance.Session.exists_run_records` — the events of a run are such events.
* `Provenance.timestamp_of_recorded` — the times of events are read back, and those of a run
  increase.
-/

namespace Accession

namespace Instant

/-! ### The order of moments -/

instance : LT Instant :=
  ⟨fun a b => a.seconds < b.seconds ∨ a.seconds = b.seconds ∧ a.nanos < b.nanos⟩

variable {start : Instant}

/-- A clock that moves on by seconds leaves a leap second for good. -/
theorem proper_afterSeconds (h : start.Proper) (n : Nat) : (start.afterSeconds n).Proper := by
  cases n with
  | zero => exact h
  | succ n =>
    have hlt : start.nanos % nanosPerSecond < nanosPerSecond := Nat.mod_lt _ (by decide)
    exact ⟨Nat.lt_trans hlt (by decide), fun hle => absurd hle (Nat.not_le.2 hlt)⟩

/-- More seconds later is later, also from a leap second on. -/
theorem afterSeconds_lt (start : Instant) {m n : Nat} (h : m < n) :
    start.afterSeconds m < start.afterSeconds n := by
  have hseconds (n : Nat) : (start.afterSeconds n).seconds = start.seconds + n := by
    cases n with
    | zero => exact (Int.add_zero _).symm
    | succ n => rfl
  left
  rw [hseconds, hseconds]
  omega

end Instant

namespace Provenance

/-! ### The events of a run -/

/-- The event that a call recorded. -/
def Answer.recorded? : Answer → Option Identifier
  | .recorded id => some id
  | _ => none

/-- An object changes no events. -/
theorem Document.events_appendObject (d : Document) (originalName : String) (id : Identifier) :
    (d.appendObject originalName id).2.events = d.events := by
  by_cases hknown : originalName ∈ d.objects.map (·.originalName)
  · rw [appendObject_of_known hknown]
  · obtain ⟨d', before, after, hadded, -, -, hevents, -⟩ := exists_appendObject_of_new hknown id
    rw [hadded, hevents]

/-- An event is refused, or its record is put among the events with the next time. -/
theorem Document.refuses_or_records (d : Document) (summary : Summary) (agent : Agent)
    (targets : Targets) (context : Context) :
    (∃ error, d.appendEvent summary agent targets context = .error error) ∨
      ∃ d' before event after, d.appendEvent summary agent targets context =
          .ok (event.identifier, d', ⟨context.ids.take.2, context.times.take.2⟩) ∧
        d.events = before ++ after ∧ d'.events = before ++ event :: after ∧
        event.dateTime = context.now.1.render := by
  by_cases hholds : d.Holds targets
  · obtain ⟨places, hplaces⟩ := exists_targetPlaces_iff.2 hholds
    obtain ⟨d', before, after, hevent, hold, hnew, -⟩ :=
      exists_appendEvent_of_places hplaces summary agent context
    rw [List.append_assoc] at hnew
    exact .inr ⟨d', before, _, after, hevent, hold, hnew, rfl⟩
  · exact .inl (exists_appendEvent_eq_error hholds summary agent context)

/-- `Records context events context'`: the events are recorded one after the other with what a
context supplies, each in some document, and leave another context. -/
inductive Records : Context → List EventRecord → Context → Prop where
  | nil (context : Context) : Records context [] context
  | cons {d d' : Document} {summary : Summary} {agent : Agent} {targets : Targets}
      {event : EventRecord} {events before after : List EventRecord}
      {context context' context'' : Context}
      (recorded : d.appendEvent summary agent targets context =
        .ok (event.identifier, d', context'))
      (old : d.events = before ++ after) (new : d'.events = before ++ event :: after)
      (rest : Records context' events context'') :
      Records context (event :: events) context''

/-- The one event that a document has more than another is the one that was recorded in it. -/
theorem eq_of_inserted {event event' : EventRecord} {before after before' after' : List EventRecord}
    (hold : before ++ after = before' ++ after')
    (hnew : before ++ event :: after = before' ++ event' :: after') : event = event' := by
  have hfirst : (before ++ event :: after).Perm (event :: (before ++ after)) := List.perm_middle
  have hother : (before ++ event :: after).Perm (event' :: (before ++ after)) := by
    rw [hnew, hold]
    exact List.perm_middle
  have hcons := Multiset.coe_eq_coe.2 (hfirst.symm.trans hother)
  rw [← Multiset.cons_coe, ← Multiset.cons_coe] at hcons
  exact (Multiset.cons_inj_left _).1 hcons

/-- **Events that are recorded one after the other have the times of the clock.**

**Proof sketch.** Induction on the events: each takes the next time, so the later ones have the
times behind it. -/
theorem Records.dateTime_eq {events : List EventRecord} {context context' : Context}
    (h : Records context events context') :
    ∀ i (hi : i < events.length),
      events[i].dateTime = (context.times.item (context.times.taken + i)).render := by
  induction h with
  | nil => exact fun i hi => absurd hi (Nat.not_lt_zero i)
  | @cons d d' summary agent targets event events before after context context' _ hrecorded hold
      hnew _ ih =>
    rcases d.refuses_or_records summary agent targets context with
      ⟨error, herror⟩ | ⟨d₁, before₁, event₁, after₁, hevent, hold₁, hnew₁, htime⟩
    · rw [herror] at hrecorded
      cases hrecorded
    · rw [hevent] at hrecorded
      obtain ⟨-, rfl, rfl⟩ : event₁.identifier = event.identifier ∧ d₁ = d' ∧
          (⟨context.ids.take.2, context.times.take.2⟩ : Context) = context' := by
        simpa using hrecorded
      obtain rfl := eq_of_inserted (hold.symm.trans hold₁) (hnew.symm.trans hnew₁)
      rintro (- | i) hi
      · exact htime
      · rw [List.getElem_cons_succ, ih i (Nat.lt_of_succ_lt_succ hi)]
        show Instant.render (context.times.item (_ + 1 + i)) = _
        rw [Nat.add_assoc, Nat.add_comm 1 i]

namespace Session

/-- A call that is not a reload records one event, or none and takes nothing from the context. -/
theorem exists_step_records (s : Session) {call : Call} (hcall : call ≠ .reload) :
    ∃ answer s' added, s.step call = .ok (answer, s') ∧
      added.map EventRecord.identifier = answer.recorded?.toList ∧
      s'.document.events.Perm (s.document.events ++ added) ∧
      ∀ {events context}, Records s'.context events context →
        Records s.context (added ++ events) context := by
  cases call with
  | object originalName id =>
    have hevents := s.document.events_appendObject originalName id
    exact ⟨_, _, [], rfl, rfl, .of_eq (hevents.trans (List.append_nil _).symm), fun hrest => hrest⟩
  | agent agent =>
    have hevents := s.document.events_appendAgent agent
    exact ⟨_, _, [], rfl, rfl, .of_eq (hevents.trans (List.append_nil _).symm), fun hrest => hrest⟩
  | event summary agent targets =>
    rw [step]
    rcases s.document.refuses_or_records summary agent targets s.context with
      ⟨error, herror⟩ | ⟨d, before, event, after, hevent, hold, hnew, -⟩
    · rw [herror]
      exact ⟨_, _, [], rfl, rfl, by rw [List.append_nil], fun hrest => hrest⟩
    · rw [hevent]
      refine ⟨_, _, [event], rfl, rfl, ?_, fun hrest => .cons hevent hold hnew hrest⟩
      rw [hold, hnew]
      exact List.perm_middle.trans (List.perm_append_singleton event _).symm
  | reload => exact absurd rfl hcall

/-- **The events of a run are recorded one after the other**, in the order of the calls. -/
theorem exists_run_records (s : Session) {calls : List Call}
    (hcalls : ∀ call ∈ calls, call ≠ .reload) :
    ∃ answers s' appended, s.run calls = .ok (answers, s') ∧
      appended.map EventRecord.identifier = answers.filterMap Answer.recorded? ∧
      s'.document.events.Perm (s.document.events ++ appended) ∧
      Records s.context appended s'.context := by
  induction calls generalizing s with
  | nil => exact ⟨[], s, [], rfl, rfl, by rw [List.append_nil], .nil _⟩
  | cons call calls ih =>
    obtain ⟨hcall, hcalls⟩ := List.forall_mem_cons.1 hcalls
    obtain ⟨answer, s₁, added, hstep, hid, hadded, hfirst⟩ := s.exists_step_records hcall
    obtain ⟨answers, s₂, appended, hrun, hids, hevents, hrest⟩ := ih s₁ hcalls
    refine ⟨answer :: answers, s₂, added ++ appended, ?_, ?_, ?_, hfirst hrest⟩
    · rw [run, hstep]
      show (s₁.run calls >>= _) = _
      rw [hrun]
      rfl
    · rw [List.map_append, hid, hids]
      cases answer <;> rfl
    · rw [← List.append_assoc]
      exact hevents.trans (hadded.append_right appended)

end Session

/-! ### Times that are read back -/

/-- **The times of events are read back, and those of a run increase.** Whatever document an event
is recorded in, and whatever clock it is recorded with, its new record has the time of the clock as
its timestamp, if that time has a year of four digits. The timestamps of events that are recorded
one after the other with one clock, which moves on by a second each time it is read, are the times
of this clock, each later than those before it, as long as they have years of four digits; this
holds for the documents that the events are recorded in, whatever else happens to them. In a run of
calls on one document they are the events that the document has more in the end, under the
identifiers that the calls answer.

**Proof sketch.** What a time is written as is read back (`Instant.parse_render`), and what the
clock shows next is later (`Instant.afterSeconds_lt`). -/
theorem timestamp_of_recorded :
    (∀ (d : Document) (summary : Summary) (agent : Agent) (targets : Targets) (context : Context)
        (id : Identifier) (d' : Document) (context' : Context),
      context.now.1.Proper → context.now.1.InFourDigits →
      d.appendEvent summary agent targets context = .ok (id, d', context') →
      ∃ before event after, d.events = before ++ after ∧ d'.events = before ++ event :: after ∧
        event.identifier = id ∧ event.timestamp = some context.now.1) ∧
    (∀ (ids : Supply String) (start : Instant) (events : List EventRecord) (context' : Context),
      start.Proper → Records ⟨ids, .ticking start⟩ events context' →
      (∀ i < events.length, (start.afterSeconds i).InFourDigits) →
      (∀ i (h : i < events.length), events[i].timestamp = some (start.afterSeconds i)) ∧
        events.Pairwise fun a b => ∃ t ∈ a.timestamp, ∃ t' ∈ b.timestamp, t < t') ∧
    ∀ (s : Session) (calls : List Call), (∀ call ∈ calls, call ≠ .reload) →
      ∃ answers s' appended, s.run calls = .ok (answers, s') ∧
        appended.map EventRecord.identifier = answers.filterMap Answer.recorded? ∧
        s'.document.events.Perm (s.document.events ++ appended) ∧
        Records s.context appended s'.context := by
  refine ⟨?_, ?_, fun s calls => s.exists_run_records⟩
  · intro d summary agent targets context id d' context' hproper hyear h
    rcases d.refuses_or_records summary agent targets context with
      ⟨error, herror⟩ | ⟨d₁, before, event, after, hevent, hold, hnew, htime⟩
    · rw [herror] at h
      cases h
    · rw [hevent] at h
      cases h
      refine ⟨before, event, after, hold, hnew, rfl, ?_⟩
      rw [EventRecord.timestamp, htime, Instant.parse_render hproper hyear]
  · intro ids start events context' hstart hrecords hyears
    have hread (i : Nat) (h : i < events.length) :
        events[i].timestamp = some (start.afterSeconds i) := by
      have hwritten : events[i].dateTime = (start.afterSeconds i).render := by
        rw [hrecords.dateTime_eq i h]
        show Instant.render (start.afterSeconds (0 + i)) = _
        rw [Nat.zero_add]
      rw [EventRecord.timestamp, hwritten]
      exact Instant.parse_render (Instant.proper_afterSeconds hstart i) (hyears i h)
    refine ⟨hread, List.pairwise_iff_getElem.2 fun i j hi hj hlt => ?_⟩
    exact ⟨_, hread i hi, _, hread j hj, start.afterSeconds_lt hlt⟩

/-- The middle of the leap second at the end of 2016. -/
def leapSecond : Instant :=
  ⟨1483228799, 1500000000⟩

/-- A clock that starts there. -/
def leapingContext : Context :=
  ⟨.sequential "event", .ticking leapSecond⟩

/-- An event, a refused one, and another one. -/
def leapingCalls : List Call :=
  let agent : Agent := .software "s" "1"
  [.event checkup agent .all, .event checkup agent (.named []), .agent agent,
    .event checkup agent (.named ["a"])]

/-- An event of a leap second, and one of the second after it, in another year. -/
theorem timestamp_of_leapSecond :
    leapSecond.render = "2016-12-31T23:59:60.500Z" ∧ leapSecond.Proper ∧
      (∀ call ∈ leapingCalls, call ≠ .reload) ∧
      (∃ d' before event after, sharedDocument.appendEvent checkup (.software "s" "1") .all
          leapingContext = .ok (.uuid "event-1", d', ⟨leapingContext.ids.take.2,
            leapingContext.times.take.2⟩) ∧
        d'.events = before ++ event :: after ∧ event.timestamp = some leapSecond) ∧
      ∃ answers s appended, Session.run ⟨sharedDocument, leapingContext⟩ leapingCalls =
          .ok (answers, s) ∧
        answers = [.recorded (.uuid "event-1"), .refused .noTargets, .added true,
          .recorded (.uuid "event-2")] ∧
        s.document.events.Perm appended ∧ Records leapingContext appended s.context ∧
        appended.map EventRecord.timestamp = [some leapSecond, some ⟨1483228800, 500000000⟩] := by
  have hproper : leapSecond.Proper := ⟨by decide, fun _ => by decide⟩
  have hcalls : ∀ call ∈ leapingCalls, call ≠ .reload := by simp [leapingCalls]
  have hyear : leapSecond.InFourDigits := by decide
  have hid : Identifier.uuid leapingContext.ids.take.1 = .uuid "event-1" := by decide +kernel
  have hanswers : (Session.run ⟨sharedDocument, leapingContext⟩ leapingCalls).toOption.map (·.1) =
      some [.recorded (.uuid "event-1"), .refused .noTargets, .added true,
        .recorded (.uuid "event-2")] := by
    decide +kernel
  refine ⟨by decide +kernel, hproper, hcalls, ?_, ?_⟩
  · obtain ⟨d', -, -, hevent, -⟩ := Document.exists_appendEvent_of_places
      (rfl : sharedDocument.targetPlaces .all = .ok _) checkup (.software "s" "1") leapingContext
    rw [hid] at hevent
    obtain ⟨before, event, after, -, hnew, -, htime⟩ := timestamp_of_recorded.1 sharedDocument
      checkup (.software "s" "1") .all leapingContext _ _ _ hproper hyear hevent
    exact ⟨d', before, event, after, hevent, hnew, htime⟩
  · obtain ⟨answers, s, appended, hrun, hids, hevents, hrecords⟩ := timestamp_of_recorded.2.2
      ⟨sharedDocument, leapingContext⟩ leapingCalls hcalls
    rw [hrun] at hanswers
    obtain rfl := Option.some.inj hanswers
    have hlength : appended.length = 2 :=
      (List.length_map _).symm.trans (congrArg List.length hids)
    obtain ⟨a, b, rfl⟩ := List.length_eq_two.1 hlength
    obtain ⟨hread, -⟩ := timestamp_of_recorded.2.1 (.sequential "event") leapSecond [a, b] _ hproper
      hrecords (by
        intro i hi
        match i, hi with
        | 0, _ => exact hyear
        | 1, _ => exact (by decide : (leapSecond.afterSeconds 1).InFourDigits))
    exact ⟨_, s, [a, b], hrun, rfl, hevents, hrecords,
      congrArg₂ (fun t t' => [t, t']) (hread 0 Nat.two_pos) (hread 1 Nat.one_lt_two)⟩

end Provenance

end Accession

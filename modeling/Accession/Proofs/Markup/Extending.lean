import Accession.Proofs.Markup.Nesting
set_option autoImplicit false

/-!
# Marked-up text that goes on

Octets are cut into events one after the other, and no cut looks beyond the end of its event. So
octets that are followed by more are cut into the same events, up to a text at their end, which may
become longer; and the check of the nesting passes over them in the same way.

## Main definitions

* `Markup.Event.IsText` — events that what follows may make longer.

## Main results

* `Markup.nextEvent_append` — an event with an end of its own stays, whatever follows.
* `Markup.exists_cuts_append` — the same of all events of some octets.
* `Markup.nestFrom_cons` — an event passes the check of the nesting or ends it, whatever follows.
-/

namespace Accession.Markup

/-- Texts have no end of their own: what follows may make them longer. -/
def Event.IsText : Event → Prop
  | .text _ => True
  | _ => False

/-! ### Ends that are found -/

section Ends

variable {before after : List UInt8}

/-- A pattern that is found has its place in the octets. -/
theorem length_le_of_cutAt {pattern done bytes : List UInt8}
    (h : cutAt pattern done bytes = some (before, after)) : pattern.length ≤ bytes.length := by
  induction bytes generalizing done with
  | nil => cases h
  | cons b bytes ih =>
    rw [cutAt] at h
    split at h
    · rename_i hhere
      exact (List.isPrefixOf_iff_prefix.1 hhere).length_le
    · exact Nat.le_succ_of_le (ih h)

/-- A pattern is found where it was. What follows cannot complete one that began earlier, since that
would have ended before the one that was found. -/
theorem cutAt_append {pattern done bytes : List UInt8}
    (h : cutAt pattern done bytes = some (before, after)) (more : List UInt8) :
    cutAt pattern done (bytes ++ more) = some (before, after ++ more) := by
  induction bytes generalizing done with
  | nil => cases h
  | cons b bytes ih =>
    have hlength := length_le_of_cutAt h
    rw [List.cons_append, cutAt]
    rw [cutAt] at h
    have hfits : pattern <+: b :: (bytes ++ more) ↔ pattern <+: b :: bytes := by
      rw [← List.cons_append]
      exact ⟨fun hp => List.prefix_of_prefix_length_le hp (List.prefix_append ..) hlength,
        fun hp => hp.trans (List.prefix_append ..)⟩
    split at h
    · rename_i hhere
      rw [if_pos (List.isPrefixOf_iff_prefix.2 (hfits.2 (List.isPrefixOf_iff_prefix.1 hhere)))]
      obtain ⟨rfl, rfl⟩ := Prod.mk.inj (Option.some.inj h)
      rw [← List.cons_append, List.drop_append_of_le_length hlength]
    · rename_i hnot
      rw [if_neg fun hp => hnot (List.isPrefixOf_iff_prefix.2
        (hfits.1 (List.isPrefixOf_iff_prefix.1 hp)))]
      exact ih h

/-- The end of a tag that is found stays where it is. -/
theorem cutTag_append {quote : Option UInt8} {done bytes : List UInt8}
    (h : cutTag quote done bytes = some (before, after)) (more : List UInt8) :
    cutTag quote done (bytes ++ more) = some (before, after ++ more) := by
  induction bytes generalizing quote done with
  | nil => cases h
  | cons b bytes ih =>
    rw [List.cons_append]
    cases quote with
    | some q =>
      rw [cutTag] at h ⊢
      exact ih h
    | none =>
      rw [cutTag] at h ⊢
      split at h
      · rename_i hclose
        rw [if_pos hclose]
        obtain ⟨rfl, rfl⟩ := Prod.mk.inj (Option.some.inj h)
        rfl
      · rename_i hclose
        rw [if_neg hclose]
        exact ih h

/-- The end of a document type declaration that is found stays where it is. -/
theorem cutDocumentType_append {depth : Nat} {done bytes : List UInt8}
    (h : cutDocumentType depth done bytes = some (before, after)) (more : List UInt8) :
    cutDocumentType depth done (bytes ++ more) = some (before, after ++ more) := by
  induction bytes generalizing depth done with
  | nil => cases h
  | cons b bytes ih =>
    rw [List.cons_append]
    unfold cutDocumentType at h ⊢
    split at h
    · rename_i hclose
      rw [if_pos hclose]
      cases depth with
      | zero =>
        obtain ⟨rfl, rfl⟩ := Prod.mk.inj (Option.some.inj h)
        rfl
      | succ depth => exact ih h
    · rename_i hclose
      rw [if_neg hclose]
      exact ih h

end Ends

/-! ### Events that are cut off -/

section Events

variable {bytes rest : List UInt8} {event : Event}

/-- A comment stays the same, whatever follows it. -/
theorem comment_append (h : comment bytes = .event event rest) (more : List UInt8) :
    comment (bytes ++ more) = .event event (rest ++ more) := by
  unfold comment at h
  split at h
  · rename_i inner
    split at h
    · rename_i hcut
      cases h
      rw [List.cons_append, comment, cutAt_append hcut]
    · cases h
  · cases h

/-- A character data section stays the same, whatever follows it. -/
theorem characterData_append (h : characterData bytes = .event event rest) (more : List UInt8) :
    characterData (bytes ++ more) = .event event (rest ++ more) := by
  unfold characterData at h ⊢
  split at h
  · rename_i hopen
    have hopen' := List.isPrefixOf_iff_prefix.1 hopen
    have hlength : 7 ≤ bytes.length := hopen'.length_le
    rw [if_pos (List.isPrefixOf_iff_prefix.2 (hopen'.trans (List.prefix_append bytes more))),
      List.drop_append_of_le_length hlength]
    split at h
    · rename_i hcut
      cases h
      rw [cutAt_append hcut]
    · cases h
  · cases h

/-- A document type declaration stays the same, whatever follows it. -/
theorem documentType_append (h : documentType bytes = .event event rest) (more : List UInt8) :
    documentType (bytes ++ more) = .event event (rest ++ more) := by
  unfold documentType at h ⊢
  split at h
  · rename_i hcut
    rw [cutDocumentType_append hcut]
    dsimp only
    split at h
    · rename_i hkeyword
      rw [if_pos hkeyword]
      split at h
      · cases h
      · rename_i hname
        cases h
        rw [if_neg hname]
    · cases h
  · cases h

/-- What begins with an exclamation mark stays the same, whatever follows it. -/
theorem declaration_append (h : declaration bytes = .event event rest) (more : List UInt8) :
    declaration (bytes ++ more) = .event event (rest ++ more) := by
  cases bytes with
  | nil => cases h
  | cons b bytes =>
    rw [List.cons_append]
    rw [declaration] at h ⊢
    split at h
    · rename_i hsection
      rw [if_pos hsection]
      exact characterData_append h more
    · rename_i hsection
      rw [if_neg hsection]
      split at h
      · rename_i hcomment
        rw [if_pos hcomment]
        exact comment_append h more
      · rename_i hcomment
        rw [if_neg hcomment]
        split at h
        · rename_i htype
          rw [if_pos htype]
          exact documentType_append h more
        · cases h

/-- An instruction stays the same, whatever follows it. -/
theorem instruction_append (h : instruction bytes = .event event rest) (more : List UInt8) :
    instruction (bytes ++ more) = .event event (rest ++ more) := by
  unfold instruction at h ⊢
  split at h
  · cases h
  · rename_i hhead
    split at h
    · rename_i hcut
      cases h
      have hhead' : ¬(bytes ++ more).head? = some 0x3E := by
        cases bytes with
        | nil => cases hcut
        | cons b bytes => exact hhead
      rw [if_neg hhead', cutAt_append hcut]
    · cases h

/-- A tag stays the same, whatever follows it. -/
theorem tag_append (h : tag bytes = .event event rest) (more : List UInt8) :
    tag (bytes ++ more) = .event event (rest ++ more) := by
  unfold tag at h ⊢
  split at h
  · rename_i hcut
    cases h
    rw [cutTag_append hcut]
  · cases h

/-- Markup of any kind stays the same, whatever follows it. -/
theorem markup_append (h : markup bytes = .event event rest) (more : List UInt8) :
    markup (bytes ++ more) = .event event (rest ++ more) := by
  cases bytes with
  | nil => cases h
  | cons b bytes =>
    rw [List.cons_append]
    rw [markup] at h ⊢
    split at h
    · rename_i hbang
      rw [if_pos hbang]
      exact declaration_append h more
    · rename_i hbang
      rw [if_neg hbang]
      split at h
      · rename_i hquery
        rw [if_pos hquery]
        exact instruction_append h more
      · rename_i hquery
        rw [if_neg hquery]
        exact tag_append h more

/-- **An event with an end of its own stays, whatever follows**; a text does if markup follows it
already. -/
theorem nextEvent_append (h : nextEvent bytes = .event event rest)
    (hend : event.IsText → rest ≠ []) (more : List UInt8) :
    nextEvent (bytes ++ more) = .event event (rest ++ more) := by
  cases bytes with
  | nil => cases h
  | cons b bytes =>
    rw [List.cons_append]
    rw [nextEvent] at h ⊢
    split at h
    · rename_i hopen
      rw [if_pos hopen]
      exact markup_append h more
    · rename_i hopen
      cases h
      have hne := hend trivial
      have hlength : (bytes.takeWhile (· != 0x3C)).length ≠ bytes.length := by
        intro hall
        have hself := (List.takeWhile_prefix (· != 0x3C)).eq_of_length hall
        exact hne (List.dropWhile_eq_nil_iff.2 (List.takeWhile_eq_self_iff.1 hself))
      rw [if_neg hopen, List.takeWhile_append, if_neg hlength, List.dropWhile_append]
      rw [if_neg (by simpa using hne)]

end Events

/-! ### All events -/

/-- **Octets that are followed by more are cut into the same events**, up to texts at their end. -/
theorem exists_cuts_append (bytes : List UInt8) :
    ∃ events last rest fault, eventsFrom [] bytes = (events ++ last, fault) ∧
      (∀ event ∈ last, event.IsText) ∧ ∀ more, Cuts (bytes ++ more) events (rest ++ more) := by
  induction hlength : bytes.length using Nat.strong_induction_on generalizing bytes with
  | _ length ih =>
    cases bytes with
    | nil => exact ⟨[], [], [], none, by simp [eventsFrom], nofun, fun more => .nil more⟩
    | cons b bytes =>
      cases hcut : nextEvent (b :: bytes) with
      | done =>
        refine ⟨[], [], b :: bytes, none, ?_, nofun, fun more => .nil _⟩
        rw [eventsFrom]
        split <;> simp_all
      | fault error =>
        exact ⟨[], [], b :: bytes, some error, eventsFrom_fault hcut [], nofun, fun more => .nil _⟩
      | event event after =>
        by_cases hend : event.IsText ∧ after = []
        · -- the text reaches the end, so it is not known yet where it ends
          obtain ⟨htext, rfl⟩ := hend
          refine ⟨[], [event], b :: bytes, none, ?_, by simpa using htext, fun more => .nil _⟩
          rw [eventsFrom_event hcut, eventsFrom]
          rfl
        · have hle := length_nextEvent b bytes
          rw [hcut, Cut.rest] at hle
          have hlt : after.length < length := by
            rw [← hlength, List.length_cons]
            omega
          obtain ⟨events, last, rest, fault, hevents, hlast, hcuts⟩ := ih _ hlt after rfl
          refine ⟨event :: events, last, rest, fault, ?_, hlast, fun more => ?_⟩
          · rw [eventsFrom_event hcut, eventsFrom_eq, hevents]
            rfl
          · exact .cons (nextEvent_append hcut (fun htext hnil => hend ⟨htext, hnil⟩) more)
              (hcuts more)

/-! ### Nesting -/

/-- **An event passes the check of the nesting or ends it**, whatever follows. -/
theorem nestFrom_cons (opened : List (List UInt8)) (event : Event) :
    (∃ opened', ∀ fault events, nestFrom fault [] opened (event :: events) =
      ⟨event :: (nestFrom fault [] opened' events).events,
        (nestFrom fault [] opened' events).fault⟩) ∨
    ∃ error, ∀ fault events, nestFrom fault [] opened (event :: events) = ⟨[], some error⟩ := by
  cases h : openAfter opened event with
  | ok opened' => exact .inl ⟨opened', fun fault events => by rw [nestFrom_cons_eq, h]⟩
  | error error => exact .inr ⟨error, fun fault events => by rw [nestFrom_cons_eq, h]⟩

end Accession.Markup

import Accession.Proofs.Markup.Extending
set_option autoImplicit false

/-!
# Marked-up text that breaks off

No cut looks beyond the end of its event. So octets that are cut into some events are cut into the
same events when whatever follows them is taken away, or is replaced by something else. Octets that
break off inside an event are cut into the events before it, and what is left of that event is no
event, or a shorter text.

## Main definitions

* `Markup.Torn` — what may be left of an event.

## Main results

* `Markup.exists_nextEvent_of_append` — an event does not depend on what follows it.
* `Markup.Cuts.replace` — other octets behind some events.
* `Markup.Cuts.exists_torn` — octets that break off before the end of some events.
-/

namespace Accession.Markup

/-! ### Ends that are found early enough -/

section Ends

variable {before rest : List UInt8}

/-- The pattern that is found does not belong to the rest. -/
theorem length_add_le_of_cutAt {pattern done bytes : List UInt8}
    (h : cutAt pattern done bytes = some (before, rest)) :
    rest.length + pattern.length ≤ bytes.length := by
  induction bytes generalizing done with
  | nil => simp [cutAt] at h
  | cons b bytes ih =>
    unfold cutAt at h
    split at h
    · rename_i hhere
      have hlength := (List.isPrefixOf_iff_prefix.1 hhere).length_le
      obtain ⟨-, rfl⟩ := Prod.mk.inj (Option.some.inj h)
      simp only [List.length_drop]
      omega
    · have := ih h
      simp only [List.length_cons]
      omega

/-- The end of a tag is found behind at least one octet, its own. -/
theorem length_lt_of_cutTag {quote : Option UInt8} {done bytes : List UInt8}
    (h : cutTag quote done bytes = some (before, rest)) : rest.length < bytes.length := by
  cases bytes with
  | nil => simp [cutTag] at h
  | cons b bytes =>
    cases quote with
    | some q =>
      have : rest.length ≤ bytes.length := length_cutTag h
      simp only [List.length_cons]
      omega
    | none =>
      rw [cutTag] at h
      split at h
      · obtain ⟨-, rfl⟩ := Prod.mk.inj (Option.some.inj h)
        simp
      · have := length_cutTag h
        simp only [List.length_cons]
        omega

/-- The end of a document type declaration is found behind at least one octet, its own. -/
theorem length_lt_of_cutDocumentType {depth : Nat} {done bytes : List UInt8}
    (h : cutDocumentType depth done bytes = some (before, rest)) : rest.length < bytes.length := by
  cases bytes with
  | nil => simp [cutDocumentType] at h
  | cons b bytes =>
    unfold cutDocumentType at h
    simp only [List.length_cons]
    split at h
    · cases depth with
      | zero =>
        obtain ⟨-, rfl⟩ := Prod.mk.inj (Option.some.inj h)
        omega
      | succ depth =>
        have := length_cutDocumentType h
        omega
    · have := length_cutDocumentType h
      omega

variable {more : List UInt8}

/-- A pattern that ends in front of some octets is found without them. -/
theorem exists_cutAt_of_append {pattern done bytes : List UInt8} (hpattern : pattern ≠ [])
    (h : cutAt pattern done (bytes ++ more) = some (before, rest))
    (hlength : more.length ≤ rest.length) :
    ∃ rest', rest = rest' ++ more ∧ cutAt pattern done bytes = some (before, rest') := by
  have hpos : 0 < pattern.length := List.length_pos_iff.2 hpattern
  induction bytes generalizing done with
  | nil =>
    have := length_add_le_of_cutAt h
    simp only [List.nil_append] at this
    omega
  | cons b bytes ih =>
    rw [List.cons_append, cutAt] at h
    rw [cutAt]
    split at h
    · rename_i hhere
      have hprefix := List.isPrefixOf_iff_prefix.1 hhere
      obtain ⟨rfl, rfl⟩ := Prod.mk.inj (Option.some.inj h)
      have hends : pattern.length ≤ (b :: bytes).length := by
        have := hprefix.length_le
        simp only [List.length_drop, List.length_cons, List.length_append] at hlength this ⊢
        omega
      have hfits : pattern <+: b :: bytes :=
        List.prefix_of_prefix_length_le hprefix (List.prefix_append (b :: bytes) more) hends
      refine ⟨(b :: bytes).drop pattern.length, ?_, ?_⟩
      · rw [← List.cons_append, List.drop_append_of_le_length hends]
      · rw [if_pos (List.isPrefixOf_iff_prefix.2 hfits)]
    · rename_i hnot
      have hnot' : ¬pattern.isPrefixOf (b :: bytes) = true := by
        intro hp
        apply hnot
        rw [← List.cons_append]
        exact List.isPrefixOf_iff_prefix.2
          ((List.isPrefixOf_iff_prefix.1 hp).trans (List.prefix_append ..))
      rw [if_neg hnot']
      exact ih h

/-- If a tag ends in front of what was put behind, it ended there before. -/
theorem exists_cutTag_of_append {quote : Option UInt8} {done bytes : List UInt8}
    (h : cutTag quote done (bytes ++ more) = some (before, rest))
    (hlength : more.length ≤ rest.length) :
    ∃ rest', rest = rest' ++ more ∧ cutTag quote done bytes = some (before, rest') := by
  induction bytes generalizing quote done with
  | nil =>
    have := length_lt_of_cutTag h
    simp only [List.nil_append] at this
    omega
  | cons b bytes ih =>
    rw [List.cons_append] at h
    cases quote with
    | some q =>
      rw [cutTag] at h ⊢
      exact ih h
    | none =>
      rw [cutTag] at h ⊢
      split at h
      · rename_i hclose
        obtain ⟨rfl, rfl⟩ := Prod.mk.inj (Option.some.inj h)
        exact ⟨bytes, rfl, if_pos hclose⟩
      · rename_i hclose
        rw [if_neg hclose]
        exact ih h

/-- If a document type declaration ends in front of what was put behind, it ended there before. -/
theorem exists_cutDocumentType_of_append {depth : Nat} {done bytes : List UInt8}
    (h : cutDocumentType depth done (bytes ++ more) = some (before, rest))
    (hlength : more.length ≤ rest.length) :
    ∃ rest', rest = rest' ++ more ∧ cutDocumentType depth done bytes = some (before, rest') := by
  induction bytes generalizing depth done with
  | nil =>
    have := length_lt_of_cutDocumentType h
    simp only [List.nil_append] at this
    omega
  | cons b bytes ih =>
    rw [List.cons_append] at h
    unfold cutDocumentType at h ⊢
    split at h
    · rename_i hclose
      rw [if_pos hclose]
      cases depth with
      | zero =>
        obtain ⟨rfl, rfl⟩ := Prod.mk.inj (Option.some.inj h)
        exact ⟨bytes, rfl, rfl⟩
      | succ depth => exact ih h
    · rename_i hclose
      rw [if_neg hclose]
      exact ih h

end Ends

/-! ### Events that are cut off -/

section Events

variable {bytes more rest : List UInt8} {event : Event}

/-- A comment that does without what was put behind was whole before. -/
theorem exists_comment_of_append (h : comment (bytes ++ more) = .event event rest)
    (hlength : more.length ≤ rest.length) :
    ∃ rest', rest = rest' ++ more ∧ comment bytes = .event event rest' := by
  cases bytes with
  | nil =>
    rw [List.nil_append] at h
    unfold comment at h
    split at h
    · split at h
      · rename_i hcut
        cases h
        have := length_cutAt hcut
        simp only [List.length_cons] at hlength
        omega
      · cases h
    · cases h
  | cons b bytes =>
    rw [List.cons_append] at h
    by_cases hb : b = 0x2D
    · subst hb
      rw [comment] at h ⊢
      split at h
      · rename_i hcut
        cases h
        obtain ⟨rest', rfl, hcut'⟩ := exists_cutAt_of_append (by simp) hcut hlength
        exact ⟨rest', rfl, by rw [hcut']⟩
      · cases h
    · rw [comment] at h
      · cases h
      · simpa using hb

/-- A character data section that does without what was put behind was whole before. -/
theorem exists_characterData_of_append (h : characterData (bytes ++ more) = .event event rest)
    (hlength : more.length ≤ rest.length) :
    ∃ rest', rest = rest' ++ more ∧ characterData bytes = .event event rest' := by
  unfold characterData at h ⊢
  split at h
  · rename_i hopen
    split at h
    · rename_i hcut
      cases h
      have hprefix := List.isPrefixOf_iff_prefix.1 hopen
      have hlong := length_add_le_of_cutAt hcut
      have hseven : (octets "[CDATA[").length = 7 := by decide +kernel
      have hends : 7 ≤ bytes.length := by
        simp only [List.length_drop, List.length_append, List.length_cons, List.length_nil] at hlong
        omega
      have hfits := List.prefix_of_prefix_length_le hprefix (List.prefix_append bytes more)
        (hseven.symm ▸ hends)
      rw [List.drop_append_of_le_length hends] at hcut
      obtain ⟨rest', rfl, hcut'⟩ := exists_cutAt_of_append (by simp) hcut hlength
      refine ⟨rest', rfl, ?_⟩
      rw [if_pos (List.isPrefixOf_iff_prefix.2 hfits), hcut']
    · cases h
  · cases h

/-- A document type declaration that does without what was put behind was whole before. -/
theorem exists_documentType_of_append (h : documentType (bytes ++ more) = .event event rest)
    (hlength : more.length ≤ rest.length) :
    ∃ rest', rest = rest' ++ more ∧ documentType bytes = .event event rest' := by
  unfold documentType at h ⊢
  split at h
  · rename_i content after hcut
    split at h
    · rename_i hkeyword
      split at h
      · cases h
      · rename_i hname
        cases h
        obtain ⟨rest', rfl, hcut'⟩ := exists_cutDocumentType_of_append hcut hlength
        refine ⟨rest', rfl, ?_⟩
        rw [hcut']
        simp only [if_pos hkeyword, if_neg hname]
    · cases h
  · cases h

/-- An instruction that does without what was put behind was whole before. -/
theorem exists_instruction_of_append (h : instruction (bytes ++ more) = .event event rest)
    (hlength : more.length ≤ rest.length) :
    ∃ rest', rest = rest' ++ more ∧ instruction bytes = .event event rest' := by
  unfold instruction at h ⊢
  split at h
  · cases h
  · rename_i hhead
    split at h
    · rename_i hcut
      cases h
      obtain ⟨rest', rfl, hcut'⟩ := exists_cutAt_of_append (by simp) hcut hlength
      refine ⟨rest', rfl, ?_⟩
      have hhead' : ¬bytes.head? = some 0x3E := by
        cases bytes with
        | nil => simp
        | cons b bytes => exact hhead
      rw [if_neg hhead', hcut']
    · cases h

/-- A tag that does without what was put behind was whole before. -/
theorem exists_tag_of_append (h : tag (bytes ++ more) = .event event rest)
    (hlength : more.length ≤ rest.length) :
    ∃ rest', rest = rest' ++ more ∧ tag bytes = .event event rest' := by
  unfold tag at h ⊢
  split at h
  · rename_i hcut
    cases h
    obtain ⟨rest', rfl, hcut'⟩ := exists_cutTag_of_append hcut hlength
    exact ⟨rest', rfl, by rw [hcut']⟩
  · cases h

/-- What follows `<!` takes up at least one octet. -/
theorem length_lt_of_declaration (h : declaration bytes = .event event rest) :
    rest.length < bytes.length := by
  cases bytes with
  | nil => cases h
  | cons b bytes =>
    rw [declaration] at h
    split at h
    · unfold characterData at h
      split at h
      · split at h
        · rename_i hcut
          cases h
          have := length_add_le_of_cutAt hcut
          simp only [List.length_drop, List.length_cons] at this ⊢
          omega
        · cases h
      · cases h
    · split at h
      · have := length_comment bytes
        rw [h, Cut.rest] at this
        simp only [List.length_cons]
        omega
      · split at h
        · unfold documentType at h
          split at h
          · rename_i hcut
            split at h
            · split at h
              · cases h
              · cases h
                exact length_lt_of_cutDocumentType hcut
            · cases h
          · cases h
        · cases h

/-- Behind an exclamation mark, what does without what was put behind was whole before: a comment, a
section or a document type. -/
theorem exists_declaration_of_append (h : declaration (bytes ++ more) = .event event rest)
    (hlength : more.length ≤ rest.length) :
    ∃ rest', rest = rest' ++ more ∧ declaration bytes = .event event rest' := by
  cases bytes with
  | nil =>
    have := length_lt_of_declaration h
    simp only [List.nil_append] at this
    omega
  | cons b bytes =>
    rw [List.cons_append, declaration] at h
    rw [declaration]
    split at h
    · rename_i hsection
      rw [if_pos hsection]
      exact exists_characterData_of_append h hlength
    · rename_i hsection
      rw [if_neg hsection]
      split at h
      · rename_i hcomment
        rw [if_pos hcomment]
        exact exists_comment_of_append h hlength
      · rename_i hcomment
        rw [if_neg hcomment]
        split at h
        · rename_i htype
          rw [if_pos htype]
          exact exists_documentType_of_append h hlength
        · cases h

/-- What follows `<` takes up at least one octet. -/
theorem length_lt_of_markup (h : markup bytes = .event event rest) :
    rest.length < bytes.length := by
  cases bytes with
  | nil => cases h
  | cons b bytes =>
    rw [markup] at h
    split at h
    · have := length_lt_of_declaration h
      simp only [List.length_cons]
      omega
    · split at h
      · have := length_instruction bytes
        rw [h, Cut.rest] at this
        simp only [List.length_cons]
        omega
      · unfold tag at h
        split at h
        · rename_i hcut
          cases h
          exact length_lt_of_cutTag hcut
        · cases h

/-- Markup that does without what was put behind was whole before, whatever its kind. -/
theorem exists_markup_of_append (h : markup (bytes ++ more) = .event event rest)
    (hlength : more.length ≤ rest.length) :
    ∃ rest', rest = rest' ++ more ∧ markup bytes = .event event rest' := by
  cases bytes with
  | nil =>
    have := length_lt_of_markup h
    simp only [List.nil_append] at this
    omega
  | cons b bytes =>
    rw [List.cons_append, markup] at h
    rw [markup]
    split at h
    · rename_i hbang
      rw [if_pos hbang]
      exact exists_declaration_of_append h hlength
    · rename_i hbang
      rw [if_neg hbang]
      split at h
      · rename_i hquery
        rw [if_pos hquery]
        exact exists_instruction_of_append h hlength
      · rename_i hquery
        rw [if_neg hquery]
        exact exists_tag_of_append h hlength

/-- What begins with an exclamation mark is no text. -/
theorem not_isText_of_declaration (h : declaration bytes = .event event rest) :
    ¬event.IsText := by
  cases bytes with
  | nil => cases h
  | cons b bytes =>
    rw [declaration] at h
    split at h
    · unfold characterData at h
      split at h
      · split at h <;> cases h
        exact id
      · cases h
    · split at h
      · unfold comment at h
        split at h
        · split at h <;> cases h
          exact id
        · cases h
      · split at h
        · unfold documentType at h
          split at h
          · split at h
            · split at h <;> cases h
              exact id
            · cases h
          · cases h
        · cases h

/-- Markup is no text. -/
theorem not_isText_of_markup (h : markup bytes = .event event rest) : ¬event.IsText := by
  cases bytes with
  | nil => cases h
  | cons b bytes =>
    rw [markup] at h
    split at h
    · exact not_isText_of_declaration h
    · split at h
      · unfold instruction at h
        split at h
        · cases h
        · split at h <;> cases h
          exact id
      · unfold tag at h
        split at h
        · cases h
          unfold tagEvent
          split
          · exact id
          · split <;> exact id
        · cases h

/-- Octets are done only at their end. -/
theorem nextEvent_ne_done (b : UInt8) (bytes : List UInt8) : nextEvent (b :: bytes) ≠ .done := by
  have hmarkup : markup bytes ≠ .done := by
    unfold markup declaration characterData comment documentType instruction tag
    repeat' split
    all_goals simp
  rw [nextEvent]
  split
  · exact hmarkup
  · simp

/-- A text holds no markup, and reaches up to the next one. -/
theorem exists_text_of_nextEvent (h : nextEvent bytes = .event event rest) (htext : event.IsText) :
    ∃ content, event = .text content ∧ bytes = content ++ rest ∧ content ≠ [] ∧ 0x3C ∉ content ∧
      ∀ b ∈ rest.head?, b = 0x3C := by
  cases bytes with
  | nil => cases h
  | cons b bytes =>
    rw [nextEvent] at h
    split at h
    · exact absurd htext (not_isText_of_markup h)
    · rename_i hopen
      cases h
      refine ⟨_, rfl, ?_, by simp, ?_, ?_⟩
      · rw [List.cons_append, List.takeWhile_append_dropWhile]
      · rw [List.mem_cons, not_or]
        refine ⟨Ne.symm hopen, fun hmem => ?_⟩
        simpa using List.mem_takeWhile_imp hmem
      · intro b hb
        have := List.head?_dropWhile_not (· != 0x3C) bytes
        rw [Option.mem_def.1 hb] at this
        simpa using this

/-- An event uses up at least one octet. -/
theorem length_lt_of_nextEvent (h : nextEvent bytes = .event event rest) :
    rest.length < bytes.length := by
  cases bytes with
  | nil => cases h
  | cons b bytes =>
    have := length_nextEvent b bytes
    rw [h, Cut.rest] at this
    simp only [List.length_cons]
    omega

/-- **An event does not depend on what follows it.** -/
theorem exists_nextEvent_of_append (h : nextEvent (bytes ++ more) = .event event rest)
    (hlength : more.length ≤ rest.length) :
    ∃ rest', rest = rest' ++ more ∧ nextEvent bytes = .event event rest' := by
  cases bytes with
  | nil =>
    have := length_lt_of_nextEvent h
    simp only [List.nil_append] at this
    omega
  | cons b bytes =>
    rw [List.cons_append, nextEvent] at h
    rw [nextEvent]
    split at h
    · rename_i hopen
      rw [if_pos hopen]
      exact exists_markup_of_append h hlength
    · rename_i hopen
      rw [if_neg hopen]
      cases h
      rw [List.dropWhile_append] at hlength ⊢
      rw [List.takeWhile_append]
      split at hlength
      · -- the text reaches the end of the octets, and what follows begins with markup
        rename_i hall
        have hmore : more.dropWhile (· != 0x3C) = more :=
          (List.dropWhile_suffix _).eq_of_length (Nat.le_antisymm
            (List.dropWhile_suffix _).length_le hlength)
        have hnone : more.takeWhile (· != 0x3C) = [] := by
          have := List.takeWhile_append_dropWhile (p := (· != 0x3C)) (l := more)
          rw [hmore] at this
          simpa using this
        rw [List.isEmpty_iff] at hall
        have hself : bytes.takeWhile (· != 0x3C) = bytes := by
          have := List.takeWhile_append_dropWhile (p := (· != 0x3C)) (l := bytes)
          rwa [hall, List.append_nil] at this
        refine ⟨[], ?_, ?_⟩
        · rw [if_pos (by simp [hall]), hmore, List.nil_append]
        · rw [hself, if_pos rfl, hnone, List.append_nil, hall]
      · -- the text ends at a bracket of its own, which is there without the rest too
        rename_i hend
        refine ⟨bytes.dropWhile (· != 0x3C), ?_, ?_⟩
        · rw [if_neg hend]
        · have hlt : (bytes.takeWhile (· != 0x3C)).length ≠ bytes.length := by
            intro hall
            have hself := (List.takeWhile_prefix (· != 0x3C)).eq_of_length hall
            apply hend
            rw [List.isEmpty_iff, List.dropWhile_eq_nil_iff]
            exact List.takeWhile_eq_self_iff.1 hself
          rw [if_neg hlt]

/-- What is no text begins with a bracket. -/
theorem exists_bracket_of_nextEvent (h : nextEvent bytes = .event event rest)
    (htext : ¬event.IsText) : ∃ tail, bytes = 0x3C :: tail := by
  cases bytes with
  | nil => cases h
  | cons b bytes =>
    rw [nextEvent] at h
    split at h
    · rename_i hopen
      exact ⟨bytes, by rw [hopen]⟩
    · cases h
      exact absurd trivial htext

/-- An event leaves an end of the octets. -/
theorem suffix_of_nextEvent (h : nextEvent bytes = .event event rest) : rest <:+ bytes := by
  have hlt := length_lt_of_nextEvent h
  have hsplit := (List.take_append_drop (bytes.length - rest.length) bytes).symm
  have hlength : (bytes.drop (bytes.length - rest.length)).length = rest.length := by
    rw [List.length_drop]
    omega
  -- nothing of the event is in an end of this length
  rw [hsplit] at h
  obtain ⟨rest', hrest, -⟩ := exists_nextEvent_of_append h (Nat.le_of_eq hlength)
  have hnil : rest'.length = 0 := by
    have := congrArg List.length hrest
    rw [List.length_append, hlength] at this
    omega
  rw [List.length_eq_zero_iff.1 hnil, List.nil_append] at hrest
  rw [hrest]
  exact List.drop_suffix ..

end Events

/-! ### Rows of events -/

section Rows

variable {bytes more rest : List UInt8} {event : Event} {events : List Event}

/-- An event stays when more octets follow, unless it is a text that they make longer. -/
theorem nextEvent_extend (h : nextEvent bytes = .event event rest)
    (hend : event.IsText → rest ≠ [] ∨ more.head? = some 0x3C) :
    nextEvent (bytes ++ more) = .event event (rest ++ more) := by
  by_cases hopen : event.IsText ∧ rest = []
  · obtain ⟨htext, rfl⟩ := hopen
    have hmore := (hend htext).resolve_left fun hne => hne rfl
    obtain ⟨content, rfl, rfl, hne, hplain, -⟩ := exists_text_of_nextEvent h htext
    rw [List.append_nil]
    exact nextEvent_text hne hplain hmore
  · exact nextEvent_append h (fun htext hnil => hopen ⟨htext, hnil⟩) more

/-- Only octets that there are can be cut. -/
theorem Cuts.ne_nil (h : Cuts bytes (event :: events) rest) : bytes ≠ [] := by
  rintro rfl
  cases h with
  | cons hnext _ => cases hnext

/-- Events are cut off one row behind the other. -/
theorem Cuts.exists_of_append {events' : List Event} (h : Cuts bytes (events ++ events') rest) :
    ∃ mid, Cuts bytes events mid ∧ Cuts mid events' rest := by
  induction events generalizing bytes with
  | nil => exact ⟨bytes, .nil bytes, h⟩
  | cons event events ih =>
    cases h with
    | cons hnext htail =>
      obtain ⟨mid, hfront, hback⟩ := ih htail
      exact ⟨mid, .cons hnext hfront, hback⟩

/-- What is left stands at the end of the octets. -/
theorem Cuts.suffix (h : Cuts bytes events rest) : rest <:+ bytes := by
  induction h with
  | nil => exact List.suffix_rfl
  | cons hnext _ ih => exact ih.trans (suffix_of_nextEvent hnext)

/-- What is left is no longer than the octets. -/
theorem Cuts.length_le (h : Cuts bytes events rest) : rest.length ≤ bytes.length :=
  h.suffix.length_le

/-- Events do not depend on what follows them. -/
theorem Cuts.of_append (h : Cuts (bytes ++ more) events rest)
    (hlength : more.length ≤ rest.length) :
    ∃ rest', rest = rest' ++ more ∧ Cuts bytes events rest' := by
  induction events generalizing bytes with
  | nil =>
    cases h
    exact ⟨bytes, rfl, .nil bytes⟩
  | cons event events ih =>
    cases h with
    | cons hnext htail =>
      obtain ⟨mid, rfl, hnext'⟩ :=
        exists_nextEvent_of_append hnext (Nat.le_trans hlength htail.length_le)
      obtain ⟨rest', rfl, htail'⟩ := ih htail
      exact ⟨rest', rfl, .cons hnext' htail'⟩

/-- Events stay when more octets follow, unless the last one is a text that they make longer. -/
theorem Cuts.extend (h : Cuts bytes events rest)
    (hend : ∀ event ∈ events.getLast?, event.IsText → rest ≠ [] ∨ more.head? = some 0x3C) :
    Cuts (bytes ++ more) events (rest ++ more) := by
  induction h with
  | nil => exact .nil _
  | @cons bytes mid rest event events hnext htail ih =>
    cases events with
    | nil =>
      cases htail
      exact .single (nextEvent_extend hnext (hend event rfl))
    | cons next events =>
      refine .cons (nextEvent_extend hnext fun _ => .inl htail.ne_nil) (ih ?_)
      rwa [List.getLast?_cons_cons] at hend

/-- **Other octets behind some events**: they do not touch those events, unless they make the last
one a longer text. -/
theorem Cuts.replace {front : List UInt8} (h : Cuts (front ++ rest) events rest)
    (other : List UInt8)
    (hend : ∀ event ∈ events.getLast?, event.IsText → other.head? = some 0x3C) :
    Cuts (front ++ other) events other := by
  obtain ⟨nothing, hnothing, hcuts⟩ := h.of_append (Nat.le_refl _)
  obtain rfl : nothing = [] := by simpa using hnothing
  exact hcuts.extend fun event hlast htext => .inr (hend event hlast htext)

/-- A text at the end of some events reaches up to the next bracket. -/
theorem Cuts.head_of_isText (h : Cuts bytes events rest) (hlast : event ∈ events.getLast?)
    (htext : event.IsText) : ∀ b ∈ rest.head?, b = 0x3C := by
  induction h with
  | nil => cases hlast
  | @cons bytes mid rest first events hnext htail ih =>
    cases events with
    | nil =>
      cases htail
      cases hlast
      obtain ⟨content, -, -, -, -, hhead⟩ := exists_text_of_nextEvent hnext htext
      exact hhead
    | cons next events =>
      rw [List.getLast?_cons_cons] at hlast
      exact ih hlast

/-- What may be left of an event that breaks off: nothing, what is no event, or a text. -/
def Torn (bytes : List UInt8) : Prop :=
  ∀ event rest, nextEvent bytes = .event event rest → event.IsText ∧ rest = []

/-- **Octets that break off before the end of some events** are cut into fewer of them, and what is
left is torn. -/
theorem Cuts.exists_torn (h : Cuts (bytes ++ more) events rest)
    (hlength : rest.length < more.length) :
    ∃ whole left part, events = whole ++ left ∧ left ≠ [] ∧ Cuts bytes whole part ∧ Torn part := by
  induction events generalizing bytes with
  | nil =>
    cases h
    simp only [List.length_append] at hlength
    omega
  | cons event events ih =>
    cases h with
    | @cons _ mid _ _ _ hnext htail =>
      by_cases hmid : more.length ≤ mid.length
      · obtain ⟨mid', rfl, hnext'⟩ := exists_nextEvent_of_append hnext hmid
        obtain ⟨whole, left, part, rfl, hleft, hcuts, htorn⟩ := ih htail
        exact ⟨event :: whole, left, part, rfl, hleft, .cons hnext' hcuts, htorn⟩
      · refine ⟨[], event :: events, bytes, rfl, by simp, .nil bytes, ?_⟩
        intro event' rest' hcut
        by_contra hopen
        -- an event with an end of its own would have left everything that follows
        have hsame := nextEvent_append hcut (fun htext hnil => hopen ⟨htext, hnil⟩) more
        rw [hnext] at hsame
        cases hsame
        simp only [List.length_append] at hmid
        omega

end Rows

end Accession.Markup

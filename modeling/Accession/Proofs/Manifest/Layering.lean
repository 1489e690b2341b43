import Accession.Proofs.Lists
import Accession.Proofs.Manifest.Extension
set_option autoImplicit false

/-!
# The path and the open elements

The path is one list, which all open elements share: names put segments on it, and a folder or a
file that is closed cuts it back to the length that its frame has kept. That works if the lengths in
the frames fit the path, and if the segments in front of an element stay while it is read. Both hold
however the elements are nested, names inside names and files inside files included.

## Main definitions

* `Manifest.State.InSegment` — a text goes on the last segment of the path.
* `Manifest.State.settled` — the segments that no text in the innermost element changes.
* `Manifest.Layered` — the lengths in the frames go up with the elements, up to that of the path.
* `Manifest.Preserves`, `Manifest.Grows` — what complete elements, and one of them, do to the path.
* `Manifest.WholeEntry` — a folder or a file with everything in it.

## Main results

* `Manifest.Layered.reads` — the lengths stay in order.
* `Manifest.Reads.preserves` — complete elements keep the settled segments.
* `Manifest.Reads.eq_of_wholeEntry` — a folder or a file leaves frames and path as they were.
-/

namespace Accession.Manifest

open Markup (Event WellNested nameOf)

variable {p q : Place} {event : Event} {events inside : List Event} {content : List UInt8}
  {element : Element} {s s' s'' mid mid' : State} {base : List String} {segment : String}

/-! ### Texts -/

namespace State

/-- The innermost element is the name of a folder or a file, and it has begun a segment: a text goes
on that segment. -/
def InSegment (s : State) : Prop :=
  s.textElement? = some .name ∧ s.nameStarted = true

instance : DecidablePred InSegment :=
  fun s => inferInstanceAs (Decidable (s.textElement? = some .name ∧ s.nameStarted = true))

/-- Which element a text belongs to is said by the frames. -/
theorem textElement?_congr (h : s'.frames = s.frames) : s'.textElement? = s.textElement? := by
  rw [textElement?, textElement?, h]

/-- A text that counts as a name stands in a name. -/
theorem exists_frames_of_textElement? (h : s.textElement? = some .name) :
    ∃ depth frames, s.frames = ⟨.name, depth⟩ :: frames := by
  unfold textElement? at h
  split at h
  · rename_i hframes
    exact ⟨_, _, hframes⟩
  · rename_i hframes
    exact ⟨_, _, hframes⟩
  all_goals cases h

/-- A text puts a segment on the path or goes on the last one, in the name of a folder or a file;
anywhere else the path stays. -/
theorem cases_takeText (s : State) (text : String) :
    ((s.takeText text).path = s.path ∧ (s.takeText text).nameStarted = s.nameStarted) ∨
      s.textElement? = some .name ∧ (s.takeText text).nameStarted = true ∧
        (s.takeText text).path =
          if s.nameStarted then s.path.modify (s.path.length - 1) (· ++ text)
          else s.path ++ [text] := by
  unfold takeText
  split
  · exact .inl ⟨rfl, rfl⟩
  · split
    · rename_i hname
      right
      split
      · rename_i hstarted
        exact ⟨hname, hstarted, rfl⟩
      · exact ⟨hname, rfl, rfl⟩
    all_goals exact .inl ⟨rfl, rfl⟩

/-- A text does not make the path shorter. -/
theorem length_path_le_takeText (s : State) (text : String) :
    s.path.length ≤ (s.takeText text).path.length := by
  rcases s.cases_takeText text with ⟨hpath, -⟩ | ⟨-, -, hpath⟩
  · rw [hpath]
  · rw [hpath]
    split <;> simp

/-- A text in a segment goes on that segment, and on no other. -/
theorem path_takeText_of_inSegment (h : s.InSegment) (hpath : s.path = base ++ [segment])
    (text : String) : (s.takeText text).path = base ++ [segment ++ text] := by
  by_cases htext : text = ""
  · rw [htext, takeText_empty, String.append_empty, hpath]
  · rw [takeText_of_ne htext, h.1]
    dsimp only
    rw [if_pos h.2, hpath, List.length_append, List.length_singleton, Nat.add_sub_cancel]
    exact List.modify_length_append_singleton base segment (· ++ text)

/-- The segments that the texts in the innermost element leave as they are: all but the one that a
name has begun. -/
def settled (s : State) : List String :=
  if s.InSegment then s.path.dropLast else s.path

/-- Outside of a begun segment the whole path is settled. -/
theorem settled_eq_path (h : ¬s.InSegment) : s.settled = s.path :=
  if_neg h

/-- The settled segments stand at the front of the path. -/
theorem settled_prefix (s : State) : s.settled <+: s.path := by
  rw [settled]
  split
  · exact List.dropLast_prefix s.path
  · exact List.prefix_rfl

/-- A text changes no settled segment. -/
theorem settled_takeText (s : State) (text : String) :
    (s.takeText text).settled = s.settled := by
  rcases s.cases_takeText text with ⟨hpath, hstarted⟩ | ⟨hname, hstarted, hpath⟩
  · have hsame : (s.takeText text).InSegment ↔ s.InSegment := by
      rw [InSegment, InSegment, textElement?_takeText, hstarted]
    simp only [settled, hsame, hpath]
  · have hin : (s.takeText text).InSegment := ⟨(s.textElement?_takeText text).trans hname, hstarted⟩
    rw [settled, if_pos hin, hpath]
    split
    · rename_i hbefore
      have hin' : s.InSegment := ⟨hname, hbefore⟩
      rw [settled, if_pos hin', List.dropLast_eq_take, List.dropLast_eq_take, List.length_modify,
        List.take_modify]
      exact List.modify_eq_self (List.length_take_le _ _)
    · rename_i hbefore
      rw [settled_eq_path fun h => hbefore h.2, List.dropLast_concat]

end State

/-! ### The lengths in the frames -/

/-- The lengths that the frames have kept go up from the outermost element to the innermost, and
none is above the length of the path. -/
structure Layered (s : State) : Prop where
  sorted : s.frames.Pairwise fun inner outer => outer.depth ≤ inner.depth
  le_length : ∀ frame ∈ s.frames, frame.depth ≤ s.path.length

namespace Layered

/-- In the beginning there are no frames and no path. -/
theorem start : Layered State.initial :=
  ⟨.nil, fun _ hframe => absurd hframe List.not_mem_nil⟩

/-- The frame of an element that is opened has the length of the path, which no other exceeds. -/
theorem enters (h : Layered s) (henters : Enters s element content s') : Layered s' where
  sorted := by
    rw [henters.frames]
    exact .cons h.le_length h.sorted
  le_length := by
    rw [henters.frames, henters.path]
    exact List.forall_mem_cons.2 ⟨Nat.le_refl _, h.le_length⟩

/-- What an element cuts off the path is above the lengths in the frames around it. -/
theorem leaves (h : Layered s) (hleaves : Leaves s s') : Layered s' where
  sorted := by
    rw [hleaves.frames]
    exact h.sorted.tail
  le_length outer houter := by
    rw [hleaves.frames] at houter
    have hlength : outer.depth ≤ s.path.length := h.le_length outer (List.mem_of_mem_tail houter)
    cases hframes : s.frames with
    | nil =>
      rw [hframes] at houter
      cases houter
    | cons frame frames =>
      rw [hframes] at houter
      have hinner : outer.depth ≤ frame.depth := by
        have hsorted := h.sorted
        rw [hframes] at hsorted
        exact List.rel_of_pairwise_cons hsorted houter
      by_cases hentry : frame.element.IsEntry
      · rw [hleaves.cut frame (by rw [hframes]; rfl) hentry, List.length_take]
        exact Nat.le_min.2 ⟨hinner, hlength⟩
      · rwa [hleaves.path (by simpa [hframes] using hentry)]

/-- A text makes the path no shorter, so the frames still fit it. -/
theorem takeText (h : Layered s) (text : String) : Layered (s.takeText text) where
  sorted := by
    rw [State.frames_takeText]
    exact h.sorted
  le_length frame hframe := by
    rw [State.frames_takeText] at hframe
    exact (h.le_length frame hframe).trans (s.length_path_le_takeText text)

/-- An event leaves the lengths in order. -/
theorem moves (h : Layered s) (hmoves : Moves s event s') : Layered s' := by
  cases hmoves with
  | passed | skips => exact ⟨h.sorted, h.le_length⟩
  | enters _ _ henters => exact h.enters henters
  | visits _ _ henters hleaves => exact (h.enters henters).leaves hleaves
  | leaves _ hleaves => exact h.leaves hleaves
  | text | characterData => exact h.takeText _
  | ignores | aside => exact h

/-- **The lengths stay in order** along a reading. -/
theorem reads (h : Layered p.state) (hreads : Reads p events q) : Layered q.state := by
  induction hreads with
  | nil => exact h
  | cons _ hstep _ ih => exact ih (h.moves (moves_of_step hstep))

end Layered

/-! ### Complete elements and the path -/

/-- What complete elements and texts do to the path, where they stand in the same element: the
settled segments stay, and outside of names a segment can be gone on with behind them only if it
could be before, on the same path. -/
structure Preserves (s s' : State) : Prop where
  settled : s.settled <+: s'.settled
  begun : s.textElement? ≠ some .name → s'.nameStarted = true →
    s.nameStarted = true ∧ s'.path = s.path

/-- What one complete element does to the path: every segment stays, and a segment can be gone on
with behind it only if it could be before, on the same path. -/
structure Grows (s s' : State) : Prop where
  path : s.path <+: s'.path
  begun : s'.nameStarted = true → s.nameStarted = true ∧ s'.path = s.path

/-- Nothing that happens leaves every segment in place. -/
theorem Grows.refl (s : State) : Grows s s :=
  ⟨List.prefix_rfl, fun hstarted => ⟨hstarted, rfl⟩⟩

/-- What keeps every segment keeps the settled ones, where the same elements are open. -/
theorem Grows.preserves (h : Grows s s') (hframes : s'.frames = s.frames) : Preserves s s' where
  settled := by
    by_cases hin : s'.InSegment
    · obtain ⟨hstarted, hpath⟩ := h.begun hin.2
      rw [State.settled, State.settled, if_pos hin, hpath,
        if_pos ⟨State.textElement?_congr hframes ▸ hin.1, hstarted⟩]
    · rw [State.settled_eq_path hin]
      exact s.settled_prefix.trans h.path
  begun _ := h.begun

namespace Preserves

/-- Nothing that happens leaves the settled segments in place. -/
theorem refl (s : State) : Preserves s s :=
  (Grows.refl s).preserves rfl

/-- What stands in the same element is put together: the segments settled at first are settled at
last. -/
theorem trans (h : Preserves s s') (hframes : s'.frames = s.frames) (h' : Preserves s' s'') :
    Preserves s s'' where
  settled := h.settled.trans h'.settled
  begun hname hstarted := by
    obtain ⟨hmid, hpath'⟩ := h'.begun (State.textElement?_congr hframes ▸ hname) hstarted
    obtain ⟨hfirst, hpath⟩ := h.begun hname hmid
    exact ⟨hfirst, hpath'.trans hpath⟩

/-- A text keeps the settled segments, and begins none outside of a name. -/
theorem takeText (s : State) (text : String) : Preserves s (s.takeText text) where
  settled := by rw [s.settled_takeText text]
  begun hname hstarted := by
    rcases s.cases_takeText text with ⟨hpath, hsame⟩ | ⟨hin, -⟩
    · exact ⟨hsame ▸ hstarted, hpath⟩
    · exact absurd hin hname

end Preserves

/-- In an element that was just entered a text counts as a name only if the element is one. -/
theorem Enters.textElement?_ne (h : Enters s element content s') (hother : element ≠ .name) :
    s'.textElement? ≠ some .name := fun hname => by
  obtain ⟨depth, frames, hframes⟩ := State.exists_frames_of_textElement? hname
  rw [h.frames] at hframes
  cases hframes
  exact hother rfl

/-- The element that was just entered is no name with a segment. -/
theorem Enters.settled (h : Enters s element content s') : s'.settled = s.path := by
  rw [State.settled_eq_path, h.path]
  exact fun ⟨hname, hstarted⟩ => h.textElement?_ne (h.started hstarted).1 hname

/-- An element that is entered and left again lets the path grow; a folder or a file lets it be. -/
theorem grows_of_visits (henters : Enters s element content mid)
    (hframes : mid'.frames = mid.frames) (h : Preserves mid mid') (hleaves : Leaves mid' s') :
    Grows s s' ∧ (element.IsEntry → s'.path = s.path) := by
  have htop : mid'.frames.head? = some ⟨element, s.path.length⟩ := by
    rw [hframes, henters.frames]
    rfl
  have hmid : s.path <+: mid'.path := by
    rw [← henters.settled]
    exact h.settled.trans mid'.settled_prefix
  have hcut (hentry : element.IsEntry) : s'.path = s.path := by
    rw [hleaves.cut _ htop hentry]
    exact (List.prefix_iff_eq_take.1 hmid).symm
  have hkept (hother : ¬element.IsEntry) : s'.path = mid'.path :=
    hleaves.path fun frame hframe => by
      rw [htop] at hframe
      cases hframe
      exact hother
  refine ⟨⟨?_, fun hstarted => ?_⟩, hcut⟩
  · by_cases hentry : element.IsEntry
    · rw [hcut hentry]
    · rwa [hkept hentry]
  · -- the element is no name, so no text inside it can have put a segment on the path
    obtain ⟨hstarted', hother⟩ := hleaves.started hstarted
    obtain ⟨hmidStarted, hpath⟩ := h.begun (henters.textElement?_ne (hother _ htop)) hstarted'
    refine ⟨(henters.started hmidStarted).2, ?_⟩
    by_cases hentry : element.IsEntry
    · exact hcut hentry
    · rw [hkept hentry, hpath, henters.path]

/-- What is inside an element that is passed over does nothing. -/
theorem Reads.eq_of_passing (h : Reads p events q) (hnested : WellNested events)
    (hpassing : p.state.passing ≠ none) : q = p := by
  obtain ⟨⟨name, depth⟩, hsome⟩ := Option.ne_none_iff_exists'.1 hpassing
  exact h.unique (reads_of_wellNested hnested hsome)

/-- A complete element is passed over as a whole, or entered, read and left. -/
theorem Reads.cases_of_element
    (h : Reads p (.start content :: (inside ++ [.close (nameOf content)])) q)
    (hnested : WellNested inside) (hpassing : p.state.passing = none) :
    (Element.ofContent? content = none ∧ q.state = p.state) ∨
      ∃ element mid mid', Element.ofContent? content = some element ∧
        Enters p.state element content mid.state ∧ Reads mid inside mid' ∧
        Leaves mid'.state q.state := by
  cases h with
  | @cons _ _ opened s _ _ _ hstep htail =>
    obtain ⟨mid', hinside, hlast⟩ := htail.of_append
    cases hlast with
    | @cons _ _ opened' s' _ _ _ hstep' hnil =>
      cases hnil
      have hrestores := hinside.restores hnested
      have hclose := moves_of_step hstep'
      cases moves_of_step hstep with
      | passed hsome =>
        rw [hpassing] at hsome
        cases hsome
      | enters _ helement henters =>
        right
        refine ⟨_, ⟨opened, s⟩, mid', helement, henters, hinside, ?_⟩
        cases hclose with
        | passed hsome =>
          rw [hrestores.passing, henters.passing, hpassing] at hsome
          cases hsome
        | leaves _ hleaves => exact hleaves
      | skips _ hnone =>
        -- nothing happens up to the end tag, which ends the passing over
        left
        refine ⟨hnone, ?_⟩
        obtain rfl := hinside.eq_of_passing hnested (by simp)
        cases hclose with
        | passed hsome =>
          cases hsome
          rw [pass, if_pos rfl, ← hpassing]
        | leaves hnone' => cases hnone'

/-- A text, or an event that is an element by itself or none. -/
theorem grows_or_takeText_of_moves (h : Moves s event s') (hleaf : event.IsLeaf) :
    Grows s s' ∨ ∃ text, s' = s.takeText text := by
  cases h with
  | passed => exact .inl ⟨List.prefix_rfl, fun hstarted => ⟨hstarted, rfl⟩⟩
  | enters | skips | leaves => exact hleaf.elim
  | visits _ _ henters hleaves =>
    exact .inl (grows_of_visits henters rfl (Preserves.refl _) hleaves).1
  | ignores | aside => exact .inl (Grows.refl s)
  | text text | characterData text => exact .inr ⟨text, rfl⟩

/-- **Complete elements keep the settled segments.**

**Proof sketch.** By induction over the elements. The segments on the path in front of an element
are settled inside it, so they are still there where it is closed, and cutting the path back to
their number leaves just them. -/
theorem Reads.preserves (h : Reads p events q) (hnested : WellNested events)
    (hpassing : p.state.passing = none) : Preserves p.state q.state := by
  induction hnested generalizing p q with
  | nil =>
    cases h
    exact .refl _
  | leaf hleaf =>
    have hframes := (h.restores (.leaf hleaf)).frames
    cases h with
    | cons _ hstep htail =>
      cases htail
      rcases grows_or_takeText_of_moves (moves_of_step hstep) hleaf with hgrows | ⟨text, rfl⟩
      · exact hgrows.preserves hframes
      · exact .takeText _ text
  | element content hinside ih =>
    have hframes := (h.restores (.element content hinside)).frames
    rcases h.cases_of_element hinside hpassing with ⟨-, hsame⟩ |
      ⟨element, mid, mid', -, henters, hreads, hleaves⟩
    · rw [hsame]
      exact .refl _
    · have hinner := ih hreads (henters.passing.trans hpassing)
      exact (grows_of_visits henters (hreads.restores hinside).frames hinner hleaves).1.preserves
        hframes
  | append hfirst _ ih ih' =>
    obtain ⟨mid, hfront, hback⟩ := h.of_append
    have hrestores := hfront.restores hfirst
    exact (ih hfront hpassing).trans hrestores.frames
      (ih' hback (hrestores.passing.trans hpassing))

/-! ### Folders and files -/

/-- A folder or a file with everything in it: its tags around complete elements, or one tag that is
an element by itself. -/
inductive WholeEntry : List Event → Prop
  | element {content : List UInt8} {inside : List Event} {element : Element}
      (helement : Element.ofContent? content = some element) (hentry : element.IsEntry)
      (hinside : WellNested inside) :
      WholeEntry (.start content :: (inside ++ [.close (nameOf content)]))
  | empty {content : List UInt8} {element : Element}
      (helement : Element.ofContent? content = some element) (hentry : element.IsEntry) :
      WholeEntry [.empty content]

/-- A whole folder or file is well nested. -/
theorem WholeEntry.wellNested (h : WholeEntry events) : WellNested events := by
  cases h with
  | element _ _ hinside => exact .element _ hinside
  | empty => exact .leaf trivial

/-- **A folder or a file leaves the frames and the path as they were** when it was opened. -/
theorem Reads.eq_of_wholeEntry (h : Reads p events q) (hentry : WholeEntry events) :
    q.state.frames = p.state.frames ∧ q.state.path = p.state.path := by
  refine ⟨(h.restores hentry.wellNested).frames, ?_⟩
  by_cases hpassing : p.state.passing = none
  · cases hentry with
    | element helement hentry hinside =>
      rcases h.cases_of_element hinside hpassing with ⟨-, hsame⟩ |
        ⟨element, mid, mid', helement', henters, hreads, hleaves⟩
      · rw [hsame]
      · rw [helement] at helement'
        cases helement'
        have hinner := hreads.preserves hinside (henters.passing.trans hpassing)
        exact (grows_of_visits henters (hreads.restores hinside).frames hinner hleaves).2 hentry
    | empty helement hentry =>
      cases h with
      | cons _ hstep htail =>
        cases htail
        cases moves_of_step hstep with
        | passed => rfl
        | visits _ helement' henters hleaves =>
          rw [helement] at helement'
          cases helement'
          exact (grows_of_visits henters rfl (.refl _) hleaves).2 hentry
        | ignores => rfl
  · rw [h.eq_of_passing hentry.wellNested hpassing]

end Accession.Manifest

import Accession.Proofs.Manifest.Progress
set_option autoImplicit false

/-!
# The end of a reading

A reading that closes the inventory is decided by the octets up to there. What follows may be
anything, and without some octets at the end of the inventory, or of the element around it, there is
no manifest at all: a manifest that was cut off is not read as a smaller one.

## Main definitions

* `Manifest.ClosesAt` — where a reading closes the inventory, and where the outermost element around
  it begins.

## Main results

* `Manifest.exists_closesAt` — every manifest is read up to the end of the inventory, or up to the
  end of the octets with nothing open.
* `Manifest.parse_take_of_closesAt` — the octets up to the end of the inventory decide.
-/

namespace Accession.Manifest

open Markup (Cuts Event Opens StaysOpen Torn dropMark nextEvent octets openAfter)

variable {bytes : List UInt8} {i k : Nat} {manifest : Manifest}

/-- A reading of these octets closes the inventory at the offset `k`. Nothing is open at the offset
`i`, and from there on an element is open up to the event that closes the inventory. -/
inductive ClosesAt (bytes : List UInt8) (i k : Nat) (manifest : Manifest) : Prop
  | intro {before inside : List Event} {last : Event} {p q : Place} (hk : k ≤ bytes.length)
      (hbefore : Cuts (dropMark bytes) before (bytes.drop i)) (houtside : Reads .start before p)
      (hclosed : p.opened = []) (hinside : Cuts (bytes.drop i) (inside ++ [last]) (bytes.drop k))
      (hreads : Reads p inside q) (hstays : StaysOpen inside) (hlast : Finishes q last manifest)

/-! ### Readings that close the inventory -/

/-- **A manifest is read up to the end of the inventory, or up to the end of the octets**, where
nothing is open. -/
theorem exists_closesAt (h : parse bytes = .ok manifest) :
    (∃ i k, ClosesAt bytes i k manifest) ∨
      ∃ events q, Cuts (dropMark bytes) events [] ∧ Reads .start events q ∧ q.opened = [] ∧
        finish q.state = .ok manifest := by
  rw [parse_eq_readOn] at h
  obtain ⟨events, rest, q, hcuts, hreads, hend⟩ := exists_reads_of_readOn h
  rcases hend with ⟨last, rest', hnext, hlast⟩ | ⟨rfl, hfinish⟩
  · left
    have hopens : Opens [] events q.opened := hreads.opens
    obtain ⟨before, inside, rfl, hbefore, hinside, hstays⟩ := hopens.exists_staysOpen
    obtain ⟨mid, hcutsBefore, hcutsInside⟩ := hcuts.exists_of_append
    obtain ⟨p, houtside, hreadsInside⟩ := hreads.of_append
    have hend := hcutsInside.append (.single hnext)
    -- offsets count from the front of all octets, with the byte order mark
    obtain ⟨front, hfront⟩ := hcutsBefore.suffix.trans (Markup.dropMark_suffix bytes)
    obtain ⟨front', hfront'⟩ := hend.suffix.trans ⟨front, hfront⟩
    have hi : bytes.drop front.length = mid := by rw [← hfront, List.drop_left]
    have hk : bytes.drop front'.length = rest' := by rw [← hfront', List.drop_left]
    refine ⟨front.length, front'.length, .intro ?_ (hi ▸ hcutsBefore) houtside
      (houtside.opens.unique hbefore) (by rw [hi, hk]; exact hend) hreadsInside hstays hlast⟩
    rw [← hfront', List.length_append]
    omega
  · right
    refine ⟨events, q, hcuts, hreads, ?_, hfinish⟩
    by_contra hopened
    obtain ⟨error, herror⟩ := (Agrees.start.reads hreads).exists_finish_eq_error hopened
    rw [hfinish] at herror
    cases herror

/-- The outermost element around the inventory begins with a bracket. -/
theorem exists_bracket_of_staysOpen {inside : List Event} {last : Event} {q : Place}
    {front rest : List UInt8} (hcuts : Cuts front (inside ++ [last]) rest)
    (hstays : StaysOpen inside) (hlast : Finishes q last manifest) :
    ∃ tail, front = 0x3C :: tail := by
  cases inside with
  | nil =>
    cases hcuts with
    | cons hnext _ => exact Markup.exists_bracket_of_nextEvent hnext hlast.not_isText
  | cons first inside =>
    cases hcuts with
    | cons hnext _ =>
      refine Markup.exists_bracket_of_nextEvent hnext fun htext => ?_
      -- a text would leave nothing open
      have hleaf : first.IsLeaf := by
        cases first <;> trivial
      exact hstays [first] ⟨inside, rfl⟩ (by simp) (.single (Markup.openAfter_of_isLeaf hleaf []))

/-! ### Octets that break off -/

/-- **Octets that break off while an element is open hold no manifest.** -/
theorem exists_readOn_eq_error_of_torn {p : Place} (h : Agrees p) (hopened : p.opened ≠ [])
    (htorn : Torn bytes) : ∃ error, readOn p bytes = .error error := by
  cases hnext : nextEvent bytes with
  | done =>
    cases bytes with
    | nil =>
      rw [readOn_nil]
      exact h.exists_finish_eq_error hopened
    | cons b bytes => exact absurd hnext (Markup.nextEvent_ne_done b bytes)
  | fault error => exact ⟨_, readOn_fault hnext p⟩
  | event event rest =>
    obtain ⟨htext, rfl⟩ := htorn event rest hnext
    obtain ⟨text, rfl, -⟩ := Markup.exists_text_of_nextEvent hnext htext
    have hopen : openAfter p.opened (.text text) = .ok p.opened := rfl
    rw [readOn_event hnext, hopen]
    dsimp only
    cases hstep : step p.state (.text text) with
    | error error => exact ⟨_, rfl⟩
    | ok progress =>
      cases progress with
      | finished closed => exact absurd trivial (Finishes.not_isText ⟨⟨_, hopen⟩, hstep⟩)
      | reading state =>
        dsimp only
        rw [readOn_nil]
        exact (h.step hopen hstep).exists_finish_eq_error hopened

/-- A bracket does not break off as a text. -/
theorem exists_nextEvent_eq_fault_of_torn {tail : List UInt8} (htorn : Torn (0x3C :: tail)) :
    ∃ error, nextEvent (0x3C :: tail) = .fault error := by
  cases hnext : nextEvent (0x3C :: tail) with
  | done => exact absurd hnext (Markup.nextEvent_ne_done _ _)
  | fault error => exact ⟨error, rfl⟩
  | event event rest =>
    rw [nextEvent, if_pos rfl] at hnext
    have htext := (htorn event rest (by rw [nextEvent, if_pos rfl, hnext])).1
    exact absurd htext (Markup.not_isText_of_markup hnext)

/-! ### The octets that decide -/

namespace ClosesAt

/-- A bracket stands at the offset `i`, and the reading goes on behind it. -/
theorem exists_take_eq (h : ClosesAt bytes i k manifest) :
    i < k ∧ ∀ j, i < j → ∃ part, bytes.take j = bytes.take i ++ 0x3C :: part ∧
      bytes.drop i = 0x3C :: part ++ bytes.drop j := by
  obtain ⟨hk, -, -, -, hinside, -, hstays, hlast⟩ := h
  obtain ⟨tail, hbracket⟩ := exists_bracket_of_staysOpen hinside hstays hlast
  constructor
  · obtain ⟨mid, hfront, hend⟩ := hinside.exists_of_append
    cases hend with
    | cons hnext hnil =>
      cases hnil
      have hlt := Markup.length_lt_of_nextEvent hnext
      have hle := hfront.length_le
      simp only [List.length_drop] at hlt hle
      omega
  · intro j hij
    obtain ⟨d, rfl⟩ := Nat.exists_eq_add_of_lt hij
    refine ⟨tail.take d, ?_, ?_⟩
    · rw [Nat.add_assoc, List.take_add, hbracket, List.take_succ_cons]
    · rw [Nat.add_assoc, ← List.drop_drop, hbracket, List.drop_succ_cons, List.cons_append,
        List.take_append_drop]

/-- What follows the inventory does not count. -/
theorem parse_take_append (h : ClosesAt bytes i k manifest) (more : List UInt8) :
    parse (bytes.take k ++ more) = .ok manifest := by
  obtain ⟨hik, htake⟩ := h.exists_take_eq
  obtain ⟨part, hpart, -⟩ := htake k hik
  obtain ⟨hk, hbefore, houtside, hclosed, hinside, hreads, hstays, hlast⟩ := h
  have hmem : 0x3C ∈ bytes.take k := by
    rw [hpart]
    simp
  have hcuts := hbefore.append hinside
  rw [← List.take_append_drop k bytes, Markup.dropMark_append hmem,
    List.take_append_drop k bytes] at hcuts
  -- the last event is a tag, so nothing that follows makes it longer
  have hother := hcuts.replace more fun event hevent htext => by
    rw [← List.append_assoc, List.getLast?_append, List.getLast?_singleton] at hevent
    obtain rfl : _ = event := Option.some.inj hevent
    exact absurd htext hlast.not_isText
  rw [← List.append_assoc] at hother
  obtain ⟨mid, hfront, hend⟩ := hother.exists_of_append
  cases hend with
  | cons hnext _ =>
    rw [parse_eq_readOn, Markup.dropMark_append hmem,
      readOn_of_reads hfront (houtside.append hreads)]
    exact readOn_of_finishes hlast hnext

/-- Octets that break off inside the outermost element around the inventory hold no manifest. -/
theorem exists_parse_take_eq_error (h : ClosesAt bytes i k manifest) {j : Nat} (hij : i < j)
    (hjk : j < k) : ∃ error, parse (bytes.take j) = .error error := by
  obtain ⟨part, hpart, hdrop⟩ := h.exists_take_eq.2 j hij
  obtain @⟨before, inside, last, p, q, hk, hbefore, houtside, hclosed, hinside, hreads, hstays,
    hlast⟩ := h
  have hmem : 0x3C ∈ bytes.take j := by
    rw [hpart]
    simp
  rw [hdrop] at hinside
  rw [← List.take_append_drop j bytes, Markup.dropMark_append hmem,
    List.take_append_drop j bytes, hdrop] at hbefore
  -- the events in front of the element are cut off as before
  obtain ⟨front, hfront, hbefore⟩ := hbefore.of_append (by
    rw [List.length_append]
    omega)
  obtain rfl := List.append_cancel_right hfront
  obtain ⟨whole, left, torn, hwhole, hleft, hcuts, htorn⟩ := hinside.exists_torn (by
    simp only [List.length_drop]
    omega)
  obtain ⟨others, rfl⟩ : whole <+: inside := by
    rcases List.prefix_concat_iff.1 ⟨left, hwhole.symm⟩ with rfl | hprefix
    · exact absurd (List.self_eq_append_right.1 hwhole) hleft
    · exact hprefix
  obtain ⟨r, hreads, -⟩ := hreads.of_append
  have houtcome : parse (bytes.take j) = readOn r torn := by
    rw [parse_eq_readOn]
    exact readOn_of_reads (hbefore.append hcuts) (houtside.append hreads)
  rw [houtcome]
  by_cases hnone : whole = []
  · -- the first tag of the element is torn itself
    subst hnone
    cases hcuts
    obtain ⟨error, hfault⟩ := exists_nextEvent_eq_fault_of_torn htorn
    exact ⟨_, readOn_fault hfault r⟩
  · have hopens := hreads.opens
    rw [hclosed] at hopens
    have hopened : r.opened ≠ [] := fun hnil =>
      hstays whole ⟨others, rfl⟩ hnone (hnil ▸ hopens)
    exact exists_readOn_eq_error_of_torn (Agrees.start.reads (houtside.append hreads)) hopened htorn

end ClosesAt

/-- **The octets up to the end of the inventory decide**: whatever follows them instead, the
manifest is the same, and octets that break off before, inside the outermost element around the
inventory, hold no manifest.

**Proof sketch.** The octets up to `k` are cut into the same events, whatever follows. Octets that
break off at `j` are cut into the events before `i` and some of those behind, and what is left is
torn; so an element is open where they end, or a tag has no end. -/
theorem parse_take_of_closesAt (h : ClosesAt bytes i k manifest) :
    parse bytes = .ok manifest ∧ (∀ more, parse (bytes.take k ++ more) = parse bytes) ∧
      ∀ j, i < j → j < k → ∃ error, parse (bytes.take j) = .error error := by
  have hparse : parse bytes = .ok manifest := by
    have hwhole := h.parse_take_append (bytes.drop k)
    rwa [List.take_append_drop] at hwhole
  refine ⟨hparse, fun more => ?_, fun j hij hjk => h.exists_parse_take_eq_error hij hjk⟩
  rw [hparse]
  exact h.parse_take_append more

/-- An inventory behind a comment, with a file, in front of octets that are no markup. -/
def closedText : String :=
  "<!----><paket><inhaltsverzeichnis><datei><name>x</name></datei></inhaltsverzeichnis>&<"

/-- What stands between the comment and the end of the inventory. -/
def closedEvents : List Event :=
  [.start (octets "paket"), .start (octets "inhaltsverzeichnis"), .start (octets "datei"),
    .start (octets "name"), .text (octets "x"), .close (octets "name"), .close (octets "datei")]

/-- In the closed manifest the inventory closes at the given place. -/
theorem closesAt_closedText :
    ClosesAt (octets closedText) 7 84 (Index.ofList [("x", ⟨"", "", ""⟩)]) := by
  have hbefore : Cuts (dropMark (octets closedText)) [.aside] ((octets closedText).drop 7) := by
    decide +kernel
  have hinside : Cuts ((octets closedText).drop 7)
      (closedEvents ++ [.close (octets "inhaltsverzeichnis")]) ((octets closedText).drop 84) := by
    decide +kernel
  have hfile {s : State} (hpassing : s.passing = none) :=
    step_file (t := bareTag "datei" (by decide)) hpassing (by decide) rfl
  have hread : ∃ q, Reads .start closedEvents q ∧
      Finishes q (.close (octets "inhaltsverzeichnis")) (Index.ofList [("x", ⟨"", "", ""⟩)]) :=
    ⟨_, .cons rfl rfl (.cons rfl rfl (.cons rfl (hfile rfl) (.cons rfl rfl (.cons rfl
      (step_text rfl (Markup.spells_self (by decide))) (.cons rfl rfl (.cons rfl rfl (.nil _))))))),
      ⟨_, rfl⟩, rfl⟩
  obtain ⟨q, hreads, hlast⟩ := hread
  have hstays : StaysOpen closedEvents := by decide +kernel
  exact .intro (by decide +kernel) hbefore (.cons rfl rfl (.nil _)) rfl hinside hreads hstays hlast

/-- Behind the closed inventory anything may follow, and within it no cut is read. -/
theorem parse_take_closedText :
    ClosesAt (octets closedText) 7 84 (Index.ofList [("x", ⟨"", "", ""⟩)]) ∧
      parse (octets closedText) = .ok (Index.ofList [("x", ⟨"", "", ""⟩)]) ∧
      (∀ more, parse ((octets closedText).take 84 ++ more) = parse (octets closedText)) ∧
      ∀ j, 7 < j → j < 84 → ∃ error, parse ((octets closedText).take j) = .error error :=
  ⟨closesAt_closedText, parse_take_of_closesAt closesAt_closedText⟩

end Accession.Manifest

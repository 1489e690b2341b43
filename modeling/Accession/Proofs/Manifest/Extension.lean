import Accession.Proofs.Manifest.Progress
import Accession.Proofs.Markup.Content
import Accession.Proofs.Markup.Resolving
set_option autoImplicit false

/-!
# Extensions of a manifest

A manifest may hold more than an inventory: comments, instructions and elements that are none of the
inventory's, with any content. A reader that stands in front of one stands behind it as before. So
the manifest is the same with it and without it, be it put between two events or into a text, which
is then taken in two parts.

## Main definitions

* `Manifest.WrittenExtension` — what may be put into a manifest.
* `Manifest.Gap` — where it may be put.

## Main results

* `Manifest.reads_of_wellNested` — complete elements inside one that is passed over mean nothing.
* `Manifest.WrittenExtension.exists_complete` — an extension leaves the reader as it was.
* `Manifest.parse_insert` — a manifest with an extension is read like the one without.
-/

namespace Accession.Manifest

open Markup (Complete Cuts Event Uncut WellNested WrittenAside WrittenContent WrittenTag dropMark
  isLayout nameOf nextEvent octets openAfter)
open Utf8 (encode)

/-! ### Extensions -/

/-- What may be put into a manifest: a comment, an instruction, or an element with any content whose
tag bears no name of the inventory. -/
inductive WrittenExtension : List Char → Prop
  | aside {aside : List Char} (h : WrittenAside aside) : WrittenExtension aside
  | element {t : WrittenTag} {inner trail : List Char} (ht : ∀ element, ¬Bears t element)
      (hinner : WrittenContent inner) (htrail : ∀ c ∈ trail, isLayout c) :
      WrittenExtension (t.element inner trail)
  | emptyElement {t : WrittenTag} (ht : ∀ element, ¬Bears t element) :
      WrittenExtension t.emptyElement

/-- **Complete elements inside one that is passed over mean nothing.** -/
theorem reads_of_wellNested {events : List Event} (h : WellNested events) {p : Place}
    {name : List UInt8} {depth : Nat} (hpassing : p.state.passing = some (name, depth)) :
    Reads p events p := by
  obtain ⟨opened, s⟩ := p
  dsimp only at hpassing
  have hstep (depth' : Nat) (event : Event) :
      step { s with passing := some (name, depth') } event =
        .ok (.reading { s with passing := pass name depth' event }) :=
    rfl
  have hsame : { s with passing := some (name, depth) } = s := by rw [← hpassing]
  rw [← hsame]
  clear hsame hpassing
  induction h generalizing opened depth with
  | nil => exact .nil _
  | @leaf event hleaf =>
    have hpass : pass name depth event = some (name, depth) := by
      cases event with
      | start | close => exact hleaf.elim
      | empty | text | characterData | aside => rfl
    exact .cons (Markup.openAfter_of_isLeaf hleaf _) ((hstep depth event).trans (by rw [hpass]))
      (.nil _)
  | element content _ ih =>
    have hback : pass name (if nameOf content = name then depth + 1 else depth)
        (.close (nameOf content)) = some (name, depth) := by
      by_cases hname : nameOf content = name
      · simp [pass, hname]
      · simp [pass, hname]
    refine .cons rfl (hstep depth _) (.append (ih _) ?_)
    exact .cons (Markup.openAfter_close ..) ((hstep _ _).trans (by rw [hback])) (.nil _)
  | append _ _ ih ih' => exact (ih _).append (ih' _)

/-- A tag that bears no name of the inventory is none of its elements'. -/
theorem ofContent?_eq_none {t : WrittenTag} (h : ∀ element, ¬Bears t element) :
    Element.ofContent? t.octets = none := by
  cases hfind : Element.ofContent? t.octets with
  | none => rfl
  | some element =>
    have hname := List.find?_some hfind
    rw [decide_eq_true_eq, t.nameOf_octets, Markup.localName_encode, Markup.octets] at hname
    exact absurd (Utf8.encode_injective hname).symm (h element)

/-- **An extension leaves the reader as it was**, wherever it stands. -/
theorem WrittenExtension.exists_complete {chars : List Char} (h : WrittenExtension chars) :
    ∃ events, Complete chars events ∧ ∀ p, Reads p events p := by
  have hleaf {event : Event} (hleaf : event.IsLeaf)
      (hstep : ∀ s : State, s.passing = none → step s event = .ok (.reading s)) (p : Place) :
      Reads p [event] p := by
    cases hpassing : p.state.passing with
    | some skipped => exact reads_of_wellNested (.leaf hleaf) hpassing
    | none =>
      exact .cons (Markup.openAfter_of_isLeaf hleaf _) (hstep p.state hpassing) (.nil _)
  cases h with
  | aside haside =>
    exact ⟨_, haside.complete, hleaf trivial fun s hnone => by rw [step_of_none hnone, readEvent]⟩
  | @element t inner trail ht hinner htrail =>
    obtain ⟨events, hcuts, hnested⟩ := hinner.exists_beforeMarkup
    refine ⟨_, t.complete_element htrail hcuts, fun p => ?_⟩
    cases hpassing : p.state.passing with
    | some skipped => exact reads_of_wellNested (t.wellNested_element hnested) hpassing
    | none =>
      -- the start tag begins to pass over the element, and its end tag ends that
      obtain ⟨opened, s⟩ := p
      dsimp only at hpassing
      have hstart : step s (.start t.octets) =
          .ok (.reading { s with passing := some (nameOf t.octets, 0) }) := by
        rw [step_of_none hpassing, readEvent, ofContent?_eq_none ht]
      have hclose : step { s with passing := some (nameOf t.octets, 0) }
          (.close (nameOf t.octets)) = .ok (.reading s) := by
        have hnone : pass (nameOf t.octets) 0 (.close (nameOf t.octets)) = s.passing := by
          rw [hpassing, pass, if_pos rfl]
        rw [step]
        dsimp only
        rw [hnone]
      rw [← t.nameOf_octets]
      exact .cons rfl hstart ((reads_of_wellNested hnested rfl).append
        (.cons (Markup.openAfter_close ..) hclose (.nil _)))
  | emptyElement ht =>
    refine ⟨_, WrittenTag.complete_emptyElement _, hleaf trivial fun s hnone => ?_⟩
    rw [step_of_none hnone, readEvent, ofContent?_eq_none ht]

/-! ### Places for extensions -/

/-- Where something may be put into the octets `lead ++ rest`: between two events (also in front of
the first and behind the last), or inside a text, where the cut goes through no character and no
reference. -/
inductive Gap (lead : List UInt8) : List UInt8 → Prop
  | between {rest : List UInt8} {events : List Event}
      (hcuts : Cuts (dropMark (lead ++ rest)) events rest) : Gap lead rest
  | inText {before after more : List UInt8} {events : List Event}
      (hcuts : Cuts (dropMark (lead ++ (after ++ more))) events (before ++ (after ++ more)))
      (htext : nextEvent (before ++ (after ++ more)) = .event (.text (before ++ after)) more)
      (hbefore : before ≠ []) (hafter : after ≠ []) (huncut : Uncut before after) :
      Gap lead (after ++ more)

variable {p : Place} {bytes bytes' rest rest' : List UInt8} {events : List Event}
  {manifest : Manifest}

/-- Readings that go the same way from a place on go the same way from the events before it on. -/
theorem readOn_replace (hcuts : Cuts bytes events rest) (hcuts' : Cuts bytes' events rest')
    (hon : ∀ q, readOn q rest = .ok manifest → readOn q rest' = .ok manifest)
    (h : readOn p bytes = .ok manifest) : readOn p bytes' = .ok manifest := by
  induction hcuts generalizing p bytes' with
  | nil =>
    cases hcuts'
    exact hon p h
  | @cons bytes mid rest event events hnext htail ih =>
    cases hcuts' with
    | cons hnext' htail' =>
      obtain ⟨opened, hopen, hstep | ⟨state, hstep, hon'⟩⟩ := cases_of_readOn_event hnext h
      · exact readOn_of_finishes ⟨⟨opened, hopen⟩, hstep⟩ hnext'
      · rw [readOn_of_reads (.single hnext') (.cons hopen hstep (.nil _))]
        exact ih htail' hon hon'

/-- A text is taken in two parts, unless the cut between them goes through a character or a
reference. -/
theorem exists_step_text {s : State} {before after : List UInt8} {progress : Progress}
    (h : step s (.text (before ++ after)) = .ok progress) (huncut : Uncut before after) :
    ∃ mid, step s (.text before) = .ok (.reading mid) ∧ step mid (.text after) = .ok progress := by
  cases hpassing : s.passing with
  | some skipped =>
    obtain ⟨name, depth⟩ := skipped
    rw [step, hpassing] at h
    exact ⟨{ s with passing := some (name, depth) }, by rw [step, hpassing]; rfl, h⟩
  | none =>
    rw [step_of_none hpassing, readEvent] at h
    cases hdecode : Markup.decodeText (before ++ after) with
    | error error =>
      rw [hdecode] at h
      cases h
    | ok text =>
      rw [hdecode] at h
      cases h
      obtain ⟨first, last, hfirst, hlast, rfl⟩ := Markup.exists_decodeText_of_append hdecode huncut
      refine ⟨s.takeText first, ?_, ?_⟩
      · rw [step_of_none hpassing, readEvent, hfirst]
        rfl
      · rw [step_of_none ((s.passing_takeText first).trans hpassing), readEvent, hlast,
          ← State.takeText_append]
        rfl

/-- What is put into a text does not change a reading, if it leaves the reader as it was. -/
theorem readOn_inText {extension before after more : List UInt8}
    (hbracket : extension.head? = some 0x3C)
    (hcuts : ∀ rest, Cuts (extension ++ rest) events rest) (hreads : ∀ p, Reads p events p)
    (htext : nextEvent (before ++ (after ++ more)) = .event (.text (before ++ after)) more)
    (hbefore : before ≠ []) (hafter : after ≠ []) (huncut : Uncut before after)
    (h : readOn p (before ++ (after ++ more)) = .ok manifest) :
    readOn p (before ++ (extension ++ (after ++ more))) = .ok manifest := by
  obtain ⟨content, heq, -, -, hopen, hmore⟩ := Markup.exists_text_of_nextEvent htext trivial
  cases heq
  rw [List.mem_append, not_or] at hopen
  have hnext : nextEvent (before ++ (extension ++ (after ++ more))) =
      .event (.text before) (extension ++ (after ++ more)) := by
    refine Markup.nextEvent_text hbefore hopen.1 ?_
    rw [List.head?_append, hbracket]
    rfl
  have hnext' : nextEvent (after ++ more) = .event (.text after) more :=
    Markup.nextEvent_run hafter hopen.2 hmore
  obtain ⟨opened, hopen', hstep | ⟨state, hstep, hon⟩⟩ := cases_of_readOn_event htext h
  · exact absurd trivial (Finishes.not_isText ⟨⟨opened, hopen'⟩, hstep⟩)
  · obtain ⟨mid, hfirst, hlast⟩ := exists_step_text hstep huncut
    have hreads₁ : Reads p [.text before] ⟨p.opened, mid⟩ := .cons rfl hfirst (.nil _)
    have hreads₂ : Reads ⟨p.opened, mid⟩ [.text after] ⟨opened, state⟩ :=
      .cons hopen' hlast (.nil _)
    rw [readOn_of_reads (.single hnext) hreads₁, readOn_of_reads (hcuts _) (hreads _),
      readOn_of_reads (.single hnext') hreads₂]
    exact hon

/-- **A manifest with an extension is read like the one without**, wherever the extension is put
between two events or into a text.

**Proof sketch.** The events in front of the extension stay, since markup follows them now. The
extension leaves the reader as it was, and a text around it is taken in two parts, which is the same
as taking it whole. -/
theorem parse_insert {lead : List UInt8} {inserted : List Char} (hgap : Gap lead rest)
    (hinserted : WrittenExtension inserted) (h : parse (lead ++ rest) = .ok manifest) :
    parse (lead ++ (encode inserted ++ rest)) = .ok manifest := by
  obtain ⟨own, hcomplete, hreads⟩ := hinserted.exists_complete
  obtain ⟨tail, hbracket⟩ : ∃ tail, encode inserted = 0x3C :: tail := by
    have hhead := hcomplete.head []
    rw [List.append_nil] at hhead
    exact List.head?_eq_some_iff.1 hhead
  have hfirst : (encode inserted).head? = some 0x3C := by rw [hbracket]; rfl
  rw [parse_eq_readOn] at h ⊢
  cases hgap with
  | @between _ events hcuts =>
    obtain ⟨front, hfront⟩ := hcuts.suffix
    have hmark := Markup.dropMark_replace hfront.symm (tail ++ rest)
    rw [← List.cons_append, ← hbracket] at hmark
    rw [← hfront] at hcuts h
    rw [hmark]
    refine readOn_replace hcuts (hcuts.replace _ fun _ _ _ => ?_) (fun q hq => ?_) h
    · rw [hbracket]
      rfl
    · rw [readOn_of_reads (hcomplete.cuts rest) (hreads q)]
      exact hq
  | @inText before after more events hcuts htext hbefore hafter huncut =>
    obtain ⟨front, hfront⟩ := hcuts.suffix
    rw [← hfront] at hcuts h
    rw [← List.append_assoc] at hfront
    have hmark := Markup.dropMark_replace hfront.symm (tail ++ (after ++ more))
    rw [← List.cons_append, ← hbracket, List.append_assoc] at hmark
    rw [hmark]
    refine readOn_replace hcuts (hcuts.replace _ fun event hlast hevent => ?_) (fun q hq => ?_) h
    · -- the next octet is the first one of the text, before and after
      obtain ⟨b, tail', rfl⟩ := List.exists_cons_of_ne_nil hbefore
      exact congrArg some (hcuts.head_of_isText hlast hevent b rfl)
    · exact readOn_inText hfirst hcomplete.cuts hreads htext hbefore hafter huncut hq

/-- An inventory up to the middle of the name of its file. -/
def leadText : String :=
  "<inhaltsverzeichnis><datei><name>a"

/-- An inventory from the middle of the name of its file on. -/
def restText : String :=
  "b</name></datei></inhaltsverzeichnis>"

/-- An element that is none of the inventory's, with one inside that is. -/
def insertedText : String :=
  "<v:x><name>c</name><!----></v:x>"

/-- An insertion in the middle of a name leaves the name in one piece. -/
theorem parse_insertedText :
    Gap (octets leadText) (octets restText) ∧ WrittenExtension insertedText.toList ∧
      parse (octets leadText ++ octets restText) = .ok (Index.ofList [("ab", ⟨"", "", ""⟩)]) ∧
      parse (octets leadText ++ (encode insertedText.toList ++ octets restText)) =
        .ok (Index.ofList [("ab", ⟨"", "", ""⟩)]) := by
  have hrest : octets restText = octets "b" ++ octets "</name></datei></inhaltsverzeichnis>" := by
    decide +kernel
  have hgap : Gap (octets leadText) (octets restText) := by
    rw [hrest]
    have hcuts : Cuts (dropMark (octets leadText ++ (octets "b" ++
        octets "</name></datei></inhaltsverzeichnis>"))) [.start (octets "inhaltsverzeichnis"),
          .start (octets "datei"), .start (octets "name")] (octets "a" ++ (octets "b" ++
        octets "</name></datei></inhaltsverzeichnis>")) := by
      decide +kernel
    exact .inText hcuts rfl (by decide) (by decide)
      (Markup.uncut_of_plain (by decide +kernel) (by decide +kernel))
  have hinserted : WrittenExtension insertedText.toList := by
    have hnone := Markup.isLayout_of_mem_nil
    have hname : WrittenContent ([] ++ ((bareTag "name" (by decide)).element ['c'] [] ++
        ([] ++ (("<!--".toList ++ ([] ++ ['-', '-', '>'])) ++ [])))) :=
      .element (by decide) _ (.run (by decide)) hnone
        (.aside (by decide) (.comment (by decide)) (.run (by decide)))
    have helement : WrittenExtension ((bareTag "v:x" (by decide)).element _ []) :=
      .element (fun element => by cases element <;> decide) hname hnone
    exact Eq.mp (congrArg WrittenExtension (by decide +kernel)) helement
  have hparse : parse (octets leadText ++ octets restText) =
      .ok (Index.ofList [("ab", ⟨"", "", ""⟩)]) := by
    have hcuts : Cuts (dropMark (octets leadText ++ octets restText))
        [.start (octets "inhaltsverzeichnis"), .start (octets "datei"), .start (octets "name"),
          .text (octets "ab"), .close (octets "name"), .close (octets "datei")]
        (octets "</inhaltsverzeichnis>") := by
      decide +kernel
    have hread : ∃ q, Reads .start [.start (octets "inhaltsverzeichnis"), .start (octets "datei"),
        .start (octets "name"), .text (octets "ab"), .close (octets "name"),
        .close (octets "datei")] q ∧
          Finishes q (.close (octets "inhaltsverzeichnis")) (Index.ofList [("ab", ⟨"", "", ""⟩)]) :=
      ⟨_, .cons rfl rfl (.cons rfl
        (step_file (t := bareTag "datei" (by decide)) rfl (by decide) rfl)
        (.cons rfl rfl (.cons rfl (step_text rfl (Markup.spells_self (by decide)))
          (.cons rfl rfl (.cons rfl rfl (.nil _)))))), ⟨_, rfl⟩, rfl⟩
    obtain ⟨q, hreads, hfinishes⟩ := hread
    rw [parse_eq_readOn, readOn_of_reads hcuts hreads]
    exact readOn_of_finishes hfinishes rfl
  exact ⟨hgap, hinserted, hparse, parse_insert hgap hinserted hparse⟩

end Accession.Manifest

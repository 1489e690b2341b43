import Accession.Proofs.Markup.Cutting
import Mathlib.Data.List.Induction
import Mathlib.Data.List.Infix
set_option autoImplicit false

/-!
# Elements that are open

The check of the nesting keeps the names of the open elements. Here it is taken apart into what one
event does to them, and rows of events are related to the elements that they leave open: events with
every element closed leave open what was, and behind any events an open element has a start tag of
its own, with nothing left open behind it.

## Main definitions

* `Markup.openAfter` — the open elements after one event.
* `Markup.Opens` — the open elements after some events.
* `Markup.StaysOpen` — events behind each of which the same element is open.
* `Markup.WellNested` — events with every element closed.

## Main results

* `Markup.nestFrom_cons_eq` — the check of the nesting, event by event.
* `Markup.Opens.exists_staysOpen` — the last place where nothing is open.
* `Markup.WellNested.opens` — events with every element closed leave open what was.
* `Markup.Opens.exists_start` — the start tag of an open element.
-/

namespace Accession.Markup

variable {opened : List (List UInt8)} {event : Event} {events : List Event}

/-! ### One event -/

/-- The names of the open elements after an event, innermost first, if its end tag fits. -/
def openAfter (opened : List (List UInt8)) : Event → Except Error (List (List UInt8))
  | .start content => .ok (nameOf content :: opened)
  | .close name =>
    match opened with
    | [] => .error (.nesting (.unmatched (shownName name)))
    | expected :: opened =>
      if expected = name then .ok opened
      else .error (.nesting (.mismatched (shownName expected) (shownName name)))
  | _ => .ok opened

/-- The check of the nesting goes on with the elements that are open after the first event. -/
theorem nestFrom_cons_eq (fault : Option Error) (opened : List (List UInt8)) (event : Event)
    (events : List Event) :
    nestFrom fault [] opened (event :: events) =
      match openAfter opened event with
      | .error error => ⟨[], some error⟩
      | .ok opened =>
        ⟨event :: (nestFrom fault [] opened events).events,
          (nestFrom fault [] opened events).fault⟩ := by
  cases event with
  | start content =>
    rw [nestFrom, nestFrom_eq]
    rfl
  | close name =>
    cases opened with
    | nil => rfl
    | cons expected opened =>
      rw [nestFrom, openAfter]
      split
      · rw [nestFrom_eq]
        rfl
      · rfl
  | empty | text | characterData | aside =>
    rw [nestFrom, nestFrom_eq]
    · rfl
    all_goals simp

/-- Events that open no element and close none. -/
def Event.IsLeaf : Event → Prop
  | .start _ | .close _ => False
  | _ => True

/-- What opens no element and closes none leaves open what was. -/
theorem openAfter_of_isLeaf (h : event.IsLeaf) (opened : List (List UInt8)) :
    openAfter opened event = .ok opened := by
  cases event with
  | start | close => exact h.elim
  | empty | text | characterData | aside => rfl

/-- The end tag of the innermost element closes it. -/
theorem openAfter_close (name : List UInt8) (opened : List (List UInt8)) :
    openAfter (name :: opened) (.close name) = .ok opened :=
  if_pos rfl

/-- An end tag that fits closes the innermost element. -/
theorem eq_of_openAfter_close {name : List UInt8} {opened' : List (List UInt8)}
    (h : openAfter opened (.close name) = .ok opened') : opened = name :: opened' := by
  cases opened with
  | nil => cases h
  | cons expected opened =>
    rw [openAfter] at h
    split at h
    · rename_i hname
      cases h
      rw [hname]
    · cases h

/-! ### Many events -/

/-- `Opens opened events opened'`: the end tags of these events fit the elements `opened`, and
behind them the elements `opened'` are open. -/
inductive Opens : List (List UInt8) → List Event → List (List UInt8) → Prop
  | nil (opened : List (List UInt8)) : Opens opened [] opened
  | cons {opened mid opened' : List (List UInt8)} {event : Event} {events : List Event}
      (h : openAfter opened event = .ok mid) (htail : Opens mid events opened') :
      Opens opened (event :: events) opened'

namespace Opens

variable {mid opened' : List (List UInt8)} {events' : List Event}

/-- One event opens and closes what it does. -/
theorem single (h : openAfter opened event = .ok opened') : Opens opened [event] opened' :=
  .cons h (.nil _)

/-- Rows of events are put together where one leaves open what the other begins with. -/
theorem append (h : Opens opened events mid) (h' : Opens mid events' opened') :
    Opens opened (events ++ events') opened' := by
  induction h with
  | nil => exact h'
  | cons hevent _ ih => exact .cons hevent (ih h')

/-- A row of events comes through the place where it is taken apart. -/
theorem of_append (h : Opens opened (events ++ events') opened') :
    ∃ mid, Opens opened events mid ∧ Opens mid events' opened' := by
  induction events generalizing opened with
  | nil => exact ⟨opened, .nil _, h⟩
  | cons event events ih =>
    cases h with
    | cons hevent htail =>
      obtain ⟨mid, hfront, hback⟩ := ih htail
      exact ⟨mid, .cons hevent hfront, hback⟩

/-- Only one row of elements is open behind some events. -/
theorem unique (h : Opens opened events mid) (h' : Opens opened events opened') :
    mid = opened' := by
  induction h with
  | nil =>
    cases h'
    rfl
  | cons hevent _ ih =>
    cases h' with
    | cons hevent' htail' =>
      rw [hevent] at hevent'
      cases hevent'
      exact ih htail'

end Opens

/-- The open elements are computed event by event. -/
theorem opens_iff_foldlM {opened' : List (List UInt8)} :
    Opens opened events opened' ↔ events.foldlM openAfter opened = .ok opened' := by
  induction events generalizing opened with
  | nil =>
    refine ⟨fun h => ?_, fun h => ?_⟩
    · cases h
      rfl
    · cases h
      exact .nil _
  | cons event events ih =>
    rw [List.foldlM_cons]
    refine ⟨fun h => ?_, fun h => ?_⟩
    · cases h with
      | cons hevent htail =>
        rw [hevent]
        exact ih.1 htail
    · cases hevent : openAfter opened event with
      | error error =>
        rw [hevent] at h
        cases h
      | ok mid =>
        rw [hevent] at h
        exact .cons hevent (ih.2 h)

instance (opened : List (List UInt8)) (events : List Event) (opened' : List (List UInt8)) :
    Decidable (Opens opened events opened') :=
  decidable_of_iff _ opens_iff_foldlM.symm

/-- Behind each of these events an element is open that one of them opens. -/
def StaysOpen (events : List Event) : Prop :=
  ∀ part, part <+: events → part ≠ [] → ¬Opens [] part []

instance (events : List Event) : Decidable (StaysOpen events) :=
  decidable_of_iff (∀ part ∈ events.inits, part ≠ [] → ¬Opens [] part [])
    (forall_congr' fun part => by rw [List.mem_inits])

/-- **Events are taken apart at the last place where nothing is open.** -/
theorem Opens.exists_staysOpen (h : Opens [] events opened) :
    ∃ before inside, events = before ++ inside ∧ Opens [] before [] ∧ Opens [] inside opened ∧
      StaysOpen inside := by
  have hnone : StaysOpen [] := fun part hpart hne _ => hne (List.prefix_nil.1 hpart)
  induction events using List.reverseRecOn generalizing opened with
  | nil =>
    cases h
    exact ⟨[], [], rfl, .nil [], .nil [], hnone⟩
  | append_singleton events event ih =>
    by_cases hopened : opened = []
    · subst hopened
      exact ⟨events ++ [event], [], by simp, h, .nil [], hnone⟩
    · obtain ⟨mid, hfront, hlast⟩ := h.of_append
      obtain ⟨before, inside, rfl, hbefore, hinside, hstays⟩ := ih hfront
      have hwhole := hinside.append hlast
      refine ⟨before, inside ++ [event], by simp, hbefore, hwhole, fun part hpart hne hopens => ?_⟩
      rcases List.prefix_concat_iff.1 hpart with rfl | hpart
      · exact hopened (hwhole.unique hopens)
      · exact hstays part hpart hne hopens

/-- Events with every element closed, by the element that it belongs to. -/
inductive WellNested : List Event → Prop
  | nil : WellNested []
  | leaf {event : Event} (h : event.IsLeaf) : WellNested [event]
  | element (content : List UInt8) {events : List Event} (h : WellNested events) :
      WellNested (.start content :: (events ++ [.close (nameOf content)]))
  | append {events events' : List Event} (h : WellNested events) (h' : WellNested events') :
      WellNested (events ++ events')

/-- **Events with every element closed leave open what was.** -/
theorem WellNested.opens (h : WellNested events) (opened : List (List UInt8)) :
    Opens opened events opened := by
  induction h generalizing opened with
  | nil => exact .nil opened
  | leaf h => exact .single (openAfter_of_isLeaf h opened)
  | element content _ ih =>
    exact .cons rfl ((ih _).append (.single (openAfter_close ..)))
  | append _ _ ih ih' => exact (ih opened).append (ih' opened)

/-- **The start tag of an open element**: every element behind it is closed.

**Proof sketch.** Backwards from the last event. An end tag there has a start tag of its own, by the
claim for the events before it; what is left in front of that one is a shorter row of events. -/
theorem Opens.exists_start {name : List UInt8} {outer : List (List UInt8)}
    (h : Opens [] events (name :: outer)) :
    ∃ before content inside, events = before ++ .start content :: inside ∧
      nameOf content = name ∧ Opens [] before outer ∧ WellNested inside := by
  induction hlength : events.length using Nat.strong_induction_on
    generalizing events name outer with
  | _ length ih =>
    rcases List.eq_nil_or_concat events with rfl | ⟨front, last, rfl⟩
    · cases h
    · rw [List.concat_eq_append] at h hlength ⊢
      obtain ⟨mid, hfront, hlast⟩ := h.of_append
      have hshort : front.length < length := by
        rw [← hlength, List.length_append, List.length_singleton]
        omega
      cases hlast with
      | cons hopen hnil =>
        cases hnil
        by_cases hleaf : last.IsLeaf
        · rw [openAfter_of_isLeaf hleaf] at hopen
          cases hopen
          obtain ⟨before, content, inside, rfl, hname, hbefore, hinside⟩ := ih _ hshort hfront rfl
          exact ⟨before, content, inside ++ [last], by simp, hname, hbefore,
            hinside.append (.leaf hleaf)⟩
        -- a start tag at the end is the one; an end tag closes an element nested in it
        cases last with
        | start content =>
          cases hopen
          exact ⟨front, content, [], rfl, rfl, hfront, .nil⟩
        | close closed =>
          obtain rfl := eq_of_openAfter_close hopen
          obtain ⟨before', content', inside', rfl, hname', hbefore', hinside'⟩ :=
            ih _ hshort hfront rfl
          have hshorter : before'.length < length := by
            simp only [List.length_append, List.length_cons] at hshort
            omega
          obtain ⟨before, content, inside, rfl, hname, hbefore, hinside⟩ :=
            ih _ hshorter hbefore' rfl
          refine ⟨before, content, inside ++ .start content' :: (inside' ++ [.close closed]), ?_,
            hname, hbefore, hinside.append (hname' ▸ .element content' hinside')⟩
          simp
        | empty | text | characterData | aside => exact absurd trivial hleaf

end Accession.Markup

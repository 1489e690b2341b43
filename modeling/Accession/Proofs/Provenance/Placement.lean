import Accession.Proofs.Lists
import Accession.Proofs.Provenance.Element
import Mathlib.Data.List.Nodup
import Mathlib.Logic.Function.Iterate
set_option autoImplicit false

/-!
# Places of records and links

New records and links are put among elements that are there already. This file says what that does
to the elements: nothing but the new one is added, an object gains its link behind the links it
has, and as long as the records stand in the order of their kinds a new record comes behind the
others of its kind.

## Main definitions

* `Provenance.Ordered` — the records among some elements stand in the order of their kinds.

## Main results

* `Provenance.childrenNamed_insertRecord` — the records of each kind after one was put in.
* `Provenance.readObject_insertLink` — an object that gained a link.
* `Provenance.Document.getElem?_linkAt`, `Provenance.Document.linkAt_eq_map` — the elements after
  links were put in.
-/

namespace Accession.Provenance

/-! ### Records in order -/

/-- The rank of the kind of a record; an element that is no record has none. -/
def rank? (n : Node) : Option Nat :=
  recordOrder.idxOf? n.localName

/-- The records among some elements stand in the order of their kinds. -/
def Ordered (children : List Node) : Prop :=
  (children.map rank?).Pairwise fun earlier later => ∀ i ∈ earlier, ∀ j ∈ later, i ≤ j

/-- An element comes behind a record exactly if both have ranks and its rank is greater. -/
theorem isLater_iff {record n : Node} :
    isLater record.localName n = true ↔ ∃ i ∈ rank? record, ∃ j ∈ rank? n, i < j := by
  unfold isLater rank?
  split
  · rename_i own other hown hother
    simp [hown, hother]
  · rename_i hnone
    simp only [Bool.false_eq_true, Option.mem_def, false_iff, not_exists, not_and]
    intro i hi j hj
    exact absurd hj (hnone i j hi)

/-- A record put into a root stands between the elements that are not of a later kind and the
first one that is. -/
theorem children_insertRecord (record root : Node) :
    (insertRecord record root).children =
      root.children.takeWhile (!isLater record.localName ·) ++
        record :: root.children.dropWhile (!isLater record.localName ·) :=
  List.insertIdx_findIdx ..

/-- The elements behind a new record are not of an earlier kind, if records stand in order. -/
theorem lt_of_mem_dropWhile {record n : Node} {children : List Node} (h : Ordered children)
    (hn : n ∈ children.dropWhile (!isLater record.localName ·)) :
    ∀ i ∈ rank? record, ∀ j ∈ rank? n, i < j := by
  have hsuffix : Ordered (children.dropWhile (!isLater record.localName ·)) :=
    h.sublist ((List.dropWhile_sublist _).map _)
  cases hafter : children.dropWhile (!isLater record.localName ·) with
  | nil =>
    rw [hafter] at hn
    cases hn
  | cons first rest =>
    have hfirst : isLater record.localName first = true := by
      have := List.head?_dropWhile_not (!isLater record.localName ·) children
      rw [hafter] at this
      simpa using this
    obtain ⟨i, hi, k, hk, hik⟩ := isLater_iff.1 hfirst
    rw [hafter] at hn hsuffix
    intro i' hi' j hj
    obtain rfl : i = i' := Option.mem_unique hi hi'
    rcases List.mem_cons.1 hn with rfl | hrest
    · obtain rfl : k = j := Option.mem_unique hk hj
      exact hik
    · have hpair := (List.pairwise_cons.1 hsuffix).1 (rank? n) (List.mem_map_of_mem hrest)
      exact Nat.lt_of_lt_of_le hik (hpair k hk j hj)

/-- A new record keeps the order. -/
theorem Ordered.insertRecord {root : Node} (h : Ordered root.children) (record : Node) :
    Ordered (insertRecord record root).children := by
  rw [children_insertRecord, Ordered, List.map_append, List.map_cons, List.pairwise_append,
    List.pairwise_cons]
  refine ⟨h.sublist ((List.takeWhile_sublist _).map _), ⟨?_, ?_⟩, ?_⟩
  · intro later hlater i hi j hj
    obtain ⟨n, hn, rfl⟩ := List.mem_map.1 hlater
    exact Nat.le_of_lt (lt_of_mem_dropWhile h hn i hi j hj)
  · exact h.sublist ((List.dropWhile_sublist _).map _)
  · intro earlier hearlier later hlater i hi j hj
    obtain ⟨m, hm, rfl⟩ := List.mem_map.1 hearlier
    rcases List.mem_cons.1 hlater with rfl | hlater
    · have hnot := List.mem_takeWhile_imp hm
      rw [Bool.not_eq_true', ← Bool.not_eq_true, isLater_iff] at hnot
      exact Nat.not_lt.1 fun hlt => hnot ⟨j, hj, i, hi, hlt⟩
    · have hpair := h
      rw [Ordered, ← List.takeWhile_append_dropWhile (p := (!isLater record.localName ·))
        (l := root.children), List.map_append, List.pairwise_append] at hpair
      exact hpair.2.2 _ hearlier _ hlater i hi j hj

/-! ### New records -/

/-- The root gets the record and keeps what it had. -/
theorem mem_children_insertRecord {record root n : Node} :
    n ∈ (insertRecord record root).children ↔ n = record ∨ n ∈ root.children := by
  rw [children_insertRecord, List.mem_append, List.mem_cons, or_left_comm, ← List.mem_append,
    List.takeWhile_append_dropWhile]

/-- **A new record is the last one of its kind**, and the records of other kinds stay. -/
theorem childrenNamed_insertRecord {record root : Node} (h : Ordered root.children) {own : String}
    (hname : record.localName = own) (hown : own ∈ recordOrder) (kind : String) :
    (insertRecord record root).childrenNamed kind =
      root.childrenNamed kind ++ if own = kind then [record] else [] := by
  have hsplit : root.childrenNamed kind =
      (root.children.takeWhile (!isLater record.localName ·)).filter (·.localName = kind) ++
        (root.children.dropWhile (!isLater record.localName ·)).filter (·.localName = kind) := by
    rw [← List.filter_append, List.takeWhile_append_dropWhile, Node.childrenNamed]
  rw [hsplit, Node.childrenNamed, children_insertRecord, List.filter_append, List.filter_cons]
  by_cases hkind : own = kind
  · subst hname hkind
    have hafter : (root.children.dropWhile (!isLater record.localName ·)).filter
        (·.localName = record.localName) = [] := by
      rw [List.filter_eq_nil_iff]
      intro n hn hname
      obtain ⟨i, hi⟩ : ∃ i, rank? record = some i :=
        Option.isSome_iff_exists.1 (List.isSome_idxOf?.2 hown)
      have hrank : rank? n = rank? record := by
        rw [rank?, rank?, of_decide_eq_true hname]
      exact Nat.lt_irrefl i (lt_of_mem_dropWhile h hn i hi i (hrank ▸ hi))
    rw [hafter, if_pos rfl, if_pos (decide_eq_true rfl), List.append_nil]
  · rw [if_neg hkind, if_neg (by simpa [hname] using hkind), List.append_nil]

/-! ### New links -/

/-- A link leaves the name of the object as it is. -/
@[simp] theorem localName_insertLink (link object : Node) :
    (insertLink link object).localName = object.localName :=
  rfl

/-- Behind a new link there is no link to an event. -/
theorem exists_children_insertLink (link object : Node) :
    ∃ before after, object.children = before ++ after ∧
      (insertLink link object).children = before ++ link :: after ∧
      ∀ n ∈ after, isEventLink n = false := by
  rw [insertLink, linkPlace]
  dsimp only
  split
  · let after := (object.children.reverse.takeWhile (!isEventLink ·)).reverse
    let before := (object.children.reverse.dropWhile (!isEventLink ·)).reverse
    have hsplit : object.children = before ++ after := by
      rw [← List.reverse_append, List.takeWhile_append_dropWhile, List.reverse_reverse]
    have hplace : object.children.length - object.children.reverse.findIdx isEventLink =
        before.length := by
      have hafter : object.children.reverse.findIdx isEventLink = after.length := by
        rw [List.findIdx_eq_length_takeWhile, List.length_reverse]
      have hlength := congrArg List.length hsplit
      rw [List.length_append] at hlength
      omega
    refine ⟨before, after, hsplit, ?_, fun n hn => ?_⟩
    · rw [hplace]
      conv_lhs => rw [hsplit]
      exact List.insertIdx_length_append before after link
    · simpa using List.mem_takeWhile_imp (List.mem_reverse.1 hn)
  · rename_i hnone
    refine ⟨_, _, (List.takeWhile_append_dropWhile (p := (!isRightsLink ·))).symm,
      List.insertIdx_findIdx .., fun n hn => ?_⟩
    have hmem : n ∈ object.children := (List.dropWhile_sublist _).subset hn
    rw [← Bool.not_eq_true]
    exact fun hlink => hnone (List.any_eq_true.2 ⟨n, hmem, hlink⟩)

/-- The object gets the link and keeps what it had. -/
theorem mem_children_insertLink {link object n : Node} :
    n ∈ (insertLink link object).children ↔ n = link ∨ n ∈ object.children := by
  obtain ⟨before, after, hold, hnew, -⟩ := exists_children_insertLink link object
  rw [hnew, hold, List.mem_append, List.mem_cons, or_left_comm, List.mem_append]

/-- The first child with a name that a new link does not have is the one it was. -/
theorem child?_insertLink {link object : Node} {name : String} (h : link.localName ≠ name) :
    (insertLink link object).child? name = object.child? name := by
  obtain ⟨before, after, hold, hnew, -⟩ := exists_children_insertLink link object
  rw [child?_eq_find?, child?_eq_find?, hnew, hold, List.find?_append, List.find?_append,
    List.find?_cons_of_neg (by simpa using h)]

/-- A link changes no text of the object but those of links. -/
theorem textAt_insertLink {link object : Node} {name : String} (h : link.localName ≠ name)
    (path : List String) :
    (insertLink link object).textAt (name :: path) = object.textAt (name :: path) := by
  rw [textAt_cons, textAt_cons, child?_insertLink h]

/-- **An object gains a new link behind the links it has**, and nothing else. -/
theorem readObject_insertLink {link : Node} (h : isEventLink link) (object : Node) :
    readObject (insertLink link object) =
      { readObject object with
        linkedEvents := (readObject object).linkedEvents ++ [readLink link] } := by
  have hlink : link.localName = "linkingEventIdentifier" := of_decide_eq_true h
  obtain ⟨before, after, hold, hnew, hafter⟩ := exists_children_insertLink link object
  have hnone : after.filter (·.localName = "linkingEventIdentifier") = [] :=
    List.filter_eq_nil_iff.2 fun n hn => by
      have := hafter n hn
      simpa [isEventLink] using this
  have hlinks : (insertLink link object).childrenNamed "linkingEventIdentifier" =
      object.childrenNamed "linkingEventIdentifier" ++ [link] := by
    rw [Node.childrenNamed, Node.childrenNamed, hnew, hold, List.filter_append, List.filter_cons,
      if_pos (decide_eq_true hlink), List.filter_append, hnone, List.append_nil]
  have hne {name : String} (hname : "linkingEventIdentifier" ≠ name) (path : List String) :
      (insertLink link object).textAt (name :: path) = object.textAt (name :: path) :=
    textAt_insertLink (hlink ▸ hname) path
  rw [readObject, readObject, hlinks, List.map_append, readIdentifier, readIdentifier,
    originalNameOf, originalNameOf, hne (by decide), hne (by decide), hne (by decide),
    hne (by decide)]
  rfl

namespace Document

/-! ### The declaration of a namespace -/

section

variable (root : Node)

/-- A declaration leaves the name of the root as it is. -/
@[simp] theorem name_declareInstance : (declareInstance root).name = root.name := by
  rw [declareInstance]
  split <;> rfl

/-- A declaration leaves the text of the root as it is. -/
@[simp] theorem text_declareInstance : (declareInstance root).text = root.text := by
  rw [declareInstance]
  split <;> rfl

/-- A declaration leaves the children of the root as they are. -/
@[simp] theorem children_declareInstance : (declareInstance root).children = root.children := by
  rw [declareInstance]
  split <;> rfl

end

/-! ### Links at places -/

/-- **Each element gains as many links as its place is named.** -/
theorem getElem?_linkAt (link : Node) (places : List Nat) (children : List Node) (i : Nat) :
    (linkAt link places children)[i]? =
      children[i]?.map (insertLink link)^[places.count i] := by
  induction places generalizing children with
  | nil =>
    cases h : children[i]? <;> simp [linkAt, h]
  | cons place places ih =>
    have hcons : linkAt link (place :: places) children =
        linkAt link places (children.modify place (insertLink link)) := rfl
    rw [hcons, ih, List.getElem?_modify, List.count_cons]
    cases h : children[i]? with
    | none => rfl
    | some n =>
      by_cases hplace : place = i
      · simp [hplace]
      · simp [hplace]

/-- Elements at different places gain one link each. -/
theorem linkAt_eq_map (link : Node) {places : List Nat} (hnodup : places.Nodup)
    {children : List Node} {p : Node → Bool}
    (hplaces : ∀ i n, children[i]? = some n → (i ∈ places ↔ p n = true)) :
    linkAt link places children =
      children.map fun n => if p n then insertLink link n else n := by
  refine List.ext_getElem? fun i => ?_
  rw [getElem?_linkAt, List.getElem?_map]
  cases h : children[i]? with
  | none => rfl
  | some n =>
    rw [Option.map_some, Option.map_some]
    by_cases hp : p n = true
    · rw [if_pos hp, List.count_eq_one_of_mem hnodup ((hplaces i n h).2 hp),
        Function.iterate_one]
    · rw [if_neg hp, List.count_eq_zero_of_not_mem fun hmem => hp ((hplaces i n h).1 hmem)]
      rfl

/-- Links do not change what an element is. -/
theorem localName_iterate_insertLink (link n : Node) (count : Nat) :
    ((insertLink link)^[count] n).localName = n.localName := by
  induction count generalizing n with
  | zero => rfl
  | succ count ih => rw [Function.iterate_succ_apply, ih, localName_insertLink]

/-- Links leave the ranks of the records as they are. -/
theorem map_rank?_linkAt (link : Node) (places : List Nat) (children : List Node) :
    (linkAt link places children).map rank? = children.map rank? := by
  refine List.ext_getElem? fun i => ?_
  rw [List.getElem?_map, List.getElem?_map, getElem?_linkAt, Option.map_map]
  refine congrArg (Option.map · children[i]?) (funext fun n => ?_)
  rw [Function.comp_apply, rank?, localName_iterate_insertLink, rank?]

/-- Links keep the order of the records. -/
theorem ordered_linkAt {children : List Node} (h : Ordered children) (link : Node)
    (places : List Nat) : Ordered (linkAt link places children) := by
  rw [Ordered, map_rank?_linkAt]
  exact h

/-! ### The places of targets -/

/-- The place of an object is one where an object of that name stands. -/
theorem exists_of_objectPlace?_eq_some {d : Document} {name : String} {place : Nat}
    (h : d.objectPlace? name = some place) :
    ∃ n, d.root.children[place]? = some n ∧ n.localName = "object" ∧ originalNameOf n = name := by
  obtain ⟨hlt, hnamed, -⟩ := List.findIdx?_eq_some_iff_getElem.1 h
  rw [isObjectNamed, Bool.and_eq_true, decide_eq_true_eq, decide_eq_true_eq] at hnamed
  exact ⟨_, List.getElem?_eq_getElem hlt, hnamed⟩

/-- All objects are targets. -/
theorem targetPlaces_all (d : Document) : ∃ places, d.targetPlaces .all = .ok places ∧
    places.Nodup ∧ ∀ i n, d.root.children[i]? = some n → (i ∈ places ↔ n.localName = "object") := by
  refine ⟨_, rfl, ?_, fun i n h => ?_⟩
  · have hsub : ((d.root.children.zipIdx.filter (·.1.localName = "object")).map (·.2)).Sublist
        (d.root.children.zipIdx.map (·.2)) := (List.filter_sublist).map _
    refine hsub.nodup ?_
    rw [List.zipIdx_map_snd]
    exact List.nodup_range'
  · rw [List.mem_map]
    constructor
    · rintro ⟨⟨m, j⟩, hm, rfl⟩
      rw [List.mem_filter, List.mem_zipIdx_iff_getElem?] at hm
      obtain rfl : m = n := Option.some.inj (hm.1.symm.trans h)
      exact of_decide_eq_true hm.2
    · intro hname
      refine ⟨(n, i), ?_, rfl⟩
      rw [List.mem_filter, List.mem_zipIdx_iff_getElem?]
      exact ⟨h, decide_eq_true hname⟩

/-- **Named targets are found, or the first one that is not there is reported.** -/
theorem targetPlaces_named (d : Document) {names : List String} (hne : names ≠ []) :
    d.targetPlaces (.named names) =
      match names.find? fun name => (d.objectPlace? name).isNone with
      | some name => .error (.objectNotFound name)
      | none => .ok (names.filterMap d.objectPlace?) := by
  have hmap : d.targetPlaces (.named names) = names.mapM d.requirePlace := by
    cases names with
    | nil => exact absurd rfl hne
    | cons => rfl
  rw [hmap]
  clear hmap hne
  induction names with
  | nil => rfl
  | cons name names ih =>
    rw [List.mapM_cons, ih, List.find?_cons, List.filterMap_cons, requirePlace]
    cases hplace : d.objectPlace? name with
    | none => rfl
    | some place =>
      rw [Option.isNone_some]
      cases names.find? fun name => (d.objectPlace? name).isNone <;> rfl

/-- The targets of an event are objects. -/
theorem localName_of_mem_targetPlaces {d : Document} {targets : Targets} {places : List Nat}
    (h : d.targetPlaces targets = .ok places) {i : Nat} (hi : i ∈ places) {n : Node}
    (hn : d.root.children[i]? = some n) : n.localName = "object" := by
  cases targets with
  | all =>
    obtain ⟨places', hplaces', -, hmem⟩ := d.targetPlaces_all
    obtain rfl : places = places' := Except.ok.inj (h.symm.trans hplaces')
    exact (hmem i n hn).1 hi
  | named names =>
    cases names with
    | nil => cases h
    | cons name names =>
      rw [d.targetPlaces_named (List.cons_ne_nil name names)] at h
      split at h
      · cases h
      · cases h
        obtain ⟨name', -, hplace⟩ := List.mem_filterMap.1 hi
        obtain ⟨n', hn', hobject, -⟩ := exists_of_objectPlace?_eq_some hplace
        obtain rfl : n' = n := Option.some.inj (hn'.symm.trans hn)
        exact hobject

/-- An event is recorded if its targets are found; the links come first, then the record. -/
theorem appendEvent_eq (d : Document) (summary : Summary) (agent : Agent) (targets : Targets)
    (context : Context) :
    d.appendEvent summary agent targets context =
      match d.targetPlaces targets with
      | .error error => .error error
      | .ok places =>
        let id := Identifier.uuid (context.ids.item context.ids.taken)
        let time := context.times.item context.times.taken
        let linked := { d.root with
          children := linkAt (linkElement d.root id) places d.root.children }
        .ok (id, ⟨insertRecord (eventElement d.root id time summary agent.identifier) linked⟩,
          { ids := { context.ids with taken := context.ids.taken + 1 }
            times := { context.times with taken := context.times.taken + 1 } }) := by
  rw [appendEvent]
  cases d.targetPlaces targets <;> rfl

end Document

end Accession.Provenance

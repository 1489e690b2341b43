import Mathlib.Data.List.Basic
import Mathlib.Data.List.Forall2
import Mathlib.Data.List.Nodup
set_option autoImplicit false

/-!
# Lists

What is said of lists whatever their elements are: where they are cut, where an element is put in,
what becomes of places when some elements are left out, and what sorting does. The last section is
about results that may be failures.

## Main definitions

* `List.placeAfter` — the place of an element after another one was put in.
* `List.placeAmong` — the place of an element among those with a property.

## Main results

* `List.takeWhile_dropWhile_append` — where a run of elements ends.
* `List.insertIdx_findIdx_comm` — when two elements can be put in in either order.
* `List.filter_mapIdx` — changes by place, of the elements with a property alone.
* `List.pairwise_mergeSort_key` — the order of what is sorted by a key.
-/

namespace List

variable {α β : Type}

/-! ### Cutting -/

/-- The pieces of a list that is cut at an element do not have it. -/
theorem not_mem_of_mem_splitOn [DecidableEq α] {x : α} {l piece : List α}
    (h : piece ∈ l.splitOn x) : x ∉ piece := by
  by_cases hx : x ∈ l
  · obtain ⟨before, after, rfl⟩ := append_of_mem hx
    rw [splitOn_append_cons_self, mem_append] at h
    rcases h with h | h
    · exact not_mem_of_mem_splitOn h
    · exact not_mem_of_mem_splitOn h
  · rw [splitOn_eq_singleton hx, mem_singleton] at h
    exact h ▸ hx
  termination_by l.length

/-- Where a run of elements ends. -/
theorem takeWhile_dropWhile_append (p : α → Bool) (run rest : List α)
    (hrun : ∀ x ∈ run, p x) (hrest : ∀ x ∈ rest.head?, p x = false) :
    (run ++ rest).takeWhile p = run ∧ (run ++ rest).dropWhile p = rest := by
  rw [takeWhile_append_of_pos hrun, dropWhile_append_of_pos hrun]
  cases rest with
  | nil => simp
  | cons x rest =>
    have hx : ¬p x = true := by simp [hrest x rfl]
    rw [takeWhile_cons_of_neg hx, dropWhile_cons_of_neg hx]
    simp

/-- What ends neither of two rows ends neither of them put together. -/
theorem getLast?_append_ne {before after : List α} {x : α} (hbefore : before.getLast? ≠ some x)
    (hafter : after.getLast? ≠ some x) : (before ++ after).getLast? ≠ some x := by
  rw [getLast?_append]
  cases h : after.getLast? with
  | none => simpa using hbefore
  | some y =>
    rw [h] at hafter
    simpa using hafter

/-- Of two rows that do not begin with each other, one does not begin with the other when that goes
on. -/
theorem not_prefix_append {l l' : List α} (h : ¬l <+: l') (h' : ¬l' <+: l) (after : List α) :
    ¬l <+: l' ++ after := by
  intro hprefix
  rcases prefix_or_prefix_of_prefix hprefix (prefix_append l' after) with hfirst | hfirst
  · exact h hfirst
  · exact h' hfirst

/-! ### Putting elements in -/

/-- The element behind a row is changed at the place that is the length of the row. -/
theorem modify_length_append_singleton (l : List α) (x : α) (f : α → α) :
    (l ++ [x]).modify l.length f = l ++ [f x] := by
  induction l with
  | nil => rfl
  | cons y l ih => rw [cons_append, length_cons, modify_succ_cons, ih, cons_append]

/-- The place that is the length of a row is behind it. -/
theorem insertIdx_length_append (before after : List α) (x : α) :
    (before ++ after).insertIdx before.length x = before ++ x :: after := by
  induction before with
  | nil => rfl
  | cons y before ih => rw [cons_append, length_cons, insertIdx_succ_cons, ih, cons_append]

/-- The first place with a property is behind all elements without it. -/
theorem findIdx_eq_length_takeWhile (p : α → Bool) (l : List α) :
    l.findIdx p = (l.takeWhile (!p ·)).length := by
  induction l with
  | nil => rfl
  | cons x l ih =>
    rw [findIdx_cons, takeWhile_cons]
    cases p x <;> simp [ih]

/-- What is put at the first place with a property comes behind all elements without it. -/
theorem insertIdx_findIdx (p : α → Bool) (l : List α) (x : α) :
    l.insertIdx (l.findIdx p) x = l.takeWhile (!p ·) ++ x :: l.dropWhile (!p ·) := by
  have hinsert := insertIdx_length_append (l.takeWhile (!p ·)) (l.dropWhile (!p ·)) x
  rwa [takeWhile_append_dropWhile, ← findIdx_eq_length_takeWhile] at hinsert

/-- The place of an element after another one was put in at `place`. -/
def placeAfter (place i : Nat) : Nat :=
  if i < place then i else i + 1

/-- Behind an element that is put in front, every element is one place further. -/
@[simp] theorem placeAfter_zero (i : Nat) : placeAfter 0 i = i + 1 := by
  simp [placeAfter]

/-- The first element stays where it is if another one is put in behind it. -/
@[simp] theorem placeAfter_succ_zero (place : Nat) : placeAfter (place + 1) 0 = 0 := by
  simp [placeAfter]

/-- Places behind a first element are counted from there. -/
@[simp] theorem placeAfter_succ_succ (place i : Nat) :
    placeAfter (place + 1) (i + 1) = placeAfter place i + 1 := by
  simp only [placeAfter]
  split <;> split <;> omega

/-- An element is changed at the place that it has by then. -/
theorem modify_insertIdx (l : List α) (place i : Nat) (x : α) (f : α → α) :
    (l.insertIdx place x).modify (placeAfter place i) f = (l.modify i f).insertIdx place x := by
  induction l generalizing place i with
  | nil => cases place <;> simp
  | cons y l ih =>
    cases place with
    | zero => simp
    | succ place => cases i <;> simp [ih]

/-- The first element with a property moves, if the new one does not have it. -/
theorem findIdx?_insertIdx {p : α → Bool} {x : α} (hx : ¬p x = true) (l : List α) (place : Nat) :
    (l.insertIdx place x).findIdx? p = (l.findIdx? p).map (placeAfter place) := by
  induction l generalizing place with
  | nil => cases place <;> simp [findIdx?_cons, hx]
  | cons y l ih =>
    cases place with
    | zero =>
      rw [insertIdx_zero, findIdx?_cons, if_neg hx]
      exact congrArg (Option.map · _) (funext fun i => (placeAfter_zero i).symm)
    | succ place =>
      rw [insertIdx_succ_cons, findIdx?_cons, findIdx?_cons, ih]
      split
      · simp
      · rw [Option.map_map, Option.map_map]
        exact congrArg (Option.map · _) (funext fun i => (placeAfter_succ_succ place i).symm)

/-- Two elements are put in front of the first element with a property each, where the property of
the second one is narrower. If the second element has the wider property and the first one does not
have the narrower one, the first stands in front of the second, whichever is put in first. -/
theorem insertIdx_findIdx_comm {p q : α → Bool} (hqp : ∀ z, q z = true → p z = true) {x y : α}
    (hx : ¬q x = true) (hy : p y = true) (l : List α) :
    let before (property : α → Bool) (l : List α) (new : α) := l.insertIdx (l.findIdx property) new
    before p (before q l y) x = before q (before p l x) y := by
  intro before
  have hcons (property : α → Bool) (z : α) (l : List α) (new : α) :
      before property (z :: l) new =
        if property z then new :: z :: l else z :: before property l new := by
    simp only [before, findIdx_cons]
    cases property z <;> rfl
  induction l with
  | nil =>
    have hnil (property : α → Bool) (new : α) : before property [] new = [new] := rfl
    rw [hnil, hnil, hcons, hcons, if_pos hy, if_neg hx, hnil]
  | cons z l ih =>
    by_cases hp : p z = true
    · by_cases hq : q z = true
      · simp [hcons, hp, hq, hx, hy]
      · simp [hcons, hp, hq, hx]
    · simp [hcons, hp, mt (hqp z) hp, ih]

/-! ### Elements with a property -/

/-- An element is the only one with its key, if no two have the same. -/
theorem filter_key_eq_singleton [DecidableEq β] (key : α → β) {l : List α}
    (h : (l.map key).Nodup) {x : α} (hx : x ∈ l) : l.filter (key · = key x) = [x] := by
  induction l with
  | nil => cases hx
  | cons y l ih =>
    rw [map_cons, nodup_cons] at h
    rcases mem_cons.1 hx with rfl | hx
    · have hrest : l.filter (key · = key x) = [] := by
        rw [filter_eq_nil_iff]
        intro z hz heq
        exact h.1 (of_decide_eq_true heq ▸ mem_map_of_mem hz)
      rw [filter_cons_of_pos (by simp), hrest]
    · have hne : key y ≠ key x := fun heq => h.1 (heq ▸ mem_map_of_mem hx)
      rw [filter_cons_of_neg (by simpa using hne), ih h.2 hx]

/-- An element is found by its key, if no other has the same. -/
theorem find?_key_eq_some [DecidableEq β] (key : α → β) {l : List α}
    (h : (l.map key).Nodup) {x : α} (hx : x ∈ l) : l.find? (key · = key x) = some x := by
  rw [← head?_filter, filter_key_eq_singleton key h hx, head?_singleton]

/-- If nothing of one sort comes behind something of another, the elements of both sorts are those
of the first sort and then those of the second. -/
theorem filter_or_eq_append {p q : α → Bool} {l : List α} (hpq : ∀ x, p x = true → ¬q x = true)
    (h : l.Pairwise fun a b => q a = true → ¬p b = true) :
    l.filter (fun x => p x || q x) = l.filter p ++ l.filter q := by
  induction l with
  | nil => rfl
  | cons x l ih =>
    obtain ⟨hhead, htail⟩ := pairwise_cons.1 h
    rw [filter_cons, ih htail]
    by_cases hp : p x = true
    · simp [hp, hpq x hp]
    · by_cases hq : q x = true
      · have hnone : l.filter p = [] := filter_eq_nil_iff.2 fun y hy => hhead y hy hq
        simp [hp, hq, hnone]
      · simp [hp, hq]

/-- The place that the element at a place has among the elements with a property. -/
def placeAmong (p : α → Bool) (l : List α) (i : Nat) : Nat :=
  (l.take i).countP p

/-- In front of the first element there is none with a property. -/
theorem placeAmong_zero (p : α → Bool) (l : List α) : placeAmong p l 0 = 0 := by
  rw [placeAmong, take_zero, countP_nil]

/-- An element with the property counts for the places behind it. -/
theorem placeAmong_succ_of_pos {p : α → Bool} {x : α} (h : p x = true) (l : List α) (i : Nat) :
    placeAmong p (x :: l) (i + 1) = placeAmong p l i + 1 := by
  rw [placeAmong, take_succ_cons, countP_cons_of_pos h, placeAmong]

/-- An element without the property does not count for the places behind it. -/
theorem placeAmong_succ_of_neg {p : α → Bool} {x : α} (h : ¬p x = true) (l : List α) (i : Nat) :
    placeAmong p (x :: l) (i + 1) = placeAmong p l i := by
  rw [placeAmong, take_succ_cons, countP_cons_of_neg h, placeAmong]

/-- What is done to each element at its place can be done to the elements with a property alone, if
it does not change who has the property. -/
theorem filter_mapIdx {p : α → Bool} {f g : Nat → α → α} {l : List α}
    (hp : ∀ i x, p (f i x) = p x)
    (hfg : ∀ i x, l[i]? = some x → p x = true → f i x = g (placeAmong p l i) x) :
    (l.mapIdx f).filter p = (l.filter p).mapIdx g := by
  induction l generalizing f g with
  | nil => rfl
  | cons a l ih =>
    have hrest (i : Nat) (x : α) (hx : l[i]? = some x) : (a :: l)[i + 1]? = some x := by
      rwa [getElem?_cons_succ]
    rw [mapIdx_cons]
    by_cases ha : p a = true
    · rw [filter_cons_of_pos ((hp 0 a).trans ha), filter_cons_of_pos ha,
        mapIdx_cons, ih (fun i x => hp (i + 1) x) (g := fun i => g (i + 1))]
      · have hfirst := hfg 0 a rfl ha
        rw [placeAmong_zero] at hfirst
        rw [hfirst]
      · intro i x hx hpx
        have hthere := hfg (i + 1) x (hrest i x hx) hpx
        rwa [placeAmong_succ_of_pos ha] at hthere
    · -- an element that is left out does not count for the places behind it
      rw [filter_cons_of_neg (by rwa [hp 0 a]), filter_cons_of_neg ha,
        ih (fun i x => hp (i + 1) x)]
      intro i x hx hpx
      have hthere := hfg (i + 1) x (hrest i x hx) hpx
      rwa [placeAmong_succ_of_neg ha] at hthere

/-- The first element that has a property and satisfies a condition is the first one with the
condition among those that have the property. -/
theorem findIdx?_filter_eq_some_iff {p : α → Bool} (q : α → Bool) {l : List α} {i : Nat} {x : α}
    (hx : l[i]? = some x) (hp : p x = true) :
    (l.filter p).findIdx? q = some (placeAmong p l i) ↔
      l.findIdx? (fun x => p x && q x) = some i := by
  induction l generalizing i with
  | nil => cases hx
  | cons a l ih =>
    cases i with
    | zero =>
      obtain rfl : a = x := Option.some.inj hx
      rw [filter_cons_of_pos hp, placeAmong_zero, findIdx?_cons, findIdx?_cons, hp,
        Bool.true_and]
      split <;> simp
    | succ i =>
      rw [getElem?_cons_succ] at hx
      by_cases ha : p a = true
      · rw [filter_cons_of_pos ha, placeAmong_succ_of_pos ha, findIdx?_cons,
          findIdx?_cons, ha, Bool.true_and]
        split
        · simp
        · simp [ih hx]
      · rw [filter_cons_of_neg ha, placeAmong_succ_of_neg ha, ih hx, findIdx?_cons,
          if_neg (by simp [ha])]
        simp

/-! ### Element by element -/

/-- What is done to each element at its place, seen through a function. -/
theorem map_mapIdx_comm {r : α → β} {f : Nat → α → α} {g : Nat → β → β}
    (h : ∀ i x, r (f i x) = g i (r x)) (l : List α) :
    (l.mapIdx f).map r = (l.map r).mapIdx g := by
  refine ext_getElem? fun i => ?_
  rw [getElem?_map, getElem?_mapIdx, getElem?_mapIdx, getElem?_map]
  cases l[i]? with
  | none => rfl
  | some x => exact congrArg some (h i x)

/-- What is written item by item is read item by item. -/
theorem mapM_map_eq_some {write : α → β} {read : β → Option α}
    (h : ∀ a, read (write a) = some a) (items : List α) :
    (items.map write).mapM read = some items := by
  have hread : read ∘ write = fun a => pure a := funext h
  rw [mapM_map, hread, mapM_pure, map_id']
  rfl

/-- Two rows whose elements stand in a relation each, and a third one behind them. -/
theorem forall₂_trans {R S T : α → α → Prop} {as bs cs : List α} (h : Forall₂ R as bs)
    (h' : Forall₂ S bs cs) (hT : ∀ a b c, R a b → S b c → T a c) : Forall₂ T as cs := by
  induction h generalizing cs with
  | nil =>
    cases h'
    exact .nil
  | cons hab _ ih =>
    cases h' with
    | cons hbc hrest => exact .cons (hT _ _ _ hab hbc) (ih hrest)

/-- Rows of shorter pieces are shorter, and as long only if the pieces are. -/
theorem length_flatMap_le {f g : α → List β} {as : List α}
    (h : ∀ a ∈ as, (f a).length ≤ (g a).length) :
    (as.flatMap f).length ≤ (as.flatMap g).length ∧
      ((as.flatMap f).length = (as.flatMap g).length →
        ∀ a ∈ as, (f a).length = (g a).length) := by
  induction as with
  | nil => simp
  | cons a as ih =>
    obtain ⟨ha, has⟩ := forall_mem_cons.1 h
    obtain ⟨hle, heq⟩ := ih has
    simp only [flatMap_cons, length_append]
    refine ⟨by omega, fun hlength => forall_mem_cons.2 ⟨by omega, heq (by omega)⟩⟩

/-! ### Sorting by a key -/

section Sorting

variable (key : α → String)

/-- The order of keys is transitive. -/
theorem le_trans_of_key (a b c : α) (hab : decide (key a ≤ key b) = true)
    (hbc : decide (key b ≤ key c) = true) : decide (key a ≤ key c) = true :=
  decide_eq_true (String.le_trans (of_decide_eq_true hab) (of_decide_eq_true hbc))

/-- The order of keys is total. -/
theorem le_total_of_key (a b : α) :
    (decide (key a ≤ key b) || decide (key b ≤ key a)) = true := by
  rw [Bool.or_eq_true, decide_eq_true_eq, decide_eq_true_eq]
  exact String.le_total _ _

/-- **Sorting keeps the order of what has one key.**

**Proof sketch.** What has the key is sorted already, so it is part of the sorted list in the same
order; and there is no more of it there. -/
theorem filter_mergeSort (items : List α) (k : String) :
    (items.mergeSort fun a b => key a ≤ key b).filter (key · = k) = items.filter (key · = k) := by
  have hpairwise :
      (items.filter (key · = k)).Pairwise fun a b => decide (key a ≤ key b) = true := by
    refine pairwise_of_forall_mem_list fun a ha b hb => decide_eq_true ?_
    have hkey : key a = key b := (of_decide_eq_true (mem_filter.1 ha).2).trans
      (of_decide_eq_true (mem_filter.1 hb).2).symm
    exact hkey ▸ String.le_refl (key a)
  have hpart := (sublist_mergeSort (le_trans_of_key key) (le_total_of_key key) hpairwise
    filter_sublist).filter (key · = k)
  rw [filter_filter, filter_congr (fun a _ => Bool.and_self _)] at hpart
  have hlength := ((mergeSort_perm items fun a b => key a ≤ key b).filter (key · = k)).length_eq
  exact (hpart.eq_of_length hlength.symm).symm

/-- What is sorted by a key stands in the order of the key, and then in the order that it had. -/
theorem pairwise_mergeSort_key {items : List α} {R : α → α → Prop} (h : items.Pairwise R) :
    (items.mergeSort fun a b => key a ≤ key b).Pairwise fun a b =>
      key a < key b ∨ key a = key b ∧ R a b := by
  rw [pairwise_iff_forall_sublist]
  intro a b hab
  have hle : key a ≤ key b := of_decide_eq_true (pairwise_iff_forall_sublist.1
    (pairwise_mergeSort (le_trans_of_key key) (le_total_of_key key) items) hab)
  by_cases heq : key a = key b
  · have hfilter := hab.filter (key · = key b)
    rw [filter_mergeSort] at hfilter
    simp only [filter_cons, heq, decide_true, if_true, filter_nil] at hfilter
    exact .inr ⟨heq, pairwise_iff_forall_sublist.1 h (hfilter.trans filter_sublist)⟩
  · exact .inl (String.not_le.1 fun hge => heq (String.le_antisymm hle hge))

end Sorting

end List

/-! ### Results that may be failures -/

namespace Except

variable {ε α β : Type} {result : Except ε α}

/-- What comes of a result that was changed came of the result. -/
theorem exists_of_map_eq_ok {f : α → β} {b : β} (h : result.map f = .ok b) :
    ∃ a, result = .ok a ∧ f a = b := by
  cases result with
  | error => cases h
  | ok a => exact ⟨a, rfl, Except.ok.inj h⟩

/-- A result that can be computed. -/
theorem eq_ok_of_toOption {a : α} (h : result.toOption = some a) : result = .ok a := by
  cases result with
  | error => cases h
  | ok => exact congrArg Except.ok (Option.some.inj h)

end Except

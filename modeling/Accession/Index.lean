set_option autoImplicit false

/-!
# Indexes

Finite maps whose entries stand in increasing order of their keys, each key once. Two indexes with
the same entries are equal, so an index is determined by what it maps, whatever order it was built
in. Texts as keys are ordered by code points, which is also the order of their UTF-8 octets.

## Main definitions

* `Ordered` — keys of which one comes before the other, or which are equal.
* `Index` — entries in strictly increasing order of keys.
* `Index.insert` — adds an entry, or replaces the one with its key.
* `Index.find?` — the value of a key.
* `Index.ofList` — later entries replace earlier ones with their key.

## Main results

* `Index.find?_insert` — what an index maps after an insertion.
-/

namespace Accession

/-- A type whose order is total: of two different elements one comes before the other. -/
class Ordered (κ : Type) [LT κ] : Prop where
  lt_trans {a b c : κ} : a < b → b < c → a < c
  eq_of_not_lt {a b : κ} : ¬a < b → ¬b < a → a = b

instance : Ordered String where
  lt_trans := String.lt_trans
  eq_of_not_lt h h' := String.le_antisymm (String.not_lt.1 h') (String.not_lt.1 h)

/-- Rows are ordered by the first element in which they differ. -/
instance {κ : Type} [LT κ] [Ordered κ] : Ordered (List κ) where
  lt_trans {as bs cs} h h' := by
    induction as generalizing bs cs with
    | nil =>
      cases bs with
      | nil => exact h'
      | cons b bs =>
        cases cs with
        | nil => exact absurd h' (List.not_lt_nil _)
        | cons c cs => exact List.nil_lt_cons c cs
    | cons a as ih =>
      cases bs with
      | nil => exact absurd h (List.not_lt_nil _)
      | cons b bs =>
        cases cs with
        | nil => exact absurd h' (List.not_lt_nil _)
        | cons c cs =>
          rcases List.cons_lt_cons_iff.1 h with hab | ⟨rfl, has⟩
          · rcases List.cons_lt_cons_iff.1 h' with hbc | ⟨rfl, -⟩
            · exact List.cons_lt_cons_iff.2 (.inl (Ordered.lt_trans hab hbc))
            · exact List.cons_lt_cons_iff.2 (.inl hab)
          · rcases List.cons_lt_cons_iff.1 h' with hac | ⟨rfl, hbs⟩
            · exact List.cons_lt_cons_iff.2 (.inl hac)
            · exact List.cons_lt_cons_iff.2 (.inr ⟨rfl, ih has hbs⟩)
  eq_of_not_lt {as bs} h h' := by
    induction as generalizing bs with
    | nil =>
      cases bs with
      | nil => rfl
      | cons b bs => exact absurd (List.nil_lt_cons b bs) h
    | cons a as ih =>
      cases bs with
      | nil => exact absurd (List.nil_lt_cons a as) h'
      | cons b bs =>
        have hab : a = b := Ordered.eq_of_not_lt
          (fun hlt => h (List.cons_lt_cons_iff.2 (.inl hlt)))
          (fun hlt => h' (List.cons_lt_cons_iff.2 (.inl hlt)))
        subst hab
        rw [ih (fun hlt => h (List.cons_lt_cons_iff.2 (.inr ⟨rfl, hlt⟩)))
          (fun hlt => h' (List.cons_lt_cons_iff.2 (.inr ⟨rfl, hlt⟩)))]

/-- Entries in strictly increasing order of their keys. -/
structure Index (κ α : Type) [LT κ] where
  entries : List (κ × α)
  sorted : entries.Pairwise (fun a b => a.1 < b.1)

namespace Index

variable {κ α : Type} [LT κ]

/-- The index without entries. -/
def empty : Index κ α :=
  ⟨[], .nil⟩

instance : Inhabited (Index κ α) :=
  ⟨empty⟩

/-- An index is its list of entries: the proof that the keys increase adds nothing. -/
@[ext] theorem ext {m n : Index κ α} (h : m.entries = n.entries) : m = n := by
  cases m; cases n; simp_all

instance [DecidableEq κ] [DecidableEq α] : DecidableEq (Index κ α) := fun m n =>
  decidable_of_iff (m.entries = n.entries) ⟨ext, fun h => h ▸ rfl⟩

/-- The keys, in order. -/
def keys (m : Index κ α) : List κ :=
  m.entries.map (·.1)

/-- Whether there is no entry. -/
def isEmpty (m : Index κ α) : Bool :=
  m.entries.isEmpty

/-- The value of a key. -/
def find? [DecidableEq κ] (m : Index κ α) (key : κ) : Option α :=
  (m.entries.find? (·.1 = key)).map (·.2)

/-- Whether a key has a value. -/
def contains [DecidableEq κ] (m : Index κ α) (key : κ) : Bool :=
  m.entries.any (·.1 = key)

/-- The entries whose key and value satisfy a condition. -/
def filter (m : Index κ α) (keep : κ → α → Bool) : Index κ α :=
  ⟨m.entries.filter fun entry => keep entry.1 entry.2, m.sorted.filter _⟩

/-- What an index maps after its keys are filtered. -/
theorem find?_filter_key [DecidableEq κ] (keep : κ → Bool) (m : Index κ α) (key : κ) :
    (m.filter fun k _ => keep k).find? key = if keep key then m.find? key else none := by
  simp only [find?, filter, List.find?_filter]
  split
  · rename_i hk
    congr 2
    funext entry
    by_cases h : entry.1 = key <;> simp [h, hk]
  · rename_i hk
    refine Option.map_eq_none_iff.2 (List.find?_eq_none.2 fun entry _ => ?_)
    by_cases h : entry.1 = key <;> simp [h, hk]

section Insert

variable [DecidableLT κ] [DecidableEq κ]

/-- Puts an entry in its place among sorted entries, over one with the same key. -/
def insertInto (key : κ) (value : α) : List (κ × α) → List (κ × α)
  | [] => [(key, value)]
  | entry :: rest =>
    if key < entry.1 then (key, value) :: entry :: rest
    else if key = entry.1 then (key, value) :: rest
    else entry :: insertInto key value rest

/-- The entries after an insertion are the new one and some that were there. -/
theorem mem_insertInto {key : κ} {value : α} {entries : List (κ × α)} {x : κ × α}
    (h : x ∈ insertInto key value entries) : x = (key, value) ∨ x ∈ entries := by
  induction entries with
  | nil => simpa [insertInto] using h
  | cons entry rest ih =>
    unfold insertInto at h
    split at h
    · simpa using h
    · split at h <;> simp only [List.mem_cons] at h ⊢
      · exact h.imp_right .inr
      · exact h.elim (.inr ∘ .inl) fun h => (ih h).imp_right .inr

variable [Ordered κ]

/-- An insertion keeps the keys increasing, so its result is an index again. -/
theorem pairwise_insertInto (key : κ) (value : α) {entries : List (κ × α)}
    (h : entries.Pairwise (fun a b => a.1 < b.1)) :
    (insertInto key value entries).Pairwise (fun a b => a.1 < b.1) := by
  induction entries with
  | nil => simp [insertInto]
  | cons entry rest ih =>
    obtain ⟨hhead, htail⟩ := List.pairwise_cons.1 h
    unfold insertInto
    split
    case isTrue hlt =>
      refine List.pairwise_cons.2 ⟨fun x hx => ?_, h⟩
      rcases List.mem_cons.1 hx with rfl | hx
      · exact hlt
      · exact Ordered.lt_trans hlt (hhead x hx)
    case isFalse hlt =>
      split
      case isTrue heq => exact List.pairwise_cons.2 ⟨fun x hx => heq ▸ hhead x hx, htail⟩
      case isFalse hne =>
        refine List.pairwise_cons.2 ⟨fun x hx => ?_, ih htail⟩
        rcases mem_insertInto hx with rfl | hx
        · exact Decidable.byContradiction fun hge => hne (Ordered.eq_of_not_lt hlt hge)
        · exact hhead x hx

/-- Adds an entry, or replaces the one with its key. -/
def insert (m : Index κ α) (key : κ) (value : α) : Index κ α :=
  ⟨insertInto key value m.entries, pairwise_insertInto key value m.sorted⟩

/-- The index of some entries; of several with one key the last counts. -/
def ofList (entries : List (κ × α)) : Index κ α :=
  entries.foldl (fun m entry => m.insert entry.1 entry.2) empty

/-- An insertion decides the value of its own key and of no other. -/
theorem find?_insert (m : Index κ α) (key k : κ) (value : α) :
    (m.insert key value).find? k = if k = key then some value else m.find? k := by
  obtain ⟨entries, h⟩ := m
  simp only [find?, insert]
  clear h
  induction entries with
  | nil => by_cases hk : k = key <;> simp [insertInto, hk, eq_comm]
  | cons entry rest ih =>
    unfold insertInto
    by_cases hk : k = key
    · subst hk
      split
      · simp
      · split
        · simp
        · rename_i hne
          simp only [if_true] at ih
          simp [Ne.symm hne, ih]
    · simp only [hk, if_false] at ih ⊢
      split
      · simp [List.find?_cons, Ne.symm hk]
      · split
        · rename_i heq
          subst heq
          simp [Ne.symm hk]
        · simp only [List.find?_cons]
          split
          · rfl
          · exact ih

end Insert

end Index

end Accession

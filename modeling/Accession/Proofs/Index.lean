import Accession.Index
import Mathlib.Data.List.Nodup
set_option autoImplicit false

/-!
# What an index maps

## Main results

* `Index.find?_foldl_insert`, `Index.find?_ofList` — of several entries with one key the last one
  counts.
* `Index.mem_entries_iff`, `Index.mem_keys_iff` — the entries are what the index maps.
* `Index.nodup_keys` — no key stands twice.
* `Index.ext_find?` — an index is determined by what it maps.
* `Index.contains_ofList`, `Index.contains_filter_key` — the keys that an index has.
-/

namespace Accession.Index

variable {κ α : Type} [LT κ] [DecidableLT κ] [DecidableEq κ] [Ordered κ]

omit [DecidableLT κ] [Ordered κ] in
/-- An empty index has no value for any key. -/
theorem find?_empty (key : κ) : (empty : Index κ α).find? key = none :=
  rfl

/-- Entries that are put in one after the other count from the last one on. -/
theorem find?_foldl_insert (entries : List (κ × α)) (m : Index κ α) (key : κ) :
    (entries.foldl (fun m entry => m.insert entry.1 entry.2) m).find? key =
      ((entries.reverse.find? (·.1 = key)).map (·.2)).or (m.find? key) := by
  induction entries generalizing m with
  | nil => simp
  | cons entry entries ih =>
    rw [List.foldl_cons, ih, find?_insert, List.reverse_cons, List.find?_append]
    by_cases hkey : entry.1 = key
    · cases h : entries.reverse.find? (·.1 = key) <;> simp [hkey]
    · cases h : entries.reverse.find? (·.1 = key) <;> simp [hkey, Ne.symm hkey]

/-- **Of several entries with one key the last one counts.** -/
theorem find?_ofList (entries : List (κ × α)) (key : κ) :
    (ofList entries).find? key = (entries.reverse.find? (·.1 = key)).map (·.2) := by
  rw [ofList, find?_foldl_insert, find?_empty, Option.or_none]

/-- Entries of which no two have one key all count. -/
theorem find?_ofList_eq_some_iff {entries : List (κ × α)} (h : (entries.map (·.1)).Nodup)
    {key : κ} {value : α} :
    (ofList entries).find? key = some value ↔ (key, value) ∈ entries := by
  rw [find?_ofList, Option.map_eq_some_iff]
  constructor
  · rintro ⟨entry, hfind, rfl⟩
    have hmem := List.mem_reverse.1 (List.mem_of_find?_eq_some hfind)
    have hkey : entry.1 = key := by simpa using List.find?_some hfind
    rwa [← hkey]
  · intro hmem
    have hsome : (entries.reverse.find? (·.1 = key)).isSome :=
      List.find?_isSome.2 ⟨(key, value), List.mem_reverse.2 hmem, decide_eq_true rfl⟩
    obtain ⟨entry, hfind⟩ := Option.isSome_iff_exists.1 hsome
    have hentry := List.mem_reverse.1 (List.mem_of_find?_eq_some hfind)
    have hkey : entry.1 = key := by simpa using List.find?_some hfind
    have hsame := List.inj_on_of_nodup_map h hentry hmem hkey
    exact ⟨entry, hfind, by rw [hsame]⟩

/-! ### Entries and keys -/

omit [DecidableLT κ] [Ordered κ]

/-- A key has a value exactly if the index maps it. -/
theorem contains_eq_isSome_find? (m : Index κ α) (key : κ) :
    m.contains key = (m.find? key).isSome := by
  rw [Bool.eq_iff_iff, contains, find?, Option.isSome_map, List.find?_isSome, List.any_eq_true]

/-- The keys that are listed are those that the index contains. -/
theorem mem_keys_iff {m : Index κ α} {key : κ} : key ∈ m.keys ↔ m.contains key = true := by
  simp [keys, contains]

/-- The entries are exactly what the index maps: no key stands there twice. -/
theorem mem_entries_iff [Std.Irrefl (fun a b : κ => a < b)] {m : Index κ α} {key : κ}
    {value : α} : (key, value) ∈ m.entries ↔ m.find? key = some value := by
  obtain ⟨entries, hsorted⟩ := m
  simp only [find?]
  induction entries with
  | nil => simp
  | cons entry entries ih =>
    obtain ⟨hhead, htail⟩ := List.pairwise_cons.1 hsorted
    by_cases hkey : entry.1 = key
    · -- No later entry has the key of the first one.
      have hlater : (key, value) ∉ entries := fun hmem =>
        Std.Irrefl.irrefl key (hkey ▸ hhead _ hmem)
      rw [List.find?_cons_of_pos (by simpa using hkey), List.mem_cons]
      simp [hlater, Prod.ext_iff, hkey, eq_comm]
    · rw [List.find?_cons_of_neg (by simpa using hkey), ← ih htail, List.mem_cons]
      simp [Prod.ext_iff, Ne.symm hkey]

omit [DecidableEq κ] in
/-- No key stands twice in an index. -/
theorem nodup_keys [Std.Irrefl (fun a b : κ => a < b)] (m : Index κ α) : m.keys.Nodup := by
  refine List.pairwise_map.2 (m.sorted.imp fun {entry other} hlt heq => ?_)
  exact Std.Irrefl.irrefl other.1 (heq ▸ hlt)

omit [DecidableEq κ] in
/-- No entry stands twice in an index. -/
theorem nodup_entries [Std.Irrefl (fun a b : κ => a < b)] (m : Index κ α) : m.entries.Nodup := by
  refine m.sorted.imp fun {entry other} hlt heq => ?_
  exact Std.Irrefl.irrefl other.1 (heq ▸ hlt)

/-- **An index is determined by what it maps.** -/
theorem ext_find? [Std.Irrefl (fun a b : κ => a < b)] [Ordered κ] {m n : Index κ α}
    (h : ∀ key, m.find? key = n.find? key) : m = n := by
  have hmem : ∀ entry, entry ∈ m.entries ↔ entry ∈ n.entries := by
    rintro ⟨key, value⟩
    rw [mem_entries_iff, mem_entries_iff, h]
  have hperm : m.entries.Perm n.entries :=
    (List.perm_ext_iff_of_nodup m.nodup_entries n.nodup_entries).2 hmem
  refine ext (hperm.eq_of_pairwise ?_ m.sorted n.sorted)
  intro entry other _ _ hlt hgt
  exact absurd (Ordered.lt_trans hlt hgt) (Std.Irrefl.irrefl entry.1)

/-- Sets of keys are equal if they have the same ones. -/
theorem ext_contains [Std.Irrefl (fun a b : κ => a < b)] [Ordered κ] {m n : Index κ Unit}
    (h : ∀ key, m.contains key = n.contains key) : m = n := by
  refine ext_find? fun key => ?_
  have hkey := h key
  rw [contains_eq_isSome_find?, contains_eq_isSome_find?] at hkey
  cases hm : m.find? key <;> cases hn : n.find? key <;> simp_all

/-- An insertion adds its key, and takes none away. -/
theorem contains_insert [DecidableLT κ] [Ordered κ] (m : Index κ α) (key k : κ) (value : α) :
    (m.insert key value).contains k = (decide (k = key) || m.contains k) := by
  rw [contains_eq_isSome_find?, contains_eq_isSome_find?, find?_insert]
  by_cases hk : k = key
  · simp [hk]
  · simp [hk]

/-- Filtering by keys leaves the keys that satisfy the condition. -/
theorem contains_filter_key (keep : κ → Bool) (m : Index κ α) (key : κ) :
    (m.filter fun k _ => keep k).contains key = (keep key && m.contains key) := by
  rw [contains_eq_isSome_find?, find?_filter_key, contains_eq_isSome_find?]
  cases keep key <;> simp

/-- The keys of an index that is made of entries are those of the entries. -/
theorem contains_ofList [DecidableLT κ] [Ordered κ] (entries : List (κ × α)) (key : κ) :
    (ofList entries).contains key = true ↔ key ∈ entries.map (·.1) := by
  rw [contains_eq_isSome_find?, find?_ofList, Option.isSome_map, List.find?_isSome]
  simp

end Accession.Index

import Mathlib.Data.List.AList
import Mathlib.Tactic.Common

/-! # Dictionaries with an order of enumeration

A dictionary lists its entries in the order in which an enumeration shows them. That
order is nobody's business: two dictionaries with the same entries are
rearrangements of each other, and what a program promises should not depend on which
of them it meets.

* `mem_values`: the values that are enumerated;
* `values_addOrUpdate_some`, `values_addOrUpdate_none`, `values_perm`: how the
  values change with an entry;
* `Rearrangement.lookup`: a rearrangement has the same entries;
* `lookup_setAll`, `lookup_setAll_of_mem`: what is found after many entries were set.
-/

/-- Entries with distinct keys, in the order of their enumeration. -/
abbrev Dictionary (κ ν : Type) := AList fun _ : κ => ν

namespace Dictionary

variable {κ ν : Type}

/-- The values, as they are enumerated. -/
def values (d : Dictionary κ ν) : List ν := d.entries.map Sigma.snd

/-- The same entries in another order. -/
def Rearrangement (d e : Dictionary κ ν) : Prop := d.entries.Perm e.entries

instance [DecidableEq κ] [DecidableEq ν] (d e : Dictionary κ ν) : Decidable (d.Rearrangement e) :=
  inferInstanceAs (Decidable (d.entries.Perm e.entries))

section

variable [DecidableEq κ]

/-- Set the entry of a key. -/
def set (d : Dictionary κ ν) (k : κ) (v : ν) : Dictionary κ ν := d.insert k v

/-- Add an entry for a key that has none. -/
def tryAdd (d : Dictionary κ ν) (k : κ) (v : ν) : Dictionary κ ν :=
  if k ∈ d then d else d.set k v

/-- Add an entry, or change the one that is there. -/
def addOrUpdate (d : Dictionary κ ν) (k : κ) (v : ν) (update : ν → ν) : Dictionary κ ν :=
  match d.lookup k with
  | none => d.set k v
  | some old => d.set k (update old)

/-- Set entries one after the other. -/
def setAll (d : Dictionary κ ν) (entries : List (κ × ν)) : Dictionary κ ν :=
  entries.foldl (fun d entry => d.set entry.1 entry.2) d

/-- Remove the entry of a key. -/
def remove (d : Dictionary κ ν) (k : κ) : Dictionary κ ν := d.erase k

end

/-! ## Rearrangements -/

section

variable {d e : Dictionary κ ν}

theorem Rearrangement.mem (h : d.Rearrangement e) (k : κ) : k ∈ d ↔ k ∈ e :=
  AList.mem_of_perm h

theorem Rearrangement.values (h : d.Rearrangement e) : d.values.Perm e.values :=
  List.Perm.map (fun entry : Sigma fun _ : κ => ν => entry.2) h

variable [DecidableEq κ]

theorem Rearrangement.lookup (h : d.Rearrangement e) (k : κ) : d.lookup k = e.lookup k :=
  AList.perm_lookup h

end

/-! ## The values -/

section

variable [DecidableEq κ] {d : Dictionary κ ν} {k : κ} {v : ν}

theorem mem_values : v ∈ d.values ↔ ∃ k, d.lookup k = some v := by
  rw [values, List.mem_map]
  constructor
  · rintro ⟨⟨k, v⟩, hentry, rfl⟩
    exact ⟨k, AList.mem_lookup_iff.mpr hentry⟩
  · rintro ⟨k, hk⟩
    exact ⟨⟨k, v⟩, AList.mem_lookup_iff.mp hk, rfl⟩

theorem mem_iff_lookup : k ∈ d ↔ ∃ v, d.lookup k = some v := by
  rw [← AList.lookup_isSome, Option.isSome_iff_exists]

/-- An entry in front of the others. -/
theorem values_perm (h : d.lookup k = some v) : d.values.Perm (v :: (d.remove k).values) := by
  have hmem : k ∈ d.entries.keys := AList.mem_keys.mp (mem_iff_lookup.mpr ⟨v, h⟩)
  rcases List.exists_of_kerase hmem with ⟨v', front, rest, hfront, hsplit, herase⟩
  have hv : v' = v := by
    have hentry : (⟨k, v'⟩ : Sigma fun _ : κ => ν) ∈ d.entries := by
      rw [hsplit]
      simp
    exact Option.some.inj ((AList.mem_lookup_iff.mpr hentry).symm.trans h)
  have hrest : (d.remove k).entries = front ++ rest := herase
  rw [values, values, hsplit, hrest, hv, List.map_append, List.map_append, List.map_cons]
  exact List.perm_middle

@[simp] theorem mem_set {j : κ} : j ∈ d.set k v ↔ j = k ∨ j ∈ d := AList.mem_insert d

@[simp] theorem lookup_set_self : (d.set k v).lookup k = some v := AList.lookup_insert d

@[simp] theorem lookup_set_ne {j : κ} (h : j ≠ k) : (d.set k v).lookup j = d.lookup j :=
  AList.lookup_insert_ne h

theorem values_set (h : d.lookup k = none) : (d.set k v).values = v :: d.values := by
  rw [values, set, AList.entries_insert_of_notMem (AList.lookup_eq_none.mp h)]
  rfl

theorem values_addOrUpdate_none {update : ν → ν} (h : d.lookup k = none) :
    (d.addOrUpdate k v update).values = v :: d.values := by
  rw [addOrUpdate, h]
  exact values_set h

theorem values_addOrUpdate_some {update : ν → ν} {old : ν} (h : d.lookup k = some old) :
    (d.addOrUpdate k v update).values = update old :: (d.remove k).values := by
  rw [addOrUpdate, h]
  rfl

@[simp] theorem mem_addOrUpdate {update : ν → ν} {j : κ} :
    j ∈ d.addOrUpdate k v update ↔ j = k ∨ j ∈ d := by
  unfold addOrUpdate
  split
  · exact mem_set
  · exact mem_set

@[simp] theorem mem_remove {j : κ} : j ∈ d.remove k ↔ j ≠ k ∧ j ∈ d := AList.mem_erase

theorem values_remove_sublist : (d.remove k).values.Sublist d.values :=
  (List.kerase_sublist k d.entries).map fun entry : Sigma fun _ : κ => ν => entry.2

/-- What is found behind a removal is another key's. -/
theorem lookup_remove {j : κ} :
    (d.remove k).lookup j = some v ↔ j ≠ k ∧ d.lookup j = some v := by
  by_cases hj : j = k
  · have hnone : (d.remove k).lookup j = none := by
      rw [hj]
      exact AList.lookup_erase _ _
    simp [hnone, hj]
  · have hsame : (d.remove k).lookup j = d.lookup j := AList.lookup_erase_ne hj
    simp [hsame, hj]

theorem mem_tryAdd {j : κ} : j ∈ d.tryAdd k v ↔ j = k ∨ j ∈ d := by
  unfold tryAdd
  split_ifs with h
  · constructor
    · exact Or.inr
    · rintro (rfl | hj)
      · exact h
      · exact hj
  · exact mem_set

theorem lookup_tryAdd {j : κ} :
    (d.tryAdd k v).lookup j = if j = k then some ((d.lookup k).getD v) else d.lookup j := by
  unfold tryAdd
  split_ifs with h hj hj
  · rcases mem_iff_lookup.mp h with ⟨old, hold⟩
    rw [hj, hold, Option.getD_some]
  · rfl
  · rw [hj, lookup_set_self, AList.lookup_eq_none.mpr h, Option.getD_none]
  · exact lookup_set_ne hj

/-! ## Many entries -/

theorem setAll_cons (entry : κ × ν) (entries : List (κ × ν)) :
    d.setAll (entry :: entries) = (d.set entry.1 entry.2).setAll entries := rfl

theorem lookup_setAll_of_not_mem {entries : List (κ × ν)} (h : k ∉ entries.map Prod.fst) :
    (d.setAll entries).lookup k = d.lookup k := by
  induction entries generalizing d with
  | nil => rfl
  | cons entry entries ih =>
    rw [List.map_cons, List.mem_cons, not_or] at h
    rw [setAll_cons, ih h.2, lookup_set_ne h.1]

/-- What is found was there or has been set. -/
theorem lookup_setAll {entries : List (κ × ν)} (h : (d.setAll entries).lookup k = some v) :
    (k, v) ∈ entries ∨ d.lookup k = some v := by
  induction entries generalizing d with
  | nil => exact .inr h
  | cons entry entries ih =>
    rcases ih h with hmem | hlookup
    · exact .inl (List.mem_cons_of_mem _ hmem)
    · by_cases hk : k = entry.1
      · rw [hk, lookup_set_self] at hlookup
        rw [hk, ← Option.some.inj hlookup]
        exact .inl List.mem_cons_self
      · rw [lookup_set_ne hk] at hlookup
        exact .inr hlookup

/-- With different keys everything that has been set is found. -/
theorem lookup_setAll_of_mem {entries : List (κ × ν)} (hnodup : (entries.map Prod.fst).Nodup)
    (h : (k, v) ∈ entries) : (d.setAll entries).lookup k = some v := by
  induction entries generalizing d with
  | nil => cases h
  | cons entry entries ih =>
    rw [List.map_cons, List.nodup_cons] at hnodup
    rcases List.mem_cons.mp h with rfl | hmem
    · rw [setAll_cons, lookup_setAll_of_not_mem hnodup.1, lookup_set_self]
    · exact ih hnodup.2 hmem

end

end Dictionary

import Mathlib.Algebra.Order.BigOperators.Group.List
import Mathlib.Algebra.Order.Ring.Nat
import Mathlib.Data.List.Perm.Subperm
import ManagedSecurity.Lib.Dictionary

/-! # Sums over the entries of a dictionary

Every entry has a weight. What an operation on one key does to the sum is told in terms of the
other entries.

* `sumBy_remove_add`, `sumBy_set_add`: one entry and the others;
* `sumBy_le`, `length_values_le`: bounds for all of them.
-/

namespace Dictionary

variable {κ ν : Type}

/-- The sum of all weights. -/
def sumBy (weight : ν → ℕ) (d : Dictionary κ ν) : ℕ := (d.values.map weight).sum

theorem sumBy_le {weight : ν → ℕ} {d : Dictionary κ ν} {b : ℕ} (h : ∀ v ∈ d.values, weight v ≤ b) :
    d.sumBy weight ≤ d.values.length * b := by
  have hle := List.sum_le_card_nsmul (d.values.map weight) b fun x hx => by
    rcases List.mem_map.mp hx with ⟨v, hv, rfl⟩
    exact h v hv
  rw [List.length_map] at hle
  exact hle

theorem sumBy_congr {weight weight' : ν → ℕ} {d : Dictionary κ ν} (h : ∀ v ∈ d.values, weight v = weight' v) :
    d.sumBy weight = d.sumBy weight' := congrArg List.sum (List.map_congr_left h)

section

variable [DecidableEq κ] {d : Dictionary κ ν} {weight : ν → ℕ} {k : κ} {v : ν}

/-- An entry, and the others. -/
theorem sumBy_remove (h : d.lookup k = some v) : d.sumBy weight = weight v + (d.remove k).sumBy weight := by
  have hperm := (values_perm h).map weight
  rw [List.map_cons] at hperm
  rw [sumBy, hperm.sum_eq, List.sum_cons]
  rfl

theorem remove_of_none (h : d.lookup k = none) : d.remove k = d := by
  have hnot : k ∉ d := AList.lookup_eq_none.mp h
  exact AList.ext (List.kerase_of_notMem_keys hnot)

/-- The weight of what is there for a key. -/
def weightAt (weight : ν → ℕ) (d : Dictionary κ ν) (k : κ) : ℕ := ((d.lookup k).map weight).getD 0

theorem sumBy_remove_add (weight : ν → ℕ) (d : Dictionary κ ν) (k : κ) :
    (d.remove k).sumBy weight + d.weightAt weight k = d.sumBy weight := by
  unfold weightAt
  cases h : d.lookup k with
  | none =>
    rw [remove_of_none h]
    rfl
  | some v =>
    rw [sumBy_remove h, Option.map_some, Option.getD_some, Nat.add_comm]

theorem sumBy_set_add (weight : ν → ℕ) (d : Dictionary κ ν) (k : κ) (v : ν) :
    (d.set k v).sumBy weight + d.weightAt weight k = d.sumBy weight + weight v := by
  have hremove := sumBy_remove_add weight d k
  have hset : (d.set k v).sumBy weight = weight v + (d.remove k).sumBy weight := rfl
  omega

omit [DecidableEq κ] in
/-- There are no more entries than keys they can have. -/
theorem length_values_le {keys : List κ} (h : ∀ k ∈ d, k ∈ keys) : d.values.length ≤ keys.length := by
  have hsub : d.keys ⊆ keys := fun k hk => h k (AList.mem_keys.mpr hk)
  have hle := (d.keys_nodup.subperm hsub).length_le
  have hlength : d.values.length = d.keys.length := by
    rw [values, AList.keys, List.keys, List.length_map, List.length_map]
  rw [hlength]
  exact hle

end

end Dictionary

import Mathlib.Data.List.Basic
import Mathlib.Data.List.Range
import Mathlib.Tactic.Common

/-! # Loops over arrays with accesses that can be undefined

A loop that counts from zero is a fold over `List.range`, in `Option` where its body reads or
writes at an index: nothing comes out if one of the accesses is outside of the array.

* `readAt_natCast`, `writeAt_natCast`: a signed index that is not negative;
* `foldlM_range`: the rule for a loop with an invariant, which also says that the loop is defined;
* `foldlM_grid`: the same for two loops inside each other, with the invariant counting cells.
-/

namespace Checked

variable {α σ : Type}

/-- `xs[i] = v`. -/
def write (xs : List α) (i : ℕ) (v : α) : Option (List α) :=
  if i < xs.length then some (xs.set i v) else none

/-- `xs[i]` with a signed index. -/
def readAt (xs : List α) (i : ℤ) : Option α := if 0 ≤ i then xs[i.toNat]? else none

/-- `xs[i] = v` with a signed index. -/
def writeAt (xs : List α) (i : ℤ) (v : α) : Option (List α) :=
  if 0 ≤ i then write xs i.toNat v else none

theorem readAt_natCast {i : ℤ} {n : ℕ} (xs : List α) (h : i = n) : readAt xs i = xs[n]? := by
  rw [readAt, h, if_pos (Int.natCast_nonneg n), Int.toNat_natCast]

theorem writeAt_natCast {i : ℤ} {n : ℕ} (xs : List α) (v : α) (h : i = n) :
    writeAt xs i v = write xs n v := by
  rw [writeAt, h, if_pos (Int.natCast_nonneg n), Int.toNat_natCast]

theorem write_of_lt {xs : List α} {i : ℕ} (v : α) (h : i < xs.length) :
    write xs i v = some (xs.set i v) := if_pos h

/-- Where a row has `n` cells, a cell is in one row only. -/
theorem cell_inj {n c d i j : ℕ} (hi : i < n) (hj : j < n) : d * n + i = c * n + j ↔ d = c ∧ i = j := by
  constructor
  · intro h
    have hquot : (n * d + i) / n = (n * c + j) / n := by rw [Nat.mul_comm n d, h, Nat.mul_comm n c]
    rw [Nat.mul_add_div (by omega), Nat.mul_add_div (by omega), Nat.div_eq_of_lt hi, Nat.div_eq_of_lt hj,
      Nat.add_zero, Nat.add_zero] at hquot
    subst hquot
    exact ⟨rfl, Nat.add_left_cancel h⟩
  · rintro ⟨rfl, rfl⟩
    rfl

theorem foldlM_range {body : σ → ℕ → Option σ} {I : ℕ → σ → Prop} (n : ℕ) {s : σ} (hs : I 0 s)
    (hbody : ∀ i < n, ∀ s, I i s → ∃ s', body s i = some s' ∧ I (i + 1) s') :
    ∃ s', (List.range n).foldlM body s = some s' ∧ I n s' := by
  induction n with
  | zero => exact ⟨s, rfl, hs⟩
  | succ n ih =>
    rcases ih fun i hi => hbody i (Nat.lt_succ_of_lt hi) with ⟨s', hloop, hinv⟩
    rcases hbody n (Nat.lt_succ_self n) s' hinv with ⟨s'', hlast, hinv'⟩
    refine ⟨s'', ?_, hinv'⟩
    rw [List.range_succ, List.foldlM_append, hloop]
    simp [hlast]

/-- Rows of `m` cells each; the invariant counts the cells. -/
theorem foldlM_grid {body : ℕ → σ → ℕ → Option σ} {I : ℕ → σ → Prop} (n m : ℕ) {s : σ} (hs : I 0 s)
    (hbody : ∀ y < n, ∀ x < m, ∀ s, I (y * m + x) s →
      ∃ s', body y s x = some s' ∧ I (y * m + x + 1) s') :
    ∃ s', (List.range n).foldlM (fun s y => (List.range m).foldlM (body y) s) s = some s' ∧
      I (n * m) s' := by
  refine foldlM_range (I := fun y => I (y * m)) n (by rw [Nat.zero_mul]; exact hs) ?_
  intro y hy s hrow
  rcases foldlM_range (I := fun x => I (y * m + x)) m hrow (fun x hx s hcell => hbody y hy x hx s hcell)
    with ⟨s', hloop, hinv⟩
  rw [Nat.succ_mul]
  exact ⟨s', hloop, hinv⟩

end Checked

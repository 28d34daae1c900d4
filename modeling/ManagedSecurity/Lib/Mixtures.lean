import Mathlib.Data.List.Basic
import Mathlib.Tactic

/-! # Mixtures of two sequences

A mixture takes each of its elements from the same place of one of two sequences. The
fronts of the two are mixtures; when there is no other one is said by `Unmixable`.
-/

variable {α : Type*} {xs ys zs : List α}

/-- Each element has the same place in one of the two sequences. -/
def Mixture (xs ys zs : List α) : Prop :=
  ∀ (i : ℕ) (z : α), zs[i]? = some z → xs[i]? = some z ∨ ys[i]? = some z

/-- Once the sequences differ at a place that both have, they agree behind it. -/
def Unmixable (xs ys : List α) : Prop :=
  ∀ i j, i < j → i < xs.length → i < ys.length → xs[i]? ≠ ys[i]? → xs[j]? = ys[j]?

theorem Mixture.symm (h : Mixture xs ys zs) : Mixture ys xs zs := fun i z hz => (h i z hz).symm

/-- Then every mixture is the front of one of them. -/
theorem Unmixable.front_or_front (hu : Unmixable xs ys) (h : Mixture xs ys zs) :
    zs <+: xs ∨ zs <+: ys := by
  by_contra hneither
  rw [not_or, List.prefix_iff_getElem?, List.prefix_iff_getElem?] at hneither
  push Not at hneither
  obtain ⟨⟨i, hi, hx⟩, k, hk, hy⟩ := hneither
  have hyi : ys[i]? = some zs[i] := (h i zs[i] (List.getElem?_eq_getElem hi)).resolve_left hx
  have hxk : xs[k]? = some zs[k] := (h k zs[k] (List.getElem?_eq_getElem hk)).resolve_right hy
  have hyLen := (List.getElem?_eq_some_iff.mp hyi).1
  have hxLen := (List.getElem?_eq_some_iff.mp hxk).1
  -- both sequences are as long as the first of the two places
  rcases Nat.lt_trichotomy i k with hlt | rfl | hlt
  · have hagree := hu i k hlt (by omega) hyLen (by rw [hyi]; exact hx)
    rw [← hagree] at hy
    exact hy hxk
  · exact hx hxk
  · have hagree := hu k i hlt hxLen (by omega) (by rw [hxk]; exact Ne.symm hy)
    rw [hagree] at hx
    exact hx hyi

/-- The front of a sequence with another element at one place. -/
def spliced (ys : List α) (i j : ℕ) (x : α) : List α := (ys.take (j + 1)).set i x

theorem spliced_at {i j : ℕ} (hij : i < j) (hj : j < ys.length) (x : α) :
    (spliced ys i j x)[i]? = some x := by
  rw [spliced, List.getElem?_set_self]
  rw [List.length_take]
  omega

theorem spliced_end {i j : ℕ} (hij : i < j) (x : α) : (spliced ys i j x)[j]? = ys[j]? := by
  rw [spliced, List.getElem?_set_ne (by omega), List.getElem?_take_of_lt (by omega)]

theorem mixture_spliced {i j : ℕ} {x : α} (hx : xs[i]? = some x) :
    Mixture xs ys (spliced ys i j x) := by
  intro k z hz
  by_cases hk : k = i
  · subst hk
    rw [spliced, List.getElem?_set_self'] at hz
    rcases Option.map_eq_some_iff.mp hz with ⟨_, -, rfl⟩
    exact Or.inl hx
  · rw [spliced, List.getElem?_set_ne (Ne.symm hk), List.getElem?_take] at hz
    split_ifs at hz
    exact Or.inr hz

theorem getElem?_of_front {i : ℕ} {z : α} (h : zs <+: xs) (hz : zs[i]? = some z) :
    xs[i]? = some z := by
  obtain ⟨hlt, hget⟩ := List.getElem?_eq_some_iff.mp hz
  rw [← hget]
  exact List.prefix_iff_getElem?.mp h i hlt

/-- An element that the sequences have at different places keeps the splice from being a
front. -/
theorem spliced_not_front {i j : ℕ} {x y : α} (hij : i < j) (hy : ys[j]? = some y)
    (hi : ys[i]? ≠ some x) (hj : xs[j]? ≠ some y) :
    ¬ (spliced ys i j x <+: xs ∨ spliced ys i j x <+: ys) := by
  have hlen := (List.getElem?_eq_some_iff.mp hy).1
  rintro (hfront | hfront)
  · exact hj (getElem?_of_front hfront ((spliced_end hij x).trans hy))
  · exact hi (getElem?_of_front hfront (spliced_at hij hlen x))

/-- Exactly the unmixable sequences have no other mixtures than their fronts. -/
theorem unmixable_iff :
    Unmixable xs ys ↔ ∀ zs : List α, Mixture xs ys zs → zs <+: xs ∨ zs <+: ys := by
  constructor
  · intro hu zs hmix
    exact hu.front_or_front hmix
  · intro hall i j hij hxi hyi hdiffer
    have hx := List.getElem?_eq_getElem hxi
    have hy := List.getElem?_eq_getElem hyi
    by_contra hne
    cases hyj : ys[j]? with
    | some y =>
      refine spliced_not_front hij hyj ?_ ?_ (hall _ (mixture_spliced hx))
      · rw [← hx]
        exact Ne.symm hdiffer
      · rw [← hyj]
        exact hne
    | none =>
      cases hxj : xs[j]? with
      | some x =>
        refine spliced_not_front hij hxj ?_ ?_ (hall _ (mixture_spliced hy).symm).symm
        · rw [← hy]
          exact hdiffer
        · rw [hyj]
          exact (Option.some_ne_none x).symm
      | none => exact hne (hxj.trans hyj.symm)

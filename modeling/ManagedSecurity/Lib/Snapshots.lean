import ManagedSecurity.Lib.Transition
import Mathlib.Tactic.Common

/-! # Saving snapshots in the background

Calls change a state, and some of them start to save a snapshot of it. The saves that
are under way are completed in any order, and each of them replaces what is stored.

* `Consistent`: what is stored, and what is about to be stored, by the calls that
  came first;
* `stored_same_iff`: when all saves are completed, the store is up to date exactly if
  nothing has changed since the save that was completed last.
-/

namespace Snapshots

open Transition

variable {σ ι ν : Type}

/-- The state, the calls so far, the saves under way with the numbers of the calls that
started them, the saves that were completed, in order, and what is stored. -/
structure Saving (σ ι ν : Type) where
  state : σ
  calls : List ι
  pending : List (ℕ × ν)
  completed : List ℕ
  stored : ν

/-- A call, or the end of a save. -/
inductive Event (ι : Type) where
  | call (i : ι)
  | complete (n : ℕ)
deriving DecidableEq, Repr

/-- Before any call. -/
def Saving.start (s : σ) (stored : ν) : Saving σ ι ν := ⟨s, [], [], [], stored⟩

section

variable (perform : σ → ι → Option (σ × Bool)) (snapshot : σ → ν)

/-- A call on its own. -/
def callStep (s : σ) (i : ι) : Option σ := (perform s i).map Prod.fst

/-- One step. A call says whether it starts a save. -/
def Saving.step (s : Saving σ ι ν) : Event ι → Option (Saving σ ι ν)
  | .call i =>
    match perform s.state i with
    | none => none
    | some (state, saves) =>
      some { s with
        state := state
        calls := s.calls ++ [i]
        pending := if saves then s.pending ++ [(s.calls.length, snapshot state)] else s.pending }
  | .complete n =>
    match s.pending.find? fun save => save.1 = n with
    | none => none
    | some save =>
      some { s with
        pending := s.pending.filter fun other => other.1 ≠ n
        completed := s.completed ++ [n]
        stored := save.2 }

/-- What the save of call `n` writes. -/
def Writes (s₀ : σ) (calls : List ι) (n : ℕ) (content : ν) : Prop :=
  n < calls.length ∧
    ∃ s, run (callStep perform) s₀ (calls.take (n + 1)) = some s ∧ content = snapshot s

/-- What is stored and what is about to be, by the calls. -/
structure Consistent (same : ν → ν → Prop) (s₀ : σ) (stored₀ : ν) (s : Saving σ ι ν) : Prop where
  state : run (callStep perform) s₀ s.calls = some s.state
  pending : ∀ save ∈ s.pending, Writes perform snapshot s₀ s.calls save.1 save.2
  stored : ∀ n, s.completed.getLast? = some n → Writes perform snapshot s₀ s.calls n s.stored
  unsaved : s.completed = [] → s.stored = stored₀ ∧
    (s.pending = [] → same (snapshot s₀) (snapshot s.state))

end

section

variable {perform : σ → ι → Option (σ × Bool)} {snapshot : σ → ν} {same : ν → ν → Prop}
  {s₀ : σ} {stored₀ : ν} {s s' t : Saving σ ι ν} {calls : List ι} {i : ι} {n : ℕ} {content : ν}

/-- Later calls do not matter. -/
theorem Writes.snoc (h : Writes perform snapshot s₀ calls n content) :
    Writes perform snapshot s₀ (calls ++ [i]) n content := by
  rcases h with ⟨hlt, hrun⟩
  constructor
  · rw [List.length_append]
    omega
  · rwa [List.take_append_of_le_length (by omega)]

theorem consistent_start (hsame : Equivalence same) :
    Consistent perform snapshot same s₀ stored₀ (Saving.start s₀ stored₀) where
  state := rfl
  pending := by simp [Saving.start]
  stored := by simp [Saving.start]
  unsaved := fun _ => ⟨rfl, fun _ => hsame.refl _⟩

/-- A call. -/
theorem Consistent.call (hsame : Equivalence same)
    (hquiet : ∀ s i s', perform s i = some (s', false) → same (snapshot s) (snapshot s'))
    (hs : Consistent perform snapshot same s₀ stored₀ s)
    (h : Saving.step perform snapshot s (.call i) = some s') :
    Consistent perform snapshot same s₀ stored₀ s' := by
  simp only [Saving.step] at h
  cases hcall : perform s.state i with
  | none =>
    rw [hcall] at h
    cases h
  | some result =>
    rcases result with ⟨state, saves⟩
    rw [hcall] at h
    obtain rfl := Option.some.inj h
    have hrun : run (callStep perform) s₀ (s.calls ++ [i]) = some state := by
      refine run_append.mpr ⟨s.state, hs.state, run_cons.mpr ⟨state, ?_, rfl⟩⟩
      rw [callStep, hcall]
      rfl
    have hnew : Writes perform snapshot s₀ (s.calls ++ [i]) s.calls.length (snapshot state) := by
      refine ⟨by simp, state, ?_, rfl⟩
      rwa [List.take_of_length_le (by simp)]
    refine ⟨hrun, ?_, fun n hlast => (hs.stored n hlast).snoc, ?_⟩
    · intro save hsave
      -- only a call that saves starts a save; it writes what this call made
      cases saves with
      | false => exact (hs.pending save hsave).snoc
      | true =>
        rcases List.mem_append.mp hsave with hold | hadded
        · exact (hs.pending save hold).snoc
        · obtain rfl := List.mem_singleton.mp hadded
          exact hnew
    · intro hnone
      refine ⟨(hs.unsaved hnone).1, ?_⟩
      intro hpending
      cases saves with
      | false => exact hsame.trans ((hs.unsaved hnone).2 hpending) (hquiet _ _ _ hcall)
      | true => simp at hpending

/-- The end of a save. -/
theorem Consistent.complete (hs : Consistent perform snapshot same s₀ stored₀ s)
    (h : Saving.step perform snapshot s (.complete n) = some s') :
    Consistent perform snapshot same s₀ stored₀ s' := by
  simp only [Saving.step] at h
  cases hfind : s.pending.find? (fun save => decide (save.1 = n)) with
  | none =>
    rw [hfind] at h
    cases h
  | some save =>
    rw [hfind] at h
    obtain rfl := Option.some.inj h
    have hnumber : save.1 = n := by simpa using List.find?_some hfind
    refine ⟨hs.state, ?_, ?_, ?_⟩
    · intro other hother
      exact hs.pending other (List.mem_filter.mp hother).1
    · intro m hlast
      rw [List.getLast?_concat, Option.some.injEq] at hlast
      rw [← hlast, ← hnumber]
      exact hs.pending save (List.mem_of_find?_eq_some hfind)
    · intro hnone
      simp at hnone

/-- Whole runs. -/
theorem consistent_run (hsame : Equivalence same)
    (hquiet : ∀ s i s', perform s i = some (s', false) → same (snapshot s) (snapshot s'))
    {events : List (Event ι)}
    (hrun : run (Saving.step perform snapshot) (Saving.start s₀ stored₀) events = some t) :
    Consistent perform snapshot same s₀ stored₀ t := by
  refine run_invariant ?_ events _ t (consistent_start hsame) hrun
  intro s event s' hs h
  cases event with
  | call i => exact hs.call hsame hquiet h
  | complete n => exact hs.complete h

/-- The store is up to date exactly if nothing has changed since the save that was
completed last. -/
theorem stored_same_iff (hsame : Equivalence same)
    (hquiet : ∀ s i s', perform s i = some (s', false) → same (snapshot s) (snapshot s'))
    (hstart : same stored₀ (snapshot s₀)) {events : List (Event ι)}
    (hrun : run (Saving.step perform snapshot) (Saving.start s₀ stored₀) events = some t)
    (hdone : t.pending = []) :
    same t.stored (snapshot t.state) ↔
      ∀ n, t.completed.getLast? = some n → ∀ mid,
        run (callStep perform) s₀ (t.calls.take (n + 1)) = some mid →
        same (snapshot mid) (snapshot t.state) := by
  have ht := consistent_run hsame hquiet hrun
  -- what was stored last is what the calls up to that one had made
  cases hlast : t.completed.getLast? with
  | none =>
    rcases ht.unsaved (List.getLast?_eq_none_iff.mp hlast) with ⟨hstored, hsaved⟩
    have hcurrent : same t.stored (snapshot t.state) := by
      rw [hstored]
      exact hsame.trans hstart (hsaved hdone)
    constructor
    · intro _ n hn
      cases hn
    · intro _
      exact hcurrent
  | some n =>
    rcases ht.stored n hlast with ⟨-, mid, hmid, hcontent⟩
    constructor
    · intro hcurrent m hm mid' hmid'
      obtain rfl := Option.some.inj hm
      obtain rfl := Option.some.inj (hmid.symm.trans hmid')
      rwa [← hcontent]
    · intro h
      rw [hcontent]
      exact h n rfl mid hmid

end

end Snapshots

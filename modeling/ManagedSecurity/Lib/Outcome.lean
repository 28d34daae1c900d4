import Mathlib.Tactic.Common

/-! # Outcomes of programs with state and exceptions

`EStateM ε σ` programs keep the state they have reached when they throw, which
is what a method of a mutable object does. The rules here reason about both
ways a run can end:

* `Sat r Q E`: the result `r` satisfies `Q` if it is a value and `E` if it is
  an exception; one rule for each program former (`sat_bind`, `sat_zoom`, ...);
* `ThrowsOnly P x`: what a program can throw, from whatever state it starts;
* `Appends log x`: a list in the state to which a program only adds;
* `Agree R r₁ r₂`: two runs end the same way, with equal values and related
  states, whatever exception they raise (`agree_bind` is the sequencing rule);
* `bind_ok`, `bind_error`: running a sequence whose first part is known;
  `bind_eq_ok` and its companions take a run that has returned apart;
* `attempts`: a series of calls on one object that goes on after exceptions.
-/

namespace Outcome

variable {ε σ τ α β : Type}

/-! ## Program formers -/

/-- Throw `e` unless `p` holds. -/
def ensure (p : Prop) [Decidable p] (e : ε) : EStateM ε σ Unit :=
  if p then pure () else throw e

/-- Run a program only if `p` holds. -/
def runIf (p : Prop) [Decidable p] (x : EStateM ε σ Unit) : EStateM ε σ Unit :=
  if p then x else pure ()

/-- Run a program on a part of the state, also when it throws. -/
def zoom (view : σ → τ) (update : τ → σ → σ) (x : EStateM ε τ α) : EStateM ε σ α := fun s =>
  match x (view s) with
  | .ok a t => .ok a (update t s)
  | .error e t => .error e (update t s)

/-! ## Running -/

section Running

variable {x : EStateM ε σ α} {f : α → EStateM ε σ β} {s s' : σ} {a : α} {e : ε}

@[simp] theorem pure_run (a : α) (s : σ) : (pure a : EStateM ε σ α) s = .ok a s := rfl

@[simp] theorem throw_run (e : ε) (s : σ) : (throw e : EStateM ε σ α) s = .error e s := rfl

@[simp] theorem set_run (t s : σ) : (set t : EStateM ε σ PUnit) s = .ok ⟨⟩ t := rfl

@[simp] theorem modify_run (g : σ → σ) (s : σ) :
    (modify g : EStateM ε σ PUnit) s = .ok ⟨⟩ (g s) := rfl

theorem bind_ok (h : x s = .ok a s') : (x >>= f) s = f a s' := by
  show EStateM.bind x f s = f a s'
  simp only [EStateM.bind, h]

theorem bind_error (h : x s = .error e s') : (x >>= f) s = .error e s' := by
  show EStateM.bind x f s = .error e s'
  simp only [EStateM.bind, h]

/-- Sequences whose first parts run alike, and whose second parts do wherever the
first ones return. -/
theorem bind_congr_run {y : EStateM ε σ α} {g : α → EStateM ε σ β} (hxy : x s = y s)
    (hfg : ∀ a s', y s = .ok a s' → f a s' = g a s') : (x >>= f) s = (y >>= g) s := by
  cases hy : y s with
  | ok a s' => rw [bind_ok (hxy.trans hy), bind_ok hy, hfg a s' hy]
  | error e s' => rw [bind_error (hxy.trans hy), bind_error hy]

@[simp] theorem get_bind (f : σ → EStateM ε σ β) (s : σ) : (get >>= f) s = f s s := rfl

@[simp] theorem pure_bind_run (a : α) (f : α → EStateM ε σ β) (s : σ) :
    ((pure a : EStateM ε σ α) >>= f) s = f a s := rfl

@[simp] theorem modify_bind (g : σ → σ) (f : PUnit → EStateM ε σ β) (s : σ) :
    ((modify g : EStateM ε σ PUnit) >>= f) s = f ⟨⟩ (g s) := rfl

@[simp] theorem ensure_true {p : Prop} [Decidable p] (h : p) (e : ε) (s : σ) :
    (ensure p e : EStateM ε σ Unit) s = .ok () s := by
  simp [ensure, h]

@[simp] theorem ensure_false {p : Prop} [Decidable p] (h : ¬p) (e : ε) (s : σ) :
    (ensure p e : EStateM ε σ Unit) s = .error e s := by
  simp [ensure, h]

theorem runIf_true {p : Prop} [Decidable p] (h : p) (x : EStateM ε σ Unit) : runIf p x = x :=
  if_pos h

theorem runIf_false {p : Prop} [Decidable p] (h : ¬p) (x : EStateM ε σ Unit) :
    runIf p x = pure () :=
  if_neg h

@[simp] theorem ofExcept_ok (a : α) (s : σ) :
    (ofExcept (.ok a) : EStateM ε σ α) s = .ok a s := rfl

@[simp] theorem ofExcept_error (e : ε) (s : σ) :
    (ofExcept (.error e) : EStateM ε σ α) s = .error e s := rfl

theorem zoom_ok {view : σ → τ} {update : τ → σ → σ} {y : EStateM ε τ α} {t : τ}
    (h : y (view s) = .ok a t) : zoom view update y s = .ok a (update t s) := by
  simp only [zoom, h]

theorem zoom_error {view : σ → τ} {update : τ → σ → σ} {y : EStateM ε τ α} {t : τ}
    (h : y (view s) = .error e t) : zoom view update y s = .error e (update t s) := by
  simp only [zoom, h]

end Running

/-! ## Inversion of runs that return -/

section Inversion

variable {x : EStateM ε σ α} {f : α → EStateM ε σ β} {s s' : σ} {a : α} {b : β} {e : ε}

/-- A sequence returns exactly when both of its parts do. -/
theorem bind_eq_ok :
    (x >>= f) s = .ok b s' ↔ ∃ a s₁, x s = .ok a s₁ ∧ f a s₁ = .ok b s' := by
  cases hx : x s with
  | ok a s₁ =>
    rw [bind_ok hx]
    constructor
    · intro h
      exact ⟨a, s₁, rfl, h⟩
    · rintro ⟨a', s₁', h₁, h₂⟩
      rcases EStateM.Result.ok.inj h₁ with ⟨rfl, rfl⟩
      exact h₂
  | error e s₁ =>
    rw [bind_error hx]
    constructor
    · intro h
      cases h
    · rintro ⟨a', s₁', h₁, -⟩
      cases h₁

theorem ensure_eq_ok {p : Prop} [Decidable p] {u : Unit} :
    (ensure p e : EStateM ε σ Unit) s = .ok u s' ↔ p ∧ s = s' := by
  by_cases hp : p
  · rw [ensure_true hp]
    constructor
    · intro h
      exact ⟨hp, (EStateM.Result.ok.inj h).2⟩
    · rintro ⟨-, rfl⟩
      rfl
  · rw [ensure_false hp]
    constructor
    · intro h
      cases h
    · rintro ⟨h, -⟩
      exact absurd h hp

theorem ofExcept_eq_ok {y : Except ε α} :
    (ofExcept y : EStateM ε σ α) s = .ok a s' ↔ y = .ok a ∧ s = s' := by
  cases y with
  | ok a' =>
    rw [ofExcept_ok]
    constructor
    · intro h
      rcases EStateM.Result.ok.inj h with ⟨rfl, rfl⟩
      exact ⟨rfl, rfl⟩
    · rintro ⟨h, rfl⟩
      rw [Except.ok.inj h]
  | error e' =>
    rw [ofExcept_error]
    constructor
    · intro h
      cases h
    · rintro ⟨h, -⟩
      cases h

theorem pure_eq_ok {a' : α} : (pure a : EStateM ε σ α) s = .ok a' s' ↔ a' = a ∧ s' = s := by
  rw [pure_run]
  constructor
  · intro h
    rcases EStateM.Result.ok.inj h with ⟨rfl, rfl⟩
    exact ⟨rfl, rfl⟩
  · rintro ⟨rfl, rfl⟩
    rfl

theorem zoom_eq_ok {view : σ → τ} {update : τ → σ → σ} {y : EStateM ε τ α} :
    zoom view update y s = .ok a s' ↔ ∃ t, y (view s) = .ok a t ∧ s' = update t s := by
  cases hy : y (view s) with
  | ok a' t =>
    rw [zoom_ok hy]
    constructor
    · intro h
      rcases EStateM.Result.ok.inj h with ⟨rfl, rfl⟩
      exact ⟨t, rfl, rfl⟩
    · rintro ⟨t', h, rfl⟩
      rcases EStateM.Result.ok.inj h with ⟨rfl, rfl⟩
      rfl
  | error e' t =>
    rw [zoom_error hy]
    constructor
    · intro h
      cases h
    · rintro ⟨t', h, -⟩
      cases h

end Inversion

/-- A computable test of what a fallible computation returns. -/
def returns (p : α → Bool) : Except ε α → Bool
  | .ok a => p a
  | .error _ => false

theorem of_returns {p : α → Bool} {x : Except ε α} (h : returns p x = true) :
    ∃ a, x = .ok a ∧ p a = true := by
  cases x with
  | ok a => exact ⟨a, rfl, h⟩
  | error e => cases h

/-- The state in which a run has ended, whether it has returned or thrown. -/
def finalState : EStateM.Result ε σ α → σ
  | .ok _ s => s
  | .error _ s => s

/-- The run has thrown. -/
def threw : EStateM.Result ε σ α → Bool
  | .ok _ _ => false
  | .error _ _ => true

/-! ## Postconditions for both outcomes -/

/-- The result satisfies `Q` if it is a value and `E` if it is an exception. -/
def Sat (r : EStateM.Result ε σ α) (Q : α → σ → Prop) (E : ε → σ → Prop) : Prop :=
  match r with
  | .ok a s => Q a s
  | .error e s => E e s

section Rules

variable {r : EStateM.Result ε σ α} {Q Q' : α → σ → Prop} {E E' : ε → σ → Prop}

@[simp] theorem sat_ok {a : α} {s : σ} : Sat (.ok a s) Q E ↔ Q a s := Iff.rfl

@[simp] theorem sat_error {e : ε} {s : σ} : Sat (.error e s) Q E ↔ E e s := Iff.rfl

theorem Sat.of_ok (h : Sat r Q E) {a : α} {s : σ} (hr : r = .ok a s) : Q a s := by
  rwa [hr, sat_ok] at h

theorem Sat.of_error (h : Sat r Q E) {e : ε} {s : σ} (hr : r = .error e s) : E e s := by
  rwa [hr, sat_error] at h

theorem Sat.mono (h : Sat r Q E) (hQ : ∀ a s, Q a s → Q' a s) (hE : ∀ e s, E e s → E' e s) :
    Sat r Q' E' := by
  cases r with
  | ok a s => exact hQ a s h
  | error e s => exact hE e s h

theorem Sat.and (h : Sat r Q E) (h' : Sat r Q' E') :
    Sat r (fun a s => Q a s ∧ Q' a s) (fun e s => E e s ∧ E' e s) := by
  cases r with
  | ok a s => exact ⟨h, h'⟩
  | error e s => exact ⟨h, h'⟩

/-- Sequencing: the first part must lead to states from which the second one
does what is asked; its exceptions are those of the whole. -/
theorem sat_bind {x : EStateM ε σ α} {f : α → EStateM ε σ β} {s : σ} {Q : β → σ → Prop} :
    Sat ((x >>= f) s) Q E ↔ Sat (x s) (fun a s' => Sat (f a s') Q E) E := by
  cases hx : x s with
  | ok a s' => rw [bind_ok hx, sat_ok]
  | error e s' => rw [bind_error hx, sat_error, sat_error]

/-- What follows may start from anything. -/
theorem sat_behind {x : EStateM ε σ α} {f : α → EStateM ε σ β} {s : σ} {Q : β → σ → Prop}
    (h : ∀ a s', Sat (f a s') Q fun _ _ => True) : Sat ((x >>= f) s) Q fun _ _ => True := by
  rw [sat_bind]
  cases x s with
  | ok a s' => exact h a s'
  | error e s' => trivial

theorem sat_ensure {p : Prop} [Decidable p] {e : ε} {s : σ} {Q : Unit → σ → Prop} :
    Sat ((ensure p e : EStateM ε σ Unit) s) Q E ↔ (p → Q () s) ∧ (¬p → E e s) := by
  by_cases hp : p
  · simp [hp]
  · simp [hp]

theorem sat_ofExcept {x : Except ε α} {s : σ} :
    Sat ((ofExcept x : EStateM ε σ α) s) Q E ↔
      (∀ a, x = .ok a → Q a s) ∧ (∀ e, x = .error e → E e s) := by
  cases x with
  | ok a => simp
  | error e => simp

/-- A program run on a part of the state: its postconditions speak about the
updated whole. -/
theorem sat_zoom {view : σ → τ} {update : τ → σ → σ} {y : EStateM ε τ α} {s : σ} :
    Sat (zoom view update y s) Q E ↔
      Sat (y (view s)) (fun a t => Q a (update t s)) (fun e t => E e (update t s)) := by
  cases hy : y (view s) with
  | ok a t => rw [zoom_ok hy, sat_ok, sat_ok]
  | error e t => rw [zoom_error hy, sat_error, sat_error]

end Rules

/-! ## The exceptions alone -/

/-- From every state, the program throws only exceptions of the class `P`. -/
structure ThrowsOnly (P : ε → Prop) (x : EStateM ε σ α) : Prop where
  sat : ∀ s, Sat (x s) (fun _ _ => True) (fun e _ => P e)

section ThrowsOnly

variable {P : ε → Prop} {x : EStateM ε σ α} {f : α → EStateM ε σ β}

theorem throwsOnly_bind (hx : ThrowsOnly P x) (hf : ∀ a, ThrowsOnly P (f a)) :
    ThrowsOnly P (x >>= f) := by
  constructor
  intro s
  rw [sat_bind]
  exact (hx.sat s).mono (fun a s' _ => (hf a).sat s') (fun _ _ he => he)

theorem throwsOnly_pure (a : α) : ThrowsOnly P (pure a : EStateM ε σ α) := ⟨fun _ => trivial⟩

theorem throwsOnly_set (t : σ) : ThrowsOnly P (set t : EStateM ε σ PUnit) := ⟨fun _ => trivial⟩

theorem throwsOnly_throw {e : ε} (he : P e) : ThrowsOnly P (throw e : EStateM ε σ α) :=
  ⟨fun _ => he⟩

theorem throwsOnly_get {f : σ → EStateM ε σ β} (hf : ∀ s, ThrowsOnly P (f s)) :
    ThrowsOnly P (get >>= f) :=
  throwsOnly_bind ⟨fun _ => trivial⟩ hf

theorem throwsOnly_ensure {p : Prop} [Decidable p] {e : ε} (he : P e) :
    ThrowsOnly P (ensure p e : EStateM ε σ Unit) := by
  constructor
  intro s
  rw [sat_ensure]
  exact ⟨fun _ => trivial, fun _ => he⟩

theorem throwsOnly_ofExcept {y : Except ε α} (hy : ∀ e, y = .error e → P e) :
    ThrowsOnly P (ofExcept y : EStateM ε σ α) := by
  constructor
  intro s
  rw [sat_ofExcept]
  exact ⟨fun _ _ => trivial, hy⟩

end ThrowsOnly

/-! ## A list in the state that only grows -/

/-- However it ends, the program only adds to this list. -/
structure Appends {γ : Type} (log : σ → List γ) (x : EStateM ε σ α) : Prop where
  sat : ∀ s, Sat (x s) (fun _ s' => log s <+: log s') (fun _ s' => log s <+: log s')

section Appends

variable {γ : Type} {log : σ → List γ} {x : EStateM ε σ α} {f : α → EStateM ε σ β}

theorem appends_bind (hx : Appends log x) (hf : ∀ a, Appends log (f a)) : Appends log (x >>= f) := by
  constructor
  intro s
  rw [sat_bind]
  refine (hx.sat s).mono (fun a s' h => ?_) (fun _ _ h => h)
  exact ((hf a).sat s').mono (fun _ _ h' => h.trans h') (fun _ _ h' => h.trans h')

theorem appends_pure (a : α) : Appends log (pure a : EStateM ε σ α) := ⟨fun _ => List.prefix_rfl⟩

theorem appends_throw (e : ε) : Appends log (throw e : EStateM ε σ α) := ⟨fun _ => List.prefix_rfl⟩

theorem appends_get {f : σ → EStateM ε σ β} (hf : ∀ s, Appends log (f s)) : Appends log (get >>= f) :=
  appends_bind ⟨fun _ => List.prefix_rfl⟩ hf

theorem appends_modify {g : σ → σ} (hg : ∀ s, log s <+: log (g s)) :
    Appends log (modify g : EStateM ε σ PUnit) := ⟨hg⟩

theorem appends_ensure {p : Prop} [Decidable p] {e : ε} :
    Appends log (ensure p e : EStateM ε σ Unit) := by
  constructor
  intro s
  rw [sat_ensure]
  exact ⟨fun _ => List.prefix_rfl, fun _ => List.prefix_rfl⟩

theorem appends_ofExcept {y : Except ε α} : Appends log (ofExcept y : EStateM ε σ α) := by
  constructor
  intro s
  rw [sat_ofExcept]
  exact ⟨fun _ _ => List.prefix_rfl, fun _ _ => List.prefix_rfl⟩

theorem appends_runIf {p : Prop} [Decidable p] {y : EStateM ε σ Unit} (hy : Appends log y) :
    Appends log (runIf p y) := by
  unfold runIf
  split
  · exact hy
  · exact appends_pure ()

/-- A part of the state that the list is not in. -/
theorem appends_zoom {view : σ → τ} {update : τ → σ → σ} {y : EStateM ε τ α}
    (hupdate : ∀ t s, log (update t s) = log s) : Appends log (zoom view update y) := by
  constructor
  intro s
  rw [sat_zoom]
  have hsame : ∀ t, log s <+: log (update t s) := by
    intro t
    exact ⟨[], (List.append_nil _).trans (hupdate t s).symm⟩
  cases y (view s) with
  | ok a t => exact hsame t
  | error e t => exact hsame t

end Appends

/-! ## Two programs that end the same way -/

/-- Both runs return the same value, or both throw; either way the states they
reach are related by `R`. The exceptions themselves may differ. -/
def Agree (R : σ → σ → Prop) : EStateM.Result ε σ α → EStateM.Result ε σ α → Prop
  | .ok a s, .ok b t => a = b ∧ R s t
  | .error _ s, .error _ t => R s t
  | _, _ => False

section Agreement

variable {R : σ → σ → Prop} {s t : σ}

/-- Sequencing of agreeing programs. -/
theorem agree_bind {x y : EStateM ε σ α} {f g : α → EStateM ε σ β}
    (hxy : Agree R (x s) (y t))
    (hfg : ∀ a s' t', x s = .ok a s' → y t = .ok a t' → R s' t' → Agree R (f a s') (g a t')) :
    Agree R ((x >>= f) s) ((y >>= g) t) := by
  cases hx : x s with
  | ok a s' =>
    cases hy : y t with
    | ok b t' =>
      rw [hx, hy] at hxy
      rcases hxy with ⟨rfl, hR⟩
      rw [bind_ok hx, bind_ok hy]
      exact hfg a s' t' hx hy hR
    | error e t' =>
      rw [hx, hy] at hxy
      exact hxy.elim
  | error e s' =>
    cases hy : y t with
    | ok b t' =>
      rw [hx, hy] at hxy
      exact hxy.elim
    | error e' t' =>
      rw [hx, hy] at hxy
      rw [bind_error hx, bind_error hy]
      exact hxy

/-- Programs that agree on a part of the state agree on the whole, if the rest
stays related. -/
theorem agree_zoom_of {T : τ → τ → Prop} {view : σ → τ} {update : τ → σ → σ} {x y : EStateM ε τ α}
    (hxy : Agree T (x (view s)) (y (view t))) (hupdate : ∀ r r', T r r' → R (update r s) (update r' t)) :
    Agree R (zoom view update x s) (zoom view update y t) := by
  cases hx : x (view s) with
  | ok a r =>
    cases hy : y (view t) with
    | ok b r' =>
      rw [hx, hy] at hxy
      rcases hxy with ⟨rfl, hT⟩
      rw [zoom_ok hx, zoom_ok hy]
      exact ⟨rfl, hupdate r r' hT⟩
    | error e r' =>
      rw [hx, hy] at hxy
      exact hxy.elim
  | error e r =>
    cases hy : y (view t) with
    | ok b r' =>
      rw [hx, hy] at hxy
      exact hxy.elim
    | error e' r' =>
      rw [hx, hy] at hxy
      rw [zoom_error hx, zoom_error hy]
      exact hupdate r r' hxy

/-- The same if the part is the same in both. -/
theorem agree_zoom {view : σ → τ} {update : τ → σ → σ} {x y : EStateM ε τ α}
    (hview : view s = view t) (hupdate : ∀ r, R (update r s) (update r t))
    (hxy : Agree Eq (x (view s)) (y (view s))) :
    Agree R (zoom view update x s) (zoom view update y t) := by
  apply agree_zoom_of (T := Eq) (hview ▸ hxy)
  rintro r _ rfl
  exact hupdate r

theorem agree_self (r : EStateM.Result ε σ α) : Agree Eq r r := by
  cases r with
  | ok a s => exact ⟨rfl, rfl⟩
  | error e s => rfl

theorem agree_ok {a : α} (h : R s t) :
    Agree R (.ok a s : EStateM.Result ε σ α) (.ok a t) :=
  ⟨rfl, h⟩

/-- A computation that leaves the state alone, the same one on both sides. -/
theorem agree_ofExcept_bind {x : Except ε α} {f g : α → EStateM ε σ β} (h : R s t)
    (hfg : ∀ a, x = .ok a → Agree R (f a s) (g a t)) :
    Agree R (((ofExcept x : EStateM ε σ α) >>= f) s) (((ofExcept x : EStateM ε σ α) >>= g) t) := by
  cases x with
  | ok a => exact hfg a rfl
  | error e => exact h

/-- The same check on both sides; the exceptions may differ. -/
theorem agree_ensure_bind {p : Prop} [Decidable p] {e e' : ε} {f g : Unit → EStateM ε σ β} (h : R s t)
    (hfg : p → Agree R (f () s) (g () t)) :
    Agree R (((ensure p e : EStateM ε σ Unit) >>= f) s)
      (((ensure p e' : EStateM ε σ Unit) >>= g) t) := by
  by_cases hp : p
  · rw [bind_ok (ensure_true hp _ _), bind_ok (ensure_true hp _ _)]
    exact hfg hp
  · rw [bind_error (ensure_false hp _ _), bind_error (ensure_false hp _ _)]
    exact h

end Agreement

/-! ## Calls that go on after exceptions -/

/-- Make one call after the other, also after one has thrown: what each call
has returned, and the state in the end. -/
def attempts {ι : Type} (f : ι → EStateM ε σ α) : List ι → σ → List (Except ε α) × σ
  | [], s => ([], s)
  | i :: is, s =>
    match f i s with
    | .ok a s' => (.ok a :: (attempts f is s').1, (attempts f is s').2)
    | .error e s' => (.error e :: (attempts f is s').1, (attempts f is s').2)

section Attempts

variable {ι : Type} {f : ι → EStateM ε σ α} {i : ι} {is : List ι} {s s' : σ} {a : α} {e : ε}

theorem attempts_ok (h : f i s = .ok a s') :
    attempts f (i :: is) s = (.ok a :: (attempts f is s').1, (attempts f is s').2) := by
  simp only [attempts, h]

theorem attempts_error (h : f i s = .error e s') :
    attempts f (i :: is) s = (.error e :: (attempts f is s').1, (attempts f is s').2) := by
  simp only [attempts, h]

/-- Only the first call sees the state that calls start from. -/
theorem attempts_congr {t : σ} (h : ∀ i, f i s = f i t) (hne : is ≠ []) :
    attempts f is s = attempts f is t := by
  rcases List.exists_cons_of_ne_nil hne with ⟨i, is, rfl⟩
  simp only [attempts, h]

/-- Outcomes that are values wherever other outcomes are. -/
theorem map_toOption_ok {rs : List (Except ε α)} :
    ∀ {outs : List α}, rs.map Except.toOption = (outs.map (.ok : α → Except ε α)).map Except.toOption →
      rs = outs.map .ok := by
  induction rs with
  | nil =>
    intro outs h
    cases outs with
    | nil => rfl
    | cons out outs => cases h
  | cons r rs ih =>
    intro outs h
    cases outs with
    | nil => cases h
    | cons out outs =>
      rcases List.cons.inj h with ⟨hhead, htail⟩
      cases r with
      | ok a =>
        rw [ih htail, Option.some.inj hhead]
        rfl
      | error e => cases hhead

/-- Calls none of which returns. -/
theorem attempts_throw {I : σ → Prop} (hstep : ∀ i s, I s → ∃ e s', f i s = .error e s' ∧ I s') :
    ∀ (is : List ι) (s : σ), I s →
      (attempts f is s).1.map Except.toOption = List.replicate is.length none := by
  intro is
  induction is with
  | nil =>
    intro s _
    rfl
  | cons i is ih =>
    intro s hs
    rcases hstep i s hs with ⟨e, s', hthrow, hs'⟩
    rw [attempts_error hthrow, List.map_cons, ih s' hs']
    rfl

/-- The results of the same calls, each with the state it has reached. -/
def results (f : ι → EStateM ε σ α) : List ι → σ → List (EStateM.Result ε σ α)
  | [], _ => []
  | i :: is, s => f i s :: results f is (finalState (f i s))

/-- Calls that do the same in every state have the same results. -/
theorem results_map {κ : Type} {g : κ → EStateM ε σ α} {h : ι → κ} (heq : ∀ i s, f i s = g (h i) s) :
    ∀ (is : List ι) (s : σ), results f is s = results g (is.map h) s := by
  intro is
  induction is with
  | nil =>
    intro s
    rfl
  | cons i is ih =>
    intro s
    rw [results, List.map_cons, results, ← heq, ih]

/-- Calls that hand out what is left of a finite supply, in pieces: among more calls than
the supply has elements one hands out nothing or throws. -/
theorem attempts_exhaust {β : Type} {f : ι → EStateM ε σ (List β)} {supply : σ → ℕ}
    (hstep : ∀ i s, Sat (f i s) (fun out s' => out.length + supply s' ≤ supply s) (fun _ _ => True)) :
    ∀ (is : List ι) (s : σ), supply s < is.length →
      ∃ r ∈ (attempts f is s).1, r = .ok [] ∨ ∃ e, r = .error e := by
  intro is
  induction is with
  | nil =>
    intro s hlt
    exact absurd hlt (Nat.not_lt_zero _)
  | cons i is ih =>
    intro s hlt
    rw [List.length_cons] at hlt
    have hnext := hstep i s
    cases hf : f i s with
    | error e s' =>
      rw [attempts_error hf]
      exact ⟨.error e, List.mem_cons_self, .inr ⟨e, rfl⟩⟩
    | ok out s' =>
      rw [attempts_ok hf]
      rw [hf, sat_ok] at hnext
      by_cases hnil : out = []
      · exact ⟨.ok out, List.mem_cons_self, .inl (congrArg _ hnil)⟩
      · have hpos := List.length_pos_iff.mpr hnil
        rcases ih s' (by omega) with ⟨r, hr, hends⟩
        exact ⟨r, List.mem_cons_of_mem _ hr, hends⟩

/-- What every call keeps, whether it returns or throws, holds in the end. -/
theorem attempts_invariant {I : σ → Prop}
    (hstep : ∀ i s, I s → Sat (f i s) (fun _ s' => I s') (fun _ s' => I s')) :
    ∀ (is : List ι) (s : σ), I s → I (attempts f is s).2 := by
  intro is
  induction is with
  | nil =>
    intro s hs
    exact hs
  | cons i is ih =>
    intro s hs
    have hnext := hstep i s hs
    cases hf : f i s with
    | ok a s' =>
      rw [attempts_ok hf]
      rw [hf, sat_ok] at hnext
      exact ih s' hnext
    | error e s' =>
      rw [attempts_error hf]
      rw [hf, sat_error] at hnext
      exact ih s' hnext

/-- The outputs of the calls in front of the first exception. -/
def returned {β : Type} : List (Except ε (List β)) → List β
  | [] => []
  | .ok out :: rs => out ++ returned rs
  | .error _ :: _ => []

/-- An invariant that speaks about all outputs so far, as long as no call throws. -/
theorem returned_invariant {β : Type} {f : ι → EStateM ε σ (List β)} {I : List β → σ → Prop}
    (hstep : ∀ i out s, I out s → Sat (f i s) (fun b s' => I (out ++ b) s') (fun _ _ => True)) :
    ∀ (is : List ι) (out : List β) (s : σ), I out s →
      ∃ s', I (out ++ returned (attempts f is s).1) s' := by
  intro is
  induction is with
  | nil =>
    intro out s hs
    refine ⟨s, ?_⟩
    show I (out ++ []) s
    rw [List.append_nil]
    exact hs
  | cons i is ih =>
    intro out s hs
    cases hf : f i s with
    | ok b s' =>
      have hnext : I (out ++ b) s' := (hstep i out s hs).of_ok hf
      rw [attempts_ok hf]
      show ∃ s'', I (out ++ (b ++ returned (attempts f is s').1)) s''
      rw [← List.append_assoc]
      exact ih (out ++ b) s' hnext
    | error e s' =>
      rw [attempts_error hf]
      refine ⟨s, ?_⟩
      show I (out ++ []) s
      rw [List.append_nil]
      exact hs

/-- The same for calls none of which throws, about the outputs one by one. -/
theorem returned_all {I : List α → σ → Prop} :
    ∀ (is : List ι) (outs₀ outs : List α) (s s' : σ),
      (∀ i ∈ is, ∀ outs s, I outs s → Sat (f i s) (fun a s' => I (outs ++ [a]) s') (fun _ _ => True)) →
      I outs₀ s → attempts f is s = (outs.map .ok, s') → I (outs₀ ++ outs) s' := by
  intro is
  induction is with
  | nil =>
    intro outs₀ outs s s' _ hs hrun
    rcases Prod.mk.inj hrun with ⟨houts, rfl⟩
    rw [List.map_eq_nil_iff.mp houts.symm, List.append_nil]
    exact hs
  | cons i is ih =>
    intro outs₀ outs s s' hstep hs hrun
    have hnext := hstep i List.mem_cons_self outs₀ s hs
    cases hf : f i s with
    | ok a s₁ =>
      rw [attempts_ok hf] at hrun
      rw [hf, sat_ok] at hnext
      cases outs with
      | nil => cases hrun
      | cons out outs =>
        rcases Prod.mk.inj hrun with ⟨houts, hend⟩
        rcases List.cons.inj houts with ⟨hout, hrest⟩
        obtain rfl := Except.ok.inj hout
        rw [List.append_cons]
        exact ih (outs₀ ++ [a]) outs s₁ s' (fun j hj => hstep j (List.mem_cons_of_mem _ hj)) hnext
          (Prod.ext hrest hend)
    -- a call that threw is not among the results
    | error e s₁ =>
      rw [attempts_error hf] at hrun
      cases outs with
      | nil => cases hrun
      | cons out outs => cases (List.cons.inj (Prod.mk.inj hrun).1).1

/-- `P` holds before each of the calls. -/
def BeforeEach (P : σ → Prop) (f : ι → EStateM ε σ α) : List ι → σ → Prop
  | [], _ => True
  | i :: is, s => P s ∧ BeforeEach P f is (finalState (f i s))

instance BeforeEach.decidable {P : σ → Prop} [DecidablePred P] :
    ∀ (is : List ι) (s : σ), Decidable (BeforeEach P f is s)
  | [], _ => .isTrue trivial
  | i :: is, s =>
    have := BeforeEach.decidable (P := P) is (finalState (f i s))
    inferInstanceAs (Decidable (_ ∧ _))

/-- `P` holds of each of the calls and the state it is made in. -/
def EachCall (P : ι → σ → Prop) (f : ι → EStateM ε σ α) : List ι → σ → Prop
  | [], _ => True
  | i :: is, s => P i s ∧ EachCall P f is (finalState (f i s))

/-- The calls that have returned. -/
def accepted (f : ι → EStateM ε σ α) : List ι → σ → List ι
  | [], _ => []
  | i :: is, s =>
    match f i s with
    | .ok _ s' => i :: accepted f is s'
    | .error _ s' => accepted f is s'

/-- Calls that agree one by one, from related states of which the second meets
`P`, agree in series. -/
theorem agree_attempts {R : σ → σ → Prop} {P : σ → Prop} {g : ι → EStateM ε σ α}
    (hstep : ∀ i s t, R s t → P t → Agree R (f i s) (g i t)) :
    ∀ (is : List ι) (s t : σ), R s t → BeforeEach P g is t →
      (attempts f is s).1.map Except.toOption = (attempts g is t).1.map Except.toOption ∧
        R (attempts f is s).2 (attempts g is t).2 := by
  intro is
  induction is with
  | nil =>
    intro s t hR _
    exact ⟨rfl, hR⟩
  | cons i is ih =>
    intro s t hR hP
    -- one pair of calls, then the rest of both runs
    have hcall := hstep i s t hR hP.1
    have hnext := hP.2
    cases hf : f i s with
    | ok a s' =>
      cases hg : g i t with
      | ok b t' =>
        rw [hf, hg] at hcall
        rw [hg] at hnext
        rcases hcall with ⟨rfl, hR'⟩
        rcases ih s' t' hR' hnext with ⟨hsame, hend⟩
        rw [attempts_ok hf, attempts_ok hg]
        exact ⟨congrArg (List.cons (some a)) hsame, hend⟩
      | error e t' =>
        rw [hf, hg] at hcall
        exact hcall.elim
    | error e s' =>
      cases hg : g i t with
      | ok b t' =>
        rw [hf, hg] at hcall
        exact hcall.elim
      | error e' t' =>
        rw [hf, hg] at hcall
        rw [hg] at hnext
        rcases ih s' t' hcall hnext with ⟨hsame, hend⟩
        rw [attempts_error hf, attempts_error hg]
        exact ⟨congrArg (List.cons none) hsame, hend⟩

end Attempts

end Outcome

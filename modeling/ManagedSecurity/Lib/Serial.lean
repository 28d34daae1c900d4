import Mathlib.Data.Int.Notation
import ManagedSecurity.Lib.Outcome

/-! # Writing fields one after the other, and reading them back

A serializer appends to an output with limited room, a parser consumes an input from
the front. Both are programs with state and exceptions, and all that is known of their
states is an `Output` or an `Input` view.

* `Appends`: with enough room the program returns and has appended these elements;
* `Consumes`: where the input starts with these elements, the program returns this
  value and leaves what is behind them;
* `Appends.each`, `Consumes.collect`: a sequence of fields, from what holds of one;
* `written_attempts`: a series of calls some of which fail, and leave what is written alone;
* `Decoder`: what the front of an input is worth, as a function; `Decodes` says that a
  program computes it, and throws where it has no value.
-/

namespace Serial

open Outcome

variable {σ ρ ε α β γ ι κ : Type}

/-- What a writer shows: the elements written so far and the room behind them. -/
structure Output (σ β : Type) where
  Valid : σ → Prop
  written : σ → List β
  room : σ → ℕ

/-- What a reader shows: the elements it has not read. -/
structure Input (ρ β : Type) where
  Valid : ρ → Prop
  rest : ρ → List β

/-- Write a sequence. -/
def each (write : ι → EStateM ε σ Unit) : List ι → EStateM ε σ Unit
  | [] => pure ()
  | i :: is => do
    write i
    each write is

/-- Read a sequence of fields of known kinds. -/
def collect (read : κ → EStateM ε ρ α) : List κ → EStateM ε ρ (List α)
  | [] => pure []
  | k :: ks => do
    let a ← read k
    let as ← collect read ks
    pure (a :: as)

/-! ## Appending -/

section

variable {W : Output σ β} {x y : EStateM ε σ Unit} {bs cs : List β}

/-- The program writes `bs`. -/
def Appends (W : Output σ β) (x : EStateM ε σ Unit) (bs : List β) : Prop :=
  ∀ s, W.Valid s → bs.length ≤ W.room s →
    ∃ s', x s = .ok () s' ∧ W.Valid s' ∧ W.written s' = W.written s ++ bs ∧
      W.room s = bs.length + W.room s'

theorem appends_pure : Appends W (pure () : EStateM ε σ Unit) [] := by
  intro s hs _
  exact ⟨s, rfl, hs, (List.append_nil _).symm, (Nat.zero_add _).symm⟩

theorem Appends.seq (hx : Appends W x bs) (hy : Appends W y cs) :
    Appends W (x >>= fun _ => y) (bs ++ cs) := by
  intro s hs hroom
  rw [List.length_append] at hroom
  rcases hx s hs (by omega) with ⟨s₁, hrun₁, hs₁, hwritten₁, hroom₁⟩
  rcases hy s₁ hs₁ (by omega) with ⟨s₂, hrun₂, hs₂, hwritten₂, hroom₂⟩
  refine ⟨s₂, ?_, hs₂, ?_, ?_⟩
  · rw [bind_ok hrun₁, hrun₂]
  · rw [hwritten₂, hwritten₁, List.append_assoc]
  · rw [List.length_append]
    omega

/-- Fields one after the other. -/
theorem Appends.each {write : ι → EStateM ε σ Unit} {encode : ι → List β}
    (h : ∀ i, Appends W (write i) (encode i)) :
    ∀ is : List ι, Appends W (each write is) (is.flatMap encode) := by
  intro is
  induction is with
  | nil => exact appends_pure
  | cons i is ih =>
    rw [List.flatMap_cons]
    exact (h i).seq ih

/-- Calls that append their field or throw: as long as those that throw leave what has been
written alone, it consists of the fields of those that have returned. -/
theorem written_attempts {write : ι → EStateM ε σ Unit} {encode : ι → List β} {P : ι → σ → Prop}
    (hstep : ∀ i s, W.Valid s →
      Sat (write i s) (fun _ s' => W.Valid s' ∧ W.written s' = W.written s ++ encode i)
        (fun _ s' => W.Valid s' ∧ (P i s → W.written s' = W.written s))) :
    ∀ (is : List ι) (s : σ), W.Valid s → EachCall P write is s →
      W.written (attempts write is s).2 = W.written s ++ (accepted write is s).flatMap encode := by
  intro is
  induction is with
  | nil =>
    intro s _ _
    exact (List.append_nil _).symm
  | cons i is ih =>
    intro s hs hP
    have hcall := hstep i s hs
    have hnext := hP.2
    cases hf : write i s with
    | ok u s' =>
      rw [hf, sat_ok] at hcall
      rw [hf] at hnext
      rw [attempts_ok hf, accepted, hf, ih s' hcall.1 hnext, hcall.2, List.flatMap_cons,
        List.append_assoc]
    | error e s' =>
      rw [hf, sat_error] at hcall
      rw [hf] at hnext
      rw [attempts_error hf, accepted, hf, ih s' hcall.1 hnext, hcall.2 hP.1]

end

/-! ## Consuming -/

section

variable {R : Input ρ β} {y : EStateM ε ρ α} {bs cs : List β} {a : α}

/-- The program reads `bs` as `a`. -/
def Consumes (R : Input ρ β) (y : EStateM ε ρ α) (bs : List β) (a : α) : Prop :=
  ∀ r tail, R.Valid r → R.rest r = bs ++ tail →
    ∃ r', y r = .ok a r' ∧ R.Valid r' ∧ R.rest r' = tail

theorem consumes_pure : Consumes R (pure a : EStateM ε ρ α) [] a := by
  intro r tail hr hrest
  exact ⟨r, rfl, hr, hrest⟩

theorem Consumes.bind {f : α → EStateM ε ρ γ} {c : γ} (hy : Consumes R y bs a)
    (hf : Consumes R (f a) cs c) : Consumes R (y >>= f) (bs ++ cs) c := by
  intro r tail hr hrest
  rw [List.append_assoc] at hrest
  rcases hy r (cs ++ tail) hr hrest with ⟨r₁, hrun₁, hr₁, hrest₁⟩
  rcases hf r₁ tail hr₁ hrest₁ with ⟨r₂, hrun₂, hr₂, hrest₂⟩
  refine ⟨r₂, ?_, hr₂, hrest₂⟩
  rw [bind_ok hrun₁, hrun₂]

/-- A value that is computed from what has been read. -/
theorem Consumes.map (hy : Consumes R y bs a) (f : α → γ) :
    Consumes R (y >>= fun a => pure (f a)) bs (f a) := by
  have h := hy.bind (f := fun a => pure (f a)) consumes_pure
  rwa [List.append_nil] at h

/-- Fields one after the other. -/
theorem Consumes.collect {read : κ → EStateM ε ρ α} {encode : α → List β} {kind : α → κ}
    (h : ∀ a, Consumes R (read (kind a)) (encode a) a) :
    ∀ as : List α, Consumes R (collect read (as.map kind)) (as.flatMap encode) as := by
  intro as
  induction as with
  | nil => exact consumes_pure
  | cons a as ih =>
    rw [List.map_cons, List.flatMap_cons]
    exact (h a).bind (ih.map (a :: ·))

end

/-! ## Decoders -/

/-- A decoder looks at the front of what is left: a value and the number of elements it has
taken, or nothing. -/
abbrev Decoder (β α : Type) := List β → Option (α × ℕ)

namespace Decoder

/-- No element is needed. -/
def value (a : α) : Decoder β α := fun _ => some (a, 0)

/-- Nothing can be made of the front. -/
def none : Decoder β α := fun _ => Option.none

/-- The next `n` elements, if there are that many. -/
def cut (n : ℤ) : Decoder β (List β) := fun xs =>
  if 0 ≤ n ∧ n ≤ xs.length then some (xs.take n.toNat, n.toNat) else Option.none

/-- One decoder behind the other. -/
def andThen (d : Decoder β α) (f : α → Decoder β γ) : Decoder β γ := fun xs =>
  match d xs with
  | Option.none => Option.none
  | some (a, n) =>
    match f a (xs.drop n) with
    | Option.none => Option.none
    | some (c, m) => some (c, n + m)

/-- The value is that of the elements taken, whatever is behind them. -/
def Local (d : Decoder β α) : Prop :=
  ∀ xs a n, d xs = some (a, n) → n ≤ xs.length ∧ ∀ ys, d (xs.take n ++ ys) = some (a, n)

variable {d : Decoder β α} {f : α → Decoder β γ}

theorem andThen_some {xs : List β} {c : γ} {k : ℕ} (h : andThen d f xs = some (c, k)) :
    ∃ a n m, d xs = some (a, n) ∧ f a (xs.drop n) = some (c, m) ∧ k = n + m := by
  unfold andThen at h
  cases hd : d xs with
  | none =>
    rw [hd] at h
    cases h
  | some first =>
    rcases first with ⟨a, n⟩
    rw [hd] at h
    cases hf : f a (xs.drop n) with
    | none =>
      simp only [hf] at h
      cases h
    | some second =>
      rcases second with ⟨c', m⟩
      simp only [hf, Option.some.injEq, Prod.mk.injEq] at h
      rcases h with ⟨rfl, rfl⟩
      exact ⟨a, n, m, rfl, hf, rfl⟩

theorem andThen_eq {xs : List β} {a : α} {n : ℕ} (hd : d xs = some (a, n)) :
    andThen d f xs = (f a (xs.drop n)).map fun second => (second.1, n + second.2) := by
  simp only [andThen, hd]
  cases f a (xs.drop n) with
  | none => rfl
  | some second => rfl

/-- A value adds nothing to what has been read. -/
theorem andThen_value : andThen d value = d := by
  funext xs
  cases hd : d xs with
  | none => simp only [andThen, hd]
  | some first => exact andThen_eq hd

theorem local_value (a : α) : Local (value a : Decoder β α) := by
  rintro xs a' n h
  rcases Prod.mk.inj (Option.some.inj h) with ⟨rfl, rfl⟩
  exact ⟨Nat.zero_le _, fun _ => rfl⟩

theorem local_none : Local (none : Decoder β α) := by
  intro xs a n h
  cases h

theorem local_cut (n : ℤ) : Local (cut n : Decoder β (List β)) := by
  intro xs bytes k h
  unfold cut at h
  split_ifs at h with hfit
  rcases Prod.mk.inj (Option.some.inj h) with ⟨rfl, rfl⟩
  have htake : (xs.take n.toNat).length = n.toNat := List.length_take_of_le (by omega)
  refine ⟨by omega, ?_⟩
  intro ys
  rw [cut, if_pos (by rw [List.length_append, htake]; omega), List.take_left' htake]

theorem local_andThen (hd : Local d) (hf : ∀ a, Local (f a)) : Local (andThen d f) := by
  intro xs c k h
  rcases andThen_some h with ⟨a, n, m, hfirst, hsecond, rfl⟩
  rcases hd xs a n hfirst with ⟨hn, hfirst'⟩
  rcases hf a (xs.drop n) c m hsecond with ⟨hm, hsecond'⟩
  rw [List.length_drop] at hm
  refine ⟨by omega, ?_⟩
  intro ys
  have htake : (xs.take n).length = n := List.length_take_of_le hn
  have hsplit : xs.take (n + m) ++ ys = xs.take n ++ ((xs.drop n).take m ++ ys) := by
    rw [List.take_add, List.append_assoc]
  rw [hsplit, andThen_eq (hfirst' _), List.drop_left' htake, hsecond' ys]
  rfl

end Decoder

section

variable {R : Input ρ β} {x : EStateM ε ρ α} {d : Decoder β α}

/-- What is left behind a call. -/
structure Input.Leaves (R : Input ρ β) (r r' : ρ) (n : ℕ) : Prop where
  valid : R.Valid r'
  rest : R.rest r' = (R.rest r).drop n

/-- The program computes what the decoder says of the front of the input. Where that is
nothing it throws, with some of the input read. -/
def Decodes (R : Input ρ β) (x : EStateM ε ρ α) (d : Decoder β α) : Prop :=
  ∀ r, R.Valid r →
    (∀ a n, d (R.rest r) = some (a, n) → ∃ r', x r = .ok a r' ∧ R.Leaves r r' n) ∧
      (d (R.rest r) = none → ∃ e r', x r = .error e r' ∧ ∃ n, R.Leaves r r' n)

theorem decodes_pure (a : α) : Decodes R (pure a : EStateM ε ρ α) (Decoder.value a) := by
  intro r hr
  constructor
  · intro a' n h
    rcases Prod.mk.inj (Option.some.inj h) with ⟨rfl, rfl⟩
    exact ⟨r, rfl, hr, rfl⟩
  · intro h
    cases h

theorem Decodes.bind {f : α → EStateM ε ρ γ} {g : α → Decoder β γ} (hx : Decodes R x d)
    (hf : ∀ a, Decodes R (f a) (g a)) : Decodes R (x >>= f) (d.andThen g) := by
  intro r hr
  rcases hx r hr with ⟨hsome, hnone⟩
  cases hd : d (R.rest r) with
  | none =>
    constructor
    · intro c k h
      simp only [Decoder.andThen, hd] at h
      cases h
    · intro _
      rcases hnone hd with ⟨e, r', hrun, hleft⟩
      exact ⟨e, r', bind_error hrun, hleft⟩
  | some first =>
    rcases first with ⟨a, n⟩
    rcases hsome a n hd with ⟨r₁, hrun, hr₁, hrest₁⟩
    rcases hf a r₁ hr₁ with ⟨hsome', hnone'⟩
    rw [Decoder.andThen_eq hd, ← hrest₁]
    -- what the second part leaves is behind what the first one has taken
    have hleaves : ∀ {r' m}, R.Leaves r₁ r' m → R.Leaves r r' (n + m) := by
      intro r' m h
      refine ⟨h.valid, ?_⟩
      rw [h.rest, hrest₁, List.drop_drop]
    constructor
    · intro c k h
      rcases Option.map_eq_some_iff.mp h with ⟨⟨c', m⟩, hg, heq⟩
      rcases Prod.mk.inj heq with ⟨rfl, rfl⟩
      rcases hsome' c' m hg with ⟨r', hrun', hleft⟩
      exact ⟨r', (bind_ok hrun).trans hrun', hleaves hleft⟩
    · intro h
      rcases hnone' (Option.map_eq_none_iff.mp h) with ⟨e, r', hrun', m, hleft⟩
      exact ⟨e, r', (bind_ok hrun).trans hrun', n + m, hleaves hleft⟩

/-- A value computed from what has been read. -/
theorem Decodes.map {γ : Type} (hx : Decodes R x d) (f : α → γ) :
    Decodes R (x >>= fun a => pure (f a)) (d.andThen fun a => Decoder.value (f a)) :=
  hx.bind fun a => decodes_pure (f a)

/-- A call leaves a suffix of the input, whether it returns or throws. -/
theorem Decodes.leaves (hx : Decodes R x d) {r : ρ} (hr : R.Valid r) :
    ∃ n, R.Leaves r (finalState (x r)) n := by
  rcases hx r hr with ⟨hsome, hnone⟩
  cases hd : d (R.rest r) with
  | none =>
    rcases hnone hd with ⟨e, r', hrun, n, hleft⟩
    rw [hrun]
    exact ⟨n, hleft⟩
  | some first =>
    rcases hsome first.1 first.2 hd with ⟨r', hrun, hleft⟩
    rw [hrun]
    exact ⟨first.2, hleft⟩

/-- So does a series of calls, whichever of them throw. -/
theorem Decodes.leaves_attempts {read : ι → EStateM ε ρ α} {decoder : ι → Decoder β α}
    (hread : ∀ i, Decodes R (read i) (decoder i)) {r₀ : ρ} (hr₀ : R.Valid r₀) (is : List ι) :
    ∃ n, R.Leaves r₀ (attempts read is r₀).2 n := by
  have hstart : ∃ n, R.Leaves r₀ r₀ n := ⟨0, hr₀, rfl⟩
  refine attempts_invariant (I := fun r => ∃ n, R.Leaves r₀ r n) ?_ is r₀ hstart
  intro i r h
  rcases h with ⟨n, hn⟩
  rcases (hread i).leaves hn.valid with ⟨m, hm⟩
  have hnext : R.Leaves r₀ (finalState (read i r)) (n + m) := by
    refine ⟨hm.valid, ?_⟩
    rw [hm.rest, hn.rest, List.drop_drop]
  cases hrun : read i r with
  | ok a r' =>
    rw [hrun] at hnext
    exact ⟨n + m, hnext⟩
  | error e r' =>
    rw [hrun] at hnext
    exact ⟨n + m, hnext⟩

end

end Serial

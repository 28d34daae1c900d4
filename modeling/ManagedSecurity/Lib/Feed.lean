import ManagedSecurity.Lib.Outcome
import ManagedSecurity.Lib.Framing

/-! # Serving requests out of frames that are fetched one by one

A feed holds what is left of the current frame and the frames behind it. A
request is served from the current frame alone; when it asks for more than is
left there, the next frame is fetched before the request returns. What comes
behind the last frame is either the end or a failure.

* `Feed.pull`: one request;
* `Serves`: a program that answers requests as the feed does;
* `Serves.delivers`: in front of an end, any requests hand out the content;
* `Serves.drain`: so do requests up to the first that hands out nothing;
* `ServedAs.breaks`: in front of a failure, the requests up to it hand out a part
  of the content, and all of it exactly if the frames are cut as `CutsExactly`
  says: a request that asks for more than is left of the last frame loses it.
-/

open Outcome

variable {α : Type} {ε σ : Type}

/-- What is left of the current frame, and the frames behind it. -/
structure Feed (α : Type) where
  buffered : List α
  left : List (List α)

namespace Feed

/-- Everything that is left. -/
def content (f : Feed α) : List α := f.buffered ++ f.left.flatten

/-- One request for `count` elements; `ends` tells whether the end or a failure
comes behind the last frame. Nothing is the outcome of a request that fails. -/
def pull (ends : Bool) (count : ℕ) : List α → List (List α) → Option (List α × Feed α)
  | [], [] => if ends then some ([], ⟨[], []⟩) else none
  | [], p :: ps => pull ends count p ps
  | x :: xs, left =>
    if count ≤ (x :: xs).length then
      some ((x :: xs).take count, ⟨(x :: xs).drop count, left⟩)
    else
      match left with
      | [] => if ends then some (x :: xs, ⟨[], []⟩) else none
      | p :: ps => some (x :: xs, ⟨p, ps⟩)

/-- A request that the current frame can serve. -/
theorem pull_of_le {ends : Bool} {count : ℕ} {buffered : List α} (left : List (List α))
    (hne : buffered ≠ []) (hle : count ≤ buffered.length) :
    pull ends count buffered left = some (buffered.take count, ⟨buffered.drop count, left⟩) := by
  rcases List.exists_cons_of_ne_nil hne with ⟨x, xs, rfl⟩
  cases left with
  | nil => exact if_pos hle
  | cons p ps => exact if_pos hle

/-- What a request takes from the current frame is not empty. -/
theorem take_cons_ne_nil {count : ℕ} (hcount : 0 < count) (x : α) (xs : List α) :
    (x :: xs).take count ≠ [] := by
  intro hnil
  have hlen := congrArg List.length hnil
  rw [List.length_take, List.length_nil, List.length_cons] at hlen
  omega

/-- In front of an end every request returns, the front of what is left. -/
theorem pull_ends {count : ℕ} (hcount : 0 < count) :
    ∀ (left : List (List α)) (buffered : List α), ∃ out f',
      pull true count buffered left = some (out, f') ∧
      buffered ++ left.flatten = out ++ f'.content ∧
      (out = [] → f' = ⟨[], []⟩) ∧ out.length ≤ count := by
  intro left
  -- on the pieces still to come, whatever is buffered
  induction left with
  | nil =>
    intro buffered
    cases buffered with
    | nil => exact ⟨[], ⟨[], []⟩, rfl, rfl, fun _ => rfl, Nat.zero_le _⟩
    | cons x xs =>
      by_cases hle : count ≤ (x :: xs).length
      · refine ⟨_, _, pull_of_le [] (List.cons_ne_nil x xs) hle, ?_,
          fun hnil => absurd hnil (take_cons_ne_nil hcount x xs), List.length_take_le _ _⟩
        simp only [content, List.flatten_nil, List.append_nil, List.take_append_drop]
      · refine ⟨x :: xs, ⟨[], []⟩, if_neg hle, rfl, fun hnil => ?_, by omega⟩
        cases hnil
  | cons p ps ih =>
    intro buffered
    cases buffered with
    | nil =>
      rcases ih p with ⟨out, f', hpull, hcontent, hempty, hlen⟩
      exact ⟨out, f', hpull, hcontent, hempty, hlen⟩
    | cons x xs =>
      by_cases hle : count ≤ (x :: xs).length
      · refine ⟨_, _, pull_of_le (p :: ps) (List.cons_ne_nil x xs) hle, ?_,
          fun hnil => absurd hnil (take_cons_ne_nil hcount x xs), List.length_take_le _ _⟩
        rw [content, ← List.append_assoc, List.take_append_drop]
      · refine ⟨x :: xs, ⟨p, ps⟩, if_neg hle, rfl, fun hnil => ?_, by omega⟩
        cases hnil

/-! ## Programs that answer requests -/

/-- In state `s` the program answers its next request as the feed does, and is
then in a state that `R` relates to what the feed has become. -/
def ServedAs (ends : Bool) (R : σ → Feed α → Prop) (g : ℕ → EStateM ε σ (List α)) (s : σ)
    (f : Feed α) : Prop :=
  ∀ count, 0 < count →
    match pull ends count f.buffered f.left with
    | some (out, f') => ∃ s', g count s = .ok out s' ∧ R s' f'
    | none => ∃ e s', g count s = .error e s'

/-- The program answers requests as the feeds do that `R` relates to its states. -/
def Serves (ends : Bool) (R : σ → Feed α → Prop) (g : ℕ → EStateM ε σ (List α)) : Prop :=
  ∀ s f, R s f → ServedAs ends R g s f

variable {R : σ → Feed α → Prop} {g : ℕ → EStateM ε σ (List α)}

/-- In front of an end, requests of any sizes hand out the content, and none of
them throws; nothing is left behind a request that hands out nothing. -/
theorem Serves.delivers (h : Serves true R g) :
    ∀ (sizes : List ℕ) (s : σ) (f : Feed α), (∀ n ∈ sizes, 0 < n) → R s f →
      ∃ outs s' f', attempts g sizes s = (outs.map .ok, s') ∧ R s' f' ∧
        Delivers f.content outs ∧ List.Forall₂ (fun out n => out.length ≤ n) outs sizes ∧
        (f = ⟨[], []⟩ ∨ outs.getLast? = some [] → f' = ⟨[], []⟩) := by
  intro sizes
  induction sizes with
  | nil =>
    intro s f _ hR
    exact ⟨[], s, f, rfl, hR, trivial, List.Forall₂.nil, fun h => h.resolve_right (by simp)⟩
  | cons n sizes ih =>
    intro s f hpos hR
    have hn : 0 < n := hpos n List.mem_cons_self
    rcases pull_ends hn f.left f.buffered with ⟨out, f₁, hpull, hcontent, hempty, hlen⟩
    have hserved := h s f hR n hn
    rw [hpull] at hserved
    rcases hserved with ⟨s₁, hrun, hR₁⟩
    obtain ⟨outs, s', f', hrest, hR', hdel, hlens, hend⟩ :=
      ih s₁ f₁ (fun m hm => hpos m (List.mem_cons_of_mem _ hm)) hR₁
    -- a call gives nothing only at the very end
    have hnothing : out = [] → buffered f ++ f.left.flatten = [] := by
      intro hnil
      rw [hcontent, hnil, hempty hnil]
      rfl
    refine ⟨out :: outs, s', f', ?_, hR', ⟨f₁.content, hcontent, hnothing, hdel⟩,
      List.Forall₂.cons hlen hlens, ?_⟩
    · rw [attempts_ok hrun, hrest]
      rfl
    · rintro (rfl | hlast)
      · rcases Prod.mk.inj (Option.some.inj hpull) with ⟨-, rfl⟩
        exact hend (Or.inl rfl)
      · cases outs with
        | nil => exact hend (Or.inl (hempty (Option.some.inj hlast)))
        | cons out' outs =>
          rw [List.getLast?_cons_cons] at hlast
          exact hend (Or.inr hlast)

/-- Requests for `count` elements up to one that hands out nothing; `exhausted` is thrown
when the fuel is not enough for that. -/
def drain (g : ℕ → EStateM ε σ (List α)) (count : ℕ) (exhausted : ε) : ℕ → EStateM ε σ (List α)
  | 0 => throw exhausted
  | fuel + 1 => do
    let out ← g count
    if out.isEmpty then
      return []
    else do
      let rest ← drain g count exhausted fuel
      return out ++ rest

/-- In front of an end this is the content, with more fuel than there are elements. -/
theorem Serves.drain (h : Serves true R g) {count : ℕ} (exhausted : ε) (hcount : 0 < count) :
    ∀ (fuel : ℕ) (s : σ) (f : Feed α), R s f → f.content.length < fuel →
      ∃ s', Feed.drain g count exhausted fuel s = .ok f.content s' := by
  intro fuel
  induction fuel with
  | zero =>
    intro s f _ hlt
    exact absurd hlt (Nat.not_lt_zero _)
  | succ fuel ih =>
    intro s f hR hlt
    rcases pull_ends hcount f.left f.buffered with ⟨out, f', hpull, hcontent, hempty, -⟩
    have hserved := h s f hR count hcount
    rw [hpull] at hserved
    rcases hserved with ⟨s₁, hrun, hR'⟩
    replace hcontent : f.content = out ++ f'.content := hcontent
    rw [Feed.drain, bind_ok hrun]
    by_cases hnil : out = []
    · refine ⟨s₁, ?_⟩
      rw [hcontent, hempty hnil, hnil]
      rfl
    · have hpos : 0 < out.length := List.length_pos_of_ne_nil hnil
      rw [hcontent, List.length_append] at hlt
      rcases ih s₁ f' hR' (by omega) with ⟨s', hrest⟩
      refine ⟨s', ?_⟩
      rw [if_neg (fun hout => hnil (List.isEmpty_iff.mp hout)), bind_ok hrest, hcontent]
      rfl

/-- In front of a failure a request that returns hands out something. -/
theorem pull_fails {count : ℕ} (hcount : 0 < count) :
    ∀ (left : List (List α)) (buffered out : List α) (f' : Feed α),
      pull false count buffered left = some (out, f') →
      out ≠ [] ∧ buffered ++ left.flatten = out ++ f'.content := by
  intro left
  induction left with
  | nil =>
    intro buffered out f' hpull
    cases buffered with
    | nil => cases hpull
    | cons x xs =>
      by_cases hle : count ≤ (x :: xs).length
      · rw [pull_of_le [] (List.cons_ne_nil x xs) hle, Option.some.injEq, Prod.mk.injEq] at hpull
        rcases hpull with ⟨rfl, rfl⟩
        constructor
        · exact take_cons_ne_nil hcount x xs
        · rw [content, ← List.append_assoc, List.take_append_drop]
      -- too few are buffered and the source fails: the call has no result
      · have hnone : pull false count (x :: xs) [] = none := if_neg hle
        rw [hnone] at hpull
        cases hpull
  | cons p ps ih =>
    intro buffered out f' hpull
    cases buffered with
    | nil => exact ih p out f' hpull
    | cons x xs =>
      by_cases hle : count ≤ (x :: xs).length
      · rw [pull_of_le (p :: ps) (List.cons_ne_nil x xs) hle, Option.some.injEq, Prod.mk.injEq] at hpull
        rcases hpull with ⟨rfl, rfl⟩
        constructor
        · exact take_cons_ne_nil hcount x xs
        · rw [content, ← List.append_assoc, List.take_append_drop]
      · have hnext : pull false count (x :: xs) (p :: ps) = some (x :: xs, ⟨p, ps⟩) := if_neg hle
        rw [hnext, Option.some.injEq, Prod.mk.injEq] at hpull
        rcases hpull with ⟨rfl, rfl⟩
        exact ⟨List.cons_ne_nil x xs, rfl⟩

/-- In front of a failure, one of more requests than there are elements throws. -/
theorem Serves.throws (h : Serves false R g) :
    ∀ (sizes : List ℕ) (s : σ) (f : Feed α), (∀ n ∈ sizes, 0 < n) → f.content.length < sizes.length →
      R s f → ∀ outs : List (List α), (attempts g sizes s).1 ≠ outs.map .ok := by
  intro sizes
  induction sizes with
  | nil =>
    intro s f _ hlen
    exact absurd hlen (Nat.not_lt_zero _)
  | cons n sizes ih =>
    intro s f hpos hlen hR outs
    have hn : 0 < n := hpos n List.mem_cons_self
    have hserved := h s f hR n hn
    cases hpull : pull false n f.buffered f.left with
    | none =>
      rw [hpull] at hserved
      rcases hserved with ⟨e, s', hrun⟩
      rw [attempts_error hrun]
      cases outs with
      | nil => exact List.cons_ne_nil _ _
      | cons out outs =>
        intro heq
        cases (List.cons.inj heq).1
    | some r =>
      rcases r with ⟨out, f'⟩
      rw [hpull] at hserved
      rcases hserved with ⟨s', hrun, hR'⟩
      rcases pull_fails hn f.left f.buffered out f' hpull with ⟨hne, hcontent⟩
      -- every call that returns takes from the content, so the calls outlast it
      have hshort : f'.content.length < sizes.length := by
        have htotal := congrArg List.length hcontent
        have hout : 0 < out.length := List.length_pos_of_ne_nil hne
        have hwhole : f.content.length = (f.buffered ++ f.left.flatten).length := rfl
        rw [List.length_append, List.length_append] at htotal
        rw [List.length_append] at hwhole
        rw [List.length_cons] at hlen
        omega
      have hrest := ih s' f' (fun m hm => hpos m (List.mem_cons_of_mem _ hm)) hshort hR'
      rw [attempts_ok hrun]
      cases outs with
      | nil => exact List.cons_ne_nil _ _
      | cons o outs =>
        intro heq
        exact hrest outs (List.cons.inj heq).2

/-! ## In front of a failure -/

/-- The first `n` requests. -/
def requests (sizes : ℕ → ℕ) (n : ℕ) : List ℕ := (List.range n).map sizes

theorem requests_succ (sizes : ℕ → ℕ) (n : ℕ) :
    requests sizes (n + 1) = sizes 0 :: requests (fun j => sizes (j + 1)) n := by
  rw [requests, List.range_succ_eq_map, List.map_cons, List.map_map]
  rfl

/-- What the first `n` requests ask for together. -/
def total (sizes : ℕ → ℕ) (n : ℕ) : ℕ := (requests sizes n).sum

theorem total_zero (sizes : ℕ → ℕ) : total sizes 0 = 0 := rfl

theorem total_succ (sizes : ℕ → ℕ) (n : ℕ) :
    total sizes (n + 1) = sizes 0 + total (fun j => sizes (j + 1)) n := by
  rw [total, requests_succ, List.sum_cons, total]

/-- Requests are cut at the ends of frames of the given lengths; the one that
reaches the end of the last frame asks for exactly what is left of it. -/
def CutsExactly : (ℕ → ℕ) → List ℕ → Prop
  | _, [] => True
  | sizes, l :: ls => ∃ m, total sizes m < l ∧ l ≤ total sizes (m + 1) ∧
      (ls = [] → total sizes (m + 1) = l) ∧ CutsExactly (fun j => sizes (j + (m + 1))) ls

/-- By the first request: it stays inside the first frame, or it ends it. -/
theorem cutsExactly_cons {sizes : ℕ → ℕ} {l : ℕ} {ls : List ℕ} (hl : 0 < l) :
    CutsExactly sizes (l :: ls) ↔
      (sizes 0 < l ∧ CutsExactly (fun j => sizes (j + 1)) ((l - sizes 0) :: ls)) ∨
      (l ≤ sizes 0 ∧ (ls = [] → sizes 0 = l) ∧ CutsExactly (fun j => sizes (j + 1)) ls) := by
  constructor
  -- either the first call ends inside the first piece, or it takes all of it
  · rintro ⟨m, hlt, hle, hlast, hrest⟩
    rw [total_succ] at hle hlast
    cases m with
    | zero =>
      rw [total_zero, Nat.add_zero] at hle hlast
      exact Or.inr ⟨hle, hlast, hrest⟩
    | succ m =>
      rw [total_succ] at hlt
      refine Or.inl ⟨by omega, m, by omega, by omega, fun hnil => ?_, hrest⟩
      have hsum := hlast hnil
      omega
  · rintro (⟨hlt, m, hlt', hle', hlast, hrest⟩ | ⟨hle, hlast, hrest⟩)
    · refine ⟨m + 1, ?_, ?_, fun hnil => ?_, hrest⟩
      · rw [total_succ]
        omega
      · rw [total_succ]
        omega
      · have hsum := hlast hnil
        rw [total_succ]
        omega
    · refine ⟨0, hl, ?_, ?_, hrest⟩
      · rw [total_succ, total_zero]
        exact hle
      · rw [total_succ, total_zero]
        exact hlast

/-- The lengths of what is left of the current frame, if anything is, and of the
frames behind it. -/
def lengths (f : Feed α) : List ℕ :=
  (if f.buffered = [] then [] else [f.buffered.length]) ++ f.left.map List.length

theorem lengths_of_nil {left : List (List α)} : lengths ⟨[], left⟩ = left.map List.length := rfl

theorem lengths_of_ne {buffered : List α} {left : List (List α)} (h : buffered ≠ []) :
    lengths ⟨buffered, left⟩ = buffered.length :: left.map List.length := by
  rw [lengths, if_neg h]
  rfl

/-- The answers to the requests up to the first that throws. -/
def Breaks (g : ℕ → EStateM ε σ (List α)) (sizes : ℕ → ℕ) (s : σ) (outs : List (List α)) : Prop :=
  ∃ e s', attempts g (requests sizes (outs.length + 1)) s = (outs.map .ok ++ [.error e], s')

theorem breaks_error {sizes : ℕ → ℕ} {s s' : σ} {e : ε} (h : g (sizes 0) s = .error e s') :
    Breaks g sizes s [] := by
  refine ⟨e, s', ?_⟩
  rw [List.length_nil, requests_succ, attempts_error h]
  rfl

theorem breaks_ok {sizes : ℕ → ℕ} {s s' : σ} {out : List α} {outs : List (List α)}
    (h : g (sizes 0) s = .ok out s') (hrest : Breaks g (fun j => sizes (j + 1)) s' outs) :
    Breaks g sizes s (out :: outs) := by
  rcases hrest with ⟨e, s'', hrun⟩
  refine ⟨e, s'', ?_⟩
  rw [List.length_cons, requests_succ, attempts_ok h, hrun]
  rfl

/-- There is one first request that throws. -/
theorem Breaks.unique {outs : List (List α)} :
    ∀ {outs' : List (List α)} {sizes : ℕ → ℕ} {s : σ}, Breaks g sizes s outs → Breaks g sizes s outs' →
      outs = outs' := by
  -- the first request decides whether either list is empty
  have hinv : ∀ {outs : List (List α)} {sizes : ℕ → ℕ} {s : σ}, Breaks g sizes s outs →
      (outs = [] ∧ ∃ e s', g (sizes 0) s = .error e s') ∨
      ∃ out rest s', outs = out :: rest ∧ g (sizes 0) s = .ok out s' ∧
        Breaks g (fun j => sizes (j + 1)) s' rest := by
    rintro outs sizes s ⟨e, s', hrun⟩
    rw [requests_succ] at hrun
    cases hfirst : g (sizes 0) s with
    | ok a s₁ =>
      rw [attempts_ok hfirst, Prod.mk.injEq] at hrun
      cases outs with
      | nil => exact absurd hrun.1 (by simp)
      | cons out rest =>
        rcases List.cons.inj hrun.1 with ⟨hhead, htail⟩
        obtain rfl := Except.ok.inj hhead
        exact Or.inr ⟨a, rest, s₁, rfl, rfl, e, s', Prod.ext htail hrun.2⟩
    | error e₁ s₁ =>
      rw [attempts_error hfirst, Prod.mk.injEq] at hrun
      cases outs with
      | nil => exact Or.inl ⟨rfl, e₁, s₁, rfl⟩
      | cons out rest => exact absurd hrun.1 (by simp)
  induction outs with
  | nil =>
    intro outs' sizes s h h'
    rcases hinv h with ⟨-, e, s₁, hfirst⟩ | ⟨out, rest, s₁, hnil, -, -⟩
    · rcases hinv h' with ⟨rfl, -⟩ | ⟨out, rest, s₂, -, hfirst', -⟩
      · rfl
      · rw [hfirst] at hfirst'
        cases hfirst'
    · cases hnil
  | cons out outs ih =>
    intro outs' sizes s h h'
    rcases hinv h with ⟨hnil, -⟩ | ⟨o, rest, s₁, hcons, hfirst, hrest⟩
    · cases hnil
    · rcases List.cons.inj hcons with ⟨rfl, rfl⟩
      rcases hinv h' with ⟨-, e, s₂, hfirst'⟩ | ⟨o', rest', s₂, rfl, hfirst', hrest'⟩
      · rw [hfirst] at hfirst'
        cases hfirst'
      · rcases EStateM.Result.ok.inj (hfirst.symm.trans hfirst') with ⟨rfl, rfl⟩
        rw [ih hrest hrest']

/-- The answers in front of the first exception are a part of the content; they
are all of it exactly if the last frame is cut exactly. -/
def BreaksWithin (g : ℕ → EStateM ε σ (List α)) (sizes : ℕ → ℕ) (s : σ) (f : Feed α) : Prop :=
  ∃ outs, Breaks g sizes s outs ∧ outs.flatten <+: f.content ∧
    (outs.flatten = f.content ↔ CutsExactly sizes f.lengths)

/-- One answer more. -/
theorem BreaksWithin.cons {sizes : ℕ → ℕ} {s s' : σ} {out : List α} {f f' : Feed α}
    (h : BreaksWithin g (fun j => sizes (j + 1)) s' f') (hrun : g (sizes 0) s = .ok out s')
    (hcontent : f.content = out ++ f'.content)
    (hcuts : CutsExactly (fun j => sizes (j + 1)) f'.lengths ↔ CutsExactly sizes f.lengths) :
    BreaksWithin g sizes s f := by
  rcases h with ⟨outs, hbreaks, hpre, hiff⟩
  refine ⟨out :: outs, breaks_ok hrun hbreaks, ?_, ?_⟩
  · rw [hcontent, List.flatten_cons]
    exact (List.prefix_append_right_inj out).mpr hpre
  · rw [hcontent, List.flatten_cons, List.append_right_inj, hiff, hcuts]

/-- A request that stays inside the current frame, or ends it exactly. -/
theorem cutsExactly_inside {sizes : ℕ → ℕ} {buffered : List α} {left : List (List α)}
    (hpos : 0 < sizes 0) (hle : sizes 0 ≤ buffered.length) :
    CutsExactly (fun j => sizes (j + 1)) (lengths ⟨buffered.drop (sizes 0), left⟩) ↔
      CutsExactly sizes (lengths ⟨buffered, left⟩) := by
  have hlen : 0 < buffered.length := by omega
  rw [lengths_of_ne (List.ne_nil_of_length_pos hlen), cutsExactly_cons hlen]
  by_cases hend : sizes 0 = buffered.length
  · have hdrop : buffered.drop (sizes 0) = [] := List.drop_eq_nil_of_le (by omega)
    rw [hdrop, lengths_of_nil]
    constructor
    · intro hcuts
      exact Or.inr ⟨by omega, fun _ => hend, hcuts⟩
    · rintro (⟨hlt, -⟩ | ⟨-, -, hcuts⟩)
      · omega
      · exact hcuts
  · have hdrop : buffered.drop (sizes 0) ≠ [] := by
      intro hnil
      have hlen' := congrArg List.length hnil
      rw [List.length_drop, List.length_nil] at hlen'
      omega
    rw [lengths_of_ne hdrop, List.length_drop]
    constructor
    · intro hcuts
      exact Or.inl ⟨by omega, hcuts⟩
    · rintro (⟨-, hcuts⟩ | ⟨hge, -, -⟩)
      · exact hcuts
      · omega

/-- A request that goes past the current frame, which is not the last. -/
theorem cutsExactly_past {sizes : ℕ → ℕ} {buffered p : List α} {ps : List (List α)}
    (hne : buffered ≠ []) (hp : p ≠ []) (hlt : buffered.length < sizes 0) :
    CutsExactly (fun j => sizes (j + 1)) (lengths ⟨p, ps⟩) ↔
      CutsExactly sizes (lengths ⟨buffered, p :: ps⟩) := by
  rw [lengths_of_ne hne, lengths_of_ne hp, cutsExactly_cons (List.length_pos_of_ne_nil hne)]
  constructor
  · intro hcuts
    refine Or.inr ⟨by omega, fun hnil => ?_, hcuts⟩
    cases hnil
  · rintro (⟨hlt', -⟩ | ⟨-, -, hcuts⟩)
    · omega
    · exact hcuts

/-- A request for more than is left of the last frame. -/
theorem not_cutsExactly_last {sizes : ℕ → ℕ} {buffered : List α} (hne : buffered ≠ [])
    (hlt : buffered.length < sizes 0) : ¬ CutsExactly sizes (lengths ⟨buffered, []⟩) := by
  rw [lengths_of_ne hne, cutsExactly_cons (List.length_pos_of_ne_nil hne)]
  rintro (⟨hlt', -⟩ | ⟨-, hlast, -⟩)
  · omega
  · have hexact := hlast rfl
    omega

/-- Nothing is left, and the request throws. -/
theorem breaksWithin_nil {sizes : ℕ → ℕ} {s : σ} (hpos : 0 < sizes 0)
    (hserved : ServedAs false R g s ⟨[], []⟩) : BreaksWithin g sizes s ⟨[], []⟩ := by
  rcases hserved (sizes 0) hpos with ⟨e, s', hrun⟩
  exact ⟨[], breaks_error hrun, List.nil_prefix, iff_of_true rfl trivial⟩

/-- The first request, with something left of the current frame; `hrest` is the
same for whatever is left behind it. -/
theorem breaksWithin_buffered {sizes : ℕ → ℕ} {s : σ} {buffered : List α} {left : List (List α)}
    (hserves : Serves false R g) (hpos : 0 < sizes 0) (hne : buffered ≠ [])
    (hleft : ∀ p ∈ left, p ≠ []) (hserved : ServedAs false R g s ⟨buffered, left⟩)
    (hrest : ∀ (f : Feed α) (s' : σ), f.content.length < (content ⟨buffered, left⟩).length →
      (∀ p ∈ f.left, p ≠ []) → ServedAs false R g s' f →
      BreaksWithin g (fun j => sizes (j + 1)) s' f) :
    BreaksWithin g sizes s ⟨buffered, left⟩ := by
  have hfirst := hserved (sizes 0) hpos
  have hlen : 0 < buffered.length := List.length_pos_of_ne_nil hne
  by_cases hle : sizes 0 ≤ buffered.length
  · rw [pull_of_le left hne hle] at hfirst
    rcases hfirst with ⟨s₁, hrun, hR₁⟩
    have hsplit : content ⟨buffered, left⟩ =
        buffered.take (sizes 0) ++ content ⟨buffered.drop (sizes 0), left⟩ := by
      rw [content, content, ← List.append_assoc, List.take_append_drop]
    have hshorter : (content ⟨buffered.drop (sizes 0), left⟩).length <
        (content ⟨buffered, left⟩).length := by
      rw [hsplit, List.length_append, List.length_take]
      omega
    have hbehind := hrest ⟨buffered.drop (sizes 0), left⟩ s₁ hshorter hleft (hserves _ _ hR₁)
    exact hbehind.cons hrun hsplit (cutsExactly_inside hpos hle)
  · -- the request asks for more than is left: the next frame is fetched
    obtain ⟨x, xs, rfl⟩ := List.exists_cons_of_ne_nil hne
    cases left with
    | nil =>
      rw [show pull false (sizes 0) (x :: xs) [] = none from if_neg hle] at hfirst
      rcases hfirst with ⟨e, s', hrun⟩
      refine ⟨[], breaks_error hrun, List.nil_prefix, iff_of_false ?_ ?_⟩
      · intro hnil
        cases hnil
      · exact not_cutsExactly_last hne (by omega)
    | cons p ps =>
      rw [show pull false (sizes 0) (x :: xs) (p :: ps) = some (x :: xs, ⟨p, ps⟩) from
        if_neg hle] at hfirst
      rcases hfirst with ⟨s₁, hrun, hR₁⟩
      have hsplit : content ⟨x :: xs, p :: ps⟩ = (x :: xs) ++ content ⟨p, ps⟩ := rfl
      have hshorter : (content ⟨p, ps⟩).length < (content ⟨x :: xs, p :: ps⟩).length := by
        rw [hsplit, List.length_append]
        omega
      have hbehind := hrest ⟨p, ps⟩ s₁ hshorter
        (fun q hq => hleft q (List.mem_cons_of_mem _ hq)) (hserves _ _ hR₁)
      exact hbehind.cons hrun hsplit (cutsExactly_past hne (hleft p List.mem_cons_self) (by omega))

/-- In front of a failure, requests hand out a part of the content until one of
them throws; they hand out all of it exactly if the last frame is cut exactly. -/
theorem ServedAs.breaks (h : Serves false R g) :
    ∀ (n : ℕ) (f : Feed α) (s : σ) (sizes : ℕ → ℕ), f.content.length ≤ n → (∀ j, 0 < sizes j) →
      (∀ p ∈ f.left, p ≠ []) → ServedAs false R g s f → BreaksWithin g sizes s f := by
  intro n
  induction n with
  | zero =>
    rintro ⟨buffered, left⟩ s sizes hlen hpos hne hserved
    -- without content there is no frame left either
    have hnil : buffered ++ left.flatten = [] := List.eq_nil_of_length_eq_zero (by
      simpa [content] using hlen)
    rcases List.append_eq_nil_iff.mp hnil with ⟨rfl, hflat⟩
    cases left with
    | nil => exact breaksWithin_nil (hpos 0) hserved
    | cons p ps =>
      rw [List.flatten_cons] at hflat
      exact absurd (List.append_eq_nil_iff.mp hflat).1 (hne p List.mem_cons_self)
  | succ n ih =>
    rintro ⟨buffered, left⟩ s sizes hlen hpos hne hserved
    have hrest : ∀ (f : Feed α) (s' : σ), f.content.length < (content ⟨buffered, left⟩).length →
        (∀ p ∈ f.left, p ≠ []) → ServedAs false R g s' f →
        BreaksWithin g (fun j => sizes (j + 1)) s' f := by
      intro f s' hshorter hleft hserved'
      exact ih f s' _ (by omega) (fun j => hpos (j + 1)) hleft hserved'
    by_cases hbuffered : buffered = []
    swap
    · exact breaksWithin_buffered h (hpos 0) hbuffered hne hserved hrest
    subst hbuffered
    cases left with
    | nil => exact breaksWithin_nil (hpos 0) hserved
    | cons p ps =>
      -- a frame is fetched first, and the request goes on with it
      have hp : p ≠ [] := hne p List.mem_cons_self
      have hsame : BreaksWithin g sizes s ⟨p, ps⟩ := breaksWithin_buffered h (hpos 0) hp
        (fun q hq => hne q (List.mem_cons_of_mem _ hq)) hserved hrest
      rcases hsame with ⟨outs, hbreaks, hpre, hiff⟩
      rw [lengths_of_ne hp] at hiff
      exact ⟨outs, hbreaks, hpre, hiff⟩

/-- The answers before the first request that throws make up `data`. -/
def AnswersBefore (g : ℕ → EStateM ε σ (List α)) (sizes : ℕ → ℕ) (s : σ) (data : List α) : Prop :=
  ∃ outs, Breaks g sizes s outs ∧ outs.flatten = data

/-- There is a first request that throws, and whether the answers before it make
up `data` can be seen from them. -/
theorem Breaks.answersBefore_iff {sizes : ℕ → ℕ} {s : σ} {outs : List (List α)} {data : List α}
    (h : Breaks g sizes s outs) : AnswersBefore g sizes s data ↔ outs.flatten = data := by
  constructor
  · rintro ⟨outs', h', rfl⟩
    rw [h.unique h']
  · intro hflat
    exact ⟨outs, h, hflat⟩

end Feed

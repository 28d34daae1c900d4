import Mathlib.Data.List.Basic
import Mathlib.Tactic

/-! # Framing a sequence, and delivering it again

A framer cuts a sequence that arrives in pieces into frames of a fixed size,
with a shorter frame wherever it is flushed. On the other side, a consumer asks
for the sequence in pieces of any size.

* `Framer.push_of_lt`, `Framer.push_of_eq`: taking in as much as fits is the same
  as taking in one element after the other, however the data are grouped;
* `blocks` and `framed`: the frames of a sequence that is cut at the flushes, said
  without a framer (`Framer.push_eq_blocks` is the link), and `framed_at_cut`: the
  frame at a cut;
* `Framer.Inv` and `Framer.content`: what every framer reached from the empty
  one looks like, and that nothing is lost, added or reordered;
* `Delivers`: a list of results hands out a sequence from the front, and an
  empty result means that nothing is left.
-/

variable {α : Type*}

/-- A framer: the frames it has emitted and the elements that wait. -/
structure Framer (α : Type*) where
  frames : List (List α)
  pending : List α
deriving DecidableEq, Repr

namespace Framer

/-- The framer that has seen nothing. -/
def empty : Framer α := ⟨[], []⟩

/-- Emit what waits as one frame. -/
def emit (f : Framer α) : Framer α := ⟨f.frames ++ [f.pending], []⟩

/-- Take in one element; a full frame is emitted at once. -/
def push1 (c : ℕ) (f : Framer α) (x : α) : Framer α :=
  if f.pending.length + 1 = c then ⟨f.frames ++ [f.pending ++ [x]], []⟩
  else ⟨f.frames, f.pending ++ [x]⟩

/-- Take in a sequence. -/
def push (c : ℕ) (f : Framer α) (xs : List α) : Framer α := xs.foldl (push1 c) f

/-- Emit what waits, unless there is nothing. -/
def flush (f : Framer α) : Framer α := if f.pending = [] then f else f.emit

/-- All elements seen so far. -/
def content (f : Framer α) : List α := f.frames.flatten ++ f.pending

/-! ## Taking in several elements at once -/

@[simp] theorem push_nil (c : ℕ) (f : Framer α) : f.push c [] = f := rfl

theorem push_append (c : ℕ) (f : Framer α) (xs ys : List α) :
    f.push c (xs ++ ys) = (f.push c xs).push c ys :=
  List.foldl_append

/-- Elements that do not fill the frame are appended to what waits. -/
theorem push_of_lt {c : ℕ} (xs : List α) :
    ∀ f : Framer α, f.pending.length + xs.length < c → f.push c xs = ⟨f.frames, f.pending ++ xs⟩ := by
  induction xs with
  | nil =>
    intro f _
    rw [push_nil, List.append_nil]
  | cons x xs ih =>
    intro f hlt
    rw [List.length_cons] at hlt
    have hstep : f.push1 c x = ⟨f.frames, f.pending ++ [x]⟩ := if_neg (by omega)
    show (f.push1 c x).push c xs = _
    rw [hstep, ih _ (by simp only [List.length_append, List.length_singleton]; omega)]
    simp

/-- Elements that exactly fill the frame emit it. -/
theorem push_of_eq {c : ℕ} {xs : List α} {f : Framer α} (hne : xs ≠ [])
    (heq : f.pending.length + xs.length = c) :
    f.push c xs = ⟨f.frames ++ [f.pending ++ xs], []⟩ := by
  rcases List.eq_nil_or_concat xs |>.resolve_left hne with ⟨ys, y, rfl⟩
  rw [List.concat_eq_append] at heq ⊢
  rw [List.length_append, List.length_singleton] at heq
  rw [push_append, push_of_lt ys f (by omega)]
  show push1 c ⟨f.frames, f.pending ++ ys⟩ y = _
  rw [push1, if_pos (by simp only [List.length_append]; omega), List.append_assoc]

/-! ## What every reachable framer looks like -/

/-- Frames are not empty and at most `c` long; fewer than `c` elements wait. -/
structure Inv (c : ℕ) (f : Framer α) : Prop where
  pending : f.pending.length < c
  nonempty : ∀ p ∈ f.frames, p ≠ []
  bounded : ∀ p ∈ f.frames, p.length ≤ c

theorem inv_empty {c : ℕ} (hc : 0 < c) : (empty : Framer α).Inv c := by
  refine ⟨hc, ?_, ?_⟩
  · intro p hp
    cases hp
  · intro p hp
    cases hp

/-- One more frame of an allowed size. -/
theorem Inv.snoc {c : ℕ} {f : Framer α} (h : f.Inv c) {p : List α} (hne : p ≠ [])
    (hlen : p.length ≤ c) : (⟨f.frames ++ [p], []⟩ : Framer α).Inv c := by
  refine ⟨lt_of_le_of_lt (Nat.zero_le _) h.pending, ?_, ?_⟩
  · intro q hq
    rcases List.mem_append.mp hq with hq | hq
    · exact h.nonempty q hq
    · rw [List.mem_singleton.mp hq]
      exact hne
  · intro q hq
    rcases List.mem_append.mp hq with hq | hq
    · exact h.bounded q hq
    · rw [List.mem_singleton.mp hq]
      exact hlen

theorem Inv.push1 {c : ℕ} {f : Framer α} (h : f.Inv c) (x : α) : (f.push1 c x).Inv c := by
  have hp := h.pending
  unfold Framer.push1
  split
  · exact h.snoc (by simp) (by simp only [List.length_append, List.length_singleton]; omega)
  · refine ⟨?_, h.nonempty, h.bounded⟩
    simp only [List.length_append, List.length_singleton]
    omega

theorem Inv.push {c : ℕ} (xs : List α) : ∀ {f : Framer α}, f.Inv c → (f.push c xs).Inv c := by
  induction xs with
  | nil =>
    intro f h
    exact h
  | cons x xs ih =>
    intro f h
    exact ih (h.push1 x)

theorem Inv.flush {c : ℕ} {f : Framer α} (h : f.Inv c) : f.flush.Inv c := by
  unfold Framer.flush
  split
  · exact h
  · rename_i hne
    exact h.snoc hne (le_of_lt h.pending)

/-! ## Frames as blocks -/

/-- The consecutive blocks of `c` elements. -/
def fullBlocks (c : ℕ) (xs : List α) : List (List α) :=
  (List.range (xs.length / c)).map fun i => (xs.drop (i * c)).take c

/-- What is behind the last block of `c` elements. -/
def remainder (c : ℕ) (xs : List α) : List α := xs.drop (xs.length / c * c)

/-- The consecutive blocks of `c` elements, with a shorter last one. -/
def blocks (c : ℕ) (xs : List α) : List (List α) :=
  fullBlocks c xs ++ if remainder c xs = [] then [] else [remainder c xs]

/-- The frames of a sequence cut into segments: the blocks of each segment, where the
last one ends with a frame for its remainder, empty or not. -/
def framed (c : ℕ) : List (List α) → List (List α)
  | [] => []
  | [last] => fullBlocks c last ++ [remainder c last]
  | segment :: segments => blocks c segment ++ framed c segments

theorem framed_cons_cons (c : ℕ) (xs ys : List α) (segments : List (List α)) :
    framed c (xs :: ys :: segments) = blocks c xs ++ framed c (ys :: segments) := rfl

theorem fullBlocks_of_lt {c : ℕ} {xs : List α} (h : xs.length < c) : fullBlocks c xs = [] := by
  rw [fullBlocks, Nat.div_eq_of_lt h]
  rfl

theorem remainder_of_lt {c : ℕ} {xs : List α} (h : xs.length < c) : remainder c xs = xs := by
  rw [remainder, Nat.div_eq_of_lt h, Nat.zero_mul, List.drop_zero]

theorem div_length_append {c : ℕ} (hc : 0 < c) {xs ys : List α} (h : xs.length = c) :
    (xs ++ ys).length / c = ys.length / c + 1 := by
  rw [List.length_append, h, Nat.add_comm, Nat.add_div_right _ hc]

/-- The first block. -/
theorem fullBlocks_append {c : ℕ} (hc : 0 < c) {xs ys : List α} (h : xs.length = c) :
    fullBlocks c (xs ++ ys) = xs :: fullBlocks c ys := by
  have hshift : ∀ i, (xs ++ ys).drop ((i + 1) * c) = ys.drop (i * c) := by
    intro i
    rw [Nat.add_mul, Nat.one_mul, Nat.add_comm, ← List.drop_drop, List.drop_left' h]
  rw [fullBlocks, div_length_append hc h, List.range_succ_eq_map, List.map_cons, List.map_map]
  congr 1
  · rw [Nat.zero_mul, List.drop_zero, List.take_left' h]
  · refine List.map_congr_left fun i _ => ?_
    show ((xs ++ ys).drop ((i + 1) * c)).take c = _
    rw [hshift]

theorem remainder_append {c : ℕ} (hc : 0 < c) {xs ys : List α} (h : xs.length = c) :
    remainder c (xs ++ ys) = remainder c ys := by
  rw [remainder, div_length_append hc h, Nat.add_mul, Nat.one_mul, Nat.add_comm, ← List.drop_drop,
    List.drop_left' h, remainder]

theorem length_fullBlocks (c : ℕ) (xs : List α) : (fullBlocks c xs).length = xs.length / c := by
  rw [fullBlocks, List.length_map, List.length_range]

theorem length_remainder (c : ℕ) (xs : List α) : (remainder c xs).length = xs.length % c := by
  rw [remainder, List.length_drop, Nat.mod_eq_sub_div_mul]

theorem length_blocks (c : ℕ) (xs : List α) :
    (blocks c xs).length = xs.length / c + if xs.length % c = 0 then 0 else 1 := by
  have hnil : remainder c xs = [] ↔ xs.length % c = 0 := by
    rw [← length_remainder, List.length_eq_zero_iff]
  rw [blocks, List.length_append, length_fullBlocks]
  by_cases hzero : xs.length % c = 0
  · rw [if_pos (hnil.mpr hzero), if_pos hzero]
    rfl
  · rw [if_neg (fun h => hzero (hnil.mp h)), if_neg hzero]
    rfl

/-- The first frame of a segment with something in it. -/
theorem head_framed {c : ℕ} (hc : 0 < c) {xs : List α} (hne : xs ≠ []) (segments : List (List α)) :
    (framed c (xs :: segments))[0]? = some (xs.take c) := by
  by_cases hlt : xs.length < c
  · have hwhole : xs.take c = xs := List.take_of_length_le (by omega)
    rw [hwhole]
    cases segments with
    | nil =>
      rw [framed, fullBlocks_of_lt hlt, remainder_of_lt hlt]
      rfl
    | cons segment segments =>
      rw [framed_cons_cons, blocks, fullBlocks_of_lt hlt, remainder_of_lt hlt, if_neg hne]
      rfl
  · have hfirst : (xs.take c).length = c := by
      rw [List.length_take]
      omega
    have hfull : fullBlocks c xs = xs.take c :: fullBlocks c (xs.drop c) := by
      rw [← fullBlocks_append hc hfirst, List.take_append_drop]
    cases segments with
    | nil =>
      rw [framed, hfull]
      rfl
    | cons segment segments =>
      rw [framed_cons_cons, blocks, hfull]
      rfl

/-- The frame behind the full blocks of a segment: its remainder, or the first frame of
the next one. -/
theorem framed_at_cut {c : ℕ} (hc : 0 < c) (xs : List α) {ys : List α} (hne : ys ≠ [])
    (segments : List (List α)) :
    (framed c (xs :: ys :: segments))[xs.length / c]? =
      some (if remainder c xs = [] then ys.take c else remainder c xs) := by
  rw [framed_cons_cons, blocks, ← length_fullBlocks, List.append_assoc, List.getElem?_append_right le_rfl,
    Nat.sub_self]
  split_ifs
  · exact head_framed hc hne segments
  · rfl

/-- The frames behind those of the first segment. -/
theorem framed_behind (c : ℕ) (xs ys : List α) (segments : List (List α)) (i : ℕ) :
    (framed c (xs :: ys :: segments))[(blocks c xs).length + i]? = (framed c (ys :: segments))[i]? := by
  rw [framed_cons_cons, List.getElem?_append_right (Nat.le_add_right _ _), Nat.add_sub_cancel_left]

/-- A framer in which nothing waits takes a sequence in block by block. -/
theorem push_eq_blocks {c : ℕ} (hc : 0 < c) :
    ∀ (n : ℕ) (frames : List (List α)) (xs : List α), xs.length / c = n →
      (⟨frames, []⟩ : Framer α).push c xs = ⟨frames ++ fullBlocks c xs, remainder c xs⟩ := by
  intro n
  -- on the number of full blocks
  induction n with
  | zero =>
    intro frames xs hn
    have hlt : xs.length < c := (Nat.div_eq_zero_iff_lt hc).mp hn
    rw [fullBlocks_of_lt hlt, remainder_of_lt hlt, List.append_nil,
      push_of_lt xs ⟨frames, []⟩ (by rw [List.length_nil]; omega), List.nil_append]
  | succ n ih =>
    intro frames xs hn
    have hle : c ≤ xs.length := by
      by_contra hlt
      rw [Nat.div_eq_of_lt (by omega)] at hn
      omega
    have hfirst : (xs.take c).length = c := by
      rw [List.length_take, Nat.min_eq_left hle]
    have hrest : (xs.drop c).length / c = n := by
      have hdiv : (xs.take c ++ xs.drop c).length / c = (xs.drop c).length / c + 1 :=
        div_length_append hc hfirst
      rw [List.take_append_drop] at hdiv
      omega
    have hne : xs.take c ≠ [] := List.ne_nil_of_length_pos (by omega)
    conv_lhs => rw [← List.take_append_drop c xs]
    conv_rhs => rw [← List.take_append_drop c xs]
    rw [push_append, push_of_eq hne (by rw [List.length_nil]; omega), ih _ _ hrest,
      fullBlocks_append hc hfirst, remainder_append hc hfirst]
    simp

/-- Flushing ends a segment. -/
theorem flush_push_eq_blocks {c : ℕ} (hc : 0 < c) (frames : List (List α)) (xs : List α) :
    ((⟨frames, []⟩ : Framer α).push c xs).flush = ⟨frames ++ blocks c xs, []⟩ := by
  rw [push_eq_blocks hc _ frames xs rfl, flush, blocks]
  split_ifs with hnil
  · rw [List.append_nil]
    exact congrArg (Framer.mk _) hnil
  · rw [emit, List.append_assoc]

/-- So does the end of the sequence, whatever waits. -/
theorem emit_push_eq_blocks {c : ℕ} (hc : 0 < c) (frames : List (List α)) (xs : List α) :
    ((⟨frames, []⟩ : Framer α).push c xs).emit.frames = frames ++ framed c [xs] := by
  rw [push_eq_blocks hc _ frames xs rfl, emit, framed, List.append_assoc]

/-! ## How many frames -/

/-- Every `c` elements make a frame. -/
theorem length_push {c : ℕ} (xs : List α) : ∀ {f : Framer α}, f.pending.length < c →
    (f.push c xs).frames.length = f.frames.length + (f.pending.length + xs.length) / c ∧
      (f.push c xs).pending.length = (f.pending.length + xs.length) % c := by
  induction xs with
  | nil =>
    intro f hlt
    rw [push_nil, List.length_nil, Nat.add_zero, Nat.div_eq_of_lt hlt, Nat.mod_eq_of_lt hlt]
    exact ⟨rfl, rfl⟩
  | cons x xs ih =>
    intro f hlt
    have hpos : 0 < c := lt_of_le_of_lt (Nat.zero_le _) hlt
    have hstep : f.push c (x :: xs) = (f.push1 c x).push c xs := rfl
    by_cases hfull : f.pending.length + 1 = c
    · -- a frame is complete: one multiple of `c` is used up
      have hpush : f.push1 c x = ⟨f.frames ++ [f.pending ++ [x]], []⟩ := if_pos hfull
      rcases ih (f := ⟨f.frames ++ [f.pending ++ [x]], []⟩) hpos with ⟨hframes, hpending⟩
      have hsum : f.pending.length + (x :: xs).length = xs.length + c := by
        rw [List.length_cons]
        omega
      rw [hstep, hpush, hframes, hpending, hsum, Nat.add_div_right _ hpos, Nat.add_mod_right]
      simp only [List.length_append, List.length_singleton, List.length_nil, Nat.zero_add]
      exact ⟨by omega, trivial⟩
    · have hpush : f.push1 c x = ⟨f.frames, f.pending ++ [x]⟩ := if_neg hfull
      obtain ⟨hframes, hpending⟩ := ih (f := ⟨f.frames, f.pending ++ [x]⟩)
        (by simp only [List.length_append, List.length_singleton]; omega)
      have hsum : f.pending.length + (x :: xs).length = (f.pending ++ [x]).length + xs.length := by
        rw [List.length_append, List.length_singleton, List.length_cons]
        omega
      rw [hstep, hpush, hframes, hpending, hsum]
      exact ⟨rfl, rfl⟩

theorem length_flush (f : Framer α) :
    f.flush.frames.length = f.frames.length + (if f.pending.length = 0 then 0 else 1) ∧
      f.flush.pending.length = 0 := by
  by_cases hnil : f.pending = []
  · rw [flush, if_pos hnil, hnil]
    exact ⟨rfl, rfl⟩
  · rw [flush, if_neg hnil, if_neg (fun h => hnil (List.eq_nil_of_length_eq_zero h)), emit]
    simp

/-! ## Nothing is lost -/

@[simp] theorem content_emit (f : Framer α) : f.emit.content = f.content := by
  simp [content, emit]

theorem content_push1 (c : ℕ) (f : Framer α) (x : α) :
    (f.push1 c x).content = f.content ++ [x] := by
  unfold push1
  split
  · simp [content]
  · simp [content]

@[simp] theorem content_push (c : ℕ) (xs : List α) :
    ∀ f : Framer α, (f.push c xs).content = f.content ++ xs := by
  induction xs with
  | nil => intro f; simp
  | cons x xs ih =>
    intro f
    show ((f.push1 c x).push c xs).content = _
    rw [ih, content_push1, List.append_assoc, List.singleton_append]

@[simp] theorem content_flush (f : Framer α) : f.flush.content = f.content := by
  unfold flush
  split
  · rfl
  · exact content_emit f

/-! ## Frames are only ever appended -/

theorem prefix_push1 (c : ℕ) (f : Framer α) (x : α) : f.frames <+: (f.push1 c x).frames := by
  unfold push1
  split
  · exact List.prefix_append _ _
  · exact List.prefix_rfl

theorem prefix_push (c : ℕ) (xs : List α) :
    ∀ f : Framer α, f.frames <+: (f.push c xs).frames := by
  induction xs with
  | nil => intro f; exact List.prefix_rfl
  | cons x xs ih =>
    intro f
    exact (prefix_push1 c f x).trans (ih (f.push1 c x))

theorem prefix_flush (f : Framer α) : f.frames <+: f.flush.frames := by
  unfold flush
  split
  · exact List.prefix_rfl
  · exact List.prefix_append _ _

theorem prefix_emit (f : Framer α) : f.frames <+: f.emit.frames := List.prefix_append _ _

end Framer

/-! ## Delivery -/

/-- The results `outs` hand out `data` from the front, and are empty only when
nothing of it is left. -/
def Delivers : List α → List (List α) → Prop
  | _, [] => True
  | data, out :: outs => ∃ rest, data = out ++ rest ∧ (out = [] → data = []) ∧ Delivers rest outs

namespace Delivers

theorem nil_iff {outs : List (List α)} : Delivers [] outs ↔ ∀ out ∈ outs, out = [] := by
  induction outs with
  | nil => simp [Delivers]
  | cons out outs ih =>
    constructor
    · rintro ⟨rest, hsplit, -, hrest⟩
      rcases List.append_eq_nil_iff.mp hsplit.symm with ⟨rfl, rfl⟩
      intro o ho
      rcases List.mem_cons.mp ho with rfl | ho
      · rfl
      · exact ih.mp hrest o ho
    · intro h
      have hout : out = [] := h out List.mem_cons_self
      refine ⟨[], by rw [hout, List.append_nil], fun _ => rfl, ih.mpr ?_⟩
      intro o ho
      exact h o (List.mem_cons_of_mem _ ho)

/-- More requests than there are elements hand out everything, and the last one
is empty. -/
theorem flatten_eq : ∀ {outs : List (List α)} {data : List α}, Delivers data outs →
    data.length < outs.length → outs.flatten = data ∧ outs.getLast? = some [] := by
  intro outs
  induction outs with
  | nil =>
    intro data _ hlen
    exact absurd hlen (Nat.not_lt_zero _)
  | cons out outs ih =>
    rintro data ⟨rest, rfl, hempty, hrest⟩ hlen
    rcases outs with _ | ⟨out', outs⟩
    · -- a single request for no data at all
      have hnil : out ++ rest = [] := List.eq_nil_of_length_eq_zero (by
        simp only [List.length_cons, List.length_nil] at hlen
        omega)
      rcases List.append_eq_nil_iff.mp hnil with ⟨rfl, rfl⟩
      exact ⟨rfl, rfl⟩
    · by_cases hout : out = []
      · have hdata := hempty hout
        rcases List.append_eq_nil_iff.mp hdata with ⟨rfl, rfl⟩
        have hall := nil_iff.mp hrest
        constructor
        · simp only [List.flatten_cons, List.nil_append]
          have hout' := hall out' List.mem_cons_self
          rw [hout', List.nil_append, List.flatten_eq_nil_iff.mpr
            (fun o ho => hall o (List.mem_cons_of_mem _ ho))]
        · rw [List.getLast?_cons_cons]
          have hlast := List.getLast_mem (List.cons_ne_nil out' outs)
          rw [List.getLast?_eq_some_getLast (List.cons_ne_nil out' outs), hall _ hlast]
      · have hpos : 0 < out.length := List.length_pos_of_ne_nil hout
        obtain ⟨hflat, hlast⟩ := ih hrest (by
          simp only [List.length_append, List.length_cons] at hlen ⊢
          omega)
        refine ⟨by rw [List.flatten_cons, hflat], ?_⟩
        rw [List.getLast?_cons_cons]
        exact hlast

end Delivers

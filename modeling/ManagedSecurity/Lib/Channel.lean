import Mathlib.Data.List.Infix
import Mathlib.Tactic.Common

/-! # A bounded channel that drops its oldest item

What is written to a full channel takes the place of the oldest item, so that the writer never
waits and the reader gets the latest items.

* `Carries.tryWrite`, `Carries.tryRead`: what waits is the end of what was written, and what was
  read is in front of it;
* `Keeps.tryWrite`, `Keeps.tryRead`: where there is always room, nothing is lost.
-/

/-- `Channel<T>` with `BoundedChannelFullMode.DropOldest`. -/
structure Channel (α : Type) where
  capacity : ℕ
  items : List α
  completed : Bool
deriving DecidableEq, Repr

namespace Channel

variable {α : Type}

/-- `CreateBounded`. -/
def createBounded (capacity : ℕ) : Channel α := ⟨capacity, [], false⟩

/-- `TryWrite`. -/
def tryWrite (c : Channel α) (item : α) : Channel α :=
  if c.completed then c
  else if c.items.length < c.capacity then { c with items := c.items ++ [item] }
  else { c with items := c.items.tail ++ [item] }

/-- The next item, if there is one. -/
def tryRead (c : Channel α) : Option (α × Channel α) :=
  match c.items with
  | [] => none
  | item :: items => some (item, { c with items := items })

/-- `TryComplete`. -/
def complete (c : Channel α) : Channel α := { c with completed := true }

/-- The channel against what was written to it and what was read from it. -/
structure Carries (c : Channel α) (written taken : List α) : Prop where
  bounded : c.items.length ≤ c.capacity
  latest : c.items <:+ written
  inOrder : (taken ++ c.items).Sublist written

/-- Nothing has been lost. -/
def Keeps (c : Channel α) (written taken : List α) : Prop := taken ++ c.items = written

section

variable {c c' : Channel α} {written taken : List α} {item : α}

theorem carries_createBounded (capacity : ℕ) : (createBounded capacity : Channel α).Carries [] [] :=
  ⟨Nat.zero_le _, List.nil_suffix, List.nil_sublist []⟩

@[simp] theorem capacity_tryWrite : (c.tryWrite item).capacity = c.capacity := by
  unfold tryWrite
  split_ifs
  · rfl
  · rfl
  · rfl

@[simp] theorem completed_tryWrite : (c.tryWrite item).completed = c.completed := by
  unfold tryWrite
  split_ifs
  · rfl
  · rfl
  · rfl

theorem tryRead_eq_some (h : c.tryRead = some (item, c')) :
    c.items = item :: c'.items ∧ c'.capacity = c.capacity ∧ c'.completed = c.completed := by
  unfold tryRead at h
  cases hitems : c.items with
  | nil =>
    rw [hitems] at h
    cases h
  | cons first rest =>
    rw [hitems] at h
    cases h
    exact ⟨rfl, rfl, rfl⟩

/-- One more item: it comes behind those that wait, and the oldest one of them goes if there is
no room. -/
theorem items_tryWrite (hopen : c.completed = false) :
    (c.tryWrite item).items =
      (if c.items.length < c.capacity then c.items else c.items.tail) ++ [item] := by
  have hnot : ¬ c.completed = true := by
    rw [hopen]
    exact Bool.false_ne_true
  unfold tryWrite
  rw [if_neg hnot]
  split_ifs
  · rfl
  · rfl

theorem Carries.tryWrite (h : c.Carries written taken) (hopen : c.completed = false)
    (hcapacity : 0 < c.capacity) (item : α) :
    (c.tryWrite item).Carries (written ++ [item]) taken := by
  -- what stays is the end of what was there
  obtain ⟨stays, hitems, hsuffix, hroom⟩ : ∃ stays, (c.tryWrite item).items = stays ++ [item] ∧
      stays <:+ c.items ∧ stays.length < c.capacity := by
    refine ⟨_, items_tryWrite hopen, ?_, ?_⟩
    · split_ifs with hroom
      · exact List.suffix_rfl
      · exact List.tail_suffix c.items
    · split_ifs with hroom
      · exact hroom
      · have hbounded := h.bounded
        rw [List.length_tail]
        omega
  constructor
  · rw [hitems, capacity_tryWrite, List.length_append, List.length_singleton]
    exact hroom
  · rcases hsuffix.trans h.latest with ⟨front, rfl⟩
    rw [hitems]
    exact ⟨front, (List.append_assoc front stays [item]).symm⟩
  · have hsublist : (taken ++ stays).Sublist written :=
      (hsuffix.sublist.append_left taken).trans h.inOrder
    rw [hitems, ← List.append_assoc]
    exact hsublist.append_right [item]

theorem Carries.tryRead (h : c.Carries written taken) (hread : c.tryRead = some (item, c')) :
    c'.Carries written (taken ++ [item]) := by
  obtain ⟨hitems, hcapacity, -⟩ := tryRead_eq_some hread
  have hbounded := h.bounded
  have hlatest := h.latest
  have hinOrder := h.inOrder
  rw [hitems] at hbounded hlatest hinOrder
  constructor
  · rw [hcapacity]
    exact (Nat.le_succ _).trans hbounded
  · exact (List.suffix_cons item c'.items).trans hlatest
  · rw [List.append_assoc, List.singleton_append]
    exact hinOrder

theorem Keeps.tryWrite (h : c.Keeps written taken) (hopen : c.completed = false)
    (hroom : c.items.length < c.capacity) (item : α) :
    (c.tryWrite item).Keeps (written ++ [item]) taken := by
  rw [Keeps, items_tryWrite hopen, if_pos hroom, ← List.append_assoc, h]

theorem Keeps.tryRead (h : c.Keeps written taken) (hread : c.tryRead = some (item, c')) :
    c'.Keeps written (taken ++ [item]) := by
  obtain ⟨hitems, -, -⟩ := tryRead_eq_some hread
  rw [Keeps, List.append_assoc, List.singleton_append, ← hitems]
  exact h

end

end Channel

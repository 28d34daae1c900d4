import ManagedSecurity.Lib.Dictionary
import Mathlib.Algebra.Order.BigOperators.Group.List
import Mathlib.Data.List.DropRight
import Mathlib.Data.List.Perm.Subperm
import Mathlib.Data.List.TakeWhile
import Mathlib.Tactic

/-! # Texts of fields

A text of fields has separators between its fields, and a sign between the key and the
value of each. The reader skips what is empty, ends the key at the first sign, and removes
the blanks around key and value. There is no way to write a separator that is none.

* `fields_join`: with plain keys, fields without separators come back, trimmed;
* `fields_value`: the value of a field that is read has no separators and is trimmed;
* `fields_part`: key and value are parts of the text;
* `sum_size_le`: different fields that are read have room in the text.
-/

/-- Separator, sign and blanks of a text of fields. -/
structure Punctuation (α : Type) where
  separator : α
  sign : α
  blank : α → Bool
  separator_ne_sign : separator ≠ sign

namespace Punctuation

variable {α : Type}

section

variable (P : Punctuation α)

/-- What is left without the blanks at both ends. -/
def trim (xs : List α) : List α := (xs.dropWhile P.blank).rdropWhile P.blank

/-- There are no blanks at either end. -/
def Trimmed (xs : List α) : Prop :=
  (∀ x ∈ xs.head?, P.blank x = false) ∧ ∀ x ∈ xs.getLast?, P.blank x = false

instance (xs : List α) : Decidable (P.Trimmed xs) :=
  inferInstanceAs (Decidable (_ ∧ _))

/-- A field as it is written. -/
def write (field : List α × List α) : List α := field.1 ++ P.sign :: field.2

/-- Fields as they are written. -/
def join (fields : List (List α × List α)) : List α := [P.separator].intercalate (fields.map P.write)

/-- What a written field takes. -/
def size (field : List α × List α) : ℕ := field.1.length + 1 + field.2.length

variable [DecidableEq α]

/-- What is between the separators, if anything. -/
def parts (text : List α) : List (List α) := (text.splitOn P.separator).filter (· ≠ [])

/-- The field of a part, if it has a sign behind its first character. -/
def read (part : List α) : Option (List α × List α) :=
  match part.idxOf? P.sign with
  | none => none
  | some i => if 0 < i then some (P.trim (part.take i), P.trim (part.drop (i + 1))) else none

/-- The fields of a text. -/
def fields (text : List α) : List (List α × List α) := (P.parts text).filterMap P.read

/-- A key that is read as it is written. -/
structure PlainKey (key : List α) : Prop where
  nonempty : key ≠ []
  separator : P.separator ∉ key
  sign : P.sign ∉ key
  trimmed : P.Trimmed key

/-- A value that is read as it is written. -/
structure PlainValue (value : List α) : Prop where
  separator : P.separator ∉ value
  trimmed : P.Trimmed value

instance (key : List α) : Decidable (P.PlainKey key) :=
  decidable_of_iff (key ≠ [] ∧ P.separator ∉ key ∧ P.sign ∉ key ∧ P.Trimmed key)
    ⟨fun h => ⟨h.1, h.2.1, h.2.2.1, h.2.2.2⟩, fun h => ⟨h.nonempty, h.separator, h.sign, h.trimmed⟩⟩

instance (value : List α) : Decidable (P.PlainValue value) :=
  decidable_of_iff (P.separator ∉ value ∧ P.Trimmed value)
    ⟨fun h => ⟨h.1, h.2⟩, fun h => ⟨h.separator, h.trimmed⟩⟩

end

section

variable {P : Punctuation α} {xs text part key value : List α}

/-! ## Blanks -/

theorem length_trim_le (xs : List α) : (P.trim xs).length ≤ xs.length :=
  (List.rdropWhile_prefix P.blank _).length_le.trans (List.dropWhile_sublist _).length_le

theorem trim_part (xs : List α) : P.trim xs <:+: xs :=
  (List.rdropWhile_prefix P.blank _).isInfix.trans (List.dropWhile_suffix P.blank).isInfix

theorem dropWhile_trimmed : xs.dropWhile P.blank = xs ↔ ∀ x ∈ xs.head?, P.blank x = false := by
  cases xs with
  | nil => simp
  | cons x xs => simp [List.dropWhile_eq_self_iff]

theorem rdropWhile_trimmed : xs.rdropWhile P.blank = xs ↔ ∀ x ∈ xs.getLast?, P.blank x = false := by
  rw [List.rdropWhile_eq_self_iff]
  constructor
  · intro h x hx
    rcases List.getLast?_eq_some_iff.mp hx with ⟨front, rfl⟩
    have hlast := h (by simp)
    rw [List.getLast_concat] at hlast
    exact Bool.eq_false_iff.mpr hlast
  · intro h hne hblank
    rw [h _ (List.getLast?_eq_getLast_of_ne_nil hne)] at hblank
    cases hblank

theorem trim_eq_self : P.trim xs = xs ↔ P.Trimmed xs := by
  constructor
  · intro h
    have hdrop : xs.dropWhile P.blank = xs := by
      apply (List.dropWhile_suffix P.blank).eq_of_length
      apply Nat.le_antisymm (List.dropWhile_sublist _).length_le
      calc xs.length = (P.trim xs).length := by rw [h]
        _ ≤ (xs.dropWhile P.blank).length := (List.rdropWhile_prefix P.blank _).length_le
    rw [trim, hdrop] at h
    exact ⟨dropWhile_trimmed.mp hdrop, rdropWhile_trimmed.mp h⟩
  · rintro ⟨hfront, hback⟩
    rw [trim, dropWhile_trimmed.mpr hfront, rdropWhile_trimmed.mpr hback]

theorem trimmed_trim (xs : List α) : P.Trimmed (P.trim xs) := by
  constructor
  · intro x hx
    -- the front of what is left is the front of what was left before its end was trimmed
    rcases List.rdropWhile_prefix P.blank (xs.dropWhile P.blank) with ⟨rest, hrest⟩
    have htrim : ((xs.dropWhile P.blank).rdropWhile P.blank).head? = some x := hx
    have hfront : (xs.dropWhile P.blank).head? = some x := by
      rw [← hrest, List.head?_append, htrim, Option.some_or]
    have hnot := List.head?_dropWhile_not P.blank xs
    rw [hfront] at hnot
    exact hnot
  · exact rdropWhile_trimmed.mp (List.rdropWhile_idempotent P.blank (xs.dropWhile P.blank))

variable [DecidableEq α]

/-! ## Fields that are read -/

theorem read_write {front back : List α} (hne : front ≠ []) (hsign : P.sign ∉ front) :
    P.read (front ++ P.sign :: back) = some (P.trim front, P.trim back) := by
  have hidx : (front ++ P.sign :: back).idxOf? P.sign = some front.length := by
    rw [List.idxOf?_eq_some_iff]
    refine ⟨by simp, by simp, ?_⟩
    intro j hj hget
    rw [List.getElem_append_left hj] at hget
    exact hsign (hget ▸ List.getElem_mem hj)
  have hdrop : (front ++ P.sign :: back).drop (front.length + 1) = back := by
    rw [← List.drop_drop, List.drop_left, List.drop_one, List.tail_cons]
  rw [read, hidx]
  dsimp only
  rw [if_pos (List.length_pos_of_ne_nil hne), List.take_left, hdrop]

/-- What is read was written with a sign, and perhaps with blanks. -/
theorem read_eq_some (h : P.read part = some (key, value)) :
    ∃ front back, part = front ++ P.sign :: back ∧ key = P.trim front ∧ value = P.trim back := by
  unfold read at h
  split at h
  · cases h
  · rename_i i hidx
    rcases List.idxOf?_eq_some_iff.mp hidx with ⟨hi, hsign, -⟩
    split_ifs at h
    rcases Prod.mk.inj (Option.some.inj h) with ⟨rfl, rfl⟩
    refine ⟨part.take i, part.drop (i + 1), ?_, rfl, rfl⟩
    rw [← hsign, List.getElem_cons_drop, List.take_append_drop]

theorem separator_not_mem (h : part ∈ P.parts text) : P.separator ∉ part := by
  have hsplit : part ∈ text.splitOn P.separator := List.mem_of_mem_filter h
  clear h
  induction text generalizing part with
  | nil =>
    rw [List.splitOn_nil, List.mem_singleton] at hsplit
    rw [hsplit]
    exact List.not_mem_nil
  | cons x text ih =>
    rw [List.splitOn_cons_eq_if_modifyHead] at hsplit
    split_ifs at hsplit with hx
    · rcases List.mem_cons.mp hsplit with rfl | hrest
      · exact List.not_mem_nil
      · exact ih hrest
    · cases hfront : text.splitOn P.separator with
      | nil => exact absurd hfront (List.splitOn_ne_nil _ _)
      | cons front rest =>
        rw [hfront] at hsplit ih
        rcases List.mem_cons.mp hsplit with rfl | hrest
        · rw [List.mem_cons]
          rintro (rfl | hmem)
          · exact hx (beq_self_eq_true _)
          · exact ih List.mem_cons_self hmem
        · exact ih (List.mem_cons_of_mem _ hrest)

/-- The first part is the front of the text, and the others are inside it. -/
theorem splitOn_part (separator : α) (text : List α) :
    ∃ front rest, text.splitOn separator = front :: rest ∧ front <+: text ∧
      ∀ part ∈ rest, part <:+: text := by
  induction text with
  | nil => exact ⟨[], [], List.splitOn_nil _, List.prefix_rfl, by simp⟩
  | cons x text ih =>
    rcases ih with ⟨front, rest, hsplit, hfront, hrest⟩
    rw [List.splitOn_cons_eq_if_modifyHead, hsplit]
    split_ifs with hx
    · refine ⟨[], front :: rest, rfl, List.nil_prefix, ?_⟩
      intro part hpart
      rcases List.mem_cons.mp hpart with rfl | hmem
      · exact List.infix_cons hfront.isInfix
      · exact List.infix_cons (hrest part hmem)
    · exact ⟨x :: front, rest, rfl, List.cons_prefix_cons.mpr ⟨rfl, hfront⟩,
        fun part hmem => List.infix_cons (hrest part hmem)⟩

theorem part_of_mem (h : part ∈ P.parts text) : part <:+: text := by
  rcases splitOn_part P.separator text with ⟨front, rest, hsplit, hfront, hrest⟩
  have hmem : part ∈ text.splitOn P.separator := List.mem_of_mem_filter h
  rw [hsplit] at hmem
  rcases List.mem_cons.mp hmem with rfl | hmem
  · exact hfront.isInfix
  · exact hrest part hmem

/-- What is read is part of the text. -/
theorem fields_part (h : (key, value) ∈ P.fields text) : key <:+: text ∧ value <:+: text := by
  rcases List.mem_filterMap.mp h with ⟨part, hpart, hread⟩
  rcases read_eq_some hread with ⟨front, back, rfl, rfl, rfl⟩
  have hinside := part_of_mem hpart
  have hfront : front <:+: front ++ P.sign :: back := (List.prefix_append _ _).isInfix
  have hback : back <:+: front ++ P.sign :: back :=
    (List.suffix_cons P.sign back).isInfix.trans (List.suffix_append _ _).isInfix
  exact ⟨((trim_part front).trans hfront).trans hinside, ((trim_part back).trans hback).trans hinside⟩

/-- The value of a field that is read is one that could be written. -/
theorem fields_value (h : (key, value) ∈ P.fields text) : P.PlainValue value := by
  rcases List.mem_filterMap.mp h with ⟨part, hpart, hread⟩
  rcases read_eq_some hread with ⟨front, back, rfl, rfl, rfl⟩
  refine ⟨?_, trimmed_trim back⟩
  intro hmem
  apply separator_not_mem hpart
  have hback : P.separator ∈ back :=
    (List.dropWhile_sublist P.blank).subset ((List.rdropWhile_prefix P.blank _).subset hmem)
  exact List.mem_append_right _ (List.mem_cons_of_mem _ hback)

/-- Fields that can be written come back. -/
theorem fields_join {fs : List (List α × List α)} (hkeys : ∀ f ∈ fs, P.PlainKey f.1)
    (hvalues : ∀ f ∈ fs, P.PlainValue f.2) : P.fields (P.join fs) = fs := by
  by_cases hnil : fs = []
  · rw [hnil]
    rfl
  · have hclean : ∀ part ∈ fs.map P.write, P.separator ∉ part := by
      intro part hpart
      rcases List.mem_map.mp hpart with ⟨f, hf, rfl⟩
      rw [write, List.mem_append, List.mem_cons]
      rintro (hkey | hsign | hvalue)
      · exact (hkeys f hf).separator hkey
      · exact P.separator_ne_sign hsign
      · exact (hvalues f hf).separator hvalue
    have hparts : P.parts (P.join fs) = fs.map P.write := by
      rw [parts, join, List.splitOn_intercalate P.separator hclean (by simpa using hnil),
        List.filter_eq_self]
      intro part hpart
      rcases List.mem_map.mp hpart with ⟨f, hf, rfl⟩
      simp [write]
    rw [fields, hparts, List.filterMap_map]
    calc fs.filterMap (P.read ∘ P.write) = fs.filterMap some := by
          apply List.filterMap_congr
          intro f hf
          rw [Function.comp_apply, write, read_write (hkeys f hf).nonempty (hkeys f hf).sign,
            trim_eq_self.mpr (hkeys f hf).trimmed, trim_eq_self.mpr (hvalues f hf).trimmed]
      _ = fs := List.filterMap_some

/-! ## The room that fields take -/

theorem sum_length_splitOn (text : List α) :
    ((text.splitOn P.separator).map List.length).sum ≤ text.length := by
  induction text with
  | nil => simp
  | cons x text ih =>
    rw [List.splitOn_cons_eq_if_modifyHead]
    split_ifs
    · rw [List.map_cons, List.sum_cons, List.length_nil, List.length_cons]
      omega
    · cases hfront : text.splitOn P.separator with
      | nil => exact absurd hfront (List.splitOn_ne_nil _ _)
      | cons front rest =>
        rw [hfront, List.map_cons, List.sum_cons] at ih
        rw [List.modifyHead_cons, List.map_cons, List.sum_cons, List.length_cons, List.length_cons]
        omega

theorem size_le_of_read {field : List α × List α} (h : P.read part = some field) :
    size field ≤ part.length := by
  rcases read_eq_some h with ⟨front, back, rfl, hkey, hvalue⟩
  have hfront := length_trim_le (P := P) front
  have hback := length_trim_le (P := P) back
  rw [size, hkey, hvalue, List.length_append, List.length_cons]
  omega

theorem sum_size_filterMap (ps : List (List α)) :
    ((ps.filterMap P.read).map size).sum ≤ (ps.map List.length).sum := by
  induction ps with
  | nil => exact Nat.le_refl 0
  | cons part ps ih =>
    rw [List.map_cons, List.sum_cons]
    cases hread : P.read part with
    | none =>
      rw [List.filterMap_cons_none hread]
      omega
    | some field =>
      have hsize := size_le_of_read hread
      rw [List.filterMap_cons_some hread, List.map_cons, List.sum_cons]
      omega

/-- Different fields that are read have room in the text. -/
theorem sum_size_le {fs : List (List α × List α)} (hnodup : fs.Nodup)
    (hfs : ∀ f ∈ fs, f ∈ P.fields text) : (fs.map size).sum ≤ text.length := by
  rcases List.subperm_of_subset hnodup hfs with ⟨fs', hperm, hsub⟩
  calc (fs.map size).sum = (fs'.map size).sum := ((hperm.map size).sum_eq).symm
    _ ≤ ((P.fields text).map size).sum := (hsub.map size).sum_le_sum (fun _ _ => Nat.zero_le _)
    _ ≤ ((P.parts text).map List.length).sum := sum_size_filterMap _
    _ ≤ ((text.splitOn P.separator).map List.length).sum :=
      (List.filter_sublist.map List.length).sum_le_sum (fun _ _ => Nat.zero_le _)
    _ ≤ text.length := sum_length_splitOn text

end

end Punctuation

import Mathlib.Data.List.Basic
import Mathlib.Data.Nat.Bitwise
import Mathlib.Tactic

/-! # Byte strings: windows, overwrites and big-endian words

Memory is modelled by lists. A window of a list is `slice`, writing into a
window is `overwrite`; the lemmas say how the two commute. Words are written
most significant byte first by `beBytes` and read back by `beNat`.

* `slice_overwrite_self`, `slice_overwrite_before`: what a window shows after an
  overwrite that covers it, or that starts behind it;
* `overwrite_append`: overwriting right behind a known front;
* `beNat_beBytes`, `beBytes_beNat`: the two word codecs are inverse.
-/

/-- A byte string. -/
abbrev Bytes := List UInt8

namespace Bytes

variable {α : Type*}

/-! ## Windows -/

/-- The window of `len` elements that starts at `off`. -/
def slice (xs : List α) (off len : ℕ) : List α := (xs.drop off).take len

/-- Write `ys` over the window of `xs` that starts at `off`. -/
def overwrite (xs : List α) (off : ℕ) (ys : List α) : List α :=
  xs.take off ++ (ys ++ xs.drop (off + ys.length))

@[simp] theorem length_slice (xs : List α) (off len : ℕ) :
    (slice xs off len).length = min len (xs.length - off) := by
  simp [slice]

theorem length_slice_of_le {xs : List α} {off len : ℕ} (h : off + len ≤ xs.length) :
    (slice xs off len).length = len := by
  rw [length_slice]
  omega

theorem length_overwrite {xs ys : List α} {off : ℕ} (h : off + ys.length ≤ xs.length) :
    (overwrite xs off ys).length = xs.length := by
  simp only [overwrite, List.length_append, List.length_take, List.length_drop]
  omega

@[simp] theorem slice_len_zero (xs : List α) (off : ℕ) : slice xs off 0 = [] := by
  simp [slice]

@[simp] theorem overwrite_nil (xs : List α) (off : ℕ) : overwrite xs off [] = xs := by
  simp [overwrite]

theorem slice_zero (xs : List α) (len : ℕ) : slice xs 0 len = xs.take len := by
  simp [slice]

/-- A window of a concatenation that lies in the front part. -/
theorem slice_append_left {xs ys : List α} {off len : ℕ} (h : off + len ≤ xs.length) :
    slice (xs ++ ys) off len = slice xs off len := by
  rw [slice, slice, List.drop_append_of_le_length (by omega),
    List.take_append_of_le_length (by rw [List.length_drop]; omega)]

/-- A window of a concatenation that lies in the back part. -/
theorem slice_append_right (xs ys : List α) (off len : ℕ) :
    slice (xs ++ ys) (xs.length + off) len = slice ys off len := by
  rw [slice, slice, List.drop_append, List.drop_eq_nil_of_le (by omega), List.nil_append,
    Nat.add_sub_cancel_left]

/-- The window that is exactly the middle part of a concatenation. -/
theorem slice_middle (xs ys zs : List α) {off len : ℕ} (ho : off = xs.length)
    (hl : len = ys.length) : slice (xs ++ (ys ++ zs)) off len = ys := by
  subst ho hl
  simp [slice]

/-- Two adjacent windows make up one. -/
theorem slice_append_slice (xs : List α) (off m n : ℕ) :
    slice xs off m ++ slice xs (off + m) n = slice xs off (m + n) := by
  rw [slice, slice, slice, List.take_add, List.drop_drop]

theorem slice_slice (xs : List α) {off len o l : ℕ} (h : o + l ≤ len) :
    slice (slice xs off len) o l = slice xs (off + o) l := by
  simp only [slice, List.drop_take, List.take_take, List.drop_drop]
  rw [Nat.min_eq_left (by omega)]

/-- Taking up to the end of a window: the front, then the window. -/
theorem take_add_slice (xs : List α) (off len : ℕ) :
    xs.take (off + len) = xs.take off ++ slice xs off len := by
  rw [List.take_add, slice]

/-- What is left behind an offset: a window, then what is left behind it. -/
theorem drop_eq_slice_append (xs : List α) (off len : ℕ) :
    xs.drop off = slice xs off len ++ xs.drop (off + len) := by
  rw [slice, ← List.drop_drop, List.take_append_drop]

/-! ## Overwrites -/

/-- The window an overwrite has just written. -/
theorem slice_overwrite_self {xs ys : List α} {off : ℕ} (h : off ≤ xs.length) :
    slice (overwrite xs off ys) off ys.length = ys :=
  slice_middle _ _ _ (by rw [List.length_take]; omega) rfl

/-- A window in front of the overwritten one is untouched. -/
theorem slice_overwrite_before {xs ys : List α} {off o l : ℕ} (h : o + l ≤ off)
    (ho : off ≤ xs.length) : slice (overwrite xs off ys) o l = slice xs o l := by
  rw [overwrite, slice_append_left (by rw [List.length_take]; omega), slice, slice,
    List.drop_take, List.take_take, Nat.min_eq_left (by omega)]

/-- Everything behind the overwritten window is untouched. -/
theorem drop_overwrite_of_le {xs ys : List α} {off n : ℕ} (h : off + ys.length ≤ n)
    (ho : off ≤ xs.length) : (overwrite xs off ys).drop n = xs.drop n := by
  have hlen : (xs.take off ++ ys).length = off + ys.length := by
    rw [List.length_append, List.length_take]
    omega
  rw [overwrite, ← List.append_assoc, List.drop_append, List.drop_eq_nil_of_le (by omega),
    List.nil_append, hlen, List.drop_drop, Nat.add_sub_cancel' h]

/-- Everything in front of the overwritten window is untouched. -/
theorem take_overwrite_of_le {xs ys : List α} {off n : ℕ} (h : n ≤ off) (ho : off ≤ xs.length) :
    (overwrite xs off ys).take n = xs.take n := by
  have hs : slice (overwrite xs off ys) 0 n = slice xs 0 n :=
    slice_overwrite_before (by omega) ho
  rwa [slice_zero, slice_zero] at hs

/-- Overwriting right behind a known front part. -/
theorem overwrite_append (xs ys zs : List α) {off : ℕ} (h : off = xs.length) :
    overwrite (xs ++ ys) off zs = xs ++ (zs ++ ys.drop zs.length) := by
  subst h
  rw [overwrite, List.take_left, List.drop_append, List.drop_eq_nil_of_le (by omega),
    List.nil_append, Nat.add_sub_cancel_left]

/-- Overwriting at the very end appends. -/
theorem overwrite_length (xs ys : List α) : overwrite xs xs.length ys = xs ++ ys := by
  simp [overwrite]

/-- A window written in two adjacent pieces. -/
theorem overwrite_overwrite_adjacent {xs ys zs : List α} {off : ℕ} (h : off ≤ xs.length) :
    overwrite (overwrite xs off ys) (off + ys.length) zs = overwrite xs off (ys ++ zs) := by
  have hlen : (xs.take off ++ ys).length = off + ys.length := by
    rw [List.length_append, List.length_take]
    omega
  have hfirst : overwrite xs off ys = (xs.take off ++ ys) ++ xs.drop (off + ys.length) := by
    rw [overwrite, List.append_assoc]
  rw [hfirst, overwrite_append _ _ _ hlen.symm]
  simp only [overwrite, List.drop_drop, List.length_append, List.append_assoc, Nat.add_assoc]

/-- A window written in two adjacent pieces, the back one first. -/
theorem overwrite_overwrite_before {xs ys zs : List α} {off : ℕ}
    (h : off + ys.length ≤ xs.length) :
    overwrite (overwrite xs (off + ys.length) zs) off ys = overwrite xs off (ys ++ zs) := by
  have hfront : (overwrite xs (off + ys.length) zs).take off = xs.take off :=
    take_overwrite_of_le (by omega) h
  have hback : (overwrite xs (off + ys.length) zs).drop (off + ys.length)
      = zs ++ xs.drop (off + (ys ++ zs).length) := by
    have hlen : (xs.take (off + ys.length)).length = off + ys.length := by
      rw [List.length_take]
      omega
    rw [overwrite, List.drop_left' hlen, List.length_append, Nat.add_assoc]
  rw [overwrite, hfront, hback, overwrite, List.append_assoc]

/-- Extending a rewritten front: the rest of the original stays behind it. -/
theorem overwrite_front (front ys xs : List α) {off : ℕ} (h : off = front.length) :
    overwrite (front ++ xs.drop off) off ys
      = (front ++ ys) ++ xs.drop (off + ys.length) := by
  rw [overwrite_append _ _ _ h, List.drop_drop, List.append_assoc]

/-- Nothing has changed from position `n` on, nor the length. -/
structure SameFrom (n : ℕ) (xs ys : List α) : Prop where
  length : ys.length = xs.length
  drop : ys.drop n = xs.drop n

namespace SameFrom

theorem refl (n : ℕ) (xs : List α) : SameFrom n xs xs := ⟨rfl, rfl⟩

theorem mono {m n : ℕ} {xs ys : List α} (h : SameFrom m xs ys) (hmn : m ≤ n) :
    SameFrom n xs ys := by
  refine ⟨h.length, ?_⟩
  have hd := congrArg (List.drop (n - m)) h.drop
  rwa [List.drop_drop, List.drop_drop, Nat.add_sub_cancel' hmn] at hd

theorem trans {n : ℕ} {xs ys zs : List α} (h₁ : SameFrom n xs ys) (h₂ : SameFrom n ys zs) :
    SameFrom n xs zs :=
  ⟨h₂.length.trans h₁.length, h₂.drop.trans h₁.drop⟩

theorem overwrite {n off : ℕ} {xs ys : List α} (h : off + ys.length ≤ n)
    (hfit : off + ys.length ≤ xs.length) : SameFrom n xs (Bytes.overwrite xs off ys) :=
  ⟨length_overwrite hfit, drop_overwrite_of_le h (by omega)⟩

/-- A window behind the changed part shows the same. -/
theorem slice {n off len : ℕ} {xs ys : List α} (h : SameFrom n xs ys) (hn : n ≤ off) :
    Bytes.slice ys off len = Bytes.slice xs off len := by
  rw [Bytes.slice, Bytes.slice, (h.mono hn).drop]

end SameFrom

/-! ## Big-endian words -/

/-- The value of a byte string read most significant byte first. -/
def beNat : Bytes → ℕ
  | [] => 0
  | b :: bs => b.toNat * 256 ^ bs.length + beNat bs

/-- The low `8 * w` bits of `n` as `w` bytes, most significant byte first. -/
def beBytes : ℕ → ℕ → Bytes
  | 0, _ => []
  | w + 1, n => UInt8.ofNat (n / 256 ^ w) :: beBytes w n

@[simp] theorem length_beBytes (w n : ℕ) : (beBytes w n).length = w := by
  induction w with
  | zero => rfl
  | succ w ih => simp [beBytes, ih]

@[simp] theorem beNat_nil : beNat [] = 0 := rfl

@[simp] theorem beNat_cons (b : UInt8) (bs : Bytes) :
    beNat (b :: bs) = b.toNat * 256 ^ bs.length + beNat bs := rfl

theorem beNat_lt (bs : Bytes) : beNat bs < 256 ^ bs.length := by
  induction bs with
  | nil => simp
  | cons b bs ih =>
    have hb : b.toNat + 1 ≤ 256 := b.toNat_lt
    calc beNat (b :: bs) < (b.toNat + 1) * 256 ^ bs.length := by
          rw [beNat_cons, Nat.add_mul]
          omega
      _ ≤ 256 * 256 ^ bs.length := Nat.mul_le_mul_right _ hb
      _ = 256 ^ (b :: bs).length := by rw [List.length_cons, pow_succ, Nat.mul_comm]

/-- Writing and then reading keeps the representable low bits. -/
@[simp] theorem beNat_beBytes (w n : ℕ) : beNat (beBytes w n) = n % 256 ^ w := by
  induction w with
  | zero => simp [beBytes, Nat.mod_one]
  | succ w ih =>
    have hsplit : n % 256 ^ (w + 1) = n % 256 ^ w + 256 ^ w * (n / 256 ^ w % 256) := by
      rw [pow_succ, Nat.mod_mul]
    rw [beBytes, beNat_cons, length_beBytes, ih, UInt8.toNat_ofNat', hsplit, Nat.mul_comm,
      Nat.add_comm]

theorem beBytes_mod (w n : ℕ) : beBytes w (n % 256 ^ w) = beBytes w n := by
  have hgen : ∀ v, v ≤ w → beBytes v (n % 256 ^ w) = beBytes v n := by
    intro v hv
    induction v with
    | zero => rfl
    | succ v ih =>
      have hsplit : 256 ^ w = 256 ^ v * (256 * 256 ^ (w - (v + 1))) := by
        rw [← pow_succ', ← pow_add]
        congr 1
        omega
      have hdigit : UInt8.ofNat (n % 256 ^ w / 256 ^ v) = UInt8.ofNat (n / 256 ^ v) := by
        apply UInt8.toNat_inj.mp
        rw [UInt8.toNat_ofNat', UInt8.toNat_ofNat', hsplit, Nat.mod_mul_right_div_self]
        exact Nat.mod_mul_right_mod _ _ _
      rw [beBytes, beBytes, hdigit, ih (by omega)]
  exact hgen w le_rfl

/-- Every byte string is the encoding of its own value. -/
theorem beBytes_beNat (bs : Bytes) : beBytes bs.length (beNat bs) = bs := by
  induction bs with
  | nil => rfl
  | cons b bs ih =>
    have hlt := beNat_lt bs
    have hpos : 0 < 256 ^ bs.length := Nat.pos_of_ne_zero (by simp)
    have hhigh : (b.toNat * 256 ^ bs.length + beNat bs) / 256 ^ bs.length = b.toNat := by
      rw [Nat.mul_comm, Nat.mul_add_div hpos, Nat.div_eq_of_lt hlt, Nat.add_zero]
    have hlow : beBytes bs.length (b.toNat * 256 ^ bs.length + beNat bs) = bs := by
      rw [← beBytes_mod, Nat.mul_comm, Nat.mul_add_mod, Nat.mod_eq_of_lt hlt, ih]
    rw [List.length_cons, beNat_cons, beBytes, hhigh, hlow, UInt8.ofNat_toNat]

/-! ## Little-endian words -/

/-- The value of a byte string read least significant byte first. -/
def leNat (bs : Bytes) : ℕ := beNat bs.reverse

/-- The low `8 * w` bits of `n` as `w` bytes, least significant byte first. -/
def leBytes (w n : ℕ) : Bytes := (beBytes w n).reverse

@[simp] theorem length_leBytes (w n : ℕ) : (leBytes w n).length = w := by
  rw [leBytes, List.length_reverse, length_beBytes]

@[simp] theorem leNat_leBytes (w n : ℕ) : leNat (leBytes w n) = n % 256 ^ w := by
  rw [leNat, leBytes, List.reverse_reverse, beNat_beBytes]

/-! ## Signed words -/

/-- The two's-complement reading of a 32-bit word. -/
def int32 (n : ℕ) : ℤ := if n < 2 ^ 31 then n else (n : ℤ) - 2 ^ 32

/-- The 32-bit word of an integer. -/
def word32 (i : ℤ) : ℕ := (i % 2 ^ 32).toNat

theorem int32_of_lt {n : ℕ} (h : n < 2 ^ 31) : int32 n = n := if_pos h

theorem int32_word32 {i : ℤ} (hlo : -2 ^ 31 ≤ i) (hhi : i < 2 ^ 31) : int32 (word32 i) = i := by
  unfold int32 word32
  split <;> omega

theorem word32_lt (i : ℤ) : word32 i < 2 ^ 32 := by
  unfold word32
  omega

end Bytes

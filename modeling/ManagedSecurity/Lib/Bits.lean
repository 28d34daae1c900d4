import ManagedSecurity.Lib.Bytes

/-! # Bit strings

The bits of a byte string, most significant first, and the number that a bit string
spells. A word is taken apart with `value_append`: the number of a concatenation is
made of the numbers of its parts. `value_unary` is the number of a string that begins
with a unary marker.
-/

namespace Bits

open Bytes

/-- The number that a bit string spells, most significant bit first. -/
def value : List Bool → ℕ
  | [] => 0
  | b :: bs => b.toNat * 2 ^ bs.length + value bs

/-- The bits of a byte, most significant first. -/
def ofByte (b : UInt8) : List Bool :=
  [b.toNat.testBit 7, b.toNat.testBit 6, b.toNat.testBit 5, b.toNat.testBit 4,
    b.toNat.testBit 3, b.toNat.testBit 2, b.toNat.testBit 1, b.toNat.testBit 0]

/-- The bits of a byte string. -/
def ofBytes (bs : Bytes) : List Bool := bs.flatMap ofByte

/-- The number of leading ones. -/
def ones (bits : List Bool) : ℕ := (bits.takeWhile id).length

/-! ## Values -/

@[simp] theorem value_nil : value [] = 0 := rfl

@[simp] theorem value_cons (b : Bool) (bs : List Bool) :
    value (b :: bs) = b.toNat * 2 ^ bs.length + value bs := rfl

theorem value_lt (bs : List Bool) : value bs < 2 ^ bs.length := by
  induction bs with
  | nil => exact Nat.one_pos
  | cons b bs ih =>
    have hb : b.toNat ≤ 1 := Bool.toNat_le b
    have hhead : b.toNat * 2 ^ bs.length ≤ 1 * 2 ^ bs.length := Nat.mul_le_mul_right _ hb
    rw [value_cons, List.length_cons, pow_succ]
    omega

theorem value_append (xs ys : List Bool) :
    value (xs ++ ys) = value xs * 2 ^ ys.length + value ys := by
  induction xs with
  | nil => rw [List.nil_append, value_nil, Nat.zero_mul, Nat.zero_add]
  | cons b xs ih =>
    rw [List.cons_append, value_cons, value_cons, ih, List.length_append, pow_add]
    ring

/-- Strings of one length spell different numbers. -/
theorem value_inj : ∀ {xs ys : List Bool}, xs.length = ys.length → value xs = value ys →
    xs = ys := by
  intro xs
  induction xs with
  | nil =>
    intro ys hlen _
    exact (List.length_eq_zero_iff.mp hlen.symm).symm
  | cons b xs ih =>
    intro ys hlen hvalue
    cases ys with
    | nil => cases hlen
    | cons c ys =>
      have hlen' : xs.length = ys.length := Nat.succ.inj hlen
      have hx := value_lt xs
      have hy := value_lt ys
      rw [value_cons, value_cons, hlen'] at hvalue
      rw [hlen'] at hx
      -- the heads agree, since what is behind them is less than one unit of theirs
      have hhead : b = c := by
        cases b with
        | false =>
          cases c with
          | false => rfl
          | true =>
            simp only [Bool.toNat_false, Bool.toNat_true] at hvalue
            omega
        | true =>
          cases c with
          | true => rfl
          | false =>
            simp only [Bool.toNat_false, Bool.toNat_true] at hvalue
            omega
      subst hhead
      rw [ih hlen' (by omega)]

/-- A marker of `e` ones and a zero in front. -/
theorem value_unary (e : ℕ) (bits : List Bool) :
    value (List.replicate e true ++ false :: bits) =
      (2 ^ e - 1) * 2 ^ (bits.length + 1) + value bits := by
  have hones : value (List.replicate e true) = 2 ^ e - 1 := by
    induction e with
    | zero => rfl
    | succ e ih =>
      have hpos : 1 ≤ 2 ^ e := Nat.one_le_two_pow
      rw [List.replicate_succ, value_cons, ih, List.length_replicate, Bool.toNat_true, pow_succ]
      omega
  rw [value_append, hones, value_cons, List.length_cons, Bool.toNat_false, Nat.zero_mul,
    Nat.zero_add]

/-! ## Bits of bytes -/

@[simp] theorem length_ofByte (b : UInt8) : (ofByte b).length = 8 := rfl

@[simp] theorem length_ofBytes (bs : Bytes) : (ofBytes bs).length = 8 * bs.length := by
  induction bs with
  | nil => rfl
  | cons b bs ih =>
    have hcons : ofBytes (b :: bs) = ofByte b ++ ofBytes bs := rfl
    rw [hcons, List.length_append, ih, length_ofByte, List.length_cons]
    omega

theorem value_ofByte (b : UInt8) : value (ofByte b) = b.toNat := by
  have hlt := b.toNat_lt
  simp only [ofByte, value_cons, value_nil, Nat.toNat_testBit, List.length_cons, List.length_nil]
  omega

/-- The bits of a byte string spell its big-endian number. -/
theorem value_ofBytes (bs : Bytes) : value (ofBytes bs) = beNat bs := by
  induction bs with
  | nil => rfl
  | cons b bs ih =>
    have hcons : ofBytes (b :: bs) = ofByte b ++ ofBytes bs := rfl
    have hpow : 2 ^ (8 * bs.length) = 256 ^ bs.length := pow_mul 2 8 bs.length
    rw [hcons, value_append, ih, value_ofByte, length_ofBytes, hpow, beNat_cons]

/-! ## Leading ones -/

theorem ones_unary (e : ℕ) (bits : List Bool) :
    ones (List.replicate e true ++ false :: bits) = e := by
  induction e with
  | zero => rfl
  | succ e ih =>
    rw [ones] at ih ⊢
    rw [List.replicate_succ, List.cons_append, List.takeWhile_cons_of_pos rfl, List.length_cons, ih]

/-- A string is its marker and what is behind it, or it is all ones. -/
theorem eq_unary (bits : List Bool) :
    (∃ e tail, bits = List.replicate e true ++ false :: tail) ∨
      bits = List.replicate bits.length true := by
  induction bits with
  | nil => exact .inr rfl
  | cons b bits ih =>
    cases b with
    | false => exact .inl ⟨0, bits, rfl⟩
    | true =>
      rcases ih with ⟨e, tail, rfl⟩ | hall
      · exact .inl ⟨e + 1, tail, rfl⟩
      · right
        rw [List.length_cons, List.replicate_succ, ← hall]

end Bits

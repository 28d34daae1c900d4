import ManagedSecurity.Lib.Bytes

/-! # UTF-8, with a replacement for what is not well formed

The decoder goes through the bytes once. What cannot be part of a character becomes a
replacement character: a byte that begins none, and the bytes of a character that is
broken off, which become one together.

* `decode_encode`: a text that was encoded comes back;
* `length_decode_le`: there are at most as many characters as bytes;
* `decode_take`: how many characters a text loses at least when its end is cut off.
-/

namespace Utf8

/-- U+FFFD. -/
def replacement : Char := Char.ofNat 0xFFFD

/-- The bytes of a text. -/
def encode (text : List Char) : Bytes := text.flatMap String.utf8EncodeChar

/-! ## The decoder -/

/-- A character that has begun: its bits so far, how many bytes must follow the next one,
and the least and the greatest byte that the next one can be. -/
structure Pending where
  value : ℕ
  more : ℕ
  low : ℕ
  high : ℕ

/-- A byte where a character begins. The second byte is restricted where others would give a
longer form than necessary, a surrogate, or a number above the last character. -/
def start (b : UInt8) : List Char × Option Pending :=
  let n := b.toNat
  if n ≤ 0x7F then ([Char.ofNat n], none)
  else if n < 0xC2 then ([replacement], none)
  else if n ≤ 0xDF then ([], some ⟨n - 0xC0, 0, 0x80, 0xBF⟩)
  else if n = 0xE0 then ([], some ⟨0, 1, 0xA0, 0xBF⟩)
  else if n = 0xED then ([], some ⟨0xD, 1, 0x80, 0x9F⟩)
  else if n ≤ 0xEF then ([], some ⟨n - 0xE0, 1, 0x80, 0xBF⟩)
  else if n = 0xF0 then ([], some ⟨0, 2, 0x90, 0xBF⟩)
  else if n ≤ 0xF3 then ([], some ⟨n - 0xF0, 2, 0x80, 0xBF⟩)
  else if n = 0xF4 then ([], some ⟨4, 2, 0x80, 0x8F⟩)
  else ([replacement], none)

/-- One more byte of a character. -/
def Pending.push (p : Pending) (b : UInt8) : List Char × Option Pending :=
  let value := p.value * 64 + (b.toNat - 0x80)
  match p.more with
  | 0 => ([Char.ofNat value], none)
  | more + 1 => ([], some ⟨value, more, 0x80, 0xBF⟩)

/-- The characters that a byte completes, and what has begun after it. -/
def next : Option Pending → UInt8 → List Char × Option Pending
  | none, b => start b
  | some p, b =>
    if p.low ≤ b.toNat ∧ b.toNat ≤ p.high then
      p.push b
    else
      (replacement :: (start b).1, (start b).2)

/-- The characters of the bytes, after some that have begun one. -/
def decodeFrom : Option Pending → Bytes → List Char
  | none, [] => []
  | some _, [] => [replacement]
  | p, b :: bytes => (next p b).1 ++ decodeFrom (next p b).2 bytes

/-- The characters of the bytes. -/
def decode (bytes : Bytes) : List Char := decodeFrom none bytes

/-! ## One character -/

/-- A continuation byte that carries six bits. -/
def tail (bits : ℕ) : UInt8 := UInt8.ofNat (bits % 0x40 + 0x80)

section

variable {v value more low high bits : ℕ} {p : Pending} {b : UInt8} {bytes : Bytes}

theorem toNat_byte (h : v < 256) : (UInt8.ofNat v).toNat = v := by
  rw [UInt8.toNat_ofNat', Nat.mod_eq_of_lt h]

theorem toNat_tail (bits : ℕ) : (tail bits).toNat = bits % 0x40 + 0x80 := toNat_byte (by omega)

theorem decodeFrom_start (h : start b = ([], some p)) :
    decodeFrom none (b :: bytes) = decodeFrom (some p) bytes := by
  rw [decodeFrom, next, h, List.nil_append]

theorem next_tail (hlow : p.low ≤ bits % 0x40 + 0x80) (hhigh : bits % 0x40 + 0x80 ≤ p.high) :
    next (some p) (tail bits) = p.push (tail bits) := by
  rw [next, toNat_tail, if_pos ⟨hlow, hhigh⟩]

/-- A byte in the middle of a character. -/
theorem decodeFrom_more (hlow : low ≤ bits % 0x40 + 0x80) (hhigh : bits % 0x40 + 0x80 ≤ high) :
    decodeFrom (some ⟨value, more + 1, low, high⟩) (tail bits :: bytes) =
      decodeFrom (some ⟨value * 64 + bits % 0x40, more, 0x80, 0xBF⟩) bytes := by
  rw [decodeFrom, next_tail hlow hhigh, Pending.push, toNat_tail, Nat.add_sub_cancel]
  rfl

/-- The last byte of a character. -/
theorem decodeFrom_last (hlow : low ≤ bits % 0x40 + 0x80) (hhigh : bits % 0x40 + 0x80 ≤ high) :
    decodeFrom (some ⟨value, 0, low, high⟩) (tail bits :: bytes) =
      Char.ofNat (value * 64 + bits % 0x40) :: decodeFrom none bytes := by
  rw [decodeFrom, next_tail hlow hhigh, Pending.push, toNat_tail, Nat.add_sub_cancel]
  rfl

/-! ## The first byte, by the length of the character -/

theorem start_one (h : v ≤ 0x7F) : start (UInt8.ofNat v) = ([Char.ofNat v], none) := by
  rw [start, toNat_byte (by omega), if_pos h]

theorem start_two (h : 0x80 ≤ v) (h' : v ≤ 0x7FF) :
    start (UInt8.ofNat (v / 64 % 0x20 + 0xC0)) = ([], some ⟨v / 64, 0, 0x80, 0xBF⟩) := by
  have hbits : v / 64 % 0x20 = v / 64 := Nat.mod_eq_of_lt (by omega)
  rw [start, hbits, toNat_byte (by omega), if_neg (by omega), if_neg (by omega), if_pos (by omega),
    Nat.add_sub_cancel]

/-- The second byte of a character of three bytes is in the range. -/
theorem start_three (h : 0x800 ≤ v) (h' : v ≤ 0xFFFF) (hvalid : v < 0xD800 ∨ 0xDFFF < v) :
    ∃ low high, start (UInt8.ofNat (v / 4096 % 0x10 + 0xE0)) = ([], some ⟨v / 4096, 1, low, high⟩) ∧
      low ≤ v / 64 % 0x40 + 0x80 ∧ v / 64 % 0x40 + 0x80 ≤ high := by
  have hbits : v / 4096 % 0x10 = v / 4096 := Nat.mod_eq_of_lt (by omega)
  rw [start, hbits, toNat_byte (by omega), if_neg (by omega), if_neg (by omega), if_neg (by omega)]
  split_ifs with h0 hD
  · have hzero : v / 4096 = 0 := by omega
    exact ⟨0xA0, 0xBF, by rw [hzero], by omega, by omega⟩
  · have hthirteen : v / 4096 = 0xD := by omega
    exact ⟨0x80, 0x9F, by rw [hthirteen], by omega, by omega⟩
  · exact ⟨0x80, 0xBF, by rw [Nat.add_sub_cancel], by omega, by omega⟩
  all_goals omega

theorem start_four (h : 0x10000 ≤ v) (h' : v < 0x110000) :
    ∃ low high, start (UInt8.ofNat (v / 262144 % 0x08 + 0xF0)) =
        ([], some ⟨v / 262144, 2, low, high⟩) ∧
      low ≤ v / 4096 % 0x40 + 0x80 ∧ v / 4096 % 0x40 + 0x80 ≤ high := by
  have hbits : v / 262144 % 0x08 = v / 262144 := Nat.mod_eq_of_lt (by omega)
  rw [start, hbits, toNat_byte (by omega), if_neg (by omega), if_neg (by omega), if_neg (by omega),
    if_neg (by omega), if_neg (by omega), if_neg (by omega)]
  split_ifs with h0 h3 h4
  · have hzero : v / 262144 = 0 := by omega
    exact ⟨0x90, 0xBF, by rw [hzero], by omega, by omega⟩
  · exact ⟨0x80, 0xBF, by rw [Nat.add_sub_cancel], by omega, by omega⟩
  · have hfour : v / 262144 = 4 := by omega
    exact ⟨0x80, 0x8F, by rw [hfour], by omega, by omega⟩
  · omega

end

/-- The bytes of a character become that character. -/
theorem decodeFrom_encodeChar (c : Char) (bytes : Bytes) :
    decodeFrom none (String.utf8EncodeChar c ++ bytes) = c :: decodeFrom none bytes := by
  have hvalid : c.toNat < 0xD800 ∨ 0xDFFF < c.toNat ∧ c.toNat < 0x110000 := c.valid
  have hc : Char.ofNat c.toNat = c := Char.ofNat_toNat c
  unfold String.utf8EncodeChar
  change decodeFrom none ((if c.toNat ≤ 0x7F then [UInt8.ofNat c.toNat] else if c.toNat ≤ 0x7FF then
    [UInt8.ofNat (c.toNat / 64 % 0x20 + 0xC0), tail c.toNat] else if c.toNat ≤ 0xFFFF then
    [UInt8.ofNat (c.toNat / 4096 % 0x10 + 0xE0), tail (c.toNat / 64), tail c.toNat] else
    [UInt8.ofNat (c.toNat / 262144 % 0x08 + 0xF0), tail (c.toNat / 4096), tail (c.toNat / 64),
      tail c.toNat]) ++ bytes) = _
  generalize c.toNat = v at hvalid hc ⊢
  split_ifs with h1 h2 h3
  · rw [List.singleton_append, decodeFrom, next, start_one h1, hc]
    rfl
  · have hv : v / 64 * 64 + v % 0x40 = v := by omega
    simp only [List.cons_append, List.nil_append]
    rw [decodeFrom_start (start_two (by omega) h2), decodeFrom_last (by omega) (by omega), hv, hc]
  · rcases start_three (v := v) (by omega) h3 (by omega) with ⟨low, high, hstart, hlow, hhigh⟩
    have hv : (v / 4096 * 64 + v / 64 % 0x40) * 64 + v % 0x40 = v := by omega
    simp only [List.cons_append, List.nil_append]
    rw [decodeFrom_start hstart, decodeFrom_more hlow hhigh, decodeFrom_last (by omega) (by omega), hv,
      hc]
  · rcases start_four (v := v) (by omega) (by omega) with ⟨low, high, hstart, hlow, hhigh⟩
    have hv : ((v / 262144 * 64 + v / 4096 % 0x40) * 64 + v / 64 % 0x40) * 64 + v % 0x40 = v := by
      omega
    simp only [List.cons_append, List.nil_append]
    rw [decodeFrom_start hstart, decodeFrom_more hlow hhigh, decodeFrom_more (by omega) (by omega),
      decodeFrom_last (by omega) (by omega), hv, hc]

/-! ## Texts -/

theorem encode_cons (c : Char) (text : List Char) :
    encode (c :: text) = String.utf8EncodeChar c ++ encode text := List.flatMap_cons

theorem encode_singleton (c : Char) : encode [c] = String.utf8EncodeChar c := List.flatMap_singleton _ c

theorem length_encode_le (text : List Char) : (encode text).length ≤ 4 * text.length := by
  induction text with
  | nil => exact Nat.le_refl 0
  | cons c text ih =>
    have hsize := Char.utf8Size_le_four c
    rw [encode_cons, List.length_append, String.length_utf8EncodeChar, List.length_cons]
    omega

theorem decode_encode_append (text : List Char) (bytes : Bytes) :
    decode (encode text ++ bytes) = text ++ decode bytes := by
  induction text with
  | nil => rfl
  | cons c text ih =>
    rw [encode_cons, List.append_assoc, decode, decodeFrom_encodeChar, List.cons_append]
    exact congrArg (List.cons c) ih

/-- A text that was encoded comes back. -/
theorem decode_encode (text : List Char) : decode (encode text) = text := by
  have h := decode_encode_append text []
  rw [List.append_nil] at h
  exact h.trans (List.append_nil text)

/-! ## How many characters there are -/

/-- The characters that stand for a state at the end. -/
def Pending.length : Option Pending → ℕ
  | none => 0
  | some _ => 1

theorem length_start (b : UInt8) : (start b).1.length + Pending.length (start b).2 ≤ 1 := by
  unfold start
  dsimp only
  split_ifs
  all_goals exact Nat.le_refl 1

theorem length_next (p : Option Pending) (b : UInt8) :
    (next p b).1.length + Pending.length (next p b).2 ≤ Pending.length p + 1 := by
  cases p with
  | none =>
    rw [Pending.length, Nat.zero_add]
    exact length_start b
  | some p =>
    rw [next]
    split_ifs
    · rw [Pending.push]
      split
      all_goals exact Nat.le_succ 1
    · have h := length_start b
      have hp : Pending.length (some p) = 1 := rfl
      rw [List.length_cons, hp]
      dsimp only
      omega

theorem length_decodeFrom_le (p : Option Pending) (bytes : Bytes) :
    (decodeFrom p bytes).length ≤ Pending.length p + bytes.length := by
  induction bytes generalizing p with
  | nil =>
    cases p with
    | none => exact Nat.le_refl 0
    | some p => exact Nat.le_refl 1
  | cons b bytes ih =>
    have hnext := length_next p b
    have hrest := ih (next p b).2
    rw [decodeFrom, List.length_append, List.length_cons]
    omega

/-- There are at most as many characters as bytes. -/
theorem length_decode_le (bytes : Bytes) : (decode bytes).length ≤ bytes.length := by
  have h := length_decodeFrom_le none bytes
  rw [Pending.length, Nat.zero_add] at h
  exact h

/-- A text of which only the first bytes are left has lost a character for every four of
the others, but for the one that the cut goes through. -/
theorem decode_take (text : List Char) (n : ℕ) :
    4 * (decode ((encode text).take n)).length + ((encode text).length - n) ≤ 4 * text.length + 12 := by
  induction text generalizing n with
  | nil =>
    have h := length_decode_le ((encode []).take n)
    have hnil : (encode []).length = 0 := rfl
    rw [List.length_take] at h
    omega
  | cons c text ih =>
    have hsize := Char.utf8Size_le_four c
    have hlen := String.length_utf8EncodeChar c
    have hall : (encode (c :: text)).length = c.utf8Size + (encode text).length := by
      rw [encode_cons, List.length_append, hlen]
    by_cases hn : c.utf8Size ≤ n
    · -- the first character is left
      have htake : (encode (c :: text)).take n =
          encode [c] ++ (encode text).take (n - c.utf8Size) := by
        rw [encode_cons, List.take_append, hlen, List.take_of_length_le (by rw [hlen]; exact hn),
          encode_singleton]
      have hrest := ih (n - c.utf8Size)
      rw [htake, decode_encode_append, List.length_append, List.length_singleton, hall,
        List.length_cons]
      omega
    · -- the cut goes through it, so that at most three bytes are left
      have hfew := length_decode_le ((encode (c :: text)).take n)
      rw [List.length_take] at hfew
      have hbytes := length_encode_le text
      rw [List.length_cons]
      omega

end Utf8

import ManagedSecurity.Vault
import ManagedSecurity.Lib.Utf8

/-! # Escapes in a URL (`Uri.EscapeDataString`)

`Uri.EscapeDataString` writes the UTF-8 bytes of a text, all but a few of them as escapes.

* `unescape_escape`: `Uri.UnescapeDataString` gets the text back.
-/

namespace ManagedSecurity

open Utf8

/-- A byte that stands for itself. -/
def isUnreserved (b : UInt8) : Bool :=
  (Char.ofNat b.toNat).isAlphanum || b = 0x2D || b = 0x2E || b = 0x5F || b = 0x7E

/-- A hexadecimal digit. -/
def hexDigit (n : ℕ) : Char := (Nat.digitChar n).toUpper

/-- A byte in a URL. -/
def escapeByte (b : UInt8) : List Char :=
  if isUnreserved b then [Char.ofNat b.toNat] else ['%', hexDigit (b.toNat / 16), hexDigit (b.toNat % 16)]

/-- `Uri.EscapeDataString`. -/
def escapeDataString (text : List Char) : List Char := (encode text).flatMap escapeByte

/-! ## Single bytes -/

theorem hexValue_hexDigit : ∀ n < 16, hexValue (hexDigit n) = some n := by decide

section

variable {b : UInt8} {c : Char} {value n : ℕ} {rest : List Char}

theorem escapeByte_reserved (h : isUnreserved b = false) :
    escapeByte b = ['%', hexDigit (b.toNat / 16), hexDigit (b.toNat % 16)] := by
  rw [escapeByte, h]
  exact if_neg Bool.noConfusion

theorem escapedByte_escape (h : isUnreserved b = false) (rest : List Char) :
    escapedByte (escapeByte b ++ rest) = some b.toNat := by
  have hb := b.toNat_lt
  have hsum : 16 * (b.toNat / 16) + b.toNat % 16 = b.toNat := by omega
  rw [escapeByte_reserved h]
  simp only [List.cons_append, List.nil_append, escapedByte, hexValue_hexDigit _ (show b.toNat / 16 < 16 by omega),
    hexValue_hexDigit _ (show b.toNat % 16 < 16 by omega), Option.bind_eq_bind, Option.bind_some,
    hsum]
  rfl

/-- The bytes from 0x80 on are escaped. -/
theorem reserved_of_le (h : 0x80 ≤ b.toNat) : isUnreserved b = false := by
  have hall : ∀ n < 256, 0x80 ≤ n → isUnreserved (UInt8.ofNat n) = false := by decide +kernel
  have hb := hall b.toNat b.toNat_lt h
  rwa [UInt8.ofNat_toNat] at hb

theorem escapes_ne_nil (b : UInt8) (bytes : List UInt8) : (b :: bytes).flatMap escapeByte ≠ [] := by
  rw [List.flatMap_cons]
  refine List.append_ne_nil_of_left_ne_nil ?_ _
  unfold escapeByte
  split_ifs
  · exact List.cons_ne_nil _ _
  · exact List.cons_ne_nil _ _

/-- One continuation byte. -/
theorem continuation_tail (bits : ℕ) (rest : List Char) :
    continuation value (n + 1) (escapeByte (tail bits) ++ rest) =
      continuation (64 * value + bits % 0x40) n rest := by
  have hreserved : isUnreserved (tail bits) = false := reserved_of_le (by rw [toNat_tail]; omega)
  rw [continuation, escapedByte_escape hreserved, toNat_tail]
  dsimp only
  rw [if_pos (by omega), Nat.add_sub_cancel, escapeByte_reserved hreserved]
  rfl

/-- What has been read is skipped. -/
theorem unescapeFrom_skip (front rest : List Char) :
    unescapeFrom front.length (front ++ rest) = unescapeFrom 0 rest := by
  induction front with
  | nil => rfl
  | cons c front ih => exact ih

/-- A character whose escapes are at the front. -/
theorem unescapeFrom_front {front : List Char} (hne : front ≠ [])
    (h : escapedChar (front ++ rest) = some (c, front.length)) :
    unescapeFrom 0 (front ++ rest) = c :: unescapeFrom 0 rest := by
  match front, hne with
  | first :: front, _ =>
    rw [List.cons_append] at h ⊢
    rw [unescapeFrom, h]
    exact congrArg (List.cons c) (unescapeFrom_skip front rest)

/-- The first byte of a character says how many follow. -/
theorem escapedChar_escape (first n least value : ℕ) (hreserved : isUnreserved b = false)
    (hform : (if b.toNat < 0x80 then some (b.toNat, 0, 0)
      else if 0xC0 ≤ b.toNat ∧ b.toNat < 0xE0 then some (b.toNat - 0xC0, 1, 0x80)
      else if 0xE0 ≤ b.toNat ∧ b.toNat < 0xF0 then some (b.toNat - 0xE0, 2, 0x800)
      else if 0xF0 ≤ b.toNat ∧ b.toNat < 0xF8 then some (b.toNat - 0xF0, 3, 0x10000)
      else none) = some (first, n, least))
    (hrest : continuation first n rest = some value) (hleast : least ≤ value)
    (hvalid : value.isValidChar) :
    escapedChar (escapeByte b ++ rest) = some (Char.ofNat value, 3 * (n + 1)) := by
  have hdrop : (escapeByte b ++ rest).drop 3 = rest := by
    rw [escapeByte_reserved hreserved]
    rfl
  unfold escapedChar
  rw [escapedByte_escape hreserved]
  dsimp only
  rw [hform]
  dsimp only
  rw [hdrop, hrest]
  dsimp only
  rw [if_pos ⟨hleast, hvalid⟩]

theorem length_escapeByte (h : isUnreserved b = false) : (escapeByte b).length = 3 := by
  rw [escapeByte_reserved h]
  rfl

end

/-! ## Texts -/

/-- A character other than the sign of an escape stands for itself. -/
theorem unescapeFrom_plain {c : Char} (hplain : c ≠ '%') (rest : List Char) :
    unescapeFrom 0 (c :: rest) = c :: unescapeFrom 0 rest := by
  have hno : escapedByte (c :: rest) = none := by
    unfold escapedByte
    split
    · rename_i heq
      exact absurd (List.cons.inj heq).1 hplain
    · rfl
  have hnone : escapedChar (c :: rest) = none := by
    unfold escapedChar
    rw [hno]
  rw [unescapeFrom, hnone]

/-- A character of one byte, which stands for itself or is escaped. -/
theorem unescape_single {c : Char} {v : ℕ} (hv : c.toNat = v) (hsmall : v < 0x80)
    (hvalid : v.isValidChar) (rest : List Char) :
    unescapeFrom 0 (escapeByte (UInt8.ofNat v) ++ rest) = c :: unescapeFrom 0 rest := by
  have hb : (UInt8.ofNat v).toNat = v := toNat_byte (by omega)
  have hc : Char.ofNat v = c := by
    rw [← hv]
    exact Char.ofNat_toNat c
  cases hunreserved : isUnreserved (UInt8.ofNat v) with
  | true =>
    have hplain : c ≠ '%' := by
      rintro rfl
      rw [← hv] at hunreserved
      revert hunreserved
      decide
    rw [escapeByte, hunreserved, if_pos rfl, hb, hc, List.singleton_append]
    exact unescapeFrom_plain hplain rest
  | false =>
    refine unescapeFrom_front (by rw [escapeByte_reserved hunreserved]; exact List.cons_ne_nil _ _) ?_
    rw [length_escapeByte hunreserved, escapedChar_escape v 0 0 v hunreserved
      (by rw [hb, if_pos hsmall]) rfl (Nat.zero_le _) hvalid, hc]

/-- The escapes of a character become that character. -/
theorem unescape_char (c : Char) (rest : List Char) :
    unescapeFrom 0 ((String.utf8EncodeChar c).flatMap escapeByte ++ rest) =
      c :: unescapeFrom 0 rest := by
  have hvalid : c.toNat.isValidChar := c.valid
  have hrange : c.toNat < 0xD800 ∨ 0xDFFF < c.toNat ∧ c.toNat < 0x110000 := c.valid
  have hc : Char.ofNat c.toNat = c := Char.ofNat_toNat c
  unfold String.utf8EncodeChar
  change unescapeFrom 0 ((if c.toNat ≤ 0x7F then [UInt8.ofNat c.toNat] else if c.toNat ≤ 0x7FF then
    [UInt8.ofNat (c.toNat / 64 % 0x20 + 0xC0), tail c.toNat] else if c.toNat ≤ 0xFFFF then
    [UInt8.ofNat (c.toNat / 4096 % 0x10 + 0xE0), tail (c.toNat / 64), tail c.toNat] else
    [UInt8.ofNat (c.toNat / 262144 % 0x08 + 0xF0), tail (c.toNat / 4096), tail (c.toNat / 64),
      tail c.toNat]).flatMap escapeByte ++ rest) = _
  generalize hv : c.toNat = v at hvalid hrange hc ⊢
  have htail : ∀ bits, isUnreserved (tail bits) = false := fun bits =>
    reserved_of_le (by rw [toNat_tail]; omega)
  split_ifs with h1 h2 h3
  · rw [List.flatMap_singleton]
    exact unescape_single hv (by omega) hvalid rest
  · have hb : (UInt8.ofNat (v / 64 % 0x20 + 0xC0)).toNat = v / 64 + 0xC0 := by
      rw [toNat_byte (by omega)]
      omega
    have hreserved := reserved_of_le (b := UInt8.ofNat (v / 64 % 0x20 + 0xC0)) (by omega)
    have hsum : 64 * (v / 64) + v % 0x40 = v := by omega
    refine unescapeFrom_front (escapes_ne_nil _ _) ?_
    simp only [List.flatMap_cons, List.flatMap_nil, List.append_nil, List.append_assoc,
      List.length_append, length_escapeByte hreserved, length_escapeByte (htail _)]
    rw [escapedChar_escape (v / 64) 1 0x80 v hreserved
      (by rw [hb, if_neg (by omega), if_pos (by omega), Nat.add_sub_cancel])
      (by rw [continuation_tail, hsum]; rfl) (by omega) hvalid, hc]
  · have hb : (UInt8.ofNat (v / 4096 % 0x10 + 0xE0)).toNat = v / 4096 + 0xE0 := by
      rw [toNat_byte (by omega)]
      omega
    have hreserved := reserved_of_le (b := UInt8.ofNat (v / 4096 % 0x10 + 0xE0)) (by omega)
    have hsum : 64 * (64 * (v / 4096) + v / 64 % 0x40) + v % 0x40 = v := by omega
    refine unescapeFrom_front (escapes_ne_nil _ _) ?_
    simp only [List.flatMap_cons, List.flatMap_nil, List.append_nil, List.append_assoc,
      List.length_append, length_escapeByte hreserved, length_escapeByte (htail _)]
    rw [escapedChar_escape (v / 4096) 2 0x800 v hreserved
      (by rw [hb, if_neg (by omega), if_neg (by omega), if_pos (by omega), Nat.add_sub_cancel])
      (by rw [continuation_tail, continuation_tail, hsum]; rfl) (by omega) hvalid, hc]
  · have hb : (UInt8.ofNat (v / 262144 % 0x08 + 0xF0)).toNat = v / 262144 + 0xF0 := by
      rw [toNat_byte (by omega)]
      omega
    have hreserved := reserved_of_le (b := UInt8.ofNat (v / 262144 % 0x08 + 0xF0)) (by omega)
    have hsum : 64 * (64 * (64 * (v / 262144) + v / 4096 % 0x40) + v / 64 % 0x40) + v % 0x40 = v := by
      omega
    refine unescapeFrom_front (escapes_ne_nil _ _) ?_
    simp only [List.flatMap_cons, List.flatMap_nil, List.append_nil, List.append_assoc,
      List.length_append, length_escapeByte hreserved, length_escapeByte (htail _)]
    rw [escapedChar_escape (v / 262144) 3 0x10000 v hreserved
      (by rw [hb, if_neg (by omega), if_neg (by omega), if_neg (by omega), if_pos (by omega),
        Nat.add_sub_cancel])
      (by rw [continuation_tail, continuation_tail, continuation_tail, hsum]; rfl) (by omega) hvalid, hc]

/-- `Uri.UnescapeDataString` undoes `Uri.EscapeDataString`. -/
theorem unescape_escape (text : List Char) :
    unescapeDataString (escapeDataString text) = text := by
  unfold unescapeDataString escapeDataString
  induction text with
  | nil => rfl
  | cons c text ih => rw [encode_cons, List.flatMap_append, unescape_char, ih]

end ManagedSecurity

import ManagedSecurity.CipherInversion

/-! # What the header builder cannot represent

`Header.Write` checks its arguments against upper bounds only. A negative value is cut to
16 bits, four more than its field has, and goes into the fields in front of it; of a
profile two bits are kept. Here the builder is followed for all arguments.

* `header_write_eq_ok`: when it returns, and the bytes that it leaves;
* `writtenWord_fields`: what the parser finds in the fixed word;
* `fieldValue_negative`: how a negative value can be spelled at all;
* `header_write_faithful`: exactly when the header says what it was built for.
-/

namespace ManagedSecurity

open Bytes Outcome

/-! ## The builder on all values -/

/-- What `EncodeVariableLength12` returns for a value: 16 bits of a negative one. -/
def encodedBase (v : ℤ) : ℕ := if v < 0 then (v % 2 ^ 16).toNat else fieldBase v.toNat

/-- The extension bytes that are written for a value. -/
def encodedExtension (v : ℤ) : Bytes := if v < 0 then [] else fieldExtension v.toNat

/-- The word the builder assembles. -/
def writtenWord (L K profile : ℤ) : ℕ :=
  headerPrefix profile ||| (encodedBase L <<< 12) ||| encodedBase K

/-- What stands behind the word. -/
def writtenTail (L K : ℤ) (dest : Bytes) : Bytes :=
  encodedExtension L ++ (encodedExtension K ++
    dest.drop (4 + (encodedExtension L).length + (encodedExtension K).length))

/-- The size that `GetRequiredSize` adds up. -/
def spaceNeeded (L K profile : ℤ) : ℤ :=
  (4 + (encodedExtension L).length + (encodedExtension K).length +
    (builderProfile profile).sequenceLength + (builderProfile profile).ivLength +
    (builderProfile profile).macLength : ℕ) + L

/-- The arguments with which `Write` returns. The size of a negative length may be less
than that of the bytes that are written. -/
structure Writable (L K profile : ℤ) (dest : Bytes) : Prop where
  length : L < 2 ^ 25
  key : K < 2 ^ 25
  size : spaceNeeded L K profile ≤ dest.length
  bytes : 4 + (encodedExtension L).length + (encodedExtension K).length ≤ dest.length

theorem encodedBase_lt {v : ℤ} (h : v < 2 ^ 25) : encodedBase v < 2 ^ 16 := by
  unfold encodedBase
  split_ifs with hneg
  · omega
  · have hlt : fieldBase v.toNat < 2 ^ 12 := fieldBase_lt (by omega)
    omega

theorem getExtensionCount_eq_ok {v : ℤ} {n : ℕ} :
    getExtensionCount v = .ok n ↔ v < 2 ^ 25 ∧ n = (encodedExtension v).length := by
  unfold encodedExtension
  rcases lt_or_ge v 0 with hneg | hpos
  · have hcount : getExtensionCount v = .ok 0 := if_pos (by omega)
    rw [hcount, if_pos hneg, Except.ok.injEq, List.length_nil]
    constructor
    · rintro rfl
      exact ⟨by omega, rfl⟩
    · rintro ⟨-, rfl⟩
      rfl
  · rw [if_neg (by omega), length_fieldExtension]
    rcases lt_or_ge v (2 ^ 25) with hsmall | hlarge
    · have hcount : getExtensionCount v = .ok (extCount v.toNat) := by
        have := @getExtensionCount_eq v.toNat (by omega)
        rwa [Int.toNat_of_nonneg hpos] at this
      rw [hcount, Except.ok.injEq]
      constructor
      · rintro rfl
        exact ⟨hsmall, rfl⟩
      · rintro ⟨-, rfl⟩
        rfl
    · have hcount : ∃ e, getExtensionCount v = .error e := by
        unfold getExtensionCount
        split_ifs
        · omega
        · omega
        · omega
        · exact ⟨_, rfl⟩
      rcases hcount with ⟨e, he⟩
      rw [he]
      constructor
      · intro h
        cases h
      · rintro ⟨hlt, -⟩
        omega

theorem getRequiredSize_eq_ok {L K profile size : ℤ} :
    getRequiredSize L K profile = .ok size ↔
      L < 2 ^ 25 ∧ K < 2 ^ 25 ∧ size = spaceNeeded L K profile := by
  unfold getRequiredSize
  cases hl : getExtensionCount L with
  | error e =>
    constructor
    · intro h
      cases h
    · rintro ⟨hlt, -, -⟩
      rw [getExtensionCount_eq_ok.mpr ⟨hlt, rfl⟩] at hl
      cases hl
  | ok l =>
    rcases getExtensionCount_eq_ok.mp hl with ⟨hL, rfl⟩
    cases hk : getExtensionCount K with
    | error e =>
      constructor
      · intro h
        cases h
      · rintro ⟨-, hlt, -⟩
        rw [getExtensionCount_eq_ok.mpr ⟨hlt, rfl⟩] at hk
        cases hk
    | ok k =>
      rcases getExtensionCount_eq_ok.mp hk with ⟨hK, rfl⟩
      constructor
      · intro h
        exact ⟨hL, hK, (Except.ok.inj h).symm⟩
      · rintro ⟨-, -, rfl⟩
        rfl

/-- The encoder of one field, for every value it accepts. -/
theorem encodeVariableLength12_ok {v : ℤ} {off : ℕ} {d : Bytes} (hv : v < 2 ^ 25)
    (hroom : encodedExtension v = [] ∨ off + (encodedExtension v).length ≤ d.length) :
    encodeVariableLength12 v off d =
      .ok (encodedBase v, off + (encodedExtension v).length)
        (overwrite d off (encodedExtension v)) := by
  rcases lt_or_ge v 0 with hneg | hpos
  · rw [encodedBase, encodedExtension, if_pos hneg, if_pos hneg, overwrite_nil,
      encodeVariableLength12, if_pos (by omega)]
    rfl
  · rcases Int.eq_ofNat_of_zero_le hpos with ⟨n, rfl⟩
    rw [encodedBase, encodedExtension, if_neg (by omega), if_neg (by omega), Int.toNat_natCast,
      length_fieldExtension]
    rw [encodedExtension, if_neg (by omega), Int.toNat_natCast, length_fieldExtension] at hroom
    rcases hroom with hnil | hfit
    · -- without extension bytes the offset does not matter
      have hcount : extCount n = 0 := by
        rw [← length_fieldExtension, hnil, List.length_nil]
      have hsmall : n < 2 ^ 11 := by
        unfold extCount at hcount
        split_ifs at hcount
        assumption
      have hcut : ((n : ℤ) % 2 ^ 16).toNat = n := by omega
      rw [hnil, hcount, overwrite_nil, fieldBase, if_pos hsmall, encodeVariableLength12,
        if_pos (by omega), hcut]
      rfl
    · exact encodeVariableLength12_eq (by omega) hfit

theorem encodeVariableLength12_eq_ok {v : ℤ} {off : ℕ} {d d' : Bytes} {r : ℕ × ℕ} (hv : v < 2 ^ 25) :
    encodeVariableLength12 v off d = .ok r d' ↔
      (encodedExtension v = [] ∨ off + (encodedExtension v).length ≤ d.length) ∧
        r = (encodedBase v, off + (encodedExtension v).length) ∧
        d' = overwrite d off (encodedExtension v) := by
  constructor
  · intro hrun
    have hroom : encodedExtension v = [] ∨ off + (encodedExtension v).length ≤ d.length := by
      rcases lt_or_ge v (2 ^ 11) with h11 | h11
      · left
        unfold encodedExtension
        split_ifs with hneg
        · rfl
        · rw [fieldExtension, extCount, if_pos (by omega), beBytes]
      · right
        rw [encodedExtension, if_neg (by omega), length_fieldExtension]
        unfold encodeVariableLength12 at hrun
        rw [if_neg (by omega)] at hrun
        unfold extCount
        rw [if_neg (by omega)]
        -- every byte that was stored had a place
        split_ifs at hrun with h18
        · rcases bind_eq_ok.mp hrun with ⟨u, d₁, hset, -⟩
          have hlt := (setByte_eq_ok.mp hset).1
          rw [if_pos (by omega)]
          omega
        · rcases bind_eq_ok.mp hrun with ⟨u, d₁, hset, hrest⟩
          rcases bind_eq_ok.mp hrest with ⟨u', d₂, hset', -⟩
          rcases setByte_eq_ok.mp hset with ⟨hlt, rfl⟩
          have hlt' := (setByte_eq_ok.mp hset').1
          rw [length_overwrite (by rw [List.length_singleton]; omega)] at hlt'
          rw [if_neg (by omega)]
          omega
    rw [encodeVariableLength12_ok hv hroom] at hrun
    rcases EStateM.Result.ok.inj hrun with ⟨hr, hd⟩
    exact ⟨hroom, hr.symm, hd.symm⟩
  · rintro ⟨hroom, rfl, rfl⟩
    exact encodeVariableLength12_ok hv hroom

/-- The four bytes of the word are stored only where there is room for them. -/
theorem setWord_inv {h : ℕ} {dest dest' : Bytes} {u : Unit}
    (hrun : (do
      setByte 0 (UInt8.ofNat ((h >>> 24) &&& 0xFF))
      setByte 1 (UInt8.ofNat ((h >>> 16) &&& 0xFF))
      setByte 2 (UInt8.ofNat ((h >>> 8) &&& 0xFF))
      setByte 3 (UInt8.ofNat (h &&& 0xFF)) : SpanM Unit) dest = .ok u dest') :
    4 ≤ dest.length := by
  have hkeep : ∀ {off : ℕ} {b : UInt8} {d d' : Bytes} {u : Unit},
      setByte off b d = .ok u d' → off < d.length ∧ d'.length = d.length := by
    intro off b d d' u hset
    rcases setByte_eq_ok.mp hset with ⟨hlt, rfl⟩
    exact ⟨hlt, length_overwrite (by rw [List.length_singleton]; omega)⟩
  rcases bind_eq_ok.mp hrun with ⟨u₀, d₀, h₀, hrun₁⟩
  rcases bind_eq_ok.mp hrun₁ with ⟨u₁, d₁, h₁, hrun₂⟩
  rcases bind_eq_ok.mp hrun₂ with ⟨u₂, d₂, h₂, h₃⟩
  have hlen₀ := (hkeep h₀).2
  have hlen₁ := (hkeep h₁).2
  have hlen₂ := (hkeep h₂).2
  have hlt := (hkeep h₃).1
  omega

/-- What `Write` does once the size has been checked. -/
theorem header_write_ok {L K profile : ℤ} {dest : Bytes} (h : Writable L K profile dest) :
    Header.write L K profile dest =
      .ok () (beBytes 4 (writtenWord L K profile) ++ writtenTail L K dest) := by
  have hroom := h.bytes
  have hsize : (ofExcept (getRequiredSize L K profile) : SpanM ℤ) dest =
      .ok (spaceNeeded L K profile) dest := by
    rw [getRequiredSize_eq_ok.mpr ⟨h.length, h.key, rfl⟩]
    rfl
  have hlen : (overwrite dest 4 (encodedExtension L)).length = dest.length :=
    length_overwrite (by omega)
  have hlen' : (overwrite (overwrite dest 4 (encodedExtension L))
      (4 + (encodedExtension L).length) (encodedExtension K)).length = dest.length := by
    rw [length_overwrite (by omega), hlen]
  rw [Header.write, bind_ok hsize, get_bind, bind_ok (ensure_true h.size _ _), fixedHeaderSize,
    bind_ok (encodeVariableLength12_ok h.length (.inr (by omega))),
    bind_ok (encodeVariableLength12_ok h.key (.inr (by omega)))]
  rw [← writtenWord, setWord_ok _ (le_of_le_of_eq (by omega) hlen'.symm),
    overwrite_word (length_beBytes 4 _) (by omega), writtenTail]

/-- When `Write` returns, and the bytes that it leaves. -/
theorem header_write_eq_ok {L K profile : ℤ} {dest dest' : Bytes} {u : Unit} :
    Header.write L K profile dest = .ok u dest' ↔
      Writable L K profile dest ∧
        dest' = beBytes 4 (writtenWord L K profile) ++ writtenTail L K dest := by
  constructor
  · intro hrun
    rcases bind_eq_ok.mp hrun with ⟨size, d₀, hsizeRun, hcheck⟩
    rcases ofExcept_eq_ok.mp hsizeRun with ⟨hsize, rfl⟩
    rw [get_bind] at hcheck
    rcases bind_eq_ok.mp hcheck with ⟨u₁, d₁, hroomRun, hfields⟩
    rcases ensure_eq_ok.mp hroomRun with ⟨hroom, rfl⟩
    rcases bind_eq_ok.mp hfields with ⟨l, d₂, hl, hkey⟩
    rcases bind_eq_ok.mp hkey with ⟨k, d₃, hk, hbytes⟩
    rcases getRequiredSize_eq_ok.mp hsize with ⟨hL, hK, rfl⟩
    rcases (encodeVariableLength12_eq_ok hL).mp hl with ⟨hlRoom, rfl, rfl⟩
    rcases (encodeVariableLength12_eq_ok hK).mp hk with ⟨hkRoom, rfl, rfl⟩
    have hword := setWord_inv hbytes
    have hwritable : Writable L K profile dest := by
      refine ⟨hL, hK, hroom, ?_⟩
      -- an extension that was written had room, and the word always
      have hl' : (overwrite dest fixedHeaderSize (encodedExtension L)).length = dest.length := by
        rcases hlRoom with hnil | hfit
        · rw [hnil, overwrite_nil]
        · exact length_overwrite hfit
      have hk' : (overwrite (overwrite dest fixedHeaderSize (encodedExtension L))
          (fixedHeaderSize + (encodedExtension L).length) (encodedExtension K)).length =
            dest.length := by
        rcases hkRoom with hnil | hfit
        · rw [hnil, overwrite_nil, hl']
        · rw [length_overwrite hfit, hl']
      rw [hk'] at hword
      rcases hkRoom with hnil | hfit
      · rw [hnil, List.length_nil, Nat.add_zero]
        rcases hlRoom with hnil' | hfit'
        · rw [hnil', List.length_nil]
          exact hword
        · exact hfit'
      · rw [hl'] at hfit
        exact hfit
    rw [header_write_ok hwritable] at hrun
    exact ⟨hwritable, (EStateM.Result.ok.inj hrun).2.symm⟩
  · rintro ⟨hwritable, rfl⟩
    exact header_write_ok hwritable

/-! ## What the parser finds -/

section

variable {L K profile : ℤ}

/-- The two bits that are kept of a profile. -/
def switchBits (profile : ℤ) : ℕ := (profile % 4).toNat

theorem headerPrefix_eq (profile : ℤ) :
    headerPrefix profile = (7 * 2 ^ 5 + switchBits profile * 2) * 2 ^ 24 := by
  have hmask : (profile % 2 ^ 32).toNat &&& 0x03 = switchBits profile := by
    rw [and_0x03, switchBits]
    omega
  have hlt : switchBits profile < 4 := by
    unfold switchBits
    omega
  rw [headerPrefix, hmask]
  interval_cases switchBits profile <;> rfl

/-- The fields of the fixed word: each base has four bits more than its field, and they
are set in the fields in front of it. -/
theorem writtenWord_fields (hL : L < 2 ^ 25) (hK : K < 2 ^ 25) :
    writtenWord L K profile < 2 ^ 32 ∧
      writtenWord L K profile / 2 ^ 29 % 2 ^ 3 = 7 ∧
      writtenWord L K profile / 2 ^ 27 % 2 ^ 2 = encodedBase L / 2 ^ 15 ∧
      writtenWord L K profile / 2 ^ 25 % 2 ^ 2 =
        switchBits profile ||| encodedBase L / 2 ^ 13 % 2 ^ 2 ∧
      lengthField (writtenWord L K profile) =
        encodedBase L % 2 ^ 12 ||| encodedBase K / 2 ^ 12 ∧
      keyField (writtenWord L K profile) = encodedBase K % 2 ^ 12 := by
  have hl := encodedBase_lt hL
  have hk := encodedBase_lt hK
  have hs : switchBits profile < 4 := by
    unfold switchBits
    omega
  rw [writtenWord, headerPrefix_eq, Nat.shiftLeft_eq, lengthField, keyField]
  set a := encodedBase L
  set b := encodedBase K
  set q := switchBits profile
  simp only [Nat.or_div_two_pow, Nat.or_mod_two_pow]
  refine ⟨?_, ?_, ?_, ?_, ?_, ?_⟩
  · exact Nat.or_lt_two_pow (Nat.or_lt_two_pow (by omega) (by omega)) (by omega)
  · rw [show (7 * 2 ^ 5 + q * 2) * 2 ^ 24 / 2 ^ 29 % 2 ^ 3 = 7 by omega,
      show a * 2 ^ 12 / 2 ^ 29 % 2 ^ 3 = 0 by omega, show b / 2 ^ 29 % 2 ^ 3 = 0 by omega]
    rfl
  · rw [show (7 * 2 ^ 5 + q * 2) * 2 ^ 24 / 2 ^ 27 % 2 ^ 2 = 0 by omega,
      show a * 2 ^ 12 / 2 ^ 27 % 2 ^ 2 = a / 2 ^ 15 by omega, show b / 2 ^ 27 % 2 ^ 2 = 0 by omega,
      Nat.zero_or, Nat.or_zero]
  · rw [show (7 * 2 ^ 5 + q * 2) * 2 ^ 24 / 2 ^ 25 % 2 ^ 2 = q by omega,
      show a * 2 ^ 12 / 2 ^ 25 % 2 ^ 2 = a / 2 ^ 13 % 2 ^ 2 by omega,
      show b / 2 ^ 25 % 2 ^ 2 = 0 by omega, Nat.or_zero]
  · rw [show (7 * 2 ^ 5 + q * 2) * 2 ^ 24 / 2 ^ 12 % 2 ^ 12 = 0 by omega,
      show a * 2 ^ 12 / 2 ^ 12 % 2 ^ 12 = a % 2 ^ 12 by omega,
      show b / 2 ^ 12 % 2 ^ 12 = b / 2 ^ 12 by omega, Nat.zero_or]
  · rw [show (7 * 2 ^ 5 + q * 2) * 2 ^ 24 % 2 ^ 12 = 0 by omega,
      show a * 2 ^ 12 % 2 ^ 12 = 0 by omega, Nat.zero_or, Nat.zero_or]

end

/-! ## How a value can be spelled -/

/-- The field from which the parser can read a value: the encoder's own, or, for a negative
value, a marker of three ones and the top byte of the two's complement. -/
def spelledField (v : ℤ) : ℕ := if v < 0 then 0xE00 + word32 v / 2 ^ 24 else fieldBase v.toNat

/-- The extension bytes from which the parser can read a value. -/
def spelledExtension (v : ℤ) : Bytes :=
  if v < 0 then beBytes 3 (word32 v) else fieldExtension v.toNat

section

variable {v : ℤ} {f : ℕ} {extension : Bytes}

theorem leadingOnes_spelledField (hlo : -2 ^ 31 ≤ v) (hhi : v < 2 ^ 25) :
    spelledField v < 2 ^ 12 ∧ leadingOnes (spelledField v) = (spelledExtension v).length ∧
      (spelledExtension v).length ≤ 3 := by
  unfold spelledField spelledExtension
  split_ifs with hneg
  · have hword := word32_lt v
    rw [length_beBytes]
    refine ⟨by omega, ?_, le_rfl⟩
    unfold leadingOnes
    split_ifs <;> omega
  · have hlt : v.toNat < 2 ^ 25 := by omega
    rw [length_fieldExtension]
    exact ⟨fieldBase_lt hlt, leadingOnes_fieldBase hlt, (extCount_le _).trans (by omega)⟩

theorem fieldValue_spelledField (hlo : -2 ^ 31 ≤ v) (hhi : v < 2 ^ 25) :
    fieldValue (spelledField v) (spelledExtension v) = v := by
  unfold spelledField spelledExtension
  split_ifs with hneg
  · have hword := word32_lt v
    have hthree : leadingOnes (0xE00 + word32 v / 2 ^ 24) = 3 := by
      unfold leadingOnes
      split_ifs <;> omega
    have hnum : (0xE00 + word32 v / 2 ^ 24) % 2 ^ (11 - 3) * 256 ^ 3 + beNat (beBytes 3 (word32 v)) =
        word32 v := by
      rw [beNat_beBytes]
      omega
    rw [fieldValue, hthree, hnum, int32_word32 hlo (by omega)]
  · rw [fieldValue_fieldBase (by omega)]
    omega

/-- A negative value can be spelled in one way only. -/
theorem fieldValue_negative (hf : f < 2 ^ 12) (hones : leadingOnes f ≤ 3)
    (hext : extension.length = leadingOnes f) (hvalue : fieldValue f extension = v) (hneg : v < 0) :
    f = spelledField v ∧ extension = spelledExtension v := by
  have hlt := beNat_lt extension
  rw [fieldValue] at hvalue
  rw [hext] at hlt
  -- fewer than three ones leave less than 32 bits
  have hthree : leadingOnes f = 3 := by
    by_contra hfew
    have hbits : f % 2 ^ (11 - leadingOnes f) < 2 ^ (11 - leadingOnes f) :=
      Nat.mod_lt _ (by positivity)
    interval_cases leadingOnes f
    all_goals
      rw [int32_of_lt (by omega)] at hvalue
      omega
  rw [hthree] at hvalue hlt
  have hrange : 0xE00 ≤ f ∧ f < 0xF00 := by
    unfold leadingOnes at hthree
    split_ifs at hthree <;> omega
  have hword : word32 v = f % 2 ^ (11 - 3) * 256 ^ 3 + beNat extension := by
    rw [← hvalue, word32, int32]
    split_ifs <;> omega
  rw [spelledField, spelledExtension, if_pos hneg, if_pos hneg]
  constructor
  · omega
  · have hback := beBytes_beNat extension
    rw [hext, hthree] at hback
    rw [← hback, ← beBytes_mod 3 (word32 v), hword, Nat.mul_add_mod_of_lt hlt]

/-- The marker of a field is out of reach for the four bits of its neighbour. -/
theorem leadingOnes_or {n x : ℕ} (hn : n < 2 ^ 25) (hx : x < 2 ^ 4) :
    leadingOnes (fieldBase n ||| x) = extCount n := by
  have hor : (fieldBase n ||| x) / 2 ^ 4 = fieldBase n / 2 ^ 4 := by
    rw [Nat.or_div_two_pow, Nat.div_eq_of_lt hx, Nat.or_zero]
  rw [← leadingOnes_fieldBase hn]
  unfold leadingOnes
  split_ifs <;> omega

/-- With these extension bytes and this marker only the encoder's own field spells the
value. -/
theorem fieldValue_unspoilt {n x : ℕ} (hn : n < 2 ^ 25) (hx : x < 2 ^ 4)
    (hvalue : fieldValue (fieldBase n ||| x) (fieldExtension n) = n) :
    fieldBase n ||| x = fieldBase n := by
  have hbase := fieldBase_lt hn
  have hones := leadingOnes_fieldBase hn
  have hcount := extCount_le n
  have hor : (fieldBase n ||| x) / 2 ^ 4 = fieldBase n / 2 ^ 4 := by
    rw [Nat.or_div_two_pow, Nat.div_eq_of_lt hx, Nat.or_zero]
  have hsame := leadingOnes_or hn hx
  have hdecoded := fieldValue_fieldBase hn
  have hlt := beNat_lt (fieldExtension n)
  rw [fieldValue, hsame] at hvalue
  rw [fieldValue, hones] at hdecoded
  rw [length_fieldExtension] at hlt
  set e := extCount n
  -- both spell less than 2^25 with the same extension bytes, so their low bits agree
  have hless : ∀ y : ℕ, y % 2 ^ (11 - e) * 256 ^ e + beNat (fieldExtension n) < 2 ^ 31 := by
    intro y
    have hy : y % 2 ^ (11 - e) < 2 ^ (11 - e) := Nat.mod_lt _ (by positivity)
    interval_cases e <;> omega
  rw [int32_of_lt (hless _)] at hvalue hdecoded
  interval_cases e <;> omega

/-- A field spells one value with each string of extension bytes. -/
theorem fieldValue_inj {extension' : Bytes} (hones : leadingOnes f ≤ 3)
    (hext : extension.length = leadingOnes f) (hext' : extension'.length = leadingOnes f)
    (hvalue : fieldValue f extension = fieldValue f extension') : extension = extension' := by
  have hlt := beNat_lt extension
  have hlt' := beNat_lt extension'
  have hback := beBytes_beNat extension
  have hback' := beBytes_beNat extension'
  rw [hext] at hlt hback
  rw [hext'] at hlt' hback'
  rw [fieldValue, fieldValue] at hvalue
  have hbits : f % 2 ^ (11 - leadingOnes f) < 2 ^ (11 - leadingOnes f) :=
    Nat.mod_lt _ (by positivity)
  have hnat : beNat extension = beNat extension' := by
    unfold int32 at hvalue
    interval_cases leadingOnes f
    all_goals
      split_ifs at hvalue <;> omega
  rw [← hback, ← hback', hnat]

end

/-! ## Which headers say what they were built for -/

/-- The header says what the builder was asked for. -/
structure Header.Says (h : Header) (L K profile : ℤ) : Prop where
  payloadLength : h.payloadLength = L
  keyIndex : h.keyIndex = K
  ivLength : h.ivLength = (builderProfile profile).ivLength
  macLength : h.macLength = (builderProfile profile).macLength
  sequenceLength : h.sequenceLength = (builderProfile profile).sequenceLength

/-- Nothing that the builder has cut off is missing: the fields are those that spell the
two values, the switch bits those of the profile, and the extension bytes of a negative
value, which are not written, are in the destination by chance. -/
structure HeaderFits (L K profile : ℤ) (dest : Bytes) : Prop where
  version : encodedBase L < 2 ^ 15
  switch : switchProfile (switchBits profile ||| encodedBase L / 2 ^ 13 % 2 ^ 2) =
    .ok (builderProfile profile)
  length : encodedBase L % 2 ^ 12 ||| encodedBase K / 2 ^ 12 = spelledField L
  key : encodedBase K % 2 ^ 12 = spelledField K
  extensions : spelledExtension L ++ spelledExtension K <+: writtenTail L K dest

section

variable {L K profile : ℤ} {dest : Bytes}

theorem headerWord_written (tail : Bytes) (hL : L < 2 ^ 25) (hK : K < 2 ^ 25) :
    headerWord (beBytes 4 (writtenWord L K profile) ++ tail) = writtenWord L K profile := by
  have hlt := (@writtenWord_fields L K profile hL hK).1
  rw [headerWord_take (by rw [List.length_append, length_beBytes]; omega),
    List.take_left' (length_beBytes _ _), beNat_beBytes]
  exact Nat.mod_eq_of_lt hlt

/-- A field of the word and the bytes that the parser takes for it, where they spell the
length. -/
theorem spelled_length {tail : Bytes} (hlo : -2 ^ 31 ≤ L) (hL : L < 2 ^ 25) (hK : K < 2 ^ 25)
    (hones : leadingOnes (encodedBase L % 2 ^ 12 ||| encodedBase K / 2 ^ 12) ≤ 3)
    (hfit : leadingOnes (encodedBase L % 2 ^ 12 ||| encodedBase K / 2 ^ 12) ≤
      (encodedExtension L ++ tail).length)
    (hvalue : fieldValue (encodedBase L % 2 ^ 12 ||| encodedBase K / 2 ^ 12)
      ((encodedExtension L ++ tail).take
        (leadingOnes (encodedBase L % 2 ^ 12 ||| encodedBase K / 2 ^ 12))) = L) :
    encodedBase L % 2 ^ 12 ||| encodedBase K / 2 ^ 12 = spelledField L ∧
      (encodedExtension L ++ tail).take (spelledExtension L).length = spelledExtension L := by
  have hk := encodedBase_lt hK
  rcases lt_or_ge L 0 with hneg | hpos
  · have hlt : encodedBase L % 2 ^ 12 ||| encodedBase K / 2 ^ 12 < 2 ^ 12 :=
      Nat.or_lt_two_pow (Nat.mod_lt _ (by omega)) (by omega)
    have hlen := List.length_take_of_le hfit
    rcases fieldValue_negative hlt hones hlen hvalue hneg with ⟨hfield, hext⟩
    rw [← hext, hlen]
    exact ⟨hfield, rfl⟩
  · rcases Int.eq_ofNat_of_zero_le hpos with ⟨n, rfl⟩
    have hn : n < 2 ^ 25 := by omega
    have hx : encodedBase K / 2 ^ 12 < 2 ^ 4 := by omega
    have hbase : encodedBase n % 2 ^ 12 = fieldBase n := by
      rw [encodedBase, if_neg (by omega), Int.toNat_natCast, Nat.mod_eq_of_lt (fieldBase_lt hn)]
    have hext : encodedExtension n = fieldExtension n := by
      rw [encodedExtension, if_neg (by omega), Int.toNat_natCast]
    have hspelled : spelledExtension n = fieldExtension n := by
      rw [spelledExtension, if_neg (by omega), Int.toNat_natCast]
    have htake : (fieldExtension n ++ tail).take (extCount n) = fieldExtension n :=
      List.take_left' (length_fieldExtension n)
    rw [hbase, hext, leadingOnes_or hn hx, htake] at hvalue
    rw [hbase, hext, hspelled, length_fieldExtension, htake, spelledField, if_neg (by omega),
      Int.toNat_natCast]
    exact ⟨fieldValue_unspoilt hn hx hvalue, rfl⟩

/-- The key index has its field for itself. -/
theorem spelled_key {extension : Bytes} (hlo : -2 ^ 31 ≤ K) (hK : K < 2 ^ 25)
    (hones : leadingOnes (encodedBase K % 2 ^ 12) ≤ 3)
    (hext : extension.length = leadingOnes (encodedBase K % 2 ^ 12))
    (hvalue : fieldValue (encodedBase K % 2 ^ 12) extension = K) :
    encodedBase K % 2 ^ 12 = spelledField K ∧ extension = spelledExtension K := by
  rcases lt_or_ge K 0 with hneg | hpos
  · exact fieldValue_negative (Nat.mod_lt _ (by omega)) hones hext hvalue hneg
  · have hfield : encodedBase K % 2 ^ 12 = spelledField K := by
      rw [encodedBase, spelledField, if_neg (by omega), if_neg (by omega),
        Nat.mod_eq_of_lt (fieldBase_lt (by omega))]
    rw [hfield] at hones hext hvalue
    rcases leadingOnes_spelledField hlo hK with ⟨-, hcount, -⟩
    exact ⟨hfield, fieldValue_inj hones hext hcount.symm
      (hvalue.trans (fieldValue_spelledField hlo hK).symm)⟩

/-- What the parser cuts out of the bytes behind the word. -/
theorem slice_behind_word (word : ℕ) (tail : Bytes) (off len : ℕ) :
    slice (beBytes 4 word ++ tail) (4 + off) len = slice tail off len := by
  have hright := slice_append_right (beBytes 4 word) tail off len
  rwa [length_beBytes] at hright

theorem slice_first (word : ℕ) (tail : Bytes) (len : ℕ) :
    slice (beBytes 4 word ++ tail) 4 len = tail.take len := by
  rw [← Nat.add_zero 4, slice_behind_word, slice_zero]

/-- A header that is parsed and says what was asked for has all it needs. -/
theorem headerFits_of_parse (hLlo : -2 ^ 31 ≤ L) (hKlo : -2 ^ 31 ≤ K) (hL : L < 2 ^ 25)
    (hK : K < 2 ^ 25) {h : Header}
    (hparse : Header.parse (beBytes 4 (writtenWord L K profile) ++ writtenTail L K dest) = .ok h)
    (hsaid : h.Says L K profile) : HeaderFits L K profile dest := by
  rcases @writtenWord_fields L K profile hL hK with ⟨-, -, hversion, hswitch, hlField, hkField⟩
  have hnum := @headerWord_written L K profile (writtenTail L K dest) hL hK
  rcases parse_eq_ok.mp hparse with ⟨p, haccepts, rfl⟩
  have hp : p = builderProfile profile := by
    rcases p with ⟨iv, mac, seq⟩
    have hiv := hsaid.ivLength
    have hmac := hsaid.macLength
    have hseq := hsaid.sequenceLength
    simp only [decodedHeader, Header.layout] at hiv hmac hseq
    rw [hiv, hmac, hseq]
  have hlOnes := haccepts.lengthOnes
  have hkOnes := haccepts.keyOnes
  have hsize := haccepts.extensions
  have hvalueL := hsaid.payloadLength
  have hvalueK := hsaid.keyIndex
  simp only [decodedHeader, Header.layout, hnum, hlField, hkField, slice_first,
    slice_behind_word] at hvalueL hvalueK
  rw [hnum, hlField] at hlOnes
  rw [hnum, hkField] at hkOnes
  rw [headerSize, hnum, hlField, hkField, List.length_append, length_beBytes] at hsize
  -- the length is spelled by what comes first, the key index by what follows it
  rcases spelled_length hLlo hL hK hlOnes (show _ ≤ (writtenTail L K dest).length by omega)
    hvalueL with ⟨hfieldL, hextL⟩
  rcases leadingOnes_spelledField hLlo hL with ⟨-, hcountL, -⟩
  rcases leadingOnes_spelledField hKlo hK with ⟨-, hcountK, -⟩
  rcases spelled_key hKlo hK hkOnes (length_slice_of_le (by omega)) hvalueK with
    ⟨hfieldK, hextK⟩
  refine ⟨?_, ?_, hfieldL, hfieldK, ?_⟩
  · have hversion' := haccepts.version
    rw [hnum, hversion] at hversion'
    have := encodedBase_lt hL
    omega
  · have hswitch' := haccepts.switch
    rw [hnum, hswitch, hp] at hswitch'
    exact hswitch'
  · rw [hfieldL, hfieldK, hcountL, hcountK] at hextK
    have hsplit : spelledExtension L ++ spelledExtension K = (writtenTail L K dest).take
        ((spelledExtension L).length + (spelledExtension K).length) := by
      rw [take_add_slice, hextK]
      exact congrArg (· ++ spelledExtension K) hextL.symm
    rw [hsplit]
    exact List.take_prefix _ _

/-- With all it needs, the header is parsed. -/
theorem parse_of_headerFits (hLlo : -2 ^ 31 ≤ L) (hKlo : -2 ^ 31 ≤ K) (hL : L < 2 ^ 25)
    (hK : K < 2 ^ 25) (hfits : HeaderFits L K profile dest) :
    ∃ h, Header.parse (beBytes 4 (writtenWord L K profile) ++ writtenTail L K dest) = .ok h ∧
      h.Says L K profile := by
  rcases @writtenWord_fields L K profile hL hK with
    ⟨-, hmagic, hversion, hswitch, hlField, hkField⟩
  have hnum := @headerWord_written L K profile (writtenTail L K dest) hL hK
  obtain ⟨rest, hrest⟩ : spelledExtension L ++ spelledExtension K <+: writtenTail L K dest :=
    hfits.extensions
  set data := beBytes 4 (writtenWord L K profile) ++ writtenTail L K dest with hdata
  have hlen : data.length =
      4 + ((spelledExtension L).length + (spelledExtension K).length + rest.length) := by
    rw [hdata, ← hrest]
    simp only [List.length_append, length_beBytes]
  rcases leadingOnes_spelledField hLlo hL with ⟨-, hlOnes, hlFew⟩
  rcases leadingOnes_spelledField hKlo hK with ⟨-, hkOnes, hkFew⟩
  have hsize : headerSize (headerWord data) =
      4 + (spelledExtension L).length + (spelledExtension K).length := by
    rw [headerSize, hnum, hlField, hkField, hfits.length, hfits.key, hlOnes, hkOnes]
  have hlExt : slice data 4 (spelledExtension L).length = spelledExtension L := by
    rw [hdata, slice_first, ← hrest, List.append_assoc]
    exact List.take_left' rfl
  have hkExt : slice data (4 + (spelledExtension L).length) (spelledExtension K).length =
      spelledExtension K := by
    rw [hdata, slice_behind_word, ← hrest, List.append_assoc]
    exact slice_middle _ _ _ rfl rfl
  have hheader : decodedHeader (builderProfile profile) data =
      Header.layout (builderProfile profile) L K
        (4 + (spelledExtension L).length + (spelledExtension K).length) := by
    simp only [decodedHeader, hsize]
    simp only [hnum, hlField, hkField, hfits.length, hfits.key, hlOnes, hkOnes, hlExt, hkExt,
      fieldValue_spelledField hLlo hL, fieldValue_spelledField hKlo hK]
  have haccepts : Accepts data (builderProfile profile) := by
    refine ⟨?_, ?_, ?_, ?_, ?_, ?_, ?_, ?_⟩
    · omega
    · rw [hnum, hmagic]
    · have := hfits.version
      rw [hnum, hversion]
      omega
    · rw [hnum, hswitch]
      exact hfits.switch
    · rw [hnum, hlField, hfits.length, hlOnes]
      exact hlFew
    · rw [hnum, hkField, hfits.key, hkOnes]
      exact hkFew
    · omega
    · have hprofile : (builderProfile profile).sequenceLength +
          (builderProfile profile).ivLength + (builderProfile profile).macLength ≤ 48 := by
        unfold builderProfile
        split_ifs <;> decide
      rw [hheader]
      simp only [Header.layout, intMaxValue]
      push_cast
      omega
  refine ⟨_, parse_eq_ok.mpr ⟨_, haccepts, rfl⟩, ?_⟩
  rw [hheader]
  exact ⟨rfl, rfl, rfl, rfl, rfl⟩

/-- Parsing what the builder leaves. -/
theorem parse_written (hLlo : -2 ^ 31 ≤ L) (hKlo : -2 ^ 31 ≤ K) (hL : L < 2 ^ 25)
    (hK : K < 2 ^ 25) :
    (∃ h, Header.parse (beBytes 4 (writtenWord L K profile) ++ writtenTail L K dest) = .ok h ∧
        h.Says L K profile) ↔ HeaderFits L K profile dest := by
  constructor
  · rintro ⟨h, hparse, hsaid⟩
    exact headerFits_of_parse hLlo hKlo hL hK hparse hsaid
  · exact parse_of_headerFits hLlo hKlo hL hK

/-- Without negative values only the profile can go wrong. -/
theorem headerFits_iff (hL : 0 ≤ L ∧ L < 2 ^ 25) (hK : 0 ≤ K ∧ K < 2 ^ 25) :
    HeaderFits L K profile dest ↔ profile = 1 ∨ profile = 2 ∨ profile % 4 = 0 := by
  have hbase : ∀ v : ℤ, 0 ≤ v ∧ v < 2 ^ 25 → encodedBase v = spelledField v ∧
      encodedBase v < 2 ^ 12 ∧ encodedExtension v = spelledExtension v := by
    rintro v ⟨hpos, hlt⟩
    have hfield : fieldBase v.toNat < 2 ^ 12 := fieldBase_lt (by omega)
    rw [encodedBase, spelledField, encodedExtension, spelledExtension, if_neg (by omega),
      if_neg (by omega), if_neg (by omega), if_neg (by omega)]
    exact ⟨rfl, hfield, rfl⟩
  rcases hbase L hL with ⟨hfieldL, hltL, hextL⟩
  rcases hbase K hK with ⟨hfieldK, hltK, hextK⟩
  have hswitch : switchProfile (switchBits profile ||| encodedBase L / 2 ^ 13 % 2 ^ 2) =
      .ok (builderProfile profile) ↔ profile = 1 ∨ profile = 2 ∨ profile % 4 = 0 := by
    rw [show encodedBase L / 2 ^ 13 % 2 ^ 2 = 0 by omega, Nat.or_zero]
    unfold switchProfile switchBits builderProfile
    split_ifs <;> simp <;> omega
  constructor
  · intro hfits
    exact hswitch.mp hfits.switch
  · intro hprofile
    refine ⟨by omega, hswitch.mpr hprofile, ?_, ?_, ?_⟩
    · rw [Nat.mod_eq_of_lt hltL, Nat.div_eq_of_lt hltK, Nat.or_zero, hfieldL]
    · rw [Nat.mod_eq_of_lt hltK, hfieldK]
    · rw [← hextL, ← hextK, writtenTail, ← List.append_assoc]
      exact List.prefix_append _ _

end

/-- `Write` throws, or what it has left is parsed as what it was asked for. -/
def Header.WritesFaithfully (L K profile : ℤ) (dest : Bytes) : Prop :=
  ∀ dest', Header.write L K profile dest = .ok () dest' →
    ∃ h, Header.parse dest' = .ok h ∧ h.Says L K profile

/-- Values that are not negative under a profile that the switch bits can name; a negative
value by chance. -/
def Representable (L K profile : ℤ) (dest : Bytes) : Prop :=
  if 0 ≤ L ∧ 0 ≤ K then profile = 1 ∨ profile = 2 ∨ profile % 4 = 0
  else HeaderFits L K profile dest

/-- The profile with which `Encrypt` encrypts. -/
def usedProfile (profile : ℤ) : ℕ := if profile = 1 then 1 else if profile = 2 then 2 else 0

/-- The message says under which key index and profile it was encrypted. -/
def Labelled (message : Bytes) (K profile : ℤ) : Prop :=
  ∃ h, Header.parse message = .ok h ∧ h.keyIndex = K ∧
    h.ivLength = (builderProfile (usedProfile profile)).ivLength ∧
    h.macLength = (builderProfile (usedProfile profile)).macLength ∧
    h.sequenceLength = (builderProfile (usedProfile profile)).sequenceLength

theorem representable_iff {L K profile : ℤ} {dest : Bytes} (hL : L < 2 ^ 25) (hK : K < 2 ^ 25) :
    Representable L K profile dest ↔ HeaderFits L K profile dest := by
  unfold Representable
  split_ifs with hpos
  · exact (headerFits_iff ⟨hpos.1, hL⟩ ⟨hpos.2, hK⟩).symm
  · rfl

theorem writesFaithfully_iff {L K profile : ℤ} (hL : -2 ^ 31 ≤ L) (hK : -2 ^ 31 ≤ K)
    (dest : Bytes) :
    Header.WritesFaithfully L K profile dest ↔
      ¬ Writable L K profile dest ∨ Representable L K profile dest := by
  by_cases hwritable : Writable L K profile dest
  · rw [representable_iff hwritable.length hwritable.key,
      ← parse_written hL hK hwritable.length hwritable.key]
    constructor
    · intro hfaithful
      exact .inr (hfaithful _ (header_write_eq_ok.mpr ⟨hwritable, rfl⟩))
    · rintro (hnot | hsaid) dest' hrun
      · exact absurd hwritable hnot
      · rcases header_write_eq_ok.mp hrun with ⟨-, rfl⟩
        exact hsaid
  · constructor
    · exact fun _ => .inl hwritable
    · intro _ dest' hrun
      exact absurd (header_write_eq_ok.mp hrun).1 hwritable

/-- The header of a message is the one that was parsed from what the builder had left. -/
theorem labelled_iff {h : Header} {n q : ℕ} {K profile : ℤ} {d d₂ m : Bytes}
    (hq : usedProfile profile = q) (hK : -2 ^ 31 ≤ K) (hinto : h.WrittenInto n K q d d₂)
    (hbuilt : h.BuiltFor n K q) (hparse : Header.parse m = .ok h) (hlength : h.payloadLength = n) :
    Labelled m K profile ↔ Representable n K q d := by
  rcases hinto with ⟨-, d₁, hwrite, hparse₁⟩
  rcases header_write_eq_ok.mp hwrite with ⟨hwritable, rfl⟩
  rw [representable_iff hwritable.length hwritable.key,
    ← parse_written (by omega) hK hwritable.length hwritable.key]
  constructor
  · rintro ⟨h', hparse', hkey, -⟩
    obtain rfl := Except.ok.inj (hparse.symm.trans hparse')
    exact ⟨h, hparse₁, ⟨hlength, hkey, hbuilt.ivLength, hbuilt.macLength, hbuilt.sequenceLength⟩⟩
  · rintro ⟨h', hparse', hsaid⟩
    obtain rfl := Except.ok.inj (hparse₁.symm.trans hparse')
    refine ⟨h, hparse, hsaid.keyIndex, ?_, ?_, ?_⟩
    · rw [hq]
      exact hbuilt.ivLength
    · rw [hq]
      exact hbuilt.macLength
    · rw [hq]
      exact hbuilt.sequenceLength

/-- A message is labelled rightly exactly if the header could be written. -/
theorem encrypt_labelled {c : Cipher} {random : ℕ → UInt8} {plaintext : PlainSpan}
    {K profile : ℤ} {seq : UInt64} {dest m : Bytes} {call : GcmCall} (hK : -2 ^ 31 ≤ K)
    (hspan : ∀ d : Bytes, d.length = dest.length → (plaintext.read d).length = plaintext.length)
    (hrun : c.encrypt random plaintext K profile seq dest = .ok call m) :
    Labelled m K profile ↔ Representable plaintext.length K (usedProfile profile) dest := by
  unfold Cipher.encrypt at hrun
  by_cases h1 : profile = 1
  · have hq : usedProfile profile = 1 := if_pos h1
    rw [if_pos h1] at hrun
    obtain ⟨h, masterKey, hdr, inputNonce, d₂, -, -, -, hplain, hbuilt, hinto, -, -, -, hw⟩ :=
      Cipher.encryptS1_inv hrun
    rw [hq]
    apply labelled_iff hq hK hinto hbuilt hw.parsed
    rw [hw.payload, hplain, hspan d₂ hinto.1]
  · rw [if_neg h1] at hrun
    by_cases h2 : profile = 2
    · have hq : usedProfile profile = 2 := by rw [usedProfile, if_neg h1, if_pos h2]
      rw [if_pos h2] at hrun
      obtain ⟨h, hdr, d₂, -, -, -, hplain, -, hbuilt, hinto, -, hw⟩ := Cipher.encryptS2_inv hrun
      rw [hq]
      apply labelled_iff hq hK hinto hbuilt hw.parsed
      rw [hw.payload, hplain, hspan d₂ hinto.1]
    · have hq : usedProfile profile = 0 := by rw [usedProfile, if_neg h1, if_neg h2]
      rw [if_neg h2] at hrun
      obtain ⟨h, d₂, -, -, hplain, hbuilt, hinto, -, hw⟩ := Cipher.encryptS0_inv hrun
      rw [hq]
      apply labelled_iff hq hK hinto hbuilt hw.parsed
      rw [hw.payload, hplain, hspan d₂ hinto.1]

/-- Exactly when the header says what it was built for, and a message what it was
encrypted with. -/
theorem header_write_faithful (L K profile : ℤ) (hL : -2 ^ 31 ≤ L) (hK : -2 ^ 31 ≤ K) :
    (∀ dest, Header.WritesFaithfully L K profile dest ↔
        ¬ Writable L K profile dest ∨ Representable L K profile dest) ∧
      ∀ (c : Cipher) random (plaintext : PlainSpan) seq dest call m,
        (∀ d : Bytes, d.length = dest.length →
          (plaintext.read d).length = plaintext.length) →
        c.encrypt random plaintext K profile seq dest = .ok call m →
        (Labelled m K profile ↔ Representable plaintext.length K (usedProfile profile) dest) := by
  constructor
  · exact writesFaithfully_iff hL hK
  · intro c random plaintext seq dest call m hspan hrun
    exact encrypt_labelled hK hspan hrun

/-- Profile 1 for ten bytes under the key index 7. -/
theorem header_write_faithful_ten :
    (-2 ^ 31 : ℤ) ≤ 10 ∧ (-2 ^ 31 : ℤ) ≤ 7 ∧
      Header.WritesFaithfully 10 7 1 (List.replicate 70 0) := by
  refine ⟨by norm_num, by norm_num, ?_⟩
  have hall := (header_write_faithful 10 7 1 (by norm_num) (by norm_num)).1
  apply (hall _).mpr
  right
  exact (if_pos ⟨by norm_num, by norm_num⟩ : Representable 10 7 1 _ = _).mpr (.inl rfl)

/-- Of the key index -2048 the parser finds one extension byte and the value 0, and four
of its bits are in the length field. -/
theorem negative_key_unrepresentable :
    ¬ Header.WritesFaithfully 0 (-2048) 0 (List.replicate 40 0) := by
  rw [writesFaithfully_iff (by norm_num) (by norm_num)]
  rintro (hnot | hfits)
  · apply hnot
    refine ⟨by norm_num, by norm_num, ?_, ?_⟩
    · rw [List.length_replicate]
      decide
    · rw [List.length_replicate]
      decide
  · rw [representable_iff (by norm_num) (by norm_num)] at hfits
    have hkey := hfits.key
    revert hkey
    decide

end ManagedSecurity

import ManagedSecurity.Header

/-! # The grammar the header parser accepts

The bit loops of `DecodeVariableLength12` and `CountLeadingOnes12` are replaced
by closed forms: `leadingOnes` for the prefix code and `fieldValue` for the
decoded field. `parse_eq_ok` then says exactly when the constructor accepts and
what it returns, and `parse_congr` that only the fixed word and the extension
bytes it announces are read.
-/

namespace ManagedSecurity

open Bytes

/-! ## Bits as arithmetic -/

theorem and_0x800 (x : ℕ) : x &&& 0x800 ≠ 0 ↔ x / 2 ^ 11 % 2 = 1 := by
  have hbit : x &&& 0x800 = (x.testBit 11).toNat * 2 ^ 11 := Nat.and_two_pow x 11
  rw [hbit, Nat.testBit_eq_decide_div_mod_eq]
  by_cases h : x / 2 ^ 11 % 2 = 1
  · rw [decide_eq_true h]
    exact ⟨fun _ => h, fun _ => by decide⟩
  · rw [decide_eq_false h]
    exact ⟨fun hne => absurd rfl hne, fun h' => absurd h' h⟩

theorem and_0xFFF (x : ℕ) : x &&& 0xFFF = x % 2 ^ 12 := Nat.and_two_pow_sub_one_eq_mod x 12

theorem and_0x07 (x : ℕ) : x &&& 0x07 = x % 2 ^ 3 := Nat.and_two_pow_sub_one_eq_mod x 3

theorem and_0x03 (x : ℕ) : x &&& 0x03 = x % 2 ^ 2 := Nat.and_two_pow_sub_one_eq_mod x 2

theorem and_0xFF (x : ℕ) : x &&& 0xFF = x % 2 ^ 8 := Nat.and_two_pow_sub_one_eq_mod x 8

/-- Joining a high part and a low part that do not overlap. -/
theorem shiftLeft_or {i b : ℕ} (a : ℕ) (h : b < 2 ^ i) : (a <<< i) ||| b = a * 2 ^ i + b := by
  rw [← Nat.shiftLeft_add_eq_or_of_lt h, Nat.shiftLeft_eq]

/-- The parser's word is the big-endian value of the first four bytes. -/
theorem headerWord_eq (b₀ b₁ b₂ b₃ : UInt8) (rest : Bytes) :
    headerWord (b₀ :: b₁ :: b₂ :: b₃ :: rest) = beNat [b₀, b₁, b₂, b₃] := by
  have h₀ := b₀.toNat_lt
  have h₁ := b₁.toNat_lt
  have h₂ := b₂.toNat_lt
  have h₃ := b₃.toNat_lt
  have hlow : (b₂.toNat <<< 8) ||| b₃.toNat = b₂.toNat * 2 ^ 8 + b₃.toNat := shiftLeft_or _ h₃
  have hmid : (b₁.toNat <<< 16) ||| (b₂.toNat * 2 ^ 8 + b₃.toNat)
      = b₁.toNat * 2 ^ 16 + (b₂.toNat * 2 ^ 8 + b₃.toNat) := shiftLeft_or _ (by omega)
  have hhigh : (b₀.toNat <<< 24) ||| (b₁.toNat * 2 ^ 16 + (b₂.toNat * 2 ^ 8 + b₃.toNat))
      = b₀.toNat * 2 ^ 24 + (b₁.toNat * 2 ^ 16 + (b₂.toNat * 2 ^ 8 + b₃.toNat)) :=
    shiftLeft_or _ (by omega)
  have hword : headerWord (b₀ :: b₁ :: b₂ :: b₃ :: rest) =
      ((b₀.toNat <<< 24) ||| (b₁.toNat <<< 16) ||| (b₂.toNat <<< 8)) ||| b₃.toNat := rfl
  rw [hword, Nat.or_assoc, Nat.or_assoc, hlow, hmid, hhigh]
  simp only [beNat_cons, beNat_nil, List.length_cons, List.length_nil]
  omega

/-- `headerWord` reads nothing but the first four bytes. -/
theorem headerWord_take {data : Bytes} (h : 4 ≤ data.length) :
    headerWord data = beNat (data.take 4) := by
  match data, h with
  | b₀ :: b₁ :: b₂ :: b₃ :: rest, _ => exact headerWord_eq b₀ b₁ b₂ b₃ rest

/-! ## The prefix code -/

/-- The number of leading ones of a 12-bit field, where four or more count as
four: the number of extension bytes the field announces. -/
def leadingOnes (field : ℕ) : ℕ :=
  if field < 0x800 then 0
  else if field < 0xC00 then 1
  else if field < 0xE00 then 2
  else if field < 0xF00 then 3
  else 4

theorem countExtensions_eq {field : ℕ} (h : field < 2 ^ 12) :
    countExtensions 4 field 0 =
      if leadingOnes field ≤ 3 then .ok (leadingOnes field)
      else .error (.argument "Too many field extension bytes.") := by
  simp only [countExtensions, and_0x800, Nat.shiftLeft_eq, leadingOnes]
  split_ifs <;> first | rfl | omega

theorem countLeadingOnes12_eq {field : ℕ} (h : field < 2 ^ 12) :
    countLeadingOnes12 4 field 0 = leadingOnes field := by
  simp only [countLeadingOnes12, and_0x800, Nat.shiftLeft_eq, leadingOnes]
  split_ifs <;> first | rfl | omega

/-- The value of a field with its extension bytes: the bits behind the marker,
then the extension bytes, read as a signed 32-bit word. -/
def fieldValue (field : ℕ) (extension : Bytes) : ℤ :=
  int32 (field % 2 ^ (11 - leadingOnes field) * 256 ^ leadingOnes field + beNat extension)

/-- The extension loop appends the bytes it reads, as long as they fit. -/
theorem readExtensions_eq (data : Bytes) :
    ∀ (i value offset : ℕ), (value + 1) * 256 ^ i ≤ 2 ^ 32 →
    readExtensions data i value offset =
      if offset + i ≤ data.length ∨ i = 0 then
        .ok (value * 256 ^ i + beNat (slice data offset i), offset + i)
      else .error (.argument "Data too short for header extensions.") := by
  intro i
  induction i with
  | zero =>
    intro value offset _
    simp [readExtensions]
  | succ i ih =>
    intro value offset hfit
    rw [readExtensions]
    have hstep : (value * 256 + 256) * 256 ^ i ≤ 2 ^ 32 := by
      calc (value * 256 + 256) * 256 ^ i = (value + 1) * 256 ^ (i + 1) := by ring
        _ ≤ 2 ^ 32 := hfit
    have hpos : 1 ≤ 256 ^ i := Nat.one_le_pow _ _ (by omega)
    have hword : value * 256 + 256 ≤ 2 ^ 32 :=
      le_trans (Nat.le_mul_of_pos_right _ hpos) hstep
    cases hb : data[offset]? with
    | none =>
      have hlen := List.getElem?_eq_none_iff.mp hb
      rw [if_neg (by omega)]
    | some b =>
      rcases List.getElem?_eq_some_iff.mp hb with ⟨hlen, hget⟩
      have hbyte := b.toNat_lt
      -- no bit is lost by the wrapping shift, and the byte fills the gap
      have hval : ((value <<< 8) % 2 ^ 32) ||| b.toNat = value * 256 + b.toNat := by
        rw [Nat.mod_eq_of_lt (by rw [Nat.shiftLeft_eq]; omega)]
        exact shiftLeft_or value hbyte
      have hnext : (value * 256 + b.toNat + 1) * 256 ^ i ≤ 2 ^ 32 :=
        le_trans (Nat.mul_le_mul_right _ (by omega)) hstep
      have hwin : slice data offset (i + 1) = b :: slice data (offset + 1) i := by
        rw [slice, List.drop_eq_getElem_cons hlen, List.take_succ_cons, hget, slice]
      show readExtensions data i (((value <<< 8) % 2 ^ 32) ||| b.toNat) (offset + 1) = _
      rw [hval, ih _ _ hnext]
      by_cases hi : offset + 1 + i ≤ data.length
      · rw [if_pos (Or.inl hi), if_pos (Or.inl (by omega)), hwin, beNat_cons,
          length_slice_of_le hi]
        congr 2
        · ring
        · omega
      · have hne : i ≠ 0 := by omega
        rw [if_neg (by omega), if_neg (by omega)]

/-- `DecodeVariableLength12` in closed form. -/
theorem decodeVariableLength12_eq {field : ℕ} (h : field < 2 ^ 12) (data : Bytes) (offset : ℕ) :
    decodeVariableLength12 field data offset =
      if leadingOnes field ≤ 3 then
        if offset + leadingOnes field ≤ data.length ∨ leadingOnes field = 0 then
          .ok (fieldValue field (slice data offset (leadingOnes field)),
            offset + leadingOnes field)
        else .error (.argument "Data too short for header extensions.")
      else .error (.argument "Too many field extension bytes.") := by
  rw [decodeVariableLength12, countExtensions_eq h]
  by_cases h3 : leadingOnes field ≤ 3
  · rw [if_pos h3, if_pos h3]
    by_cases h0 : leadingOnes field = 0
    · -- no extension: the field itself, below 2^11
      have hsmall : field < 2 ^ 11 := by
        unfold leadingOnes at h0
        split_ifs at h0
        omega
      have hval : fieldValue field [] = field := by
        simp only [fieldValue, h0, beNat_nil, Nat.sub_zero, pow_zero, Nat.mul_one, Nat.add_zero]
        rw [Nat.mod_eq_of_lt hsmall, int32_of_lt (by omega)]
      simp only [h0, if_pos, or_true, slice_len_zero, hval, Nat.add_zero]
    · have hmask : field &&& ((1 <<< (12 - (leadingOnes field + 1))) - 1)
          = field % 2 ^ (11 - leadingOnes field) := by
        rw [Nat.one_shiftLeft, Nat.and_two_pow_sub_one_eq_mod]
        congr 2
        omega
      have hfit : (field % 2 ^ (11 - leadingOnes field) + 1) * 256 ^ leadingOnes field ≤ 2 ^ 32 := by
        have hlt : field % 2 ^ (11 - leadingOnes field) < 2 ^ (11 - leadingOnes field) :=
          Nat.mod_lt _ (by positivity)
        calc (field % 2 ^ (11 - leadingOnes field) + 1) * 256 ^ leadingOnes field
            ≤ 2 ^ (11 - leadingOnes field) * 256 ^ leadingOnes field :=
              Nat.mul_le_mul_right _ hlt
          _ ≤ 2 ^ 32 := by
              interval_cases leadingOnes field <;> omega
      simp only [if_neg h0, hmask, readExtensions_eq data _ _ _ hfit]
      by_cases hlen : offset + leadingOnes field ≤ data.length
      · simp only [hlen, true_or, if_pos, fieldValue]
      · simp only [hlen, h0, or_self, if_false]
  · rw [if_neg h3, if_neg h3]

/-! ## Acceptance -/

/-- The `L` field of a header word. -/
def lengthField (h : ℕ) : ℕ := h / 2 ^ 12 % 2 ^ 12

/-- The `KI` field of a header word. -/
def keyField (h : ℕ) : ℕ := h % 2 ^ 12

/-- The size of the fixed word and the extension bytes it announces. -/
def headerSize (h : ℕ) : ℕ := 4 + leadingOnes (lengthField h) + leadingOnes (keyField h)

theorem lengthField_lt (h : ℕ) : lengthField h < 2 ^ 12 := Nat.mod_lt _ (by omega)

theorem keyField_lt (h : ℕ) : keyField h < 2 ^ 12 := Nat.mod_lt _ (by omega)

/-- The frame reader counts the extension bytes that the parser will read. -/
theorem calculateHeaderExtensions_eq (h : ℕ) :
    4 + calculateHeaderExtensions h = headerSize h := by
  have hl : (h >>> 12) &&& 0xFFF = lengthField h := by
    rw [and_0xFFF, Nat.shiftRight_eq_div_pow, lengthField]
  have hk : h &&& 0xFFF = keyField h := by
    rw [and_0xFFF, keyField]
  rw [calculateHeaderExtensions, hl, hk, countLeadingOnes12_eq (lengthField_lt h),
    countLeadingOnes12_eq (keyField_lt h), headerSize, Nat.add_assoc]

/-- What the constructor returns for a word and the bytes behind it. -/
def decodedHeader (p : Profile) (data : Bytes) : Header :=
  let h := headerWord data
  let lExt := leadingOnes (lengthField h)
  let kExt := leadingOnes (keyField h)
  Header.layout p (fieldValue (lengthField h) (slice data 4 lExt))
    (fieldValue (keyField h) (slice data (4 + lExt) kExt)) (headerSize h)

/-- The conditions under which the constructor accepts. -/
structure Accepts (data : Bytes) (p : Profile) : Prop where
  word : 4 ≤ data.length
  magic : headerWord data / 2 ^ 29 % 2 ^ 3 = 7
  version : headerWord data / 2 ^ 27 % 2 ^ 2 = 0
  switch : switchProfile (headerWord data / 2 ^ 25 % 2 ^ 2) = .ok p
  lengthOnes : leadingOnes (lengthField (headerWord data)) ≤ 3
  keyOnes : leadingOnes (keyField (headerWord data)) ≤ 3
  extensions : headerSize (headerWord data) ≤ data.length
  total : (decodedHeader p data).totalLength ≤ intMaxValue

/-- The two variable fields of a word, with the whole acceptance condition. -/
theorem parseFields_eq_ok {p : Profile} {data : Bytes} {header : Header} (h4 : 4 ≤ data.length) :
    Header.parseFields p (headerWord data) data = .ok header ↔
      (leadingOnes (lengthField (headerWord data)) ≤ 3 ∧
        leadingOnes (keyField (headerWord data)) ≤ 3 ∧
        headerSize (headerWord data) ≤ data.length ∧
        (decodedHeader p data).totalLength ≤ intMaxValue) ∧
      header = decodedHeader p data := by
  set h := headerWord data with hh
  have hl : (h >>> 12) &&& 0xFFF = lengthField h := by
    rw [and_0xFFF, Nat.shiftRight_eq_div_pow, lengthField]
  have hk : h &&& 0xFFF = keyField h := by
    rw [and_0xFFF, keyField]
  have hsize : headerSize h = 4 + leadingOnes (lengthField h) + leadingOnes (keyField h) := rfl
  rw [Header.parseFields, hl, hk, decodeVariableLength12_eq (lengthField_lt h), fixedHeaderSize]
  -- the decoder's checks in its own order: length field, key field, total
  by_cases hl3 : leadingOnes (lengthField h) ≤ 3
  swap
  · simp [hl3]
  by_cases hlLen : 4 + leadingOnes (lengthField h) ≤ data.length
  swap
  · have h0 : leadingOnes (lengthField h) ≠ 0 := by omega
    have hshort : ¬ headerSize h ≤ data.length := by omega
    simp [hl3, hlLen, h0, hshort]
  simp only [hl3, hlLen, if_pos, true_or, decodeVariableLength12_eq (keyField_lt h)]
  by_cases hk3 : leadingOnes (keyField h) ≤ 3
  swap
  · simp [hk3]
  by_cases hkLen : headerSize h ≤ data.length
  swap
  · have h0 : leadingOnes (keyField h) ≠ 0 := by omega
    have hkLen' : ¬ 4 + leadingOnes (lengthField h) + leadingOnes (keyField h) ≤ data.length := by
      omega
    simp [hk3, hkLen, hkLen', h0]
  have hkLen' : 4 + leadingOnes (lengthField h) + leadingOnes (keyField h) ≤ data.length := hkLen
  have hheader : Header.layout p (fieldValue (lengthField h) (slice data 4 (leadingOnes (lengthField h))))
      (fieldValue (keyField h) (slice data (4 + leadingOnes (lengthField h))
        (leadingOnes (keyField h))))
      (4 + leadingOnes (lengthField h) + leadingOnes (keyField h)) = decodedHeader p data := rfl
  simp only [hk3, hkLen', if_pos, true_or, hheader, hkLen, true_and]
  by_cases ht : (decodedHeader p data).totalLength ≤ intMaxValue
  · rw [if_neg (by omega)]
    simp only [Except.ok.injEq, ht, true_and]
    exact eq_comm
  · rw [if_pos (by omega)]
    simp [ht]

/-- Exactly when the constructor accepts, and what it then returns. -/
theorem parse_eq_ok {data : Bytes} {header : Header} :
    Header.parse data = .ok header ↔ ∃ p, Accepts data p ∧ header = decodedHeader p data := by
  have hmagic : (headerWord data >>> 29) &&& 0x07 = headerWord data / 2 ^ 29 % 2 ^ 3 := by
    rw [and_0x07, Nat.shiftRight_eq_div_pow]
  have hversion : (headerWord data >>> 27) &&& 0x03 = headerWord data / 2 ^ 27 % 2 ^ 2 := by
    rw [and_0x03, Nat.shiftRight_eq_div_pow]
  have hswitch : (headerWord data >>> 25) &&& 0x03 = headerWord data / 2 ^ 25 % 2 ^ 2 := by
    rw [and_0x03, Nat.shiftRight_eq_div_pow]
  simp only [Header.parse, hmagic, hversion, hswitch, fixedHeaderSize]
  constructor
  · intro hp
    split_ifs at hp with h4 hm hv
    rcases hs : switchProfile (headerWord data / 2 ^ 25 % 2 ^ 2) with e | p
    · rw [hs] at hp
      exact absurd hp (by simp)
    · rw [hs] at hp
      rw [parseFields_eq_ok (by omega)] at hp
      rcases hp with ⟨⟨hl, hk, hlen, ht⟩, heq⟩
      exact ⟨p, ⟨by omega, by omega, by omega, hs, hl, hk, hlen, ht⟩, heq⟩
  · rintro ⟨p, ha, rfl⟩
    rw [if_neg (by have := ha.word; omega), if_neg (by have := ha.magic; omega),
      if_neg (by have := ha.version; omega), ha.switch]
    exact (parseFields_eq_ok ha.word).mpr
      ⟨⟨ha.lengthOnes, ha.keyOnes, ha.extensions, ha.total⟩, rfl⟩

/-- The regions of a parsed header follow each other. -/
theorem parse_adjacent {m : Bytes} {h : Header} (hparse : Header.parse m = .ok h) :
    h.macOffset = h.ivOffset + h.ivLength ∧ h.payloadOffset = h.macOffset + h.macLength ∧
      h.totalLength = h.payloadOffset + h.payloadLength ∧
      h.ivOffset = headerSize (headerWord m) + h.sequenceLength := by
  rcases parse_eq_ok.mp hparse with ⟨p, -, rfl⟩
  exact ⟨rfl, rfl, rfl, rfl⟩

theorem headerWord_take_of_le (data : Bytes) {n : ℕ} (hn : 4 ≤ n) :
    headerWord (data.take n) = headerWord data := by
  have hget : ∀ i, i < 4 → (data.take n).getD i 0 = data.getD i 0 := by
    intro i hi
    rw [List.getD_eq_getElem?_getD, List.getD_eq_getElem?_getD,
      List.getElem?_take_of_lt (by omega)]
  rw [headerWord, hget 0 (by omega), hget 1 (by omega), hget 2 (by omega), hget 3 (by omega),
    headerWord]

/-- A field is decoded from the bytes that it announces. -/
theorem decodeVariableLength12_take {field : ℕ} (h : field < 2 ^ 12) (data : Bytes)
    {offset n : ℕ} (hn : offset + leadingOnes field ≤ n) :
    decodeVariableLength12 field (data.take n) offset = decodeVariableLength12 field data offset := by
  have hlen : offset + leadingOnes field ≤ (data.take n).length ↔
      offset + leadingOnes field ≤ data.length := by
    rw [List.length_take]
    omega
  have hslice : slice (data.take n) offset (leadingOnes field) =
      slice data offset (leadingOnes field) := by
    have hcut : slice (slice data 0 n) offset (leadingOnes field) =
        slice data (0 + offset) (leadingOnes field) := slice_slice data hn
    rw [slice_zero, Nat.zero_add] at hcut
    exact hcut
  rw [decodeVariableLength12_eq h, decodeVariableLength12_eq h]
  simp only [hlen, hslice]

/-- What the constructor does depends on the header alone, also where it throws. -/
theorem parse_take (data : Bytes) {n : ℕ} (hn : headerSize (headerWord data) ≤ n) :
    Header.parse (data.take n) = Header.parse data := by
  have hsize : headerSize (headerWord data) = 4 + leadingOnes (lengthField (headerWord data)) +
      leadingOnes (keyField (headerWord data)) := rfl
  have hshort : (data.take n).length < fixedHeaderSize ↔ data.length < fixedHeaderSize := by
    rw [List.length_take, fixedHeaderSize]
    omega
  have hfields : ∀ p, Header.parseFields p (headerWord data) (data.take n) =
      Header.parseFields p (headerWord data) data := by
    intro p
    set h := headerWord data
    have hl : (h >>> 12) &&& 0xFFF = lengthField h := by
      rw [and_0xFFF, Nat.shiftRight_eq_div_pow, lengthField]
    have hk : h &&& 0xFFF = keyField h := by
      rw [and_0xFFF, keyField]
    rw [Header.parseFields, Header.parseFields, hl, hk, fixedHeaderSize,
      decodeVariableLength12_take (lengthField_lt h) data (by omega)]
    cases hfirst : decodeVariableLength12 (lengthField h) data 4 with
    | error e => rfl
    | ok first =>
      rcases first with ⟨payloadLength, offset⟩
      -- the key field begins where the length field ends
      have hoffset : offset = 4 + leadingOnes (lengthField h) := by
        rw [decodeVariableLength12_eq (lengthField_lt h)] at hfirst
        split_ifs at hfirst
        exact (congrArg Prod.snd (Except.ok.inj hfirst)).symm
      simp only [decodeVariableLength12_take (keyField_lt h) data (show offset +
        leadingOnes (keyField h) ≤ n by omega)]
  rw [Header.parse, Header.parse, headerWord_take_of_le data (by omega)]
  simp only [hshort, hfields]

/-- Only the fixed word and the announced extension bytes matter. -/
theorem parse_congr {data data' : Bytes} {header : Header} (h : Header.parse data = .ok header)
    (htake : data'.take (headerSize (headerWord data)) = data.take (headerSize (headerWord data))) :
    Header.parse data' = .ok header ∧ headerWord data' = headerWord data := by
  have hfour : 4 ≤ headerSize (headerWord data) := by
    unfold headerSize
    omega
  have hword : headerWord data' = headerWord data := by
    rw [← headerWord_take_of_le data' hfour, htake, headerWord_take_of_le data hfour]
  constructor
  · rw [← parse_take data' (le_of_eq (congrArg headerSize hword)), htake,
      parse_take data le_rfl, h]
  · exact hword

/-! ## Fronts of messages -/

/-- What the front of a byte string parses to, the whole does too. -/
theorem parse_of_take {data : Bytes} {n : ℕ} {header : Header}
    (h : Header.parse (data.take n) = .ok header) : Header.parse data = .ok header := by
  rcases parse_eq_ok.mp h with ⟨p, haccepts, -⟩
  have hlen := haccepts.extensions
  rw [List.length_take] at hlen
  refine (parse_congr h ?_).1
  rw [List.take_take, Nat.min_eq_left (by omega)]

/-- A header does not parse from fewer bytes than it has. -/
theorem parse_short {data : Bytes} {n : ℕ} (h4 : 4 ≤ data.length)
    (hshort : n < headerSize (headerWord data)) : ∃ e, Header.parse (data.take n) = .error e := by
  cases hparse : Header.parse (data.take n) with
  | error e => exact ⟨e, rfl⟩
  | ok h =>
    rcases parse_eq_ok.mp hparse with ⟨p, haccepts, -⟩
    have hword := haccepts.word
    have hfull := haccepts.extensions
    rw [List.length_take] at hword hfull
    have hsame : headerWord (data.take n) = headerWord data := by
      rw [headerWord_take haccepts.word, headerWord_take h4, List.take_take, Nat.min_eq_left (by omega)]
    rw [hsame] at hfull
    omega

/-- A header with a sequence number has the lengths of profile 2. -/
theorem parse_sequenceLength {data : Bytes} {h : Header} (hparse : Header.parse data = .ok h)
    (hseq : 0 < h.sequenceLength) : h.sequenceLength = 8 ∧ h.ivLength = 12 ∧ h.macLength = 16 := by
  rcases parse_eq_ok.mp hparse with ⟨p, haccepts, rfl⟩
  have hswitch := haccepts.switch
  unfold switchProfile at hswitch
  split_ifs at hswitch
  · obtain rfl := Except.ok.inj hswitch
    exact absurd hseq (lt_irrefl 0)
  · obtain rfl := Except.ok.inj hswitch
    exact absurd hseq (lt_irrefl 0)
  · obtain rfl := Except.ok.inj hswitch
    exact ⟨rfl, rfl, rfl⟩

end ManagedSecurity

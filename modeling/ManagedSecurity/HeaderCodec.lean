import ManagedSecurity.HeaderGrammar

/-! # The header encoder, and the codec round trip

For a payload length and a key index below `2 ^ 25` the builder writes
`headerBytes`: the fixed word followed by the extension bytes of `L` and of
`KI`. `header_write_eq` says that this is all it changes and
`parse_headerBytes` that the parser reads the same values back;
`header_codec_round_trip` is the statement about the three routines together.
-/

namespace ManagedSecurity

open Bytes

/-! ## One variable-length field -/

/-- The number of extension bytes of a value below `2 ^ 25`. -/
def extCount (v : ℕ) : ℕ := if v < 2 ^ 11 then 0 else if v < 2 ^ 18 then 1 else 2

/-- The 12-bit base of a value: the marker and the bits above the extension. -/
def fieldBase (v : ℕ) : ℕ :=
  if v < 2 ^ 11 then v else if v < 2 ^ 18 then 0x800 + v / 256 else 0xC00 + v / 65536

/-- The extension bytes of a value. -/
def fieldExtension (v : ℕ) : Bytes := beBytes (extCount v) v

theorem extCount_le (v : ℕ) : extCount v ≤ 2 := by
  unfold extCount
  split_ifs <;> omega

theorem extCount_mono {v w : ℕ} (h : v ≤ w) : extCount v ≤ extCount w := by
  unfold extCount
  split_ifs <;> omega

@[simp] theorem length_fieldExtension (v : ℕ) : (fieldExtension v).length = extCount v :=
  length_beBytes _ _

theorem fieldBase_lt {v : ℕ} (h : v < 2 ^ 25) : fieldBase v < 2 ^ 12 := by
  unfold fieldBase
  split_ifs <;> omega

/-- The marker announces exactly the extension bytes that are written. -/
theorem leadingOnes_fieldBase {v : ℕ} (h : v < 2 ^ 25) : leadingOnes (fieldBase v) = extCount v := by
  unfold leadingOnes fieldBase extCount
  split_ifs <;> omega

/-- Decoding the base and the extension bytes gives the value back. -/
theorem fieldValue_fieldBase {v : ℕ} (h : v < 2 ^ 25) :
    fieldValue (fieldBase v) (fieldExtension v) = v := by
  have hvalue : fieldBase v % 2 ^ (11 - extCount v) * 256 ^ extCount v + beNat (fieldExtension v) = v := by
    rw [fieldExtension, beNat_beBytes]
    unfold fieldBase extCount
    split_ifs <;> omega
  rw [fieldValue, leadingOnes_fieldBase h, hvalue, int32_of_lt (by omega)]

theorem getExtensionCount_eq {v : ℕ} (h : v < 2 ^ 25) : getExtensionCount v = .ok (extCount v) := by
  unfold getExtensionCount extCount
  split_ifs <;> first | rfl | omega

/-- The encoder of one field: the base as its value, the extension bytes as
its effect. -/
theorem encodeVariableLength12_eq {v off : ℕ} {dest : Bytes} (h : v < 2 ^ 25)
    (hlen : off + extCount v ≤ dest.length) :
    encodeVariableLength12 v off dest =
      .ok (fieldBase v, off + extCount v) (overwrite dest off (fieldExtension v)) := by
  unfold encodeVariableLength12
  by_cases h11 : v < 2 ^ 11
  · -- no extension byte
    have hext : extCount v = 0 := if_pos h11
    have hword : ((v : ℤ) % 2 ^ 16).toNat = fieldBase v := by
      rw [fieldBase, if_pos h11]
      omega
    rw [if_pos (by omega), fieldExtension, hext, hword, beBytes, overwrite_nil]
    rfl
  rw [if_neg (by omega)]
  by_cases h18 : v < 2 ^ 18
  · -- one extension byte, then ten bits behind the marker
    have hext : extCount v = 1 := by rw [extCount, if_neg h11, if_pos h18]
    have hbase : 0x800 ||| ((v >>> 8) &&& 0x3FF) = fieldBase v := by
      have hmask : (v >>> 8) &&& 0x3FF = v / 2 ^ 8 % 2 ^ 10 := by
        rw [Nat.shiftRight_eq_div_pow]
        exact Nat.and_two_pow_sub_one_eq_mod _ 10
      have hor : (1 <<< 11) ||| (v / 2 ^ 8 % 2 ^ 10) = 1 * 2 ^ 11 + v / 2 ^ 8 % 2 ^ 10 :=
        shiftLeft_or 1 (by omega)
      have hmark : (0x800 : ℕ) = 1 <<< 11 := rfl
      rw [hmask, hmark, hor, fieldBase, if_neg h11, if_pos h18]
      omega
    have hbytes : fieldExtension v = [UInt8.ofNat (v &&& 0xFF)] := by
      rw [fieldExtension, hext, and_0xFF]
      simp only [beBytes, pow_zero, Nat.div_one, List.cons.injEq, and_true]
      apply UInt8.toNat_inj.mp
      rw [UInt8.toNat_ofNat', UInt8.toNat_ofNat', Nat.mod_mod]
    rw [if_pos (by omega), Int.toNat_natCast, Outcome.bind_ok (setByte_ok _ (by omega)), hbase,
      hbytes, hext]
    rfl
  · -- two extension bytes, most significant first, then nine bits
    have hext : extCount v = 2 := by rw [extCount, if_neg h11, if_neg h18]
    have hbase : 0xC00 ||| ((v >>> 16) &&& 0x1FF) = fieldBase v := by
      have hmask : (v >>> 16) &&& 0x1FF = v / 2 ^ 16 % 2 ^ 9 := by
        rw [Nat.shiftRight_eq_div_pow]
        exact Nat.and_two_pow_sub_one_eq_mod _ 9
      have hor : (3 <<< 10) ||| (v / 2 ^ 16 % 2 ^ 9) = 3 * 2 ^ 10 + v / 2 ^ 16 % 2 ^ 9 :=
        shiftLeft_or 3 (by omega)
      have hmark : (0xC00 : ℕ) = 3 <<< 10 := rfl
      rw [hmask, hmark, hor, fieldBase, if_neg h11, if_neg h18]
      omega
    have hbytes : fieldExtension v = [UInt8.ofNat ((v >>> 8) &&& 0xFF), UInt8.ofNat (v &&& 0xFF)] := by
      rw [fieldExtension, hext, and_0xFF, and_0xFF, Nat.shiftRight_eq_div_pow]
      simp only [beBytes, pow_zero, pow_one, Nat.div_one, List.cons.injEq, and_true]
      constructor
      · apply UInt8.toNat_inj.mp
        rw [UInt8.toNat_ofNat', UInt8.toNat_ofNat', Nat.mod_mod]
      · apply UInt8.toNat_inj.mp
        rw [UInt8.toNat_ofNat', UInt8.toNat_ofNat', Nat.mod_mod]
    have hsecond : off + 1 < (overwrite dest off [UInt8.ofNat ((v >>> 8) &&& 0xFF)]).length := by
      rw [length_overwrite (by simp; omega)]
      omega
    have hpair : overwrite (overwrite dest off [UInt8.ofNat ((v >>> 8) &&& 0xFF)]) (off + 1)
        [UInt8.ofNat (v &&& 0xFF)] = overwrite dest off (fieldExtension v) := by
      rw [hbytes]
      exact overwrite_overwrite_adjacent (by omega)
    rw [if_neg (by omega), if_pos (by omega), Int.toNat_natCast,
      Outcome.bind_ok (setByte_ok _ (by omega)), Outcome.bind_ok (setByte_ok _ hsecond), hpair,
      hbase, hext]
    rfl

/-! ## The whole header -/

/-- The fixed word of a header. -/
def fixedWord (L K profile : ℕ) : ℕ :=
  (7 * 2 ^ 5 + profile * 2) * 2 ^ 24 + fieldBase L * 2 ^ 12 + fieldBase K

/-- The bytes of a header: the fixed word, then the extension bytes. -/
def headerBytes (L K profile : ℕ) : Bytes :=
  beBytes 4 (fixedWord L K profile) ++ (fieldExtension L ++ fieldExtension K)

/-- The size of the bytes of a header. -/
def headerLength (L K : ℕ) : ℕ := 4 + extCount L + extCount K

@[simp] theorem length_headerBytes (L K profile : ℕ) :
    (headerBytes L K profile).length = headerLength L K := by
  simp only [headerBytes, List.length_append, length_beBytes, length_fieldExtension, headerLength]
  omega

/-- What `GetRequiredSize` adds up, for values the encoder accepts. -/
def requiredSize (L K profile : ℕ) : ℕ :=
  headerLength L K + (builderProfile profile).sequenceLength + (builderProfile profile).ivLength +
    (builderProfile profile).macLength + L

theorem getRequiredSize_eq {L K : ℕ} (profile : ℕ) (hL : L < 2 ^ 25) (hK : K < 2 ^ 25) :
    getRequiredSize L K profile = .ok (requiredSize L K profile : ℤ) := by
  simp only [getRequiredSize, getExtensionCount_eq hL, getExtensionCount_eq hK, requiredSize,
    headerLength, fixedHeaderSize]
  push_cast
  ring_nf

section

variable {L K profile : ℕ}

theorem fixedWord_lt (hL : L < 2 ^ 25) (hK : K < 2 ^ 25) (hp : profile ≤ 2) :
    fixedWord L K profile < 2 ^ 32 := by
  have hl := fieldBase_lt hL
  have hk := fieldBase_lt hK
  unfold fixedWord
  omega

/-- The word the builder assembles with shifts and ors. -/
theorem headerPrefix_or (hL : L < 2 ^ 25) (hK : K < 2 ^ 25) (hp : profile ≤ 2) :
    headerPrefix profile ||| (fieldBase L <<< 12) ||| fieldBase K = fixedWord L K profile := by
  have hl := fieldBase_lt hL
  have hk := fieldBase_lt hK
  have htop : headerPrefix profile = (7 * 2 ^ 5 + profile * 2) <<< 24 := by
    interval_cases profile <;> rfl
  have hlow : (fieldBase L <<< 12) ||| fieldBase K = fieldBase L * 2 ^ 12 + fieldBase K :=
    shiftLeft_or _ hk
  rw [htop, Nat.or_assoc, hlow, shiftLeft_or _ (by omega), fixedWord]
  omega

/-- The four bytes the builder stores for a word. -/
theorem beBytes_four (h : ℕ) :
    beBytes 4 h = [UInt8.ofNat ((h >>> 24) &&& 0xFF), UInt8.ofNat ((h >>> 16) &&& 0xFF),
      UInt8.ofNat ((h >>> 8) &&& 0xFF), UInt8.ofNat (h &&& 0xFF)] := by
  have hbyte : ∀ n : ℕ, UInt8.ofNat (n &&& 0xFF) = UInt8.ofNat n := by
    intro n
    apply UInt8.toNat_inj.mp
    rw [and_0xFF, UInt8.toNat_ofNat', UInt8.toNat_ofNat', Nat.mod_mod]
  simp only [hbyte, Nat.shiftRight_eq_div_pow, beBytes]
  norm_num

/-- Storing four bytes one after the other at the front of a span. -/
theorem setWord_ok {dest : Bytes} (h : ℕ) (hlen : 4 ≤ dest.length) :
    (do
      setByte 0 (UInt8.ofNat ((h >>> 24) &&& 0xFF))
      setByte 1 (UInt8.ofNat ((h >>> 16) &&& 0xFF))
      setByte 2 (UInt8.ofNat ((h >>> 8) &&& 0xFF))
      setByte 3 (UInt8.ofNat (h &&& 0xFF)) : SpanM Unit) dest =
      .ok () (overwrite dest 0 (beBytes 4 h)) := by
  -- each byte lands right behind those already stored
  have hstep : ∀ (bs : Bytes) (b : UInt8), bs.length < 4 →
      setByte bs.length b (overwrite dest 0 bs) = .ok () (overwrite dest 0 (bs ++ [b])) := by
    intro bs b hbs
    have hkeep : (overwrite dest 0 bs).length = dest.length := length_overwrite (by omega)
    have hadj : overwrite (overwrite dest 0 bs) (0 + bs.length) [b] = overwrite dest 0 (bs ++ [b]) :=
      overwrite_overwrite_adjacent (Nat.zero_le _)
    rw [Nat.zero_add] at hadj
    rw [setByte_ok b (by omega), hadj]
  rw [beBytes_four]
  set b₀ := UInt8.ofNat ((h >>> 24) &&& 0xFF)
  set b₁ := UInt8.ofNat ((h >>> 16) &&& 0xFF)
  set b₂ := UInt8.ofNat ((h >>> 8) &&& 0xFF)
  set b₃ := UInt8.ofNat (h &&& 0xFF)
  have h₀ : setByte 0 b₀ dest = .ok () (overwrite dest 0 [b₀]) := setByte_ok b₀ (by omega)
  have h₁ : setByte 1 b₁ (overwrite dest 0 [b₀]) = .ok () (overwrite dest 0 [b₀, b₁]) :=
    hstep [b₀] b₁ (by simp)
  have h₂ : setByte 2 b₂ (overwrite dest 0 [b₀, b₁]) = .ok () (overwrite dest 0 [b₀, b₁, b₂]) :=
    hstep [b₀, b₁] b₂ (by simp)
  have h₃ : setByte 3 b₃ (overwrite dest 0 [b₀, b₁, b₂]) =
      .ok () (overwrite dest 0 [b₀, b₁, b₂, b₃]) := hstep [b₀, b₁, b₂] b₃ (by simp)
  rw [Outcome.bind_ok h₀, Outcome.bind_ok h₁, Outcome.bind_ok h₂, h₃]

/-- Two extensions are written one behind the other, and the word goes to the front last. -/
theorem overwrite_word {dest word l k : Bytes} (hword : word.length = 4)
    (hroom : 4 + l.length + k.length ≤ dest.length) :
    overwrite (overwrite (overwrite dest 4 l) (4 + l.length) k) 0 word =
      word ++ (l ++ (k ++ dest.drop (4 + l.length + k.length))) := by
  have hext : overwrite (overwrite dest 4 l) (4 + l.length) k = overwrite dest 4 (l ++ k) :=
    overwrite_overwrite_adjacent (by omega)
  have hsplit : overwrite dest 4 (l ++ k) =
      dest.take 4 ++ ((l ++ k) ++ dest.drop (4 + (l ++ k).length)) := rfl
  have hfour : (dest.take 4).length = 4 := by
    rw [List.length_take]
    omega
  rw [hext, overwrite, List.take_zero, List.nil_append, hsplit, hword, Nat.zero_add,
    List.drop_left' hfour, List.length_append, ← Nat.add_assoc, List.append_assoc]

/-- `Header.Write` replaces the front of the destination by `headerBytes`. -/
theorem header_write_eq {dest : Bytes} (hL : L < 2 ^ 25) (hK : K < 2 ^ 25) (hp : profile ≤ 2)
    (hlen : requiredSize L K profile ≤ dest.length) :
    Header.write L K profile dest =
      .ok () (headerBytes L K profile ++ dest.drop (headerLength L K)) := by
  have hhl : headerLength L K ≤ dest.length := by
    unfold requiredSize at hlen
    omega
  have hhead : headerLength L K = 4 + extCount L + extCount K := rfl
  have hlen₁ : (overwrite dest 4 (fieldExtension L)).length = dest.length :=
    length_overwrite (by rw [length_fieldExtension]; omega)
  have hlen₂ : (overwrite (overwrite dest 4 (fieldExtension L)) (4 + extCount L)
      (fieldExtension K)).length = dest.length := by
    rw [length_overwrite (by rw [length_fieldExtension]; omega), hlen₁]
  have hword : overwrite (overwrite (overwrite dest 4 (fieldExtension L)) (4 + extCount L)
      (fieldExtension K)) 0 (beBytes 4 (fixedWord L K profile)) =
        headerBytes L K profile ++ dest.drop (headerLength L K) := by
    have hfront := overwrite_word (length_beBytes 4 (fixedWord L K profile))
      (show 4 + (fieldExtension L).length + (fieldExtension K).length ≤ dest.length by
        rw [length_fieldExtension, length_fieldExtension]
        omega)
    rw [length_fieldExtension, length_fieldExtension] at hfront
    rw [hfront, headerBytes, headerLength, List.append_assoc, List.append_assoc]
  have hsize : (ofExcept (getRequiredSize L K profile) : SpanM ℤ) dest =
      .ok (requiredSize L K profile : ℤ) dest := by
    rw [getRequiredSize_eq profile hL hK]
    rfl
  rw [Header.write, Outcome.bind_ok hsize, Outcome.get_bind,
    Outcome.bind_ok (Outcome.ensure_true (by exact_mod_cast hlen) _ _),
    Outcome.bind_ok (encodeVariableLength12_eq hL (by simp only [fixedHeaderSize]; omega))]
  simp only [fixedHeaderSize]
  rw [Outcome.bind_ok (encodeVariableLength12_eq hK (by rw [hlen₁]; omega))]
  simp only [headerPrefix_or hL hK hp]
  rw [setWord_ok _ (by rw [hlen₂]; omega), hword]

/-- The header the parser builds from `headerBytes`. -/
def builtHeader (L K profile : ℕ) : Header :=
  Header.layout (builderProfile profile) L K (headerLength L K)

theorem headerWord_headerBytes (rest : Bytes) (hL : L < 2 ^ 25) (hK : K < 2 ^ 25)
    (hp : profile ≤ 2) : headerWord (headerBytes L K profile ++ rest) = fixedWord L K profile := by
  have hlt := fixedWord_lt hL hK hp
  have htake : (headerBytes L K profile ++ rest).take 4 = beBytes 4 (fixedWord L K profile) := by
    rw [headerBytes, List.append_assoc]
    exact List.take_left' (length_beBytes _ _)
  rw [headerWord_take (by simp [headerLength]; omega), htake, beNat_beBytes]
  exact Nat.mod_eq_of_lt hlt

theorem lengthField_fixedWord (hL : L < 2 ^ 25) (hK : K < 2 ^ 25) :
    lengthField (fixedWord L K profile) = fieldBase L := by
  have hl := fieldBase_lt hL
  have hk := fieldBase_lt hK
  unfold lengthField fixedWord
  omega

theorem keyField_fixedWord (hK : K < 2 ^ 25) :
    keyField (fixedWord L K profile) = fieldBase K := by
  have hk := fieldBase_lt hK
  unfold keyField fixedWord
  omega

theorem headerSize_fixedWord (hL : L < 2 ^ 25) (hK : K < 2 ^ 25) :
    headerSize (fixedWord L K profile) = headerLength L K := by
  rw [headerSize, lengthField_fixedWord hL hK, keyField_fixedWord hK, leadingOnes_fieldBase hL,
    leadingOnes_fieldBase hK, headerLength]

/-- The parser reads `headerBytes` back, whatever follows them. -/
theorem parse_headerBytes (rest : Bytes) (hL : L < 2 ^ 25) (hK : K < 2 ^ 25) (hp : profile ≤ 2) :
    Header.parse (headerBytes L K profile ++ rest) = .ok (builtHeader L K profile) := by
  have hword := headerWord_headerBytes rest hL hK hp
  have hl := fieldBase_lt hL
  have hk := fieldBase_lt hK
  have hlExt : slice (headerBytes L K profile ++ rest) 4 (extCount L) = fieldExtension L := by
    rw [headerBytes, List.append_assoc, List.append_assoc]
    exact slice_middle _ _ _ (length_beBytes _ _).symm (length_fieldExtension L).symm
  have hkExt : slice (headerBytes L K profile ++ rest) (4 + extCount L) (extCount K) = fieldExtension K := by
    rw [headerBytes, ← List.append_assoc, List.append_assoc]
    exact slice_middle _ _ _ (by simp) (length_fieldExtension K).symm
  have hdec : decodedHeader (builderProfile profile) (headerBytes L K profile ++ rest)
      = builtHeader L K profile := by
    simp only [decodedHeader, hword, lengthField_fixedWord hL hK, keyField_fixedWord hK,
      leadingOnes_fieldBase hL, leadingOnes_fieldBase hK, hlExt, hkExt, fieldValue_fieldBase hL,
      fieldValue_fieldBase hK, headerSize_fixedWord hL hK, builtHeader]
  -- an encoded field needs two extension bytes at most
  have hsmall : headerLength L K ≤ 8 := by
    have := extCount_le L
    have := extCount_le K
    unfold headerLength
    omega
  refine parse_eq_ok.mpr ⟨builderProfile profile, ⟨?_, ?_, ?_, ?_, ?_, ?_, ?_, ?_⟩, hdec.symm⟩
  · simp [headerLength]
    omega
  · rw [hword]
    unfold fixedWord
    omega
  · rw [hword]
    unfold fixedWord
    omega
  · have hswitch : fixedWord L K profile / 2 ^ 25 % 2 ^ 2 = profile := by
      unfold fixedWord
      omega
    rw [hword, hswitch]
    interval_cases profile <;> rfl
  · rw [hword, lengthField_fixedWord hL hK, leadingOnes_fieldBase hL]
    have := extCount_le L
    omega
  · rw [hword, keyField_fixedWord hK, leadingOnes_fieldBase hK]
    have := extCount_le K
    omega
  · rw [hword, headerSize_fixedWord hL hK]
    simp
  · have hprofile : (builderProfile profile).sequenceLength + (builderProfile profile).ivLength
        + (builderProfile profile).macLength ≤ 48 := by
      interval_cases profile <;> decide
    rw [hdec]
    simp only [builtHeader, Header.layout, intMaxValue]
    push_cast
    omega

end

/-! ## Round trip and layout -/

/-- The size calculator, the builder and the parser agree: the builder
succeeds on every destination of the calculated size, changes only the fixed
word and the extension bytes, and the parser finds the values, the lengths of
the profile, contiguous regions and the calculated total length. -/
theorem header_codec_round_trip (L K profile : ℕ) (hL : L < 2 ^ 25) (hK : K < 2 ^ 25)
    (hp : profile ≤ 2) :
    ∃ size : ℤ, getRequiredSize L K profile = .ok size ∧
      ∀ dest : Bytes, size ≤ dest.length →
        ∃ dest' h, Header.write L K profile dest = .ok () dest' ∧
          dest'.length = dest.length ∧
          dest'.drop (4 + extCount L + extCount K) = dest.drop (4 + extCount L + extCount K) ∧
          Header.parse dest' = .ok h ∧
          h.payloadLength = L ∧ h.keyIndex = K ∧
          (profile = 0 → h.ivLength = 12 ∧ h.macLength = 16 ∧ h.sequenceLength = 0) ∧
          (profile = 1 → h.ivLength = 16 ∧ h.macLength = 32 ∧ h.sequenceLength = 0) ∧
          (profile = 2 → h.ivLength = 12 ∧ h.macLength = 16 ∧ h.sequenceLength = 8) ∧
          (h.ivOffset : ℤ) - h.sequenceLength = 4 + extCount L + extCount K ∧
          h.macOffset = h.ivOffset + h.ivLength ∧
          h.payloadOffset = h.macOffset + h.macLength ∧
          h.totalLength = size := by
  refine ⟨requiredSize L K profile, getRequiredSize_eq profile hL hK, ?_⟩
  intro dest hdest
  have hlen : requiredSize L K profile ≤ dest.length := by exact_mod_cast hdest
  have hhl : headerLength L K ≤ dest.length := by
    unfold requiredSize at hlen
    omega
  refine ⟨_, builtHeader L K profile, header_write_eq hL hK hp hlen, ?_, ?_,
    parse_headerBytes _ hL hK hp, rfl, rfl, ?_, ?_, ?_, ?_, rfl, rfl, ?_⟩
  · rw [List.length_append, length_headerBytes, List.length_drop]
    omega
  · exact List.drop_left' (length_headerBytes L K profile)
  · rintro rfl
    exact ⟨rfl, rfl, rfl⟩
  · rintro rfl
    exact ⟨rfl, rfl, rfl⟩
  · rintro rfl
    exact ⟨rfl, rfl, rfl⟩
  · simp only [builtHeader, Header.layout, headerLength]
    push_cast
    ring
  · simp only [builtHeader, Header.layout, requiredSize]
    push_cast
    ring

/-- A frame of 5000 bytes under key 300000: one and two extension bytes. -/
theorem header_codec_round_trip_5000 :
    ∃ dest' h, Header.write 5000 300000 2 (List.replicate 5100 0) = .ok () dest' ∧
      Header.parse dest' = .ok h ∧ h.payloadLength = 5000 ∧ h.keyIndex = 300000 ∧
      h.ivOffset = 15 ∧ h.totalLength = 5043 := by
  obtain ⟨size, hsize, hall⟩ :=
    header_codec_round_trip 5000 300000 2 (by norm_num) (by norm_num) (by norm_num)
  have hval : getRequiredSize 5000 300000 2 = .ok 5043 := rfl
  have hsize' : size = 5043 := by
    have heq : (Except.ok size : Except Exn ℤ) = .ok 5043 := hsize.symm.trans hval
    exact Except.ok.inj heq
  obtain ⟨dest', h, hw, -, -, hparse, hL, hK, -, -, h2, hiv, -, -, ht⟩ :=
    hall (List.replicate 5100 0) (by rw [hsize', List.length_replicate]; norm_num)
  refine ⟨dest', h, hw, hparse, by exact_mod_cast hL, by exact_mod_cast hK, ?_, by rw [ht, hsize']⟩
  have hseq := (h2 rfl).2.2
  have he : (extCount 5000 : ℤ) = 1 ∧ (extCount 300000 : ℤ) = 2 := by
    constructor
    · rfl
    · rfl
  omega

end ManagedSecurity

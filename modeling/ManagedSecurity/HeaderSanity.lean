import ManagedSecurity.HeaderCodec

/-! # What an accepted header announces

The offsets of an accepted header always follow each other. Its two variable
fields are signed words: with three extension bytes the top bit of the field's
last eight is the sign, so that exactly the fields from `0xE80` on announce a
negative number, which the length check of the constructor lets through.
-/

namespace ManagedSecurity

open Bytes

/-- The numbers of a header make sense. -/
structure Header.Sane (h : Header) : Prop where
  payloadLength : 0 ≤ h.payloadLength
  keyIndex : 0 ≤ h.keyIndex
  fixed : 4 ≤ (h.ivOffset : ℤ) - h.sequenceLength
  extensions : (h.ivOffset : ℤ) - h.sequenceLength ≤ 10
  iv : h.ivOffset + h.ivLength = h.macOffset
  mac : h.macOffset + h.macLength = h.payloadOffset
  total : h.totalLength = h.payloadOffset + h.payloadLength
  payload : h.payloadOffset ≤ h.totalLength
  bounded : h.totalLength ≤ 2 ^ 31 - 1

/-- A field that announces at most three extension bytes decodes to a negative
number exactly if there are three and the sign bit is set. -/
theorem fieldValue_nonneg {field : ℕ} {extension : Bytes} (h3 : leadingOnes field ≤ 3)
    (hlen : extension.length = leadingOnes field) :
    0 ≤ fieldValue field extension ↔ field < 0xE80 := by
  have hext := beNat_lt extension
  rw [hlen] at hext
  have hvalue : ∀ n : ℕ, 0 ≤ int32 n ↔ n < 2 ^ 31 ∨ 2 ^ 32 ≤ n := by
    intro n
    unfold int32
    split <;> omega
  rw [fieldValue, hvalue]
  have hones : field < 0xF00 ∧ leadingOnes field =
      if field < 0x800 then 0 else if field < 0xC00 then 1 else if field < 0xE00 then 2 else 3 := by
    unfold leadingOnes at h3 ⊢
    split_ifs at h3 ⊢ <;> omega
  rcases hones with ⟨hlt, hones⟩
  split_ifs at hones <;> rw [hones] at hext ⊢ <;> omega

section

variable {data : Bytes} {p : Profile}

/-- The windows of the extension bytes lie in the data. -/
theorem Accepts.length_extensions (ha : Accepts data p) :
    (slice data 4 (leadingOnes (lengthField (headerWord data)))).length =
        leadingOnes (lengthField (headerWord data)) ∧
      (slice data (4 + leadingOnes (lengthField (headerWord data)))
          (leadingOnes (keyField (headerWord data)))).length =
        leadingOnes (keyField (headerWord data)) := by
  have hsize := ha.extensions
  rw [headerSize] at hsize
  exact ⟨length_slice_of_le (by omega), length_slice_of_le hsize⟩

theorem Accepts.payloadLength_nonneg (ha : Accepts data p) :
    0 ≤ (decodedHeader p data).payloadLength ↔ lengthField (headerWord data) < 0xE80 :=
  fieldValue_nonneg ha.lengthOnes ha.length_extensions.1

theorem Accepts.keyIndex_nonneg (ha : Accepts data p) :
    0 ≤ (decodedHeader p data).keyIndex ↔ keyField (headerWord data) < 0xE80 :=
  fieldValue_nonneg ha.keyOnes ha.length_extensions.2

/-- Only the signs of the two fields are not checked. -/
theorem Accepts.sane (ha : Accepts data p) (hlength : 0 ≤ (decodedHeader p data).payloadLength)
    (hkey : 0 ≤ (decodedHeader p data).keyIndex) : (decodedHeader p data).Sane := by
  have hfront : ((decodedHeader p data).ivOffset : ℤ) - (decodedHeader p data).sequenceLength =
      headerSize (headerWord data) := by
    show ((headerSize (headerWord data) + p.sequenceLength : ℕ) : ℤ) - p.sequenceLength = _
    omega
  have htotal : (decodedHeader p data).totalLength =
      (decodedHeader p data).payloadOffset + (decodedHeader p data).payloadLength := rfl
  have hsize : headerSize (headerWord data) = 4 + leadingOnes (lengthField (headerWord data)) +
      leadingOnes (keyField (headerWord data)) := rfl
  have hl := ha.lengthOnes
  have hk := ha.keyOnes
  refine ⟨hlength, hkey, ?_, ?_, rfl, rfl, htotal, ?_, ha.total⟩
  · rw [hfront]
    omega
  · rw [hfront]
    omega
  · rw [htotal]
    omega

end

/-- An accepted header is sane exactly if neither of its fields is one of the
fields with three extension bytes and the sign bit. -/
theorem accepted_header_sane (data : Bytes) (h : Header) (hparse : Header.parse data = .ok h) :
    h.Sane ↔ lengthField (headerWord data) < 0xE80 ∧ keyField (headerWord data) < 0xE80 := by
  rcases parse_eq_ok.mp hparse with ⟨p, ha, rfl⟩
  rw [← ha.payloadLength_nonneg, ← ha.keyIndex_nonneg]
  constructor
  · intro hsane
    exact ⟨hsane.payloadLength, hsane.keyIndex⟩
  · rintro ⟨hlength, hkey⟩
    exact ha.sane hlength hkey

/-- A header for 300 bytes under key 5, with one extension byte. -/
def shortHeader : Bytes := [0xE0, 0x80, 0x10, 5, 44]

theorem accepted_header_sane_short : (decodedHeader ⟨12, 16, 0⟩ shortHeader).Sane :=
  (accepted_header_sane shortHeader (decodedHeader ⟨12, 16, 0⟩ shortHeader) (by decide)).mpr
    (by decide)

/-- Seven bytes that announce `-2 ^ 31` bytes of payload. -/
def negativeHeader : Bytes := [0xE0, 0xE8, 0x00, 0, 0, 0, 0]

/-- They are accepted as a header that ends before its payload starts. -/
theorem negative_header_not_sane :
    ∃ h, Header.parse negativeHeader = .ok h ∧ h.payloadLength = -2 ^ 31 ∧ ¬ h.Sane := by
  refine ⟨decodedHeader ⟨12, 16, 0⟩ negativeHeader, by decide, by decide, ?_⟩
  intro hsane
  have hlength : ¬ 0 ≤ (decodedHeader ⟨12, 16, 0⟩ negativeHeader).payloadLength := by decide
  exact hlength hsane.payloadLength

end ManagedSecurity

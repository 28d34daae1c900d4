import ManagedSecurity.HeaderGrammar
import ManagedSecurity.Lib.Bits

/-! # The language of the header parser

The headers as bit strings, without the shifts and masks of the parser: five fixed bits,
two bits for the profile, one reserved bit, and two fields of 12 bits, each a unary marker
and the high bits of its value. `Spells` says which byte strings begin with a header, and
which one.

* `leadingOnes_value`: the marker of a field is what the parser counts;
* `spells_iff`: the grammar against the arithmetic of the parser;
* `header_language`: the constructor accepts this language, and reads no byte behind it.
-/

namespace ManagedSecurity

open Bytes

/-- The profiles that the two switch bits select. -/
inductive SwitchBits : List Bool → Profile → Prop
  | zero : SwitchBits [false, false] { ivLength := 12, macLength := 16, sequenceLength := 0 }
  | one : SwitchBits [false, true] { ivLength := 16, macLength := 32, sequenceLength := 0 }
  | two : SwitchBits [true, false] { ivLength := 12, macLength := 16, sequenceLength := 8 }

/-- A field of 12 bits with its extension bytes: `e ≤ 3` ones, a zero, and the value in
the remaining `11 - e` bits and the `e` bytes. -/
inductive SpellsField : List Bool → Bytes → ℤ → Prop
  | mk {e : ℕ} {bits : List Bool} {extension : Bytes} (few : e ≤ 3)
      (width : bits.length = 11 - e) (announced : extension.length = e) :
      SpellsField (List.replicate e true ++ false :: bits) extension
        (int32 (Bits.value (bits ++ Bits.ofBytes extension)))

/-- The byte strings that begin with a header. -/
inductive Spells : Bytes → Header → Prop
  | mk {word lExt kExt rest : Bytes} {switch l k : List Bool} {reserved : Bool} {p : Profile}
      {payloadLength keyIndex : ℤ}
      (bits : Bits.ofBytes word =
        [true, true, true] ++ ([false, false] ++ (switch ++ ([reserved] ++ (l ++ k)))))
      (profile : SwitchBits switch p)
      (length : SpellsField l lExt payloadLength)
      (key : SpellsField k kExt keyIndex)
      (total : ((Header.layout p payloadLength keyIndex
        (4 + lExt.length + kExt.length)).payloadOffset : ℤ) + payloadLength ≤ 2 ^ 31 - 1) :
      Spells (word ++ (lExt ++ (kExt ++ rest)))
        (Header.layout p payloadLength keyIndex (4 + lExt.length + kExt.length))

/-- The fixed word and the extension bytes that the markers of its two fields announce. -/
def announcedSize (data : Bytes) : ℕ :=
  4 + Bits.ones (slice (Bits.ofBytes (data.take 4)) 8 12) +
    Bits.ones ((Bits.ofBytes (data.take 4)).drop 20)

/-! ## Fields -/

/-- The parser counts the ones of the marker, up to four of them. -/
theorem leadingOnes_value {bits : List Bool} (h : bits.length = 12) :
    leadingOnes (Bits.value bits) = min (Bits.ones bits) 4 := by
  rcases Bits.eq_unary bits with ⟨e, tail, rfl⟩ | hall
  · have hlt := Bits.value_lt tail
    have hwidth : tail.length = 11 - e := by
      simp only [List.length_append, List.length_replicate, List.length_cons] at h
      omega
    have he : e ≤ 11 := by
      simp only [List.length_append, List.length_replicate, List.length_cons] at h
      omega
    rw [Bits.value_unary, Bits.ones_unary, hwidth]
    rw [hwidth] at hlt
    -- the marker alone decides between the five intervals
    interval_cases e <;> unfold leadingOnes <;> split_ifs <;> omega
  · rw [hall, h]
    decide

/-- The fields of 12 bits, as the parser reads them. -/
theorem spellsField_iff {bits : List Bool} {extension : Bytes} {v : ℤ} :
    SpellsField bits extension v ↔
      bits.length = 12 ∧ leadingOnes (Bits.value bits) ≤ 3 ∧
        extension.length = leadingOnes (Bits.value bits) ∧
        v = fieldValue (Bits.value bits) extension := by
  -- the marker is cut off by the mask, and the bytes are appended
  have hvalue : ∀ {e : ℕ} {tail : List Bool}, e ≤ 3 → tail.length = 11 - e →
      extension.length = e → leadingOnes (Bits.value (List.replicate e true ++ false :: tail)) = e →
      fieldValue (Bits.value (List.replicate e true ++ false :: tail)) extension =
        int32 (Bits.value (tail ++ Bits.ofBytes extension)) := by
    intro e tail _ hwidth hext hones
    have hlt := Bits.value_lt tail
    have hmask : Bits.value (List.replicate e true ++ false :: tail) % 2 ^ (11 - e) =
        Bits.value tail := by
      rw [Bits.value_unary, pow_succ', ← Nat.mul_assoc, ← hwidth]
      exact Nat.mul_add_mod_of_lt hlt
    have hpow : 2 ^ (8 * e) = 256 ^ e := pow_mul 2 8 e
    rw [fieldValue, hones, hmask, Bits.value_append, Bits.value_ofBytes, Bits.length_ofBytes, hext,
      hpow]
  have hlength : ∀ (e : ℕ) (tail : List Bool),
      (List.replicate e true ++ false :: tail).length = e + tail.length + 1 := by
    intro e tail
    rw [List.length_append, List.length_replicate, List.length_cons, Nat.add_assoc]
  constructor
  · intro h
    cases h with
    | @mk e tail _ few width announced =>
      have h12 : (List.replicate e true ++ false :: tail).length = 12 := by
        rw [hlength]
        omega
      have hones : leadingOnes (Bits.value (List.replicate e true ++ false :: tail)) = e := by
        rw [leadingOnes_value h12, Bits.ones_unary]
        omega
      exact ⟨h12, by omega, by omega, (hvalue few width announced hones).symm⟩
  · rintro ⟨h12, hfew, hext, rfl⟩
    rcases Bits.eq_unary bits with ⟨e, tail, rfl⟩ | hall
    · have hones := leadingOnes_value h12
      rw [Bits.ones_unary] at hones
      rw [hlength] at h12
      have hwidth : tail.length = 11 - e := by omega
      rw [hvalue (by omega) hwidth (by omega) (by omega)]
      exact .mk (by omega) hwidth (by omega)
    · have hfour : leadingOnes (Bits.value (List.replicate 12 true)) = 4 := by decide
      rw [hall, h12] at hfew
      omega

theorem switchBits_iff {bits : List Bool} {p : Profile} :
    SwitchBits bits p ↔ bits.length = 2 ∧ switchProfile (Bits.value bits) = .ok p := by
  constructor
  · intro h
    cases h <;> exact ⟨rfl, rfl⟩
  · rintro ⟨h2, hp⟩
    rcases List.length_eq_two.mp h2 with ⟨a, b, rfl⟩
    cases a with
    | false =>
      cases b with
      | false =>
        cases hp
        exact .zero
      | true =>
        cases hp
        exact .one
    | true =>
      cases b with
      | false =>
        cases hp
        exact .two
      | true => cases hp

/-! ## Words -/

section

variable {word lExt kExt rest : Bytes} {m v s r l k : List Bool}

/-- The number of a word, by its fields. -/
theorem beNat_word (bits : Bits.ofBytes word = m ++ (v ++ (s ++ (r ++ (l ++ k)))))
    (hv : v.length = 2) (hs : s.length = 2) (hr : r.length = 1) (hl : l.length = 12)
    (hk : k.length = 12) :
    beNat word = Bits.value m * 2 ^ 29 + (Bits.value v * 2 ^ 27 + (Bits.value s * 2 ^ 25 +
      (Bits.value r * 2 ^ 24 + (Bits.value l * 2 ^ 12 + Bits.value k)))) := by
  rw [← Bits.value_ofBytes, bits]
  simp only [Bits.value_append, List.length_append, hv, hs, hr, hl, hk]

/-- A word of 32 bits, cut at the fields of a header. -/
theorem exists_fields (hword : word.length = 4) :
    ∃ m v s r l k : List Bool,
      Bits.ofBytes word = m ++ (v ++ (s ++ (r ++ (l ++ k)))) ∧
        m.length = 3 ∧ v.length = 2 ∧ s.length = 2 ∧ r.length = 1 ∧ l.length = 12 ∧
        k.length = 12 := by
  have h32 : (Bits.ofBytes word).length = 32 := by
    rw [Bits.length_ofBytes, hword]
  set bits := Bits.ofBytes word
  refine ⟨bits.take 3, slice bits 3 2, slice bits 5 2, slice bits 7 1, slice bits 8 12,
    bits.drop 20, ?_, ?_, ?_, ?_, ?_, ?_, ?_⟩
  · rw [← drop_eq_slice_append bits 8 12, ← drop_eq_slice_append bits 7 1,
      ← drop_eq_slice_append bits 5 2, ← drop_eq_slice_append bits 3 2, List.take_append_drop]
  · rw [List.length_take, h32]
    omega
  · exact length_slice_of_le (by omega)
  · exact length_slice_of_le (by omega)
  · exact length_slice_of_le (by omega)
  · exact length_slice_of_le (by omega)
  · rw [List.length_drop, h32]

/-- The fields that the parser takes out of the number of a word. -/
theorem word_fields (bits : Bits.ofBytes word = m ++ (v ++ (s ++ (r ++ (l ++ k)))))
    (hm : m.length = 3) (hv : v.length = 2) (hs : s.length = 2) (hr : r.length = 1)
    (hl : l.length = 12) (hk : k.length = 12) :
    beNat word / 2 ^ 29 % 2 ^ 3 = Bits.value m ∧ beNat word / 2 ^ 27 % 2 ^ 2 = Bits.value v ∧
      beNat word / 2 ^ 25 % 2 ^ 2 = Bits.value s ∧ lengthField (beNat word) = Bits.value l ∧
      keyField (beNat word) = Bits.value k := by
  have hnum := beNat_word bits hv hs hr hl hk
  have hm' := Bits.value_lt m
  have hv' := Bits.value_lt v
  have hs' := Bits.value_lt s
  have hr' := Bits.value_lt r
  have hl' := Bits.value_lt l
  have hk' := Bits.value_lt k
  rw [hm] at hm'
  rw [hv] at hv'
  rw [hs] at hs'
  rw [hr] at hr'
  rw [hl] at hl'
  rw [hk] at hk'
  unfold lengthField keyField
  refine ⟨?_, ?_, ?_, ?_, ?_⟩ <;> omega

end

/-! ## Headers -/

/-- What the grammar spells is accepted, and decoded to what it spells. -/
theorem Spells.accepts {data : Bytes} {header : Header} (hspells : Spells data header) :
    ∃ p, Accepts data p ∧ header = decodedHeader p data := by
  rcases hspells with @⟨word, lExt, kExt, rest, switch, l, k, reserved, p, payloadLength, keyIndex,
    bits, profile, length, key, total⟩
  rcases switchBits_iff.mp profile with ⟨hs, hswitch⟩
  rcases spellsField_iff.mp length with ⟨hl, hlOnes, hlExt, rfl⟩
  rcases spellsField_iff.mp key with ⟨hk, hkOnes, hkExt, rfl⟩
  have hword : word.length = 4 := by
    have h32 := congrArg List.length bits
    simp only [Bits.length_ofBytes, List.length_append, List.length_cons, List.length_nil, hs, hl,
      hk] at h32
    omega
  rcases word_fields bits rfl rfl hs rfl hl hk with ⟨hmagic, hversion, hprofile, hlField, hkField⟩
  set data := word ++ (lExt ++ (kExt ++ rest)) with hdata
  have h4 : 4 ≤ data.length := by
    rw [hdata, List.length_append]
    omega
  have hnum : headerWord data = beNat word := by
    rw [headerWord_take h4, hdata, List.take_left' hword]
  have hlSlice : slice data 4 (leadingOnes (Bits.value l)) = lExt :=
    slice_middle _ _ _ hword.symm hlExt.symm
  have hkSlice : slice data (4 + leadingOnes (Bits.value l)) (leadingOnes (Bits.value k)) = kExt := by
    rw [hdata, ← List.append_assoc]
    exact slice_middle _ _ _ (by rw [List.length_append]; omega) hkExt.symm
  have hsize : headerSize (headerWord data) = 4 + lExt.length + kExt.length := by
    rw [headerSize, hnum, hlField, hkField, hlExt, hkExt]
  have hheader : decodedHeader p data = Header.layout p (fieldValue (Bits.value l) lExt)
      (fieldValue (Bits.value k) kExt) (4 + lExt.length + kExt.length) := by
    simp only [decodedHeader, hsize]
    simp only [hnum, hlField, hkField, hlSlice, hkSlice]
  refine ⟨p, ⟨h4, ?_, ?_, ?_, ?_, ?_, ?_, ?_⟩, hheader.symm⟩
  · rw [hnum, hmagic]
    rfl
  · rw [hnum, hversion]
    rfl
  · rw [hnum, hprofile, hswitch]
  · rw [hnum, hlField]
    exact hlOnes
  · rw [hnum, hkField]
    exact hkOnes
  · rw [hsize, hdata]
    simp only [List.length_append]
    omega
  · rw [hheader]
    exact total

/-- What is accepted is spelled by the bits of its word. -/
theorem Accepts.spells {data : Bytes} {p : Profile} (haccepts : Accepts data p) :
    Spells data (decodedHeader p data) := by
  have hnum := headerWord_take haccepts.word
  have hword : (data.take 4).length = 4 := by
    rw [List.length_take]
    have := haccepts.word
    omega
  rcases exists_fields hword with ⟨m, v, s, r, l, k, bits, hm, hv, hs, hr, hl, hk⟩
  rcases word_fields bits hm hv hs hr hl hk with ⟨hmagic, hversion, hprofile, hlField, hkField⟩
  rw [← hnum] at hmagic hversion hprofile hlField hkField
  have hm7 : m = [true, true, true] := by
    apply Bits.value_inj hm
    rw [← hmagic, haccepts.magic]
    rfl
  have hv0 : v = [false, false] := by
    apply Bits.value_inj hv
    rw [← hversion, haccepts.version]
    rfl
  rcases List.length_eq_one_iff.mp hr with ⟨reserved, hr1⟩
  rw [hm7, hv0, hr1] at bits
  have hlOnes := haccepts.lengthOnes
  have hkOnes := haccepts.keyOnes
  have hsize := haccepts.extensions
  rw [hlField] at hlOnes
  rw [hkField] at hkOnes
  rw [headerSize, hlField, hkField] at hsize
  -- the word, the two extensions and what follows them
  set lExt := slice data 4 (leadingOnes (Bits.value l)) with hlExt
  set kExt := slice data (4 + leadingOnes (Bits.value l)) (leadingOnes (Bits.value k)) with hkExt
  have hlLen : lExt.length = leadingOnes (Bits.value l) := length_slice_of_le (by omega)
  have hkLen : kExt.length = leadingOnes (Bits.value k) := length_slice_of_le (by omega)
  have hdata : data = data.take 4 ++ (lExt ++ (kExt ++ data.drop (4 + lExt.length +
      kExt.length))) := by
    rw [hlLen, hkLen, hkExt, ← drop_eq_slice_append, hlExt, ← drop_eq_slice_append,
      List.take_append_drop]
  have hheader : decodedHeader p data = Header.layout p (fieldValue (Bits.value l) lExt)
      (fieldValue (Bits.value k) kExt) (4 + lExt.length + kExt.length) := by
    simp only [decodedHeader, headerSize, hlField, hkField]
    rw [hlLen, hkLen]
  have htotal := haccepts.total
  rw [hheader] at htotal ⊢
  rw [hdata]
  apply Spells.mk bits
  · apply switchBits_iff.mpr
    rw [← hprofile]
    exact ⟨hs, haccepts.switch⟩
  · exact spellsField_iff.mpr ⟨hl, hlOnes, hlLen, rfl⟩
  · exact spellsField_iff.mpr ⟨hk, hkOnes, hkLen, rfl⟩
  · exact htotal

/-- The grammar is what the constructor accepts. -/
theorem spells_iff {data : Bytes} {header : Header} :
    Spells data header ↔ ∃ p, Accepts data p ∧ header = decodedHeader p data := by
  constructor
  · exact Spells.accepts
  · rintro ⟨p, haccepts, rfl⟩
    exact haccepts.spells

/-- The markers announce at least what the parser reads. -/
theorem headerSize_le_announcedSize {data : Bytes} (h4 : 4 ≤ data.length) :
    headerSize (headerWord data) ≤ announcedSize data := by
  have hword : (data.take 4).length = 4 := by
    rw [List.length_take]
    omega
  rcases exists_fields hword with ⟨m, v, s, r, l, k, bits, hm, hv, hs, hr, hl, hk⟩
  rcases word_fields bits hm hv hs hr hl hk with ⟨-, -, -, hlField, hkField⟩
  have hlSlice : slice (Bits.ofBytes (data.take 4)) 8 12 = l := by
    rw [bits, ← List.append_assoc, ← List.append_assoc, ← List.append_assoc]
    exact slice_middle _ _ _ (by simp [hm, hv, hs, hr]) hl.symm
  have hkDrop : (Bits.ofBytes (data.take 4)).drop 20 = k := by
    rw [bits, ← List.append_assoc, ← List.append_assoc, ← List.append_assoc, ← List.append_assoc]
    exact List.drop_left' (by simp [hm, hv, hs, hr, hl])
  rw [← headerWord_take h4] at hlField hkField
  rw [headerSize, hlField, hkField, leadingOnes_value hl, leadingOnes_value hk, announcedSize,
    hlSlice, hkDrop]
  omega

/-- The constructor accepts exactly the headers of the grammar, decodes their fields, and
reads nothing but the fixed word and the extension bytes that it announces. -/
theorem header_language (data : Bytes) :
    (∀ header, Header.parse data = .ok header ↔ Spells data header) ∧
      ∀ data' : Bytes, data'.take (announcedSize data) = data.take (announcedSize data) →
        Header.parse data' = Header.parse data := by
  constructor
  · intro header
    rw [parse_eq_ok, spells_iff]
  · intro data' hfront
    have hfour : 4 ≤ announcedSize data := by
      unfold announcedSize
      omega
    rcases Nat.lt_or_ge data.length 4 with hshort | h4
    · -- too short for a word: then nothing is different
      rw [List.take_of_length_le (show data.length ≤ announcedSize data by omega)] at hfront
      have hlen := congrArg List.length hfront
      rw [List.length_take] at hlen
      rw [← hfront, List.take_of_length_le (by omega)]
    · have hword : headerWord data' = headerWord data := by
        rw [← headerWord_take_of_le data' hfour, hfront, headerWord_take_of_le data hfour]
      have hsize := headerSize_le_announcedSize h4
      have hsize' : headerSize (headerWord data') ≤ announcedSize data := by
        rw [hword]
        exact hsize
      rw [← parse_take data' hsize', hfront, parse_take data hsize]

end ManagedSecurity

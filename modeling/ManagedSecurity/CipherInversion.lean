import ManagedSecurity.CipherRoundTrip

/-! # What a successful encryption or decryption says about the bytes

`encryptS0_eq` and its companions compute an encryption forwards, for the
arguments the encoder is meant for. Here a run that has succeeded is taken
apart, for any arguments at all:

* `header_write_inv`: the builder has changed at most eight bytes, and the
  profile bits are those asked for, whatever the other fields became;
* `encryptS0_inv`, `encryptS1_inv`, `encryptS2_inv`: the message in the
  destination is the associated data, the IV, the MAC and the ciphertext of the
  one call that was made, and it still parses to the header the code worked with;
* `decryptS0_inv`, `decryptS1_inv`, `decryptS2_inv`: the same split of a message
  whose decryption succeeds.
-/

namespace ManagedSecurity

open Bytes Outcome

/-! ## The header builder -/

/-- Storing one byte in front of position `n`. -/
theorem setByte_sameFrom {off n : ℕ} {b : UInt8} {d d' : Bytes} {u : Unit}
    (hrun : setByte off b d = .ok u d') (hn : off < n) : SameFrom n d d' := by
  rcases setByte_eq_ok.mp hrun with ⟨hlt, rfl⟩
  exact SameFrom.overwrite hn hlt

/-- The variable-length encoder touches at most two bytes. A field of a value
that is not negative has 12 bits, any other 16. -/
theorem encodeVariableLength12_inv {v : ℤ} {off : ℕ} {d d' : Bytes} {r : ℕ × ℕ}
    (hrun : encodeVariableLength12 v off d = .ok r d') :
    SameFrom (off + 2) d d' ∧ r.2 ≤ off + 2 ∧ r.1 < 2 ^ 16 ∧ (0 ≤ v → r.1 < 2 ^ 12) := by
  -- the marker and the top bits of the value stay below the mark of 12 bits
  have hfield : ∀ mark x mask : ℕ, mark < 2 ^ 12 → mask < 2 ^ 12 →
      mark ||| (x &&& mask) < 2 ^ 12 :=
    fun mark x mask hmark hmask =>
      Nat.or_lt_two_pow hmark (lt_of_le_of_lt Nat.and_le_right hmask)
  unfold encodeVariableLength12 at hrun
  split_ifs at hrun with h11 h18 h25
  · rcases pure_eq_ok.mp hrun with ⟨rfl, rfl⟩
    refine ⟨SameFrom.refl _ _, Nat.le_add_right _ _, ?_, ?_⟩
    · show (v % 2 ^ 16).toNat < 2 ^ 16
      omega
    · intro hv
      show (v % 2 ^ 16).toNat < 2 ^ 12
      omega
  · rcases bind_eq_ok.mp hrun with ⟨u, d₁, hset, hret⟩
    rcases pure_eq_ok.mp hret with ⟨rfl, rfl⟩
    have hlt := hfield 0x800 (v.toNat >>> 8) 0x3FF (by norm_num) (by norm_num)
    refine ⟨setByte_sameFrom hset (by omega), Nat.add_le_add_left (by omega) _, ?_, fun _ => hlt⟩
    exact lt_trans hlt (by norm_num)
  · rcases bind_eq_ok.mp hrun with ⟨u, d₁, hset, hrest⟩
    rcases bind_eq_ok.mp hrest with ⟨u', d₂, hset', hret⟩
    rcases pure_eq_ok.mp hret with ⟨rfl, rfl⟩
    have hlt := hfield 0xC00 (v.toNat >>> 16) 0x1FF (by norm_num) (by norm_num)
    have hsame := (setByte_sameFrom hset (show off < off + 2 by omega)).trans
      (setByte_sameFrom hset' (show off + 1 < off + 2 by omega))
    exact ⟨hsame, le_rfl, lt_trans hlt (by norm_num), fun _ => hlt⟩
  · cases hrun

/-- Every size the calculator returns has room for the fixed word. -/
theorem getRequiredSize_pos {L K profile size : ℤ} (hL : 0 ≤ L)
    (hsize : getRequiredSize L K profile = .ok size) : 4 ≤ size := by
  unfold getRequiredSize at hsize
  rcases hl : getExtensionCount L with e | l
  · rw [hl] at hsize
    cases hsize
  · rcases hk : getExtensionCount K with e | k
    · rw [hl, hk] at hsize
      cases hsize
    · rw [hl, hk] at hsize
      have heq := Except.ok.inj hsize
      simp only [fixedHeaderSize] at heq
      omega

/-- The builder has changed at most the first eight bytes, and the top byte of
the word is the magic, the version and the profile. -/
theorem header_write_inv {L K : ℤ} {profile : ℕ} {d d' : Bytes} {u : Unit} (hL : 0 ≤ L)
    (hp : profile ≤ 2) (hrun : Header.write L K profile d = .ok u d') :
    SameFrom 8 d d' ∧ headerWord d' / 2 ^ 24 = 7 * 2 ^ 5 + profile * 2 := by
  rcases bind_eq_ok.mp hrun with ⟨size, d₀, hsizeRun, hcheck⟩
  rcases ofExcept_eq_ok.mp hsizeRun with ⟨hsize, rfl⟩
  rw [get_bind] at hcheck
  rcases bind_eq_ok.mp hcheck with ⟨u₁, d₁, hroomRun, hfields⟩
  rcases ensure_eq_ok.mp hroomRun with ⟨hroom, rfl⟩
  rcases bind_eq_ok.mp hfields with ⟨l, d₂, hl, hkey⟩
  rcases bind_eq_ok.mp hkey with ⟨k, d₃, hk, hbytes⟩
  rcases encodeVariableLength12_inv hl with ⟨hsame₂, hl₂, -, hl12⟩
  rcases encodeVariableLength12_inv hk with ⟨hsame₃, hk₂, hk16, -⟩
  have hlen : 4 ≤ d.length := by
    have := getRequiredSize_pos hL hsize
    omega
  have hsame : SameFrom 8 d d₃ := by
    refine (hsame₂.mono ?_).trans (hsame₃.mono ?_)
    · simp only [fixedHeaderSize]
      omega
    · simp only [fixedHeaderSize] at hl₂
      omega
  have hlen₃ : 4 ≤ d₃.length := by rw [hsame.length]; exact hlen
  set w := headerPrefix profile ||| (l.1 <<< 12) ||| k.1 with hw
  have hstore := setWord_ok w hlen₃
  have hd' : d' = overwrite d₃ 0 (beBytes 4 w) := by
    have heq := hbytes.symm.trans hstore
    exact (EStateM.Result.ok.inj heq).2
  -- the two fields stay below bit 24, where the top byte begins
  have hlow : (l.1 <<< 12) ||| k.1 < 2 ^ 24 := by
    refine Nat.or_lt_two_pow ?_ (lt_trans hk16 (by norm_num))
    rw [Nat.shiftLeft_eq]
    have := hl12 hL
    omega
  have hmark : headerPrefix profile = (7 * 2 ^ 5 + profile * 2) <<< 24 := by
    interval_cases profile <;> rfl
  have hword : w = (7 * 2 ^ 5 + profile * 2) * 2 ^ 24 + ((l.1 <<< 12) ||| k.1) := by
    rw [hw, hmark, Nat.or_assoc, shiftLeft_or _ hlow]
  have htake : d'.take 4 = beBytes 4 w := by
    rw [hd', overwrite, List.take_zero, List.nil_append]
    exact List.take_left' (length_beBytes 4 w)
  have hlen' : d'.length = d₃.length := by
    rw [hd']
    exact length_overwrite (by rw [length_beBytes]; omega)
  refine ⟨hsame.trans ?_, ?_⟩
  · rw [hd']
    exact SameFrom.overwrite (by rw [length_beBytes]; omega) (by rw [length_beBytes]; omega)
  · rw [headerWord_take (by omega), htake, beNat_beBytes]
    omega

/-- The header that is parsed from what the builder wrote has the lengths of
the profile asked for. -/
theorem parse_of_write {L K : ℤ} {profile : ℕ} {d d' : Bytes} {u : Unit} {h : Header}
    (hL : 0 ≤ L) (hp : profile ≤ 2) (hwrite : Header.write L K profile d = .ok u d')
    (hparse : Header.parse d' = .ok h) :
    Accepts d' (builderProfile profile) ∧ h = decodedHeader (builderProfile profile) d' := by
  rcases header_write_inv hL hp hwrite with ⟨-, htop⟩
  rcases parse_eq_ok.mp hparse with ⟨p, hacc, rfl⟩
  have hbits : headerWord d' / 2 ^ 25 % 2 ^ 2 = profile := by omega
  have hswitch := hacc.switch
  rw [hbits] at hswitch
  have heq : p = builderProfile profile := by
    interval_cases profile
    · exact (Except.ok.inj hswitch).symm
    · exact (Except.ok.inj hswitch).symm
    · exact (Except.ok.inj hswitch).symm
  subst heq
  exact ⟨hacc, rfl⟩

/-- For a key index that is not negative the parsed header is the one that was
built. -/
theorem builtHeader_of_write {n : ℕ} {K : ℤ} {profile : ℕ} {d d' : Bytes} {u : Unit} {h : Header}
    (hp : profile ≤ 2) (hK : 0 ≤ K) (hwrite : Header.write n K profile d = .ok u d')
    (hparse : Header.parse d' = .ok h) :
    ∃ k : ℕ, K = k ∧ n < 2 ^ 25 ∧ k < 2 ^ 25 ∧ h = builtHeader n k profile := by
  rcases bind_eq_ok.mp hwrite with ⟨size, d₀, hsizeRun, hcheck⟩
  rcases ofExcept_eq_ok.mp hsizeRun with ⟨hsize, rfl⟩
  rw [get_bind] at hcheck
  rcases bind_eq_ok.mp hcheck with ⟨u₁, d₁, hroomRun, -⟩
  rcases ensure_eq_ok.mp hroomRun with ⟨hroom, rfl⟩
  -- the calculator throws for every value the encoder has no room for
  have hbound : ∀ v : ℤ, ∀ l, getExtensionCount v = .ok l → v < 2 ^ 25 := by
    intro v l hv
    unfold getExtensionCount at hv
    split_ifs at hv <;> omega
  rcases Int.eq_ofNat_of_zero_le hK with ⟨k, rfl⟩
  unfold getRequiredSize at hsize
  rcases hl : getExtensionCount n with e | l
  · rw [hl] at hsize
    cases hsize
  rcases hk : getExtensionCount k with e | ke
  · rw [hl, hk] at hsize
    cases hsize
  have hL : n < 2 ^ 25 := by exact_mod_cast hbound n l hl
  have hK' : k < 2 ^ 25 := by exact_mod_cast hbound k ke hk
  have hsize' : getRequiredSize n k profile = .ok size := by
    unfold getRequiredSize
    rw [hl, hk] at hsize ⊢
    exact hsize
  have hfit : requiredSize n k profile ≤ d.length := by
    have heq : (size : ℤ) = requiredSize n k profile :=
      Except.ok.inj (hsize'.symm.trans (getRequiredSize_eq profile hL hK'))
    omega
  have hd' : d' = headerBytes n k profile ++ d.drop (headerLength n k) :=
    (EStateM.Result.ok.inj (hwrite.symm.trans (header_write_eq hL hK' hp hfit))).2
  refine ⟨k, rfl, hL, hK', ?_⟩
  have hbuilt := parse_headerBytes (d.drop (headerLength n k)) hL hK' hp
  rw [← hd'] at hbuilt
  exact Except.ok.inj (hparse.symm.trans hbuilt)

/-- A header that was built for `n` bytes of payload under the key index `K`. -/
structure Header.BuiltFor (h : Header) (n : ℕ) (K : ℤ) (profile : ℕ) : Prop where
  ivLength : h.ivLength = (builderProfile profile).ivLength
  macLength : h.macLength = (builderProfile profile).macLength
  sequenceLength : h.sequenceLength = (builderProfile profile).sequenceLength
  keyIndex : 0 ≤ K → h.keyIndex = K
  size : 0 ≤ K → getRequiredSize n K profile = .ok h.totalLength

theorem builtFor_of_write {n : ℕ} {K : ℤ} {profile : ℕ} {d d' : Bytes} {u : Unit} {h : Header}
    (hp : profile ≤ 2) (hwrite : Header.write n K profile d = .ok u d')
    (hparse : Header.parse d' = .ok h) : h.BuiltFor n K profile := by
  have hlayout := (parse_of_write (Int.natCast_nonneg _) hp hwrite hparse).2
  refine ⟨?_, ?_, ?_, ?_, ?_⟩
  · rw [hlayout]
    rfl
  · rw [hlayout]
    rfl
  · rw [hlayout]
    rfl
  · intro hK
    rcases builtHeader_of_write hp hK hwrite hparse with ⟨k, rfl, -, -, rfl⟩
    rfl
  · intro hK
    rcases builtHeader_of_write hp hK hwrite hparse with ⟨k, rfl, hn, hk, rfl⟩
    rw [getRequiredSize_eq profile hn hk]
    simp only [builtHeader, Header.layout, requiredSize]
    push_cast
    ring_nf

/-- The header that the code works with, as it was parsed from what the builder had
written, and the destination as the plaintext is read. -/
def Header.WrittenInto (h : Header) (n : ℕ) (K : ℤ) (profile : ℕ) (d d₂ : Bytes) : Prop :=
  d₂.length = d.length ∧
    ∃ d₁, Header.write n K profile d = .ok () d₁ ∧ Header.parse d₁ = .ok h

/-! ## Regions -/

/-- A message is its associated data, its IV, its MAC and its payload, as far
as the header reaches. -/
theorem take_totalLength {m iv mac ct : Bytes} {h : Header} (hparse : Header.parse m = .ok h)
    (hiv : h.getIv m = .ok iv) (hmac : h.getMac m = .ok mac) (hct : h.getPayload m = .ok ct) :
    m.take h.totalLength.toNat = m.take h.ivOffset ++ (iv ++ (mac ++ ct)) ∧
      h.totalLength = (m.take h.totalLength.toNat).length := by
  rcases parse_adjacent hparse with ⟨hadj₁, hadj₂, htotal, -⟩
  rcases sliceSpan_eq_ok.mp hiv with ⟨⟨-, -, hivLen⟩, rfl⟩
  rcases sliceSpan_eq_ok.mp hmac with ⟨⟨-, -, hmacLen⟩, rfl⟩
  rcases sliceSpan_eq_ok.mp hct with ⟨⟨-, hpos, hctLen⟩, rfl⟩
  rcases Int.eq_ofNat_of_zero_le hpos with ⟨n, hn⟩
  have hsum : h.totalLength.toNat = h.ivOffset + h.ivLength + h.macLength + n := by omega
  constructor
  · simp only [Int.toNat_natCast, hn]
    rw [hsum, take_add_slice, take_add_slice, take_add_slice, hadj₂, hadj₁]
    simp only [List.append_assoc]
  · rw [List.length_take]
    omega

/-! ## Encryption -/

namespace Cipher

variable {c : Cipher}

/-- What the destination holds after a successful encryption: it parses to the
header the code has worked with, and up to the end of the payload it is `front`,
the MAC and the ciphertext of the call. -/
structure Written (c : Cipher) (h : Header) (call : GcmCall) (front suffix d d' : Bytes) :
    Prop where
  parsed : Header.parse d' = .ok h
  payload : h.payloadLength = call.plaintext.length
  length : d'.length = d.length
  bytes : d'.take h.totalLength.toNat =
    front ++ (((c.crypto.output call).2 ++ suffix) ++ (c.crypto.output call).1)
  total : h.totalLength = (d'.take h.totalLength.toNat).length

/-- The primitive writes behind everything the parser has read. -/
theorem aesEncrypt_inv {h : Header} {call r : GcmCall} {suffix d₁ d d' : Bytes}
    (hparse : Header.parse d₁ = .ok h)
    (hkeep : d.take (headerSize (headerWord d₁)) = d₁.take (headerSize (headerWord d₁)))
    (hmac : h.macLength = 16 + suffix.length)
    (hrun : c.aesEncrypt h call suffix d = .ok r d') :
    r = call ∧ Written c h call (d.take h.macOffset) suffix d d' := by
  rcases parse_adjacent hparse with ⟨hadj₁, hadj₂, htotal, hoff⟩
  rcases bind_eq_ok.mp hrun with ⟨u, d₂, hensure, hrest⟩
  rcases ensure_eq_ok.mp hensure with ⟨hlen, rfl⟩
  rcases bind_eq_ok.mp hrest with ⟨u', d₃, hpayload, -⟩
  rcases writeSpan_eq_ok.mp hpayload with ⟨⟨-, -, hfit⟩, -⟩
  have hroom : h.payloadOffset + call.plaintext.length ≤ d.length := by omega
  -- having succeeded, the spans fit, and what they then hold is known
  have hforward := c.aesEncrypt_eq h call suffix d hlen.symm hmac hadj₂ hroom
  rcases EStateM.Result.ok.inj (hrun.symm.trans hforward) with ⟨hr, hd'⟩
  have hct : (c.crypto.output call).1.length = call.plaintext.length :=
    c.crypto.length_ciphertext _ _ _ _
  have htag : (c.crypto.output call).2.length = 16 := c.crypto.length_tag _ _ _ _
  set body := ((c.crypto.output call).2 ++ suffix) ++ (c.crypto.output call).1 with hbody
  have hbodyLen : body.length = h.macLength + call.plaintext.length := by
    rw [hbody, List.length_append, List.length_append, hct, htag, hmac]
  have hlen' : d'.length = d.length := by
    rw [hd']
    exact length_overwrite (by omega)
  have htotal' : h.totalLength.toNat = h.macOffset + body.length := by omega
  refine ⟨hr, ?_, hlen.symm, hlen', ?_, ?_⟩
  · refine (parse_congr hparse ?_).1
    rw [← hkeep, hd']
    exact take_overwrite_of_le (by omega) (by omega)
  · have hfront : d'.take h.macOffset = d.take h.macOffset := by
      rw [hd']
      exact take_overwrite_of_le le_rfl (by omega)
    have hback : slice d' h.macOffset body.length = body := by
      rw [hd']
      exact slice_overwrite_self (by omega)
    rw [htotal', take_add_slice, hfront, hback]
  · rw [List.length_take]
    omega

theorem parseDestination_inv {d d' : Bytes} {h : Header}
    (hrun : parseDestination d = .ok h d') : Header.parse d = .ok h ∧ d = d' := by
  rw [parseDestination, get_bind] at hrun
  exact ofExcept_eq_ok.mp hrun

/-- Filling the IV leaves what the parser has read, and everything from the end
of the IV on. -/
theorem fillIv_inv {random : ℕ → UInt8} {h : Header} {d d' : Bytes} {u : Unit}
    (hrun : fillIv random h d = .ok u d') :
    SameFrom (h.ivOffset + h.ivLength) d d' ∧ ∀ n ≤ h.ivOffset, d'.take n = d.take n := by
  rcases writeSpan_eq_ok.mp hrun with ⟨⟨-, -, hfit⟩, rfl⟩
  rw [Int.toNat_natCast]
  have hlen : (fill random h.ivLength).length = h.ivLength := length_fill random h.ivLength
  constructor
  · exact SameFrom.overwrite (by omega) (by omega)
  · intro n hn
    exact take_overwrite_of_le hn (by omega)

/-- The front of the message as `EncryptS0` and `EncryptS1` cut it out. -/
theorem take_of_sliceSpan {d out : Bytes} {n : ℕ} (h : sliceSpan d 0 n = .ok out) :
    out = d.take n := by
  rcases sliceSpan_eq_ok.mp h with ⟨-, rfl⟩
  rw [Int.toNat_natCast, Int.toNat_zero, slice_zero]

theorem length_of_sliceSpan {d out : Bytes} {n : ℕ} (h : sliceSpan d 0 n = .ok out) :
    out.length = n := by
  rcases sliceSpan_eq_ok.mp h with ⟨⟨-, -, hfit⟩, rfl⟩
  rw [Int.toNat_natCast, Int.toNat_zero, length_slice_of_le (by omega)]

theorem take_macOffset {d iv : Bytes} {h : Header} (hadj : h.macOffset = h.ivOffset + h.ivLength)
    (hiv : h.getIv d = .ok iv) : d.take h.macOffset = d.take h.ivOffset ++ iv := by
  rcases sliceSpan_eq_ok.mp hiv with ⟨-, rfl⟩
  rw [hadj, take_add_slice, Int.toNat_natCast, Int.toNat_natCast]

section

variable {random : ℕ → UInt8} {plaintext : PlainSpan} {K : ℤ} {call : GcmCall} {d d' : Bytes}

/-- A successful `EncryptS0`. -/
theorem encryptS0_inv (hrun : c.encryptS0 random plaintext K d = .ok call d') :
    ∃ h d₂, c.getKey K = .ok call.key ∧ validKey call.key ∧ call.plaintext = plaintext.read d₂ ∧
      h.BuiltFor plaintext.length K 0 ∧ h.WrittenInto plaintext.length K 0 d d₂ ∧
      call.aad.length = h.ivOffset ∧
      Written c h call (call.aad ++ call.nonce) [] d d' := by
  -- every step returned: peel them off in the order of EncryptS0
  rcases bind_eq_ok.mp hrun with ⟨key, d₀, hkeyRun, hrun₁⟩
  rcases ofExcept_eq_ok.mp hkeyRun with ⟨hkey, rfl⟩
  rcases bind_eq_ok.mp hrun₁ with ⟨u, d₁, hwrite, hrun₂⟩
  rcases bind_eq_ok.mp hrun₂ with ⟨h, d₁', hparseRun, hrun₃⟩
  rcases parseDestination_inv hparseRun with ⟨hparse, rfl⟩
  rcases bind_eq_ok.mp hrun₃ with ⟨u₂, d₂, hfill, hrun₄⟩
  rw [get_bind] at hrun₄
  rcases bind_eq_ok.mp hrun₄ with ⟨nonce, s₁, hnonceRun, hrun₅⟩
  rcases ofExcept_eq_ok.mp hnonceRun with ⟨hnonce, rfl⟩
  rcases bind_eq_ok.mp hrun₅ with ⟨w₁, s₂, hpayRun, hrun₆⟩
  rcases ofExcept_eq_ok.mp hpayRun with ⟨-, rfl⟩
  rcases bind_eq_ok.mp hrun₆ with ⟨w₂, s₃, hmacRun, hrun₇⟩
  rcases ofExcept_eq_ok.mp hmacRun with ⟨-, rfl⟩
  rcases bind_eq_ok.mp hrun₇ with ⟨aad, s₄, haadRun, hrun₈⟩
  rcases ofExcept_eq_ok.mp haadRun with ⟨haad, rfl⟩
  rcases bind_eq_ok.mp hrun₈ with ⟨u₃, s₅, hvalidRun, hseal⟩
  rcases ensure_eq_ok.mp hvalidRun with ⟨hvalid, rfl⟩
  have hbuilt := builtFor_of_write (show 0 ≤ 2 by omega) hwrite hparse
  rcases parse_adjacent hparse with ⟨hadj₁, -, -, hoff⟩
  rcases fillIv_inv hfill with ⟨hsame, hkeep⟩
  have hmacLen : h.macLength = 16 + ([] : Bytes).length := hbuilt.macLength
  rcases aesEncrypt_inv hparse (hkeep _ (by omega)) hmacLen hseal with ⟨rfl, hwritten⟩
  rw [take_macOffset hadj₁ hnonce, ← take_of_sliceSpan haad] at hwritten
  have hlen₂ : d₂.length = d.length := by
    rw [hsame.length]
    exact (header_write_inv (Int.natCast_nonneg _) (show 0 ≤ 2 by omega) hwrite).1.length
  exact ⟨h, d₂, hkey, hvalid, rfl, hbuilt, ⟨hlen₂, d₁, hwrite, hparse⟩, length_of_sliceSpan haad,
    { hwritten with length := hwritten.length.trans hlen₂ }⟩

/-- A successful `EncryptS1`. The associated data end with the input nonce, and
the code stored behind the tag, which is also the synthetic IV, is that of the
message. -/
theorem encryptS1_inv (hrun : c.encryptS1 random plaintext K d = .ok call d') :
    ∃ h masterKey hdr inputNonce d₂, c.getKey K = .ok masterKey ∧ inputNonce.length = 16 ∧
      call.key = c.encKey masterKey inputNonce ∧ call.plaintext = plaintext.read d₂ ∧
      h.BuiltFor plaintext.length K 1 ∧ h.WrittenInto plaintext.length K 1 d d₂ ∧
      call.aad = hdr ++ inputNonce ∧ hdr.length = h.ivOffset ∧
      call.nonce =
        (c.crypto.hmac (c.authKey masterKey inputNonce) (call.aad ++ call.plaintext)).take 12 ∧
      Written c h call call.aad
        ((c.crypto.hmac (c.authKey masterKey inputNonce) (call.aad ++ call.plaintext)).take 16) d d' := by
  -- every step returned: peel them off in the order of EncryptS1
  rcases bind_eq_ok.mp hrun with ⟨masterKey, d₀, hkeyRun, hrun₁⟩
  rcases ofExcept_eq_ok.mp hkeyRun with ⟨hkey, rfl⟩
  rcases bind_eq_ok.mp hrun₁ with ⟨u, d₁, hwrite, hrun₂⟩
  rcases bind_eq_ok.mp hrun₂ with ⟨h, d₁', hparseRun, hrun₃⟩
  rcases parseDestination_inv hparseRun with ⟨hparse, rfl⟩
  rcases bind_eq_ok.mp hrun₃ with ⟨u₂, d₂, hfill, hrun₄⟩
  rw [get_bind] at hrun₄
  rcases bind_eq_ok.mp hrun₄ with ⟨inputNonce, s₁, hnonceRun, hrun₅⟩
  rcases ofExcept_eq_ok.mp hnonceRun with ⟨hnonce, rfl⟩
  rcases bind_eq_ok.mp hrun₅ with ⟨aad, s₂, haadRun, hrun₆⟩
  rcases ofExcept_eq_ok.mp haadRun with ⟨haad, rfl⟩
  rcases bind_eq_ok.mp hrun₆ with ⟨w₁, s₃, hmacRun, hrun₇⟩
  rcases ofExcept_eq_ok.mp hmacRun with ⟨-, rfl⟩
  rcases bind_eq_ok.mp hrun₇ with ⟨w₂, s₄, hpayRun, hseal⟩
  rcases ofExcept_eq_ok.mp hpayRun with ⟨-, rfl⟩
  have hbuilt := builtFor_of_write (show 1 ≤ 2 by omega) hwrite hparse
  rcases parse_adjacent hparse with ⟨hadj₁, -, -, hoff⟩
  rcases fillIv_inv hfill with ⟨hsame, hkeep⟩
  set code := c.crypto.hmac (c.authKey masterKey inputNonce) (aad ++ plaintext.read d₂) with hcode
  have hmacLen : h.macLength = 16 + (code.take 16).length := by
    rw [hbuilt.macLength, List.length_take, hcode, c.crypto.length_hmac]
    rfl
  have hivLen : h.ivLength = 16 := hbuilt.ivLength
  have hnonceLen : inputNonce.length = 16 := by
    rcases sliceSpan_eq_ok.mp hnonce with ⟨⟨-, -, hfit⟩, rfl⟩
    rw [Int.toNat_natCast, Int.toNat_natCast, length_slice_of_le (by omega), hivLen]
  rcases aesEncrypt_inv hparse (hkeep _ (by omega)) hmacLen hseal with ⟨rfl, hwritten⟩
  rw [hadj₁, ← take_of_sliceSpan haad] at hwritten
  have hlen₂ : d₂.length = d.length := by
    rw [hsame.length]
    exact (header_write_inv (Int.natCast_nonneg _) (show 1 ≤ 2 by omega) hwrite).1.length
  have hsplit : aad = d₂.take h.ivOffset ++ inputNonce := by
    rw [take_of_sliceSpan haad, ← hadj₁, take_macOffset hadj₁ hnonce]
  have hhdr : (d₂.take h.ivOffset).length = h.ivOffset := by
    have hjoined := congrArg List.length hsplit
    rw [List.length_append, length_of_sliceSpan haad] at hjoined
    omega
  exact ⟨h, masterKey, d₂.take h.ivOffset, inputNonce, d₂, hkey, hnonceLen, rfl, rfl, hbuilt,
    ⟨hlen₂, d₁, hwrite, hparse⟩, hsplit, hhdr, rfl,
    { hwritten with length := hwritten.length.trans hlen₂ }⟩

/-- A sequence number that is stored right in front of the IV, in bytes that stay as they
are up to the IV, is read back. -/
theorem getSequence_stored {h : Header} {seq : UInt64} {n : ℕ} {d d₂ seqDst : Bytes}
    (hlen : h.sequenceLength = 8) (hstart : (h.ivOffset : ℤ) - (8 : ℕ) = n) (hfit : n ≤ d.length)
    (hkeep : d₂.take h.ivOffset = (overwrite d n (beBytes 8 seq.toNat)).take h.ivOffset)
    (hget : h.getSequence d₂ = .ok seqDst) : seqDst = beBytes 8 seq.toNat := by
  rw [Header.getSequence, if_pos (by omega), hlen, hstart] at hget
  rcases sliceSpan_eq_ok.mp hget with ⟨-, rfl⟩
  rw [Int.toNat_natCast, Int.toNat_natCast]
  have hcut := congrArg (fun xs => slice xs n 8) hkeep
  have hin : n + 8 ≤ h.ivOffset := by omega
  simp only [← slice_zero _ h.ivOffset, slice_slice _ hin, Nat.zero_add] at hcut
  have hself : slice (overwrite d n (beBytes 8 seq.toNat)) n (beBytes 8 seq.toNat).length =
      beBytes 8 seq.toNat := slice_overwrite_self hfit
  rw [length_beBytes] at hself
  exact hcut.trans hself

/-- A successful `EncryptS2`. The associated data end with the sequence number;
up to the call of the primitive only the first 30 bytes have been written to. -/
theorem encryptS2_inv {seq : UInt64} (hrun : c.encryptS2 random plaintext K seq d = .ok call d') :
    ∃ h hdr d₂, c.getKey K = .ok call.key ∧ validKey call.key ∧ SameFrom 30 d d₂ ∧
      call.plaintext = plaintext.read d₂ ∧ call.aad = hdr ++ beBytes 8 seq.toNat ∧
      h.BuiltFor plaintext.length K 2 ∧ h.WrittenInto plaintext.length K 2 d d₂ ∧
      call.aad.length = h.ivOffset ∧
      Written c h call (call.aad ++ call.nonce) [] d d' := by
  rcases bind_eq_ok.mp hrun with ⟨key, d₀, hkeyRun, hrun₁⟩
  rcases ofExcept_eq_ok.mp hkeyRun with ⟨hkey, rfl⟩
  rcases bind_eq_ok.mp hrun₁ with ⟨u, d₁, hwrite, hrun₂⟩
  rcases bind_eq_ok.mp hrun₂ with ⟨h, d₁', hparseRun, hrun₃⟩
  rcases parseDestination_inv hparseRun with ⟨hparse, rfl⟩
  rcases bind_eq_ok.mp hrun₃ with ⟨u₁, d₁'', hseqRun, hrun₄⟩
  rcases bind_eq_ok.mp hrun₄ with ⟨u₂, d₂, hfill, hrun₅⟩
  rcases bind_eq_ok.mp hrun₅ with ⟨u₃, s₀, hvalidRun, hrun₆⟩
  rcases ensure_eq_ok.mp hvalidRun with ⟨hvalid, rfl⟩
  rw [get_bind] at hrun₆
  rcases bind_eq_ok.mp hrun₆ with ⟨nonce, s₁, hnonceRun, hrun₇⟩
  rcases ofExcept_eq_ok.mp hnonceRun with ⟨hnonce, rfl⟩
  rcases bind_eq_ok.mp hrun₇ with ⟨w₁, s₂, hpayRun, hrun₈⟩
  rcases ofExcept_eq_ok.mp hpayRun with ⟨-, rfl⟩
  rcases bind_eq_ok.mp hrun₈ with ⟨w₂, s₃, hmacRun, hrun₉⟩
  rcases ofExcept_eq_ok.mp hmacRun with ⟨-, rfl⟩
  rcases bind_eq_ok.mp hrun₉ with ⟨seqDst, s₄, hgetRun, hrun₁₀⟩
  rcases ofExcept_eq_ok.mp hgetRun with ⟨hget, rfl⟩
  rcases bind_eq_ok.mp hrun₁₀ with ⟨hdr, s₅, hhdrRun, hseal⟩
  rcases ofExcept_eq_ok.mp hhdrRun with ⟨hhdr, rfl⟩
  have hacc := (parse_of_write (Int.natCast_nonneg _) (show 2 ≤ 2 by omega) hwrite hparse).1
  have hbuilt := builtFor_of_write (show 2 ≤ 2 by omega) hwrite hparse
  rcases parse_adjacent hparse with ⟨hadj₁, -, -, hoff⟩
  rcases fillIv_inv hfill with ⟨hsame, hkeep⟩
  have hseqLen : h.sequenceLength = 8 := hbuilt.sequenceLength
  have hivLen : h.ivLength = 12 := hbuilt.ivLength
  have hmacLen : h.macLength = 16 + ([] : Bytes).length := hbuilt.macLength
  have hstart : ((h.ivOffset : ℤ) - h.sequenceLength) = (headerSize (headerWord d₁) : ℕ) := by omega
  have hten : headerSize (headerWord d₁) ≤ 10 := by
    have hl := hacc.lengthOnes
    have hk := hacc.keyOnes
    unfold headerSize
    omega
  -- the sequence number is stored between the header and the IV
  rw [hstart, hseqLen] at hseqRun
  rcases writeSpan_eq_ok.mp hseqRun with ⟨⟨-, -, hseqFit⟩, hd₁''⟩
  rw [Int.toNat_natCast] at hd₁''
  have hbytes : (beBytes 8 seq.toNat).length = 8 := length_beBytes _ _
  have hsame₁ : SameFrom 30 d₁ d₁'' := by
    rw [hd₁'']
    exact SameFrom.overwrite (by omega) (by omega)
  have hkeep₁ : d₁''.take (headerSize (headerWord d₁)) = d₁.take (headerSize (headerWord d₁)) := by
    rw [hd₁'']
    exact take_overwrite_of_le le_rfl (by omega)
  have hseqDst : seqDst = beBytes 8 seq.toNat :=
    getSequence_stored hseqLen (hseqLen ▸ hstart) (by omega) (hd₁'' ▸ hkeep h.ivOffset le_rfl) hget
  have haad : hdr ++ seqDst = d₂.take h.ivOffset := by
    rw [hstart] at hhdr
    rw [Header.getSequence, if_pos (by omega), hstart, hseqLen] at hget
    rcases sliceSpan_eq_ok.mp hget with ⟨-, hslice⟩
    rw [Int.toNat_natCast] at hslice
    rw [take_of_sliceSpan hhdr, hslice, hoff, hseqLen, take_add_slice]
    rfl
  have hkeep₂ : d₂.take (headerSize (headerWord d₁)) = d₁.take (headerSize (headerWord d₁)) :=
    (hkeep _ (by omega)).trans hkeep₁
  rcases aesEncrypt_inv hparse hkeep₂ hmacLen hseal with ⟨rfl, hwritten⟩
  rw [take_macOffset hadj₁ hnonce, ← haad] at hwritten
  have hfront := (header_write_inv (Int.natCast_nonneg _) (show 2 ≤ 2 by omega) hwrite).1
  have hall : SameFrom 30 d d₂ :=
    ((hfront.mono (by omega)).trans hsame₁).trans (hsame.mono (by omega))
  have hlen : d'.length = d.length := by
    rw [hwritten.length, hall.length]
  refine ⟨h, hdr, d₂, hkey, hvalid, hall, rfl, ?_, hbuilt, ⟨hall.length, d₁, hwrite, hparse⟩, ?_,
    { hwritten with length := hlen }⟩
  · show hdr ++ seqDst = hdr ++ beBytes 8 seq.toNat
    rw [hseqDst]
  · show (hdr ++ seqDst).length = h.ivOffset
    rw [haad, List.length_take]
    rcases sliceSpan_eq_ok.mp hnonce with ⟨⟨-, -, hfit⟩, -⟩
    omega

end

/-! ## Decryption -/

/-- The primitive has accepted, and its plaintext fills the front of the
destination. -/
theorem aesDecrypt_inv {h : Header} {key nonce ct tag aad d d' : Bytes} {u : Unit}
    (hrun : c.aesDecrypt h key nonce ct tag aad d = .ok u d') :
    ∃ p, c.crypto.gcmDecrypt key nonce ct tag aad = some p ∧
      h.payloadLength ≤ d.length ∧ d' = overwrite d 0 p := by
  rw [aesDecrypt, get_bind] at hrun
  rcases bind_eq_ok.mp hrun with ⟨w, s₁, hsliceRun, hrun₁⟩
  rcases ofExcept_eq_ok.mp hsliceRun with ⟨hslice, rfl⟩
  cases hdec : c.crypto.gcmDecrypt key nonce ct tag aad with
  | some p =>
    rw [hdec] at hrun₁
    rcases writeSpan_eq_ok.mp hrun₁ with ⟨⟨-, -, hfit⟩, rfl⟩
    exact ⟨p, rfl, by omega, rfl⟩
  | none =>
    rw [hdec] at hrun₁
    rcases bind_eq_ok.mp hrun₁ with ⟨u', s₂, -, hthrow⟩
    cases hthrow

section

variable {h : Header} {m d d' : Bytes} {u : Unit}

/-- A message that the code has opened under a provider key: the first
`TotalLength` bytes are the associated data, the nonce, the tag and the
ciphertext that the primitive has accepted. -/
structure Opened (c : Cipher) (h : Header) (m d d' : Bytes) (key nonce ct tag aad p : Bytes) :
    Prop where
  parsed : Header.parse m = .ok h
  provided : c.getKey h.keyIndex = .ok key
  accepted : c.crypto.gcmDecrypt key nonce ct tag aad = some p
  front : aad = m.take h.ivOffset
  bytes : m.take h.totalLength.toNat = aad ++ (nonce ++ (tag ++ ct))
  total : h.totalLength = (m.take h.totalLength.toNat).length
  payload : h.payloadLength = p.length
  fits : h.payloadLength ≤ d.length
  result : d' = overwrite d 0 p

/-- The length of the plaintext is the one the header announces. -/
theorem length_of_accepted {key nonce ct tag aad p : Bytes} (hct : h.getPayload m = .ok ct)
    (hdec : c.crypto.gcmDecrypt key nonce ct tag aad = some p) : h.payloadLength = p.length := by
  rcases sliceSpan_eq_ok.mp hct with ⟨⟨-, hpos, hfit⟩, rfl⟩
  rw [c.crypto.length_plaintext _ _ _ _ _ _ hdec, length_slice_of_le (by omega)]
  omega

/-- A successful `DecryptS0`. -/
theorem decryptS0_inv (hparse : Header.parse m = .ok h)
    (hrun : c.decryptS0 h m d = .ok u d') :
    ∃ key nonce ct tag aad p, Opened c h m d d' key nonce ct tag aad p := by
  rcases bind_eq_ok.mp hrun with ⟨key, s₀, hkeyRun, hrun₁⟩
  rcases ofExcept_eq_ok.mp hkeyRun with ⟨hkey, rfl⟩
  rcases bind_eq_ok.mp hrun₁ with ⟨u₁, s₁, hvalidRun, hrun₂⟩
  rcases ensure_eq_ok.mp hvalidRun with ⟨-, rfl⟩
  rcases bind_eq_ok.mp hrun₂ with ⟨nonce, s₂, hnonceRun, hrun₃⟩
  rcases ofExcept_eq_ok.mp hnonceRun with ⟨hnonce, rfl⟩
  rcases bind_eq_ok.mp hrun₃ with ⟨ct, s₃, hctRun, hrun₄⟩
  rcases ofExcept_eq_ok.mp hctRun with ⟨hct, rfl⟩
  rcases bind_eq_ok.mp hrun₄ with ⟨tag, s₄, htagRun, hrun₅⟩
  rcases ofExcept_eq_ok.mp htagRun with ⟨htag, rfl⟩
  rcases bind_eq_ok.mp hrun₅ with ⟨aad, s₅, haadRun, hopen⟩
  rcases ofExcept_eq_ok.mp haadRun with ⟨haad, rfl⟩
  rcases aesDecrypt_inv hopen with ⟨p, hdec, hfit, hres⟩
  rcases take_totalLength hparse hnonce htag hct with ⟨hbytes, htotal⟩
  have hfront : aad = m.take h.ivOffset := take_of_sliceSpan haad
  rw [← hfront] at hbytes
  exact ⟨key, nonce, ct, tag, aad, p, hparse, hkey, hdec, hfront, hbytes, htotal,
    length_of_accepted hct hdec, hfit, hres⟩

/-- A successful `DecryptS2`; header part and sequence number are adjacent. -/
theorem decryptS2_inv (hparse : Header.parse m = .ok h) (hseqLen : h.sequenceLength = 8)
    (hrun : c.decryptS2 h m d = .ok u d') :
    ∃ key nonce ct tag aad p, Opened c h m d d' key nonce ct tag aad p := by
  rcases bind_eq_ok.mp hrun with ⟨key, s₀, hkeyRun, hrun₁⟩
  rcases ofExcept_eq_ok.mp hkeyRun with ⟨hkey, rfl⟩
  rcases bind_eq_ok.mp hrun₁ with ⟨u₁, s₁, hvalidRun, hrun₂⟩
  rcases ensure_eq_ok.mp hvalidRun with ⟨-, rfl⟩
  rcases bind_eq_ok.mp hrun₂ with ⟨seq, s₂, hseqRun, hrun₃⟩
  rcases ofExcept_eq_ok.mp hseqRun with ⟨hseq, rfl⟩
  rcases bind_eq_ok.mp hrun₃ with ⟨nonce, s₃, hnonceRun, hrun₄⟩
  rcases ofExcept_eq_ok.mp hnonceRun with ⟨hnonce, rfl⟩
  rcases bind_eq_ok.mp hrun₄ with ⟨ct, s₄, hctRun, hrun₅⟩
  rcases ofExcept_eq_ok.mp hctRun with ⟨hct, rfl⟩
  rcases bind_eq_ok.mp hrun₅ with ⟨tag, s₅, htagRun, hrun₆⟩
  rcases ofExcept_eq_ok.mp htagRun with ⟨htag, rfl⟩
  rcases bind_eq_ok.mp hrun₆ with ⟨hdr, s₆, hhdrRun, hopen⟩
  rcases ofExcept_eq_ok.mp hhdrRun with ⟨hhdr, rfl⟩
  rcases aesDecrypt_inv hopen with ⟨p, hdec, hfit, hres⟩
  rcases take_totalLength hparse hnonce htag hct with ⟨hbytes, htotal⟩
  rcases parse_adjacent hparse with ⟨-, -, -, hoff⟩
  have hstart : (h.ivOffset : ℤ) - h.sequenceLength = (headerSize (headerWord m) : ℕ) := by omega
  have hfront : hdr ++ seq = m.take h.ivOffset := by
    rw [hstart] at hhdr
    rw [Header.getSequence, if_pos (by omega), hstart] at hseq
    rcases sliceSpan_eq_ok.mp hseq with ⟨-, rfl⟩
    rw [take_of_sliceSpan hhdr, hoff, take_add_slice, Int.toNat_natCast, Int.toNat_natCast]
  rw [← hfront] at hbytes
  exact ⟨key, nonce, ct, tag, hdr ++ seq, p, hparse, hkey, hdec, hfront, hbytes, htotal,
    length_of_accepted hct hdec, hfit, hres⟩

/-- A successful `DecryptS1`: the stored code is the front of the one over the
associated data and the whole destination. -/
theorem decryptS1_inv (hparse : Header.parse m = .ok h) (hivLen : h.ivLength = 16)
    (hmacLen : h.macLength = 32) (hrun : c.decryptS1 h m d = .ok u d') :
    ∃ masterKey inputNonce ct tag aad p, c.getKey h.keyIndex = .ok masterKey ∧
      inputNonce.length = 16 ∧
      c.crypto.gcmDecrypt (c.encKey masterKey inputNonce)
        (((c.crypto.hmac (c.authKey masterKey inputNonce) (aad ++ d')).take 16).take 12) ct tag aad
          = some p ∧
      m.take h.totalLength.toNat = aad ++ ((tag ++
        (c.crypto.hmac (c.authKey masterKey inputNonce) (aad ++ d')).take 16) ++ ct) ∧
      h.totalLength = (m.take h.totalLength.toNat).length ∧
      h.payloadLength = p.length ∧ d' = overwrite d 0 p := by
  rcases bind_eq_ok.mp hrun with ⟨masterKey, s₀, hkeyRun, hrun₁⟩
  rcases ofExcept_eq_ok.mp hkeyRun with ⟨hkey, rfl⟩
  rcases bind_eq_ok.mp hrun₁ with ⟨inputNonce, s₁, hnonceRun, hrun₂⟩
  rcases ofExcept_eq_ok.mp hnonceRun with ⟨hnonce, rfl⟩
  rcases bind_eq_ok.mp hrun₂ with ⟨mac, s₂, hmacRun, hrun₃⟩
  rcases ofExcept_eq_ok.mp hmacRun with ⟨hmac, rfl⟩
  rcases bind_eq_ok.mp hrun₃ with ⟨ct, s₃, hctRun, hrun₄⟩
  rcases ofExcept_eq_ok.mp hctRun with ⟨hct, rfl⟩
  rcases bind_eq_ok.mp hrun₄ with ⟨aad, s₄, haadRun, hrun₅⟩
  rcases ofExcept_eq_ok.mp haadRun with ⟨haad, rfl⟩
  rcases bind_eq_ok.mp hrun₅ with ⟨u₁, s₅, hopen, hrun₆⟩
  rcases aesDecrypt_inv hopen with ⟨p, hdec, -, hres⟩
  rw [get_bind] at hrun₆
  -- the destination is cleared and the call throws if the code differs
  by_cases hcode : (c.crypto.hmac (c.authKey masterKey inputNonce) (aad ++ s₅)).take 16
      = slice mac 16 16
  swap
  · rw [if_neg hcode] at hrun₆
    rcases bind_eq_ok.mp hrun₆ with ⟨u₂, s₆, -, hthrow⟩
    cases hthrow
  rw [if_pos hcode] at hrun₆
  rcases pure_eq_ok.mp hrun₆ with ⟨-, rfl⟩
  rcases take_totalLength hparse hnonce hmac hct with ⟨hbytes, htotal⟩
  rcases parse_adjacent hparse with ⟨hadj₁, -, -, -⟩
  have hnonceLen : inputNonce.length = 16 := by
    rcases sliceSpan_eq_ok.mp hnonce with ⟨⟨-, -, hfit⟩, rfl⟩
    rw [Int.toNat_natCast, Int.toNat_natCast, length_slice_of_le (by omega), hivLen]
  have hfront : m.take h.ivOffset ++ inputNonce = aad := by
    rw [take_of_sliceSpan haad, ← hadj₁, take_macOffset hadj₁ hnonce]
  have hsplit : mac.take 16 ++ slice mac 16 16 = mac := by
    have hlen : mac.length = 32 := by
      rcases sliceSpan_eq_ok.mp hmac with ⟨⟨-, -, hfit⟩, rfl⟩
      rw [Int.toNat_natCast, Int.toNat_natCast, length_slice_of_le (by omega), hmacLen]
    rw [← take_add_slice, List.take_of_length_le (by omega)]
  refine ⟨masterKey, inputNonce, ct, mac.take 16, aad, p, hkey, hnonceLen, ?_, ?_, htotal,
    length_of_accepted hct hdec, hres⟩
  · rw [hcode]
    exact hdec
  · rw [hbytes, hcode, hsplit, ← hfront]
    simp only [List.append_assoc]

end

end Cipher

end ManagedSecurity

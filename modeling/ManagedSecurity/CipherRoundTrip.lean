import ManagedSecurity.HeaderCodec
import ManagedSecurity.Cipher

/-! # What an encryption writes, and the cipher round trip

For a plaintext and a key index below `2 ^ 25` every profile writes
`[header] [sequence?] [IV] [MAC] [ciphertext]` at the front of the destination
and nothing behind it (`encryptS0_eq`, `encryptS1_eq`, `encryptS2_eq`), and the
decryption of these bytes, with anything behind them, returns the plaintext.
-/

namespace ManagedSecurity

open Bytes Outcome

/-! ## Steps shared by the profiles -/

/-- Extending a rewritten front by a write right behind it. -/
theorem writeSpan_front (front dest bytes : Bytes) {start length : ℤ} {off : ℕ}
    (hoff : off = front.length) (hs : start = off) (hl : length = bytes.length)
    (hfit : off + bytes.length ≤ dest.length) :
    writeSpan start length bytes (front ++ dest.drop off) =
      .ok () ((front ++ bytes) ++ dest.drop (off + bytes.length)) := by
  have hlen : (front ++ dest.drop off).length = dest.length := by
    rw [List.length_append, List.length_drop]
    omega
  subst hs hl
  rw [writeSpan_ok (by omega), overwrite_front _ _ _ hoff]

/-- A pure computation that succeeds leaves the span as it is. -/
theorem ofExcept_eq {α σ : Type} {x : Except Exn α} {a : α} {s : σ} (h : x = .ok a) :
    (ofExcept x : EStateM Exn σ α) s = .ok a s := by
  rw [h]
  rfl

@[simp] theorem length_fill (random : ℕ → UInt8) (n : ℕ) : (fill random n).length = n := by
  simp [fill]

namespace Cipher

variable (c : Cipher)

/-- The primitive's outputs land in the MAC and payload regions, which are
adjacent. -/
theorem aesEncrypt_eq (h : Header) (call : GcmCall) (suffix dest : Bytes)
    (hlen : h.payloadLength = call.plaintext.length)
    (hmac : h.macLength = 16 + suffix.length)
    (hadj : h.payloadOffset = h.macOffset + h.macLength)
    (hfit : h.payloadOffset + call.plaintext.length ≤ dest.length) :
    c.aesEncrypt h call suffix dest =
      .ok call (overwrite dest h.macOffset
        (((c.crypto.output call).2 ++ suffix) ++ (c.crypto.output call).1)) := by
  set ct := (c.crypto.output call).1 with hct
  set mac := (c.crypto.output call).2 ++ suffix with hmacdef
  have hctlen : ct.length = call.plaintext.length := c.crypto.length_ciphertext _ _ _ _
  have htag : (c.crypto.output call).2.length = 16 := c.crypto.length_tag _ _ _ _
  have hmaclen : mac.length = h.macLength := by
    rw [hmacdef, List.length_append, htag, hmac]
  have hfirst : writeSpan h.payloadOffset h.payloadLength ct dest =
      .ok () (overwrite dest h.payloadOffset ct) := by
    rw [hlen, ← hctlen]
    exact writeSpan_ok (by omega)
  have hkeep : (overwrite dest h.payloadOffset ct).length = dest.length :=
    length_overwrite (by omega)
  have hsecond : writeSpan h.macOffset h.macLength mac (overwrite dest h.payloadOffset ct) =
      .ok () (overwrite (overwrite dest h.payloadOffset ct) h.macOffset mac) := by
    rw [← hmaclen]
    exact writeSpan_ok (by omega)
  -- tag, suffix and ciphertext are written apart but lie side by side
  have hjoin : overwrite (overwrite dest h.payloadOffset ct) h.macOffset mac
      = overwrite dest h.macOffset (mac ++ ct) := by
    rw [hadj, ← hmaclen]
    exact overwrite_overwrite_before (by omega)
  rw [aesEncrypt, bind_ok (ensure_true hlen.symm _ _), bind_ok hfirst, bind_ok hsecond, hjoin]
  rfl

/-- Decrypting the primitive's own output fills the front of the destination. -/
theorem aesDecrypt_eq {h : Header} {key nonce ct tag aad p dest : Bytes}
    (hdec : c.crypto.gcmDecrypt key nonce ct tag aad = some p)
    (hlen : h.payloadLength = p.length) (hfit : p.length ≤ dest.length) :
    c.aesDecrypt h key nonce ct tag aad dest = .ok () (overwrite dest 0 p) := by
  have hslice : sliceSpan dest 0 h.payloadLength = .ok (slice dest 0 p.length) := by
    have hcast : sliceSpan dest (0 : ℕ) p.length = .ok (slice dest 0 p.length) :=
      sliceSpan_ok (by omega)
    rw [hlen]
    exact hcast
  rw [aesDecrypt, get_bind, bind_ok (ofExcept_eq hslice), hdec]
  have hwrite : writeSpan (0 : ℕ) p.length p dest = .ok () (overwrite dest 0 p) :=
    writeSpan_ok (by omega)
  show writeSpan 0 h.payloadLength p dest = _
  rw [hlen]
  exact hwrite

end Cipher

/-! ## Filling a message behind its front

The three profiles differ in what stands in front of the IV. From there on the
destination is `front ++ iv ++ rest`, where `rest` is still the caller's. -/

/-- A header whose regions follow each other behind a front of known length,
in a destination that is long enough. -/
structure Placed (h : Header) (front dest : Bytes) (n : ℕ) : Prop where
  iv : h.ivOffset = front.length
  mac : h.macOffset = h.ivOffset + h.ivLength
  payload : h.payloadOffset = h.macOffset + h.macLength
  length : h.payloadLength = n
  fits : h.payloadOffset + n ≤ dest.length

namespace Placed

variable {h : Header} {front dest : Bytes} {n : ℕ}

/-- The destination once the IV is written. -/
def filled (random : ℕ → UInt8) (h : Header) (front dest : Bytes) : Bytes :=
  (front ++ fill random h.ivLength) ++ dest.drop (h.ivOffset + h.ivLength)

theorem length_filled (hp : Placed h front dest n) (random : ℕ → UInt8) :
    (filled random h front dest).length = dest.length := by
  rcases hp with ⟨hiv, hmac, hpay, -, hfit⟩
  simp only [filled, List.length_append, length_fill, List.length_drop]
  omega

theorem drop_filled (hp : Placed h front dest n) (random : ℕ → UInt8) :
    (filled random h front dest).drop (h.ivOffset + h.ivLength) =
      dest.drop (h.ivOffset + h.ivLength) :=
  List.drop_left' (by rw [List.length_append, length_fill, hp.iv])

theorem fillIv_eq (hp : Placed h front dest n) (random : ℕ → UInt8) :
    Cipher.fillIv random h (front ++ dest.drop h.ivOffset) =
      .ok () (filled random h front dest) := by
  rcases hp with ⟨hiv, hmac, hpay, -, hfit⟩
  have hstep := writeSpan_front front dest (fill random h.ivLength) hiv rfl
    (congrArg Nat.cast (length_fill random h.ivLength).symm) (by rw [length_fill]; omega)
  rw [length_fill] at hstep
  exact hstep

theorem getIv_filled (hp : Placed h front dest n) (random : ℕ → UInt8) :
    h.getIv (filled random h front dest) = .ok (fill random h.ivLength) := by
  rw [filled, List.append_assoc]
  exact sliceSpan_middle _ _ _ (congrArg Nat.cast hp.iv)
    (congrArg Nat.cast (length_fill random h.ivLength).symm)

theorem getPayload_filled (hp : Placed h front dest n) (random : ℕ → UInt8) :
    ∃ w, h.getPayload (filled random h front dest) = .ok w := by
  refine ⟨slice (filled random h front dest) h.payloadOffset n, ?_⟩
  rw [Header.getPayload, hp.length]
  exact sliceSpan_ok (by rw [hp.length_filled]; exact hp.fits)

theorem getMac_filled (hp : Placed h front dest n) (random : ℕ → UInt8) :
    ∃ w, h.getMac (filled random h front dest) = .ok w := by
  refine ⟨slice (filled random h front dest) h.macOffset h.macLength, ?_⟩
  rcases id hp with ⟨-, -, hpay, -, hfit⟩
  exact sliceSpan_ok (by rw [hp.length_filled]; omega)

/-- A window that lies in the front shows the front. -/
theorem slice_filled (random : ℕ → UInt8) (xs ys zs : Bytes) {start length : ℤ}
    (hfront : front = xs ++ (ys ++ zs)) (hs : start = xs.length) (hl : length = ys.length) :
    sliceSpan (filled random h front dest) start length = .ok ys := by
  rw [filled, hfront, List.append_assoc, List.append_assoc, List.append_assoc]
  exact sliceSpan_middle _ _ _ hs hl

/-- The primitive fills the message up behind the IV. -/
theorem aesEncrypt_filled (hp : Placed h front dest n) (c : Cipher) (random : ℕ → UInt8)
    (call : GcmCall) (suffix : Bytes) (hcall : call.plaintext.length = n)
    (hsuffix : h.macLength = 16 + suffix.length) :
    c.aesEncrypt h call suffix (filled random h front dest) =
      .ok call ((front ++ fill random h.ivLength ++
        (((c.crypto.output call).2 ++ suffix) ++ (c.crypto.output call).1)) ++
          dest.drop (h.payloadOffset + n)) := by
  have hseal := c.aesEncrypt_eq h call suffix (filled random h front dest)
    (by rw [hp.length, hcall]) hsuffix hp.payload (by rw [hp.length_filled, hcall]; exact hp.fits)
  have hct : (c.crypto.output call).1.length = n :=
    (c.crypto.length_ciphertext _ _ _ _).trans hcall
  have htag : (c.crypto.output call).2.length = 16 := c.crypto.length_tag _ _ _ _
  rcases hp with ⟨hiv, hmac, hpay, -, hfit⟩
  have hover := overwrite_front (front ++ fill random h.ivLength)
    (((c.crypto.output call).2 ++ suffix) ++ (c.crypto.output call).1) dest
    (show h.ivOffset + h.ivLength = (front ++ fill random h.ivLength).length by
      rw [List.length_append, length_fill, hiv])
  rw [hseal, hmac, filled, hover]
  simp only [List.length_append, hct, htag]
  congr 3
  omega

end Placed

/-! ## What each profile writes -/

/-- The associated data of a frame of profile 2. -/
def frameAad (L K : ℕ) (seq : UInt64) : Bytes := headerBytes L K 2 ++ beBytes 8 seq.toNat

namespace Cipher

variable (c : Cipher)

/-- The call of `AesGcm.Encrypt` that profile 0 makes. -/
def callS0 (key iv p : Bytes) (K : ℕ) : GcmCall :=
  { key, nonce := iv, plaintext := p, aad := headerBytes p.length K 0 }

/-- The HMAC of profile 1. -/
def hmacS1 (masterKey inputNonce p : Bytes) (K : ℕ) : Bytes :=
  c.crypto.hmac (c.authKey masterKey inputNonce) ((headerBytes p.length K 1 ++ inputNonce) ++ p)

/-- The call of `AesGcm.Encrypt` that profile 1 makes. -/
def callS1 (masterKey inputNonce p : Bytes) (K : ℕ) : GcmCall :=
  { key := c.encKey masterKey inputNonce, nonce := (c.hmacS1 masterKey inputNonce p K).take 12,
    plaintext := p, aad := headerBytes p.length K 1 ++ inputNonce }

/-- The call of `AesGcm.Encrypt` that profile 2 makes. -/
def callS2 (key iv p : Bytes) (K : ℕ) (seq : UInt64) : GcmCall :=
  { key, nonce := iv, plaintext := p, aad := frameAad p.length K seq }

/-- A message of profile 0. -/
def messageS0 (key iv p : Bytes) (K : ℕ) : Bytes :=
  headerBytes p.length K 0 ++ (iv ++ ((c.crypto.output (callS0 key iv p K)).2 ++
    (c.crypto.output (callS0 key iv p K)).1))

/-- A message of profile 1. -/
def messageS1 (masterKey inputNonce p : Bytes) (K : ℕ) : Bytes :=
  headerBytes p.length K 1 ++ (inputNonce ++
    (((c.crypto.output (c.callS1 masterKey inputNonce p K)).2 ++
      (c.hmacS1 masterKey inputNonce p K).take 16) ++
        (c.crypto.output (c.callS1 masterKey inputNonce p K)).1))

/-- A message of profile 2: one frame of a stream. -/
def messageS2 (key iv p : Bytes) (K : ℕ) (seq : UInt64) : Bytes :=
  headerBytes p.length K 2 ++ (beBytes 8 seq.toNat ++ (iv ++
    ((c.crypto.output (callS2 key iv p K seq)).2 ++ (c.crypto.output (callS2 key iv p K seq)).1)))

theorem length_messageS0 {key iv p : Bytes} {K : ℕ} (hiv : iv.length = 12) :
    (c.messageS0 key iv p K).length = requiredSize p.length K 0 := by
  have hct : (c.crypto.output (callS0 key iv p K)).1.length = p.length :=
    c.crypto.length_ciphertext _ _ _ _
  have htag : (c.crypto.output (callS0 key iv p K)).2.length = 16 := c.crypto.length_tag _ _ _ _
  simp only [messageS0, List.length_append, length_headerBytes, hct, htag, hiv, requiredSize]
  have hprofile : builderProfile (0 : ℕ) = ⟨12, 16, 0⟩ := rfl
  simp only [hprofile]
  omega

theorem length_messageS1 {masterKey inputNonce p : Bytes} {K : ℕ} (hiv : inputNonce.length = 16) :
    (c.messageS1 masterKey inputNonce p K).length = requiredSize p.length K 1 := by
  have hct : (c.crypto.output (c.callS1 masterKey inputNonce p K)).1.length = p.length :=
    c.crypto.length_ciphertext _ _ _ _
  have htag : (c.crypto.output (c.callS1 masterKey inputNonce p K)).2.length = 16 :=
    c.crypto.length_tag _ _ _ _
  have hhmac : (c.hmacS1 masterKey inputNonce p K).length = 32 := c.crypto.length_hmac _ _
  simp only [messageS1, List.length_append, length_headerBytes, hct, htag, hiv, hhmac,
    List.length_take, requiredSize]
  have hprofile : builderProfile (1 : ℕ) = ⟨16, 32, 0⟩ := rfl
  simp only [hprofile]
  omega

theorem length_messageS2 {key iv p : Bytes} {K : ℕ} {seq : UInt64} (hiv : iv.length = 12) :
    (c.messageS2 key iv p K seq).length = requiredSize p.length K 2 := by
  have hct : (c.crypto.output (callS2 key iv p K seq)).1.length = p.length :=
    c.crypto.length_ciphertext _ _ _ _
  have htag : (c.crypto.output (callS2 key iv p K seq)).2.length = 16 :=
    c.crypto.length_tag _ _ _ _
  simp only [messageS2, List.length_append, length_headerBytes, hct, htag, hiv, length_beBytes,
    requiredSize]
  have hprofile : builderProfile (2 : ℕ) = ⟨12, 16, 8⟩ := rfl
  simp only [hprofile]
  omega

section Encryption

variable {c} {random : ℕ → UInt8} {plaintext : PlainSpan} {key p dest : Bytes} {K : ℕ}

/-- The header that has just been written is the one that is parsed. -/
theorem parseDestination_eq {profile : ℕ} (hL : p.length < 2 ^ 25) (hK : K < 2 ^ 25)
    (hp : profile ≤ 2) (rest : Bytes) :
    parseDestination (headerBytes p.length K profile ++ rest) =
      .ok (builtHeader p.length K profile) (headerBytes p.length K profile ++ rest) := by
  rw [parseDestination, get_bind]
  exact ofExcept_eq (parse_headerBytes rest hL hK hp)

/-- What `EncryptS0` writes. -/
theorem encryptS0_eq (hkey : c.getKey K = .ok key) (hvalid : validKey key)
    (hL : p.length < 2 ^ 25) (hK : K < 2 ^ 25) (hfit : requiredSize p.length K 0 ≤ dest.length) :
    c.encryptS0 random (.own p) K dest =
      .ok (callS0 key (fill random 12) p K)
        (c.messageS0 key (fill random 12) p K ++ dest.drop (requiredSize p.length K 0)) := by
  set hb := headerBytes p.length K 0 with hhb
  set h := builtHeader p.length K 0 with hh
  have hblen : hb.length = headerLength p.length K := length_headerBytes _ _ _
  have hplaced : Placed h hb dest p.length := ⟨hblen.symm, rfl, rfl, rfl, hfit⟩
  have hwrite : Header.write (PlainSpan.own p).length K 0 dest = .ok () (hb ++ dest.drop h.ivOffset) :=
    header_write_eq hL hK (show (0 : ℕ) ≤ 2 by omega) hfit
  have haad : sliceSpan (Placed.filled random h hb dest) 0 h.ivOffset = .ok hb :=
    Placed.slice_filled random [] hb [] (by simp) rfl (congrArg Nat.cast hblen.symm)
  rcases hplaced.getPayload_filled random with ⟨w₁, hw₁⟩
  rcases hplaced.getMac_filled random with ⟨w₂, hw₂⟩
  have hseal := hplaced.aesEncrypt_filled c random (callS0 key (fill random 12) p K) [] rfl rfl
  rw [encryptS0, bind_ok (ofExcept_eq hkey), bind_ok hwrite,
    bind_ok (parseDestination_eq hL hK (by omega) _), bind_ok (hplaced.fillIv_eq random), get_bind,
    bind_ok (ofExcept_eq (hplaced.getIv_filled random)), bind_ok (ofExcept_eq hw₁),
    bind_ok (ofExcept_eq hw₂), bind_ok (ofExcept_eq haad), bind_ok (ensure_true hvalid _ _)]
  show c.aesEncrypt h (callS0 key (fill random 12) p K) [] (Placed.filled random h hb dest) = _
  rw [hseal, List.append_nil, messageS0, ← hhb]
  simp only [List.append_assoc]
  rfl

/-- What `EncryptS1` writes. -/
theorem encryptS1_eq (hkey : c.getKey K = .ok key) (hL : p.length < 2 ^ 25) (hK : K < 2 ^ 25)
    (hfit : requiredSize p.length K 1 ≤ dest.length) :
    c.encryptS1 random (.own p) K dest =
      .ok (c.callS1 key (fill random 16) p K)
        (c.messageS1 key (fill random 16) p K ++ dest.drop (requiredSize p.length K 1)) := by
  set hb := headerBytes p.length K 1 with hhb
  set h := builtHeader p.length K 1 with hh
  have hblen : hb.length = headerLength p.length K := length_headerBytes _ _ _
  have hplaced : Placed h hb dest p.length := ⟨hblen.symm, rfl, rfl, rfl, hfit⟩
  have hwrite : Header.write (PlainSpan.own p).length K 1 dest = .ok () (hb ++ dest.drop h.ivOffset) :=
    header_write_eq hL hK (show (1 : ℕ) ≤ 2 by omega) hfit
  -- the associated data reach to the end of the input nonce
  have haad : sliceSpan (Placed.filled random h hb dest) 0 (h.ivOffset + h.ivLength : ℕ) =
      .ok (hb ++ fill random 16) := by
    have hlen : (hb ++ fill random 16).length = h.ivOffset + h.ivLength := by
      rw [List.length_append, length_fill, hblen]
      rfl
    exact sliceSpan_middle [] (hb ++ fill random 16) (dest.drop (h.ivOffset + h.ivLength)) rfl
      (congrArg Nat.cast hlen.symm)
  have hhmac : ((c.hmacS1 key (fill random 16) p K).take 16).length = 16 := by
    rw [List.length_take, hmacS1, c.crypto.length_hmac]
    rfl
  rcases hplaced.getPayload_filled random with ⟨w₁, hw₁⟩
  rcases hplaced.getMac_filled random with ⟨w₂, hw₂⟩
  have hseal := hplaced.aesEncrypt_filled c random (c.callS1 key (fill random 16) p K)
    ((c.hmacS1 key (fill random 16) p K).take 16) rfl (by rw [hhmac]; rfl)
  rw [encryptS1, bind_ok (ofExcept_eq hkey), bind_ok hwrite,
    bind_ok (parseDestination_eq hL hK (by omega) _), bind_ok (hplaced.fillIv_eq random), get_bind,
    bind_ok (ofExcept_eq (hplaced.getIv_filled random)), bind_ok (ofExcept_eq haad),
    bind_ok (ofExcept_eq hw₂), bind_ok (ofExcept_eq hw₁)]
  show c.aesEncrypt h (c.callS1 key (fill random 16) p K)
    ((c.hmacS1 key (fill random 16) p K).take 16) (Placed.filled random h hb dest) = _
  rw [hseal, messageS1, ← hhb]
  simp only [List.append_assoc]
  rfl

/-- What `EncryptS2` writes. The plaintext may be a window of the destination,
as long as it lies behind the IV. -/
theorem encryptS2_eq {seq : UInt64} (hkey : c.getKey K = .ok key) (hvalid : validKey key)
    (hlen : plaintext.length = p.length) (hL : p.length < 2 ^ 25) (hK : K < 2 ^ 25)
    (hfit : requiredSize p.length K 2 ≤ dest.length)
    (hread : ∀ d : Bytes, d.drop (headerLength p.length K + 20) =
      dest.drop (headerLength p.length K + 20) → plaintext.read d = p) :
    c.encryptS2 random plaintext K seq dest =
      .ok (callS2 key (fill random 12) p K seq)
        (c.messageS2 key (fill random 12) p K seq ++ dest.drop (requiredSize p.length K 2)) := by
  set hb := headerBytes p.length K 2 with hhb
  set sb := beBytes 8 seq.toNat with hsb
  set h := builtHeader p.length K 2 with hh
  have hblen : hb.length = headerLength p.length K := length_headerBytes _ _ _
  have hslen : sb.length = 8 := length_beBytes _ _
  have hflen : (hb ++ sb).length = h.ivOffset := by
    rw [List.length_append, hblen, hslen]
    rfl
  have hplaced : Placed h (hb ++ sb) dest p.length := ⟨hflen.symm, rfl, rfl, rfl, hfit⟩
  have hwrite : Header.write plaintext.length K 2 dest =
      .ok () (hb ++ dest.drop (headerLength p.length K)) := by
    rw [hlen]
    exact header_write_eq hL hK (show (2 : ℕ) ≤ 2 from le_rfl) hfit
  have hseqOff : (h.ivOffset : ℤ) - h.sequenceLength = headerLength p.length K := by
    show ((headerLength p.length K + 8 : ℕ) : ℤ) - (8 : ℕ) = headerLength p.length K
    push_cast
    ring
  -- the sequence number goes right behind the header's words
  have hseq : writeSpan ((h.ivOffset : ℤ) - h.sequenceLength) h.sequenceLength sb
      (hb ++ dest.drop (headerLength p.length K)) = .ok () ((hb ++ sb) ++ dest.drop h.ivOffset) := by
    have hroom : headerLength p.length K + 8 ≤ dest.length := by
      unfold requiredSize at hfit
      have hprofile : builderProfile (2 : ℕ) = ⟨12, 16, 8⟩ := rfl
      simp only [hprofile] at hfit
      omega
    exact writeSpan_front hb dest sb hblen.symm hseqOff (congrArg Nat.cast hslen.symm)
      (by rw [hslen]; exact hroom)
  have hgetSeq : h.getSequence (Placed.filled random h (hb ++ sb) dest) = .ok sb := by
    have hpos : h.sequenceLength > 0 := Nat.zero_lt_succ 7
    rw [Header.getSequence, if_pos hpos]
    exact Placed.slice_filled random hb sb [] (by simp) (by rw [hseqOff, hblen])
      (congrArg Nat.cast hslen.symm)
  have hpart : sliceSpan (Placed.filled random h (hb ++ sb) dest) 0
      ((h.ivOffset : ℤ) - h.sequenceLength) = .ok hb :=
    Placed.slice_filled random [] hb sb rfl rfl (by rw [hseqOff, hblen])
  have hplain : plaintext.read (Placed.filled random h (hb ++ sb) dest) = p :=
    hread _ (hplaced.drop_filled random)
  rcases hplaced.getPayload_filled random with ⟨w₁, hw₁⟩
  rcases hplaced.getMac_filled random with ⟨w₂, hw₂⟩
  have hseal := hplaced.aesEncrypt_filled c random (callS2 key (fill random 12) p K seq) [] rfl rfl
  rw [encryptS2, bind_ok (ofExcept_eq hkey), bind_ok hwrite,
    bind_ok (parseDestination_eq hL hK le_rfl _), bind_ok hseq, bind_ok (hplaced.fillIv_eq random),
    bind_ok (ensure_true hvalid _ _), get_bind, bind_ok (ofExcept_eq (hplaced.getIv_filled random)),
    bind_ok (ofExcept_eq hw₁), bind_ok (ofExcept_eq hw₂), bind_ok (ofExcept_eq hgetSeq),
    bind_ok (ofExcept_eq hpart), hplain]
  show c.aesEncrypt h (callS2 key (fill random 12) p K seq) []
    (Placed.filled random h (hb ++ sb) dest) = _
  rw [hseal, List.append_nil, messageS2, ← hhb, ← hsb]
  simp only [List.append_assoc]
  rfl

end Encryption

/-! ## Decrypting what was written -/

section Decryption

variable {c} {key iv p dest : Bytes} {K : ℕ}

/-- Overwriting a destination of exactly the right size. -/
theorem overwrite_all {xs ys : Bytes} (h : ys.length = xs.length) : overwrite ys 0 xs = xs := by
  rw [overwrite, List.take_zero, List.nil_append, List.drop_eq_nil_of_le (by omega),
    List.append_nil]

/-- A message that parses to `h` and starts with the given parts, one for each
region of the header. -/
structure Spans (h : Header) (m front iv mac ct slack : Bytes) : Prop where
  parsed : Header.parse m = .ok h
  parts : m = front ++ (iv ++ (mac ++ (ct ++ slack)))
  front : h.ivOffset = front.length
  iv : h.ivLength = iv.length
  mac : h.macLength = mac.length
  payload : h.payloadLength = ct.length

namespace Spans

variable {h : Header} {m front mac ct slack : Bytes}

theorem getIv (hs : Spans h m front iv mac ct slack) : h.getIv m = .ok iv := by
  rw [hs.parts]
  exact sliceSpan_middle _ _ _ (congrArg Nat.cast hs.front) (congrArg Nat.cast hs.iv)

theorem getMac (hs : Spans h m front iv mac ct slack) : h.getMac m = .ok mac := by
  have hoff : h.macOffset = (front ++ iv).length := by
    rw [(parse_adjacent hs.parsed).1, hs.front, hs.iv, List.length_append]
  rw [hs.parts, ← List.append_assoc]
  exact sliceSpan_middle _ _ _ (congrArg Nat.cast hoff) (congrArg Nat.cast hs.mac)

theorem getPayload (hs : Spans h m front iv mac ct slack) : h.getPayload m = .ok ct := by
  rcases parse_adjacent hs.parsed with ⟨hmac, hpay, -, -⟩
  have hoff : h.payloadOffset = ((front ++ iv) ++ mac).length := by
    rw [hpay, hmac, hs.front, hs.iv, hs.mac, List.length_append, List.length_append]
  rw [hs.parts, ← List.append_assoc, ← List.append_assoc]
  exact sliceSpan_middle _ _ _ (congrArg Nat.cast hoff) hs.payload

/-- The associated data of profiles 0 and 2 end before the IV. -/
theorem getFront (hs : Spans h m front iv mac ct slack) : sliceSpan m 0 h.ivOffset = .ok front := by
  rw [hs.parts]
  exact sliceSpan_middle [] front _ rfl (congrArg Nat.cast hs.front)

/-- Those of profile 1 end behind it. -/
theorem getFrontIv (hs : Spans h m front iv mac ct slack) :
    sliceSpan m 0 (h.ivOffset + h.ivLength : ℕ) = .ok (front ++ iv) := by
  have hlen : h.ivOffset + h.ivLength = (front ++ iv).length := by
    rw [hs.front, hs.iv, List.length_append]
  rw [hs.parts, ← List.append_assoc]
  exact sliceSpan_middle [] (front ++ iv) _ rfl (congrArg Nat.cast hlen)

end Spans

section Opening

variable {h : Header} {m front mac tag ct slack : Bytes}

/-- Decrypting a message of profile 0 that the primitive accepts. -/
theorem decryptInto_S0 (hs : Spans h m front iv tag ct slack)
    (hprofile : h.ivLength = 12 ∧ h.macLength = 16 ∧ h.sequenceLength = 0)
    (hkey : c.getKey h.keyIndex = .ok key) (hvalid : validKey key)
    (hopen : c.crypto.gcmDecrypt key iv ct tag front = some p) (hdest : p.length ≤ dest.length) :
    c.decryptInto m dest = .ok () (overwrite dest 0 p) := by
  have hlen : h.payloadLength = p.length := by
    rw [hs.payload, c.crypto.length_plaintext _ _ _ _ _ _ hopen]
  rw [decryptInto, bind_ok (ofExcept_eq hs.parsed), if_pos hprofile, decryptS0,
    bind_ok (ofExcept_eq hkey), bind_ok (ensure_true hvalid _ _), bind_ok (ofExcept_eq hs.getIv),
    bind_ok (ofExcept_eq hs.getPayload), bind_ok (ofExcept_eq hs.getMac),
    bind_ok (ofExcept_eq hs.getFront), c.aesDecrypt_eq hopen hlen hdest]

/-- Decrypting a message of profile 1 that the primitive accepts under the
encryption sub-key: the HMAC is computed over the whole destination. -/
theorem decryptInto_S1 {stored : Bytes} (hs : Spans h m front iv (tag ++ stored) ct slack)
    (hprofile : h.ivLength = 16 ∧ h.macLength = 32) (htag : tag.length = 16)
    (hkey : c.getKey h.keyIndex = .ok key)
    (hopen : c.crypto.gcmDecrypt (c.encKey key iv) (stored.take 12) ct tag (front ++ iv) = some p)
    (hdest : p.length ≤ dest.length) :
    c.decryptInto m dest =
      if (c.crypto.hmac (c.authKey key iv) ((front ++ iv) ++ overwrite dest 0 p)).take 16 = stored then
        .ok () (overwrite dest 0 p)
      else
        .error (.cryptographic "SIV HMAC Authentication failed.")
          (List.replicate (overwrite dest 0 p).length 0) := by
  have hlen : h.payloadLength = p.length := by
    rw [hs.payload, c.crypto.length_plaintext _ _ _ _ _ _ hopen]
  have hstoredLen : stored.length = 16 := by
    have hmac := hs.mac
    rw [List.length_append] at hmac
    omega
  have hstored : slice (tag ++ stored) 16 16 = stored := by
    have hmid := slice_middle tag stored [] htag.symm hstoredLen.symm
    rwa [List.append_nil] at hmid
  -- the profile is recognised by its lengths, and those of profile 0 do not fit
  have hbranch₀ : ¬(h.ivLength = 12 ∧ h.macLength = 16 ∧ h.sequenceLength = 0) := by
    rintro ⟨h12, -, -⟩
    omega
  rw [decryptInto, bind_ok (ofExcept_eq hs.parsed), if_neg hbranch₀, if_pos hprofile, decryptS1,
    bind_ok (ofExcept_eq hkey), bind_ok (ofExcept_eq hs.getIv), bind_ok (ofExcept_eq hs.getMac)]
  simp only [hstored, List.take_left' htag]
  rw [bind_ok (ofExcept_eq hs.getPayload), bind_ok (ofExcept_eq hs.getFrontIv),
    bind_ok (c.aesDecrypt_eq hopen hlen hdest), get_bind]
  split_ifs
  · rfl
  · rfl

/-- Decrypting a message of profile 2 that the primitive accepts. -/
theorem decryptInto_S2 (hs : Spans h m front iv tag ct slack)
    (hprofile : h.ivLength = 12 ∧ h.macLength = 16 ∧ h.sequenceLength = 8)
    (hkey : c.getKey h.keyIndex = .ok key) (hvalid : validKey key)
    (hopen : c.crypto.gcmDecrypt key iv ct tag front = some p) (hdest : p.length ≤ dest.length) :
    c.decryptInto m dest = .ok () (overwrite dest 0 p) := by
  have hlen : h.payloadLength = p.length := by
    rw [hs.payload, c.crypto.length_plaintext _ _ _ _ _ _ hopen]
  have hoff := (parse_adjacent hs.parsed).2.2.2
  have hfront := hs.front
  -- the header part and the sequence number are two slices of the front
  have hcut : ((h.ivOffset : ℤ) - h.sequenceLength) = (front.length - 8 : ℕ) := by omega
  have hin : front.length ≤ m.length := by
    rw [hs.parts, List.length_append]
    omega
  have hpart : sliceSpan m 0 ((h.ivOffset : ℤ) - h.sequenceLength) =
      .ok (slice m 0 (front.length - 8)) := by
    rw [hcut]
    exact @sliceSpan_ok m 0 (front.length - 8) (by omega)
  have hseq : h.getSequence m = .ok (slice m (front.length - 8) 8) := by
    rw [Header.getSequence, if_pos (by omega), hcut, hprofile.2.2]
    exact sliceSpan_ok (by omega)
  have hjoin : slice m 0 (front.length - 8) ++ slice m (front.length - 8) 8 = front := by
    rw [slice_zero, ← take_add_slice, Nat.sub_add_cancel (by omega), hs.parts,
      List.take_left' rfl]
  have hbranch₀ : ¬(h.ivLength = 12 ∧ h.macLength = 16 ∧ h.sequenceLength = 0) := by
    rintro ⟨-, -, h0⟩
    omega
  have hbranch₁ : ¬(h.ivLength = 16 ∧ h.macLength = 32) := by
    rintro ⟨h16, -⟩
    omega
  rw [decryptInto, bind_ok (ofExcept_eq hs.parsed), if_neg hbranch₀, if_neg hbranch₁,
    if_pos hprofile, decryptS2, bind_ok (ofExcept_eq hkey), bind_ok (ensure_true hvalid _ _),
    bind_ok (ofExcept_eq hseq), bind_ok (ofExcept_eq hs.getIv), bind_ok (ofExcept_eq hs.getPayload),
    bind_ok (ofExcept_eq hs.getMac), bind_ok (ofExcept_eq hpart), hjoin,
    c.aesDecrypt_eq hopen hlen hdest]

end Opening

/-- The parts of a message of profile 0. -/
theorem spans_messageS0 (hiv : iv.length = 12) (hL : p.length < 2 ^ 25) (hK : K < 2 ^ 25)
    (slack : Bytes) :
    Spans (builtHeader p.length K 0) (c.messageS0 key iv p K ++ slack) (headerBytes p.length K 0) iv
      (c.crypto.output (callS0 key iv p K)).2 (c.crypto.output (callS0 key iv p K)).1 slack := by
  have hform : c.messageS0 key iv p K ++ slack = headerBytes p.length K 0 ++ (iv ++
      ((c.crypto.output (callS0 key iv p K)).2 ++
        ((c.crypto.output (callS0 key iv p K)).1 ++ slack))) := by
    simp only [messageS0, List.append_assoc]
  refine ⟨?_, hform, (length_headerBytes _ _ _).symm, hiv.symm, ?_, ?_⟩
  · rw [hform]
    exact parse_headerBytes _ hL hK (by omega)
  · exact (c.crypto.length_tag _ _ _ _).symm
  · exact congrArg Nat.cast (c.crypto.length_ciphertext _ _ _ _).symm

theorem decryptInto_messageS0 (hinv : c.crypto.Inverts) (hkey : c.getKey K = .ok key)
    (hvalid : validKey key) (hiv : iv.length = 12) (hL : p.length < 2 ^ 25) (hK : K < 2 ^ 25)
    (hdest : p.length ≤ dest.length) (slack : Bytes) :
    c.decryptInto (c.messageS0 key iv p K ++ slack) dest = .ok () (overwrite dest 0 p) :=
  decryptInto_S0 (spans_messageS0 hiv hL hK slack) ⟨rfl, rfl, rfl⟩ hkey hvalid (hinv _ _ _ _) hdest

/-- The parts of a message of profile 1. -/
theorem spans_messageS1 (hiv : iv.length = 16) (hL : p.length < 2 ^ 25) (hK : K < 2 ^ 25)
    (slack : Bytes) :
    Spans (builtHeader p.length K 1) (c.messageS1 key iv p K ++ slack) (headerBytes p.length K 1) iv
      ((c.crypto.output (c.callS1 key iv p K)).2 ++ (c.hmacS1 key iv p K).take 16)
      (c.crypto.output (c.callS1 key iv p K)).1 slack := by
  have hform : c.messageS1 key iv p K ++ slack = headerBytes p.length K 1 ++ (iv ++
      (((c.crypto.output (c.callS1 key iv p K)).2 ++ (c.hmacS1 key iv p K).take 16) ++
        ((c.crypto.output (c.callS1 key iv p K)).1 ++ slack))) := by
    simp only [messageS1, List.append_assoc]
  refine ⟨?_, hform, (length_headerBytes _ _ _).symm, hiv.symm, ?_, ?_⟩
  · rw [hform]
    exact parse_headerBytes _ hL hK (by omega)
  · have htag : (c.crypto.output (c.callS1 key iv p K)).2.length = 16 := c.crypto.length_tag _ _ _ _
    have hcode : (c.hmacS1 key iv p K).length = 32 := c.crypto.length_hmac _ _
    rw [List.length_append, List.length_take, htag, hcode]
    rfl
  · exact congrArg Nat.cast (c.crypto.length_ciphertext _ _ _ _).symm

/-- Profile 1 checks its HMAC over the whole destination, which must therefore
have exactly the length of the plaintext. -/
theorem decryptInto_messageS1 (hinv : c.crypto.Inverts) (hkey : c.getKey K = .ok key)
    (hiv : iv.length = 16) (hL : p.length < 2 ^ 25) (hK : K < 2 ^ 25)
    (hdest : dest.length = p.length) (slack : Bytes) :
    c.decryptInto (c.messageS1 key iv p K ++ slack) dest = .ok () p := by
  have hsiv : ((c.hmacS1 key iv p K).take 16).take 12 = (c.callS1 key iv p K).nonce := by
    rw [List.take_take]
    rfl
  have hopen : c.crypto.gcmDecrypt (c.encKey key iv) (((c.hmacS1 key iv p K).take 16).take 12)
      (c.crypto.output (c.callS1 key iv p K)).1 (c.crypto.output (c.callS1 key iv p K)).2
      (headerBytes p.length K 1 ++ iv) = some p := by
    rw [hsiv]
    exact hinv _ _ _ _
  rw [decryptInto_S1 (spans_messageS1 hiv hL hK slack) ⟨rfl, rfl⟩ (c.crypto.length_tag _ _ _ _) hkey
    hopen (le_of_eq hdest.symm), overwrite_all hdest]
  exact if_pos rfl

/-- The sequence number of a frame, read back by the parsed header. -/
theorem getSequence_messageS2 {seq : UInt64} (slack : Bytes) :
    (builtHeader p.length K 2).getSequence (c.messageS2 key iv p K seq ++ slack) =
      .ok (beBytes 8 seq.toNat) := by
  set h := builtHeader p.length K 2 with hh
  have hblen : (headerBytes p.length K 2).length = headerLength p.length K :=
    length_headerBytes _ _ _
  have hslen : (beBytes 8 seq.toNat).length = 8 := length_beBytes _ _
  have hoff : (h.ivOffset : ℤ) - h.sequenceLength = (headerBytes p.length K 2).length := by
    show ((headerLength p.length K + 8 : ℕ) : ℤ) - (8 : ℕ) = (headerBytes p.length K 2).length
    rw [hblen]
    push_cast
    ring
  have hpos : h.sequenceLength > 0 := Nat.zero_lt_succ 7
  rw [Header.getSequence, if_pos hpos, messageS2, List.append_assoc, List.append_assoc]
  exact sliceSpan_middle _ _ _ hoff (congrArg Nat.cast hslen.symm)

/-- The parts of a message of profile 2. -/
theorem spans_messageS2 {seq : UInt64} (hiv : iv.length = 12) (hL : p.length < 2 ^ 25)
    (hK : K < 2 ^ 25) (slack : Bytes) :
    Spans (builtHeader p.length K 2) (c.messageS2 key iv p K seq ++ slack) (frameAad p.length K seq) iv
      (c.crypto.output (callS2 key iv p K seq)).2 (c.crypto.output (callS2 key iv p K seq)).1 slack := by
  have hform : c.messageS2 key iv p K seq ++ slack = frameAad p.length K seq ++ (iv ++
      ((c.crypto.output (callS2 key iv p K seq)).2 ++
        ((c.crypto.output (callS2 key iv p K seq)).1 ++ slack))) := by
    simp only [messageS2, frameAad, List.append_assoc]
  refine ⟨?_, hform, ?_, hiv.symm, ?_, ?_⟩
  · rw [hform, frameAad, List.append_assoc]
    exact parse_headerBytes _ hL hK le_rfl
  · rw [frameAad, List.length_append, length_headerBytes, length_beBytes]
    rfl
  · exact (c.crypto.length_tag _ _ _ _).symm
  · exact congrArg Nat.cast (c.crypto.length_ciphertext _ _ _ _).symm

theorem decryptInto_messageS2 {seq : UInt64} (hopens : c.crypto.Opens (callS2 key iv p K seq))
    (hkey : c.getKey K = .ok key) (hvalid : validKey key) (hiv : iv.length = 12)
    (hL : p.length < 2 ^ 25) (hK : K < 2 ^ 25) (hdest : p.length ≤ dest.length) (slack : Bytes) :
    c.decryptInto (c.messageS2 key iv p K seq ++ slack) dest = .ok () (overwrite dest 0 p) :=
  decryptInto_S2 (spans_messageS2 hiv hL hK slack) ⟨rfl, rfl, rfl⟩ hkey hvalid hopens hdest

/-- `Decrypt(message)` returns what `Decrypt(message, destination)` leaves in a
new array of the length the header announces. -/
theorem decrypt_eq_ok {message : Bytes} :
    c.decrypt message = .ok p ↔ ∃ h fresh, Header.parse message = .ok h ∧
      newByteArray h.payloadLength = .ok fresh ∧ c.decryptInto message fresh = .ok () p := by
  constructor
  · intro hdec
    unfold decrypt at hdec
    split at hdec
    · cases hdec
    rename_i h hparse
    split at hdec
    · cases hdec
    rename_i fresh hfresh
    split at hdec
    · rename_i u d hinto
      obtain rfl := Except.ok.inj hdec
      exact ⟨h, fresh, hparse, hfresh, hinto⟩
    · cases hdec
  · rintro ⟨h, fresh, hparse, hfresh, hinto⟩
    simp only [decrypt, hparse, hfresh, hinto]

/-- A message parses to the header it was built with, whatever follows it. -/
theorem decrypt_of_front {profile : ℕ} {message body : Bytes}
    (hmsg : message = headerBytes p.length K profile ++ body) (hL : p.length < 2 ^ 25)
    (hK : K < 2 ^ 25) (hp : profile ≤ 2)
    (hinto : c.decryptInto message (List.replicate p.length 0) = .ok () p) :
    c.decrypt message = .ok p := by
  have hparse : Header.parse message = .ok (builtHeader p.length K profile) := by
    rw [hmsg]
    exact parse_headerBytes body hL hK hp
  have hlen : (builtHeader p.length K profile).payloadLength = p.length := rfl
  refine decrypt_eq_ok.mpr ⟨_, _, hparse, newByteArray_eq_ok.mpr ⟨?_, rfl⟩, hinto⟩
  rw [hlen, arrayMaxLength]
  omega

theorem decrypt_messageS0 (hinv : c.crypto.Inverts) (hkey : c.getKey K = .ok key)
    (hvalid : validKey key) (hiv : iv.length = 12) (hL : p.length < 2 ^ 25) (hK : K < 2 ^ 25)
    (slack : Bytes) : c.decrypt (c.messageS0 key iv p K ++ slack) = .ok p := by
  have hlen : (List.replicate p.length (0 : UInt8)).length = p.length := List.length_replicate
  have hinto := decryptInto_messageS0 hinv hkey hvalid hiv hL hK (le_of_eq hlen.symm) slack
  rw [overwrite_all hlen] at hinto
  exact decrypt_of_front (List.append_assoc _ _ _) hL hK (by omega) hinto

theorem decrypt_messageS1 (hinv : c.crypto.Inverts) (hkey : c.getKey K = .ok key)
    (hiv : iv.length = 16) (hL : p.length < 2 ^ 25) (hK : K < 2 ^ 25) (slack : Bytes) :
    c.decrypt (c.messageS1 key iv p K ++ slack) = .ok p := by
  have hlen : (List.replicate p.length (0 : UInt8)).length = p.length := List.length_replicate
  have hinto := decryptInto_messageS1 hinv hkey hiv hL hK hlen slack
  exact decrypt_of_front (List.append_assoc _ _ _) hL hK (by omega) hinto

theorem decrypt_messageS2 {seq : UInt64} (hinv : c.crypto.Inverts) (hkey : c.getKey K = .ok key)
    (hvalid : validKey key) (hiv : iv.length = 12) (hL : p.length < 2 ^ 25) (hK : K < 2 ^ 25)
    (slack : Bytes) : c.decrypt (c.messageS2 key iv p K seq ++ slack) = .ok p := by
  have hlen : (List.replicate p.length (0 : UInt8)).length = p.length := List.length_replicate
  have hinto : c.decryptInto (c.messageS2 key iv p K seq ++ slack) (List.replicate p.length 0) =
      .ok () (overwrite (List.replicate p.length 0) 0 p) :=
    decryptInto_messageS2 (hinv.opens _) hkey hvalid hiv hL hK (le_of_eq hlen.symm) slack
  rw [overwrite_all hlen] at hinto
  exact decrypt_of_front (List.append_assoc _ _ _) hL hK (by omega) hinto

end Decryption

end Cipher

/-! ## Round trip -/

/-- What one encryption leaves in its destination: a message of the calculated
size that decrypts to the plaintext, with the old bytes behind it. -/
theorem encrypt_message {c : Cipher} {key p : Bytes} {K profile : ℕ} (seq : UInt64)
    (random : ℕ → UInt8) (hinv : c.crypto.Inverts) (hkey : c.getKey K = .ok key)
    (hvalid : validKey key) (hL : p.length < 2 ^ 25) (hK : K < 2 ^ 25) (hp : profile ≤ 2) :
    ∃ call message, message.length = requiredSize p.length K profile ∧
      (∀ dest : Bytes, requiredSize p.length K profile ≤ dest.length →
        c.encrypt random (.own p) K profile seq dest =
          .ok call (message ++ dest.drop (requiredSize p.length K profile))) ∧
      (∀ slack, c.decrypt (message ++ slack) = .ok p) ∧
      (profile = 2 → ∀ slack, ∃ h, Header.parse (message ++ slack) = .ok h ∧
        h.getSequence (message ++ slack) = .ok (beBytes 8 seq.toNat)) := by
  have hiv : ∀ n, (fill random n).length = n := length_fill random
  obtain rfl | rfl | rfl : profile = 0 ∨ profile = 1 ∨ profile = 2 := by omega
  · refine ⟨Cipher.callS0 key (fill random 12) p K,
      c.messageS0 key (fill random 12) p K, c.length_messageS0 (hiv 12), ?_, ?_, ?_⟩
    · intro dest hfit
      exact Cipher.encryptS0_eq hkey hvalid hL hK hfit
    · exact Cipher.decrypt_messageS0 hinv hkey hvalid (hiv 12) hL hK
    · intro h2
      exact absurd h2 (by omega)
  · refine ⟨c.callS1 key (fill random 16) p K,
      c.messageS1 key (fill random 16) p K, c.length_messageS1 (hiv 16), ?_, ?_, ?_⟩
    · intro dest hfit
      exact Cipher.encryptS1_eq hkey hL hK hfit
    · exact Cipher.decrypt_messageS1 hinv hkey (hiv 16) hL hK
    · intro h2
      exact absurd h2 (by omega)
  · refine ⟨Cipher.callS2 key (fill random 12) p K seq,
      c.messageS2 key (fill random 12) p K seq, c.length_messageS2 (hiv 12), ?_, ?_, ?_⟩
    · intro dest hfit
      exact Cipher.encryptS2_eq hkey hvalid rfl hL hK hfit (fun _ _ => rfl)
    · exact Cipher.decrypt_messageS2 hinv hkey hvalid (hiv 12) hL hK
    · intro _ slack
      refine ⟨builtHeader p.length K 2, ?_, Cipher.getSequence_messageS2 slack⟩
      rw [Cipher.messageS2, List.append_assoc]
      exact parse_headerBytes _ hL hK le_rfl

/-- Encrypting into any destination of the calculated size succeeds, leaves
everything behind that size alone, and the message decrypts to the plaintext,
with or without the bytes behind it. -/
theorem cipher_round_trip (c : Cipher) (key p : Bytes) (K profile : ℕ) (seq : UInt64)
    (random : ℕ → UInt8) (hinv : c.crypto.Inverts) (hkey : c.getKey K = .ok key)
    (hvalid : validKey key) (hL : p.length < 2 ^ 25) (hK : K < 2 ^ 25) (hp : profile ≤ 2) :
    ∃ size : ℕ, getRequiredSize p.length K profile = .ok (size : ℤ) ∧
      ∀ dest : Bytes, size ≤ dest.length →
        ∃ call dest', c.encrypt random (.own p) K profile seq dest = .ok call dest' ∧
          dest'.length = dest.length ∧
          dest'.drop size = dest.drop size ∧
          c.decrypt dest' = .ok p ∧
          c.decrypt (dest'.take size) = .ok p ∧
          (profile = 2 → ∃ h, Header.parse dest' = .ok h ∧
            h.getSequence dest' = .ok (beBytes 8 seq.toNat)) := by
  obtain ⟨call, message, hlen, hwrite, hread, hseq⟩ :=
    encrypt_message seq random hinv hkey hvalid hL hK hp
  refine ⟨requiredSize p.length K profile, getRequiredSize_eq profile hL hK, ?_⟩
  intro dest hfit
  refine ⟨call, _, hwrite dest hfit, ?_, List.drop_left' hlen, hread _, ?_, fun h2 => hseq h2 _⟩
  · rw [List.length_append, List.length_drop, hlen]
    omega
  · have hcut := hread []
    rw [List.append_nil] at hcut
    rw [List.take_left' hlen]
    exact hcut

/-- A cipher over the masking provider with one key of 32 bytes. -/
def maskCipher : Cipher where
  crypto := maskCrypto
  getKey _ := .ok (List.replicate 16 1 ++ List.replicate 16 2)
  asyncDecryptor := none

/-- Three bytes encrypted with profile 2 and sequence number 7. -/
theorem cipher_round_trip_three :
    ∃ call dest', maskCipher.encrypt (fun i => UInt8.ofNat i) (.own [1, 2, 3]) 5 2 7
        (List.replicate 60 0) = .ok call dest' ∧
      maskCipher.decrypt dest' = .ok [1, 2, 3] ∧ dest'.length = 60 := by
  obtain ⟨size, hsize, hall⟩ := cipher_round_trip maskCipher
    (List.replicate 16 1 ++ List.replicate 16 2) [1, 2, 3] 5 2 7 (fun i => UInt8.ofNat i)
    maskCrypto_inverts rfl (by decide) (by decide) (by decide) (by decide)
  have hval : getRequiredSize 3 5 2 = .ok (43 : ℕ) := rfl
  have heq : (Except.ok (size : ℤ) : Except Exn ℤ) = .ok (43 : ℕ) := hsize.symm.trans hval
  have hsize' : (size : ℤ) = (43 : ℕ) := Except.ok.inj heq
  obtain ⟨call, dest', henc, hlen, -, hdec, -, -⟩ :=
    hall (List.replicate 60 0) (by rw [List.length_replicate]; omega)
  exact ⟨call, dest', henc, hdec, hlen.trans List.length_replicate⟩

end ManagedSecurity

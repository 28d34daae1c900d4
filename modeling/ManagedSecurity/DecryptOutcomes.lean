import ManagedSecurity.HeaderSanity
import ManagedSecurity.CipherInversion

/-! # How a decryption can end

* `decrypt_declared`: with a valid key for every index, `Decrypt(message)` fails
  in another way than its callers expect exactly if the header announces a length
  no array can have;
* `decrypt_into_larger`: into a longer destination profiles 0 and 2 decrypt as
  into one of the right size. Profile 1 computes its HMAC over the whole
  destination, with the bytes behind the plaintext, and rejects the message unless
  these happen to make no difference.
-/

namespace ManagedSecurity

open Bytes Outcome

/-! ## The exceptions of a decryption -/

/-- The exceptions the callers of `Decrypt` are prepared for: those that are an
`ArgumentException`, an `InvalidOperationException`, a `NotImplementedException`,
a `NotSupportedException` or a `CryptographicException`. -/
def Exn.isDeclared : Exn → Bool
  | .argument _ => true
  | .argumentOutOfRange _ => true
  | .invalidOperation _ => true
  | .objectDisposed => true
  | .notImplemented _ => true
  | .notSupported _ => true
  | .cryptographic _ => true
  | _ => false

theorem sliceSpan_declared {span : Bytes} {start length : ℤ} {e : Exn}
    (h : sliceSpan span start length = .error e) : e.isDeclared = true := by
  unfold sliceSpan at h
  split_ifs at h
  obtain rfl := Except.error.inj h
  rfl

theorem getExtensionCount_declared {value : ℤ} {e : Exn} (h : getExtensionCount value = .error e) :
    e.isDeclared = true := by
  unfold getExtensionCount at h
  split_ifs at h
  obtain rfl := Except.error.inj h
  rfl

theorem getRequiredSize_declared {length index profile : ℤ} {e : Exn}
    (h : getRequiredSize length index profile = .error e) : e.isDeclared = true := by
  unfold getRequiredSize at h
  split at h
  · rename_i hlength
    obtain rfl := Except.error.inj h
    exact getExtensionCount_declared hlength
  split at h
  · rename_i hindex
    obtain rfl := Except.error.inj h
    exact getExtensionCount_declared hindex
  · cases h

theorem decodeVariableLength12_declared {field offset : ℕ} {data : Bytes} {e : Exn}
    (hfield : field < 2 ^ 12) (h : decodeVariableLength12 field data offset = .error e) :
    e.isDeclared = true := by
  rw [decodeVariableLength12_eq hfield] at h
  split_ifs at h
  · obtain rfl := Except.error.inj h
    rfl
  · obtain rfl := Except.error.inj h
    rfl

theorem switchProfile_declared {s : ℕ} {e : Exn} (h : switchProfile s = .error e) :
    e.isDeclared = true := by
  unfold switchProfile at h
  split_ifs at h
  obtain rfl := Except.error.inj h
  rfl

theorem parseFields_declared {p : Profile} {word : ℕ} {data : Bytes} {e : Exn}
    (h : Header.parseFields p word data = .error e) : e.isDeclared = true := by
  have hbound : ∀ n : ℕ, n &&& 0xFFF < 2 ^ 12 := by
    intro n
    rw [and_0xFFF]
    exact Nat.mod_lt _ (by omega)
  unfold Header.parseFields at h
  split at h
  · rename_i hlength
    obtain rfl := Except.error.inj h
    exact decodeVariableLength12_declared (hbound _) hlength
  split at h
  · rename_i hkey
    obtain rfl := Except.error.inj h
    exact decodeVariableLength12_declared (hbound _) hkey
  · simp only [] at h
    split_ifs at h
    obtain rfl := Except.error.inj h
    rfl

theorem parse_declared {data : Bytes} {e : Exn} (h : Header.parse data = .error e) :
    e.isDeclared = true := by
  unfold Header.parse at h
  simp only [] at h
  split_ifs at h
  · obtain rfl := Except.error.inj h
    rfl
  · obtain rfl := Except.error.inj h
    rfl
  · obtain rfl := Except.error.inj h
    rfl
  · split at h
    · rename_i hswitch
      obtain rfl := Except.error.inj h
      exact switchProfile_declared hswitch
    · exact parseFields_declared h

namespace Cipher

variable {c : Cipher} {h : Header} {m d : Bytes}

/-- A run that keeps the length of the destination, or throws as declared. -/
def EndsDeclared (n : ℕ) (r : EStateM.Result Exn Bytes Unit) : Prop :=
  Sat r (fun _ d' => d'.length = n) (fun e _ => e.isDeclared = true)

/-- The same for a larger class `P` of exceptions. -/
def EndsWithin (P : Exn → Prop) (n : ℕ) (r : EStateM.Result Exn Bytes Unit) : Prop :=
  Sat r (fun _ d' => d'.length = n) (fun e _ => P e)

/-- `P` holds of the declared exceptions and of those of the key provider. -/
structure Throws (c : Cipher) (P : Exn → Prop) : Prop where
  declared : ∀ e, e.isDeclared = true → P e
  provider : ∀ index e, c.getKey index = .error e → P e

/-- The payload region has the announced length. -/
theorem length_getPayload {ct : Bytes} (h' : h.getPayload m = .ok ct) :
    (ct.length : ℤ) = h.payloadLength := by
  rcases sliceSpan_eq_ok.mp h' with ⟨⟨-, hpos, hfit⟩, rfl⟩
  rw [length_slice_of_le (by omega)]
  omega

theorem getSequence_declared {e : Exn} (he : h.getSequence m = .error e) : e.isDeclared = true := by
  unfold Header.getSequence at he
  split_ifs at he
  exact sliceSpan_declared he

section

variable {P : Exn → Prop}

/-- A pure part that throws as allowed, with the rest of the run. -/
theorem endsWithin_bind {α : Type} {x : Except Exn α} {f : α → SpanM Unit} {n : ℕ}
    (hx : ∀ e, x = .error e → P e) (hf : ∀ a, x = .ok a → EndsWithin P n (f a d)) :
    EndsWithin P n ((ofExcept x >>= f) d) := by
  rw [EndsWithin, sat_bind, sat_ofExcept]
  exact ⟨hf, hx⟩

/-- The primitive gets a ciphertext of the announced length. -/
theorem Throws.aesDecrypt (hP : c.Throws P) {key nonce ct tag aad : Bytes}
    (hct : (ct.length : ℤ) = h.payloadLength) :
    EndsWithin P d.length (c.aesDecrypt h key nonce ct tag aad d) := by
  rw [Cipher.aesDecrypt, get_bind]
  refine endsWithin_bind (fun e he => hP.declared e (sliceSpan_declared he)) fun w hw => ?_
  rcases sliceSpan_eq_ok.mp hw with ⟨⟨-, hpos, hfit⟩, -⟩
  have hzero : (0 : ℤ) = (0 : ℕ) := rfl
  have hwrite : ∀ bytes : Bytes, (bytes.length : ℤ) = h.payloadLength →
      writeSpan 0 h.payloadLength bytes d = .ok () (overwrite d 0 bytes) := by
    intro bytes hbytes
    rw [← hbytes, hzero]
    exact writeSpan_ok (by omega)
  cases hp : c.crypto.gcmDecrypt key nonce ct tag aad with
  | some p =>
    have hlen := c.crypto.length_plaintext _ _ _ _ _ _ hp
    show EndsWithin P d.length (writeSpan 0 h.payloadLength p d)
    rw [hwrite p (by omega)]
    exact length_overwrite (by omega)
  | none =>
    have hclear : (w.length : ℤ) = h.payloadLength := by
      rcases sliceSpan_eq_ok.mp hw with ⟨-, rfl⟩
      rw [length_slice_of_le (by omega)]
      omega
    have hzeros := hwrite (List.replicate w.length 0) (by rw [List.length_replicate]; exact hclear)
    dsimp only
    rw [bind_ok hzeros]
    exact hP.declared _ rfl

/-- The profiles with one key: a key of the right size, then the parts of the message. -/
theorem Throws.validKey (hP : c.Throws P) {key : Bytes} {f : Unit → SpanM Unit} {n : ℕ}
    (hf : EndsWithin P n (f () d)) :
    EndsWithin P n ((ensure (ManagedSecurity.validKey key) (.cryptographic "") >>= f) d) := by
  rw [EndsWithin, sat_bind, sat_ensure]
  exact ⟨fun _ => hf, fun _ => hP.declared _ rfl⟩

theorem Throws.decryptS0 (hP : c.Throws P) : EndsWithin P d.length (c.decryptS0 h m d) := by
  have hspan : ∀ {span : Bytes} {start length : ℤ} (e : Exn),
      sliceSpan span start length = .error e → P e :=
    fun e he => hP.declared e (sliceSpan_declared he)
  rw [Cipher.decryptS0]
  refine endsWithin_bind (hP.provider _) fun key _ => hP.validKey ?_
  refine endsWithin_bind hspan fun nonce _ => ?_
  refine endsWithin_bind hspan fun ct hct => ?_
  refine endsWithin_bind hspan fun tag _ => ?_
  refine endsWithin_bind hspan fun aad _ => ?_
  exact hP.aesDecrypt (length_getPayload hct)

theorem Throws.decryptS1 (hP : c.Throws P) : EndsWithin P d.length (c.decryptS1 h m d) := by
  have hspan : ∀ {span : Bytes} {start length : ℤ} (e : Exn),
      sliceSpan span start length = .error e → P e :=
    fun e he => hP.declared e (sliceSpan_declared he)
  rw [Cipher.decryptS1]
  refine endsWithin_bind (hP.provider _) fun key _ => ?_
  refine endsWithin_bind hspan fun nonce _ => ?_
  refine endsWithin_bind hspan fun tag _ => ?_
  refine endsWithin_bind hspan fun ct hct => ?_
  refine endsWithin_bind hspan fun aad _ => ?_
  rw [EndsWithin, sat_bind]
  refine (hP.aesDecrypt (length_getPayload hct)).mono ?_ fun _ _ he => he
  intro _ d' hd'
  rw [get_bind]
  split_ifs
  · exact hd'
  · exact hP.declared _ rfl

theorem Throws.decryptS2 (hP : c.Throws P) : EndsWithin P d.length (c.decryptS2 h m d) := by
  have hspan : ∀ {span : Bytes} {start length : ℤ} (e : Exn),
      sliceSpan span start length = .error e → P e :=
    fun e he => hP.declared e (sliceSpan_declared he)
  rw [Cipher.decryptS2]
  refine endsWithin_bind (hP.provider _) fun key _ => hP.validKey ?_
  refine endsWithin_bind (fun e he => hP.declared e (getSequence_declared he)) fun seq _ => ?_
  refine endsWithin_bind hspan fun nonce _ => ?_
  refine endsWithin_bind hspan fun ct hct => ?_
  refine endsWithin_bind hspan fun tag _ => ?_
  refine endsWithin_bind hspan fun hdr _ => ?_
  exact hP.aesDecrypt (length_getPayload hct)

/-- Decrypting into any destination keeps its length or throws as allowed. -/
theorem Throws.decryptInto (hP : c.Throws P) : EndsWithin P d.length (c.decryptInto m d) := by
  rw [Cipher.decryptInto]
  refine endsWithin_bind (fun e he => hP.declared e (parse_declared he)) fun h _ => ?_
  split_ifs
  · exact hP.decryptS0
  · exact hP.decryptS1
  · exact hP.decryptS2
  · exact hP.declared _ rfl

end

/-- A provider that knows every index: it returns 256-bit keys. -/
def Provides (c : Cipher) : Prop := ∀ index, ∃ key, c.getKey index = .ok key ∧ key.length = 32

/-- Decrypting into any destination keeps its length or throws as declared. -/
theorem decryptInto_declared (hkeys : c.Provides) : EndsDeclared d.length (c.decryptInto m d) := by
  have hP : c.Throws fun e => e.isDeclared = true := by
    constructor
    · exact fun _ he => he
    · intro index e he
      rcases hkeys index with ⟨key, hkey, -⟩
      cases hkey.symm.trans he
  exact hP.decryptInto

/-- `Decrypt(message)` returns an array of the announced length, or throws one of
the declared exceptions. -/
def DecryptsOrDeclares (c : Cipher) (m : Bytes) : Prop :=
  (∃ h p, Header.parse m = .ok h ∧ c.decrypt m = .ok p ∧ (p.length : ℤ) = h.payloadLength) ∨
    ∃ e, c.decrypt m = .error e ∧ e.isDeclared = true

end Cipher

/-- An array of the length the header announces can be allocated. -/
def Header.Allocatable (h : Header) : Prop := 0 ≤ h.payloadLength ∧ h.payloadLength ≤ arrayMaxLength

/-- The only other failure is that of allocating the plaintext. -/
theorem decrypt_declared (c : Cipher) (hkeys : c.Provides) (m : Bytes) :
    c.DecryptsOrDeclares m ↔ ∀ h, Header.parse m = .ok h → h.Allocatable := by
  constructor
  · intro hends h hparse
    rcases hends with ⟨h', p, hparse', hdec, -⟩ | ⟨e, hdec, hdeclared⟩
    · rcases Cipher.decrypt_eq_ok.mp hdec with ⟨h'', fresh, hparse'', hfresh, -⟩
      obtain rfl : h = h'' := Except.ok.inj (hparse.symm.trans hparse'')
      exact (newByteArray_eq_ok.mp hfresh).1
    · -- without an array the exception is that of the allocation
      by_contra hnot
      unfold Cipher.decrypt newByteArray at hdec
      simp only [hparse] at hdec
      unfold Header.Allocatable at hnot
      split_ifs at hdec with hneg hlong
      · obtain rfl := Except.error.inj hdec
        cases hdeclared
      · obtain rfl := Except.error.inj hdec
        cases hdeclared
      · omega
  · intro halloc
    cases hparse : Header.parse m with
    | error e =>
      refine Or.inr ⟨e, ?_, parse_declared hparse⟩
      simp only [Cipher.decrypt, hparse]
    | ok h =>
      have hfresh : newByteArray h.payloadLength = .ok (List.replicate h.payloadLength.toNat 0) :=
        newByteArray_eq_ok.mpr ⟨halloc h hparse, rfl⟩
      have hends : Cipher.EndsDeclared _ (c.decryptInto m (List.replicate h.payloadLength.toNat 0)) :=
        Cipher.decryptInto_declared hkeys
      have hnonneg := (halloc h hparse).1
      cases hinto : c.decryptInto m (List.replicate h.payloadLength.toNat 0) with
      | ok u p =>
        have hlen : p.length = (List.replicate h.payloadLength.toNat (0 : UInt8)).length :=
          hends.of_ok hinto
        refine Or.inl ⟨h, p, hparse, Cipher.decrypt_eq_ok.mpr ⟨h, _, hparse, hfresh, hinto⟩, ?_⟩
        rw [hlen, List.length_replicate]
        omega
      | error e d =>
        refine Or.inr ⟨e, ?_, hends.of_error hinto⟩
        simp only [Cipher.decrypt, hparse, hfresh, hinto]

theorem maskCipher_provides : maskCipher.Provides := fun _ => ⟨_, rfl, rfl⟩

/-- A header alone, without the 300 bytes it announces. -/
theorem decrypt_declared_short : maskCipher.DecryptsOrDeclares shortHeader := by
  apply (decrypt_declared maskCipher maskCipher_provides shortHeader).mpr
  have hshort : Header.parse shortHeader = .ok (decodedHeader ⟨12, 16, 0⟩ shortHeader) := by decide
  intro h hparse
  obtain rfl := Except.ok.inj (hshort.symm.trans hparse)
  exact ⟨by decide, by decide⟩

/-- An announced length below zero ends in an overflow. -/
theorem decrypt_negative_overflows :
    maskCipher.decrypt negativeHeader = .error .overflow ∧
      ¬ maskCipher.DecryptsOrDeclares negativeHeader := by
  have hover : maskCipher.decrypt negativeHeader = .error .overflow := by decide
  refine ⟨hover, ?_⟩
  rintro (⟨h, p, -, hdec, -⟩ | ⟨e, hdec, hdeclared⟩)
  · rw [hover] at hdec
    cases hdec
  · obtain rfl := Except.error.inj (hover.symm.trans hdec)
    cases hdeclared

/-! ## Longer destinations -/

namespace Cipher

/-- Up to its stored length the HMAC of profile 1 over the message `m` and the
plaintext `p` is the same with `rest` behind the plaintext. -/
def CodeIgnores (c : Cipher) (h : Header) (m masterKey p rest : Bytes) : Prop :=
  let aad := m.take (h.ivOffset + h.ivLength)
  let authKey := c.authKey masterKey (slice m h.ivOffset h.ivLength)
  (c.crypto.hmac authKey (aad ++ (p ++ rest))).take 16 = (c.crypto.hmac authKey (aad ++ p)).take 16

variable {c : Cipher} {random : ℕ → UInt8} {h : Header} {call : GcmCall} {p m d dest : Bytes} {K : ℤ}

/-- The parts of what an encryption has left in its destination. -/
theorem Written.spans {front iv suffix : Bytes} (hw : Written c h call (front ++ iv) suffix d m)
    (hfront : front.length = h.ivOffset) (hmac : h.macLength = 16 + suffix.length) :
    Spans h m front iv ((c.crypto.output call).2 ++ suffix) (c.crypto.output call).1
      (m.drop h.totalLength.toNat) := by
  have hct : (c.crypto.output call).1.length = call.plaintext.length :=
    c.crypto.length_ciphertext _ _ _ _
  have htag : (c.crypto.output call).2.length = 16 := c.crypto.length_tag _ _ _ _
  rcases parse_adjacent hw.parsed with ⟨hadj₁, hadj₂, htotal, -⟩
  have hpayload := hw.payload
  have hlen := hw.total
  rw [hw.bytes] at hlen
  simp only [List.length_append, htag, hct] at hlen
  refine ⟨hw.parsed, ?_, hfront.symm, by omega, ?_, by omega⟩
  · conv_lhs => rw [← List.take_append_drop h.totalLength.toNat m, hw.bytes]
    simp only [List.append_assoc]
  · rw [List.length_append, htag, hmac]

/-- The plaintext at the front of a destination. -/
theorem overwrite_zero (p dest : Bytes) : overwrite dest 0 p = p ++ dest.drop p.length := by
  rw [overwrite, List.take_zero, List.nil_append, Nat.zero_add]

theorem decrypt_larger_S0 (hinv : c.crypto.Inverts)
    (hrun : c.encryptS0 random (.own p) K d = .ok call m) (hdest : p.length ≤ dest.length) :
    ∃ h key, Header.parse m = .ok h ∧ c.getKey K = .ok key ∧ (0 ≤ K → h.keyIndex = K) ∧
      (c.getKey h.keyIndex = .ok key → c.decryptInto m dest = .ok () (p ++ dest.drop p.length)) := by
  rcases encryptS0_inv hrun with ⟨h, d₂, hkey, hvalid, hplain, hbuilt, -, haad, hw⟩
  obtain rfl : call.plaintext = p := hplain
  have hs := hw.spans haad (show h.macLength = 16 + ([] : Bytes).length from hbuilt.macLength)
  rw [List.append_nil] at hs
  refine ⟨h, call.key, hw.parsed, hkey, hbuilt.keyIndex, ?_⟩
  intro hsame
  rw [← overwrite_zero]
  exact decryptInto_S0 hs ⟨hbuilt.ivLength, hbuilt.macLength, hbuilt.sequenceLength⟩ hsame hvalid
    (hinv.opens call) hdest

theorem decrypt_larger_S2 {seq : UInt64} (hinv : c.crypto.Inverts)
    (hrun : c.encryptS2 random (.own p) K seq d = .ok call m) (hdest : p.length ≤ dest.length) :
    ∃ h key, Header.parse m = .ok h ∧ c.getKey K = .ok key ∧ (0 ≤ K → h.keyIndex = K) ∧
      (c.getKey h.keyIndex = .ok key → c.decryptInto m dest = .ok () (p ++ dest.drop p.length)) := by
  rcases encryptS2_inv hrun with ⟨h, hdr, d₂, hkey, hvalid, -, hplain, -, hbuilt, -, haad, hw⟩
  obtain rfl : call.plaintext = p := hplain
  have hs := hw.spans haad (show h.macLength = 16 + ([] : Bytes).length from hbuilt.macLength)
  rw [List.append_nil] at hs
  refine ⟨h, call.key, hw.parsed, hkey, hbuilt.keyIndex, ?_⟩
  intro hsame
  rw [← overwrite_zero]
  exact decryptInto_S2 hs ⟨hbuilt.ivLength, hbuilt.macLength, hbuilt.sequenceLength⟩ hsame hvalid
    (hinv.opens call) hdest

/-- The HMAC of the decryption is over the plaintext and the rest of the
destination, the stored one over the plaintext. -/
theorem decrypt_larger_S1 (hinv : c.crypto.Inverts)
    (hrun : c.encryptS1 random (.own p) K d = .ok call m) (hdest : p.length ≤ dest.length) :
    ∃ h key, Header.parse m = .ok h ∧ c.getKey K = .ok key ∧ (0 ≤ K → h.keyIndex = K) ∧
      (c.getKey h.keyIndex = .ok key →
        (c.decryptInto m dest = .ok () (p ++ dest.drop p.length) ↔
          c.CodeIgnores h m key p (dest.drop p.length))) := by
  obtain ⟨h, masterKey, hdr, inputNonce, d₂, hkey, hnonceLen, hencKey, hplain, hbuilt, -, haad, hhdr,
    hsiv, hw⟩ := encryptS1_inv hrun
  obtain rfl : call.plaintext = p := hplain
  set code := c.crypto.hmac (c.authKey masterKey inputNonce) (call.aad ++ call.plaintext) with hcode
  have hcodeLen : (code.take 16).length = 16 := by
    rw [List.length_take, hcode, c.crypto.length_hmac]
    rfl
  have hw' := hw
  rw [haad] at hw'
  have hs := hw'.spans hhdr (by rw [hbuilt.macLength, hcodeLen]; rfl)
  refine ⟨h, masterKey, hw.parsed, hkey, hbuilt.keyIndex, ?_⟩
  intro hsame
  have hopen : c.crypto.gcmDecrypt (c.encKey masterKey inputNonce) ((code.take 16).take 12)
      (c.crypto.output call).1 (c.crypto.output call).2 (hdr ++ inputNonce) = some call.plaintext := by
    rw [List.take_take, ← hencKey, ← haad]
    show c.crypto.gcmDecrypt call.key (code.take 12) _ _ call.aad = _
    rw [← hsiv]
    exact hinv.opens call
  -- the two cuts of the message that the condition speaks about
  have hcutAad : m.take (h.ivOffset + h.ivLength) = call.aad := by
    rw [hs.parts, ← List.append_assoc, haad, hs.front, hs.iv, ← List.length_append,
      List.take_left' rfl]
  have hcutIv : slice m h.ivOffset h.ivLength = inputNonce := by
    rw [hs.parts]
    exact slice_middle _ _ _ hs.front hs.iv
  rw [decryptInto_S1 hs ⟨hbuilt.ivLength, hbuilt.macLength⟩ (c.crypto.length_tag _ _ _ _) hsame hopen
    hdest, overwrite_zero, CodeIgnores, hcutAad, hcutIv, ← haad]
  constructor
  · intro hok
    by_contra hne
    rw [if_neg hne] at hok
    cases hok
  · intro hsame
    exact if_pos hsame

end Cipher

/-- A message decrypts into any destination with room for its plaintext, and the
bytes behind it stay, if it was encrypted with profile 0 or 2; with profile 1
exactly if the HMAC does not tell the bytes behind the plaintext from none. The
header names the key the message was encrypted under whenever the index of that
key is not negative. -/
theorem decrypt_into_larger (c : Cipher) (hinv : c.crypto.Inverts) (random : ℕ → UInt8)
    (p buffer m : Bytes) (K : ℤ) (profile : ℕ) (hp : profile ≤ 2) (seq : UInt64) (call : GcmCall)
    (hrun : c.encrypt random (.own p) K profile seq buffer = .ok call m) (dest : Bytes)
    (hdest : p.length ≤ dest.length) :
    ∃ h key, Header.parse m = .ok h ∧ c.getKey K = .ok key ∧ (0 ≤ K → h.keyIndex = K) ∧
      (c.getKey h.keyIndex = .ok key →
        (c.decryptInto m dest = .ok () (p ++ dest.drop p.length) ↔
          (profile = 1 → c.CodeIgnores h m key p (dest.drop p.length)))) := by
  obtain rfl | rfl | rfl : profile = 0 ∨ profile = 1 ∨ profile = 2 := by omega
  · rcases Cipher.decrypt_larger_S0 hinv hrun hdest with ⟨h, key, hparse, hkey, hindex, hdec⟩
    refine ⟨h, key, hparse, hkey, hindex, fun hsame => ⟨fun _ h1 => ?_, fun _ => hdec hsame⟩⟩
    exact absurd h1 (by omega)
  · rcases Cipher.decrypt_larger_S1 hinv hrun hdest with ⟨h, key, hparse, hkey, hindex, hdec⟩
    refine ⟨h, key, hparse, hkey, hindex, fun hsame => ?_⟩
    rw [hdec hsame]
    exact ⟨fun hcode _ => hcode, fun hcode => hcode rfl⟩
  · rcases Cipher.decrypt_larger_S2 hinv hrun hdest with ⟨h, key, hparse, hkey, hindex, hdec⟩
    refine ⟨h, key, hparse, hkey, hindex, fun hsame => ⟨fun _ h1 => ?_, fun _ => hdec hsame⟩⟩
    exact absurd h1 (by omega)

/-- Three bytes of profile 2, decrypted into six. -/
theorem decrypt_into_larger_six :
    ∃ call m, maskCipher.encrypt (fun i => UInt8.ofNat i) (.own [1, 2, 3]) 5 2 7
        (List.replicate 60 0) = .ok call m ∧
      maskCipher.decryptInto m [9, 9, 9, 9, 9, 9] = .ok () [1, 2, 3, 9, 9, 9] := by
  obtain ⟨call, message, -, hwrite, -, -⟩ :=
    @encrypt_message maskCipher _ [1, 2, 3] 5 2 7 (fun i => UInt8.ofNat i)
      maskCrypto_inverts (rfl : maskCipher.getKey (5 : ℕ) = _) (by decide) (by decide) (by decide)
      (by decide)
  have hrun := hwrite (List.replicate 60 0) (by decide)
  refine ⟨call, _, hrun, ?_⟩
  obtain ⟨h, key, -, hkey, -, hdec⟩ := decrypt_into_larger maskCipher maskCrypto_inverts
    (fun i => UInt8.ofNat i) [1, 2, 3] (List.replicate 60 0) _ 5 2 (by decide) 7 call hrun
    [9, 9, 9, 9, 9, 9] (by decide)
  have hsame : maskCipher.getKey h.keyIndex = .ok key := hkey
  exact (hdec hsame).mpr (fun h1 => absurd h1 (by decide))

/-- The masking cipher with a message code whose first half is the checksum. -/
def checksumCipher : Cipher where
  crypto := {
    maskCrypto with
    hmac := fun key data => beBytes 16 (checksum (key ++ data)) ++ List.replicate 16 0
    length_hmac := by simp }
  getKey := maskCipher.getKey
  asyncDecryptor := none

/-- One byte of profile 1, which does not decrypt into two. -/
theorem larger_destination_rejected :
    ∃ call m, checksumCipher.encrypt (fun i => UInt8.ofNat i) (.own [1]) 5 1 0
        (List.replicate 53 0) = .ok call m ∧
      ∀ d, checksumCipher.decryptInto m [0, 9] ≠ .ok () d := by
  have hsealed : threw (checksumCipher.encrypt (fun i => UInt8.ofNat i) (.own [1]) 5 1 0
      (List.replicate 53 0)) = false := by decide +kernel
  have hrejected : threw (checksumCipher.decryptInto (finalState (checksumCipher.encrypt
      (fun i => UInt8.ofNat i) (.own [1]) 5 1 0 (List.replicate 53 0))) [0, 9]) = true := by
    decide +kernel
  cases hrun : checksumCipher.encrypt (fun i => UInt8.ofNat i) (.own [1]) 5 1 0
      (List.replicate 53 0) with
  | error e m =>
    rw [hrun] at hsealed
    cases hsealed
  | ok call m =>
    refine ⟨call, m, rfl, ?_⟩
    rw [hrun] at hrejected
    intro d hok
    rw [finalState, hok] at hrejected
    cases hrejected

end ManagedSecurity

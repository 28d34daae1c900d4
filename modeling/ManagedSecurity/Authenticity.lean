import ManagedSecurity.CipherInversion

/-! # Message authenticity

A history is a list of calls of `Encrypt`. Under ideal AES-GCM for the keys the
cipher uses, and sub-keys of profile 1 that collide neither with a provider key
nor with each other, every message that `Decrypt` accepts is, as far as its
header reaches, the output of one of the calls (`decrypt_authentic`).

No argument about confused profiles is needed: the associated data of every
path reach from the first byte up to the IV, so the accepted tuple spells out
the whole message, header included.
-/

namespace ManagedSecurity

open Bytes Outcome

/-- One call of `Encrypt`: its arguments, the bytes the random generator gives
and the content of the destination before the call. -/
structure EncryptCall where
  random : ℕ → UInt8
  plaintext : Bytes
  keyIndex : ℤ
  profile : ℤ
  sequenceNumber : UInt64
  destination : Bytes

namespace EncryptCall

/-- The outcome of the call. -/
def run (c : Cipher) (e : EncryptCall) : EStateM.Result Exn Bytes GcmCall :=
  c.encrypt e.random (.own e.plaintext) e.keyIndex e.profile e.sequenceNumber e.destination

/-- The call of `AesGcm.Encrypt` it makes, unless it throws. -/
def gcmCall (c : Cipher) (e : EncryptCall) : Option GcmCall :=
  match e.run c with
  | .ok call _ => some call
  | .error _ _ => none

end EncryptCall

namespace Cipher

variable (c : Cipher)

/-- The calls of `AesGcm.Encrypt` that a history makes. -/
def encryptLog (history : List EncryptCall) : List GcmCall :=
  history.filterMap (EncryptCall.gcmCall c)

/-- The keys under which the cipher decrypts: those of the provider, and the
sub-keys derived from them. -/
def usedKeys : Set Bytes :=
  {key | ∃ K masterKey, c.getKey K = .ok masterKey ∧
    (key = masterKey ∨ ∃ nonce, nonce.length = 16 ∧ key = c.encKey masterKey nonce)}

/-- The sub-keys of profile 1 coincide neither with a provider key nor with
those of another master key or input nonce. -/
structure SubkeysSeparate : Prop where
  notProvided : ∀ K K' key masterKey nonce, c.getKey K = .ok key → c.getKey K' = .ok masterKey →
    nonce.length = 16 → c.encKey masterKey nonce ≠ key
  injective : ∀ K K' masterKey masterKey' nonce nonce', c.getKey K = .ok masterKey →
    c.getKey K' = .ok masterKey' → nonce.length = 16 → nonce'.length = 16 →
    c.encKey masterKey nonce = c.encKey masterKey' nonce' →
    masterKey = masterKey' ∧ nonce = nonce'

end Cipher

/-! ## The calls of a history -/

section

variable {c : Cipher} {history : List EncryptCall}

theorem mem_encryptLog {g : GcmCall} (h : g ∈ c.encryptLog history) :
    ∃ e ∈ history, ∃ dest', e.run c = .ok g dest' := by
  rcases List.mem_filterMap.mp h with ⟨e, he, hcall⟩
  unfold EncryptCall.gcmCall at hcall
  cases hrun : e.run c with
  | ok call dest' =>
    rw [hrun] at hcall
    obtain rfl := Option.some.inj hcall
    exact ⟨e, he, dest', hrun⟩
  | error ex dest' =>
    rw [hrun] at hcall
    cases hcall

/-- The output of a call that used a provider key directly. -/
def EncryptCall.Direct (c : Cipher) (e : EncryptCall) (g : GcmCall) (h : Header) (dest' : Bytes) :
    Prop :=
  c.getKey e.keyIndex = .ok g.key ∧
    Cipher.Written c h g (g.aad ++ g.nonce) [] e.destination dest'

/-- The output of a call that used a derived key. -/
def EncryptCall.Derived (c : Cipher) (e : EncryptCall) (g : GcmCall) (h : Header) (dest' : Bytes) :
    Prop :=
  ∃ masterKey inputNonce, c.getKey e.keyIndex = .ok masterKey ∧ inputNonce.length = 16 ∧
    g.key = c.encKey masterKey inputNonce ∧
    Cipher.Written c h g g.aad
      ((c.crypto.hmac (c.authKey masterKey inputNonce) (g.aad ++ g.plaintext)).take 16)
      e.destination dest'

/-- What a successful call has left in its destination. -/
theorem EncryptCall.run_inv {e : EncryptCall} {g : GcmCall} {dest' : Bytes}
    (hrun : e.run c = .ok g dest') :
    ∃ h, g.plaintext = e.plaintext ∧
      (0 ≤ e.keyIndex →
        getRequiredSize e.plaintext.length e.keyIndex e.profile = .ok h.totalLength) ∧
      (e.Direct c g h dest' ∨ e.Derived c g h dest') := by
  unfold EncryptCall.run Cipher.encrypt at hrun
  by_cases h1 : e.profile = 1
  · rw [if_pos h1] at hrun
    obtain ⟨h, masterKey, hdr, inputNonce, d₂, hkey, hlen, hgkey, hplain, hbuilt, -, -, -, -, hw⟩ :=
      Cipher.encryptS1_inv hrun
    have hsize := hbuilt.size
    rw [Nat.cast_one, ← h1] at hsize
    exact ⟨h, hplain, hsize, Or.inr ⟨masterKey, inputNonce, hkey, hlen, hgkey, hw⟩⟩
  · rw [if_neg h1] at hrun
    by_cases h2 : e.profile = 2
    · rw [if_pos h2] at hrun
      rcases Cipher.encryptS2_inv hrun with ⟨h, hdr, d₂, hkey, -, -, hplain, -, hbuilt, -, -, hw⟩
      have hsize := hbuilt.size
      rw [Nat.cast_two, ← h2] at hsize
      exact ⟨h, hplain, hsize, Or.inl ⟨hkey, hw⟩⟩
    · rw [if_neg h2] at hrun
      rcases Cipher.encryptS0_inv hrun with ⟨h, d₂, hkey, -, hplain, hbuilt, -, -, hw⟩
      -- every other profile number is sized and written as profile 0
      have hprofile : getRequiredSize e.plaintext.length e.keyIndex e.profile =
          getRequiredSize e.plaintext.length e.keyIndex 0 := by
        have hb : builderProfile e.profile = builderProfile 0 := by
          rw [builderProfile, if_neg h1, if_neg h2]
          rfl
        unfold getRequiredSize
        rw [hb]
      refine ⟨h, hplain, ?_, Or.inl ⟨hkey, hw⟩⟩
      intro hK
      rw [hprofile]
      exact hbuilt.size hK

end

/-! ## Authenticity -/

/-- The message `m` is, as far as its header reaches, what the call has
written, and `p` is the plaintext of the call. -/
def HonestOutput (c : Cipher) (m p : Bytes) (h : Header) (e : EncryptCall) : Prop :=
  ∃ g dest', e.run c = .ok g dest' ∧ p = e.plaintext ∧
    h.totalLength ≤ m.length ∧
    (∃ h', Header.parse dest' = .ok h' ∧ h'.totalLength = h.totalLength) ∧
    m.take h.totalLength.toNat = dest'.take h.totalLength.toNat ∧
    (0 ≤ e.keyIndex →
      getRequiredSize e.plaintext.length e.keyIndex e.profile = .ok h.totalLength)

section

variable {c : Cipher} {history : List EncryptCall} {m p : Bytes} {h : Header}

/-- Two byte strings that spell out the same parts. -/
theorem honestOutput_of_written {e : EncryptCall} {g : GcmCall} {h' : Header}
    {front suffix dest' : Bytes} (hrun : e.run c = .ok g dest') (hp : p = e.plaintext)
    (hw : Cipher.Written c h' g front suffix e.destination dest')
    (hsize : 0 ≤ e.keyIndex →
      getRequiredSize e.plaintext.length e.keyIndex e.profile = .ok h'.totalLength)
    (htotal : h.totalLength = (m.take h.totalLength.toNat).length)
    (hbytes : m.take h.totalLength.toNat =
      front ++ (((c.crypto.output g).2 ++ suffix) ++ (c.crypto.output g).1)) :
    HonestOutput c m p h e := by
  have hsame : m.take h.totalLength.toNat = dest'.take h'.totalLength.toNat :=
    hbytes.trans hw.bytes.symm
  have heq : h'.totalLength = h.totalLength := by
    rw [hw.total, htotal, hsame]
  refine ⟨g, dest', hrun, hp, ?_, ⟨h', hw.parsed, heq⟩, ?_, ?_⟩
  · rw [List.length_take] at htotal
    omega
  · rw [hsame, heq]
  · rw [← heq]
    exact hsize

/-- A message opened under a provider key was written under it: a call that
derives its key cannot have made the accepted tuple. -/
theorem honestOutput_of_opened (hideal : c.crypto.IdealFor c.usedKeys (c.encryptLog history))
    (hsep : c.SubkeysSeparate) {d d' key nonce ct tag aad : Bytes}
    (hopen : Cipher.Opened c h m d d' key nonce ct tag aad p) :
    ∃ e ∈ history, HonestOutput c m p h e := by
  have hused : key ∈ c.usedKeys := ⟨h.keyIndex, key, hopen.provided, Or.inl rfl⟩
  obtain ⟨g, hg, hgkey, hgnonce, hgaad, hgplain, hout⟩ :=
    hideal key hused nonce ct tag aad p hopen.accepted
  rcases mem_encryptLog hg with ⟨e, he, dest', hrun⟩
  rcases EncryptCall.run_inv hrun with ⟨h', hplain, hsize, hdirect | hderived⟩
  · rcases hdirect with ⟨-, hw⟩
    refine ⟨e, he, honestOutput_of_written hrun (hgplain.symm.trans hplain) hw hsize
      hopen.total ?_⟩
    rw [hopen.bytes, hgnonce, hgaad, hout]
    simp only [List.append_nil, List.append_assoc]
  · rcases hderived with ⟨masterKey, inputNonce, hmaster, hlen, hkey, -⟩
    have hcollide : c.encKey masterKey inputNonce = key := hkey.symm.trans hgkey
    exact absurd hcollide (hsep.notProvided _ _ _ _ _ hopen.provided hmaster hlen)

/-- A message opened under a derived key was written under it, and the stored
code is that of the call, since it covers the same bytes under the same key. -/
theorem honestOutput_of_decryptS1 (hideal : c.crypto.IdealFor c.usedKeys (c.encryptLog history))
    (hsep : c.SubkeysSeparate) {d d' : Bytes} {u : Unit} (hparse : Header.parse m = .ok h)
    (hS1 : h.ivLength = 16 ∧ h.macLength = 32)
    (hwhole : ∀ q : Bytes, h.payloadLength = q.length → overwrite d 0 q = q)
    (hpath : c.decryptS1 h m d = .ok u d') :
    ∃ e ∈ history, HonestOutput c m d' h e := by
  obtain ⟨masterKey, inputNonce, ct, tag, aad, q, hkey, hlen, hgcm, hbytes, htotal, hq, hres⟩ :=
    Cipher.decryptS1_inv hparse hS1.1 hS1.2 hpath
  obtain rfl : d' = q := hres.trans (hwhole q hq)
  have hused : c.encKey masterKey inputNonce ∈ c.usedKeys :=
    ⟨h.keyIndex, masterKey, hkey, Or.inr ⟨inputNonce, hlen, rfl⟩⟩
  rcases hideal _ hused _ _ _ _ _ hgcm with ⟨g, hg, hgkey, -, hgaad, hgplain, hout⟩
  rcases mem_encryptLog hg with ⟨e, he, dest', hrun⟩
  rcases EncryptCall.run_inv hrun with ⟨h', hplain, hsize, hdirect | hderived⟩
  · exact absurd hgkey.symm (hsep.notProvided _ _ _ _ _ hdirect.1 hkey hlen)
  · rcases hderived with ⟨masterKey', inputNonce', hkey', hlen', hgkey', hw⟩
    obtain ⟨rfl, rfl⟩ := hsep.injective _ _ _ _ _ _ hkey hkey' hlen hlen'
      (hgkey.symm.trans hgkey')
    refine ⟨e, he, honestOutput_of_written hrun (hgplain.symm.trans hplain) hw hsize htotal ?_⟩
    rw [hbytes, hout, hgaad, hgplain]

/-- Every message that decrypts was encrypted: as far as its header reaches it
is the output of a call of the history, and the plaintext is that of the call. -/
theorem decrypt_authentic (c : Cipher) (history : List EncryptCall)
    (hideal : c.crypto.IdealFor c.usedKeys (c.encryptLog history)) (hsep : c.SubkeysSeparate)
    (m p : Bytes) (hdec : c.decrypt m = .ok p) :
    ∃ h, Header.parse m = .ok h ∧ ∃ e ∈ history, HonestOutput c m p h e := by
  rcases Cipher.decrypt_eq_ok.mp hdec with ⟨h, fresh, hparse, hfresh, hinto⟩
  refine ⟨h, hparse, ?_⟩
  have hfreshLen : (fresh.length : ℤ) = h.payloadLength := by
    rcases newByteArray_eq_ok.mp hfresh with ⟨⟨hnonneg, -⟩, rfl⟩
    rw [List.length_replicate]
    omega
  rw [Cipher.decryptInto] at hinto
  rcases bind_eq_ok.mp hinto with ⟨h', d₁, hparseRun, hpath⟩
  rcases ofExcept_eq_ok.mp hparseRun with ⟨hparse', rfl⟩
  obtain rfl : h = h' := Except.ok.inj (hparse.symm.trans hparse')
  -- the plaintext has the length of the new array, which it replaces
  have hwhole : ∀ q : Bytes, h.payloadLength = q.length → overwrite fresh 0 q = q := by
    intro q hq
    exact Cipher.overwrite_all (by omega)
  have hdirect : ∀ key nonce ct tag aad q, Cipher.Opened c h m fresh p key nonce ct tag aad q →
      ∃ e ∈ history, HonestOutput c m p h e := by
    intro key nonce ct tag aad q hopen
    have hq : p = q := hopen.result.trans (hwhole q hopen.payload)
    rw [hq]
    exact honestOutput_of_opened hideal hsep hopen
  by_cases hS0 : h.ivLength = 12 ∧ h.macLength = 16 ∧ h.sequenceLength = 0
  · rw [if_pos hS0] at hpath
    rcases Cipher.decryptS0_inv hparse hpath with ⟨key, nonce, ct, tag, aad, q, hopen⟩
    exact hdirect _ _ _ _ _ _ hopen
  rw [if_neg hS0] at hpath
  by_cases hS1 : h.ivLength = 16 ∧ h.macLength = 32
  · rw [if_pos hS1] at hpath
    exact honestOutput_of_decryptS1 hideal hsep hparse hS1 hwhole hpath
  rw [if_neg hS1] at hpath
  by_cases hS2 : h.ivLength = 12 ∧ h.macLength = 16 ∧ h.sequenceLength = 8
  · rw [if_pos hS2] at hpath
    rcases Cipher.decryptS2_inv hparse hS2.2.2 hpath with ⟨key, nonce, ct, tag, aad, q, hopen⟩
    exact hdirect _ _ _ _ _ _ hopen
  · rw [if_neg hS2] at hpath
    cases hpath

end

/-! ## A history of two calls -/

/-- The cipher `c` with only the outputs of the calls in `log` decrypting. -/
def Cipher.tabled (c : Cipher) (log : List GcmCall) : Cipher where
  crypto := tableCrypto c.crypto log
  getKey := c.getKey
  asyncDecryptor := c.asyncDecryptor

/-- Encryption does not notice. -/
theorem encryptLog_tabled (c : Cipher) (log : List GcmCall) (history : List EncryptCall) :
    (c.tabled log).encryptLog history = c.encryptLog history := rfl

theorem maskCipher_separate (log : List GcmCall) : (maskCipher.tabled log).SubkeysSeparate := by
  -- a sub-key is the input nonce followed by the front half of the master key
  have hsub : ∀ nonce : Bytes, nonce.length = 16 →
      (maskCipher.tabled log).encKey (List.replicate 16 1 ++ List.replicate 16 2) nonce =
        nonce ++ List.replicate 16 1 := by
    intro nonce hlen
    show ((nonce ++ (List.replicate 16 1 ++ List.replicate 16 2)) ++ encInfo
      ++ List.replicate 32 0).take 32 = nonce ++ List.replicate 16 1
    simp only [List.append_assoc]
    rw [← List.append_assoc nonce]
    exact List.take_left' (by rw [List.length_append, hlen, List.length_replicate])
  have hkeys : ∀ K key, (maskCipher.tabled log).getKey K = .ok key →
      key = List.replicate 16 1 ++ List.replicate 16 2 := by
    intro K key h
    exact (Except.ok.inj h).symm
  constructor
  · intro K K' key masterKey nonce hkey hmaster hlen hcollide
    rw [hkeys K key hkey, hkeys K' masterKey hmaster, hsub nonce hlen] at hcollide
    have hback := (List.append_inj hcollide (by rw [hlen, List.length_replicate])).2
    exact absurd hback (by decide)
  · intro K K' masterKey masterKey' nonce nonce' hmaster hmaster' hlen hlen' hsame
    rw [hkeys K masterKey hmaster, hkeys K' masterKey' hmaster', hsub nonce hlen,
      hsub nonce' hlen'] at hsame
    refine ⟨?_, (List.append_inj hsame (by rw [hlen, hlen'])).1⟩
    rw [hkeys K masterKey hmaster, hkeys K' masterKey' hmaster']

/-- A message of profile 1 and one of profile 2. -/
def twoCalls : List EncryptCall :=
  [{ random := fun i => UInt8.ofNat i, plaintext := [4], keyIndex := 0, profile := 1,
     sequenceNumber := 0, destination := List.replicate 53 0 },
   { random := fun i => UInt8.ofNat i, plaintext := [1, 2, 3], keyIndex := 5, profile := 2,
     sequenceNumber := 7, destination := List.replicate 43 0 }]

/-- The bytes of the second message of `twoCalls`. -/
def secondMessage : Bytes :=
  maskCipher.messageS2 (List.replicate 16 1 ++ List.replicate 16 2) (fill (fun i => UInt8.ofNat i) 12)
    [1, 2, 3] 5 7

theorem decrypt_authentic_second :
    ∃ h, Header.parse (secondMessage ++ [9, 9]) = .ok h ∧ ∃ e ∈ twoCalls,
      HonestOutput (maskCipher.tabled (maskCipher.encryptLog twoCalls)) (secondMessage ++ [9, 9])
        [1, 2, 3] h e := by
  refine decrypt_authentic (maskCipher.tabled (maskCipher.encryptLog twoCalls)) twoCalls ?_
    (maskCipher_separate _) (secondMessage ++ [9, 9]) [1, 2, 3] ?_
  · rw [encryptLog_tabled]
    exact tableCrypto_ideal maskCrypto _ _
  · decide +kernel

end ManagedSecurity

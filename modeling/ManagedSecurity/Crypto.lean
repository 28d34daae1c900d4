import ManagedSecurity.Platform

/-! # The cryptographic primitives of the runtime

`AesGcm`, `HKDF` and `IncrementalHash` are not part of the repository. They
are the fields of a `CryptoProvider`, with the output lengths their interfaces
fix; what a result relies on beyond that is one of two named properties:

* `Inverts`: AES-GCM decryption inverts encryption;
* `IdealFor`: under the given keys, a decryption succeeds only on the output
  of one of the listed encryptions, and returns the plaintext of that one.

Both are satisfiable: `maskCrypto` inverts, and `tableCrypto` restricts any
provider to a list of calls for which it is then ideal.
-/

namespace ManagedSecurity

/-- The primitives, with the lengths of their outputs. -/
structure CryptoProvider where
  /-- `AesGcm.Encrypt`: key, nonce, plaintext and associated data to the
  ciphertext and the tag. -/
  gcmEncrypt : Bytes → Bytes → Bytes → Bytes → Bytes × Bytes
  /-- `AesGcm.Decrypt`: key, nonce, ciphertext, tag and associated data to the
  plaintext, or to nothing if the tag does not match. -/
  gcmDecrypt : Bytes → Bytes → Bytes → Bytes → Bytes → Option Bytes
  /-- `HKDF.Extract`: input key and salt to the pseudorandom key. -/
  hkdfExtract : Bytes → Bytes → Bytes
  /-- `HKDF.Expand`: pseudorandom key, output length and info to the output. -/
  hkdfExpand : Bytes → ℕ → Bytes → Bytes
  /-- HMAC-SHA256: key and data to the 32-byte code. -/
  hmac : Bytes → Bytes → Bytes
  length_ciphertext : ∀ key nonce p aad, (gcmEncrypt key nonce p aad).1.length = p.length
  length_tag : ∀ key nonce p aad, (gcmEncrypt key nonce p aad).2.length = 16
  length_plaintext : ∀ key nonce c t aad p, gcmDecrypt key nonce c t aad = some p →
    p.length = c.length
  length_expand : ∀ prk n info, (hkdfExpand prk n info).length = n
  length_hmac : ∀ key data, (hmac key data).length = 32

/-- The inputs of one call of `AesGcm.Encrypt`. -/
structure GcmCall where
  key : Bytes
  nonce : Bytes
  plaintext : Bytes
  aad : Bytes
deriving DecidableEq, Repr

namespace CryptoProvider

variable (P : CryptoProvider)

/-- The output of a call: the ciphertext and the tag. -/
def output (g : GcmCall) : Bytes × Bytes := P.gcmEncrypt g.key g.nonce g.plaintext g.aad

/-- AES-GCM decryption inverts encryption. -/
def Inverts : Prop :=
  ∀ key nonce p aad,
    P.gcmDecrypt key nonce (P.gcmEncrypt key nonce p aad).1 (P.gcmEncrypt key nonce p aad).2 aad
      = some p

/-- The output of the call decrypts to its plaintext. -/
def Opens (g : GcmCall) : Prop :=
  P.gcmDecrypt g.key g.nonce (P.output g).1 (P.output g).2 g.aad = some g.plaintext

theorem Inverts.opens {P : CryptoProvider} (h : P.Inverts) (g : GcmCall) : P.Opens g := h _ _ _ _

/-- Ideal authenticated encryption under the keys in `keys`, all of whose
encryptions are the calls in `log`. -/
def IdealFor (keys : Set Bytes) (log : List GcmCall) : Prop :=
  ∀ key ∈ keys, ∀ nonce c t aad p, P.gcmDecrypt key nonce c t aad = some p →
    ∃ g ∈ log, g.key = key ∧ g.nonce = nonce ∧ g.aad = aad ∧ g.plaintext = p ∧
      P.output g = (c, t)

end CryptoProvider

/-- `AesGcm` takes 128-, 192- and 256-bit keys and throws for any other. -/
def validKey (key : Bytes) : Prop := key.length = 16 ∨ key.length = 24 ∨ key.length = 32

instance (key : Bytes) : Decidable (validKey key) := inferInstanceAs (Decidable (_ ∨ _ ∨ _))

/-! ## Providers that satisfy the assumptions -/

/-- A rolling checksum of a byte string, below `2 ^ 128`. -/
def checksum (bs : Bytes) : ℕ := bs.foldl (fun acc b => (acc * 257 + b.toNat + 1) % 2 ^ 128) 0

/-- The byte that masks every byte of a plaintext. -/
def maskByte (key nonce : Bytes) : UInt8 := (key ++ nonce).foldl (· + ·) 0

/-- The tag over all inputs of an encryption. -/
def maskTag (key nonce c aad : Bytes) : Bytes :=
  Bytes.beBytes 16 (checksum (key ++ nonce ++ aad ++ c))

/-- A provider that masks the plaintext with one byte and uses a checksum of
all inputs as its tag and as its message code. -/
def maskCrypto : CryptoProvider where
  gcmEncrypt key nonce p aad :=
    let c := p.map (· ^^^ maskByte key nonce)
    (c, maskTag key nonce c aad)
  gcmDecrypt key nonce c t aad :=
    if t = maskTag key nonce c aad then some (c.map (· ^^^ maskByte key nonce)) else none
  hkdfExtract ikm salt := salt ++ ikm
  hkdfExpand prk n info := (prk ++ info ++ List.replicate n 0).take n
  hmac key data := Bytes.beBytes 32 (checksum (key ++ data))
  length_ciphertext := by simp
  length_tag := by simp [maskTag]
  length_plaintext := by
    intro key nonce c t aad p h
    split_ifs at h
    rw [← Option.some.inj h, List.length_map]
  length_expand := by
    intro prk n info
    rw [List.length_take, List.length_append, List.length_replicate]
    omega
  length_hmac := by simp

theorem maskCrypto_inverts : maskCrypto.Inverts := by
  intro key nonce p aad
  have hmask : ∀ b : UInt8, (b ^^^ maskByte key nonce) ^^^ maskByte key nonce = b := by
    intro b
    rw [UInt8.xor_assoc, UInt8.xor_self, UInt8.xor_zero]
  have hmap : (p.map (· ^^^ maskByte key nonce)).map (· ^^^ maskByte key nonce) = p := by
    rw [List.map_map]
    conv_rhs => rw [← List.map_id p]
    exact List.map_congr_left (fun b _ => hmask b)
  have htag : maskCrypto.gcmEncrypt key nonce p aad =
      (p.map (· ^^^ maskByte key nonce),
        maskTag key nonce (p.map (· ^^^ maskByte key nonce)) aad) := rfl
  rw [htag]
  show (if maskTag key nonce _ aad = maskTag key nonce _ aad then some _ else none) = some p
  rw [if_pos rfl, hmap]

/-- The call `g` made the ciphertext and the tag under this key, nonce and
associated data. -/
def GcmCall.Produced (P : CryptoProvider) (key nonce c t aad : Bytes) (g : GcmCall) : Prop :=
  g.key = key ∧ g.nonce = nonce ∧ g.aad = aad ∧ P.output g = (c, t)

instance (P : CryptoProvider) (key nonce c t aad : Bytes) (g : GcmCall) :
    Decidable (g.Produced P key nonce c t aad) := inferInstanceAs (Decidable (_ ∧ _ ∧ _ ∧ _))

/-- The first call in `log` that made the ciphertext and the tag. -/
def lookupCall (P : CryptoProvider) (log : List GcmCall) (key nonce c t aad : Bytes) :
    Option GcmCall :=
  log.find? fun g => decide (g.Produced P key nonce c t aad)

theorem lookupCall_some {P : CryptoProvider} {log : List GcmCall} {key nonce c t aad : Bytes}
    {g : GcmCall} (h : lookupCall P log key nonce c t aad = some g) :
    g ∈ log ∧ g.Produced P key nonce c t aad := by
  constructor
  · exact List.mem_of_find?_eq_some h
  · have hp : decide (g.Produced P key nonce c t aad) = true :=
      List.find?_some (p := fun g => decide (GcmCall.Produced P key nonce c t aad g)) h
    exact of_decide_eq_true hp

/-- The provider `P` in which only the outputs of the calls in `log` decrypt. -/
def tableCrypto (P : CryptoProvider) (log : List GcmCall) : CryptoProvider where
  gcmEncrypt := P.gcmEncrypt
  gcmDecrypt key nonce c t aad := (lookupCall P log key nonce c t aad).map GcmCall.plaintext
  hkdfExtract := P.hkdfExtract
  hkdfExpand := P.hkdfExpand
  hmac := P.hmac
  length_ciphertext := P.length_ciphertext
  length_tag := P.length_tag
  length_plaintext := by
    intro key nonce c t aad p h
    rcases Option.map_eq_some_iff.mp h with ⟨g, hg, rfl⟩
    rcases lookupCall_some hg with ⟨-, -, -, -, hout⟩
    have hlen := P.length_ciphertext g.key g.nonce g.plaintext g.aad
    have hpair : P.gcmEncrypt g.key g.nonce g.plaintext g.aad = (c, t) := hout
    rw [hpair] at hlen
    exact hlen.symm
  length_expand := P.length_expand
  length_hmac := P.length_hmac

theorem tableCrypto_ideal (P : CryptoProvider) (keys : Set Bytes) (log : List GcmCall) :
    (tableCrypto P log).IdealFor keys log := by
  intro key _ nonce c t aad p h
  rcases Option.map_eq_some_iff.mp h with ⟨g, hg, rfl⟩
  rcases lookupCall_some hg with ⟨hmem, hkey, hnonce, haad, hout⟩
  exact ⟨g, hmem, hkey, hnonce, haad, rfl, hout⟩

end ManagedSecurity

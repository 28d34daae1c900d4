import ManagedSecurity.Header
import ManagedSecurity.Crypto

/-! # The cipher (`Cipher`)

`Encrypt` and `Decrypt` for the three profiles. The destination span is the
state of the program, so that what an exception leaves behind in it is part of
the model. The plaintext of an encryption may be a window of the destination
itself (the stream encrypts in place); it is read at the moment the primitive
reads it. An encryption returns the call of `AesGcm.Encrypt` it has made.
-/

namespace ManagedSecurity

open Outcome

/-- `IAsyncDecryptor`: decryption kernels supplied from outside; they see the
parsed header, the message and the key, and fill the destination. -/
structure AsyncDecryptor where
  decryptS0 : Header → Bytes → Bytes → SpanM Unit
  decryptS2 : Header → Bytes → Bytes → SpanM Unit

/-- The cipher: the primitives, the key provider and the optional kernel. -/
structure Cipher where
  crypto : CryptoProvider
  getKey : ℤ → Except Exn Bytes
  asyncDecryptor : Option AsyncDecryptor

/-- The plaintext argument: a span of its own, or a window of the destination. -/
inductive PlainSpan where
  | own (bytes : Bytes)
  | window (offset length : ℕ)
deriving DecidableEq, Repr

namespace PlainSpan

def length : PlainSpan → ℕ
  | own bytes => bytes.length
  | window _ length => length

/-- What the span shows while the destination has the given content. -/
def read : PlainSpan → Bytes → Bytes
  | own bytes, _ => bytes
  | window offset length, destination => Bytes.slice destination offset length

end PlainSpan

/-- `RandomNumberGenerator.Fill` of a span of `n` bytes. -/
def fill (random : ℕ → UInt8) (n : ℕ) : Bytes := (List.range n).map random

/-- `"ManagedSecurity S1 ENC"u8`. -/
def encInfo : Bytes :=
  [77, 97, 110, 97, 103, 101, 100, 83, 101, 99, 117, 114, 105, 116, 121, 32, 83, 49, 32, 69, 78, 67]

/-- `"ManagedSecurity S1 MAC"u8`. -/
def macInfo : Bytes :=
  [77, 97, 110, 97, 103, 101, 100, 83, 101, 99, 117, 114, 105, 116, 121, 32, 83, 49, 32, 77, 65, 67]

namespace Cipher

variable (c : Cipher)

/-- The encryption sub-key of profile 1. -/
def encKey (masterKey inputNonce : Bytes) : Bytes :=
  c.crypto.hkdfExpand (c.crypto.hkdfExtract masterKey inputNonce) 32 encInfo

/-- The authentication sub-key of profile 1. -/
def authKey (masterKey inputNonce : Bytes) : Bytes :=
  c.crypto.hkdfExpand (c.crypto.hkdfExtract masterKey inputNonce) 32 macInfo

/-- `new Bindings.Header(destination)`. -/
def parseDestination : SpanM Header := do
  let destination ← get
  ofExcept (Header.parse destination)

/-- `RandomNumberGenerator.Fill(h.GetIv(destination))`. -/
def fillIv (random : ℕ → UInt8) (h : Header) : SpanM Unit :=
  writeSpan h.ivOffset h.ivLength (fill random h.ivLength)

/-- `aes.Encrypt(nonce, plaintext, ciphertextDst, tagDst, associatedData)` with
the payload region as `ciphertextDst`; `suffix` is what the source stores
behind the tag. -/
def aesEncrypt (h : Header) (call : GcmCall) (suffix : Bytes) : SpanM GcmCall := do
  ensure ((call.plaintext.length : ℤ) = h.payloadLength) (.argument "")
  writeSpan h.payloadOffset h.payloadLength (c.crypto.output call).1
  writeSpan h.macOffset h.macLength ((c.crypto.output call).2 ++ suffix)
  pure call

/-- `EncryptS0`. -/
def encryptS0 (random : ℕ → UInt8) (plaintext : PlainSpan) (keyIndex : ℤ) : SpanM GcmCall := do
  let key ← ofExcept (c.getKey keyIndex)
  Header.write plaintext.length keyIndex 0
  let h ← parseDestination
  fillIv random h
  let destination ← get
  let nonce ← ofExcept (h.getIv destination)
  let _ ← ofExcept (h.getPayload destination)
  let _ ← ofExcept (h.getMac destination)
  let associatedData ← ofExcept (sliceSpan destination 0 h.ivOffset)
  ensure (validKey key) (.cryptographic "")
  c.aesEncrypt h { key, nonce, plaintext := plaintext.read destination, aad := associatedData } []

/-- `EncryptS1`: the synthetic IV is the front of an HMAC over the associated
data and the plaintext; its first 16 bytes are stored behind the GCM tag. -/
def encryptS1 (random : ℕ → UInt8) (plaintext : PlainSpan) (keyIndex : ℤ) : SpanM GcmCall := do
  let masterKey ← ofExcept (c.getKey keyIndex)
  Header.write plaintext.length keyIndex 1
  let h ← parseDestination
  fillIv random h
  let destination ← get
  let inputNonce ← ofExcept (h.getIv destination)
  let associatedData ← ofExcept (sliceSpan destination 0 (h.ivOffset + h.ivLength : ℕ))
  let _ ← ofExcept (h.getMac destination)
  let message := plaintext.read destination
  let hmacFull := c.crypto.hmac (c.authKey masterKey inputNonce) (associatedData ++ message)
  let _ ← ofExcept (h.getPayload destination)
  let call : GcmCall :=
    { key := c.encKey masterKey inputNonce, nonce := hmacFull.take 12, plaintext := message,
      aad := associatedData }
  c.aesEncrypt h call (hmacFull.take 16)

/-- `EncryptS2`: the sequence number goes into the associated data. -/
def encryptS2 (random : ℕ → UInt8) (plaintext : PlainSpan) (keyIndex : ℤ)
    (sequenceNumber : UInt64) : SpanM GcmCall := do
  let key ← ofExcept (c.getKey keyIndex)
  Header.write plaintext.length keyIndex 2
  let h ← parseDestination
  writeSpan ((h.ivOffset : ℤ) - h.sequenceLength) h.sequenceLength
    (Bytes.beBytes 8 sequenceNumber.toNat)
  fillIv random h
  ensure (validKey key) (.cryptographic "")
  let destination ← get
  let nonce ← ofExcept (h.getIv destination)
  let _ ← ofExcept (h.getPayload destination)
  let _ ← ofExcept (h.getMac destination)
  let seqDst ← ofExcept (h.getSequence destination)
  let headerPart ← ofExcept (sliceSpan destination 0 ((h.ivOffset : ℤ) - h.sequenceLength))
  c.aesEncrypt h { key, nonce, plaintext := plaintext.read destination, aad := headerPart ++ seqDst } []

/-- `Encrypt(plaintext, destination, keyIndex, profile, sequenceNumber)`. -/
def encrypt (random : ℕ → UInt8) (plaintext : PlainSpan) (keyIndex profile : ℤ)
    (sequenceNumber : UInt64) : SpanM GcmCall :=
  if profile = 1 then c.encryptS1 random plaintext keyIndex
  else if profile = 2 then c.encryptS2 random plaintext keyIndex sequenceNumber
  else c.encryptS0 random plaintext keyIndex

/-- `aes.Decrypt(nonce, ciphertext, tag, destination.Slice(0, PayloadLength), associatedData)`;
a tag mismatch clears the plaintext span before it throws. -/
def aesDecrypt (h : Header) (key nonce ciphertext tag associatedData : Bytes) : SpanM Unit := do
  let destination ← get
  let plaintextDst ← ofExcept (sliceSpan destination 0 h.payloadLength)
  match c.crypto.gcmDecrypt key nonce ciphertext tag associatedData with
  | some p => writeSpan 0 h.payloadLength p
  | none =>
    writeSpan 0 h.payloadLength (List.replicate plaintextDst.length 0)
    throw (.cryptographic "The computed authentication tag did not match the input authentication tag.")

/-- `DecryptS0`. -/
def decryptS0 (h : Header) (message : Bytes) : SpanM Unit := do
  let key ← ofExcept (c.getKey h.keyIndex)
  ensure (validKey key) (.cryptographic "")
  let nonce ← ofExcept (h.getIv message)
  let ciphertext ← ofExcept (h.getPayload message)
  let tag ← ofExcept (h.getMac message)
  let associatedData ← ofExcept (sliceSpan message 0 h.ivOffset)
  c.aesDecrypt h key nonce ciphertext tag associatedData

/-- `DecryptS1`: after the GCM check the HMAC is recomputed over the whole
destination span and compared with the stored 16 bytes. -/
def decryptS1 (h : Header) (message : Bytes) : SpanM Unit := do
  let masterKey ← ofExcept (c.getKey h.keyIndex)
  let inputNonce ← ofExcept (h.getIv message)
  let combinedTag ← ofExcept (h.getMac message)
  let gcmTag := combinedTag.take 16
  let hmacStored := Bytes.slice combinedTag 16 16
  let ciphertext ← ofExcept (h.getPayload message)
  let associatedData ← ofExcept (sliceSpan message 0 (h.ivOffset + h.ivLength : ℕ))
  c.aesDecrypt h (c.encKey masterKey inputNonce) (hmacStored.take 12) ciphertext gcmTag associatedData
  let destination ← get
  let hmacComputed := c.crypto.hmac (c.authKey masterKey inputNonce) (associatedData ++ destination)
  if hmacComputed.take 16 = hmacStored then
    pure ()
  else do
    set (List.replicate destination.length (0 : UInt8))
    throw (.cryptographic "SIV HMAC Authentication failed.")

/-- `DecryptS2`. -/
def decryptS2 (h : Header) (message : Bytes) : SpanM Unit := do
  let key ← ofExcept (c.getKey h.keyIndex)
  ensure (validKey key) (.cryptographic "")
  let seq ← ofExcept (h.getSequence message)
  let nonce ← ofExcept (h.getIv message)
  let ciphertext ← ofExcept (h.getPayload message)
  let tag ← ofExcept (h.getMac message)
  let headerPart ← ofExcept (sliceSpan message 0 ((h.ivOffset : ℤ) - h.sequenceLength))
  c.aesDecrypt h key nonce ciphertext tag (headerPart ++ seq)

/-- `Decrypt(message, destination)`: the profile is chosen by the lengths of
the parsed header. -/
def decryptInto (message : Bytes) : SpanM Unit := do
  let h ← ofExcept (Header.parse message)
  if h.ivLength = 12 ∧ h.macLength = 16 ∧ h.sequenceLength = 0 then
    c.decryptS0 h message
  else if h.ivLength = 16 ∧ h.macLength = 32 then
    c.decryptS1 h message
  else if h.ivLength = 12 ∧ h.macLength = 16 ∧ h.sequenceLength = 8 then
    c.decryptS2 h message
  else
    throw (.notSupported
      s!"Unsupported header profile: IV={h.ivLength}, MAC={h.macLength}, Seq={h.sequenceLength}")

/-- `Decrypt(message)`: into a new array of the announced length. -/
def decrypt (message : Bytes) : Except Exn Bytes :=
  match Header.parse message with
  | .error e => .error e
  | .ok h =>
    match newByteArray h.payloadLength with
    | .error e => .error e
    | .ok destination =>
      match c.decryptInto message destination with
      | .ok () plaintext => .ok plaintext
      | .error e _ => .error e

end Cipher

end ManagedSecurity

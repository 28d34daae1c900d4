import ManagedSecurity.WriterLog

/-! # Building a frame in its own buffer

The writer collects a block behind the largest header a block can have. Before a block is
sealed it is moved to where its own header ends, and then source and destination of the
encryption are one buffer.

* `encryptS2_own`: the encryption of a copy, into a destination of its own;
* `in_place_frame`: `buildFrame` comes to the same frame, for whatever is in the buffer.
-/

namespace ManagedSecurity

open Bytes Outcome ManagedSecurityStream

/-- There is a key under the index that AES takes. -/
def Cipher.Usable (c : Cipher) (K : ℕ) : Prop := ∃ key, c.getKey K = .ok key ∧ validKey key

section

variable {c : Cipher} {random : ℕ → ℕ → UInt8} {s : ManagedSecurityStream} {p dest : Bytes} {K : ℕ}

/-- The encryption of a copy: the frame stands at the front of the destination. -/
theorem encryptS2_own {key : Bytes} {nonce : ℕ → UInt8} {seq : UInt64} (hkey : c.getKey K = .ok key)
    (hvalid : validKey key) (hp : p.length < 2 ^ 25) (hK : K < 2 ^ 25)
    (hfit : overhead p.length K + p.length ≤ dest.length) :
    c.encryptS2 nonce (.own p) K seq dest =
      .ok (Cipher.callS2 key (fill nonce 12) p K seq)
        (c.messageS2 key (fill nonce 12) p K seq ++ dest.drop (overhead p.length K + p.length)) := by
  rw [← requiredSize_eq] at hfit ⊢
  exact Cipher.encryptS2_eq hkey hvalid rfl hp hK hfit fun _ _ => rfl

/-- Without a usable key nothing is encrypted. -/
theorem encryptS2_unusable (hK : ¬ c.Usable K) (nonce : ℕ → UInt8) (plaintext : PlainSpan)
    (seq : UInt64) (dest : Bytes) : ∃ e d, c.encryptS2 nonce plaintext K seq dest = .error e d := by
  cases hrun : c.encryptS2 nonce plaintext K seq dest with
  | error e d => exact ⟨e, d, rfl⟩
  | ok call d =>
    rcases Cipher.encryptS2_inv hrun with ⟨h, hdr, d₂, hkey, hvalid, -⟩
    exact absurd ⟨call.key, hkey, hvalid⟩ hK

/-- A frame is not built without a usable key either. -/
theorem buildFrame_unusable (hkey : s.keyIndex = K) (hK : ¬ c.Usable K) :
    ∃ e s', buildFrame c random s = .error e s' := by
  cases hrun : buildFrame c random s with
  | error e s' => exact ⟨e, s', rfl⟩
  | ok packet s' =>
    exfalso
    rw [buildFrame, get_bind] at hrun
    rcases bind_eq_ok.mp hrun with ⟨maxSize, s₁, h₁, hrun₁⟩
    rcases ofExcept_eq_ok.mp h₁ with ⟨-, rfl⟩
    rcases bind_eq_ok.mp hrun₁ with ⟨packetSize, s₁, h₂, hrun₂⟩
    rcases ofExcept_eq_ok.mp h₂ with ⟨-, rfl⟩
    rcases bind_eq_ok.mp hrun₂ with ⟨u, s₁, hshift, hrun₃⟩
    rcases bind_eq_ok.mp hrun₃ with ⟨u', s₂, hencrypt, -⟩
    -- the shift leaves the key index alone
    rcases (shift_sat (maxSize - s.chunkSize) (packetSize - s.bufferPos)).of_ok hshift with
      ⟨b, rfl, -⟩
    rw [encryptFrameSync, get_bind] at hencrypt
    rcases bind_eq_ok.mp hencrypt with ⟨window, s₃, hslice, hencrypt₁⟩
    rcases ofExcept_eq_ok.mp hslice with ⟨-, rfl⟩
    rw [modify_bind] at hencrypt₁
    rcases bind_eq_ok.mp hencrypt₁ with ⟨call, s₃, hcall, -⟩
    rcases zoom_eq_ok.mp hcall with ⟨d, hseal, -⟩
    have hindex : c.encryptS2 (random s.fills)
        (.window (packetSize - s.bufferPos).toNat s.bufferPos) K s.sequenceNumber b = .ok call d := by
      rw [← hkey]
      exact hseal
    rcases encryptS2_unusable hK (random s.fills)
      (.window (packetSize - s.bufferPos).toNat s.bufferPos) s.sequenceNumber b with ⟨e, d', hthrow⟩
    cases hthrow.symm.trans hindex

end

/-- The header of a frame that has been built says where its payload starts. -/
theorem Sealer.sealed_header (S : Sealer) (s : ManagedSecurityStream) {p : Bytes}
    (hp : p.length < 2 ^ 25) :
    ∃ h, Header.parse (S.sealed s p).buffer = .ok h ∧
      h.payloadOffset = overhead p.length S.keyIndex ∧ h.payloadLength = p.length := by
  refine ⟨builtHeader p.length S.keyIndex 2, ?_, rfl, rfl⟩
  set rest := s.buffer.drop (overhead p.length S.keyIndex + p.length) with hrest
  have hform : (S.sealed s p).buffer = S.frameFor s p ++ rest := rfl
  rw [hform, Sealer.frameFor, Cipher.messageS2]
  simp only [List.append_assoc]
  exact parse_headerBytes _ hp S.keyIndex_lt le_rfl

/-- Moving a block of `n` bytes from behind the largest header to behind its own, and
encrypting it where it then stands, leaves the frame that the encryption of a separate copy
leaves in a separate destination, whatever else is in the buffer. The header is no larger
than the one that was reserved, it ends where the header of the frame says, and the bytes
that are encrypted are those that were collected. -/
theorem in_place_frame (c : Cipher) (random : ℕ → ℕ → UInt8) (s : ManagedSecurityStream)
    (chunkSize K n : ℕ) (separate : Bytes) (hpos : 1 ≤ chunkSize) (hchunk : chunkSize < 2 ^ 25)
    (hK : K < 2 ^ 25) (hn : n ≤ chunkSize) (hsize : s.chunkSize = chunkSize) (hkey : s.keyIndex = K)
    (hcount : s.bufferPos = n) (hbuffer : s.buffer.length = overhead chunkSize K + chunkSize)
    (hseparate : overhead n K + n ≤ separate.length) :
    overhead n K ≤ overhead chunkSize K ∧
    getRequiredSize chunkSize K profileId = .ok (overhead chunkSize K + chunkSize : ℕ) ∧
    getRequiredSize n K profileId = .ok (overhead n K + n : ℕ) ∧
    (c.Usable K → ∃ call frame s',
      c.encryptS2 (random s.fills) (.own (slice s.buffer (overhead chunkSize K) n)) K
          s.sequenceNumber separate = .ok call (frame ++ separate.drop (overhead n K + n)) ∧
        buildFrame c random s = .ok frame s' ∧
        s'.buffer.take (overhead n K + n) = frame ∧
        s'.gcmCalls = s.gcmCalls ++ [call] ∧
        call.plaintext = slice s.buffer (overhead chunkSize K) n ∧
        ∃ h, Header.parse s'.buffer = .ok h ∧ h.payloadOffset = overhead n K ∧ h.payloadLength = n) ∧
    (¬ c.Usable K →
      (∃ e d, c.encryptS2 (random s.fills) (.own (slice s.buffer (overhead chunkSize K) n)) K
          s.sequenceNumber separate = .error e d) ∧
        ∃ e s', buildFrame c random s = .error e s') := by
  have hmono := overhead_mono K hn
  refine ⟨hmono, getRequiredSize_frame hchunk hK, getRequiredSize_frame (by omega) hK, ?_, ?_⟩
  · rintro ⟨key, hprovided, hvalid⟩
    set pending := slice s.buffer (overhead chunkSize K) n with hpending
    have hlen : pending.length = n := length_slice_of_le (by omega)
    have hsealer : ∃ S : Sealer, S.cipher = c ∧ S.key = key ∧ S.random = random ∧
        S.keyIndex = K ∧ S.chunkSize = chunkSize :=
      ⟨⟨c, key, random, K, chunkSize, s.sequenceNumber, hprovided, hvalid, hK, hpos, hchunk⟩,
        rfl, rfl, rfl, rfl, rfl⟩
    rcases hsealer with ⟨S, rfl, rfl, rfl, rfl, rfl⟩
    have hw : S.Waits s pending := {
      keyIndex := hkey
      chunkSize := hsize
      buffer := hbuffer
      count := hcount.trans hlen.symm
      fits := by
        rw [hlen]
        exact hn
      plaintext := by
        rw [hlen] }
    have hframe : (S.frameFor s pending).length = overhead n S.keyIndex + n := by
      rw [Sealer.length_frameFor, hlen]
    have hcopy : S.cipher.encryptS2 (S.random s.fills) (.own pending) S.keyIndex s.sequenceNumber
        separate = .ok (S.callFor s pending)
          (S.frameFor s pending ++ separate.drop (overhead n S.keyIndex + n)) := by
      rw [← hlen] at hseparate ⊢
      exact encryptS2_own hprovided hvalid (by omega) hK hseparate
    have hheader := S.sealed_header s (p := pending) (by omega)
    rw [hlen] at hheader
    refine ⟨S.callFor s pending, S.frameFor s pending, S.sealed s pending, hcopy, buildFrame_eq hw,
      ?_, rfl, rfl, hheader⟩
    show (S.frameFor s pending ++ s.buffer.drop _).take (overhead n S.keyIndex + n) = _
    exact List.take_left' hframe
  · intro hunusable
    exact ⟨encryptS2_unusable hunusable _ _ _ _, buildFrame_unusable hkey hunusable⟩

/-- Two bytes wait in a stream with blocks of 2048, whose largest header has an extension byte
that the header of the two bytes does not have. -/
def boundaryStream : ManagedSecurityStream where
  innerStream := .sink true
  mode := .encrypt
  keyIndex := (1 : ℕ)
  chunkSize := (2048 : ℕ)
  metadata := none
  seekTableOffset := 0
  buffer := List.replicate (overhead 2048 1 + 2048) 7
  bufferPos := 2
  sequenceNumber := 5
  isHeaderProcessed := true
  isFinalBlockProcessed := false
  leaveOpen := false
  seekPoints := []
  readBufferOffset := 0
  readBufferCount := 0
  fills := 0
  gcmCalls := []
  framesDecrypted := []

theorem in_place_frame_boundary :
    overhead 2 1 + 1 = overhead 2048 1 ∧
      ∃ call frame s', maskCipher.encryptS2 (fun i => UInt8.ofNat i)
          (.own (slice boundaryStream.buffer (overhead 2048 1) 2)) (1 : ℕ) 5 (List.replicate 42 0) =
            .ok call (frame ++ (List.replicate 42 0).drop (overhead 2 1 + 2)) ∧
        buildFrame maskCipher (fun _ i => UInt8.ofNat i) boundaryStream = .ok frame s' ∧
        call.plaintext = slice boundaryStream.buffer (overhead 2048 1) 2 := by
  refine ⟨rfl, ?_⟩
  have husable : maskCipher.Usable 1 :=
    ⟨List.replicate 16 1 ++ List.replicate 16 2, rfl, by decide⟩
  rcases (in_place_frame maskCipher (fun _ i => UInt8.ofNat i) boundaryStream 2048 1 2
    (List.replicate 42 0) (by decide) (by decide) (by decide) (by decide) rfl rfl rfl
    List.length_replicate (by decide)).2.2.2.1 husable with
    ⟨call, frame, s', hcopy, hbuild, -, -, hplain, -⟩
  exact ⟨call, frame, s', hcopy, hbuild, hplain⟩

end ManagedSecurity

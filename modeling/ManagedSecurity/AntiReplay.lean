import ManagedSecurity.WriterLog
import ManagedSecurity.Authenticity

/-! # No replay, no reordering

The reader is given any byte string. What it accepts was encrypted by the writer
(the primitive is ideal, and nobody else has used the keys), and the sequence
number it expects is bound to the frame by the associated data; so the payload
it accepts next is the next one of the writer.

* `frame_authentic`: a frame that is decrypted and validated;
* `tryReadNextFrame_sat`, `readLoop_sat`, `read_sat`: the invariant `Accepting`,
  kept by every way a call can end;
* `accepts_in_order`: whole runs of a reader against whole runs of a
  writer.
-/

namespace ManagedSecurity

open Bytes Outcome ManagedSecurityStream

/-- The keys the provider hands out. -/
def Cipher.providedKeys (c : Cipher) : Set Bytes := {key | ∃ K, c.getKey K = .ok key}

namespace ManagedSecurityStream

variable {s s' m m₁ m₂ : ManagedSecurityStream} {c : Cipher} {h : Header} {u : Unit}

/-! ## A frame that is accepted -/

/-- The step has changed nothing but the inner stream and the buffer. -/
def Kept (s s' : ManagedSecurityStream) : Prop :=
  ∃ inner b, s' = { s with innerStream := inner, buffer := b }

theorem Kept.refl (s : ManagedSecurityStream) : Kept s s := ⟨s.innerStream, s.buffer, rfl⟩

theorem Kept.trans (h₁ : Kept s m) (h₂ : Kept m s') : Kept s s' := by
  rcases h₁ with ⟨inner, b, rfl⟩
  rcases h₂ with ⟨inner', b', rfl⟩
  exact ⟨inner', b', rfl⟩

theorem onFill_kept {α : Type} (x : FillM α) :
    Sat (onFill x s) (fun a s' => onFill x s = .ok a s' ∧ Kept s s') (fun _ s' => Kept s s') := by
  cases hx : x (s.innerStream, s.buffer) with
  | ok a t =>
    rw [onFill_ok hx]
    exact ⟨rfl, t.1, t.2, rfl⟩
  | error e t =>
    rw [onFill_error hx]
    exact ⟨t.1, t.2, rfl⟩

/-- What is decrypted is the front of the buffer, and the rest of the buffer is
the destination. -/
theorem decryptFrameSync_sat (h : Header) :
    Sat (decryptFrameSync c h m)
      (fun _ m₁ => ∃ message plaintext, sliceSpan m.buffer 0 h.totalLength = .ok message ∧
        0 ≤ h.totalLength - h.payloadLength ∧
        h.totalLength - h.payloadLength ≤ m.buffer.length ∧
        c.decryptInto message (m.buffer.drop (h.totalLength - h.payloadLength).toNat) =
          .ok () plaintext ∧
        m₁ = { m with
          buffer := m.buffer.take (h.totalLength - h.payloadLength).toNat ++ plaintext })
      (fun _ m₁ => Kept m m₁) := by
  rw [decryptFrameSync, get_bind, sat_bind, sat_ofExcept]
  refine ⟨fun message hmessage => ?_, fun _ _ => Kept.refl m⟩
  rw [sat_bind, sat_ensure]
  refine ⟨fun hrange => ?_, fun _ => Kept.refl m⟩
  rw [sat_zoom]
  cases hrun : c.decryptInto message (m.buffer.drop (h.totalLength - h.payloadLength).toNat) with
  | ok u plaintext => exact ⟨message, plaintext, hmessage, hrange.1, hrange.2, hrun, rfl⟩
  | error e plaintext => exact ⟨m.innerStream, _, rfl⟩

/-- A frame is accepted when its sequence number is the expected one. -/
theorem validateFrameAndSetBuffer_sat (h : Header) :
    Sat (validateFrameAndSetBuffer h m)
      (fun _ m₁ => ∃ sequence, h.getSequence m.buffer = .ok sequence ∧ 8 ≤ sequence.length ∧
        UInt64.ofNat (beNat (sequence.take 8)) = m.sequenceNumber ∧
        m₁ = { m with
          readBufferOffset := (h.totalLength - h.payloadLength).toNat
          readBufferCount := h.payloadLength.toNat
          sequenceNumber := m.sequenceNumber + 1
          framesDecrypted := m.framesDecrypted ++
            [slice m.buffer (h.totalLength - h.payloadLength).toNat h.payloadLength.toNat] })
      (fun _ m₁ => m₁ = m) := by
  rw [validateFrameAndSetBuffer, get_bind, sat_bind, sat_ofExcept]
  refine ⟨fun sequence hget => ?_, fun _ _ => rfl⟩
  rw [sat_bind, sat_ensure]
  refine ⟨fun hlen => ?_, fun _ => rfl⟩
  rw [sat_bind, sat_ensure]
  refine ⟨fun hseq => ?_, fun _ => rfl⟩
  exact ⟨sequence, hget, hlen, hseq, rfl⟩

/-- A message with a sequence number is opened as profile 2. -/
theorem decryptInto_opened {message d d' : Bytes} (hparse : Header.parse message = .ok h)
    (hseq : 0 < h.sequenceLength) (hrun : c.decryptInto message d = .ok u d') :
    ∃ key nonce ct tag aad p, Cipher.Opened c h message d d' key nonce ct tag aad p := by
  rcases parse_sequenceLength hparse hseq with ⟨h8, h12, h16⟩
  rw [Cipher.decryptInto, hparse, bind_ok (ofExcept_ok h d)] at hrun
  rw [if_neg (by omega), if_neg (by omega), if_pos ⟨h12, h16, h8⟩] at hrun
  exact Cipher.decryptS2_inv hparse h8 hrun

/-- A payload with the number `k` in its associated data is one that `offers` has under
`k`; and there are not too many numbers for the field. -/
structure Offers (log : List GcmCall) (offers : ℕ → Bytes → Prop) : Prop where
  sealed : ∀ g ∈ log, ∀ front k, k < 2 ^ 64 →
    g.aad = front ++ beBytes 8 (UInt64.ofNat k).toNat → offers k g.plaintext
  bounded : ∃ n < 2 ^ 64, ∀ k p, offers k p → k < n

/-- A numbered log offers the payload of each call under the number of the call. -/
theorem offers_of_numbered {log : List GcmCall} (hnum : Numbered log) (hcount : log.length < 2 ^ 64) :
    Offers log fun k p => (log.map GcmCall.plaintext)[k]? = some p := by
  constructor
  · intro g hg front k hk haad
    rcases List.getElem_of_mem hg with ⟨i, hi, rfl⟩
    rcases hnum i log[i] (List.getElem?_eq_getElem hi) with ⟨front', haad'⟩
    have hback : beBytes 8 (UInt64.ofNat k).toNat = beBytes 8 (UInt64.ofNat i).toNat := by
      refine (List.append_inj' (haad.symm.trans haad') ?_).2
      rw [length_beBytes, length_beBytes]
    have hnat := congrArg beNat hback
    rw [beNat_beBytes, beNat_beBytes, UInt64.toNat_ofNat', UInt64.toNat_ofNat'] at hnat
    obtain rfl : k = i := by omega
    rw [List.getElem?_map, List.getElem?_eq_getElem hi]
    rfl
  · refine ⟨log.length, hcount, ?_⟩
    intro k p hp
    rcases List.getElem?_eq_some_iff.mp hp with ⟨hlt, -⟩
    rwa [List.length_map] at hlt

/-- A word of eight bytes is written as it was read. -/
theorem beBytes_ofNat_beNat {bytes : Bytes} (hlen : bytes.length = 8) :
    beBytes 8 (UInt64.ofNat (beNat (bytes.take 8))).toNat = bytes := by
  have hlt := beNat_lt bytes
  rw [hlen] at hlt
  have hbytes := beBytes_beNat bytes
  rw [hlen] at hbytes
  have hall : bytes.take 8 = bytes := List.take_of_length_le (by omega)
  rw [hall, UInt64.toNat_ofNat', Nat.mod_eq_of_lt (by omega), hbytes]

/-- The sequence number is read from the bytes in front of the payload, which a decryption
leaves alone. -/
theorem getSequence_kept {buffer plaintext sequence : Bytes} (hparse : Header.parse buffer = .ok h)
    (hlen8 : h.sequenceLength = 8) (htake : (buffer.take h.payloadOffset).length = h.payloadOffset)
    (hget : h.getSequence (buffer.take h.payloadOffset ++ plaintext) = .ok sequence) :
    sequence = slice buffer (h.ivOffset - 8) 8 := by
  rcases parse_adjacent hparse with ⟨hadj₁, hadj₂, -, hoff⟩
  rw [Header.getSequence, if_pos (by omega), hlen8] at hget
  rcases sliceSpan_eq_ok.mp hget with ⟨-, rfl⟩
  have hstart : ((h.ivOffset : ℤ) - (8 : ℕ)).toNat = h.ivOffset - 8 := by omega
  rw [hstart, Int.toNat_natCast, slice_append_left (by omega), ← slice_zero buffer,
    slice_slice _ (by omega), Nat.zero_add]

/-- A frame that is decrypted and validated is one that is offered under the number the
reader expects. -/
theorem frame_authentic {log : List GcmCall} {offers : ℕ → Bytes → Prop} {k : ℕ}
    {message plaintext sequence : Bytes} (hideal : c.crypto.IdealFor c.providedKeys log)
    (hoffers : Offers log offers) (hk : k < 2 ^ 64) (hparse : Header.parse m.buffer = .ok h)
    (hmessage : sliceSpan m.buffer 0 h.totalLength = .ok message)
    (hdecrypt : c.decryptInto message (m.buffer.drop (h.totalLength - h.payloadLength).toNat) =
      .ok u plaintext)
    (hget : h.getSequence (m.buffer.take (h.totalLength - h.payloadLength).toNat ++ plaintext) =
      .ok sequence)
    (h8 : 8 ≤ sequence.length)
    (hseq : UInt64.ofNat (beNat (sequence.take 8)) = UInt64.ofNat k) :
    offers k (slice (m.buffer.take (h.totalLength - h.payloadLength).toNat ++ plaintext)
      (h.totalLength - h.payloadLength).toNat h.payloadLength.toNat) := by
  have hnumbered : 0 < h.sequenceLength := by
    by_contra hnone
    rw [Header.getSequence, if_neg hnone] at hget
    rw [← Except.ok.inj hget, List.length_nil] at h8
    omega
  rcases parse_sequenceLength hparse hnumbered with ⟨hlen8, -, -⟩
  rcases parse_adjacent hparse with ⟨hadj₁, hadj₂, htotal, hoff⟩
  rcases sliceSpan_eq_ok.mp hmessage with ⟨⟨-, hpos, hfit⟩, hmessage⟩
  rw [Int.toNat_zero, slice_zero] at hmessage
  have hparse' : Header.parse message = .ok h := by
    cases hother : Header.parse message with
    | error e =>
      rw [Cipher.decryptInto, hother] at hdecrypt
      cases hdecrypt
    | ok h' =>
      rw [hmessage] at hother
      exact (parse_of_take hother).symm.trans hparse
  rcases decryptInto_opened hparse' hnumbered hdecrypt with ⟨key, nonce, ct, tag, aad, p, hopen⟩
  obtain ⟨g, hg, -, -, hgaad, hgplain, -⟩ :=
    hideal key ⟨h.keyIndex, hopen.provided⟩ nonce ct tag aad p hopen.accepted
  have hpayload := hopen.payload
  have hsize : (h.totalLength - h.payloadLength).toNat = h.payloadOffset := by omega
  rw [hsize] at hget ⊢
  have htake : (m.buffer.take h.payloadOffset).length = h.payloadOffset := by
    rw [List.length_take]
    omega
  have hsequence : sequence = slice m.buffer (h.ivOffset - 8) 8 := getSequence_kept hparse hlen8 htake hget
  have hlen : sequence.length = 8 := by
    rw [hsequence]
    exact length_slice_of_le (by omega)
  have haad : g.aad = m.buffer.take (h.ivOffset - 8) ++
      beBytes 8 (UInt64.ofNat (beNat (sequence.take 8))).toNat := by
    rw [beBytes_ofNat_beNat hlen, hsequence, ← take_add_slice, hgaad, hopen.front, hmessage,
      List.take_take, Nat.min_eq_left (by omega), Nat.sub_add_cancel (by omega)]
  rw [hseq] at haad
  have hoffered := hoffers.sealed g hg _ k hk haad
  have hnat : h.payloadLength.toNat = p.length := by omega
  have hfront : overwrite (m.buffer.drop h.payloadOffset) 0 p =
      p ++ (m.buffer.drop h.payloadOffset).drop p.length := by
    rw [overwrite, List.take_zero, List.nil_append, Nat.zero_add]
  have hshown : slice (m.buffer.take h.payloadOffset ++ plaintext) h.payloadOffset
      h.payloadLength.toNat = g.plaintext := by
    rw [hgplain, hopen.result, hsize, hfront, hnat]
    exact slice_middle _ _ _ htake.symm rfl
  rw [hshown]
  exact hoffered

/-! ## The invariant of the reader -/

/-- Each payload accepted so far is offered under its place, the next sequence
number is their count, and what is still buffered is the end of them; `out` is
what has been served. -/
structure Accepting (offers : ℕ → Bytes → Prop) (out : Bytes) (s : ManagedSecurityStream) :
    Prop where
  accepted : ∀ i p, s.framesDecrypted[i]? = some p → offers i p
  sequence : s.sequenceNumber = UInt64.ofNat s.framesDecrypted.length
  buffered : out ++ slice s.buffer s.readBufferOffset s.readBufferCount = s.framesDecrypted.flatten

/-- With nothing buffered, the buffer may change. -/
theorem Accepting.kept {offers : ℕ → Bytes → Prop} {out : Bytes} (h : s.Accepting offers out)
    (hempty : s.readBufferCount = 0) (hkept : Kept s s') : s'.Accepting offers out := by
  rcases hkept with ⟨inner, b, rfl⟩
  refine ⟨h.accepted, h.sequence, ?_⟩
  have hbuffered := h.buffered
  rw [hempty, slice_len_zero] at hbuffered
  show out ++ slice b s.readBufferOffset s.readBufferCount = _
  rw [hempty, slice_len_zero]
  exact hbuffered

/-- No more payloads have been accepted than there are numbers. -/
theorem Accepting.length_lt {log : List GcmCall} {offers : ℕ → Bytes → Prop} {out : Bytes}
    (h : s.Accepting offers out) (hoffers : Offers log offers) : s.framesDecrypted.length < 2 ^ 64 := by
  rcases hoffers.bounded with ⟨n, hn, hbound⟩
  by_contra hlong
  have hlast : s.framesDecrypted.length - 1 < s.framesDecrypted.length := by omega
  have hlt := hbound _ _ (h.accepted _ _ (List.getElem?_eq_getElem hlast))
  omega

/-- The next payload is accepted: it is all that is buffered. -/
theorem Accepting.accept {offers : ℕ → Bytes → Prop} {out : Bytes} {inner : InnerStream} {b : Bytes}
    {off n : ℕ} (h : s.Accepting offers out) (hempty : s.readBufferCount = 0)
    (hnext : offers s.framesDecrypted.length (slice b off n)) :
    Accepting offers out { s with
      innerStream := inner
      buffer := b
      readBufferOffset := off
      readBufferCount := n
      sequenceNumber := s.sequenceNumber + 1
      framesDecrypted := s.framesDecrypted ++ [slice b off n] } := by
  have hbuffered := h.buffered
  rw [hempty, slice_len_zero, List.append_nil] at hbuffered
  refine ⟨?_, ?_, ?_⟩
  · intro i p hget
    replace hget : (s.framesDecrypted ++ [slice b off n])[i]? = some p := hget
    -- an earlier frame keeps its place; the new one is the last
    rcases Nat.lt_or_ge i s.framesDecrypted.length with hlt | hge
    · rw [List.getElem?_append_left hlt] at hget
      exact h.accepted i p hget
    · rw [List.getElem?_append_right hge, List.getElem?_singleton] at hget
      split_ifs at hget with hlast
      obtain rfl : i = s.framesDecrypted.length := by omega
      rw [← Option.some.inj hget]
      exact hnext
  · show s.sequenceNumber + 1 = UInt64.ofNat (s.framesDecrypted ++ [slice b off n]).length
    rw [h.sequence, List.length_append, List.length_singleton, UInt64.ofNat_add]
    rfl
  · show out ++ slice b off n = (s.framesDecrypted ++ [slice b off n]).flatten
    rw [List.flatten_append, List.flatten_singleton, hbuffered]

/-- The rest of a frame is read behind its header. -/
theorem frameData_inv {message : String} {n count : ℕ} (hparse : Header.parse s.buffer = .ok h)
    (hn : n = headerSize (headerWord s.buffer))
    (hfill : onFill (InnerStream.fillSpan message n count) s = .ok u s') :
    Header.parse s'.buffer = .ok h := by
  rcases zoom_eq_ok.mp hfill with ⟨t, hrun, rfl⟩
  rcases InnerStream.fillSpan_inv hrun with ⟨-, -, k, rfl⟩
  rcases parse_eq_ok.mp hparse with ⟨p, haccepts, -⟩
  have hroom := haccepts.extensions
  refine (parse_congr hparse ?_).1
  show (overwrite s.buffer n _).take _ = _
  rw [hn]
  exact take_overwrite_of_le le_rfl hroom

section

variable {log : List GcmCall} {offers : ℕ → Bytes → Prop} {out : Bytes}

/-- Fetching a frame: a payload that is offered next, or none. -/
theorem tryReadNextFrame_sat (hideal : c.crypto.IdealFor c.providedKeys log)
    (hoffers : Offers log offers) (hs : s.Accepting offers out) (hempty : s.readBufferCount = 0) :
    Sat (tryReadNextFrame c s) (fun _ s' => s'.Accepting offers out)
      (fun _ s' => s'.Accepting offers out) := by
  have hkept : ∀ s', Kept s s' → s'.Accepting offers out := fun s' h => hs.kept hempty h
  rw [tryReadNextFrame, get_bind]
  -- the reader stops at the seek table before it reads anything
  by_cases hend : s.atSeekTable
  · rw [if_pos hend]
    exact hs
  rw [if_neg hend, sat_bind]
  refine (onFill_kept readFixedHeader).mono ?_ (fun _ s' h => hkept s' h)
  rintro more s₁ ⟨hfixed, hk₁⟩
  cases more with
  -- the source ended between two frames
  | false => exact hkept s₁ hk₁
  | true =>
    rw [if_neg Bool.noConfusion, get_bind, sat_bind]
    refine (onFill_kept _).mono ?_ (fun _ s' h => hkept s' (hk₁.trans h))
    rintro _ s₂ ⟨hextensions, hk₂⟩
    rcases extensions_inv (readFixedHeader_inv hfixed) hextensions with ⟨hword, -⟩
    rw [get_bind, sat_bind, sat_ofExcept]
    refine ⟨fun h hparse => ?_, fun _ _ => hkept s₂ (hk₁.trans hk₂)⟩
    rw [sat_bind]
    refine (onFill_kept _).mono ?_ (fun _ s' h => hkept s' ((hk₁.trans hk₂).trans h))
    rintro _ m ⟨hdata, hk₃⟩
    have hparse' := frameData_inv hparse (by rw [hword, calculateHeaderExtensions_eq]) hdata
    have hm : Kept s m := (hk₁.trans hk₂).trans hk₃
    rw [sat_bind]
    refine (decryptFrameSync_sat h).mono ?_ (fun _ s' h => hkept s' (hm.trans h))
    rintro _ m₁ ⟨message, plaintext, hmessage, -, -, hdecrypt, rfl⟩
    rw [sat_bind]
    refine (validateFrameAndSetBuffer_sat h).mono ?_ ?_
    swap
    · rintro _ s' rfl
      exact hkept _ (hm.trans ⟨m.innerStream, _, rfl⟩)
    rintro _ m₂ ⟨sequence, hget, h8, hseq, rfl⟩
    -- the frame counts only once its sequence number is the expected one
    have hexpected : m.sequenceNumber = UInt64.ofNat s.framesDecrypted.length := by
      rcases hm with ⟨inner, b, rfl⟩
      exact hs.sequence
    have hnext := frame_authentic hideal hoffers (hs.length_lt hoffers) hparse' hmessage hdecrypt
      hget h8 (hseq.trans hexpected)
    rcases hm with ⟨inner, b, rfl⟩
    exact hs.accept hempty hnext

/-- The loop of `Read`, from any state and with any fuel; `served` was returned
by earlier calls. -/
theorem readLoop_sat (hideal : c.crypto.IdealFor c.providedKeys log) (hoffers : Offers log offers)
    (served : Bytes) (count : ℕ) :
    ∀ (fuel : ℕ) (out : Bytes) (s : ManagedSecurityStream), s.Accepting offers (served ++ out) →
      Sat (readLoop (tryReadNextFrame c) count fuel out s)
        (fun bytes s' => s'.Accepting offers (served ++ bytes))
        (fun _ s' => ∃ lost, s'.Accepting offers lost) := by
  intro fuel
  induction fuel with
  | zero =>
    intro out s hs
    exact ⟨served ++ out, hs⟩
  | succ fuel ih =>
    intro out s hs
    rw [readLoop]
    by_cases hfull : out.length < count
    swap
    · rw [if_neg hfull]
      exact hs
    rw [if_pos hfull, get_bind]
    by_cases hbuffered : 0 < s.readBufferCount
    · rw [if_pos hbuffered, sat_bind, sat_ofExcept]
      refine ⟨fun piece hslice => ?_, fun _ _ => ⟨served ++ out, hs⟩⟩
      rw [modify_bind]
      refine ih _ _ ⟨hs.accepted, hs.sequence, ?_⟩
      -- the piece and what stays buffered are adjacent in the buffer
      rcases sliceSpan_eq_ok.mp hslice with ⟨-, hpiece⟩
      rw [Int.toNat_natCast, Int.toNat_natCast] at hpiece
      set toCopy := min s.readBufferCount (count - out.length) with htoCopy
      have hle : toCopy ≤ s.readBufferCount := min_le_left _ _
      have hjoin := slice_append_slice s.buffer s.readBufferOffset toCopy (s.readBufferCount - toCopy)
      rw [Nat.add_sub_cancel' hle] at hjoin
      show (served ++ (out ++ piece)) ++ slice s.buffer (s.readBufferOffset + toCopy)
        (s.readBufferCount - toCopy) = s.framesDecrypted.flatten
      rw [← hs.buffered, ← hjoin, hpiece]
      simp only [List.append_assoc]
    · rw [if_neg hbuffered, sat_bind]
      refine (tryReadNextFrame_sat hideal hoffers hs (by omega)).mono ?_
        (fun _ s' h => ⟨served ++ out, h⟩)
      intro more s₁ h₁
      cases more with
      | false => exact h₁
      | true =>
        have hmore : ¬ true = false := by decide
        rw [if_neg hmore]
        by_cases hsome : 0 < out.length
        · rw [if_pos hsome]
          exact h₁
        · rw [if_neg hsome]
          exact ih out s₁ h₁

/-- The master header is whatever it is: neither the frames nor the buffer depend
on it. -/
theorem readProtocolHeader_sat (hs : s.Accepting offers out) :
    Sat (readProtocolHeader s) (fun _ s' => s'.Accepting offers out)
      (fun _ s' => s'.Accepting offers out) := by
  -- reading bytes of the header touches no field that the invariant names
  have harray : ∀ (message : String) (n : ℕ) (s : ManagedSecurityStream), s.Accepting offers out →
      Sat (onInner (InnerStream.readArray message n) s) (fun _ s' => s'.Accepting offers out)
        (fun _ s' => s'.Accepting offers out) := by
    intro message n s hs
    rw [onInner, sat_zoom]
    cases InnerStream.readArray message n s.innerStream with
    | ok bytes inner => exact ⟨hs.accepted, hs.sequence, hs.buffered⟩
    | error e inner => exact ⟨hs.accepted, hs.sequence, hs.buffered⟩
  rw [readProtocolHeader, sat_bind]
  refine (harray _ _ s hs).mono ?_ (fun _ _ h => h)
  intro masterData s₁ h₁
  rw [sat_bind, sat_ofExcept]
  refine ⟨fun master _ => ?_, fun _ _ => h₁⟩
  have h₂ : Accepting offers out { s₁ with
      seekTableOffset := master.seekTableOffset
      chunkSize := master.chunkSize } := ⟨h₁.accepted, h₁.sequence, h₁.buffered⟩
  rw [modify_bind, sat_bind, sat_ensure]
  refine ⟨fun _ => ?_, fun _ => h₂⟩
  unfold runIf
  split
  · rw [sat_bind]
    refine (harray _ _ _ h₂).mono ?_ (fun _ _ h => h)
    intro metadata s₃ h₃
    exact ⟨h₃.accepted, h₃.sequence, h₃.buffered⟩
  · exact h₂

/-- One call of `Read`. -/
theorem read_sat (hideal : c.crypto.IdealFor c.providedKeys log) (hoffers : Offers log offers)
    (hs : s.Accepting offers out) (count : ℕ) :
    Sat (ManagedSecurityStream.read c count s) (fun bytes s' => s'.Accepting offers (out ++ bytes))
      (fun _ s' => ∃ lost, s'.Accepting offers lost) := by
  rw [ManagedSecurityStream.read, get_bind, sat_bind, sat_ensure]
  refine ⟨fun _ => ?_, fun _ => ⟨out, hs⟩⟩
  have hloop : ∀ s₁, s₁.Accepting offers out →
      Sat (readLoop (tryReadNextFrame c) count (s₁.readFuel count) [] s₁)
        (fun bytes s' => s'.Accepting offers (out ++ bytes))
        (fun _ s' => ∃ lost, s'.Accepting offers lost) := by
    intro s₁ h₁
    rw [← List.append_nil out] at h₁
    exact readLoop_sat hideal hoffers out count _ [] s₁ h₁
  rw [sat_bind]
  unfold runIf
  split
  · rw [sat_bind]
    refine (readProtocolHeader_sat hs).mono ?_ (fun _ s' h => ⟨out, h⟩)
    intro _ s₁ h₁
    exact hloop _ ⟨h₁.accepted, h₁.sequence, h₁.buffered⟩
  · exact hloop s hs

end

end ManagedSecurityStream

/-! ## Whole runs -/

/-- A writer that counts from 0, over a sink that never fails, makes calls, goes
on after exceptions and is disposed of or not; nothing else was encrypted under
the keys of the provider. A reader that counts from 0 is given any inner stream
and makes any calls of `Read`, also after some have thrown. The payloads it
accepts are the first ones of the writer, in order, and what it returns before
the first exception is the front of what was written. -/
theorem accepts_in_order (c : Cipher) (random : ℕ → ℕ → UInt8) (sink : InnerStream)
    (args : StreamArguments) (calls : List WriteCall) (w w' : ManagedSecurityStream)
    (hwriter : create sink .encrypt args = .ok w) (hfirst : args.initialSequence = 0)
    (hsink : sink.NeverFails)
    (hrun : w' = (attempts (writeCall c random) calls w).2 ∨
      w' = finalState (dispose c random (attempts (writeCall c random) calls w).2))
    (hcount : w'.gcmCalls.length < 2 ^ 64)
    (hideal : c.crypto.IdealFor c.providedKeys w'.gcmCalls)
    (source : InnerStream) (args' : StreamArguments) (s : ManagedSecurityStream)
    (hreader : create source .decrypt args' = .ok s) (hfirst' : args'.initialSequence = 0)
    (sizes : List ℕ) :
    (attempts (read c) sizes s).2.framesDecrypted <+: w'.framed ∧
      returned (attempts (read c) sizes s).1 <+: w'.framed.flatten ∧
      ((∀ r ∈ (attempts (writeCall c random) calls w).1, r = .ok ()) →
        returned (attempts (read c) sizes s).1 <+: writtenBytes calls) := by
  rcases create_sealing hwriter hfirst hsink with ⟨hsealing, base, hpending⟩
  -- the writer
  have hafter : (attempts (writeCall c random) calls w).2.Sealing := sealing_attempts hsealing calls
  have hfinished : Finished (attempts (writeCall c random) calls w).2 w' := by
    rcases hrun with rfl | rfl
    · exact (Extends.refl hafter).finished rfl
    · cases hd : dispose c random (attempts (writeCall c random) calls w).2 with
      | ok u s' => exact (dispose_sat hafter).of_ok hd
      | error e s' => exact (dispose_sat hafter).of_error hd
  have hwritten : (∀ r ∈ (attempts (writeCall c random) calls w).1, r = .ok ()) →
      w'.framed.flatten <+: writtenBytes calls := by
    intro hreturned
    have hextends := extends_attempts calls w hsealing hreturned
    exact hfinished.framed base _ (hextends.pending base [] hpending)
  -- the reader
  let offers : ℕ → Bytes → Prop := fun k p => w'.framed[k]? = some p
  have hoffers : Offers w'.gcmCalls offers := offers_of_numbered hfinished.numbered hcount
  have hinitial : s.Accepting offers [] := by
    rcases create_inv hreader with ⟨size, -, -, rfl⟩
    refine ⟨?_, hfirst', rfl⟩
    intro i p hget
    cases hget
  have hstep : ∀ count out s, s.Accepting offers out →
      Sat (read c count s) (fun bytes s' => s'.Accepting offers (out ++ bytes))
        (fun _ s' => ∃ lost, s'.Accepting offers lost) :=
    fun count out s hs => read_sat hideal hoffers hs count
  have hall : ∃ out, (attempts (read c) sizes s).2.Accepting offers out := by
    refine attempts_invariant (I := fun s => ∃ out, s.Accepting offers out) ?_ sizes s ⟨[], hinitial⟩
    rintro count s ⟨out, hs⟩
    exact (hstep count out s hs).mono (fun bytes _ h => ⟨out ++ bytes, h⟩) (fun _ _ h => h)
  obtain ⟨s', hserved⟩ := returned_invariant (I := fun out s => s.Accepting offers out)
    (fun count out s hs => (hstep count out s hs).mono (fun _ _ h => h) (fun _ _ _ => trivial))
    sizes [] s hinitial
  -- what is accepted in order is a front of what was framed
  have hinitial : ∀ (out : Bytes) (s : ManagedSecurityStream), s.Accepting offers out →
      s.framesDecrypted <+: w'.framed := by
    intro out s hs
    exact List.prefix_iff_getElem?.mpr fun i hi => hs.accepted i _ (List.getElem?_eq_getElem hi)
  have hflat : returned (attempts (read c) sizes s).1 <+: w'.framed.flatten := by
    have hout : returned (attempts (read c) sizes s).1 <+: s'.framesDecrypted.flatten :=
      ⟨_, hserved.buffered⟩
    exact hout.trans (hinitial _ s' hserved).flatten
  rcases hall with ⟨out, hout⟩
  exact ⟨hinitial out _ hout, hflat, fun hreturned => hflat.trans (hwritten hreturned)⟩

/-- The state of the writer of the examples after `Dispose`, with the cipher `c`. -/
def sixBytesWriter (c : Cipher) (w : ManagedSecurityStream) : ManagedSecurityStream :=
  finalState (dispose c maskFour.random (attempts (writeCall c maskFour.random) sixBytes w).2)

/-- The calls of the primitive it has made. -/
def sixBytesLog : List GcmCall :=
  match create (InnerStream.sink true) .encrypt maskFour.arguments with
  | .ok w => (sixBytesWriter maskCipher w).gcmCalls
  | .error _ => []

/-- The cipher of the examples, with nothing else decrypting. -/
def sixBytesCipher : Cipher := maskCipher.tabled sixBytesLog

/-- The archive of the examples, rearranged: the header, the second frame, and the
first frame twice. -/
def replayedSource : InnerStream :=
  let data := maskFour.archive (maskFour.run .initial sixBytes)
  .source (data.take 25 ++ (slice data 69 41 ++ (slice data 25 44 ++ slice data 25 44))) 0

/-- The second frame is refused, the first one is accepted once. -/
theorem accepts_in_order_replayed :
    ∃ w s, create (InnerStream.sink true) .encrypt maskFour.arguments = .ok w ∧
      create replayedSource .decrypt { chunkSize := 4, keyIndex := 5 } = .ok s ∧
      (attempts (read sixBytesCipher) [4, 4, 4] s).2.framesDecrypted = [[1, 2, 3, 4]] ∧
      (attempts (read sixBytesCipher) [4, 4, 4] s).2.framesDecrypted <+:
        (sixBytesWriter sixBytesCipher w).framed := by
  have hwriter : returns (fun w => decide ((sixBytesWriter sixBytesCipher w).gcmCalls = sixBytesLog))
      (create (InnerStream.sink true) .encrypt maskFour.arguments) = true := by
    decide +kernel
  have hreader : returns
      (fun s => decide
        ((attempts (read sixBytesCipher) [4, 4, 4] s).2.framesDecrypted = [[1, 2, 3, 4]]))
      (create replayedSource .decrypt { chunkSize := 4, keyIndex := 5 }) = true := by
    decide +kernel
  have hcount : sixBytesLog.length < 2 ^ 64 := by decide +kernel
  rcases of_returns hwriter with ⟨w, hw, hlog⟩
  rcases of_returns hreader with ⟨s, hs, haccepted⟩
  replace hlog : (sixBytesWriter sixBytesCipher w).gcmCalls = sixBytesLog := of_decide_eq_true hlog
  have horder := accepts_in_order sixBytesCipher maskFour.random (InnerStream.sink true)
    maskFour.arguments sixBytes w (sixBytesWriter sixBytesCipher w) hw rfl ⟨rfl, fun _ => rfl⟩
    (Or.inr rfl) (by rw [hlog]; exact hcount)
    (by rw [hlog]; exact tableCrypto_ideal _ _ _) replayedSource _ s hs rfl [4, 4, 4]
  exact ⟨w, s, hw, hs, of_decide_eq_true haccepted, horder.1⟩

end ManagedSecurity

import ManagedSecurity.Lib.Framing
import ManagedSecurity.CipherRoundTrip
import ManagedSecurity.Stream

/-! # What the writer emits

The calls of a writer refine an abstract framer: the buffer holds what waits, the
sink holds the sealed frames. One lemma for each method says how both change.

* `emitFrame_seals`: one frame is encrypted in place in the shared buffer, before it
  goes to the sink;
* `Archiver.Writes`: the refinement relation between the stream and the framer;
* `write_refines`, `flushToFrame_refines`, `writeCalls_refines`: the methods keep
  it, and a whole run of calls does;
* `dispose_refines`: the archive that is left in the sink.
-/

namespace ManagedSecurity

open Bytes Outcome ManagedSecurityStream

/-! ## Frames in the sink -/

/-- What a writer seals its frames with: a cipher with a usable key for the key
index, the outcomes of the random generator, a chunk size and the sequence number
of the first frame. -/
structure Sealer where
  cipher : Cipher
  key : Bytes
  random : ℕ → ℕ → UInt8
  keyIndex : ℕ
  chunkSize : ℕ
  first : UInt64
  provided : cipher.getKey keyIndex = .ok key
  valid : validKey key
  keyIndex_lt : keyIndex < 2 ^ 25
  chunkSize_pos : 0 < chunkSize
  chunkSize_lt : chunkSize < 2 ^ 25

/-- The size of everything in front of the payload of a frame. -/
def overhead (n K : ℕ) : ℕ := headerLength n K + 36

theorem requiredSize_eq (n K : ℕ) : requiredSize n K 2 = overhead n K + n := by
  have hprofile : builderProfile (2 : ℕ) = ⟨12, 16, 8⟩ := rfl
  simp only [requiredSize, overhead, hprofile]

/-- The size of the frame for `n` bytes, as the stream asks for it. -/
theorem getRequiredSize_frame {n K : ℕ} (hn : n < 2 ^ 25) (hK : K < 2 ^ 25) :
    getRequiredSize n K profileId = .ok ((overhead n K + n : ℕ) : ℤ) := by
  rw [← requiredSize_eq]
  exact getRequiredSize_eq 2 hn hK

theorem overhead_le {m n K L : ℕ} (h : m ≤ n) (h' : K ≤ L) : overhead m K ≤ overhead n L := by
  have := extCount_mono h
  have := extCount_mono h'
  unfold overhead headerLength
  omega

theorem overhead_mono {m n : ℕ} (K : ℕ) (h : m ≤ n) : overhead m K ≤ overhead n K :=
  overhead_le h le_rfl

/-- The frame that a call of the primitive is made for. -/
def Cipher.frameOf (c : Cipher) (g : GcmCall) : Bytes :=
  g.aad ++ (g.nonce ++ ((c.crypto.output g).2 ++ (c.crypto.output g).1))

namespace Sealer

variable (S : Sealer)

/-- The sequence number of the frame with index `i`. -/
def sequence (i : ℕ) : UInt64 := S.first + UInt64.ofNat i

/-- The frame with index `i` and payload `p`. -/
def frame (i : ℕ) (p : Bytes) : Bytes :=
  S.cipher.messageS2 S.key (fill (S.random i) 12) p S.keyIndex (S.sequence i)

/-- The call of `AesGcm.Encrypt` that seals it. -/
def call (i : ℕ) (p : Bytes) : GcmCall :=
  Cipher.callS2 S.key (fill (S.random i) 12) p S.keyIndex (S.sequence i)

/-- The calls that seal successive payloads from the first one on. -/
def calls (ps : List Bytes) : List GcmCall := ps.mapIdx S.call

/-- The bytes of successive frames, the first of which has index `i`. -/
def frames (i : ℕ) : List Bytes → Bytes
  | [] => []
  | p :: ps => S.frame i p ++ frames (i + 1) ps

@[simp] theorem length_frame (i : ℕ) (p : Bytes) :
    (S.frame i p).length = overhead p.length S.keyIndex + p.length := by
  rw [frame, S.cipher.length_messageS2 (length_fill _ _), requiredSize_eq]

theorem frames_append (ps qs : List Bytes) :
    ∀ i, S.frames i (ps ++ qs) = S.frames i ps ++ S.frames (i + ps.length) qs := by
  induction ps with
  | nil =>
    intro i
    rfl
  | cons p ps ih =>
    intro i
    show S.frame i p ++ S.frames (i + 1) (ps ++ qs) = (S.frame i p ++ S.frames (i + 1) ps) ++ _
    rw [ih, List.append_assoc, List.length_cons, Nat.add_assoc, Nat.add_comm 1]

theorem frames_take_drop (ps : List Bytes) {k : ℕ} (hk : k ≤ ps.length) :
    S.frames 0 ps = S.frames 0 (ps.take k) ++ S.frames k (ps.drop k) := by
  have hlen : 0 + (ps.take k).length = k := by
    rw [Nat.zero_add, List.length_take_of_le hk]
  conv_lhs => rw [← List.take_append_drop k ps]
  rw [frames_append, hlen]

theorem frames_snoc (ps : List Bytes) (p : Bytes) (i : ℕ) :
    S.frames i (ps ++ [p]) = S.frames i ps ++ S.frame (i + ps.length) p := by
  rw [frames_append]
  show _ ++ (S.frame (i + ps.length) p ++ []) = _
  rw [List.append_nil]

theorem calls_snoc (ps : List Bytes) (p : Bytes) :
    S.calls (ps ++ [p]) = S.calls ps ++ [S.call ps.length p] :=
  List.mapIdx_concat

/-- The frame of the call that seals it. -/
theorem frameOf_call (i : ℕ) (p : Bytes) : S.cipher.frameOf (S.call i p) = S.frame i p := by
  rw [Cipher.frameOf, frame, Cipher.messageS2, call]
  exact List.append_assoc _ _ _

theorem sequence_succ (i : ℕ) : S.sequence (i + 1) = S.sequence i + 1 := by
  rw [sequence, sequence, UInt64.ofNat_add, ← UInt64.add_assoc]
  rfl

end Sealer

/-! ## Emitting one frame -/

section

variable (S : Sealer)

/-- The plaintext `p` waits in the buffer, behind the largest header. -/
structure Sealer.Waits (s : ManagedSecurityStream) (p : Bytes) : Prop where
  keyIndex : s.keyIndex = S.keyIndex
  chunkSize : s.chunkSize = S.chunkSize
  buffer : s.buffer.length = overhead S.chunkSize S.keyIndex + S.chunkSize
  count : s.bufferPos = p.length
  fits : p.length ≤ S.chunkSize
  plaintext : slice s.buffer (overhead S.chunkSize S.keyIndex) p.length = p

/-- The stream is about to emit `p`: the plaintext stands in the buffer behind the
largest header, and the sink is written at its end. -/
structure Sealer.Loaded (s : ManagedSecurityStream) (p : Bytes) : Prop extends S.Waits s p where
  opened : s.innerStream.closed = false
  reliable : ∀ k, s.innerStream.failing k = false
  atEnd : s.innerStream.position = s.innerStream.data.length

/-- The call of `AesGcm.Encrypt` that seals `p` under the sequence number of the
stream. -/
def Sealer.callFor (s : ManagedSecurityStream) (p : Bytes) : GcmCall :=
  Cipher.callS2 S.key (fill (S.random s.fills) 12) p S.keyIndex s.sequenceNumber

/-- The frame it makes. -/
def Sealer.frameFor (s : ManagedSecurityStream) (p : Bytes) : Bytes :=
  S.cipher.messageS2 S.key (fill (S.random s.fills) 12) p S.keyIndex s.sequenceNumber

@[simp] theorem Sealer.length_frameFor (s : ManagedSecurityStream) (p : Bytes) :
    (S.frameFor s p).length = overhead p.length S.keyIndex + p.length := by
  rw [frameFor, S.cipher.length_messageS2 (length_fill _ _), requiredSize_eq]

/-- The stream between the encryption of `p` and the write to the sink: the frame
stands at the front of the buffer. -/
def Sealer.sealed (s : ManagedSecurityStream) (p : Bytes) : ManagedSecurityStream :=
  { s with
    buffer := S.frameFor s p ++ s.buffer.drop (overhead p.length S.keyIndex + p.length)
    fills := s.fills + 1
    gcmCalls := s.gcmCalls ++ [S.callFor s p] }

/-- The inner stream after a write at its end. -/
def InnerStream.appended (inner : InnerStream) (bytes : Bytes) : InnerStream :=
  { inner with
    data := inner.data ++ bytes
    position := inner.position + bytes.length
    writes := inner.writes + 1 }

theorem copyTo_ok {span bytes : Bytes} {off : ℕ} (h : off + bytes.length ≤ span.length) :
    copyTo off bytes span = .ok () (overwrite span off bytes) := by
  have hrange : 0 ≤ (off : ℤ) ∧ (off : ℤ) ≤ span.length := by omega
  have hroom : (off : ℤ) + bytes.length ≤ span.length := by exact_mod_cast h
  rw [copyTo, get_bind, bind_ok (ensure_true hrange _ _), bind_ok (ensure_true hroom _ _),
    Int.toNat_natCast]
  rfl

variable {S} {s : ManagedSecurityStream} {p : Bytes}

theorem Sealer.length_sealed (hw : S.Waits s p) :
    (S.sealed s p).buffer.length = s.buffer.length := by
  have hmono := overhead_mono S.keyIndex hw.fits
  have hbuffer := hw.buffer
  have hfits := hw.fits
  show (S.frameFor s p ++ s.buffer.drop _).length = _
  rw [List.length_append, Sealer.length_frameFor, List.length_drop]
  omega

/-- The plaintext is moved to where the actual header ends, if that is further to
the left. -/
theorem Sealer.Waits.shift (hw : S.Waits s p) :
    ∃ b, b.length = s.buffer.length ∧ slice b (overhead p.length S.keyIndex) p.length = p ∧
      b.drop (overhead p.length S.keyIndex + p.length) =
        s.buffer.drop (overhead p.length S.keyIndex + p.length) ∧
      (runIf ((overhead p.length S.keyIndex : ℤ) < (overhead S.chunkSize S.keyIndex : ℤ)) (do
        let plaintext ← ofExcept (sliceSpan s.buffer (overhead S.chunkSize S.keyIndex) s.bufferPos)
        onBuffer (copyTo (overhead p.length S.keyIndex) plaintext)) : StreamM Unit) s =
          .ok () { s with buffer := b } := by
  have hmono := overhead_mono S.keyIndex hw.fits
  by_cases hlt : overhead p.length S.keyIndex < overhead S.chunkSize S.keyIndex
  · have hlen := hw.buffer
    have hfits := hw.fits
    have hroom : overhead p.length S.keyIndex + p.length ≤ s.buffer.length := by omega
    refine ⟨overwrite s.buffer (overhead p.length S.keyIndex) p, length_overwrite hroom,
      slice_overwrite_self (by omega), drop_overwrite_of_le le_rfl (by omega), ?_⟩
    have hread : sliceSpan s.buffer (overhead S.chunkSize S.keyIndex) s.bufferPos = .ok p := by
      rw [hw.count, sliceSpan_ok (by omega), hw.plaintext]
    rw [runIf_true (by exact_mod_cast hlt), bind_ok (ofExcept_eq_ok.mpr ⟨hread, rfl⟩)]
    exact zoom_ok (copyTo_ok hroom)
  · refine ⟨s.buffer, rfl, ?_, rfl, ?_⟩
    · have heq : overhead p.length S.keyIndex = overhead S.chunkSize S.keyIndex := by omega
      rw [heq]
      exact hw.plaintext
    · rw [runIf_false (by exact_mod_cast hlt)]
      rfl

/-- The encryption, with a window of its own destination as the plaintext. -/
theorem encryptFrameSync_eq {b : Bytes} (hw : S.Waits s p) (hlen : b.length = s.buffer.length)
    (hplain : slice b (overhead p.length S.keyIndex) p.length = p)
    (hrest : b.drop (overhead p.length S.keyIndex + p.length) =
      s.buffer.drop (overhead p.length S.keyIndex + p.length)) :
    encryptFrameSync S.cipher S.random (overhead p.length S.keyIndex) { s with buffer := b } =
      .ok () (S.sealed s p) := by
  have hpl : p.length < 2 ^ 25 := lt_of_le_of_lt hw.fits S.chunkSize_lt
  have hmono := overhead_mono S.keyIndex hw.fits
  have hbuffer := hw.buffer
  have hfits := hw.fits
  have hroom : overhead p.length S.keyIndex + p.length ≤ b.length := by omega
  have hwindow : sliceSpan b (overhead p.length S.keyIndex) s.bufferPos =
      .ok (slice b (overhead p.length S.keyIndex) p.length) := by
    rw [hw.count]
    exact sliceSpan_ok hroom
  have henc : S.cipher.encrypt (S.random s.fills)
      (.window (overhead p.length S.keyIndex : ℤ).toNat s.bufferPos) s.keyIndex profileId
      s.sequenceNumber b = .ok (S.callFor s p) (S.sealed s p).buffer := by
    -- what the encryption has written when it reads the plaintext ends before it
    have hread : ∀ d : Bytes, d.drop (headerLength p.length S.keyIndex + 20) =
        b.drop (headerLength p.length S.keyIndex + 20) →
          (PlainSpan.window (overhead p.length S.keyIndex) p.length).read d = p := by
      intro d hd
      have hcut : d.drop (overhead p.length S.keyIndex) = b.drop (overhead p.length S.keyIndex) := by
        have h16 := congrArg (List.drop 16) hd
        rw [List.drop_drop, List.drop_drop] at h16
        exact h16
      show slice d (overhead p.length S.keyIndex) p.length = p
      rw [slice, hcut]
      exact hplain
    have hrun : S.cipher.encryptS2 (S.random s.fills)
        (.window (overhead p.length S.keyIndex) p.length) S.keyIndex s.sequenceNumber b = _ :=
      Cipher.encryptS2_eq S.provided S.valid rfl hpl S.keyIndex_lt
        (by rw [requiredSize_eq]; exact hroom) hread
    rw [requiredSize_eq, hrest] at hrun
    rw [hw.count, hw.keyIndex, Int.toNat_natCast]
    exact hrun
  rw [encryptFrameSync, get_bind, bind_ok (ofExcept_eq_ok.mpr ⟨hwindow, rfl⟩), modify_bind]
  exact bind_ok (onBuffer_ok henc)

/-- The frame that `ProcessCurrentBlock` hands to the sink, at the front of the buffer. -/
def ManagedSecurityStream.buildFrame (c : Cipher) (random : ℕ → ℕ → UInt8) : StreamM Bytes := do
  let s ← get
  let maxSize ← ofExcept (getRequiredSize s.chunkSize s.keyIndex profileId)
  let packetSize ← ofExcept (getRequiredSize s.bufferPos s.keyIndex profileId)
  let maxOverhead := maxSize - s.chunkSize
  let actualOverhead := packetSize - s.bufferPos
  runIf (actualOverhead < maxOverhead) (do
    let plaintext ← ofExcept (sliceSpan s.buffer maxOverhead s.bufferPos)
    onBuffer (copyTo actualOverhead plaintext))
  encryptFrameSync c random actualOverhead
  let s ← get
  ofExcept (sliceSpan s.buffer 0 packetSize)

/-- `ProcessCurrentBlock` builds a frame and writes it. -/
theorem emitFrame_eq_buildFrame (c : Cipher) (random : ℕ → ℕ → UInt8) :
    emitFrame c random = (do
      let packet ← buildFrame c random
      onInner (InnerStream.write packet)
      modify fun s => { s with bufferPos := 0, sequenceNumber := s.sequenceNumber + 1 }) := by
  simp only [emitFrame, buildFrame, bind_assoc]

/-- What waits is encrypted in place, in the shared buffer. -/
theorem buildFrame_eq (hw : S.Waits s p) :
    buildFrame S.cipher S.random s = .ok (S.frameFor s p) (S.sealed s p) := by
  -- the plaintext is moved first if the frame's own header is shorter
  rcases hw.shift with ⟨b, hlen, hplain, hrest, hshift⟩
  have hpl : p.length < 2 ^ 25 := lt_of_le_of_lt hw.fits S.chunkSize_lt
  have hmax : getRequiredSize s.chunkSize s.keyIndex profileId =
      .ok ((overhead S.chunkSize S.keyIndex + S.chunkSize : ℕ) : ℤ) := by
    rw [hw.chunkSize, hw.keyIndex]
    exact getRequiredSize_frame S.chunkSize_lt S.keyIndex_lt
  have hpacket : getRequiredSize s.bufferPos s.keyIndex profileId =
      .ok ((overhead p.length S.keyIndex + p.length : ℕ) : ℤ) := by
    rw [hw.count, hw.keyIndex]
    exact getRequiredSize_frame hpl S.keyIndex_lt
  have hmaxOver : ((overhead S.chunkSize S.keyIndex + S.chunkSize : ℕ) : ℤ) - s.chunkSize =
      (overhead S.chunkSize S.keyIndex : ℤ) := by
    rw [hw.chunkSize]
    push_cast
    ring
  have hover : ((overhead p.length S.keyIndex + p.length : ℕ) : ℤ) - s.bufferPos =
      (overhead p.length S.keyIndex : ℤ) := by
    rw [hw.count]
    push_cast
    ring
  have hcut : sliceSpan (S.sealed s p).buffer 0 ((overhead p.length S.keyIndex + p.length : ℕ) : ℤ) =
      .ok (S.frameFor s p) :=
    sliceSpan_middle [] _ _ rfl (congrArg Nat.cast (S.length_frameFor s p).symm)
  rw [buildFrame, get_bind, bind_ok (ofExcept_eq_ok.mpr ⟨hmax, rfl⟩),
    bind_ok (ofExcept_eq_ok.mpr ⟨hpacket, rfl⟩), hmaxOver, hover, bind_ok hshift,
    bind_ok (encryptFrameSync_eq hw hlen hplain hrest), get_bind, hcut]
  rfl

/-- `ProcessCurrentBlock` encrypts what waits before the frame goes to the sink. -/
theorem emitFrame_seals (hw : S.Waits s p) :
    emitFrame S.cipher S.random s = (do
      onInner (InnerStream.write (S.frameFor s p))
      modify fun s => { s with bufferPos := 0, sequenceNumber := s.sequenceNumber + 1 } :
        StreamM Unit) (S.sealed s p) := by
  rw [emitFrame_eq_buildFrame, bind_ok (buildFrame_eq hw)]

/-- On a sink that works, it appends one sealed frame and leaves an empty buffer. -/
theorem emitFrame_eq (hl : S.Loaded s p) :
    emitFrame S.cipher S.random s = .ok () { S.sealed s p with
      bufferPos := 0
      sequenceNumber := s.sequenceNumber + 1
      innerStream := s.innerStream.appended (S.frameFor s p) } := by
  have hwrite : InnerStream.write (S.frameFor s p) (S.sealed s p).innerStream =
      .ok () (s.innerStream.appended (S.frameFor s p)) :=
    InnerStream.write_append hl.opened (hl.reliable _) hl.atEnd (S.frameFor s p)
  rw [emitFrame_seals hl.toWaits]
  exact bind_ok (onInner_ok hwrite)

/-- The stream after a piece has been copied behind what waits. -/
def Sealer.copied (s : ManagedSecurityStream) (piece : Bytes) : ManagedSecurityStream :=
  { s with
    buffer := overwrite s.buffer (overhead S.chunkSize S.keyIndex + s.bufferPos) piece
    bufferPos := s.bufferPos + piece.length }

/-- One round of `Write`: a piece is copied behind what waits. -/
theorem Sealer.Waits.copied (hw : S.Waits s p) (piece : Bytes)
    (hfit : p.length + piece.length ≤ S.chunkSize) : S.Waits (S.copied s piece) (p ++ piece) := by
  have hlen := hw.buffer
  have hcount := hw.count
  have hroom : overhead S.chunkSize S.keyIndex + s.bufferPos + piece.length ≤ s.buffer.length := by
    omega
  refine { hw with
    buffer := (length_overwrite hroom).trans hlen
    count := ?_
    fits := ?_
    plaintext := ?_ }
  · rw [List.length_append, ← hw.count]
    rfl
  · rw [List.length_append]
    exact hfit
  · have hfront : slice (overwrite s.buffer (overhead S.chunkSize S.keyIndex + p.length) piece)
        (overhead S.chunkSize S.keyIndex) p.length = p := by
      rw [slice_overwrite_before le_rfl (by omega)]
      exact hw.plaintext
    have hback : slice (overwrite s.buffer (overhead S.chunkSize S.keyIndex + p.length) piece)
        (overhead S.chunkSize S.keyIndex + p.length) piece.length = piece :=
      slice_overwrite_self (by omega)
    show slice (overwrite s.buffer (_ + s.bufferPos) piece) _ (p ++ piece).length = p ++ piece
    rw [hw.count, List.length_append, ← slice_append_slice, hfront, hback]

/-- A round of the loop of `Write`: what fits into the block is copied, and a full
block is emitted before the loop goes on. -/
theorem writeRound_eq {n : ℕ} {bytes : Bytes} (hw : S.Waits s p) (hnil : bytes ≠ [])
    (hn : n = min bytes.length (S.chunkSize - p.length)) (fuel : ℕ) :
    writeLoop S.cipher S.random (fuel + 1) bytes s = (do
      runIf (((S.copied s (bytes.take n)).bufferPos : ℤ) = (S.copied s (bytes.take n)).chunkSize)
        (processCurrentBlock S.cipher S.random false)
      writeLoop S.cipher S.random fuel (bytes.drop n) : StreamM Unit) (S.copied s (bytes.take n)) := by
  have hlen := hw.buffer
  have hcount := hw.count
  have hfits := hw.fits
  have hpiece : (bytes.take n).length = n := by
    rw [List.length_take]
    omega
  -- the piece ends with the chunk or with what is left to write
  have hcopy : ((min (bytes.length : ℤ) (s.chunkSize - s.bufferPos)) : ℤ) = (n : ℕ) := by
    rw [hw.chunkSize, hw.count, hn]
    omega
  have hmax : getRequiredSize s.chunkSize s.keyIndex profileId =
      .ok ((overhead S.chunkSize S.keyIndex + S.chunkSize : ℕ) : ℤ) := by
    rw [hw.chunkSize, hw.keyIndex]
    exact getRequiredSize_frame S.chunkSize_lt S.keyIndex_lt
  have hbase : ((overhead S.chunkSize S.keyIndex + S.chunkSize : ℕ) : ℤ) - s.chunkSize + s.bufferPos =
      ((overhead S.chunkSize S.keyIndex + s.bufferPos : ℕ) : ℤ) := by
    rw [hw.chunkSize]
    push_cast
    ring
  have hcut : sliceSpan bytes 0 ((n : ℕ) : ℤ) = .ok (bytes.take n) := by
    have hslice : sliceSpan bytes (0 : ℕ) n = .ok (slice bytes 0 n) := sliceSpan_ok (by omega)
    rw [← slice_zero]
    exact hslice
  have hput : copyTo ((overhead S.chunkSize S.keyIndex + s.bufferPos : ℕ) : ℤ)
      (bytes.take n) s.buffer = .ok () (S.copied s (bytes.take n)).buffer :=
    copyTo_ok (by omega)
  have hcopied : S.copied s (bytes.take n) = { s with
      buffer := (S.copied s (bytes.take n)).buffer
      bufferPos := s.bufferPos + n } := by
    rw [Sealer.copied, hpiece]
  rw [writeLoop, if_neg hnil, get_bind]
  simp only [hcopy]
  rw [bind_ok (ofExcept_eq_ok.mpr ⟨hmax, rfl⟩), bind_ok (ofExcept_eq_ok.mpr ⟨hcut, rfl⟩), hbase,
    bind_ok (onBuffer_ok hput), modify_bind, get_bind, Int.toNat_natCast, hcopied]

end

/-! ## The abstract archive -/

/-- The rest of what a writer is given: its metadata and its sink. -/
structure Archiver extends Sealer where
  metadata : Option Bytes
  seekable : Bool
  leaveOpen : Bool

/-- What the calls so far amount to: the framer, whether the master header is
there, and the recorded seek points. -/
structure ArchiveState where
  framer : Framer UInt8
  started : Bool
  points : List SeekPoint
deriving DecidableEq, Repr

/-- Nothing has been called. -/
def ArchiveState.initial : ArchiveState := ⟨Framer.empty, false, []⟩

namespace Archiver

variable (A : Archiver)

/-- The master header with a given table offset, and the metadata. -/
def head (off : UInt64) : Bytes :=
  masterBytes streamVersion A.chunkSize A.keyIndex (UInt16.ofNat (A.metadata.getD []).length) off ++
    if UInt16.ofNat (A.metadata.getD []).length > 0 then A.metadata.getD [] else []

/-- What is in the sink. -/
def content (a : ArchiveState) : Bytes :=
  (if a.started then A.head 0 else []) ++ A.frames 0 a.framer.frames

/-- The point a flush records. -/
def point (a : ArchiveState) (timestampMs : Option UInt32) (elapsedMs : UInt32) : SeekPoint where
  relativeTimestampMs := timestampMs.getD elapsedMs
  fileOffset := UInt64.ofNat (A.content a).length
  frameIndex := (A.sequence a.framer.frames.length).toUInt32

/-- One call. -/
def step (a : ArchiveState) : WriteCall → ArchiveState
  | .write buffer => { a with framer := a.framer.push A.chunkSize buffer, started := true }
  | .flushToFrame timestampMs elapsedMs =>
    { a with
      framer := a.framer.flush
      points := if A.seekable then a.points ++ [A.point a timestampMs elapsedMs] else a.points }

/-- All calls. -/
def run (a : ArchiveState) (calls : List WriteCall) : ArchiveState := calls.foldl A.step a

end Archiver

/-! ## Refinement -/

/-- The stream stands for the archive `a`, with `p` collected in its buffer. -/
structure Archiver.Holds (A : Archiver) (s : ManagedSecurityStream) (a : ArchiveState) (p : Bytes) :
    Prop extends A.Loaded s p where
  mode : s.mode = .encrypt
  metadata : s.metadata = A.metadata
  leaveOpen : s.leaveOpen = A.leaveOpen
  seekable : s.innerStream.seekable = A.seekable
  final : s.isFinalBlockProcessed = false
  header : s.isHeaderProcessed = a.started
  points : s.seekPoints = a.points
  fills : s.fills = a.framer.frames.length
  sequence : s.sequenceNumber = A.sequence s.fills
  data : s.innerStream.data = A.content a
  calls : s.gcmCalls = A.calls a.framer.frames

/-- The refinement relation: what waits in the framer is in the buffer. -/
structure Archiver.Writes (A : Archiver) (s : ManagedSecurityStream) (a : ArchiveState) : Prop where
  holds : A.Holds s a a.framer.pending
  inv : a.framer.Inv A.chunkSize
  started : a.started = false → a.framer = Framer.empty

section

variable {A : Archiver} {s : ManagedSecurityStream} {a : ArchiveState} {p : Bytes}

theorem Archiver.content_of_started (h : a.started = true) :
    A.content a = A.head 0 ++ A.frames 0 a.framer.frames := by
  rw [Archiver.content, if_pos h]

/-- Emitting a frame appends it to the abstract archive. -/
theorem emitFrame_refines (h : A.Holds s a p) :
    ∃ s', emitFrame A.cipher A.random s = .ok () s' ∧
      A.Holds s' { a with framer := ⟨a.framer.frames ++ [p], []⟩ } [] := by
  refine ⟨_, emitFrame_eq h.toLoaded, ?_⟩
  have hsealed : A.frameFor s p = A.frame s.fills p := by
    rw [Sealer.frameFor, Sealer.frame, h.sequence]
  have hframe : A.content { a with framer := ⟨a.framer.frames ++ [p], []⟩ } =
      A.content a ++ A.frame s.fills p := by
    rw [Archiver.content, Archiver.content, Sealer.frames_snoc, List.append_assoc, Nat.zero_add,
      h.fills]
  exact {
    keyIndex := h.keyIndex
    chunkSize := h.chunkSize
    buffer := (Sealer.length_sealed h.toWaits).trans h.buffer
    count := rfl
    fits := Nat.zero_le _
    plaintext := slice_len_zero _ _
    opened := h.opened
    reliable := h.reliable
    atEnd := by
      show s.innerStream.position + _ = (s.innerStream.data ++ _).length
      rw [List.length_append, h.atEnd]
    mode := h.mode
    metadata := h.metadata
    leaveOpen := h.leaveOpen
    seekable := h.seekable
    final := h.final
    header := h.header
    points := h.points
    fills := by
      show s.fills + 1 = (a.framer.frames ++ [p]).length
      rw [List.length_append, List.length_singleton, h.fills]
    sequence := by
      show s.sequenceNumber + 1 = A.sequence (s.fills + 1)
      rw [h.sequence, Sealer.sequence_succ]
    data := by
      show s.innerStream.data ++ A.frameFor s p = _
      rw [h.data, hsealed, hframe]
    calls := by
      show s.gcmCalls ++ [A.callFor s p] = _
      rw [Sealer.calls_snoc, h.calls, Sealer.callFor, Sealer.call, h.sequence, h.fills] }

/-- `ProcessCurrentBlock(isFinal: false)` flushes the framer. -/
theorem processCurrentBlock_refines (h : A.Writes s a) :
    ∃ s', processCurrentBlock A.cipher A.random false s = .ok () s' ∧
      A.Writes s' { a with framer := a.framer.flush } := by
  -- nothing pending: the call returns at once
  by_cases hnil : a.framer.pending = []
  · have hpos : s.bufferPos = 0 ∧ false = false := by
      refine ⟨?_, rfl⟩
      rw [h.holds.count, hnil, List.length_nil]
    have hflush : a.framer.flush = a.framer := if_pos hnil
    refine ⟨s, ?_, ?_⟩
    · rw [processCurrentBlock, get_bind, if_pos hpos]
      rfl
    · rw [hflush]
      exact h
  · have hpos : ¬ (s.bufferPos = 0 ∧ false = false) := by
      rintro ⟨hzero, -⟩
      rw [h.holds.count] at hzero
      exact hnil (List.eq_nil_of_length_eq_zero hzero)
    have hflush : a.framer.flush = ⟨a.framer.frames ++ [a.framer.pending], []⟩ := if_neg hnil
    rcases emitFrame_refines h.holds with ⟨s', hrun, hholds⟩
    refine ⟨s', ?_, ?_⟩
    · rw [processCurrentBlock, get_bind, if_neg hpos]
      exact hrun
    · rw [hflush]
      refine ⟨hholds, ?_, ?_⟩
      · rw [← hflush]
        exact h.inv.flush
      · intro hstart
        have hempty := h.started hstart
        rw [hempty] at hnil
        exact absurd rfl hnil

/-- The end of a round: the framer emits a frame exactly when the block is full. -/
theorem fullBlock_refines {piece : Bytes} (hstart : a.started = true) (hinv : a.framer.Inv A.chunkSize)
    (hne : piece ≠ []) (hfit : a.framer.pending.length + piece.length ≤ A.chunkSize)
    (h : A.Holds s a (a.framer.pending ++ piece)) :
    ∃ s', runIf ((s.bufferPos : ℤ) = s.chunkSize) (processCurrentBlock A.cipher A.random false) s =
        .ok () s' ∧
      A.Writes s' { a with framer := a.framer.push A.chunkSize piece } := by
  have hcount : s.bufferPos = a.framer.pending.length + piece.length := by
    rw [h.count, List.length_append]
  have hpos : 0 < piece.length := List.length_pos_of_ne_nil hne
  have hnotStarted : ∀ f, { a with framer := f }.started = false → { a with framer := f }.framer =
      Framer.empty := by
    intro f hfalse
    exact absurd (hstart.symm.trans hfalse) (by decide)
  -- a full block is emitted at once, a shorter one waits
  by_cases hfull : a.framer.pending.length + piece.length = A.chunkSize
  · have hcond : (s.bufferPos : ℤ) = s.chunkSize := by
      rw [h.chunkSize, hcount, hfull]
    have hblock : ¬ (s.bufferPos = 0 ∧ false = false) := by
      rintro ⟨hzero, -⟩
      omega
    rcases emitFrame_refines h with ⟨s', hemit, hholds⟩
    have hpush : a.framer.push A.chunkSize piece =
        ⟨a.framer.frames ++ [a.framer.pending ++ piece], []⟩ := Framer.push_of_eq hne (by omega)
    refine ⟨s', ?_, ?_, hinv.push piece, hnotStarted _⟩
    · rw [runIf_true hcond, processCurrentBlock, get_bind, if_neg hblock]
      exact hemit
    · rw [hpush]
      exact hholds
  · have hcond : ¬ (s.bufferPos : ℤ) = s.chunkSize := by
      rw [h.chunkSize, hcount]
      exact_mod_cast hfull
    have hpush : a.framer.push A.chunkSize piece = ⟨a.framer.frames, a.framer.pending ++ piece⟩ :=
      Framer.push_of_lt piece _ (by omega)
    refine ⟨s, ?_, ?_, hinv.push piece, hnotStarted _⟩
    · rw [runIf_false hcond]
      rfl
    · rw [hpush]
      exact { h with }

/-- The loop of `Write` pushes the bytes into the framer. -/
theorem writeLoop_refines :
    ∀ (fuel : ℕ) (bytes : Bytes) (s : ManagedSecurityStream) (a : ArchiveState),
      a.started = true → A.Writes s a → bytes.length < fuel →
      ∃ s', writeLoop A.cipher A.random fuel bytes s = .ok () s' ∧
        A.Writes s' { a with framer := a.framer.push A.chunkSize bytes } := by
  intro fuel
  induction fuel with
  | zero =>
    intro bytes s a _ _ hfuel
    exact absurd hfuel (Nat.not_lt_zero _)
  | succ fuel ih =>
    intro bytes s a hstart h hfuel
    by_cases hnil : bytes = []
    · subst hnil
      exact ⟨s, rfl, h⟩
    have hpos : 0 < bytes.length := List.length_pos_of_ne_nil hnil
    have hpend := h.inv.pending
    set n := min bytes.length (A.chunkSize - a.framer.pending.length) with hn
    have hpiece : (bytes.take n).length = n := by
      rw [List.length_take]
      omega
    have hround := writeRound_eq h.holds.toWaits hnil hn fuel
    have hholds : A.Holds (A.copied s (bytes.take n)) a (a.framer.pending ++ bytes.take n) :=
      { h.holds with
        toLoaded := { h.holds.toLoaded with
          toWaits := h.holds.toWaits.copied (bytes.take n) (by omega) } }
    -- at least one byte fits, so the rest is shorter
    rcases fullBlock_refines hstart h.inv (List.ne_nil_of_length_pos (by omega)) (by omega) hholds with
      ⟨s₂, hblock, hwrites⟩
    have hdrop : (bytes.drop n).length < fuel := by
      rw [List.length_drop]
      omega
    have hrest := ih (bytes.drop n) s₂ { a with framer := a.framer.push A.chunkSize (bytes.take n) }
      hstart hwrites hdrop
    rcases hrest with ⟨s', hrec, hwrites'⟩
    refine ⟨s', ?_, ?_⟩
    · rw [hround, bind_ok hblock]
      exact hrec
    · have hsplit : a.framer.push A.chunkSize bytes =
          (a.framer.push A.chunkSize (bytes.take n)).push A.chunkSize (bytes.drop n) := by
        rw [← Framer.push_append, List.take_append_drop]
      rw [hsplit]
      exact hwrites'

/-- `WriteProtocolHeader` at any position of the sink. -/
theorem writeProtocolHeader_eq (off : UInt64) (hkey : s.keyIndex = A.keyIndex)
    (hchunk : s.chunkSize = A.chunkSize) (hmeta : s.metadata = A.metadata)
    (hopen : s.innerStream.closed = false) (hok : ∀ k, s.innerStream.failing k = false)
    (hpos : s.innerStream.position ≤ s.innerStream.data.length) :
    ∃ k, writeProtocolHeader off s = .ok () { s with innerStream := { s.innerStream with
      data := overwrite s.innerStream.data s.innerStream.position (A.head off)
      position := s.innerStream.position + (A.head off).length
      writes := k } } := by
  set m := A.metadata.getD [] with hm
  set master := masterBytes streamVersion A.chunkSize A.keyIndex (UInt16.ofNat m.length) off with hmaster
  have hmasterRun : (zoom (fun _ => List.replicate MasterHeader.fixedSize (0 : UInt8)) (fun _ s => s) (do
      MasterHeader.write streamVersion s.chunkSize s.keyIndex
        (UInt16.ofNat (s.metadata.getD []).length) off
      get) : StreamM Bytes) s = .ok master s := by
    rw [hkey, hchunk, hmeta]
    have hwrite := masterHeader_write_eq streamVersion A.chunkSize A.keyIndex
      (UInt16.ofNat m.length) off
    exact zoom_ok (bind_ok hwrite)
  have hfirst : InnerStream.write master s.innerStream = .ok () { s.innerStream with
      data := overwrite s.innerStream.data s.innerStream.position master
      position := s.innerStream.position + master.length
      writes := s.innerStream.writes + 1 } :=
    InnerStream.write_overwrite hopen (hok _) hpos master
  rw [writeProtocolHeader, get_bind, bind_ok hmasterRun, bind_ok (onInner_ok hfirst)]
  -- the metadata follows in a write of its own
  by_cases hlen : UInt16.ofNat m.length > 0
  · have hhead : A.head off = master ++ m := by
      rw [Archiver.head, if_pos hlen]
    let inner₁ : InnerStream := { s.innerStream with
      data := overwrite s.innerStream.data s.innerStream.position master
      position := s.innerStream.position + master.length
      writes := s.innerStream.writes + 1 }
    have hroom : inner₁.position ≤ inner₁.data.length := by
      show s.innerStream.position + master.length ≤
        (overwrite s.innerStream.data s.innerStream.position master).length
      rw [overwrite, List.length_append, List.length_append, List.length_take]
      omega
    have hsecond := InnerStream.write_overwrite (s := inner₁) hopen (hok _) hroom m
    refine ⟨s.innerStream.writes + 2, ?_⟩
    rw [hmeta, runIf_true hlen, onInner_ok hsecond, hhead]
    have hjoin : overwrite (overwrite s.innerStream.data s.innerStream.position master)
        (s.innerStream.position + master.length) m =
          overwrite s.innerStream.data s.innerStream.position (master ++ m) :=
      overwrite_overwrite_adjacent hpos
    simp only [inner₁, hjoin, List.length_append, Nat.add_assoc]
  · have hhead : A.head off = master := by
      rw [Archiver.head, if_neg hlen, List.append_nil]
    refine ⟨s.innerStream.writes + 1, ?_⟩
    rw [hmeta, runIf_false hlen, hhead]
    rfl

/-- `Write` writes the master header first, if it is not there yet. -/
theorem write_refines (h : A.Writes s a) (bytes : Bytes) :
    ∃ s', write A.cipher A.random bytes s = .ok () s' ∧ A.Writes s' (A.step a (.write bytes)) := by
  -- either way the loop starts on a stream with its header
  obtain ⟨s₁, hheader, hwrites₁⟩ : ∃ s₁,
      (runIf (s.isHeaderProcessed = false) (do
        writeProtocolHeader 0
        modify fun s => { s with isHeaderProcessed := true }) : StreamM Unit) s = .ok () s₁ ∧
      A.Writes s₁ { a with started := true } := by
    by_cases hstart : a.started = true
    · refine ⟨s, ?_, ?_⟩
      · rw [runIf_false (by rw [h.holds.header, hstart]; exact Bool.noConfusion)]
        rfl
      · have heq : ({ a with started := true } : ArchiveState) = a := by
          rw [← hstart]
        rw [heq]
        exact h
    · have hfalse : a.started = false := Bool.eq_false_iff.mpr hstart
      have hempty := h.started hfalse
      have hdata : s.innerStream.data = [] := by
        rw [h.holds.data, Archiver.content, hfalse, hempty]
        rfl
      have hpos : s.innerStream.position = 0 := by
        rw [h.holds.atEnd, hdata, List.length_nil]
      obtain ⟨k, hrun⟩ := writeProtocolHeader_eq (A := A) 0 h.holds.keyIndex h.holds.chunkSize
        h.holds.metadata h.holds.opened h.holds.reliable (by rw [hpos]; exact Nat.zero_le _)
      have hover : overwrite s.innerStream.data s.innerStream.position (A.head 0) = A.head 0 := by
        rw [hdata, hpos]
        simp [overwrite]
      let s₁ : ManagedSecurityStream := { s with
        isHeaderProcessed := true
        innerStream := { s.innerStream with
          data := overwrite s.innerStream.data s.innerStream.position (A.head 0)
          position := s.innerStream.position + (A.head 0).length
          writes := k } }
      refine ⟨s₁, ?_, ?_⟩
      · rw [runIf_true (by rw [h.holds.header, hfalse]), bind_ok hrun]
        rfl
      · refine ⟨?_, h.inv, ?_⟩
        · exact { h.holds with
            header := rfl
            atEnd := by
              show s.innerStream.position + (A.head 0).length = (overwrite _ _ _).length
              rw [hover, hpos, Nat.zero_add]
            data := by
              show overwrite s.innerStream.data s.innerStream.position (A.head 0) = _
              rw [hover, Archiver.content, if_pos rfl, hempty]
              exact (List.append_nil _).symm }
        · intro htrue
          cases htrue
  obtain ⟨s', hloop, hwrites'⟩ :=
    writeLoop_refines (bytes.length + 1) bytes s₁ _ rfl hwrites₁ (Nat.lt_succ_self _)
  refine ⟨s', ?_, hwrites'⟩
  rw [write, get_bind, bind_ok (ensure_true h.holds.mode _ _), bind_ok hheader]
  exact hloop

/-- `FlushToFrame` records a point on a seekable sink and flushes. -/
theorem flushToFrame_refines (h : A.Writes s a) (timestampMs : Option UInt32) (elapsedMs : UInt32) :
    ∃ s', flushToFrame A.cipher A.random timestampMs elapsedMs s = .ok () s' ∧
      A.Writes s' (A.step a (.flushToFrame timestampMs elapsedMs)) := by
  have hseek : s.innerStream.canSeek = A.seekable := by
    rw [InnerStream.canSeek, h.holds.opened, h.holds.seekable, Bool.not_false, Bool.and_true]
  obtain ⟨s₁, hrecord, hwrites₁⟩ : ∃ s₁,
      (runIf (s.innerStream.canSeek = true) (do
        let position ← onInner InnerStream.getPosition
        modify fun s => { s with seekPoints := s.seekPoints ++ [{
          relativeTimestampMs := timestampMs.getD elapsedMs
          fileOffset := UInt64.ofNat position
          frameIndex := s.sequenceNumber.toUInt32 }] }) : StreamM Unit) s = .ok () s₁ ∧
      A.Writes s₁ { a with
        points := if A.seekable then a.points ++ [A.point a timestampMs elapsedMs] else a.points } := by
    -- the point is recorded before the frame is emitted, and only on a seekable stream
    by_cases hs : A.seekable = true
    · have hget := InnerStream.getPosition_eq (hseek.trans hs)
      let s₁ : ManagedSecurityStream := { s with
        seekPoints := s.seekPoints ++ [{
          relativeTimestampMs := timestampMs.getD elapsedMs
          fileOffset := UInt64.ofNat s.innerStream.position
          frameIndex := s.sequenceNumber.toUInt32 }] }
      refine ⟨s₁, ?_, ?_⟩
      · rw [runIf_true (hseek.trans hs), bind_ok (onInner_ok hget)]
        rfl
      · refine ⟨?_, h.inv, h.started⟩
        exact { h.holds with
          points := by
            rw [if_pos hs]
            show s.seekPoints ++ _ = _
            rw [h.holds.points, h.holds.atEnd, h.holds.data, h.holds.sequence, h.holds.fills]
            rfl }
    · refine ⟨s, ?_, ?_⟩
      · rw [runIf_false (by rw [hseek]; exact hs)]
        rfl
      · rw [if_neg hs]
        exact h
  rcases processCurrentBlock_refines hwrites₁ with ⟨s', hblock, hwrites'⟩
  refine ⟨s', ?_, hwrites'⟩
  rw [flushToFrame, get_bind, bind_ok (ensure_true h.holds.mode _ _), bind_ok hrecord]
  exact hblock

/-- Every call keeps the relation. -/
theorem writeCall_refines (h : A.Writes s a) (call : WriteCall) :
    ∃ s', writeCall A.cipher A.random call s = .ok () s' ∧ A.Writes s' (A.step a call) := by
  cases call with
  | write buffer => exact write_refines h buffer
  | flushToFrame timestampMs elapsedMs => exact flushToFrame_refines h timestampMs elapsedMs

/-- And so does every run of calls. -/
theorem writeCalls_refines (calls : List WriteCall) :
    ∀ {s : ManagedSecurityStream} {a : ArchiveState}, A.Writes s a →
      ∃ s', writeCalls A.cipher A.random calls s = .ok () s' ∧ A.Writes s' (A.run a calls) := by
  induction calls with
  | nil =>
    intro s a h
    exact ⟨s, rfl, h⟩
  | cons call calls ih =>
    intro s a h
    rcases writeCall_refines h call with ⟨s₁, hcall, h₁⟩
    rcases ih h₁ with ⟨s', hrest, h'⟩
    refine ⟨s', ?_, h'⟩
    rw [writeCalls, bind_ok hcall]
    exact hrest

end

/-! ## Starting and ending an archive -/

/-- An empty sink that does not fail. -/
structure InnerStream.Fresh (inner : InnerStream) (seekable : Bool) : Prop where
  empty : inner.data = []
  start : inner.position = 0
  opened : inner.closed = false
  reliable : ∀ k, inner.failing k = false
  seekable : inner.seekable = seekable

namespace Archiver

variable (A : Archiver)

/-- The constructor arguments of the writer. -/
def arguments : StreamArguments where
  keyIndex := A.keyIndex
  chunkSize := A.chunkSize
  metadata := A.metadata
  leaveOpen := A.leaveOpen
  initialSequence := A.first

/-- The finished archive: the last frame holds what waits and may be empty. The
seek table is there if the sink is seekable, points were recorded and their
table fits an array. -/
def archive (a : ArchiveState) : Bytes :=
  let body := A.frames 0 a.framer.emit.frames
  if A.seekable = true ∧ a.points ≠ [] then
    match SeekTable.serialize a.points with
    | .ok table => A.head (UInt64.ofNat (A.head 0 ++ body).length) ++ (body ++ table)
    | .error _ => A.head 0 ++ body
  else
    A.head 0 ++ body

/-- What `Dispose` leaves in the sink, with or without a master header in it: the
header with the table offset is written over the front of whatever is there. -/
def leaves (a : ArchiveState) : Bytes :=
  let body := A.content { a with framer := a.framer.emit }
  if A.seekable = true ∧ a.points ≠ [] then
    match SeekTable.serialize a.points with
    | .ok table => overwrite (body ++ table) 0 (A.head (UInt64.ofNat body.length))
    | .error _ => body
  else
    body

@[simp] theorem length_head (off : UInt64) :
    (A.head off).length = 22 + if UInt16.ofNat (A.metadata.getD []).length > 0 then
      (A.metadata.getD []).length else 0 := by
  rw [head, List.length_append, length_masterBytes]
  split_ifs <;> rfl

/-- The size of the header does not depend on the table offset. -/
theorem length_head_eq (off off' : UInt64) : (A.head off).length = (A.head off').length := by
  rw [length_head, length_head]

end Archiver

section

variable {A : Archiver} {s : ManagedSecurityStream} {a : ArchiveState}

/-- The constructor of a writer over an empty sink. -/
theorem create_writes {inner : InnerStream} (hfresh : inner.Fresh A.seekable) :
    ∃ s, create inner .encrypt A.arguments = .ok s ∧ A.Writes s ArchiveState.initial := by
  have hsize := getRequiredSize_frame A.chunkSize_lt A.keyIndex_lt
  -- the constructor's buffer holds the largest frame
  have hlen : ((overhead A.chunkSize A.keyIndex + A.chunkSize : ℕ) : ℤ) - A.chunkSize + A.chunkSize =
      (overhead A.chunkSize A.keyIndex + A.chunkSize : ℕ) := by ring
  have hnonneg : ¬ ((overhead A.chunkSize A.keyIndex + A.chunkSize : ℕ) : ℤ) < 0 := by omega
  rw [create]
  simp only [Archiver.arguments, hsize, hlen, if_neg hnonneg]
  refine ⟨_, rfl, ?_, Framer.inv_empty A.chunkSize_pos, fun _ => rfl⟩
  exact {
    keyIndex := rfl
    chunkSize := rfl
    buffer := by
      show (List.replicate _ _).length = _
      rw [List.length_replicate, Int.toNat_natCast]
    count := rfl
    fits := Nat.zero_le _
    plaintext := slice_len_zero _ _
    opened := hfresh.opened
    reliable := hfresh.reliable
    atEnd := by
      show inner.position = inner.data.length
      rw [hfresh.start, hfresh.empty, List.length_nil]
    mode := rfl
    metadata := rfl
    leaveOpen := rfl
    seekable := hfresh.seekable
    final := rfl
    header := rfl
    points := rfl
    fills := rfl
    sequence := by
      show A.first = A.first + UInt64.ofNat 0
      exact (UInt64.add_zero _).symm
    data := hfresh.empty
    calls := rfl }

/-- The table goes behind what is there, and the header is written over its
front. -/
theorem writeSeekTable_eq {table : Bytes} (h : A.Holds s a []) (hseek : A.seekable = true)
    (hser : SeekTable.serialize a.points = .ok table) :
    ∃ s', writeSeekTable { s with isFinalBlockProcessed := true } = .ok () s' ∧
      s'.leaveOpen = A.leaveOpen ∧ s'.gcmCalls = s.gcmCalls ∧
      s'.innerStream.data = overwrite (A.content a ++ table) 0
        (A.head (UInt64.ofNat (A.content a).length)) ∧
      s'.innerStream.position =
        (UInt64.ofNat (A.content a).length + UInt64.ofNat table.length).toNat := by
  set off := UInt64.ofNat (A.content a).length with hoff
  have hcan : s.innerStream.canSeek = true := by
    rw [InnerStream.canSeek, h.opened, h.seekable, hseek]
    rfl
  have hposition : s.innerStream.position = (A.content a).length := by
    rw [h.atEnd, h.data]
  let inner := s.innerStream
  let s₀ : ManagedSecurityStream := { s with isFinalBlockProcessed := true }
  have hget : InnerStream.getPosition s₀.innerStream = .ok s.innerStream.position s.innerStream :=
    InnerStream.getPosition_eq hcan
  have hser' : SeekTable.serialize s₀.seekPoints = .ok table := by
    show SeekTable.serialize s.seekPoints = .ok table
    rw [h.points]
    exact hser
  -- table at the end, back to the front, header, behind the table again
  let s₁ : ManagedSecurityStream := { s₀ with innerStream := inner.appended table }
  have hwrite : InnerStream.write table s₀.innerStream = .ok () s₁.innerStream :=
    InnerStream.write_append h.opened (h.reliable _) h.atEnd table
  let s₂ : ManagedSecurityStream :=
    { s₁ with innerStream := { s₁.innerStream with position := 0 } }
  have hseek₀ : InnerStream.setPosition 0 s₁.innerStream = .ok () s₂.innerStream := by
    rw [InnerStream.setPosition, get_bind]
    exact bind_ok (ensure_true hcan _ _)
  obtain ⟨k, hheader⟩ := writeProtocolHeader_eq (A := A) (s := s₂) off h.keyIndex h.chunkSize
    h.metadata h.opened h.reliable (Nat.zero_le _)
  let s₃ : ManagedSecurityStream := { s₂ with innerStream := { s₂.innerStream with
    data := overwrite s₂.innerStream.data s₂.innerStream.position (A.head off)
    position := s₂.innerStream.position + (A.head off).length
    writes := k } }
  let s₄ : ManagedSecurityStream := { s₃ with innerStream := { s₃.innerStream with
    position := (off + UInt64.ofNat table.length).toNat } }
  have hseek₁ : InnerStream.setPosition (off + UInt64.ofNat table.length).toNat s₃.innerStream =
      .ok () s₄.innerStream := by
    rw [InnerStream.setPosition, get_bind]
    exact bind_ok (ensure_true hcan _ _)
  refine ⟨s₄, ?_, h.leaveOpen, rfl, ?_, rfl⟩
  · rw [writeSeekTable, bind_ok (onInner_ok hget), get_bind,
      bind_ok (ofExcept_eq_ok.mpr ⟨hser', rfl⟩), bind_ok (onInner_ok hwrite),
      bind_ok (onInner_ok hseek₀), hposition, ← hoff, bind_ok hheader]
    exact onInner_ok hseek₁
  · show overwrite (s.innerStream.data ++ table) 0 (A.head off) = _
    rw [h.data]

/-- `ProcessCurrentBlock(isFinal: true)` emits a frame also when nothing waits. -/
theorem processFinalBlock_refines (h : A.Writes s a) :
    ∃ s', processCurrentBlock A.cipher A.random true s = .ok () s' ∧
      A.Holds s' { a with framer := a.framer.emit } [] := by
  rcases emitFrame_refines h.holds with ⟨s', hrun, hholds⟩
  refine ⟨s', ?_, hholds⟩
  rw [processCurrentBlock, get_bind, if_neg (fun hcond => Bool.noConfusion hcond.2)]
  exact hrun

/-- Behind a header of its own size nothing changes. -/
theorem Archiver.leaves_of_started (hstart : a.started = true) : A.leaves a = A.archive a := by
  have hcontent : A.content { a with framer := a.framer.emit } =
      A.head 0 ++ A.frames 0 a.framer.emit.frames := Archiver.content_of_started hstart
  rw [Archiver.leaves, Archiver.archive, hcontent]
  split_ifs with hcond
  · cases hser : SeekTable.serialize a.points with
    | ok table =>
      simp only []
      rw [overwrite, List.take_zero, List.nil_append, Nat.zero_add, List.append_assoc,
        A.length_head_eq _ 0, List.drop_left]
    | error e => rfl
  · rfl

/-- The part of `Dispose` that ends the archive. It throws only when the points
fit no array; the frames are in the sink all the same. -/
theorem finish_refines (h : A.Writes s a) :
    ∃ s', s'.leaveOpen = A.leaveOpen ∧ s'.gcmCalls = A.calls a.framer.emit.frames ∧
      s'.innerStream.data = A.leaves a ∧
      (a.started = true → (A.archive a).length < 2 ^ 63 →
        s'.innerStream.position = (A.archive a).length) ∧
      (finish A.cipher A.random s = .ok () s' ∨
        ∃ e, SeekTable.serialize a.points = .error e ∧
          finish A.cipher A.random s = .error e s') := by
  rcases processFinalBlock_refines h with ⟨s₁, hblock, hholds⟩
  let s₂ : ManagedSecurityStream := { s₁ with isFinalBlockProcessed := true }
  set body := A.content { a with framer := a.framer.emit } with hbody
  have hcan : s₂.innerStream.canSeek = A.seekable := by
    show s₁.innerStream.canSeek = A.seekable
    rw [InnerStream.canSeek, hholds.opened, hholds.seekable, Bool.not_false, Bool.and_true]
  have hrun : finish A.cipher A.random s =
      runIf (s₂.innerStream.canSeek = true ∧ s₂.seekPoints ≠ []) writeSeekTable s₂ := by
    rw [finish, bind_ok hblock, modify_bind, get_bind]
  have hpoints : s₂.seekPoints = a.points := hholds.points
  rw [hcan, hpoints] at hrun
  -- without a table the frames stand at the end of the sink
  have hplain : A.leaves a = body → s₂.innerStream.data = A.leaves a ∧
      (a.started = true → (A.archive a).length < 2 ^ 63 →
        s₂.innerStream.position = (A.archive a).length) := by
    intro hleaves
    refine ⟨hleaves ▸ hholds.data, ?_⟩
    intro hstart _
    rw [← Archiver.leaves_of_started hstart, hleaves, hbody, ← hholds.data]
    exact hholds.atEnd
  by_cases hcond : A.seekable = true ∧ a.points ≠ []
  · rw [runIf_true hcond] at hrun
    cases hser : SeekTable.serialize a.points with
    | ok table =>
      have hleaves : A.leaves a = overwrite (body ++ table) 0 (A.head (UInt64.ofNat body.length)) := by
        rw [Archiver.leaves, if_pos hcond, hser]
      obtain ⟨s', htable, hleave, hcalls, hdata, hpos⟩ := writeSeekTable_eq hholds hcond.1 hser
      refine ⟨s', hleave, hcalls.trans hholds.calls, hdata.trans hleaves.symm, ?_,
        Or.inl (hrun.trans htable)⟩
      intro hstart hlong
      have hlen : (A.archive a).length = body.length + table.length := by
        have hcontent : body = A.head 0 ++ A.frames 0 a.framer.emit.frames :=
          Archiver.content_of_started hstart
        rw [Archiver.archive, if_pos hcond, hser, hcontent]
        simp only [List.length_append, Archiver.length_head]
        omega
      rw [hlen] at hlong
      rw [hpos, hlen, ← hbody, UInt64.toNat_add, UInt64.toNat_ofNat', UInt64.toNat_ofNat']
      omega
    | error e =>
      have hleaves : A.leaves a = body := by
        rw [Archiver.leaves, if_pos hcond, hser]
      have hget : InnerStream.getPosition s₂.innerStream =
          .ok s₁.innerStream.position s₁.innerStream :=
        InnerStream.getPosition_eq (hcan.trans hcond.1)
      have hthrow : (ofExcept (SeekTable.serialize s₂.seekPoints) : StreamM Bytes) s₂ =
          .error e s₂ := by
        rw [hpoints, hser]
        rfl
      rcases hplain hleaves with ⟨hdata, hpos⟩
      refine ⟨s₂, hholds.leaveOpen, hholds.calls, hdata, hpos, Or.inr ⟨e, rfl, ?_⟩⟩
      rw [hrun, writeSeekTable, bind_ok (onInner_ok hget), get_bind]
      exact bind_error hthrow
  · have hleaves : A.leaves a = body := by
      rw [Archiver.leaves, if_neg hcond]
    rcases hplain hleaves with ⟨hdata, hpos⟩
    rw [runIf_false hcond] at hrun
    exact ⟨s₂, hholds.leaveOpen, hholds.calls, hdata, hpos, Or.inl hrun⟩

/-- `Dispose` leaves the finished archive in the sink. -/
theorem dispose_refines (h : A.Writes s a) :
    ∃ s', s'.gcmCalls = A.calls a.framer.emit.frames ∧ s'.innerStream.data = A.leaves a ∧
      (a.started = true → (A.archive a).length < 2 ^ 63 →
        s'.innerStream.position = (A.archive a).length) ∧
      (dispose A.cipher A.random s = .ok () s' ∨
        ∃ e, SeekTable.serialize a.points = .error e ∧
          dispose A.cipher A.random s = .error e s') := by
  have hcond : s.mode = .encrypt ∧ s.isFinalBlockProcessed = false := ⟨h.holds.mode, h.holds.final⟩
  rcases finish_refines h with ⟨s₁, hleave, hcalls, hdata, hpos, hrun | ⟨e, hser, hrun⟩⟩
  · have hdispose : dispose A.cipher A.random s =
        runIf (s₁.leaveOpen = false) (onInner InnerStream.dispose) s₁ := by
      rw [dispose, get_bind, runIf_true hcond, bind_ok hrun, get_bind]
    by_cases hclose : s₁.leaveOpen = false
    · refine ⟨{ s₁ with innerStream := { s₁.innerStream with closed := true } }, hcalls, hdata,
        hpos, Or.inl ?_⟩
      rw [hdispose, runIf_true hclose]
      rfl
    · refine ⟨s₁, hcalls, hdata, hpos, Or.inl ?_⟩
      rw [hdispose, runIf_false hclose]
      rfl
  · refine ⟨s₁, hcalls, hdata, hpos, Or.inr ⟨e, hser, ?_⟩⟩
    rw [dispose, get_bind, runIf_true hcond, bind_error hrun]

end

/-! ## Whole runs -/

section

variable {A : Archiver}

/-- A run with a `Write` in it has written the master header. -/
theorem Archiver.run_started (calls : List WriteCall) :
    ∀ a : ArchiveState, (a.started = true ∨ ∃ buffer, WriteCall.write buffer ∈ calls) →
      (A.run a calls).started = true := by
  induction calls with
  | nil =>
    rintro a (h | ⟨buffer, hmem⟩)
    · exact h
    · cases hmem
  | cons call calls ih =>
    intro a h
    apply ih (A.step a call)
    rcases h with h | ⟨buffer, hmem⟩
    · left
      cases call with
      | write buffer => rfl
      | flushToFrame timestampMs elapsedMs => exact h
    · rcases List.mem_cons.mp hmem with heq | hmem
      · left
        rw [← heq]
        rfl
      · exact Or.inr ⟨buffer, hmem⟩

/-- Calls, then `Dispose`, on a writer over an empty sink. `Dispose` returns unless
the seek points fit no array. -/
theorem archiveCalls_refines {inner : InnerStream} (hfresh : inner.Fresh A.seekable)
    (calls : List WriteCall) :
    ∃ s s', create inner .encrypt A.arguments = .ok s ∧
      s'.gcmCalls = A.calls (A.run .initial calls).framer.emit.frames ∧
      s'.innerStream.data = A.leaves (A.run .initial calls) ∧
      (archiveCalls A.cipher A.random calls s = .ok () s' ∨
        ∃ e, SeekTable.serialize (A.run .initial calls).points = .error e ∧
          archiveCalls A.cipher A.random calls s = .error e s') := by
  rcases create_writes hfresh with ⟨s, hcreate, hwrites⟩
  rcases writeCalls_refines calls hwrites with ⟨s₁, hrun, hwrites₁⟩
  rcases dispose_refines hwrites₁ with ⟨s', hcalls, hdata, -, hend⟩
  refine ⟨s, s', hcreate, hcalls, hdata, ?_⟩
  rw [archiveCalls, bind_ok hrun]
  exact hend

/-- What has been encrypted and what is in the sink in the end. -/
theorem archiveCalls_leaves {inner : InnerStream} (hfresh : inner.Fresh A.seekable)
    (calls : List WriteCall) :
    ∃ s, create inner .encrypt A.arguments = .ok s ∧
      (finalState (archiveCalls A.cipher A.random calls s)).gcmCalls =
        A.calls (A.run .initial calls).framer.emit.frames ∧
      (finalState (archiveCalls A.cipher A.random calls s)).innerStream.data =
        A.leaves (A.run .initial calls) := by
  rcases archiveCalls_refines hfresh calls with ⟨s, s', hcreate, hcalls, hdata, hok | ⟨e, -, herr⟩⟩
  · refine ⟨s, hcreate, ?_⟩
    rw [hok]
    exact ⟨hcalls, hdata⟩
  · refine ⟨s, hcreate, ?_⟩
    rw [herr]
    exact ⟨hcalls, hdata⟩

/-- With a `Write` among the calls it is the archive of the calls. -/
theorem archived {inner : InnerStream} (hfresh : inner.Fresh A.seekable) (calls : List WriteCall)
    (hwrite : ∃ buffer, WriteCall.write buffer ∈ calls) :
    ∃ s, create inner .encrypt A.arguments = .ok s ∧
      (finalState (archiveCalls A.cipher A.random calls s)).innerStream.data =
        A.archive (A.run .initial calls) := by
  rcases archiveCalls_leaves hfresh calls with ⟨s, hcreate, -, hdata⟩
  refine ⟨s, hcreate, ?_⟩
  rw [hdata, Archiver.leaves_of_started (Archiver.run_started calls .initial (Or.inr hwrite))]

end

/-- An empty sink. -/
def InnerStream.sink (seekable : Bool) : InnerStream where
  data := []
  position := 0
  seekable := seekable
  closed := false
  segment _ := 0
  reads := 0
  failing _ := false
  writes := 0

theorem InnerStream.sink_fresh (seekable : Bool) : (InnerStream.sink seekable).Fresh seekable :=
  ⟨rfl, rfl, rfl, fun _ => rfl, rfl⟩

/-- A writer over the masking cipher with small chunks and three bytes of
metadata. -/
def maskArchiver (chunkSize : ℕ) (hpos : 0 < chunkSize) (hlt : chunkSize < 2 ^ 25) : Archiver where
  cipher := maskCipher
  key := List.replicate 16 1 ++ List.replicate 16 2
  random i j := UInt8.ofNat (i + j)
  keyIndex := 5
  chunkSize := chunkSize
  first := 0
  provided := rfl
  valid := by decide
  keyIndex_lt := by decide
  chunkSize_pos := hpos
  chunkSize_lt := hlt
  metadata := some [7, 8, 9]
  seekable := true
  leaveOpen := true

/-- The writer of the examples: chunks of four bytes. -/
def maskFour : Archiver := maskArchiver 4 (by decide) (by decide)

/-- The calls of the examples: five bytes, a flush, one more byte. -/
def sixBytes : List WriteCall := [.write [1, 2, 3, 4, 5], .flushToFrame (some 100) 0, .write [6]]

end ManagedSecurity

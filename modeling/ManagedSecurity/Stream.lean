import ManagedSecurity.Cipher
import ManagedSecurity.ArchiveFormat
import ManagedSecurity.InnerStream

/-! # The stream (`ManagedSecurityStream`)

One object, used either for writing or for reading. Its fields are the fields of
the class that its methods read; `fills`, `gcmCalls` and `framesDecrypted` record
what the random generator, the primitive and the handler of `OnFrameDecrypted`
have been called with, so that whole runs can be spoken about.

An archive is `[master header] [metadata] [frame]* [seek table]?`. The frames
are messages of profile 2; the sequence number in each of them is the count of
frames before it.
-/

namespace ManagedSecurity

open Bytes Outcome

/-- `ManagedSecurityStreamMode`. -/
inductive StreamMode where
  | encrypt
  | decrypt
deriving DecidableEq, Repr

/-- The fields of the stream. -/
structure ManagedSecurityStream where
  innerStream : InnerStream
  mode : StreamMode
  keyIndex : ℤ
  chunkSize : ℤ
  metadata : Option Bytes
  seekTableOffset : UInt64
  buffer : Bytes
  bufferPos : ℕ
  sequenceNumber : UInt64
  isHeaderProcessed : Bool
  isFinalBlockProcessed : Bool
  leaveOpen : Bool
  seekPoints : List SeekPoint
  readBufferOffset : ℕ
  readBufferCount : ℕ
  fills : ℕ
  gcmCalls : List GcmCall
  framesDecrypted : List Bytes

/-- Methods of the stream. -/
abbrev StreamM := EStateM Exn ManagedSecurityStream

/-- The optional arguments of the constructor, with their defaults. -/
structure StreamArguments where
  keyIndex : ℤ := 0
  chunkSize : ℤ := 64 * 1024
  metadata : Option Bytes := none
  leaveOpen : Bool := false
  skipMasterHeader : Bool := false
  initialSequence : UInt64 := 0
  seekTableOffset : UInt64 := 0

/-- The `ProfileId` of every frame. -/
def profileId : ℤ := 2

/-- `StreamVersion`. -/
def streamVersion : UInt8 := 1

namespace ManagedSecurityStream

/-- The constructor. -/
def create (innerStream : InnerStream) (mode : StreamMode) (args : StreamArguments) :
    Except Exn ManagedSecurityStream :=
  match getRequiredSize args.chunkSize args.keyIndex profileId with
  | .error e => .error e
  | .ok size =>
    let overhead := size - args.chunkSize
    if overhead + args.chunkSize < 0 then
      .error .overflow
    else
      .ok {
        innerStream := innerStream
        mode := mode
        keyIndex := args.keyIndex
        chunkSize := args.chunkSize
        metadata := args.metadata
        seekTableOffset := args.seekTableOffset
        buffer := List.replicate (overhead + args.chunkSize).toNat 0
        bufferPos := 0
        sequenceNumber := args.initialSequence
        isHeaderProcessed := args.skipMasterHeader
        isFinalBlockProcessed := false
        leaveOpen := args.leaveOpen
        seekPoints := []
        readBufferOffset := 0
        readBufferCount := 0
        fills := 0
        gcmCalls := []
        framesDecrypted := [] }

/-! ## Parts of the object -/

/-- Use `_innerStream`. -/
def onInner {α : Type} (x : InnerM α) : StreamM α :=
  zoom innerStream (fun inner s => { s with innerStream := inner }) x

/-- Use `_buffer`. -/
def onBuffer {α : Type} (x : SpanM α) : StreamM α :=
  zoom buffer (fun bytes s => { s with buffer := bytes }) x

/-- Read from `_innerStream` into `_buffer`. -/
def onFill {α : Type} (x : FillM α) : StreamM α :=
  zoom (fun s => (s.innerStream, s.buffer))
    (fun t s => { s with innerStream := t.1, buffer := t.2 }) x

/-- Read from `_innerStream` into `_metadata`. -/
def onMetadata {α : Type} (x : FillM α) : StreamM α :=
  zoom (fun s => (s.innerStream, s.metadata.getD []))
    (fun t s => { s with innerStream := t.1, metadata := some t.2 }) x

section

variable {α : Type} {s : ManagedSecurityStream} {a : α} {e : Exn}

theorem onInner_ok {x : InnerM α} {t : InnerStream} (h : x s.innerStream = .ok a t) :
    onInner x s = .ok a { s with innerStream := t } :=
  zoom_ok h

theorem onInner_error {x : InnerM α} {t : InnerStream} (h : x s.innerStream = .error e t) :
    onInner x s = .error e { s with innerStream := t } :=
  zoom_error h

theorem onBuffer_ok {x : SpanM α} {t : Bytes} (h : x s.buffer = .ok a t) :
    onBuffer x s = .ok a { s with buffer := t } :=
  zoom_ok h

theorem onFill_ok {x : FillM α} {t : InnerStream × Bytes}
    (h : x (s.innerStream, s.buffer) = .ok a t) :
    onFill x s = .ok a { s with innerStream := t.1, buffer := t.2 } :=
  zoom_ok h

theorem onFill_error {x : FillM α} {t : InnerStream × Bytes}
    (h : x (s.innerStream, s.buffer) = .error e t) :
    onFill x s = .error e { s with innerStream := t.1, buffer := t.2 } :=
  zoom_error h

end

/-- `bytes.CopyTo(_buffer.AsSpan(start))`. -/
def copyTo (start : ℤ) (bytes : Bytes) : SpanM Unit := do
  let span ← get
  ensure (0 ≤ start ∧ start ≤ span.length) (.argumentOutOfRange "")
  ensure (start + bytes.length ≤ span.length) (.argument "")
  set (overwrite span start.toNat bytes)

/-! ## Writing -/

section Writing

variable (c : Cipher) (random : ℕ → ℕ → UInt8)

/-- `WriteProtocolHeader`. The length field has 16 bits; the metadata are
written whole whenever it is not zero. -/
def writeProtocolHeader (seekTableOffset : UInt64) : StreamM Unit := do
  let s ← get
  let metaLen := UInt16.ofNat (s.metadata.getD []).length
  let master ← zoom (fun _ => List.replicate MasterHeader.fixedSize (0 : UInt8)) (fun _ s => s) (do
    MasterHeader.write streamVersion s.chunkSize s.keyIndex metaLen seekTableOffset
    get)
  onInner (InnerStream.write master)
  runIf (metaLen > 0) (onInner (InnerStream.write (s.metadata.getD [])))

/-- `EncryptFrameSync`: the plaintext is a window of the destination. -/
def encryptFrameSync (headerSize : ℤ) : StreamM Unit := do
  let s ← get
  let _ ← ofExcept (sliceSpan s.buffer headerSize s.bufferPos)
  modify fun s => { s with fills := s.fills + 1 }
  let call ← onBuffer (c.encrypt (random s.fills) (.window headerSize.toNat s.bufferPos) s.keyIndex
    profileId s.sequenceNumber)
  modify fun s => { s with gcmCalls := s.gcmCalls ++ [call] }

/-- The part of `ProcessCurrentBlock` that emits a frame. The plaintext was
collected behind the largest possible header; it moves to the left when the
header of this frame is smaller. -/
def emitFrame : StreamM Unit := do
  let s ← get
  let maxSize ← ofExcept (getRequiredSize s.chunkSize s.keyIndex profileId)
  let packetSize ← ofExcept (getRequiredSize s.bufferPos s.keyIndex profileId)
  let maxOverhead := maxSize - s.chunkSize
  let actualOverhead := packetSize - s.bufferPos
  runIf (actualOverhead < maxOverhead) (do
    let plaintext ← ofExcept (sliceSpan s.buffer maxOverhead s.bufferPos)
    onBuffer (copyTo actualOverhead plaintext))
  encryptFrameSync c random actualOverhead
  let s ← get
  let packet ← ofExcept (sliceSpan s.buffer 0 packetSize)
  onInner (InnerStream.write packet)
  modify fun s => { s with bufferPos := 0, sequenceNumber := s.sequenceNumber + 1 }

/-- `ProcessCurrentBlock`. -/
def processCurrentBlock (isFinal : Bool) : StreamM Unit := do
  let s ← get
  if s.bufferPos = 0 ∧ isFinal = false then
    pure ()
  else
    emitFrame c random

/-- The loop of `Write`. A round that copies nothing and finds no full block
repeats for ever; apart from a block left over by an earlier exception, every
other round copies at least one byte. -/
def writeLoop : ℕ → Bytes → StreamM Unit
  | 0, remaining => if remaining = [] then pure () else throw .nonTermination
  | fuel + 1, remaining =>
    if remaining = [] then
      pure ()
    else do
      let s ← get
      let toCopy : ℤ := min remaining.length (s.chunkSize - s.bufferPos)
      let maxSize ← ofExcept (getRequiredSize s.chunkSize s.keyIndex profileId)
      let baseSize := maxSize - s.chunkSize
      let piece ← ofExcept (sliceSpan remaining 0 toCopy)
      onBuffer (copyTo (baseSize + s.bufferPos) piece)
      modify fun s => { s with bufferPos := s.bufferPos + toCopy.toNat }
      let s ← get
      runIf ((s.bufferPos : ℤ) = s.chunkSize) (processCurrentBlock c random false)
      writeLoop fuel (remaining.drop toCopy.toNat)

/-- `Write`. -/
def write (buffer : Bytes) : StreamM Unit := do
  let s ← get
  ensure (s.mode = .encrypt) (.invalidOperation "Stream is not in Encrypt mode.")
  runIf (s.isHeaderProcessed = false) (do
    writeProtocolHeader 0
    modify fun s => { s with isHeaderProcessed := true })
  writeLoop c random (buffer.length + 1) buffer

/-- `FlushToFrame`; `elapsedMs` is the clock of the stream, used when no
timestamp is given. -/
def flushToFrame (timestampMs : Option UInt32) (elapsedMs : UInt32) : StreamM Unit := do
  let s ← get
  ensure (s.mode = .encrypt) (.invalidOperation "FlushToFrame is only supported in Encrypt mode.")
  runIf (s.innerStream.canSeek = true) (do
    let position ← onInner InnerStream.getPosition
    modify fun s => { s with seekPoints := s.seekPoints ++ [{
      relativeTimestampMs := timestampMs.getD elapsedMs
      fileOffset := UInt64.ofNat position
      frameIndex := s.sequenceNumber.toUInt32 }] })
  processCurrentBlock c random false

/-- The part of `Dispose` that appends the seek table and updates the master
header. -/
def writeSeekTable : StreamM Unit := do
  let position ← onInner InnerStream.getPosition
  let seekOffset := UInt64.ofNat position
  let s ← get
  let seekData ← ofExcept (SeekTable.serialize s.seekPoints)
  onInner (InnerStream.write seekData)
  onInner (InnerStream.setPosition 0)
  writeProtocolHeader seekOffset
  onInner (InnerStream.setPosition (seekOffset + UInt64.ofNat seekData.length).toNat)

/-- The part of `Dispose` that ends the archive. -/
def finish : StreamM Unit := do
  processCurrentBlock c random true
  modify fun s => { s with isFinalBlockProcessed := true }
  let s ← get
  runIf (s.innerStream.canSeek = true ∧ s.seekPoints ≠ []) writeSeekTable

/-- `Dispose`. -/
def dispose : StreamM Unit := do
  let s ← get
  runIf (s.mode = .encrypt ∧ s.isFinalBlockProcessed = false) (finish c random)
  let s ← get
  runIf (s.leaveOpen = false) (onInner InnerStream.dispose)

/-- The calls a writer makes. -/
inductive WriteCall where
  | write (buffer : Bytes)
  | flushToFrame (timestampMs : Option UInt32) (elapsedMs : UInt32)
deriving DecidableEq, Repr

/-- One call of a writer. -/
def writeCall : WriteCall → StreamM Unit
  | .write buffer => write c random buffer
  | .flushToFrame timestampMs elapsedMs => flushToFrame c random timestampMs elapsedMs

/-- Calls of a writer, one after the other. -/
def writeCalls : List WriteCall → StreamM Unit
  | [] => pure ()
  | call :: calls => do
    writeCall c random call
    writeCalls calls

/-- Calls of a writer, then `Dispose`. -/
def archiveCalls (calls : List WriteCall) : StreamM Unit := do
  writeCalls c random calls
  dispose c random

end Writing

/-! ## Reading -/

section Reading

variable (c : Cipher)

/-- `ReadProtocolHeader`. The table offset and the chunk size are taken over
before the version is checked; the metadata once they are read whole. -/
def readProtocolHeader : StreamM Unit := do
  let masterData ← onInner (InnerStream.readArray "Master header truncated." MasterHeader.fixedSize)
  let master ← ofExcept (MasterHeader.parse masterData)
  modify fun s => { s with seekTableOffset := master.seekTableOffset, chunkSize := master.chunkSize }
  ensure (master.version = streamVersion)
    (.notSupported s!"Unsupported stream version: {master.version}")
  runIf (master.metadataLength > 0) (do
    let metadata ← onInner (InnerStream.readArray "Metadata truncated." master.metadataLength.toNat)
    modify fun s => { s with metadata := some metadata })

/-- The resize branch of `ProcessMasterHeaderSync`. -/
def resizeBuffer (master : MasterHeader) : StreamM Unit := do
  let size ← ofExcept (getRequiredSize master.chunkSize master.keyIndex profileId)
  let overhead := size - master.chunkSize
  ensure (0 ≤ overhead + master.chunkSize) .overflow
  modify fun s => { s with
    buffer := List.replicate (overhead + master.chunkSize).toNat 0
    chunkSize := master.chunkSize }

/-- `ProcessMasterHeaderSync`, the kernel of the asynchronous header reader. -/
def processMasterHeaderSync (data : Bytes) : StreamM Unit := do
  let master ← ofExcept (MasterHeader.parse data)
  modify fun s => { s with seekTableOffset := master.seekTableOffset }
  ensure (master.version = streamVersion)
    (.notSupported s!"Unsupported stream version: {master.version}")
  let s ← get
  runIf (master.chunkSize > s.chunkSize ∨ (s.buffer.length : ℤ) < master.chunkSize)
    (resizeBuffer master)
  runIf (master.metadataLength > 0)
    (modify fun s => { s with metadata := some (List.replicate master.metadataLength.toNat 0) })

/-- `ReadProtocolHeaderAsync`: metadata are read into the array that is there,
be it the one allocated for this header or the one given to the constructor. -/
def readProtocolHeaderAsync : StreamM Unit := do
  let masterData ← onInner (InnerStream.readArray "Stream ended before all data was read."
    MasterHeader.fixedSize)
  processMasterHeaderSync masterData
  let s ← get
  runIf (0 < (s.metadata.getD []).length)
    (onMetadata (InnerStream.fillSpan "Stream ended before all data was read." 0
      (s.metadata.getD []).length))

/-- The loop over the four bytes of the fixed header: no byte at all is the end
of the stream, fewer than four are an error. -/
def readFixedHeader : FillM Bool := do
  let r ← InnerStream.readInto 0 4
  if r = 0 then
    pure false
  else do
    InnerStream.fillSpan "Frame header truncated." r (4 - r)
    pure true

/-- `DecryptFrameSync`: the destination is the buffer from the payload on. -/
def decryptFrameSync (h : Header) : StreamM Unit := do
  let s ← get
  let headerSize := h.totalLength - h.payloadLength
  let message ← ofExcept (sliceSpan s.buffer 0 h.totalLength)
  ensure (0 ≤ headerSize ∧ headerSize ≤ s.buffer.length) (.argumentOutOfRange "")
  zoom (fun s => s.buffer.drop headerSize.toNat)
    (fun plaintext s => { s with buffer := s.buffer.take headerSize.toNat ++ plaintext })
    (c.decryptInto message)

/-- `ValidateFrameAndSetBuffer`. -/
def validateFrameAndSetBuffer (h : Header) : StreamM Unit := do
  let s ← get
  let headerSize := h.totalLength - h.payloadLength
  let sequence ← ofExcept (h.getSequence s.buffer)
  ensure (8 ≤ sequence.length) (.argumentOutOfRange "")
  let frameSeq := UInt64.ofNat (beNat (sequence.take 8))
  ensure (frameSeq = s.sequenceNumber) (.cryptographic
    s!"Stream Sequence Mismatch! Expected {s.sequenceNumber}, got {frameSeq}.")
  modify fun s => { s with
    readBufferOffset := headerSize.toNat
    readBufferCount := h.payloadLength.toNat
    sequenceNumber := s.sequenceNumber + 1
    framesDecrypted := s.framesDecrypted ++
      [slice s.buffer headerSize.toNat h.payloadLength.toNat] }

/-- The seek-table cut-off with which both frame readers begin. -/
def atSeekTable (s : ManagedSecurityStream) : Prop :=
  s.seekTableOffset > 0 ∧ s.innerStream.canSeek = true ∧
    UInt64.ofNat s.innerStream.position ≥ s.seekTableOffset

instance (s : ManagedSecurityStream) : Decidable s.atSeekTable :=
  inferInstanceAs (Decidable (_ ∧ _ ∧ _))

/-- `TryReadNextFrame`. -/
def tryReadNextFrame : StreamM Bool := do
  let s ← get
  if s.atSeekTable then
    pure false
  else do
    let more ← onFill readFixedHeader
    if more = false then
      pure false
    else do
      let s ← get
      let totalHeaderExt := calculateHeaderExtensions (headerWord s.buffer)
      onFill (InnerStream.fillSpan "Header extensions truncated." 4 totalHeaderExt)
      let s ← get
      let h ← ofExcept (Header.parse s.buffer)
      let headerFullSize := 4 + totalHeaderExt
      let remainingToRead := h.totalLength - headerFullSize
      onFill (InnerStream.fillSpan "Frame data truncated." headerFullSize remainingToRead.toNat)
      decryptFrameSync c h
      validateFrameAndSetBuffer h
      pure true

/-- `DecryptCurrentFrameAsync`: the kernel from outside is used for the profiles
it knows. -/
def decryptCurrentFrameAsync (h : Header) : StreamM Unit := do
  match c.asyncDecryptor with
  | none => decryptFrameSync c h
  | some kernel => do
    let s ← get
    let key ← ofExcept (c.getKey h.keyIndex)
    let headerSize := h.totalLength - h.payloadLength
    if (h.ivLength = 12 ∧ h.sequenceLength = 8) ∨ (h.ivLength = 12 ∧ h.sequenceLength = 0) then do
      let message ← ofExcept (sliceSpan s.buffer 0 h.totalLength)
      let _ ← ofExcept (sliceSpan s.buffer headerSize h.payloadLength)
      zoom (fun s => slice s.buffer headerSize.toNat h.payloadLength.toNat)
        (fun plaintext s => { s with buffer := overwrite s.buffer headerSize.toNat plaintext })
        (if h.sequenceLength = 8 then kernel.decryptS2 h message key
          else kernel.decryptS0 h message key)
    else
      decryptFrameSync c h
  validateFrameAndSetBuffer h

/-- `TryReadNextFrameAsync`. -/
def tryReadNextFrameAsync : StreamM Bool := do
  let s ← get
  if s.atSeekTable then
    pure false
  else do
    let more ← onFill readFixedHeader
    if more = false then
      pure false
    else do
      let s ← get
      let totalHeaderExt := calculateHeaderExtensions (headerWord s.buffer)
      onFill (InnerStream.fillSpan "Stream ended before all data was read." 4 totalHeaderExt)
      let s ← get
      let span ← ofExcept (sliceSpan s.buffer 0 (4 + totalHeaderExt : ℕ))
      let h ← ofExcept (Header.parse span)
      let headerFullSize := 4 + totalHeaderExt
      let remainingToRead := h.totalLength - headerFullSize
      let _ ← ofExcept (sliceSpan s.buffer headerFullSize remainingToRead)
      onFill (InnerStream.fillSpan "Stream ended before all data was read." headerFullSize
        remainingToRead.toNat)
      decryptCurrentFrameAsync c h
      pure true

/-- The loop of `Read` and `ReadAsync`: buffered bytes are served first; a frame
is fetched when none are left, and once there is something to return the loop
ends behind the fetch. `out` is what has been copied to the caller so far. -/
def readLoop (tryRead : StreamM Bool) (count : ℕ) : ℕ → Bytes → StreamM Bytes
  | 0, _ => throw .nonTermination
  | fuel + 1, out =>
    if out.length < count then do
      let s ← get
      if 0 < s.readBufferCount then do
        let toCopy := min s.readBufferCount (count - out.length)
        let piece ← ofExcept (sliceSpan s.buffer s.readBufferOffset toCopy)
        modify fun s => { s with
          readBufferOffset := s.readBufferOffset + toCopy
          readBufferCount := s.readBufferCount - toCopy }
        readLoop tryRead count fuel (out ++ piece)
      else do
        let more ← tryRead
        if more = false then
          pure out
        else if 0 < out.length then
          pure out
        else
          readLoop tryRead count fuel out
    else
      pure out

/-- Rounds enough for every run of the loop: a fetched frame takes at least one
byte from the inner stream, any other round that goes on copies at least one. -/
def readFuel (s : ManagedSecurityStream) (count : ℕ) : ℕ := s.innerStream.rest.length + count + 2

/-- `Read` into a span of `count` bytes: the bytes it returns. -/
def read (count : ℕ) : StreamM Bytes := do
  let s ← get
  ensure (s.mode = .decrypt) (.invalidOperation "Stream is not in Decrypt mode.")
  runIf (s.isHeaderProcessed = false) (do
    readProtocolHeader
    modify fun s => { s with isHeaderProcessed := true })
  let s ← get
  readLoop (tryReadNextFrame c) count (s.readFuel count) []

/-- `ReadAsync` into a memory of `count` bytes. -/
def readAsync (count : ℕ) : StreamM Bytes := do
  let s ← get
  ensure (s.mode = .decrypt) (.invalidOperation "Stream is not in Decrypt mode.")
  runIf (s.isHeaderProcessed = false) (do
    readProtocolHeaderAsync
    modify fun s => { s with isHeaderProcessed := true })
  let s ← get
  readLoop (tryReadNextFrameAsync c) count (s.readFuel count) []

end Reading

end ManagedSecurityStream

end ManagedSecurity

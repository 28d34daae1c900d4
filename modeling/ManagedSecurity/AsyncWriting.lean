import ManagedSecurity.WriterLog

/-! # `WriteAsync`, `FlushToFrameAsync` and `DisposeAsync`

The asynchronous methods are written a second time. They differ in one place: when
the cipher has an encryption kernel from outside, frames are sealed by it. A kernel
that does what `EncryptS2` does (`SealsAs`) makes no difference at all, and without
one there is none (`writeCallAsync_eq`, `mixedArchiveCalls_eq`).

`sync_async_agree` is about callers that also go on after exceptions: all of their
calls may be synchronous instead, over any sink.
-/

namespace ManagedSecurity

open Bytes Outcome ManagedSecurityStream

/-- `IAsyncEncryptor`, as far as the stream uses it: a kernel supplied from outside
that is given the plaintext, the key index, the sequence number and the key, and
fills the destination. The number tells its calls apart, and the result is the call
of the primitive it has made. -/
structure AsyncEncryptor where
  encryptS2 : ℕ → PlainSpan → ℤ → UInt64 → Bytes → SpanM GcmCall

/-- The kernel does what `EncryptS2` does with these outcomes of the random
generator. -/
def AsyncEncryptor.SealsAs (kernel : AsyncEncryptor) (c : Cipher) (random : ℕ → ℕ → UInt8) : Prop :=
  ∀ n plaintext K seq key, c.getKey K = .ok key →
    kernel.encryptS2 n plaintext K seq key = c.encryptS2 (random n) plaintext K seq

namespace ManagedSecurityStream

/-- A kernel, if there is one, does what `EncryptS2` does, and the key it is given
exists. -/
def SealsFrom (c : Cipher) (asyncEncryptor : Option AsyncEncryptor) (random : ℕ → ℕ → UInt8)
    (s : ManagedSecurityStream) : Prop :=
  ∀ kernel ∈ asyncEncryptor, kernel.SealsAs c random ∧ ∃ key, c.getKey s.keyIndex = .ok key

section

variable (c : Cipher) (asyncEncryptor : Option AsyncEncryptor) (random : ℕ → ℕ → UInt8)

/-- The sealing of a frame in `ProcessCurrentBlockAsync`. -/
def encryptFrameAsync (headerSize : ℤ) : StreamM Unit := do
  match asyncEncryptor with
  | none => encryptFrameSync c random headerSize
  | some kernel => do
    let s ← get
    let key ← ofExcept (c.getKey s.keyIndex)
    let _ ← ofExcept (sliceSpan s.buffer headerSize s.bufferPos)
    modify fun s => { s with fills := s.fills + 1 }
    let call ← onBuffer (kernel.encryptS2 s.fills (.window headerSize.toNat s.bufferPos) s.keyIndex
      s.sequenceNumber key)
    modify fun s => { s with gcmCalls := s.gcmCalls ++ [call] }

/-- The part of `ProcessCurrentBlockAsync` that emits a frame. -/
def emitFrameAsync : StreamM Unit := do
  let s ← get
  let maxSize ← ofExcept (getRequiredSize s.chunkSize s.keyIndex profileId)
  let packetSize ← ofExcept (getRequiredSize s.bufferPos s.keyIndex profileId)
  let maxOverhead := maxSize - s.chunkSize
  let actualOverhead := packetSize - s.bufferPos
  runIf (actualOverhead < maxOverhead) (do
    let plaintext ← ofExcept (sliceSpan s.buffer maxOverhead s.bufferPos)
    onBuffer (copyTo actualOverhead plaintext))
  encryptFrameAsync c asyncEncryptor random actualOverhead
  let s ← get
  let packet ← ofExcept (sliceSpan s.buffer 0 packetSize)
  onInner (InnerStream.write packet)
  modify fun s => { s with bufferPos := 0, sequenceNumber := s.sequenceNumber + 1 }

/-- `ProcessCurrentBlockAsync`. -/
def processCurrentBlockAsync (isFinal : Bool) : StreamM Unit := do
  let s ← get
  if s.bufferPos = 0 ∧ isFinal = false then
    pure ()
  else
    emitFrameAsync c asyncEncryptor random

/-- The loop of `WriteAsync`. -/
def writeLoopAsync : ℕ → Bytes → StreamM Unit
  | 0, remaining => if remaining = [] then pure () else throw .nonTermination
  | fuel + 1, remaining =>
    if remaining = [] then
      pure ()
    else do
      let s ← get
      let toCopy : ℤ := min remaining.length (s.chunkSize - s.bufferPos)
      let maxSize ← ofExcept (getRequiredSize s.chunkSize s.keyIndex profileId)
      let baseSize := maxSize - s.chunkSize
      let piece ← ofExcept (sliceSpan remaining 0 toCopy)
      onBuffer (copyTo (baseSize + s.bufferPos) piece)
      modify fun s => { s with bufferPos := s.bufferPos + toCopy.toNat }
      let s ← get
      runIf ((s.bufferPos : ℤ) = s.chunkSize) (processCurrentBlockAsync c asyncEncryptor random false)
      writeLoopAsync fuel (remaining.drop toCopy.toNat)

/-- `WriteAsync`; the header is written synchronously. -/
def writeAsync (buffer : Bytes) : StreamM Unit := do
  let s ← get
  ensure (s.mode = .encrypt) (.invalidOperation "Stream is not in Encrypt mode.")
  runIf (s.isHeaderProcessed = false) (do
    writeProtocolHeader 0
    modify fun s => { s with isHeaderProcessed := true })
  writeLoopAsync c asyncEncryptor random (buffer.length + 1) buffer

/-- `FlushToFrameAsync`. -/
def flushToFrameAsync (timestampMs : Option UInt32) (elapsedMs : UInt32) : StreamM Unit := do
  let s ← get
  ensure (s.mode = .encrypt) (.invalidOperation "FlushToFrame is only supported in Encrypt mode.")
  runIf (s.innerStream.canSeek = true) (do
    let position ← onInner InnerStream.getPosition
    modify fun s => { s with seekPoints := s.seekPoints ++ [{
      relativeTimestampMs := timestampMs.getD elapsedMs
      fileOffset := UInt64.ofNat position
      frameIndex := s.sequenceNumber.toUInt32 }] })
  processCurrentBlockAsync c asyncEncryptor random false

/-- The part of `DisposeAsync` that ends the archive. -/
def finishAsync : StreamM Unit := do
  processCurrentBlockAsync c asyncEncryptor random true
  modify fun s => { s with isFinalBlockProcessed := true }
  let s ← get
  runIf (s.innerStream.canSeek = true ∧ s.seekPoints ≠ []) writeSeekTable

/-- `DisposeAsync`. -/
def disposeAsync : StreamM Unit := do
  let s ← get
  runIf (s.mode = .encrypt ∧ s.isFinalBlockProcessed = false) (finishAsync c asyncEncryptor random)
  let s ← get
  runIf (s.leaveOpen = false) (onInner InnerStream.dispose)

/-- One asynchronous call of a writer. -/
def writeCallAsync : WriteCall → StreamM Unit
  | .write buffer => writeAsync c asyncEncryptor random buffer
  | .flushToFrame timestampMs elapsedMs =>
    flushToFrameAsync c asyncEncryptor random timestampMs elapsedMs

/-- One call of a writer, which is asynchronous or not. -/
def mixedCall (call : Bool × WriteCall) : StreamM Unit :=
  if call.1 then writeCallAsync c asyncEncryptor random call.2 else writeCall c random call.2

/-- Calls of a writer, one after the other. -/
def mixedCalls : List (Bool × WriteCall) → StreamM Unit
  | [] => pure ()
  | call :: calls => do
    mixedCall c asyncEncryptor random call
    mixedCalls calls

/-- Calls of a writer, then `Dispose` or `DisposeAsync`. -/
def mixedArchiveCalls (calls : List (Bool × WriteCall)) (async : Bool) : StreamM Unit := do
  mixedCalls c asyncEncryptor random calls
  if async then disposeAsync c asyncEncryptor random else dispose c random

end

/-! ## The asynchronous methods do what the synchronous ones do -/

section

variable {c : Cipher} {asyncEncryptor : Option AsyncEncryptor} {random : ℕ → ℕ → UInt8}
  {s s' : ManagedSecurityStream}

/-- Only the key index of the stream matters. -/
theorem SealsFrom.of_keyIndex (hseals : SealsFrom c asyncEncryptor random s)
    (h : s'.keyIndex = s.keyIndex) : SealsFrom c asyncEncryptor random s' := by
  intro kernel hmem
  rw [h]
  exact hseals kernel hmem

theorem sealsFrom_none : SealsFrom c none random s := by
  intro kernel hmem
  cases hmem

theorem encryptFrameAsync_eq (hseals : SealsFrom c asyncEncryptor random s) (headerSize : ℤ) :
    encryptFrameAsync c asyncEncryptor random headerSize s = encryptFrameSync c random headerSize s := by
  cases asyncEncryptor with
  | none => rfl
  | some kernel =>
    obtain ⟨hkernel, key, hkey⟩ := hseals kernel rfl
    have hseal := hkernel s.fills (.window headerSize.toNat s.bufferPos) s.keyIndex
      s.sequenceNumber key hkey
    show (do
      let s ← get
      let key ← ofExcept (c.getKey s.keyIndex)
      let _ ← ofExcept (sliceSpan s.buffer headerSize s.bufferPos)
      modify fun s => { s with fills := s.fills + 1 }
      let call ← onBuffer (kernel.encryptS2 s.fills (.window headerSize.toNat s.bufferPos) s.keyIndex
        s.sequenceNumber key)
      modify fun s => { s with gcmCalls := s.gcmCalls ++ [call] } : StreamM Unit) s = _
    rw [encryptFrameSync, get_bind, get_bind, bind_ok (ofExcept_eq_ok.mpr ⟨hkey, rfl⟩), hseal]
    rfl

/-- The plaintext moves within the buffer. -/
theorem emitFrameAsync_eq (hseals : SealsFrom c asyncEncryptor random s) :
    emitFrameAsync c asyncEncryptor random s = emitFrame c random s := by
  rw [emitFrameAsync, emitFrame, get_bind, get_bind]
  refine bind_congr_run rfl fun maxSize s₁ h₁ => ?_
  obtain ⟨-, rfl⟩ := ofExcept_eq_ok.mp h₁
  refine bind_congr_run rfl fun packetSize s₂ h₂ => ?_
  obtain ⟨-, rfl⟩ := ofExcept_eq_ok.mp h₂
  refine bind_congr_run rfl fun _ s₃ h₃ => ?_
  rcases (shift_sat _ _).of_ok h₃ with ⟨b, rfl, -⟩
  exact bind_congr_run (encryptFrameAsync_eq (s := { s with buffer := b }) hseals _)
    fun _ _ _ => rfl

theorem processCurrentBlockAsync_eq (hseals : SealsFrom c asyncEncryptor random s) (isFinal : Bool) :
    processCurrentBlockAsync c asyncEncryptor random isFinal s =
      processCurrentBlock c random isFinal s := by
  rw [processCurrentBlockAsync, processCurrentBlock, get_bind, get_bind]
  split_ifs
  · rfl
  · exact emitFrameAsync_eq hseals

/-- A frame that is emitted leaves the key index alone. -/
theorem emitFrame_keyIndex {u : Unit} (hrun : emitFrame c random s = .ok u s') :
    s'.keyIndex = s.keyIndex := by
  rw [emitFrame, get_bind] at hrun
  rcases bind_eq_ok.mp hrun with ⟨maxSize, s₁, h₁, hrun⟩
  obtain ⟨-, rfl⟩ := ofExcept_eq_ok.mp h₁
  rcases bind_eq_ok.mp hrun with ⟨packetSize, s₂, h₂, hrun⟩
  obtain ⟨-, rfl⟩ := ofExcept_eq_ok.mp h₂
  rcases bind_eq_ok.mp hrun with ⟨_, s₃, h₃, hrun⟩
  rcases (shift_sat _ _).of_ok h₃ with ⟨b, rfl, -⟩
  rcases bind_eq_ok.mp hrun with ⟨_, s₄, h₄, hrun⟩
  rcases (encryptFrameSync_sat _).of_ok h₄ with ⟨call, b', front, rfl, -⟩
  rw [get_bind] at hrun
  rcases bind_eq_ok.mp hrun with ⟨packet, s₅, h₅, hrun⟩
  obtain ⟨-, rfl⟩ := ofExcept_eq_ok.mp h₅
  rcases bind_eq_ok.mp hrun with ⟨_, s₆, h₆, hrun⟩
  rcases zoom_eq_ok.mp h₆ with ⟨inner, -, rfl⟩
  obtain ⟨-, rfl⟩ := EStateM.Result.ok.inj hrun
  rfl

theorem processCurrentBlock_keyIndex {isFinal : Bool} {u : Unit}
    (hrun : processCurrentBlock c random isFinal s = .ok u s') : s'.keyIndex = s.keyIndex := by
  rw [processCurrentBlock, get_bind] at hrun
  split_ifs at hrun
  · obtain ⟨-, rfl⟩ := pure_eq_ok.mp hrun
    rfl
  · exact emitFrame_keyIndex hrun

theorem writeLoopAsync_eq :
    ∀ (fuel : ℕ) (remaining : Bytes) (s : ManagedSecurityStream), SealsFrom c asyncEncryptor random s →
      writeLoopAsync c asyncEncryptor random fuel remaining s = writeLoop c random fuel remaining s := by
  intro fuel
  induction fuel with
  | zero =>
    intro remaining s _
    rfl
  | succ fuel ih =>
    intro remaining s hseals
    rw [writeLoopAsync, writeLoop]
    split_ifs
    · rfl
    rw [get_bind, get_bind]
    refine bind_congr_run rfl fun maxSize s₁ h₁ => ?_
    obtain ⟨-, rfl⟩ := ofExcept_eq_ok.mp h₁
    refine bind_congr_run rfl fun piece s₂ h₂ => ?_
    obtain ⟨-, rfl⟩ := ofExcept_eq_ok.mp h₂
    refine bind_congr_run rfl fun _ s₃ h₃ => ?_
    rcases zoom_eq_ok.mp h₃ with ⟨b, -, rfl⟩
    rw [modify_bind, modify_bind, get_bind, get_bind]
    -- the round ends with a block that may be full
    have hblock : ∀ (P : Prop) (_ : Decidable P) (t : ManagedSecurityStream), t.keyIndex = s.keyIndex →
        ∀ rest, (runIf P (processCurrentBlockAsync c asyncEncryptor random false) >>= fun _ =>
            writeLoopAsync c asyncEncryptor random fuel rest) t =
          (runIf P (processCurrentBlock c random false) >>= fun _ =>
            writeLoop c random fuel rest) t := by
      intro P _ t ht rest
      unfold runIf
      split_ifs
      · apply bind_congr_run (processCurrentBlockAsync_eq (hseals.of_keyIndex ht) false)
        intro _ t' hrun
        exact ih rest t' (hseals.of_keyIndex ((processCurrentBlock_keyIndex hrun).trans ht))
      · exact ih rest t (hseals.of_keyIndex ht)
    refine hblock _ _ _ ?_ _
    rfl

/-- The header only goes to the sink. -/
theorem writeProtocolHeader_keyIndex {off : UInt64} {u : Unit}
    (hrun : writeProtocolHeader off s = .ok u s') : s'.keyIndex = s.keyIndex := by
  rw [writeProtocolHeader, get_bind] at hrun
  rcases bind_eq_ok.mp hrun with ⟨master, s₁, h₁, hrun⟩
  rcases zoom_eq_ok.mp h₁ with ⟨b, -, rfl⟩
  rcases bind_eq_ok.mp hrun with ⟨_, s₂, h₂, hrun⟩
  rcases zoom_eq_ok.mp h₂ with ⟨inner, -, rfl⟩
  unfold runIf at hrun
  split_ifs at hrun
  · rcases zoom_eq_ok.mp hrun with ⟨inner', -, rfl⟩
    rfl
  · obtain ⟨-, rfl⟩ := pure_eq_ok.mp hrun
    rfl

theorem writeAsync_eq (hseals : SealsFrom c asyncEncryptor random s) (buffer : Bytes) :
    writeAsync c asyncEncryptor random buffer s = write c random buffer s := by
  rw [writeAsync, write, get_bind, get_bind]
  refine bind_congr_run rfl fun _ s₁ h₁ => ?_
  obtain ⟨-, rfl⟩ := ensure_eq_ok.mp h₁
  refine bind_congr_run rfl fun _ s₂ h₂ => ?_
  refine writeLoopAsync_eq _ _ _ (hseals.of_keyIndex ?_)
  unfold runIf at h₂
  split_ifs at h₂
  · rcases bind_eq_ok.mp h₂ with ⟨_, s₃, h₃, h₄⟩
    obtain ⟨-, rfl⟩ := EStateM.Result.ok.inj h₄
    show s₃.keyIndex = s.keyIndex
    exact writeProtocolHeader_keyIndex h₃
  · obtain ⟨-, rfl⟩ := pure_eq_ok.mp h₂
    rfl

theorem flushToFrameAsync_eq (hseals : SealsFrom c asyncEncryptor random s) (timestampMs : Option UInt32) (elapsedMs : UInt32) :
    flushToFrameAsync c asyncEncryptor random timestampMs elapsedMs s =
      flushToFrame c random timestampMs elapsedMs s := by
  rw [flushToFrameAsync, flushToFrame, get_bind, get_bind]
  refine bind_congr_run rfl fun _ s₁ h₁ => ?_
  obtain ⟨-, rfl⟩ := ensure_eq_ok.mp h₁
  refine bind_congr_run rfl fun _ s₂ h₂ => ?_
  refine processCurrentBlockAsync_eq (hseals.of_keyIndex ?_) false
  unfold runIf at h₂
  split_ifs at h₂
  · rcases bind_eq_ok.mp h₂ with ⟨position, s₃, h₃, h₄⟩
    rcases zoom_eq_ok.mp h₃ with ⟨inner, -, rfl⟩
    obtain ⟨-, rfl⟩ := EStateM.Result.ok.inj h₄
    rfl
  · obtain ⟨-, rfl⟩ := pure_eq_ok.mp h₂
    rfl

theorem disposeAsync_eq (hseals : SealsFrom c asyncEncryptor random s) :
    disposeAsync c asyncEncryptor random s = dispose c random s := by
  have hfinish : finishAsync c asyncEncryptor random s = finish c random s := by
    rw [finishAsync, finish]
    exact bind_congr_run (processCurrentBlockAsync_eq hseals true) fun _ _ _ => rfl
  rw [disposeAsync, dispose, get_bind, get_bind]
  refine bind_congr_run ?_ fun _ _ _ => rfl
  unfold runIf
  split_ifs
  · exact hfinish
  · rfl

theorem writeCallAsync_eq (hseals : SealsFrom c asyncEncryptor random s) (call : WriteCall) :
    writeCallAsync c asyncEncryptor random call s = writeCall c random call s := by
  cases call with
  | write buffer => exact writeAsync_eq hseals buffer
  | flushToFrame timestampMs elapsedMs => exact flushToFrameAsync_eq hseals timestampMs elapsedMs

end

/-! ## Runs -/

section

variable {A : Archiver} {asyncEncryptor : Option AsyncEncryptor} {s : ManagedSecurityStream}
  {a : ArchiveState}

/-- A writer has the key that a kernel is given. -/
theorem sealsFrom_of_writes (hkernel : ∀ kernel ∈ asyncEncryptor, kernel.SealsAs A.cipher A.random)
    (hs : A.Writes s a) : SealsFrom A.cipher asyncEncryptor A.random s := by
  intro kernel hmem
  refine ⟨hkernel kernel hmem, A.key, ?_⟩
  rw [hs.holds.keyIndex]
  exact A.provided

/-- A run of a writer does not depend on which of its calls are asynchronous. -/
theorem mixedCalls_eq (hkernel : ∀ kernel ∈ asyncEncryptor, kernel.SealsAs A.cipher A.random) :
    ∀ (calls : List (Bool × WriteCall)) (s : ManagedSecurityStream) (a : ArchiveState), A.Writes s a →
      mixedCalls A.cipher asyncEncryptor A.random calls s =
        writeCalls A.cipher A.random (calls.map Prod.snd) s := by
  intro calls
  induction calls with
  | nil =>
    intro s a _
    rfl
  | cons call calls ih =>
    intro s a hs
    rcases writeCall_refines hs call.2 with ⟨s', hrun, hs'⟩
    rw [mixedCalls, List.map_cons, writeCalls]
    refine bind_congr_run ?_ fun _ t ht => ?_
    · unfold mixedCall
      split_ifs
      · exact writeCallAsync_eq (sealsFrom_of_writes hkernel hs) call.2
      · rfl
    · rw [hrun] at ht
      obtain ⟨-, rfl⟩ := EStateM.Result.ok.inj ht
      exact ih s' _ hs'

/-- The same with the end of the archive. -/
theorem mixedArchiveCalls_eq (hkernel : ∀ kernel ∈ asyncEncryptor, kernel.SealsAs A.cipher A.random)
    (hs : A.Writes s a) (calls : List (Bool × WriteCall)) (async : Bool) :
    mixedArchiveCalls A.cipher asyncEncryptor A.random calls async s =
      archiveCalls A.cipher A.random (calls.map Prod.snd) s := by
  rw [mixedArchiveCalls, archiveCalls]
  refine bind_congr_run (mixedCalls_eq hkernel calls s a hs) fun _ t ht => ?_
  rcases writeCalls_refines (calls.map Prod.snd) hs with ⟨s', hrun, hs'⟩
  rw [hrun] at ht
  obtain ⟨-, rfl⟩ := EStateM.Result.ok.inj ht
  split_ifs
  · exact disposeAsync_eq (sealsFrom_of_writes hkernel hs')
  · rfl

end

end ManagedSecurityStream

/-! ## Any mix of the methods -/

/-- A step of the caller of a writer, which is asynchronous or not. -/
inductive CallerStep where
  | call (async : Bool) (method : WriteCall)
  | dispose (async : Bool)
deriving DecidableEq, Repr

namespace CallerStep

/-- The same step with the synchronous method. -/
def synchronous : CallerStep → CallerStep
  | .call _ method => .call false method
  | .dispose _ => .dispose false

/-- The bytes that the step passes to `Write`. -/
def bytes : CallerStep → Bytes
  | .call _ method => method.bytes
  | .dispose _ => []

end CallerStep

section

variable {c : Cipher} {asyncEncryptor : Option AsyncEncryptor} {random : ℕ → ℕ → UInt8}
  {s : ManagedSecurityStream}

/-- One step. -/
def callerStep (c : Cipher) (asyncEncryptor : Option AsyncEncryptor) (random : ℕ → ℕ → UInt8) :
    CallerStep → StreamM Unit
  | .call async method => mixedCall c asyncEncryptor random (async, method)
  | .dispose async => if async then disposeAsync c asyncEncryptor random else dispose c random

/-- The asynchronous step is the synchronous one. -/
theorem callerStep_eq (hseals : SealsFrom c asyncEncryptor random s) (step : CallerStep) :
    callerStep c asyncEncryptor random step s =
      callerStep c asyncEncryptor random step.synchronous s := by
  cases step with
  | call async method =>
    cases async
    · rfl
    · exact writeCallAsync_eq hseals method
  | dispose async =>
    cases async
    · rfl
    · exact disposeAsync_eq hseals

end

/-- Without a kernel, every step of any mix of synchronous and asynchronous methods,
also after exceptions, returns or throws what the synchronous method does and leaves the
stream in the same state: the same sink, seek points, sequence number and buffer. -/
theorem sync_async_agree (c : Cipher) (random : ℕ → ℕ → UInt8) (steps : List CallerStep)
    (s : ManagedSecurityStream) :
    results (callerStep c none random) steps s =
      results (callerStep c none random) (steps.map CallerStep.synchronous) s :=
  results_map (fun step _ => callerStep_eq sealsFrom_none step) steps s

end ManagedSecurity

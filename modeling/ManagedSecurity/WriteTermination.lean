import ManagedSecurity.AsyncWriting
import ManagedSecurity.ReadTermination

/-! # Writing comes to an end, or not

Each round of `Write` copies what fits into the block and emits the block when it is full.
With a chunk size of 0 nothing ever fits, the empty block counts as full, and an empty
block is not emitted: the constructor accepts that chunk size, and the loop runs for ever.

* `Accepted`: what all states of a writer over a sink that works have in common;
* `writeLoopAsync_ends`: with any other chunk size the loop ends in as many rounds as there
  are bytes, and one more if a full block was left over by an exception;
* `writeLoopAsync_stuck`: with the chunk size 0 a round changes nothing;
* `writing_ends`: any writer, after any calls.
-/

namespace ManagedSecurity

open Bytes Outcome ManagedSecurityStream

/-- A kernel from outside returns or throws. -/
def AsyncEncryptor.Ends (kernel : AsyncEncryptor) : Prop :=
  ∀ n plaintext K seq key, ThrowsOnly Exn.IsThrown (kernel.encryptS2 n plaintext K seq key)

/-! ## What an encryption throws -/

section

variable {c : Cipher} {random : ℕ → UInt8}

theorem throwsOnly_span {σ : Type} {span : Bytes} {start length : ℤ} :
    ThrowsOnly Exn.IsThrown (ofExcept (sliceSpan span start length) : EStateM Exn σ Bytes) :=
  throwsOnly_ofExcept fun _ he => Exn.isThrown_of_declared (sliceSpan_declared he)

theorem throwsOnly_writeSpan (start length : ℤ) (bytes : Bytes) :
    ThrowsOnly Exn.IsThrown (writeSpan start length bytes) :=
  throwsOnly_get fun _ => throwsOnly_bind throwsOnly_span fun _ => throwsOnly_set _

theorem throwsOnly_ensure_declared {σ : Type} {p : Prop} [Decidable p] {e : Exn}
    (he : e.isDeclared = true) : ThrowsOnly Exn.IsThrown (ensure p e : EStateM Exn σ Unit) :=
  throwsOnly_ensure (Exn.isThrown_of_declared he)

theorem throwsOnly_setByte (offset : ℕ) (value : UInt8) :
    ThrowsOnly Exn.IsThrown (setByte offset value) := by
  apply throwsOnly_get
  intro span
  apply throwsOnly_bind
  · apply throwsOnly_ensure
    intro hend
    cases hend
  · exact fun _ => throwsOnly_set _

theorem throwsOnly_encodeVariableLength12 (value : ℤ) (offset : ℕ) :
    ThrowsOnly Exn.IsThrown (encodeVariableLength12 value offset) := by
  unfold encodeVariableLength12
  split_ifs
  · exact throwsOnly_pure _
  · exact throwsOnly_bind (throwsOnly_setByte _ _) fun _ => throwsOnly_pure _
  · exact throwsOnly_bind (throwsOnly_setByte _ _) fun _ =>
      throwsOnly_bind (throwsOnly_setByte _ _) fun _ => throwsOnly_pure _
  · exact throwsOnly_throw (Exn.isThrown_of_declared rfl)

theorem throwsOnly_headerWrite (payloadLength keyIndex profile : ℤ) :
    ThrowsOnly Exn.IsThrown (Header.write payloadLength keyIndex profile) := by
  apply throwsOnly_bind
  · exact throwsOnly_ofExcept fun _ he => Exn.isThrown_of_declared (getRequiredSize_declared he)
  intro size
  apply throwsOnly_get
  intro destination
  refine throwsOnly_bind (throwsOnly_ensure_declared rfl) fun _ => ?_
  refine throwsOnly_bind (throwsOnly_encodeVariableLength12 _ _) fun l => ?_
  refine throwsOnly_bind (throwsOnly_encodeVariableLength12 _ _) fun ki => ?_
  refine throwsOnly_bind (throwsOnly_setByte _ _) fun _ => ?_
  refine throwsOnly_bind (throwsOnly_setByte _ _) fun _ => ?_
  refine throwsOnly_bind (throwsOnly_setByte _ _) fun _ => ?_
  exact throwsOnly_setByte _ _

theorem throwsOnly_parseDestination : ThrowsOnly Exn.IsThrown Cipher.parseDestination :=
  throwsOnly_get fun _ => throwsOnly_ofExcept fun _ he => Exn.isThrown_of_declared (parse_declared he)

theorem throwsOnly_aesEncrypt (h : Header) (call : GcmCall) (suffix : Bytes) :
    ThrowsOnly Exn.IsThrown (c.aesEncrypt h call suffix) := by
  refine throwsOnly_bind (throwsOnly_ensure_declared rfl) fun _ => ?_
  refine throwsOnly_bind (throwsOnly_writeSpan _ _ _) fun _ => ?_
  exact throwsOnly_bind (throwsOnly_writeSpan _ _ _) fun _ => throwsOnly_pure _

theorem throwsOnly_encryptS2 (hends : c.Ends) (plaintext : PlainSpan) (keyIndex : ℤ)
    (sequenceNumber : UInt64) :
    ThrowsOnly Exn.IsThrown (c.encryptS2 random plaintext keyIndex sequenceNumber) := by
  apply throwsOnly_bind
  · exact throwsOnly_ofExcept fun _ => hends.raises.provider
  intro key
  refine throwsOnly_bind (throwsOnly_headerWrite _ _ _) fun _ => ?_
  refine throwsOnly_bind throwsOnly_parseDestination fun h => ?_
  refine throwsOnly_bind (throwsOnly_writeSpan _ _ _) fun _ => ?_
  refine throwsOnly_bind (throwsOnly_writeSpan _ _ _) fun _ => ?_
  refine throwsOnly_bind (throwsOnly_ensure_declared rfl) fun _ => ?_
  apply throwsOnly_get
  intro destination
  refine throwsOnly_bind throwsOnly_span fun nonce => ?_
  refine throwsOnly_bind throwsOnly_span fun _ => ?_
  refine throwsOnly_bind throwsOnly_span fun _ => ?_
  apply throwsOnly_bind
  · exact throwsOnly_ofExcept fun _ he => Exn.isThrown_of_declared (Cipher.getSequence_declared he)
  intro seqDst
  exact throwsOnly_bind throwsOnly_span fun headerPart => throwsOnly_aesEncrypt _ _ _

end

namespace ManagedSecurityStream

section

variable {c : Cipher} {asyncEncryptor : Option AsyncEncryptor} {random : ℕ → ℕ → UInt8}
  {args : StreamArguments} {s s' : ManagedSecurityStream}

/-! ## The invariant of a writer -/

/-- The state of a writer that was created with these arguments, over a sink that never
fails. With the chunk size 0 the buffer has room for the largest header, and no more. -/
structure Accepted (args : StreamArguments) (s : ManagedSecurityStream) : Prop where
  mode : s.mode = .encrypt
  chunkSize : s.chunkSize = args.chunkSize
  keyIndex : s.keyIndex = args.keyIndex
  sink : s.innerStream.NeverFails
  below : (s.bufferPos : ℤ) ≤ max args.chunkSize 0
  room : args.chunkSize = 0 →
    getRequiredSize args.chunkSize args.keyIndex profileId = .ok s.buffer.length

/-- The exception that ends a call, and the state it leaves. -/
def Fails (args : StreamArguments) (e : Exn) (s : ManagedSecurityStream) : Prop :=
  Accepted args s ∧ e.IsThrown

theorem Accepted.fails (hs : Accepted args s) {e : Exn} (he : e.isDeclared = true) :
    Fails args e s :=
  ⟨hs, Exn.isThrown_of_declared he⟩

/-- A block that waits is not longer than a chunk. -/
theorem Accepted.pos (hs : Accepted args s) (hwaits : s.bufferPos ≠ 0) : 0 < args.chunkSize := by
  have hbelow := hs.below
  omega

/-- The buffer may change as long as it is never used with the chunk size 0. -/
theorem Accepted.buffered (hs : Accepted args s) (hne : args.chunkSize ≠ 0) (b : Bytes) (n : ℕ)
    (calls : List GcmCall) :
    Accepted args { s with buffer := b, fills := n, gcmCalls := calls } :=
  ⟨hs.mode, hs.chunkSize, hs.keyIndex, hs.sink, hs.below, fun hzero => absurd hzero hne⟩

theorem create_accepted {sink : InnerStream} (hcreate : create sink .encrypt args = .ok s)
    (hsink : sink.NeverFails) : Accepted args s := by
  rcases create_inv hcreate with ⟨size, hsize, hpos, rfl⟩
  refine ⟨rfl, rfl, rfl, hsink, le_max_right _ _, fun _ => ?_⟩
  rw [hsize, List.length_replicate, Int.toNat_of_nonneg hpos]

/-! ## Emitting a block -/

theorem copyTo_ends (start : ℤ) (bytes span : Bytes) :
    Sat (copyTo start bytes span) (fun _ span' => span' = overwrite span start.toNat bytes)
      (fun e span' => span' = span ∧ e.isDeclared = true) := by
  rw [copyTo, get_bind, sat_bind, sat_ensure]
  constructor
  · intro _
    rw [sat_bind, sat_ensure]
    exact ⟨fun _ => rfl, fun _ => ⟨rfl, rfl⟩⟩
  · exact fun _ => ⟨rfl, rfl⟩

theorem shift_declared (maxOverhead actualOverhead : ℤ) :
    Sat (runIf (actualOverhead < maxOverhead) (do
        let plaintext ← ofExcept (sliceSpan s.buffer maxOverhead s.bufferPos)
        onBuffer (copyTo actualOverhead plaintext)) s)
      (fun _ _ => True) (fun e _ => e.isDeclared = true) := by
  unfold runIf
  split
  · rw [sat_bind, sat_ofExcept]
    constructor
    · intro plaintext _
      rw [onBuffer, sat_zoom]
      exact (copyTo_ends _ _ _).mono (fun _ _ _ => trivial) (fun _ _ h => h.2)
    · exact fun e he => sliceSpan_declared he
  · trivial

/-- A frame is sealed in the buffer. -/
theorem encryptFrameAsync_ends (hends : c.Ends) (hkernel : ∀ kernel ∈ asyncEncryptor, kernel.Ends)
    (hs : Accepted args s) (hne : args.chunkSize ≠ 0) (headerSize : ℤ) :
    Sat (encryptFrameAsync c asyncEncryptor random headerSize s)
      (fun _ s' => Accepted args s') (fun e s' => Fails args e s') := by
  -- one call that fills the buffer, whichever it is
  have hseal : ∀ (x : SpanM GcmCall), ThrowsOnly Exn.IsThrown x →
      Sat ((do
        modify fun s => { s with fills := s.fills + 1 }
        let call ← onBuffer x
        modify fun s => { s with gcmCalls := s.gcmCalls ++ [call] } : StreamM Unit) s)
        (fun _ s' => Accepted args s') (fun e s' => Fails args e s') := by
    intro x hx
    rw [modify_bind, sat_bind, onBuffer, sat_zoom]
    refine (hx.sat _).mono ?_ ?_
    · intro call b _
      exact hs.buffered hne b (s.fills + 1) (s.gcmCalls ++ [call])
    · intro e b he
      exact ⟨hs.buffered hne b (s.fills + 1) s.gcmCalls, he⟩
  cases hcase : asyncEncryptor with
  | none =>
    show Sat (encryptFrameSync c random headerSize s) _ _
    rw [encryptFrameSync, get_bind, sat_bind, sat_ofExcept]
    constructor
    · intro plaintext _
      exact hseal _ (throwsOnly_encryptS2 hends _ _ _)
    · exact fun e he => hs.fails (sliceSpan_declared he)
  | some kernel =>
    rw [encryptFrameAsync, get_bind, sat_bind, sat_ofExcept]
    constructor
    · intro key _
      rw [sat_bind, sat_ofExcept]
      constructor
      · intro plaintext _
        exact hseal _ (hkernel kernel hcase _ _ _ _ _)
      · exact fun e he => hs.fails (sliceSpan_declared he)
    · exact fun e he => ⟨hs, hends.raises.provider he⟩

/-- A block that is not empty is emitted, or an exception leaves it where it is. -/
theorem emitFrameAsync_ends (hends : c.Ends) (hkernel : ∀ kernel ∈ asyncEncryptor, kernel.Ends)
    (hs : Accepted args s) (hwaits : s.bufferPos ≠ 0) :
    Sat (emitFrameAsync c asyncEncryptor random s)
      (fun _ s' => Accepted args s' ∧ s'.bufferPos = 0) (fun e s' => Fails args e s') := by
  have hne : args.chunkSize ≠ 0 := (hs.pos hwaits).ne'
  rw [emitFrameAsync, get_bind, sat_bind, sat_ofExcept]
  constructor
  swap
  · exact fun e he => hs.fails (getRequiredSize_declared he)
  intro maxSize _
  rw [sat_bind, sat_ofExcept]
  constructor
  swap
  · exact fun e he => hs.fails (getRequiredSize_declared he)
  intro packetSize _
  rw [sat_bind]
  refine ((shift_sat _ _).and (shift_declared _ _)).mono ?_ ?_
  swap
  · rintro e s₁ ⟨rfl, he⟩
    exact hs.fails he
  rintro _ s₁ ⟨⟨b, rfl, -⟩, -⟩
  rw [sat_bind]
  refine (encryptFrameAsync_ends hends hkernel (hs.buffered hne b s.fills s.gcmCalls) hne _).mono ?_
    (fun _ _ h => h)
  intro _ s₂ h₂
  rw [get_bind, sat_bind, sat_ofExcept]
  constructor
  swap
  · exact fun e he => h₂.fails (sliceSpan_declared he)
  intro packet _
  rcases h₂.sink.write packet with ⟨inner, hwrite, hinner⟩
  rw [bind_ok (onInner_ok hwrite)]
  exact ⟨⟨h₂.mode, h₂.chunkSize, h₂.keyIndex, hinner, le_max_right _ _, fun hzero => absurd hzero hne⟩,
    rfl⟩

/-- Also the full block at the end of a round. -/
theorem processCurrentBlockAsync_ends (hends : c.Ends)
    (hkernel : ∀ kernel ∈ asyncEncryptor, kernel.Ends) (hs : Accepted args s) :
    Sat (processCurrentBlockAsync c asyncEncryptor random false s)
      (fun _ s' => Accepted args s' ∧ s'.bufferPos = 0) (fun e s' => Fails args e s') := by
  rw [processCurrentBlockAsync, get_bind]
  by_cases hempty : s.bufferPos = 0
  · rw [if_pos ⟨hempty, rfl⟩]
    exact ⟨hs, hempty⟩
  · rw [if_neg (fun h => hempty h.1)]
    exact emitFrameAsync_ends hends hkernel hs hempty

/-! ## The loop -/

/-- At the end of a round no full block is left. -/
theorem fullBlock_ends (hends : c.Ends) (hkernel : ∀ kernel ∈ asyncEncryptor, kernel.Ends)
    (hne : args.chunkSize ≠ 0) (hs : Accepted args s) :
    Sat (runIf ((s.bufferPos : ℤ) = s.chunkSize)
        (processCurrentBlockAsync c asyncEncryptor random false) s)
      (fun _ s' => Accepted args s' ∧ (s'.bufferPos : ℤ) ≠ args.chunkSize)
      (fun e s' => Fails args e s') := by
  unfold runIf
  split
  case isTrue =>
    refine (processCurrentBlockAsync_ends hends hkernel hs).mono ?_ (fun _ _ h => h)
    rintro _ s₁ ⟨h₁, hzero⟩
    constructor
    · exact h₁
    · rw [hzero]
      exact hne.symm
  case isFalse hspace =>
    rw [hs.chunkSize] at hspace
    exact ⟨hs, hspace⟩

/-- The rounds that a loop needs: one for each byte, and one for a full block that is left
over from an exception. -/
def rounds (args : StreamArguments) (remaining : Bytes) (s : ManagedSecurityStream) : ℕ :=
  remaining.length + if (s.bufferPos : ℤ) = args.chunkSize then 1 else 0

/-- Each round copies a byte or emits the block that was full before it. -/
theorem writeLoopAsync_ends (hends : c.Ends) (hkernel : ∀ kernel ∈ asyncEncryptor, kernel.Ends)
    (hne : args.chunkSize ≠ 0) :
    ∀ (fuel : ℕ) (remaining : Bytes) (s : ManagedSecurityStream), Accepted args s →
      rounds args remaining s ≤ fuel →
      Sat (writeLoopAsync c asyncEncryptor random fuel remaining s)
        (fun _ s' => Accepted args s') (fun e s' => Fails args e s') := by
  intro fuel
  induction fuel with
  | zero =>
    intro remaining s hs hfuel
    have hnil : remaining = [] := by
      apply List.eq_nil_of_length_eq_zero
      unfold rounds at hfuel
      omega
    rw [writeLoopAsync, if_pos hnil]
    exact hs
  | succ fuel ih =>
    intro remaining s hs hfuel
    rw [writeLoopAsync]
    by_cases hnil : remaining = []
    · rw [if_pos hnil]
      exact hs
    rw [if_neg hnil, get_bind, sat_bind, sat_ofExcept]
    constructor
    swap
    · exact fun e he => hs.fails (getRequiredSize_declared he)
    intro maxSize _
    rw [sat_bind, sat_ofExcept]
    constructor
    swap
    · exact fun e he => hs.fails (sliceSpan_declared he)
    intro piece hpiece
    -- the slice is refused if the space is negative
    rcases sliceSpan_eq_ok.mp hpiece with ⟨⟨-, hcopy, -⟩, -⟩
    rw [sat_bind, onBuffer, sat_zoom]
    refine (copyTo_ends _ piece s.buffer).mono ?_ ?_
    swap
    · rintro e b ⟨rfl, he⟩
      exact hs.fails he
    rintro _ b -
    rw [modify_bind, get_bind, sat_bind]
    have hchunk := hs.chunkSize
    have hcopied : Accepted args { s with
        buffer := b
        bufferPos := s.bufferPos +
          (min (remaining.length : ℤ) (s.chunkSize - s.bufferPos)).toNat } := by
      refine ⟨hs.mode, hs.chunkSize, hs.keyIndex, hs.sink, ?_, fun hzero => absurd hzero hne⟩
      show ((s.bufferPos + (min (remaining.length : ℤ) (s.chunkSize - s.bufferPos)).toNat : ℕ) : ℤ) ≤ _
      omega
    refine (fullBlock_ends hends hkernel hne hcopied).mono ?_ (fun _ _ h => h)
    rintro _ s₁ ⟨h₁, hspace⟩
    apply ih _ s₁ h₁
    -- if nothing was copied, the block was full
    have hlen : 0 < remaining.length := List.length_pos_iff.mpr hnil
    unfold rounds at hfuel ⊢
    rw [if_neg hspace, List.length_drop]
    by_cases hfull : (s.bufferPos : ℤ) = args.chunkSize
    · rw [if_pos hfull] at hfuel
      omega
    · omega

/-- With the chunk size 0, no number of rounds is enough, and nothing changes. -/
theorem writeLoopAsync_stuck (hs : Accepted args s) (hzero : args.chunkSize = 0) {remaining : Bytes}
    (hne : remaining ≠ []) :
    ∀ fuel, writeLoopAsync c asyncEncryptor random fuel remaining s = .error .nonTermination s := by
  have hchunk : s.chunkSize = 0 := hs.chunkSize.trans hzero
  have hpos : s.bufferPos = 0 := by
    have hbelow := hs.below
    omega
  have hsize : getRequiredSize s.chunkSize s.keyIndex profileId = .ok s.buffer.length := by
    rw [hs.chunkSize, hs.keyIndex]
    exact hs.room hzero
  have hcopied : min (remaining.length : ℤ) (s.chunkSize - s.bufferPos) = 0 := by
    omega
  have hpiece : sliceSpan remaining 0 0 = .ok [] :=
    sliceSpan_eq_ok.mpr ⟨⟨le_rfl, le_rfl, by omega⟩, (slice_len_zero _ _).symm⟩
  -- the empty piece fits behind the largest header
  have hcopy : copyTo ((s.buffer.length : ℤ) - s.chunkSize + s.bufferPos) [] s.buffer =
      .ok () s.buffer := by
    have hstart : (s.buffer.length : ℤ) - s.chunkSize + s.bufferPos = (s.buffer.length : ℕ) := by
      omega
    rw [hstart, copyTo_ok (le_of_eq (Nat.add_zero _)), overwrite_nil]
  have hfull : (s.bufferPos : ℤ) = s.chunkSize := by omega
  have hskip : processCurrentBlockAsync c asyncEncryptor random false s = .ok () s := by
    rw [processCurrentBlockAsync, get_bind, if_pos ⟨hpos, rfl⟩]
    rfl
  intro fuel
  induction fuel with
  | zero =>
    rw [writeLoopAsync, if_neg hne]
    rfl
  | succ fuel ih =>
    rw [writeLoopAsync, if_neg hne, get_bind, bind_ok (ofExcept_eq_ok.mpr ⟨hsize, rfl⟩), hcopied,
      bind_ok (ofExcept_eq_ok.mpr ⟨hpiece, rfl⟩), bind_ok (onBuffer_ok hcopy), modify_bind, get_bind]
    show (runIf ((s.bufferPos : ℤ) = s.chunkSize) (processCurrentBlockAsync c asyncEncryptor random false) >>=
      fun _ => writeLoopAsync c asyncEncryptor random fuel remaining) s = _
    rw [runIf_true hfull, bind_ok hskip]
    exact ih

/-! ## The calls -/

/-- Over a sink that never fails the master header is written. -/
theorem writeProtocolHeader_works (hs : Accepted args s) (off : UInt64) :
    ∃ s', writeProtocolHeader off s = .ok () s' ∧ Accepted args s' := by
  have hrest : ∀ inner, inner.NeverFails → Accepted args { s with innerStream := inner } :=
    fun inner hinner => ⟨hs.mode, hs.chunkSize, hs.keyIndex, hinner, hs.below, hs.room⟩
  have hmaster : (zoom (fun _ => List.replicate MasterHeader.fixedSize (0 : UInt8)) (fun _ s => s) (do
      MasterHeader.write streamVersion s.chunkSize s.keyIndex
        (UInt16.ofNat (s.metadata.getD []).length) off
      get) : StreamM Bytes) s = .ok _ s :=
    zoom_ok (bind_ok (masterHeader_write_eq _ _ _ _ _))
  rcases hs.sink.write (masterBytes streamVersion s.chunkSize s.keyIndex
    (UInt16.ofNat (s.metadata.getD []).length) off) with ⟨inner, hwrite, hinner⟩
  rw [writeProtocolHeader, get_bind, bind_ok hmaster, bind_ok (onInner_ok hwrite)]
  unfold runIf
  split
  · rcases hinner.write (s.metadata.getD []) with ⟨inner', hwrite', hinner'⟩
    exact ⟨_, onInner_ok hwrite', hrest inner' hinner'⟩
  · exact ⟨_, rfl, hrest inner hinner⟩

/-- A call of `WriteAsync` gets to its loop. -/
theorem writeAsync_loop (hs : Accepted args s) (buffer : Bytes) :
    ∃ s', Accepted args s' ∧ writeAsync c asyncEncryptor random buffer s =
      writeLoopAsync c asyncEncryptor random (buffer.length + 1) buffer s' := by
  rw [writeAsync, get_bind, bind_ok (ensure_true hs.mode _ _)]
  unfold runIf
  split
  · rcases writeProtocolHeader_works hs 0 with ⟨s₁, hheader, h₁⟩
    refine ⟨{ s₁ with isHeaderProcessed := true },
      ⟨h₁.mode, h₁.chunkSize, h₁.keyIndex, h₁.sink, h₁.below, h₁.room⟩, ?_⟩
    exact bind_ok (bind_ok hheader)
  · exact ⟨s, hs, rfl⟩

/-- The result of a call may be the endless loop only with the chunk size 0. -/
theorem writeAsync_ends (hends : c.Ends) (hkernel : ∀ kernel ∈ asyncEncryptor, kernel.Ends)
    (hs : Accepted args s) (buffer : Bytes) (hok : args.chunkSize ≠ 0 ∨ buffer = []) :
    Sat (writeAsync c asyncEncryptor random buffer s) (fun _ s' => Accepted args s')
      (fun e s' => Fails args e s') := by
  rcases writeAsync_loop hs buffer with ⟨s₁, h₁, heq⟩
  rw [heq]
  by_cases hne : args.chunkSize = 0
  · obtain rfl := hok.resolve_left (not_not_intro hne)
    exact h₁
  · apply writeLoopAsync_ends hends hkernel hne _ _ s₁ h₁
    unfold rounds
    split_ifs
    · exact le_rfl
    · exact Nat.le_succ _

theorem flushToFrameAsync_ends (hends : c.Ends) (hkernel : ∀ kernel ∈ asyncEncryptor, kernel.Ends)
    (hs : Accepted args s) (timestampMs : Option UInt32) (elapsedMs : UInt32) :
    Sat (flushToFrameAsync c asyncEncryptor random timestampMs elapsedMs s)
      (fun _ s' => Accepted args s') (fun e s' => Fails args e s') := by
  rcases recordPoint_eq s timestampMs elapsedMs with ⟨points, hrecord⟩
  rw [flushToFrameAsync, get_bind, bind_ok (ensure_true hs.mode _ _), bind_ok hrecord]
  have hpoints : Accepted args { s with seekPoints := points } :=
    ⟨hs.mode, hs.chunkSize, hs.keyIndex, hs.sink, hs.below, hs.room⟩
  exact (processCurrentBlockAsync_ends hends hkernel hpoints).mono (fun _ _ h => h.1) (fun _ _ h => h)

/-- The loop of a call, with a number of rounds. -/
def mixedLoop (c : Cipher) (asyncEncryptor : Option AsyncEncryptor) (random : ℕ → ℕ → UInt8)
    (async : Bool) (fuel : ℕ) (buffer : Bytes) : StreamM Unit :=
  if async then writeLoopAsync c asyncEncryptor random fuel buffer
  else writeLoop c random fuel buffer

/-- The loop ends after some number of rounds: the whole span is consumed, or the loop
throws. -/
def LoopEnds (c : Cipher) (asyncEncryptor : Option AsyncEncryptor) (random : ℕ → ℕ → UInt8)
    (async : Bool) (buffer : Bytes) (s : ManagedSecurityStream) : Prop :=
  ∃ fuel, ∀ s', mixedLoop c asyncEncryptor random async fuel buffer s ≠ .error .nonTermination s'

/-- The kernel that a call uses; a synchronous one has none. -/
def usedKernel (asyncEncryptor : Option AsyncEncryptor) (async : Bool) : Option AsyncEncryptor :=
  if async then asyncEncryptor else none

theorem usedKernel_ends (hkernel : ∀ kernel ∈ asyncEncryptor, kernel.Ends) (async : Bool) :
    ∀ kernel ∈ usedKernel asyncEncryptor async, kernel.Ends := by
  intro kernel hmem
  cases async
  · cases hmem
  · exact hkernel kernel hmem

theorem mixedCall_eq (async : Bool) (call : WriteCall) (s : ManagedSecurityStream) :
    mixedCall c asyncEncryptor random (async, call) s =
      writeCallAsync c (usedKernel asyncEncryptor async) random call s := by
  cases async
  · exact (writeCallAsync_eq sealsFrom_none call).symm
  · rfl

theorem mixedLoop_eq (async : Bool) (fuel : ℕ) (buffer : Bytes) (s : ManagedSecurityStream) :
    mixedLoop c asyncEncryptor random async fuel buffer s =
      writeLoopAsync c (usedKernel asyncEncryptor async) random fuel buffer s := by
  cases async
  · exact (writeLoopAsync_eq fuel buffer s sealsFrom_none).symm
  · rfl

/-- Whatever a call does, the invariant is kept. -/
theorem mixedCall_accepted (hends : c.Ends) (hkernel : ∀ kernel ∈ asyncEncryptor, kernel.Ends)
    (hs : Accepted args s) (call : Bool × WriteCall) :
    Sat (mixedCall c asyncEncryptor random call s) (fun _ s' => Accepted args s')
      (fun _ s' => Accepted args s') := by
  rcases call with ⟨async, call⟩
  have hused := usedKernel_ends hkernel async
  rw [mixedCall_eq]
  cases call with
  | write buffer =>
    by_cases hok : args.chunkSize ≠ 0 ∨ buffer = []
    · exact (writeAsync_ends hends hused hs buffer hok).mono (fun _ _ h => h) (fun _ _ h => h.1)
    · push Not at hok
      rcases writeAsync_loop hs buffer with ⟨s₁, h₁, heq⟩
      show Sat (writeAsync _ _ _ buffer s) _ _
      rw [heq, writeLoopAsync_stuck h₁ hok.1 hok.2]
      exact h₁
  | flushToFrame timestampMs elapsedMs =>
    exact (flushToFrameAsync_ends hends hused hs timestampMs elapsedMs).mono (fun _ _ h => h)
      (fun _ _ h => h.1)

/-- A call of `Write` or `WriteAsync` ends with any other chunk size, and with an empty
span. -/
theorem writeCall_ends_iff (hends : c.Ends) (hkernel : ∀ kernel ∈ asyncEncryptor, kernel.Ends)
    (hs : Accepted args s) (async : Bool) (buffer : Bytes) :
    (∀ s', mixedCall c asyncEncryptor random (async, .write buffer) s ≠ .error .nonTermination s') ↔
      args.chunkSize ≠ 0 ∨ buffer = [] := by
  rw [mixedCall_eq]
  constructor
  · intro hcall
    by_contra hnot
    push Not at hnot
    rcases writeAsync_loop hs buffer with ⟨s₁, h₁, heq⟩
    apply hcall s₁
    rw [← writeLoopAsync_stuck h₁ hnot.1 hnot.2]
    exact heq
  · intro hok s' hrun
    exact ((writeAsync_ends hends (usedKernel_ends hkernel async) hs buffer hok).of_error hrun).2 rfl

theorem loopEnds_iff (hends : c.Ends) (hkernel : ∀ kernel ∈ asyncEncryptor, kernel.Ends)
    (hs : Accepted args s) (async : Bool) (buffer : Bytes) :
    LoopEnds c asyncEncryptor random async buffer s ↔ args.chunkSize ≠ 0 ∨ buffer = [] := by
  constructor
  · rintro ⟨fuel, hloop⟩
    by_contra hnot
    push Not at hnot
    apply hloop s
    rw [mixedLoop_eq]
    exact writeLoopAsync_stuck hs hnot.1 hnot.2 fuel
  · intro hok
    by_cases hne : args.chunkSize = 0
    · obtain rfl := hok.resolve_left (not_not_intro hne)
      refine ⟨0, fun s' hrun => ?_⟩
      rw [mixedLoop_eq] at hrun
      cases hrun
    · refine ⟨rounds args buffer s, fun s' hrun => ?_⟩
      rw [mixedLoop_eq] at hrun
      have hloop : Sat (writeLoopAsync c (usedKernel asyncEncryptor async) random _ buffer s)
          (fun _ s' => Accepted args s') (fun e s' => Fails args e s') :=
        writeLoopAsync_ends hends (usedKernel_ends hkernel async) hne _ buffer s hs le_rfl
      exact (hloop.of_error hrun).2 rfl

end

end ManagedSecurityStream

/-! ## Any writer -/

/-- A writer over a sink that never fails, in any state that calls have left, also after
exceptions. Its next `Write` or `WriteAsync` ends if and only if the chunk size is not 0 or
there is nothing to write; and so does the loop, with whatever number of rounds. -/
theorem writing_ends (c : Cipher) (hends : c.Ends) (asyncEncryptor : Option AsyncEncryptor)
    (hkernel : ∀ kernel ∈ asyncEncryptor, kernel.Ends) (random : ℕ → ℕ → UInt8)
    (sink : InnerStream) (hsink : sink.NeverFails) (args : StreamArguments)
    (s : ManagedSecurityStream) (hcreate : create sink .encrypt args = .ok s)
    (calls : List (Bool × WriteCall)) (t : ManagedSecurityStream)
    (ht : (attempts (mixedCall c asyncEncryptor random) calls s).2 = t) (async : Bool)
    (buffer : Bytes) :
    ((∀ t', mixedCall c asyncEncryptor random (async, .write buffer) t ≠
        .error .nonTermination t') ↔ args.chunkSize ≠ 0 ∨ buffer = []) ∧
      (LoopEnds c asyncEncryptor random async buffer t ↔ args.chunkSize ≠ 0 ∨ buffer = []) := by
  have haccepted : Accepted args t := by
    rw [← ht]
    apply attempts_invariant _ calls s (create_accepted hcreate hsink)
    intro call s' hs'
    exact mixedCall_accepted hends hkernel hs' call
  constructor
  · exact writeCall_ends_iff hends hkernel haccepted async buffer
  · exact loopEnds_iff hends hkernel haccepted async buffer

theorem InnerStream.sink_neverFails (seekable : Bool) : (InnerStream.sink seekable).NeverFails :=
  ⟨rfl, fun _ => rfl⟩

/-- A writer with chunks of four bytes, after one call: the next one ends, too. -/
theorem writing_ends_four :
    ∃ s, create (.sink true) .encrypt maskFour.arguments = .ok s ∧
      LoopEnds maskFour.cipher none maskFour.random true [6, 7]
        (attempts (mixedCall maskFour.cipher none maskFour.random)
          [(false, .write [1, 2, 3, 4, 5])] s).2 := by
  have hfour : maskFour.arguments.chunkSize = 4 := rfl
  rcases create_writes (A := maskFour) (InnerStream.sink_fresh true) with ⟨s, hcreate, -⟩
  refine ⟨s, hcreate, ?_⟩
  have hboth := writing_ends maskFour.cipher maskCipher_ends none (fun _ h => by cases h)
    maskFour.random (.sink true) (InnerStream.sink_neverFails true) maskFour.arguments s hcreate
    [(false, .write [1, 2, 3, 4, 5])] _ rfl true [6, 7]
  apply hboth.2.mpr
  left
  rw [hfour]
  decide

/-- The constructor accepts the chunk size 0, and the first byte is never written. -/
theorem writing_stuck :
    ∃ s, create (.sink true) .encrypt { chunkSize := 0 } = .ok s ∧
      ∀ async, ¬ LoopEnds maskCipher none (fun _ _ => 0) async [1] s := by
  have hcreate : ∃ s, create (.sink true) .encrypt { chunkSize := 0 } = .ok s := ⟨_, rfl⟩
  rcases hcreate with ⟨s, hcreate⟩
  have haccepted := create_accepted hcreate (InnerStream.sink_neverFails true)
  refine ⟨s, hcreate, fun async => ?_⟩
  rw [loopEnds_iff maskCipher_ends (fun _ h => by cases h) haccepted]
  decide

end ManagedSecurity

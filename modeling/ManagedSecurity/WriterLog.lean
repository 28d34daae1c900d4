import ManagedSecurity.ArchiveReading
import ManagedSecurity.CipherInversion

/-! # What a writer encrypts

Every frame of a writer is one call of the primitive, recorded in `gcmCalls`.
On a sink that never fails, and for every configuration the constructor accepts:

* the associated data of the call number `i` end with the number `i`
  (`Numbered`), also in runs that go on after exceptions (`Sealing`);
* as long as no call has thrown, the payloads of the calls and the bytes that
  wait in the buffer are the bytes written so far (`Pending`).

Each method of the writer has one lemma, about both ways it can end.
-/

namespace ManagedSecurity

open Bytes Outcome ManagedSecurityStream

/-- The sink is open, and no write to it throws. -/
structure InnerStream.NeverFails (s : InnerStream) : Prop where
  opened : s.closed = false
  works : ∀ k, s.failing k = false

theorem InnerStream.NeverFails.write {s : InnerStream} (h : s.NeverFails) (bytes : Bytes) :
    ∃ s', InnerStream.write bytes s = .ok () s' ∧ s'.NeverFails := by
  rw [InnerStream.write, get_bind, bind_ok (ensure_true h.opened _ _), h.works,
    if_neg Bool.false_ne_true]
  exact ⟨_, rfl, h.opened, h.works⟩

/-- The associated data of every call end with its place in the log. -/
def Numbered (log : List GcmCall) : Prop :=
  ∀ i g, log[i]? = some g → ∃ front, g.aad = front ++ beBytes 8 (UInt64.ofNat i).toNat

theorem Numbered.snoc {log : List GcmCall} {call : GcmCall} (h : Numbered log) (front : Bytes)
    (hcall : call.aad = front ++ beBytes 8 (UInt64.ofNat log.length).toNat) :
    Numbered (log ++ [call]) := by
  intro i g hget
  rcases Nat.lt_or_ge i log.length with hlt | hge
  · rw [List.getElem?_append_left hlt] at hget
    exact h i g hget
  · rw [List.getElem?_append_right hge, List.getElem?_singleton] at hget
    split_ifs at hget with hlast
    obtain rfl : i = log.length := by omega
    obtain rfl := Option.some.inj hget
    exact ⟨front, hcall⟩

namespace ManagedSecurityStream

/-- The payloads of the frames a writer has made. -/
def framed (s : ManagedSecurityStream) : List Bytes := s.gcmCalls.map GcmCall.plaintext

/-- The invariant of every writer, also after exceptions. -/
structure Sealing (s : ManagedSecurityStream) : Prop where
  sink : s.innerStream.NeverFails
  numbered : Numbered s.gcmCalls
  sequence : s.sequenceNumber = UInt64.ofNat s.gcmCalls.length

/-- The framed payloads and the bytes that wait behind the place reserved for
the header are `content`. -/
structure Pending (s : ManagedSecurityStream) (base : ℕ) (content : Bytes) : Prop where
  size : getRequiredSize s.chunkSize s.keyIndex profileId = .ok (base + s.chunkSize)
  fits : s.bufferPos = 0 ∨ base + s.bufferPos ≤ s.buffer.length
  below : (s.bufferPos : ℤ) ≤ max s.chunkSize 0
  content : s.framed.flatten ++ slice s.buffer base s.bufferPos = content

/-- A step of the writer that returns: the invariant is kept, and `bytes` are
added to what is framed or waits. -/
structure Extends (bytes : Bytes) (s s' : ManagedSecurityStream) : Prop where
  sealing : s'.Sealing
  pending : ∀ base content, s.Pending base content → s'.Pending base (content ++ bytes)

/-- A step that leaves alone what the invariant speaks about, the sink apart. -/
structure Quiet (s s' : ManagedSecurityStream) : Prop where
  sink : s'.innerStream.NeverFails
  chunkSize : s'.chunkSize = s.chunkSize
  keyIndex : s'.keyIndex = s.keyIndex
  buffer : s'.buffer = s.buffer
  bufferPos : s'.bufferPos = s.bufferPos
  sequenceNumber : s'.sequenceNumber = s.sequenceNumber
  gcmCalls : s'.gcmCalls = s.gcmCalls

variable {s s₁ s₂ : ManagedSecurityStream} {xs ys : Bytes}

theorem Extends.trans (h₁ : Extends xs s s₁) (h₂ : Extends ys s₁ s₂) : Extends (xs ++ ys) s s₂ := by
  refine ⟨h₂.sealing, ?_⟩
  intro base content hpending
  rw [← List.append_assoc]
  exact h₂.pending base _ (h₁.pending base content hpending)

theorem Quiet.sealing (h : Quiet s s₁) (hs : s.Sealing) : s₁.Sealing := by
  refine ⟨h.sink, ?_, ?_⟩
  · rw [h.gcmCalls]
    exact hs.numbered
  · rw [h.sequenceNumber, h.gcmCalls]
    exact hs.sequence

theorem Quiet.extends (h : Quiet s s₁) (hs : s.Sealing) : Extends [] s s₁ := by
  refine ⟨h.sealing hs, ?_⟩
  intro base content hpending
  have hframed : s₁.framed = s.framed := congrArg (List.map GcmCall.plaintext) h.gcmCalls
  rw [List.append_nil]
  refine ⟨?_, ?_, ?_, ?_⟩
  · rw [h.chunkSize, h.keyIndex]
    exact hpending.size
  · rw [h.bufferPos, h.buffer]
    exact hpending.fits
  · rw [h.bufferPos, h.chunkSize]
    exact hpending.below
  · rw [hframed, h.buffer, h.bufferPos]
    exact hpending.content

/-! ## Steps that only use the sink -/

/-- However it ends, the program has been quiet. -/
def Silent {α : Type} (x : StreamM α) (s : ManagedSecurityStream) : Prop :=
  Sat (x s) (fun _ s' => Quiet s s') (fun _ s' => Quiet s s')

theorem Quiet.refl (hsink : s.innerStream.NeverFails) : Quiet s s :=
  ⟨hsink, rfl, rfl, rfl, rfl, rfl, rfl⟩

theorem Quiet.trans (h₁ : Quiet s s₁) (h₂ : Quiet s₁ s₂) : Quiet s s₂ :=
  ⟨h₂.sink, h₂.chunkSize.trans h₁.chunkSize, h₂.keyIndex.trans h₁.keyIndex,
    h₂.buffer.trans h₁.buffer, h₂.bufferPos.trans h₁.bufferPos,
    h₂.sequenceNumber.trans h₁.sequenceNumber, h₂.gcmCalls.trans h₁.gcmCalls⟩

theorem Extends.refl (hs : s.Sealing) : Extends [] s s := (Quiet.refl hs.sink).extends hs

theorem silent_bind {α β : Type} {x : StreamM α} {f : α → StreamM β} (hx : Silent x s)
    (hf : ∀ a s', Quiet s s' → Silent (f a) s') : Silent (x >>= f) s := by
  rw [Silent, sat_bind]
  refine hx.mono ?_ (fun _ _ h => h)
  intro a s' h
  exact (hf a s' h).mono (fun _ _ h' => h.trans h') (fun _ _ h' => h.trans h')

theorem silent_get {α : Type} {f : ManagedSecurityStream → StreamM α} (h : Silent (f s) s) :
    Silent (get >>= f) s :=
  h

theorem silent_ofExcept {α : Type} (x : Except Exn α) (hsink : s.innerStream.NeverFails) :
    Silent (ofExcept x) s := by
  cases x with
  | ok a => exact Quiet.refl hsink
  | error e => exact Quiet.refl hsink

theorem silent_onInner {α : Type} {x : InnerM α} (hx : Sat (x s.innerStream)
    (fun _ inner => inner.NeverFails) (fun _ inner => inner.NeverFails)) : Silent (onInner x) s := by
  rw [Silent, onInner, sat_zoom]
  exact hx.mono (fun _ _ h => ⟨h, rfl, rfl, rfl, rfl, rfl, rfl⟩)
    (fun _ _ h => ⟨h, rfl, rfl, rfl, rfl, rfl, rfl⟩)

theorem silent_write (hsink : s.innerStream.NeverFails) (bytes : Bytes) :
    Silent (onInner (InnerStream.write bytes)) s := by
  rcases hsink.write bytes with ⟨inner, hwrite, hinner⟩
  apply silent_onInner
  rw [hwrite]
  exact hinner

theorem silent_getPosition (hsink : s.innerStream.NeverFails) :
    Silent (onInner InnerStream.getPosition) s := by
  apply silent_onInner
  rw [InnerStream.getPosition, get_bind, sat_bind, sat_ensure]
  exact ⟨fun _ => hsink, fun _ => hsink⟩

theorem silent_setPosition (hsink : s.innerStream.NeverFails) (position : ℕ) :
    Silent (onInner (InnerStream.setPosition position)) s := by
  apply silent_onInner
  rw [InnerStream.setPosition, get_bind, sat_bind, sat_ensure]
  exact ⟨fun _ => ⟨hsink.opened, hsink.works⟩, fun _ => hsink⟩

/-- The master header goes to the sink. -/
theorem silent_writeProtocolHeader (hsink : s.innerStream.NeverFails) (off : UInt64) :
    Silent (writeProtocolHeader off) s := by
  have hmaster : Silent (zoom (fun _ => List.replicate MasterHeader.fixedSize (0 : UInt8))
      (fun _ s => s) (do
        MasterHeader.write streamVersion s.chunkSize s.keyIndex
          (UInt16.ofNat (s.metadata.getD []).length) off
        get)) s := by
    rw [Silent, sat_zoom]
    cases (do
        MasterHeader.write streamVersion s.chunkSize s.keyIndex
          (UInt16.ofNat (s.metadata.getD []).length) off
        get : SpanM Bytes) (List.replicate MasterHeader.fixedSize 0) with
    | ok master t => exact Quiet.refl hsink
    | error e t => exact Quiet.refl hsink
  refine silent_get (silent_bind hmaster (fun master s₁ h₁ => ?_))
  refine silent_bind (silent_write h₁.sink master) (fun _ s₂ h₂ => ?_)
  unfold runIf
  split
  · exact silent_write h₂.sink _
  · exact Quiet.refl h₂.sink

/-- The table and the new master header go to the sink. -/
theorem silent_writeSeekTable (hsink : s.innerStream.NeverFails) : Silent writeSeekTable s := by
  refine silent_bind (silent_getPosition hsink) (fun position s₁ h₁ => ?_)
  refine silent_get (silent_bind (silent_ofExcept _ h₁.sink) (fun seekData s₂ h₂ => ?_))
  refine silent_bind (silent_write h₂.sink seekData) (fun _ s₃ h₃ => ?_)
  refine silent_bind (silent_setPosition h₃.sink 0) (fun _ s₄ h₄ => ?_)
  refine silent_bind (silent_writeProtocolHeader h₄.sink _) (fun _ s₅ h₅ => ?_)
  exact silent_setPosition h₅.sink _

/-! ## One frame -/

/-- What the calculator adds to the payload: never less than the fixed parts, and
not more for a smaller payload. -/
theorem overhead_bounds {L L' K size size' : ℤ} (hle : L ≤ max L' 0)
    (hsize : getRequiredSize L K profileId = .ok size)
    (hsize' : getRequiredSize L' K profileId = .ok size') :
    40 ≤ size - L ∧ size - L ≤ size' - L' := by
  unfold getRequiredSize at hsize hsize'
  cases hl : getExtensionCount L with
  | error e =>
    rw [hl] at hsize
    cases hsize
  | ok l =>
    cases hl' : getExtensionCount L' with
    | error e =>
      rw [hl'] at hsize'
      cases hsize'
    | ok l' =>
      cases hk : getExtensionCount K with
      | error e =>
        rw [hl, hk] at hsize
        cases hsize
      | ok k =>
        rw [hl, hk] at hsize
        rw [hl', hk] at hsize'
        have heq := Except.ok.inj hsize
        have heq' := Except.ok.inj hsize'
        have hparts : (builderProfile profileId).sequenceLength = 8 ∧
            (builderProfile profileId).ivLength = 12 ∧ (builderProfile profileId).macLength = 16 := by
          decide
        -- a shorter block never needs more extension bytes
        have hmono : l ≤ l' := by
          unfold getExtensionCount at hl hl'
          split_ifs at hl hl' <;> simp only [Except.ok.injEq] at hl hl' <;> omega
        simp only [hparts, fixedHeaderSize] at heq heq'
        omega

variable {c : Cipher} {random : ℕ → ℕ → UInt8}

/-- The plaintext moves from behind the largest header to behind the actual one. -/
theorem shift_sat (maxOverhead actualOverhead : ℤ) :
    Sat (runIf (actualOverhead < maxOverhead) (do
        let plaintext ← ofExcept (sliceSpan s.buffer maxOverhead s.bufferPos)
        onBuffer (copyTo actualOverhead plaintext)) s)
      (fun _ s' => ∃ b, s' = { s with buffer := b } ∧ b.length = s.buffer.length ∧
        (¬ actualOverhead < maxOverhead → b = s.buffer) ∧
        (actualOverhead < maxOverhead → 0 ≤ actualOverhead ∧
          b = overwrite s.buffer actualOverhead.toNat
            (slice s.buffer maxOverhead.toNat s.bufferPos)))
      (fun _ s' => s' = s) := by
  by_cases hlt : actualOverhead < maxOverhead
  swap
  · rw [runIf_false hlt]
    exact ⟨s.buffer, rfl, rfl, fun _ => rfl, fun h => absurd h hlt⟩
  rw [runIf_true hlt, sat_bind, sat_ofExcept]
  refine ⟨fun plaintext hslice => ?_, fun _ _ => rfl⟩
  rcases sliceSpan_eq_ok.mp hslice with ⟨-, rfl⟩
  rw [onBuffer, sat_zoom, copyTo, get_bind, sat_bind, sat_ensure]
  refine ⟨fun hrange => ?_, fun _ => rfl⟩
  rw [sat_bind, sat_ensure]
  refine ⟨fun hroom => ?_, fun _ => rfl⟩
  refine ⟨_, rfl, length_overwrite (by omega), fun h => absurd hlt h, fun _ => ⟨hrange.1, ?_⟩⟩
  rw [Int.toNat_natCast]

/-- One frame is encrypted in place: one more call, whose plaintext is the window
behind the header and whose associated data end with the sequence number. -/
theorem encryptFrameSync_sat (headerSize : ℤ) :
    Sat (encryptFrameSync c random headerSize s)
      (fun _ s' => ∃ call b front, s' = { s with
          buffer := b
          fills := s.fills + 1
          gcmCalls := s.gcmCalls ++ [call] } ∧
        b.length = s.buffer.length ∧ 0 ≤ headerSize ∧ headerSize + s.bufferPos ≤ s.buffer.length ∧
        call.aad = front ++ beBytes 8 s.sequenceNumber.toNat ∧
        (30 ≤ headerSize → call.plaintext = slice s.buffer headerSize.toNat s.bufferPos))
      (fun _ s' => ∃ b n, s' = { s with buffer := b, fills := n }) := by
  rw [encryptFrameSync, get_bind, sat_bind, sat_ofExcept]
  refine ⟨fun window hslice => ?_, fun _ _ => ⟨s.buffer, s.fills, rfl⟩⟩
  rcases sliceSpan_eq_ok.mp hslice with ⟨⟨hpos, -, hfit⟩, -⟩
  rw [modify_bind, sat_bind, onBuffer, sat_zoom]
  have hprofile : c.encrypt (random s.fills) (.window headerSize.toNat s.bufferPos) s.keyIndex
      profileId s.sequenceNumber = c.encryptS2 (random s.fills)
        (.window headerSize.toNat s.bufferPos) s.keyIndex s.sequenceNumber := rfl
  rw [hprofile]
  cases hrun : c.encryptS2 (random s.fills) (.window headerSize.toNat s.bufferPos) s.keyIndex
      s.sequenceNumber s.buffer with
  | error e b => exact ⟨b, s.fills + 1, rfl⟩
  | ok call b =>
    rcases Cipher.encryptS2_inv hrun with ⟨h, front, d, -, -, hsame, hplain, haad, -, -, -, hwritten⟩
    refine ⟨call, b, front, rfl, hwritten.length, hpos, hfit, haad, ?_⟩
    intro h30
    rw [hplain]
    exact hsame.slice (by omega)

/-- A frame is made and written to the sink, or nothing is recorded. -/
theorem emitFrame_sat (hs : s.Sealing) :
    Sat (emitFrame c random s)
      (fun _ s' => Extends [] s s' ∧ s'.bufferPos = 0)
      (fun _ s' => s'.Sealing ∧ s'.gcmCalls = s.gcmCalls) := by
  rw [emitFrame, get_bind, sat_bind, sat_ofExcept]
  refine ⟨fun maxSize hmax => ?_, fun _ _ => ⟨hs, rfl⟩⟩
  rw [sat_bind, sat_ofExcept]
  refine ⟨fun packetSize hpacket => ?_, fun _ _ => ⟨hs, rfl⟩⟩
  rw [sat_bind]
  refine (shift_sat _ _).mono ?_ ?_
  swap
  · rintro e s' rfl
    exact ⟨hs, rfl⟩
  rintro - s' ⟨b, rfl, hlenb, hstay, hshift⟩
  rw [sat_bind]
  refine (encryptFrameSync_sat _).mono ?_ ?_
  swap
  · rintro e s' ⟨b', n, rfl⟩
    exact ⟨⟨hs.sink, hs.numbered, hs.sequence⟩, rfl⟩
  rintro - s' ⟨call, b', front, rfl, hlen, hpos, hfit, haad, hplain⟩
  rw [get_bind, sat_bind, sat_ofExcept]
  replace hlen : b'.length = b.length := hlen
  replace hfit : packetSize - s.bufferPos + s.bufferPos ≤ b.length := hfit
  -- the check of `EncryptFrameSync` has covered the whole frame
  have hwhole : sliceSpan b' 0 packetSize = .ok (slice b' 0 packetSize.toNat) :=
    sliceSpan_eq_ok.mpr ⟨⟨le_rfl, by omega, by omega⟩, rfl⟩
  refine ⟨fun packet _ => ?_, fun e herror => ?_⟩
  swap
  · cases hwhole.symm.trans herror
  rcases hs.sink.write packet with ⟨inner, hwrite, hinner⟩
  rw [sat_bind, onInner, sat_zoom]
  show Sat (InnerStream.write packet s.innerStream) _ _
  rw [hwrite]
  refine ⟨⟨⟨hinner, ?_, ?_⟩, ?_⟩, rfl⟩
  · apply hs.numbered.snoc front
    rw [haad, ← hs.sequence]
  · show s.sequenceNumber + 1 = UInt64.ofNat (s.gcmCalls ++ [call]).length
    rw [hs.sequence, List.length_append, List.length_singleton, UInt64.ofNat_add]
    rfl
  intro base content hpending
  have hbase : maxSize = base + s.chunkSize := Except.ok.inj (hmax.symm.trans hpending.size)
  rcases overhead_bounds hpending.below hpacket hmax with ⟨h40, hactual⟩
  have hlength : (slice s.buffer base s.bufferPos).length = s.bufferPos := by
    have hfits := hpending.fits
    rw [length_slice]
    omega
  -- whether it has moved or not, the window holds what was waiting
  have hwindow : slice b (packetSize - s.bufferPos).toNat s.bufferPos =
      slice s.buffer base s.bufferPos := by
    by_cases hlt : packetSize - s.bufferPos < maxSize - s.chunkSize
    · rcases hshift hlt with ⟨-, rfl⟩
      have hmaxNat : (maxSize - s.chunkSize).toNat = base := by omega
      rw [hmaxNat]
      have hself : slice (overwrite s.buffer (packetSize - s.bufferPos).toNat
          (slice s.buffer base s.bufferPos)) (packetSize - s.bufferPos).toNat
            (slice s.buffer base s.bufferPos).length = slice s.buffer base s.bufferPos :=
        slice_overwrite_self (by omega)
      rwa [hlength] at hself
    · have heq : (packetSize - s.bufferPos).toNat = base := by omega
      rw [hstay hlt, heq]
  refine ⟨hpending.size, Or.inl rfl, le_max_right _ _, ?_⟩
  · show ((s.gcmCalls ++ [call]).map GcmCall.plaintext).flatten ++ slice b' base 0 = content ++ []
    have hcall : call.plaintext = slice s.buffer base s.bufferPos :=
      (hplain (by omega)).trans hwindow
    rw [List.map_append, List.map_singleton, List.flatten_append, List.flatten_singleton,
      slice_len_zero, List.append_nil, List.append_nil, hcall]
    exact hpending.content

theorem processCurrentBlock_sat (hs : s.Sealing) (isFinal : Bool) :
    Sat (processCurrentBlock c random isFinal s)
      (fun _ s' => Extends [] s s')
      (fun _ s' => s'.Sealing ∧ s'.gcmCalls = s.gcmCalls) := by
  rw [processCurrentBlock, get_bind]
  by_cases hskip : s.bufferPos = 0 ∧ isFinal = false
  · rw [if_pos hskip]
    exact Extends.refl hs
  · rw [if_neg hskip]
    exact (emitFrame_sat hs).mono (fun _ _ h => h.1) (fun _ _ h => h)

/-! ## The calls -/

/-- A piece is copied behind what waits in the buffer. -/
theorem copyPiece_extends (piece : Bytes) (base : ℤ) (hs : s.Sealing)
    (hbase : getRequiredSize s.chunkSize s.keyIndex profileId = .ok (base + s.chunkSize))
    (hstart : 0 ≤ base + s.bufferPos) (hroom : base + s.bufferPos + piece.length ≤ s.buffer.length)
    (hbelow : (s.bufferPos : ℤ) + piece.length ≤ s.chunkSize) :
    Extends piece s { s with
      buffer := overwrite s.buffer (base + s.bufferPos).toNat piece
      bufferPos := s.bufferPos + piece.length } := by
  refine ⟨⟨hs.sink, hs.numbered, hs.sequence⟩, ?_⟩
  intro b content hpending
  have heq : (b : ℤ) = base := by
    have := Except.ok.inj (hpending.size.symm.trans hbase)
    omega
  have hoff : (base + s.bufferPos).toNat = b + s.bufferPos := by omega
  have hlen : (overwrite s.buffer (b + s.bufferPos) piece).length = s.buffer.length :=
    length_overwrite (by omega)
  refine ⟨hpending.size, ?_, ?_, ?_⟩
  · apply Or.inr
    show b + (s.bufferPos + piece.length) ≤ (overwrite s.buffer (base + s.bufferPos).toNat piece).length
    rw [hoff, hlen]
    omega
  · show ((s.bufferPos + piece.length : ℕ) : ℤ) ≤ max s.chunkSize 0
    have := le_max_left s.chunkSize 0
    push_cast
    omega
  -- what was waiting stays in front of the new piece
  · show s.framed.flatten ++ slice (overwrite s.buffer (base + s.bufferPos).toNat piece) b
      (s.bufferPos + piece.length) = content ++ piece
    have hfront : slice (overwrite s.buffer (b + s.bufferPos) piece) b s.bufferPos =
        slice s.buffer b s.bufferPos := slice_overwrite_before le_rfl (by omega)
    have hback : slice (overwrite s.buffer (b + s.bufferPos) piece) (b + s.bufferPos) piece.length =
        piece := slice_overwrite_self (by omega)
    rw [hoff, ← slice_append_slice, hfront, hback, ← List.append_assoc, hpending.content]

/-- The loop of `Write`, from any state and with any fuel. -/
theorem writeLoop_sat :
    ∀ (fuel : ℕ) (remaining : Bytes) (s : ManagedSecurityStream), s.Sealing →
      Sat (writeLoop c random fuel remaining s) (fun _ s' => Extends remaining s s')
        (fun _ s' => s'.Sealing) := by
  intro fuel
  induction fuel with
  | zero =>
    intro remaining s hs
    rw [writeLoop]
    by_cases hnil : remaining = []
    · rw [if_pos hnil, hnil]
      exact Extends.refl hs
    · rw [if_neg hnil]
      exact hs
  | succ fuel ih =>
    intro remaining s hs
    rw [writeLoop]
    by_cases hnil : remaining = []
    · rw [if_pos hnil, hnil]
      exact Extends.refl hs
    rw [if_neg hnil, get_bind, sat_bind, sat_ofExcept]
    refine ⟨fun maxSize hmax => ?_, fun _ _ => hs⟩
    rw [sat_bind, sat_ofExcept]
    refine ⟨fun piece hslice => ?_, fun _ _ => hs⟩
    set toCopy : ℤ := min remaining.length (s.chunkSize - s.bufferPos) with htoCopy
    rcases sliceSpan_eq_ok.mp hslice with ⟨⟨-, hpos, hle⟩, hpiece⟩
    have hsplit : piece = remaining.take toCopy.toNat := by
      rw [hpiece, Int.toNat_zero, slice_zero]
    have hlen : (piece.length : ℤ) = toCopy := by
      rw [hsplit, List.length_take]
      omega
    have hmin : toCopy ≤ s.chunkSize - s.bufferPos := min_le_right _ _
    rw [sat_bind, onBuffer, sat_zoom, copyTo, get_bind, sat_bind, sat_ensure]
    refine ⟨fun hrange => ?_, fun _ => hs⟩
    rw [sat_bind, sat_ensure]
    refine ⟨fun hroom => ?_, fun _ => hs⟩
    have hcopied := copyPiece_extends piece (maxSize - s.chunkSize) hs
      (by rw [hmax, Int.sub_add_cancel]) hrange.1 hroom (by omega)
    have hadvance : s.bufferPos + toCopy.toNat = s.bufferPos + piece.length := by omega
    rw [set_run, sat_ok, modify_bind, get_bind, sat_bind, hadvance]
    -- the copied piece may fill the block, which is then emitted before the next round
    have hblock : ∀ s₁ : ManagedSecurityStream, Extends piece s s₁ →
        Sat (runIf ((s₁.bufferPos : ℤ) = s₁.chunkSize) (processCurrentBlock c random false) s₁)
          (fun _ s' => Sat (writeLoop c random fuel (remaining.drop toCopy.toNat) s')
            (fun _ s'' => Extends remaining s s'') (fun _ s'' => s''.Sealing))
          (fun _ s' => s'.Sealing) := by
      intro s₁ h₁
      have hrest : ∀ s₂, Extends [] s₁ s₂ →
          Sat (writeLoop c random fuel (remaining.drop toCopy.toNat) s₂)
            (fun _ s'' => Extends remaining s s'') (fun _ s'' => s''.Sealing) := by
        intro s₂ h₂
        refine (ih _ s₂ h₂.sealing).mono ?_ (fun _ _ h => h)
        intro _ s'' h₃
        have htrans := (h₁.trans h₂).trans h₃
        rwa [List.append_nil, hsplit, List.take_append_drop] at htrans
      by_cases hfull : (s₁.bufferPos : ℤ) = s₁.chunkSize
      · rw [runIf_true hfull]
        exact (processCurrentBlock_sat h₁.sealing false).mono (fun _ s₂ h₂ => hrest s₂ h₂)
          (fun _ _ h => h.1)
      · rw [runIf_false hfull]
        exact hrest s₁ (Extends.refl h₁.sealing)
    exact hblock _ hcopied

theorem write_sat (hs : s.Sealing) (bytes : Bytes) :
    Sat (write c random bytes s) (fun _ s' => Extends bytes s s') (fun _ s' => s'.Sealing) := by
  rw [write, get_bind, sat_bind, sat_ensure]
  refine ⟨fun _ => ?_, fun _ => hs⟩
  have hloop : ∀ s₁, Extends [] s s₁ → Sat (writeLoop c random (bytes.length + 1) bytes s₁)
      (fun _ s' => Extends bytes s s') (fun _ s' => s'.Sealing) := by
    intro s₁ h₁
    exact (writeLoop_sat _ bytes s₁ h₁.sealing).mono (fun _ _ h => h₁.trans h) (fun _ _ h => h)
  rw [sat_bind]
  by_cases hnew : s.isHeaderProcessed = false
  · rw [runIf_true hnew, sat_bind]
    refine (silent_writeProtocolHeader hs.sink 0).mono ?_ (fun _ _ h => h.sealing hs)
    intro _ s₁ h₁
    refine hloop _ (Quiet.extends ?_ hs)
    exact h₁.trans ⟨h₁.sink, rfl, rfl, rfl, rfl, rfl, rfl⟩
  · rw [runIf_false hnew]
    exact hloop s (Extends.refl hs)

/-- The recording of a seek point never throws. -/
theorem recordPoint_eq (s : ManagedSecurityStream) (timestampMs : Option UInt32) (elapsedMs : UInt32) :
    ∃ points, (runIf (s.innerStream.canSeek = true) (do
      let position ← onInner InnerStream.getPosition
      modify fun s => { s with seekPoints := s.seekPoints ++ [{
        relativeTimestampMs := timestampMs.getD elapsedMs
        fileOffset := UInt64.ofNat position
        frameIndex := s.sequenceNumber.toUInt32 }] }) : StreamM Unit) s =
          .ok () { s with seekPoints := points } := by
  by_cases hseek : s.innerStream.canSeek = true
  · rw [runIf_true hseek, bind_ok (onInner_ok (InnerStream.getPosition_eq hseek))]
    exact ⟨_, rfl⟩
  · rw [runIf_false hseek]
    exact ⟨s.seekPoints, rfl⟩

theorem flushToFrame_sat (hs : s.Sealing) (timestampMs : Option UInt32) (elapsedMs : UInt32) :
    Sat (flushToFrame c random timestampMs elapsedMs s)
      (fun _ s' => Extends [] s s') (fun _ s' => s'.Sealing) := by
  rw [flushToFrame, get_bind, sat_bind, sat_ensure]
  refine ⟨fun _ => ?_, fun _ => hs⟩
  rcases recordPoint_eq s timestampMs elapsedMs with ⟨points, hrecord⟩
  rw [bind_ok hrecord]
  have hquiet : Quiet s { s with seekPoints := points } := ⟨hs.sink, rfl, rfl, rfl, rfl, rfl, rfl⟩
  exact (processCurrentBlock_sat (hquiet.sealing hs) false).mono
    (fun _ _ h => (hquiet.extends hs).trans h) (fun _ _ h => h.1)

theorem writeCall_sat (hs : s.Sealing) (call : WriteCall) :
    Sat (writeCall c random call s) (fun _ s' => Extends call.bytes s s') (fun _ s' => s'.Sealing) := by
  cases call with
  | write bytes => exact write_sat hs bytes
  | flushToFrame timestampMs elapsedMs => exact flushToFrame_sat hs timestampMs elapsedMs

/-- What is known of a writer after `Dispose`, whichever way it has ended: the
frames are numbered and hold no more than was written. -/
structure Finished (s s' : ManagedSecurityStream) : Prop where
  numbered : Numbered s'.gcmCalls
  framed : ∀ base content, s.Pending base content → s'.framed.flatten <+: content

theorem Extends.finished (h : Extends [] s s₁) (h₁ : s₂.gcmCalls = s₁.gcmCalls) : Finished s s₂ := by
  have hframed : s₂.framed = s₁.framed := congrArg (List.map GcmCall.plaintext) h₁
  constructor
  · rw [h₁]
    exact h.sealing.numbered
  · intro base content hpending
    rw [hframed]
    have hcontent := (h.pending base content hpending).content
    rw [List.append_nil] at hcontent
    exact ⟨_, hcontent⟩

theorem finish_sat (hs : s.Sealing) :
    Sat (finish c random s) (fun _ s' => Finished s s') (fun _ s' => Finished s s') := by
  rw [finish, sat_bind]
  refine (processCurrentBlock_sat hs true).mono ?_ ?_
  · intro _ s₁ h₁
    rw [modify_bind, get_bind]
    unfold runIf
    split
    · have htable := silent_writeSeekTable (s := { s₁ with isFinalBlockProcessed := true })
        h₁.sealing.sink
      exact htable.mono (fun _ _ h => h₁.finished h.gcmCalls) (fun _ _ h => h₁.finished h.gcmCalls)
    · exact h₁.finished rfl
  · intro _ s₁ h₁
    exact (Extends.refl hs).finished h₁.2

theorem dispose_sat (hs : s.Sealing) :
    Sat (dispose c random s) (fun _ s' => Finished s s') (fun _ s' => Finished s s') := by
  have hclose : ∀ s₁, Finished s s₁ → Sat ((do
      let s ← get
      runIf (s.leaveOpen = false) (onInner InnerStream.dispose) : StreamM Unit) s₁)
        (fun _ s' => Finished s s') (fun _ s' => Finished s s') := by
    intro s₁ h₁
    rw [get_bind]
    unfold runIf
    split
    · exact ⟨h₁.numbered, h₁.framed⟩
    · exact h₁
  rw [dispose, get_bind, sat_bind]
  unfold runIf
  split
  · exact (finish_sat hs).mono (fun _ s₁ h₁ => hclose s₁ h₁) (fun _ _ h => h)
  · exact hclose s ((Extends.refl hs).finished rfl)

/-! ## Runs -/

/-- A writer with the default first sequence number, over a sink that never
fails. -/
theorem create_sealing {sink : InnerStream} {args : StreamArguments}
    (hcreate : create sink .encrypt args = .ok s) (hfirst : args.initialSequence = 0)
    (hsink : sink.NeverFails) : s.Sealing ∧ ∃ base, s.Pending base [] := by
  rcases create_inv hcreate with ⟨size, hsize, hpos, rfl⟩
  have hbase : 40 ≤ size - args.chunkSize := (overhead_bounds (le_max_left _ _) hsize hsize).1
  refine ⟨⟨hsink, ?_, hfirst⟩, (size - args.chunkSize).toNat, ?_, Or.inl rfl, le_max_right _ _, ?_⟩
  · intro i g hget
    cases hget
  · show getRequiredSize args.chunkSize args.keyIndex profileId = _
    rw [hsize, Int.toNat_of_nonneg (by omega), Int.sub_add_cancel]
  · show [] ++ slice _ _ 0 = []
    rw [slice_len_zero, List.nil_append]

/-- Calls that go on after exceptions keep the invariant. -/
theorem sealing_attempts (hs : s.Sealing) (calls : List WriteCall) :
    (attempts (writeCall c random) calls s).2.Sealing := by
  refine attempts_invariant ?_ calls s hs
  intro call s' hs'
  exact (writeCall_sat hs' call).mono (fun _ _ h => h.sealing) (fun _ _ h => h)

/-- Calls that all return write their bytes. -/
theorem extends_attempts :
    ∀ (calls : List WriteCall) (s : ManagedSecurityStream), s.Sealing →
      (∀ r ∈ (attempts (writeCall c random) calls s).1, r = .ok ()) →
      Extends (writtenBytes calls) s (attempts (writeCall c random) calls s).2 := by
  intro calls
  induction calls with
  | nil =>
    intro s hs _
    exact Extends.refl hs
  | cons call calls ih =>
    intro s hs hreturned
    have hcall : Sat (writeCall c random call s) (fun _ s' => Extends call.bytes s s')
        (fun _ s' => s'.Sealing) := writeCall_sat hs call
    cases hrun : writeCall c random call s with
    | error e s₁ =>
      rw [attempts_error hrun] at hreturned
      cases hreturned _ List.mem_cons_self
    | ok u s₁ =>
      have h₁ := hcall.of_ok hrun
      rw [attempts_ok hrun] at hreturned ⊢
      have hrest := ih s₁ h₁.sealing (fun r hr => hreturned r (List.mem_cons_of_mem _ hr))
      exact h₁.trans hrest

end ManagedSecurityStream

end ManagedSecurity

import ManagedSecurity.AsyncWriting

/-! # A sink that fails

`ProcessCurrentBlock` encrypts in place and writes the frame to the sink before it
resets the buffer. When the write throws, the block still counts as waiting, and
the frame stands in the buffer: a block that does not fit in front of the place
reserved for it has been overwritten (`Spoils`).

* `emitFrame_accepted`, `emitFrame_refused`: the two ways a frame can end;
* `Archiver.Sound`: what waits is the end of what has been written, kept by every
  step until a call throws on a spoilt block;
* `Archiver.Spoilt`: from there on, steps that deliver no frame do no harm;
* `delivered_intact`: runs that stop delivering once a block is spoilt.
-/

namespace ManagedSecurity

open Bytes Outcome ManagedSecurityStream

theorem Sealer.frameOf_callFor (S : Sealer) (s : ManagedSecurityStream) (p : Bytes) :
    S.cipher.frameOf (S.callFor s p) = S.frameFor s p :=
  List.append_assoc _ _ _

/-- The next write to the sink goes through. -/
def InnerStream.Accepts (inner : InnerStream) : Prop :=
  inner.closed = false ∧ inner.failing inner.writes = false

instance (inner : InnerStream) : Decidable inner.Accepts := inferInstanceAs (Decidable (_ ∧ _))

theorem InnerStream.write_accepted {inner : InnerStream} (h : inner.Accepts) (bytes : Bytes) :
    ∃ inner', InnerStream.write bytes inner = .ok () inner' := by
  rw [InnerStream.write, get_bind, bind_ok (ensure_true h.1 _ _), h.2, if_neg Bool.false_ne_true]
  exact ⟨_, rfl⟩

theorem InnerStream.write_refused {inner : InnerStream} (h : ¬ inner.Accepts) (bytes : Bytes) :
    ∃ e inner', InnerStream.write bytes inner = .error e inner' := by
  rw [InnerStream.write, get_bind]
  by_cases hopen : inner.closed = false
  · have hfailing : inner.failing inner.writes = true := by
      rw [← Bool.not_eq_false]
      exact fun hworks => h ⟨hopen, hworks⟩
    rw [bind_ok (ensure_true hopen _ _), if_pos hfailing]
    exact ⟨_, _, rfl⟩
  · rw [bind_error (ensure_false hopen _ _)]
    exact ⟨_, _, rfl⟩

/-! ## One frame on such a sink -/

section

variable {S : Sealer} {s : ManagedSecurityStream} {p : Bytes}

/-- The frame reaches the sink, and the buffer is empty. -/
theorem emitFrame_accepted (hw : S.Waits s p) (h : s.innerStream.Accepts) :
    ∃ inner, emitFrame S.cipher S.random s = .ok () { S.sealed s p with
        bufferPos := 0
        sequenceNumber := s.sequenceNumber + 1
        innerStream := inner } ∧
      S.Waits { S.sealed s p with
        bufferPos := 0
        sequenceNumber := s.sequenceNumber + 1
        innerStream := inner } [] := by
  obtain ⟨inner, hwrite⟩ : ∃ inner, InnerStream.write (S.frameFor s p)
      (S.sealed s p).innerStream = .ok () inner := InnerStream.write_accepted h _
  refine ⟨inner, ?_, ?_⟩
  · rw [emitFrame_seals hw]
    exact bind_ok (onInner_ok hwrite)
  · exact {
      keyIndex := hw.keyIndex
      chunkSize := hw.chunkSize
      buffer := (Sealer.length_sealed hw).trans hw.buffer
      count := rfl
      fits := Nat.zero_le _
      plaintext := slice_len_zero _ _ }

/-- The frame does not reach the sink, but it stands in the buffer. What waits is
still the plaintext if the frame ends in front of it. -/
theorem emitFrame_refused (hw : S.Waits s p) (h : ¬ s.innerStream.Accepts) :
    ∃ e inner, emitFrame S.cipher S.random s = .error e { S.sealed s p with innerStream := inner } ∧
      ∃ q, S.Waits { S.sealed s p with innerStream := inner } q ∧
        (overhead p.length S.keyIndex + p.length ≤ overhead S.chunkSize S.keyIndex → q = p) := by
  obtain ⟨e, inner, hwrite⟩ : ∃ e inner, InnerStream.write (S.frameFor s p)
      (S.sealed s p).innerStream = .error e inner := InnerStream.write_refused h _
  have hbuffer := (Sealer.length_sealed hw).trans hw.buffer
  have hfits := hw.fits
  have hlen : (slice (S.sealed s p).buffer (overhead S.chunkSize S.keyIndex) p.length).length =
      p.length := length_slice_of_le (by omega)
  refine ⟨e, inner, ?_, slice (S.sealed s p).buffer (overhead S.chunkSize S.keyIndex) p.length, ?_, ?_⟩
  · rw [emitFrame_seals hw]
    exact bind_error (onInner_error hwrite)
  · exact {
      keyIndex := hw.keyIndex
      chunkSize := hw.chunkSize
      buffer := hbuffer
      count := hw.count.trans hlen.symm
      fits := hlen.trans_le hw.fits
      plaintext := by rw [hlen] }
  -- the frame ends before the plaintext of the buffer begins
  · intro hfront
    have hcut : (S.sealed s p).buffer.drop (overhead S.chunkSize S.keyIndex) =
        s.buffer.drop (overhead S.chunkSize S.keyIndex) := by
      show (S.frameFor s p ++ s.buffer.drop _).drop _ = _
      rw [List.drop_append, List.drop_eq_nil_of_le (by rw [Sealer.length_frameFor]; exact hfront),
        List.nil_append, List.drop_drop, Sealer.length_frameFor, Nat.add_sub_cancel' hfront]
    rw [slice, hcut]
    exact hw.plaintext

end

/-! ## What the caller does -/

namespace CallerStep

/-- The step makes a frame of what waits, with what it writes itself. -/
def SealsFrame (s : ManagedSecurityStream) : CallerStep → Prop
  | .call _ (.write buffer) => buffer ≠ [] ∧ s.chunkSize ≤ s.bufferPos + buffer.length
  | .call _ (.flushToFrame _ _) => 0 < s.bufferPos
  | .dispose _ => s.isFinalBlockProcessed = false

/-- And the sink takes it. -/
def Delivers (s : ManagedSecurityStream) (step : CallerStep) : Prop :=
  step.SealsFrame s ∧ s.innerStream.Accepts

instance (s : ManagedSecurityStream) : ∀ step : CallerStep, Decidable (step.SealsFrame s)
  | .call _ (.write _) => inferInstanceAs (Decidable (_ ∧ _))
  | .call _ (.flushToFrame _ _) => inferInstanceAs (Decidable (0 < _))
  | .dispose _ => inferInstanceAs (Decidable (_ = _))

instance (s : ManagedSecurityStream) (step : CallerStep) : Decidable (step.Delivers s) :=
  inferInstanceAs (Decidable (_ ∧ _))

end CallerStep

section

variable (c : Cipher) (asyncEncryptor : Option AsyncEncryptor) (random : ℕ → ℕ → UInt8)

/-- The frames that have reached the sink in a step. The sequence number is advanced
when the write has returned, and the exception of a write ends the step, so at most
the last frame is missing. -/
def deliveredBetween (s s' : ManagedSecurityStream) : List GcmCall :=
  let made := s'.gcmCalls.drop s.gcmCalls.length
  if s'.sequenceNumber = s.sequenceNumber + UInt64.ofNat made.length then made else made.dropLast

/-- The frames that reach the sink in a run of steps, which goes on after exceptions. -/
def delivered : List CallerStep → ManagedSecurityStream → List GcmCall
  | [], _ => []
  | step :: steps, s =>
    let s' := finalState (callerStep c asyncEncryptor random step s)
    deliveredBetween s s' ++ delivered steps s'

/-- No step of the run delivers a frame. -/
def DeliversNone : List CallerStep → ManagedSecurityStream → Prop
  | [], _ => True
  | step :: steps, s =>
    ¬ step.Delivers s ∧ DeliversNone steps (finalState (callerStep c asyncEncryptor random step s))

end

/-- The frame made of the block that waits does not end in front of it. -/
def Sealer.Spoils (S : Sealer) (s : ManagedSecurityStream) : Prop :=
  overhead S.chunkSize S.keyIndex < overhead s.bufferPos S.keyIndex + s.bufferPos

instance (S : Sealer) (s : ManagedSecurityStream) : Decidable (S.Spoils s) :=
  inferInstanceAs (Decidable (_ < _))

/-- Once a step has thrown and left a block behind that its frame has overwritten, no
step delivers a frame. -/
def Archiver.Careful (A : Archiver) (asyncEncryptor : Option AsyncEncryptor) :
    List CallerStep → ManagedSecurityStream → Prop
  | [], _ => True
  | step :: steps, s =>
    let r := callerStep A.cipher asyncEncryptor A.random step s
    if threw r = true ∧ A.Spoils (finalState r) then
      DeliversNone A.cipher asyncEncryptor A.random steps (finalState r)
    else
      A.Careful asyncEncryptor steps (finalState r)

instance DeliversNone.decidable (c : Cipher) (asyncEncryptor : Option AsyncEncryptor)
    (random : ℕ → ℕ → UInt8) :
    ∀ steps s, Decidable (DeliversNone c asyncEncryptor random steps s)
  | [], _ => .isTrue trivial
  | step :: steps, s =>
    have := DeliversNone.decidable c asyncEncryptor random steps
      (finalState (callerStep c asyncEncryptor random step s))
    inferInstanceAs (Decidable (_ ∧ _))

instance Archiver.Careful.decidable (A : Archiver) (asyncEncryptor : Option AsyncEncryptor) :
    ∀ steps s, Decidable (A.Careful asyncEncryptor steps s)
  | [], _ => .isTrue trivial
  | step :: steps, s =>
    have := Archiver.Careful.decidable A asyncEncryptor steps
      (finalState (callerStep A.cipher asyncEncryptor A.random step s))
    inferInstanceAs (Decidable (
      if threw (callerStep A.cipher asyncEncryptor A.random step s) = true ∧
          A.Spoils (finalState (callerStep A.cipher asyncEncryptor A.random step s)) then
        DeliversNone A.cipher asyncEncryptor A.random steps
          (finalState (callerStep A.cipher asyncEncryptor A.random step s))
      else
        A.Careful asyncEncryptor steps
          (finalState (callerStep A.cipher asyncEncryptor A.random step s))))

/-- Every frame that is in the sink after the steps decrypts to bytes that stand next to
each other in what was passed to `Write`. -/
def Archiver.KeepsPlaintext (A : Archiver) (asyncEncryptor : Option AsyncEncryptor)
    (steps : List CallerStep) (s : ManagedSecurityStream) : Prop :=
  ∀ g ∈ delivered A.cipher asyncEncryptor A.random steps s,
    A.cipher.frameOf g <:+:
        (attempts (callerStep A.cipher asyncEncryptor A.random) steps s).2.innerStream.data →
      ∃ p, A.cipher.decrypt (A.cipher.frameOf g) = .ok p ∧ p <:+: steps.flatMap CallerStep.bytes

/-! ## The invariant -/

namespace Archiver

variable (A : Archiver)

/-- A call of the primitive whose frame decrypts to bytes that stand next to each other
in what has been written. -/
def Intact (written : Bytes) (g : GcmCall) : Prop :=
  A.cipher.decrypt (A.cipher.frameOf g) = .ok g.plaintext ∧ g.plaintext <:+: written

/-- The block `p` waits in an object that can be written to. -/
structure Collects (s : ManagedSecurityStream) (p : Bytes) : Prop extends A.Waits s p where
  mode : s.mode = .encrypt
  header : s.isHeaderProcessed = false → p = []

/-- What waits is the end of what has been written, and so far every frame is a part of
it. -/
structure Sound (s : ManagedSecurityStream) (written : Bytes) : Prop where
  waits : ∃ p, A.Collects s p ∧ p.length < A.chunkSize ∧ p <:+ written
  intact : ∀ g ∈ s.gcmCalls, A.Intact written g

/-- A block waits, whatever it is by now. -/
structure Spoilt (s : ManagedSecurityStream) : Prop where
  waits : ∃ q, A.Collects s q
  header : s.isHeaderProcessed = true

/-- After an exception: either nothing is lost, or the frame has overwritten the block. -/
structure Thrown (s : ManagedSecurityStream) (written : Bytes) : Prop where
  intact : ∀ g ∈ s.gcmCalls, A.Intact written g
  block : A.Sound s written ∨ A.Spoilt s ∧ A.Spoils s

end Archiver

section

variable {A : Archiver} {asyncEncryptor : Option AsyncEncryptor} {s s' : ManagedSecurityStream}
  {p written : Bytes}

theorem Archiver.Intact.mono {g : GcmCall} (h : A.Intact written g) (more : Bytes) :
    A.Intact (written ++ more) g :=
  ⟨h.1, h.2.trans (List.prefix_append _ _).isInfix⟩

/-- A frame made of what waits. -/
theorem Archiver.Waits.intact (hinv : A.cipher.crypto.Inverts) (hw : A.Waits s p)
    (hp : p <:+ written) : A.Intact written (A.callFor s p) := by
  have hlen : p.length < 2 ^ 25 := lt_of_le_of_lt hw.fits A.chunkSize_lt
  have hdecrypt : A.cipher.decrypt (A.frameFor s p ++ []) = .ok p :=
    Cipher.decrypt_messageS2 hinv A.provided A.valid (length_fill (A.random s.fills) 12) hlen
      A.keyIndex_lt []
  refine ⟨?_, hp.isInfix⟩
  rw [List.append_nil, ← A.frameOf_callFor] at hdecrypt
  exact hdecrypt

theorem Archiver.Waits.not_spoils (hw : A.Waits s []) : ¬ A.Spoils s := by
  have hmono := overhead_mono A.keyIndex (Nat.zero_le A.chunkSize)
  unfold Sealer.Spoils
  rw [hw.count, List.length_nil]
  omega

theorem Archiver.Collects.started (h : A.Collects s p) (hp : p ≠ []) : s.isHeaderProcessed = true := by
  by_contra hnew
  exact hp (h.header (Bool.eq_false_iff.mpr hnew))

theorem Archiver.Sound.spoilt (h : A.Sound s written) (hspoils : A.Spoils s) : A.Spoilt s := by
  rcases h.waits with ⟨p, hp, -, -⟩
  refine ⟨⟨p, hp⟩, hp.started ?_⟩
  rintro rfl
  exact Archiver.Waits.not_spoils hp.toWaits hspoils

/-- With the block lost, it does not matter what else was written. -/
theorem Archiver.Thrown.mono (h : A.Thrown s written) (hspoils : A.Spoils s) (more : Bytes) :
    A.Thrown s (written ++ more) := by
  refine ⟨fun g hg => (h.intact g hg).mono more, Or.inr ⟨?_, hspoils⟩⟩
  rcases h.block with hsound | ⟨hspoilt, -⟩
  · exact hsound.spoilt hspoils
  · exact hspoilt

/-! ## Steps that only use the sink -/

/-- However it ends, the program has changed nothing but the sink. -/
def UsesSink {α : Type} (x : StreamM α) : Prop :=
  ∀ s, Sat (x s) (fun _ s' => ∃ inner, s' = { s with innerStream := inner })
    (fun _ s' => ∃ inner, s' = { s with innerStream := inner })

theorem usesSink_bind {α β : Type} {x : StreamM α} {f : α → StreamM β} (hx : UsesSink x)
    (hf : ∀ a, UsesSink (f a)) : UsesSink (x >>= f) := by
  intro s
  rw [sat_bind]
  refine (hx s).mono ?_ (fun _ _ h => h)
  rintro a - ⟨inner, rfl⟩
  refine (hf a _).mono ?_ ?_
  · rintro - - ⟨inner', rfl⟩
    exact ⟨inner', rfl⟩
  · rintro - - ⟨inner', rfl⟩
    exact ⟨inner', rfl⟩

theorem usesSink_get {α : Type} {f : ManagedSecurityStream → StreamM α} (h : ∀ s, UsesSink (f s)) :
    UsesSink (get >>= f) :=
  fun s => h s s

theorem usesSink_ofExcept {α : Type} (x : Except Exn α) : UsesSink (ofExcept x) := by
  intro s
  rw [sat_ofExcept]
  exact ⟨fun _ _ => ⟨s.innerStream, rfl⟩, fun _ _ => ⟨s.innerStream, rfl⟩⟩

theorem usesSink_onInner {α : Type} (x : InnerM α) : UsesSink (onInner x) := by
  intro s
  rw [onInner, sat_zoom]
  cases x s.innerStream with
  | ok a inner => exact ⟨inner, rfl⟩
  | error e inner => exact ⟨inner, rfl⟩

theorem usesSink_runIf {P : Prop} [Decidable P] {x : StreamM Unit} (hx : UsesSink x) :
    UsesSink (runIf P x) := by
  intro s
  unfold runIf
  split_ifs
  · exact hx s
  · exact ⟨s.innerStream, rfl⟩

theorem usesSink_writeProtocolHeader (off : UInt64) : UsesSink (writeProtocolHeader off) := by
  refine usesSink_get fun s => usesSink_bind ?_ fun master =>
    usesSink_bind (usesSink_onInner _) fun _ => usesSink_runIf (usesSink_onInner _)
  intro s₁
  rw [sat_zoom]
  cases (do
      MasterHeader.write streamVersion s.chunkSize s.keyIndex
        (UInt16.ofNat (s.metadata.getD []).length) off
      get : SpanM Bytes) (List.replicate MasterHeader.fixedSize 0) with
  | ok master t => exact ⟨s₁.innerStream, rfl⟩
  | error e t => exact ⟨s₁.innerStream, rfl⟩

theorem usesSink_writeSeekTable : UsesSink writeSeekTable :=
  usesSink_bind (usesSink_onInner _) fun _ => usesSink_get fun _ =>
    usesSink_bind (usesSink_ofExcept _) fun _ => usesSink_bind (usesSink_onInner _) fun _ =>
      usesSink_bind (usesSink_onInner _) fun _ =>
        usesSink_bind (usesSink_writeProtocolHeader _) fun _ => usesSink_onInner _

/-! ## As long as nothing is spoilt -/

/-- A state that differs only in what a block does not depend on. -/
theorem Archiver.Collects.of_same (h : A.Collects s p) (hkey : s'.keyIndex = s.keyIndex)
    (hchunk : s'.chunkSize = s.chunkSize) (hbuffer : s'.buffer = s.buffer)
    (hpos : s'.bufferPos = s.bufferPos) (hmode : s'.mode = s.mode)
    (hheader : s'.isHeaderProcessed = false → s.isHeaderProcessed = false) : A.Collects s' p where
  keyIndex := hkey.trans h.keyIndex
  chunkSize := hchunk.trans h.chunkSize
  buffer := by rw [hbuffer, h.buffer]
  count := hpos.trans h.count
  fits := h.fits
  plaintext := by rw [hbuffer, h.plaintext]
  mode := hmode.trans h.mode
  header hnew := h.header (hheader hnew)

/-- Emitting what waits: the sink has one more part of what was written, or the block
may be spoilt. -/
theorem emitFrame_sound (hinv : A.cipher.crypto.Inverts) (h : A.Collects s p) (hp : p <:+ written)
    (hintact : ∀ g ∈ s.gcmCalls, A.Intact written g) :
    Sat (emitFrame A.cipher A.random s)
      (fun _ s' => A.Sound s' written ∧ s'.isHeaderProcessed = s.isHeaderProcessed)
      (fun _ s' => A.Thrown s' written ∧ s'.bufferPos = s.bufferPos) := by
  have hcalls : ∀ g ∈ s.gcmCalls ++ [A.callFor s p], A.Intact written g := by
    intro g hg
    rcases List.mem_append.mp hg with hold | hnew
    · exact hintact g hold
    · rw [List.mem_singleton.mp hnew]
      exact Archiver.Waits.intact hinv h.toWaits hp
  by_cases hsink : s.innerStream.Accepts
  · rcases emitFrame_accepted h.toWaits hsink with ⟨inner, hrun, hw⟩
    rw [hrun, sat_ok]
    exact ⟨⟨⟨[], ⟨hw, h.mode, fun _ => rfl⟩, A.chunkSize_pos, List.nil_suffix⟩, hcalls⟩, rfl⟩
  · rcases emitFrame_refused h.toWaits hsink with ⟨e, inner, hrun, q, hw, hkept⟩
    rw [hrun, sat_error]
    refine ⟨⟨hcalls, ?_⟩, rfl⟩
    have hcount := h.count
    by_cases hspoils : overhead A.chunkSize A.keyIndex < overhead p.length A.keyIndex + p.length
    · right
      have hne : p ≠ [] := by
        rintro rfl
        have hmono := overhead_mono A.keyIndex (Nat.zero_le A.chunkSize)
        rw [List.length_nil] at hspoils
        omega
      refine ⟨⟨⟨q, hw, h.mode, fun hnew => absurd (h.header hnew) hne⟩, h.started hne⟩, ?_⟩
      show overhead _ _ < overhead s.bufferPos _ + s.bufferPos
      rw [hcount]
      exact hspoils
    · left
      obtain rfl := hkept (Nat.le_of_not_lt hspoils)
      refine ⟨⟨q, ⟨hw, h.mode, h.header⟩, ?_, hp⟩, hcalls⟩
      -- a full block is longer than what fits in front of it
      have hfits := h.fits
      have hpos := A.chunkSize_pos
      by_contra hfull
      obtain heq : q.length = A.chunkSize := by omega
      rw [heq] at hspoils
      omega

theorem processCurrentBlock_sound (hinv : A.cipher.crypto.Inverts) (h : A.Collects s p)
    (hp : p <:+ written) (hintact : ∀ g ∈ s.gcmCalls, A.Intact written g) (isFinal : Bool) :
    Sat (processCurrentBlock A.cipher A.random isFinal s)
      (fun _ s' => A.Sound s' written ∧ s'.isHeaderProcessed = s.isHeaderProcessed)
      (fun _ s' => A.Thrown s' written ∧ s'.bufferPos = s.bufferPos) := by
  rw [processCurrentBlock, get_bind]
  by_cases hskip : s.bufferPos = 0 ∧ isFinal = false
  · rw [if_pos hskip, pure_run, sat_ok]
    have hnil : p = [] := List.eq_nil_of_length_eq_zero (h.count.symm.trans hskip.1)
    refine ⟨⟨⟨p, h, ?_, hp⟩, hintact⟩, rfl⟩
    rw [hnil]
    exact A.chunkSize_pos
  · rw [if_neg hskip]
    exact emitFrame_sound hinv h hp hintact

/-- The loop of `Write` adds its bytes to what has been written. -/
theorem writeLoop_sound (hinv : A.cipher.crypto.Inverts) :
    ∀ (fuel : ℕ) (remaining written : Bytes) (s : ManagedSecurityStream), A.Sound s written →
      s.isHeaderProcessed = true → remaining.length < fuel →
      Sat (writeLoop A.cipher A.random fuel remaining s)
        (fun _ s' => A.Sound s' (written ++ remaining))
        (fun _ s' => A.Thrown s' (written ++ remaining)) := by
  intro fuel
  induction fuel with
  | zero =>
    intro remaining written s _ _ hfuel
    exact absurd hfuel (Nat.not_lt_zero _)
  | succ fuel ih =>
    intro remaining written s hs hheader hfuel
    by_cases hnil : remaining = []
    · subst hnil
      rw [writeLoop, if_pos rfl, pure_run, sat_ok, List.append_nil]
      exact hs
    rcases hs.waits with ⟨p, hp, hlt, hsuffix⟩
    have hpos : 0 < remaining.length := List.length_pos_of_ne_nil hnil
    set n := min remaining.length (A.chunkSize - p.length) with hn
    have hpiece : (remaining.take n).length = n := by
      rw [List.length_take]
      omega
    have hw := hp.toWaits.copied (remaining.take n) (by omega)
    have hcollects : A.Collects (A.copied s (remaining.take n)) (p ++ remaining.take n) :=
      ⟨hw, hp.mode, fun hnew => absurd (hheader.symm.trans hnew) (by decide)⟩
    have hsuffix' : p ++ remaining.take n <:+ written ++ remaining.take n := by
      rcases hsuffix with ⟨front, rfl⟩
      exact ⟨front, (List.append_assoc _ _ _).symm⟩
    have hintact' : ∀ g ∈ s.gcmCalls, A.Intact (written ++ remaining.take n) g :=
      fun g hg => (hs.intact g hg).mono _
    have hsplit : (written ++ remaining.take n) ++ remaining.drop n = written ++ remaining := by
      rw [List.append_assoc, List.take_append_drop]
    have hdrop : (remaining.drop n).length < fuel := by
      rw [List.length_drop]
      omega
    -- the rest of the loop, from a state in which the piece is accounted for
    have hrest : ∀ s₁, A.Sound s₁ (written ++ remaining.take n) → s₁.isHeaderProcessed = true →
        Sat (writeLoop A.cipher A.random fuel (remaining.drop n) s₁)
          (fun _ s' => A.Sound s' (written ++ remaining))
          (fun _ s' => A.Thrown s' (written ++ remaining)) := by
      intro s₁ h₁ hheader₁
      have hloop := ih (remaining.drop n) _ s₁ h₁ hheader₁ hdrop
      rwa [hsplit] at hloop
    rw [writeRound_eq hp.toWaits hnil hn fuel, sat_bind]
    by_cases hfull : ((A.copied s (remaining.take n)).bufferPos : ℤ) =
        (A.copied s (remaining.take n)).chunkSize
    · rw [runIf_true hfull]
      refine (processCurrentBlock_sound hinv hcollects hsuffix' hintact' false).mono ?_ ?_
      · rintro _ s₁ ⟨h₁, hheader₁⟩
        exact hrest s₁ h₁ (hheader₁.trans hheader)
      · rintro _ s₁ ⟨h₁, hpos₁⟩
        rw [← hsplit]
        refine h₁.mono ?_ _
        -- nothing is kept of a full block
        have hchunk : (A.copied s (remaining.take n)).bufferPos = A.chunkSize := by
          rw [hcollects.chunkSize] at hfull
          exact_mod_cast hfull
        have hpos := A.chunkSize_pos
        rw [Sealer.Spoils, hpos₁, hchunk]
        omega
    · rw [runIf_false hfull]
      refine hrest _ ⟨⟨_, hcollects, ?_, hsuffix'⟩, hintact'⟩ hheader
      have hlen := hcollects.fits
      rw [hcollects.count, hcollects.chunkSize] at hfull
      omega

/-- `Write`: when the header cannot be written, nothing has been collected yet. -/
theorem write_sound (hinv : A.cipher.crypto.Inverts) (hs : A.Sound s written) (buffer : Bytes) :
    Sat (write A.cipher A.random buffer s) (fun _ s' => A.Sound s' (written ++ buffer))
      (fun _ s' => A.Thrown s' (written ++ buffer)) := by
  rcases hs.waits with ⟨p, hp, hlt, hsuffix⟩
  have hloop : ∀ s₁, A.Sound s₁ written → s₁.isHeaderProcessed = true →
      Sat (writeLoop A.cipher A.random (buffer.length + 1) buffer s₁)
        (fun _ s' => A.Sound s' (written ++ buffer)) (fun _ s' => A.Thrown s' (written ++ buffer)) :=
    fun s₁ h₁ hheader => writeLoop_sound hinv _ buffer written s₁ h₁ hheader (Nat.lt_succ_self _)
  rw [write, get_bind, bind_ok (ensure_true hp.mode _ _), sat_bind]
  by_cases hnew : s.isHeaderProcessed = false
  · rw [runIf_true hnew, sat_bind]
    refine (usesSink_writeProtocolHeader 0 s).mono ?_ ?_
    · rintro - - ⟨inner, rfl⟩
      refine hloop _ ⟨⟨p, ?_, hlt, hsuffix⟩, hs.intact⟩ rfl
      exact hp.of_same rfl rfl rfl rfl rfl (fun _ => hnew)
    · rintro - - ⟨inner, rfl⟩
      obtain rfl := hp.header hnew
      have hintact : ∀ g ∈ s.gcmCalls, A.Intact (written ++ buffer) g :=
        fun g hg => (hs.intact g hg).mono _
      refine ⟨hintact, Or.inl ⟨⟨[], ?_, hlt, List.nil_suffix⟩, hintact⟩⟩
      exact hp.of_same rfl rfl rfl rfl rfl id
  · rw [runIf_false hnew]
    exact hloop s hs (by rw [← Bool.not_eq_false]; exact hnew)

theorem flushToFrame_sound (hinv : A.cipher.crypto.Inverts) (hs : A.Sound s written)
    (timestampMs : Option UInt32) (elapsedMs : UInt32) :
    Sat (flushToFrame A.cipher A.random timestampMs elapsedMs s) (fun _ s' => A.Sound s' written)
      (fun _ s' => A.Thrown s' written) := by
  rcases hs.waits with ⟨p, hp, hlt, hsuffix⟩
  rcases recordPoint_eq s timestampMs elapsedMs with ⟨points, hrecord⟩
  rw [flushToFrame, get_bind, bind_ok (ensure_true hp.mode _ _), bind_ok hrecord]
  have hp₁ : A.Collects { s with seekPoints := points } p :=
    hp.of_same rfl rfl rfl rfl rfl id
  exact (processCurrentBlock_sound hinv hp₁ hsuffix hs.intact false).mono (fun _ _ h => h.1)
    (fun _ _ h => h.1)

/-- Steps that only use the sink leave a sound object sound. -/
theorem UsesSink.sound {x : StreamM Unit} (hx : UsesSink x) (hs : A.Sound s written) :
    Sat (x s) (fun _ s' => A.Sound s' written) (fun _ s' => A.Thrown s' written) := by
  rcases hs.waits with ⟨p, hp, hlt, hsuffix⟩
  have hsound : ∀ inner, A.Sound { s with innerStream := inner } written :=
    fun inner => ⟨⟨p, hp.of_same rfl rfl rfl rfl rfl id, hlt, hsuffix⟩, hs.intact⟩
  refine (hx s).mono ?_ ?_
  · rintro - - ⟨inner, rfl⟩
    exact hsound inner
  · rintro - - ⟨inner, rfl⟩
    exact ⟨hs.intact, Or.inl (hsound inner)⟩

theorem dispose_sound (hinv : A.cipher.crypto.Inverts) (hs : A.Sound s written) :
    Sat (dispose A.cipher A.random s) (fun _ s' => A.Sound s' written)
      (fun _ s' => A.Thrown s' written) := by
  rcases hs.waits with ⟨p, hp, hlt, hsuffix⟩
  have hfinish : Sat (finish A.cipher A.random s) (fun _ s' => A.Sound s' written)
      (fun _ s' => A.Thrown s' written) := by
    rw [finish, sat_bind]
    refine (processCurrentBlock_sound hinv hp hsuffix hs.intact true).mono ?_ (fun _ _ h => h.1)
    rintro - s₁ ⟨h₁, -⟩
    rcases h₁.waits with ⟨p₁, hp₁, hlt₁, hsuffix₁⟩
    rw [modify_bind, get_bind]
    refine (usesSink_runIf usesSink_writeSeekTable).sound ⟨⟨p₁, ?_, hlt₁, hsuffix₁⟩, h₁.intact⟩
    exact hp₁.of_same rfl rfl rfl rfl rfl id
  rw [dispose, get_bind, sat_bind]
  have hclose : ∀ s₁, A.Sound s₁ written → Sat ((do
      let s ← get
      runIf (s.leaveOpen = false) (onInner InnerStream.dispose) : StreamM Unit) s₁)
        (fun _ s' => A.Sound s' written) (fun _ s' => A.Thrown s' written) :=
    fun s₁ h₁ => (usesSink_runIf (usesSink_onInner _)).sound h₁
  unfold runIf
  split_ifs
  · exact hfinish.mono (fun _ s₁ h₁ => hclose s₁ h₁) (fun _ _ h => h)
  · exact hclose s hs

/-- A stream that collects has the key of its archiver. -/
theorem Archiver.Collects.sealsFrom (hkernel : ∀ kernel ∈ asyncEncryptor, kernel.SealsAs A.cipher A.random)
    (h : A.Collects s p) : SealsFrom A.cipher asyncEncryptor A.random s := by
  intro kernel hmem
  refine ⟨hkernel kernel hmem, A.key, ?_⟩
  rw [h.keyIndex]
  exact A.provided

/-- Every step is a synchronous one. -/
theorem callerStep_sync (hkernel : ∀ kernel ∈ asyncEncryptor, kernel.SealsAs A.cipher A.random)
    (h : A.Collects s p) (step : CallerStep) :
    callerStep A.cipher asyncEncryptor A.random step s =
      match step with
      | .call _ method => writeCall A.cipher A.random method s
      | .dispose _ => dispose A.cipher A.random s := by
  rw [callerStep_eq (h.sealsFrom hkernel)]
  cases step with
  | call async method => rfl
  | dispose async => rfl

theorem callerStep_sound (hinv : A.cipher.crypto.Inverts)
    (hkernel : ∀ kernel ∈ asyncEncryptor, kernel.SealsAs A.cipher A.random) (hs : A.Sound s written)
    (step : CallerStep) :
    Sat (callerStep A.cipher asyncEncryptor A.random step s)
      (fun _ s' => A.Sound s' (written ++ step.bytes))
      (fun _ s' => A.Thrown s' (written ++ step.bytes)) := by
  rcases hs.waits with ⟨p, hp, -, -⟩
  rw [callerStep_sync hkernel hp step]
  cases step with
  | call async method =>
    cases method with
    | write buffer => exact write_sound hinv hs buffer
    | flushToFrame timestampMs elapsedMs =>
      show Sat _ (fun _ s' => A.Sound s' (written ++ [])) (fun _ s' => A.Thrown s' (written ++ []))
      rw [List.append_nil]
      exact flushToFrame_sound hinv hs timestampMs elapsedMs
  | dispose async =>
    show Sat _ (fun _ s' => A.Sound s' (written ++ [])) (fun _ s' => A.Thrown s' (written ++ []))
    rw [List.append_nil]
    exact dispose_sound hinv hs

/-! ## Once a block is spoilt -/

/-- The step has brought no frame into the sink, and a block still waits. -/
structure Archiver.Withheld (A : Archiver) (s s' : ManagedSecurityStream) : Prop where
  spoilt : A.Spoilt s'
  sequence : s'.sequenceNumber = s.sequenceNumber
  calls : s'.gcmCalls = s.gcmCalls ∨ ∃ g, s'.gcmCalls = s.gcmCalls ++ [g]

theorem Archiver.Withheld.nothing (h : A.Withheld s s') : deliveredBetween s s' = [] := by
  rcases h.calls with hcalls | ⟨g, hcalls⟩
  · simp only [deliveredBetween, hcalls, List.drop_length, List.dropLast_nil, ite_self]
  · have hahead : ¬ s.sequenceNumber = s.sequenceNumber + UInt64.ofNat 1 := by
      intro heq
      have hzero : UInt64.ofNat 1 = 0 :=
        (UInt64.add_right_inj _).mp (heq.symm.trans (UInt64.add_zero _).symm)
      exact absurd hzero (by decide)
    simp only [deliveredBetween, hcalls, List.drop_left, List.length_singleton, h.sequence,
      if_neg hahead, List.dropLast_singleton]

/-- A state that differs only in what a block does not depend on. -/
theorem Archiver.Spoilt.of_same (h : A.Spoilt s) (hkey : s'.keyIndex = s.keyIndex)
    (hchunk : s'.chunkSize = s.chunkSize) (hbuffer : s'.buffer = s.buffer)
    (hpos : s'.bufferPos = s.bufferPos) (hmode : s'.mode = s.mode)
    (hheader : s'.isHeaderProcessed = s.isHeaderProcessed) : A.Spoilt s' := by
  rcases h.waits with ⟨q, hq⟩
  exact ⟨⟨q, hq.of_same hkey hchunk hbuffer hpos hmode fun hnew => hheader.symm.trans hnew⟩,
    hheader.trans h.header⟩

/-- However it ends, the program delivers nothing. -/
def Archiver.Withholds (A : Archiver) (x : StreamM Unit) (s : ManagedSecurityStream) : Prop :=
  Sat (x s) (fun _ s' => A.Withheld s s') (fun _ s' => A.Withheld s s')

/-- A frame that the sink refuses. -/
theorem emitFrame_withheld (hs : A.Spoilt s) (hsink : ¬ s.innerStream.Accepts) :
    ∃ e s', emitFrame A.cipher A.random s = .error e s' ∧ A.Withheld s s' := by
  rcases hs.waits with ⟨q, hq⟩
  rcases emitFrame_refused hq.toWaits hsink with ⟨e, inner, hrun, q', hq', -⟩
  have hheader : s.isHeaderProcessed ≠ false := by
    rw [hs.header]
    decide
  refine ⟨e, _, hrun, ⟨⟨q', hq', hq.mode, fun hnew => absurd hnew hheader⟩, hs.header⟩, rfl,
    Or.inr ⟨_, rfl⟩⟩

theorem Archiver.Withheld.refl (hs : A.Spoilt s) : A.Withheld s s := ⟨hs, rfl, Or.inl rfl⟩

/-- `Write` copies what fits; only a full block becomes a frame. -/
theorem write_withheld (hs : A.Spoilt s) {async : Bool} {buffer : Bytes}
    (hnone : ¬ (CallerStep.call async (.write buffer)).Delivers s) :
    A.Withholds (write A.cipher A.random buffer) s := by
  rcases hs.waits with ⟨q, hq⟩
  have hheader : ¬ s.isHeaderProcessed = false := by
    rw [hs.header]
    decide
  have hloop : write A.cipher A.random buffer s =
      writeLoop A.cipher A.random (buffer.length + 1) buffer s := by
    rw [write, get_bind, bind_ok (ensure_true hq.mode _ _), runIf_false hheader]
    rfl
  rw [Archiver.Withholds, hloop]
  by_cases hnil : buffer = []
  · rw [writeLoop, if_pos hnil, pure_run, sat_ok]
    exact .refl hs
  set n := min buffer.length (A.chunkSize - q.length) with hn
  have hfits := hq.fits
  have hpiece : (buffer.take n).length = n := by
    rw [List.length_take]
    omega
  have hw := hq.toWaits.copied (buffer.take n) (by omega)
  have hs₁ : A.Spoilt (A.copied s (buffer.take n)) :=
    ⟨⟨_, hw, hq.mode, fun hnew => absurd hnew hheader⟩, hs.header⟩
  rw [writeRound_eq hq.toWaits hnil hn]
  have hcount : (A.copied s (buffer.take n)).bufferPos = q.length + n := by
    rw [hw.count, List.length_append, hpiece]
  by_cases hfull : ((A.copied s (buffer.take n)).bufferPos : ℤ) =
      (A.copied s (buffer.take n)).chunkSize
  · rw [runIf_true hfull]
    rw [hw.chunkSize, hcount] at hfull
    have hseals : (CallerStep.call async (.write buffer)).SealsFrame s := by
      refine ⟨hnil, ?_⟩
      rw [hq.chunkSize, hq.count]
      omega
    rcases emitFrame_withheld hs₁ (fun haccepts => hnone ⟨hseals, haccepts⟩) with
      ⟨e, s', hrun, hwithheld⟩
    have hblock : ¬ ((A.copied s (buffer.take n)).bufferPos = 0 ∧ false = false) := by
      have hpos := A.chunkSize_pos
      rintro ⟨hzero, -⟩
      omega
    have hthrow : processCurrentBlock A.cipher A.random false (A.copied s (buffer.take n)) =
        .error e s' := by
      rw [processCurrentBlock, get_bind, if_neg hblock]
      exact hrun
    rw [bind_error hthrow, sat_error]
    exact ⟨hwithheld.spoilt, hwithheld.sequence, hwithheld.calls⟩
  · rw [runIf_false hfull]
    rw [hw.chunkSize, hcount] at hfull
    -- the block is not full, so all of it has been copied
    have hdone : buffer.drop n = [] := List.drop_eq_nil_of_le (by omega)
    have hend : writeLoop A.cipher A.random buffer.length (buffer.drop n) = pure () := by
      rw [hdone]
      cases buffer.length with
      | zero => rfl
      | succ fuel => rfl
    rw [hend]
    exact ⟨hs₁, rfl, Or.inl rfl⟩

theorem flushToFrame_withheld (hs : A.Spoilt s) {async : Bool} {timestampMs : Option UInt32}
    {elapsedMs : UInt32}
    (hnone : ¬ (CallerStep.call async (.flushToFrame timestampMs elapsedMs)).Delivers s) :
    A.Withholds (flushToFrame A.cipher A.random timestampMs elapsedMs) s := by
  rcases hs.waits with ⟨q, hq⟩
  rcases recordPoint_eq s timestampMs elapsedMs with ⟨points, hrecord⟩
  have hs₁ : A.Spoilt { s with seekPoints := points } := hs.of_same rfl rfl rfl rfl rfl rfl
  rw [Archiver.Withholds, flushToFrame, get_bind, bind_ok (ensure_true hq.mode _ _),
    bind_ok hrecord, processCurrentBlock, get_bind]
  by_cases hskip : s.bufferPos = 0 ∧ false = false
  · rw [if_pos hskip, pure_run, sat_ok]
    exact ⟨hs₁, rfl, Or.inl rfl⟩
  · rw [if_neg hskip]
    have hseals : 0 < s.bufferPos := Nat.pos_of_ne_zero fun hzero => hskip ⟨hzero, rfl⟩
    rcases emitFrame_withheld hs₁ (fun haccepts => hnone ⟨hseals, haccepts⟩) with
      ⟨e, s', hrun, hwithheld⟩
    rw [hrun, sat_error]
    exact ⟨hwithheld.spoilt, hwithheld.sequence, hwithheld.calls⟩

theorem dispose_withheld (hs : A.Spoilt s) {async : Bool}
    (hnone : ¬ (CallerStep.dispose async).Delivers s) :
    A.Withholds (dispose A.cipher A.random) s := by
  rcases hs.waits with ⟨q, hq⟩
  rw [Archiver.Withholds, dispose, get_bind]
  by_cases hfinal : s.isFinalBlockProcessed = false
  · rcases emitFrame_withheld hs (fun haccepts => hnone ⟨hfinal, haccepts⟩) with
      ⟨e, s', hrun, hwithheld⟩
    have hthrow : finish A.cipher A.random s = .error e s' := by
      rw [finish]
      apply bind_error
      rw [processCurrentBlock, get_bind, if_neg (fun hcond => Bool.noConfusion hcond.2)]
      exact hrun
    rw [runIf_true ⟨hq.mode, hfinal⟩, bind_error hthrow, sat_error]
    exact hwithheld
  · rw [runIf_false (fun hcond => hfinal hcond.2)]
    refine (usesSink_runIf (usesSink_onInner _) s).mono ?_ ?_
    · rintro - - ⟨inner, rfl⟩
      exact ⟨hs.of_same rfl rfl rfl rfl rfl rfl, rfl, Or.inl rfl⟩
    · rintro - - ⟨inner, rfl⟩
      exact ⟨hs.of_same rfl rfl rfl rfl rfl rfl, rfl, Or.inl rfl⟩

theorem callerStep_withheld (hkernel : ∀ kernel ∈ asyncEncryptor, kernel.SealsAs A.cipher A.random)
    (hs : A.Spoilt s) {step : CallerStep} (hnone : ¬ step.Delivers s) :
    A.Withheld s (finalState (callerStep A.cipher asyncEncryptor A.random step s)) := by
  rcases hs.waits with ⟨q, hq⟩
  have hstep : Sat (callerStep A.cipher asyncEncryptor A.random step s)
      (fun _ s' => A.Withheld s s') (fun _ s' => A.Withheld s s') := by
    rw [callerStep_sync hkernel hq step]
    cases step with
    | call async method =>
      cases method with
      | write buffer => exact write_withheld hs hnone
      | flushToFrame timestampMs elapsedMs => exact flushToFrame_withheld hs hnone
    | dispose async => exact dispose_withheld hs hnone
  cases hrun : callerStep A.cipher asyncEncryptor A.random step s with
  | ok u s' => exact hstep.of_ok hrun
  | error e s' => exact hstep.of_error hrun

/-! ## Runs -/

/-- A run that delivers no frame. -/
theorem delivered_nothing (hkernel : ∀ kernel ∈ asyncEncryptor, kernel.SealsAs A.cipher A.random) :
    ∀ (steps : List CallerStep) (s : ManagedSecurityStream), A.Spoilt s →
      DeliversNone A.cipher asyncEncryptor A.random steps s →
      delivered A.cipher asyncEncryptor A.random steps s = [] := by
  intro steps
  induction steps with
  | nil =>
    intro s _ _
    rfl
  | cons step steps ih =>
    intro s hs hnone
    have hstep := callerStep_withheld hkernel hs hnone.1
    have hrest := ih _ hstep.spoilt hnone.2
    show deliveredBetween s _ ++ delivered _ _ _ steps _ = []
    rw [hrest, hstep.nothing]
    rfl

theorem mem_of_deliveredBetween {g : GcmCall} (h : g ∈ deliveredBetween s s') : g ∈ s'.gcmCalls := by
  simp only [deliveredBetween] at h
  split_ifs at h
  · exact List.mem_of_mem_drop h
  · exact List.mem_of_mem_drop (List.mem_of_mem_dropLast h)

/-- Every frame that a careful run delivers is a part of what the run has written. -/
theorem delivered_sound (hinv : A.cipher.crypto.Inverts)
    (hkernel : ∀ kernel ∈ asyncEncryptor, kernel.SealsAs A.cipher A.random) :
    ∀ (steps : List CallerStep) (written : Bytes) (s : ManagedSecurityStream), A.Sound s written →
      A.Careful asyncEncryptor steps s → ∀ g ∈ delivered A.cipher asyncEncryptor A.random steps s,
      A.Intact (written ++ steps.flatMap CallerStep.bytes) g := by
  intro steps
  induction steps with
  | nil =>
    intro written s _ _ g hg
    cases hg
  | cons step steps ih =>
    intro written s hs hcareful g hg
    have hstep := callerStep_sound hinv hkernel hs step
    rw [List.flatMap_cons, ← List.append_assoc]
    simp only [delivered] at hg
    simp only [Archiver.Careful] at hcareful
    cases hrun : callerStep A.cipher asyncEncryptor A.random step s with
    | ok u s' =>
      rw [hrun] at hstep hcareful hg
      rw [if_neg (fun hthrew => Bool.noConfusion hthrew.1)] at hcareful
      rcases List.mem_append.mp hg with hnow | hlater
      · exact (hstep.intact g (mem_of_deliveredBetween hnow)).mono _
      · exact ih _ s' hstep hcareful g hlater
    | error e s' =>
      rw [hrun] at hstep hcareful hg
      rcases List.mem_append.mp hg with hnow | hlater
      · exact (hstep.intact g (mem_of_deliveredBetween hnow)).mono _
      · split_ifs at hcareful with hthrew
        · -- the block is lost, and nothing is delivered any more
          have hspoilt : A.Spoilt s' := by
            rcases hstep.block with hsound | ⟨hspoilt, -⟩
            · exact hsound.spoilt hthrew.2
            · exact hspoilt
          have hnothing : delivered A.cipher asyncEncryptor A.random steps s' = [] :=
            delivered_nothing hkernel steps s' hspoilt hcareful
          rw [finalState, hnothing] at hlater
          cases hlater
        · rcases hstep.block with hsound | ⟨-, hspoils⟩
          · exact ih _ s' hsound hcareful g hlater
          · exact absurd ⟨rfl, hspoils⟩ hthrew

/-- A new writer, with or without a header to write. -/
theorem create_sound {inner : InnerStream} {skip : Bool}
    (hcreate : create inner .encrypt { A.arguments with skipMasterHeader := skip } = .ok s) :
    A.Sound s [] := by
  rcases create_inv hcreate with ⟨size, hsize, hpos, rfl⟩
  have hrequired := getRequiredSize_frame A.chunkSize_lt A.keyIndex_lt
  obtain rfl : size = ((overhead A.chunkSize A.keyIndex + A.chunkSize : ℕ) : ℤ) :=
    Except.ok.inj (hsize.symm.trans hrequired)
  refine ⟨⟨[], ⟨⟨rfl, rfl, ?_, rfl, Nat.zero_le _, slice_len_zero _ _⟩, rfl, fun _ => rfl⟩,
    A.chunkSize_pos, List.nil_suffix⟩, ?_⟩
  · show (List.replicate _ _).length = _
    rw [List.length_replicate, Int.toNat_natCast]
  · intro g hg
    cases hg

/-- A writer on a sink any write to which may throw, called in any way, also after
exceptions. As long as no frame is delivered once one has been refused and has
overwritten the block it was made of, the frames in the sink hold nothing but what was
written. -/
theorem delivered_intact (A : Archiver) (asyncEncryptor : Option AsyncEncryptor) (inner : InnerStream)
    (skip : Bool) (steps : List CallerStep) (s : ManagedSecurityStream)
    (hinv : A.cipher.crypto.Inverts)
    (hkernel : ∀ kernel ∈ asyncEncryptor, kernel.SealsAs A.cipher A.random)
    (hcreate : create inner .encrypt { A.arguments with skipMasterHeader := skip } = .ok s)
    (hcareful : A.Careful asyncEncryptor steps s) : A.KeepsPlaintext asyncEncryptor steps s := by
  intro g hg _
  have hintact := delivered_sound hinv hkernel steps [] s (create_sound hcreate) hcareful g hg
  exact ⟨g.plaintext, hintact⟩

/-- A sink that refuses the write with the given number. -/
def InnerStream.refusing (n : ℕ) : InnerStream :=
  { InnerStream.sink true with failing := fun k => k = n }

end

/-- The empty last frame is refused and made once more. -/
theorem delivered_intact_retried :
    ∃ s, create (.refusing 3) .encrypt maskFour.arguments = .ok s ∧
      maskFour.KeepsPlaintext none [.call false (.write [1, 2, 3, 4]), .dispose false, .dispose true] s := by
  refine ⟨_, rfl, delivered_intact maskFour none (.refusing 3) false _ _ maskCrypto_inverts ?_ rfl ?_⟩
  · intro kernel hkernel
    cases hkernel
  · decide +kernel

/-- A full block is refused; what `Dispose` encrypts then is the ciphertext. -/
theorem refused_block_not_intact :
    ∃ s, create (.refusing 2) .encrypt maskFour.arguments = .ok s ∧
      ¬ maskFour.KeepsPlaintext none [.call false (.write [1, 2, 3, 4]), .dispose false] s := by
  let steps : List CallerStep := [.call false (.write [1, 2, 3, 4]), .dispose false]
  have hforeign : returns (fun s => (delivered maskFour.cipher none maskFour.random steps s).any fun g =>
      decide (maskFour.cipher.frameOf g <:+:
        (attempts (callerStep maskFour.cipher none maskFour.random) steps s).2.innerStream.data) &&
      returns (fun p => decide (¬ p <:+: steps.flatMap CallerStep.bytes))
        (maskFour.cipher.decrypt (maskFour.cipher.frameOf g)))
      (create (.refusing 2) .encrypt maskFour.arguments) = true := by
    decide +kernel
  rcases of_returns hforeign with ⟨s, hcreate, hany⟩
  refine ⟨s, hcreate, ?_⟩
  intro hkeeps
  rcases List.any_eq_true.mp hany with ⟨g, hg, hboth⟩
  rcases Bool.and_eq_true_iff.mp hboth with ⟨hsink, hdecrypt⟩
  rcases hkeeps g hg (of_decide_eq_true hsink) with ⟨p, hp, hinfix⟩
  rcases of_returns hdecrypt with ⟨p', hp', hforeign'⟩
  obtain rfl := Except.ok.inj (hp.symm.trans hp')
  exact of_decide_eq_true hforeign' hinfix

end ManagedSecurity

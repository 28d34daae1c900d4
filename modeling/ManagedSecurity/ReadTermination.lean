import ManagedSecurity.AntiReplay
import ManagedSecurity.DecryptOutcomes

/-! # Reading comes to an end

The inner stream is any byte string. Whatever a call does, it uses up the source: every
frame takes the four bytes of its fixed header and at least as many bytes as its payload
has, also if the header announces a negative or a huge length.

* `deliverable`: what can still be returned at most, buffered or from the source;
* `FrameStep`: what a frame reader can do, `tryReadNextFrame_step` and
  `tryReadNextFrameAsync_step`: both do only that;
* `readLoop_step`: with the fuel that the model gives the loop it ends;
* `reading_ends`: calls of both kinds, in any order and also after exceptions.
-/

namespace ManagedSecurity

open Bytes Outcome ManagedSecurityStream

/-- What the cipher is given from outside returns or throws. -/
structure Cipher.Ends (c : Cipher) : Prop where
  getKey : ∀ index, c.getKey index ≠ .error .nonTermination
  kernel : ∀ kernel, c.asyncDecryptor = some kernel → ∀ h message key dest d,
    kernel.decryptS0 h message key dest ≠ .error .nonTermination d ∧
      kernel.decryptS2 h message key dest ≠ .error .nonTermination d

/-- An exception of the program. -/
def Exn.IsThrown (e : Exn) : Prop := e ≠ .nonTermination

theorem Exn.isThrown_of_declared {e : Exn} (h : e.isDeclared = true) : e.IsThrown := by
  rintro rfl
  cases h

/-- `P` holds of all exceptions, also those of what the cipher is given from outside. -/
structure Cipher.Raises (c : Cipher) (P : Exn → Prop) : Prop where
  thrown : ∀ {e}, e.IsThrown → P e
  provider : ∀ {index e}, c.getKey index = .error e → P e
  kernel : ∀ {kernel}, c.asyncDecryptor = some kernel → ∀ {h message key dest e d},
    (kernel.decryptS0 h message key dest = .error e d → P e) ∧
      (kernel.decryptS2 h message key dest = .error e d → P e)

namespace Cipher.Raises

variable {c : Cipher} {P : Exn → Prop}

theorem declared (h : c.Raises P) {e : Exn} (he : e.isDeclared = true) : P e :=
  h.thrown (Exn.isThrown_of_declared he)

theorem throws (h : c.Raises P) : c.Throws P := ⟨fun _ => h.declared, fun _ _ => h.provider⟩

theorem span (h : c.Raises P) {span : Bytes} {start length : ℤ} (e : Exn)
    (he : sliceSpan span start length = .error e) : P e :=
  h.declared (sliceSpan_declared he)

end Cipher.Raises

theorem Cipher.raises_any (c : Cipher) : c.Raises fun _ => True :=
  ⟨fun _ => trivial, fun _ => trivial, fun _ => ⟨fun _ => trivial, fun _ => trivial⟩⟩

theorem Cipher.Ends.raises {c : Cipher} (hc : c.Ends) : c.Raises Exn.IsThrown := by
  constructor
  · exact fun he => he
  · rintro index e he rfl
    exact hc.getKey index he
  · intro kernel hkernel h message key dest e d
    constructor
    · rintro hrun rfl
      exact (hc.kernel kernel hkernel h message key dest d).1 hrun
    · rintro hrun rfl
      exact (hc.kernel kernel hkernel h message key dest d).2 hrun

/-! ## The inner stream -/

namespace InnerStream

/-- A read into a part of a span: fewer bytes only at the end of the data. -/
theorem readInto_sat (offset length : ℕ) (t : InnerStream × Bytes) :
    Sat (readInto offset length t)
      (fun r t' => r ≤ length ∧ r ≤ t.1.rest.length ∧ (r = 0 → length = 0 ∨ t.1.rest = []) ∧
        t'.1 = t.1.advance r (t.1.reads + 1))
      (fun e _ => e.IsThrown) := by
  by_cases hfit : offset + length ≤ t.2.length
  swap
  · rw [readInto_outOfRange hfit]
    exact Exn.isThrown_of_declared rfl
  cases hclosed : t.1.closed with
  | true =>
    have hslice : sliceSpan t.2 offset length = .ok (slice t.2 offset length) := sliceSpan_ok hfit
    have hzoom : zoom Prod.fst (fun inner (s : InnerStream × Bytes) => (inner, s.2)) (read length) t =
        .error .objectDisposed t := zoom_error (read_closed hclosed length)
    rw [readInto, get_bind, bind_ok (ofExcept_eq hslice), bind_error hzoom]
    exact Exn.isThrown_of_declared rfl
  | false =>
    rcases readInto_eq hclosed hfit with ⟨chunk, hread, hfront, hle, hnil⟩
    rw [hread]
    have hlen := congrArg List.length hfront
    rw [List.length_take] at hlen
    refine ⟨hle, by omega, ?_, rfl⟩
    intro hzero
    exact hnil (List.eq_nil_of_length_eq_zero hzero)

/-- The loop reads at least one byte in each round, or throws. -/
theorem readAll_thrown (message : String) :
    ∀ (fuel offset remaining : ℕ) (t : InnerStream × Bytes), remaining ≤ fuel →
      Sat (readAll message fuel offset remaining t) (fun _ _ => True) (fun e _ => e.IsThrown) := by
  intro fuel
  induction fuel with
  | zero =>
    intro offset remaining t hfuel
    rw [readAll, if_pos (by omega)]
    trivial
  | succ fuel ih =>
    intro offset remaining t hfuel
    rw [readAll]
    by_cases hzero : remaining = 0
    · rw [if_pos hzero]
      trivial
    rw [if_neg hzero, sat_bind]
    refine (readInto_sat offset remaining t).mono ?_ (fun _ _ he => he)
    rintro r t' ⟨hle, -, -, -⟩
    rw [sat_bind, sat_ensure]
    constructor
    · intro hr
      exact ih _ _ t' (by omega)
    · intro _ hend
      cases hend

theorem fillSpan_thrown (message : String) (offset count : ℕ) (t : InnerStream × Bytes) :
    Sat (fillSpan message offset count t) (fun _ _ => True) (fun e _ => e.IsThrown) :=
  readAll_thrown message count offset count t le_rfl

/-- A new array is filled from the source. -/
theorem readArray_sat (message : String) (count : ℕ) (inner : InnerStream) :
    Sat (readArray message count inner)
      (fun _ inner' => ∃ k, inner' = inner.advance count k) (fun e _ => e.IsThrown) := by
  cases hrun : readArray message count inner with
  | ok bytes inner' =>
    rcases readArray_inv hrun with ⟨-, -, -, k, hk⟩
    exact ⟨k, hk⟩
  | error e inner' =>
    have hfill : Sat (readArray message count inner) (fun _ _ => True) (fun e _ => e.IsThrown) := by
      rw [readArray, sat_zoom, sat_bind]
      exact (fillSpan_thrown message 0 count _).mono (fun _ _ _ => trivial) (fun _ _ he => he)
    rw [hrun] at hfill
    exact hfill

end InnerStream

namespace ManagedSecurityStream

variable {c : Cipher} {P : Exn → Prop} {s s' : ManagedSecurityStream} {h : Header}

/-! ## Fetching a frame -/

/-- What can still be returned at most: what is buffered, and a byte for each byte of the
source. -/
def deliverable (s : ManagedSecurityStream) : ℕ := s.readBufferCount + s.innerStream.rest.length

/-- The source is exhausted, or its position has reached the announced seek table. -/
def AtEnd (s : ManagedSecurityStream) : Prop :=
  s.innerStream.rest = [] ∨
    (0 < s.seekTableOffset ∧ s.seekTableOffset.toNat ≤ s.innerStream.position)

/-- What a frame reader may do: it meets the end, or the payload it has fetched is shorter
than what it has read for it. -/
structure FrameStep (s : ManagedSecurityStream) (more : Bool) (s' : ManagedSecurityStream) :
    Prop where
  metadata : s'.metadata = s.metadata
  fetched : more = true → s'.deliverable < s.innerStream.rest.length
  ended : more = false → s'.deliverable ≤ s.deliverable ∧ s'.AtEnd

/-- The step has read `n` bytes of the source into the buffer. -/
def Filled (s : ManagedSecurityStream) (n : ℕ) (s' : ManagedSecurityStream) : Prop :=
  ∃ k b, n ≤ s.innerStream.rest.length ∧
    s' = { s with innerStream := s.innerStream.advance n k, buffer := b }

theorem Filled.trans {m : ManagedSecurityStream} {n n' : ℕ} (h₁ : Filled s n m)
    (h₂ : Filled m n' s') : Filled s (n + n') s' := by
  rcases h₁ with ⟨k, b, hn, rfl⟩
  rcases h₂ with ⟨k', b', hn', rfl⟩
  refine ⟨k', b', ?_, ?_⟩
  · rw [InnerStream.advance_rest, List.length_drop] at hn'
    omega
  · simp only [InnerStream.advance_advance]

/-- What is left of the source. -/
theorem Filled.rest {n : ℕ} (hf : Filled s n s') :
    s'.innerStream.rest.length + n = s.innerStream.rest.length := by
  rcases hf with ⟨k, b, hn, rfl⟩
  rw [InnerStream.advance_rest, List.length_drop]
  omega

theorem fillSpan_filled (message : String) (offset count : ℕ) (s : ManagedSecurityStream) :
    Sat (onFill (InnerStream.fillSpan message offset count) s) (fun _ s' => Filled s count s')
      (fun e _ => e.IsThrown) := by
  have hthrown := InnerStream.fillSpan_thrown message offset count (s.innerStream, s.buffer)
  rw [onFill, sat_zoom]
  cases hrun : InnerStream.fillSpan message offset count (s.innerStream, s.buffer) with
  | ok u t =>
    rcases InnerStream.fillSpan_inv hrun with ⟨hle, -, k, rfl⟩
    exact ⟨k, _, hle, rfl⟩
  | error e t =>
    rw [hrun] at hthrown
    exact hthrown

/-- The fixed header: four bytes, or none because there are none. -/
theorem readFixedHeader_sat (s : ManagedSecurityStream) :
    Sat (onFill readFixedHeader s)
      (fun more s' => (more = true → Filled s 4 s') ∧
        (more = false → Filled s 0 s' ∧ s.innerStream.rest = [])) (fun e _ => e.IsThrown) := by
  have hread := InnerStream.readInto_sat 0 4 (s.innerStream, s.buffer)
  have hfirst : Sat (onFill (InnerStream.readInto 0 4) s)
      (fun r s' => r ≤ 4 ∧ (r = 0 → s.innerStream.rest = []) ∧ Filled s r s')
      (fun e _ => e.IsThrown) := by
    rw [onFill, sat_zoom]
    refine hread.mono ?_ (fun _ _ he => he)
    rintro r ⟨inner, b⟩ ⟨hle, hrest, hend, rfl⟩
    exact ⟨hle, fun hr => (hend hr).resolve_left (by decide), _, b, hrest, rfl⟩
  rw [readFixedHeader, onFill_bind, sat_bind]
  refine hfirst.mono ?_ (fun _ _ he => he)
  rintro r m ⟨hle, hend, hfilled⟩
  by_cases hzero : r = 0
  · subst hzero
    constructor
    · intro htrue
      cases htrue
    · intro _
      exact ⟨hfilled, hend rfl⟩
  · -- the rest of the four bytes
    rw [if_neg hzero, onFill_bind, sat_bind]
    refine (fillSpan_filled _ r (4 - r) m).mono ?_ (fun _ _ he => he)
    intro _ m' hrest
    constructor
    · intro _
      have htotal := hfilled.trans hrest
      rwa [Nat.add_sub_cancel' hle] at htotal
    · intro hfalse
      cases hfalse

/-- The numbers of an accepted header: the payload is shorter than the frame, and negative
where the announced length is. -/
theorem payload_lt_consumed {m : Bytes} (hparse : Header.parse m = .ok h) (n : ℕ) :
    h.payloadLength.toNat < 4 + n + (h.totalLength - ((4 + n : ℕ) : ℤ)).toNat := by
  rcases parse_adjacent hparse with ⟨hmac, hpayload, htotal, hiv⟩
  have hfront : 4 ≤ h.payloadOffset := by
    rw [hpayload, hmac, hiv, headerSize]
    omega
  omega

/-- Decrypting changes nothing but the buffer. -/
theorem decryptFrameSync_step (hP : c.Raises P) (h : Header) (m : ManagedSecurityStream) :
    Sat (decryptFrameSync c h m) (fun _ s' => ∃ b, s' = { m with buffer := b })
      (fun e _ => P e) := by
  rw [decryptFrameSync, get_bind, sat_bind, sat_ofExcept]
  refine ⟨fun message _ => ?_, hP.span⟩
  rw [sat_bind, sat_ensure]
  constructor
  swap
  · exact fun _ => hP.declared rfl
  intro _
  rw [sat_zoom]
  exact hP.throws.decryptInto.mono (fun _ _ _ => ⟨_, rfl⟩) (fun _ _ he => he)

/-- The step has opened a frame that was in the buffer. -/
def Opened (h : Header) (m s' : ManagedSecurityStream) : Prop :=
  s'.metadata = m.metadata ∧ s'.innerStream = m.innerStream ∧
    s'.readBufferCount = h.payloadLength.toNat

/-- A validated frame is all that is buffered. -/
theorem validateFrameAndSetBuffer_step (hP : c.Raises P) (h : Header) (m : ManagedSecurityStream)
    (b : Bytes) :
    Sat (validateFrameAndSetBuffer h { m with buffer := b }) (fun _ s' => Opened h m s')
      (fun e _ => P e) := by
  rw [validateFrameAndSetBuffer, get_bind, sat_bind, sat_ofExcept]
  constructor
  swap
  · exact fun e he => hP.declared (Cipher.getSequence_declared he)
  intro sequence _
  rw [sat_bind, sat_ensure]
  constructor
  swap
  · exact fun _ => hP.declared rfl
  intro _
  rw [sat_bind, sat_ensure]
  constructor
  · exact fun _ => ⟨rfl, rfl, rfl⟩
  · exact fun _ => hP.declared rfl

theorem openFrameSync_step (hP : c.Raises P) (h : Header) (m : ManagedSecurityStream) :
    Sat ((decryptFrameSync c h >>= fun _ => validateFrameAndSetBuffer h) m)
      (fun _ s' => Opened h m s') (fun e _ => P e) := by
  rw [sat_bind]
  refine (decryptFrameSync_step hP h m).mono ?_ (fun _ _ he => he)
  rintro _ m₁ ⟨b, rfl⟩
  exact validateFrameAndSetBuffer_step hP h m b

/-- A kernel from outside also changes nothing but the buffer. -/
theorem decryptCurrentFrameAsync_step (hP : c.Raises P) (h : Header) (m : ManagedSecurityStream) :
    Sat (decryptCurrentFrameAsync c h m) (fun _ s' => Opened h m s') (fun e _ => P e) := by
  rw [decryptCurrentFrameAsync]
  cases hasync : c.asyncDecryptor with
  | none => exact openFrameSync_step hP h m
  | some kernel =>
    simp only []
    rw [get_bind, sat_bind, sat_ofExcept]
    refine ⟨fun key _ => ?_, fun _ => hP.provider⟩
    by_cases hlengths : (h.ivLength = 12 ∧ h.sequenceLength = 8) ∨
      (h.ivLength = 12 ∧ h.sequenceLength = 0)
    swap
    · rw [if_neg hlengths]
      exact openFrameSync_step hP h m
    rw [if_pos hlengths, sat_bind, sat_ofExcept]
    refine ⟨fun message _ => ?_, hP.span⟩
    rw [sat_bind, sat_ofExcept]
    refine ⟨fun _ _ => ?_, hP.span⟩
    rw [sat_bind, sat_zoom]
    -- whichever kernel runs
    by_cases hsequence : h.sequenceLength = 8
    · rw [if_pos hsequence]
      cases hrun : kernel.decryptS2 h message key _ with
      | ok u d => exact validateFrameAndSetBuffer_step hP h m _
      | error e d => exact (hP.kernel hasync).2 hrun
    · rw [if_neg hsequence]
      cases hrun : kernel.decryptS0 h message key _ with
      | ok u d => exact validateFrameAndSetBuffer_step hP h m _
      | error e d => exact (hP.kernel hasync).1 hrun

/-- At the seek table nothing is read. -/
theorem frameStep_atSeekTable (hcut : s.atSeekTable) : FrameStep s false s := by
  rcases hcut with ⟨hpos, -, hreached⟩
  constructor
  · rfl
  · intro htrue
    cases htrue
  · intro _
    refine ⟨le_rfl, .inr ⟨hpos, ?_⟩⟩
    rw [ge_iff_le, UInt64.le_iff_toNat_le, UInt64.toNat_ofNat'] at hreached
    exact hreached.trans (Nat.mod_le _ _)

/-- The end of the source in front of a frame. -/
theorem frameStep_exhausted (hf : Filled s 0 s') (hnil : s.innerStream.rest = []) :
    FrameStep s false s' := by
  have hrest := hf.rest
  rcases hf with ⟨k, b, -, rfl⟩
  constructor
  · rfl
  · intro htrue
    cases htrue
  · intro _
    constructor
    · exact Nat.add_le_add_left (by omega) _
    · left
      apply List.eq_nil_of_length_eq_zero
      rw [hnil, List.length_nil] at hrest
      omega

/-- A frame that was read into the buffer as long as its header says, and opened there. -/
theorem frameStep_fetched {m : ManagedSecurityStream} {data : Bytes} {n : ℕ}
    (hparse : Header.parse data = .ok h)
    (hf : Filled s (4 + n + (h.totalLength - ((4 + n : ℕ) : ℤ)).toNat) m)
    (hopened : Opened h m s') : FrameStep s true s' := by
  have hrest := hf.rest
  have hpayload := payload_lt_consumed hparse n
  rcases hopened with ⟨hmetadata, hinner, hcount⟩
  constructor
  · rcases hf with ⟨k, b, -, rfl⟩
    exact hmetadata
  · intro _
    rw [deliverable, hinner, hcount]
    omega
  · intro hfalse
    cases hfalse

theorem tryReadNextFrame_step (hP : c.Raises P) (s : ManagedSecurityStream) :
    Sat (tryReadNextFrame c s) (fun more s' => FrameStep s more s') (fun e _ => P e) := by
  rw [tryReadNextFrame, get_bind]
  by_cases hcut : s.atSeekTable
  · rw [if_pos hcut]
    exact frameStep_atSeekTable hcut
  rw [if_neg hcut, sat_bind]
  refine (readFixedHeader_sat s).mono ?_ (fun _ _ => hP.thrown)
  rintro more s₁ ⟨hfour, hnone⟩
  cases more with
  | false =>
    rcases hnone rfl with ⟨hf, hnil⟩
    exact frameStep_exhausted hf hnil
  | true =>
    rw [if_neg Bool.noConfusion, get_bind, sat_bind]
    refine (fillSpan_filled _ _ _ s₁).mono ?_ (fun _ _ => hP.thrown)
    intro _ s₂ hext
    rw [get_bind, sat_bind, sat_ofExcept]
    refine ⟨fun h hparse => ?_, fun e he => hP.declared (parse_declared he)⟩
    rw [sat_bind]
    refine (fillSpan_filled _ _ _ s₂).mono ?_ (fun _ _ => hP.thrown)
    intro _ s₃ hdata
    have hf := ((hfour rfl).trans hext).trans hdata
    -- what is read is opened
    rw [sat_bind]
    refine (decryptFrameSync_step hP h s₃).mono ?_ (fun _ _ he => he)
    rintro _ s₄ ⟨b, rfl⟩
    rw [sat_bind]
    refine (validateFrameAndSetBuffer_step hP h s₃ b).mono ?_ (fun _ _ he => he)
    intro _ s₅ hopened
    exact frameStep_fetched hparse hf hopened

theorem tryReadNextFrameAsync_step (hP : c.Raises P) (s : ManagedSecurityStream) :
    Sat (tryReadNextFrameAsync c s) (fun more s' => FrameStep s more s') (fun e _ => P e) := by
  rw [tryReadNextFrameAsync, get_bind]
  by_cases hcut : s.atSeekTable
  · rw [if_pos hcut]
    exact frameStep_atSeekTable hcut
  rw [if_neg hcut, sat_bind]
  refine (readFixedHeader_sat s).mono ?_ (fun _ _ => hP.thrown)
  rintro more s₁ ⟨hfour, hnone⟩
  cases more with
  | false =>
    rcases hnone rfl with ⟨hf, hnil⟩
    exact frameStep_exhausted hf hnil
  | true =>
    rw [if_neg Bool.noConfusion, get_bind, sat_bind]
    refine (fillSpan_filled _ _ _ s₁).mono ?_ (fun _ _ => hP.thrown)
    intro _ s₂ hext
    rw [get_bind, sat_bind, sat_ofExcept]
    refine ⟨fun span _ => ?_, hP.span⟩
    rw [sat_bind, sat_ofExcept]
    refine ⟨fun h hparse => ?_, fun e he => hP.declared (parse_declared he)⟩
    rw [sat_bind, sat_ofExcept]
    refine ⟨fun _ _ => ?_, hP.span⟩
    rw [sat_bind]
    refine (fillSpan_filled _ _ _ s₂).mono ?_ (fun _ _ => hP.thrown)
    intro _ s₃ hdata
    have hf := ((hfour rfl).trans hext).trans hdata
    rw [sat_bind]
    refine (decryptCurrentFrameAsync_step hP h s₃).mono ?_ (fun _ _ he => he)
    intro _ s₄ hopened
    exact frameStep_fetched hparse hf hopened

/-! ## One call -/

/-- The loop, which has copied `out`: each round that goes on uses up some of the source
or fills some of the request. -/
theorem readLoop_step {tryRead : StreamM Bool} (hthrown : ∀ {e}, Exn.IsThrown e → P e)
    (htry : ∀ s, Sat (tryRead s) (fun more s' => FrameStep s more s') (fun e _ => P e))
    (count : ℕ) :
    ∀ (fuel : ℕ) (out : Bytes) (s : ManagedSecurityStream),
      s.innerStream.rest.length + (count - out.length) < fuel →
      Sat (readLoop tryRead count fuel out s)
        (fun bytes s' => bytes.length + s'.deliverable ≤ out.length + s.deliverable ∧
          s'.metadata = s.metadata ∧ (bytes = [] → 0 < count → s'.AtEnd))
        (fun e _ => P e) := by
  intro fuel
  induction fuel with
  | zero =>
    intro out s hfuel
    exact absurd hfuel (Nat.not_lt_zero _)
  | succ fuel ih =>
    intro out s hfuel
    rw [readLoop]
    by_cases hfull : out.length < count
    swap
    · rw [if_neg hfull]
      refine ⟨le_rfl, rfl, ?_⟩
      rintro rfl hcount
      exact absurd hcount hfull
    rw [if_pos hfull, get_bind]
    by_cases hbuffered : 0 < s.readBufferCount
    · rw [if_pos hbuffered, sat_bind, sat_ofExcept]
      refine ⟨fun piece hslice => ?_,
        fun e he => hthrown (Exn.isThrown_of_declared (sliceSpan_declared he))⟩
      rw [modify_bind]
      rcases sliceSpan_eq_ok.mp hslice with ⟨⟨-, -, hfit⟩, hpiece⟩
      set n := min s.readBufferCount (count - out.length) with hn
      have hlen : piece.length = n := by
        rw [hpiece, Int.toNat_natCast, Int.toNat_natCast]
        exact length_slice_of_le (by omega)
      have hrest := ih (out ++ piece) { s with
        readBufferOffset := s.readBufferOffset + n
        readBufferCount := s.readBufferCount - n } (by
          show s.innerStream.rest.length + (count - (out ++ piece).length) < fuel
          rw [List.length_append]
          omega)
      refine hrest.mono ?_ (fun _ _ he => he)
      rintro bytes s' ⟨hle, hmetadata, hend⟩
      refine ⟨?_, hmetadata, hend⟩
      -- what was copied is no longer buffered
      replace hle : bytes.length + s'.deliverable ≤ (out ++ piece).length +
        (s.readBufferCount - n + s.innerStream.rest.length) := hle
      rw [List.length_append] at hle
      have hall : s.deliverable = s.readBufferCount + s.innerStream.rest.length := rfl
      omega
    · rw [if_neg hbuffered, sat_bind]
      refine (htry s).mono ?_ (fun _ _ he => he)
      intro more s₁ hstep
      cases more with
      | false =>
        rcases hstep.ended rfl with ⟨hle, hend⟩
        exact ⟨Nat.add_le_add_left hle _, hstep.metadata, fun _ _ => hend⟩
      | true =>
        have hless := hstep.fetched rfl
        have hall : s.deliverable = s.readBufferCount + s.innerStream.rest.length := rfl
        have hall₁ : s₁.deliverable = s₁.readBufferCount + s₁.innerStream.rest.length := rfl
        rw [if_neg Bool.noConfusion]
        by_cases hsome : 0 < out.length
        · rw [if_pos hsome]
          refine ⟨by omega, hstep.metadata, ?_⟩
          rintro rfl
          exact absurd hsome (Nat.lt_irrefl 0)
        · rw [if_neg hsome]
          refine (ih out s₁ (by omega)).mono ?_ (fun _ _ he => he)
          rintro bytes s' ⟨hle, hmetadata, hend⟩
          exact ⟨by omega, hmetadata.trans hstep.metadata, hend⟩

/-- A part of the header is read. -/
theorem headerArray_step (message : String) (count : ℕ) (s : ManagedSecurityStream) :
    Sat (onInner (InnerStream.readArray message count) s)
      (fun _ s' => s'.deliverable ≤ s.deliverable) (fun e _ => e.IsThrown) := by
  rw [onInner, sat_zoom]
  refine (InnerStream.readArray_sat message count s.innerStream).mono ?_ (fun _ _ he => he)
  rintro _ inner ⟨k, rfl⟩
  show s.readBufferCount + (s.innerStream.advance count k).rest.length ≤ _
  rw [InnerStream.advance_rest, List.length_drop, deliverable]
  omega

theorem masterHeader_parse_thrown {data : Bytes} {e : Exn} (h : MasterHeader.parse data = .error e) :
    e.IsThrown := by
  unfold MasterHeader.parse at h
  split_ifs at h
  · obtain rfl := Except.error.inj h
    exact Exn.isThrown_of_declared rfl
  · obtain rfl := Except.error.inj h
    exact Exn.isThrown_of_declared rfl

theorem readProtocolHeader_step (s : ManagedSecurityStream) :
    Sat (readProtocolHeader s) (fun _ s' => s'.deliverable ≤ s.deliverable)
      (fun e _ => e.IsThrown) := by
  rw [readProtocolHeader, sat_bind]
  refine (headerArray_step _ _ s).mono ?_ (fun _ _ he => he)
  intro data s₁ h₁
  rw [sat_bind, sat_ofExcept]
  constructor
  swap
  · exact fun e he => masterHeader_parse_thrown he
  intro master _
  rw [modify_bind, sat_bind, sat_ensure]
  constructor
  swap
  · exact fun _ => Exn.isThrown_of_declared rfl
  intro _
  unfold runIf
  split
  · rw [sat_bind]
    refine (headerArray_step _ _ _).mono ?_ (fun _ _ he => he)
    intro metadata s₂ h₂
    exact h₂.trans h₁
  · exact h₁

/-- The resize branch of the asynchronous reader. -/
theorem resizeBuffer_step (master : MasterHeader) (s : ManagedSecurityStream) :
    Sat (resizeBuffer master s) (fun _ s' => s'.deliverable = s.deliverable)
      (fun e _ => e.IsThrown) := by
  rw [resizeBuffer, sat_bind, sat_ofExcept]
  constructor
  swap
  · exact fun e he => Exn.isThrown_of_declared (getRequiredSize_declared he)
  intro size _
  rw [sat_bind, sat_ensure]
  constructor
  · exact fun _ => rfl
  · intro _ hend
    cases hend

theorem processMasterHeaderSync_step (data : Bytes) (s : ManagedSecurityStream) :
    Sat (processMasterHeaderSync data s) (fun _ s' => s'.deliverable = s.deliverable)
      (fun e _ => e.IsThrown) := by
  rw [processMasterHeaderSync, sat_bind, sat_ofExcept]
  constructor
  swap
  · exact fun e he => masterHeader_parse_thrown he
  intro master _
  rw [modify_bind, sat_bind, sat_ensure]
  constructor
  swap
  · exact fun _ => Exn.isThrown_of_declared rfl
  intro _
  have hmetadata : ∀ s₁ : ManagedSecurityStream, s₁.deliverable = s.deliverable →
      Sat ((runIf (master.metadataLength > 0) (modify fun s => { s with
        metadata := some (List.replicate master.metadataLength.toNat 0) }) : StreamM Unit) s₁)
        (fun _ s' => s'.deliverable = s.deliverable) (fun e _ => e.IsThrown) := by
    intro s₁ h₁
    unfold runIf
    split
    · exact h₁
    · exact h₁
  rw [get_bind, sat_bind]
  -- a new buffer is allocated or not, and so are the metadata
  by_cases hsize : master.chunkSize > s.chunkSize ∨ (s.buffer.length : ℤ) < master.chunkSize
  · rw [runIf_true hsize]
    refine (resizeBuffer_step master _).mono ?_ (fun _ _ he => he)
    intro _ s₁ h₁
    exact hmetadata s₁ h₁
  · rw [runIf_false hsize]
    exact hmetadata _ rfl

theorem readProtocolHeaderAsync_step (s : ManagedSecurityStream) :
    Sat (readProtocolHeaderAsync s) (fun _ s' => s'.deliverable ≤ s.deliverable)
      (fun e _ => e.IsThrown) := by
  rw [readProtocolHeaderAsync, sat_bind]
  refine (headerArray_step _ _ s).mono ?_ (fun _ _ he => he)
  intro data s₁ h₁
  rw [sat_bind]
  refine (processMasterHeaderSync_step data s₁).mono ?_ (fun _ _ he => he)
  intro _ s₂ h₂
  rw [get_bind]
  unfold runIf
  split
  · -- the array that is there is filled
    have hthrown := InnerStream.fillSpan_thrown "Stream ended before all data was read." 0
      (s₂.metadata.getD []).length (s₂.innerStream, s₂.metadata.getD [])
    rw [onMetadata, sat_zoom]
    cases hrun : InnerStream.fillSpan "Stream ended before all data was read." 0
      (s₂.metadata.getD []).length (s₂.innerStream, s₂.metadata.getD []) with
    | ok u t =>
      rcases InnerStream.fillSpan_inv hrun with ⟨-, -, k, rfl⟩
      show s₂.readBufferCount + (s₂.innerStream.advance _ k).rest.length ≤ _
      rw [InnerStream.advance_rest, List.length_drop]
      have hall : s₂.deliverable = s₂.readBufferCount + s₂.innerStream.rest.length := rfl
      omega
    | error e t =>
      rw [hrun] at hthrown
      exact hthrown
  · exact h₂.le.trans h₁

/-- Both kinds of calls: the header first, then the loop. -/
theorem readWith_step {header : StreamM Unit} {tryRead : StreamM Bool}
    (hheader : ∀ s, Sat (header s) (fun _ s' => s'.deliverable ≤ s.deliverable)
      (fun e _ => e.IsThrown))
    (htry : ∀ s, Sat (tryRead s) (fun more s' => FrameStep s more s') (fun e _ => e.IsThrown))
    (count : ℕ) (s : ManagedSecurityStream) :
    Sat ((do
      let s ← get
      ensure (s.mode = .decrypt) (.invalidOperation "Stream is not in Decrypt mode.")
      runIf (s.isHeaderProcessed = false) (do
        header
        modify fun s => { s with isHeaderProcessed := true })
      let s ← get
      readLoop tryRead count (s.readFuel count) [] : StreamM Bytes) s)
      (fun bytes s' => bytes.length + s'.deliverable ≤ s.deliverable ∧
        (bytes = [] → 0 < count → s'.AtEnd))
      (fun e _ => e.IsThrown) := by
  have hloop : ∀ s₁ : ManagedSecurityStream, s₁.deliverable ≤ s.deliverable →
      Sat (readLoop tryRead count (s₁.readFuel count) [] s₁)
        (fun bytes s' => bytes.length + s'.deliverable ≤ s.deliverable ∧
          (bytes = [] → 0 < count → s'.AtEnd)) (fun e _ => e.IsThrown) := by
    intro s₁ h₁
    have hfuel : s₁.innerStream.rest.length + (count - ([] : Bytes).length) < s₁.readFuel count := by
      rw [List.length_nil, readFuel]
      omega
    refine (readLoop_step id htry count _ [] s₁ hfuel).mono ?_ (fun _ _ he => he)
    rintro bytes s' ⟨hle, -, hend⟩
    rw [List.length_nil] at hle
    exact ⟨by omega, hend⟩
  rw [get_bind, sat_bind, sat_ensure]
  constructor
  swap
  · exact fun _ => Exn.isThrown_of_declared rfl
  intro _
  rw [sat_bind]
  unfold runIf
  split
  · rw [sat_bind]
    refine (hheader s).mono ?_ (fun _ _ he => he)
    intro _ s₁ h₁
    exact hloop _ h₁
  · exact hloop s le_rfl

/-- A call of either kind, with the size of the caller's buffer. -/
inductive ReadCall where
  | read (count : ℕ)
  | readAsync (count : ℕ)
deriving DecidableEq, Repr

def ReadCall.count : ReadCall → ℕ
  | read count => count
  | readAsync count => count

/-- One call of a reader. -/
def readCall (c : Cipher) : ReadCall → StreamM Bytes
  | .read count => read c count
  | .readAsync count => readAsync c count

theorem readCall_step (hends : c.Ends) (call : ReadCall) (s : ManagedSecurityStream) :
    Sat (readCall c call s)
      (fun bytes s' => bytes.length + s'.deliverable ≤ s.deliverable ∧
        (bytes = [] → 0 < call.count → s'.AtEnd))
      (fun e _ => e.IsThrown) := by
  cases call with
  | read count => exact readWith_step readProtocolHeader_step (tryReadNextFrame_step hends.raises) count s
  | readAsync count =>
    exact readWith_step readProtocolHeaderAsync_step (tryReadNextFrameAsync_step hends.raises) count s

end ManagedSecurityStream

/-! ## Any calls -/

/-- A stream over any bytes, in any state, so also after calls that have thrown. The next
call returns or throws; if it has a buffer and returns nothing, the source is exhausted or
its position has reached the announced seek table; and among more calls than there are
bytes left, buffered or in the source, one returns nothing or throws. -/
theorem reading_ends (c : Cipher) (hends : c.Ends) (s : ManagedSecurityStream) :
    (∀ call s', readCall c call s ≠ .error .nonTermination s') ∧
      (∀ call s', 0 < call.count → readCall c call s = .ok [] s' → s'.AtEnd) ∧
      ∀ calls : List ReadCall, s.deliverable < calls.length →
        ∃ r ∈ (attempts (readCall c) calls s).1, r = .ok [] ∨ ∃ e, r = .error e := by
  refine ⟨?_, ?_, ?_⟩
  · intro call s' hrun
    exact (readCall_step hends call s).of_error hrun rfl
  · intro call s' hcount hrun
    exact ((readCall_step hends call s).of_ok hrun).2 rfl hcount
  · intro calls
    apply attempts_exhaust
    intro call s
    exact (readCall_step hends call s).mono (fun _ _ h => h.1) (fun _ _ _ => trivial)

theorem maskCipher_ends : maskCipher.Ends := by
  constructor
  · intro index h
    cases h
  · intro kernel h
    cases h

/-- Three bytes that are no archive: four calls are enough to meet an exception. -/
theorem reading_ends_three :
    ∃ s, create (.source [1, 2, 3] 0) .decrypt {} = .ok s ∧
      ∀ calls : List ReadCall, 3 < calls.length →
        ∃ r ∈ (attempts (readCall maskCipher) calls s).1, r = .ok [] ∨ ∃ e, r = .error e := by
  obtain ⟨s, hs, -⟩ := create_decrypt (L := 64 * 1024) (K := 0) (.source [1, 2, 3] 0) {} rfl rfl
    (by decide) (by decide)
  refine ⟨s, hs, ?_⟩
  have hthree : s.deliverable = 3 := by
    rcases create_inv hs with ⟨size, -, -, rfl⟩
    rfl
  obtain ⟨-, -, hfinite⟩ := reading_ends maskCipher maskCipher_ends s
  rw [hthree] at hfinite
  exact hfinite

end ManagedSecurity

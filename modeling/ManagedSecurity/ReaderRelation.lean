import ManagedSecurity.Stream

/-! # Two readers side by side

What a reader does with a frame that it has in its buffer, and how it hands the
frame out, depends on few of its fields. `FrameRelation` is what a relation
between two readers needs for that part of them to go on side by side.
-/

namespace ManagedSecurity

open Bytes Outcome ManagedSecurityStream

namespace ManagedSecurityStream

/-- The relation fixes the buffer and what has been taken from it, and is kept when
both objects change these alike. -/
structure FrameRelation (R : ManagedSecurityStream → ManagedSecurityStream → Prop) : Prop where
  buffer : ∀ {s t}, R s t → s.buffer = t.buffer
  sequenceNumber : ∀ {s t}, R s t → s.sequenceNumber = t.sequenceNumber
  readBufferOffset : ∀ {s t}, R s t → s.readBufferOffset = t.readBufferOffset
  readBufferCount : ∀ {s t}, R s t → s.readBufferCount = t.readBufferCount
  framesDecrypted : ∀ {s t}, R s t → s.framesDecrypted = t.framesDecrypted
  setBuffer : ∀ {s t}, R s t → ∀ b, R { s with buffer := b } { t with buffer := b }
  setWindow : ∀ {s t}, R s t → ∀ offset count,
    R { s with readBufferOffset := offset, readBufferCount := count }
      { t with readBufferOffset := offset, readBufferCount := count }
  setFrame : ∀ {s t}, R s t → ∀ offset count sequence frames,
    R { s with
        readBufferOffset := offset
        readBufferCount := count
        sequenceNumber := sequence
        framesDecrypted := frames }
      { t with
        readBufferOffset := offset
        readBufferCount := count
        sequenceNumber := sequence
        framesDecrypted := frames }

variable {R : ManagedSecurityStream → ManagedSecurityStream → Prop} {s t : ManagedSecurityStream}
  {c : Cipher}

theorem FrameRelation.decryptFrameSync_agree (hR : FrameRelation R) (h : R s t) (header : Header) :
    Agree R (decryptFrameSync c header s) (decryptFrameSync c header t) := by
  rw [decryptFrameSync, get_bind, get_bind, hR.buffer h]
  refine agree_ofExcept_bind h (fun message _ => ?_)
  refine agree_ensure_bind h (fun _ => ?_)
  refine agree_zoom_of (T := Eq) ?_ ?_
  · simp only [hR.buffer h]
    exact agree_self _
  · rintro plaintext _ rfl
    simp only [hR.buffer h]
    exact hR.setBuffer h _

theorem FrameRelation.validateFrameAndSetBuffer_agree (hR : FrameRelation R) (h : R s t)
    (header : Header) :
    Agree R (validateFrameAndSetBuffer header s) (validateFrameAndSetBuffer header t) := by
  rw [validateFrameAndSetBuffer, get_bind, get_bind, hR.buffer h, hR.sequenceNumber h]
  refine agree_ofExcept_bind h (fun sequence _ => ?_)
  refine agree_ensure_bind h (fun _ => ?_)
  refine agree_ensure_bind h (fun _ => ?_)
  set offset := header.totalLength - header.payloadLength with hoffset
  have hslice : slice s.buffer offset.toNat header.payloadLength.toNat =
      slice t.buffer offset.toNat header.payloadLength.toNat := by
    rw [hR.buffer h]
  rw [modify_run, modify_run, hR.sequenceNumber h, hR.framesDecrypted h, hslice]
  exact agree_ok (hR.setFrame h _ _ _ _)

/-- The loop, on top of frame readers that agree. -/
theorem FrameRelation.readLoop_agree (hR : FrameRelation R) {tryRead tryRead' : StreamM Bool}
    (htry : ∀ s t, R s t → Agree R (tryRead s) (tryRead' t)) (count : ℕ) :
    ∀ fuel out s t, R s t →
      Agree R (readLoop tryRead count fuel out s) (readLoop tryRead' count fuel out t) := by
  intro fuel
  induction fuel with
  | zero =>
    intro out s t h
    exact h
  | succ fuel ih =>
    intro out s t h
    rw [readLoop, readLoop]
    by_cases hfull : out.length < count
    swap
    · rw [if_neg hfull, if_neg hfull]
      exact agree_ok h
    rw [if_pos hfull, if_pos hfull, get_bind, get_bind, hR.readBufferCount h]
    -- buffered bytes go first; a frame is fetched only when there are none
    by_cases hbuffered : 0 < t.readBufferCount
    · rw [if_pos hbuffered, if_pos hbuffered, hR.buffer h, hR.readBufferOffset h]
      refine agree_ofExcept_bind h (fun piece _ => ?_)
      rw [modify_bind, modify_bind, hR.readBufferOffset h, hR.readBufferCount h]
      exact ih _ _ _ (hR.setWindow h _ _)
    · rw [if_neg hbuffered, if_neg hbuffered]
      apply agree_bind (htry s t h)
      intro more s₁ t₁ _ _ h₁
      cases more with
      | false => exact agree_ok h₁
      | true =>
        have hmore : ¬ true = false := by decide
        rw [if_neg hmore, if_neg hmore]
        -- the loop starts no further frame once the call has something to return
        by_cases hsome : 0 < out.length
        · rw [if_pos hsome, if_pos hsome]
          exact agree_ok h₁
        · rw [if_neg hsome, if_neg hsome]
          exact ih _ _ _ h₁

end ManagedSecurityStream

end ManagedSecurity

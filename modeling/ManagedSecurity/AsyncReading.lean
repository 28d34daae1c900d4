import ManagedSecurity.DamagedArchive
import ManagedSecurity.ReaderRelation

/-! # `Read` and `ReadAsync`

The two readers are written twice. With no kernel from outside the two frame
readers do the same (`tryReadNextFrame_agree`), although one hands the whole
buffer to the header parser and the other only the header, and one checks the
size of the frame that the other finds out by filling. The two header readers
do the same only where the header asks for nothing that one of them alone does:

* `ReadProtocolHeaderAsync` reallocates the buffer when the chunk size in the
  header is larger than its own, `ReadProtocolHeader` never does;
* `ReadProtocolHeaderAsync` allocates the metadata before it reads them, and
  fills metadata given to the constructor when the header announces none.

`read_readAsync_agree` is the statement for runs; `SameButChunkSize` is what
relates the two objects all along.
-/

namespace ManagedSecurity

open Bytes Outcome ManagedSecurityStream

namespace ManagedSecurityStream

/-- The first object is the second one, with a chunk size of its own. No method
that reads looks at the chunk size once the header is processed. -/
def SameButChunkSize (s t : ManagedSecurityStream) : Prop :=
  ∃ size, s = { t with chunkSize := size }

/-- What the header must be like for the two header readers to do the same. -/
def ReadAlike (t : ManagedSecurityStream) (master : MasterHeader) : Prop :=
  master.version ≠ streamVersion ∨
    (¬ (master.chunkSize > t.chunkSize ∨ (t.buffer.length : ℤ) < master.chunkSize) ∧
      if master.metadataLength > 0 then
        MasterHeader.fixedSize + master.metadataLength.toNat ≤ t.innerStream.rest.length
      else t.metadata.getD [] = [])

instance (t : ManagedSecurityStream) (master : MasterHeader) : Decidable (t.ReadAlike master) :=
  inferInstanceAs (Decidable (_ ∨ (_ ∧ _)))

/-- What parsing the header may give. -/
def ParsedAlike (t : ManagedSecurityStream) : Except Exn MasterHeader → Prop
  | .error _ => True
  | .ok master => t.ReadAlike master

instance (t : ManagedSecurityStream) : ∀ r, Decidable (t.ParsedAlike r)
  | .error _ => .isTrue trivial
  | .ok master => inferInstanceAs (Decidable (t.ReadAlike master))

/-- The header is processed, or the bytes that come next are no header, or they
are one that both header readers treat the same. -/
def HeaderReadAlike (t : ManagedSecurityStream) : Prop :=
  t.isHeaderProcessed = true ∨
    t.ParsedAlike (MasterHeader.parse (t.innerStream.rest.take MasterHeader.fixedSize))

instance (t : ManagedSecurityStream) : Decidable t.HeaderReadAlike :=
  inferInstanceAs (Decidable (_ ∨ _))

variable {s t : ManagedSecurityStream}

/-! ## The header -/

theorem sameButChunkSize_onInner {x y : InnerM Bytes} (h : SameButChunkSize s t)
    (hxy : ∀ inner, Agree Eq (x inner) (y inner)) :
    Agree SameButChunkSize (onInner x s) (onInner y t) := by
  rcases h with ⟨size, rfl⟩
  exact agree_zoom rfl (fun _ => ⟨size, rfl⟩) (hxy _)

theorem sameButChunkSize_onFill {α : Type} {x y : FillM α} (h : SameButChunkSize s t)
    (hxy : ∀ r, Agree Eq (x r) (y r)) : Agree SameButChunkSize (onFill x s) (onFill y t) := by
  rcases h with ⟨size, rfl⟩
  exact agree_zoom rfl (fun _ => ⟨size, rfl⟩) (hxy _)

/-- Metadata read into a new array, and into the array allocated for them. -/
theorem readMetadata_agree {n : ℕ} (h : SameButChunkSize s t) (message message' : String)
    (hrest : n ≤ t.innerStream.rest.length) (hopen : t.innerStream.closed = false) :
    Agree SameButChunkSize
      ((onInner (InnerStream.readArray message n) >>= fun metadata =>
        (modify fun s => { s with metadata := some metadata } : StreamM Unit)) s)
      (onMetadata (InnerStream.fillSpan message' 0 n)
        { t with metadata := some (List.replicate n 0) }) := by
  rcases h with ⟨size, rfl⟩
  have hfit : 0 + n ≤ (List.replicate n (0 : UInt8)).length := by
    rw [List.length_replicate]
    omega
  rcases InnerStream.fillSpan_eq message hopen hfit hrest with ⟨k, hk⟩
  -- both end with this stream and these bytes
  set r := (t.innerStream.advance n k,
    overwrite (List.replicate n (0 : UInt8)) 0 (t.innerStream.rest.take n)) with hr
  have hsync : InnerStream.readArray message n t.innerStream = .ok r.2 r.1 := by
    have hrun : (do
        InnerStream.fillSpan message 0 n
        let t ← get
        pure t.2 : FillM Bytes) (t.innerStream, List.replicate n 0) = .ok r.2 r := by
      rw [bind_ok hk]
      rfl
    exact zoom_ok hrun
  -- only the message of a failed read differs between the two
  have hasync : InnerStream.fillSpan message' 0 n (t.innerStream, List.replicate n 0) = .ok () r := by
    have hsame := InnerStream.fillSpan_agree message message' 0 n
      (t.innerStream, List.replicate n (0 : UInt8))
    rw [hk] at hsame
    cases hother : InnerStream.fillSpan message' 0 n (t.innerStream, List.replicate n 0) with
    | ok u r' =>
      rw [hother] at hsame
      rw [← hsame.2]
    | error e r' =>
      rw [hother] at hsame
      exact hsame.elim
  have hleft : onInner (InnerStream.readArray message n) { t with chunkSize := size } =
      .ok r.2 { t with chunkSize := size, innerStream := r.1 } := onInner_ok hsync
  have hright : onMetadata (InnerStream.fillSpan message' 0 n)
      { t with metadata := some (List.replicate n 0) } =
        .ok () { t with innerStream := r.1, metadata := some r.2 } := zoom_ok hasync
  rw [bind_ok hleft, hright]
  exact agree_ok ⟨size, rfl⟩

/-- The asynchronous kernel, on a header of this version that asks for no
larger buffer. -/
theorem processMasterHeaderSync_eq {data : Bytes} {master : MasterHeader}
    (hparse : MasterHeader.parse data = .ok master) (hversion : master.version = streamVersion)
    (hsize : ¬ (master.chunkSize > t.chunkSize ∨ (t.buffer.length : ℤ) < master.chunkSize)) :
    processMasterHeaderSync data t = .ok () { t with
      seekTableOffset := master.seekTableOffset
      metadata := if master.metadataLength > 0 then
        some (List.replicate master.metadataLength.toNat 0) else t.metadata } := by
  rw [processMasterHeaderSync, hparse, bind_ok (ofExcept_ok master t), modify_bind,
    bind_ok (ensure_true hversion _ _), get_bind, runIf_false hsize, pure_bind_run]
  by_cases hmeta : master.metadataLength > 0
  · rw [runIf_true hmeta, if_pos hmeta]
    rfl
  · rw [runIf_false hmeta, if_neg hmeta]
    rfl

/-- The two header readers. -/
theorem readProtocolHeader_agree (h : SameButChunkSize s t) (hnew : t.isHeaderProcessed = false)
    (halike : t.HeaderReadAlike) :
    Agree SameButChunkSize (readProtocolHeader s) (readProtocolHeaderAsync t) := by
  apply agree_bind (sameButChunkSize_onInner h (InnerStream.readArray_agree _ _ _))
  intro masterData s₁ t₁ _ ht₁ h₁
  rcases zoom_eq_ok.mp ht₁ with ⟨inner, hread, rfl⟩
  rcases InnerStream.readArray_inv hread with ⟨rfl, hrest, hopen, k, rfl⟩
  have hopen : t.innerStream.closed = false := hopen.resolve_left (by decide)
  have halike := halike.resolve_left (by rw [hnew]; decide)
  rcases h₁ with ⟨size, rfl⟩
  cases hparse : MasterHeader.parse (t.innerStream.rest.take MasterHeader.fixedSize) with
  | error e =>
    rw [bind_error (ofExcept_error e _), processMasterHeaderSync, hparse,
      bind_error (bind_error (ofExcept_error e _))]
    exact ⟨size, rfl⟩
  | ok master =>
    rw [hparse] at halike
    rw [bind_ok (ofExcept_ok master _), modify_bind]
    by_cases hversion : master.version = streamVersion
    swap
    · -- both have taken over the table offset by now
      have hthrow : processMasterHeaderSync (t.innerStream.rest.take MasterHeader.fixedSize)
          { t with innerStream := t.innerStream.advance MasterHeader.fixedSize k } =
          .error (.notSupported s!"Unsupported stream version: {master.version}") { t with
            innerStream := t.innerStream.advance MasterHeader.fixedSize k
            seekTableOffset := master.seekTableOffset } := by
        rw [processMasterHeaderSync, hparse, bind_ok (ofExcept_ok master _), modify_bind,
          bind_error (ensure_false hversion _ _)]
      rw [bind_error (ensure_false hversion _ _), bind_error hthrow]
      exact ⟨master.chunkSize, rfl⟩
    rcases halike.resolve_left (not_not.mpr hversion) with ⟨hsize, hmeta⟩
    have hkernel := processMasterHeaderSync_eq
      (t := { t with innerStream := t.innerStream.advance MasterHeader.fixedSize k })
      hparse hversion hsize
    rw [bind_ok (ensure_true hversion _ _), bind_ok hkernel, get_bind]
    by_cases hpos : master.metadataLength > 0
    · rw [if_pos hpos] at hmeta
      have hsome : 0 < master.metadataLength.toNat := UInt16.lt_iff_toNat_lt.mp hpos
      have hleft : master.metadataLength.toNat ≤
          (t.innerStream.advance MasterHeader.fixedSize k).rest.length := by
        rw [InnerStream.advance_rest, List.length_drop]
        omega
      rw [runIf_true hpos]
      simp only [if_pos hpos, Option.getD_some, List.length_replicate]
      rw [runIf_true hsome]
      exact readMetadata_agree
        (t := { t with
          innerStream := t.innerStream.advance MasterHeader.fixedSize k
          seekTableOffset := master.seekTableOffset })
        ⟨master.chunkSize, rfl⟩ _ _ hleft hopen
    · rw [if_neg hpos] at hmeta
      rw [runIf_false hpos]
      simp only [if_neg hpos, hmeta]
      rw [runIf_false (by decide)]
      exact agree_ok ⟨master.chunkSize, rfl⟩

/-! ## The frames -/

variable {c : Cipher}

theorem sameButChunkSize_frames : FrameRelation SameButChunkSize where
  buffer := by
    rintro s t ⟨size, rfl⟩
    rfl
  sequenceNumber := by
    rintro s t ⟨size, rfl⟩
    rfl
  readBufferOffset := by
    rintro s t ⟨size, rfl⟩
    rfl
  readBufferCount := by
    rintro s t ⟨size, rfl⟩
    rfl
  framesDecrypted := by
    rintro s t ⟨size, rfl⟩
    rfl
  setBuffer := by
    rintro s t ⟨size, rfl⟩ b
    exact ⟨size, rfl⟩
  setWindow := by
    rintro s t ⟨size, rfl⟩ offset count
    exact ⟨size, rfl⟩
  setFrame := by
    rintro s t ⟨size, rfl⟩ offset count sequence frames
    exact ⟨size, rfl⟩

/-- A frame shorter than its own header is refused by the cipher, which leaves
the buffer alone. -/
theorem decryptFrameSync_short {header : Header} (hparse : Header.parse s.buffer = .ok header)
    (hshort : header.totalLength < headerSize (headerWord s.buffer)) :
    ∃ e, decryptFrameSync c header s = .error e s := by
  cases hslice : sliceSpan s.buffer 0 header.totalLength with
  | error e =>
    refine ⟨e, ?_⟩
    rw [decryptFrameSync, get_bind, hslice]
    rfl
  | ok message =>
    rw [decryptFrameSync, get_bind, hslice, bind_ok (ofExcept_ok message s)]
    set size := header.totalLength - header.payloadLength with hsize
    by_cases hrange : 0 ≤ size ∧ size ≤ s.buffer.length
    swap
    · exact ⟨_, bind_error (ensure_false hrange _ _)⟩
    rcases sliceSpan_eq_ok.mp hslice with ⟨⟨-, htotal, -⟩, rfl⟩
    rcases parse_eq_ok.mp hparse with ⟨p, haccepts, -⟩
    rcases parse_short haccepts.word (n := header.totalLength.toNat) (by omega) with ⟨e, he⟩
    -- the cipher parses the header again, from bytes that end too early
    have hmessage : Header.parse (slice s.buffer (0 : ℤ).toNat header.totalLength.toNat) = .error e := by
      rw [Int.toNat_zero, slice_zero]
      exact he
    have hcipher : c.decryptInto (slice s.buffer (0 : ℤ).toNat header.totalLength.toNat)
        (s.buffer.drop size.toNat) = .error e (s.buffer.drop size.toNat) := by
      rw [Cipher.decryptInto, hmessage]
      rfl
    have hrun : zoom (fun s => s.buffer.drop size.toNat)
        (fun plaintext s => { s with buffer := s.buffer.take size.toNat ++ plaintext })
        (c.decryptInto (slice s.buffer (0 : ℤ).toNat header.totalLength.toNat)) s = .error e s := by
      simp only [zoom, hcipher, List.take_append_drop]
    exact ⟨e, (bind_ok (ensure_true hrange _ _)).trans hrun⟩

/-- The rest of a frame behind its header: one reader asks for the window before
it fills it, the other lets the filling throw. -/
theorem frameData_agree {header : Header} {n : ℕ} (hkernel : c.asyncDecryptor = none)
    (h : SameButChunkSize s t) (hparse : Header.parse t.buffer = .ok header)
    (hn : headerSize (headerWord t.buffer) = n) (hroom : n ≤ t.buffer.length) :
    Agree SameButChunkSize
      ((do
        onFill (InnerStream.fillSpan "Frame data truncated." n (header.totalLength - n).toNat)
        decryptFrameSync c header
        validateFrameAndSetBuffer header
        pure true : StreamM Bool) s)
      ((do
        let _ ← ofExcept (sliceSpan t.buffer n (header.totalLength - n))
        onFill (InnerStream.fillSpan "Stream ended before all data was read." n
          (header.totalLength - n).toNat)
        decryptCurrentFrameAsync c header
        pure true : StreamM Bool) t) := by
  have hbuffer : s.buffer = t.buffer := by
    rcases h with ⟨size, rfl⟩
    rfl
  set remaining := header.totalLength - (n : ℤ) with hremaining
  by_cases hwindow : 0 ≤ remaining ∧ n + remaining ≤ t.buffer.length
  · -- the frame fits the buffer, and both go on
    have hcheck : sliceSpan t.buffer n remaining = .ok (slice t.buffer n remaining.toNat) :=
      sliceSpan_eq_ok.mpr ⟨⟨by omega, hwindow.1, hwindow.2⟩, by rw [Int.toNat_natCast]⟩
    rw [hcheck, bind_ok (ofExcept_ok _ t)]
    apply agree_bind (sameButChunkSize_onFill h (InnerStream.fillSpan_agree _ _ _ _))
    intro _ s₃ t₃ _ _ h₃
    simp only [decryptCurrentFrameAsync, hkernel, bind_assoc]
    apply agree_bind (sameButChunkSize_frames.decryptFrameSync_agree h₃ header)
    intro _ s₄ t₄ _ _ h₄
    apply agree_bind (sameButChunkSize_frames.validateFrameAndSetBuffer_agree h₄ header)
    intro _ s₅ t₅ _ _ h₅
    exact agree_ok h₅
  have hcheck : ∃ e, sliceSpan t.buffer n remaining = .error e := by
    cases hspan : sliceSpan t.buffer n remaining with
    | error e => exact ⟨e, rfl⟩
    | ok span =>
      rcases sliceSpan_eq_ok.mp hspan with ⟨⟨-, hlo, hhi⟩, -⟩
      exact absurd ⟨hlo, hhi⟩ hwindow
  rcases hcheck with ⟨e, hcheck⟩
  rw [hcheck, bind_error (ofExcept_error e t)]
  by_cases hneg : remaining < 0
  · -- nothing is left to be read, and the cipher refuses what there is
    obtain ⟨e', hrefused⟩ := decryptFrameSync_short (s := s) (c := c) (hbuffer ▸ hparse)
      (by rw [hbuffer, hn]; omega)
    have hnone : onFill (InnerStream.fillSpan "Frame data truncated." n remaining.toNat) s =
        .ok () s := by
      rw [Int.toNat_of_nonpos (le_of_lt hneg)]
      rfl
    rw [bind_ok hnone, bind_error hrefused]
    exact h
  · have hfill : onFill (InnerStream.fillSpan "Frame data truncated." n remaining.toNat) s =
        .error (.argumentOutOfRange "") s :=
      onFill_error (InnerStream.fillSpan_outOfRange _ (by omega) (by rw [hbuffer]; omega))
    rw [bind_error hfill]
    exact h

/-- The two frame readers, when the cipher has no kernel from outside. -/
theorem tryReadNextFrame_agree (hkernel : c.asyncDecryptor = none) (h : SameButChunkSize s t) :
    Agree SameButChunkSize (tryReadNextFrame c s) (tryReadNextFrameAsync c t) := by
  rw [tryReadNextFrame, tryReadNextFrameAsync, get_bind, get_bind]
  have htable : s.atSeekTable ↔ t.atSeekTable := by
    rcases h with ⟨size, rfl⟩
    exact Iff.rfl
  by_cases hend : t.atSeekTable
  · rw [if_pos hend, if_pos (htable.mpr hend)]
    exact agree_ok h
  rw [if_neg hend, if_neg (fun hs => hend (htable.mp hs))]
  refine agree_bind (sameButChunkSize_onFill h (fun r => agree_self _)) ?_
  intro more s₁ t₁ _ ht₁ h₁
  have h4 := readFixedHeader_inv ht₁
  cases more with
  | false => exact agree_ok h₁
  | true =>
    rw [if_neg Bool.noConfusion, if_neg Bool.noConfusion, get_bind, get_bind]
    have hbuffer₁ : s₁.buffer = t₁.buffer := by
      rcases h₁ with ⟨size, rfl⟩
      rfl
    rw [hbuffer₁]
    apply agree_bind (sameButChunkSize_onFill h₁ (InnerStream.fillSpan_agree _ _ _ _))
    intro u s₂ t₂ _ ht₂ h₂
    rcases extensions_inv h4 ht₂ with ⟨hword, hroom⟩
    have hbuffer₂ : s₂.buffer = t₂.buffer := by
      rcases h₂ with ⟨size, rfl⟩
      rfl
    rw [get_bind, get_bind, hbuffer₂]
    set n := 4 + calculateHeaderExtensions (headerWord t₁.buffer) with hn
    have hsize : headerSize (headerWord t₂.buffer) = n := by
      rw [hword, hn, calculateHeaderExtensions_eq]
    have hslice : sliceSpan t₂.buffer 0 (n : ℕ) = .ok (t₂.buffer.take n) := by
      rw [← slice_zero]
      have hwindow : 0 + n ≤ t₂.buffer.length := by omega
      exact sliceSpan_ok hwindow
    rw [hslice, bind_ok (ofExcept_ok _ t₂)]
    -- ReadAsync parses the header's own bytes, Read the whole buffer
    rw [← parse_take t₂.buffer (le_of_eq hsize)]
    cases hparse : Header.parse (t₂.buffer.take n) with
    | error e => exact h₂
    | ok header =>
      rw [bind_ok (ofExcept_ok header s₂), bind_ok (ofExcept_ok header t₂)]
      rw [parse_take t₂.buffer (le_of_eq hsize)] at hparse
      exact frameData_agree hkernel h₂ hparse hsize (hsize ▸ hroom)

/-! ## Whole calls -/

/-- One call. -/
theorem read_agree (hkernel : c.asyncDecryptor = none) (count : ℕ) (h : SameButChunkSize s t)
    (halike : t.HeaderReadAlike) :
    Agree SameButChunkSize (ManagedSecurityStream.read c count s) (readAsync c count t) := by
  rcases h with ⟨size, rfl⟩
  rw [ManagedSecurityStream.read, readAsync, get_bind, get_bind]
  refine agree_ensure_bind ⟨size, rfl⟩ (fun _ => ?_)
  have hheader : Agree SameButChunkSize
      (runIf (t.isHeaderProcessed = false) (do
        readProtocolHeader
        modify fun s => { s with isHeaderProcessed := true }) { t with chunkSize := size })
      (runIf (t.isHeaderProcessed = false) (do
        readProtocolHeaderAsync
        modify fun s => { s with isHeaderProcessed := true }) t) := by
    by_cases hnew : t.isHeaderProcessed = false
    · rw [runIf_true hnew, runIf_true hnew]
      refine agree_bind (readProtocolHeader_agree ⟨size, rfl⟩ hnew halike) ?_
      rintro _ s₁ t₁ - - ⟨size', rfl⟩
      exact agree_ok ⟨size', rfl⟩
    · rw [runIf_false hnew, runIf_false hnew]
      exact agree_ok ⟨size, rfl⟩
  apply agree_bind hheader
  rintro _ s₁ t₁ - - ⟨size', rfl⟩
  rw [get_bind, get_bind]
  exact sameButChunkSize_frames.readLoop_agree (fun _ _ => tryReadNextFrame_agree hkernel) count _ _ _ _
    ⟨size', rfl⟩

end ManagedSecurityStream

/-- As long as no call of `ReadAsync` meets a header that the two header readers
treat differently, calls of `Read` return the same and fail at the same places,
also when some of them throw, and leave the same metadata. -/
theorem read_readAsync_agree (c : Cipher) (hkernel : c.asyncDecryptor = none) (inner : InnerStream)
    (args : StreamArguments) (sizes : List ℕ) :
    ∀ s, create inner .decrypt args = .ok s →
      BeforeEach HeaderReadAlike (readAsync c) sizes s →
        (attempts (read c) sizes s).1.map Except.toOption =
            (attempts (readAsync c) sizes s).1.map Except.toOption ∧
          (attempts (read c) sizes s).2.metadata = (attempts (readAsync c) sizes s).2.metadata := by
  intro s _ halike
  obtain ⟨hsame, size, hend⟩ := agree_attempts
    (fun count _ _ h hP => read_agree hkernel count h hP) sizes s s ⟨s.chunkSize, rfl⟩ halike
  exact ⟨hsame, by rw [hend]⟩

/-- The archive of the examples. -/
def sixBytesSource : InnerStream :=
  .source (maskFour.archive (maskFour.run .initial sixBytes)) 0

/-- A reader with the chunk size of the archive. -/
theorem read_readAsync_agree_six :
    ∃ s, create sixBytesSource .decrypt { chunkSize := 4, keyIndex := 5 } = .ok s ∧
      BeforeEach HeaderReadAlike (readAsync maskFour.cipher) [3, 4, 9] s ∧
      (attempts (read maskFour.cipher) [3, 4, 9] s).1.map Except.toOption =
        (attempts (readAsync maskFour.cipher) [3, 4, 9] s).1.map Except.toOption ∧
      (attempts (read maskFour.cipher) [3, 4, 9] s).2.metadata =
        (attempts (readAsync maskFour.cipher) [3, 4, 9] s).2.metadata := by
  have hrun : returns
      (fun s => decide (BeforeEach HeaderReadAlike (readAsync maskFour.cipher) [3, 4, 9] s))
      (create sixBytesSource .decrypt { chunkSize := 4, keyIndex := 5 }) = true := by
    decide +kernel
  rcases of_returns hrun with ⟨s, hreader, halike⟩
  replace halike := of_decide_eq_true halike
  exact ⟨s, hreader, halike, read_readAsync_agree maskFour.cipher rfl sixBytesSource _ [3, 4, 9] s
    hreader halike⟩

/-- A reader whose own chunk size is smaller than that of the archive: `Read`
throws where `ReadAsync` returns the first payload. -/
theorem read_throws_readAsync_returns :
    ∃ s, create sixBytesSource .decrypt { chunkSize := 1, keyIndex := 5 } = .ok s ∧
      maskFour.cipher.asyncDecryptor = none ∧
      (attempts (read maskFour.cipher) [4] s).1.map Except.toOption = [none] ∧
      (attempts (readAsync maskFour.cipher) [4] s).1.map Except.toOption = [some [1, 2, 3, 4]] := by
  have hrun : returns
      (fun s => decide ((attempts (read maskFour.cipher) [4] s).1.map Except.toOption = [none] ∧
        (attempts (readAsync maskFour.cipher) [4] s).1.map Except.toOption = [some [1, 2, 3, 4]]))
      (create sixBytesSource .decrypt { chunkSize := 1, keyIndex := 5 }) = true := by
    decide +kernel
  rcases of_returns hrun with ⟨s, hreader, houtcomes⟩
  exact ⟨s, hreader, rfl, of_decide_eq_true houtcomes⟩

end ManagedSecurity

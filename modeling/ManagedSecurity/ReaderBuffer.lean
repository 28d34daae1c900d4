import ManagedSecurity.AsyncReading
import ManagedSecurity.HeaderBuilder

/-! # The buffer of the asynchronous reader

The constructor allocates a buffer for the frames of the reader's own parameters, and
`ProcessMasterHeaderSync` a larger one if the master header announces a larger chunk size.
The key index of the archive also takes part in the size of a frame, but not in that test.

* `tryReadNextFrameAsync_frame`: a frame that fits the buffer is read;
* `header_makes_room`: exactly when all frames of an accepted header fit.
-/

namespace ManagedSecurity

open Bytes Outcome ManagedSecurityStream

/-- A kernel from outside, if there is one, opens the frame. -/
def Sealer.KernelOpens (S : Sealer) (i : ℕ) (p : Bytes) : Prop :=
  ∀ kernel, S.cipher.asyncDecryptor = some kernel → ∀ dest : Bytes, dest.length = p.length →
    kernel.decryptS2 (builtHeader p.length S.keyIndex 2) (S.frame i p) S.key dest = .ok () p

namespace ManagedSecurityStream

section

variable {S : Sealer} {s : ManagedSecurityStream} {i : ℕ} {p slack tail : Bytes}

/-- A frame in the buffer is decrypted by whichever kernel there is. -/
theorem decryptCurrentFrameAsync_eq (hopens : S.cipher.crypto.Opens (S.call i p))
    (hkernel : S.KernelOpens i p) (hL : p.length < 2 ^ 25)
    (hbuf : s.buffer = S.frame i p ++ slack) (hseq : s.sequenceNumber = S.sequence i) :
    ∃ b, b.length = s.buffer.length ∧ slice b (overhead p.length S.keyIndex) p.length = p ∧
      decryptCurrentFrameAsync S.cipher (builtHeader p.length S.keyIndex 2) s =
        .ok () { s with
          buffer := b
          readBufferOffset := overhead p.length S.keyIndex
          readBufferCount := p.length
          sequenceNumber := s.sequenceNumber + 1
          framesDecrypted := s.framesDecrypted ++ [p] } := by
  cases hasync : S.cipher.asyncDecryptor with
  | none =>
    rcases openFrame_eq hopens hL hbuf hseq with ⟨b, hblen, hplain, hrun⟩
    refine ⟨b, hblen, hplain, ?_⟩
    simp only [decryptCurrentFrameAsync, hasync]
    exact hrun
  | some kernel =>
    rcases slice_opened hbuf with ⟨hblen, hplain⟩
    refine ⟨_, hblen, hplain, ?_⟩
    set O := overhead p.length S.keyIndex with hO
    set h := builtHeader p.length S.keyIndex 2 with hh
    rcases builtHeader_size p.length S.keyIndex with ⟨-, hsize⟩
    rw [← hO, ← hh] at hsize
    have hlen : s.buffer.length = O + p.length + slack.length := by
      rw [hbuf, List.length_append, Sealer.length_frame]
    have hmessage : sliceSpan s.buffer 0 h.totalLength = .ok (S.frame i p) := message_buffered hbuf
    -- the kernel gets the window of the buffer that is the payload
    have hwindow : sliceSpan s.buffer O h.payloadLength = .ok (slice s.buffer O p.length) :=
      sliceSpan_ok (by omega)
    have hdecrypt : kernel.decryptS2 h (S.frame i p) S.key (slice s.buffer O p.length) = .ok () p :=
      hkernel kernel hasync _ (length_slice_of_le (by omega))
    have hkey : S.cipher.getKey h.keyIndex = .ok S.key := S.provided
    have hlengths : (h.ivLength = 12 ∧ h.sequenceLength = 8) ∨
        (h.ivLength = 12 ∧ h.sequenceLength = 0) := .inl ⟨rfl, rfl⟩
    have hchoice : (if h.sequenceLength = 8 then kernel.decryptS2 h (S.frame i p) S.key
        else kernel.decryptS0 h (S.frame i p) S.key) = kernel.decryptS2 h (S.frame i p) S.key :=
      if_pos rfl
    have hopen : zoom (fun s => slice s.buffer O h.payloadLength.toNat)
        (fun plaintext s => { s with buffer := overwrite s.buffer O plaintext })
        (kernel.decryptS2 h (S.frame i p) S.key) s =
        .ok () { s with buffer := overwrite s.buffer O p } := zoom_ok hdecrypt
    rw [← hsize] at hwindow
    rw [decryptCurrentFrameAsync, hasync]
    simp only []
    rw [get_bind, bind_ok (ofExcept_eq hkey), if_pos hlengths, bind_ok (ofExcept_eq hmessage),
      bind_ok (ofExcept_eq hwindow), hchoice]
    simp only [hsize, Int.toNat_natCast]
    rw [bind_ok hopen]
    exact validateFrame_opened hbuf hseq

/-- `TryReadNextFrameAsync` in front of a frame that fits the buffer. -/
theorem tryReadNextFrameAsync_frame (hopens : S.cipher.crypto.Opens (S.call i p))
    (hkernel : S.KernelOpens i p) (hopen : s.innerStream.closed = false) (hcut : ¬ s.atSeekTable)
    (hrest : s.innerStream.rest = S.frame i p ++ tail) (hL : p.length < 2 ^ 25)
    (hroom : overhead p.length S.keyIndex + p.length ≤ s.buffer.length)
    (hseq : s.sequenceNumber = S.sequence i) :
    ∃ s', tryReadNextFrameAsync S.cipher s = .ok true s' ∧ s'.innerStream.rest = tail ∧
      s'.buffer.length = s.buffer.length ∧
      slice s'.buffer s'.readBufferOffset s'.readBufferCount = p := by
  set H := headerLength p.length S.keyIndex with hH
  have hover : overhead p.length S.keyIndex = H + 36 := rfl
  have hframeLen : (S.frame i p).length = H + (36 + p.length) := by
    rw [Sealer.length_frame, hover]
    omega
  have hlong : H + (36 + p.length) ≤ s.innerStream.rest.length := by
    rw [hrest, List.length_append, hframeLen]
    omega
  have hfront : s.innerStream.rest.take H = headerBytes p.length S.keyIndex 2 := by
    rw [hrest, List.take_append_of_le_length (by omega), take_headerLength]
  rcases headerBytes_filled "Stream ended before all data was read." hL S.keyIndex_lt hopen
    (by omega) hfront with ⟨k₁, k₂, hfixed, hext, hexts, hbuffer⟩
  rw [← hH] at hext hexts hbuffer
  have hfilled : (s.filled H k₂).buffer.length = s.buffer.length := length_filled (by omega)
  -- the span that is parsed ends with the header
  have hspan : sliceSpan (s.filled H k₂).buffer 0 (H : ℕ) =
      .ok (headerBytes p.length S.keyIndex 2) := by
    rw [hbuffer]
    exact sliceSpan_middle [] _ _ rfl (congrArg Nat.cast (length_headerBytes _ _ _).symm)
  have hparse : Header.parse (headerBytes p.length S.keyIndex 2) =
      .ok (builtHeader p.length S.keyIndex 2) := by
    have hwhole := parse_headerBytes [] hL S.keyIndex_lt (le_refl 2)
    rwa [List.append_nil] at hwhole
  have hremaining : (builtHeader p.length S.keyIndex 2).totalLength - (H : ℤ) =
      ((36 + p.length : ℕ) : ℤ) := by
    rw [(builtHeader_size p.length S.keyIndex).1, hover]
    push_cast
    ring
  have hwindow : sliceSpan (s.filled H k₂).buffer H ((36 + p.length : ℕ) : ℤ) =
      .ok (slice (s.filled H k₂).buffer H (36 + p.length)) := sliceSpan_ok (by omega)
  obtain ⟨k₃, hdata⟩ := fill_eq (s := s) (n := H) (m := 36 + p.length) (k := k₂)
    "Stream ended before all data was read." hopen (by omega) (by omega)
  have hbuf : (s.filled (H + (36 + p.length)) k₃).buffer =
      S.frame i p ++ s.buffer.drop (H + (36 + p.length)) := by
    rw [buffer_filled hlong, hrest, List.take_left' hframeLen]
  rcases decryptCurrentFrameAsync_eq hopens hkernel hL hbuf hseq with ⟨b, hblen, hplain, hframe⟩
  apply Exists.intro
  refine ⟨?_, ?_, ?_, ?_⟩
  · rw [tryReadNextFrameAsync, get_bind, if_neg hcut, bind_ok hfixed, if_neg Bool.noConfusion,
      get_bind, bind_ok hexts, get_bind]
    simp only [hext]
    rw [bind_ok (ofExcept_eq hspan), bind_ok (ofExcept_eq hparse)]
    simp only [hremaining]
    rw [bind_ok (ofExcept_eq hwindow), Int.toNat_natCast, bind_ok hdata, bind_ok hframe]
    rfl
  · show (s.innerStream.advance (H + (36 + p.length)) k₃).rest = tail
    rw [InnerStream.advance_rest, hrest, List.drop_left' hframeLen]
  · exact hblen.trans (length_filled (by omega))
  · exact hplain

end

/-! ## The size of the buffer -/

section

variable {s s' : ManagedSecurityStream} {master : MasterHeader} {u : Unit}

/-- The resize branch allocates for the parameters of the header. -/
theorem resizeBuffer_inv (hrun : resizeBuffer master s = .ok u s') :
    (s'.buffer.length : ℤ) = spaceNeeded master.chunkSize master.keyIndex profileId := by
  rcases bind_eq_ok.mp hrun with ⟨size, s₁, hsizeRun, hrest⟩
  rcases ofExcept_eq_ok.mp hsizeRun with ⟨hsize, rfl⟩
  rcases bind_eq_ok.mp hrest with ⟨u₁, s₂, hcheckRun, hset⟩
  rcases ensure_eq_ok.mp hcheckRun with ⟨hcheck, rfl⟩
  rcases getRequiredSize_eq_ok.mp hsize with ⟨-, -, rfl⟩
  rw [modify_run] at hset
  rcases EStateM.Result.ok.inj hset with ⟨-, rfl⟩
  show ((List.replicate _ (0 : UInt8)).length : ℤ) = _
  rw [List.length_replicate]
  omega

/-- The buffer behind an accepted master header: a new one if the test finds that the
header announces larger chunks, and otherwise the old one. -/
theorem processMasterHeaderSync_buffer {data : Bytes} (hparse : MasterHeader.parse data = .ok master)
    (hrun : processMasterHeaderSync data s = .ok u s') :
    (s'.buffer.length : ℤ) =
      if master.chunkSize > s.chunkSize ∨ (s.buffer.length : ℤ) < master.chunkSize then
        spaceNeeded master.chunkSize master.keyIndex profileId
      else s.buffer.length := by
  rw [processMasterHeaderSync, hparse, bind_ok (ofExcept_ok master s), modify_bind] at hrun
  rcases bind_eq_ok.mp hrun with ⟨u₁, s₁, hversionRun, hrest⟩
  rcases ensure_eq_ok.mp hversionRun with ⟨-, rfl⟩
  rw [get_bind] at hrest
  rcases bind_eq_ok.mp hrest with ⟨u₂, s₂, hresize, hmetadata⟩
  have hlast : s'.buffer = s₂.buffer := by
    by_cases hmeta : master.metadataLength > 0
    · rw [runIf_true hmeta, modify_run] at hmetadata
      rcases EStateM.Result.ok.inj hmetadata with ⟨-, rfl⟩
      rfl
    · rw [runIf_false hmeta] at hmetadata
      rcases pure_eq_ok.mp hmetadata with ⟨-, rfl⟩
      rfl
  rw [hlast]
  split_ifs with htest
  · rw [runIf_true htest] at hresize
    exact resizeBuffer_inv hresize
  · rw [runIf_false htest] at hresize
    rcases pure_eq_ok.mp hresize with ⟨-, rfl⟩
    rfl

/-- The two ways in which a master header is accepted. -/
inductive HeaderAccepted (master : MasterHeader) (s s' : ManagedSecurityStream) : Prop
  | kernel {data : Bytes} (parsed : MasterHeader.parse data = .ok master)
      (run : processMasterHeaderSync data s = .ok () s')
  | read {data : Bytes} {s₁ : ManagedSecurityStream}
      (front : onInner (InnerStream.readArray "Stream ended before all data was read."
        MasterHeader.fixedSize) s = .ok data s₁)
      (parsed : MasterHeader.parse data = .ok master)
      (run : readProtocolHeaderAsync s = .ok () s')

theorem HeaderAccepted.buffer (h : HeaderAccepted master s s') :
    (s'.buffer.length : ℤ) =
      if master.chunkSize > s.chunkSize ∨ (s.buffer.length : ℤ) < master.chunkSize then
        spaceNeeded master.chunkSize master.keyIndex profileId
      else s.buffer.length := by
  cases h with
  | kernel parsed run => exact processMasterHeaderSync_buffer parsed run
  | read front parsed run =>
    rw [readProtocolHeaderAsync, bind_ok front] at run
    rcases bind_eq_ok.mp run with ⟨u₁, s₂, hkernel, hrest⟩
    rcases zoom_eq_ok.mp front with ⟨inner, -, rfl⟩
    have hbuffer := processMasterHeaderSync_buffer parsed hkernel
    -- the metadata are read into their own array
    have hlast : s'.buffer = s₂.buffer := by
      rw [get_bind] at hrest
      by_cases hmeta : 0 < (s₂.metadata.getD []).length
      · rw [runIf_true hmeta] at hrest
        rcases zoom_eq_ok.mp hrest with ⟨t, -, rfl⟩
        rfl
      · rw [runIf_false hmeta] at hrest
        rcases pure_eq_ok.mp hrest with ⟨-, rfl⟩
        rfl
    rw [hlast]
    exact hbuffer

end

end ManagedSecurityStream

/-- A buffer of `n` bytes has room for every frame of a writer with chunk size `c` and key
index `k`, and they are read. -/
structure RoomForFrames (c k n : ℕ) : Prop where
  size : ∃ size, getRequiredSize c k profileId = .ok size ∧ size ≤ n
  frames : ∀ (S : Sealer), S.chunkSize = c → S.keyIndex = k → ∀ i p tail s, p.length ≤ c →
    s.buffer.length = n → s.innerStream.closed = false → ¬ s.atSeekTable →
    s.innerStream.rest = S.frame i p ++ tail → s.sequenceNumber = S.sequence i →
    S.cipher.crypto.Opens (S.call i p) → S.KernelOpens i p →
    ∃ s', tryReadNextFrameAsync S.cipher s = .ok true s' ∧ s'.innerStream.rest = tail ∧
      s'.buffer.length = n ∧ slice s'.buffer s'.readBufferOffset s'.readBufferCount = p

theorem roomForFrames_iff {c k n : ℕ} (hc : c < 2 ^ 25) (hk : k < 2 ^ 25) :
    RoomForFrames c k n ↔ overhead c k + c ≤ n := by
  have hsize := getRequiredSize_frame hc hk
  constructor
  · rintro ⟨⟨size, hreq, hle⟩, -⟩
    have heq : size = ((overhead c k + c : ℕ) : ℤ) := Except.ok.inj (hreq.symm.trans hsize)
    omega
  · intro hroom
    constructor
    · exact ⟨_, hsize, by omega⟩
    · rintro S rfl rfl i p tail s hp rfl hopen hcut hrest hseq hopens hkernel
      have hmono := overhead_mono S.keyIndex hp
      exact tryReadNextFrameAsync_frame hopens hkernel hopen hcut hrest (by omega) (by omega) hseq

/-- After a master header has been accepted, the buffer has room for its frames exactly if
its chunk size is larger than the reader's own, or its frames are no larger. -/
theorem header_makes_room {inner : InnerStream} {args : StreamArguments}
    {s s' : ManagedSecurityStream} {master : MasterHeader} {c k : ℕ}
    (hs : create inner .decrypt args = .ok s) (haccepted : HeaderAccepted master s s')
    (hchunk : master.chunkSize = c) (hkey : master.keyIndex = k) (hc : c < 2 ^ 25)
    (hk : k < 2 ^ 25) :
    RoomForFrames c k s'.buffer.length ↔
      args.chunkSize < c ∨
        spaceNeeded c k profileId ≤ spaceNeeded args.chunkSize args.keyIndex profileId := by
  have hneed : spaceNeeded c k profileId = ((overhead c k + c : ℕ) : ℤ) := by
    have hsize := getRequiredSize_frame hc hk
    exact (getRequiredSize_eq_ok.mp hsize).2.2.symm
  have hbuffer := haccepted.buffer
  rw [hchunk, hkey] at hbuffer
  rw [roomForFrames_iff hc hk]
  rcases create_inv hs with ⟨own, hown, hnonneg, rfl⟩
  rcases getRequiredSize_eq_ok.mp hown with ⟨-, -, rfl⟩
  -- the buffer of the constructor has room for its own chunk
  have hlarge : args.chunkSize ≤ spaceNeeded args.chunkSize args.keyIndex profileId := by
    unfold spaceNeeded
    omega
  simp only [List.length_replicate] at hbuffer
  rw [Int.toNat_of_nonneg hnonneg] at hbuffer
  rcases lt_or_ge args.chunkSize c with hlt | hge
  · rw [if_pos (.inl hlt), hneed] at hbuffer
    constructor
    · exact fun _ => .inl hlt
    · intro _
      omega
  · rw [if_neg (by omega)] at hbuffer
    rw [hneed]
    constructor
    · intro hroom
      right
      omega
    · rintro (hlt | hle)
      · omega
      · omega

/-- The master header of an archive with chunks of 100 bytes under the key index 2048. -/
def masterOfHundred : Bytes :=
  [0x4D, 0x53, 0x47, 1, 0, 0, 0, 100, 0, 0, 8, 0, 0, 0, 0, 0, 0, 0, 0, 0, 0, 0]

/-- A reader with this chunk size keeps the buffer of its constructor. -/
theorem masterOfHundred_kept {K : ℤ} {s : ManagedSecurityStream}
    (hs : create (.source [] 0) .decrypt { chunkSize := 100, keyIndex := K } = .ok s) :
    ∃ s', processMasterHeaderSync masterOfHundred s = .ok () s' ∧ s'.buffer = s.buffer := by
  have hparse : MasterHeader.parse masterOfHundred = .ok ⟨1, 100, 2048, 0, 0⟩ := by decide
  rcases create_inv hs with ⟨own, hown, hnonneg, rfl⟩
  rcases getRequiredSize_eq_ok.mp hown with ⟨-, -, rfl⟩
  refine ⟨_, processMasterHeaderSync_eq hparse rfl ?_, rfl⟩
  simp only [List.length_replicate, Int.toNat_of_nonneg hnonneg]
  unfold spaceNeeded
  omega

/-- A reader of the same parameters has room. -/
theorem header_makes_room_hundred :
    ∃ s s', create (.source [] 0) .decrypt { chunkSize := 100, keyIndex := 2048 } = .ok s ∧
      HeaderAccepted ⟨1, 100, 2048, 0, 0⟩ s s' ∧ RoomForFrames 100 2048 s'.buffer.length := by
  obtain ⟨s, hs, -⟩ := create_decrypt (L := 100) (K := 2048) (.source [] 0)
    { chunkSize := 100, keyIndex := 2048 } rfl rfl (by decide) (by decide)
  rcases masterOfHundred_kept hs with ⟨s', hrun, -⟩
  have haccepted : HeaderAccepted ⟨1, 100, 2048, 0, 0⟩ s s' := .kernel (by decide) hrun
  refine ⟨s, s', hs, haccepted, ?_⟩
  apply (header_makes_room hs haccepted rfl rfl (by decide) (by decide)).mpr
  exact .inr le_rfl

/-- A reader with the same chunk size and a smaller key index keeps a buffer that is one
byte too short. -/
theorem header_makes_no_room :
    ∃ s s', create (.source [] 0) .decrypt { chunkSize := 100, keyIndex := 0 } = .ok s ∧
      HeaderAccepted ⟨1, 100, 2048, 0, 0⟩ s s' ∧ ¬ RoomForFrames 100 2048 s'.buffer.length := by
  obtain ⟨s, hs, hlen⟩ := create_decrypt (L := 100) (K := 0) (.source [] 0)
    { chunkSize := 100, keyIndex := 0 } rfl rfl (by decide) (by decide)
  rcases masterOfHundred_kept hs with ⟨s', hrun, hbuffer⟩
  refine ⟨s, s', hs, .kernel (by decide) hrun, ?_⟩
  rw [roomForFrames_iff (by decide) (by decide), hbuffer, hlen]
  decide

end ManagedSecurity

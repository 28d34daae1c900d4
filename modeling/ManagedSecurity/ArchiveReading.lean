import ManagedSecurity.StreamReader

/-! # Reading archives

The readers of finished archives, put together from `StreamReader`.

* `archive_round_trip`: a reader with the writer's chunk size and key index
  returns what was written, in whatever pieces it is asked for;
* `random_access`: a reader that starts at a frame returns the payloads from
  there on.
-/

namespace ManagedSecurity

open Bytes Outcome ManagedSecurityStream

/-! ## What was written -/

/-- The bytes a call hands to the writer. -/
def ManagedSecurityStream.WriteCall.bytes : WriteCall → Bytes
  | .write buffer => buffer
  | .flushToFrame _ _ => []

/-- All bytes handed to the writer. -/
def writtenBytes (calls : List WriteCall) : Bytes := calls.flatMap WriteCall.bytes

section

variable {A : Archiver}

theorem Archiver.content_run (calls : List WriteCall) :
    ∀ a : ArchiveState, (A.run a calls).framer.content = a.framer.content ++ writtenBytes calls := by
  induction calls with
  | nil =>
    intro a
    exact (List.append_nil _).symm
  | cons call calls ih =>
    intro a
    have hrun : A.run a (call :: calls) = A.run (A.step a call) calls := rfl
    have hbytes : writtenBytes (call :: calls) = call.bytes ++ writtenBytes calls := List.flatMap_cons
    rw [hrun, ih, hbytes, ← List.append_assoc]
    congr 1
    cases call with
    | write buffer => exact Framer.content_push A.chunkSize buffer a.framer
    | flushToFrame timestampMs elapsedMs =>
      show a.framer.flush.content = a.framer.content ++ []
      rw [Framer.content_flush, List.append_nil]

/-- The payloads are the written bytes, cut into frames. -/
theorem Archiver.flatten_payloads (calls : List WriteCall) :
    (A.payloads calls).flatten = writtenBytes calls := by
  have hcontent : (A.run .initial calls).framer.emit.content = writtenBytes calls := by
    rw [Framer.content_emit, Archiver.content_run]
    rfl
  rw [← hcontent]
  exact (List.append_nil _).symm

/-- Every frame fits a buffer made for the writer's chunk size. -/
theorem Archiver.fits_payload (calls : List WriteCall) :
    ∀ p ∈ A.payloads calls, p.length < 2 ^ 25 ∧
      overhead p.length A.keyIndex + p.length ≤ overhead A.chunkSize A.keyIndex + A.chunkSize := by
  intro p hp
  have hle := A.length_payload calls p hp
  have hmono := overhead_mono A.keyIndex hle
  exact ⟨lt_of_le_of_lt hle A.chunkSize_lt, by omega⟩

end

/-! ## Fresh readers -/

/-- What the constructor returns. -/
theorem create_inv {inner : InnerStream} {mode : StreamMode} {args : StreamArguments}
    {s : ManagedSecurityStream} (h : create inner mode args = .ok s) :
    ∃ size : ℤ, getRequiredSize args.chunkSize args.keyIndex profileId = .ok size ∧ 0 ≤ size ∧ s = {
      innerStream := inner
      mode := mode
      keyIndex := args.keyIndex
      chunkSize := args.chunkSize
      metadata := args.metadata
      seekTableOffset := args.seekTableOffset
      buffer := List.replicate size.toNat 0
      bufferPos := 0
      sequenceNumber := args.initialSequence
      isHeaderProcessed := args.skipMasterHeader
      isFinalBlockProcessed := false
      leaveOpen := args.leaveOpen
      seekPoints := []
      readBufferOffset := 0
      readBufferCount := 0
      fills := 0
      gcmCalls := []
      framesDecrypted := [] } := by
  cases hsize : getRequiredSize args.chunkSize args.keyIndex profileId with
  | error e =>
    simp only [create, hsize] at h
    cases h
  | ok size =>
    simp only [create, hsize, Int.sub_add_cancel] at h
    by_cases hneg : size < 0
    · rw [if_pos hneg] at h
      cases h
    · rw [if_neg hneg] at h
      exact ⟨size, rfl, by omega, (Except.ok.inj h).symm⟩

/-- The buffer of a reader takes a frame with a chunk of its size. -/
theorem create_decrypt {L K : ℕ} (inner : InnerStream) (args : StreamArguments)
    (hchunk : args.chunkSize = L) (hkey : args.keyIndex = K) (hL : L < 2 ^ 25) (hK : K < 2 ^ 25) :
    ∃ s, create inner .decrypt args = .ok s ∧ s.buffer.length = overhead L K + L := by
  have hsize : getRequiredSize args.chunkSize args.keyIndex profileId =
      .ok ((overhead L K + L : ℕ) : ℤ) := by
    rw [hchunk, hkey]
    exact getRequiredSize_frame hL hK
  have hlen : ((overhead L K + L : ℕ) : ℤ) - args.chunkSize + args.chunkSize = (overhead L K + L : ℕ) := by
    ring
  have hnonneg : ¬ ((overhead L K + L : ℕ) : ℤ) < 0 := by omega
  rw [create]
  simp only [hsize, hlen, if_neg hnonneg]
  refine ⟨_, rfl, ?_⟩
  rw [List.length_replicate, Int.toNat_natCast]

/-- With the writer's chunk size and key index the buffer takes any of its
frames. -/
theorem create_reader (A : Archiver) (inner : InnerStream) (args : StreamArguments)
    (hchunk : args.chunkSize = A.chunkSize) (hkey : args.keyIndex = A.keyIndex) :
    ∃ s, create inner .decrypt args = .ok s ∧
      s.buffer.length = overhead A.chunkSize A.keyIndex + A.chunkSize :=
  create_decrypt inner args hchunk hkey A.chunkSize_lt A.keyIndex_lt

section

variable {A : Archiver} {inner : InnerStream} {args : StreamArguments} {s : ManagedSecurityStream}
  {off : UInt64} {payloads : List Bytes} {tail : Bytes}

/-- What a reader of this archive works with. -/
def Archiver.setting (A : Archiver) (inner : InnerStream) (args : StreamArguments)
    (s : ManagedSecurityStream) (off : UInt64) (frames : ℕ) : Setting where
  data := inner.data
  frames := frames
  seekable := inner.seekable
  bufferLength := s.buffer.length
  seekTableOffset := off
  metadata := if A.metadata.getD [] = [] then args.metadata else some (A.metadata.getD [])

/-- A reader that has read the master header stands in front of the frames that
follow it. -/
theorem reads_after_header (hcreate : create inner .decrypt args = .ok s)
    (hopen : inner.closed = false) (hpos : inner.position = 0)
    (hdata : inner.data = A.head off ++ (A.frames 0 payloads ++ tail))
    (hm : (A.metadata.getD []).length ≤ 65535) (hskip : args.skipMasterHeader = false)
    (hseq : args.initialSequence = A.first)
    (hfits : ∀ p ∈ payloads, p.length < 2 ^ 25 ∧
      overhead p.length A.keyIndex + p.length ≤ s.buffer.length)
    (hcut : off = 0 ∨ inner.seekable = false ∨
      (A.head 0 ++ A.frames 0 payloads).length ≤ off.toNat) :
    ∃ s₁, (∀ count, read A.cipher count s = read A.cipher count s₁) ∧
      A.Reads (A.setting inner args s off payloads.length) tail s₁ ⟨[], payloads⟩ 0 := by
  rcases create_inv hcreate with ⟨size, -, -, hs⟩
  have hinner : s.innerStream = inner := by rw [hs]
  have hmode : s.mode = .decrypt := by rw [hs]
  have hfresh : s.isHeaderProcessed = false := by rw [hs]; exact hskip
  have hrest : s.innerStream.rest = A.head off ++ (A.frames 0 payloads ++ tail) := by
    rw [hinner, InnerStream.rest, hpos, List.drop_zero, hdata]
  rcases readProtocolHeader_head (A := A) (by rw [hinner]; exact hopen) hrest hm with ⟨k, hheader⟩
  refine ⟨_, fun count => read_after_header A.cipher count hfresh hmode hheader hmode, ?_⟩
  -- before the first frame: nothing is buffered and the sequence is A's first
  exact {
    mode := hmode
    header := rfl
    opened := by
      show s.innerStream.closed = false
      rw [hinner, hopen]
    data := by
      show s.innerStream.data = inner.data
      rw [hinner]
    inside := by
      show s.innerStream.position + (A.head off).length ≤ inner.data.length
      rw [hinner, hpos, hdata, List.length_append]
      omega
    seekable := by
      show s.innerStream.seekable = inner.seekable
      rw [hinner]
    buffer := rfl
    seekTableOffset := rfl
    metadata := by
      show (if _ then s.metadata else _) = if _ then args.metadata else _
      rw [hs]
    rest := by
      show (s.innerStream.advance (A.head off).length k).rest = _
      rw [InnerStream.advance_rest, hrest, List.drop_left]
    index := Nat.zero_add _
    sequence := by
      show s.sequenceNumber = A.first + UInt64.ofNat 0
      rw [hs]
      exact hseq.trans (UInt64.add_zero _).symm
    fits := hfits
    cut := by
      refine hcut.imp_right (Or.imp_right ?_)
      intro hle
      show s.innerStream.position + (A.head off).length + (A.frames 0 payloads).length ≤ off.toNat
      rw [List.length_append, A.length_head_eq 0 off] at hle
      rw [hinner, hpos]
      omega
    count := by
      show s.readBufferCount = 0
      rw [hs]
    window := by
      show s.readBufferOffset + 0 ≤ s.buffer.length
      rw [hs]
      exact Nat.zero_le _
    shown := slice_len_zero _ _ }

/-- A reader that starts at the frame with index `i`. -/
theorem reads_from_frame {i : ℕ} (hcreate : create inner .decrypt args = .ok s)
    (hopen : inner.closed = false) (hpos : inner.position = A.frameStart payloads i)
    (hi : i < payloads.length) (hdata : inner.data = A.head off ++ (A.frames 0 payloads ++ tail))
    (hskip : args.skipMasterHeader = true) (hseq : args.initialSequence = A.sequence i)
    (hoff : args.seekTableOffset = off)
    (hfits : ∀ p ∈ payloads, p.length < 2 ^ 25 ∧
      overhead p.length A.keyIndex + p.length ≤ s.buffer.length)
    (hcut : off = 0 ∨ inner.seekable = false ∨
      (A.head 0 ++ A.frames 0 payloads).length ≤ off.toNat) :
    A.Reads ⟨inner.data, payloads.length, inner.seekable, s.buffer.length, off, args.metadata⟩ tail s
      ⟨[], payloads.drop i⟩ i := by
  rcases create_inv hcreate with ⟨size, -, -, hs⟩
  have hinner : s.innerStream = inner := by rw [hs]
  have hframe := List.getElem?_eq_getElem hi
  have hdrop : A.frames i (payloads.drop i) =
      A.frame i payloads[i] ++ A.frames (i + 1) (payloads.drop (i + 1)) := by
    rw [List.drop_eq_getElem_cons hi]
    rfl
  have hrest : inner.rest = A.frames i (payloads.drop i) ++ tail := by
    rw [InnerStream.rest, hpos, hdata, A.drop_frameStart hframe, hdrop, List.append_assoc]
  -- the frames from i on end where all frames end
  have hend : A.frameStart payloads i + (A.frames i (payloads.drop i)).length =
      (A.head 0 ++ A.frames 0 payloads).length := by
    rw [Archiver.frameStart, A.frames_take_drop payloads hi.le, List.length_append, List.length_append, List.length_append]
    omega
  exact {
    mode := by rw [hs]
    header := by
      rw [hs]
      exact hskip
    opened := by rw [hinner, hopen]
    data := by rw [hinner]
    inside := by
      rw [hinner, hpos]
      show A.frameStart payloads i ≤ inner.data.length
      have hle := A.frameStart_le payloads off tail i hi.le
      rw [← hdata] at hle
      omega
    seekable := by rw [hinner]
    buffer := rfl
    seekTableOffset := by
      rw [hs]
      exact hoff
    metadata := by rw [hs]
    rest := by rw [hinner, hrest]
    index := by
      show i + (payloads.drop i).length = payloads.length
      rw [List.length_drop]
      omega
    sequence := by
      rw [hs]
      exact hseq
    fits := fun p hp => hfits p (List.mem_of_mem_drop hp)
    cut := by
      refine hcut.imp_right (Or.imp_right ?_)
      intro hle
      show s.innerStream.position + (A.frames i (payloads.drop i)).length ≤ off.toNat
      rw [hinner, hpos, hend]
      exact hle
    count := by rw [hs]; rfl
    window := by
      show s.readBufferOffset + 0 ≤ s.buffer.length
      rw [hs]
      exact Nat.zero_le _
    shown := slice_len_zero _ _ }

/-- The frames are followed by the end of the data, or by a table that a seekable
reader stops at. -/
theorem archive_ends {a : ArchiveState} (hlong : (A.archive a).length < 2 ^ 63)
    (hdata : inner.data = A.archive a)
    (htable : inner.seekable = true ∨ ∀ points, ¬ WrittenTable inner.data points) :
    ∃ off table, inner.data = A.head off ++ (A.frames 0 a.framer.emit.frames ++ table) ∧
      (off = 0 ∨ (A.head 0 ++ A.frames 0 a.framer.emit.frames).length ≤ off.toNat) ∧
      (table = [] ∨ (inner.seekable = true ∧ 0 < off ∧ off.toNat + table.length = inner.data.length)) := by
  rcases A.archive_eq a hlong with ⟨off, table, harchive, hcase⟩
  refine ⟨off, table, hdata.trans harchive, ?_, ?_⟩
  · rcases hcase with ⟨hzero, -, -⟩ | ⟨hoff, -, -⟩
    · exact Or.inl hzero
    · exact Or.inr hoff.ge
  · rcases hcase with ⟨-, hnil, -⟩ | ⟨hoff, htab, hexists⟩
    · exact Or.inl hnil
    · right
      have hseek : inner.seekable = true := by
        apply htable.resolve_right
        intro hnone
        rw [hdata] at hnone
        exact hnone a.points ((writtenTable_archive hlong).mpr ⟨rfl, hexists⟩)
      refine ⟨hseek, ?_, ?_⟩
      · rw [UInt64.lt_iff_toNat_lt, hoff]
        simp only [List.length_append, Archiver.length_head]
        show 0 < _
        omega
      · rw [hoff, hdata, harchive]
        simp only [List.length_append, Archiver.length_head]
        omega

end

/-! ## The round trip -/

section

variable {A : Archiver} {inner : InnerStream} {args : StreamArguments} {s : ManagedSecurityStream}
  {off : UInt64} {payloads : List Bytes} {tail : Bytes}

/-- A fresh reader of a header and frames that fit its buffer, behind which it
meets the end: reads of any sizes return the payloads from the front. -/
theorem reads_to_end (hinv : A.cipher.crypto.Inverts) (hcreate : create inner .decrypt args = .ok s)
    (hopen : inner.closed = false) (hpos : inner.position = 0)
    (hdata : inner.data = A.head off ++ (A.frames 0 payloads ++ tail))
    (hm : (A.metadata.getD []).length ≤ 65535) (hskip : args.skipMasterHeader = false)
    (hseq : args.initialSequence = A.first)
    (hfits : ∀ p ∈ payloads, p.length < 2 ^ 25 ∧
      overhead p.length A.keyIndex + p.length ≤ s.buffer.length)
    (hcut : off = 0 ∨ (A.head 0 ++ A.frames 0 payloads).length ≤ off.toNat)
    (hend : (tail = [] ∧ 4 ≤ s.buffer.length) ∨ (inner.seekable = true ∧ 0 < off ∧
      off.toNat + tail.length = inner.data.length)) {sizes : List ℕ} (hsizes : ∀ n ∈ sizes, 0 < n) :
    ∃ outs s', attempts (read A.cipher) sizes s = (outs.map .ok, s') ∧
      Delivers payloads.flatten outs ∧ List.Forall₂ (fun out n => out.length ≤ n) outs sizes ∧
      (sizes ≠ [] → A.metadata.getD [] ≠ [] → s'.metadata = A.metadata) := by
  obtain ⟨s₁, hsame, hreads⟩ := reads_after_header hcreate hopen hpos hdata hm hskip hseq hfits
    (hcut.imp_right Or.inr)
  have hserves := read_serves (tryReadNextFrame_fetches (S := A.toSealer)
    (E := A.setting inner args s off payloads.length) hinv hend).reading
  obtain ⟨outs, s', f', hrun, ⟨i', hreads'⟩, hdelivers, hlens, -⟩ :=
    hserves.delivers sizes s₁ ⟨[], payloads⟩ hsizes ⟨0, hreads⟩
  replace hdelivers : Delivers payloads.flatten outs := hdelivers
  by_cases hnil : sizes = []
  · subst hnil
    cases hlens
    exact ⟨[], s, rfl, trivial, List.Forall₂.nil, fun h => absurd rfl h⟩
  · -- the first read processes the header, so that all reads start behind it
    refine ⟨outs, s', (attempts_congr hsame hnil).trans hrun, hdelivers, hlens, ?_⟩
    intro _ hne
    rw [hreads'.metadata]
    show (if _ then _ else _) = _
    rw [if_neg hne]
    cases hmeta : A.metadata with
    | none =>
      rw [hmeta] at hne
      exact absurd rfl hne
    | some m => rfl

/-- The stream is open and presents these bytes from their start. -/
structure InnerStream.Presents (inner : InnerStream) (data : Bytes) (seekable : Bool) : Prop where
  data : inner.data = data
  start : inner.position = 0
  opened : inner.closed = false
  seekable : inner.seekable = seekable

/-- Readers with the writer's chunk size and key index, over inner streams that can
seek or cannot, return these bytes in reads of any sizes and do not throw. -/
def Archiver.ReadsBack (A : Archiver) (seekable : Bool) (data written : Bytes) : Prop :=
  ∀ (inner : InnerStream) (args : StreamArguments) (sizes : List ℕ),
    inner.Presents data seekable → args.chunkSize = A.chunkSize → args.keyIndex = A.keyIndex →
    args.skipMasterHeader = false → args.initialSequence = A.first → (∀ n ∈ sizes, 0 < n) →
    ∃ s outs s', create inner .decrypt args = .ok s ∧
      attempts (read A.cipher) sizes s = (outs.map .ok, s') ∧ Delivers written outs

theorem Archiver.readsBack_of_form {data : Bytes} {seekable : Bool} (hinv : A.cipher.crypto.Inverts)
    (hdata : data = A.head off ++ (A.frames 0 payloads ++ tail))
    (hm : (A.metadata.getD []).length ≤ 65535)
    (hfits : ∀ p ∈ payloads, p.length < 2 ^ 25 ∧
      overhead p.length A.keyIndex + p.length ≤ overhead A.chunkSize A.keyIndex + A.chunkSize)
    (hcut : off = 0 ∨ (A.head 0 ++ A.frames 0 payloads).length ≤ off.toNat)
    (hend : tail = [] ∨ (seekable = true ∧ 0 < off ∧ off.toNat + tail.length = data.length)) :
    A.ReadsBack seekable data payloads.flatten := by
  intro inner args sizes hinner hchunk hkey hskip hseq hsizes
  rcases create_reader A inner args hchunk hkey with ⟨s, hreader, hbuffer⟩
  have hfour : 4 ≤ s.buffer.length := by
    rw [hbuffer, overhead, headerLength]
    omega
  have hend' : (tail = [] ∧ 4 ≤ s.buffer.length) ∨ (inner.seekable = true ∧ 0 < off ∧
      off.toNat + tail.length = inner.data.length) := by
    rw [hinner.seekable, hinner.data]
    exact hend.imp_left fun hnil => ⟨hnil, hfour⟩
  obtain ⟨outs, s', hrun, hdelivers, -, -⟩ := reads_to_end hinv hreader hinner.opened hinner.start
    (hinner.data.trans hdata) hm hskip hseq (by rw [hbuffer]; exact hfits) hcut hend' hsizes
  exact ⟨s, outs, s', hreader, hrun, hdelivers⟩

end

/-- Calls with at least one `Write`, then `Dispose`, over an empty sink; a reader
with the same chunk size and key index over the bytes in the sink, seekable or
without a seek table to stop at, whatever counts its inner stream returns. Reads
of any sizes return the written bytes from the front, nothing only when nothing
is left, and do not throw; the metadata are those of the writer. -/
theorem archive_round_trip (A : Archiver) (sink : InnerStream) (calls : List WriteCall)
    (hinv : A.cipher.crypto.Inverts) (hfresh : sink.Fresh A.seekable)
    (hwrite : ∃ buffer, WriteCall.write buffer ∈ calls)
    (hm : (A.metadata.getD []).length ≤ 65535)
    (hlong : (A.archive (A.run .initial calls)).length < 2 ^ 63) :
    ∃ w, create sink .encrypt A.arguments = .ok w ∧
      ∀ (inner : InnerStream) (args : StreamArguments) (sizes : List ℕ),
        inner.data = (finalState (archiveCalls A.cipher A.random calls w)).innerStream.data →
        inner.position = 0 → inner.closed = false →
        (inner.seekable = true ∨ ∀ points, ¬ WrittenTable inner.data points) →
        args.chunkSize = A.chunkSize → args.keyIndex = A.keyIndex →
        args.skipMasterHeader = false → args.initialSequence = A.first →
        (∀ n ∈ sizes, 0 < n) →
        ∃ s outs s', create inner .decrypt args = .ok s ∧
          attempts (read A.cipher) sizes s = (outs.map .ok, s') ∧
          Delivers (writtenBytes calls) outs ∧
          List.Forall₂ (fun out n => out.length ≤ n) outs sizes ∧
          ((writtenBytes calls).length < sizes.length →
            outs.flatten = writtenBytes calls ∧ outs.getLast? = some []) ∧
          (sizes ≠ [] → A.metadata.getD [] ≠ [] → s'.metadata = A.metadata) := by
  rcases archived hfresh calls hwrite with ⟨w, hcreate, hfinal⟩
  refine ⟨w, hcreate, ?_⟩
  intro inner args sizes hdata hpos hopen htable hchunk hkey hskip hseq hsizes
  rw [hfinal] at hdata
  rcases create_reader A inner args hchunk hkey with ⟨s, hreader, hbuffer⟩
  rcases archive_ends hlong hdata htable with ⟨off, table, hform, hcut, hend⟩
  -- the reader's buffer holds a fixed header, so it can also look at the table
  have hfour : 4 ≤ s.buffer.length := by
    rw [hbuffer, overhead, headerLength]
    omega
  obtain ⟨outs, s', hrun, hdelivers, hlens, hmeta⟩ := reads_to_end hinv hreader hopen hpos hform hm
    hskip hseq (by rw [hbuffer]; exact A.fits_payload calls) hcut
    (hend.imp_left fun hnil => ⟨hnil, hfour⟩) hsizes
  have hcontent : (A.run .initial calls).framer.emit.frames.flatten = writtenBytes calls :=
    A.flatten_payloads calls
  rw [hcontent] at hdelivers
  refine ⟨s, outs, s', hreader, hrun, hdelivers, hlens, ?_, hmeta⟩
  intro hlt
  apply hdelivers.flatten_eq
  rw [hlens.length_eq]
  exact hlt

/-- A stream over `data` that hands out one to three bytes at a time. -/
def InnerStream.source (data : Bytes) (position : ℕ) : InnerStream where
  data := data
  position := position
  seekable := true
  closed := false
  segment k := k % 3 + 1
  reads := 0
  failing _ := false
  writes := 0

/-- Six bytes with a flush behind the fifth, read in pieces of two and more. -/
theorem archive_round_trip_six :
    ∃ (w s : ManagedSecurityStream) (outs : List Bytes) (s' : ManagedSecurityStream),
      create (InnerStream.sink true) .encrypt maskFour.arguments = .ok w ∧
      create (.source (finalState (archiveCalls maskFour.cipher maskFour.random
          sixBytes w)).innerStream.data 0)
        .decrypt { chunkSize := 4, keyIndex := 5 } = .ok s ∧
      attempts (read maskFour.cipher) [2, 9, 9, 9, 1, 1, 1] s = (outs.map .ok, s') ∧
      outs.flatten = [1, 2, 3, 4, 5, 6] ∧ s'.metadata = some [7, 8, 9] := by
  obtain ⟨w, hwriter, hreader⟩ := archive_round_trip maskFour (InnerStream.sink true)
    sixBytes maskCrypto_inverts (InnerStream.sink_fresh true) ⟨[6], by simp [sixBytes]⟩
    (by decide) (by decide +kernel)
  obtain ⟨s, outs, s', hcreate, hrun, -, -, hall, hmeta⟩ := hreader
    (.source (finalState (archiveCalls maskFour.cipher maskFour.random
      sixBytes w)).innerStream.data 0)
    { chunkSize := 4, keyIndex := 5 } [2, 9, 9, 9, 1, 1, 1] rfl rfl rfl (Or.inl rfl) rfl rfl rfl rfl
    (by decide)
  exact ⟨w, s, outs, s', hwriter, hcreate, hrun, (hall (by decide)).1,
    hmeta (List.cons_ne_nil _ _) (by decide)⟩

/-! ## Random access -/

/-- A reader over a finished archive that starts at the frame with index `i`, with
chunk size, key index and table offset from the master header and `i` as its
sequence number: reads of any sizes return the payloads of that frame and of all
behind it, and do not throw. -/
theorem random_access (A : Archiver) (sink : InnerStream) (calls : List WriteCall)
    (hinv : A.cipher.crypto.Inverts) (hfresh : sink.Fresh A.seekable) (hfirst : A.first = 0)
    (hwrite : ∃ buffer, WriteCall.write buffer ∈ calls)
    (hlong : (A.archive (A.run .initial calls)).length < 2 ^ 63) :
    ∃ w, create sink .encrypt A.arguments = .ok w ∧
      ∀ (i : ℕ) (inner : InnerStream) (master : MasterHeader) (args : StreamArguments)
        (sizes : List ℕ),
        i < (A.payloads calls).length →
        inner.data = (finalState (archiveCalls A.cipher A.random calls w)).innerStream.data →
        inner.position = A.frameStart (A.payloads calls) i → inner.closed = false →
        (inner.seekable = true ∨ ∀ points, ¬ WrittenTable inner.data points) →
        MasterHeader.parse (inner.data.take MasterHeader.fixedSize) = .ok master →
        args.chunkSize = master.chunkSize → args.keyIndex = master.keyIndex →
        args.seekTableOffset = master.seekTableOffset → args.skipMasterHeader = true →
        args.initialSequence = UInt64.ofNat i →
        (∀ n ∈ sizes, 0 < n) →
        ∃ s outs s', create inner .decrypt args = .ok s ∧
          A.FrameAt (A.payloads calls) inner.data inner.position i ∧
          attempts (read A.cipher) sizes s = (outs.map .ok, s') ∧
          Delivers ((A.payloads calls).drop i).flatten outs ∧
          List.Forall₂ (fun out n => out.length ≤ n) outs sizes ∧
          (((A.payloads calls).drop i).flatten.length < sizes.length →
            outs.flatten = ((A.payloads calls).drop i).flatten ∧ outs.getLast? = some []) := by
  rcases archived hfresh calls hwrite with ⟨w, hcreate, hfinal⟩
  refine ⟨w, hcreate, ?_⟩
  intro i inner master args sizes hi hdata hpos hopen htable hparse hchunk hkey hoffset hskip hseq
    hsizes
  rw [hfinal] at hdata
  rcases archive_ends hlong hdata htable with ⟨off, table, hform, hcut, hend⟩
  have hmaster := A.parse_head off (A.frames 0 (A.payloads calls) ++ table)
  have hform' : inner.data = A.head off ++ (A.frames 0 (A.payloads calls) ++ table) := hform
  rw [← hform'] at hmaster
  obtain rfl := Except.ok.inj (hmaster.symm.trans hparse)
  rcases create_reader A inner args hchunk hkey with ⟨s, hreader, hbuffer⟩
  have hsequence : A.sequence i = UInt64.ofNat i := by
    rw [Sealer.sequence, hfirst, UInt64.zero_add]
  have hreads := reads_from_frame hreader hopen hpos hi hform' hskip
    (hseq.trans hsequence.symm) hoffset (by rw [hbuffer]; exact A.fits_payload calls)
    (hcut.imp_right Or.inr)
  have hfour : 4 ≤ s.buffer.length := by
    rw [hbuffer, overhead, headerLength]
    omega
  have hserves := read_serves (tryReadNextFrame_fetches (S := A.toSealer)
    (E := ⟨inner.data, (A.payloads calls).length, inner.seekable, s.buffer.length, off, args.metadata⟩) hinv
    (hend.imp_left (fun hnil => ⟨hnil, hfour⟩))).reading
  obtain ⟨outs, s', f', hrun, -, hdelivers, hlens, -⟩ :=
    hserves.delivers sizes s ⟨[], (A.payloads calls).drop i⟩ hsizes ⟨i, hreads⟩
  refine ⟨s, outs, s', hreader, ?_, hrun, hdelivers, hlens, ?_⟩
  · have hget := List.getElem?_eq_getElem hi
    refine ⟨i, (A.payloads calls)[i], hget, hpos, ?_, ?_⟩
    · rw [hpos, slice, hform', A.drop_frameStart hget]
      exact List.take_left
    · -- there are fewer frames than bytes
      have hcount := A.frameStart_le (A.payloads calls) off table 0 (Nat.zero_le _)
      rw [← hform', hdata] at hcount
      rw [hpos, hform', A.drop_frameStart hget, carriesSequence_frame
        (A.length_payload calls _ (List.getElem_mem hi)), hsequence, UInt64.toNat_ofNat']
      exact (Nat.mod_eq_of_lt (by omega)).symm
  · intro hlt
    apply hdelivers.flatten_eq
    rw [hlens.length_eq]
    exact hlt

/-- The same archive, read from its second frame on. -/
theorem random_access_second :
    ∃ (w s : ManagedSecurityStream) (outs : List Bytes) (s' : ManagedSecurityStream),
      create (InnerStream.sink true) .encrypt maskFour.arguments = .ok w ∧
      create (.source (finalState (archiveCalls maskFour.cipher maskFour.random sixBytes
          w)).innerStream.data 69) .decrypt {
        chunkSize := 4, keyIndex := 5, seekTableOffset := 151, skipMasterHeader := true,
        initialSequence := 1 } = .ok s ∧
      attempts (read maskFour.cipher) [9, 9, 9] s = (outs.map .ok, s') ∧ outs.flatten = [5, 6] := by
  have hlong : (maskFour.archive (maskFour.run .initial sixBytes)).length < 2 ^ 63 := by
    decide +kernel
  obtain ⟨w, hwriter, hreader⟩ := random_access maskFour (InnerStream.sink true) sixBytes
    maskCrypto_inverts (InnerStream.sink_fresh true) rfl ⟨[6], by simp [sixBytes]⟩ hlong
  obtain ⟨w', hwriter', hfinal⟩ := archived (A := maskFour) (InnerStream.sink_fresh true) sixBytes
    ⟨[6], by simp [sixBytes]⟩
  obtain rfl := Except.ok.inj (hwriter.symm.trans hwriter')
  have hparse : MasterHeader.parse ((finalState (archiveCalls maskFour.cipher maskFour.random sixBytes
      w)).innerStream.data.take MasterHeader.fixedSize) = .ok ⟨1, 4, 5, 3, 151⟩ := by
    have hmaster : MasterHeader.parse ((maskFour.archive (maskFour.run .initial sixBytes)).take
        MasterHeader.fixedSize) = .ok ⟨1, 4, 5, 3, 151⟩ := by
      decide +kernel
    rw [← hfinal] at hmaster
    exact hmaster
  have hstart : 69 = maskFour.frameStart (maskFour.payloads sixBytes) 1 := by
    decide +kernel
  have hpayloads : ((maskFour.payloads sixBytes).drop 1).flatten = [5, 6] := by
    decide +kernel
  obtain ⟨s, outs, s', hcreate, -, hrun, -, -, hall⟩ := hreader 1
    (.source (finalState (archiveCalls maskFour.cipher maskFour.random sixBytes
      w)).innerStream.data 69) ⟨1, 4, 5, 3, 151⟩ {
        chunkSize := 4, keyIndex := 5, seekTableOffset := 151, skipMasterHeader := true,
        initialSequence := 1 } [9, 9, 9] (by decide +kernel) rfl hstart rfl (Or.inl rfl)
    hparse rfl rfl rfl rfl rfl (by decide)
  rw [hpayloads] at hall
  exact ⟨w, s, outs, s', hwriter, hcreate, hrun, (hall (by decide)).1⟩

end ManagedSecurity

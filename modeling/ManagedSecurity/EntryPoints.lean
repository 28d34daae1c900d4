import ManagedSecurity.Extract

/-! # Where playback can start

`FlushToFrame` records its point before it emits the block that waits. So the point of a
flush is one of the frame that holds this block, and only if nothing waits it is one of
the frame that begins with the sync point behind the flush.

* `cuts`: the frame that the point of each flush denotes, by the bytes between the flushes;
* `CutsAtEntries`: when each of these frames begins with a sync point;
* `pointsAreEntries_iff`: that this is when the points of the archive denote entries.
-/

namespace ManagedSecurity

open Bytes Outcome ManagedSecurityStream NalUnitScanner Framer

/-! ## The frames that points denote -/

/-- A cut of the data: the bytes and the frames in front of it, and the frame with that
index. -/
structure Cut where
  position : ℕ
  frames : ℕ
  block : Bytes

/-- The cuts between segments, the first of which has these bytes and frames in front. -/
def cuts (c : ℕ) : ℕ → ℕ → List Bytes → List Cut
  | position, frames, segment :: next :: rest =>
    ⟨position + segment.length, frames + segment.length / c,
      if remainder c segment = [] then next.take c else remainder c segment⟩ ::
        cuts c (position + segment.length) (frames + (blocks c segment).length) (next :: rest)
  | _, _, _ => []

/-- What a flush sees of the cut it makes, if every `Write` has something to write. -/
theorem flushMarks_eq_cuts {c : ℕ} (hc : 0 < c) (calls : List WriteCall) :
    ∀ (position frames : ℕ) (bytes : Bytes),
      (∀ buffer, WriteCall.write buffer ∈ calls → buffer ≠ []) →
      flushMarks c (decide (0 < position + bytes.length)) (frames + bytes.length / c)
          (bytes.length % c) calls =
        (cuts c position frames ((segments calls).modifyHead (bytes ++ ·))).map
          fun cut => (decide (0 < cut.position), cut.frames) := by
  induction calls with
  | nil =>
    intro position frames bytes _
    rfl
  | cons call calls ih =>
    intro position frames bytes hwrites
    have hrest : ∀ buffer, WriteCall.write buffer ∈ calls → buffer ≠ [] :=
      fun buffer hmem => hwrites buffer (List.mem_cons_of_mem _ hmem)
    cases call with
    | write buffer =>
      have hlen : 0 < buffer.length :=
        List.length_pos_of_ne_nil (hwrites buffer List.mem_cons_self)
      -- what waits and what comes are counted together
      have hdiv : frames + bytes.length / c + (bytes.length % c + buffer.length) / c =
          frames + (bytes ++ buffer).length / c := by
        have hsplit := Nat.div_add_mod bytes.length c
        have hsum : bytes.length + buffer.length =
            bytes.length % c + buffer.length + c * (bytes.length / c) := by omega
        rw [List.length_append, hsum, Nat.add_mul_div_left _ _ hc]
        omega
      have hmod : (bytes.length % c + buffer.length) % c = (bytes ++ buffer).length % c := by
        rw [List.length_append, Nat.mod_add_mod]
      have hstarted : true = decide (0 < position + (bytes ++ buffer).length) := by
        rw [List.length_append]
        exact (decide_eq_true (by omega)).symm
      rw [flushMarks, segments, modifyHead_front, hdiv, hmod, hstarted]
      exact ih position frames (bytes ++ buffer) hrest
    | flushToFrame timestampMs elapsedMs =>
      obtain ⟨segment, rest, hsegs⟩ := List.exists_cons_of_ne_nil (segments_ne_nil calls)
      have hnext := ih (position + bytes.length) (frames + (blocks c bytes).length) [] hrest
      rw [hsegs, List.modifyHead_cons, List.nil_append, List.length_nil, Nat.zero_div, Nat.zero_mod,
        Nat.add_zero, Nat.add_zero, length_blocks, ← Nat.add_assoc] at hnext
      rw [flushMarks, segments, hsegs, List.modifyHead_cons, List.append_nil, cuts, List.map_cons,
        length_blocks, ← Nat.add_assoc, hnext]

/-- The frame with the index of a cut is the block of the cut. -/
theorem framed_cuts {c : ℕ} (hc : 0 < c) (segs : List Bytes) :
    ∀ (position frames : ℕ), (∀ segment ∈ segs.tail, segment ≠ []) →
      ∀ cut ∈ cuts c position frames segs,
        ∃ i, cut.frames = frames + i ∧ (framed c segs)[i]? = some cut.block := by
  induction segs with
  | nil =>
    intro position frames _ cut hcut
    cases hcut
  | cons segment segs ih =>
    intro position frames hne cut hcut
    cases segs with
    | nil => cases hcut
    | cons next rest =>
      rcases List.mem_cons.mp hcut with rfl | hcut
      · exact ⟨segment.length / c, rfl, framed_at_cut hc segment (hne next List.mem_cons_self) rest⟩
      · obtain ⟨i, hframes, hget⟩ := ih _ _ (fun s hs => hne s (List.mem_cons_of_mem _ hs)) cut hcut
        refine ⟨(blocks c segment).length + i, by omega, ?_⟩
        rw [framed_behind]
        exact hget

/-! ## Entries -/

/-- The point denotes a frame, and this frame decrypts to something that begins with a
sync point. -/
def Archiver.EntryAt (A : Archiver) (payloads : List Bytes) (data : Bytes) (off seq : ℕ) : Prop :=
  A.FrameAt payloads data off seq ∧
    ∃ i p plaintext, payloads[i]? = some p ∧ off = A.frameStart payloads i ∧
      A.cipher.decrypt (slice data off (A.frame i p).length) = .ok plaintext ∧
      BeginsWithSync plaintext

/-- Playback can start at every point of the written table. -/
def Archiver.PointsAreEntries (A : Archiver) (payloads : List Bytes) (data : Bytes) : Prop :=
  ∀ points, WrittenTable data points →
    ∀ pt ∈ points, A.EntryAt payloads data pt.fileOffset.toNat pt.frameIndex.toNat

section

variable {A : Archiver}

/-- A frame decrypts to its payload. -/
theorem decrypt_frame (hinv : A.cipher.crypto.Inverts) {p : Bytes} (hp : p.length ≤ A.chunkSize)
    (i : ℕ) : A.cipher.decrypt (A.frame i p) = .ok p := by
  have hdec : A.cipher.decrypt (A.frame i p ++ []) = .ok p :=
    Cipher.decrypt_messageS2 hinv A.provided A.valid (length_fill _ _)
      (lt_of_le_of_lt hp A.chunkSize_lt) A.keyIndex_lt []
  rw [List.append_nil] at hdec
  exact hdec

section

variable {payloads : List Bytes} {mark : Bool × ℕ} {pt : SeekPoint} {off : UInt64} {table p : Bytes}

/-- A recorded point is an entry if it denotes a frame and the payload of this frame begins
with a sync point. -/
theorem entryAt_pointOf (hinv : A.cipher.crypto.Inverts)
    (hbound : ∀ p ∈ payloads, p.length ≤ A.chunkSize)
    (hlong : (A.head off ++ (A.frames 0 payloads ++ table)).length < 2 ^ 63)
    (h : A.PointOf payloads mark pt) (hp : payloads[mark.2]? = some p) :
    A.EntryAt payloads (A.head off ++ (A.frames 0 payloads ++ table)) pt.fileOffset.toNat
        pt.frameIndex.toNat ↔
      (mark.1 = true ∧ (A.sequence mark.2).toNat < 2 ^ 32) ∧ BeginsWithSync p := by
  have hat := frameAt_pointOf hbound hlong h
  have hdecrypt : ∀ i q, payloads[i]? = some q →
      A.cipher.decrypt (slice (A.head off ++ (A.frames 0 payloads ++ table))
        (A.frameStart payloads i) (A.frame i q).length) = .ok q := by
    intro i q hq
    rw [slice, A.drop_frameStart hq, List.take_left]
    exact decrypt_frame hinv (hbound q (List.mem_of_getElem? hq)) i
  constructor
  · rintro ⟨hframe, i, q, plaintext, hq, hoff, hplain, hsync⟩
    have hgood := hat.mp hframe
    have hstart := h.start hlong hgood.1
    have hi : i < payloads.length := (List.getElem?_eq_some_iff.mp hq).1
    -- no two frames start at the same offset
    obtain rfl : mark.2 = i := Archiver.frameStart_injective h.1.le hi.le (hstart.symm.trans hoff)
    obtain rfl := Option.some.inj (hp.symm.trans hq)
    rw [hoff] at hplain
    obtain rfl := Except.ok.inj ((hdecrypt _ _ hp).symm.trans hplain)
    exact ⟨hgood, hsync⟩
  · rintro ⟨hgood, hsync⟩
    have hstart := h.start hlong hgood.1
    refine ⟨hat.mpr hgood, mark.2, p, p, hp, hstart, ?_, hsync⟩
    rw [hstart]
    exact hdecrypt _ _ hp

end

/-- The points of the archive are entries exactly if they are too many for a table, or at
each cut something has been written, the sequence number fits its field, and the block
begins with a sync point. -/
theorem pointsAreEntries_cuts (hinv : A.cipher.crypto.Inverts) (hseek : A.seekable = true)
    {calls : List WriteCall} (hwrites : ∀ buffer, WriteCall.write buffer ∈ calls → buffer ≠ [])
    (hsegs : ∀ segment ∈ (segments calls).tail, segment ≠ [])
    (hlong : (A.archive (A.run .initial calls)).length < 2 ^ 63) :
    A.PointsAreEntries (A.payloads calls) (A.archive (A.run .initial calls)) ↔
      0x7FFFFFC7 < 6 + calls.countP WriteCall.isFlush * 16 ∨
        ∀ cut ∈ cuts A.chunkSize 0 0 (segments calls),
          0 < cut.position ∧ (A.sequence cut.frames).toNat < 2 ^ 32 ∧ BeginsWithSync cut.block := by
  obtain ⟨pts, hmarks, hiff⟩ := written_points hseek calls hlong
  rcases A.archive_eq (A.run .initial calls) hlong with ⟨off, table, harchive, -⟩
  have hform : A.head off ++ (A.frames 0 (A.payloads calls) ++ table) =
      A.archive (A.run .initial calls) := harchive.symm
  have hcuts : flushMarks A.chunkSize false 0 0 calls =
      (cuts A.chunkSize 0 0 (segments calls)).map fun cut => (decide (0 < cut.position), cut.frames) := by
    have hall := flushMarks_eq_cuts A.chunkSize_pos calls 0 0 [] hwrites
    obtain ⟨segment, rest, hsplit⟩ := List.exists_cons_of_ne_nil (segments_ne_nil calls)
    rw [hsplit, List.modifyHead_cons, List.nil_append, ← hsplit, List.length_nil, Nat.zero_div,
      Nat.zero_mod] at hall
    exact hall
  rw [hcuts, List.forall₂_map_left_iff] at hmarks
  have hentry := hiff (fun points => ∀ pt ∈ points, A.EntryAt (A.payloads calls)
    (A.archive (A.run .initial calls)) pt.fileOffset.toNat pt.frameIndex.toNat) (by simp)
  refine hentry.trans (or_congr_right ?_)
  clear hiff hentry
  have hblocks := framed_cuts A.chunkSize_pos (segments calls) 0 0 hsegs
  rw [← Archiver.payloads_eq (A := A)] at hblocks
  -- cut by cut, with its point
  generalize cuts A.chunkSize 0 0 (segments calls) = cutList at hmarks hblocks
  induction hmarks with
  | nil => simp
  | @cons cut pt cutList pts hpoint _ ih =>
    obtain ⟨i, hi, hblock⟩ := hblocks cut List.mem_cons_self
    rw [Nat.zero_add] at hi
    rw [← hi] at hblock
    have hhead := entryAt_pointOf hinv (A.length_payload calls) (hform ▸ hlong) hpoint hblock
    rw [hform, decide_eq_true_iff, and_assoc] at hhead
    rw [List.forall_mem_cons, List.forall_mem_cons]
    exact and_congr hhead (ih (fun cut hcut => hblocks cut (List.mem_cons_of_mem _ hcut)))

end

/-! ## The cuts of the loops -/

namespace Sentinel

/-- At each cut between these segments something has been written, fewer than 2^32 frames
are emitted, and what waits, the bytes behind the last full block, is nothing or begins with
a sync point itself. -/
def CutsAtEntries (c : ℕ) : ℕ → ℕ → List Bytes → Prop
  | position, frames, segment :: next :: rest =>
    (0 < position + segment.length ∧ frames + segment.length / c < 2 ^ 32 ∧
      (remainder c segment = [] ∨ BeginsWithSync (remainder c segment))) ∧
      CutsAtEntries c (position + segment.length) (frames + (blocks c segment).length) (next :: rest)
  | _, _, _ => True

/-- With a sync point behind each cut, the blocks of the cuts begin with one if what waits
does. -/
theorem cutsAtEntries_iff {c : ℕ} (hc : 5 ≤ c) (segs : List Bytes) :
    ∀ (position frames : ℕ), (∀ segment ∈ segs.tail, BeginsWithSync segment) →
      ((∀ cut ∈ cuts c position frames segs,
          0 < cut.position ∧ cut.frames < 2 ^ 32 ∧ BeginsWithSync cut.block) ↔
        CutsAtEntries c position frames segs) := by
  induction segs with
  | nil =>
    intro position frames _
    exact iff_of_true (fun cut hcut => (List.not_mem_nil hcut).elim) trivial
  | cons segment segs ih =>
    intro position frames hsync
    cases segs with
    | nil => exact iff_of_true (fun cut hcut => (List.not_mem_nil hcut).elim) trivial
    | cons next rest =>
      have hnext : BeginsWithSync (next.take c) := by
        have hle := startCodeLen_le next
        exact (hsync next List.mem_cons_self).take (by omega) (by omega)
      have hblock : BeginsWithSync (if remainder c segment = [] then next.take c
          else remainder c segment) ↔
          remainder c segment = [] ∨ BeginsWithSync (remainder c segment) := by
        split_ifs with hnil
        · exact iff_of_true hnext (Or.inl hnil)
        · rw [or_iff_right hnil]
      rw [cuts, CutsAtEntries, List.forall_mem_cons]
      exact and_congr (and_congr_right' (and_congr_right' hblock))
        (ih _ _ fun s hs => hsync s (List.mem_cons_of_mem _ hs))

section

variable {clock : ℕ → UInt32} {base : ℕ} {span : Bytes}

/-- The loops write nothing empty. -/
theorem alignCalls_nonempty (offsets : List ℕ) : ∀ (first lastPos : ℕ), Found span first offsets →
    lastPos ≤ first → ∀ buffer,
      WriteCall.write buffer ∈ alignCalls clock base span lastPos offsets → buffer ≠ [] := by
  induction offsets with
  | nil =>
    intro first lastPos _ _ buffer hmem
    rw [alignCalls] at hmem
    split_ifs at hmem with hlt
    · obtain rfl := WriteCall.write.inj (List.mem_singleton.mp hmem)
      exact List.ne_nil_of_length_pos (by rw [List.length_drop]; omega)
    · cases hmem
  | cons offset offsets ih =>
    rintro first lastPos ⟨hfirst, hlt, -, hfound⟩ hle buffer hmem
    rcases List.mem_append.mp hmem with hmem | hmem
    · split_ifs at hmem with hpos
      · obtain rfl := WriteCall.write.inj (List.mem_singleton.mp hmem)
        apply List.ne_nil_of_length_pos
        rw [length_slice_of_le (by omega)]
        omega
      · cases hmem
    · rcases List.mem_cons.mp hmem with hmem | hmem
      · cases hmem
      · exact ih _ offset hfound (by omega) buffer hmem

theorem ingestCalls_nonempty (reads : List Bytes) :
    ∀ base, ∀ buffer, WriteCall.write buffer ∈ ingestCalls clock base reads → buffer ≠ [] := by
  induction reads with
  | nil =>
    intro base buffer hmem
    cases hmem
  | cons span reads ih =>
    intro base buffer hmem
    rcases List.mem_append.mp hmem with hmem | hmem
    · exact alignCalls_nonempty _ 0 0 (scan_found span) le_rfl buffer hmem
    · exact ih _ buffer hmem

/-- The segments that a buffer begins: behind its first flush they begin with a sync point,
and so does the first one, if the slice in front of the first flush shows it. -/
theorem alignCalls_segments (clock : ℕ → UInt32) (base : ℕ) {calls : List WriteCall}
    (hcalls : ∀ segment ∈ (segments calls).tail, BeginsWithSync segment) (offsets : List ℕ) :
    ∀ (first lastPos : ℕ), Found span first offsets → lastPos ≤ first →
      ∃ segment rest, segments (alignCalls clock base span lastPos offsets ++ calls) =
          segment :: rest ∧ (∀ s ∈ rest, BeginsWithSync s) ∧
        (BeginsWithSync (span.drop lastPos) → lastPos + startCodeLen (span.drop lastPos) + 1 ≤ first →
          BeginsWithSync segment) := by
  -- over the start codes still to come; first is the earliest place of the next one
  induction offsets with
  | nil =>
    intro first lastPos _ _
    obtain ⟨segment, rest, hsegs⟩ := List.exists_cons_of_ne_nil (segments_ne_nil calls)
    rw [hsegs, List.tail_cons] at hcalls
    refine ⟨span.drop lastPos ++ segment, rest, ?_, hcalls, fun hsync _ => hsync.append segment⟩
    rw [alignCalls]
    split_ifs with hlt
    · rw [List.singleton_append, segments, hsegs]
      rfl
    · rw [List.nil_append, hsegs, List.drop_eq_nil_of_le (by omega), List.nil_append]
  | cons offset offsets ih =>
    rintro first lastPos ⟨hfirst, hlt, hsync, hfound⟩ hle
    obtain ⟨segment, rest, hsegs, hrest, hhead⟩ := ih _ offset hfound (by omega)
    refine ⟨slice span lastPos (offset - lastPos), segment :: rest, ?_, ?_, ?_⟩
    · rw [alignCalls]
      split_ifs with hpos
      · rw [List.append_assoc, List.singleton_append, segments, List.cons_append, segments, hsegs,
          List.modifyHead_cons, List.append_nil]
      · rw [List.nil_append, List.cons_append, segments, hsegs, Nat.sub_eq_zero_of_le (by omega),
          slice_len_zero]
    · rw [List.forall_mem_cons]
      exact ⟨hhead hsync le_rfl, hrest⟩
    · intro hfront hlong
      -- the segment keeps the whole code and the byte behind it
      have hcode : 3 ≤ startCodeLen (span.drop lastPos) := by
        have hpos := hfront.1
        unfold startCodeLen at hpos ⊢
        split_ifs at hpos ⊢ <;> omega
      exact hfront.take (by omega) (by omega)

/-- Behind every flush of the loops there is a sync point. -/
theorem ingestCalls_segments (clock : ℕ → UInt32) (reads : List Bytes) :
    ∀ base, ∀ segment ∈ (segments (ingestCalls clock base reads)).tail, BeginsWithSync segment := by
  induction reads with
  | nil =>
    intro base segment hmem
    cases hmem
  | cons span reads ih =>
    intro base
    obtain ⟨segment, rest, hsegs, hrest, -⟩ := alignCalls_segments clock base
      (ih (base + span.length)) (syncOffsets (scan span)) 0 0 (scan_found span) le_rfl
    rw [ingestCalls, hsegs]
    exact hrest

end

/-- For these reads, every point of the archive is one where playback can start: there are
too many flushes for a table, or the source is cut at entries by what the scanner reports. -/
def StartsAtPoints (reads : List Bytes) : Prop :=
  0x7FFFFFC7 < 6 + (reportedOffsets 0 reads).length * 16 ∨
    CutsAtEntries (64 * 1024) 0 0 (cut 0 (reportedOffsets 0 reads) reads.flatten)

section

variable {A : Archiver} {sink : InnerStream}

/-- The numbers of frames are no larger than the archive. -/
theorem sequence_of_payload {a : ArchiveState} {i : ℕ} {p : Bytes} (hfirst : A.first = 0)
    (hlong : (A.archive a).length < 2 ^ 63) (hp : a.framer.emit.frames[i]? = some p) :
    (A.sequence i).toNat = i := by
  rcases A.archive_eq a hlong with ⟨off, table, harchive, -⟩
  have hi : i < a.framer.emit.frames.length := (List.getElem?_eq_some_iff.mp hp).1
  have hle := A.frameStart_le a.framer.emit.frames off table 0 (Nat.zero_le _)
  rw [← harchive] at hle
  rw [Sealer.sequence, hfirst, UInt64.zero_add, UInt64.toNat_ofNat']
  exact Nat.mod_eq_of_lt (by omega)

/-- The archive that a loop leaves, if there is something to read. -/
theorem pointsAreEntries_iff {reads : List Bytes} (hrecorder : IsRecorder A)
    (hinv : A.cipher.crypto.Inverts) (hfresh : sink.Fresh true) (clock : ℕ → UInt32)
    (hne : reads.flatten ≠ []) {data : Bytes}
    (hdata : data = A.archive (A.run .initial (ingestCalls clock 0 reads))) :
    archiveOf A sink (ingestCalls clock 0 reads) = .ok data ∧
      (data.length < 2 ^ 63 →
        (A.PointsAreEntries (A.payloads (ingestCalls clock 0 reads)) data ↔ StartsAtPoints reads)) := by
  subst hdata
  have hchunk : (A.chunkSize : ℤ) = 64 * 1024 := congrArg StreamArguments.chunkSize hrecorder.arguments
  replace hchunk : A.chunkSize = 64 * 1024 := by omega
  have hfirst : A.first = 0 := congrArg StreamArguments.initialSequence hrecorder.arguments
  rcases ingestCalls_writes clock reads 0 with ⟨hbytes, hoffsets⟩
  have hwrite := exists_write (show writtenBytes (ingestCalls clock 0 reads) ≠ [] by rw [hbytes]; exact hne)
  have hsegs : segments (ingestCalls clock 0 reads) =
      cut 0 (reportedOffsets 0 reads) reads.flatten := by
    rw [segments_eq_cut _ 0, hbytes, hoffsets]
  -- every flush, and so every segment but the first, is at a start code
  have hsync := ingestCalls_segments clock reads 0
  have hnonempty : ∀ segment ∈ (segments (ingestCalls clock 0 reads)).tail, segment ≠ [] := by
    intro segment hmem
    have hlt := (hsync segment hmem).2.1
    exact List.ne_nil_of_length_pos (by omega)
  have hflushes : (ingestCalls clock 0 reads).countP WriteCall.isFlush =
      (reportedOffsets 0 reads).length := by
    rw [← length_flushOffsets _ 0, hoffsets]
  rcases archived (A := A) (by rw [hrecorder.seekable]; exact hfresh) _ hwrite with
    ⟨w, hcreate, hfinal⟩
  constructor
  · rw [archiveOf, hcreate]
    exact congrArg Except.ok hfinal
  intro hlong
  rw [pointsAreEntries_cuts hinv hrecorder.seekable (ingestCalls_nonempty reads 0) hnonempty hlong,
    hflushes]
  apply or_congr_right
  have hentries := cutsAtEntries_iff (c := A.chunkSize) (by omega) _ 0 0 hsync
  -- and every cut is where a frame starts
  have hframes := framed_cuts A.chunkSize_pos _ 0 0 hnonempty
  rw [← Archiver.payloads_eq (A := A)] at hframes
  rw [← hchunk, ← hsegs, ← hentries]
  refine forall₂_congr fun cut hcut => ?_
  obtain ⟨i, hi, hget⟩ := hframes cut hcut
  rw [Nat.zero_add] at hi
  rw [← hi] at hget
  rw [sequence_of_payload hfirst hlong hget]

end

end Sentinel

open Sentinel

/-- Writers of files with the default arguments, one for each segment. Every point in the
seek table that `DoIngest` leaves denotes a frame which decrypts to something that begins
with a sync point, exactly if the reads start at points (`StartsAtPoints`): at every reported
sync point something is in front of it, and what waits then is nothing or begins with a
sync point. The same of each segment of `DoRecord`, with any rolling logic. -/
theorem entry_points_exact (A : ℕ → Archiver) (sink : ℕ → InnerStream)
    (hrecorder : ∀ k, IsRecorder (A k)) (hinv : ∀ k, (A k).cipher.crypto.Inverts)
    (hfresh : ∀ k, (sink k).Fresh true) (source : Bytes) (hne : source ≠ []) :
    (∀ clock reads, Splits (64 * 1024) source reads →
      ∃ calls data, doIngest clock reads = .ok calls ∧ archiveOf (A 0) (sink 0) calls = .ok data ∧
        (data.length < 2 ^ 63 →
          ((A 0).PointsAreEntries ((A 0).payloads calls) data ↔ StartsAtPoints reads))) ∧
    (∀ roll clock reads, Splits 8192 source reads →
      ∃ segments, recordWith roll clock 0 .initial reads = .ok segments ∧
        segments.length = (segmentReads roll 0 [] reads).length ∧
        ∀ (k : ℕ) (calls : List WriteCall) (group : List Bytes), segments[k]? = some calls →
          (segmentReads roll 0 [] reads)[k]? = some group →
          ∃ data, archiveOf (A k) (sink k) calls = .ok data ∧
            (data.length < 2 ^ 63 →
              ((A k).PointsAreEntries ((A k).payloads calls) data ↔ StartsAtPoints group))) := by
  constructor
  · intro clock reads hsplits
    rw [← hsplits.joined] at hne
    exact ⟨_, _, doIngest_eq reads, pointsAreEntries_iff (hrecorder 0) (hinv 0) (hfresh 0) clock hne rfl⟩
  · intro roll clock reads hsplits
    refine ⟨segmentCalls clock (segmentReads roll 0 [] reads), recordWith_initial reads, ?_, ?_⟩
    · rw [segmentCalls, List.length_mapIdx]
    · intro k calls group hcalls hgroup
      rw [segmentCalls, List.getElem?_mapIdx, hgroup] at hcalls
      obtain rfl := Option.some.inj hcalls
      exact ⟨_, pointsAreEntries_iff (hrecorder k) (hinv k) (hfresh k) (clock k)
        (segmentReads_flatten_ne_nil hsplits (List.mem_of_getElem? hgroup)) rfl⟩

/-- An IDR unit whose front comes in a read of four bytes, which the scanner does not look
at, and another one behind it: the point of the second is one of the frame that holds the
first. -/
theorem entry_points_exact_two :
    ∃ calls data, doIngest (fun _ => 0) [[0, 0, 1, 0x65], [7, 0, 0, 1, 0x65, 1]] = .ok calls ∧
      archiveOf maskRecorder (InnerStream.sink true) calls = .ok data ∧
      (data.length < 2 ^ 63 → maskRecorder.PointsAreEntries (maskRecorder.payloads calls) data) := by
  obtain ⟨hingest, -⟩ := entry_points_exact (fun _ => maskRecorder) (fun _ => InnerStream.sink true)
    (fun _ => maskRecorder_isRecorder) (fun _ => maskCrypto_inverts)
    (fun _ => InnerStream.sink_fresh true) [0, 0, 1, 0x65, 7, 0, 0, 1, 0x65, 1] (List.cons_ne_nil _ _)
  obtain ⟨calls, data, hcalls, hdata, hiff⟩ := hingest (fun _ => 0)
    [[0, 0, 1, 0x65], [7, 0, 0, 1, 0x65, 1]] ⟨rfl, by decide⟩
  refine ⟨calls, data, hcalls, hdata, fun hlong => (hiff hlong).mpr (Or.inr ?_)⟩
  exact ⟨⟨by decide, by decide, Or.inr (by decide)⟩, trivial⟩

/-- A byte and the front of an IDR unit, read at once: the point denotes the frame of the
byte. -/
theorem entry_point_before_unit :
    ∃ calls data, doIngest (fun _ => 0) [[9, 0, 0, 1, 0x65, 0]] = .ok calls ∧
      archiveOf maskRecorder (InnerStream.sink true) calls = .ok data ∧
      ¬ maskRecorder.PointsAreEntries (maskRecorder.payloads calls) data := by
  have hne : ([[9, 0, 0, 1, 0x65, 0]] : List Bytes).flatten ≠ [] := List.cons_ne_nil _ _
  obtain ⟨hdata, hiff⟩ := pointsAreEntries_iff maskRecorder_isRecorder maskCrypto_inverts
    (InnerStream.sink_fresh true) (fun _ => 0) hne rfl
  refine ⟨_, _, doIngest_eq _, hdata, ?_⟩
  rw [hiff (by decide +kernel)]
  rintro (hmany | ⟨⟨-, -, hwaits⟩, -⟩)
  · revert hmany
    decide
  · revert hwaits
    decide

end ManagedSecurity

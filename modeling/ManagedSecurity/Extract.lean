import ManagedSecurity.Ingest

/-! # Ingest, then extract

`DoExtract` opens an archive with the default arguments, reads nothing once, so that the
master header is read, and copies the rest to its destination. What the archiving loops
leave comes out again, for any source and any reads (`archive_then_extract`).
-/

namespace ManagedSecurity

open Bytes Outcome ManagedSecurityStream NalUnitScanner

namespace Sentinel

/-- The size of the buffer that `CopyTo` takes for a stream without `CanSeek`. -/
def copyBufferSize : ℕ := 81920

/-- `Stream.CopyTo`: what it writes to the destination. A read returns nothing at the
end, and every byte of a payload is one of the inner stream. -/
def copyTo (c : Cipher) : StreamM Bytes := do
  let s ← get
  Feed.drain (read c) copyBufferSize .nonTermination (s.innerStream.rest.length + 1)

/-- `DoExtract`: the content of the destination. -/
def doExtract (c : Cipher) (src : InnerStream) : Except Exn Bytes := do
  let s ← create src .decrypt {}
  let extract : StreamM Bytes := do
    let _ ← read c 0
    copyTo c
  match extract s with
  | .ok out _ => return out
  | .error e _ => throw e

/-- What a new stream leaves in the file: `Dispose` is called whatever the calls do. -/
def archiveOf (A : Archiver) (sink : InnerStream) (calls : List WriteCall) : Except Exn Bytes := do
  let s ← create sink .encrypt A.arguments
  return (finalState (archiveCalls A.cipher A.random calls s)).innerStream.data

/-- The writers of the loops are given nothing but metadata, and write files. -/
structure IsRecorder (A : Archiver) : Prop where
  arguments : A.arguments = { metadata := A.metadata }
  seekable : A.seekable = true

/-- From the archive of the calls `DoExtract` gets this plaintext back, however the file
is read. -/
def ExtractsTo (A : Archiver) (sink : InnerStream) (calls : List WriteCall) (plaintext : Bytes) :
    Prop :=
  ∃ data, archiveOf A sink calls = .ok data ∧
    (data.length < 2 ^ 63 → ∀ file : InnerStream, file.Presents data true →
      doExtract A.cipher file = .ok plaintext)

section

variable {A : Archiver} {sink : InnerStream} {calls : List WriteCall}

/-- A read of nothing behind the master header. -/
theorem read_nothing {s : ManagedSecurityStream} (c : Cipher) (hmode : s.mode = .decrypt)
    (hdone : s.isHeaderProcessed = true) : read c 0 s = .ok [] s := by
  rw [ManagedSecurityStream.read, get_bind, bind_ok (ensure_true hmode _ _),
    runIf_false (by rw [hdone]; exact Bool.noConfusion), pure_bind_run, get_bind]
  rfl

/-- No payload is longer than its frame. -/
theorem length_flatten_le_frames (S : Sealer) (ps : List Bytes) :
    ∀ i, ps.flatten.length ≤ (S.frames i ps).length := by
  induction ps with
  | nil =>
    intro i
    exact Nat.zero_le _
  | cons p ps ih =>
    intro i
    have hrest := ih (i + 1)
    have hsplit : (S.frames i (p :: ps)).length =
        (S.frame i p).length + (S.frames (i + 1) ps).length := List.length_append
    rw [List.flatten_cons, List.length_append, hsplit, Sealer.length_frame]
    omega

/-- The round trip of one archive. -/
theorem extractsTo_written (hrecorder : IsRecorder A) (hinv : A.cipher.crypto.Inverts)
    (hm : (A.metadata.getD []).length ≤ 65535) (hfresh : sink.Fresh true)
    (hwrite : ∃ buffer, WriteCall.write buffer ∈ calls) :
    ExtractsTo A sink calls (writtenBytes calls) := by
  have hkey : (A.keyIndex : ℤ) = 0 := congrArg StreamArguments.keyIndex hrecorder.arguments
  have hchunk : (A.chunkSize : ℤ) = 64 * 1024 := congrArg StreamArguments.chunkSize hrecorder.arguments
  have hfirst : A.first = 0 := congrArg StreamArguments.initialSequence hrecorder.arguments
  rcases archived (A := A) (by rw [hrecorder.seekable]; exact hfresh) calls hwrite with
    ⟨w, hcreate, hfinal⟩
  refine ⟨A.archive (A.run .initial calls), ?_, ?_⟩
  · rw [archiveOf, hcreate]
    exact congrArg Except.ok hfinal
  intro hlong file hfile
  obtain ⟨s, hreader, hbuffer⟩ := create_reader A file {} hchunk.symm hkey.symm
  obtain ⟨off, table, hform, hcut, hend⟩ := archive_ends hlong hfile.data (Or.inl hfile.seekable)
  have hfour : 4 ≤ s.buffer.length := by
    rw [hbuffer, overhead, headerLength]
    omega
  obtain ⟨s₁, hsame, hreads⟩ := reads_after_header hreader hfile.opened hfile.start hform hm rfl
    hfirst.symm (by rw [hbuffer]; exact A.fits_payload calls) (hcut.imp_right Or.inr)
  have hserves := read_serves (tryReadNextFrame_fetches (S := A.toSealer)
    (E := A.setting file {} s off (A.payloads calls).length) hinv
    (hend.imp_left fun hnil => ⟨hnil, hfour⟩)).reading
  -- no frame is shorter than its payload, so the copy loop has rounds enough
  have hfuel : (Feed.content ⟨[], A.payloads calls⟩).length < s₁.innerStream.rest.length + 1 := by
    have hle := length_flatten_le_frames A.toSealer (A.payloads calls) 0
    have hrest : s₁.innerStream.rest.length = (A.frames 0 (A.payloads calls) ++ table).length :=
      congrArg List.length hreads.rest
    rw [List.length_append] at hrest
    show (A.payloads calls).flatten.length < _
    omega
  obtain ⟨s', hdrain⟩ := hserves.drain Exn.nonTermination
    (show 0 < copyBufferSize by decide) _ s₁ ⟨[], A.payloads calls⟩ ⟨0, hreads⟩ hfuel
  have hextract : (do
      let _ ← read A.cipher 0
      copyTo A.cipher : StreamM Bytes) s = .ok (writtenBytes calls) s' := by
    rw [bind_ok ((hsame 0).trans (read_nothing A.cipher hreads.mode hreads.header)), copyTo, get_bind,
      hdrain, ← A.flatten_payloads calls]
    rfl
  rw [doExtract, hreader]
  show (match (_ : StreamM Bytes) s with | .ok out _ => _ | .error e _ => _) = _
  rw [hextract]
  rfl

/-- Where bytes are written there is a `Write`. -/
theorem exists_write (h : writtenBytes calls ≠ []) : ∃ buffer, WriteCall.write buffer ∈ calls := by
  induction calls with
  | nil => exact absurd rfl h
  | cons call calls ih =>
    cases call with
    | write buffer => exact ⟨buffer, List.mem_cons_self⟩
    | flushToFrame timestampMs elapsedMs =>
      rcases ih h with ⟨buffer, hmem⟩
      exact ⟨buffer, List.mem_cons_of_mem _ hmem⟩

/-- What the loops archive, if there is something to read. -/
theorem extractsTo_reads {reads : List Bytes} (hrecorder : IsRecorder A)
    (hinv : A.cipher.crypto.Inverts) (hm : (A.metadata.getD []).length ≤ 65535)
    (hfresh : sink.Fresh true) (clock : ℕ → UInt32) (hne : reads.flatten ≠ []) :
    ExtractsTo A sink (ingestCalls clock 0 reads) reads.flatten := by
  have hbytes : writtenBytes (ingestCalls clock 0 reads) = reads.flatten :=
    (ingestCalls_writes clock reads 0).1
  have hwrite := exists_write (show writtenBytes (ingestCalls clock 0 reads) ≠ [] by rw [hbytes]; exact hne)
  have hextracts := extractsTo_written hrecorder hinv hm hfresh hwrite
  rw [hbytes] at hextracts
  exact hextracts

end

end Sentinel

open Sentinel

/-- The segments of `DoRecord` are so small that no `Dispose` throws, whenever it is late. -/
theorem doRecord_disposes (A : ℕ → Archiver) (sink : ℕ → InnerStream)
    (hrecorder : ∀ k, IsRecorder (A k)) (hfresh : ∀ k, (sink k).Fresh true) (late : ℕ → Bool) (clock : ℕ → ℕ → UInt32)
    {source : Bytes} {reads : List Bytes} (hsplits : Splits 8192 source reads) :
    ∃ segments, doRecord late clock reads = .ok segments ∧
      ∀ k calls, segments[k]? = some calls →
        ∃ s s', create (sink k) .encrypt (A k).arguments = .ok s ∧
          archiveCalls (A k).cipher (A k).random calls s = .ok () s' := by
  refine ⟨_, doRecord_eq late reads, ?_⟩
  intro k calls hcalls
  rw [segmentCalls, List.getElem?_mapIdx, Option.map_eq_some_iff] at hcalls
  rcases hcalls with ⟨group, hgroup, rfl⟩
  have hsize := length_segmentReads late reads 0 [] (fun span hspan => (hsplits.returns span hspan).2)
    (Nat.zero_le _) group (List.mem_of_getElem? hgroup)
  have hflushes := length_reportedOffsets group 0
  rw [← (ingestCalls_writes (clock k) group 0).2, length_flushOffsets] at hflushes
  rcases archiveCalls_refines (A := A k) (by rw [(hrecorder k).seekable]; exact hfresh k)
    (ingestCalls (clock k) 0 group) with ⟨s, s', hcreate, -, -, hok | ⟨e, herr, -⟩⟩
  · exact ⟨s, s', hcreate, hok⟩
  · -- there is room for the points
    have hpoints : ((A k).run .initial (ingestCalls (clock k) 0 group)).points.length =
        0 + (ingestCalls (clock k) 0 group).countP WriteCall.isFlush :=
      Archiver.length_points (hrecorder k).seekable _ .initial
    rw [SeekTable.serialize_eq (by omega)] at herr
    cases herr

/-- Writers of files with the default arguments and any metadata that fit their length
field, one for each segment. `DoIngest`, however it reads its source, leaves an archive
from which `DoExtract` gets the source back. So does `DoRecord` with any rolling logic, the
one of the source among them: what is extracted from its segments in the order of creation
makes up the source. With that of the source no `Dispose` throws either. -/
theorem archive_then_extract (A : ℕ → Archiver) (sink : ℕ → InnerStream)
    (hrecorder : ∀ k, IsRecorder (A k)) (hinv : ∀ k, (A k).cipher.crypto.Inverts)
    (hm : ∀ k, ((A k).metadata.getD []).length ≤ 65535) (hfresh : ∀ k, (sink k).Fresh true)
    (source : Bytes) (hne : source ≠ []) :
    (∀ clock reads, Splits (64 * 1024) source reads →
      ∃ calls, doIngest clock reads = .ok calls ∧ ExtractsTo (A 0) (sink 0) calls source) ∧
    (∀ roll clock reads, Splits 8192 source reads →
      ∃ (segments : List (List WriteCall)) (plaintexts : List Bytes),
        recordWith roll clock 0 .initial reads = .ok segments ∧
        plaintexts.flatten = source ∧ plaintexts.length = segments.length ∧
        ∀ k calls plaintext, segments[k]? = some calls → plaintexts[k]? = some plaintext →
          ExtractsTo (A k) (sink k) calls plaintext) ∧
    (∀ late clock reads, Splits 8192 source reads → ∃ segments, doRecord late clock reads = .ok segments ∧
      ∀ k calls, segments[k]? = some calls →
        ∃ s s', create (sink k) .encrypt (A k).arguments = .ok s ∧
          archiveCalls (A k).cipher (A k).random calls s = .ok () s') := by
  refine ⟨?_, ?_, fun late clock reads => doRecord_disposes A sink hrecorder hfresh late clock⟩
  · intro clock reads hsplits
    refine ⟨_, doIngest_eq reads, ?_⟩
    rw [← hsplits.joined] at hne ⊢
    exact extractsTo_reads (hrecorder 0) (hinv 0) (hm 0) (hfresh 0) clock hne
  · intro roll clock reads hsplits
    -- rolling over splits the reads among the files and drops none
    have hgroups : (segmentReads roll 0 [] reads).flatten = reads := segmentReads_flatten reads 0 []
    refine ⟨segmentCalls clock (segmentReads roll 0 [] reads),
      (segmentReads roll 0 [] reads).map List.flatten, recordWith_initial reads, ?_, ?_, ?_⟩
    · rw [← hsplits.joined, ← List.flatten_flatten, hgroups]
    · rw [List.length_map, segmentCalls, List.length_mapIdx]
    · intro k calls plaintext hcalls hplain
      rw [segmentCalls, List.getElem?_mapIdx, Option.map_eq_some_iff] at hcalls
      rw [List.getElem?_map, Option.map_eq_some_iff] at hplain
      rcases hcalls with ⟨group, hgroup, rfl⟩
      rcases hplain with ⟨group', hgroup', rfl⟩
      obtain rfl := Option.some.inj (hgroup.symm.trans hgroup')
      exact extractsTo_reads (hrecorder k) (hinv k) (hm k) (hfresh k) (clock k)
        (segmentReads_flatten_ne_nil hsplits (List.mem_of_getElem? hgroup))

/-- A writer over the masking cipher with the default arguments. -/
def maskRecorder : Archiver :=
  { maskArchiver (64 * 1024) (by decide) (by decide) with
    keyIndex := 0
    provided := rfl
    keyIndex_lt := by decide
    leaveOpen := false }

theorem maskRecorder_isRecorder : IsRecorder maskRecorder := ⟨rfl, rfl⟩

/-- Six bytes with the front of an IDR unit, read at once. -/
theorem archive_then_extract_six :
    ∃ calls, doIngest (fun _ => 0) [[9, 0, 0, 1, 0x65, 0]] = .ok calls ∧
      ExtractsTo maskRecorder (InnerStream.sink true) calls [9, 0, 0, 1, 0x65, 0] := by
  obtain ⟨hingest, -, -⟩ := archive_then_extract (fun _ => maskRecorder) (fun _ => InnerStream.sink true)
    (fun _ => maskRecorder_isRecorder) (fun _ => maskCrypto_inverts) (fun _ => by decide)
    (fun _ => InnerStream.sink_fresh true) [9, 0, 0, 1, 0x65, 0] (List.cons_ne_nil _ _)
  exact hingest (fun _ => 0) [[9, 0, 0, 1, 0x65, 0]] ⟨rfl, by decide⟩

end ManagedSecurity

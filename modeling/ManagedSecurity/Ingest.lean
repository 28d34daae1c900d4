import ManagedSecurity.AsyncWriting
import ManagedSecurity.NalUnitScanner
import ManagedSecurity.Segments

/-! # The loops that archive a source (`DoIngest`, `DoRecord`, `DoTransmitAsync`)

Each of them reads the source buffer by buffer, has the scanner look for sync points in
the buffer, and calls `FlushToFrame` in front of every one that it reports. No call
returns anything, so that the calls depend on the reads alone.

* `ingestCalls`: what the loops come to when no slice is out of range, and
  `doIngest_eq`, `doTransmit_eq`, `doRecord_eq`: that none is;
* `ingestCalls_writes`: they write the source, and flush at the offsets that the scanner
  reports;
* `segments_eq_cut`: the bytes between the flushes are the source, cut there;
* `frames_aligned_alike`: the frames do not depend on how the source is split into reads
  exactly if there is no sync point that a read could show.
-/

namespace ManagedSecurity

open Bytes Outcome ManagedSecurityStream NalUnitScanner

namespace Sentinel

/-! ## One buffer -/

/-- `Write` of a slice of the buffer, if there is something in it. -/
def writeSlice (span : Bytes) (start stop : ℕ) : Except Exn (List WriteCall) :=
  if start < stop then do
    let piece ← sliceSpan span start ((stop : ℤ) - start)
    return [.write piece]
  else
    return []

/-- The loop of `DoIngest` and `DoRecord` over the points of a buffer, and the `Write`
behind it. `clock` is the time that `FlushToFrame` takes, by the offset of the point;
the buffer is read at `base`. -/
def alignBuffer (clock : ℕ → UInt32) (base : ℕ) (span : Bytes) :
    ℕ → List (ℕ × NalUnitType) → Except Exn (List WriteCall)
  | lastPos, [] => writeSlice span lastPos span.length
  | lastPos, (offset, type) :: points =>
    if isSyncPoint type then do
      let before ← writeSlice span lastPos offset
      let rest ← alignBuffer clock base span offset points
      return before ++ .flushToFrame none (clock (base + offset)) :: rest
    else
      alignBuffer clock base span lastPos points

/-- `GetSyncPoints`. -/
def getSyncPoints (buffer : Bytes) : List (ℕ × NalUnitType) :=
  (scan buffer).filter fun point => isSyncPoint point.2

/-- The loop of `DoTransmitAsync` over the points of `GetSyncPoints`, and the `Write`
behind it. -/
def transmitBuffer (clock : ℕ → UInt32) (base : ℕ) (span : Bytes) :
    ℕ → List (ℕ × NalUnitType) → Except Exn (List WriteCall)
  | lastPos, [] => writeSlice span lastPos span.length
  | lastPos, (offset, _) :: points => do
    let before ← writeSlice span lastPos offset
    let rest ← transmitBuffer clock base span offset points
    return before ++ .flushToFrame none (clock (base + offset)) :: rest

/-! ## The loops -/

/-- The loop over the reads, up to the one that returns nothing. -/
def overReads (body : ℕ → Bytes → Except Exn (List WriteCall)) :
    ℕ → List Bytes → Except Exn (List WriteCall)
  | _, [] => return []
  | base, span :: reads => do
    let calls ← body base span
    let rest ← overReads body (base + span.length) reads
    return calls ++ rest

/-- `DoIngest`: the calls on its stream in front of `Dispose`. -/
def doIngest (clock : ℕ → UInt32) (reads : List Bytes) : Except Exn (List WriteCall) :=
  overReads (fun base span => alignBuffer clock base span 0 (scan span)) 0 reads

/-- `DoTransmitAsync`: the calls on its stream, all of them asynchronous. -/
def doTransmit (clock : ℕ → UInt32) (reads : List Bytes) : Except Exn (List WriteCall) :=
  overReads (fun base span => transmitBuffer clock base span 0 (getSyncPoints span)) 0 reads

/-- The variables of `DoRecord`: the calls on the streams that are disposed, in the
order of creation, and on `currentStream`. -/
structure Recording where
  disposed : List (List WriteCall)
  currentStream : Option (List WriteCall)
  bytesInFile : ℕ

/-- What the rolling logic of `DoRecord` says about a stream that is there; `late` is
whether the last roll is more than five seconds ago at a read. -/
def shouldRoll (late : ℕ → Bool) (read bytesInFile : ℕ) : Bool :=
  late read ∨ 200 * 1024 < bytesInFile

/-- A new segment, behind the old ones. -/
def Recording.rolled (r : Recording) : Recording where
  disposed := r.disposed ++ r.currentStream.toList
  currentStream := some []
  bytesInFile := 0

/-- One round of `DoRecord`. Every stream has a clock of its own. -/
def recordRead (roll : Bool) (clock : ℕ → ℕ → UInt32) (r : Recording) (span : Bytes) :
    Except Exn Recording := do
  let r := if r.currentStream = none ∨ roll then r.rolled else r
  let calls ← alignBuffer (clock r.disposed.length) r.bytesInFile span 0 (scan span)
  return { r with
    currentStream := r.currentStream.map (· ++ calls)
    bytesInFile := r.bytesInFile + span.length }

/-- The loop of `DoRecord` with any rolling logic: the calls on each of its streams in
front of `Dispose`, in the order of creation. -/
def recordWith (roll : ℕ → ℕ → Bool) (clock : ℕ → ℕ → UInt32) :
    ℕ → Recording → List Bytes → Except Exn (List (List WriteCall))
  | _, r, [] => return r.disposed ++ r.currentStream.toList
  | k, r, span :: reads => do
    let r ← recordRead (roll k r.bytesInFile) clock r span
    recordWith roll clock (k + 1) r reads

/-- Nothing has been read. -/
def Recording.initial : Recording := ⟨[], none, 0⟩

/-- `DoRecord`. -/
def doRecord (late : ℕ → Bool) (clock : ℕ → ℕ → UInt32) (reads : List Bytes) :
    Except Exn (List (List WriteCall)) :=
  recordWith (shouldRoll late) clock 0 .initial reads

/-! ## The calls for one buffer -/

/-- The calls that write the buffer from `lastPos` on, with a flush at each offset. -/
def alignCalls (clock : ℕ → UInt32) (base : ℕ) (span : Bytes) : ℕ → List ℕ → List WriteCall
  | lastPos, [] => if lastPos < span.length then [.write (span.drop lastPos)] else []
  | lastPos, offset :: offsets =>
    (if lastPos < offset then [.write (slice span lastPos (offset - lastPos))] else []) ++
      .flushToFrame none (clock (base + offset)) :: alignCalls clock base span offset offsets

section

variable {clock : ℕ → UInt32} {base : ℕ} {span : Bytes}

theorem writeSlice_eq {start stop : ℕ} (h : stop ≤ span.length) :
    writeSlice span start stop =
      .ok (if start < stop then [.write (slice span start (stop - start))] else []) := by
  unfold writeSlice
  split_ifs with hlt
  · have hlen : ((stop : ℤ) - start) = ((stop - start : ℕ) : ℤ) := by omega
    rw [hlen, sliceSpan_ok (by omega)]
    rfl
  · rfl

/-- The `Write` behind the loop. -/
theorem writeSlice_rest (start : ℕ) :
    writeSlice span start span.length = .ok (alignCalls clock base span start []) := by
  rw [writeSlice_eq le_rfl, alignCalls]
  split_ifs with hlt
  · have hrest : slice span start (span.length - start) = span.drop start := by
      rw [slice, List.take_of_length_le (by rw [List.length_drop])]
    rw [hrest]
  · rfl

/-- The loop of `DoTransmitAsync`: the slices are in range. -/
theorem transmitBuffer_eq : ∀ (points : List (ℕ × NalUnitType)) (first lastPos : ℕ),
    Found span first (points.map Prod.fst) →
    transmitBuffer clock base span lastPos points =
      .ok (alignCalls clock base span lastPos (points.map Prod.fst)) := by
  intro points
  induction points with
  | nil =>
    intro first lastPos _
    exact writeSlice_rest lastPos
  | cons point points ih =>
    rcases point with ⟨offset, type⟩
    rintro first lastPos ⟨-, hlt, -, hfound⟩
    have hrest := ih _ offset hfound
    rw [transmitBuffer, writeSlice_eq (by omega), hrest]
    rfl

/-- The loop of `DoIngest` and `DoRecord` is the one over the sync points. -/
theorem alignBuffer_eq_transmit : ∀ (points : List (ℕ × NalUnitType)) (lastPos : ℕ),
    alignBuffer clock base span lastPos points =
      transmitBuffer clock base span lastPos (points.filter fun point => isSyncPoint point.2) := by
  intro points
  induction points with
  | nil =>
    intro lastPos
    rfl
  | cons point points ih =>
    rcases point with ⟨offset, type⟩
    intro lastPos
    rw [alignBuffer, List.filter_cons]
    by_cases hsync : isSyncPoint type = true
    · rw [if_pos hsync, if_pos hsync, transmitBuffer, ih]
    · rw [if_neg hsync, if_neg hsync, ih]

/-- What is done with one buffer. -/
theorem alignBuffer_scan :
    alignBuffer clock base span 0 (scan span) =
      .ok (alignCalls clock base span 0 (syncOffsets (scan span))) := by
  rw [alignBuffer_eq_transmit]
  exact transmitBuffer_eq _ 0 0 (scan_found span)

end

/-! ## The calls for all reads -/

/-- The calls for successive reads, the first of them at `base`. -/
def ingestCalls (clock : ℕ → UInt32) : ℕ → List Bytes → List WriteCall
  | _, [] => []
  | base, span :: reads =>
    alignCalls clock base span 0 (syncOffsets (scan span)) ++
      ingestCalls clock (base + span.length) reads

/-- The offsets in the source at which the scanner reports sync points, read by read. -/
def reportedOffsets : ℕ → List Bytes → List ℕ
  | _, [] => []
  | base, span :: reads =>
    (syncOffsets (scan span)).map (base + ·) ++ reportedOffsets (base + span.length) reads

section

variable {clock : ℕ → UInt32}

theorem overReads_eq {body : ℕ → Bytes → Except Exn (List WriteCall)}
    (hbody : ∀ base span, body base span =
      .ok (alignCalls clock base span 0 (syncOffsets (scan span)))) :
    ∀ (reads : List Bytes) (base : ℕ), overReads body base reads = .ok (ingestCalls clock base reads) := by
  intro reads
  induction reads with
  | nil =>
    intro base
    rfl
  | cons span reads ih =>
    intro base
    rw [overReads, hbody, ih]
    rfl

/-- No slice of `DoIngest` is out of range. -/
theorem doIngest_eq (reads : List Bytes) : doIngest clock reads = .ok (ingestCalls clock 0 reads) :=
  overReads_eq (fun _ _ => alignBuffer_scan) reads 0

/-- `DoTransmitAsync` makes the calls of `DoIngest`. -/
theorem doTransmit_eq (reads : List Bytes) :
    doTransmit clock reads = .ok (ingestCalls clock 0 reads) := by
  refine overReads_eq (fun base span => ?_) reads 0
  exact transmitBuffer_eq (getSyncPoints span) 0 0 (scan_found span)

theorem ingestCalls_append (reads reads' : List Bytes) :
    ∀ base, ingestCalls clock base (reads ++ reads') =
      ingestCalls clock base reads ++ ingestCalls clock (base + reads.flatten.length) reads' := by
  induction reads with
  | nil =>
    intro base
    rfl
  | cons span reads ih =>
    intro base
    rw [List.cons_append, ingestCalls, ih, ingestCalls, List.append_assoc, List.flatten_cons,
      List.length_append, Nat.add_assoc]

end

/-! ## The segments of a recording -/

/-- The reads that `DoRecord` archives in each segment; `current` are those of
`currentStream`, none if it is null. -/
def segmentReads (roll : ℕ → ℕ → Bool) : ℕ → List Bytes → List Bytes → List (List Bytes)
  | _, current, [] => if current = [] then [] else [current]
  | k, current, span :: reads =>
    if current ≠ [] ∧ roll k current.flatten.length = true then
      current :: segmentReads roll (k + 1) [span] reads
    else
      segmentReads roll (k + 1) (current ++ [span]) reads

/-- The calls for the segments, the first of which has a number. -/
def segmentCalls (clock : ℕ → ℕ → UInt32) (groups : List (List Bytes)) : List (List WriteCall) :=
  groups.mapIdx fun k reads => ingestCalls (clock k) 0 reads

/-- `currentStream` is there: `groups` are the reads of the streams before it, `current`
its own. -/
structure Recording.Holds (clock : ℕ → ℕ → UInt32) (r : Recording) (groups : List (List Bytes))
    (current : List Bytes) : Prop where
  disposed : r.disposed = segmentCalls clock groups
  currentStream : r.currentStream = some (ingestCalls (clock groups.length) 0 current)
  bytesInFile : r.bytesInFile = current.flatten.length

section

variable {roll : ℕ → ℕ → Bool} {clock : ℕ → ℕ → UInt32} {r : Recording} {groups : List (List Bytes)}
  {current : List Bytes} {span : Bytes}

theorem segmentCalls_snoc (groups : List (List Bytes)) (reads : List Bytes) :
    segmentCalls clock (groups ++ [reads]) =
      segmentCalls clock groups ++ [ingestCalls (clock groups.length) 0 reads] :=
  List.mapIdx_concat

theorem Recording.Holds.rolled (h : r.Holds clock groups current) :
    r.rolled.Holds clock (groups ++ [current]) [] where
  disposed := by
    rw [segmentCalls_snoc, Recording.rolled, h.disposed, h.currentStream]
    rfl
  currentStream := rfl
  bytesInFile := rfl

theorem Recording.Holds.initial : Recording.initial.rolled.Holds clock [] [] where
  disposed := rfl
  currentStream := rfl
  bytesInFile := rfl

/-- A read goes to the stream that the rolling logic leaves. -/
theorem recordRead_eq (span : Bytes) {again : Bool}
    (h : (if r.currentStream = none ∨ again then r.rolled else r).Holds clock groups current) :
    ∃ r', recordRead again clock r span = .ok r' ∧ r'.Holds clock groups (current ++ [span]) := by
  set r₁ := if r.currentStream = none ∨ again then r.rolled else r with hr₁
  have hcalls : alignBuffer (clock r₁.disposed.length) r₁.bytesInFile span 0 (scan span) =
      .ok (alignCalls (clock groups.length) current.flatten.length span 0 (syncOffsets (scan span))) := by
    have hlen : r₁.disposed.length = groups.length := by
      rw [h.disposed, segmentCalls, List.length_mapIdx]
    rw [alignBuffer_scan, hlen, h.bytesInFile]
  refine ⟨{ r₁ with
    currentStream := r₁.currentStream.map (· ++ alignCalls (clock groups.length)
      current.flatten.length span 0 (syncOffsets (scan span)))
    bytesInFile := r₁.bytesInFile + span.length }, ?_, ?_⟩
  · show (alignBuffer (clock r₁.disposed.length) r₁.bytesInFile span 0 (scan span) >>= _) = _
    rw [hcalls]
    rfl
  · refine ⟨h.disposed, ?_, ?_⟩
    · show r₁.currentStream.map _ = _
      rw [h.currentStream, ingestCalls_append, Nat.zero_add, ingestCalls, ingestCalls, List.append_nil]
      rfl
    · show r₁.bytesInFile + span.length = _
      rw [h.bytesInFile, List.flatten_append, List.length_append, List.flatten_singleton]

/-- The loop of `DoRecord` from a stream on that has been given something. -/
theorem recordWith_eq (roll : ℕ → ℕ → Bool) : ∀ (reads : List Bytes) (k : ℕ) (r : Recording) (groups : List (List Bytes))
    (current : List Bytes), r.Holds clock groups current → current ≠ [] →
    recordWith roll clock k r reads =
      .ok (segmentCalls clock (groups ++ segmentReads roll k current reads)) := by
  intro reads
  induction reads with
  | nil =>
    intro k r groups current h hne
    rw [recordWith, segmentReads, if_neg hne, segmentCalls_snoc, h.disposed, h.currentStream]
    rfl
  | cons span reads ih =>
    intro k r groups current h hne
    rw [recordWith, segmentReads, h.bytesInFile]
    -- a full file is closed before the read, and the read starts the next one
    by_cases hroll : roll k current.flatten.length = true
    · have hrolled := h.rolled
      rw [← if_pos (c := r.currentStream = none ∨ roll k current.flatten.length = true)
        (t := r.rolled) (e := r) (Or.inr hroll)] at hrolled
      rcases recordRead_eq span hrolled with ⟨r', hrun, h'⟩
      rw [hrun, if_pos ⟨hne, hroll⟩, ← List.singleton_append, ← List.append_assoc]
      exact ih _ _ _ _ h' (List.cons_ne_nil _ _)
    · have hsame : ¬ (r.currentStream = none ∨ roll k current.flatten.length = true) := by
        rw [h.currentStream]
        rintro (hnone | hyes)
        · cases hnone
        · exact hroll hyes
      have hstays := h
      rw [← if_neg (t := r.rolled) (e := r) hsame] at hstays
      rcases recordRead_eq span hstays with ⟨r', hrun, h'⟩
      rw [hrun, if_neg (fun hyes => hroll hyes.2)]
      exact ih _ _ _ _ h' (by simp)

/-- The loop of `DoRecord`: each stream is given the calls of `DoIngest` for its reads. -/
theorem recordWith_initial (reads : List Bytes) :
    recordWith roll clock 0 .initial reads = .ok (segmentCalls clock (segmentReads roll 0 [] reads)) := by
  cases reads with
  | nil => rfl
  | cons span reads =>
    have hfirst : Recording.initial.currentStream = none ∨ roll 0 0 = true := Or.inl rfl
    have hrolled : Recording.initial.rolled.Holds clock [] [] := Recording.Holds.initial
    rw [← if_pos (t := Recording.initial.rolled) (e := Recording.initial) hfirst] at hrolled
    rcases recordRead_eq span hrolled with ⟨r', hrun, h'⟩
    have hrest := recordWith_eq roll reads 1 r' [] [span] h' (List.cons_ne_nil _ _)
    show (recordRead (roll 0 0) clock .initial span >>= _) = _
    rw [hrun]
    exact hrest

/-- No slice of `DoRecord` is out of range. -/
theorem doRecord_eq (late : ℕ → Bool) (reads : List Bytes) :
    doRecord late clock reads =
      .ok (segmentCalls clock (segmentReads (shouldRoll late) 0 [] reads)) :=
  recordWith_initial reads

/-- Every read is archived, in order. -/
theorem segmentReads_flatten (reads : List Bytes) :
    ∀ k current, (segmentReads roll k current reads).flatten = current ++ reads := by
  induction reads with
  | nil =>
    intro k current
    rw [segmentReads, List.append_nil]
    split_ifs with hnil
    · exact hnil.symm
    · exact List.flatten_singleton
  | cons span reads ih =>
    intro k current
    rw [segmentReads]
    split_ifs
    · rw [List.flatten_cons, ih]
      rfl
    · rw [ih, List.append_assoc]
      rfl

/-- No segment is created for nothing. -/
theorem segmentReads_ne_nil (reads : List Bytes) :
    ∀ k current, ∀ group ∈ segmentReads roll k current reads, group ≠ [] := by
  induction reads with
  | nil =>
    intro k current group hgroup
    rw [segmentReads] at hgroup
    split_ifs at hgroup with hnil
    · cases hgroup
    · rw [List.mem_singleton.mp hgroup]
      exact hnil
  | cons span reads ih =>
    intro k current group hgroup
    rw [segmentReads] at hgroup
    split_ifs at hgroup with hroll
    · rcases List.mem_cons.mp hgroup with rfl | hgroup
      · exact hroll.1
      · exact ih _ _ _ hgroup
    · exact ih _ _ _ hgroup

/-- Without roll-over there is one segment. -/
theorem segmentReads_never (reads : List Bytes) :
    ∀ k current, current ++ reads ≠ [] →
      segmentReads (fun _ _ => false) k current reads = [current ++ reads] := by
  induction reads with
  | nil =>
    intro k current hne
    rw [List.append_nil] at hne ⊢
    rw [segmentReads, if_neg hne]
  | cons span reads ih =>
    intro k current hne
    rw [segmentReads, if_neg (fun h => Bool.noConfusion h.2), ih _ _ (by simp), List.append_assoc]
    rfl

end

/-! ## What is written, and where it is flushed -/

/-- How many bytes are written in front of each `FlushToFrame`. -/
def flushOffsets : ℕ → List WriteCall → List ℕ
  | _, [] => []
  | pos, .write buffer :: calls => flushOffsets (pos + buffer.length) calls
  | pos, .flushToFrame _ _ :: calls => pos :: flushOffsets pos calls

/-- The data, which begin at `pos`, cut at some offsets. -/
def cut : ℕ → List ℕ → Bytes → List Bytes
  | _, [], data => [data]
  | pos, offset :: offsets, data =>
    data.take (offset - pos) :: cut offset offsets (data.drop (offset - pos))

theorem writtenBytes_append (calls calls' : List WriteCall) :
    writtenBytes (calls ++ calls') = writtenBytes calls ++ writtenBytes calls' :=
  List.flatMap_append

theorem flushOffsets_append (calls calls' : List WriteCall) :
    ∀ pos, flushOffsets pos (calls ++ calls') =
      flushOffsets pos calls ++ flushOffsets (pos + (writtenBytes calls).length) calls' := by
  induction calls with
  | nil =>
    intro pos
    rfl
  | cons call calls ih =>
    intro pos
    have hbytes : writtenBytes (call :: calls) = call.bytes ++ writtenBytes calls := List.flatMap_cons
    cases call with
    | write buffer =>
      rw [List.cons_append, flushOffsets, ih, flushOffsets, hbytes, List.length_append, Nat.add_assoc]
      rfl
    | flushToFrame timestampMs elapsedMs =>
      rw [List.cons_append, flushOffsets, ih, flushOffsets, hbytes]
      rfl

theorem le_flushOffsets (calls : List WriteCall) :
    ∀ pos, ∀ offset ∈ flushOffsets pos calls, pos ≤ offset := by
  induction calls with
  | nil =>
    intro pos offset hmem
    cases hmem
  | cons call calls ih =>
    intro pos offset hmem
    cases call with
    | write buffer => exact le_trans (Nat.le_add_right _ _) (ih _ _ hmem)
    | flushToFrame timestampMs elapsedMs =>
      rcases List.mem_cons.mp hmem with rfl | hmem
      · exact le_rfl
      · exact ih _ _ hmem

/-- There is an offset for each flush. -/
theorem length_flushOffsets (calls : List WriteCall) :
    ∀ pos, (flushOffsets pos calls).length = calls.countP WriteCall.isFlush := by
  induction calls with
  | nil =>
    intro pos
    rfl
  | cons call calls ih =>
    intro pos
    cases call with
    | write buffer => exact ih _
    | flushToFrame timestampMs elapsedMs =>
      rw [flushOffsets, List.length_cons, ih, List.countP_cons_of_pos rfl]

/-- Bytes in front of all cuts. -/
theorem cut_append {pos : ℕ} {offsets : List ℕ} (bytes data : Bytes)
    (h : ∀ offset ∈ offsets, pos + bytes.length ≤ offset) :
    cut pos offsets (bytes ++ data) = (cut (pos + bytes.length) offsets data).modifyHead (bytes ++ ·) := by
  cases offsets with
  | nil => rfl
  | cons offset offsets =>
    have hle := h offset List.mem_cons_self
    have hlen : offset - pos = bytes.length + (offset - (pos + bytes.length)) := by omega
    rw [cut, cut, List.modifyHead_cons, hlen, List.take_length_add_append, List.drop_length_add_append]

/-- The bytes between the flushes are the written bytes, cut where they are flushed. -/
theorem segments_eq_cut (calls : List WriteCall) :
    ∀ pos, segments calls = cut pos (flushOffsets pos calls) (writtenBytes calls) := by
  induction calls with
  | nil =>
    intro pos
    rfl
  | cons call calls ih =>
    intro pos
    have hbytes : writtenBytes (call :: calls) = call.bytes ++ writtenBytes calls := List.flatMap_cons
    cases call with
    | write buffer =>
      rw [segments, ih (pos + buffer.length), hbytes, flushOffsets]
      exact (cut_append buffer _ (le_flushOffsets calls _)).symm
    | flushToFrame timestampMs elapsedMs =>
      rw [segments, ih pos, hbytes, flushOffsets, cut, Nat.sub_self]
      rfl

/-- Calls that write the same bytes and flush at the same offsets make the same frames. -/
theorem payloads_eq_of_offsets {A : Archiver} {calls calls' : List WriteCall}
    (hbytes : writtenBytes calls = writtenBytes calls')
    (hoffsets : flushOffsets 0 calls = flushOffsets 0 calls') : A.payloads calls = A.payloads calls' := by
  rw [Archiver.payloads_eq, Archiver.payloads_eq, segments_eq_cut calls 0, segments_eq_cut calls' 0,
    hbytes, hoffsets]

section

variable {clock : ℕ → UInt32} {base : ℕ} {span : Bytes}

/-- The slices of a buffer and the flushes between them. -/
theorem alignCalls_writes (clock : ℕ → UInt32) (base : ℕ) : ∀ (offsets : List ℕ) (first lastPos : ℕ), Found span first offsets →
    lastPos ≤ first →
    writtenBytes (alignCalls clock base span lastPos offsets) = span.drop lastPos ∧
    flushOffsets (base + lastPos) (alignCalls clock base span lastPos offsets) =
      offsets.map (base + ·) := by
  intro offsets
  induction offsets with
  | nil =>
    intro first lastPos _ _
    rw [alignCalls]
    split_ifs with hlt
    · exact ⟨List.append_nil _, rfl⟩
    · exact ⟨(List.drop_eq_nil_of_le (by omega)).symm, rfl⟩
  | cons offset offsets ih =>
    rintro first lastPos ⟨hfirst, hlt, -, hfound⟩ hle
    rcases ih _ offset hfound (by omega) with ⟨hbytes, hoffsets⟩
    -- the slice in front of the flush
    obtain ⟨before, hbefore, hslice, hnone⟩ : ∃ before,
        before = (if lastPos < offset then [WriteCall.write (slice span lastPos (offset - lastPos))]
          else []) ∧
        writtenBytes before = slice span lastPos (offset - lastPos) ∧
        ∀ pos, flushOffsets pos before = [] := by
      refine ⟨_, rfl, ?_, ?_⟩
      · split_ifs with hpos
        · exact List.append_nil _
        · rw [Nat.sub_eq_zero_of_le (by omega), slice_len_zero]
          rfl
      · intro pos
        split_ifs <;> rfl
    have hjoin : slice span lastPos (offset - lastPos) ++ span.drop offset = span.drop lastPos := by
      have hdrop : span.drop offset = (span.drop lastPos).drop (offset - lastPos) := by
        rw [List.drop_drop, Nat.add_sub_cancel' (by omega)]
      rw [slice, hdrop, List.take_append_drop]
    have hpos : base + lastPos + (slice span lastPos (offset - lastPos)).length = base + offset := by
      rw [length_slice_of_le (by omega)]
      omega
    rw [alignCalls, ← hbefore, writtenBytes_append, flushOffsets_append, hslice, hnone, hpos,
      List.nil_append, flushOffsets, hoffsets]
    refine ⟨?_, rfl⟩
    rw [← hjoin, ← hbytes]
    rfl

/-- The loops write the source, and flush where the scanner has reported a sync point. -/
theorem ingestCalls_writes (clock : ℕ → UInt32) (reads : List Bytes) :
    ∀ base, writtenBytes (ingestCalls clock base reads) = reads.flatten ∧
      flushOffsets base (ingestCalls clock base reads) = reportedOffsets base reads := by
  induction reads with
  | nil =>
    intro base
    exact ⟨rfl, rfl⟩
  | cons span reads ih =>
    intro base
    obtain ⟨hbytes, hoffsets⟩ := alignCalls_writes clock base _ 0 0
      (scan_found span) le_rfl
    rcases ih (base + span.length) with ⟨hrest, hrestOffsets⟩
    rw [Nat.add_zero] at hoffsets
    rw [ingestCalls, writtenBytes_append, flushOffsets_append, hbytes, hoffsets, hrest,
      List.drop_zero, hrestOffsets]
    exact ⟨rfl, rfl⟩

/-- Every reported offset takes up a byte of the source at least. -/
theorem length_found : ∀ (offsets : List ℕ) (first : ℕ), Found span first offsets →
    first ≤ span.length → first + offsets.length ≤ span.length := by
  intro offsets
  induction offsets with
  | nil =>
    intro first _ hle
    exact hle
  | cons offset offsets ih =>
    rintro first ⟨hfirst, hlt, hsync, hfound⟩ -
    have hunit := hsync.2.1
    rw [List.length_drop] at hunit
    have hrest := ih _ hfound (by omega)
    rw [List.length_cons]
    omega

theorem length_reportedOffsets (reads : List Bytes) :
    ∀ base, (reportedOffsets base reads).length ≤ reads.flatten.length := by
  induction reads with
  | nil =>
    intro base
    exact le_rfl
  | cons span reads ih =>
    intro base
    have hspan := length_found (syncOffsets (scan span)) 0 (scan_found span) (Nat.zero_le _)
    have hrest := ih (base + span.length)
    rw [reportedOffsets, List.flatten_cons, List.length_append, List.length_append, List.length_map]
    omega

/-- What is reported is a sync point of the source. -/
theorem reportedOffsets_sync (reads : List Bytes) :
    ∀ base, ∀ offset ∈ reportedOffsets base reads,
      ∃ i, offset = base + i ∧ i + 4 < reads.flatten.length ∧ BeginsWithSync (reads.flatten.drop i) := by
  induction reads with
  | nil =>
    intro base offset hmem
    cases hmem
  | cons span reads ih =>
    intro base offset hmem
    rw [List.flatten_cons, List.length_append]
    rcases List.mem_append.mp hmem with hmem | hmem
    · rcases List.mem_map.mp hmem with ⟨i, hi, rfl⟩
      rcases (scan_found span).mem hi with ⟨hlt, hsync⟩
      refine ⟨i, rfl, by omega, ?_⟩
      rw [List.drop_append_of_le_length (by omega)]
      exact hsync.append _
    · rcases ih _ _ hmem with ⟨i, rfl, hlt, hsync⟩
      refine ⟨span.length + i, by omega, by omega, ?_⟩
      rw [List.drop_length_add_append]
      exact hsync

end

/-! ## How the source is read -/

/-- The reads of a source into a buffer, up to the one that returns nothing. -/
structure Splits (bufferSize : ℕ) (source : Bytes) (reads : List Bytes) : Prop where
  joined : reads.flatten = source
  returns : ∀ span ∈ reads, span ≠ [] ∧ span.length ≤ bufferSize

/-- There is something in every segment. -/
theorem segmentReads_flatten_ne_nil {roll : ℕ → ℕ → Bool} {bufferSize : ℕ} {source : Bytes}
    {reads group : List Bytes} (hsplits : Splits bufferSize source reads)
    (hmem : group ∈ segmentReads roll 0 [] reads) : group.flatten ≠ [] := by
  obtain ⟨span, rest, rfl⟩ := List.exists_cons_of_ne_nil (segmentReads_ne_nil reads 0 [] _ hmem)
  have hspan : span ∈ (segmentReads roll 0 [] reads).flatten :=
    List.mem_flatten.mpr ⟨_, hmem, List.mem_cons_self⟩
  rw [segmentReads_flatten, List.nil_append] at hspan
  rw [List.flatten_cons]
  exact List.append_ne_nil_of_left_ne_nil (hsplits.returns span hspan).1 _

/-- `DoRecord` rolls before a segment grows large: one more read is all it takes in. -/
theorem length_segmentReads (late : ℕ → Bool) {bufferSize : ℕ} (reads : List Bytes) :
    ∀ k current, (∀ span ∈ reads, span.length ≤ bufferSize) →
      current.flatten.length ≤ 200 * 1024 + bufferSize →
      ∀ group ∈ segmentReads (shouldRoll late) k current reads,
        group.flatten.length ≤ 200 * 1024 + bufferSize := by
  induction reads with
  | nil =>
    intro k current _ hcurrent group hmem
    rw [segmentReads] at hmem
    split_ifs at hmem
    · cases hmem
    · rw [List.mem_singleton.mp hmem]
      exact hcurrent
  | cons span reads ih =>
    intro k current hspans hcurrent group hmem
    have hspan := hspans span List.mem_cons_self
    have hrest : ∀ s ∈ reads, s.length ≤ bufferSize :=
      fun s hs => hspans s (List.mem_cons_of_mem _ hs)
    rw [segmentReads] at hmem
    split_ifs at hmem with hroll
    · rcases List.mem_cons.mp hmem with rfl | hmem
      · exact hcurrent
      · refine ih _ _ hrest ?_ group hmem
        rw [List.flatten_singleton]
        omega
    · refine ih _ _ hrest ?_ group hmem
      -- the check comes before the read, so a file grows by one read past the limit
      have hsmall : current.flatten.length ≤ 200 * 1024 := by
        by_contra hlarge
        refine hroll ⟨?_, decide_eq_true (Or.inr (by omega))⟩
        rintro rfl
        exact hlarge (Nat.zero_le _)
      rw [List.flatten_append, List.length_append, List.flatten_singleton]
      omega

/-- Somewhere in the source, four bytes and more in front of the end, a sync point
begins. -/
def HasSyncPoint (source : Bytes) : Prop :=
  ∃ i, i + 4 < source.length ∧ BeginsWithSync (source.drop i)

/-- `DoRecord` without roll-over: the calls on its one stream. -/
def recordUnrolled (clock : ℕ → UInt32) (reads : List Bytes) : Except Exn (List WriteCall) := do
  let segments ← recordWith (fun _ _ => false) (fun _ => clock) 0 .initial reads
  return segments.flatten

/-- The payloads that a new stream seals in a run of calls and `Dispose`. -/
def sealedPayloads (A : Archiver) (sink : InnerStream) (async : Bool) (calls : List WriteCall) :
    Except Exn (List Bytes) := do
  let s ← create sink .encrypt A.arguments
  let s' := finalState (mixedArchiveCalls A.cipher none A.random (calls.map (async, ·)) async s)
  return s'.gcmCalls.map GcmCall.plaintext

/-- However the source is read, the loop flushes at the same offsets and the same
payloads are sealed. -/
def AlignedAlike (A : Archiver) (sink : InnerStream) (async : Bool) (bufferSize : ℕ)
    (loop : (ℕ → UInt32) → List Bytes → Except Exn (List WriteCall)) (source : Bytes) : Prop :=
  ∀ (clock clock' : ℕ → UInt32) (reads reads' : List Bytes),
    Splits bufferSize source reads → Splits bufferSize source reads' →
    ∃ calls calls', loop clock reads = .ok calls ∧ loop clock' reads' = .ok calls' ∧
      (∀ offset, offset ∈ flushOffsets 0 calls ↔ offset ∈ flushOffsets 0 calls') ∧
      sealedPayloads A sink async calls = sealedPayloads A sink async calls'

section

variable {A : Archiver} {sink : InnerStream} {source : Bytes}

theorem sealedPayloads_eq (hfresh : sink.Fresh A.seekable) (async : Bool) (calls : List WriteCall) :
    sealedPayloads A sink async calls = .ok (A.payloads calls) := by
  rcases create_writes hfresh with ⟨s, hcreate, hwrites⟩
  rcases archiveCalls_leaves hfresh calls with ⟨s', hcreate', hcalls, -⟩
  obtain rfl := Except.ok.inj (hcreate.symm.trans hcreate')
  have hnone : ∀ kernel ∈ (none : Option AsyncEncryptor), kernel.SealsAs A.cipher A.random :=
    fun _ h => by cases h
  have hrun := mixedArchiveCalls_eq hnone hwrites
    (calls.map (async, ·)) async
  have hsame : (calls.map (async, ·)).map Prod.snd = calls := by
    rw [List.map_map]
    exact List.map_id calls
  rw [sealedPayloads, hcreate]
  show Except.ok _ = _
  rw [hrun, hsame, hcalls, Sealer.map_plaintext]
  rfl

/-- `DoRecord` without roll-over makes the calls of `DoIngest`. -/
theorem recordUnrolled_eq (clock : ℕ → UInt32) (reads : List Bytes) :
    recordUnrolled clock reads = .ok (ingestCalls clock 0 reads) := by
  rw [recordUnrolled, recordWith_initial]
  show Except.ok (segmentCalls (fun _ => clock) _).flatten = _
  cases reads with
  | nil => rfl
  | cons span reads =>
    rw [segmentReads_never _ 0 [] (by simp), segmentCalls]
    show Except.ok (ingestCalls clock 0 ([] ++ span :: reads) ++ []) = _
    rw [List.append_nil, List.nil_append]

/-- A read for every byte. -/
theorem splits_bytes (bufferSize : ℕ) (hpos : 0 < bufferSize) (source : Bytes) :
    Splits bufferSize source (source.map fun b => [b]) := by
  constructor
  · induction source with
    | nil => rfl
    | cons b source ih =>
      rw [List.map_cons, List.flatten_cons, ih]
      rfl
  · intro span hspan
    rcases List.mem_map.mp hspan with ⟨b, -, rfl⟩
    exact ⟨List.cons_ne_nil _ _, hpos⟩

/-- Read byte by byte, no sync point is reported. -/
theorem reportedOffsets_bytes (source : Bytes) :
    ∀ base, reportedOffsets base (source.map fun b => [b]) = [] := by
  induction source with
  | nil =>
    intro base
    rfl
  | cons b source ih =>
    intro base
    rw [List.map_cons, reportedOffsets, syncOffsets_short (by simp), ih]
    rfl

theorem reportedOffsets_append (reads reads' : List Bytes) :
    ∀ base, reportedOffsets base (reads ++ reads') =
      reportedOffsets base reads ++ reportedOffsets (base + reads.flatten.length) reads' := by
  induction reads with
  | nil =>
    intro base
    rfl
  | cons span reads ih =>
    intro base
    rw [List.cons_append, reportedOffsets, ih, reportedOffsets, List.append_assoc,
      List.flatten_cons, List.length_append, Nat.add_assoc]

/-- A sync point is reported if a read begins with it. -/
theorem reported_of_sync {bufferSize : ℕ} (hbuffer : 5 ≤ bufferSize) (h : HasSyncPoint source) :
    ∃ reads, Splits bufferSize source reads ∧ ∃ offset, offset ∈ reportedOffsets 0 reads := by
  rcases h with ⟨i, hlt, hsync⟩
  -- the bytes of the sync point in one read, all others byte by byte
  set unit := (source.drop i).take 5 with hunit
  have hlen : unit.length = 5 := by
    rw [hunit, List.length_take, List.length_drop]
    omega
  have hjoin : source.take i ++ (unit ++ (source.drop i).drop 5) = source := by
    rw [hunit, List.take_append_drop, List.take_append_drop]
  have hbegins : BeginsWithSync unit := by
    have hle := startCodeLen_le (source.drop i)
    exact hsync.take (by omega) (by omega)
  have hfront := splits_bytes bufferSize (by omega) (source.take i)
  have hback := splits_bytes bufferSize (by omega) ((source.drop i).drop 5)
  refine ⟨(source.take i).map (fun b => [b]) ++ unit :: ((source.drop i).drop 5).map (fun b => [b]),
    ⟨?_, ?_⟩, 0 + ((source.take i).map (fun b => [b])).flatten.length + 0, ?_⟩
  · rw [List.flatten_append, List.flatten_cons, hfront.joined, hback.joined, hjoin]
  · intro span hspan
    rcases List.mem_append.mp hspan with hspan | hspan
    · exact hfront.returns span hspan
    · rcases List.mem_cons.mp hspan with rfl | hspan
      · exact ⟨List.ne_nil_of_length_pos (by omega), by omega⟩
      · exact hback.returns span hspan
  · rw [reportedOffsets_append, reportedOffsets]
    apply List.mem_append_right
    apply List.mem_append_left
    exact List.mem_map.mpr ⟨0, mem_scan_of_front (by omega) hbegins, rfl⟩

/-- A loop that makes the calls of `DoIngest` is aligned alike exactly if the source
has no sync point. -/
theorem alignedAlike_iff {loop : (ℕ → UInt32) → List Bytes → Except Exn (List WriteCall)}
    (hloop : ∀ clock reads, loop clock reads = .ok (ingestCalls clock 0 reads))
    (hfresh : sink.Fresh A.seekable) (async : Bool) {bufferSize : ℕ} (hbuffer : 5 ≤ bufferSize) :
    AlignedAlike A sink async bufferSize loop source ↔ ¬ HasSyncPoint source := by
  constructor
  · intro halike hsync
    rcases reported_of_sync hbuffer hsync with ⟨reads, hsplits, offset, hmem⟩
    obtain ⟨calls, calls', hcalls, hcalls', hoffsets, -⟩ := halike (fun _ => 0) (fun _ => 0) reads _
      hsplits (splits_bytes bufferSize (by omega) source)
    rw [hloop] at hcalls hcalls'
    obtain rfl := Except.ok.inj hcalls
    obtain rfl := Except.ok.inj hcalls'
    have hiff := hoffsets offset
    rw [(ingestCalls_writes _ reads 0).2, (ingestCalls_writes _ _ 0).2, reportedOffsets_bytes] at hiff
    cases hiff.mp hmem
  · intro hnone clock clock' reads reads' hsplits hsplits'
    -- nothing is reported in either run
    have hempty : ∀ reads, Splits bufferSize source reads → reportedOffsets 0 reads = [] := by
      intro reads hsplits
      apply List.eq_nil_iff_forall_not_mem.mpr
      intro offset hmem
      rcases reportedOffsets_sync reads 0 offset hmem with ⟨i, -, hlt, hsync⟩
      rw [hsplits.joined] at hlt hsync
      exact hnone ⟨i, hlt, hsync⟩
    rcases ingestCalls_writes clock reads 0 with ⟨hbytes, hoffsets⟩
    rcases ingestCalls_writes clock' reads' 0 with ⟨hbytes', hoffsets'⟩
    have hsame : flushOffsets 0 (ingestCalls clock 0 reads) =
        flushOffsets 0 (ingestCalls clock' 0 reads') := by
      rw [hoffsets, hoffsets', hempty reads hsplits, hempty reads' hsplits']
    refine ⟨_, _, hloop clock reads, hloop clock' reads', fun offset => by rw [hsame], ?_⟩
    rw [sealedPayloads_eq hfresh, sealedPayloads_eq hfresh,
      payloads_eq_of_offsets (hbytes.trans (hsplits.joined.trans
        (hsplits'.joined.symm.trans hbytes'.symm))) hsame]

end

end Sentinel

open Sentinel

/-- The frames of each of the loops depend on how the source is read, unless there is
no sync point in it that any read could show. -/
theorem frames_aligned_alike (A : Archiver) (sink : InnerStream) (hfresh : sink.Fresh A.seekable)
    (source : Bytes) :
    (AlignedAlike A sink false (64 * 1024) doIngest source ↔ ¬ HasSyncPoint source) ∧
    (AlignedAlike A sink false 8192 recordUnrolled source ↔ ¬ HasSyncPoint source) ∧
    (AlignedAlike A sink true (64 * 1024) doTransmit source ↔ ¬ HasSyncPoint source) := by
  refine ⟨?_, ?_, ?_⟩
  · exact alignedAlike_iff (fun _ reads => doIngest_eq reads) hfresh false (by omega)
  · exact alignedAlike_iff recordUnrolled_eq hfresh false (by omega)
  · exact alignedAlike_iff (fun _ reads => doTransmit_eq reads) hfresh true (by omega)

/-- Six bytes without a start code. -/
theorem frames_aligned_alike_plain :
    AlignedAlike maskFour (InnerStream.sink true) false (64 * 1024) doIngest [1, 2, 3, 4, 5, 6] := by
  apply (frames_aligned_alike maskFour (InnerStream.sink true) (InnerStream.sink_fresh true) _).1.mpr
  rintro ⟨i, hlt, hsync⟩
  have hi : i = 0 ∨ i = 1 := by
    simp only [List.length_cons, List.length_nil] at hlt
    omega
  rcases hi with rfl | rfl <;> revert hsync <;> decide

/-- A byte and the front of an IDR unit: read at once, the loop flushes in front of the
unit; read byte by byte, it does not. -/
theorem frames_not_aligned_alike :
    ¬ AlignedAlike maskFour (InnerStream.sink true) false (64 * 1024) doIngest
      [9, 0, 0, 1, 0x65, 0] := by
  intro halike
  obtain ⟨calls, calls', hcalls, hcalls', hoffsets, -⟩ := halike (fun _ => 0) (fun _ => 0)
    [[9, 0, 0, 1, 0x65, 0]] [[9], [0], [0], [1], [0x65], [0]]
    ⟨rfl, by decide⟩ ⟨rfl, by decide⟩
  have hwhole : doIngest (fun _ => 0) [[9, 0, 0, 1, 0x65, 0]] =
      .ok [.write [9], .flushToFrame none 0, .write [0, 0, 1, 0x65, 0]] := rfl
  have hbytes : doIngest (fun _ => 0) [[9], [0], [0], [1], [0x65], [0]] =
      .ok [.write [9], .write [0], .write [0], .write [1], .write [0x65], .write [0]] := rfl
  obtain rfl := Except.ok.inj (hwhole.symm.trans hcalls)
  obtain rfl := Except.ok.inj (hbytes.symm.trans hcalls')
  exact absurd ((hoffsets 1).mp (by decide)) (by decide)

end ManagedSecurity

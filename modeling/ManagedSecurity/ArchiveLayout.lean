import ManagedSecurity.StreamWriter

/-! # The layout of finished archives, and the seek points in them

`finalisation_layout` says what a writer over a seekable sink leaves behind when
it has recorded points: header, metadata, frames and table, with the table offset
patched into the header.

The points themselves are recorded before the block is emitted and before the
master header may have been written. `seek_points_denote_frames` says for which
runs every point denotes a frame: a `Write` comes before every flush, and the
sequence number still fits the 32-bit field at each of them.
-/

namespace ManagedSecurity

open Bytes Outcome ManagedSecurityStream

/-- Whether a call is `FlushToFrame`. -/
def ManagedSecurityStream.WriteCall.isFlush : WriteCall → Bool
  | .write _ => false
  | .flushToFrame _ _ => true

/-- One point for each `FlushToFrame`, with the position and the sequence number
that the stream has at the call. -/
def flushPoints (c : Cipher) (random : ℕ → ℕ → UInt8) :
    List WriteCall → ManagedSecurityStream → List SeekPoint
  | [], _ => []
  | call :: calls, s =>
    let recorded : List SeekPoint :=
      match call with
      | .write _ => []
      | .flushToFrame timestampMs elapsedMs =>
        [{ relativeTimestampMs := timestampMs.getD elapsedMs
           fileOffset := UInt64.ofNat s.innerStream.position
           frameIndex := s.sequenceNumber.toUInt32 }]
    match writeCall c random call s with
    | .ok _ s' => recorded ++ flushPoints c random calls s'
    | .error _ _ => recorded

section

variable {A : Archiver}

/-- The abstract archive records what the stream shows at each flush. -/
theorem points_run (hseek : A.seekable = true) (calls : List WriteCall) :
    ∀ {s : ManagedSecurityStream} {a : ArchiveState}, A.Writes s a →
      (A.run a calls).points = a.points ++ flushPoints A.cipher A.random calls s ∧
      (flushPoints A.cipher A.random calls s).length = calls.countP WriteCall.isFlush := by
  induction calls with
  | nil =>
    intro s a _
    exact ⟨(List.append_nil _).symm, rfl⟩
  | cons call calls ih =>
    intro s a h
    rcases writeCall_refines h call with ⟨s', hcall, h'⟩
    rcases ih h' with ⟨hpoints, hcount⟩
    have hrun : A.run a (call :: calls) = A.run (A.step a call) calls := rfl
    -- only a flush records a point
    cases call with
    | write buffer =>
      have hflush : flushPoints A.cipher A.random (.write buffer :: calls) s =
          flushPoints A.cipher A.random calls s' := by
        simp only [flushPoints, hcall, List.nil_append]
      rw [hrun, hpoints, hflush, hcount]
      exact ⟨rfl, rfl⟩
    | flushToFrame timestampMs elapsedMs =>
      have hflush : flushPoints A.cipher A.random (.flushToFrame timestampMs elapsedMs :: calls) s =
          A.point a timestampMs elapsedMs :: flushPoints A.cipher A.random calls s' := by
        simp only [flushPoints, hcall, List.singleton_append, Archiver.point]
        rw [h.holds.atEnd, h.holds.data, h.holds.sequence, h.holds.fills]
      have hstep : (A.step a (.flushToFrame timestampMs elapsedMs)).points =
          a.points ++ [A.point a timestampMs elapsedMs] := if_pos hseek
      rw [hrun, hpoints, hflush, hstep, List.length_cons, hcount, List.append_assoc,
        List.singleton_append]
      exact ⟨rfl, (List.countP_cons_of_pos rfl).symm⟩

/-- There is a point for each flush. -/
theorem Archiver.length_points (hseek : A.seekable = true) (calls : List WriteCall) :
    ∀ a : ArchiveState,
      (A.run a calls).points.length = a.points.length + calls.countP WriteCall.isFlush := by
  induction calls with
  | nil =>
    intro a
    rfl
  | cons call calls ih =>
    intro a
    have hrun : A.run a (call :: calls) = A.run (A.step a call) calls := rfl
    rw [hrun, ih]
    cases call with
    | write buffer => rfl
    | flushToFrame timestampMs elapsedMs =>
      have hstep : (A.step a (.flushToFrame timestampMs elapsedMs)).points =
          a.points ++ [A.point a timestampMs elapsedMs] := if_pos hseek
      rw [hstep, List.length_append, List.length_singleton, List.countP_cons_of_pos rfl]
      omega

/-- Metadata whose length fits the 16-bit field are written whole. -/
theorem Archiver.head_eq (hm : (A.metadata.getD []).length ≤ 65535) (off : UInt64) :
    A.head off = masterBytes streamVersion A.chunkSize A.keyIndex
      (UInt16.ofNat (A.metadata.getD []).length) off ++ A.metadata.getD [] := by
  rw [Archiver.head]
  by_cases hnil : A.metadata.getD [] = []
  · rw [hnil]
    rfl
  · have hpos : UInt16.ofNat (A.metadata.getD []).length > 0 := by
      have hlen : 0 < (A.metadata.getD []).length := List.length_pos_of_ne_nil hnil
      show (0 : UInt16) < _
      rw [UInt16.lt_iff_toNat_lt, UInt16.toNat_ofNat']
      show 0 < _
      omega
    rw [if_pos hpos]

theorem Archiver.length_head_of_le (hm : (A.metadata.getD []).length ≤ 65535) (off : UInt64) :
    (A.head off).length = 22 + (A.metadata.getD []).length := by
  rw [A.head_eq hm, List.length_append, length_masterBytes]

/-- The bytes in front of the offset field do not depend on it. -/
theorem Archiver.take_head (hm : (A.metadata.getD []).length ≤ 65535) (off off' : UInt64)
    (rest rest' : Bytes) : (A.head off ++ rest).take 14 = (A.head off' ++ rest').take 14 := by
  have hfixed : ∀ o rest, (A.head o ++ rest).take 14 = (masterBytes streamVersion A.chunkSize
      A.keyIndex (UInt16.ofNat (A.metadata.getD []).length) o).take 14 := by
    intro o rest
    rw [A.head_eq hm, List.append_assoc]
    exact List.take_append_of_le_length (by rw [length_masterBytes]; omega)
  rw [hfixed, hfixed]
  exact masterBytes_offset _ _ _ _ _ _

theorem Archiver.drop_head (hm : (A.metadata.getD []).length ≤ 65535) (off : UInt64) (rest : Bytes) :
    (A.head off ++ rest).drop 22 = A.metadata.getD [] ++ rest := by
  rw [A.head_eq hm, List.append_assoc]
  exact List.drop_left' (length_masterBytes _ _ _ _ _)

/-- An archive either has no table and a zero offset, or its table follows the
frames at the offset. -/
theorem Archiver.archive_eq (a : ArchiveState) (hlong : (A.archive a).length < 2 ^ 63) :
    ∃ (off : UInt64) (table : Bytes),
      A.archive a = A.head off ++ (A.frames 0 a.framer.emit.frames ++ table) ∧
      ((off = 0 ∧ table = [] ∧
          ¬ (A.seekable = true ∧ a.points ≠ [] ∧ 6 + a.points.length * 16 ≤ 0x7FFFFFC7)) ∨
        (off.toNat = (A.head 0 ++ A.frames 0 a.framer.emit.frames).length ∧
          table = SeekTable.bytes a.points ∧
          A.seekable = true ∧ a.points ≠ [] ∧ 6 + a.points.length * 16 ≤ 0x7FFFFFC7)) := by
  by_cases hcond : A.seekable = true ∧ a.points ≠ []
  · by_cases hfit : 6 + a.points.length * 16 ≤ 0x7FFFFFC7
    · have harchive : A.archive a = A.head (UInt64.ofNat (A.head 0 ++
          A.frames 0 a.framer.emit.frames).length) ++ (A.frames 0 a.framer.emit.frames ++
            SeekTable.bytes a.points) := by
        rw [Archiver.archive, if_pos hcond, SeekTable.serialize_eq hfit]
      refine ⟨_, _, harchive, Or.inr ⟨?_, rfl, hcond.1, hcond.2, hfit⟩⟩
      rw [UInt64.toNat_ofNat']
      apply Nat.mod_eq_of_lt
      rw [harchive] at hlong
      simp only [List.length_append, Archiver.length_head] at hlong ⊢
      omega
    · rcases SeekTable.serialize_eq_error a.points (by omega) with ⟨e, hser⟩
      refine ⟨0, [], ?_, Or.inl ⟨rfl, rfl, fun h => hfit h.2.2⟩⟩
      rw [Archiver.archive, if_pos hcond, hser, List.append_nil]
  · refine ⟨0, [], ?_, Or.inl ⟨rfl, rfl, fun h => hcond ⟨h.1, h.2.1⟩⟩⟩
    rw [Archiver.archive, if_neg hcond, List.append_nil]

/-- With flushes on a seekable sink, but not too many of them, there is a table. -/
theorem Archiver.archive_tabled {a : ArchiveState} (hseek : A.seekable = true)
    (hsome : 1 ≤ a.points.length) (hfit : a.points.length ≤ 65535)
    (hlong : (A.archive a).length < 2 ^ 63) :
    ∃ off : UInt64, off.toNat = (A.head 0 ++ A.frames 0 a.framer.emit.frames).length ∧
      A.archive a = A.head off ++ (A.frames 0 a.framer.emit.frames ++ SeekTable.bytes a.points) := by
  have hne : a.points ≠ [] := List.ne_nil_of_length_pos hsome
  rcases A.archive_eq a hlong with ⟨off, table, harchive, ⟨-, -, hnone⟩ | ⟨hoff, rfl, -⟩⟩
  · exact absurd ⟨hseek, hne, by omega⟩ hnone
  · exact ⟨off, hoff, harchive⟩

/-- The end of an archive comes behind the frames that were there before it. -/
theorem Archiver.frames_emit (f : Framer UInt8) :
    A.frames 0 f.emit.frames = A.frames 0 f.frames ++ A.frame (0 + f.frames.length) f.pending := by
  rw [Framer.emit, Sealer.frames_snoc]

/-- What was behind the header stays there when the header is rewritten. -/
theorem Archiver.slice_rewritten (hm : (A.metadata.getD []).length ≤ 65535) (off off' : UInt64)
    (frames rest : Bytes) :
    slice (A.head off ++ (frames ++ rest)) 22 ((A.head off' ++ frames).length - 22) =
      (A.head off' ++ frames).drop 22 := by
  have hlen : (A.head off' ++ frames).length - 22 = (A.metadata.getD [] ++ frames).length := by
    rw [List.length_append, List.length_append, Archiver.length_head_of_le hm]
    omega
  rw [slice, hlen, Archiver.drop_head hm, Archiver.drop_head hm, ← List.append_assoc]
  exact List.take_left

end

/-! ## Finalisation -/

/-- Calls with at least one `Write` and 1 to 65535 `FlushToFrame`, then `Dispose`,
over an empty seekable sink: the sink holds the master header with the table
offset, the metadata, the frames and the table of one point for each flush, the
table reads back as these points, and the rewrite has changed nothing but the
offset field. -/
theorem finalisation_layout (A : Archiver) (inner : InnerStream) (calls : List WriteCall)
    (hfresh : inner.Fresh A.seekable) (hseek : A.seekable = true)
    (hm : (A.metadata.getD []).length ≤ 65535)
    (hwrite : ∃ buffer, WriteCall.write buffer ∈ calls)
    (hflush : 1 ≤ calls.countP WriteCall.isFlush ∧ calls.countP WriteCall.isFlush ≤ 65535)
    (hlong : (A.archive (A.run .initial calls)).length < 2 ^ 63) :
    ∃ (s w s' : ManagedSecurityStream) (points : List SeekPoint) (frames table : Bytes)
        (off : UInt64),
      create inner .encrypt A.arguments = .ok s ∧
      writeCalls A.cipher A.random calls s = .ok () w ∧
      dispose A.cipher A.random w = .ok () s' ∧
      points = flushPoints A.cipher A.random calls s ∧
      points.length = calls.countP WriteCall.isFlush ∧
      frames = A.frames 0 (A.run .initial calls).framer.emit.frames ∧
      off.toNat = 22 + (A.metadata.getD []).length + frames.length ∧
      SeekTable.serialize points = .ok table ∧
      s'.innerStream.data = masterBytes 1 A.chunkSize A.keyIndex
        (UInt16.ofNat (A.metadata.getD []).length) off ++
          (A.metadata.getD [] ++ (frames ++ table)) ∧
      SeekTable.deserialize (s'.innerStream.data.drop off.toNat) = .ok points ∧
      s'.innerStream.data.take 14 = w.innerStream.data.take 14 ∧
      slice s'.innerStream.data 22 (w.innerStream.data.length - 22) = w.innerStream.data.drop 22 ∧
      s'.innerStream.position = s'.innerStream.data.length := by
  set a := A.run .initial calls with ha
  set frames := A.frames 0 a.framer.emit.frames with hframes
  rcases create_writes hfresh with ⟨s, hcreate, hwrites⟩
  rcases writeCalls_refines calls hwrites with ⟨w, hrun, hw⟩
  rw [← ha] at hw
  have hstart : a.started = true := Archiver.run_started calls .initial (Or.inr hwrite)
  rcases points_run hseek calls hwrites with ⟨hpoints, hcount⟩
  have hpoints' : a.points = flushPoints A.cipher A.random calls s := by
    rw [ha, hpoints]
    rfl
  rw [← hpoints'] at hcount
  -- the table fits an array, so that `Dispose` returns
  have hser : SeekTable.serialize a.points = .ok (SeekTable.bytes a.points) :=
    SeekTable.serialize_eq (by omega)
  rcases A.archive_tabled hseek (by omega) (by omega) hlong with ⟨off, hoff, harchive⟩
  rcases dispose_refines hw with ⟨s', -, hdata, hpos, hend⟩
  rw [Archiver.leaves_of_started hstart] at hdata
  replace hpos := hpos hstart hlong
  have hdispose : dispose A.cipher A.random w = .ok () s' := by
    rcases hend with hok | ⟨e, herr, -⟩
    · exact hok
    · rw [hser] at herr
      cases herr
  have hdata' : s'.innerStream.data = A.head off ++ (frames ++ SeekTable.bytes a.points) :=
    hdata.trans harchive
  have hwdata : w.innerStream.data = A.head 0 ++ A.frames 0 a.framer.frames := by
    rw [hw.holds.data, Archiver.content_of_started hstart]
  have hfront : (A.head off ++ frames).length = off.toNat := by
    rw [hoff, List.length_append, List.length_append, A.length_head_eq off 0]
  have hoffNat : off.toNat = 22 + (A.metadata.getD []).length + frames.length := by
    rw [← hfront, List.length_append, Archiver.length_head_of_le hm]
  refine ⟨s, w, s', a.points, frames, SeekTable.bytes a.points, off, hcreate, hrun, hdispose,
    hpoints', hcount, rfl, hoffNat, hser, ?_, ?_, ?_, ?_, ?_⟩
  · rw [hdata', A.head_eq hm, List.append_assoc]
    rfl
  · rw [hdata', ← List.append_assoc, List.drop_left' hfront]
    have hread : SeekTable.deserialize (SeekTable.bytes a.points ++ []) = .ok a.points :=
      SeekTable.deserialize_bytes (by omega) []
    rwa [List.append_nil] at hread
  · rw [hdata', hwdata]
    exact Archiver.take_head hm _ _ _ _
  · rw [hdata', hwdata, hframes, Archiver.frames_emit, List.append_assoc]
    exact Archiver.slice_rewritten hm off 0 _ _
  · rw [hpos, hdata]

/-- Five bytes, a flush, one more byte. -/
theorem finalisation_layout_six :
    ∃ s w s', create (InnerStream.sink true) .encrypt maskFour.arguments = .ok s ∧
      writeCalls maskFour.cipher maskFour.random sixBytes s = .ok () w ∧
      dispose maskFour.cipher maskFour.random w = .ok () s' ∧
      s'.innerStream.position = s'.innerStream.data.length := by
  obtain ⟨s, w, s', -, -, -, -, hcreate, hrun, hdispose, -, -, -, -, -, -, -, -, -, hpos⟩ :=
    finalisation_layout maskFour (InnerStream.sink true) sixBytes
      (InnerStream.sink_fresh true) rfl (by decide) ⟨[6], by simp [sixBytes]⟩ (by decide) (by decide +kernel)
  exact ⟨s, w, s', hcreate, hrun, hdispose, hpos⟩

/-! ## The state of the writer at each flush -/

/-- For each flush, whether a `Write` came before it and how many frames were
emitted before it; `frames` and `waiting` count the frames and the bytes of the
calls before. -/
def flushMarks (chunkSize : ℕ) : Bool → ℕ → ℕ → List WriteCall → List (Bool × ℕ)
  | _, _, _, [] => []
  | _, frames, waiting, .write buffer :: calls =>
    flushMarks chunkSize true (frames + (waiting + buffer.length) / chunkSize)
      ((waiting + buffer.length) % chunkSize) calls
  | started, frames, waiting, .flushToFrame _ _ :: calls =>
    (started, frames) :: flushMarks chunkSize started
      (frames + if waiting = 0 then 0 else 1) 0 calls

/-- The counts only grow. -/
theorem flushMarks_sorted {chunkSize : ℕ} (calls : List WriteCall) :
    ∀ started frames waiting,
      (∀ mark ∈ flushMarks chunkSize started frames waiting calls, frames ≤ mark.2) ∧
      (flushMarks chunkSize started frames waiting calls).Pairwise (fun m n => m.2 ≤ n.2) := by
  induction calls with
  | nil =>
    intro started frames waiting
    refine ⟨?_, List.Pairwise.nil⟩
    intro mark hmark
    cases hmark
  | cons call calls ih =>
    intro started frames waiting
    cases call with
    | write buffer =>
      obtain ⟨hge, hsorted⟩ := ih true (frames + (waiting + buffer.length) / chunkSize)
        ((waiting + buffer.length) % chunkSize)
      exact ⟨fun mark hmark => le_trans (Nat.le_add_right _ _) (hge mark hmark), hsorted⟩
    | flushToFrame timestampMs elapsedMs =>
      rcases ih started (frames + if waiting = 0 then 0 else 1) 0 with ⟨hge, hsorted⟩
      refine ⟨?_, List.Pairwise.cons ?_ hsorted⟩
      · intro mark hmark
        rcases List.mem_cons.mp hmark with rfl | hmark
        · exact le_rfl
        · exact le_trans (Nat.le_add_right _ _) (hge mark hmark)
      · intro mark hmark
        exact le_trans (Nat.le_add_right _ _) (hge mark hmark)

section

variable {A : Archiver}

/-- Calls only append frames. -/
theorem Archiver.prefix_run (calls : List WriteCall) :
    ∀ a : ArchiveState, a.framer.frames <+: (A.run a calls).framer.frames := by
  induction calls with
  | nil =>
    intro a
    exact List.prefix_rfl
  | cons call calls ih =>
    intro a
    refine List.IsPrefix.trans ?_ (ih (A.step a call))
    cases call with
    | write buffer => exact Framer.prefix_push A.chunkSize buffer a.framer
    | flushToFrame timestampMs elapsedMs => exact Framer.prefix_flush a.framer

/-- Where the frame with index `i` starts in an archive with these payloads. -/
def Archiver.frameStart (A : Archiver) (payloads : List Bytes) (i : ℕ) : ℕ :=
  (A.head 0 ++ A.frames 0 (payloads.take i)).length

/-- The point that is recorded at a mark. -/
def Archiver.PointOf (A : Archiver) (payloads : List Bytes) (mark : Bool × ℕ) (pt : SeekPoint) :
    Prop :=
  mark.2 < payloads.length ∧
    pt.fileOffset = UInt64.ofNat (if mark.1 then A.frameStart payloads mark.2 else 0) ∧
    pt.frameIndex = (A.sequence mark.2).toUInt32

/-- Every flush records the point of its mark. -/
theorem points_marks (hseek : A.seekable = true) (payloads : List Bytes) (calls : List WriteCall) :
    ∀ a : ArchiveState, a.framer.Inv A.chunkSize →
      (a.started = false → a.framer = Framer.empty) →
      (A.run a calls).framer.emit.frames = payloads →
      ∃ pts, (A.run a calls).points = a.points ++ pts ∧
        List.Forall₂ (A.PointOf payloads)
          (flushMarks A.chunkSize a.started a.framer.frames.length a.framer.pending.length calls)
          pts := by
  induction calls with
  | nil =>
    intro a _ _ _
    exact ⟨[], (List.append_nil _).symm, List.Forall₂.nil⟩
  | cons call calls ih =>
    intro a hinv hstart hfinal
    have hrun : A.run a (call :: calls) = A.run (A.step a call) calls := rfl
    cases call with
    | write buffer =>
      rcases Framer.length_push buffer hinv.pending with ⟨hframes, hpending⟩
      obtain ⟨pts, hpts, hmarks⟩ := ih (A.step a (.write buffer)) (hinv.push buffer)
        (fun hfalse => Bool.noConfusion hfalse) hfinal
      refine ⟨pts, hpts, ?_⟩
      have hstep : (A.step a (.write buffer)).framer = a.framer.push A.chunkSize buffer := rfl
      rw [hstep, hframes, hpending] at hmarks
      exact hmarks
    | flushToFrame timestampMs elapsedMs =>
      rcases Framer.length_flush a.framer with ⟨hframes, hpending⟩
      have hempty : (A.step a (.flushToFrame timestampMs elapsedMs)).started = false →
          (A.step a (.flushToFrame timestampMs elapsedMs)).framer = Framer.empty := by
        intro hfalse
        show a.framer.flush = Framer.empty
        rw [hstart hfalse]
        rfl
      obtain ⟨pts, hpts, hmarks⟩ := ih (A.step a (.flushToFrame timestampMs elapsedMs)) hinv.flush
        hempty hfinal
      have hpoints : (A.step a (.flushToFrame timestampMs elapsedMs)).points =
          a.points ++ [A.point a timestampMs elapsedMs] := if_pos hseek
      -- the frames so far are the first ones of the archive
      have hfront : a.framer.frames <+: payloads := by
        rw [← hfinal, hrun]
        exact ((Framer.prefix_flush a.framer).trans
          (Archiver.prefix_run calls (A.step a (.flushToFrame timestampMs elapsedMs)))).trans
            (Framer.prefix_emit _)
      have htake : payloads.take a.framer.frames.length = a.framer.frames :=
        (List.prefix_iff_eq_take.mp hfront).symm
      have hlt : a.framer.frames.length < payloads.length := by
        have hle := (Archiver.prefix_run (A := A) (.flushToFrame timestampMs elapsedMs :: calls) a).length_le
        rw [← hfinal]
        show _ < ((A.run a _).framer.frames ++ [_]).length
        rw [List.length_append, List.length_singleton]
        omega
      refine ⟨A.point a timestampMs elapsedMs :: pts, ?_, List.Forall₂.cons ?_ ?_⟩
      · rw [hrun, hpts, hpoints, List.append_assoc]
        rfl
      · refine ⟨hlt, ?_, rfl⟩
        show UInt64.ofNat (A.content a).length = _
        by_cases hs : a.started = true
        · rw [Archiver.content_of_started hs, if_pos hs, Archiver.frameStart, htake]
        · have hfalse := Bool.eq_false_iff.mpr hs
          rw [if_neg hs, Archiver.content, if_neg hs, hstart hfalse]
          rfl
      · have hstep : (A.step a (.flushToFrame timestampMs elapsedMs)).framer = a.framer.flush := rfl
        rw [hstep, hframes, hpending] at hmarks
        exact hmarks

/-! ## Where frames start -/

/-- The payloads of all frames of the archive that the calls make. -/
def Archiver.payloads (A : Archiver) (calls : List WriteCall) : List Bytes :=
  (A.run .initial calls).framer.emit.frames

/-- What every run of calls leaves in the framer. -/
theorem Archiver.inv_run (calls : List WriteCall) :
    ∀ a : ArchiveState, a.framer.Inv A.chunkSize → (A.run a calls).framer.Inv A.chunkSize := by
  induction calls with
  | nil =>
    intro a h
    exact h
  | cons call calls ih =>
    intro a h
    apply ih (A.step a call)
    cases call with
    | write buffer => exact h.push buffer
    | flushToFrame timestampMs elapsedMs => exact h.flush

/-- Every payload fits a chunk. -/
theorem Archiver.length_payload (calls : List WriteCall) :
    ∀ p ∈ A.payloads calls, p.length ≤ A.chunkSize := by
  have hinv := Archiver.inv_run (A := A) calls .initial (Framer.inv_empty A.chunkSize_pos)
  intro p hp
  rcases List.mem_append.mp hp with hp | hp
  · exact hinv.bounded p hp
  · rw [List.mem_singleton.mp hp]
    exact le_of_lt hinv.pending

/-- Only the last payload may be empty. -/
theorem Archiver.payload_ne_nil (calls : List WriteCall) {k : ℕ} (hk : k < (A.payloads calls).length) :
    ∀ p ∈ (A.payloads calls).take k, p ≠ [] := by
  have hinv := Archiver.inv_run (A := A) calls .initial (Framer.inv_empty A.chunkSize_pos)
  have hlen : (A.payloads calls).length = (A.run .initial calls).framer.frames.length + 1 := by
    show (_ ++ [_]).length = _
    rw [List.length_append, List.length_singleton]
  have hfront : (A.payloads calls).take k = (A.run .initial calls).framer.frames.take k :=
    List.take_append_of_le_length (by omega)
  intro p hp
  rw [hfront] at hp
  exact hinv.nonempty p (List.mem_of_mem_take hp)

section

variable {payloads : List Bytes} {i : ℕ} {p : Bytes}

theorem Archiver.frameStart_succ (hp : payloads[i]? = some p) :
    A.frameStart payloads (i + 1) = A.frameStart payloads i + (A.frame i p).length := by
  rcases List.getElem?_eq_some_iff.mp hp with ⟨hi, -⟩
  have htake : payloads.take (i + 1) = payloads.take i ++ [p] := by
    rw [List.take_add_one, hp]
    rfl
  have hlen : 0 + (payloads.take i).length = i := by
    rw [List.length_take]
    omega
  rw [Archiver.frameStart, Archiver.frameStart, htake, Sealer.frames_snoc, hlen]
  simp only [List.length_append, Nat.add_assoc]

/-- A frame has 40 bytes at least. -/
theorem Archiver.frameStart_add (payloads : List Bytes) (i k : ℕ) (h : i + k ≤ payloads.length) :
    A.frameStart payloads i + 40 * k ≤ A.frameStart payloads (i + k) := by
  induction k with
  | zero => exact le_rfl
  | succ k ih =>
    have hp := List.getElem?_eq_getElem (l := payloads) (i := i + k) (by omega)
    have hlen := A.length_frame (i + k) payloads[i + k]
    have hover : 40 ≤ overhead payloads[i + k].length A.keyIndex := by
      unfold overhead headerLength
      omega
    have hrec := ih (by omega)
    rw [← Nat.add_assoc, Archiver.frameStart_succ hp]
    omega

theorem Archiver.frameStart_injective {j : ℕ} (hi : i ≤ payloads.length) (hj : j ≤ payloads.length)
    (h : A.frameStart payloads i = A.frameStart payloads j) : i = j := by
  rcases Nat.lt_trichotomy i j with hlt | heq | hgt
  · have hstep := A.frameStart_add payloads i (j - i) (by omega)
    rw [Nat.add_sub_cancel' hlt.le] at hstep
    omega
  · exact heq
  · have hstep := A.frameStart_add payloads j (i - j) (by omega)
    rw [Nat.add_sub_cancel' hgt.le] at hstep
    omega

theorem Archiver.length_front (A : Archiver) (payloads : List Bytes) (off : UInt64) (k : ℕ) :
    (A.head off ++ A.frames 0 (payloads.take k)).length = A.frameStart payloads k := by
  rw [Archiver.frameStart, List.length_append, List.length_append, A.length_head_eq off 0]

/-- The archive from the start of a frame on. -/
theorem Archiver.drop_frameStart (hp : payloads[i]? = some p) (off : UInt64) (tail : Bytes) :
    (A.head off ++ (A.frames 0 payloads ++ tail)).drop (A.frameStart payloads i) =
      A.frame i p ++ (A.frames (i + 1) (payloads.drop (i + 1)) ++ tail) := by
  rcases List.getElem?_eq_some_iff.mp hp with ⟨hi, hget⟩
  have hsplit : A.frames 0 payloads =
      A.frames 0 (payloads.take i) ++ (A.frame i p ++ A.frames (i + 1) (payloads.drop (i + 1))) := by
    rw [A.frames_take_drop payloads hi.le, List.drop_eq_getElem_cons hi, hget]
    rfl
  rw [hsplit]
  simp only [List.append_assoc]
  rw [← List.append_assoc, List.drop_left' (A.length_front payloads off i)]

end

/-- A message whose header parses and whose sequence field holds this number. -/
def CarriesSequence (message : Bytes) (seq : ℕ) : Prop :=
  ∃ h field, Header.parse message = .ok h ∧ h.getSequence message = .ok field ∧ beNat field = seq

/-- A frame carries its own sequence number and no other. -/
theorem carriesSequence_frame {i seq : ℕ} {p : Bytes} (hp : p.length ≤ A.chunkSize) (slack : Bytes) :
    CarriesSequence (A.frame i p ++ slack) seq ↔ seq = (A.sequence i).toNat := by
  have hL : p.length < 2 ^ 25 := lt_of_le_of_lt hp A.chunkSize_lt
  have hparse : Header.parse (A.frame i p ++ slack) = .ok (builtHeader p.length A.keyIndex 2) := by
    rw [Sealer.frame, Cipher.messageS2]
    simp only [List.append_assoc]
    exact parse_headerBytes _ hL A.keyIndex_lt (le_refl 2)
  have hseq : (builtHeader p.length A.keyIndex 2).getSequence (A.frame i p ++ slack) =
      .ok (beBytes 8 (A.sequence i).toNat) := Cipher.getSequence_messageS2 slack
  have hval : beNat (beBytes 8 (A.sequence i).toNat) = (A.sequence i).toNat := by
    rw [beNat_beBytes]
    exact Nat.mod_eq_of_lt (A.sequence i).toNat_lt
  constructor
  · rintro ⟨h, field, hh, hfield, rfl⟩
    obtain rfl := Except.ok.inj (hparse.symm.trans hh)
    obtain rfl := Except.ok.inj (hseq.symm.trans hfield)
    exact hval
  · rintro rfl
    exact ⟨_, _, hparse, hseq, hval⟩

/-! ## Seek points -/

/-- The frame with some index starts at `off` and carries sequence number `seq`. -/
def Archiver.FrameAt (A : Archiver) (payloads : List Bytes) (data : Bytes) (off seq : ℕ) : Prop :=
  ∃ i p, payloads[i]? = some p ∧ off = A.frameStart payloads i ∧
    slice data off (A.frame i p).length = A.frame i p ∧ CarriesSequence (data.drop off) seq

/-- The master header announces a seek table, and these are its points. -/
def WrittenTable (data : Bytes) (points : List SeekPoint) : Prop :=
  ∃ master, MasterHeader.parse (data.take MasterHeader.fixedSize) = .ok master ∧
    0 < master.seekTableOffset ∧ data.drop master.seekTableOffset.toNat = SeekTable.bytes points

/-- Every point of the written table denotes a frame, and offsets and indices do
not decrease. -/
def Archiver.PointsDenoteFrames (A : Archiver) (payloads : List Bytes) (data : Bytes) : Prop :=
  ∀ points, WrittenTable data points →
    (∀ pt ∈ points, A.FrameAt payloads data pt.fileOffset.toNat pt.frameIndex.toNat) ∧
    points.Pairwise (fun pt pt' => pt.fileOffset ≤ pt'.fileOffset ∧ pt.frameIndex ≤ pt'.frameIndex)

/-- The reader of a master header finds the writer's values. -/
theorem Archiver.parse_head (off : UInt64) (rest : Bytes) :
    MasterHeader.parse ((A.head off ++ rest).take MasterHeader.fixedSize) =
      .ok ⟨streamVersion, A.chunkSize, A.keyIndex, UInt16.ofNat (A.metadata.getD []).length, off⟩ := by
  have hfront : (A.head off ++ rest).take MasterHeader.fixedSize =
      masterBytes streamVersion A.chunkSize A.keyIndex (UInt16.ofNat (A.metadata.getD []).length)
        off := by
    rw [Archiver.head, List.append_assoc]
    exact List.take_left' (length_masterBytes _ _ _ _ _)
  have hc := A.chunkSize_lt
  have hk := A.keyIndex_lt
  rw [hfront]
  exact parse_masterBytes _ _ _ (by omega) (by omega) (by omega) (by omega)

/-- The table of a finished archive holds the recorded points. -/
theorem writtenTable_archive {a : ArchiveState} (hlong : (A.archive a).length < 2 ^ 63)
    {points : List SeekPoint} :
    WrittenTable (A.archive a) points ↔
      points = a.points ∧ A.seekable = true ∧ a.points ≠ [] ∧ 6 + a.points.length * 16 ≤ 0x7FFFFFC7 := by
  rcases A.archive_eq a hlong with ⟨off, table, harchive, hcase⟩
  have hparse := A.parse_head off (A.frames 0 a.framer.emit.frames ++ table)
  rw [← harchive] at hparse
  constructor
  · rintro ⟨master, hmaster, hpos, hdrop⟩
    obtain rfl := Except.ok.inj (hparse.symm.trans hmaster)
    rcases hcase with ⟨rfl, -, -⟩ | ⟨hoff, rfl, hexists⟩
    -- no table was written: the header's offset is zero
    · exact absurd hpos (UInt64.lt_irrefl 0)
    · have hfront : (A.head off ++ A.frames 0 a.framer.emit.frames).length = off.toNat := by
        rw [hoff, List.length_append, List.length_append, A.length_head_eq off 0]
      rw [harchive, ← List.append_assoc, List.drop_left' hfront] at hdrop
      exact ⟨(SeekTable.bytes_injective hdrop).symm, hexists⟩
  · rintro ⟨rfl, hexists⟩
    rcases hcase with ⟨-, -, hnone⟩ | ⟨hoff, rfl, -⟩
    · exact absurd hexists hnone
    · have hfront : (A.head off ++ A.frames 0 a.framer.emit.frames).length = off.toNat := by
        rw [hoff, List.length_append, List.length_append, A.length_head_eq off 0]
      refine ⟨_, hparse, ?_, ?_⟩
      · show 0 < off
        rw [UInt64.lt_iff_toNat_lt, hoff]
        simp only [List.length_append, Archiver.length_head]
        show 0 < _
        omega
      · rw [harchive, ← List.append_assoc, List.drop_left' hfront]

section

variable {payloads : List Bytes} {mark : Bool × ℕ} {pt : SeekPoint} {off : UInt64} {table : Bytes}

theorem Archiver.frameStart_le (payloads : List Bytes) (off : UInt64) (table : Bytes) (i : ℕ)
    (hi : i ≤ payloads.length) :
    A.frameStart payloads i + 40 * (payloads.length - i) ≤
      (A.head off ++ (A.frames 0 payloads ++ table)).length := by
  have hstep := A.frameStart_add payloads i (payloads.length - i) (by omega)
  have hend : A.frameStart payloads payloads.length = (A.head 0 ++ A.frames 0 payloads).length := by
    rw [Archiver.frameStart, List.take_length]
  rw [Nat.add_sub_cancel' hi, hend, List.length_append] at hstep
  rw [List.length_append, List.length_append, A.length_head_eq off 0]
  omega

/-- With the header there, a point has the offset of the next frame. -/
theorem Archiver.PointOf.start
    (hlong : (A.head off ++ (A.frames 0 payloads ++ table)).length < 2 ^ 63)
    (h : A.PointOf payloads mark pt) (htrue : mark.1 = true) :
    pt.fileOffset.toNat = A.frameStart payloads mark.2 := by
  rcases h with ⟨hlt, hoffset, -⟩
  have hle := A.frameStart_le payloads off table mark.2 hlt.le
  rw [hoffset, if_pos htrue, UInt64.toNat_ofNat']
  exact Nat.mod_eq_of_lt (by omega)

/-- A recorded point denotes a frame exactly if the header was there and the
sequence number was not cut. -/
theorem frameAt_pointOf (hbound : ∀ p ∈ payloads, p.length ≤ A.chunkSize)
    (hlong : (A.head off ++ (A.frames 0 payloads ++ table)).length < 2 ^ 63)
    (h : A.PointOf payloads mark pt) :
    A.FrameAt payloads (A.head off ++ (A.frames 0 payloads ++ table)) pt.fileOffset.toNat
        pt.frameIndex.toNat ↔
      mark.1 = true ∧ (A.sequence mark.2).toNat < 2 ^ 32 := by
  rcases h with ⟨hlt, hoffset, hindex⟩
  have hindexNat : pt.frameIndex.toNat = (A.sequence mark.2).toNat % 2 ^ 32 := by
    rw [hindex, UInt64.toNat_toUInt32]
  have hget : payloads[mark.2]? = some payloads[mark.2] := List.getElem?_eq_getElem hlt
  have hstart : mark.1 = true → pt.fileOffset.toNat = A.frameStart payloads mark.2 :=
    Archiver.PointOf.start hlong ⟨hlt, hoffset, hindex⟩
  have hcarries : ∀ (i : ℕ) (p : Bytes), payloads[i]? = some p → ∀ seq,
      CarriesSequence ((A.head off ++ (A.frames 0 payloads ++ table)).drop
        (A.frameStart payloads i)) seq ↔ seq = (A.sequence i).toNat := by
    intro i p hp seq
    rw [A.drop_frameStart hp]
    exact carriesSequence_frame (hbound p (List.mem_of_getElem? hp)) _
  constructor
  · rintro ⟨i, p, hp, hoff, -, hseq⟩
    have hi : i < payloads.length := (List.getElem?_eq_some_iff.mp hp).1
    have htrue : mark.1 = true := by
      by_contra hfalse
      -- no frame starts at offset zero: the header is there
      have hzero : pt.fileOffset.toNat = 0 := by
        rw [hoffset, if_neg hfalse]
        rfl
      rw [hzero, Archiver.frameStart, List.length_append, Archiver.length_head] at hoff
      omega
    have hsame : mark.2 = i :=
      Archiver.frameStart_injective hlt.le hi.le ((hstart htrue).symm.trans hoff)
    refine ⟨htrue, ?_⟩
    rw [hoff] at hseq
    have hnum := (hcarries i p hp _).mp hseq
    rw [hindexNat, hsame] at hnum
    rw [hsame, ← hnum]
    exact Nat.mod_lt _ (by omega)
  · rintro ⟨htrue, hsmall⟩
    refine ⟨mark.2, payloads[mark.2], hget, hstart htrue, ?_, ?_⟩
    · rw [hstart htrue, slice, A.drop_frameStart hget]
      exact List.take_left
    · rw [hstart htrue, hcarries mark.2 _ hget, hindexNat]
      exact Nat.mod_eq_of_lt hsmall

/-- Of two such points the later one has no smaller offset and no smaller index. -/
theorem pointOf_le {mark' : Bool × ℕ} {pt' : SeekPoint}
    (hlong : (A.head off ++ (A.frames 0 payloads ++ table)).length < 2 ^ 63)
    (h : A.PointOf payloads mark pt) (h' : A.PointOf payloads mark' pt')
    (hgood : mark.1 = true ∧ (A.sequence mark.2).toNat < 2 ^ 32)
    (hgood' : mark'.1 = true ∧ (A.sequence mark'.2).toNat < 2 ^ 32) (hle : mark.2 ≤ mark'.2) :
    pt.fileOffset ≤ pt'.fileOffset ∧ pt.frameIndex ≤ pt'.frameIndex := by
  rcases h with ⟨hlt, hoffset, hindex⟩
  rcases h' with ⟨hlt', hoffset', hindex'⟩
  have hend := A.frameStart_le payloads off table mark'.2 hlt'.le
  have hall := A.frameStart_le payloads off table 0 (Nat.zero_le _)
  have hstep := A.frameStart_add payloads mark.2 (mark'.2 - mark.2) (by omega)
  rw [Nat.add_sub_cancel' hle] at hstep
  constructor
  · rw [UInt64.le_iff_toNat_le, hoffset, hoffset', if_pos hgood.1, if_pos hgood'.1,
      UInt64.toNat_ofNat', UInt64.toNat_ofNat']
    omega
  · -- both numbers are below 2^32 and fewer than 2^64 frames are between them
    rcases hgood with ⟨-, hsmall⟩
    rcases hgood' with ⟨-, hsmall'⟩
    rw [UInt32.le_iff_toNat_le, hindex, hindex', UInt64.toNat_toUInt32, UInt64.toNat_toUInt32]
    simp only [Sealer.sequence, UInt64.toNat_add, UInt64.toNat_ofNat'] at hsmall hsmall' ⊢
    omega

end

/-- The recorded points denote frames exactly if every mark is good. -/
theorem points_denote_iff {payloads : List Bytes} {marks : List (Bool × ℕ)} {points : List SeekPoint}
    (off : UInt64) (table : Bytes) (hbound : ∀ p ∈ payloads, p.length ≤ A.chunkSize)
    (hlong : (A.head off ++ (A.frames 0 payloads ++ table)).length < 2 ^ 63)
    (hsorted : marks.Pairwise (fun m n => m.2 ≤ n.2))
    (h : List.Forall₂ (A.PointOf payloads) marks points) :
    ((∀ pt ∈ points, A.FrameAt payloads (A.head off ++ (A.frames 0 payloads ++ table))
        pt.fileOffset.toNat pt.frameIndex.toNat) ∧
      points.Pairwise (fun pt pt' => pt.fileOffset ≤ pt'.fileOffset ∧ pt.frameIndex ≤ pt'.frameIndex)) ↔
      ∀ mark ∈ marks, mark.1 = true ∧ (A.sequence mark.2).toNat < 2 ^ 32 := by
  induction h with
  | nil =>
    constructor
    · intro _ mark hmark
      cases hmark
    · intro _
      refine ⟨?_, List.Pairwise.nil⟩
      intro pt hpt
      cases hpt
  | @cons mark pt marks points hpoint hrest ih =>
    rcases List.pairwise_cons.mp hsorted with ⟨hfirst, hsorted'⟩
    have hat := frameAt_pointOf hbound hlong hpoint
    constructor
    · rintro ⟨hall, hpair⟩ m hm
      rcases List.mem_cons.mp hm with rfl | hm
      · exact hat.mp (hall pt List.mem_cons_self)
      · refine (ih hsorted').mp ⟨?_, (List.pairwise_cons.mp hpair).2⟩ m hm
        intro pt' hpt'
        exact hall pt' (List.mem_cons_of_mem _ hpt')
    · intro hgood
      have hgoodRest : ∀ m ∈ marks, m.1 = true ∧ (A.sequence m.2).toNat < 2 ^ 32 :=
        fun m hm => hgood m (List.mem_cons_of_mem _ hm)
      have hhead := hgood mark List.mem_cons_self
      rcases (ih hsorted').mpr hgoodRest with ⟨hall, hpair⟩
      refine ⟨?_, List.pairwise_cons.mpr ⟨?_, hpair⟩⟩
      · intro pt' hpt'
        rcases List.mem_cons.mp hpt' with rfl | hpt'
        · exact hat.mpr hhead
        · exact hall pt' hpt'
      · intro pt' hpt'
        -- later points come from later marks
        rcases List.mem_iff_getElem.mp hpt' with ⟨k, hk, rfl⟩
        have hk' : k < marks.length := by
          rw [hrest.length_eq]
          exact hk
        have hm := List.getElem_mem hk'
        exact pointOf_le hlong hpoint ((List.forall₂_iff_get.mp hrest).2 k hk' hk) hhead
          (hgoodRest marks[k] hm) (hfirst marks[k] hm)

/-- The table holds one point for each flush, if it is written at all: what holds of any
table that is written is what holds of these points, unless they are too many. -/
theorem written_points (hseek : A.seekable = true) (calls : List WriteCall)
    (hlong : (A.archive (A.run .initial calls)).length < 2 ^ 63) :
    ∃ pts, List.Forall₂ (A.PointOf (A.payloads calls)) (flushMarks A.chunkSize false 0 0 calls) pts ∧
      ∀ P : List SeekPoint → Prop, P [] →
        ((∀ points, WrittenTable (A.archive (A.run .initial calls)) points → P points) ↔
          0x7FFFFFC7 < 6 + calls.countP WriteCall.isFlush * 16 ∨ P pts) := by
  obtain ⟨pts, hpts, hmarks⟩ := points_marks hseek (A.payloads calls) calls .initial
    (Framer.inv_empty A.chunkSize_pos) (fun _ => rfl) rfl
  have hrun : (A.run .initial calls).points = pts := hpts
  have hlen : pts.length = calls.countP WriteCall.isFlush := by
    rw [← hrun, Archiver.length_points hseek]
    exact Nat.zero_add _
  refine ⟨pts, hmarks, ?_⟩
  intro P hnone
  -- no array holds so many points: Serialize throws and no table is written
  by_cases htable : 0x7FFFFFC7 < 6 + calls.countP WriteCall.isFlush * 16
  · refine iff_of_true ?_ (Or.inl htable)
    intro points hwritten
    have hfit := ((writtenTable_archive hlong).mp hwritten).2.2.2
    rw [hrun, hlen] at hfit
    omega
  rw [or_iff_right htable]
  constructor
  · intro hall
    by_cases hnil : pts = []
    · rw [hnil]
      exact hnone
    · refine hall pts ((writtenTable_archive hlong).mpr ?_)
      rw [hrun, hlen]
      exact ⟨rfl, hseek, hnil, by omega⟩
  · intro hpoints points hwritten
    have hsame := ((writtenTable_archive hlong).mp hwritten).1
    rw [hrun] at hsame
    rw [hsame]
    exact hpoints

/-- Calls with at least one `Write`, then `Dispose`, over an empty seekable sink:
every point of the written table denotes a frame, in order, exactly if there are
too many flushes for a table to be written at all, or at each flush a `Write` has
come before and the sequence number fits the 32-bit field of the point. -/
theorem seek_points_denote_frames (A : Archiver) (inner : InnerStream) (calls : List WriteCall)
    (hfresh : inner.Fresh A.seekable) (hseek : A.seekable = true)
    (hwrite : ∃ buffer, WriteCall.write buffer ∈ calls)
    (hlong : (A.archive (A.run .initial calls)).length < 2 ^ 63) :
    ∃ s, create inner .encrypt A.arguments = .ok s ∧
      (A.PointsDenoteFrames (A.payloads calls)
          (finalState (archiveCalls A.cipher A.random calls s)).innerStream.data ↔
        0x7FFFFFC7 < 6 + calls.countP WriteCall.isFlush * 16 ∨
          ∀ mark ∈ flushMarks A.chunkSize false 0 0 calls,
            mark.1 = true ∧ (A.sequence mark.2).toNat < 2 ^ 32) := by
  rcases archived hfresh calls hwrite with ⟨s, hcreate, hfinal⟩
  obtain ⟨pts, hmarks, hiff⟩ := written_points hseek calls hlong
  rcases A.archive_eq (A.run .initial calls) hlong with ⟨off, table, harchive, -⟩
  have hform : A.head off ++ (A.frames 0 (A.payloads calls) ++ table) =
      A.archive (A.run .initial calls) := harchive.symm
  have hdenote := points_denote_iff off table (A.length_payload calls) (harchive ▸ hlong)
    (flushMarks_sorted calls false 0 0).2 hmarks
  rw [hform] at hdenote
  refine ⟨s, hcreate, ?_⟩
  rw [hfinal, ← hdenote]
  exact hiff _ ⟨fun pt hpt => (List.not_mem_nil hpt).elim, List.Pairwise.nil⟩

/-- A flush between two writes. -/
theorem seek_points_denote_frames_between :
    ∃ s, create (InnerStream.sink true) .encrypt maskFour.arguments = .ok s ∧
      maskFour.PointsDenoteFrames (maskFour.payloads sixBytes)
        (finalState (archiveCalls maskFour.cipher maskFour.random
          sixBytes s)).innerStream.data := by
  obtain ⟨s, hcreate, hiff⟩ := seek_points_denote_frames maskFour
    (InnerStream.sink true) sixBytes (InnerStream.sink_fresh true) rfl ⟨[6], by simp [sixBytes]⟩ (by decide +kernel)
  exact ⟨s, hcreate, hiff.mpr (Or.inr (by decide +kernel))⟩

/-- A flush before the first write: its point has offset 0, where the master
header is. -/
theorem seek_point_before_first_write :
    ∃ s, create (InnerStream.sink true) .encrypt maskFour.arguments = .ok s ∧
      ¬ maskFour.PointsDenoteFrames
        (maskFour.payloads [.flushToFrame (some 100) 0, .write [1]])
        (finalState (archiveCalls maskFour.cipher maskFour.random
          [.flushToFrame (some 100) 0, .write [1]] s)).innerStream.data := by
  refine ⟨_, rfl, ?_⟩
  intro hdenote
  rcases hdenote [⟨100, 0, 0⟩] ⟨⟨1, 4, 5, 3, 66⟩, by decide +kernel⟩ with ⟨hall, -⟩
  rcases hall ⟨100, 0, 0⟩ List.mem_cons_self with ⟨i, p, -, hoff, -, -⟩
  rw [Archiver.frameStart, List.length_append, Archiver.length_head] at hoff
  have hzero : (0 : UInt64).toNat = 0 := rfl
  rw [hzero] at hoff
  omega

end

end ManagedSecurity

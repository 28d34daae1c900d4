import ManagedSecurity.UnstartedArchive

/-! # The frames of a run of calls

The calls of a writer amount to a sequence of bytes that is cut into segments at
the flushes. The frames of the archive are the blocks of the segments, with
consecutive sequence numbers: how the bytes were split over the calls of `Write`
does not matter.
-/

namespace ManagedSecurity

open Bytes Outcome ManagedSecurityStream

/-- The bytes written between the flushes. -/
def segments : List WriteCall → List Bytes
  | [] => [[]]
  | .write buffer :: calls => (segments calls).modifyHead (buffer ++ ·)
  | .flushToFrame _ _ :: calls => [] :: segments calls

/-- What is put in front of the first segment twice. -/
theorem modifyHead_front (xs ys : Bytes) (segs : List Bytes) :
    (segs.modifyHead (ys ++ ·)).modifyHead (xs ++ ·) = segs.modifyHead (xs ++ ys ++ ·) := by
  rw [List.modifyHead_modifyHead]
  congr 1
  funext zs
  exact (List.append_assoc _ _ _).symm

theorem segments_ne_nil (calls : List WriteCall) : segments calls ≠ [] := by
  induction calls with
  | nil => exact List.cons_ne_nil _ _
  | cons call calls ih =>
    cases call with
    | write buffer =>
      rw [segments, ← List.length_pos_iff, List.length_modifyHead, List.length_pos_iff]
      exact ih
    | flushToFrame timestampMs elapsedMs => exact List.cons_ne_nil _ _

section

variable {A : Archiver}

/-- A run from a state in which `frames` are complete and the segment has begun
with `bytes`. The induction is on the calls: a write lengthens the segment, a flush
ends it. -/
theorem Archiver.run_segments (calls : List WriteCall) :
    ∀ (a : ArchiveState) (frames : List Bytes) (bytes : Bytes),
      a.framer = (⟨frames, []⟩ : Framer UInt8).push A.chunkSize bytes →
      (A.run a calls).framer.emit.frames =
        frames ++ Framer.framed A.chunkSize ((segments calls).modifyHead (bytes ++ ·)) := by
  have hc := A.chunkSize_pos
  induction calls with
  | nil =>
    intro a frames bytes ha
    show a.framer.emit.frames = frames ++ Framer.framed A.chunkSize [bytes ++ []]
    rw [ha, Framer.emit_push_eq_blocks hc, List.append_nil]
  | cons call calls ih =>
    intro a frames bytes ha
    -- a write joins the segment that is open; a flush ends it
    cases call with
    | write buffer =>
      have hstep : (A.step a (.write buffer)).framer =
          (⟨frames, []⟩ : Framer UInt8).push A.chunkSize (bytes ++ buffer) := by
        rw [Framer.push_append, ← ha]
        rfl
      rw [segments, modifyHead_front]
      exact ih _ frames (bytes ++ buffer) hstep
    | flushToFrame timestampMs elapsedMs =>
      have hstep : (A.step a (.flushToFrame timestampMs elapsedMs)).framer =
          (⟨frames ++ Framer.blocks A.chunkSize bytes, []⟩ : Framer UInt8).push A.chunkSize [] := by
        show a.framer.flush = _
        rw [ha, Framer.flush_push_eq_blocks hc, Framer.push_nil]
      have hrest := ih _ _ [] hstep
      rcases List.exists_cons_of_ne_nil (segments_ne_nil calls) with ⟨segment, rest, hsegs⟩
      rw [hsegs, List.modifyHead_cons, List.nil_append] at hrest
      show (A.run (A.step a _) calls).framer.emit.frames = _
      rw [hrest, segments, hsegs, List.modifyHead_cons, List.append_nil, Framer.framed_cons_cons,
        List.append_assoc]

/-- The payloads of an archive are the frames of the segments. -/
theorem Archiver.payloads_eq (calls : List WriteCall) :
    A.payloads calls = Framer.framed A.chunkSize (segments calls) := by
  have hrun := Archiver.run_segments (A := A) calls .initial [] [] rfl
  rcases List.exists_cons_of_ne_nil (segments_ne_nil calls) with ⟨segment, rest, hsegs⟩
  rw [hsegs, List.modifyHead_cons, List.nil_append, List.nil_append] at hrun
  rw [Archiver.payloads, hsegs]
  exact hrun

/-- The frames of the calls that seal payloads are the frames of the payloads. -/
theorem Sealer.flatMap_frameOf (S : Sealer) (ps : List Bytes) :
    (S.calls ps).flatMap S.cipher.frameOf = S.frames 0 ps := by
  induction ps using List.reverseRecOn with
  | nil => rfl
  | append_singleton ps p ih =>
    rw [Sealer.calls_snoc, List.flatMap_append, ih, Sealer.frames_snoc, List.flatMap_singleton,
      Sealer.frameOf_call, Nat.zero_add]

theorem Sealer.map_plaintext (S : Sealer) (ps : List Bytes) :
    (S.calls ps).map GcmCall.plaintext = ps := by
  induction ps using List.reverseRecOn with
  | nil => rfl
  | append_singleton ps p ih =>
    rw [Sealer.calls_snoc, List.map_append, ih]
    rfl

/-- What `Dispose` leaves still shows every frame, unless the header goes over the
front of one. -/
theorem Archiver.leaves_frames (calls : List WriteCall)
    (h : (∃ buffer, WriteCall.write buffer ∈ calls) ∨ ¬ A.WritesTable calls) :
    ∃ front tail, A.leaves (A.run .initial calls) =
      front ++ (A.frames 0 (A.payloads calls) ++ tail) := by
  set a := A.run .initial calls with ha
  by_cases hstart : a.started = true
  · rw [Archiver.leaves_of_started hstart]
    unfold Archiver.archive
    split_ifs
    · split
      · exact ⟨_, _, rfl⟩
      · exact ⟨_, [], by rw [List.append_nil]; rfl⟩
    · exact ⟨_, [], by rw [List.append_nil]; rfl⟩
  · have hnone : ¬ ∃ buffer, WriteCall.write buffer ∈ calls := fun hwrite =>
      hstart (Archiver.run_started calls .initial (Or.inr hwrite))
    have htable := (Archiver.writesTable_iff (A := A) calls).not.mp (h.resolve_left hnone)
    rw [← ha] at htable
    have hbody : A.content { a with framer := a.framer.emit } = A.frames 0 (A.payloads calls) := by
      rw [Archiver.content, if_neg hstart]
      rfl
    refine ⟨[], [], ?_⟩
    rw [List.nil_append, List.append_nil, ← hbody]
    unfold Archiver.leaves
    split_ifs with hpoints
    · -- the table does not fit an array
      have hlong : 0x7FFFFFC7 < 6 + a.points.length * 16 := by
        by_contra hlt
        exact htable ⟨hpoints.1, hpoints.2, by omega⟩
      rcases SeekTable.serialize_eq_error a.points hlong with ⟨e, he⟩
      rw [he]
    · rfl

end

/-- The frames a run emits: their payloads are the blocks of the segments, the last
segment ends with a frame of its own, and the sequence numbers count up from the
first one. -/
theorem framing_specification (A : Archiver) (inner : InnerStream) (hfresh : inner.Fresh A.seekable)
    (calls : List WriteCall) :
    ∃ s, create inner .encrypt A.arguments = .ok s ∧
      ∃ w, finalState (archiveCalls A.cipher A.random calls s) = w ∧
        w.gcmCalls = A.calls (Framer.framed A.chunkSize (segments calls)) ∧
        w.gcmCalls.map GcmCall.plaintext = Framer.framed A.chunkSize (segments calls) ∧
        (∀ i g, w.gcmCalls[i]? = some g →
          CarriesSequence (A.cipher.frameOf g) ((A.first.toNat + i) % 2 ^ 64)) ∧
        ((∃ buffer, WriteCall.write buffer ∈ calls) ∨ ¬ A.WritesTable calls →
          ∃ front tail, w.innerStream.data =
            front ++ (w.gcmCalls.flatMap A.cipher.frameOf ++ tail)) := by
  rcases archiveCalls_leaves hfresh calls with ⟨s, hcreate, hcalls, hdata⟩
  have hpayloads : (A.run .initial calls).framer.emit.frames =
      Framer.framed A.chunkSize (segments calls) := Archiver.payloads_eq calls
  refine ⟨s, hcreate, _, rfl, ?_, ?_, ?_, ?_⟩
  · rw [hcalls, hpayloads]
  · rw [hcalls, hpayloads, Sealer.map_plaintext]
  · intro i g hg
    rw [hcalls, Sealer.calls, List.getElem?_mapIdx, Option.map_eq_some_iff] at hg
    rcases hg with ⟨p, hp, rfl⟩
    have hlen : p.length ≤ A.chunkSize :=
      Archiver.length_payload calls p (List.mem_of_getElem? hp)
    have hseq : (A.sequence i).toNat = (A.first.toNat + i) % 2 ^ 64 := by
      rw [Sealer.sequence, UInt64.toNat_add, UInt64.toNat_ofNat']
      omega
    have hcarries : CarriesSequence (A.frame i p ++ []) ((A.first.toNat + i) % 2 ^ 64) :=
      (carriesSequence_frame hlen []).mpr hseq.symm
    rw [List.append_nil] at hcarries
    rw [Sealer.frameOf_call]
    exact hcarries
  · intro h
    rcases Archiver.leaves_frames (A := A) calls h with ⟨front, tail, hleaves⟩
    refine ⟨front, tail, ?_⟩
    rw [hdata, hleaves, hcalls, Sealer.flatMap_frameOf]
    rfl

/-- Five bytes, a flush and a byte in chunks of four: a full frame, a short one, and
the last one. -/
theorem framing_specification_six :
    ∃ s, create (InnerStream.sink true) .encrypt maskFour.arguments = .ok s ∧
      (finalState (archiveCalls maskFour.cipher maskFour.random sixBytes s)).gcmCalls.map
        GcmCall.plaintext = [[1, 2, 3, 4], [5], [6]] := by
  rcases framing_specification maskFour (InnerStream.sink true) (InnerStream.sink_fresh true) sixBytes with
    ⟨s, hcreate, w, hw, -, hpayloads, -, -⟩
  refine ⟨s, hcreate, ?_⟩
  rw [hw, hpayloads]
  rfl

end ManagedSecurity

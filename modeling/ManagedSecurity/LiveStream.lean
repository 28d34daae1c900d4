import ManagedSecurity.Ingest

/-! # Forwarding live video (`HandleLiveStreamRequest`)

The loop copies what the video process writes to the encrypted response, and to a vault
file if recording is active. The first 16 KB are collected in a buffer of their own, so
that the client gets the whole init segment at once.

* `Forwarding.Conserves`: what was sent and what is held back is what was read, kept by
  every round;
* `live_forwarding_lossless`: when the loop ends, nothing is held back exactly if nothing
  was read or the buffer was sent.
-/

namespace ManagedSecurity.Sentinel

open Bytes ManagedSecurityStream

/-- The variables of the loop, and the calls on `cryptoStream` and on `vaultStream`, which
is there if recording is active. `totalRead` matters only as long as `firstChunk` holds. -/
structure Forwarding where
  firstChunk : Bool
  totalRead : ℕ
  headerBuffer : Bytes
  cryptoStream : List WriteCall
  vaultStream : Option (List WriteCall)

/-- The size of the buffer that is sent first. -/
def initSegmentSize : ℕ := 16384

section

variable (clock : ℕ → UInt32)

/-- Write the bytes to both streams and flush both. `clock` is the time that
`FlushToFrameAsync` takes, by the number of bytes read. -/
def Forwarding.send (f : Forwarding) (bytes : Bytes) : Forwarding :=
  let calls : List WriteCall := [.write bytes, .flushToFrame none (clock f.totalRead)]
  { f with
    cryptoStream := f.cryptoStream ++ calls
    vaultStream := f.vaultStream.map (· ++ calls) }

/-- One round of the loop. -/
def forwardRead (f : Forwarding) (buffer : Bytes) : Forwarding :=
  let f := { f with totalRead := f.totalRead + buffer.length }
  if f.firstChunk then
    let f := { f with headerBuffer := f.headerBuffer ++ buffer }
    if f.totalRead < initSegmentSize then
      f
    else
      { f.send clock f.headerBuffer with firstChunk := false }
  else
    f.send clock buffer

/-- The loop, up to the read that returns nothing. -/
def forwardReads : Forwarding → List Bytes → Forwarding
  | f, [] => f
  | f, buffer :: reads => if buffer = [] then f else forwardReads (forwardRead clock f buffer) reads

/-- The streams in front of the loop: the master header is written by an empty `Write`. -/
def Forwarding.initial (recording : Bool) : Forwarding where
  firstChunk := true
  totalRead := 0
  headerBuffer := []
  cryptoStream := [.write []]
  vaultStream := if recording then some [] else none

/-- `HandleLiveStreamRequest`, from the start of the video process on. -/
def handleLiveStreamRequest (recording : Bool) (reads : List Bytes) : Forwarding :=
  forwardReads clock (.initial recording) reads

end

/-! ## What is kept by every round -/

/-- The bytes written to each of the streams. -/
structure Forwarding.Sent (f : Forwarding) (bytes : Bytes) : Prop where
  live : writtenBytes f.cryptoStream = bytes
  vault : ∀ calls ∈ f.vaultStream, writtenBytes calls = bytes

/-- After `seen` has been read: it is held back whole, or it was sent whole. -/
inductive Forwarding.Conserves (f : Forwarding) (seen : Bytes) : Prop
  | collecting (first : f.firstChunk = true) (sent : f.Sent []) (held : f.headerBuffer = seen)
      (total : f.totalRead = seen.length) (short : seen.length < initSegmentSize)
  | forwarding (first : f.firstChunk = false) (sent : f.Sent seen)
      (long : initSegmentSize ≤ seen.length)

section

variable {f : Forwarding} {seen sent : Bytes}

theorem conserves_initial (recording : Bool) : (Forwarding.initial recording).Conserves [] := by
  apply Forwarding.Conserves.collecting
  · rfl
  · constructor
    · rfl
    · intro calls hcalls
      cases recording with
      | false => cases hcalls
      | true =>
        cases hcalls
        rfl
  · rfl
  · rfl
  · decide

theorem Forwarding.Sent.send (h : f.Sent sent) (clock : ℕ → UInt32) (bytes : Bytes) :
    (f.send clock bytes).Sent (sent ++ bytes) := by
  have hcalls : ∀ calls time, writtenBytes calls = sent →
      writtenBytes (calls ++ [.write bytes, .flushToFrame none time]) = sent ++ bytes := by
    intro calls time hsent
    rw [writtenBytes_append, hsent]
    show sent ++ (bytes ++ []) = _
    rw [List.append_nil]
  constructor
  · exact hcalls _ _ h.live
  · intro calls hmem
    rcases Option.map_eq_some_iff.mp hmem with ⟨before, hbefore, rfl⟩
    exact hcalls _ _ (h.vault before hbefore)

/-- One round: the read is collected, or everything is sent that was not sent before. -/
theorem forwardRead_conserves (h : f.Conserves seen) (clock : ℕ → UInt32) (buffer : Bytes) :
    (forwardRead clock f buffer).Conserves (seen ++ buffer) := by
  have hlength : (seen ++ buffer).length = seen.length + buffer.length := List.length_append
  cases h with
  | collecting first sent held total short =>
    by_cases hshort : f.totalRead + buffer.length < initSegmentSize
    · have hround : forwardRead clock f buffer = { f with
          totalRead := f.totalRead + buffer.length
          headerBuffer := f.headerBuffer ++ buffer } := by
        rw [forwardRead, if_pos first, if_pos hshort]
      rw [hround]
      apply Forwarding.Conserves.collecting
      · exact first
      · exact ⟨sent.live, sent.vault⟩
      · rw [held]
      · rw [hlength, total]
      · omega
    · have hround : forwardRead clock f buffer = { ({ f with
          totalRead := f.totalRead + buffer.length
          headerBuffer := f.headerBuffer ++ buffer } : Forwarding).send clock
            (f.headerBuffer ++ buffer) with firstChunk := false } := by
        rw [forwardRead, if_pos first, if_neg hshort]
      have hcollected : ({ f with
          totalRead := f.totalRead + buffer.length
          headerBuffer := f.headerBuffer ++ buffer } : Forwarding).Sent [] := ⟨sent.live, sent.vault⟩
      have hsent := hcollected.send clock (f.headerBuffer ++ buffer)
      rw [held, List.nil_append] at hsent
      rw [hround, held]
      apply Forwarding.Conserves.forwarding
      · rfl
      · exact ⟨hsent.live, hsent.vault⟩
      · omega
  | forwarding first sent long =>
    have hfirst : ¬ f.firstChunk = true := by
      rw [first]
      decide
    have hround : forwardRead clock f buffer =
        ({ f with totalRead := f.totalRead + buffer.length } : Forwarding).send clock buffer := by
      rw [forwardRead, if_neg hfirst]
    rw [hround]
    apply Forwarding.Conserves.forwarding
    · exact first
    · have hcounted : ({ f with totalRead := f.totalRead + buffer.length } : Forwarding).Sent seen :=
        ⟨sent.live, sent.vault⟩
      exact hcounted.send clock buffer
    · omega

/-- The whole loop. -/
theorem forwardReads_conserves (clock : ℕ → UInt32) (reads : List Bytes)
    (hne : ∀ buffer ∈ reads, buffer ≠ []) :
    ∀ {f : Forwarding} {seen : Bytes}, f.Conserves seen →
      (forwardReads clock f reads).Conserves (seen ++ reads.flatten) := by
  induction reads with
  | nil =>
    intro f seen h
    rw [List.flatten_nil, List.append_nil]
    exact h
  | cons buffer reads ih =>
    intro f seen h
    rw [forwardReads, if_neg (hne buffer List.mem_cons_self), List.flatten_cons, ← List.append_assoc]
    apply ih
    · intro b hb
      exact hne b (List.mem_cons_of_mem _ hb)
    · exact forwardRead_conserves h clock buffer

/-- In the end everything was sent, or it was too short to be sent. -/
theorem Forwarding.Conserves.sent_iff (h : f.Conserves seen) :
    f.Sent seen ↔ seen = [] ∨ initSegmentSize ≤ seen.length := by
  cases h with
  | collecting first sent held total short =>
    constructor
    · intro hsent
      exact .inl (hsent.live.symm.trans sent.live)
    · rintro (rfl | hlong)
      · exact sent
      · omega
  | forwarding first sent long =>
    constructor
    · exact fun _ => .inr long
    · exact fun _ => sent

end

/-- With reads that are not empty, both streams get exactly what was read if and only if
that was nothing or at least the size of the init segment. -/
theorem live_forwarding_lossless (clock : ℕ → UInt32) (recording : Bool) (reads : List Bytes)
    (hne : ∀ buffer ∈ reads, buffer ≠ []) :
    (handleLiveStreamRequest clock recording reads).Sent reads.flatten ↔
      reads.flatten = [] ∨ 16384 ≤ reads.flatten.length := by
  have hconserves := forwardReads_conserves clock reads hne (conserves_initial recording)
  rw [List.nil_append] at hconserves
  exact hconserves.sent_iff

/-- Two reads that reach the size together. -/
theorem live_forwarding_lossless_two :
    (handleLiveStreamRequest (fun _ => 0) true
      [List.replicate 10000 1, List.replicate 10000 2]).Sent
        [List.replicate 10000 1, List.replicate 10000 2].flatten := by
  apply (live_forwarding_lossless (fun _ => 0) true [List.replicate 10000 1, List.replicate 10000 2]
    ?_).mpr
  · right
    simp only [List.flatten_cons, List.flatten_nil, List.length_append, List.length_replicate,
      List.length_nil]
    decide
  · intro buffer hbuffer
    rintro rfl
    simp only [List.mem_cons, List.not_mem_nil, or_false] at hbuffer
    rcases hbuffer with h | h
    · exact absurd (congrArg List.length h) (by rw [List.length_replicate]; decide)
    · exact absurd (congrArg List.length h) (by rw [List.length_replicate]; decide)

/-- Three bytes of video are neither forwarded nor recorded. -/
theorem live_forwarding_loses :
    ¬ (handleLiveStreamRequest (fun _ => 0) true [[1, 2, 3]]).Sent [[1, 2, 3]].flatten := by
  intro hsent
  have hlive : ([] : Bytes) = [1, 2, 3] := hsent.live
  cases hlive

end ManagedSecurity.Sentinel

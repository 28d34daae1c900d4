import ManagedSecurity.ArchiveReading
import ManagedSecurity.ReadTermination

/-! # Metadata of any length

The master header announces the length of the metadata in 16 bits, and the writer puts the
whole array behind it whenever these are not all zero.

* `read_metadata`: behind the master header no call changes the metadata;
* `metadata_kept_or_refused`: exactly when a reader restores them and what was written.
-/

namespace ManagedSecurity

open Bytes Outcome ManagedSecurityStream

/-- Readers with the writer's chunk size and key index report its metadata, unless these
are empty, and return these bytes in reads of any sizes. -/
def Archiver.Restores (A : Archiver) (data written : Bytes) : Prop :=
  ∀ (inner : InnerStream) (args : StreamArguments) (sizes : List ℕ),
    inner.Presents data inner.seekable → args.chunkSize = A.chunkSize →
    args.keyIndex = A.keyIndex → args.skipMasterHeader = false → args.initialSequence = A.first →
    (∀ n ∈ sizes, 0 < n) →
    ∃ s outs s', create inner .decrypt args = .ok s ∧
      attempts (read A.cipher) sizes s = (outs.map .ok, s') ∧ Delivers written outs ∧
      (sizes ≠ [] → A.metadata.getD [] ≠ [] → s'.metadata = A.metadata)

/-- The constructor or the first of these writes throws, or readers restore the metadata and
the bytes from what the writes and `Dispose` leave. -/
def Archiver.KeepsOrRefuses (A : Archiver) (sink : InnerStream) (buffers : List Bytes) : Prop :=
  (∃ e, create sink .encrypt A.arguments = .error e) ∨
    ∃ w, create sink .encrypt A.arguments = .ok w ∧
      ((∃ e w', write A.cipher A.random (buffers.headD []) w = .error e w') ∨
        A.Restores (finalState (archiveCalls A.cipher A.random (buffers.map .write)
          w)).innerStream.data buffers.flatten)

section

variable {A : Archiver}

/-- Writes record no seek points. -/
theorem Archiver.run_writes_points (buffers : List Bytes) :
    ∀ a : ArchiveState, (A.run a (buffers.map .write)).points = a.points := by
  induction buffers with
  | nil =>
    intro a
    rfl
  | cons buffer buffers ih =>
    intro a
    exact ih (A.step a (.write buffer))

theorem writtenBytes_writes (buffers : List Bytes) :
    writtenBytes (buffers.map .write) = buffers.flatten := by
  rw [writtenBytes, List.flatMap_map]
  exact List.flatMap_id

/-- What the writes and `Dispose` leave: the header and the frames, and no table. -/
theorem Archiver.archive_writes (buffers : List Bytes) :
    A.archive (A.run .initial (buffers.map .write)) =
      A.head 0 ++ (A.frames 0 (A.payloads (buffers.map .write)) ++ []) := by
  have hnone : ¬ (A.seekable = true ∧ (A.run .initial (buffers.map .write)).points ≠ []) := by
    rintro ⟨-, hpoints⟩
    exact hpoints (A.run_writes_points buffers .initial)
  rw [Archiver.archive, if_neg hnone, List.append_nil]
  rfl

/-- Metadata that fit the length field are restored. -/
theorem Archiver.restores_fitting {buffers : List Bytes} {data : Bytes}
    (hinv : A.cipher.crypto.Inverts)
    (hdata : data = A.head 0 ++ (A.frames 0 (A.payloads (buffers.map .write)) ++ []))
    (hm : (A.metadata.getD []).length ≤ 65535) : A.Restores data buffers.flatten := by
  intro inner args sizes hinner hchunk hkey hskip hseq hsizes
  rcases create_reader A inner args hchunk hkey with ⟨s, hreader, hbuffer⟩
  have hfour : 4 ≤ s.buffer.length := by
    rw [hbuffer, overhead, headerLength]
    omega
  have hwritten : (A.payloads (buffers.map .write)).flatten = buffers.flatten := by
    rw [A.flatten_payloads, writtenBytes_writes]
  obtain ⟨outs, s', hrun, hdelivers, -, hmetadata⟩ := reads_to_end hinv hreader hinner.opened
    hinner.start (hinner.data.trans hdata) hm hskip hseq
    (by rw [hbuffer]; exact A.fits_payload (buffers.map .write)) (.inl rfl) (.inl ⟨rfl, hfour⟩) hsizes
  rw [hwritten] at hdelivers
  exact ⟨s, outs, s', hreader, hrun, hdelivers, hmetadata⟩

/-- Behind the master header no call changes the metadata. -/
theorem read_metadata (c : Cipher) (count : ℕ) {s : ManagedSecurityStream}
    (hheader : s.isHeaderProcessed = true) :
    Sat (read c count s) (fun _ s' => s'.metadata = s.metadata) (fun _ _ => True) := by
  rw [ManagedSecurityStream.read, get_bind, sat_bind, sat_ensure]
  refine ⟨fun _ => ?_, fun _ => trivial⟩
  rw [runIf_false (by rw [hheader]; exact Bool.noConfusion), pure_bind_run, get_bind]
  have hfuel : s.innerStream.rest.length + (count - ([] : Bytes).length) < s.readFuel count := by
    rw [List.length_nil, readFuel]
    omega
  have hloop := readLoop_step (fun _ => trivial) (tryReadNextFrame_step c.raises_any) count
    (s.readFuel count) [] s hfuel
  exact hloop.mono (fun _ _ h => h.2.1) (fun _ _ _ => trivial)

/-- A reader takes over as many bytes of metadata as the field announces. -/
theorem Archiver.restores_length {data rest written : Bytes} (hdata : data = A.head 0 ++ rest)
    (h : A.Restores data written) : (A.metadata.getD []).length ≤ 65535 := by
  by_contra hlong
  set m := A.metadata.getD [] with hm
  have hne : m ≠ [] := by
    intro hnil
    rw [hnil, List.length_nil] at hlong
    omega
  have hsome : A.metadata = some m := by
    cases hmeta : A.metadata with
    | none =>
      rw [hm, hmeta] at hne
      exact absurd rfl hne
    | some m' =>
      rw [hm, hmeta]
      rfl
  -- one read of one byte is enough
  obtain ⟨s, outs, s', hcreate, hrun, -, hmetadata⟩ := h (.source data 0)
    { chunkSize := A.chunkSize, keyIndex := A.keyIndex, initialSequence := A.first } [1]
    ⟨rfl, rfl, rfl, rfl⟩ rfl rfl rfl rfl (by decide)
  replace hmetadata : s'.metadata = some m := (hmetadata (List.cons_ne_nil _ _) hne).trans hsome
  rcases create_inv hcreate with ⟨size, -, -, hs⟩
  have hopen : s.innerStream.closed = false := by
    rw [hs]
    rfl
  have hrest : s.innerStream.rest = A.head 0 ++ rest := by
    rw [hs]
    exact hdata
  rcases readProtocolHeader_announced hopen hrest rfl with ⟨k, hheader⟩
  have hafter := read_after_header A.cipher 1 (by rw [hs]) (by rw [hs]) hheader (by rw [hs])
  have hkept := read_metadata A.cipher 1 (s := { s with
    innerStream := s.innerStream.advance (22 + (UInt16.ofNat m.length).toNat) k
    seekTableOffset := 0
    chunkSize := A.chunkSize
    metadata := if (UInt16.ofNat m.length).toNat = 0 then s.metadata
      else some (m.take (UInt16.ofNat m.length).toNat)
    isHeaderProcessed := true }) rfl
  rw [← hafter] at hkept
  cases hread : read A.cipher 1 s with
  | error e s₁ =>
    rw [attempts_error hread] at hrun
    cases outs with
    | nil => cases hrun
    | cons out outs => cases hrun
  | ok out s₁ =>
    rw [attempts_ok hread] at hrun
    obtain rfl : s₁ = s' := congrArg Prod.snd hrun
    rw [hread, sat_ok] at hkept
    have hshort : (UInt16.ofNat m.length).toNat < m.length := by
      rw [UInt16.toNat_ofNat']
      omega
    have hnone : s.metadata = none := by rw [hs]
    simp only [hmetadata, hnone] at hkept
    split_ifs at hkept
    have hlen := congrArg List.length (Option.some.inj hkept)
    rw [List.length_take] at hlen
    omega

/-- The header and the frames are what the writes leave. -/
theorem archived_writes {sink : InnerStream} {buffers : List Bytes} (hfresh : sink.Fresh A.seekable)
    (hne : buffers ≠ []) :
    ∃ w, create sink .encrypt A.arguments = .ok w ∧
      (finalState (archiveCalls A.cipher A.random (buffers.map .write) w)).innerStream.data =
        A.head 0 ++ (A.frames 0 (A.payloads (buffers.map .write)) ++ []) := by
  have hwrite : ∃ buffer, WriteCall.write buffer ∈ buffers.map WriteCall.write := by
    rcases List.exists_mem_of_ne_nil buffers hne with ⟨buffer, hmem⟩
    exact ⟨buffer, List.mem_map_of_mem hmem⟩
  rw [← A.archive_writes]
  exact archived hfresh (buffers.map .write) hwrite

/-- Nothing is refused over such a sink, so that what is kept fits the field. -/
theorem Archiver.KeepsOrRefuses.fits {sink : InnerStream} {buffers : List Bytes}
    (hfresh : sink.Fresh A.seekable) (hne : buffers ≠ []) (h : A.KeepsOrRefuses sink buffers) :
    (A.metadata.getD []).length ≤ 65535 := by
  rcases archived_writes hfresh hne with ⟨w, hcreate, hfinal⟩
  rcases h with ⟨e, hthrow⟩ | ⟨w₁, hcreate₁, ⟨e, w', hthrow⟩ | hrestores⟩
  · cases hcreate.symm.trans hthrow
  · rcases create_writes (A := A) hfresh with ⟨w₂, hcreate₂, hwrites⟩
    obtain rfl : w₁ = w₂ := Except.ok.inj (hcreate₁.symm.trans hcreate₂)
    rcases write_refines hwrites (buffers.headD []) with ⟨w₃, hok, -⟩
    cases hok.symm.trans hthrow
  · obtain rfl : w = w₁ := Except.ok.inj (hcreate.symm.trans hcreate₁)
    exact Archiver.restores_length hfinal hrestores

end

/-- Metadata are stored faithfully or refused exactly if their length fits 16 bits. -/
theorem metadata_kept_or_refused (A : Archiver) (sink : InnerStream) (buffers : List Bytes)
    (hinv : A.cipher.crypto.Inverts) (hfresh : sink.Fresh A.seekable) (hne : buffers ≠ []) :
    A.KeepsOrRefuses sink buffers ↔ (A.metadata.getD []).length ≤ 65535 := by
  constructor
  · intro hkeeps
    exact hkeeps.fits hfresh hne
  · intro hm
    rcases archived_writes hfresh hne with ⟨w, hcreate, hfinal⟩
    exact .inr ⟨w, hcreate, .inr (Archiver.restores_fitting hinv hfinal hm)⟩

/-- Three bytes of metadata. -/
theorem metadata_kept_or_refused_three :
    maskFour.KeepsOrRefuses (.sink true) [[1, 2, 3, 4, 5], [6]] := by
  apply (metadata_kept_or_refused maskFour (.sink true) [[1, 2, 3, 4, 5], [6]] maskCrypto_inverts
    (InnerStream.sink_fresh true) (List.cons_ne_nil _ _)).mpr
  decide

/-- The same writer with metadata whose length needs 17 bits. -/
def maskLong : Archiver := { maskFour with metadata := some (List.replicate 65536 0) }

/-- They are announced as none. -/
theorem metadata_lost : ¬ maskLong.KeepsOrRefuses (.sink true) [[1]] := by
  intro hkeeps
  have hfits := hkeeps.fits (InnerStream.sink_fresh true) (List.cons_ne_nil _ _)
  have hlength : (maskLong.metadata.getD []).length = 65536 := List.length_replicate
  omega

end ManagedSecurity

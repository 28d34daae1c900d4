import ManagedSecurity.Seekability

/-! # Which finished archives are well formed

* `Archiver.WellFormed`: header, metadata, whole frames, and the seek table at the
  offset in the header;
* `finished_archive_wellFormed`: for which runs a writer leaves such an archive,
  from which readers get back what was written.
-/

namespace ManagedSecurity

open Bytes Outcome ManagedSecurityStream

/-- A valid master header with the writer's values, the metadata it announces, whole
frames, and the seek table where the header says it is, if there is one. -/
def Archiver.WellFormed (A : Archiver) (data : Bytes) : Prop :=
  ∃ (metadataLength : UInt16) (off : UInt64) (payloads : List Bytes) (table : Bytes),
    MasterHeader.parse (data.take MasterHeader.fixedSize) =
      .ok ⟨streamVersion, A.chunkSize, A.keyIndex, metadataLength, off⟩ ∧
    metadataLength.toNat = (A.metadata.getD []).length ∧
    data.drop MasterHeader.fixedSize = A.metadata.getD [] ++ (A.frames 0 payloads ++ table) ∧
    ((off = 0 ∧ table = []) ∨
      (off.toNat + table.length = data.length ∧
        ∃ points, points ≠ [] ∧ table = SeekTable.bytes points))

section

variable {A : Archiver} {data : Bytes} {off : UInt64} {payloads : List Bytes} {table : Bytes}

theorem Archiver.wellFormed_of_form (hdata : data = A.head off ++ (A.frames 0 payloads ++ table))
    (hm : (A.metadata.getD []).length ≤ 65535)
    (htable : (off = 0 ∧ table = []) ∨ (off.toNat + table.length = data.length ∧
      ∃ points, points ≠ [] ∧ table = SeekTable.bytes points)) : A.WellFormed data := by
  have hparse := A.parse_head off (A.frames 0 payloads ++ table)
  rw [← hdata] at hparse
  refine ⟨_, off, payloads, table, hparse, ?_, ?_, htable⟩
  · rw [UInt16.toNat_ofNat']
    exact Nat.mod_eq_of_lt (by omega)
  · rw [hdata, A.head_eq hm, List.append_assoc]
    exact List.drop_left' (length_masterBytes _ _ _ _ _)

/-- The length field has 16 bits. -/
theorem Archiver.WellFormed.metadata_le (h : A.WellFormed data) :
    (A.metadata.getD []).length ≤ 65535 := by
  obtain ⟨metadataLength, -, -, -, -, hlen, -⟩ := h
  have hlt := metadataLength.toNat_lt
  omega

/-- A header written over the front of an empty frame and a table: what follows the
metadata are whole frames only if the metadata end where the frame does. -/
theorem Archiver.WellFormed.covers {rest : Bytes} (h : A.WellFormed data) (hdata : data = A.head off ++ rest)
    (hoff : off.toNat = overhead 0 A.keyIndex) :
    22 + (A.metadata.getD []).length = overhead 0 A.keyIndex := by
  have hm := h.metadata_le
  obtain ⟨metadataLength, off', payloads, table, hparse, -, hdrop, htable⟩ := h
  have hmaster := A.parse_head off rest
  rw [← hdata, hparse] at hmaster
  obtain rfl : off' = off := congrArg MasterHeader.seekTableOffset (Except.ok.inj hmaster)
  have hpos : 0 < overhead 0 A.keyIndex := by
    rw [overhead]
    omega
  have hne : ¬ (off' = 0 ∧ table = []) := by
    rintro ⟨rfl, -⟩
    have hzero : (0 : UInt64).toNat = 0 := rfl
    omega
  rcases htable.resolve_left hne with ⟨hend, -⟩
  have hlen := congrArg List.length hdrop
  have hlong : 22 ≤ data.length := by
    rw [hdata, List.length_append, Archiver.length_head]
    omega
  rw [List.length_drop, List.length_append, List.length_append] at hlen
  have htotal : data.length - 22 = (A.metadata.getD []).length +
      ((A.frames 0 payloads).length + table.length) := hlen
  cases payloads with
  | nil =>
    have hnil : (A.frames 0 []).length = 0 := rfl
    omega
  | cons p ps =>
    -- any frame is as long as the empty one
    have hframe : overhead 0 A.keyIndex ≤ (A.frames 0 (p :: ps)).length := by
      show _ ≤ (A.frame 0 p ++ _).length
      rw [List.length_append, A.length_frame]
      have hmono := overhead_mono A.keyIndex (Nat.zero_le p.length)
      omega
    omega

end

/-- For which calls a writer leaves a well-formed archive: some call writes, or the
header that `Dispose` writes over the empty frame happens to cover it. -/
def Archiver.StartsArchive (A : Archiver) (calls : List WriteCall) : Prop :=
  (∃ buffer, WriteCall.write buffer ∈ calls) ∨
    (A.WritesTable calls ∧ 22 + (A.metadata.getD []).length = overhead 0 A.keyIndex)

section

variable {A : Archiver} {calls : List WriteCall}

/-- What such a writer leaves. -/
theorem Archiver.StartsArchive.form (hstart : A.StartsArchive calls)
    (hm : (A.metadata.getD []).length ≤ 65535)
    (hlong : (A.archive (A.run .initial calls)).length < 2 ^ 63) :
    ∃ off payloads table, A.leaves (A.run .initial calls) = A.head off ++ (A.frames 0 payloads ++ table) ∧
      payloads.flatten = writtenBytes calls ∧
      (∀ p ∈ payloads, p.length < 2 ^ 25 ∧
        overhead p.length A.keyIndex + p.length ≤ overhead A.chunkSize A.keyIndex + A.chunkSize) ∧
      ((off = 0 ∧ table = [] ∧ ¬ A.WritesTable calls) ∨
        (off.toNat = (A.head 0 ++ A.frames 0 payloads).length ∧ A.WritesTable calls ∧
          table = SeekTable.bytes (A.run .initial calls).points)) := by
  by_cases hwrite : ∃ buffer, WriteCall.write buffer ∈ calls
  · rw [Archiver.leaves_of_started (Archiver.run_started calls .initial (Or.inr hwrite))]
    rcases A.archive_eq (A.run .initial calls) hlong with ⟨off, table, hform, hcase⟩
    refine ⟨off, A.payloads calls, table, hform, A.flatten_payloads calls, A.fits_payload calls, ?_⟩
    rw [A.writesTable_iff calls]
    rcases hcase with ⟨hoff, htable, hno⟩ | ⟨hoff, htable, hyes⟩
    · exact Or.inl ⟨hoff, htable, hno⟩
    · exact Or.inr ⟨hoff, hyes, htable⟩
  · rcases hstart.resolve_left hwrite with ⟨hwt, hcovers⟩
    -- nothing was written: the header comes last and covers the empty frame exactly
    have hnone : ∀ buffer, WriteCall.write buffer ∉ calls := not_exists.mp hwrite
    have hheadLen : (A.head 0).length = overhead 0 A.keyIndex := by
      rw [A.head_eq hm, List.length_append, length_masterBytes, hcovers]
    refine ⟨UInt64.ofNat (overhead 0 A.keyIndex), [], SeekTable.bytes (A.run .initial calls).points, ?_,
      (writtenBytes_unstarted hnone).symm, ?_, Or.inr ⟨?_, hwt, rfl⟩⟩
    · rw [(Archiver.leaves_unstarted hnone).2 hwt]
      congr 1
      exact List.drop_left' ((A.length_frame 0 []).trans hheadLen.symm)
    · intro p hp
      cases hp
    · have hframes : A.frames 0 [] = [] := rfl
      have hext := extCount_le A.keyIndex
      have hzero : extCount 0 = 0 := rfl
      rw [hframes, List.append_nil, hheadLen, UInt64.toNat_ofNat']
      apply Nat.mod_eq_of_lt
      rw [overhead, headerLength, hzero]
      omega

/-- Any other writer leaves an archive that is not well formed. -/
theorem Archiver.startsArchive_of_wellFormed (h : A.WellFormed (A.leaves (A.run .initial calls))) :
    A.StartsArchive calls := by
  by_cases hwrite : ∃ buffer, WriteCall.write buffer ∈ calls
  · exact Or.inl hwrite
  have hnone : ∀ buffer, WriteCall.write buffer ∉ calls := not_exists.mp hwrite
  rcases Archiver.leaves_unstarted (A := A) hnone with ⟨hplain, htabled⟩
  by_cases hwt : A.WritesTable calls
  · refine Or.inr ⟨hwt, h.covers (htabled hwt) ?_⟩
    have hext := extCount_le A.keyIndex
    have hzero : extCount 0 = 0 := rfl
    rw [UInt64.toNat_ofNat']
    apply Nat.mod_eq_of_lt
    rw [overhead, headerLength, hzero]
    omega
  · -- the archive begins with a frame
    rw [hplain hwt] at h
    obtain ⟨e, hparse⟩ := A.parse_frame 0 (p := []) (by decide) []
    rw [List.append_nil] at hparse
    obtain ⟨metadataLength, off, payloads, table, hmaster, -⟩ := h
    rw [hparse] at hmaster
    cases hmaster

end

/-- Any calls, asynchronous or not, and the end of the archive, over an empty sink.
What is in the sink is a well-formed archive from which readers that can seek, or
cannot, get back what was written, exactly if the metadata fit their length field,
some call writes (or `Dispose` happens to make up for it), and there is no seek table
in the way of a reader that cannot seek. -/
theorem finished_archive_wellFormed (A : Archiver) (asyncEncryptor : Option AsyncEncryptor)
    (sink : InnerStream) (calls : List (Bool × WriteCall)) (async seekable : Bool)
    (hinv : A.cipher.crypto.Inverts)
    (hkernel : ∀ kernel ∈ asyncEncryptor, kernel.SealsAs A.cipher A.random)
    (hfresh : sink.Fresh A.seekable)
    (hlong : (A.archive (A.run .initial (calls.map Prod.snd))).length < 2 ^ 63) :
    ∃ w data, create sink .encrypt A.arguments = .ok w ∧
      data = (finalState (mixedArchiveCalls A.cipher asyncEncryptor A.random calls async
        w)).innerStream.data ∧
      (A.WellFormed data ∧ A.ReadsBack seekable data (writtenBytes (calls.map Prod.snd)) ↔
        (A.metadata.getD []).length ≤ 65535 ∧ A.StartsArchive (calls.map Prod.snd) ∧
          (seekable = true ∨ ¬ A.WritesTable (calls.map Prod.snd))) := by
  rcases create_writes hfresh with ⟨w, hcreate, hwrites⟩
  rcases archiveCalls_leaves hfresh (calls.map Prod.snd) with ⟨w', hcreate', -, hdata⟩
  obtain rfl := Except.ok.inj (hcreate.symm.trans hcreate')
  rw [← mixedArchiveCalls_eq hkernel hwrites calls async] at hdata
  generalize calls.map Prod.snd = calls at hlong hdata ⊢
  refine ⟨w, _, hcreate, hdata.symm, ?_⟩
  constructor
  · rintro ⟨hwell, hback⟩
    have hm := hwell.metadata_le
    have hstart := Archiver.startsArchive_of_wellFormed hwell
    refine ⟨hm, hstart, ?_⟩
    by_contra hno
    rcases not_or.mp hno with ⟨hseek, hwt⟩
    obtain rfl := Bool.eq_false_iff.mpr hseek
    rw [not_not] at hwt
    obtain ⟨off, payloads, table, hform, -, hfits, hcase⟩ := hstart.form hm hlong
    rcases hcase with ⟨-, -, hnone⟩ | ⟨-, -, rfl⟩
    · exact hnone hwt
    -- a reader that cannot seek takes the table for a frame and throws
    obtain ⟨s', sizes, hs', hsizes, hthrows⟩ := Archiver.throws_at_table hinv hform hm hfits
    obtain ⟨s, outs, t, hs, hrun, -⟩ := hback (.byteByByte _ false) A.readerArguments sizes
      ⟨rfl, rfl, rfl, rfl⟩ rfl rfl rfl rfl hsizes
    obtain rfl := Except.ok.inj (hs.symm.trans hs')
    exact hthrows outs (congrArg Prod.fst hrun)
  · rintro ⟨hm, hstart, hreader⟩
    obtain ⟨off, payloads, table, hform, hwritten, hfits, hcase⟩ := hstart.form hm hlong
    rw [← hwritten]
    rcases hcase with ⟨rfl, rfl, -⟩ | ⟨hoff, hwt, rfl⟩
    · exact ⟨Archiver.wellFormed_of_form hform hm (Or.inl ⟨rfl, rfl⟩),
        Archiver.readsBack_of_form hinv hform hm hfits (Or.inl rfl) (Or.inl rfl)⟩
    -- the table is the archive's end, so a reader that seeks stops before it
    · have hend : 0 < off ∧ off.toNat + (SeekTable.bytes (A.run .initial calls).points).length =
          (A.leaves (A.run .initial calls)).length := by
        rw [UInt64.lt_iff_toNat_lt, hoff, hform]
        simp only [List.length_append, Archiver.length_head]
        constructor
        · show 0 < _
          omega
        · omega
      have hseek : seekable = true := hreader.resolve_right (not_not.mpr hwt)
      have hne := ((A.writesTable_iff calls).mp hwt).2.1
      exact ⟨Archiver.wellFormed_of_form hform hm (Or.inr ⟨hend.2, _, hne, rfl⟩),
        Archiver.readsBack_of_form hinv hform hm hfits (Or.inr hoff.ge) (Or.inr ⟨hseek, hend⟩)⟩

/-- A run with both kinds of calls and a flush, for a reader that can seek. -/
theorem finished_archive_wellFormed_six :
    ∃ w data, create (InnerStream.sink true) .encrypt maskFour.arguments = .ok w ∧
      data = (finalState (mixedArchiveCalls maskFour.cipher none maskFour.random
        [(false, .write [1, 2, 3, 4, 5]), (true, .flushToFrame none 7), (true, .write [6])] true
        w)).innerStream.data ∧
      maskFour.WellFormed data ∧ maskFour.ReadsBack true data [1, 2, 3, 4, 5, 6] := by
  obtain ⟨w, data, hcreate, hdata, hiff⟩ := finished_archive_wellFormed maskFour none
    (InnerStream.sink true)
    [(false, .write [1, 2, 3, 4, 5]), (true, .flushToFrame none 7), (true, .write [6])] true true
    maskCrypto_inverts (fun _ h => by cases h) (InnerStream.sink_fresh true) (by decide +kernel)
  have hwritten : writtenBytes [.write [1, 2, 3, 4, 5], .flushToFrame none 7, .write [6]] =
      [1, 2, 3, 4, 5, 6] := rfl
  exact ⟨w, data, hcreate, hdata,
    hwritten ▸ hiff.mpr ⟨by decide, Or.inl ⟨[6], by simp⟩, Or.inl rfl⟩⟩

/-- Nothing is called but `Dispose`: the archive is an empty frame, and a read of it
throws. -/
theorem empty_run_not_wellFormed :
    ∃ w, create (InnerStream.sink true) .encrypt maskFour.arguments = .ok w ∧
      ¬ maskFour.WellFormed (finalState (mixedArchiveCalls maskFour.cipher none maskFour.random [] false
        w)).innerStream.data ∧
      ¬ maskFour.ReadsBack true (finalState (mixedArchiveCalls maskFour.cipher none maskFour.random []
        false w)).innerStream.data [] := by
  rcases create_writes (A := maskFour) (InnerStream.sink_fresh true) with ⟨w, hcreate, hwrites⟩
  rcases archiveCalls_leaves (A := maskFour) (InnerStream.sink_fresh true) [] with ⟨w', hcreate', -, hdata⟩
  obtain rfl := Except.ok.inj (hcreate.symm.trans hcreate')
  have hnone : ∀ kernel ∈ (none : Option AsyncEncryptor),
      kernel.SealsAs maskFour.cipher maskFour.random := by
    intro kernel hkernel
    cases hkernel
  have hmixed := mixedArchiveCalls_eq hnone hwrites [] false
  refine ⟨w, hcreate, ?_⟩
  rw [hmixed, List.map_nil, hdata]
  constructor
  · intro hwell
    rcases Archiver.startsArchive_of_wellFormed hwell with ⟨buffer, hmem⟩ | ⟨⟨-, hflush, -⟩, -⟩
    · cases hmem
    · exact absurd hflush (by decide)
  · intro hback
    obtain ⟨s, outs, s', hs, hrun, -⟩ := hback
      (.byteByByte (maskFour.leaves (maskFour.run .initial [])) true) maskFour.readerArguments [1]
      ⟨rfl, rfl, rfl, rfl⟩ rfl rfl rfl rfl (by decide)
    -- the lone frame has no header in front of it, and the first read throws
    have hthrows : returns (fun s => (attempts (read maskFour.cipher) [1] s).1.map Except.toOption =
        [none]) (create (.byteByByte (maskFour.leaves (maskFour.run .initial [])) true) .decrypt
          maskFour.readerArguments) = true := by
      decide +kernel
    rcases of_returns hthrows with ⟨t, ht, hthrow⟩
    obtain rfl := Except.ok.inj (hs.symm.trans ht)
    replace hthrow := of_decide_eq_true hthrow
    rw [hrun] at hthrow
    cases outs with
    | nil => cases hthrow
    | cons out outs => cases (List.cons.inj hthrow).1

end ManagedSecurity

import ManagedSecurity.Lib.Mixtures
import ManagedSecurity.AntiReplay
import ManagedSecurity.Seekability
import ManagedSecurity.Segments

/-! # Frames of two runs

The associated data of a frame are its header and its sequence number. Nothing in
them names the run, so that under one key a reader accepts the frame of either run
at each place.

* `Archiver.Ran`, `Archiver.Part`: honest runs, and what their archives consist of;
* `read_accepts_mixture`: what is accepted is a mixture, and it is delivered;
* `mixture_read`: every mixture is read to its end;
* `frames_not_spliced`: no reader is given more than the front of one run exactly
  if the payloads have no other mixtures.
-/

namespace ManagedSecurity

open Bytes Outcome ManagedSecurityStream

/-! ## Two honest runs -/

/-- Any calls over an empty sink that does not fail, with `Dispose` behind them or not,
leave the writer `w`. -/
def Archiver.Ran (A : Archiver) (w : ManagedSecurityStream) : Prop :=
  ∃ (sink : InnerStream) (s : ManagedSecurityStream) (calls : List WriteCall),
    sink.Fresh A.seekable ∧ create sink .encrypt A.arguments = .ok s ∧
      (w = finalState (writeCalls A.cipher A.random calls s) ∨
        w = finalState (archiveCalls A.cipher A.random calls s))

/-- What an archive consists of: the master header, which `Dispose` writes again with
another table offset, and the frames. -/
inductive Archiver.Part (A : Archiver) (w : ManagedSecurityStream) : Bytes → Prop
  | header (off : UInt64) : Archiver.Part A w (A.head off)
  | frame (g : GcmCall) (h : g ∈ w.gcmCalls) : Archiver.Part A w (A.cipher.frameOf g)

/-- The byte string is assembled from the headers and frames of two runs. -/
def Assembled (A B : Archiver) (w w' : ManagedSecurityStream) (data : Bytes) : Prop :=
  ∃ parts : List Bytes, data = parts.flatten ∧ ∀ part ∈ parts, A.Part w part ∨ B.Part w' part

/-- A reader that counts from 0 reads these bytes to their end and does not throw; `outs`
are the answers, and `s'` is the reader in the end. -/
def ReadsToEnd (c : Cipher) (data : Bytes) (outs : List Bytes) (s' : ManagedSecurityStream) : Prop :=
  ∃ (source : InnerStream) (args : StreamArguments) (s : ManagedSecurityStream) (sizes : List ℕ),
    source.Presents data source.seekable ∧ args.initialSequence = 0 ∧
      create source .decrypt args = .ok s ∧ (∀ n ∈ sizes, 0 < n) ∧
      attempts (read c) sizes s = (outs.map .ok, s') ∧ outs.getLast? = some []

/-- Whatever is assembled from the two runs, a reader that comes to the end has delivered
the first frames of one of them. -/
def Unspliced (A B : Archiver) (w w' : ManagedSecurityStream) : Prop :=
  ∀ (data : Bytes) (outs : List Bytes) (s' : ManagedSecurityStream), Assembled A B w w' data →
    ReadsToEnd A.cipher data outs s' →
    outs.flatten = s'.framesDecrypted.flatten ∧
      (s'.framesDecrypted <+: w.framed ∨ s'.framesDecrypted <+: w'.framed)

section

variable {A : Archiver} {w : ManagedSecurityStream}

/-- What a run has encrypted. -/
theorem Archiver.Ran.calls (h : A.Ran w) :
    ∃ payloads, w.gcmCalls = A.calls payloads ∧ ∀ p ∈ payloads, p.length ≤ A.chunkSize := by
  rcases h with ⟨sink, s, calls, hfresh, hcreate, rfl | rfl⟩
  · rcases create_writes hfresh with ⟨t, hcreate', hwrites⟩
    obtain rfl := Except.ok.inj (hcreate.symm.trans hcreate')
    rcases writeCalls_refines calls hwrites with ⟨s', hrun, h'⟩
    have hinv := Archiver.inv_run (A := A) calls .initial (Framer.inv_empty A.chunkSize_pos)
    refine ⟨(A.run .initial calls).framer.frames, ?_, hinv.bounded⟩
    rw [hrun]
    exact h'.holds.calls
  · rcases archiveCalls_leaves hfresh calls with ⟨t, hcreate', hcalls, -⟩
    obtain rfl := Except.ok.inj (hcreate.symm.trans hcreate')
    exact ⟨A.payloads calls, hcalls, Archiver.length_payload calls⟩

/-- The calls that seal payloads from 0 on. -/
theorem Sealer.numbered {S : Sealer} (hfirst : S.first = 0) (ps : List Bytes) :
    Numbered (S.calls ps) := by
  intro i g hg
  rw [Sealer.calls, List.getElem?_mapIdx, Option.map_eq_some_iff] at hg
  rcases hg with ⟨p, -, rfl⟩
  refine ⟨headerBytes p.length S.keyIndex 2, ?_⟩
  show headerBytes p.length S.keyIndex 2 ++ beBytes 8 (S.first + UInt64.ofNat i).toNat = _
  rw [hfirst, UInt64.zero_add]

end

/-! ## What is accepted -/

/-- A payload may come from either log. -/
theorem offers_append {log log' : List GcmCall} {offers offers' : ℕ → Bytes → Prop}
    (h : Offers log offers) (h' : Offers log' offers') :
    Offers (log ++ log') fun k p => offers k p ∨ offers' k p := by
  constructor
  · intro g hg front k hk haad
    rcases List.mem_append.mp hg with hg | hg
    · exact Or.inl (h.sealed g hg front k hk haad)
    · exact Or.inr (h'.sealed g hg front k hk haad)
  · rcases h.bounded with ⟨n, hn, hbound⟩
    rcases h'.bounded with ⟨n', hn', hbound'⟩
    refine ⟨max n n', max_lt hn hn', ?_⟩
    rintro k p (hp | hp)
    · exact lt_max_of_lt_left (hbound k p hp)
    · exact lt_max_of_lt_right (hbound' k p hp)

namespace ManagedSecurityStream

variable {s s' : ManagedSecurityStream} {c : Cipher}

/-- Where no frame comes, the window on the buffer stays. -/
theorem tryReadNextFrame_nothing :
    Sat (tryReadNextFrame c s)
      (fun more s' => more = false → s'.readBufferCount = s.readBufferCount) (fun _ _ => True) := by
  rw [tryReadNextFrame, get_bind]
  by_cases hend : s.atSeekTable
  · rw [if_pos hend]
    intro _
    rfl
  rw [if_neg hend, sat_bind]
  refine (onFill_kept readFixedHeader).mono ?_ (fun _ _ _ => trivial)
  rintro more s₁ ⟨-, inner, b, rfl⟩
  cases more with
  | false =>
    intro _
    rfl
  | true =>
    rw [if_neg Bool.noConfusion]
    -- the frame is read, or the call throws
    refine sat_behind fun _ _ => sat_behind fun _ _ => sat_behind fun _ _ => sat_behind fun _ _ =>
      sat_behind fun _ _ => sat_behind fun _ _ => sat_behind fun _ _ => ?_
    intro hnone
    cases hnone

/-- The loop of `Read` returns nothing only with nothing buffered. -/
theorem readLoop_nothing {tryRead : StreamM Bool}
    (hnothing : ∀ s, Sat (tryRead s)
      (fun more s' => more = false → s'.readBufferCount = s.readBufferCount) (fun _ _ => True))
    {count : ℕ} (hcount : 0 < count) :
    ∀ (fuel : ℕ) (out : Bytes) (s : ManagedSecurityStream),
      Sat (readLoop tryRead count fuel out s)
        (fun bytes s' => bytes = [] → out = [] ∧ s'.readBufferCount = 0) (fun _ _ => True) := by
  intro fuel
  induction fuel with
  | zero =>
    intro out s
    trivial
  | succ fuel ih =>
    intro out s
    rw [readLoop]
    by_cases hfull : out.length < count
    swap
    · rw [if_neg hfull]
      rintro rfl
      exact absurd hcount hfull
    rw [if_pos hfull, get_bind]
    by_cases hbuffered : 0 < s.readBufferCount
    · rw [if_pos hbuffered, sat_bind, sat_ofExcept]
      refine ⟨fun piece hslice => ?_, fun _ _ => trivial⟩
      rw [modify_bind]
      refine (ih _ _).mono ?_ (fun _ _ _ => trivial)
      intro bytes s' hbytes hnil
      -- the piece is not empty
      rcases sliceSpan_eq_ok.mp hslice with ⟨⟨-, -, hfit⟩, hpiece⟩
      rw [Int.toNat_natCast, Int.toNat_natCast] at hpiece
      have hlen : piece.length = min s.readBufferCount (count - out.length) := by
        rw [hpiece]
        exact length_slice_of_le (by omega)
      rw [(List.append_eq_nil_iff.mp (hbytes hnil).1).2, List.length_nil] at hlen
      omega
    · rw [if_neg hbuffered, sat_bind]
      refine (hnothing s).mono ?_ (fun _ _ _ => trivial)
      intro more s₁ hsame
      cases more with
      | false =>
        rw [if_pos rfl]
        intro hnil
        refine ⟨hnil, ?_⟩
        rw [hsame rfl]
        omega
      | true =>
        rw [if_neg Bool.noConfusion]
        by_cases hsome : 0 < out.length
        · rw [if_pos hsome]
          rintro rfl
          exact absurd hsome (Nat.lt_irrefl 0)
        · rw [if_neg hsome]
          exact ih out s₁

/-- And so does `Read`. -/
theorem read_nothing_buffered {count : ℕ} (hcount : 0 < count) (s : ManagedSecurityStream) :
    Sat (read c count s) (fun bytes s' => bytes = [] → s'.readBufferCount = 0) (fun _ _ => True) := by
  rw [ManagedSecurityStream.read]
  refine sat_behind fun _ _ => sat_behind fun _ _ => sat_behind fun _ _ => sat_behind fun s₁ s₂ => ?_
  refine (readLoop_nothing (fun _ => tryReadNextFrame_nothing) hcount _ [] s₂).mono ?_ (fun _ _ _ => trivial)
  intro bytes s' hbytes hnil
  exact (hbytes hnil).2

end ManagedSecurityStream

/-- A reader that comes to the end has delivered the payloads it has accepted, and each of
them was offered under its place. -/
theorem ReadsToEnd.accepted {c : Cipher} {log : List GcmCall} {offers : ℕ → Bytes → Prop} {data : Bytes}
    {outs : List Bytes} {s' : ManagedSecurityStream} (h : ReadsToEnd c data outs s')
    (hideal : c.crypto.IdealFor c.providedKeys log) (hoffers : Offers log offers) :
    outs.flatten = s'.framesDecrypted.flatten ∧
      ∀ i p, s'.framesDecrypted[i]? = some p → offers i p := by
  rcases h with ⟨source, args, s, sizes, -, hzero, hcreate, hsizes, hrun, hlast⟩
  -- after a call that gives nothing there is nothing buffered either
  let I : List Bytes → ManagedSecurityStream → Prop := fun outs s =>
    s.Accepting offers outs.flatten ∧ (outs.getLast? = some [] → s.readBufferCount = 0)
  have hinitial : I [] s := by
    rcases create_inv hcreate with ⟨size, -, -, rfl⟩
    refine ⟨⟨?_, hzero, rfl⟩, fun _ => rfl⟩
    intro i p hget
    cases hget
  have hstep : ∀ count ∈ sizes, ∀ outs s, I outs s →
      Sat (read c count s) (fun out s' => I (outs ++ [out]) s') (fun _ _ => True) := by
    rintro count hcount outs s ⟨haccepting, -⟩
    have hread := read_sat hideal hoffers haccepting count
    have hempty := read_nothing_buffered (c := c) (hsizes count hcount) s
    cases hr : read c count s with
    | error e s₁ => trivial
    | ok out s₁ =>
      rw [hr, sat_ok] at hread hempty
      constructor
      · rw [List.flatten_append, List.flatten_singleton]
        exact hread
      · intro hnil
        rw [List.getLast?_append, List.getLast?_singleton, Option.some_or] at hnil
        exact hempty (Option.some.inj hnil)
  have hend := returned_all sizes [] outs s s' hstep hinitial hrun
  rw [List.nil_append] at hend
  rcases hend with ⟨haccepting, hnothing⟩
  have hbuffered := haccepting.buffered
  rw [hnothing hlast, slice_len_zero, List.append_nil] at hbuffered
  exact ⟨hbuffered, haccepting.accepted⟩

/-! ## What can be read -/

/-- The frames of successive payloads, each by the sealer that `pick` has for its place. -/
def framesBy (pick : ℕ → Sealer) (i : ℕ) : List Bytes → Bytes
  | [] => []
  | p :: ps => (pick i).frame i p ++ framesBy pick (i + 1) ps

theorem length_le_framesBy (pick : ℕ → Sealer) (ps : List Bytes) :
    ∀ i, ps.length ≤ (framesBy pick i ps).length := by
  induction ps with
  | nil =>
    intro i
    exact Nat.zero_le _
  | cons p ps ih =>
    intro i
    have hframe := (pick i).length_frame i p
    have hrec := ih (i + 1)
    rw [framesBy, List.length_append, List.length_cons, hframe, overhead]
    omega

/-- The payloads `zs` can be read when their frames are taken from these sealers. -/
structure Readable (S : Sealer) (pick : ℕ → Sealer) (E : Setting) (zs : List Bytes) : Prop where
  cipher : ∀ i, (pick i).cipher = S.cipher
  first : ∀ i, (pick i).first = S.first
  fits : ∀ i p, zs[i]? = some p →
    p.length < 2 ^ 25 ∧ overhead p.length (pick i).keyIndex + p.length ≤ E.bufferLength
  opens : ∀ i p, zs[i]? = some p → S.cipher.crypto.Opens ((pick i).call i p)
  untabled : E.seekTableOffset = 0
  buffer : 4 ≤ E.bufferLength

/-- The stream stands for a feed of frames from different sealers: each frame is alone in
front of the rest. -/
structure ReadsMixed (S : Sealer) (pick : ℕ → Sealer) (E : Setting) (zs : List Bytes)
    (s : ManagedSecurityStream) (f : Feed UInt8) (i : ℕ) : Prop where
  reads : S.Reads { E with frames := i } (framesBy pick i f.left) s ⟨f.buffered, []⟩ i
  left : f.left = zs.drop i
  decrypted : s.framesDecrypted = zs.take i

section

variable {S : Sealer} {pick : ℕ → Sealer} {E : Setting} {zs : List Bytes} {s : ManagedSecurityStream}
  {p : Bytes} {ps : List Bytes} {i : ℕ}

/-- The next frame is fetched whichever sealer it is from. -/
theorem ReadsMixed.fetch (hreadable : Readable S pick E zs) (h : ReadsMixed S pick E zs s ⟨[], p :: ps⟩ i) :
    ∃ s', tryReadNextFrame S.cipher s = .ok true s' ∧ ReadsMixed S pick E zs s' ⟨p, ps⟩ (i + 1) := by
  have hleft : p :: ps = zs.drop i := h.left
  have hp : zs[i]? = some p := by
    rw [← List.head?_drop, ← hleft, List.head?_cons]
  have hfits := hreadable.fits i p hp
  have hcipher := hreadable.cipher i
  -- one frame further, a mixed archive is one frame of the stream that sealed it
  have hone : (pick i).Reads { E with frames := i + 1 } (framesBy pick (i + 1) ps) s ⟨[], [p]⟩ i :=
    { h.reads with
      rest := by
        rw [h.reads.rest]
        show [] ++ ((pick i).frame i p ++ _) = ((pick i).frame i p ++ []) ++ _
        rw [List.nil_append, List.append_nil]
      index := rfl
      sequence := by
        rw [h.reads.sequence, Sealer.sequence, Sealer.sequence, hreadable.first]
      fits := by
        intro q hq
        rw [List.mem_singleton.mp hq]
        exact hfits
      cut := Or.inl hreadable.untabled }
  obtain ⟨s', hrun, hreads, hdecrypted⟩ := tryReadNextFrame_fetch hone (hcipher ▸ hreadable.opens i p hp)
  rw [hcipher] at hrun
  refine ⟨s', hrun, ?_, ?_, ?_⟩
  · exact { hreads with
      rest := hreads.rest
      sequence := by
        rw [hreads.sequence, Sealer.sequence, Sealer.sequence, hreadable.first]
      fits := fun q hq => (List.not_mem_nil hq).elim
      cut := Or.inl hreadable.untabled }
  · show ps = zs.drop (i + 1)
    rw [← List.tail_drop, ← hleft, List.tail_cons]
  · rw [hdecrypted, h.decrypted, List.take_add_one, hp]
    rfl

/-- Frames from different sealers are read as one feed. -/
theorem feeds_mixed (hreadable : Readable S pick E zs) :
    Feeds (ReadsMixed S pick E zs) true (tryReadNextFrame S.cipher) where
  count h := h.reads.count
  piece h hn := h.reads.piece hn
  take n h hn := ⟨h.reads.take hn, h.left, h.decrypted⟩
  fetch h := h.fetch hreadable
  stop := by
    intro s i h
    obtain ⟨s', hrun, hreads, hdecrypted⟩ := tryReadNextFrame_end h.reads (Or.inl ⟨rfl, hreadable.buffer⟩)
    rw [if_pos rfl]
    exact ⟨s', hrun, hreads, h.left, hdecrypted.trans h.decrypted⟩

theorem serves_mixed (hreadable : Readable S pick E zs) :
    Feed.Serves true (fun s f => ∃ i, ReadsMixed S pick E zs s f i) (read S.cipher) := by
  apply (feeds_mixed hreadable).serves
  intro s f i h
  refine ⟨h.reads.mode, h.reads.header, ?_⟩
  rw [h.reads.rest]
  exact length_le_framesBy pick f.left i

/-- A reader whose buffer takes the frames comes to their end and has accepted them all. -/
theorem readsToEnd_mixed {L K : ℕ} (hL : L < 2 ^ 25) (hK : K < 2 ^ 25) (hfirst : S.first = 0)
    (hreadable : ∀ E : Setting, E.seekTableOffset = 0 → E.bufferLength = overhead L K + L →
      Readable S pick E zs) :
    ∃ outs s', ReadsToEnd S.cipher (framesBy pick 0 zs) outs s' ∧ s'.framesDecrypted = zs := by
  let source : InnerStream := .byteByByte (framesBy pick 0 zs) false
  obtain ⟨s, hcreate, hbuffer⟩ := create_decrypt source
    { keyIndex := K, chunkSize := L, skipMasterHeader := true } rfl rfl hL hK
  let E : Setting := ⟨framesBy pick 0 zs, 0, false, s.buffer.length, 0, none⟩
  have hall := hreadable E rfl hbuffer
  have hinitial : ReadsMixed S pick E zs s ⟨[], zs⟩ 0 := by
    rcases create_inv hcreate with ⟨size, -, -, hs⟩
    refine ⟨?_, rfl, by rw [hs]; rfl⟩
    exact {
      mode := by rw [hs]
      header := by rw [hs]
      opened := by rw [hs]; rfl
      data := by rw [hs]; rfl
      inside := by
        rw [hs]
        exact Nat.zero_le _
      seekable := by rw [hs]; rfl
      buffer := rfl
      seekTableOffset := by rw [hs]
      metadata := by rw [hs]
      rest := by rw [hs]; rfl
      index := rfl
      sequence := by
        rw [hs, Sealer.sequence, hfirst]
        rfl
      fits := fun q hq => (List.not_mem_nil hq).elim
      cut := Or.inl rfl
      count := by rw [hs]; rfl
      window := by
        rw [hs]
        exact Nat.zero_le _
      shown := slice_len_zero _ _ }
  -- byte by byte, and one call more than there are bytes
  have hpos : ∀ n ∈ List.replicate (zs.flatten.length + 1) 1, 0 < n := by
    intro n hn
    rw [List.eq_of_mem_replicate hn]
    exact Nat.one_pos
  obtain ⟨outs, s', f', hrun, ⟨i, hend⟩, hdelivers, hlens, hnothing⟩ :=
    (serves_mixed hall).delivers _ s ⟨[], zs⟩ hpos ⟨0, hinitial⟩
  -- so the last call gives nothing
  have hlast : outs.getLast? = some [] := by
    refine (hdelivers.flatten_eq ?_).2
    rw [hlens.length_eq, List.length_replicate]
    exact Nat.lt_succ_self _
  obtain rfl := hnothing (Or.inr hlast)
  refine ⟨outs, s', ⟨source, _, s, _, ⟨rfl, rfl, rfl, rfl⟩, rfl, hcreate, hpos, hrun, hlast⟩, ?_⟩
  rw [hend.decrypted]
  exact List.take_of_length_le (List.drop_eq_nil_iff.mp hend.left.symm)

end

section

variable {A B : Archiver} {w w' : ManagedSecurityStream} {zs : List Bytes}

/-- The frames lie one behind the other. -/
theorem framesBy_eq (pick : ℕ → Sealer) (ps : List Bytes) :
    ∀ i, framesBy pick i ps = (ps.mapIdx fun j p => (pick (i + j)).frame (i + j) p).flatten := by
  induction ps with
  | nil =>
    intro i
    rfl
  | cons p ps ih =>
    intro i
    rw [framesBy, ih, List.mapIdx_cons, List.flatten_cons]
    simp only [Nat.add_assoc, Nat.add_comm 1, Nat.add_zero]

theorem Sealer.call_mem {S : Sealer} {ps : List Bytes} {p : Bytes} {i : ℕ} (h : ps[i]? = some p) :
    S.call i p ∈ S.calls ps := by
  refine List.mem_of_getElem? (i := i) ?_
  rw [Sealer.calls, List.getElem?_mapIdx, h]
  rfl

/-- The sealer of a frame of the mixture `zs`: the first run's, if that has the payload. -/
def pickFrom (A B : Archiver) (ps zs : List Bytes) (i : ℕ) : Sealer :=
  if ps[i]? = zs[i]? then A.toSealer else B.toSealer

theorem pickFrom_either (A B : Archiver) (ps zs : List Bytes) (i : ℕ) :
    pickFrom A B ps zs i = A.toSealer ∨ pickFrom A B ps zs i = B.toSealer := by
  unfold pickFrom
  split_ifs
  · exact Or.inl rfl
  · exact Or.inr rfl

/-- The sealer has sealed the payload at this place. -/
theorem pickFrom_sealed {ps qs : List Bytes} (hmix : Mixture ps qs zs) {i : ℕ} {p : Bytes}
    (hp : zs[i]? = some p) :
    (pickFrom A B ps zs i = A.toSealer ∧ ps[i]? = some p) ∨
      (pickFrom A B ps zs i = B.toSealer ∧ qs[i]? = some p) := by
  unfold pickFrom
  split_ifs with hsame
  · exact Or.inl ⟨rfl, hsame.trans hp⟩
  · refine Or.inr ⟨rfl, (hmix i p hp).resolve_left ?_⟩
    rw [← hp]
    exact hsame

/-- The buffer for the larger chunk size and the larger key index takes every frame of the
mixture. -/
theorem readable_mixture {ps qs : List Bytes} {E : Setting} (hcipher : B.cipher = A.cipher)
    (hfirst : B.first = A.first) (hfits : ∀ p ∈ ps, p.length ≤ A.chunkSize)
    (hfits' : ∀ p ∈ qs, p.length ≤ B.chunkSize)
    (hopens : ∀ g ∈ A.calls ps ++ B.calls qs, A.cipher.crypto.Opens g) (hmix : Mixture ps qs zs)
    (hoff : E.seekTableOffset = 0)
    (hbuffer : E.bufferLength = overhead (max A.chunkSize B.chunkSize) (max A.keyIndex B.keyIndex) +
      max A.chunkSize B.chunkSize) :
    Readable A.toSealer (pickFrom A B ps zs) E zs where
  cipher := by
    intro i
    rcases pickFrom_either A B ps zs i with h | h <;> rw [h]
    exact hcipher
  first := by
    intro i
    rcases pickFrom_either A B ps zs i with h | h <;> rw [h]
    exact hfirst
  fits := by
    intro i p hp
    rw [hbuffer]
    -- the buffer is as large as the larger stream's frames need
    rcases pickFrom_sealed hmix hp with ⟨h, hp'⟩ | ⟨h, hp'⟩ <;> rw [h]
    · have hle := hfits p (List.mem_of_getElem? hp')
      have hover := overhead_le (hle.trans (le_max_left _ B.chunkSize)) (le_max_left A.keyIndex B.keyIndex)
      exact ⟨lt_of_le_of_lt hle A.chunkSize_lt, by omega⟩
    · have hle := hfits' p (List.mem_of_getElem? hp')
      have hover := overhead_le (hle.trans (le_max_right A.chunkSize _)) (le_max_right A.keyIndex B.keyIndex)
      exact ⟨lt_of_le_of_lt hle B.chunkSize_lt, by omega⟩
  opens := by
    intro i p hp
    rcases pickFrom_sealed hmix hp with ⟨h, hp'⟩ | ⟨h, hp'⟩ <;> rw [h]
    · exact hopens _ (List.mem_append_left _ (Sealer.call_mem hp'))
    · exact hopens _ (List.mem_append_right _ (Sealer.call_mem hp'))
  untabled := hoff
  buffer := by
    rw [hbuffer, overhead]
    omega

/-- Every mixture of the payloads is assembled and read. -/
theorem mixture_read (hcipher : B.cipher = A.cipher) (hfirst : A.first = 0) (hfirst' : B.first = 0)
    (hw : A.Ran w) (hw' : B.Ran w') (hopens : ∀ g ∈ w.gcmCalls ++ w'.gcmCalls, A.cipher.crypto.Opens g)
    (hmix : Mixture w.framed w'.framed zs) :
    ∃ data outs s', Assembled A B w w' data ∧ ReadsToEnd A.cipher data outs s' ∧
      s'.framesDecrypted = zs := by
  obtain ⟨ps, hcalls, hfits⟩ := hw.calls
  obtain ⟨qs, hcalls', hfits'⟩ := hw'.calls
  rw [framed, framed, hcalls, hcalls', Sealer.map_plaintext, Sealer.map_plaintext] at hmix
  rw [hcalls, hcalls'] at hopens
  obtain ⟨outs, s', hreads, hdecrypted⟩ := readsToEnd_mixed (max_lt A.chunkSize_lt B.chunkSize_lt)
    (max_lt A.keyIndex_lt B.keyIndex_lt) hfirst fun E =>
      readable_mixture hcipher (hfirst'.trans hfirst.symm) hfits hfits' hopens hmix
  refine ⟨_, outs, s', ⟨_, framesBy_eq _ zs 0, ?_⟩, hreads, hdecrypted⟩
  -- each frame is one that its run has made
  intro part hpart
  rcases List.mem_mapIdx.mp hpart with ⟨i, hi, rfl⟩
  rw [Nat.zero_add]
  rcases pickFrom_sealed hmix (List.getElem?_eq_getElem hi) with ⟨h, hp⟩ | ⟨h, hp⟩ <;> rw [h]
  · rw [← Sealer.frameOf_call]
    exact Or.inl (.frame _ (hcalls ▸ Sealer.call_mem hp))
  · rw [← Sealer.frameOf_call]
    exact Or.inr (.frame _ (hcalls' ▸ Sealer.call_mem hp))

/-- What a reader of assembled bytes accepts is a mixture of the payloads, and it is what
the reader delivers. -/
theorem read_accepts_mixture {data : Bytes} {outs : List Bytes} {s' : ManagedSecurityStream}
    (hfirst : A.first = 0) (hfirst' : B.first = 0) (hw : A.Ran w) (hw' : B.Ran w')
    (hcount : w.gcmCalls.length < 2 ^ 64) (hcount' : w'.gcmCalls.length < 2 ^ 64)
    (hideal : A.cipher.crypto.IdealFor A.cipher.providedKeys (w.gcmCalls ++ w'.gcmCalls))
    (h : ReadsToEnd A.cipher data outs s') :
    outs.flatten = s'.framesDecrypted.flatten ∧ Mixture w.framed w'.framed s'.framesDecrypted := by
  obtain ⟨ps, hcalls, -⟩ := hw.calls
  obtain ⟨qs, hcalls', -⟩ := hw'.calls
  have hnum : Numbered w.gcmCalls := hcalls ▸ Sealer.numbered hfirst ps
  have hnum' : Numbered w'.gcmCalls := hcalls' ▸ Sealer.numbered hfirst' qs
  exact h.accepted hideal (offers_append (offers_of_numbered hnum hcount) (offers_of_numbered hnum' hcount'))

end

/-- Two honest runs of writers that count from 0 under the keys of one provider. No byte
string assembled from their headers and frames is read to the end as anything but the
first frames of one of them, exactly if the runs agree behind the first place where both
have a frame and the payloads differ. -/
theorem frames_not_spliced (A B : Archiver) (w w' : ManagedSecurityStream) (hcipher : B.cipher = A.cipher)
    (hfirst : A.first = 0) (hfirst' : B.first = 0) (hw : A.Ran w) (hw' : B.Ran w')
    (hcount : w.gcmCalls.length < 2 ^ 64) (hcount' : w'.gcmCalls.length < 2 ^ 64)
    (hideal : A.cipher.crypto.IdealFor A.cipher.providedKeys (w.gcmCalls ++ w'.gcmCalls))
    (hopens : ∀ g ∈ w.gcmCalls ++ w'.gcmCalls, A.cipher.crypto.Opens g) :
    Unspliced A B w w' ↔ Unmixable w.framed w'.framed := by
  constructor
  · intro hunspliced
    apply unmixable_iff.mpr
    intro zs hmix
    obtain ⟨data, outs, s', hassembled, hreads, rfl⟩ :=
      mixture_read hcipher hfirst hfirst' hw hw' hopens hmix
    exact (hunspliced data outs s' hassembled hreads).2
  · intro hunmixable data outs s' _ hreads
    obtain ⟨hdelivered, hmix⟩ :=
      read_accepts_mixture hfirst hfirst' hw hw' hcount hcount' hideal hreads
    exact ⟨hdelivered, hunmixable.front_or_front hmix⟩

/-! ## Two runs that are spliced -/

/-- The writer of the examples, with nothing else decrypting than the calls in `log`. -/
def maskTabled (log : List GcmCall) : Archiver :=
  { maskFour with
    cipher := maskCipher.tabled log
    provided := rfl }

/-- The same with other nonces. -/
def maskTabled' (log : List GcmCall) : Archiver :=
  { maskTabled log with random := fun i j => UInt8.ofNat (i + j + 100) }

/-- What the two encrypt when they write these bytes. -/
def twoLogs (bytes bytes' : Bytes) : List GcmCall :=
  (maskTabled []).calls ((maskTabled []).payloads [.write bytes]) ++
    (maskTabled' []).calls ((maskTabled' []).payloads [.write bytes'])

/-- Write these bytes, and dispose. -/
theorem ran_write (A : Archiver) (hseek : A.seekable = true) (bytes : Bytes) :
    ∃ w, A.Ran w ∧ w.gcmCalls = A.calls (A.payloads [.write bytes]) := by
  have hfresh : (InnerStream.sink true).Fresh A.seekable := by
    rw [hseek]
    exact InnerStream.sink_fresh true
  rcases archiveCalls_leaves hfresh [.write bytes] with ⟨s, hcreate, hcalls, -⟩
  exact ⟨_, ⟨_, s, _, hfresh, hcreate, Or.inr rfl⟩, hcalls⟩

/-- Both do so, and the primitive is ideal for them. -/
theorem ran_both (bytes bytes' : Bytes) :
    ∃ w w', (maskTabled (twoLogs bytes bytes')).Ran w ∧ (maskTabled' (twoLogs bytes bytes')).Ran w' ∧
      w.gcmCalls = (maskTabled []).calls ((maskTabled []).payloads [.write bytes]) ∧
      w'.gcmCalls = (maskTabled' []).calls ((maskTabled' []).payloads [.write bytes']) ∧
      w.framed = (maskTabled []).payloads [.write bytes] ∧
      w'.framed = (maskTabled' []).payloads [.write bytes'] ∧
      (maskTabled (twoLogs bytes bytes')).cipher.crypto.IdealFor
        (maskTabled (twoLogs bytes bytes')).cipher.providedKeys (w.gcmCalls ++ w'.gcmCalls) := by
  obtain ⟨w, hw, hcalls⟩ := ran_write (maskTabled (twoLogs bytes bytes')) rfl bytes
  obtain ⟨w', hw', hcalls'⟩ := ran_write (maskTabled' (twoLogs bytes bytes')) rfl bytes'
  refine ⟨w, w', hw, hw', hcalls, hcalls', ?_, ?_, ?_⟩
  · rw [framed, hcalls, Sealer.map_plaintext]
    rfl
  · rw [framed, hcalls', Sealer.map_plaintext]
    rfl
  · rw [hcalls, hcalls']
    exact tableCrypto_ideal _ _ _

/-- Runs that differ in their last frame only. -/
theorem frames_not_spliced_last :
    ∃ w w', (maskTabled (twoLogs [1, 2, 3, 4, 5] [1, 2, 3, 4, 6])).Ran w ∧
      (maskTabled' (twoLogs [1, 2, 3, 4, 5] [1, 2, 3, 4, 6])).Ran w' ∧
      Unspliced (maskTabled (twoLogs [1, 2, 3, 4, 5] [1, 2, 3, 4, 6]))
        (maskTabled' (twoLogs [1, 2, 3, 4, 5] [1, 2, 3, 4, 6])) w w' := by
  obtain ⟨w, w', hw, hw', hcalls, hcalls', hframed, hframed', hideal⟩ :=
    ran_both [1, 2, 3, 4, 5] [1, 2, 3, 4, 6]
  have hopens : ∀ g ∈ w.gcmCalls ++ w'.gcmCalls,
      (maskTabled (twoLogs [1, 2, 3, 4, 5] [1, 2, 3, 4, 6])).cipher.crypto.Opens g := by
    rw [hcalls, hcalls']
    unfold CryptoProvider.Opens
    decide +kernel
  have hunmixable : Unmixable w.framed w'.framed := by
    rw [hframed, hframed']
    show Unmixable [[1, 2, 3, 4], [5]] [[1, 2, 3, 4], [6]]
    intro i j hij hi _ hne
    rw [List.length_cons, List.length_singleton] at hi
    obtain rfl | rfl : i = 0 ∨ i = 1 := by omega
    · exact absurd rfl hne
    · rw [List.getElem?_eq_none (by simp; omega), List.getElem?_eq_none (by simp; omega)]
  have hcount : w.gcmCalls.length < 2 ^ 64 := by
    rw [hcalls]
    decide
  have hcount' : w'.gcmCalls.length < 2 ^ 64 := by
    rw [hcalls']
    decide
  refine ⟨w, w', hw, hw', ?_⟩
  exact (frames_not_spliced (maskTabled _) (maskTabled' _) w w' rfl rfl rfl hw hw' hcount hcount' hideal
    hopens).mpr hunmixable

/-- The first frame of one run and the second one of the other, behind the header of the
first. -/
def splicedArchive (A B : Archiver) : List Bytes := [A.head 0, A.frame 0 [1, 2, 3, 4], B.frame 1 [10]]

/-- Two runs write five bytes each under one key. What is assembled from them is read to the
end as a mixture. -/
theorem frames_spliced :
    ∃ (A B : Archiver) (w w' : ManagedSecurityStream), B.cipher = A.cipher ∧ B.key = A.key ∧
      A.first = 0 ∧ B.first = 0 ∧ A.Ran w ∧ B.Ran w' ∧
      A.cipher.crypto.IdealFor A.cipher.providedKeys (w.gcmCalls ++ w'.gcmCalls) ∧
      (∀ g ∈ w.gcmCalls ++ w'.gcmCalls, A.cipher.crypto.Opens g) ∧
      w.framed = [[1, 2, 3, 4], [5]] ∧ w'.framed = [[6, 7, 8, 9], [10]] ∧
      (∃ outs s', Assembled A B w w' (splicedArchive A B).flatten ∧
        ReadsToEnd A.cipher (splicedArchive A B).flatten outs s' ∧ outs.flatten = [1, 2, 3, 4, 10]) ∧
      ¬ Unspliced A B w w' := by
  obtain ⟨w, w', hw, hw', hcalls, hcalls', hframed, hframed', hideal⟩ :=
    ran_both [1, 2, 3, 4, 5] [6, 7, 8, 9, 10]
  set A := maskTabled (twoLogs [1, 2, 3, 4, 5] [6, 7, 8, 9, 10]) with hA
  set B := maskTabled' (twoLogs [1, 2, 3, 4, 5] [6, 7, 8, 9, 10]) with hB
  have hopens : ∀ g ∈ w.gcmCalls ++ w'.gcmCalls, A.cipher.crypto.Opens g := by
    rw [hcalls, hcalls', hA]
    unfold CryptoProvider.Opens
    decide +kernel
  -- one header, the first frame of the one stream, the second of the other
  have hassembled : Assembled A B w w' (splicedArchive A B).flatten := by
    have hfirst : A.call 0 [1, 2, 3, 4] ∈ w.gcmCalls := hcalls ▸ Sealer.call_mem rfl
    have hsecond : B.call 1 [10] ∈ w'.gcmCalls := hcalls' ▸ Sealer.call_mem rfl
    refine ⟨_, rfl, ?_⟩
    intro part hpart
    rcases List.mem_cons.mp hpart with rfl | hpart
    · exact Or.inl (.header 0)
    · rcases List.mem_cons.mp hpart with rfl | hpart
      · rw [← Sealer.frameOf_call]
        exact Or.inl (.frame _ hfirst)
      · rw [List.mem_singleton.mp hpart, ← Sealer.frameOf_call]
        exact Or.inr (.frame _ hsecond)
  -- a reader takes both for frames of one archive
  have hread : returns
      (fun s => decide ((attempts (read A.cipher) [9, 9, 9] s).1.map Except.toOption =
          [some [1, 2, 3, 4], some [10], some []]) &&
        decide ((attempts (read A.cipher) [9, 9, 9] s).2.framesDecrypted = [[1, 2, 3, 4], [10]]))
      (create (.source (splicedArchive A B).flatten 0) .decrypt { chunkSize := 4, keyIndex := 5 }) =
        true := by
    rw [hB, hA]
    decide +kernel
  rcases of_returns hread with ⟨s, hs, hrun⟩
  rcases Bool.and_eq_true_iff.mp hrun with ⟨houts, hdecrypted⟩
  replace houts : (attempts (read A.cipher) [9, 9, 9] s).1 =
      ([[1, 2, 3, 4], [10], []] : List Bytes).map .ok := map_toOption_ok (of_decide_eq_true houts)
  replace hdecrypted := of_decide_eq_true hdecrypted
  have hreads : ReadsToEnd A.cipher (splicedArchive A B).flatten [[1, 2, 3, 4], [10], []]
      (attempts (read A.cipher) [9, 9, 9] s).2 :=
    ⟨_, _, s, [9, 9, 9], ⟨rfl, rfl, rfl, rfl⟩, rfl, hs, by decide, Prod.ext houts rfl, rfl⟩
  refine ⟨A, B, w, w', rfl, rfl, rfl, rfl, hw, hw', hideal, hopens, hframed, hframed',
    ⟨_, _, hassembled, hreads, rfl⟩, ?_⟩
  intro hunspliced
  have hfront := (hunspliced _ _ _ hassembled hreads).2
  rw [hdecrypted, hframed, hframed'] at hfront
  revert hfront
  decide

end ManagedSecurity

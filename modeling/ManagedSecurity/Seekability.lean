import ManagedSecurity.AsyncWriting
import ManagedSecurity.ReaderRelation
import ManagedSecurity.UnstartedArchive

/-! # Reading with and without `CanSeek`

The frame readers look at the seek-table offset only if the inner stream can
seek. A reader over one that cannot parses the seek table as a frame and throws.

* `fetches_seekTable`: the table is no frame;
* `SameButInner`, `SameButInner.read_agree`: without a table offset the inner stream
  makes no difference;
* `reading_seekable_irrelevant`: reading an archive does not depend on whether the
  inner stream can seek exactly if the archive has no seek table.
-/

namespace ManagedSecurity

open Bytes Outcome ManagedSecurityStream

/-! ## The table is no frame -/

section

variable {s : ManagedSecurityStream} {points : List SeekPoint}

/-- `"SEEK"` has another magic number than a frame header. -/
theorem tryReadNextFrame_seekTable (c : Cipher) (hopen : s.innerStream.closed = false)
    (hcut : ¬ s.atSeekTable) (hrest : s.innerStream.rest = SeekTable.bytes points) :
    ∃ e s', tryReadNextFrame c s = .error e s' := by
  have hlen := congrArg List.length hrest
  rw [SeekTable.length_bytes] at hlen
  by_cases hfit : 4 ≤ s.buffer.length
  swap
  · refine ⟨.argumentOutOfRange "", s, ?_⟩
    rw [tryReadNextFrame, get_bind, if_neg hcut, bind_error (readFixedHeader_outOfRange hfit)]
  obtain ⟨k, hfixed⟩ := readFixedHeader_eq hopen hfit (by omega)
  have hbuffer : (s.filled 4 k).buffer = SeekTable.magic ++ s.buffer.drop 4 := by
    rw [buffer_filled (by omega), hrest]
    rfl
  -- the table's magic is read as a header word, and its top bits are wrong
  have hword : headerWord (s.filled 4 k).buffer = 0x5345454B := by
    rw [hbuffer]
    show ((0x53 : UInt8).toNat <<< 24) ||| ((0x45 : UInt8).toNat <<< 16) |||
      ((0x45 : UInt8).toNat <<< 8) ||| (0x4B : UInt8).toNat = 0x5345454B
    decide
  have hext : calculateHeaderExtensions 0x5345454B = 0 := by decide
  have hshort : ¬ (s.filled 4 k).buffer.length < fixedHeaderSize := by
    rw [hbuffer, List.length_append]
    show ¬ 4 + _ < 4
    omega
  obtain ⟨e, hparse⟩ : ∃ e, Header.parse (s.filled 4 k).buffer = .error e := by
    have hmagic : (0x5345454B >>> 29) &&& 0x07 ≠ 7 := by decide
    rw [Header.parse, if_neg hshort, hword]
    exact ⟨_, if_pos hmagic⟩
  refine ⟨e, s.filled 4 k, ?_⟩
  rw [tryReadNextFrame, get_bind, if_neg hcut, bind_ok hfixed, if_neg Bool.noConfusion, get_bind,
    hword, hext]
  have hnone : onFill (InnerStream.fillSpan "Header extensions truncated." 4 0) (s.filled 4 k) =
      .ok () (s.filled 4 k) := rfl
  rw [bind_ok hnone, get_bind, hparse]
  rfl

end

section

variable {A : Archiver} {E : Setting} {inner : InnerStream} {args : StreamArguments}
  {s : ManagedSecurityStream} {off : UInt64} {payloads : List Bytes} {points : List SeekPoint}

/-- A reader that cannot seek stands in front of the table. -/
theorem fetches_seekTable (hinv : A.cipher.crypto.Inverts) (hseek : E.seekable = false) :
    Fetches A.toSealer E (SeekTable.bytes points) false (tryReadNextFrame A.cipher) where
  fetch := fetches_frame hinv
  stop := by
    intro s i h
    rw [if_neg Bool.noConfusion]
    refine tryReadNextFrame_seekTable A.cipher h.opened ?_ h.rest
    rintro ⟨-, hcan, -⟩
    rw [InnerStream.canSeek, h.seekable, hseek] at hcan
    cases hcan

/-- More reads than there are bytes: one of them comes to the table and throws. -/
theorem reads_into_table (hinv : A.cipher.crypto.Inverts) (hcreate : create inner .decrypt args = .ok s)
    (hopen : inner.closed = false) (hpos : inner.position = 0) (hseek : inner.seekable = false)
    (hdata : inner.data = A.head off ++ (A.frames 0 payloads ++ SeekTable.bytes points))
    (hm : (A.metadata.getD []).length ≤ 65535) (hskip : args.skipMasterHeader = false)
    (hseq : args.initialSequence = A.first)
    (hfits : ∀ p ∈ payloads, p.length < 2 ^ 25 ∧
      overhead p.length A.keyIndex + p.length ≤ s.buffer.length)
    {sizes : List ℕ} (hsizes : ∀ n ∈ sizes, 0 < n) (hlen : payloads.flatten.length < sizes.length)
    (outs : List Bytes) : (attempts (read A.cipher) sizes s).1 ≠ outs.map .ok := by
  obtain ⟨s₁, hsame, hreads⟩ := reads_after_header hcreate hopen hpos hdata hm hskip hseq hfits
    (Or.inr (Or.inl hseek))
  have hfetches : Fetches A.toSealer (A.setting inner args s off payloads.length)
      (SeekTable.bytes points) false (tryReadNextFrame A.cipher) := fetches_seekTable hinv hseek
  have hserves := read_serves hfetches.reading
  have hne : sizes ≠ [] := List.ne_nil_of_length_pos (Nat.zero_lt_of_lt hlen)
  rw [attempts_congr hsame hne]
  exact hserves.throws sizes s₁ ⟨[], payloads⟩ hsizes hlen ⟨0, hreads⟩ outs

/-- A stream that presents these bytes one by one. -/
def InnerStream.byteByByte (data : Bytes) (seekable : Bool) : InnerStream where
  data := data
  position := 0
  seekable := seekable
  closed := false
  segment _ := 1
  reads := 0
  failing _ := false
  writes := 0

/-- The arguments of a reader with the writer's chunk size and key index. -/
def Archiver.readerArguments (A : Archiver) : StreamArguments where
  keyIndex := A.keyIndex
  chunkSize := A.chunkSize
  initialSequence := A.first

/-- Without `CanSeek` a seek table is in the way. -/
theorem Archiver.throws_at_table {data : Bytes} (hinv : A.cipher.crypto.Inverts)
    (hdata : data = A.head off ++ (A.frames 0 payloads ++ SeekTable.bytes points))
    (hm : (A.metadata.getD []).length ≤ 65535)
    (hfits : ∀ p ∈ payloads, p.length < 2 ^ 25 ∧
      overhead p.length A.keyIndex + p.length ≤ overhead A.chunkSize A.keyIndex + A.chunkSize) :
    ∃ s sizes, create (.byteByByte data false) .decrypt A.readerArguments = .ok s ∧
      (∀ n ∈ sizes, 0 < n) ∧
      ∀ outs : List Bytes, (attempts (read A.cipher) sizes s).1 ≠ outs.map .ok := by
  rcases create_reader A (.byteByByte data false) A.readerArguments rfl rfl with ⟨s, hreader, hbuffer⟩
  have hpos : ∀ n ∈ List.replicate (payloads.flatten.length + 1) 1, 0 < n := by
    intro n hn
    rw [List.eq_of_mem_replicate hn]
    exact Nat.one_pos
  refine ⟨s, List.replicate (payloads.flatten.length + 1) 1, hreader, hpos, ?_⟩
  apply reads_into_table hinv hreader rfl rfl rfl hdata hm rfl rfl (by rw [hbuffer]; exact hfits) hpos
  rw [List.length_replicate]
  exact Nat.lt_succ_self _

end

/-! ## Inner streams with the same bytes -/

/-- The same bytes at the same position of streams that are open. -/
structure InnerStream.Alike (i j : InnerStream) : Prop where
  data : i.data = j.data
  position : i.position = j.position
  opened : i.closed = false
  opened' : j.closed = false

namespace InnerStream

variable {i j : InnerStream}

theorem Alike.rest (h : Alike i j) : i.rest = j.rest := by
  rw [InnerStream.rest, InnerStream.rest, h.data, h.position]

theorem Alike.advance (h : Alike i j) (n k k' : ℕ) : Alike (i.advance n k) (j.advance n k') :=
  ⟨h.data, congrArg (· + n) h.position, h.opened, h.opened'⟩

/-- How the bytes are segmented does not show in a span that is filled. -/
theorem fillSpan_alike (h : Alike i j) (message : String) (offset count : ℕ) (span : Bytes) :
    Agree (fun r r' : InnerStream × Bytes => Alike r.1 r'.1 ∧ r.2 = r'.2)
      (fillSpan message offset count (i, span)) (fillSpan message offset count (j, span)) := by
  by_cases hzero : count = 0
  · subst hzero
    exact agree_ok ⟨h, rfl⟩
  by_cases hfit : offset + count ≤ span.length
  swap
  · have hpos : 0 < count := Nat.pos_of_ne_zero hzero
    rw [fillSpan_outOfRange message hpos hfit, fillSpan_outOfRange message hpos hfit]
    exact ⟨h, rfl⟩
  by_cases hrest : count ≤ i.rest.length
  · obtain ⟨k, hk⟩ := fillSpan_eq message h.opened hfit hrest
    obtain ⟨k', hk'⟩ := fillSpan_eq message h.opened' hfit (h.rest ▸ hrest)
    rw [hk, hk', h.rest]
    exact agree_ok ⟨h.advance _ _ _, rfl⟩
  · obtain ⟨k, hk⟩ := fillSpan_truncated message h.opened hfit (by omega)
    obtain ⟨k', hk'⟩ := fillSpan_truncated message h.opened' hfit (by rw [← h.rest]; omega)
    rw [hk, hk', h.rest]
    exact ⟨h.advance _ _ _, rfl⟩

end InnerStream

/-! ## Readers that differ in their inner streams -/

namespace ManagedSecurityStream

/-- The same object over another inner stream, behind a master header that has no
table offset. -/
def SameButInner (s t : ManagedSecurityStream) : Prop :=
  ∃ i, s = { t with innerStream := i } ∧ i.Alike t.innerStream ∧ t.isHeaderProcessed = true ∧
    t.seekTableOffset = 0

variable {s t : ManagedSecurityStream} {c : Cipher}

theorem SameButInner.not_atSeekTable (h : SameButInner s t) : ¬ s.atSeekTable ∧ ¬ t.atSeekTable := by
  rcases h with ⟨i, rfl, -, -, hoff⟩
  constructor
  · rintro ⟨hpos, -⟩
    rw [hoff] at hpos
    exact absurd hpos (UInt64.lt_irrefl 0)
  · rintro ⟨hpos, -⟩
    rw [hoff] at hpos
    exact absurd hpos (UInt64.lt_irrefl 0)

theorem sameButInner_frames : FrameRelation SameButInner where
  buffer := by
    rintro s t ⟨i, rfl, -⟩
    rfl
  sequenceNumber := by
    rintro s t ⟨i, rfl, -⟩
    rfl
  readBufferOffset := by
    rintro s t ⟨i, rfl, -⟩
    rfl
  readBufferCount := by
    rintro s t ⟨i, rfl, -⟩
    rfl
  framesDecrypted := by
    rintro s t ⟨i, rfl, -⟩
    rfl
  setBuffer := by
    rintro s t ⟨i, rfl, h⟩ b
    exact ⟨i, rfl, h⟩
  setWindow := by
    rintro s t ⟨i, rfl, h⟩ offset count
    exact ⟨i, rfl, h⟩
  setFrame := by
    rintro s t ⟨i, rfl, h⟩ offset count sequence frames
    exact ⟨i, rfl, h⟩

theorem SameButInner.fillSpan_agree (h : SameButInner s t) (message : String) (offset count : ℕ) :
    Agree SameButInner (onFill (InnerStream.fillSpan message offset count) s)
      (onFill (InnerStream.fillSpan message offset count) t) := by
  rcases h with ⟨i, rfl, halike, hdone, hoff⟩
  apply agree_zoom_of (InnerStream.fillSpan_alike halike message offset count t.buffer)
  rintro ⟨i', b⟩ ⟨j', _⟩ ⟨hij, rfl⟩
  exact ⟨i', rfl, hij, hdone, hoff⟩

theorem SameButInner.readFixedHeader_agree (h : SameButInner s t) :
    Agree SameButInner (onFill readFixedHeader s) (onFill readFixedHeader t) := by
  rcases h with ⟨i, rfl, halike, hdone, hoff⟩
  have hrest := halike.rest
  have hsame : SameButInner { t with innerStream := i } t := ⟨i, rfl, halike, hdone, hoff⟩
  have hfill : ∀ n k k', SameButInner (filled { t with innerStream := i } n k) (t.filled n k') := by
    intro n k k'
    refine ⟨i.advance n k, ?_, halike.advance n k k', hdone, hoff⟩
    rw [filled, filled, hrest]
  by_cases hfit : 4 ≤ t.buffer.length
  swap
  · rw [readFixedHeader_outOfRange (s := { t with innerStream := i }) hfit, readFixedHeader_outOfRange hfit]
    exact hsame
  -- the three ways the source can answer: nothing, four bytes, or fewer
  by_cases hnil : t.innerStream.rest = []
  · obtain ⟨k, hk⟩ := readFixedHeader_end (s := { t with innerStream := i }) halike.opened hfit
      (hrest.trans hnil)
    obtain ⟨k', hk'⟩ := readFixedHeader_end (s := t) halike.opened' hfit hnil
    rw [hk, hk']
    have hzero := hfill 0 k k'
    rw [filled_zero, filled_zero] at hzero
    exact agree_ok hzero
  by_cases hfour : 4 ≤ t.innerStream.rest.length
  · obtain ⟨k, hk⟩ := readFixedHeader_eq (s := { t with innerStream := i }) halike.opened hfit
      (by rw [hrest]; exact hfour)
    obtain ⟨k', hk'⟩ := readFixedHeader_eq (s := t) halike.opened' hfit hfour
    rw [hk, hk']
    exact agree_ok (hfill 4 k k')
  · obtain ⟨k, hk⟩ := readFixedHeader_truncated (s := { t with innerStream := i }) halike.opened hfit
      (by rw [hrest]; exact hnil) (by rw [hrest]; omega)
    obtain ⟨k', hk'⟩ := readFixedHeader_truncated (s := t) halike.opened' hfit hnil (by omega)
    rw [hk, hk', hrest]
    exact hfill _ k k'

/-- `TryReadNextFrame`, without a table offset. -/
theorem SameButInner.tryReadNextFrame_agree (h : SameButInner s t) :
    Agree SameButInner (tryReadNextFrame c s) (tryReadNextFrame c t) := by
  rcases h.not_atSeekTable with ⟨hs, ht⟩
  rw [tryReadNextFrame, get_bind, get_bind, if_neg hs, if_neg ht]
  apply agree_bind h.readFixedHeader_agree
  intro more s₁ t₁ _ _ h₁
  cases more with
  | false => exact agree_ok h₁
  | true =>
    rw [if_neg Bool.noConfusion, get_bind, get_bind, sameButInner_frames.buffer h₁]
    apply agree_bind (h₁.fillSpan_agree _ _ _)
    intro _ s₂ t₂ _ _ h₂
    rw [get_bind, get_bind, sameButInner_frames.buffer h₂]
    refine agree_ofExcept_bind h₂ (fun header _ => ?_)
    apply agree_bind (h₂.fillSpan_agree _ _ _)
    intro _ s₃ t₃ _ _ h₃
    apply agree_bind (sameButInner_frames.decryptFrameSync_agree h₃ header)
    intro _ s₄ t₄ _ _ h₄
    apply agree_bind (sameButInner_frames.validateFrameAndSetBuffer_agree h₄ header)
    intro _ s₅ t₅ _ _ h₅
    exact agree_ok h₅

/-- `Read`, without a table offset. -/
theorem SameButInner.read_agree (h : SameButInner s t) (count : ℕ) :
    Agree SameButInner (ManagedSecurityStream.read c count s) (ManagedSecurityStream.read c count t) := by
  rcases h with ⟨i, rfl, halike, hdone, hoff⟩
  have hsame : SameButInner { t with innerStream := i } t := ⟨i, rfl, halike, hdone, hoff⟩
  have hnew : ¬ t.isHeaderProcessed = false := by
    rw [hdone]
    exact Bool.noConfusion
  rw [ManagedSecurityStream.read, get_bind, get_bind]
  refine agree_ensure_bind hsame (fun _ => ?_)
  rw [runIf_false hnew, pure_bind_run, pure_bind_run, get_bind, get_bind, readFuel, readFuel,
    halike.rest]
  exact sameButInner_frames.readLoop_agree (fun _ _ h => h.tryReadNextFrame_agree) count _ _ _ _ hsame

/-- Reads of any sizes have the same outcomes. -/
theorem SameButInner.attempts_agree (h : SameButInner s t) (sizes : List ℕ) :
    (attempts (ManagedSecurityStream.read c) sizes s).1.map Except.toOption =
      (attempts (ManagedSecurityStream.read c) sizes t).1.map Except.toOption := by
  have hbefore : ∀ (sizes : List ℕ) (t : ManagedSecurityStream),
      BeforeEach (fun _ => True) (ManagedSecurityStream.read c) sizes t := by
    intro sizes
    induction sizes with
    | nil =>
      intro t
      trivial
    | cons n sizes ih =>
      intro t
      exact ⟨trivial, ih _⟩
  exact (agree_attempts (P := fun _ => True) (fun count _ _ h _ => h.read_agree count) sizes s t h
    (hbefore sizes t)).1

/-! ## The master header -/

/-- The same object over another inner stream. -/
def OverInner (s t : ManagedSecurityStream) : Prop :=
  ∃ i, s = { t with innerStream := i } ∧ i.Alike t.innerStream

theorem OverInner.readArray_agree (h : OverInner s t) (message : String) (count : ℕ) :
    Agree OverInner (onInner (InnerStream.readArray message count) s)
      (onInner (InnerStream.readArray message count) t) := by
  rcases h with ⟨i, rfl, halike⟩
  refine agree_zoom_of (T := InnerStream.Alike) ?_ ?_
  · refine agree_zoom_of (T := fun r r' => r.1.Alike r'.1 ∧ r.2 = r'.2) ?_ (fun _ _ h => h.1)
    apply agree_bind (InnerStream.fillSpan_alike halike message 0 count _)
    rintro _ r r' - - h
    rw [get_bind, get_bind, h.2]
    exact agree_ok h
  · intro r r' hr
    exact ⟨r, rfl, hr⟩

theorem OverInner.readProtocolHeader_agree (h : OverInner s t) :
    Agree OverInner (readProtocolHeader s) (readProtocolHeader t) := by
  rw [readProtocolHeader]
  apply agree_bind (h.readArray_agree _ _)
  intro masterData s₁ t₁ _ _ h₁
  refine agree_ofExcept_bind h₁ (fun master _ => ?_)
  rcases h₁ with ⟨i, rfl, halike⟩
  rw [modify_bind, modify_bind]
  have h₂ : OverInner
      { t₁ with
        innerStream := i
        seekTableOffset := master.seekTableOffset
        chunkSize := master.chunkSize }
      { t₁ with seekTableOffset := master.seekTableOffset, chunkSize := master.chunkSize } :=
    ⟨i, rfl, halike⟩
  refine agree_ensure_bind h₂ (fun _ => ?_)
  by_cases hmeta : master.metadataLength > 0
  · rw [runIf_true hmeta]
    apply agree_bind (h₂.readArray_agree _ _)
    rintro metadata s₃ t₃ - - ⟨j, rfl, hj⟩
    exact agree_ok ⟨j, rfl, hj⟩
  · rw [runIf_false hmeta]
    exact agree_ok h₂

end ManagedSecurityStream

/-! ## Archives -/

/-- Over these bytes, readers whose inner streams can and cannot seek give the same
answers: the same data, and no data where the other gives none. -/
def ReadsAlike (c : Cipher) (data : Bytes) : Prop :=
  ∀ (inner inner' : InnerStream) (args : StreamArguments) (s s' : ManagedSecurityStream)
    (sizes : List ℕ),
    inner.Presents data true → inner'.Presents data false → args.skipMasterHeader = false →
    create inner .decrypt args = .ok s → create inner' .decrypt args = .ok s' →
    (attempts (read c) sizes s).1.map Except.toOption =
      (attempts (read c) sizes s').1.map Except.toOption

section

variable {A : Archiver} {data : Bytes} {c : Cipher}

theorem InnerStream.Presents.alike {i j : InnerStream} {seekable seekable' : Bool}
    (hi : i.Presents data seekable) (hj : j.Presents data seekable') : i.Alike j :=
  ⟨hi.data.trans hj.data.symm, hi.start.trans hj.start.symm, hi.opened, hj.opened⟩

/-- Fresh readers over like streams. -/
theorem create_overInner {i j : InnerStream} {args : StreamArguments} {s t : ManagedSecurityStream}
    (hij : i.Alike j) (hs : create i .decrypt args = .ok s) (ht : create j .decrypt args = .ok t) :
    OverInner s t := by
  rcases create_inv hs with ⟨size, hsize, -, rfl⟩
  rcases create_inv ht with ⟨size', hsize', -, rfl⟩
  obtain rfl := Except.ok.inj (hsize.symm.trans hsize')
  exact ⟨i, rfl, hij⟩

/-- Behind a master header without a table offset. -/
theorem Archiver.readsAlike_of_head {rest : Bytes} (hdata : data = A.head 0 ++ rest) :
    ReadsAlike c data := by
  intro inner inner' args s s' sizes hinner hinner' hskip hs hs'
  by_cases hnil : sizes = []
  · rw [hnil]
    rfl
  have hover := create_overInner (hinner.alike hinner') hs hs'
  have hfresh : ∀ {i : InnerStream} {b : Bool} {u : ManagedSecurityStream}, i.Presents data b →
      create i .decrypt args = .ok u → u.mode = .decrypt ∧ u.isHeaderProcessed = false ∧
        u.innerStream.closed = false ∧ u.innerStream.rest = A.head 0 ++ rest := by
    intro i b u hi hu
    rcases create_inv hu with ⟨size, -, -, rfl⟩
    refine ⟨rfl, hskip, hi.opened, ?_⟩
    show i.rest = _
    rw [InnerStream.rest, hi.start, hi.data, hdata]
    rfl
  rcases hfresh hinner hs with ⟨hmode, hnew, hopen, hrest⟩
  rcases hfresh hinner' hs' with ⟨hmode', hnew', hopen', hrest'⟩
  obtain ⟨k, hk⟩ := readProtocolHeader_announced hopen hrest rfl
  obtain ⟨k', hk'⟩ := readProtocolHeader_announced hopen' hrest' rfl
  -- both have processed the header before the first frame
  have hagree := hover.readProtocolHeader_agree
  rw [hk, hk'] at hagree
  rcases hagree with ⟨-, i, hsame, halike⟩
  rw [attempts_congr (fun count => read_after_header c count hnew hmode hk hmode) hnil,
    attempts_congr (fun count => read_after_header c count hnew' hmode' hk' hmode') hnil]
  refine SameButInner.attempts_agree ?_ sizes
  exact ⟨i, congrArg (fun u => { u with isHeaderProcessed := true }) hsame, halike, rfl, rfl⟩

/-- Bytes that are too short for a second header and do not start with one. -/
theorem readsAlike_of_no_header {e : Exn}
    (hparse : MasterHeader.parse (data.take MasterHeader.fixedSize) = .error e)
    (hshort : data.length < 44) : ReadsAlike c data := by
  -- every read throws, be it in front of the bytes or behind the first 22 of them
  let I : ManagedSecurityStream → Prop := fun s =>
    s.mode = .decrypt ∧ s.isHeaderProcessed = false ∧ s.innerStream.closed = false ∧
      (s.innerStream.rest = data ∨ s.innerStream.rest.length < MasterHeader.fixedSize)
  have hheader : ∀ s, I s → ∃ e s', readProtocolHeader s = .error e s' ∧ I s' := by
    rintro s ⟨hmode, hnew, hopen, hrest⟩
    by_cases hlong : MasterHeader.fixedSize ≤ s.innerStream.rest.length
    · have hwhole := hrest.resolve_right (by omega)
      obtain ⟨k, hk⟩ := InnerStream.readArray_eq "Master header truncated." hopen hlong
      refine ⟨e, { s with innerStream := s.innerStream.advance MasterHeader.fixedSize k }, ?_, ?_⟩
      · rw [readProtocolHeader, bind_ok (onInner_ok hk), hwhole, hparse]
        rfl
      · refine ⟨hmode, hnew, hopen, Or.inr ?_⟩
        show (s.innerStream.advance MasterHeader.fixedSize k).rest.length < 22
        rw [InnerStream.advance_rest, List.length_drop, hwhole]
        show data.length - 22 < 22
        omega
    · obtain ⟨k, hk⟩ := InnerStream.readArray_truncated "Master header truncated." hopen
        (Nat.lt_of_not_le hlong)
      refine ⟨_, { s with innerStream := s.innerStream.advance s.innerStream.rest.length k },
        bind_error (onInner_error hk), hmode, hnew, hopen, Or.inr ?_⟩
      show (s.innerStream.advance s.innerStream.rest.length k).rest.length < 22
      rw [InnerStream.advance_rest, List.length_drop, Nat.sub_self]
      omega
  have hread : ∀ count s, I s → ∃ e s', read c count s = .error e s' ∧ I s' := by
    intro count s hs
    rcases hheader s hs with ⟨e, s', hthrow, hs'⟩
    refine ⟨e, s', ?_, hs'⟩
    rw [ManagedSecurityStream.read, get_bind, bind_ok (ensure_true hs.1 _ _), runIf_true hs.2.1,
      bind_error (bind_error hthrow)]
  intro inner inner' args s s' sizes hinner hinner' hskip hs hs'
  have hfresh : ∀ {i : InnerStream} {b : Bool} {u : ManagedSecurityStream}, i.Presents data b →
      create i .decrypt args = .ok u → I u := by
    intro i b u hi hu
    rcases create_inv hu with ⟨size, -, -, rfl⟩
    refine ⟨rfl, hskip, hi.opened, Or.inl ?_⟩
    show i.rest = _
    rw [InnerStream.rest, hi.start, hi.data]
    rfl
  rw [attempts_throw hread sizes s (hfresh hinner hs), attempts_throw hread sizes s' (hfresh hinner' hs')]

end

/-! ## What calls leave -/

section

variable {A : Archiver} {calls : List WriteCall}

/-- Without a `Write` and a table there is only an empty frame. -/
theorem Archiver.unstarted_readsAlike (hnever : ¬ ∃ buffer, WriteCall.write buffer ∈ calls)
    (hnone : ¬ A.WritesTable calls) : ReadsAlike A.cipher (A.leaves (A.run .initial calls)) := by
  rw [(Archiver.leaves_unstarted (not_exists.mp hnever)).1 hnone]
  obtain ⟨e, hparse⟩ := A.parse_frame 0 (p := []) (by decide) []
  rw [List.append_nil] at hparse
  apply readsAlike_of_no_header hparse
  have hext := extCount_le A.keyIndex
  have hzero : extCount 0 = 0 := rfl
  rw [A.length_frame, List.length_nil, overhead, headerLength, hzero]
  omega

/-- Without a table the bytes are read alike. -/
theorem Archiver.untabled_readsAlike (hlong : (A.archive (A.run .initial calls)).length < 2 ^ 63)
    (hnone : ¬ A.WritesTable calls) : ReadsAlike A.cipher (A.leaves (A.run .initial calls)) := by
  by_cases hwrite : ∃ buffer, WriteCall.write buffer ∈ calls
  · rw [Archiver.leaves_of_started (Archiver.run_started calls .initial (Or.inr hwrite))]
    rcases A.archive_eq (A.run .initial calls) hlong with ⟨off, table, hform, ⟨rfl, -, -⟩ | ⟨-, -, hwt⟩⟩
    · exact Archiver.readsAlike_of_head hform
    · exact absurd ((A.writesTable_iff calls).mpr hwt) hnone
  · exact Archiver.unstarted_readsAlike hwrite hnone

/-- A reader that can seek stops in front of the table, and one that cannot throws there. -/
theorem Archiver.tabled_reads {payloads : List Bytes} {points : List SeekPoint} {data : Bytes}
    {off : UInt64} (hinv : A.cipher.crypto.Inverts)
    (hform : data = A.head off ++ (A.frames 0 payloads ++ SeekTable.bytes points))
    (hoff : off.toNat = (A.head 0 ++ A.frames 0 payloads).length)
    (hm : (A.metadata.getD []).length ≤ 65535)
    (hfits : ∀ p ∈ payloads, p.length < 2 ^ 25 ∧
      overhead p.length A.keyIndex + p.length ≤ overhead A.chunkSize A.keyIndex + A.chunkSize) :
    A.ReadsBack true data payloads.flatten ∧ ¬ ReadsAlike A.cipher data ∧
      ¬ A.ReadsBack false data payloads.flatten := by
  have hend : 0 < off ∧ off.toNat + (SeekTable.bytes points).length = data.length := by
    rw [UInt64.lt_iff_toNat_lt, hoff, hform]
    simp only [List.length_append, Archiver.length_head]
    constructor
    · show 0 < _
      omega
    · omega
  have hback : A.ReadsBack true data payloads.flatten :=
    Archiver.readsBack_of_form hinv hform hm hfits (Or.inr hoff.ge) (Or.inr ⟨rfl, hend⟩)
  obtain ⟨s', sizes, hs', hsizes, hthrows⟩ := Archiver.throws_at_table hinv hform hm hfits
  refine ⟨hback, ?_, ?_⟩
  · intro halike
    obtain ⟨s, outs, t, hs, hrun, -⟩ := hback (.byteByByte _ true) A.readerArguments sizes
      ⟨rfl, rfl, rfl, rfl⟩ rfl rfl rfl rfl hsizes
    have hsame := halike (.byteByByte _ true) (.byteByByte _ false) A.readerArguments s s' sizes
      ⟨rfl, rfl, rfl, rfl⟩ ⟨rfl, rfl, rfl, rfl⟩ rfl hs hs'
    rw [hrun] at hsame
    exact hthrows outs (map_toOption_ok hsame.symm)
  · intro hread
    obtain ⟨s, outs, t, hs, hrun, -⟩ := hread (.byteByByte _ false) A.readerArguments sizes
      ⟨rfl, rfl, rfl, rfl⟩ rfl rfl rfl rfl hsizes
    obtain rfl := Except.ok.inj (hs.symm.trans hs')
    exact hthrows outs (congrArg Prod.fst hrun)

end

/-- Any calls, asynchronous or not, and the end of the archive, over an empty seekable
sink. Without a seek table the bytes in the sink are read alike with and without
`CanSeek`. If there was a `Write` and the metadata fit their length field, a reader
that can seek returns what was written and does not throw, and a reader that cannot
does so exactly if there is no seek table. -/
theorem reading_seekable_irrelevant (A : Archiver) (asyncEncryptor : Option AsyncEncryptor)
    (sink : InnerStream) (calls : List (Bool × WriteCall)) (async : Bool)
    (hinv : A.cipher.crypto.Inverts)
    (hkernel : ∀ kernel ∈ asyncEncryptor, kernel.SealsAs A.cipher A.random)
    (hfresh : sink.Fresh A.seekable)
    (hlong : (A.archive (A.run .initial (calls.map Prod.snd))).length < 2 ^ 63) :
    ∃ w data, create sink .encrypt A.arguments = .ok w ∧
      data = (finalState (mixedArchiveCalls A.cipher asyncEncryptor A.random calls async
        w)).innerStream.data ∧
      (¬ A.WritesTable (calls.map Prod.snd) → ReadsAlike A.cipher data) ∧
      ((∃ buffer, WriteCall.write buffer ∈ calls.map Prod.snd) →
        (A.metadata.getD []).length ≤ 65535 →
        A.ReadsBack true data (writtenBytes (calls.map Prod.snd)) ∧
        (ReadsAlike A.cipher data ↔ ¬ A.WritesTable (calls.map Prod.snd)) ∧
        (A.ReadsBack false data (writtenBytes (calls.map Prod.snd)) ↔
          ¬ A.WritesTable (calls.map Prod.snd))) := by
  rcases create_writes hfresh with ⟨w, hcreate, hwrites⟩
  rcases archiveCalls_leaves hfresh (calls.map Prod.snd) with ⟨w', hcreate', -, hdata⟩
  obtain rfl := Except.ok.inj (hcreate.symm.trans hcreate')
  rw [← mixedArchiveCalls_eq hkernel hwrites calls async] at hdata
  generalize calls.map Prod.snd = calls at hlong hdata ⊢
  refine ⟨w, _, hcreate, hdata.symm, Archiver.untabled_readsAlike hlong, ?_⟩
  intro hwrite hm
  rw [Archiver.leaves_of_started (Archiver.run_started calls .initial (Or.inr hwrite)),
    ← A.flatten_payloads calls]
  rcases A.archive_eq (A.run .initial calls) hlong with
    ⟨off, table, hform, ⟨rfl, rfl, hno⟩ | ⟨hoff, rfl, hyes⟩⟩
  · -- no table: both readers come to the end of the data
    have hnone : ¬ A.WritesTable calls := fun h => hno ((A.writesTable_iff calls).mp h)
    have hback : ∀ seekable,
        A.ReadsBack seekable (A.archive (A.run .initial calls)) (A.payloads calls).flatten :=
      fun seekable => Archiver.readsBack_of_form hinv hform hm (A.fits_payload calls) (Or.inl rfl)
        (Or.inl rfl)
    exact ⟨hback true, iff_of_true (Archiver.readsAlike_of_head hform) hnone,
      iff_of_true (hback false) hnone⟩
  · have hwt : A.WritesTable calls := (A.writesTable_iff calls).mpr hyes
    rcases Archiver.tabled_reads hinv hform hoff hm (A.fits_payload calls) with
      ⟨hback, hnotAlike, hnotBack⟩
    exact ⟨hback, iff_of_false hnotAlike (not_not.mpr hwt), iff_of_false hnotBack (not_not.mpr hwt)⟩

/-- An archive that was never flushed. -/
theorem reading_seekable_irrelevant_unflushed :
    ∃ w data, create (InnerStream.sink true) .encrypt maskFour.arguments = .ok w ∧
      data = (finalState (mixedArchiveCalls maskFour.cipher none maskFour.random
        [(false, .write [1, 2, 3, 4, 5]), (true, .write [6])] true w)).innerStream.data ∧
      ReadsAlike maskFour.cipher data ∧ maskFour.ReadsBack false data [1, 2, 3, 4, 5, 6] := by
  have hnone : ¬ maskFour.WritesTable [.write [1, 2, 3, 4, 5], .write [6]] := by
    rintro ⟨-, hflush, -⟩
    exact absurd hflush (by decide)
  obtain ⟨w, data, hcreate, hdata, halike, hback⟩ := reading_seekable_irrelevant maskFour none
    (InnerStream.sink true) [(false, .write [1, 2, 3, 4, 5]), (true, .write [6])] true
    maskCrypto_inverts (fun _ h => by cases h) (InnerStream.sink_fresh true) (by decide +kernel)
  have hwritten : writtenBytes [.write [1, 2, 3, 4, 5], .write [6]] = [1, 2, 3, 4, 5, 6] := rfl
  exact ⟨w, data, hcreate, hdata, halike hnone,
    hwritten ▸ (hback ⟨[6], by simp⟩ (by decide)).2.2.mpr hnone⟩

/-- A flush between two writes. The reader that cannot seek throws where the other
one is at the end. -/
theorem flushed_archive_not_read_alike :
    ∃ w, create (InnerStream.sink true) .encrypt maskFour.arguments = .ok w ∧
      ¬ ReadsAlike maskFour.cipher (finalState (archiveCalls maskFour.cipher maskFour.random sixBytes
        w)).innerStream.data := by
  obtain ⟨w, hcreate, hdata⟩ := archived (A := maskFour) (InnerStream.sink_fresh true) sixBytes
    ⟨[6], by simp [sixBytes]⟩
  refine ⟨w, hcreate, ?_⟩
  rw [hdata]
  intro halike
  set data := maskFour.archive (maskFour.run .initial sixBytes) with harchive
  have hends : returns (fun s => (attempts (read maskFour.cipher) [9, 9, 9] s).1.map Except.toOption =
      [some [1, 2, 3, 4], some [5], some [6]])
      (create (.byteByByte data true) .decrypt maskFour.readerArguments) = true := by
    rw [harchive]
    decide +kernel
  have hthrows : returns (fun s => (attempts (read maskFour.cipher) [9, 9, 9] s).1.map Except.toOption =
      [some [1, 2, 3, 4], some [5], none])
      (create (.byteByByte data false) .decrypt maskFour.readerArguments) = true := by
    rw [harchive]
    decide +kernel
  rcases of_returns hends with ⟨s, hs, hrun⟩
  rcases of_returns hthrows with ⟨s', hs', hrun'⟩
  have hsame := halike (.byteByByte data true) (.byteByByte data false) maskFour.readerArguments s s'
    [9, 9, 9] ⟨rfl, rfl, rfl, rfl⟩ ⟨rfl, rfl, rfl, rfl⟩ rfl hs hs'
  rw [of_decide_eq_true hrun, of_decide_eq_true hrun'] at hsame
  cases hsame

end ManagedSecurity

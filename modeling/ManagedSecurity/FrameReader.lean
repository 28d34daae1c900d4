import ManagedSecurity.ArchiveLayout

/-! # Fetching one frame

Both frame readers of the stream read the fixed word, the extension bytes it
announces and the rest of the frame into the front of the buffer, and decrypt it
there.

* `filled`, `fill_eq` and its companions: the buffer is filled from the front of
  what is left of the inner stream, in several steps;
* `tryReadNextFrame_frame`: an honest frame is fetched and opened;
* `tryReadNextFrame_broken`: a frame that is cut off, or that does not fit the
  buffer, makes the reader throw.
-/

namespace ManagedSecurity

open Bytes Outcome ManagedSecurityStream

/-! ## Filling the buffer -/

namespace ManagedSecurityStream

/-- The stream with the next `n` bytes read into the front of its buffer. -/
def filled (s : ManagedSecurityStream) (n k : ℕ) : ManagedSecurityStream :=
  { s with
    innerStream := s.innerStream.advance n k
    buffer := overwrite s.buffer 0 (s.innerStream.rest.take n) }

variable {s : ManagedSecurityStream} {n m k : ℕ}

theorem filled_zero : s.filled 0 k = { s with innerStream := s.innerStream.advance 0 k } := by
  rw [filled, List.take_zero, overwrite_nil]

theorem length_filled (hn : n ≤ s.buffer.length) : (s.filled n k).buffer.length = s.buffer.length := by
  apply length_overwrite
  rw [List.length_take]
  omega

/-- What is read next goes right behind what is there. -/
theorem overwrite_filled (hn : n ≤ s.innerStream.rest.length) :
    overwrite (s.filled n k).buffer n ((s.innerStream.rest.drop n).take m) =
      overwrite s.buffer 0 (s.innerStream.rest.take (n + m)) := by
  have hlen : (s.innerStream.rest.take n).length = n := by
    rw [List.length_take]
    omega
  have hjoin : overwrite (s.filled n k).buffer (0 + (s.innerStream.rest.take n).length)
      ((s.innerStream.rest.drop n).take m) = overwrite s.buffer 0 (s.innerStream.rest.take n ++
        (s.innerStream.rest.drop n).take m) :=
    overwrite_overwrite_adjacent (Nat.zero_le s.buffer.length)
  rw [Nat.zero_add, hlen, ← List.take_add] at hjoin
  exact hjoin

theorem fill_eq (message : String) (hopen : s.innerStream.closed = false)
    (hfit : n + m ≤ s.buffer.length) (hrest : n + m ≤ s.innerStream.rest.length) :
    ∃ k', onFill (InnerStream.fillSpan message n m) (s.filled n k) = .ok () (s.filled (n + m) k') := by
  have hlen : n + m ≤ (s.filled n k).buffer.length := by
    rw [length_filled (by omega)]
    exact hfit
  have hleft : m ≤ (s.filled n k).innerStream.rest.length := by
    show m ≤ (s.innerStream.advance n k).rest.length
    rw [InnerStream.advance_rest, List.length_drop]
    omega
  obtain ⟨k', hk'⟩ := InnerStream.fillSpan_eq message (s := (s.filled n k).innerStream) hopen hlen hleft
  refine ⟨k', ?_⟩
  have hnext : (s.filled n k).innerStream.rest = s.innerStream.rest.drop n :=
    InnerStream.advance_rest _ _ _
  rw [hnext, overwrite_filled (by omega)] at hk'
  rw [onFill_ok hk']
  show EStateM.Result.ok () { s with innerStream := (s.innerStream.advance n k).advance m k', buffer := _ } = _
  rw [InnerStream.advance_advance]
  rfl

theorem fill_truncated (message : String) (hopen : s.innerStream.closed = false)
    (hfit : n + m ≤ s.buffer.length) (hn : n ≤ s.innerStream.rest.length)
    (hrest : s.innerStream.rest.length < n + m) :
    ∃ k', onFill (InnerStream.fillSpan message n m) (s.filled n k) =
      .error (.endOfStream message) (s.filled s.innerStream.rest.length k') := by
  have hlen : n + m ≤ (s.filled n k).buffer.length := by
    rw [length_filled (by omega)]
    exact hfit
  have hnext : (s.filled n k).innerStream.rest = s.innerStream.rest.drop n :=
    InnerStream.advance_rest _ _ _
  obtain ⟨k', hk'⟩ := InnerStream.fillSpan_truncated message (s := (s.filled n k).innerStream) hopen hlen
    (by rw [hnext, List.length_drop]; omega)
  refine ⟨k', ?_⟩
  have hall : s.innerStream.rest.drop n = (s.innerStream.rest.drop n).take
      (s.innerStream.rest.length - n) := by
    rw [List.take_of_length_le]
    rw [List.length_drop]
  have hdata : overwrite (s.filled n k).buffer n (s.innerStream.rest.drop n) =
      overwrite s.buffer 0 (s.innerStream.rest.take s.innerStream.rest.length) := by
    rw [hall, overwrite_filled hn, Nat.add_sub_cancel' hn]
  rw [hnext, hdata] at hk'
  rw [onFill_error hk']
  show EStateM.Result.error _ { s with
    innerStream := (s.innerStream.advance n k).advance (s.innerStream.rest.drop n).length k'
    buffer := _ } = _
  rw [InnerStream.advance_advance, List.length_drop, Nat.add_sub_cancel' hn]
  rfl

theorem fill_outOfRange (message : String) (hn : n ≤ s.buffer.length) (hm : 0 < m)
    (hfit : ¬ n + m ≤ s.buffer.length) :
    onFill (InnerStream.fillSpan message n m) (s.filled n k) =
      .error (.argumentOutOfRange "") (s.filled n k) := by
  have hlen : ¬ n + m ≤ (s.filled n k).buffer.length := by
    rw [length_filled hn]
    exact hfit
  exact onFill_error (InnerStream.fillSpan_outOfRange message hm hlen)

/-- The first read of a frame. -/
theorem readFixedHeader_first (hopen : s.innerStream.closed = false) (hfit : 4 ≤ s.buffer.length) :
    ∃ r, onFill (InnerStream.readInto 0 4) s = .ok r (s.filled r (s.innerStream.reads + 1)) ∧ r ≤ 4 ∧
      r ≤ s.innerStream.rest.length ∧ (r = 0 → s.innerStream.rest = []) := by
  have hwindow : 0 + 4 ≤ s.buffer.length := by omega
  rcases InnerStream.readInto_eq hopen hwindow with ⟨chunk, hread, hfront, hle, hnil⟩
  refine ⟨chunk.length, ?_, hle, ?_, ?_⟩
  · rw [onFill_ok hread, filled, ← hfront]
  · have hlen := congrArg List.length hfront
    rw [List.length_take] at hlen
    omega
  · intro hzero
    exact (hnil (List.eq_nil_of_length_eq_zero hzero)).resolve_left (by decide)

theorem onFill_bind {α β : Type} (x : FillM α) (f : α → FillM β) (s : ManagedSecurityStream) :
    onFill (x >>= f) s = (onFill x >>= fun a => onFill (f a)) s := by
  cases hx : x (s.innerStream, s.buffer) with
  | ok a t =>
    have hbind : (x >>= f) (s.innerStream, s.buffer) = f a t := bind_ok hx
    rw [bind_ok (onFill_ok hx), onFill, zoom, hbind]
    rfl
  | error e t =>
    have hbind : (x >>= f) (s.innerStream, s.buffer) = .error e t := bind_error hx
    rw [bind_error (onFill_error hx), onFill_error hbind]

/-- `readFixedHeader` after its first read. -/
theorem readFixedHeader_run {r : ℕ} {s' : ManagedSecurityStream}
    (h : onFill (InnerStream.readInto 0 4) s = .ok r s') (hr : r ≠ 0) :
    onFill readFixedHeader s =
      (onFill (InnerStream.fillSpan "Frame header truncated." r (4 - r)) >>= fun _ => pure true) s' := by
  rw [readFixedHeader, onFill_bind, bind_ok h, if_neg hr, onFill_bind]
  rfl

theorem readFixedHeader_eq (hopen : s.innerStream.closed = false) (hfit : 4 ≤ s.buffer.length)
    (hrest : 4 ≤ s.innerStream.rest.length) :
    ∃ k', onFill readFixedHeader s = .ok true (s.filled 4 k') := by
  rcases readFixedHeader_first hopen hfit with ⟨r, hfirst, hr, hle, hnil⟩
  have hne : r ≠ 0 := by
    intro hzero
    rw [hnil hzero, List.length_nil] at hrest
    omega
  obtain ⟨k', hk'⟩ := fill_eq (s := s) (n := r) (m := 4 - r) (k := s.innerStream.reads + 1)
    "Frame header truncated." hopen (by omega) (by omega)
  rw [Nat.add_sub_cancel' hr] at hk'
  refine ⟨k', ?_⟩
  rw [readFixedHeader_run hfirst hne, bind_ok hk']
  rfl

/-- No byte is left: the end of the stream. -/
theorem readFixedHeader_end (hopen : s.innerStream.closed = false) (hfit : 4 ≤ s.buffer.length)
    (hrest : s.innerStream.rest = []) :
    ∃ k', onFill readFixedHeader s = .ok false { s with innerStream := s.innerStream.advance 0 k' } := by
  rcases readFixedHeader_first hopen hfit with ⟨r, hfirst, -, hle, -⟩
  rw [hrest, List.length_nil] at hle
  obtain rfl : r = 0 := by omega
  refine ⟨s.innerStream.reads + 1, ?_⟩
  rw [readFixedHeader, onFill_bind, bind_ok hfirst, if_pos rfl, filled_zero]
  rfl

/-- Some but not all of the four bytes are left. -/
theorem readFixedHeader_truncated (hopen : s.innerStream.closed = false) (hfit : 4 ≤ s.buffer.length)
    (hne : s.innerStream.rest ≠ []) (hrest : s.innerStream.rest.length < 4) :
    ∃ k', onFill readFixedHeader s = .error (.endOfStream "Frame header truncated.")
      (s.filled s.innerStream.rest.length k') := by
  rcases readFixedHeader_first hopen hfit with ⟨r, hfirst, hr, hle, hnil⟩
  obtain ⟨k', hk'⟩ := fill_truncated (s := s) (n := r) (m := 4 - r) (k := s.innerStream.reads + 1)
    "Frame header truncated." hopen (by omega) hle (by omega)
  refine ⟨k', ?_⟩
  rw [readFixedHeader_run hfirst (fun hzero => hne (hnil hzero)), bind_error hk']

theorem readFixedHeader_outOfRange (hfit : ¬ 4 ≤ s.buffer.length) :
    onFill readFixedHeader s = .error (.argumentOutOfRange "") s := by
  have hread : InnerStream.readInto 0 4 (s.innerStream, s.buffer) =
      .error (.argumentOutOfRange "") (s.innerStream, s.buffer) :=
    InnerStream.readInto_outOfRange (by omega)
  rw [readFixedHeader, onFill_bind, bind_error (onFill_error hread)]

/-- What the first fetch of a frame can come to without throwing. -/
theorem readFixedHeader_ok {more : Bool} {s' : ManagedSecurityStream}
    (h : onFill readFixedHeader s = .ok more s') :
    4 ≤ s.buffer.length ∧
      ((more = true ∧ 4 ≤ s.innerStream.rest.length ∧ ∃ k, s' = s.filled 4 k) ∨
        (more = false ∧
          ∃ k, s' = { s with innerStream := s.innerStream.advance 0 k })) := by
  by_cases hfit : 4 ≤ s.buffer.length
  swap
  · rw [readFixedHeader_outOfRange hfit] at h
    cases h
  refine ⟨hfit, ?_⟩
  cases hclosed : s.innerStream.closed with
  | true =>
    rcases InnerStream.readInto_closed hclosed s.buffer 0 4 with ⟨e, he⟩
    rw [readFixedHeader, onFill_bind, bind_error (onFill_error he)] at h
    cases h
  | false =>
    -- the end of the stream, a whole word, or something in between
    by_cases hnil : s.innerStream.rest = []
    · rcases readFixedHeader_end hclosed hfit hnil with ⟨k, hk⟩
      rw [hk] at h
      rcases EStateM.Result.ok.inj h with ⟨rfl, rfl⟩
      exact Or.inr ⟨rfl, k, rfl⟩
    by_cases hrest : 4 ≤ s.innerStream.rest.length
    · rcases readFixedHeader_eq hclosed hfit hrest with ⟨k, hk⟩
      rw [hk] at h
      rcases EStateM.Result.ok.inj h with ⟨rfl, rfl⟩
      exact Or.inl ⟨rfl, hrest, k, rfl⟩
    · rcases readFixedHeader_truncated hclosed hfit hnil (Nat.lt_of_not_le hrest) with ⟨k, hk⟩
      rw [hk] at h
      cases h

/-- The first four bytes are there once they have been read. -/
theorem readFixedHeader_inv {more : Bool} {s' : ManagedSecurityStream}
    (h : onFill readFixedHeader s = .ok more s') : 4 ≤ s'.buffer.length := by
  rcases readFixedHeader_ok h with ⟨hfit, ⟨-, -, k, rfl⟩ | ⟨-, k, rfl⟩⟩
  · rw [length_filled hfit]
    exact hfit
  · exact hfit

/-- The extension bytes are there once they have been read, and the word in
front of them is the one that announced them. -/
theorem extensions_inv {message : String} {s' : ManagedSecurityStream} {u : Unit}
    (h4 : 4 ≤ s.buffer.length)
    (h : onFill (InnerStream.fillSpan message 4
      (calculateHeaderExtensions (headerWord s.buffer))) s = .ok u s') :
    headerWord s'.buffer = headerWord s.buffer ∧
      headerSize (headerWord s'.buffer) ≤ s'.buffer.length := by
  rcases zoom_eq_ok.mp h with ⟨t, hfill, rfl⟩
  rcases InnerStream.fillSpan_inv hfill with ⟨hrest, hfit, k, rfl⟩
  set n := calculateHeaderExtensions (headerWord s.buffer) with hn
  have hroom : 4 + n ≤ s.buffer.length := by
    rcases hfit with hzero | ⟨-, hfit⟩
    · omega
    · exact hfit
  have htake : ((s.innerStream.rest.take n)).length = n := by
    rw [List.length_take]
    omega
  have hlen : (overwrite s.buffer 4 (s.innerStream.rest.take n)).length = s.buffer.length :=
    length_overwrite (by omega)
  have hword : headerWord (overwrite s.buffer 4 (s.innerStream.rest.take n)) = headerWord s.buffer := by
    rw [headerWord_take (by omega), headerWord_take h4, take_overwrite_of_le le_rfl h4]
  refine ⟨hword, ?_⟩
  show headerSize (headerWord (overwrite s.buffer 4 _)) ≤ (overwrite s.buffer 4 _).length
  rw [hword, hlen, ← calculateHeaderExtensions_eq]
  exact hroom

end ManagedSecurityStream

/-! ## Opening a frame -/

section

variable {S : Sealer} {s : ManagedSecurityStream} {i : ℕ} {p slack : Bytes}

theorem builtHeader_size (n K : ℕ) :
    (builtHeader n K 2).totalLength = (overhead n K + n : ℕ) ∧
      (builtHeader n K 2).totalLength - (builtHeader n K 2).payloadLength = overhead n K := by
  have htotal : (builtHeader n K 2).totalLength = ((overhead n K : ℕ) : ℤ) + n := rfl
  have hpayload : (builtHeader n K 2).payloadLength = n := rfl
  rw [htotal, hpayload]
  push_cast
  exact ⟨rfl, by ring⟩

/-- The part of a frame in front of its payload. -/
theorem take_frame (S : Sealer) (i : ℕ) (p slack : Bytes) :
    ∃ back, (S.frame i p ++ slack).take (overhead p.length S.keyIndex) =
      headerBytes p.length S.keyIndex 2 ++ (beBytes 8 (S.sequence i).toNat ++ back) := by
  set call := Cipher.callS2 S.key (fill (S.random i) 12) p S.keyIndex (S.sequence i) with hcall
  refine ⟨fill (S.random i) 12 ++ (S.cipher.crypto.output call).2, ?_⟩
  have hform : S.frame i p ++ slack =
      (headerBytes p.length S.keyIndex 2 ++ (beBytes 8 (S.sequence i).toNat ++
        (fill (S.random i) 12 ++ (S.cipher.crypto.output call).2))) ++
          ((S.cipher.crypto.output call).1 ++ slack) := by
    simp only [Sealer.frame, Cipher.messageS2, List.append_assoc, hcall]
  rw [hform]
  apply List.take_left'
  have htag : (S.cipher.crypto.output call).2.length = 16 := S.cipher.crypto.length_tag _ _ _ _
  simp only [List.length_append, length_headerBytes, length_beBytes, length_fill, htag, overhead]

/-- The sequence number stands in front of the payload: whatever is behind it, it can be
read. -/
theorem getSequence_front (S : Sealer) (i : ℕ) (p slack back : Bytes) :
    (builtHeader p.length S.keyIndex 2).getSequence
      ((S.frame i p ++ slack).take (overhead p.length S.keyIndex) ++ back) =
        .ok (beBytes 8 (S.sequence i).toNat) := by
  rcases take_frame S i p slack with ⟨middle, hfront⟩
  have hpos : (builtHeader p.length S.keyIndex 2).sequenceLength > 0 := Nat.zero_lt_succ 7
  have hoff : ((builtHeader p.length S.keyIndex 2).ivOffset : ℤ) -
      (builtHeader p.length S.keyIndex 2).sequenceLength = (headerBytes p.length S.keyIndex 2).length := by
    show ((headerLength p.length S.keyIndex + 8 : ℕ) : ℤ) - (8 : ℕ) = _
    rw [length_headerBytes]
    push_cast
    ring
  rw [Header.getSequence, if_pos hpos, hfront, List.append_assoc, List.append_assoc]
  exact sliceSpan_middle _ _ _ hoff (by rw [length_beBytes]; rfl)

theorem ofNat_beNat_beBytes (n : UInt64) : UInt64.ofNat (beNat ((beBytes 8 n.toNat).take 8)) = n := by
  have hmod : n.toNat % 256 ^ 8 = n.toNat := Nat.mod_eq_of_lt n.toNat_lt
  rw [List.take_of_length_le (by rw [length_beBytes]), beNat_beBytes, hmod, UInt64.ofNat_toNat]

/-- The payload in the place where the frame had its ciphertext. -/
theorem slice_opened (hbuf : s.buffer = S.frame i p ++ slack) :
    (overwrite s.buffer (overhead p.length S.keyIndex) p).length = s.buffer.length ∧
      slice (overwrite s.buffer (overhead p.length S.keyIndex) p) (overhead p.length S.keyIndex)
        p.length = p := by
  have hlen : s.buffer.length = overhead p.length S.keyIndex + p.length + slack.length := by
    rw [hbuf, List.length_append, Sealer.length_frame]
  exact ⟨length_overwrite (by omega), slice_overwrite_self (by omega)⟩

/-- A frame that has been decrypted in place passes the check, and its payload can be read. -/
theorem validateFrame_opened (hbuf : s.buffer = S.frame i p ++ slack)
    (hseq : s.sequenceNumber = S.sequence i) :
    validateFrameAndSetBuffer (builtHeader p.length S.keyIndex 2)
      { s with buffer := overwrite s.buffer (overhead p.length S.keyIndex) p } =
        .ok () { s with
          buffer := overwrite s.buffer (overhead p.length S.keyIndex) p
          readBufferOffset := overhead p.length S.keyIndex
          readBufferCount := p.length
          sequenceNumber := s.sequenceNumber + 1
          framesDecrypted := s.framesDecrypted ++ [p] } := by
  set O := overhead p.length S.keyIndex with hO
  set h := builtHeader p.length S.keyIndex 2 with hh
  rcases builtHeader_size p.length S.keyIndex with ⟨-, hsize⟩
  rw [← hO, ← hh] at hsize
  have hplain := (slice_opened hbuf).2
  rw [← hO] at hplain
  -- the decryption leaves the bytes in front of the payload alone
  have hsequence : h.getSequence (overwrite s.buffer O p) =
      .ok (beBytes 8 (S.sequence i).toNat) := by
    rw [overwrite, hbuf]
    exact getSequence_front S i p slack _
  have hnumber : UInt64.ofNat (beNat ((beBytes 8 (S.sequence i).toNat).take 8)) = s.sequenceNumber :=
    (ofNat_beNat_beBytes _).trans hseq.symm
  rw [validateFrameAndSetBuffer, get_bind, bind_ok (ofExcept_eq hsequence),
    bind_ok (ensure_true (by rw [length_beBytes]) _ _), bind_ok (ensure_true hnumber _ _), modify_run]
  have hcount : h.payloadLength.toNat = p.length := Int.toNat_natCast p.length
  simp only [hsize, hcount, Int.toNat_natCast, hplain]

/-- The message that is decrypted is the frame at the front of the buffer. -/
theorem message_buffered (hbuf : s.buffer = S.frame i p ++ slack) :
    sliceSpan s.buffer 0 (builtHeader p.length S.keyIndex 2).totalLength = .ok (S.frame i p) := by
  rw [hbuf, (builtHeader_size p.length S.keyIndex).1]
  exact sliceSpan_middle [] _ _ rfl (congrArg Nat.cast (Sealer.length_frame S i p).symm)

/-- A frame in the buffer is decrypted in place, and its payload can be read. -/
theorem openFrame_eq (hopens : S.cipher.crypto.Opens (S.call i p)) (hL : p.length < 2 ^ 25)
    (hbuf : s.buffer = S.frame i p ++ slack) (hseq : s.sequenceNumber = S.sequence i) :
    ∃ b, b.length = s.buffer.length ∧ slice b (overhead p.length S.keyIndex) p.length = p ∧
      (do
        decryptFrameSync S.cipher (builtHeader p.length S.keyIndex 2)
        validateFrameAndSetBuffer (builtHeader p.length S.keyIndex 2) : StreamM Unit) s =
          .ok () { s with
            buffer := b
            readBufferOffset := overhead p.length S.keyIndex
            readBufferCount := p.length
            sequenceNumber := s.sequenceNumber + 1
            framesDecrypted := s.framesDecrypted ++ [p] } := by
  set O := overhead p.length S.keyIndex with hO
  set h := builtHeader p.length S.keyIndex 2 with hh
  rcases builtHeader_size p.length S.keyIndex with ⟨htotal, hsize⟩
  rw [← hO, ← hh] at htotal hsize
  have hlen : s.buffer.length = O + p.length + slack.length := by
    rw [hbuf, List.length_append, Sealer.length_frame]
  have hmessage : sliceSpan s.buffer 0 h.totalLength = .ok (S.frame i p) := message_buffered hbuf
  have hrange : 0 ≤ h.totalLength - h.payloadLength ∧
      h.totalLength - h.payloadLength ≤ s.buffer.length := by
    rw [hsize]
    omega
  have hdecrypt : S.cipher.decryptInto (S.frame i p) (s.buffer.drop O) =
      .ok () (overwrite (s.buffer.drop O) 0 p) := by
    have hrun : S.cipher.decryptInto (S.frame i p ++ []) (s.buffer.drop O) = _ :=
      Cipher.decryptInto_messageS2 hopens S.provided S.valid (length_fill (S.random i) 12) hL
        S.keyIndex_lt (by rw [List.length_drop]; omega) []
    rw [List.append_nil] at hrun
    exact hrun
  have hback : overwrite (s.buffer.drop O) 0 p = p ++ s.buffer.drop (O + p.length) := by
    rw [overwrite, List.take_zero, List.nil_append, List.drop_drop, Nat.zero_add]
  rw [hback] at hdecrypt
  have hopen : decryptFrameSync S.cipher h s =
      .ok () { s with buffer := overwrite s.buffer O p } := by
    rw [decryptFrameSync, get_bind, bind_ok (ofExcept_eq hmessage), bind_ok (ensure_true hrange _ _)]
    simp only [hsize, Int.toNat_natCast]
    exact zoom_ok hdecrypt
  rcases slice_opened hbuf with ⟨hblen, hplain⟩
  refine ⟨overwrite s.buffer O p, hblen, hplain, ?_⟩
  rw [bind_ok hopen]
  exact validateFrame_opened hbuf hseq

/-- The bytes read so far are the front of the buffer. -/
theorem buffer_filled {n k : ℕ} (hn : n ≤ s.innerStream.rest.length) :
    (s.filled n k).buffer = s.innerStream.rest.take n ++ s.buffer.drop n := by
  show overwrite s.buffer 0 (s.innerStream.rest.take n) = _
  rw [overwrite, List.take_zero, List.nil_append, Nat.zero_add, List.length_take, Nat.min_eq_left hn]

/-- The fixed word of a frame announces its extension bytes. -/
theorem extensions_filled {L K k : ℕ} (hL : L < 2 ^ 25) (hK : K < 2 ^ 25) (hfit : 4 ≤ s.buffer.length)
    (hrest : 4 ≤ s.innerStream.rest.length)
    (hfront : s.innerStream.rest.take 4 = (headerBytes L K 2).take 4) :
    calculateHeaderExtensions (headerWord (s.filled 4 k).buffer) = headerLength L K - 4 := by
  have htake : (s.filled 4 k).buffer.take 4 = (headerBytes L K 2).take 4 := by
    rw [buffer_filled hrest, List.take_left' (by rw [List.length_take]; omega), hfront]
  have hlen : 4 ≤ (headerBytes L K 2).length := by
    rw [length_headerBytes, headerLength]
    omega
  have hword : headerWord (s.filled 4 k).buffer = fixedWord L K 2 := by
    have hbytes := headerWord_headerBytes [] hL hK (le_refl 2)
    rw [List.append_nil] at hbytes
    rw [headerWord_take (by rw [length_filled hfit]; exact hfit), htake, ← headerWord_take hlen, hbytes]
  have hsize := calculateHeaderExtensions_eq (headerWord (s.filled 4 k).buffer)
  rw [hword, headerSize_fixedWord hL hK] at hsize
  rw [hword]
  omega

/-- The header bytes are read in two steps, four first, and parsed. -/
theorem headerBytes_filled (message : String) {L K : ℕ} (hL : L < 2 ^ 25) (hK : K < 2 ^ 25)
    (hopen : s.innerStream.closed = false) (hfit : headerLength L K ≤ s.buffer.length)
    (hfront : s.innerStream.rest.take (headerLength L K) = headerBytes L K 2) :
    ∃ k₁ k₂, onFill readFixedHeader s = .ok true (s.filled 4 k₁) ∧
      4 + calculateHeaderExtensions (headerWord (s.filled 4 k₁).buffer) = headerLength L K ∧
      onFill (InnerStream.fillSpan message 4
          (calculateHeaderExtensions (headerWord (s.filled 4 k₁).buffer))) (s.filled 4 k₁) =
        .ok () (s.filled (headerLength L K) k₂) ∧
      (s.filled (headerLength L K) k₂).buffer =
        headerBytes L K 2 ++ s.buffer.drop (headerLength L K) := by
  set H := headerLength L K with hH
  have hfour : 4 ≤ H := by
    rw [hH, headerLength]
    omega
  have hrest : H ≤ s.innerStream.rest.length := by
    have hlen := congrArg List.length hfront
    rw [List.length_take, length_headerBytes] at hlen
    omega
  -- four bytes first, then as many as the word announces
  rcases readFixedHeader_eq (s := s) hopen (by omega) (by omega) with ⟨k₁, hfixed⟩
  have hext : calculateHeaderExtensions (headerWord (s.filled 4 k₁).buffer) = H - 4 := by
    apply extensions_filled hL hK (by omega) (by omega)
    rw [← hfront, List.take_take, Nat.min_eq_left hfour]
  obtain ⟨k₂, hexts⟩ := fill_eq (s := s) (n := 4) (m := H - 4) (k := k₁) message hopen (by omega)
    (by omega)
  rw [Nat.add_sub_cancel' hfour] at hexts
  refine ⟨k₁, k₂, hfixed, by omega, ?_, ?_⟩
  · rw [hext, hexts]
  · rw [buffer_filled hrest, hfront]

/-- `TryReadNextFrame` up to the parsed header: the header bytes are there and
fit the buffer. -/
theorem tryReadNextFrame_header (c : Cipher) {L K : ℕ} (hL : L < 2 ^ 25) (hK : K < 2 ^ 25)
    (hopen : s.innerStream.closed = false) (hcut : ¬ s.atSeekTable)
    (hfit : headerLength L K ≤ s.buffer.length)
    (hfront : s.innerStream.rest.take (headerLength L K) = headerBytes L K 2) :
    ∃ k, tryReadNextFrame c s = (do
      onFill (InnerStream.fillSpan "Frame data truncated." (headerLength L K) (36 + L))
      decryptFrameSync c (builtHeader L K 2)
      validateFrameAndSetBuffer (builtHeader L K 2)
      pure true : StreamM Bool) (s.filled (headerLength L K) k) := by
  rcases headerBytes_filled "Header extensions truncated." hL hK hopen hfit hfront with
    ⟨k₁, k₂, hfixed, hext, hexts, hbuffer⟩
  have hparse : Header.parse (s.filled (headerLength L K) k₂).buffer = .ok (builtHeader L K 2) := by
    rw [hbuffer]
    exact parse_headerBytes _ hL hK le_rfl
  have hremaining : ((builtHeader L K 2).totalLength - (headerLength L K : ℤ)).toNat = 36 + L := by
    rw [(builtHeader_size L K).1, overhead]
    omega
  refine ⟨k₂, ?_⟩
  rw [tryReadNextFrame, get_bind, if_neg hcut, bind_ok hfixed, if_neg Bool.noConfusion, get_bind,
    bind_ok hexts, get_bind, bind_ok (ofExcept_eq hparse)]
  simp only [hext, hremaining]

/-- The header bytes of a frame. -/
theorem take_headerLength (S : Sealer) (i : ℕ) (p : Bytes) :
    (S.frame i p).take (headerLength p.length S.keyIndex) = headerBytes p.length S.keyIndex 2 :=
  List.take_left' (length_headerBytes _ _ _)

/-- `TryReadNextFrame` in front of a frame that fits the buffer. -/
theorem tryReadNextFrame_frame {tail : Bytes} (hopens : S.cipher.crypto.Opens (S.call i p))
    (hopen : s.innerStream.closed = false) (hcut : ¬ s.atSeekTable)
    (hrest : s.innerStream.rest = S.frame i p ++ tail) (hL : p.length < 2 ^ 25)
    (hroom : overhead p.length S.keyIndex + p.length ≤ s.buffer.length)
    (hseq : s.sequenceNumber = S.sequence i) :
    ∃ b k, b.length = s.buffer.length ∧ slice b (overhead p.length S.keyIndex) p.length = p ∧
      tryReadNextFrame S.cipher s = .ok true { s with
        innerStream := s.innerStream.advance (S.frame i p).length k
        buffer := b
        readBufferOffset := overhead p.length S.keyIndex
        readBufferCount := p.length
        sequenceNumber := s.sequenceNumber + 1
        framesDecrypted := s.framesDecrypted ++ [p] } := by
  set H := headerLength p.length S.keyIndex with hH
  have hover : overhead p.length S.keyIndex = H + 36 := rfl
  have hframeLen : (S.frame i p).length = H + (36 + p.length) := by
    rw [Sealer.length_frame, hover]
    omega
  have hlong : H + (36 + p.length) ≤ s.innerStream.rest.length := by
    rw [hrest, List.length_append, hframeLen]
    omega
  have hfront : s.innerStream.rest.take H = headerBytes p.length S.keyIndex 2 := by
    rw [hrest, List.take_append_of_le_length (by omega), take_headerLength]
  obtain ⟨k₁, hheader⟩ := tryReadNextFrame_header S.cipher hL S.keyIndex_lt hopen hcut (by omega) hfront
  obtain ⟨k₂, hdata⟩ := fill_eq (s := s) (n := H) (m := 36 + p.length) (k := k₁)
    "Frame data truncated." hopen (by omega) (by omega)
  have hbuf : (s.filled (H + (36 + p.length)) k₂).buffer =
      S.frame i p ++ s.buffer.drop (H + (36 + p.length)) := by
    rw [buffer_filled hlong, hrest, List.take_left' hframeLen]
  -- the whole frame is in the buffer now: open it there
  rcases openFrame_eq hopens hL hbuf hseq with ⟨b, hblen, hplain, hframe⟩
  refine ⟨b, k₂, hblen.trans (length_filled (by omega)), hplain, ?_⟩
  rcases bind_eq_ok.mp hframe with ⟨u, s₁, hdecrypt, hvalidate⟩
  rw [hheader, bind_ok hdata, bind_ok hdecrypt, bind_ok hvalidate, hframeLen]
  rfl

/-- Extension bytes that are cut off by the end of the stream, or that do not fit
the buffer. -/
theorem tryReadNextFrame_extensions (c : Cipher) {L K : ℕ} (hL : L < 2 ^ 25) (hK : K < 2 ^ 25)
    (hopen : s.innerStream.closed = false) (hcut : ¬ s.atSeekTable) (hfit : 4 ≤ s.buffer.length)
    (hrest : 4 ≤ s.innerStream.rest.length)
    (hfront : s.innerStream.rest.take 4 = (headerBytes L K 2).take 4)
    (hbroken : s.innerStream.rest.length < headerLength L K ∨ s.buffer.length < headerLength L K) :
    ∃ e s', tryReadNextFrame c s = .error e s' := by
  rcases readFixedHeader_eq hopen hfit hrest with ⟨k, hfixed⟩
  have hrun : ∀ {e s'}, onFill (InnerStream.fillSpan "Header extensions truncated." 4
      (headerLength L K - 4)) (s.filled 4 k) = .error e s' → tryReadNextFrame c s = .error e s' := by
    intro e s' herror
    rw [tryReadNextFrame, get_bind, if_neg hcut, bind_ok hfixed, if_neg Bool.noConfusion, get_bind]
    simp only [extensions_filled hL hK hfit hrest hfront]
    exact bind_error herror
  by_cases hroom : 4 + (headerLength L K - 4) ≤ s.buffer.length
  · obtain ⟨k', herror⟩ := fill_truncated (s := s) (k := k) "Header extensions truncated." hopen hroom
      hrest (by omega)
    exact ⟨_, _, hrun herror⟩
  · exact ⟨_, _, hrun (fill_outOfRange "Header extensions truncated." hfit (by omega) hroom)⟩

/-- `TryReadNextFrame` in front of a frame that is cut off by the end of the
stream, or that does not fit the buffer. -/
theorem tryReadNextFrame_broken (c : Cipher) (hopen : s.innerStream.closed = false)
    (hcut : ¬ s.atSeekTable) (hL : p.length < 2 ^ 25) (hne : s.innerStream.rest ≠ [])
    (hfront : s.innerStream.rest.take (S.frame i p).length =
      (S.frame i p).take s.innerStream.rest.length)
    (hbroken : s.innerStream.rest.length < (S.frame i p).length ∨
      s.buffer.length < (S.frame i p).length) :
    ∃ e s', tryReadNextFrame c s = .error e s' := by
  set H := headerLength p.length S.keyIndex with hH
  have hframeLen : (S.frame i p).length = H + (36 + p.length) := by
    rw [Sealer.length_frame, overhead]
    omega
  have hfour : 4 ≤ H := by
    rw [hH, headerLength]
    omega
  have hsame : ∀ n, n ≤ (S.frame i p).length → n ≤ s.innerStream.rest.length →
      s.innerStream.rest.take n = (S.frame i p).take n := by
    intro n hn hn'
    have htake := congrArg (List.take n) hfront
    rwa [List.take_take, List.take_take, Nat.min_eq_left hn, Nat.min_eq_left hn'] at htake
  have hfixed : ∀ {e s'}, onFill readFixedHeader s = .error e s' →
      tryReadNextFrame c s = .error e s' := by
    intro e s' herror
    rw [tryReadNextFrame, get_bind, if_neg hcut, bind_error herror]
  by_cases hbuf₄ : ¬ 4 ≤ s.buffer.length
  · exact ⟨_, _, hfixed (readFixedHeader_outOfRange hbuf₄)⟩
  by_cases hrest₄ : s.innerStream.rest.length < 4
  · rcases readFixedHeader_truncated hopen (not_not.mp hbuf₄) hne hrest₄ with ⟨k, herror⟩
    exact ⟨_, _, hfixed herror⟩
  by_cases hext : s.innerStream.rest.length < H ∨ s.buffer.length < H
  · refine tryReadNextFrame_extensions c hL S.keyIndex_lt hopen hcut (by omega) (by omega) ?_ hext
    rw [hsame 4 (by omega) (by omega), ← take_headerLength S i p, List.take_take, Nat.min_eq_left hfour]
  · -- the header is there: the data are not, or there is no room for them
    have hbytes : s.innerStream.rest.take H = headerBytes p.length S.keyIndex 2 := by
      rw [hsame H (by omega) (by omega), take_headerLength]
    rcases tryReadNextFrame_header c hL S.keyIndex_lt hopen hcut (by omega) hbytes with ⟨k, hheader⟩
    rw [hheader]
    by_cases hfit : H + (36 + p.length) ≤ s.buffer.length
    · obtain ⟨k', hdata⟩ := fill_truncated (s := s) (n := H) (m := 36 + p.length) (k := k)
        "Frame data truncated." hopen hfit (by omega) (by omega)
      exact ⟨_, _, bind_error hdata⟩
    · exact ⟨_, _, bind_error (fill_outOfRange "Frame data truncated." (by omega) (by omega) hfit)⟩

end

end ManagedSecurity

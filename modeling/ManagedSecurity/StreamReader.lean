import ManagedSecurity.Lib.Feed
import ManagedSecurity.FrameReader

/-! # What the reader returns

Reading refines a feed of payloads: the buffer holds what is left of the current
frame, the inner stream the frames behind it.

* `Sealer.Reads`: the relation between the stream and the feed;
* `read_serves`: `Read` answers requests as the feed does, both in front of the
  end of the archive and in front of a frame that cannot be read;
* `readProtocolHeader_head`: the first `Read` takes over the master header.
-/

namespace ManagedSecurity

open Bytes Outcome ManagedSecurityStream

/-! ## Reading as a feed -/

/-- What does not change while frames are read; `frames` is the index behind the
last frame that is read. -/
structure Setting where
  data : Bytes
  frames : ℕ
  seekable : Bool
  bufferLength : ℕ
  seekTableOffset : UInt64
  metadata : Option Bytes

/-- The stream reads in this setting, behind the master header. -/
structure Setting.Holds (E : Setting) (s : ManagedSecurityStream) : Prop where
  mode : s.mode = .decrypt
  header : s.isHeaderProcessed = true
  opened : s.innerStream.closed = false
  data : s.innerStream.data = E.data
  inside : s.innerStream.position ≤ E.data.length
  seekable : s.innerStream.seekable = E.seekable
  buffer : s.buffer.length = E.bufferLength
  seekTableOffset : s.seekTableOffset = E.seekTableOffset
  metadata : s.metadata = E.metadata

/-- The stream stands for the feed: what is left of the current frame is in the
buffer, and the next frame of the inner stream has index `i`. -/
structure Sealer.Reads (S : Sealer) (E : Setting) (tail : Bytes) (s : ManagedSecurityStream)
    (f : Feed UInt8) (i : ℕ) : Prop extends E.Holds s where
  rest : s.innerStream.rest = S.frames i f.left ++ tail
  index : i + f.left.length = E.frames
  sequence : s.sequenceNumber = S.sequence i
  fits : ∀ p ∈ f.left, p.length < 2 ^ 25 ∧ overhead p.length S.keyIndex + p.length ≤ E.bufferLength
  cut : E.seekTableOffset = 0 ∨ E.seekable = false ∨
    s.innerStream.position + (S.frames i f.left).length ≤ E.seekTableOffset.toNat
  count : s.readBufferCount = f.buffered.length
  window : s.readBufferOffset + f.buffered.length ≤ E.bufferLength
  shown : slice s.buffer s.readBufferOffset f.buffered.length = f.buffered

section

variable {S : Sealer} {E : Setting} {tail : Bytes} {s : ManagedSecurityStream} {i : ℕ}
  {left : List Bytes} {buffered p : Bytes}

/-- In front of a frame the cut-off does not apply. -/
theorem Sealer.Reads.not_atSeekTable {ps : List Bytes} (h : S.Reads E tail s ⟨buffered, p :: ps⟩ i) :
    ¬ s.atSeekTable := by
  rintro ⟨hpos, hseek, hge⟩
  rw [h.seekTableOffset] at hpos hge
  rw [InnerStream.canSeek, h.opened, h.seekable, Bool.not_false, Bool.and_true] at hseek
  rcases h.cut with hzero | hnot | hle
  · rw [hzero] at hpos
    exact absurd hpos (UInt64.lt_irrefl 0)
  · rw [hnot] at hseek
    cases hseek
  · have hframe : 0 < (S.frames i (p :: ps)).length := by
      show 0 < (S.frame i p ++ _).length
      rw [List.length_append, Sealer.length_frame, overhead]
      omega
    have hle' : s.innerStream.position + (S.frames i (p :: ps)).length ≤ E.seekTableOffset.toNat := hle
    have hlt := E.seekTableOffset.toNat_lt
    rw [ge_iff_le, UInt64.le_iff_toNat_le, UInt64.toNat_ofNat', Nat.mod_eq_of_lt (by omega)] at hge
    omega

/-- `TryReadNextFrame` fetches the next frame of the feed. -/
theorem tryReadNextFrame_fetch {ps : List Bytes} (h : S.Reads E tail s ⟨[], p :: ps⟩ i)
    (hopens : S.cipher.crypto.Opens (S.call i p)) :
    ∃ s', tryReadNextFrame S.cipher s = .ok true s' ∧ S.Reads E tail s' ⟨p, ps⟩ (i + 1) ∧
      s'.framesDecrypted = s.framesDecrypted ++ [p] := by
  rcases h.fits p List.mem_cons_self with ⟨hL, hroom⟩
  have hrest : s.innerStream.rest = S.frame i p ++ (S.frames (i + 1) ps ++ tail) := by
    rw [h.rest]
    exact List.append_assoc _ _ _
  obtain ⟨b, k, hblen, hplain, hrun⟩ := tryReadNextFrame_frame hopens h.opened h.not_atSeekTable hrest hL
    (by rw [h.buffer]; exact hroom) h.sequence
  have hlen : s.innerStream.position + (S.frame i p).length ≤ E.data.length := by
    have htotal := congrArg List.length hrest
    rw [InnerStream.rest, List.length_drop, List.length_append, h.data] at htotal
    have hinside := h.inside
    have hframe := Sealer.length_frame S i p
    rw [overhead] at hframe
    omega
  refine ⟨_, hrun, ?_, rfl⟩
  exact {
    mode := h.mode
    header := h.header
    opened := h.opened
    data := h.data
    inside := hlen
    seekable := h.seekable
    buffer := hblen.trans h.buffer
    seekTableOffset := h.seekTableOffset
    metadata := h.metadata
    rest := by
      show (s.innerStream.advance _ k).rest = _
      rw [InnerStream.advance_rest, hrest, List.drop_left]
    index := by
      have hindex : i + (ps.length + 1) = E.frames := h.index
      show i + 1 + ps.length = E.frames
      omega
    sequence := by
      show s.sequenceNumber + 1 = _
      rw [h.sequence, Sealer.sequence_succ]
    fits := fun q hq => h.fits q (List.mem_cons_of_mem _ hq)
    -- the table, if any, still lies behind the frames to come
    cut := by
      refine h.cut.imp_right (Or.imp_right ?_)
      intro hle
      have hsplit : (S.frames i (p :: ps)).length =
          (S.frame i p).length + (S.frames (i + 1) ps).length := List.length_append
      have hle' : s.innerStream.position + (S.frames i (p :: ps)).length ≤ E.seekTableOffset.toNat := hle
      show s.innerStream.position + (S.frame i p).length + (S.frames (i + 1) ps).length ≤ _
      omega
    count := rfl
    window := hroom
    shown := hplain }

/-- Handing out the front of what is left of the current frame. -/
theorem Sealer.Reads.take {n : ℕ} (h : S.Reads E tail s ⟨buffered, left⟩ i) (hn : n ≤ buffered.length) :
    S.Reads E tail { s with
      readBufferOffset := s.readBufferOffset + n
      readBufferCount := s.readBufferCount - n } ⟨buffered.drop n, left⟩ i := by
  have hwindow : s.readBufferOffset + buffered.length ≤ E.bufferLength := h.window
  refine { h with
    count := ?_
    window := ?_
    shown := ?_ }
  · show s.readBufferCount - n = (buffered.drop n).length
    rw [h.count, List.length_drop]
  · show s.readBufferOffset + n + (buffered.drop n).length ≤ _
    rw [List.length_drop]
    omega
  · show slice s.buffer (s.readBufferOffset + n) (buffered.drop n).length = buffered.drop n
    have hsplit := slice_append_slice s.buffer s.readBufferOffset n (buffered.length - n)
    rw [Nat.add_sub_cancel' hn, h.shown] at hsplit
    have hdrop := congrArg (List.drop n) hsplit
    have hroom : s.readBufferOffset + n ≤ s.buffer.length := by
      rw [h.buffer]
      omega
    rw [List.drop_left' (length_slice_of_le hroom)] at hdrop
    rw [List.length_drop]
    exact hdrop

/-- What is handed out is in the buffer. -/
theorem Sealer.Reads.piece {n : ℕ} (h : S.Reads E tail s ⟨buffered, left⟩ i) (hn : n ≤ buffered.length) :
    sliceSpan s.buffer s.readBufferOffset n = .ok (buffered.take n) := by
  have hwindow : s.readBufferOffset + buffered.length ≤ E.bufferLength := h.window
  have hfit : s.readBufferOffset + n ≤ s.buffer.length := by
    rw [h.buffer]
    omega
  rw [sliceSpan_ok hfit]
  have hsplit := slice_append_slice s.buffer s.readBufferOffset n (buffered.length - n)
  rw [Nat.add_sub_cancel' hn, h.shown] at hsplit
  have htake := congrArg (List.take n) hsplit
  rw [List.take_left' (length_slice_of_le hfit)] at htake
  rw [htake]

/-! ## The loop of `Read` -/

variable {tryRead : StreamM Bool} {ends : Bool}

/-- A frame reader fetches the frames of the feed, and behind them it meets the
end or throws. -/
structure Fetches (S : Sealer) (E : Setting) (tail : Bytes) (ends : Bool) (tryRead : StreamM Bool) :
    Prop where
  fetch : ∀ {s p ps i}, S.Reads E tail s ⟨[], p :: ps⟩ i →
    ∃ s', tryRead s = .ok true s' ∧ S.Reads E tail s' ⟨p, ps⟩ (i + 1)
  stop : ∀ {s i}, S.Reads E tail s ⟨[], []⟩ i →
    if ends then ∃ s', tryRead s = .ok false s' ∧ S.Reads E tail s' ⟨[], []⟩ i
    else ∃ e s', tryRead s = .error e s'

/-- The same for a relation `R` that says more about the stream than `Reads` does. -/
structure FetchesIn (S : Sealer) (E : Setting) (tail : Bytes)
    (R : ManagedSecurityStream → Feed UInt8 → ℕ → Prop) (ends : Bool) (tryRead : StreamM Bool) :
    Prop where
  reads : ∀ {s f i}, R s f i → S.Reads E tail s f i
  take : ∀ {s buffered left i} (n : ℕ), R s ⟨buffered, left⟩ i → n ≤ buffered.length →
    R { s with
      readBufferOffset := s.readBufferOffset + n
      readBufferCount := s.readBufferCount - n } ⟨buffered.drop n, left⟩ i
  fetch : ∀ {s p ps i}, R s ⟨[], p :: ps⟩ i → ∃ s', tryRead s = .ok true s' ∧ R s' ⟨p, ps⟩ (i + 1)
  stop : ∀ {s i}, R s ⟨[], []⟩ i →
    if ends then ∃ s', tryRead s = .ok false s' ∧ R s' ⟨[], []⟩ i
    else ∃ e s', tryRead s = .error e s'

theorem Fetches.reading (h : Fetches S E tail ends tryRead) :
    FetchesIn S E tail (S.Reads E tail) ends tryRead where
  reads := id
  take _ hreads hn := hreads.take hn
  fetch := h.fetch
  stop := h.stop

variable {R : ManagedSecurityStream → Feed UInt8 → ℕ → Prop}

/-- What the loop of `Read` needs of a relation between streams and feeds, be the frames
of one sealer or not. -/
structure Feeds (R : ManagedSecurityStream → Feed UInt8 → ℕ → Prop) (ends : Bool)
    (tryRead : StreamM Bool) : Prop where
  count : ∀ {s f i}, R s f i → s.readBufferCount = f.buffered.length
  piece : ∀ {s buffered left i n}, R s ⟨buffered, left⟩ i → n ≤ buffered.length →
    sliceSpan s.buffer s.readBufferOffset n = .ok (buffered.take n)
  take : ∀ {s buffered left i} (n : ℕ), R s ⟨buffered, left⟩ i → n ≤ buffered.length →
    R { s with
      readBufferOffset := s.readBufferOffset + n
      readBufferCount := s.readBufferCount - n } ⟨buffered.drop n, left⟩ i
  fetch : ∀ {s p ps i}, R s ⟨[], p :: ps⟩ i → ∃ s', tryRead s = .ok true s' ∧ R s' ⟨p, ps⟩ (i + 1)
  stop : ∀ {s i}, R s ⟨[], []⟩ i →
    if ends then ∃ s', tryRead s = .ok false s' ∧ R s' ⟨[], []⟩ i
    else ∃ e s', tryRead s = .error e s'

theorem FetchesIn.feeds (h : FetchesIn S E tail R ends tryRead) : Feeds R ends tryRead where
  count hR := (h.reads hR).count
  piece hR hn := (h.reads hR).piece hn
  take := h.take
  fetch := h.fetch
  stop := h.stop

/-- What the loop must come to, whatever fuel it is given. -/
def LoopServes (R : ManagedSecurityStream → Feed UInt8 → ℕ → Prop) (ends : Bool) (count : ℕ)
    (r : EStateM.Result Exn ManagedSecurityStream Bytes) (f : Feed UInt8) : Prop :=
  match Feed.pull ends count f.buffered f.left with
  | some (out, f') => ∃ s' i', r = .ok out s' ∧ R s' f' i'
  | none => ∃ e s', r = .error e s'

/-- With something left of the current frame, the loop serves it and fetches the
next frame only if it asks for more. -/
theorem readLoop_buffered (hfeeds : Feeds R ends tryRead) {count fuel : ℕ} {x : UInt8} {xs : Bytes}
    (hcount : 0 < count) (hR : R s ⟨x :: xs, left⟩ i) :
    LoopServes R ends count (readLoop tryRead count (fuel + 2) [] s) ⟨x :: xs, left⟩ := by
  set n := min (x :: xs).length count with hn
  have hnpos : 0 < n := by
    have hb : 0 < (x :: xs).length := Nat.succ_pos _
    omega
  have hnle : n ≤ (x :: xs).length := Nat.min_le_left _ _
  have hsome : 0 < s.readBufferCount := by
    rw [hfeeds.count hR]
    exact Nat.succ_pos _
  have hcopy : min s.readBufferCount (count - ([] : Bytes).length) = n := by
    rw [hfeeds.count hR, List.length_nil, Nat.sub_zero]
  let s₁ : ManagedSecurityStream := { s with
    readBufferOffset := s.readBufferOffset + n
    readBufferCount := s.readBufferCount - n }
  have h₁ : R s₁ ⟨(x :: xs).drop n, left⟩ i := hfeeds.take n hR hnle
  have hround : readLoop tryRead count (fuel + 2) [] s =
      readLoop tryRead count (fuel + 1) ((x :: xs).take n) s₁ := by
    rw [readLoop, if_pos (by rw [List.length_nil]; exact hcount), get_bind, if_pos hsome]
    simp only [hcopy]
    rw [bind_ok (ofExcept_eq (hfeeds.piece hR hnle)), modify_bind, List.nil_append]
  have htake : ((x :: xs).take n).length = n := List.length_take_of_le hnle
  rw [hround]
  -- enough is buffered, or the buffer is emptied and the next frame is asked for
  by_cases hle : count ≤ (x :: xs).length
  · have hfull : n = count := Nat.min_eq_right hle
    have hdone : readLoop tryRead count (fuel + 1) ((x :: xs).take n) s₁ = .ok ((x :: xs).take n) s₁ := by
      rw [readLoop, if_neg (by rw [htake]; omega)]
      rfl
    rw [LoopServes, Feed.pull_of_le left (List.cons_ne_nil x xs) hle, hdone]
    rw [hfull] at h₁ ⊢
    exact ⟨s₁, i, rfl, h₁⟩
  · have hall : n = (x :: xs).length := Nat.min_eq_left (by omega)
    have hempty : (x :: xs).drop n = [] := List.drop_eq_nil_of_le (by omega)
    have hout : (x :: xs).take n = x :: xs := List.take_of_length_le (by omega)
    have hnone : ¬ 0 < s₁.readBufferCount := by
      rw [hfeeds.count h₁, hempty, List.length_nil]
      omega
    rw [hempty] at h₁
    have hnext : readLoop tryRead count (fuel + 1) ((x :: xs).take n) s₁ =
        (tryRead >>= fun more => if more = false then pure (x :: xs) else if 0 < (x :: xs).length then
          pure (x :: xs) else readLoop tryRead count fuel (x :: xs)) s₁ := by
      rw [readLoop, if_pos (by rw [htake]; omega), get_bind, if_neg hnone, hout]
    rw [hnext]
    cases left with
    | nil =>
      have hpull : Feed.pull ends count (x :: xs) [] =
          if ends then some (x :: xs, ⟨[], []⟩) else none := if_neg hle
      have hstop := hfeeds.stop h₁
      rw [LoopServes, hpull]
      cases ends with
      | true =>
        rcases hstop with ⟨s', hend, h'⟩
        refine ⟨s', i, ?_, h'⟩
        rw [bind_ok hend]
        rfl
      | false =>
        rcases hstop with ⟨e, s', hthrow⟩
        exact ⟨e, s', bind_error hthrow⟩
    | cons q qs =>
      have hpull : Feed.pull ends count (x :: xs) (q :: qs) = some (x :: xs, ⟨q, qs⟩) := if_neg hle
      rcases hfeeds.fetch h₁ with ⟨s', hmore, h'⟩
      rw [LoopServes, hpull]
      refine ⟨s', i + 1, ?_, h'⟩
      rw [bind_ok hmore]
      rfl

/-- The loop of `Read` answers a request as the feed does. -/
theorem readLoop_serves (hfeeds : Feeds R ends tryRead) {count : ℕ} (hcount : 0 < count) :
    ∀ (left : List Bytes) (buffered : Bytes) (fuel i : ℕ) (s : ManagedSecurityStream),
      left.length + 2 ≤ fuel → R s ⟨buffered, left⟩ i →
      LoopServes R ends count (readLoop tryRead count fuel [] s) ⟨buffered, left⟩ := by
  intro left
  induction left with
  | nil =>
    intro buffered fuel i s hfuel h
    obtain ⟨n, rfl⟩ : ∃ n, fuel = n + 2 := ⟨fuel - 2, by omega⟩
    cases buffered with
    | cons x xs => exact readLoop_buffered hfeeds hcount h
    | nil =>
      have hnone : ¬ 0 < s.readBufferCount := by
        rw [hfeeds.count h, List.length_nil]
        omega
      have hnext : readLoop tryRead count (n + 2) [] s =
          (tryRead >>= fun more => if more = false then pure [] else if 0 < ([] : Bytes).length then
            pure [] else readLoop tryRead count (n + 1) []) s := by
        rw [readLoop, if_pos (by rw [List.length_nil]; exact hcount), get_bind, if_neg hnone]
      have hstop := hfeeds.stop h
      rw [hnext]
      cases ends with
      | true =>
        rcases hstop with ⟨s', hend, h'⟩
        refine ⟨s', i, ?_, h'⟩
        rw [bind_ok hend]
        rfl
      | false =>
        rcases hstop with ⟨e, s', hthrow⟩
        exact ⟨e, s', bind_error hthrow⟩
  | cons q qs ih =>
    intro buffered fuel i s hfuel h
    obtain ⟨n, rfl⟩ : ∃ n, fuel = n + 2 := ⟨fuel - 2, by omega⟩
    cases buffered with
    | cons x xs => exact readLoop_buffered hfeeds hcount h
    | nil =>
      -- nothing is buffered and nothing copied: the loop goes on with the next frame
      have hnone : ¬ 0 < s.readBufferCount := by
        rw [hfeeds.count h, List.length_nil]
        omega
      rcases hfeeds.fetch h with ⟨s₁, hmore, h₁⟩
      have hnext : readLoop tryRead count (n + 2) [] s = readLoop tryRead count (n + 1) [] s₁ := by
        rw [readLoop, if_pos (by rw [List.length_nil]; exact hcount), get_bind, if_neg hnone,
          bind_ok hmore]
        rfl
      rw [hnext]
      exact ih q (n + 1) (i + 1) s₁ (by rw [List.length_cons] at hfuel; omega) h₁

theorem Sealer.length_le_frames (S : Sealer) (ps : List Bytes) :
    ∀ i, ps.length ≤ (S.frames i ps).length := by
  induction ps with
  | nil =>
    intro i
    exact Nat.zero_le _
  | cons p ps ih =>
    intro i
    have hframe : 0 < (S.frame i p).length := by
      rw [Sealer.length_frame, overhead]
      omega
    have hsplit : (S.frames i (p :: ps)).length =
        (S.frame i p).length + (S.frames (i + 1) ps).length := List.length_append
    have hrec := ih (i + 1)
    rw [List.length_cons, hsplit]
    omega

/-- `Read` answers requests as the feed does, behind the master header; there are at least
as many bytes left as frames. -/
theorem Feeds.serves {c : Cipher} (hfeeds : Feeds R ends (tryReadNextFrame c))
    (hready : ∀ {s f i}, R s f i → s.mode = .decrypt ∧ s.isHeaderProcessed = true ∧
      f.left.length ≤ s.innerStream.rest.length) :
    Feed.Serves ends (fun s f => ∃ i, R s f i) (read c) := by
  rintro s ⟨buffered, left⟩ ⟨i, hR⟩ count hcount
  rcases hready hR with ⟨hmode, hheader, hlen⟩
  have hread : read c count s = readLoop (tryReadNextFrame c) count (s.readFuel count) [] s := by
    rw [ManagedSecurityStream.read, get_bind, bind_ok (ensure_true hmode _ _),
      runIf_false (by rw [hheader]; exact Bool.noConfusion), pure_bind_run, get_bind]
  have hfuel : left.length + 2 ≤ s.readFuel count := by
    replace hlen : left.length ≤ s.innerStream.rest.length := hlen
    rw [readFuel]
    omega
  have hloop := readLoop_serves hfeeds hcount left buffered (s.readFuel count) i s hfuel hR
  rw [← hread, LoopServes] at hloop
  cases hpull : Feed.pull ends count buffered left with
  | some r =>
    rcases r with ⟨out, f'⟩
    simp only [hpull] at hloop ⊢
    rcases hloop with ⟨s', i', hrun, h'⟩
    exact ⟨s', hrun, i', h'⟩
  | none =>
    simp only [hpull] at hloop ⊢
    exact hloop

/-- The same with the frames of one sealer. -/
theorem read_serves (hfetches : FetchesIn S E tail R ends (tryReadNextFrame S.cipher)) :
    Feed.Serves ends (fun s f => ∃ i, R s f i) (read S.cipher) := by
  apply hfetches.feeds.serves
  intro s f i hR
  have h := hfetches.reads hR
  have hframes := S.length_le_frames f.left i
  refine ⟨h.mode, h.header, ?_⟩
  rw [h.rest, List.length_append]
  omega

/-- Behind the last frame the reader is at the end of the data, or at the table
offset of a seekable stream. -/
theorem tryReadNextFrame_end (h : S.Reads E tail s ⟨[], []⟩ i)
    (hend : (tail = [] ∧ 4 ≤ E.bufferLength) ∨ (E.seekable = true ∧ 0 < E.seekTableOffset ∧
      E.seekTableOffset.toNat + tail.length = E.data.length)) :
    ∃ s', tryReadNextFrame S.cipher s = .ok false s' ∧ S.Reads E tail s' ⟨[], []⟩ i ∧
      s'.framesDecrypted = s.framesDecrypted := by
  have hrest : s.innerStream.rest = tail := h.rest
  -- stopped by the table; or by the end of the source, where the stream has none
  by_cases hcut : s.atSeekTable
  · refine ⟨s, ?_, h, rfl⟩
    rw [tryReadNextFrame, get_bind, if_pos hcut]
    rfl
  · rcases hend with ⟨hnil, hfour⟩ | ⟨hseek, hpos, hlen⟩
    · obtain ⟨k, hfixed⟩ := readFixedHeader_end (s := s) h.opened (by rw [h.buffer]; exact hfour)
        (hrest.trans hnil)
      refine ⟨{ s with innerStream := s.innerStream.advance 0 k }, ?_, ?_, rfl⟩
      · rw [tryReadNextFrame, get_bind, if_neg hcut, bind_ok hfixed]
        rfl
      · exact { h with
          rest := by
            show (s.innerStream.advance 0 k).rest = _
            rw [InnerStream.advance_rest, List.drop_zero]
            exact h.rest }
    · refine absurd ?_ hcut
      have hinside := h.inside
      have htotal := congrArg List.length hrest
      rw [InnerStream.rest, List.length_drop, h.data] at htotal
      have hlt := E.seekTableOffset.toNat_lt
      refine ⟨?_, ?_, ?_⟩
      · rw [h.seekTableOffset]
        exact hpos
      · rw [InnerStream.canSeek, h.opened, h.seekable, hseek]
        rfl
      · rw [h.seekTableOffset, ge_iff_le, UInt64.le_iff_toNat_le, UInt64.toNat_ofNat',
          Nat.mod_eq_of_lt (by omega)]
        omega

/-- The frames in front of such an end are fetched. -/
theorem fetches_frame (hinv : S.cipher.crypto.Inverts) {s : ManagedSecurityStream} {p : Bytes}
    {ps : List Bytes} {i : ℕ} (h : S.Reads E tail s ⟨[], p :: ps⟩ i) :
    ∃ s', tryReadNextFrame S.cipher s = .ok true s' ∧ S.Reads E tail s' ⟨p, ps⟩ (i + 1) := by
  rcases tryReadNextFrame_fetch h (hinv.opens _) with ⟨s', hrun, h', -⟩
  exact ⟨s', hrun, h'⟩

theorem tryReadNextFrame_fetches (hinv : S.cipher.crypto.Inverts)
    (hend : (tail = [] ∧ 4 ≤ E.bufferLength) ∨ (E.seekable = true ∧ 0 < E.seekTableOffset ∧
      E.seekTableOffset.toNat + tail.length = E.data.length)) :
    Fetches S E tail true (tryReadNextFrame S.cipher) where
  fetch := fetches_frame hinv
  stop := by
    intro s i h
    rcases tryReadNextFrame_end h hend with ⟨s', hrun, h', -⟩
    rw [if_pos rfl]
    exact ⟨s', hrun, h'⟩

end

/-! ## The master header -/

section

variable {A : Archiver} {s : ManagedSecurityStream} {off : UInt64} {rest : Bytes}

/-- `ReadProtocolHeader` takes over the fields of the header, and as many bytes
behind it as the header announces. -/
theorem readProtocolHeader_announced (hopen : s.innerStream.closed = false)
    (hrest : s.innerStream.rest = A.head off ++ rest) {n : ℕ}
    (hn : n = (UInt16.ofNat (A.metadata.getD []).length).toNat) :
    ∃ k, readProtocolHeader s = .ok () { s with
      innerStream := s.innerStream.advance (22 + n) k
      seekTableOffset := off
      chunkSize := A.chunkSize
      metadata := if n = 0 then s.metadata else some ((A.metadata.getD []).take n) } := by
  set m := A.metadata.getD [] with hmeta
  -- the length is kept in 16 bits: 65536 bytes of metadata are announced as none
  have hcond : UInt16.ofNat m.length > 0 ↔ n ≠ 0 := by
    show (0 : UInt16) < _ ↔ _
    rw [UInt16.lt_iff_toNat_lt, ← hn]
    exact Nat.pos_iff_ne_zero
  have hle : n ≤ m.length := by
    rw [hn, UInt16.toNat_ofNat']
    exact Nat.mod_le _ _
  have hbehind : n ≠ 0 → A.head off = masterBytes streamVersion A.chunkSize A.keyIndex
      (UInt16.ofNat m.length) off ++ m := by
    intro hne
    rw [Archiver.head, if_pos (hcond.mpr hne)]
  have hfixed : MasterHeader.fixedSize ≤ s.innerStream.rest.length := by
    rw [hrest, List.length_append, Archiver.length_head]
    show 22 ≤ _
    omega
  obtain ⟨k₁, hmaster⟩ := InnerStream.readArray_eq (s := s.innerStream) "Master header truncated." hopen
    hfixed
  have hparse := A.parse_head off rest
  rw [← hrest] at hparse
  let s₁ : ManagedSecurityStream := { s with
    innerStream := s.innerStream.advance MasterHeader.fixedSize k₁
    seekTableOffset := off
    chunkSize := A.chunkSize }
  have hstart : readProtocolHeader s = (runIf (UInt16.ofNat m.length > 0) (do
      let metadata ← onInner (InnerStream.readArray "Metadata truncated." (UInt16.ofNat m.length).toNat)
      modify fun s => { s with metadata := some metadata }) : StreamM Unit) s₁ := by
    rw [readProtocolHeader, bind_ok (onInner_ok hmaster), bind_ok (ofExcept_eq hparse), modify_bind,
      bind_ok (ensure_true rfl _ _)]
  rw [hstart]
  -- the metadata is read only when the header announces some
  by_cases hzero : n = 0
  · refine ⟨k₁, ?_⟩
    rw [runIf_false (fun hpos => hcond.mp hpos hzero), if_pos hzero, hzero]
    rfl
  · have hnext : s₁.innerStream.rest = m ++ rest := by
      show (s.innerStream.advance MasterHeader.fixedSize k₁).rest = _
      rw [InnerStream.advance_rest, hrest, hbehind hzero, List.append_assoc]
      exact List.drop_left' (length_masterBytes _ _ _ _ _)
    have hleft : n ≤ s₁.innerStream.rest.length := by
      rw [hnext, List.length_append]
      omega
    obtain ⟨k₂, hread⟩ := InnerStream.readArray_eq (s := s₁.innerStream) "Metadata truncated." hopen hleft
    have hfront : s₁.innerStream.rest.take n = m.take n := by
      rw [hnext, List.take_append_of_le_length hle]
    refine ⟨k₂, ?_⟩
    rw [runIf_true (hcond.mpr hzero), ← hn, bind_ok (onInner_ok hread), hfront, if_neg hzero]
    show EStateM.Result.ok _ { s with
      innerStream := (s.innerStream.advance 22 k₁).advance n k₂
      seekTableOffset := off
      chunkSize := A.chunkSize
      metadata := some (m.take n) } = _
    rw [InnerStream.advance_advance]

/-- Metadata that fit the 16-bit field are read whole. -/
theorem readProtocolHeader_head (hopen : s.innerStream.closed = false)
    (hrest : s.innerStream.rest = A.head off ++ rest) (hm : (A.metadata.getD []).length ≤ 65535) :
    ∃ k, readProtocolHeader s = .ok () { s with
      innerStream := s.innerStream.advance (A.head off).length k
      seekTableOffset := off
      chunkSize := A.chunkSize
      metadata := if A.metadata.getD [] = [] then s.metadata else some (A.metadata.getD []) } := by
  have hcount : (A.metadata.getD []).length = (UInt16.ofNat (A.metadata.getD []).length).toNat := by
    rw [UInt16.toNat_ofNat']
    exact (Nat.mod_eq_of_lt (by omega)).symm
  have hheadLen : (A.head off).length = 22 + (A.metadata.getD []).length := by
    rw [A.head_eq hm, List.length_append, length_masterBytes]
  rcases readProtocolHeader_announced hopen hrest hcount with ⟨k, hk⟩
  refine ⟨k, ?_⟩
  rw [hk, hheadLen, List.take_length]
  simp only [List.length_eq_zero_iff]

/-- `Read` on a fresh stream reads the header and goes on as if it had been
there. -/
theorem read_after_header (c : Cipher) {s s₁ : ManagedSecurityStream} (count : ℕ)
    (hfresh : s.isHeaderProcessed = false) (hmode : s.mode = .decrypt)
    (hheader : readProtocolHeader s = .ok () s₁) (hmode₁ : s₁.mode = .decrypt) :
    read c count s = read c count { s₁ with isHeaderProcessed := true } := by
  rw [ManagedSecurityStream.read, get_bind, bind_ok (ensure_true hmode _ _), runIf_true hfresh]
  have hrun : (readProtocolHeader >>= fun _ =>
      modify fun s => { s with isHeaderProcessed := true } : StreamM Unit) s =
        .ok () { s₁ with isHeaderProcessed := true } := by
    rw [bind_ok hheader]
    rfl
  rw [bind_ok hrun, get_bind, get_bind, bind_ok (ensure_true hmode₁ _ _),
    runIf_false Bool.noConfusion, pure_bind_run, get_bind]

end

end ManagedSecurity

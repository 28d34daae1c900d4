import ManagedSecurity.Platform

/-! # The inner stream

The stream underneath (`Stream`): a byte string with a position. A read may
return fewer bytes than asked for, as `segment` decides for the k-th read, but
at least one while there are any; a write may throw having written nothing, as
`failing` decides for the k-th write.

The loops of the source that read until a span is full are `fillSpan`, on the
stream and the span together. `fillSpan_eq`, `fillSpan_truncated` and
`fillSpan_outOfRange` are the three ways it can end on an open stream; how the
reads were segmented shows in none of them.
-/

namespace ManagedSecurity

open Bytes Outcome

/-- The inner stream. -/
structure InnerStream where
  data : Bytes
  position : ℕ
  seekable : Bool
  closed : Bool
  segment : ℕ → ℕ
  reads : ℕ
  failing : ℕ → Bool
  writes : ℕ

/-- Programs on the inner stream. -/
abbrev InnerM := EStateM Exn InnerStream

/-- Programs on the inner stream and a span that is filled from it. -/
abbrev FillM := EStateM Exn (InnerStream × Bytes)

namespace InnerStream

/-- `CanSeek`. -/
def canSeek (s : InnerStream) : Bool := s.seekable && !s.closed

/-- The bytes from the position on. -/
def rest (s : InnerStream) : Bytes := s.data.drop s.position

/-- `Read` into a span of `count` bytes: the bytes that were read. -/
def read (count : ℕ) : InnerM Bytes := do
  let s ← get
  ensure (s.closed = false) .objectDisposed
  let chunk := slice s.data s.position (min count (max 1 (s.segment s.reads)))
  set { s with position := s.position + chunk.length, reads := s.reads + 1 }
  pure chunk

/-- `Write`: a gap in front of the position is filled with zeros. -/
def write (bytes : Bytes) : InnerM Unit := do
  let s ← get
  ensure (s.closed = false) .objectDisposed
  if s.failing s.writes then do
    set { s with writes := s.writes + 1 }
    throw .io
  else
    set { s with
      data := overwrite (s.data ++ List.replicate (s.position - s.data.length) 0) s.position bytes
      position := s.position + bytes.length
      writes := s.writes + 1 }

/-- The getter of `Position`. -/
def getPosition : InnerM ℕ := do
  let s ← get
  ensure (s.canSeek = true) (.notSupported "")
  pure s.position

/-- The setter of `Position`. -/
def setPosition (position : ℕ) : InnerM Unit := do
  let s ← get
  ensure (s.canSeek = true) (.notSupported "")
  set { s with position := position }

/-- `Dispose`. -/
def dispose : InnerM Unit := modify fun s => { s with closed := true }

/-! ## Reading until a span is full -/

/-- `stream.Read(span.Slice(offset, length))`: the number of bytes read. -/
def readInto (offset length : ℕ) : FillM ℕ := do
  let s ← get
  let _ ← ofExcept (sliceSpan s.2 offset length)
  let chunk ← zoom Prod.fst (fun inner s => (inner, s.2)) (read length)
  modify fun s => (s.1, overwrite s.2 offset chunk)
  pure chunk.length

/-- The loop `while (read < count)` around `readInto`, which throws when a read
returns nothing. -/
def readAll (message : String) : ℕ → ℕ → ℕ → FillM Unit
  | 0, _, remaining => if remaining = 0 then pure () else throw .nonTermination
  | fuel + 1, offset, remaining =>
    if remaining = 0 then
      pure ()
    else do
      let r ← readInto offset remaining
      ensure (r ≠ 0) (.endOfStream message)
      readAll message fuel (offset + r) (remaining - r)

/-- Fill `span.Slice(offset, count)`; every round reads at least one byte. -/
def fillSpan (message : String) (offset count : ℕ) : FillM Unit :=
  readAll message count offset count

/-- Fill a new array of `count` bytes. -/
def readArray (message : String) (count : ℕ) : InnerM Bytes :=
  zoom (fun inner => (inner, List.replicate count (0 : UInt8))) (fun t _ => t.1) do
    fillSpan message 0 count
    let s ← get
    pure s.2

/-! ## What reading does -/

/-- The stream `n` bytes further on, after some reads. -/
def advance (s : InnerStream) (n reads : ℕ) : InnerStream :=
  { s with position := s.position + n, reads := reads }

section

variable (s : InnerStream) (n k : ℕ)

@[simp] theorem advance_rest : (s.advance n k).rest = s.rest.drop n := by
  simp [rest, advance]

@[simp] theorem advance_advance (m j : ℕ) :
    (s.advance n k).advance m j = s.advance (n + m) j := by
  simp [advance, Nat.add_assoc]

end

variable {s : InnerStream} {span : Bytes}

theorem getPosition_eq (h : s.canSeek = true) : getPosition s = .ok s.position s := by
  rw [getPosition, get_bind, bind_ok (ensure_true h _ _)]
  rfl

theorem read_eq (hopen : s.closed = false) (count : ℕ) :
    ∃ chunk, read count s = .ok chunk (s.advance chunk.length (s.reads + 1)) ∧
      chunk = s.rest.take chunk.length ∧ chunk.length ≤ count ∧
      (chunk = [] → count = 0 ∨ s.rest = []) := by
  refine ⟨slice s.data s.position (min count (max 1 (s.segment s.reads))), ?_, ?_, ?_, ?_⟩
  · rw [read, get_bind, bind_ok (ensure_true hopen _ _)]
    rfl
  · rw [rest, slice, List.take_eq_take_iff, List.length_take]
    omega
  · rw [length_slice]
    omega
  · intro hnil
    have hlen := congrArg List.length hnil
    rw [length_slice, List.length_nil] at hlen
    by_cases hcount : count = 0
    · exact Or.inl hcount
    · refine Or.inr (List.eq_nil_of_length_eq_zero ?_)
      rw [rest, List.length_drop]
      omega

theorem readInto_eq (hopen : s.closed = false) {offset length : ℕ}
    (hfit : offset + length ≤ span.length) :
    ∃ chunk, readInto offset length (s, span) =
        .ok chunk.length (s.advance chunk.length (s.reads + 1), overwrite span offset chunk) ∧
      chunk = s.rest.take chunk.length ∧ chunk.length ≤ length ∧
      (chunk = [] → length = 0 ∨ s.rest = []) := by
  rcases read_eq hopen length with ⟨chunk, hread, hfront, hle, hnil⟩
  refine ⟨chunk, ?_, hfront, hle, hnil⟩
  have hslice : sliceSpan span offset length = .ok (slice span offset length) := sliceSpan_ok hfit
  have hzoom : zoom Prod.fst (fun inner (s : InnerStream × Bytes) => (inner, s.2)) (read length)
      (s, span) = .ok chunk (s.advance chunk.length (s.reads + 1), span) := zoom_ok hread
  rw [readInto, get_bind, bind_ok (Outcome.ofExcept_eq_ok.mpr ⟨hslice, rfl⟩), bind_ok hzoom]
  rfl

theorem readInto_outOfRange {offset length : ℕ} (hfit : ¬ offset + length ≤ span.length) :
    readInto offset length (s, span) = .error (.argumentOutOfRange "") (s, span) := by
  have hslice : sliceSpan span offset length = .error (.argumentOutOfRange "") := by
    rw [sliceSpan, if_neg]
    rintro ⟨-, -, h⟩
    exact hfit (by exact_mod_cast h)
  rw [readInto, get_bind, hslice]
  rfl

/-- The loop fills the span when enough bytes are left, and runs into the end of
the stream otherwise. -/
theorem readAll_eq (message : String) :
    ∀ (fuel offset remaining : ℕ) (s' : InnerStream) (span : Bytes), s'.closed = false →
      remaining ≤ fuel → offset + remaining ≤ span.length →
      ∃ k, readAll message fuel offset remaining (s', span) =
        if remaining ≤ s'.rest.length then
          .ok () (s'.advance remaining k, overwrite span offset (s'.rest.take remaining))
        else
          .error (.endOfStream message)
            (s'.advance s'.rest.length k, overwrite span offset s'.rest) := by
  intro fuel
  induction fuel with
  | zero =>
    intro offset remaining s' span _ hfuel _
    obtain rfl : remaining = 0 := by omega
    refine ⟨s'.reads, ?_⟩
    rw [if_pos (Nat.zero_le _), List.take_zero, overwrite_nil]
    rfl
  | succ fuel ih =>
    intro offset remaining s' span hopen' hfuel hfit
    by_cases hzero : remaining = 0
    · subst hzero
      refine ⟨s'.reads, ?_⟩
      rw [if_pos (Nat.zero_le _), List.take_zero, overwrite_nil]
      rfl
    rcases readInto_eq hopen' hfit with ⟨chunk, hread, hfront, hle, hnil⟩
    have hchunk : chunk.length ≤ s'.rest.length := by
      have hlen := congrArg List.length hfront
      rw [List.length_take] at hlen
      omega
    by_cases hdone : chunk = []
    · -- nothing was read: the stream is at its end
      subst hdone
      have hrest : s'.rest = [] := (hnil rfl).resolve_left hzero
      refine ⟨s'.reads + 1, ?_⟩
      rw [if_neg (by rw [hrest, List.length_nil]; omega), readAll, if_neg hzero, bind_ok hread,
        bind_error (ensure_false (by simp) _ _), hrest]
    · have hpos : 0 < chunk.length := List.length_pos_of_ne_nil hdone
      have hkeep : (overwrite span offset chunk).length = span.length := length_overwrite (by omega)
      obtain ⟨k, hrec⟩ := ih (offset + chunk.length) (remaining - chunk.length)
        (s'.advance chunk.length (s'.reads + 1)) (overwrite span offset chunk) hopen' (by omega)
        (by omega)
      refine ⟨k, ?_⟩
      rw [readAll, if_neg hzero, bind_ok hread,
        bind_ok (ensure_true (Nat.pos_iff_ne_zero.mp hpos) _ _), hrec]
      simp only [advance_rest, List.length_drop, advance_advance]
      -- the chunk and what the loop reads behind it are adjacent
      have hjoin : ∀ ys : Bytes, overwrite (overwrite span offset chunk) (offset + chunk.length) ys =
          overwrite span offset (chunk ++ ys) := fun ys => overwrite_overwrite_adjacent (by omega)
      by_cases henough : remaining ≤ s'.rest.length
      · rw [if_pos (by omega), if_pos henough, hjoin]
        have htake : chunk ++ (s'.rest.drop chunk.length).take (remaining - chunk.length) =
            s'.rest.take remaining := by
          conv_rhs => rw [← Nat.add_sub_cancel' hle, List.take_add]
          rw [← hfront]
        rw [htake, Nat.add_sub_cancel' hle]
      · rw [if_neg (by omega), if_neg henough, hjoin]
        have hall : chunk ++ s'.rest.drop chunk.length = s'.rest := by
          conv_lhs => rw [hfront]
          rw [List.length_take, Nat.min_eq_left hchunk, List.take_append_drop]
        rw [hall, Nat.add_sub_cancel' hchunk]

/-- Enough bytes are left. -/
theorem fillSpan_eq (message : String) (hopen : s.closed = false) {offset count : ℕ}
    (hfit : offset + count ≤ span.length) (hrest : count ≤ s.rest.length) :
    ∃ k, fillSpan message offset count (s, span) =
      .ok () (s.advance count k, overwrite span offset (s.rest.take count)) := by
  rcases readAll_eq message count offset count s span hopen le_rfl hfit with ⟨k, hk⟩
  rw [if_pos hrest] at hk
  exact ⟨k, hk⟩

/-- The stream ends before the span is full. -/
theorem fillSpan_truncated (message : String) (hopen : s.closed = false) {offset count : ℕ}
    (hfit : offset + count ≤ span.length) (hrest : s.rest.length < count) :
    ∃ k, fillSpan message offset count (s, span) =
      .error (.endOfStream message) (s.advance s.rest.length k, overwrite span offset s.rest) := by
  rcases readAll_eq message count offset count s span hopen le_rfl hfit with ⟨k, hk⟩
  rw [if_neg (by omega)] at hk
  exact ⟨k, hk⟩

/-- The span has no such window. -/
theorem fillSpan_outOfRange (message : String) {offset count : ℕ} (hpos : 0 < count)
    (hfit : ¬ offset + count ≤ span.length) :
    fillSpan message offset count (s, span) = .error (.argumentOutOfRange "") (s, span) := by
  rcases Nat.exists_eq_succ_of_ne_zero (Nat.pos_iff_ne_zero.mp hpos) with ⟨n, rfl⟩
  rw [fillSpan, readAll, if_neg (Nat.succ_ne_zero n), bind_error (readInto_outOfRange hfit)]

theorem readArray_eq (message : String) (hopen : s.closed = false) {count : ℕ}
    (hrest : count ≤ s.rest.length) :
    ∃ k, readArray message count s = .ok (s.rest.take count) (s.advance count k) := by
  have hfit : 0 + count ≤ (List.replicate count (0 : UInt8)).length := by
    rw [List.length_replicate]
    omega
  rcases fillSpan_eq message hopen hfit hrest with ⟨k, hk⟩
  refine ⟨k, ?_⟩
  have hfull : overwrite (List.replicate count (0 : UInt8)) 0 (s.rest.take count) =
      s.rest.take count := by
    have hlen : (s.rest.take count).length = count := by
      rw [List.length_take]
      omega
    rw [overwrite, List.take_zero, List.nil_append, List.drop_eq_nil_of_le
      (by rw [List.length_replicate]; omega), List.append_nil]
  have hrun : (do
      fillSpan message 0 count
      let t ← get
      pure t.2 : FillM Bytes) (s, List.replicate count 0) =
        .ok (s.rest.take count) (s.advance count k, s.rest.take count) := by
    rw [bind_ok hk, hfull]
    rfl
  simp only [readArray, zoom, hrun]

theorem readArray_truncated (message : String) (hopen : s.closed = false) {count : ℕ}
    (hrest : s.rest.length < count) :
    ∃ k, readArray message count s = .error (.endOfStream message) (s.advance s.rest.length k) := by
  have hfit : 0 + count ≤ (List.replicate count (0 : UInt8)).length := by
    rw [List.length_replicate]
    omega
  rcases fillSpan_truncated message hopen hfit hrest with ⟨k, hk⟩
  refine ⟨k, ?_⟩
  have hrun : (do
      fillSpan message 0 count
      let t ← get
      pure t.2 : FillM Bytes) (s, List.replicate count 0) =
        .error (.endOfStream message)
          (s.advance s.rest.length k, overwrite (List.replicate count 0) 0 s.rest) :=
    bind_error hk
  simp only [readArray, zoom, hrun]

/-! ## Inversion, and the texts of the exceptions -/

theorem read_closed (hclosed : s.closed = true) (count : ℕ) :
    read count s = .error .objectDisposed s := by
  have hthrow : ¬ s.closed = false := by
    rw [hclosed]
    decide
  rw [read, get_bind, bind_error (ensure_false hthrow _ _)]

theorem readInto_closed (hclosed : s.closed = true) (span : Bytes) (offset length : ℕ) :
    ∃ e, readInto offset length (s, span) = .error e (s, span) := by
  cases hslice : sliceSpan span offset length with
  | error e =>
    refine ⟨e, ?_⟩
    rw [readInto, get_bind, hslice]
    rfl
  | ok window =>
    refine ⟨.objectDisposed, ?_⟩
    have hzoom : zoom Prod.fst (fun inner (s : InnerStream × Bytes) => (inner, s.2)) (read length)
        (s, span) = .error .objectDisposed (s, span) := zoom_error (read_closed hclosed length)
    rw [readInto, get_bind, hslice, bind_ok (ofExcept_ok window _), bind_error hzoom]

/-- A span that has been filled was there, and so were the bytes. -/
theorem fillSpan_inv {message : String} {offset count : ℕ} {u : Unit} {t : InnerStream × Bytes}
    (h : fillSpan message offset count (s, span) = .ok u t) :
    count ≤ s.rest.length ∧ (count = 0 ∨ s.closed = false ∧ offset + count ≤ span.length) ∧
      ∃ k, t = (s.advance count k, overwrite span offset (s.rest.take count)) := by
  -- nothing to read: the stream is not touched, even when it is closed
  by_cases hzero : count = 0
  · subst hzero
    rcases EStateM.Result.ok.inj h with ⟨-, rfl⟩
    refine ⟨Nat.zero_le _, Or.inl rfl, s.reads, ?_⟩
    rw [List.take_zero, overwrite_nil]
    rfl
  by_cases hfit : offset + count ≤ span.length
  swap
  · rw [fillSpan_outOfRange message (Nat.pos_of_ne_zero hzero) hfit] at h
    cases h
  cases hclosed : s.closed with
  | true =>
    rcases Nat.exists_eq_succ_of_ne_zero hzero with ⟨n, rfl⟩
    rcases readInto_closed hclosed span offset (n + 1) with ⟨e, he⟩
    rw [fillSpan, readAll, if_neg hzero, bind_error he] at h
    cases h
  | false =>
    by_cases hrest : count ≤ s.rest.length
    · rcases fillSpan_eq message hclosed hfit hrest with ⟨k, hk⟩
      rw [hk] at h
      exact ⟨hrest, Or.inr ⟨rfl, hfit⟩, k, (EStateM.Result.ok.inj h).2.symm⟩
    · rcases fillSpan_truncated message hclosed hfit (Nat.lt_of_not_le hrest) with ⟨k, hk⟩
      rw [hk] at h
      cases h

/-- The text of the exception is all that the message decides. -/
theorem fillSpan_agree (message message' : String) (offset count : ℕ) (t : InnerStream × Bytes) :
    Agree Eq (fillSpan message offset count t) (fillSpan message' offset count t) := by
  have hloop : ∀ fuel offset remaining t, Agree Eq (readAll message fuel offset remaining t)
      (readAll message' fuel offset remaining t) := by
    intro fuel
    induction fuel with
    | zero =>
      intro offset remaining t
      exact agree_self _
    | succ fuel ih =>
      intro offset remaining t
      rw [readAll, readAll]
      by_cases hzero : remaining = 0
      · rw [if_pos hzero, if_pos hzero]
        exact agree_self _
      · rw [if_neg hzero, if_neg hzero]
        apply agree_bind (agree_self _)
        rintro r t₁ _ - - rfl
        exact agree_ensure_bind rfl (fun _ => ih _ _ t₁)
  exact hloop count offset count t

theorem readArray_inv {message : String} {count : ℕ} {bytes : Bytes} {s' : InnerStream}
    (h : readArray message count s = .ok bytes s') :
    bytes = s.rest.take count ∧ count ≤ s.rest.length ∧ (count = 0 ∨ s.closed = false) ∧
      ∃ k, s' = s.advance count k := by
  rcases zoom_eq_ok.mp h with ⟨t, hrun, hs'⟩
  rcases bind_eq_ok.mp hrun with ⟨u, t₁, hfill, hget⟩
  rcases EStateM.Result.ok.inj hget with ⟨rfl, rfl⟩
  rcases fillSpan_inv hfill with ⟨hrest, hopen, k, rfl⟩
  refine ⟨?_, hrest, hopen.imp_right And.left, k, hs'⟩
  show overwrite (List.replicate count (0 : UInt8)) 0 (s.rest.take count) = s.rest.take count
  rw [overwrite, List.take_zero, List.nil_append, List.drop_eq_nil_of_le, List.append_nil]
  rw [List.length_replicate, List.length_take]
  omega

theorem readArray_agree (message message' : String) (count : ℕ) (s : InnerStream) :
    Agree Eq (readArray message count s) (readArray message' count s) := by
  refine agree_zoom rfl (fun _ => rfl) ?_
  apply agree_bind (fillSpan_agree message message' 0 count _)
  rintro - t _ - - rfl
  exact agree_self _

/-! ## What writing does -/

/-- A write at the end of a stream that does not fail appends. -/
theorem write_append (hopen : s.closed = false) (hok : s.failing s.writes = false)
    (hpos : s.position = s.data.length) (bytes : Bytes) :
    write bytes s = .ok () { s with
      data := s.data ++ bytes
      position := s.position + bytes.length
      writes := s.writes + 1 } := by
  rw [write, get_bind, bind_ok (ensure_true hopen _ _), hok, if_neg Bool.false_ne_true, hpos,
    Nat.sub_self, List.replicate_zero, List.append_nil, overwrite_length]
  rfl

/-- A write in front of the end overwrites. -/
theorem write_overwrite (hopen : s.closed = false) (hok : s.failing s.writes = false)
    (hpos : s.position ≤ s.data.length) (bytes : Bytes) :
    write bytes s = .ok () { s with
      data := overwrite s.data s.position bytes
      position := s.position + bytes.length
      writes := s.writes + 1 } := by
  rw [write, get_bind, bind_ok (ensure_true hopen _ _), hok, if_neg Bool.false_ne_true,
    Nat.sub_eq_zero_of_le hpos, List.replicate_zero, List.append_nil]
  rfl

end InnerStream

end ManagedSecurity

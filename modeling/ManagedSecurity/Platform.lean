import ManagedSecurity.Lib.Bytes
import ManagedSecurity.Lib.Outcome

/-! # What the runtime provides: exceptions and spans

`Exn` lists the exceptions the modelled code raises, with the text the source
gives them; an exception of the runtime itself carries no text. A span is a
byte string: `sliceSpan` and `writeSpan` make the runtime's range checks.
-/

namespace ManagedSecurity

/-- The exceptions of the modelled code. `nonTermination` is the outcome of a
loop of the source that never ends. -/
inductive Exn where
  | argument (message : String)
  | argumentOutOfRange (message : String)
  | indexOutOfRange
  | overflow
  | outOfMemory
  | invalidOperation (message : String)
  | keyNotFound
  | notImplemented (message : String)
  | notSupported (message : String)
  | cryptographic (message : String)
  | endOfStream (message : String)
  | objectDisposed
  | io
  | nonTermination
deriving DecidableEq, Repr

/-- A program whose state is the content of a destination span. -/
abbrev SpanM := EStateM Exn Bytes

/-- `int.MaxValue`. -/
def intMaxValue : ℤ := 2 ^ 31 - 1

/-- `Array.MaxLength`: no byte array is longer. -/
def arrayMaxLength : ℤ := 0x7FFFFFC7

/-- `new byte[length]`. -/
def newByteArray (length : ℤ) : Except Exn Bytes :=
  if length < 0 then .error .overflow
  else if arrayMaxLength < length then .error .outOfMemory
  else .ok (List.replicate length.toNat 0)

/-- `span.Slice(start, length)`. -/
def sliceSpan (span : Bytes) (start length : ℤ) : Except Exn Bytes :=
  if 0 ≤ start ∧ 0 ≤ length ∧ start + length ≤ span.length then
    .ok (Bytes.slice span start.toNat length.toNat)
  else
    .error (.argumentOutOfRange "")

/-- Fill `span.Slice(start, length)` with `bytes`. -/
def writeSpan (start length : ℤ) (bytes : Bytes) : SpanM Unit := do
  let span ← get
  let _ ← ofExcept (sliceSpan span start length)
  set (Bytes.overwrite span start.toNat bytes)

/-- `span[offset] = value`. -/
def setByte (offset : ℕ) (value : UInt8) : SpanM Unit := do
  let span ← get
  Outcome.ensure (offset < span.length) .indexOutOfRange
  set (Bytes.overwrite span offset [value])

/-! ## The range checks -/

theorem newByteArray_eq_ok {length : ℤ} {bytes : Bytes} :
    newByteArray length = .ok bytes ↔
      (0 ≤ length ∧ length ≤ arrayMaxLength) ∧ bytes = List.replicate length.toNat 0 := by
  unfold newByteArray
  split_ifs with hneg hlong
  · simp only [false_iff]
    omega
  · simp only [false_iff]
    omega
  · have hrange : 0 ≤ length ∧ length ≤ arrayMaxLength := ⟨by omega, by omega⟩
    simp only [Except.ok.injEq, hrange, and_self, true_and]
    exact eq_comm

theorem sliceSpan_ok {span : Bytes} {off len : ℕ} (h : off + len ≤ span.length) :
    sliceSpan span off len = .ok (Bytes.slice span off len) := by
  rw [sliceSpan, if_pos (by omega), Int.toNat_natCast, Int.toNat_natCast]

theorem sliceSpan_eq_ok {span out : Bytes} {start length : ℤ} :
    sliceSpan span start length = .ok out ↔
      (0 ≤ start ∧ 0 ≤ length ∧ start + length ≤ span.length) ∧
        out = Bytes.slice span start.toNat length.toNat := by
  unfold sliceSpan
  split
  · rename_i h
    simp only [Except.ok.injEq, h, and_self, true_and]
    exact eq_comm
  · rename_i h
    simp only [reduceCtorEq, false_iff, not_and]
    intro h'
    exact absurd h' h

/-- Slicing out the middle part of a concatenation. -/
theorem sliceSpan_middle (xs ys zs : Bytes) {start length : ℤ} (hs : start = xs.length)
    (hl : length = ys.length) : sliceSpan (xs ++ (ys ++ zs)) start length = .ok ys := by
  subst hs hl
  rw [sliceSpan_ok (by simp), Bytes.slice_middle _ _ _ rfl rfl]

theorem writeSpan_ok {span bytes : Bytes} {off : ℕ} (h : off + bytes.length ≤ span.length) :
    writeSpan off bytes.length bytes span = .ok () (Bytes.overwrite span off bytes) := by
  simp only [writeSpan, Outcome.get_bind, sliceSpan_ok h]
  rfl

theorem writeSpan_eq_ok {span span' bytes : Bytes} {start length : ℤ} {u : Unit} :
    writeSpan start length bytes span = .ok u span' ↔
      (0 ≤ start ∧ 0 ≤ length ∧ start + length ≤ span.length) ∧
        span' = Bytes.overwrite span start.toNat bytes := by
  rw [writeSpan, Outcome.get_bind, Outcome.bind_eq_ok]
  simp only [Outcome.ofExcept_eq_ok, sliceSpan_eq_ok, Outcome.set_run]
  constructor
  · rintro ⟨out, s₁, ⟨⟨hrange, -⟩, rfl⟩, h⟩
    exact ⟨hrange, (EStateM.Result.ok.inj h).2.symm⟩
  · rintro ⟨hrange, rfl⟩
    exact ⟨_, span, ⟨⟨hrange, rfl⟩, rfl⟩, rfl⟩

theorem setByte_eq_ok {span span' : Bytes} {off : ℕ} {b : UInt8} {u : Unit} :
    setByte off b span = .ok u span' ↔
      off < span.length ∧ span' = Bytes.overwrite span off [b] := by
  rw [setByte, Outcome.get_bind, Outcome.bind_eq_ok]
  simp only [Outcome.ensure_eq_ok, Outcome.set_run]
  constructor
  · rintro ⟨a, s₁, ⟨hlt, rfl⟩, h⟩
    exact ⟨hlt, (EStateM.Result.ok.inj h).2.symm⟩
  · rintro ⟨hlt, rfl⟩
    exact ⟨(), span, ⟨hlt, rfl⟩, rfl⟩

theorem setByte_ok {span : Bytes} {off : ℕ} (b : UInt8) (h : off < span.length) :
    setByte off b span = .ok () (Bytes.overwrite span off [b]) := by
  simp only [setByte, Outcome.get_bind]
  rw [Outcome.bind_ok (Outcome.ensure_true h _ _)]
  rfl

end ManagedSecurity

import ManagedSecurity.ArchiveReading

/-! # Archives without a `Write`

The master header is a side effect of the first `Write`. Without one, `Dispose`
still emits an empty frame; if points were recorded, the seek table goes behind
it and the header that `Dispose` rewrites goes over its front.

* `WritesTable`: for which calls a seek table is written;
* `leaves_unstarted`: what is in the sink without a `Write`;
* `parse_frame`: a frame is no master header, whatever follows it.
-/

namespace ManagedSecurity

open Bytes Outcome ManagedSecurityStream

/-! ## Which runs write a table -/

/-- `Dispose` writes a seek table: the sink is seekable, points were recorded, and
their table fits an array. -/
def Archiver.WritesTable (A : Archiver) (calls : List WriteCall) : Prop :=
  A.seekable = true ∧ 1 ≤ calls.countP WriteCall.isFlush ∧
    6 + calls.countP WriteCall.isFlush * 16 ≤ 0x7FFFFFC7

section

variable {A : Archiver}

/-- The same condition on the points that were recorded. -/
theorem Archiver.writesTable_iff (calls : List WriteCall) :
    A.WritesTable calls ↔ A.seekable = true ∧ (A.run .initial calls).points ≠ [] ∧
      6 + (A.run .initial calls).points.length * 16 ≤ 0x7FFFFFC7 := by
  apply and_congr_right
  intro hseek
  have hlen : (A.run .initial calls).points.length = calls.countP WriteCall.isFlush := by
    rw [Archiver.length_points hseek]
    exact Nat.zero_add _
  rw [← List.length_pos_iff, hlen]
  exact Iff.rfl

/-! ## Runs without a `Write` -/

/-- Flushes of a framer in which nothing waits emit nothing. -/
theorem Archiver.run_unstarted (calls : List WriteCall) :
    (∀ buffer, WriteCall.write buffer ∉ calls) → ∀ a : ArchiveState, a.started = false →
      a.framer = Framer.empty →
      (A.run a calls).started = false ∧ (A.run a calls).framer = Framer.empty := by
  induction calls with
  | nil =>
    intro _ a hstart hempty
    exact ⟨hstart, hempty⟩
  | cons call calls ih =>
    intro hnone a hstart hempty
    refine ih (fun buffer hmem => hnone buffer (List.mem_cons_of_mem _ hmem)) (A.step a call) ?_ ?_
    · cases call with
      | write buffer => exact absurd List.mem_cons_self (hnone buffer)
      | flushToFrame timestampMs elapsedMs => exact hstart
    · cases call with
      | write buffer => exact absurd List.mem_cons_self (hnone buffer)
      | flushToFrame timestampMs elapsedMs =>
        show a.framer.flush = Framer.empty
        rw [hempty]
        rfl

theorem writtenBytes_unstarted {calls : List WriteCall}
    (hnone : ∀ buffer, WriteCall.write buffer ∉ calls) : writtenBytes calls = [] := by
  apply List.flatMap_eq_nil_iff.mpr
  intro call hcall
  cases call with
  | write buffer => exact absurd hcall (hnone buffer)
  | flushToFrame timestampMs elapsedMs => rfl

/-- An empty frame, or what the seek table and the header have made of it. -/
theorem Archiver.leaves_unstarted {calls : List WriteCall}
    (hnone : ∀ buffer, WriteCall.write buffer ∉ calls) :
    (¬ A.WritesTable calls → A.leaves (A.run .initial calls) = A.frame 0 []) ∧
    (A.WritesTable calls → A.leaves (A.run .initial calls) =
      A.head (UInt64.ofNat (overhead 0 A.keyIndex)) ++
        (A.frame 0 [] ++ SeekTable.bytes (A.run .initial calls).points).drop (A.head 0).length) := by
  set a := A.run .initial calls with ha
  have hbody : A.content { a with framer := a.framer.emit } = A.frame 0 [] := by
    rcases A.run_unstarted calls hnone .initial rfl rfl with ⟨hstart, hempty⟩
    rw [Archiver.content, hstart, hempty]
    exact List.append_nil _
  have hlen : (A.frame 0 []).length = overhead 0 A.keyIndex := A.length_frame 0 []
  rw [Archiver.writesTable_iff, ← ha, Archiver.leaves, hbody]
  constructor
  · intro hno
    split_ifs with hcond
    · rcases SeekTable.serialize_eq_error a.points (by
        by_contra hfit
        exact hno ⟨hcond.1, hcond.2, by omega⟩) with ⟨e, he⟩
      rw [he]
    · rfl
  · rintro ⟨hseek, hne, hfit⟩
    rw [if_pos ⟨hseek, hne⟩, SeekTable.serialize_eq hfit, hlen]
    simp only [overwrite, List.take_zero, List.nil_append, Nat.zero_add]
    rw [A.length_head_eq _ 0]

/-- Frames and master headers have different magic numbers. -/
theorem Sealer.parse_frame (S : Sealer) (i : ℕ) {p : Bytes} (hL : p.length < 2 ^ 25) (rest : Bytes) :
    ∃ e, MasterHeader.parse ((S.frame i p ++ rest).take MasterHeader.fixedSize) = .error e := by
  set data := S.frame i p ++ rest with hdata
  have hparse : Header.parse data = .ok (builtHeader p.length S.keyIndex 2) := by
    rw [hdata, Sealer.frame, Cipher.messageS2]
    simp only [List.append_assoc]
    exact parse_headerBytes _ hL S.keyIndex_lt (le_refl 2)
  rcases parse_eq_ok.mp hparse with ⟨profile, haccepts, -⟩
  have hmagic := haccepts.magic
  by_cases hshort : (data.take MasterHeader.fixedSize).length < MasterHeader.fixedSize
  · exact ⟨_, if_pos hshort⟩
  refine ⟨_, (if_neg hshort).trans (if_pos ?_)⟩
  intro hslice
  -- the four bytes that the frame header starts with
  have hfront : data.take 4 = MasterHeader.magic ++ [data.getD 3 0] := by
    have hthree : data.take 3 = MasterHeader.magic := by
      rw [slice_zero, List.take_take] at hslice
      exact hslice
    rw [List.take_add_one, hthree, List.getD_eq_getElem?_getD,
      List.getElem?_eq_getElem (lt_of_lt_of_le (by decide) haccepts.word)]
    rfl
  rw [headerWord_take haccepts.word, hfront] at hmagic
  have hlast := (data.getD 3 0).toNat_lt
  simp only [MasterHeader.magic, List.cons_append, List.nil_append, beNat_cons, beNat_nil,
    List.length_cons, List.length_nil] at hmagic
  have hM : (0x4D : UInt8).toNat = 77 := rfl
  have hS : (0x53 : UInt8).toNat = 83 := rfl
  have hG : (0x47 : UInt8).toNat = 71 := rfl
  rw [hM, hS, hG] at hmagic
  omega

end

end ManagedSecurity

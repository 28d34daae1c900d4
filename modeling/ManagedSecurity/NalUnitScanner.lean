import ManagedSecurity.Lib.Bytes
import Mathlib.Tactic

/-! # Finding NAL units (`NalUnitScanner`)

The scanner goes through one buffer and reports where it finds an H.264 start code and
the type of the unit behind it. It stops four bytes before the end, and goes on behind
the header of a unit that it has found.

* `BeginsWithSync`: a start code of a sync point at the front;
* `scan_found`: what is reported, and in which order;
* `mem_scan_of_front`: a sync point at the front of a buffer is found;
* `scan_lists`: the buffers in which every start code is reported (`Spaced`).
-/

namespace ManagedSecurity

open Bytes

/-- `NalUnitType`: a cast makes every number of five bits a value of it. -/
abbrev NalUnitType := UInt8

namespace NalUnitType

def idr : NalUnitType := 5
def sps : NalUnitType := 7
def pps : NalUnitType := 8

end NalUnitType

namespace NalUnitScanner

/-- `IsSyncPoint`. -/
def isSyncPoint (type : NalUnitType) : Bool :=
  type = NalUnitType.idr ∨ type = NalUnitType.sps ∨ type = NalUnitType.pps

/-- The length of the start code at the front, if there is one. -/
def startCodeLen (data : Bytes) : ℕ :=
  if data.take 4 = [0, 0, 0, 1] then 4
  else if data.take 3 = [0, 0, 1] then 3
  else 0

/-- The type of the unit behind the start code at the front. -/
def unitType (data : Bytes) : NalUnitType := data.getD (startCodeLen data) 0 &&& 0x1F

/-- The loop of `Scan` from an offset on, whose next `skip` bytes it jumps over. -/
def scanFrom : ℕ → ℕ → Bytes → List (ℕ × NalUnitType)
  | _, _, [] => []
  | offset, skip + 1, _ :: data => scanFrom (offset + 1) skip data
  | offset, 0, b :: data =>
    if 4 < (b :: data).length ∧ 0 < startCodeLen (b :: data) ∧
        startCodeLen (b :: data) < (b :: data).length then
      (offset, unitType (b :: data)) :: scanFrom (offset + 1) (startCodeLen (b :: data)) data
    else
      scanFrom (offset + 1) 0 data

/-- `Scan`. -/
def scan (data : Bytes) : List (ℕ × NalUnitType) := scanFrom 0 0 data

/-- The bytes begin with a start code and the header of a sync point. -/
def BeginsWithSync (data : Bytes) : Prop :=
  0 < startCodeLen data ∧ startCodeLen data < data.length ∧ isSyncPoint (unitType data) = true

instance (data : Bytes) : Decidable (BeginsWithSync data) :=
  inferInstanceAs (Decidable (_ ∧ _ ∧ _))

/-- The offsets of the sync points that the scanner reports. -/
def syncOffsets (points : List (ℕ × NalUnitType)) : List ℕ :=
  (points.filter fun point => isSyncPoint point.2).map Prod.fst

/-! ## Start codes -/

section

variable {data tail : Bytes}

theorem startCodeLen_le (data : Bytes) : startCodeLen data ≤ 4 := by
  unfold startCodeLen
  split_ifs <;> omega

/-- A start code stays one when more bytes follow. -/
theorem startCodeLen_append (h : 0 < startCodeLen data) :
    startCodeLen (data ++ tail) = startCodeLen data := by
  unfold startCodeLen at h ⊢
  split_ifs at h with hfour hthree
  · have hlen : 4 ≤ data.length := by
      have hcount := congrArg List.length hfour
      rw [List.length_take] at hcount
      simp only [List.length_cons, List.length_nil] at hcount
      omega
    rw [List.take_append_of_le_length hlen, if_pos hfour, if_pos hfour]
  · have hlen : 3 ≤ data.length := by
      have hcount := congrArg List.length hthree
      rw [List.length_take] at hcount
      simp only [List.length_cons, List.length_nil] at hcount
      omega
    have hnot : ¬ (data ++ tail).take 4 = [0, 0, 0, 1] := by
      intro h
      -- the third byte is not zero
      have hthird := congrArg (List.take 3) h
      rw [List.take_take, Nat.min_eq_left (by omega), List.take_append_of_le_length hlen, hthree] at hthird
      revert hthird
      decide
    rw [if_neg hnot, List.take_append_of_le_length hlen, if_pos hthree, if_neg hfour]
  · omega

/-- A sync point at the front stays one when more bytes follow. -/
theorem BeginsWithSync.append (h : BeginsWithSync data) (tail : Bytes) :
    BeginsWithSync (data ++ tail) := by
  rcases h with ⟨hpos, hlt, hsync⟩
  have hlen : startCodeLen (data ++ tail) = startCodeLen data := startCodeLen_append hpos
  refine ⟨by omega, by rw [hlen, List.length_append]; omega, ?_⟩
  rw [unitType, hlen, List.getD_append _ _ _ _ hlt]
  exact hsync

/-- The first four bytes decide about the start code. -/
theorem startCodeLen_take {n : ℕ} (hn : 4 ≤ n) : startCodeLen (data.take n) = startCodeLen data := by
  have hfour : (data.take n).take 4 = data.take 4 := by
    rw [List.take_take, Nat.min_eq_left hn]
  have hthree : (data.take n).take 3 = data.take 3 := by
    rw [List.take_take, Nat.min_eq_left (by omega)]
  rw [startCodeLen, startCodeLen, hfour, hthree]

/-- As many bytes as there are in front of the unit, and one more, show a sync point. -/
theorem BeginsWithSync.take (h : BeginsWithSync data) {n : ℕ} (hn : 4 ≤ n)
    (hlong : startCodeLen data < n) : BeginsWithSync (data.take n) := by
  rcases h with ⟨hpos, hlt, hsync⟩
  have hlen : startCodeLen (data.take n) = startCodeLen data := startCodeLen_take hn
  refine ⟨by omega, by rw [hlen, List.length_take]; omega, ?_⟩
  have htype : unitType (data.take n) = unitType data := by
    rw [unitType, unitType, hlen, List.getD_eq_getElem?_getD, List.getD_eq_getElem?_getD,
      List.getElem?_take_of_lt hlong]
  rw [htype]
  exact hsync

end

/-! ## What is reported -/

theorem syncOffsets_cons (offset : ℕ) (type : NalUnitType) (points : List (ℕ × NalUnitType)) :
    syncOffsets ((offset, type) :: points) =
      if isSyncPoint type = true then offset :: syncOffsets points else syncOffsets points := by
  unfold syncOffsets
  rw [List.filter_cons]
  split_ifs <;> rfl

/-- Entries from an offset on: each of them is behind the header of the one before. -/
def Reported (data : Bytes) : ℕ → List (ℕ × NalUnitType) → Prop
  | _, [] => True
  | first, (offset, type) :: points =>
    first ≤ offset ∧ offset + 4 < data.length ∧ 0 < startCodeLen (data.drop offset) ∧
      type = unitType (data.drop offset) ∧
      Reported data (offset + startCodeLen (data.drop offset) + 1) points

/-- Offsets of sync points from an offset on: each of them is behind the header of the
one before, and four bytes in front of the end. -/
def Found (data : Bytes) : ℕ → List ℕ → Prop
  | _, [] => True
  | first, offset :: offsets =>
    first ≤ offset ∧ offset + 4 < data.length ∧ BeginsWithSync (data.drop offset) ∧
      Found data (offset + startCodeLen (data.drop offset) + 1) offsets

section

variable {data : Bytes}

theorem Reported.mono {first first' : ℕ} (h : first ≤ first') :
    ∀ {points : List (ℕ × NalUnitType)}, Reported data first' points →
      Reported data first points := by
  intro points
  cases points with
  | nil => exact fun _ => trivial
  | cons point points =>
    rintro ⟨hle, hrest⟩
    exact ⟨h.trans hle, hrest⟩

/-- The loop, from any of its rounds on. -/
theorem scanFrom_reported : ∀ (rest : Bytes) (offset skip : ℕ), data.drop offset = rest →
    Reported data (offset + skip) (scanFrom offset skip rest) := by
  intro rest
  induction rest with
  | nil =>
    intro offset skip _
    rw [scanFrom]
    trivial
  | cons b rest ih =>
    intro offset skip hrest
    have hnext : data.drop (offset + 1) = rest := by
      rw [← List.drop_drop, hrest]
      rfl
    -- inside a start code that was found; otherwise look for one here
    cases skip with
    | succ skip =>
      rw [scanFrom]
      exact Reported.mono (by omega) (ih (offset + 1) skip hnext)
    | zero =>
      rw [scanFrom]
      split_ifs with hcode
      · rcases hcode with ⟨hlong, hpos, -⟩
        have htail := ih (offset + 1) (startCodeLen (b :: rest)) hnext
        have hlen := congrArg List.length hrest
        rw [List.length_drop] at hlen
        have hbound : offset + 4 < data.length := by omega
        rw [Reported, hrest]
        exact ⟨le_rfl, hbound, hpos, rfl, Reported.mono (by omega) htail⟩
      · exact Reported.mono (by omega) (ih (offset + 1) 0 hnext)

theorem scan_reported (data : Bytes) : Reported data 0 (scan data) :=
  scanFrom_reported data 0 0 rfl

/-- Entries of a list from an offset on, seen one by one. -/
theorem Reported.mem : ∀ {points : List (ℕ × NalUnitType)} {first : ℕ},
    Reported data first points → ∀ point ∈ points,
      first ≤ point.1 ∧ point.1 + 4 < data.length ∧ 0 < startCodeLen (data.drop point.1) ∧
        point.2 = unitType (data.drop point.1) := by
  intro points
  induction points with
  | nil =>
    intro first _ point hmem
    cases hmem
  | cons head points ih =>
    rintro first ⟨hle, hlt, hpos, htype, hrest⟩ point hmem
    rcases List.mem_cons.mp hmem with rfl | hmem
    · exact ⟨hle, hlt, hpos, htype⟩
    · have hpoint := ih hrest point hmem
      exact ⟨by omega, hpoint.2⟩

/-- Each entry is behind the header of the one before. -/
theorem Reported.pairwise : ∀ {points : List (ℕ × NalUnitType)} {first : ℕ},
    Reported data first points →
      points.Pairwise fun p q => p.1 + startCodeLen (data.drop p.1) < q.1 := by
  intro points
  induction points with
  | nil => exact fun _ => List.Pairwise.nil
  | cons head points ih =>
    rintro first ⟨-, -, -, -, hrest⟩
    apply List.Pairwise.cons _ (ih hrest)
    intro point hmem
    exact (hrest.mem point hmem).1

theorem Found.mono {first first' : ℕ} (h : first ≤ first') :
    ∀ {offsets : List ℕ}, Found data first' offsets → Found data first offsets := by
  intro offsets
  cases offsets with
  | nil => exact fun _ => trivial
  | cons offset offsets =>
    rintro ⟨hle, hrest⟩
    exact ⟨h.trans hle, hrest⟩

/-- The sync points among the entries. -/
theorem Reported.found : ∀ {points : List (ℕ × NalUnitType)} {first : ℕ},
    Reported data first points → Found data first (syncOffsets points) := by
  intro points
  induction points with
  | nil => exact fun _ => trivial
  | cons point points ih =>
    rcases point with ⟨offset, type⟩
    rintro first ⟨hle, hlt, hpos, rfl, hrest⟩
    have htail := ih hrest
    rw [syncOffsets_cons]
    -- the offset counts only if the unit behind the code is a sync point
    split_ifs with hsync
    · have hshort : startCodeLen (data.drop offset) < (data.drop offset).length := by
        have := startCodeLen_le (data.drop offset)
        rw [List.length_drop]
        omega
      exact ⟨hle, hlt, ⟨hpos, hshort, hsync⟩, htail⟩
    · exact Found.mono (by omega) htail

/-- What the scanner reports of a buffer. -/
theorem scan_found (data : Bytes) : Found data 0 (syncOffsets (scan data)) :=
  (scan_reported data).found

/-- A sync point at the front of a buffer is found, if at least five bytes are there. -/
theorem mem_scan_of_front (hlong : 4 < data.length) (h : BeginsWithSync data) :
    0 ∈ syncOffsets (scan data) := by
  cases data with
  | nil => simp at hlong
  | cons b rest =>
    rcases h with ⟨hpos, hlt, hsync⟩
    rw [scan, scanFrom, if_pos ⟨hlong, hpos, hlt⟩, syncOffsets_cons, if_pos hsync]
    exact List.mem_cons_self

/-- In a buffer of up to four bytes nothing is found. -/
theorem syncOffsets_short (h : data.length ≤ 4) : syncOffsets (scan data) = [] := by
  have hfound := scan_found data
  cases hoffsets : syncOffsets (scan data) with
  | nil => rfl
  | cons offset offsets =>
    rw [hoffsets] at hfound
    have hlt := hfound.2.1
    omega

/-- Every reported offset is one of a sync point, four bytes in front of the end. -/
theorem Found.mem : ∀ {offsets : List ℕ} {first offset : ℕ}, Found data first offsets →
    offset ∈ offsets → offset + 4 < data.length ∧ BeginsWithSync (data.drop offset) := by
  intro offsets
  induction offsets with
  | nil =>
    intro first offset _ hmem
    cases hmem
  | cons o offsets ih =>
    rintro first offset ⟨-, hlt, hsync, hrest⟩ hmem
    rcases List.mem_cons.mp hmem with rfl | hmem
    · exact ⟨hlt, hsync⟩
    · exact ih hrest hmem

end

/-! ## Every start code -/

/-- `00 00 01` at a position, and a byte behind it. -/
def IsStartCode (data : Bytes) (i : ℕ) : Prop :=
  data[i]? = some 0 ∧ data[i + 1]? = some 0 ∧ data[i + 2]? = some 1 ∧ i + 3 < data.length

instance (data : Bytes) (i : ℕ) : Decidable (IsStartCode data i) :=
  inferInstanceAs (Decidable (_ ∧ _ ∧ _ ∧ _))

/-- Where the start code of a position begins: one byte earlier behind a `00`. -/
def codeOffset (data : Bytes) (i : ℕ) : ℕ :=
  if 0 < i ∧ data[i - 1]? = some 0 then i - 1 else i

/-- The entry for the start code of a position. -/
def entryAt (data : Bytes) (i : ℕ) : ℕ × NalUnitType :=
  (codeOffset data i, data.getD (i + 3) 0 &&& 0x1F)

/-- Every start code has exactly one entry, there is no other, and the offsets grow. -/
structure ListsStartCodes (data : Bytes) (points : List (ℕ × NalUnitType)) : Prop where
  once : ∀ i, IsStartCode data i → points.count (entryAt data i) = 1
  only : ∀ point ∈ points, ∃ i, IsStartCode data i ∧ point = entryAt data i
  ordered : points.Pairwise fun p q => p.1 < q.1

section

variable {data : Bytes}

theorem take_three_iff (rest : Bytes) (a b c : UInt8) :
    rest.take 3 = [a, b, c] ↔ rest[0]? = some a ∧ rest[1]? = some b ∧ rest[2]? = some c := by
  rcases rest with _ | ⟨x, _ | ⟨y, _ | ⟨z, rest⟩⟩⟩ <;> simp

theorem take_four_iff (rest : Bytes) (a b c d : UInt8) :
    rest.take 4 = [a, b, c, d] ↔
      rest[0]? = some a ∧ rest[1]? = some b ∧ rest[2]? = some c ∧ rest[3]? = some d := by
  rcases rest with _ | ⟨x, _ | ⟨y, _ | ⟨z, _ | ⟨w, rest⟩⟩⟩⟩ <;> simp

/-- What the scanner sees at an offset. -/
theorem startCodeLen_drop (data : Bytes) (o : ℕ) :
    startCodeLen (data.drop o) =
      if data[o]? = some 0 ∧ data[o + 1]? = some 0 ∧ data[o + 2]? = some 0 ∧
          data[o + 3]? = some 1 then 4
      else if data[o]? = some 0 ∧ data[o + 1]? = some 0 ∧ data[o + 2]? = some 1 then 3
      else 0 := by
  rw [startCodeLen]
  simp only [take_three_iff, take_four_iff, List.getElem?_drop, Nat.add_zero]

/-- A code that the scanner sees belongs to a start code, which ends where it ends. -/
theorem isStartCode_of_pos {o : ℕ} (hlong : o + 4 < data.length)
    (hpos : 0 < startCodeLen (data.drop o)) :
    ∃ i, IsStartCode data i ∧ o + startCodeLen (data.drop o) = i + 3 ∧
      (i = o ∨ i = o + 1 ∧ data[o]? = some 0) := by
  rw [startCodeLen_drop] at hpos ⊢
  split_ifs at hpos ⊢ with hfour hthree
  · rcases hfour with ⟨hzero, hfour⟩
    exact ⟨o + 1, ⟨hfour.1, hfour.2.1, hfour.2.2, by omega⟩, rfl, .inr ⟨rfl, hzero⟩⟩
  · exact ⟨o, ⟨hthree.1, hthree.2.1, hthree.2.2, by omega⟩, rfl, .inl rfl⟩
  · omega

/-- A start code is seen at its offset. -/
theorem IsStartCode.seen {i : ℕ} (h : IsStartCode data i) :
    0 < startCodeLen (data.drop (codeOffset data i)) ∧
      codeOffset data i + startCodeLen (data.drop (codeOffset data i)) = i + 3 := by
  rcases h with ⟨hfirst, hsecond, hthird, -⟩
  by_cases hzero : 0 < i ∧ data[i - 1]? = some 0
  · rcases Nat.exists_eq_add_one.mpr hzero.1 with ⟨k, rfl⟩
    have hoffset : codeOffset data (k + 1) = k := if_pos hzero
    have hfour : startCodeLen (data.drop k) = 4 := by
      rw [startCodeLen_drop, if_pos ⟨hzero.2, hfirst, hsecond, hthird⟩]
    rw [hoffset, hfour]
    omega
  · have hoffset : codeOffset data i = i := if_neg hzero
    have hnot : ¬ (data[i]? = some 0 ∧ data[i + 1]? = some 0 ∧ data[i + 2]? = some 0 ∧
        data[i + 3]? = some 1) := by
      rintro ⟨-, -, hother, -⟩
      rw [hthird] at hother
      cases hother
    have hthree : startCodeLen (data.drop i) = 3 := by
      rw [startCodeLen_drop, if_neg hnot, if_pos ⟨hfirst, hsecond, hthird⟩]
    rw [hoffset, hthree]
    omega

theorem codeOffset_le (data : Bytes) (i : ℕ) : codeOffset data i ≤ i ∧ i ≤ codeOffset data i + 1 := by
  unfold codeOffset
  split_ifs <;> omega

/-- Two start codes do not overlap. -/
theorem IsStartCode.apart {i j : ℕ} (hi : IsStartCode data i) (hj : IsStartCode data j)
    (hlt : i < j) : i + 3 ≤ j := by
  by_contra hnear
  have hthird := hi.2.2.1
  -- the 01 of the first would be one of the two zeros of the second
  rcases Nat.lt_or_ge (i + 1) j with htwo | hone
  · obtain rfl : j = i + 2 := by omega
    rw [hj.1] at hthird
    cases hthird
  · obtain rfl : j = i + 1 := by omega
    rw [hj.2.1] at hthird
    cases hthird

/-- The entry that the scanner makes at an offset is the one of the start code there. -/
theorem entryAt_eq {i o : ℕ} (hoffset : codeOffset data i = o) (h : IsStartCode data i) :
    entryAt data i = (o, unitType (data.drop o)) := by
  have hend := h.seen.2
  rw [hoffset] at hend
  rw [entryAt, hoffset, unitType, ← hend]
  simp only [List.getD_eq_getElem?_getD, List.getElem?_drop]

/-- The buffers of which the loop of `Scan` misses nothing: a start code in the last four
bytes has a `00` in front of it, and none begins at the header byte of the unit before,
which the loop jumps over. -/
structure Spaced (data : Bytes) : Prop where
  front : ∀ i, IsStartCode data i → codeOffset data i + 4 < data.length
  apart : ∀ i j, IsStartCode data i → IsStartCode data j → i < j → i + 4 ≤ codeOffset data j

/-- One of the two entries is behind the header of the other. -/
def Apart (data : Bytes) (p q : ℕ × NalUnitType) : Prop :=
  p.1 + startCodeLen (data.drop p.1) < q.1 ∨ q.1 + startCodeLen (data.drop q.1) < p.1

instance (data : Bytes) : Std.Symm (Apart data) := ⟨fun _ _ => Or.symm⟩

/-- Two entries are apart, whichever comes first. -/
theorem scan_apart {p q : ℕ × NalUnitType} (hp : p ∈ scan data) (hq : q ∈ scan data)
    (hne : p ≠ q) : Apart data p q := by
  have hpair : (scan data).Pairwise (Apart data) := by
    apply (scan_reported data).pairwise.imp
    exact fun hlt => .inl hlt
  exact hpair.forall hp hq hne

/-- A complete list keeps the start codes apart, since the scanner does so with its entries. -/
theorem ListsStartCodes.spaced (h : ListsStartCodes data (scan data)) : Spaced data := by
  have hmem : ∀ i, IsStartCode data i → entryAt data i ∈ scan data := by
    intro i hi
    apply List.count_pos_iff.mp
    rw [h.once i hi]
    exact Nat.one_pos
  constructor
  · intro i hi
    exact ((scan_reported data).mem _ (hmem i hi)).2.1
  · intro i j hi hj hlt
    have hend := hi.seen.2
    have hfar := hi.apart hj hlt
    have hli := codeOffset_le data i
    have hlj := codeOffset_le data j
    have hne : entryAt data i ≠ entryAt data j := by
      intro hsame
      have hoffset : codeOffset data i = codeOffset data j := congrArg Prod.fst hsame
      omega
    rcases scan_apart (hmem i hi) (hmem j hj) hne with hbefore | hbehind
    · simp only [entryAt] at hbefore
      omega
    · simp only [entryAt] at hbehind
      omega

/-- Every start code with four more bytes behind its offset is reported, or begins inside
one that is reported. -/
theorem scanFrom_complete : ∀ (rest : Bytes) (offset skip : ℕ), data.drop offset = rest →
    ∀ o, offset + skip ≤ o → o + 4 < data.length → 0 < startCodeLen (data.drop o) →
      (o, unitType (data.drop o)) ∈ scanFrom offset skip rest ∨
      ∃ point ∈ scanFrom offset skip rest,
        point.1 < o ∧ o ≤ point.1 + startCodeLen (data.drop point.1) := by
  intro rest
  induction rest with
  | nil =>
    intro offset skip hrest o hle hlt
    have hlen := congrArg List.length hrest
    rw [List.length_drop, List.length_nil] at hlen
    omega
  | cons b rest ih =>
    intro offset skip hrest o hle hlt hpos
    have hnext : data.drop (offset + 1) = rest := by
      rw [← List.drop_drop, hrest]
      rfl
    cases skip with
    | succ skip =>
      rw [scanFrom]
      exact ih (offset + 1) skip hnext o (by omega) hlt hpos
    | zero =>
      rw [scanFrom]
      split_ifs with hcode
      · rcases Nat.lt_or_ge (offset + startCodeLen (b :: rest)) o with hfar | hnear
        · -- behind the code found here
          rcases ih (offset + 1) (startCodeLen (b :: rest)) hnext o (by omega) hlt hpos with
            hmem | ⟨point, hmem, hinside⟩
          · exact .inl (List.mem_cons_of_mem _ hmem)
          · exact .inr ⟨point, List.mem_cons_of_mem _ hmem, hinside⟩
        · rcases Nat.eq_or_lt_of_le (show offset ≤ o by omega) with rfl | hbehind
          · left
            rw [hrest]
            exact List.mem_cons_self
          · right
            refine ⟨_, List.mem_cons_self, hbehind, ?_⟩
            rw [hrest]
            exact hnear
      · have hother : offset ≠ o := by
          rintro rfl
          apply hcode
          have hlen := congrArg List.length hrest
          have := startCodeLen_le (b :: rest)
          rw [List.length_drop] at hlen
          rw [hrest] at hpos
          exact ⟨by omega, hpos, by omega⟩
        exact ih (offset + 1) 0 hnext o (by omega) hlt hpos

/-- Nothing that the scanner reports hides a start code of a spaced buffer. -/
theorem Spaced.not_inside (h : Spaced data) {o j : ℕ} (hlong : o + 4 < data.length)
    (hpos : 0 < startCodeLen (data.drop o)) (hj : IsStartCode data j)
    (hlt : o < codeOffset data j) : o + startCodeLen (data.drop o) < codeOffset data j := by
  rcases isStartCode_of_pos hlong hpos with ⟨i, hi, hend, hshape⟩
  have hj' := codeOffset_le data j
  have hij : i ≠ j := by
    rintro rfl
    rcases hshape with rfl | ⟨rfl, hzero⟩
    · omega
    · have hoffset : codeOffset data (o + 1) = o := if_pos ⟨by omega, hzero⟩
      omega
  have hfar := h.apart i j hi hj (by omega)
  omega

/-- Every start code of a spaced buffer is reported. -/
theorem Spaced.mem_scan (h : Spaced data) {i : ℕ} (hi : IsStartCode data i) :
    entryAt data i ∈ scan data := by
  rw [entryAt_eq rfl hi]
  rcases scanFrom_complete data 0 0 rfl (codeOffset data i) (Nat.zero_le _) (h.front i hi)
    hi.seen.1 with hmem | ⟨point, hmem, hlt, hinside⟩
  · exact hmem
  · have hpoint := (scan_reported data).mem point hmem
    have hnot := h.not_inside hpoint.2.1 hpoint.2.2.1 hi hlt
    omega

/-- In a spaced buffer nothing else is reported. -/
theorem Spaced.eq_entryAt (h : Spaced data) {point : ℕ × NalUnitType} (hmem : point ∈ scan data) :
    ∃ i, IsStartCode data i ∧ point = entryAt data i := by
  rcases point with ⟨o, type⟩
  have hpoint := (scan_reported data).mem _ hmem
  obtain ⟨-, hlong, hpos, rfl⟩ : 0 ≤ o ∧ o + 4 < data.length ∧
      0 < startCodeLen (data.drop o) ∧ type = unitType (data.drop o) := hpoint
  rcases isStartCode_of_pos hlong hpos with ⟨i, hi, hend, hshape⟩
  refine ⟨i, hi, ?_⟩
  have hoffset : codeOffset data i = o := by
    rcases hshape with rfl | ⟨rfl, hzero⟩
    · -- a code of four bytes begins here or one byte before; the scanner sees only one of them
      by_contra hother
      have hle := codeOffset_le data i
      have hne : (i, unitType (data.drop i)) ≠ entryAt data i := by
        intro hsame
        have hoffset : i = codeOffset data i := congrArg Prod.fst hsame
        exact hother hoffset.symm
      have hseen := hi.seen.2
      rcases scan_apart hmem (h.mem_scan hi) hne with hbefore | hbehind
      · simp only [entryAt] at hbefore
        omega
      · simp only [entryAt] at hbehind
        omega
    · exact if_pos ⟨by omega, hzero⟩
  rw [entryAt_eq hoffset hi]

theorem scan_ordered (data : Bytes) : (scan data).Pairwise fun p q => p.1 < q.1 := by
  apply (scan_reported data).pairwise.imp
  intro p q hlt
  omega

end

/-- The list is complete exactly for the buffers whose start codes are spaced. -/
theorem scan_lists (data : Bytes) : ListsStartCodes data (scan data) ↔ Spaced data := by
  constructor
  · exact ListsStartCodes.spaced
  · intro hspaced
    have hnodup : (scan data).Nodup := by
      apply (scan_ordered data).imp
      rintro p q hlt rfl
      exact lt_irrefl _ hlt
    constructor
    · intro i hi
      exact List.count_eq_one_of_mem hnodup (hspaced.mem_scan hi)
    · intro point hmem
      exact hspaced.eq_entryAt hmem
    · exact scan_ordered data

/-- The loop stops in front of a start code in the last four bytes. -/
theorem scan_misses_last : ¬ ListsStartCodes [0, 0, 1, 0x65] (scan [0, 0, 1, 0x65]) := by
  intro hlists
  have hcode : IsStartCode [0, 0, 1, 0x65] 0 := by decide
  have hnone : scan [0, 0, 1, 0x65] = [] := rfl
  have hcount := hlists.once 0 hcode
  rw [hnone, List.count_nil] at hcount
  cases hcount

end NalUnitScanner

end ManagedSecurity

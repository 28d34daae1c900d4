import ManagedSecurity.Platform

/-! # The discovery header and the seek table

An archive opens with the 22 bytes of `MasterHeader` and may end with a table
that `SeekTableSerializer` writes. Both are plain big-endian records.

* `parse_masterBytes`: the parser reads back what the writer has written;
* `masterBytes_offset`: two headers that differ in the table offset only agree
  on the first 14 bytes;
* `deserialize_bytes`: a table of at most 65535 points is read back whole,
  whatever follows it; `seek_table_round_trip`: a longer one is not.
-/

namespace ManagedSecurity

open Bytes Outcome

/-! ## The discovery header -/

/-- The properties of `MasterHeader`. -/
structure MasterHeader where
  version : UInt8
  chunkSize : ℤ
  keyIndex : ℤ
  metadataLength : UInt16
  seekTableOffset : UInt64
deriving DecidableEq, Repr

namespace MasterHeader

/-- `FixedSize`. -/
def fixedSize : ℕ := 22

/-- `"MSG"u8`. -/
def magic : Bytes := [0x4D, 0x53, 0x47]

/-- The constructor `MasterHeader(data)`, with the fields its properties read. -/
def parse (data : Bytes) : Except Exn MasterHeader :=
  if data.length < fixedSize then
    .error (.argument "Data too short for MasterHeader.")
  else if slice data 0 3 ≠ magic then
    .error (.argument "Invalid MasterHeader magic.")
  else
    .ok {
      version := data.getD 3 0
      chunkSize := int32 (beNat (slice data 4 4))
      keyIndex := int32 (beNat (slice data 8 4))
      metadataLength := UInt16.ofNat (beNat (slice data 12 2))
      seekTableOffset := UInt64.ofNat (beNat (slice data 14 8)) }

/-- `MasterHeader.Write`. -/
def write (version : UInt8) (chunkSize keyIndex : ℤ) (metadataLength : UInt16)
    (seekTableOffset : UInt64) : SpanM Unit := do
  let destination ← get
  ensure (fixedSize ≤ destination.length) (.argument "Destination span too small.")
  writeSpan 0 3 magic
  setByte 3 version
  writeSpan 4 4 (beBytes 4 (word32 chunkSize))
  writeSpan 8 4 (beBytes 4 (word32 keyIndex))
  writeSpan 12 2 (beBytes 2 metadataLength.toNat)
  writeSpan 14 8 (beBytes 8 seekTableOffset.toNat)

end MasterHeader

/-- The 22 bytes of a discovery header. -/
def masterBytes (version : UInt8) (chunkSize keyIndex : ℤ) (metadataLength : UInt16)
    (seekTableOffset : UInt64) : Bytes :=
  (MasterHeader.magic ++ [version] ++ beBytes 4 (word32 chunkSize) ++ beBytes 4 (word32 keyIndex) ++
    beBytes 2 metadataLength.toNat) ++ beBytes 8 seekTableOffset.toNat

section

variable (version : UInt8) (chunkSize keyIndex : ℤ) (metadataLength : UInt16)
  (seekTableOffset : UInt64)

@[simp] theorem length_masterBytes :
    (masterBytes version chunkSize keyIndex metadataLength seekTableOffset).length = 22 := by
  simp [masterBytes, MasterHeader.magic]

/-- Only the last eight bytes depend on the table offset. -/
theorem masterBytes_offset (off off' : UInt64) :
    (masterBytes version chunkSize keyIndex metadataLength off).take 14 =
      (masterBytes version chunkSize keyIndex metadataLength off').take 14 := by
  have hlen : ∀ v : UInt64, (MasterHeader.magic ++ [version] ++ beBytes 4 (word32 chunkSize) ++
      beBytes 4 (word32 keyIndex) ++ beBytes 2 metadataLength.toNat).length = 14 := by
    intro v
    simp [MasterHeader.magic]
  rw [masterBytes, masterBytes, List.take_left' (hlen off), List.take_left' (hlen off')]

/-- `MasterHeader.Write` into a fresh array. -/
theorem masterHeader_write_eq :
    MasterHeader.write version chunkSize keyIndex metadataLength seekTableOffset
        (List.replicate 22 0) =
      .ok () (masterBytes version chunkSize keyIndex metadataLength seekTableOffset) := by
  -- each field lands right behind those already written
  have hstep : ∀ (front bytes : Bytes) (start length : ℤ), start = front.length →
      length = bytes.length → front.length + bytes.length ≤ 22 →
      writeSpan start length bytes (front ++ List.replicate (22 - front.length) 0) =
        .ok () ((front ++ bytes) ++ List.replicate (22 - (front ++ bytes).length) 0) := by
    intro front bytes start length hs hl hfit
    have hlen : (front ++ List.replicate (22 - front.length) (0 : UInt8)).length = 22 := by
      rw [List.length_append, List.length_replicate]
      omega
    subst hs hl
    rw [writeSpan_ok (by omega), overwrite_append _ _ _ rfl, List.drop_replicate,
      List.length_append, List.append_assoc, Nat.sub_sub]
  have hbyte : ∀ (front : Bytes) (b : UInt8) (off : ℕ), off = front.length → front.length < 22 →
      setByte off b (front ++ List.replicate (22 - front.length) 0) =
        .ok () ((front ++ [b]) ++ List.replicate (22 - (front ++ [b]).length) 0) := by
    intro front b off hoff hfit
    subst hoff
    rw [setByte_ok b (by rw [List.length_append, List.length_replicate]; omega),
      overwrite_append _ _ _ rfl, List.drop_replicate, List.length_append, List.append_assoc,
      Nat.sub_sub]
  have hroom : MasterHeader.fixedSize ≤ (List.replicate 22 (0 : UInt8)).length := le_rfl
  have h₀ : writeSpan 0 3 MasterHeader.magic (List.replicate 22 0) =
      .ok () (MasterHeader.magic ++ List.replicate (22 - MasterHeader.magic.length) 0) :=
    hstep [] MasterHeader.magic 0 3 rfl rfl (by decide)
  have h₁ := hbyte MasterHeader.magic version 3 rfl (by decide)
  have h₂ := hstep (MasterHeader.magic ++ [version]) (beBytes 4 (word32 chunkSize)) 4 4 rfl
    (by simp) (by simp [MasterHeader.magic])
  have h₃ := hstep (MasterHeader.magic ++ [version] ++ beBytes 4 (word32 chunkSize))
    (beBytes 4 (word32 keyIndex)) 8 4 (by simp [MasterHeader.magic]) (by simp)
    (by simp [MasterHeader.magic])
  have h₄ := hstep (MasterHeader.magic ++ [version] ++ beBytes 4 (word32 chunkSize) ++
    beBytes 4 (word32 keyIndex)) (beBytes 2 metadataLength.toNat) 12 2
    (by simp [MasterHeader.magic]) (by simp) (by simp [MasterHeader.magic])
  have h₅ := hstep (MasterHeader.magic ++ [version] ++ beBytes 4 (word32 chunkSize) ++
    beBytes 4 (word32 keyIndex) ++ beBytes 2 metadataLength.toNat)
    (beBytes 8 seekTableOffset.toNat) 14 8 (by simp [MasterHeader.magic]) (by simp)
    (by simp [MasterHeader.magic])
  rw [MasterHeader.write, get_bind, bind_ok (ensure_true hroom _ _)]
  rw [bind_ok h₀, bind_ok h₁, bind_ok h₂, bind_ok h₃, bind_ok h₄, h₅]
  have hfull : 22 - (masterBytes version chunkSize keyIndex metadataLength seekTableOffset).length = 0 := by
    rw [length_masterBytes]
  show EStateM.Result.ok () (masterBytes version chunkSize keyIndex metadataLength seekTableOffset ++
    List.replicate (22 - (masterBytes version chunkSize keyIndex metadataLength seekTableOffset).length)
      0) = _
  rw [hfull, List.replicate_zero, List.append_nil]

variable {chunkSize keyIndex}

/-- The parser reads the written header back. -/
theorem parse_masterBytes (hcLo : -2 ^ 31 ≤ chunkSize) (hcHi : chunkSize < 2 ^ 31)
    (hkLo : -2 ^ 31 ≤ keyIndex) (hkHi : keyIndex < 2 ^ 31) :
    MasterHeader.parse (masterBytes version chunkSize keyIndex metadataLength seekTableOffset) =
      .ok ⟨version, chunkSize, keyIndex, metadataLength, seekTableOffset⟩ := by
  set data := masterBytes version chunkSize keyIndex metadataLength seekTableOffset with hdata
  have hlen : ¬ data.length < MasterHeader.fixedSize := by
    rw [hdata, length_masterBytes]
    decide
  have hmagic : slice data 0 3 = MasterHeader.magic := by
    rw [hdata, masterBytes]
    rfl
  have hversion : data.getD 3 0 = version := rfl
  -- each field is cut out of the middle of the 22 bytes
  have hsplit : data = (MasterHeader.magic ++ [version]) ++ (beBytes 4 (word32 chunkSize) ++
      (beBytes 4 (word32 keyIndex) ++ (beBytes 2 metadataLength.toNat ++
        beBytes 8 seekTableOffset.toNat))) := by
    rw [hdata, masterBytes]
    simp only [List.append_assoc]
  have hchunk : slice data 4 4 = beBytes 4 (word32 chunkSize) := by
    rw [hsplit]
    exact slice_middle _ _ _ rfl (by simp)
  have hkey : slice data 8 4 = beBytes 4 (word32 keyIndex) := by
    rw [hsplit, ← List.append_assoc]
    exact slice_middle _ _ _ (by simp [MasterHeader.magic]) (by simp)
  have hmeta : slice data 12 2 = beBytes 2 metadataLength.toNat := by
    rw [hsplit, ← List.append_assoc, ← List.append_assoc]
    exact slice_middle _ _ _ (by simp [MasterHeader.magic]) (by simp)
  have hoff : slice data 14 8 = beBytes 8 seekTableOffset.toNat := by
    rw [hdata, masterBytes, ← List.append_nil (beBytes 8 seekTableOffset.toNat)]
    exact slice_middle _ _ _ (by simp [MasterHeader.magic]) (by simp)
  -- the field's bytes are read back as the number that was written
  have hword : ∀ i : ℤ, beNat (beBytes 4 (word32 i)) = word32 i := by
    intro i
    rw [beNat_beBytes]
    exact Nat.mod_eq_of_lt (word32_lt i)
  have hmetaNat : UInt16.ofNat (beNat (beBytes 2 metadataLength.toNat)) = metadataLength := by
    rw [beNat_beBytes, Nat.mod_eq_of_lt (by simpa using metadataLength.toNat_lt), UInt16.ofNat_toNat]
  have hoffNat : UInt64.ofNat (beNat (beBytes 8 seekTableOffset.toNat)) = seekTableOffset := by
    rw [beNat_beBytes, Nat.mod_eq_of_lt (by simpa using seekTableOffset.toNat_lt),
      UInt64.ofNat_toNat]
  rw [MasterHeader.parse, if_neg hlen, if_neg (not_not.mpr hmagic), hchunk, hkey, hmeta, hoff,
    hword, hword, int32_word32 hcLo hcHi, int32_word32 hkLo hkHi, hmetaNat, hoffNat, hversion]

end

/-! ## The seek table -/

/-- `SeekPoint`. -/
structure SeekPoint where
  relativeTimestampMs : UInt32
  fileOffset : UInt64
  frameIndex : UInt32
deriving DecidableEq, Repr

/-- The 16 bytes of a point. -/
def SeekPoint.bytes (p : SeekPoint) : Bytes :=
  beBytes 4 p.relativeTimestampMs.toNat ++ (beBytes 8 p.fileOffset.toNat ++
    beBytes 4 p.frameIndex.toNat)

namespace SeekTable

/-- `"SEEK"u8`. -/
def magic : Bytes := [0x53, 0x45, 0x45, 0x4B]

/-- The bytes of a table: the count is cut to 16 bits. -/
def bytes (points : List SeekPoint) : Bytes :=
  magic ++ (beBytes 2 points.length ++ points.flatMap SeekPoint.bytes)

/-- `Serialize`. The size of the array is computed in wrapping 32-bit
arithmetic; an array that came out too small is overrun by the points. -/
def serialize (points : List SeekPoint) : Except Exn Bytes :=
  match newByteArray (int32 ((6 + points.length * 16) % 2 ^ 32)) with
  | .error e => .error e
  | .ok data =>
    if data.length < 6 + points.length * 16 then
      .error (.argumentOutOfRange "")
    else
      .ok (bytes points)

/-- The loop of `Deserialize`, which stops at the end of the data. -/
def readPoints (data : Bytes) : ℕ → ℕ → List SeekPoint
  | 0, _ => []
  | count + 1, offset =>
    if offset + 16 > data.length then
      []
    else
      { relativeTimestampMs := UInt32.ofNat (beNat (slice data offset 4))
        fileOffset := UInt64.ofNat (beNat (slice data (offset + 4) 8))
        frameIndex := UInt32.ofNat (beNat (slice data (offset + 12) 4)) } ::
        readPoints data count (offset + 16)

/-- `Deserialize`. -/
def deserialize (data : Bytes) : Except Exn (List SeekPoint) :=
  if data.length < 6 then
    .ok []
  else if slice data 0 4 ≠ magic then
    .error (.argument "Invalid SeekTable magic.")
  else
    .ok (readPoints data (beNat (slice data 4 2)) 6)

@[simp] theorem length_pointBytes (p : SeekPoint) : p.bytes.length = 16 := by
  simp [SeekPoint.bytes]

theorem length_flatMap_bytes (points : List SeekPoint) :
    (points.flatMap SeekPoint.bytes).length = points.length * 16 := by
  induction points with
  | nil => rfl
  | cons p points ih =>
    rw [List.flatMap_cons, List.length_append, length_pointBytes, ih, List.length_cons]
    omega

theorem length_bytes (points : List SeekPoint) : (bytes points).length = 6 + points.length * 16 := by
  rw [bytes, List.length_append, List.length_append, length_beBytes, length_flatMap_bytes]
  show 4 + _ = _
  omega

/-- As long as there can be an array of its size, the table is written. -/
theorem serialize_eq {points : List SeekPoint} (h : 6 + points.length * 16 ≤ 0x7FFFFFC7) :
    serialize points = .ok (bytes points) := by
  have hsize : int32 ((6 + points.length * 16) % 2 ^ 32) = (6 + points.length * 16 : ℕ) := by
    rw [Nat.mod_eq_of_lt (by omega), int32_of_lt (by omega)]
  have harray : newByteArray ((6 + points.length * 16 : ℕ) : ℤ) =
      .ok (List.replicate (6 + points.length * 16) 0) := by
    refine newByteArray_eq_ok.mpr ⟨⟨by omega, ?_⟩, by rw [Int.toNat_natCast]⟩
    unfold arrayMaxLength
    omega
  simp only [serialize, hsize, harray, List.length_replicate, lt_irrefl, if_false]

/-- A larger one throws: the wrapped size is negative, too large or too small. -/
theorem serialize_eq_error (points : List SeekPoint) (h : 0x7FFFFFC7 < 6 + points.length * 16) :
    ∃ e, serialize points = .error e := by
  cases harray : newByteArray (int32 ((6 + points.length * 16) % 2 ^ 32)) with
  | error e =>
    refine ⟨e, ?_⟩
    simp only [serialize, harray]
  | ok data =>
    rcases newByteArray_eq_ok.mp harray with ⟨⟨hnonneg, hmax⟩, rfl⟩
    unfold arrayMaxLength at hmax
    have hshort : (int32 ((6 + points.length * 16) % 2 ^ 32)).toNat < 6 + points.length * 16 := by
      omega
    refine ⟨.argumentOutOfRange "", ?_⟩
    simp only [serialize, harray, List.length_replicate, hshort, if_true]

/-- The loop reads back the points at `offset`. -/
theorem readPoints_flatMap (points : List SeekPoint) :
    ∀ front rest : Bytes,
      readPoints (front ++ (points.flatMap SeekPoint.bytes ++ rest)) points.length front.length =
        points := by
  induction points with
  | nil =>
    intro front rest
    rfl
  | cons p points ih =>
    intro front rest
    -- the induction is on the points; what has been read joins the front
    set data := front ++ ((p :: points).flatMap SeekPoint.bytes ++ rest) with hdata
    have hsplit : data = front ++ (p.bytes ++ (points.flatMap SeekPoint.bytes ++ rest)) := by
      rw [hdata, List.flatMap_cons, List.append_assoc]
    have hroom : ¬ front.length + 16 > data.length := by
      rw [hsplit]
      simp only [List.length_append, length_pointBytes]
      omega
    have hts : slice data front.length 4 = beBytes 4 p.relativeTimestampMs.toNat := by
      rw [hsplit, SeekPoint.bytes, List.append_assoc]
      exact slice_middle _ _ _ rfl (by simp)
    have hfo : slice data (front.length + 4) 8 = beBytes 8 p.fileOffset.toNat := by
      rw [hsplit, SeekPoint.bytes, List.append_assoc, List.append_assoc, ← List.append_assoc]
      exact slice_middle _ _ _ (by simp) (by simp)
    have hfi : slice data (front.length + 12) 4 = beBytes 4 p.frameIndex.toNat := by
      rw [hsplit, SeekPoint.bytes, List.append_assoc, List.append_assoc, ← List.append_assoc,
        ← List.append_assoc]
      exact slice_middle _ _ _ (by simp) (by simp)
    have hnext : data = (front ++ p.bytes) ++ (points.flatMap SeekPoint.bytes ++ rest) := by
      rw [hsplit, List.append_assoc]
    have htail : readPoints data points.length (front.length + 16) = points := by
      have hih := ih (front ++ p.bytes) rest
      rw [List.length_append, length_pointBytes, ← hnext] at hih
      exact hih
    have hbound32 : ∀ v : UInt32, beNat (beBytes 4 v.toNat) = v.toNat := by
      intro v
      rw [beNat_beBytes]
      exact Nat.mod_eq_of_lt (by simpa using v.toNat_lt)
    have hbound64 : ∀ v : UInt64, beNat (beBytes 8 v.toNat) = v.toNat := by
      intro v
      rw [beNat_beBytes]
      exact Nat.mod_eq_of_lt (by simpa using v.toNat_lt)
    rw [List.length_cons, readPoints, if_neg hroom, hts, hfo, hfi, hbound32, hbound64, hbound32,
      UInt32.ofNat_toNat, UInt64.ofNat_toNat, UInt32.ofNat_toNat, htail]

/-- As many points are read back as the 16-bit count says, whatever follows. -/
theorem deserialize_bytes_take (points : List SeekPoint) (rest : Bytes) :
    deserialize (bytes points ++ rest) = .ok (points.take (points.length % 2 ^ 16)) := by
  set n := points.length % 2 ^ 16 with hn
  have hlen : ¬ (bytes points ++ rest).length < 6 := by
    rw [List.length_append, length_bytes]
    omega
  have hform : bytes points ++ rest =
      magic ++ (beBytes 2 points.length ++ (points.flatMap SeekPoint.bytes ++ rest)) := by
    simp only [bytes, List.append_assoc]
  have hmagic : slice (bytes points ++ rest) 0 4 = magic := by
    rw [hform, slice_zero]
    rfl
  have hcount : slice (bytes points ++ rest) 4 2 = beBytes 2 points.length := by
    rw [hform]
    exact slice_middle _ _ _ rfl (by simp)
  have hval : beNat (beBytes 2 points.length) = n := beNat_beBytes 2 points.length
  -- the points behind the count are bytes like any others
  have hsplit : points.flatMap SeekPoint.bytes ++ rest = (points.take n).flatMap SeekPoint.bytes ++
      ((points.drop n).flatMap SeekPoint.bytes ++ rest) := by
    rw [← List.append_assoc, ← List.flatMap_append, List.take_append_drop]
  have htaken : (points.take n).length = n := List.length_take_of_le (Nat.mod_le _ _)
  have hpoints := readPoints_flatMap (points.take n) (magic ++ beBytes 2 points.length)
    ((points.drop n).flatMap SeekPoint.bytes ++ rest)
  rw [← hsplit, List.append_assoc, ← hform, htaken] at hpoints
  have hsix : (magic ++ beBytes 2 points.length).length = 6 := by simp [magic]
  rw [hsix] at hpoints
  rw [deserialize, if_neg hlen, if_neg (not_not.mpr hmagic), hcount, hval, hpoints]

/-- A table whose count fits its 16-bit field is read back. -/
theorem deserialize_bytes {points : List SeekPoint} (h : points.length ≤ 65535) (rest : Bytes) :
    deserialize (bytes points ++ rest) = .ok points := by
  rw [deserialize_bytes_take, Nat.mod_eq_of_lt (by omega), List.take_length]

/-- What `Serialize` returns, if it returns, is read back as the same points, whatever
follows it. -/
def RoundTrips (points : List SeekPoint) : Prop :=
  ∀ table, serialize points = .ok table → ∀ rest, deserialize (table ++ rest) = .ok points

/-- The bytes of a table determine all of its points, also those its count leaves
out. -/
theorem bytes_injective {points points' : List SeekPoint} (h : bytes points = bytes points') :
    points = points' := by
  have hlen : points.length = points'.length := by
    have hbytes := congrArg List.length h
    rw [length_bytes, length_bytes] at hbytes
    omega
  have hread := readPoints_flatMap points (magic ++ beBytes 2 points.length) []
  have hread' := readPoints_flatMap points' (magic ++ beBytes 2 points'.length) []
  rw [List.append_nil, List.append_assoc] at hread hread'
  have hform : magic ++ (beBytes 2 points.length ++ points.flatMap SeekPoint.bytes) =
      magic ++ (beBytes 2 points'.length ++ points'.flatMap SeekPoint.bytes) := h
  rw [← hread, ← hread', hform, hlen]

end SeekTable

open SeekTable in
/-- A table is read back exactly if its count fits the 16-bit field, or if it is so long
that `Serialize` throws. -/
theorem seek_table_round_trip (points : List SeekPoint) :
    RoundTrips points ↔ points.length < 2 ^ 16 ∨ 0x7FFFFFC7 < 6 + points.length * 16 := by
  constructor
  · intro htrips
    by_contra hboth
    rcases not_or.mp hboth with ⟨hmany, hfits⟩
    have hread := htrips _ (serialize_eq (not_lt.mp hfits)) []
    rw [deserialize_bytes_take] at hread
    have hlen := congrArg List.length (Except.ok.inj hread)
    rw [List.length_take] at hlen
    omega
  · rintro (hfew | hlong) table hser rest
    · rw [serialize_eq (by omega)] at hser
      rw [← Except.ok.inj hser]
      exact deserialize_bytes (by omega) rest
    · rcases serialize_eq_error points hlong with ⟨e, herr⟩
      rw [herr] at hser
      cases hser

open SeekTable in
/-- The count of 65536 points is cut to zero. -/
theorem seek_table_count_cut : ¬ RoundTrips (List.replicate 65536 ⟨0, 0, 0⟩) := by
  intro htrips
  have hfits : 6 + (List.replicate 65536 (⟨0, 0, 0⟩ : SeekPoint)).length * 16 ≤ 0x7FFFFFC7 := by
    rw [List.length_replicate]
    omega
  have hread := htrips _ (serialize_eq hfits) []
  rw [deserialize_bytes_take, List.length_replicate] at hread
  have hlen := congrArg List.length (Except.ok.inj hread)
  rw [List.length_take, List.length_replicate] at hlen
  omega

end ManagedSecurity

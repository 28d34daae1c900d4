import ManagedSecurity.Platform
import ManagedSecurity.Lib.Serial

/-! # The payload format (`SentinelPayloadWriter`, `SentinelPayloadReader`)

A payload is a schema number and fields without tags: fixed-width little-endian
values, raw blocks, and strings with a 32-bit length. Writer and reader move along a
buffer of their own, and every step checks that its bytes are there.

* `writeValue_appends`, `readValue_consumes`: one field, from both sides;
* `payload_round_trip`: any sequence of fields.
-/

namespace ManagedSecurity

open Bytes Outcome Serial

/-! ## Strings -/

/-- `Encoding.UTF8.GetBytes` of a well-formed string. -/
def utf8Bytes (s : String) : Bytes := s.toByteArray.data.toList

/-- `Encoding.UTF8.GetString`; `replaced` is the text it makes of bytes that are not
well formed. -/
def utf8String (replaced : Bytes → String) (bytes : Bytes) : String :=
  (String.fromUTF8? ⟨bytes.toArray⟩).getD (replaced bytes)

/-- Decoding inverts encoding. -/
theorem utf8String_utf8Bytes (replaced : Bytes → String) (s : String) :
    utf8String replaced (utf8Bytes s) = s := by
  have hbytes : (⟨(utf8Bytes s).toArray⟩ : ByteArray) = s.toByteArray := rfl
  rw [utf8String, hbytes, String.fromUTF8?, dif_pos s.isValidUTF8]
  rfl

/-- Only the empty string has no bytes. -/
theorem utf8Bytes_eq_nil {s : String} : utf8Bytes s = [] ↔ s = "" := by
  constructor
  · intro h
    have hempty := utf8String_utf8Bytes (fun _ => "") s
    rw [h] at hempty
    rw [← hempty]
    exact utf8String_utf8Bytes (fun _ => "") ""
  · rintro rfl
    rfl

/-! ## The capacity check of writer and reader -/

/-- `EnsureCapacity`: the end of the field is computed in wrapping 32-bit arithmetic. -/
def ensureCapacity (length position : ℕ) (bytesRequired : ℤ) : Except Exn Unit :=
  if int32 (word32 (position + bytesRequired)) > length then
    .error (.invalidOperation "Buffer overrun detected.")
  else
    .ok ()

theorem ensureCapacity_ok {length position n : ℕ} (hlength : length < 2 ^ 31)
    (hfit : position + n ≤ length) : ensureCapacity length position n = .ok () := by
  rw [ensureCapacity, int32_word32 (by omega) (by omega), if_neg (by omega)]

/-! ## Writing -/

/-- The writer: a destination buffer and the end of what it holds. -/
structure SentinelPayloadWriter where
  buffer : Bytes
  position : ℕ
deriving DecidableEq, Repr

namespace SentinelPayloadWriter

/-- A program of the writer. -/
abbrev WriterM := EStateM Exn SentinelPayloadWriter

/-- The constructor. -/
def create (destinationBuffer : Bytes) (schemaId : UInt32) : Except Exn SentinelPayloadWriter :=
  if destinationBuffer.length < 4 then
    .error (.argumentOutOfRange "Buffer is too small to contain a Schema ID")
  else
    .ok { buffer := overwrite destinationBuffer 0 (leBytes 4 schemaId.toNat), position := 4 }

/-- `WrittenSpan`. -/
def writtenSpan (w : SentinelPayloadWriter) : Except Exn Bytes := sliceSpan w.buffer 0 w.position

/-- `BytesWritten`. -/
def bytesWritten (w : SentinelPayloadWriter) : ℕ := w.position

/-- The body shared by the writing methods: check the room, store the bytes at the position, move
it. `tooShort` is what is thrown where the sum of the check has wrapped. -/
def store (tooShort : Exn) (bytes : Bytes) : WriterM Unit := do
  let w ← get
  ofExcept (ensureCapacity w.buffer.length w.position bytes.length)
  ensure (w.position + bytes.length ≤ w.buffer.length) tooShort
  set { w with
    buffer := overwrite w.buffer w.position bytes
    position := w.position + bytes.length }

/-- `Write(int)`. -/
def writeInt (value : Int32) : WriterM Unit :=
  store (.argumentOutOfRange "") (leBytes 4 value.toBitVec.toNat)

/-- `Write(uint)`. -/
def writeUInt (value : UInt32) : WriterM Unit := store (.argumentOutOfRange "") (leBytes 4 value.toNat)

/-- `Write(float)`, of a bit pattern. -/
def writeFloat (bits : UInt32) : WriterM Unit := store (.argumentOutOfRange "") (leBytes 4 bits.toNat)

/-- `Write(double)`, of a bit pattern. -/
def writeDouble (bits : UInt64) : WriterM Unit := store (.argumentOutOfRange "") (leBytes 8 bits.toNat)

/-- `Write(bool)`, which indexes the buffer. -/
def writeBool (value : Bool) : WriterM Unit := store .indexOutOfRange [if value then 1 else 0]

/-- `WriteBytes`, with `CopyTo`. -/
def writeBytes (value : Bytes) : WriterM Unit := store (.argument "") value

/-- `WriteString`; `GetByteCount` throws for a count that is no `int`. -/
def writeString (value : String) : WriterM Unit :=
  if value = "" then
    writeInt 0
  else do
    let bytes := utf8Bytes value
    ensure (bytes.length ≤ intMaxValue) (.argument "")
    writeInt (Int32.ofNat bytes.length)
    store (.argumentOutOfRange "") bytes

end SentinelPayloadWriter

/-! ## Reading -/

/-- The reader: the payload, its schema number and the position reached. -/
structure SentinelPayloadReader where
  buffer : Bytes
  position : ℕ
  schemaId : UInt32
deriving DecidableEq, Repr

namespace SentinelPayloadReader

/-- A program of the reader. -/
abbrev ReaderM := EStateM Exn SentinelPayloadReader

/-- The constructor. -/
def create (payload : Bytes) : Except Exn SentinelPayloadReader :=
  if payload.length < 4 then
    .error (.argumentOutOfRange "Payload is too short to contain a Schema ID")
  else
    .ok { buffer := payload, position := 4, schemaId := UInt32.ofNat (leNat (payload.take 4)) }

/-- `EndOfStream`. -/
def endOfStream (r : SentinelPayloadReader) : Bool := decide (r.buffer.length ≤ r.position)

/-- The body shared by the reading methods: check that the bytes are there, cut them
out, move the position. -/
def fetch (length : ℤ) : ReaderM Bytes := do
  let r ← get
  ofExcept (ensureCapacity r.buffer.length r.position length)
  let value ← ofExcept (sliceSpan r.buffer r.position length)
  modify fun r => { r with position := r.position + length.toNat }
  pure value

/-- `ReadInt32`. -/
def readInt32 : ReaderM Int32 := do
  let bytes ← fetch 4
  pure (Int32.ofBitVec (BitVec.ofNat 32 (leNat bytes)))

/-- `ReadUInt32`. -/
def readUInt32 : ReaderM UInt32 := do
  let bytes ← fetch 4
  pure (UInt32.ofNat (leNat bytes))

/-- `ReadSingle`, as a bit pattern. -/
def readSingle : ReaderM UInt32 := do
  let bytes ← fetch 4
  pure (UInt32.ofNat (leNat bytes))

/-- `ReadDouble`, as a bit pattern. -/
def readDouble : ReaderM UInt64 := do
  let bytes ← fetch 8
  pure (UInt64.ofNat (leNat bytes))

/-- `ReadBoolean`. -/
def readBoolean : ReaderM Bool := do
  let bytes ← fetch 1
  pure (decide (bytes ≠ [0]))

/-- `ReadBytes`. -/
def readBytes (length : ℤ) : ReaderM Bytes := fetch length

/-- `ReadString`. -/
def readString (replaced : Bytes → String) : ReaderM String := do
  let stringLength ← readInt32
  if stringLength = 0 then
    pure ""
  else do
    let bytes ← fetch stringLength.toInt
    pure (utf8String replaced bytes)

/-- The number of UTF-16 units of a text. -/
def utf16Length (text : String) : ℕ :=
  (text.toList.map fun c => if c.toNat < 0x10000 then 1 else 2).sum

/-- `ReadStringSpan`: the number of units written to the destination, and the text they
spell. `GetChars` throws for a destination that is too short, before the position moves. -/
def readStringSpan (replaced : Bytes → String) (destination : ℕ) : ReaderM (ℕ × String) := do
  let stringLength ← readInt32
  if stringLength = 0 then
    pure (0, "")
  else do
    let r ← get
    ofExcept (ensureCapacity r.buffer.length r.position stringLength.toInt)
    let bytes ← ofExcept (sliceSpan r.buffer r.position stringLength.toInt)
    let value := utf8String replaced bytes
    ensure (utf16Length value ≤ destination) (.argument "")
    modify fun r => { r with position := r.position + stringLength.toInt.toNat }
    pure (utf16Length value, value)

end SentinelPayloadReader

/-! ## Fields -/

/-- A typed value; `float` and `double` are bit patterns. -/
inductive PayloadValue where
  | int (value : Int32)
  | uint (value : UInt32)
  | float (bits : UInt32)
  | double (bits : UInt64)
  | bool (value : Bool)
  | bytes (value : Bytes)
  | string (value : String)
deriving DecidableEq, Repr

/-- What a typed read is told: the type, and the length of a block. -/
inductive PayloadKind where
  | int
  | uint
  | float
  | double
  | bool
  | bytes (length : ℕ)
  | string
deriving DecidableEq, Repr

/-- The read that belongs to a value. -/
def PayloadValue.kind : PayloadValue → PayloadKind
  | .int _ => .int
  | .uint _ => .uint
  | .float _ => .float
  | .double _ => .double
  | .bool _ => .bool
  | .bytes value => .bytes value.length
  | .string _ => .string

/-- The bytes of a field. -/
def PayloadValue.encoded : PayloadValue → Bytes
  | .int value => leBytes 4 value.toBitVec.toNat
  | .uint value => leBytes 4 value.toNat
  | .float bits => leBytes 4 bits.toNat
  | .double bits => leBytes 8 bits.toNat
  | .bool value => [if value then 1 else 0]
  | .bytes value => value
  | .string value => leBytes 4 (utf8Bytes value).length ++ utf8Bytes value

/-- The room that a payload needs: the schema number and the fields. -/
def payloadSize (values : List PayloadValue) : ℕ :=
  4 + (values.flatMap PayloadValue.encoded).length

/-- Write a value with the method for its type. -/
def writeValue : PayloadValue → SentinelPayloadWriter.WriterM Unit
  | .int value => SentinelPayloadWriter.writeInt value
  | .uint value => SentinelPayloadWriter.writeUInt value
  | .float bits => SentinelPayloadWriter.writeFloat bits
  | .double bits => SentinelPayloadWriter.writeDouble bits
  | .bool value => SentinelPayloadWriter.writeBool value
  | .bytes value => SentinelPayloadWriter.writeBytes value
  | .string value => SentinelPayloadWriter.writeString value

/-- Read a value with the method for its type. -/
def readValue (replaced : Bytes → String) : PayloadKind → SentinelPayloadReader.ReaderM PayloadValue
  | .int => do
    let value ← SentinelPayloadReader.readInt32
    pure (.int value)
  | .uint => do
    let value ← SentinelPayloadReader.readUInt32
    pure (.uint value)
  | .float => do
    let bits ← SentinelPayloadReader.readSingle
    pure (.float bits)
  | .double => do
    let bits ← SentinelPayloadReader.readDouble
    pure (.double bits)
  | .bool => do
    let value ← SentinelPayloadReader.readBoolean
    pure (.bool value)
  | .bytes length => do
    let value ← SentinelPayloadReader.readBytes length
    pure (.bytes value)
  | .string => do
    let value ← SentinelPayloadReader.readString replaced
    pure (.string value)

/-! ## The writing methods append -/

namespace SentinelPayloadWriter

/-- A writer as an output: a span has at most `int.MaxValue` bytes. -/
def output : Output SentinelPayloadWriter UInt8 where
  Valid w := w.position ≤ w.buffer.length ∧ w.buffer.length < 2 ^ 31
  written w := w.buffer.take w.position
  room w := w.buffer.length - w.position

theorem store_appends (tooShort : Exn) (bytes : Bytes) :
    Appends output (store tooShort bytes) bytes := by
  rintro w ⟨hpos, hlen⟩ hroom
  have hfit : w.position + bytes.length ≤ w.buffer.length := by
    have hroom' : bytes.length ≤ w.buffer.length - w.position := hroom
    omega
  have hkeep := length_overwrite hfit
  refine ⟨{ buffer := overwrite w.buffer w.position bytes, position := w.position + bytes.length },
    ?_, ⟨?_, ?_⟩, ?_, ?_⟩
  · rw [store, get_bind, bind_ok (ofExcept_eq_ok.mpr ⟨ensureCapacity_ok hlen hfit, rfl⟩),
      bind_ok (ensure_true hfit _ _)]
    rfl
  · show w.position + bytes.length ≤ (overwrite w.buffer w.position bytes).length
    omega
  · show (overwrite w.buffer w.position bytes).length < 2 ^ 31
    omega
  · show (overwrite w.buffer w.position bytes).take (w.position + bytes.length) =
      w.buffer.take w.position ++ bytes
    rw [take_add_slice, take_overwrite_of_le le_rfl hpos, slice_overwrite_self hpos]
  · show w.buffer.length - w.position =
      bytes.length + ((overwrite w.buffer w.position bytes).length - (w.position + bytes.length))
    omega

theorem writeString_appends (value : String) :
    Appends output (writeString value) (leBytes 4 (utf8Bytes value).length ++ utf8Bytes value) := by
  unfold writeString
  split_ifs with hnil
  · rw [hnil]
    exact store_appends _ _
  · intro w hw hroom
    -- there is no room for more than `int.MaxValue` bytes
    have hcount : (utf8Bytes value).length < 2 ^ 31 := by
      have hroom' : (leBytes 4 (utf8Bytes value).length ++ utf8Bytes value).length ≤
          w.buffer.length - w.position := hroom
      rw [List.length_append] at hroom'
      have hlen := hw.2
      omega
    have hword : (Int32.ofNat (utf8Bytes value).length).toBitVec.toNat = (utf8Bytes value).length := by
      rw [Int32.toBitVec_ofNat', BitVec.toNat_ofNat]
      exact Nat.mod_eq_of_lt (by omega)
    have hlength : Appends output (writeInt (Int32.ofNat (utf8Bytes value).length))
        (leBytes 4 (utf8Bytes value).length) := by
      rw [writeInt, hword]
      exact store_appends _ _
    have hensure : ((utf8Bytes value).length : ℤ) ≤ intMaxValue := by
      rw [intMaxValue]
      omega
    rw [bind_ok (ensure_true hensure _ _)]
    exact (hlength.seq (store_appends _ (utf8Bytes value))) w hw hroom

end SentinelPayloadWriter

theorem writeValue_appends (value : PayloadValue) :
    Appends SentinelPayloadWriter.output (writeValue value) value.encoded := by
  cases value with
  | int value => exact SentinelPayloadWriter.store_appends _ _
  | uint value => exact SentinelPayloadWriter.store_appends _ _
  | float bits => exact SentinelPayloadWriter.store_appends _ _
  | double bits => exact SentinelPayloadWriter.store_appends _ _
  | bool value => exact SentinelPayloadWriter.store_appends _ _
  | bytes value => exact SentinelPayloadWriter.store_appends _ _
  | string value => exact SentinelPayloadWriter.writeString_appends value

/-! ## The reading methods consume -/

namespace SentinelPayloadReader

/-- A reader of a payload as an input: the reads leave the payload as it is. -/
def input (payload : Bytes) : Input SentinelPayloadReader UInt8 where
  Valid r := r.buffer = payload ∧ r.position ≤ r.buffer.length ∧ r.buffer.length < 2 ^ 31
  rest r := r.buffer.drop r.position

variable (payload : Bytes)

theorem fetch_consumes (bytes : Bytes) : Consumes (input payload) (fetch bytes.length) bytes bytes := by
  rintro r tail ⟨hpayload, hpos, hlen⟩ hrest
  have hrest' : r.buffer.drop r.position = bytes ++ tail := hrest
  have hfit : r.position + bytes.length ≤ r.buffer.length := by
    have hcount := congrArg List.length hrest'
    rw [List.length_drop, List.length_append] at hcount
    omega
  have hvalue : slice r.buffer r.position bytes.length = bytes := by
    rw [slice, hrest', List.take_left' rfl]
  refine ⟨{ r with position := r.position + bytes.length }, ?_, ⟨hpayload, hfit, hlen⟩, ?_⟩
  · rw [fetch, get_bind, bind_ok (ofExcept_eq_ok.mpr ⟨ensureCapacity_ok hlen hfit, rfl⟩),
      bind_ok (ofExcept_eq_ok.mpr ⟨sliceSpan_ok hfit, rfl⟩), hvalue]
    rfl
  · show r.buffer.drop (r.position + bytes.length) = tail
    rw [← List.drop_drop, hrest', List.drop_left' rfl]

/-- A fixed-width field. -/
theorem fetch_word (w n : ℕ) : Consumes (input payload) (fetch w) (leBytes w n) (leBytes w n) := by
  have h := fetch_consumes payload (leBytes w n)
  rwa [length_leBytes] at h

theorem readInt32_consumes (value : Int32) :
    Consumes (input payload) readInt32 (leBytes 4 value.toBitVec.toNat) value := by
  have hvalue : Int32.ofBitVec (BitVec.ofNat 32 (leNat (leBytes 4 value.toBitVec.toNat))) = value := by
    rw [leNat_leBytes]
    have hword : value.toBitVec.toNat % 256 ^ 4 = value.toBitVec.toNat :=
      Nat.mod_eq_of_lt value.toBitVec.isLt
    rw [hword, BitVec.ofNat_toNat, BitVec.setWidth_eq, Int32.ofBitVec_toBitVec]
  have h := (fetch_word payload 4 value.toBitVec.toNat).map
    fun bytes => Int32.ofBitVec (BitVec.ofNat 32 (leNat bytes))
  rwa [hvalue] at h

theorem readUInt32_consumes (value : UInt32) :
    Consumes (input payload) readUInt32 (leBytes 4 value.toNat) value := by
  have hvalue : UInt32.ofNat (leNat (leBytes 4 value.toNat)) = value := by
    have hword : value.toNat % 256 ^ 4 = value.toNat := Nat.mod_eq_of_lt value.toNat_lt
    rw [leNat_leBytes, hword, UInt32.ofNat_toNat]
  have h := (fetch_word payload 4 value.toNat).map fun bytes => UInt32.ofNat (leNat bytes)
  rwa [hvalue] at h

theorem readDouble_consumes (bits : UInt64) :
    Consumes (input payload) readDouble (leBytes 8 bits.toNat) bits := by
  have hvalue : UInt64.ofNat (leNat (leBytes 8 bits.toNat)) = bits := by
    have hword : bits.toNat % 256 ^ 8 = bits.toNat := Nat.mod_eq_of_lt bits.toNat_lt
    rw [leNat_leBytes, hword, UInt64.ofNat_toNat]
  have h := (fetch_word payload 8 bits.toNat).map fun bytes => UInt64.ofNat (leNat bytes)
  rwa [hvalue] at h

theorem readBoolean_consumes (value : Bool) :
    Consumes (input payload) readBoolean [if value then 1 else 0] value := by
  have h := (fetch_consumes payload [if value then 1 else 0]).map fun bytes => decide (bytes ≠ [0])
  cases value
  · exact h
  · exact h

theorem readString_consumes (replaced : Bytes → String) (value : String) :
    Consumes (input payload) (readString replaced) (leBytes 4 (utf8Bytes value).length ++ utf8Bytes value)
      value := by
  intro r tail hr hrest
  have hcount : (utf8Bytes value).length < 2 ^ 31 := by
    have hlen := congrArg List.length (show r.buffer.drop r.position = _ from hrest)
    rw [List.length_drop, List.length_append, List.length_append] at hlen
    have hbound := hr.2.2
    omega
  have hword : (Int32.ofNat (utf8Bytes value).length).toBitVec.toNat = (utf8Bytes value).length := by
    rw [Int32.toBitVec_ofNat', BitVec.toNat_ofNat]
    exact Nat.mod_eq_of_lt (by omega)
  have hlength := readInt32_consumes payload (Int32.ofNat (utf8Bytes value).length)
  rw [hword] at hlength
  refine hlength.bind ?_ r tail hr hrest
  -- the reader returns early on a length of zero
  by_cases hnil : utf8Bytes value = []
  · rw [hnil, utf8Bytes_eq_nil.mp hnil]
    exact consumes_pure
  · have hpos := List.length_pos_of_ne_nil hnil
    have hint : (Int32.ofNat (utf8Bytes value).length).toInt = (utf8Bytes value).length :=
      Int32.toInt_ofNat_of_lt hcount
    have hne : Int32.ofNat (utf8Bytes value).length ≠ 0 := by
      intro h0
      rw [h0] at hint
      have hzero : (0 : Int32).toInt = 0 := rfl
      omega
    rw [if_neg hne, hint]
    have h := (fetch_consumes payload (utf8Bytes value)).map (utf8String replaced)
    rwa [utf8String_utf8Bytes] at h

end SentinelPayloadReader

theorem readValue_consumes (payload : Bytes) (replaced : Bytes → String) (value : PayloadValue) :
    Consumes (SentinelPayloadReader.input payload) (readValue replaced value.kind) value.encoded value := by
  cases value with
  | int value => exact (SentinelPayloadReader.readInt32_consumes payload value).map PayloadValue.int
  | uint value => exact (SentinelPayloadReader.readUInt32_consumes payload value).map PayloadValue.uint
  | float bits => exact (SentinelPayloadReader.readUInt32_consumes payload bits).map PayloadValue.float
  | double bits => exact (SentinelPayloadReader.readDouble_consumes payload bits).map PayloadValue.double
  | bool value => exact (SentinelPayloadReader.readBoolean_consumes payload value).map PayloadValue.bool
  | bytes value => exact (SentinelPayloadReader.fetch_consumes payload value).map PayloadValue.bytes
  | string value => exact (SentinelPayloadReader.readString_consumes payload replaced value).map PayloadValue.string

/-! ## Round trip -/

/-- The constructor stores the schema number, the first bytes that are written. -/
theorem SentinelPayloadWriter.create_valid {destination : Bytes} (schemaId : UInt32)
    (hspan : destination.length < 2 ^ 31) (hfour : 4 ≤ destination.length) :
    ∃ w, create destination schemaId = .ok w ∧ output.Valid w ∧
      output.written w = leBytes 4 schemaId.toNat ∧ output.room w = destination.length - 4 := by
  have hschemaLen : (leBytes 4 schemaId.toNat).length = 4 := length_leBytes _ _
  have hkeep : (overwrite destination 0 (leBytes 4 schemaId.toNat)).length = destination.length :=
    length_overwrite (by omega)
  refine ⟨{ buffer := overwrite destination 0 (leBytes 4 schemaId.toNat), position := 4 },
    if_neg (by omega), ⟨?_, ?_⟩, ?_, ?_⟩
  · show 4 ≤ (overwrite destination 0 (leBytes 4 schemaId.toNat)).length
    omega
  · show (overwrite destination 0 (leBytes 4 schemaId.toNat)).length < 2 ^ 31
    omega
  · have hself : slice (overwrite destination 0 (leBytes 4 schemaId.toNat)) 0
        (leBytes 4 schemaId.toNat).length = leBytes 4 schemaId.toNat :=
      slice_overwrite_self (Nat.zero_le _)
    rwa [hschemaLen, slice_zero] at hself
  · show (overwrite destination 0 (leBytes 4 schemaId.toNat)).length - 4 = _
    omega

/-- What is written is what `WrittenSpan` shows. -/
theorem SentinelPayloadWriter.writtenSpan_eq {w : SentinelPayloadWriter} (hw : output.Valid w) :
    w.writtenSpan = .ok (output.written w) := by
  have hcut : sliceSpan w.buffer (0 : ℕ) w.position = .ok (slice w.buffer 0 w.position) :=
    sliceSpan_ok (by have := hw.1; omega)
  rw [slice_zero] at hcut
  exact hcut

/-- A message is no longer than the buffer it stands in. -/
theorem SentinelPayloadWriter.length_written {w : SentinelPayloadWriter} (hw : output.Valid w) :
    (output.written w).length < 2 ^ 31 := by
  have hle : (w.buffer.take w.position).length ≤ w.buffer.length := List.length_take_le' _ _
  exact lt_of_le_of_lt hle hw.2

/-- A schema number and fields are a message: the reads of their types return the fields
and end where it ends. -/
theorem payload_reads (replaced : Bytes → String) (schemaId : UInt32) (values : List PayloadValue)
    {span : Bytes} (hspan : span.length < 2 ^ 31)
    (hform : span = leBytes 4 schemaId.toNat ++ values.flatMap PayloadValue.encoded) :
    ∃ r r', SentinelPayloadReader.create span = .ok r ∧ r.schemaId = schemaId ∧
      collect (readValue replaced) (values.map PayloadValue.kind) r = .ok values r' ∧
      r'.position = span.length ∧ r'.endOfStream = true := by
  set fields := values.flatMap PayloadValue.encoded with hfields
  have hschemaLen : (leBytes 4 schemaId.toNat).length = 4 := length_leBytes _ _
  have hspanLen : span.length = 4 + fields.length := by
    rw [hform, List.length_append, hschemaLen]
  have hopen : SentinelPayloadReader.create span =
      .ok { buffer := span, position := 4, schemaId := schemaId } := by
    have hid : UInt32.ofNat (leNat (span.take 4)) = schemaId := by
      have hword : schemaId.toNat % 256 ^ 4 = schemaId.toNat := Nat.mod_eq_of_lt schemaId.toNat_lt
      rw [hform, List.take_left' hschemaLen, leNat_leBytes, hword, UInt32.ofNat_toNat]
    rw [SentinelPayloadReader.create, if_neg (by omega), hid]
  set r : SentinelPayloadReader := { buffer := span, position := 4, schemaId := schemaId } with hr
  have hreader : (SentinelPayloadReader.input span).Valid r := by
    refine ⟨rfl, ?_, ?_⟩
    · show 4 ≤ span.length
      omega
    · show span.length < 2 ^ 31
      omega
  have hrest : (SentinelPayloadReader.input span).rest r = fields ++ [] := by
    show span.drop 4 = fields ++ []
    rw [hform, List.drop_left' hschemaLen, List.append_nil]
  rcases Consumes.collect (readValue_consumes span replaced) values r [] hreader hrest with
    ⟨r', hread, ⟨hbuffer, hpos, -⟩, hrest'⟩
  have hend : r'.position = span.length := by
    have hdone : r'.buffer.drop r'.position = [] := hrest'
    have hle := List.drop_eq_nil_iff.mp hdone
    rw [hbuffer] at hle hpos
    omega
  refine ⟨r, r', hopen, rfl, hread, hend, ?_⟩
  rw [SentinelPayloadReader.endOfStream, hbuffer, hend]
  exact decide_eq_true le_rfl

/-- Writing any fields into a buffer with room for them succeeds, and the reads of the
same types return them and end where the payload ends. -/
theorem payload_round_trip (replaced : Bytes → String) (schemaId : UInt32)
    (values : List PayloadValue) (buffer : Bytes) (hspan : buffer.length < 2 ^ 31)
    (hlarge : payloadSize values ≤ buffer.length) :
    ∃ w w' span, SentinelPayloadWriter.create buffer schemaId = .ok w ∧
      each writeValue values w = .ok () w' ∧ w'.writtenSpan = .ok span ∧
      ∃ r r', SentinelPayloadReader.create span = .ok r ∧ r.schemaId = schemaId ∧
        collect (readValue replaced) (values.map PayloadValue.kind) r = .ok values r' ∧
        r'.position = span.length ∧ r'.endOfStream = true := by
  rw [payloadSize] at hlarge
  rcases SentinelPayloadWriter.create_valid schemaId hspan (by omega) with
    ⟨w, hcreate, hvalid, hschema, hroom⟩
  rcases Appends.each writeValue_appends values w hvalid (by rw [hroom]; omega) with
    ⟨w', hrun, hvalid', hwritten, -⟩
  rw [hschema] at hwritten
  refine ⟨w, w', SentinelPayloadWriter.output.written w', hcreate, hrun,
    SentinelPayloadWriter.writtenSpan_eq hvalid', ?_⟩
  exact payload_reads replaced schemaId values (SentinelPayloadWriter.length_written hvalid') hwritten

/-- An integer, a text with a two-byte character, a block and an empty text. -/
def mixedFields : List PayloadValue :=
  [.int (-2), .string "né", .bool true, .bytes [7, 0, 9], .string "", .double 0x3FF0000000000000]

theorem payload_round_trip_mixed :
    payloadSize mixedFields = 31 ∧
    ∃ w w' span, SentinelPayloadWriter.create (List.replicate 40 0) 0x80000001 = .ok w ∧
      each writeValue mixedFields w = .ok () w' ∧ w'.writtenSpan = .ok span ∧
      ∃ r r', SentinelPayloadReader.create span = .ok r ∧ r.schemaId = 0x80000001 ∧
        collect (readValue fun _ => "\uFFFD") (mixedFields.map PayloadValue.kind) r =
          .ok mixedFields r' ∧
        r'.position = span.length ∧ r'.endOfStream = true := by
  have hsize : payloadSize mixedFields = 31 := by decide
  have hspan : (List.replicate 40 (0 : UInt8)).length < 2 ^ 31 := by decide
  refine ⟨hsize, payload_round_trip _ _ mixedFields _ hspan ?_⟩
  rw [hsize]
  decide

end ManagedSecurity

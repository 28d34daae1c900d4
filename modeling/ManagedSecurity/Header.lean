import ManagedSecurity.Platform

/-! # The frame header (`Bindings.Header`)

The 32-bit word `[3 magic][2 version][2 switch][1 reserved][12 L][12 KI]`
opens every message. `L` and `KI` are prefix codes: the number of leading ones
of the 12-bit field is the number of extension bytes that follow the word,
those of `L` first. `Header.parse` is the constructor, `Header.write` the
builder and `getRequiredSize` the size calculator; the three are written
separately in the source and are translated separately here.
-/

namespace ManagedSecurity

/-- `FixedHeaderSize`: 32 bits. -/
def fixedHeaderSize : ℕ := 4

/-- The field lengths a switch value selects. -/
structure Profile where
  ivLength : ℕ
  macLength : ℕ
  sequenceLength : ℕ
deriving DecidableEq, Repr

/-- The parsed header: the properties of `Bindings.Header`. -/
structure Header where
  ivLength : ℕ
  macLength : ℕ
  payloadLength : ℤ
  keyIndex : ℤ
  sequenceLength : ℕ
  ivOffset : ℕ
  macOffset : ℕ
  payloadOffset : ℕ
  totalLength : ℤ
deriving DecidableEq, Repr

/-! ## Parsing -/

/-- The big-endian word made of the first four bytes. -/
def headerWord (span : Bytes) : ℕ :=
  ((span.getD 0 0).toNat <<< 24) ||| ((span.getD 1 0).toNat <<< 16) |||
    ((span.getD 2 0).toNat <<< 8) ||| (span.getD 3 0).toNat

/-- The loop of `DecodeVariableLength12` that counts the leading ones of the
12-bit value; it throws at the fourth, so four rounds are all it can make. -/
def countExtensions : ℕ → ℕ → ℕ → Except Exn ℕ
  | 0, _, _ => .error .nonTermination
  | fuel + 1, temp, extensions =>
    if temp &&& 0x800 ≠ 0 then
      if extensions + 1 > 3 then
        .error (.argument "Too many field extension bytes.")
      else
        countExtensions fuel ((temp <<< 1) % 2 ^ 16) (extensions + 1)
    else
      .ok extensions

/-- The loop of `DecodeVariableLength12` that appends the extension bytes to
the value, in wrapping 32-bit arithmetic. -/
def readExtensions (data : Bytes) : ℕ → ℕ → ℕ → Except Exn (ℕ × ℕ)
  | 0, value, offset => .ok (value, offset)
  | i + 1, value, offset =>
    match data[offset]? with
    | none => .error (.argument "Data too short for header extensions.")
    | some b => readExtensions data i (((value <<< 8) % 2 ^ 32) ||| b.toNat) (offset + 1)

/-- `DecodeVariableLength12`: the decoded field and the offset behind its
extension bytes. -/
def decodeVariableLength12 (baseValue : ℕ) (data : Bytes) (offset : ℕ) : Except Exn (ℤ × ℕ) :=
  match countExtensions 4 baseValue 0 with
  | .error e => .error e
  | .ok extensions =>
    if extensions = 0 then
      .ok (baseValue, offset)
    else
      let bitsToStrip := extensions + 1
      let value := baseValue &&& ((1 <<< (12 - bitsToStrip)) - 1)
      match readExtensions data extensions value offset with
      | .error e => .error e
      | .ok (value, offset) => .ok (Bytes.int32 value, offset)

/-- The lengths the constructor assigns for each value of the switch field. -/
def switchProfile (s : ℕ) : Except Exn Profile :=
  if s = 0 then
    .ok { ivLength := 12, macLength := 16, sequenceLength := 0 }
  else if s = 1 then
    .ok { ivLength := 16, macLength := 32, sequenceLength := 0 }
  else if s = 2 then
    .ok { ivLength := 12, macLength := 16, sequenceLength := 8 }
  else
    .error (.notSupported s!"Switch value S={s} is not supported.")

/-- The header whose variable fields end at `currentOffset`: the layout
`[FixedHeader+Ext] [Seq?] [IV] [MAC] [Payload]`. -/
def Header.layout (p : Profile) (payloadLength keyIndex : ℤ) (currentOffset : ℕ) : Header where
  ivLength := p.ivLength
  macLength := p.macLength
  payloadLength := payloadLength
  keyIndex := keyIndex
  sequenceLength := p.sequenceLength
  ivOffset := currentOffset + p.sequenceLength
  macOffset := currentOffset + p.sequenceLength + p.ivLength
  payloadOffset := currentOffset + p.sequenceLength + p.ivLength + p.macLength
  totalLength := (currentOffset + p.sequenceLength + p.ivLength + p.macLength : ℕ) + payloadLength

/-- The two variable-length fields and the final length check. -/
def Header.parseFields (p : Profile) (h : ℕ) (data : Bytes) : Except Exn Header :=
  match decodeVariableLength12 ((h >>> 12) &&& 0xFFF) data fixedHeaderSize with
  | .error e => .error e
  | .ok (payloadLength, offset) =>
    match decodeVariableLength12 (h &&& 0xFFF) data offset with
    | .error e => .error e
    | .ok (keyIndex, offset) =>
      let header := Header.layout p payloadLength keyIndex offset
      if header.totalLength > intMaxValue then
        .error (.argument "Total message length exceeds supported limits.")
      else
        .ok header

/-- The constructor `Header(ReadOnlySpan<byte> data)`. -/
def Header.parse (data : Bytes) : Except Exn Header :=
  if data.length < fixedHeaderSize then
    .error (.argument "Data too short for header")
  else
    let h := headerWord data
    let magic := (h >>> 29) &&& 0x07
    if magic ≠ 7 then
      .error (.invalidOperation s!"Invalid Header Magic: {magic}. Expected 7.")
    else
      let v := (h >>> 27) &&& 0x03
      if v ≠ 0 then
        .error (.notImplemented s!"Version {v} not implemented.")
      else
        match switchProfile ((h >>> 25) &&& 0x03) with
        | .error e => .error e
        | .ok p => Header.parseFields p h data

/-- `GetSequence`: the empty span when the profile has no sequence number. -/
def Header.getSequence (h : Header) (message : Bytes) : Except Exn Bytes :=
  if h.sequenceLength > 0 then
    sliceSpan message ((h.ivOffset : ℤ) - h.sequenceLength) h.sequenceLength
  else
    .ok []

/-- `GetIv`. -/
def Header.getIv (h : Header) (message : Bytes) : Except Exn Bytes :=
  sliceSpan message h.ivOffset h.ivLength

/-- `GetMac`. -/
def Header.getMac (h : Header) (message : Bytes) : Except Exn Bytes :=
  sliceSpan message h.macOffset h.macLength

/-- `GetPayload`. -/
def Header.getPayload (h : Header) (message : Bytes) : Except Exn Bytes :=
  sliceSpan message h.payloadOffset h.payloadLength

/-! ## Building -/

/-- `GetExtensionCount`. -/
def getExtensionCount (value : ℤ) : Except Exn ℕ :=
  if value < 2 ^ 11 then .ok 0
  else if value < 2 ^ (10 + 8) then .ok 1
  else if value < 2 ^ (9 + 16) then .ok 2
  else .error (.argumentOutOfRange "Value too large for current encoder implementation.")

/-- The lengths `GetRequiredSize` reserves for a profile number. -/
def builderProfile (profile : ℤ) : Profile :=
  if profile = 1 then
    { ivLength := 16, macLength := 32, sequenceLength := 0 }
  else if profile = 2 then
    { ivLength := 12, macLength := 16, sequenceLength := 8 }
  else
    { ivLength := 12, macLength := 16, sequenceLength := 0 }

/-- `GetRequiredSize`. -/
def getRequiredSize (payloadLength keyIndex profile : ℤ) : Except Exn ℤ :=
  match getExtensionCount payloadLength with
  | .error e => .error e
  | .ok l =>
    match getExtensionCount keyIndex with
    | .error e => .error e
    | .ok k =>
      let p := builderProfile profile
      .ok ((fixedHeaderSize + l + k + p.sequenceLength + p.ivLength + p.macLength : ℕ) +
        payloadLength)

/-- `EncodeVariableLength12`: writes the extension bytes and returns the
12-bit base with the offset behind them. -/
def encodeVariableLength12 (value : ℤ) (offset : ℕ) : SpanM (ℕ × ℕ) :=
  if value < 2 ^ 11 then
    pure ((value % 2 ^ 16).toNat, offset)
  else if value < 2 ^ 18 then do
    let v := value.toNat
    setByte offset (UInt8.ofNat (v &&& 0xFF))
    pure (0x800 ||| ((v >>> 8) &&& 0x3FF), offset + 1)
  else if value < 2 ^ 25 then do
    let v := value.toNat
    setByte offset (UInt8.ofNat ((v >>> 8) &&& 0xFF))
    setByte (offset + 1) (UInt8.ofNat (v &&& 0xFF))
    pure (0xC00 ||| ((v >>> 16) &&& 0x1FF), offset + 2)
  else
    throw (.argumentOutOfRange "Value too large to encode.")

/-- The fixed word without its two variable fields. -/
def headerPrefix (profile : ℤ) : ℕ :=
  (7 <<< 29) ||| (0 <<< 27) ||| (((profile % 2 ^ 32).toNat &&& 0x03) <<< 25) ||| (0 <<< 24)

/-- `Header.Write`. -/
def Header.write (payloadLength keyIndex profile : ℤ) : SpanM Unit := do
  let size ← ofExcept (getRequiredSize payloadLength keyIndex profile)
  let destination ← get
  Outcome.ensure (size ≤ destination.length) (.argument "Destination buffer too small.")
  let l ← encodeVariableLength12 payloadLength fixedHeaderSize
  let ki ← encodeVariableLength12 keyIndex l.2
  let h := headerPrefix profile ||| (l.1 <<< 12) ||| ki.1
  setByte 0 (UInt8.ofNat ((h >>> 24) &&& 0xFF))
  setByte 1 (UInt8.ofNat ((h >>> 16) &&& 0xFF))
  setByte 2 (UInt8.ofNat ((h >>> 8) &&& 0xFF))
  setByte 3 (UInt8.ofNat (h &&& 0xFF))

/-! ## The extension count of the frame reader -/

/-- `CountLeadingOnes12` of the stream, which stops counting after four. -/
def countLeadingOnes12 : ℕ → ℕ → ℕ → ℕ
  | 0, _, count => count
  | fuel + 1, val, count =>
    if val &&& 0x800 ≠ 0 then
      if count + 1 > 3 then count + 1
      else countLeadingOnes12 fuel ((val <<< 1) % 2 ^ 16) (count + 1)
    else count

/-- `CalculateHeaderExtensions`. -/
def calculateHeaderExtensions (hVal : ℕ) : ℕ :=
  countLeadingOnes12 4 ((hVal >>> 12) &&& 0xFFF) 0 + countLeadingOnes12 4 (hVal &&& 0xFFF) 0

end ManagedSecurity

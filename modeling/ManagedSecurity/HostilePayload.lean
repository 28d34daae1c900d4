import ManagedSecurity.Payload

/-! # Reading bytes that nobody has written

The capacity check of the reader adds in 32 bits: a length that is negative, or so large
that the sum wraps, passes it. What keeps the reader inside its buffer then is the slice
that is cut out behind the check.

* `PayloadCall.decoder`: what each call makes of the bytes in front of it, in numbers that
  do not wrap;
* `fetch_decodes`, `payloadCall_decodes`: the reader computes it, or throws;
* `payload_reader_in_bounds`: any sequence of calls, also behind calls that have thrown.
-/

namespace ManagedSecurity

open Bytes Outcome Serial

/-! ## Calls -/

/-- The reading methods with their arguments; a destination is given by its length. -/
inductive PayloadCall where
  | readInt32
  | readUInt32
  | readSingle
  | readDouble
  | readBoolean
  | readBytes (length : Int32)
  | readString
  | readStringSpan (destination : ℕ)
deriving DecidableEq, Repr

/-- What a call returns; `chars` is the count and the text in the destination. -/
inductive PayloadReading where
  | value (value : PayloadValue)
  | chars (charsWritten : ℕ) (text : String)
deriving DecidableEq, Repr

section

open SentinelPayloadReader

/-- Make a call. -/
def payloadCall (replaced : Bytes → String) : PayloadCall → ReaderM PayloadReading
  | .readInt32 => do
    let value ← readInt32
    pure (.value (.int value))
  | .readUInt32 => do
    let value ← readUInt32
    pure (.value (.uint value))
  | .readSingle => do
    let bits ← readSingle
    pure (.value (.float bits))
  | .readDouble => do
    let bits ← readDouble
    pure (.value (.double bits))
  | .readBoolean => do
    let value ← readBoolean
    pure (.value (.bool value))
  | .readBytes length => do
    let value ← readBytes length.toInt
    pure (.value (.bytes value))
  | .readString => do
    let value ← readString replaced
    pure (.value (.string value))
  | .readStringSpan destination => do
    let written ← readStringSpan replaced destination
    pure (.chars written.1 written.2)

end

/-! ## What the bytes in front of a call are worth -/

/-- A field of fixed width. -/
def fieldDecoder {α : Type} (width : ℕ) (f : Bytes → α) : Decoder UInt8 α :=
  (Decoder.cut width).andThen fun bytes => .value (f bytes)

/-- A little-endian word of four bytes, as a signed number. -/
def int32Decoder : Decoder UInt8 Int32 :=
  fieldDecoder 4 fun bytes => Int32.ofBitVec (BitVec.ofNat 32 (leNat bytes))

/-- A length and as many bytes of text, of which `accept` has a use. -/
def textDecoder {α : Type} (replaced : Bytes → String) (accept : String → Option α) : Decoder UInt8 α :=
  int32Decoder.andThen fun stringLength =>
    if stringLength = 0 then
      (accept "").elim Decoder.none Decoder.value
    else
      (Decoder.cut stringLength.toInt).andThen fun bytes =>
        (accept (utf8String replaced bytes)).elim Decoder.none Decoder.value

/-- The number of units and the text, if the destination has room for them. -/
def fitting (destination : ℕ) (text : String) : Option (ℕ × String) :=
  if SentinelPayloadReader.utf16Length text ≤ destination then
    some (SentinelPayloadReader.utf16Length text, text)
  else
    none

/-- What a call makes of the bytes in front of it, and how many of them it takes. It cannot
be satisfied where this is nothing. -/
def PayloadCall.decoder (replaced : Bytes → String) : PayloadCall → Decoder UInt8 PayloadReading
  | .readInt32 => int32Decoder.andThen fun value => .value (.value (.int value))
  | .readUInt32 => (fieldDecoder 4 fun bytes => UInt32.ofNat (leNat bytes)).andThen fun value =>
      .value (.value (.uint value))
  | .readSingle => (fieldDecoder 4 fun bytes => UInt32.ofNat (leNat bytes)).andThen fun bits =>
      .value (.value (.float bits))
  | .readDouble => (fieldDecoder 8 fun bytes => UInt64.ofNat (leNat bytes)).andThen fun bits =>
      .value (.value (.double bits))
  | .readBoolean => (fieldDecoder 1 fun bytes => decide (bytes ≠ [0])).andThen fun value =>
      .value (.value (.bool value))
  | .readBytes length => (Decoder.cut length.toInt).andThen fun bytes =>
      .value (.value (.bytes bytes))
  | .readString => (textDecoder replaced some).andThen fun text => .value (.value (.string text))
  | .readStringSpan destination => (textDecoder replaced (fitting destination)).andThen fun written =>
      .value (.chars written.1 written.2)

theorem local_fieldDecoder {α : Type} (width : ℕ) (f : Bytes → α) : (fieldDecoder width f).Local :=
  Decoder.local_andThen (Decoder.local_cut width) fun _ => Decoder.local_value _

theorem local_textDecoder {α : Type} (replaced : Bytes → String) (accept : String → Option α) :
    (textDecoder replaced accept).Local := by
  have haccept : ∀ text, Decoder.Local
      ((accept text).elim Decoder.none Decoder.value : Decoder UInt8 α) := by
    intro text
    cases accept text with
    | none => exact Decoder.local_none
    | some a => exact Decoder.local_value a
  apply Decoder.local_andThen (local_fieldDecoder 4 _)
  intro stringLength
  split_ifs
  · exact haccept ""
  · exact Decoder.local_andThen (Decoder.local_cut _) fun _ => haccept _

/-- No call looks at bytes that it does not take. -/
theorem PayloadCall.local_decoder (replaced : Bytes → String) (call : PayloadCall) :
    (call.decoder replaced).Local := by
  have hvalue : ∀ {α : Type} {d : Decoder UInt8 α} (f : α → PayloadReading), d.Local →
      (d.andThen fun a => Decoder.value (f a)).Local := by
    intro α d f hd
    exact Decoder.local_andThen hd fun _ => Decoder.local_value _
  cases call with
  | readBytes length => exact hvalue _ (Decoder.local_cut length.toInt)
  | readString => exact hvalue _ (local_textDecoder replaced some)
  | readStringSpan destination => exact hvalue _ (local_textDecoder replaced (fitting destination))
  | _ => exact hvalue _ (local_fieldDecoder _ _)

/-! ## The reader computes it -/

namespace SentinelPayloadReader

variable {payload : Bytes} {replaced : Bytes → String} {r : SentinelPayloadReader}

/-- The position behind a cut of the bytes in front of it. -/
theorem leaves_cut {n : ℕ} (hr : (input payload).Valid r) (hfit : r.position + n ≤ r.buffer.length) :
    (input payload).Leaves r { r with position := r.position + n } n := by
  rcases hr with ⟨hpayload, -, hlen⟩
  refine ⟨⟨hpayload, hfit, hlen⟩, ?_⟩
  show r.buffer.drop (r.position + n) = (r.buffer.drop r.position).drop n
  rw [List.drop_drop]

/-- The check and the slice behind it let through exactly the lengths that are there: what
wraps in the check is cut off by the slice. -/
theorem cut_checked (hr : (input payload).Valid r) (n : ℤ) :
    (0 ≤ n ∧ n ≤ (r.buffer.drop r.position).length ∧
        ensureCapacity r.buffer.length r.position n = .ok () ∧
        sliceSpan r.buffer r.position n = .ok ((r.buffer.drop r.position).take n.toNat)) ∨
      (¬ (0 ≤ n ∧ n ≤ (r.buffer.drop r.position).length) ∧
        ∃ e, sliceSpan r.buffer r.position n = .error e) := by
  rcases hr with ⟨-, hpos, hlen⟩
  rw [List.length_drop]
  by_cases hfit : 0 ≤ n ∧ n ≤ (r.buffer.length - r.position : ℕ)
  · rcases Int.eq_ofNat_of_zero_le hfit.1 with ⟨k, rfl⟩
    have hk : r.position + k ≤ r.buffer.length := by omega
    exact .inl ⟨hfit.1, hfit.2, ensureCapacity_ok hlen hk, sliceSpan_ok hk⟩
  · refine .inr ⟨hfit, .argumentOutOfRange "", ?_⟩
    rw [sliceSpan, if_neg (by omega)]

/-- What reads a window: the check, the slice, and then something that moves the position over
it if it has a use for its bytes, and throws otherwise. -/
theorem window_decodes {α : Type} {n : ℤ} {body : Bytes → ReaderM α} {accept : Bytes → Option α}
    (hok : ∀ bytes a r, accept bytes = some a →
      body bytes r = .ok a { r with position := r.position + n.toNat })
    (herror : ∀ bytes r, accept bytes = none → ∃ e, body bytes r = .error e r) :
    Decodes (input payload)
      (do
        let r ← get
        ofExcept (ensureCapacity r.buffer.length r.position n)
        let bytes ← ofExcept (sliceSpan r.buffer r.position n)
        body bytes : ReaderM α)
      ((Decoder.cut n).andThen fun bytes => (accept bytes).elim Decoder.none Decoder.value) := by
  intro r hr
  have hrest : (input payload).rest r = r.buffer.drop r.position := rfl
  have hstay : (input payload).Leaves r r 0 := ⟨hr, rfl⟩
  rw [hrest, get_bind]
  rcases cut_checked hr n with ⟨hneg, hle, hcheck, hslice⟩ | ⟨hnot, e, hslice⟩
  · set bytes := (r.buffer.drop r.position).take n.toNat with hbytes
    have hcut : (Decoder.cut n : Decoder UInt8 Bytes) (r.buffer.drop r.position) =
        some (bytes, n.toNat) := if_pos ⟨hneg, hle⟩
    rw [Decoder.andThen_eq hcut, hcheck, bind_ok (ofExcept_ok () r), hslice,
      bind_ok (ofExcept_ok bytes r)]
    cases haccept : accept bytes with
    | some a =>
      constructor
      · intro a' k h
        rcases Prod.mk.inj (Option.some.inj h) with ⟨rfl, rfl⟩
        refine ⟨_, hok bytes a r haccept, leaves_cut hr ?_⟩
        have hpos := hr.2.1
        rw [List.length_drop] at hle
        omega
      · intro h
        cases h
    | none =>
      constructor
      · intro a' k h
        cases h
      · intro _
        rcases herror bytes r haccept with ⟨e, he⟩
        exact ⟨e, r, he, 0, hstay⟩
  · have hcut : (Decoder.cut n : Decoder UInt8 Bytes) (r.buffer.drop r.position) = none := if_neg hnot
    have hnone : ((Decoder.cut n).andThen fun bytes =>
        (accept bytes).elim Decoder.none Decoder.value) (r.buffer.drop r.position) = none := by
      simp only [Decoder.andThen, hcut]
    rw [hnone]
    constructor
    · intro a' k h
      cases h
    · intro _
      -- either of the two throws, and neither has moved the position
      cases hcheck : ensureCapacity r.buffer.length r.position n with
      | error e' => exact ⟨e', r, bind_error (ofExcept_error e' r), 0, hstay⟩
      | ok u =>
        rw [bind_ok (ofExcept_ok u r), hslice, bind_error (ofExcept_error e r)]
        exact ⟨e, r, rfl, 0, hstay⟩

theorem fetch_decodes (n : ℤ) : Decodes (input payload) (fetch n) (Decoder.cut n) := by
  have hall : Decodes (input payload) (fetch n)
      ((Decoder.cut n).andThen fun bytes => (some bytes).elim Decoder.none Decoder.value) := by
    apply window_decodes
    · intro bytes a r h
      rw [← Option.some.inj h]
      rfl
    · intro bytes r h
      cases h
  have hcut : ((Decoder.cut n : Decoder UInt8 Bytes).andThen fun bytes =>
      (some bytes).elim Decoder.none Decoder.value) = Decoder.cut n := Decoder.andThen_value
  rwa [hcut] at hall

theorem field_decodes {α : Type} (width : ℕ) (f : Bytes → α) :
    Decodes (input payload) (fetch width >>= fun bytes => pure (f bytes)) (fieldDecoder width f) :=
  (fetch_decodes width).map f

theorem readInt32_decodes : Decodes (input payload) readInt32 int32Decoder :=
  field_decodes 4 fun bytes => Int32.ofBitVec (BitVec.ofNat 32 (leNat bytes))

/-- The text methods: both read a length, and where it is not zero as many bytes. -/
theorem text_decodes {α : Type} {accept : String → Option α} {empty : ReaderM α}
    {body : Int32 → ReaderM α}
    (hempty : Decodes (input payload) empty ((accept "").elim Decoder.none Decoder.value))
    (hbody : ∀ stringLength, Decodes (input payload) (body stringLength)
      ((Decoder.cut stringLength.toInt).andThen fun bytes =>
        (accept (utf8String replaced bytes)).elim Decoder.none Decoder.value)) :
    Decodes (input payload)
      (readInt32 >>= fun stringLength => if stringLength = 0 then empty else body stringLength)
      (textDecoder replaced accept) := by
  apply readInt32_decodes.bind
  intro stringLength
  split_ifs
  · exact hempty
  · exact hbody stringLength

/-- The part of `ReadStringSpan` behind the length: the position moves only if the text fits
the destination. -/
theorem chars_decodes (destination : ℕ) (n : ℤ) :
    Decodes (input payload)
      (do
        let r ← get
        ofExcept (ensureCapacity r.buffer.length r.position n)
        let bytes ← ofExcept (sliceSpan r.buffer r.position n)
        let value := utf8String replaced bytes
        ensure (utf16Length value ≤ destination) (.argument "")
        modify fun r => { r with position := r.position + n.toNat }
        pure (utf16Length value, value) : ReaderM (ℕ × String))
      ((Decoder.cut n).andThen fun bytes =>
        (fitting destination (utf8String replaced bytes)).elim Decoder.none Decoder.value) := by
  apply window_decodes
  · intro bytes written r h
    unfold fitting at h
    split_ifs at h with hfits
    rw [← Option.some.inj h, bind_ok (ensure_true hfits _ _)]
    rfl
  · intro bytes r h
    unfold fitting at h
    split_ifs at h with hfits
    exact ⟨_, bind_error (ensure_false hfits _ _)⟩

theorem readString_decodes :
    Decodes (input payload) (readString replaced) (textDecoder replaced some) :=
  text_decodes (decodes_pure "") fun stringLength =>
    (fetch_decodes stringLength.toInt).map (utf8String replaced)

theorem readStringSpan_decodes (destination : ℕ) :
    Decodes (input payload) (readStringSpan replaced destination)
      (textDecoder replaced (fitting destination)) := by
  refine text_decodes ?_ fun stringLength => chars_decodes destination stringLength.toInt
  -- the empty text fits every destination
  have hempty : fitting destination "" = some (0, "") := if_pos (Nat.zero_le destination)
  rw [hempty]
  exact decodes_pure (0, "")

end SentinelPayloadReader

section

open SentinelPayloadReader

/-- Every call computes its decoder of what is left of the payload, or throws. -/
theorem payloadCall_decodes (payload : Bytes) (replaced : Bytes → String) (call : PayloadCall) :
    Decodes (input payload) (payloadCall replaced call) (call.decoder replaced) := by
  have hmap : ∀ {α : Type} {x : ReaderM α} {d : Decoder UInt8 α} (f : α → PayloadReading),
      Decodes (input payload) x d →
      Decodes (input payload) (x >>= fun a => pure (f a)) (d.andThen fun a => .value (f a)) :=
    fun f hx => hx.map f
  cases call with
  | readInt32 => exact hmap _ readInt32_decodes
  | readBytes length => exact hmap _ (fetch_decodes length.toInt)
  | readString => exact hmap _ readString_decodes
  | readStringSpan destination => exact hmap _ (readStringSpan_decodes destination)
  | _ => exact hmap _ (field_decodes _ _)

/-- How far calls have moved the position. -/
theorem position_of_leaves {payload : Bytes} {r r' : SentinelPayloadReader} {n : ℕ}
    (hr : (input payload).Valid r) (h : (input payload).Leaves r r' n) :
    r'.position = min (r.position + n) payload.length := by
  rcases hr with ⟨rfl, hpos, -⟩
  rcases h with ⟨⟨hbuffer, hpos', -⟩, hrest⟩
  have hlen : (r'.buffer.drop r'.position).length = ((r.buffer.drop r.position).drop n).length :=
    congrArg List.length hrest
  rw [hbuffer] at hlen hpos'
  simp only [List.length_drop] at hlen
  omega

end

/-- Whatever bytes and lengths the reader meets, and whichever of its calls have thrown, its
position lies between the schema number and the end of the buffer and never moves back. What a
call returns is decoded from the bytes it has moved over alone, and a call for which the bytes
in front of it are not enough throws. -/
theorem payload_reader_in_bounds (replaced : Bytes → String) (payload : Bytes)
    (calls : List PayloadCall) (call : PayloadCall) (hfour : 4 ≤ payload.length)
    (hspan : payload.length < 2 ^ 31) :
    ∃ r₀, SentinelPayloadReader.create payload = .ok r₀ ∧ r₀.position = 4 ∧
      ∀ r, r = (attempts (payloadCall replaced) calls r₀).2 →
        r.buffer = payload ∧ 4 ≤ r.position ∧ r.position ≤ payload.length ∧
        r.position ≤ (finalState (payloadCall replaced call r)).position ∧
        (finalState (payloadCall replaced call r)).position ≤ payload.length ∧
        (∀ reading r', payloadCall replaced call r = .ok reading r' →
          ∀ behind, call.decoder replaced
            (slice payload r.position (r'.position - r.position) ++ behind) =
              some (reading, r'.position - r.position)) ∧
        (call.decoder replaced (payload.drop r.position) = none →
          ∃ e r', payloadCall replaced call r = .error e r') := by
  have hcalls := payloadCall_decodes payload replaced
  set r₀ : SentinelPayloadReader :=
    { buffer := payload, position := 4, schemaId := UInt32.ofNat (leNat (payload.take 4)) } with hr₀
  have hvalid₀ : (SentinelPayloadReader.input payload).Valid r₀ := ⟨rfl, hfour, hspan⟩
  refine ⟨r₀, if_neg (by omega), rfl, ?_⟩
  intro r hreached
  rcases Decodes.leaves_attempts hcalls hvalid₀ calls with ⟨n, hbefore⟩
  rw [← hreached] at hbefore
  have hvalid := hbefore.valid
  have hpos := position_of_leaves hvalid₀ hbefore
  rcases (hcalls call).leaves hvalid with ⟨m, hafter⟩
  have hmoved := position_of_leaves hvalid hafter
  have hstart : r₀.position = 4 := rfl
  have hbound := hvalid.2.1
  rw [hvalid.1] at hbound
  refine ⟨hvalid.1, by omega, hbound, by omega, by omega, ?_, ?_⟩
  · intro reading r' hrun behind
    cases hdecoder : call.decoder replaced (payload.drop r.position) with
    | none =>
      rcases (hcalls call r hvalid).2 (by rw [← hdecoder, ← hvalid.1]; rfl) with ⟨e, r'', hthrow, -⟩
      cases hthrow.symm.trans hrun
    | some decoded =>
      rcases decoded with ⟨a, k⟩
      have hinput : call.decoder replaced ((SentinelPayloadReader.input payload).rest r) =
          some (a, k) := by
        rw [← hdecoder, ← hvalid.1]
        rfl
      rcases (hcalls call r hvalid).1 a k hinput with ⟨r'', hreturn, hleft⟩
      rcases EStateM.Result.ok.inj (hreturn.symm.trans hrun) with ⟨rfl, rfl⟩
      -- the decoder looks at the bytes that it has taken, and at no other
      rcases call.local_decoder replaced _ a k hdecoder with ⟨hk, hlocal⟩
      have hmoved' := position_of_leaves hvalid hleft
      rw [List.length_drop] at hk
      have hcount : r''.position - r.position = k := by omega
      rw [hcount]
      exact hlocal behind
  · intro hnone
    rcases (hcalls call r hvalid).2 (by rw [← hnone, ← hvalid.1]; rfl) with ⟨e, r', hthrow, -⟩
    exact ⟨e, r', hthrow⟩

/-- A text whose length is announced as -1, behind which a number is still read. -/
def negativeLength : Bytes := [1, 0, 0, 0, 255, 255, 255, 255, 7, 0, 0, 0]

theorem payload_reader_in_bounds_negative :
    ∃ r₀, SentinelPayloadReader.create negativeLength = .ok r₀ ∧
      8 ≤ (attempts (payloadCall fun _ => "\uFFFD") [.readString, .readBytes (-5)] r₀).2.position ∧
      (attempts (payloadCall fun _ => "\uFFFD") [.readString, .readBytes (-5)] r₀).2.position ≤ 12 := by
  rcases payload_reader_in_bounds (fun _ => "\uFFFD") negativeLength [.readString, .readBytes (-5)]
    .readInt32 (by decide) (by decide) with ⟨r₀, hcreate, -, hall⟩
  rcases hall _ rfl with ⟨-, -, hbound, -⟩
  refine ⟨r₀, hcreate, ?_, hbound⟩
  obtain rfl := Except.ok.inj hcreate
  decide

end ManagedSecurity

import ManagedSecurity.Payload

/-! # Writes that fail

A write checks the room for its bytes before it stores one of them. `WriteString` is two
writes, each with a check of its own: the length of the text is stored and counted before
it is known whether the text fits.

* `store_refused`: one checked write that fails leaves the writer as it is;
* `writeValue_sat`: what a write does in every case;
* `failed_write_keeps`: which failures change the message, and what a message is as long
  as no such failure occurs.
-/

namespace ManagedSecurity

open Bytes Outcome Serial

/-! ## What a failure may leave behind -/

/-- A text for whose length there is room, but not for its bytes behind it. -/
def PayloadValue.Splits : PayloadValue → SentinelPayloadWriter → Prop
  | .string text, w => text ≠ "" ∧ ((utf8Bytes text).length : ℤ) ≤ intMaxValue ∧
      w.position + 4 ≤ w.buffer.length ∧
      w.buffer.length < w.position + 4 + (utf8Bytes text).length
  | _, _ => False

/-- Where the write of the value throws, the message is what it was. -/
def FailsClean (value : PayloadValue) (w : SentinelPayloadWriter) : Prop :=
  ∀ e w', writeValue value w = .error e w' →
    w'.bytesWritten = w.bytesWritten ∧ w'.writtenSpan = w.writtenSpan

/-! ## One write -/

namespace SentinelPayloadWriter

variable {w : SentinelPayloadWriter}

/-- A checked write that does not fit changes nothing, whether its check sees that or the
sum of the check wraps and the store itself throws. -/
theorem store_refused (tooShort : Exn) {bytes : Bytes}
    (hfit : ¬ w.position + bytes.length ≤ w.buffer.length) :
    ∃ e, store tooShort bytes w = .error e w := by
  cases hcheck : ensureCapacity w.buffer.length w.position bytes.length with
  | error e =>
    refine ⟨e, ?_⟩
    rw [store, get_bind, hcheck]
    exact bind_error (ofExcept_error e w)
  | ok u =>
    refine ⟨tooShort, ?_⟩
    rw [store, get_bind, hcheck, bind_ok (ofExcept_ok u w), bind_error (ensure_false hfit _ _)]

/-- A checked write appends its bytes or changes nothing. -/
theorem store_sat (tooShort : Exn) (bytes : Bytes) (hw : output.Valid w) :
    Sat (store tooShort bytes w)
      (fun _ w' => output.Valid w' ∧ output.written w' = output.written w ++ bytes)
      (fun _ w' => w' = w) := by
  by_cases hfit : w.position + bytes.length ≤ w.buffer.length
  · have hroom : bytes.length ≤ output.room w := by
      show bytes.length ≤ w.buffer.length - w.position
      omega
    rcases store_appends tooShort bytes w hw hroom with ⟨w', hrun, hw', hwritten, -⟩
    rw [hrun, sat_ok]
    exact ⟨hw', hwritten⟩
  · rcases store_refused tooShort hfit with ⟨e, he⟩
    rw [he, sat_error]

/-- The length of a text that is cut off is stored, and counted. -/
theorem writeString_splits {text : String} (hw : output.Valid w)
    (hsplits : (PayloadValue.string text).Splits w) :
    ∃ e w', writeString text w = .error e w' ∧ output.Valid w' ∧
      w'.position = w.position + 4 := by
  rcases hsplits with ⟨hne, hcount, hfour, hshort⟩
  set length := leBytes 4 (Int32.ofNat (utf8Bytes text).length).toBitVec.toNat with hlength
  have hlen : length.length = 4 := length_leBytes _ _
  have hroom : length.length ≤ output.room w := by
    show length.length ≤ w.buffer.length - w.position
    omega
  rcases store_appends (.argumentOutOfRange "") length w hw hroom with ⟨w', hrun, hw', hwritten, hleft⟩
  have hpos : w'.position = w.position + 4 := by
    have hcounts := congrArg List.length hwritten
    have htake : (w.buffer.take w.position).length = w.position := List.length_take_of_le hw.1
    have htake' : (w'.buffer.take w'.position).length = w'.position := List.length_take_of_le hw'.1
    have hsum : (w'.buffer.take w'.position).length =
        (w.buffer.take w.position ++ length).length := hcounts
    rw [List.length_append, htake, htake', hlen] at hsum
    exact hsum
  have hspace : w.buffer.length - w.position = length.length + (w'.buffer.length - w'.position) := hleft
  have hbound := hw'.1
  have hrefused : ∃ e, store (.argumentOutOfRange "") (utf8Bytes text) w' = .error e w' :=
    store_refused _ (by omega)
  rcases hrefused with ⟨e, he⟩
  refine ⟨e, w', ?_, hw', hpos⟩
  rw [writeString, if_neg hne, bind_ok (ensure_true hcount _ _), bind_ok (show writeInt _ w = _ from hrun),
    he]

/-- A text appends its length and its bytes, or changes nothing unless it is cut off. -/
theorem writeString_sat (text : String) (hw : output.Valid w) :
    Sat (writeString text w)
      (fun _ w' => output.Valid w' ∧
        output.written w' = output.written w ++ (PayloadValue.string text).encoded)
      (fun _ w' => output.Valid w' ∧ (¬ (PayloadValue.string text).Splits w → w' = w)) := by
  by_cases hfit : (PayloadValue.string text).encoded.length ≤ output.room w
  · rcases writeString_appends text w hw hfit with ⟨w', hrun, hw', hwritten, -⟩
    rw [hrun, sat_ok]
    exact ⟨hw', hwritten⟩
  by_cases hsplits : (PayloadValue.string text).Splits w
  · rcases writeString_splits hw hsplits with ⟨e, w', hrun, hw', -⟩
    rw [hrun, sat_error]
    exact ⟨hw', fun hnot => absurd hsplits hnot⟩
  have hkept : ∃ e, writeString text w = .error e w := by
    have hlong : ¬ 4 + (utf8Bytes text).length ≤ w.buffer.length - w.position := by
      have hsize : (leBytes 4 (utf8Bytes text).length ++ utf8Bytes text).length =
          4 + (utf8Bytes text).length := by
        rw [List.length_append, length_leBytes]
      have hfit' : ¬ (leBytes 4 (utf8Bytes text).length ++ utf8Bytes text).length ≤
          w.buffer.length - w.position := hfit
      rw [hsize] at hfit'
      exact hfit'
    have hpos := hw.1
    rw [writeString]
    split_ifs with hnil
    · -- the length of the empty text does not fit
      have hempty : utf8Bytes text = [] := utf8Bytes_eq_nil.mpr hnil
      rw [hempty, List.length_nil] at hlong
      exact store_refused _ (by rw [length_leBytes]; omega)
    · by_cases hcount : ((utf8Bytes text).length : ℤ) ≤ intMaxValue
      · have hfour : ¬ w.position + 4 ≤ w.buffer.length := by
          intro hfour
          exact hsplits ⟨hnil, hcount, hfour, by omega⟩
        have hrefused : ∃ e, writeInt (Int32.ofNat (utf8Bytes text).length) w = .error e w :=
          store_refused _ (by rw [length_leBytes]; exact hfour)
        rcases hrefused with ⟨e, he⟩
        refine ⟨e, ?_⟩
        rw [bind_ok (ensure_true hcount _ _), bind_error he]
      · exact ⟨_, bind_error (ensure_false hcount _ _)⟩
  rcases hkept with ⟨e, he⟩
  rw [he, sat_error]
  exact ⟨hw, fun _ => rfl⟩

end SentinelPayloadWriter

section

open SentinelPayloadWriter

variable {w : SentinelPayloadWriter}

/-- A write appends its field, or throws and changes nothing unless it is a text that is cut
off. -/
theorem writeValue_sat (value : PayloadValue) (hw : output.Valid w) :
    Sat (writeValue value w)
      (fun _ w' => output.Valid w' ∧ output.written w' = output.written w ++ value.encoded)
      (fun _ w' => output.Valid w' ∧ (¬ value.Splits w → w' = w)) := by
  have hstore : ∀ tooShort bytes, Sat (store tooShort bytes w)
      (fun _ w' => output.Valid w' ∧ output.written w' = output.written w ++ bytes)
      (fun _ w' => output.Valid w' ∧ (¬ value.Splits w → w' = w)) := by
    intro tooShort bytes
    refine (store_sat tooShort bytes hw).mono (fun _ _ h => h) ?_
    rintro e w' rfl
    exact ⟨hw, fun _ => rfl⟩
  cases value with
  | int value => exact hstore _ _
  | uint value => exact hstore _ _
  | float bits => exact hstore _ _
  | double bits => exact hstore _ _
  | bool value => exact hstore _ _
  | bytes value => exact hstore _ _
  | string text => exact writeString_sat text hw

/-- A failure changes the message exactly if it is a text that is cut off. -/
theorem failsClean_iff (value : PayloadValue) (hw : output.Valid w) :
    FailsClean value w ↔ ¬ value.Splits w := by
  constructor
  · intro hclean hsplits
    cases value with
    | string text =>
      rcases writeString_splits hw hsplits with ⟨e, w', hrun, -, hpos⟩
      have hsame : w'.position = w.position := (hclean e w' hrun).1
      omega
    | _ => exact hsplits
  · intro hwhole e w' hrun
    obtain rfl := ((writeValue_sat value hw).of_error hrun).2 hwhole
    exact ⟨rfl, rfl⟩

/-- Writes keep the position within the buffer, also when they fail. -/
theorem attempts_valid (values : List PayloadValue) (hw : output.Valid w) :
    output.Valid (attempts writeValue values w).2 := by
  refine attempts_invariant ?_ values w hw
  intro value w hw
  exact (writeValue_sat value hw).mono (fun _ _ h => h.1) (fun _ _ h => h.1)

end

/-! ## Every state of a writer -/

/-- In every state that writes and failed writes can reach, the next write that fails leaves
the message as it was exactly if it is no text for whose length alone there is room. As long as
all writes are such, the message is the schema number and the fields whose writes have
returned, and is read back as these fields. -/
theorem failed_write_keeps (destination : Bytes) (schemaId : UInt32) (w₀ : SentinelPayloadWriter)
    (values : List PayloadValue) (hspan : destination.length < 2 ^ 31)
    (hcreate : SentinelPayloadWriter.create destination schemaId = .ok w₀) :
    (∀ value, FailsClean value (attempts writeValue values w₀).2 ↔
      ¬ value.Splits (attempts writeValue values w₀).2) ∧
    (EachCall (fun value w => ¬ value.Splits w) writeValue values w₀ →
      ∃ span, (attempts writeValue values w₀).2.writtenSpan = .ok span ∧
        span = leBytes 4 schemaId.toNat ++
          (accepted writeValue values w₀).flatMap PayloadValue.encoded ∧
        ∀ replaced, ∃ r r', SentinelPayloadReader.create span = .ok r ∧ r.schemaId = schemaId ∧
          collect (readValue replaced) ((accepted writeValue values w₀).map PayloadValue.kind) r =
            .ok (accepted writeValue values w₀) r' ∧
          r'.position = span.length ∧ r'.endOfStream = true) := by
  have hfour : 4 ≤ destination.length := by
    by_contra hshort
    rw [SentinelPayloadWriter.create, if_pos (by omega)] at hcreate
    cases hcreate
  have hstart : SentinelPayloadWriter.output.Valid w₀ ∧
      SentinelPayloadWriter.output.written w₀ = leBytes 4 schemaId.toNat := by
    rcases SentinelPayloadWriter.create_valid schemaId hspan hfour with ⟨w, hw, hvalid, hschema, -⟩
    obtain rfl := Except.ok.inj (hw.symm.trans hcreate)
    exact ⟨hvalid, hschema⟩
  have hend := attempts_valid values hstart.1
  constructor
  · intro value
    exact failsClean_iff value hend
  · intro hwhole
    have hwritten : SentinelPayloadWriter.output.written (attempts writeValue values w₀).2 =
        SentinelPayloadWriter.output.written w₀ ++
          (accepted writeValue values w₀).flatMap PayloadValue.encoded := by
      refine written_attempts ?_ values w₀ hstart.1 hwhole
      intro value w hw
      refine (writeValue_sat value hw).mono (fun _ _ h => h) ?_
      rintro e w' ⟨hvalid, hkeeps⟩
      refine ⟨hvalid, ?_⟩
      intro hnot
      rw [hkeeps hnot]
    rw [hstart.2] at hwritten
    refine ⟨_, SentinelPayloadWriter.writtenSpan_eq hend, hwritten, ?_⟩
    intro replaced
    exact payload_reads replaced schemaId _ (SentinelPayloadWriter.length_written hend) hwritten

/-- A number, a block that does not fit, and a flag that does. -/
def tightFields : List PayloadValue := [.int (-2), .bytes [1, 2, 3, 4, 5], .bool true]

theorem failed_write_keeps_tight :
    ∃ w₀, SentinelPayloadWriter.create (List.replicate 12 0) 1 = .ok w₀ ∧
      accepted writeValue tightFields w₀ = [.int (-2), .bool true] ∧
      (attempts writeValue tightFields w₀).2.writtenSpan =
        .ok [1, 0, 0, 0, 254, 255, 255, 255, 1] := by
  have hspan : (List.replicate 12 (0 : UInt8)).length < 2 ^ 31 := by decide
  refine ⟨{ buffer := 1 :: List.replicate 11 0, position := 4 }, rfl, by decide, ?_⟩
  have hwhole : EachCall (fun value w => ¬ PayloadValue.Splits value w) writeValue tightFields
      { buffer := 1 :: List.replicate 11 0, position := 4 } :=
    ⟨id, id, id, trivial⟩
  rcases (failed_write_keeps (List.replicate 12 0) 1 { buffer := 1 :: List.replicate 11 0, position := 4 }
    tightFields hspan rfl).2 hwhole with ⟨span, hwritten, hform, -⟩
  rw [hwritten, hform]
  decide

/-- A text of eight bytes with room for four of them behind its length: the length stays. -/
theorem failed_write_changes :
    ∃ w e w', SentinelPayloadWriter.create (List.replicate 12 0) 1 = .ok w ∧
      writeValue (.string "camera-7") w = .error e w' ∧ w.bytesWritten = 4 ∧ w'.bytesWritten = 8 ∧
      w.writtenSpan = .ok [1, 0, 0, 0] ∧ w'.writtenSpan = .ok [1, 0, 0, 0, 8, 0, 0, 0] := by
  refine ⟨{ buffer := 1 :: List.replicate 11 0, position := 4 },
    .invalidOperation "Buffer overrun detected.",
    { buffer := [1, 0, 0, 0, 8, 0, 0, 0, 0, 0, 0, 0], position := 8 }, rfl, ?_, rfl, rfl, rfl, rfl⟩
  rfl

end ManagedSecurity

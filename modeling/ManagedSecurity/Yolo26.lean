import ManagedSecurity.Lib.Bytes
import ManagedSecurity.Lib.Checked
import ManagedSecurity.Lib.Transition

/-! # The inference engine (`Yolo26InferenceEngine`, `Yolo26_Detect_Tensor`)

The engine hands the bytes of a frame to the native core, which keeps a session and a buffer for
the input of the network from one call to the next one. What is too short for the input is taken
for an image; its pixels are spread over planes. The output of the network is a table of
proposals, in rows or in columns; those that reach the threshold go to the caller's array.

Every access to an array that the core makes is checked here, and nothing comes out of a call
with one outside of its array.

* `toPlanar_eq`: the planes hold every pixel, and nothing that was there before;
* `processOutput_eq`: what goes to the caller's array, for both layouts of the table;
* `bestClass_largest`, `bestClass_first`: the class of a proposal;
* `engine_detects`: every call of every run, on a regular model.
-/

namespace ManagedSecurity

open Bytes Checked Transition

/-- The floats of the core, with conversions from a byte and from a dimension, and one to an
integer. -/
class NativeFloat (F : Type) extends Add F, Sub F, Div F, Zero F, LT F, LE F where
  two : F
  byteMax : F
  ofByte : UInt8 → F
  ofDimension : ℤ → F
  toInt : F → ℤ
  decidableLT : DecidableLT F
  decidableLE : DecidableLE F

attribute [reducible, instance] NativeFloat.decidableLT NativeFloat.decidableLE

namespace Yolo26

open NativeFloat

variable {F : Type} [NativeFloat F]

/-- `YoloBoundingBox`. -/
structure YoloBoundingBox (F : Type) where
  x : F
  y : F
  width : F
  height : F
  confidence : F
  classId : ℤ
deriving DecidableEq

/-- What the core knows of the model, and the network. A dimension that the model leaves open is
negative. -/
structure Session (F : Type) where
  inputBatch : ℤ
  modelChannels : ℤ
  modelHeight : ℤ
  modelWidth : ℤ
  modelProposals : ℤ
  modelProposalElements : ℤ
  run : List F → List F

/-- `model_tensor_size`, a `size_t`. -/
def Session.modelTensorSize (session : Session F) : ℕ :=
  ((if session.inputBatch < 1 then 1 else session.inputBatch) * session.modelChannels *
    session.modelHeight * session.modelWidth % 2 ^ 64).toNat

/-- `is_transposed`. -/
def Session.isTransposed (session : Session F) : Bool :=
  decide (session.modelProposals < session.modelProposalElements)

/-- `num_proposals`. -/
def Session.numProposals (session : Session F) : ℤ :=
  if session.isTransposed then session.modelProposalElements else session.modelProposals

/-- `num_elements`. -/
def Session.numElements (session : Session F) : ℤ :=
  if session.isTransposed then session.modelProposals else session.modelProposalElements

/-! ## The input of the network -/

/-- One pixel goes to its three planes. `pixel_idx` is an `int`. -/
def planarPixel (session : Session F) (resizedData : Bytes) (y : ℕ) (values : List F) (x : ℕ) :
    Option (List F) := do
  let pixelIdx := int32 (word32 ((y * session.modelWidth + x) * session.modelChannels))
  let r ← readAt resizedData (pixelIdx + 0)
  let values ← writeAt values
    (0 * session.modelHeight * session.modelWidth + y * session.modelWidth + x) (ofByte r / byteMax)
  let g ← readAt resizedData (pixelIdx + 1)
  let values ← writeAt values
    (1 * session.modelHeight * session.modelWidth + y * session.modelWidth + x) (ofByte g / byteMax)
  let b ← readAt resizedData (pixelIdx + 2)
  writeAt values
    (2 * session.modelHeight * session.modelWidth + y * session.modelWidth + x) (ofByte b / byteMax)

/-- The loops that go over all pixels; there are no rounds up to a negative bound. -/
def toPlanar (session : Session F) (resizedData : Bytes) (values : List F) : Option (List F) :=
  (List.range session.modelHeight.toNat).foldlM
    (fun values y =>
      (List.range session.modelWidth.toNat).foldlM (planarPixel session resizedData y) values)
    values

/-! ## The output of the network -/

/-- One round of the loop over the classes. -/
def classRound (output : List F) (numProposals : ℤ) (i : ℕ) (best : F × ℤ) (j : ℕ) :
    Option (F × ℤ) := do
  let c : ℤ := 4 + j
  let classProb ← readAt output (c * numProposals + i)
  some (if best.1 < classProb then (classProb, c - 4) else best)

/-- A proposal, by its edges. -/
def boxOf (xMin yMin xMax yMax conf : F) (classId : ℤ) : YoloBoundingBox F :=
  let w := xMax - xMin
  let h := yMax - yMin
  ⟨xMin + w / two, yMin + h / two, w, h, conf, classId⟩

/-- The `i`-th proposal of the output. -/
def proposalAt (session : Session F) (output : List F) (i : ℕ) : Option (YoloBoundingBox F) :=
  let numProposals := session.numProposals
  let numElements := session.numElements
  if session.isTransposed then do
    let xMin ← readAt output (0 * numProposals + i)
    let yMin ← readAt output (1 * numProposals + i)
    let xMax ← readAt output (2 * numProposals + i)
    let yMax ← readAt output (3 * numProposals + i)
    let best ← (List.range (numElements - 4).toNat).foldlM (classRound output numProposals i) (0, 0)
    some (boxOf xMin yMin xMax yMax best.1 best.2)
  else do
    let xMin ← readAt output (i * numElements + 0)
    let yMin ← readAt output (i * numElements + 1)
    let xMax ← readAt output (i * numElements + 2)
    let yMax ← readAt output (i * numElements + 3)
    let conf ← readAt output (i * numElements + 4)
    let classId ← readAt output (i * numElements + 5)
    some (boxOf xMin yMin xMax yMax conf (toInt classId))

/-- What goes to the caller: all four in units of the size of the model. -/
def scaled (session : Session F) (box : YoloBoundingBox F) : YoloBoundingBox F :=
  { box with
    x := box.x / ofDimension session.modelWidth
    y := box.y / ofDimension session.modelHeight
    width := box.width / ofDimension session.modelWidth
    height := box.height / ofDimension session.modelHeight }

/-- One round of the loop over the proposals; it is over when the array of the caller is full. -/
def processRound (session : Session F) (output : List F) (threshold : F) (maxDetections : ℕ)
    (state : List (YoloBoundingBox F) × ℕ) (i : ℕ) : Option (List (YoloBoundingBox F) × ℕ) :=
  if state.2 < maxDetections then do
    let box ← proposalAt session output i
    if threshold ≤ box.confidence then
      let detections ← write state.1 state.2 (scaled session box)
      some (detections, state.2 + 1)
    else
      some state
  else
    some state

/-- The loop over the proposals: the array of the caller, and the number of hits. -/
def processOutput (session : Session F) (output : List F) (threshold : F)
    (detections : List (YoloBoundingBox F)) (maxDetections : ℕ) :
    Option (List (YoloBoundingBox F) × ℕ) :=
  (List.range session.numProposals.toNat).foldlM
    (processRound session output threshold maxDetections) (detections, 0)

/-! ## The core -/

/-- An image that has been decoded. -/
structure StbImage where
  width : ℕ
  height : ℕ
  data : Bytes

/-- What the core is linked with: the model file, if it can be loaded, floats at the address of
some bytes, and the functions for images. -/
structure Native (F : Type) where
  session : Option (Session F)
  reinterpret : Bytes → List F
  stbiLoad : Bytes → ℤ → Option StbImage
  stbirResize : StbImage → ℤ → ℤ → Bytes

/-- The state that the core keeps. -/
structure Core (F : Type) where
  ortEnv : Bool
  ortSession : Option (Session F)
  inputTensorValues : List F

/-- `input_tensor_values.resize(n)`. -/
def resize (values : List F) (n : ℕ) : List F :=
  values.take n ++ List.replicate (n - values.length) 0

/-- The input tensor, which wraps the first of these floats; then the network, and its output. -/
def Core.infer (core : Core F) (session : Session F) (inferenceData : List F) (threshold : F)
    (detections : List (YoloBoundingBox F)) (maxDetections : ℕ) :
    Option (Core F × List (YoloBoundingBox F) × ℕ) :=
  if inferenceData.length < session.modelTensorSize then
    none
  else
    (processOutput session (session.run (inferenceData.take session.modelTensorSize)) threshold detections
      maxDetections).map fun result => (core, result)

/-- `Yolo26_Detect_Tensor`. -/
def Core.detectTensor (native : Native F) (core : Core F) (tensorData : Bytes) (threshold : F)
    (detections : List (YoloBoundingBox F)) (maxDetections : ℕ) :
    Option (Core F × List (YoloBoundingBox F) × ℕ) :=
  let core := if core.ortEnv then core else { core with ortEnv := true, ortSession := native.session }
  match core.ortSession with
  | none => some (core, detections, 0)
  | some session =>
    if maxDetections < 1 then
      some (core, detections, 0)
    else
      let values :=
        if core.inputTensorValues.length ≠ session.modelTensorSize then
          resize core.inputTensorValues session.modelTensorSize
        else
          core.inputTensorValues
      let core := { core with inputTensorValues := values }
      if tensorData.length < session.modelTensorSize * 4 % 2 ^ 64 then
        match native.stbiLoad tensorData session.modelChannels with
        | none => some (core, detections, 0)
        | some img =>
          let resizedData :=
            if img.width ≠ session.modelWidth ∨ img.height ≠ session.modelHeight then
              native.stbirResize img session.modelWidth session.modelHeight
            else
              img.data
          match toPlanar session resizedData values with
          | none => none
          | some values =>
            { core with inputTensorValues := values }.infer session values threshold detections
              maxDetections
      else
        core.infer session (native.reinterpret tensorData) threshold detections maxDetections

/-! ## The engine -/

/-- `Yolo26InferenceEngine`, with the core it calls and the threshold of its configuration. -/
structure Yolo26InferenceEngine (F : Type) where
  hasNativeLibrary : Bool
  yoloConfidenceThreshold : F
  core : Core F

/-- The engine behind its constructor. -/
def initial (hasNativeLibrary : Bool) (threshold : F) : Yolo26InferenceEngine F :=
  ⟨hasNativeLibrary, threshold, ⟨false, none, []⟩⟩

/-- `SimulateInference`, with the floats that its literals stand for. -/
def simulateInference (literals : F × F × F × F) (threshold : F) : List (YoloBoundingBox F) :=
  [⟨literals.1, literals.1, literals.2.1, literals.2.2.1, threshold + literals.2.2.2, 0⟩]

/-- The box of `default(YoloBoundingBox)`. -/
def noBox : YoloBoundingBox F := ⟨0, 0, 0, 0, 0, 0⟩

/-- `CheckTensorAndInvokeSync`; the library may turn out to be missing. -/
def Yolo26InferenceEngine.checkTensorAndInvokeSync (native : Native F) (literals : F × F × F × F)
    (engine : Yolo26InferenceEngine F) (dllNotFound : Bool) (tensorData : Bytes) :
    Option (Yolo26InferenceEngine F × List (YoloBoundingBox F)) :=
  if tensorData.isEmpty then
    some (engine, [])
  else
    let buffer : List (YoloBoundingBox F) := List.replicate 64 noBox
    if engine.hasNativeLibrary = false then
      some (engine, simulateInference literals engine.yoloConfidenceThreshold)
    else if dllNotFound then
      some ({ engine with hasNativeLibrary := false },
        simulateInference literals engine.yoloConfidenceThreshold)
    else
      match engine.core.detectTensor native tensorData engine.yoloConfidenceThreshold buffer buffer.length with
      | none => none
      | some (core, buffer, hits) =>
        let engine := { engine with core := core }
        if hits ≤ 0 then
          some (engine, [])
        else
          let hits := if hits > buffer.length then buffer.length else hits
          some (engine, buffer.take hits)

/-- A call, which may find the library missing. -/
def step (native : Native F) (literals : F × F × F × F) (engine : Yolo26InferenceEngine F)
    (call : Bool × Bytes) : Option (Yolo26InferenceEngine F) :=
  (engine.checkTensorAndInvokeSync native literals call.1 call.2).map Prod.fst

/-! ## Models -/

/-- A model for images in three colours, one at a time, with enough in a proposal; it leaves no
dimension open, and the counters of the core, which are of type `int`, do not wrap on it. -/
structure Session.Regular (session : Session F) : Prop where
  inputBatch : session.inputBatch ≤ 1
  modelChannels : session.modelChannels = 3
  modelHeight : 0 ≤ session.modelHeight ∧ session.modelHeight < 2 ^ 31
  modelWidth : 0 ≤ session.modelWidth ∧ session.modelWidth < 2 ^ 31
  pixels : session.modelHeight * session.modelWidth * 3 < 2 ^ 31
  proposals : 0 ≤ session.numProposals ∧ session.numProposals < 2 ^ 31
  numElements : if session.isTransposed then 4 ≤ session.numElements else 6 ≤ session.numElements
  elements : session.numElements < 2 ^ 31
  run : ∀ input, ((session.run input).length : ℤ) =
    session.modelProposals * session.modelProposalElements

/-- What the other functions do with lengths. -/
structure Native.Regular (native : Native F) : Prop where
  session : ∀ session, native.session = some session → session.Regular
  reinterpret : ∀ data, (native.reinterpret data).length = data.length / 4
  stbiLoad : ∀ data img, native.stbiLoad data 3 = some img →
    img.data.length = img.width * img.height * 3
  stbirResize : ∀ img (w h : ℕ), (native.stbirResize img w h).length = w * h * 3

namespace Session

/-- The dimensions of a model that leaves none open. -/
def height (session : Session F) : ℕ := session.modelHeight.toNat

def width (session : Session F) : ℕ := session.modelWidth.toNat

def proposals (session : Session F) : ℕ := session.numProposals.toNat

def elements (session : Session F) : ℕ := session.numElements.toNat

namespace Regular

variable {session : Session F}

omit [NativeFloat F] in
theorem height_eq (h : session.Regular) : session.modelHeight = session.height :=
  (Int.toNat_of_nonneg h.modelHeight.1).symm

omit [NativeFloat F] in
theorem width_eq (h : session.Regular) : session.modelWidth = session.width :=
  (Int.toNat_of_nonneg h.modelWidth.1).symm

omit [NativeFloat F] in
theorem proposals_eq (h : session.Regular) : session.numProposals = session.proposals :=
  (Int.toNat_of_nonneg h.proposals.1).symm

omit [NativeFloat F] in
theorem elements_eq (h : session.Regular) : session.numElements = session.elements := by
  have helements := h.numElements
  refine (Int.toNat_of_nonneg ?_).symm
  split_ifs at helements <;> omega

omit [NativeFloat F] in
theorem pixels_lt (h : session.Regular) : session.height * session.width * 3 < 2 ^ 31 := by
  have hpixels := h.pixels
  rw [h.height_eq, h.width_eq] at hpixels
  exact_mod_cast hpixels

omit [NativeFloat F] in
theorem elements_le (h : session.Regular) :
    if session.isTransposed then 4 ≤ session.elements else 6 ≤ session.elements := by
  have helements := h.numElements
  rw [h.elements_eq] at helements
  split_ifs at helements ⊢ <;> omega

end Regular

end Session

section

variable {session : Session F} {output : List F}

omit [NativeFloat F] in
theorem length_output (h : session.Regular) (input : List F) :
    (session.run input).length = session.elements * session.proposals := by
  have hlength := h.run input
  have htable : session.modelProposals * session.modelProposalElements =
      session.numElements * session.numProposals := by
    rw [Session.numElements, Session.numProposals]
    split_ifs
    · rfl
    · exact mul_comm _ _
  rw [htable, h.elements_eq, h.proposals_eq] at hlength
  exact_mod_cast hlength

omit [NativeFloat F] in
theorem modelTensorSize_eq (h : session.Regular) :
    session.modelTensorSize = 3 * (session.height * session.width) := by
  have hbatch : (if session.inputBatch < 1 then 1 else session.inputBatch) = 1 := by
    have hle := h.inputBatch
    split_ifs with hlt
    · rfl
    · omega
  have hsize : 1 * 3 * (session.height : ℤ) * session.width =
      ((3 * (session.height * session.width) : ℕ) : ℤ) := by
    push_cast
    ring
  have hsmall : 3 * (session.height * session.width) < 2 ^ 64 := by
    have hpixels := h.pixels_lt
    omega
  rw [Session.modelTensorSize, hbatch, h.modelChannels, h.height_eq, h.width_eq, hsize,
    Int.emod_eq_of_lt (Int.natCast_nonneg _) (by exact_mod_cast hsmall), Int.toNat_natCast]

/-! ## The proposals -/

/-- The class of the `i`-th column, among the first `m`. -/
def bestClass (output : List F) (numProposals i m : ℕ) : F × ℤ :=
  (List.range m).foldl
    (fun best j =>
      if best.1 < output.getD ((4 + j) * numProposals + i) 0 then
        (output.getD ((4 + j) * numProposals + i) 0, (j : ℤ))
      else best)
    (0, 0)

/-- The `i`-th proposal. -/
def boxAt (session : Session F) (output : List F) (i : ℕ) : YoloBoundingBox F :=
  if session.isTransposed then
    let at' (c : ℕ) := output.getD (c * session.proposals + i) 0
    let best := bestClass output session.proposals i (session.elements - 4)
    boxOf (at' 0) (at' 1) (at' 2) (at' 3) best.1 best.2
  else
    let at' (c : ℕ) := output.getD (i * session.elements + c) 0
    boxOf (at' 0) (at' 1) (at' 2) (at' 3) (at' 4) (toInt (at' 5))

/-- Those of the first `n` proposals that reach the threshold. -/
def accepted (session : Session F) (output : List F) (threshold : F) (n : ℕ) :
    List (YoloBoundingBox F) :=
  ((List.range n).map (boxAt session output)).filter fun box => decide (threshold ≤ box.confidence)

theorem bestClass_succ (numProposals i m : ℕ) :
    bestClass output numProposals i (m + 1) =
      if (bestClass output numProposals i m).1 < output.getD ((4 + m) * numProposals + i) 0 then
        (output.getD ((4 + m) * numProposals + i) 0, (m : ℤ))
      else bestClass output numProposals i m := by
  rw [bestClass, List.range_succ, List.foldl_append]
  rfl

theorem getElem?_eq_getD {i : ℕ} (h : i < output.length) : output[i]? = some (output.getD i 0) := by
  rw [List.getD_eq_getElem?_getD, List.getElem?_eq_getElem h, Option.getD_some]

/-- The loop over the classes. -/
theorem classLoop_eq {numProposals i : ℕ} (m : ℕ) (hlength : output.length = (4 + m) * numProposals)
    (hi : i < numProposals) :
    (List.range m).foldlM (classRound output numProposals i) (0, 0) =
      some (bestClass output numProposals i m) := by
  have hround : ∀ j < m, ∀ best, best = bestClass output numProposals i j →
      ∃ best', classRound output numProposals i best j = some best' ∧
        best' = bestClass output numProposals i (j + 1) := by
    rintro j hj best rfl
    have hread : (4 + j) * numProposals + i < output.length := by
      have hrow : (4 + j + 1) * numProposals ≤ (4 + m) * numProposals :=
        Nat.mul_le_mul_right _ (by omega)
      rw [Nat.succ_mul] at hrow
      omega
    refine ⟨_, ?_, rfl⟩
    have hindex : (4 + (j : ℤ)) * numProposals + i = ((4 + j) * numProposals + i : ℕ) := by push_cast; rfl
    have hclass : 4 + (j : ℤ) - 4 = j := by omega
    rw [classRound, readAt_natCast output hindex, getElem?_eq_getD hread, bestClass_succ]
    dsimp only [Option.bind_eq_bind, Option.bind_some]
    rw [hclass]
  rcases foldlM_range (I := fun j best => best = bestClass output numProposals i j) m rfl hround with
    ⟨best, hloop, rfl⟩
  exact hloop

/-- On a regular model every proposal can be read. -/
theorem proposalAt_eq (h : session.Regular)
    (hlength : output.length = session.elements * session.proposals) {i : ℕ}
    (hi : i < session.proposals) :
    proposalAt session output i = some (boxAt session output i) := by
  have helements := h.elements_le
  unfold proposalAt boxAt
  rw [h.proposals_eq, h.elements_eq]
  split_ifs at helements ⊢ with htransposed
  -- columns: as many rows as there are elements
  · have hread : ∀ c < 4, readAt output ((c : ℕ) * (session.proposals : ℤ) + i) =
        some (output.getD (c * session.proposals + i) 0) := by
      intro c hc
      rw [readAt_natCast output (n := c * session.proposals + i) (by push_cast; rfl)]
      refine getElem?_eq_getD ?_
      have hrow : (c + 1) * session.proposals ≤ session.elements * session.proposals :=
        Nat.mul_le_mul_right _ (by omega)
      rw [Nat.succ_mul] at hrow
      omega
    have hclasses := classLoop_eq (i := i) (session.elements - 4)
      (hlength.trans (by rw [Nat.add_sub_cancel' helements])) hi
    have hcount : ((session.elements : ℤ) - 4).toNat = session.elements - 4 := by omega
    have h₀ := hread 0 (by omega)
    have h₁ := hread 1 (by omega)
    have h₂ := hread 2 (by omega)
    have h₃ := hread 3 (by omega)
    simp only [Nat.cast_zero, Nat.cast_one, Nat.cast_ofNat] at h₀ h₁ h₂ h₃
    dsimp only
    rw [h₀, h₁, h₂, h₃, hcount, hclasses]
    rfl
  -- rows
  · have hread : ∀ c < 6, readAt output (i * (session.elements : ℤ) + (c : ℕ)) =
        some (output.getD (i * session.elements + c) 0) := by
      intro c hc
      rw [readAt_natCast output (n := i * session.elements + c) (by push_cast; rfl)]
      refine getElem?_eq_getD ?_
      have hrow : (i + 1) * session.elements ≤ session.proposals * session.elements :=
        Nat.mul_le_mul_right _ (by omega)
      rw [Nat.succ_mul, Nat.mul_comm session.proposals] at hrow
      omega
    have h₀ := hread 0 (by omega)
    have h₁ := hread 1 (by omega)
    have h₂ := hread 2 (by omega)
    have h₃ := hread 3 (by omega)
    have h₄ := hread 4 (by omega)
    have h₅ := hread 5 (by omega)
    simp only [Nat.cast_zero, Nat.cast_one, Nat.cast_ofNat] at h₀ h₁ h₂ h₃ h₄ h₅
    dsimp only
    rw [h₀, h₁, h₂, h₃, h₄, h₅]
    rfl

theorem accepted_succ (threshold : F) (n : ℕ) :
    accepted session output threshold (n + 1) = accepted session output threshold n ++
      if threshold ≤ (boxAt session output n).confidence then [boxAt session output n] else [] := by
  unfold accepted
  rw [List.range_succ, List.map_append, List.filter_append, List.map_singleton, List.filter_singleton]
  simp only [Bool.cond_decide]

/-- The array of the caller when `hits` boxes have been put in. -/
def filled (session : Session F) (hits : List (YoloBoundingBox F))
    (detections : List (YoloBoundingBox F)) : List (YoloBoundingBox F) :=
  hits.map (scaled session) ++ detections.drop hits.length

theorem take_filled (hits detections : List (YoloBoundingBox F)) :
    (filled session hits detections).take hits.length = hits.map (scaled session) := by
  rw [filled, List.take_left' (List.length_map _)]

theorem length_filled {hits detections : List (YoloBoundingBox F)} (h : hits.length ≤ detections.length) :
    (filled session hits detections).length = detections.length := by
  rw [filled, List.length_append, List.length_map, List.length_drop]
  omega

/-- Where there is room for another one, it goes behind the others. -/
theorem write_filled (session : Session F) {hits detections : List (YoloBoundingBox F)}
    (box : YoloBoundingBox F) (h : hits.length < detections.length) :
    write (filled session hits detections) hits.length (scaled session box) =
      some (filled session (hits ++ [box]) detections) := by
  have hlength : hits.length < (filled session hits detections).length := by
    rw [length_filled h.le]
    exact h
  rw [write_of_lt _ hlength]
  unfold filled
  rw [List.drop_eq_getElem_cons h, List.set_append_right _ _ (by rw [List.length_map]), List.length_map,
    Nat.sub_self, List.set_cons_zero, List.map_append, List.length_append, List.append_assoc]
  rfl

/-- On a regular model, whatever the network says: the loop stays inside of both arrays, and the
first proposals that reach the threshold go to the array of the caller, as many as there is room
for. -/
theorem processOutput_eq (h : session.Regular)
    (hlength : output.length = session.elements * session.proposals) (threshold : F)
    {detections : List (YoloBoundingBox F)} {maxDetections : ℕ} (hmax : maxDetections ≤ detections.length) :
    processOutput session output threshold detections maxDetections =
      some (filled session
          ((accepted session output threshold session.proposals).take maxDetections) detections,
        ((accepted session output threshold session.proposals).take maxDetections).length) := by
  have hround : ∀ i < session.proposals, ∀ state,
      state = (filled session ((accepted session output threshold i).take maxDetections) detections,
        ((accepted session output threshold i).take maxDetections).length) →
      ∃ state', processRound session output threshold maxDetections state i = some state' ∧
        state' = (filled session ((accepted session output threshold (i + 1)).take maxDetections) detections,
          ((accepted session output threshold (i + 1)).take maxDetections).length) := by
    rintro i hi state rfl
    unfold processRound
    rw [accepted_succ, proposalAt_eq h hlength hi]
    generalize accepted session output threshold i = hits
    by_cases hroom : hits.length < maxDetections
    · rw [List.take_of_length_le hroom.le, if_pos hroom]
      split_ifs with haccepted
      · have htake : (hits ++ [boxAt session output i]).take maxDetections = hits ++ [boxAt session output i] :=
          List.take_of_length_le (by simpa using hroom)
        rw [htake]
        refine ⟨_, ?_, rfl⟩
        have hwrite := write_filled session (boxAt session output i) (hroom.trans_le hmax)
        simp only [Option.bind_eq_bind, Option.bind_some, if_pos haccepted, hwrite, List.length_append,
          List.length_singleton]
      · rw [List.append_nil, List.take_of_length_le hroom.le]
        refine ⟨_, ?_, rfl⟩
        simp only [Option.bind_eq_bind, Option.bind_some, if_neg haccepted]
    -- the array is full
    · have hfull : maxDetections ≤ hits.length := Nat.le_of_not_lt hroom
      rw [List.take_append_of_le_length hfull, if_neg (by rw [List.length_take, Nat.min_eq_left hfull]; omega)]
      exact ⟨_, rfl, rfl⟩
  rcases foldlM_range (I := fun i state => state =
      (filled session ((accepted session output threshold i).take maxDetections) detections,
        ((accepted session output threshold i).take maxDetections).length)) session.proposals
    (s := (detections, 0)) (by simp [accepted, filled]) hround with ⟨state, hloop, rfl⟩
  exact hloop

/-! ## The class of a proposal -/

/-- How comparisons behave; a number is what is equal to itself. -/
class LawfulNativeFloat (F : Type) [NativeFloat F] : Prop where
  lt_irrefl : ∀ a : F, ¬a < a
  lt_trans : ∀ a b c : F, a < b → b < c → a < c
  lt_or_lt : ∀ a b c : F, a < c → b ≤ b → a < b ∨ b < c

/-- A class of the first `m`, if one is likelier than zero: none is likelier, and those in front
are less likely. -/
structure Best (prob : ℕ → F) (m : ℕ) (best : F × ℤ) : Prop where
  largest : ∀ c < m, ¬best.1 < prob c
  first : best = (0, 0) ∨ ∃ c < m, best = (prob c, (c : ℤ)) ∧ 0 < prob c ∧
    ∀ c' < c, prob c' ≤ prob c' → prob c' < prob c

theorem best_bestClass [LawfulNativeFloat F] (output : List F) (numProposals i m : ℕ) :
    Best (fun c => output.getD ((4 + c) * numProposals + i) 0) m (bestClass output numProposals i m) := by
  induction m with
  | zero => exact ⟨by simp, Or.inl rfl⟩
  | succ m ih =>
    rw [bestClass_succ]
    generalize bestClass output numProposals i m = best at ih
    split_ifs with hbetter
    · refine ⟨fun c hc hlt => ?_, Or.inr ⟨m, Nat.lt_succ_self m, rfl, ?_, fun c hc hnumber => ?_⟩⟩
      · rcases Nat.lt_succ_iff_lt_or_eq.mp hc with hold | rfl
        · exact ih.largest c hold (LawfulNativeFloat.lt_trans _ _ _ hbetter hlt)
        · exact LawfulNativeFloat.lt_irrefl _ hlt
      · rcases ih.first with rfl | ⟨c, -, rfl, hpos, -⟩
        · exact hbetter
        · exact LawfulNativeFloat.lt_trans _ _ _ hpos hbetter
      · rcases LawfulNativeFloat.lt_or_lt _ _ _ hbetter hnumber with hlt | hlt
        · exact absurd hlt (ih.largest c hc)
        · exact hlt
    · refine ⟨fun c hc => ?_, ?_⟩
      · rcases Nat.lt_succ_iff_lt_or_eq.mp hc with hold | rfl
        · exact ih.largest c hold
        · exact hbetter
      · rcases ih.first with hnone | ⟨c, hc, hbest⟩
        · exact Or.inl hnone
        · exact Or.inr ⟨c, Nat.lt_succ_of_lt hc, hbest⟩

/-- In a table with columns: every proposal has the likeliest class, the first one if there are
several, and with it the probability of that class. If none is likelier than zero, it has the
first class and the probability zero. -/
theorem proposal_class [LawfulNativeFloat F] (session : Session F) (h : session.Regular)
    (htransposed : session.isTransposed = true) (input : List F) (i : ℕ)
    (hi : i < session.proposals) :
    ∃ box, proposalAt session (session.run input) i = some box ∧
      (∀ c < session.elements - 4, ∀ prob,
        (session.run input)[(4 + c) * session.proposals + i]? = some prob → ¬box.confidence < prob) ∧
      (box.confidence = 0 ∧ box.classId = 0 ∨ ∃ c < session.elements - 4,
        (session.run input)[(4 + c) * session.proposals + i]? = some box.confidence ∧ box.classId = c ∧
        0 < box.confidence ∧ ∀ c' < c, ∀ prob,
          (session.run input)[(4 + c') * session.proposals + i]? = some prob → prob ≤ prob →
            prob < box.confidence) := by
  have hlength := length_output h input
  have helements := h.elements_le
  rw [if_pos htransposed] at helements
  have hread : ∀ c < session.elements - 4, (session.run input)[(4 + c) * session.proposals + i]? =
      some ((session.run input).getD ((4 + c) * session.proposals + i) 0) := by
    intro c hc
    refine getElem?_eq_getD ?_
    have hrow : (4 + c + 1) * session.proposals ≤ session.elements * session.proposals :=
      Nat.mul_le_mul_right _ (by omega)
    rw [Nat.succ_mul] at hrow
    omega
  have hbest := best_bestClass (session.run input) session.proposals i (session.elements - 4)
  refine ⟨_, proposalAt_eq h hlength hi, ?_⟩
  rw [boxAt, if_pos htransposed]
  dsimp only [boxOf]
  generalize bestClass (session.run input) session.proposals i (session.elements - 4) = best at hbest ⊢
  constructor
  · intro c hc prob hprob
    rw [hread c hc] at hprob
    rw [← Option.some.inj hprob]
    exact hbest.largest c hc
  · rcases hbest.first with rfl | ⟨c, hc, rfl, hpos, hfirst⟩
    · exact Or.inl ⟨rfl, rfl⟩
    · refine Or.inr ⟨c, hc, hread c hc, rfl, hpos, fun c' hc' prob hprob hnumber => ?_⟩
      rw [hread c' (hc'.trans hc)] at hprob
      obtain rfl := Option.some.inj hprob
      exact hfirst c' hc' hnumber

/-- Numbers that are exact. -/
structure Exact where
  value : Rat
deriving DecidableEq

instance : NativeFloat Exact where
  add a b := ⟨a.value + b.value⟩
  sub a b := ⟨a.value - b.value⟩
  div a b := ⟨a.value / b.value⟩
  zero := ⟨0⟩
  lt a b := a.value < b.value
  le a b := a.value ≤ b.value
  two := ⟨2⟩
  byteMax := ⟨255⟩
  ofByte b := ⟨b.toNat⟩
  ofDimension n := ⟨n⟩
  toInt a := a.value.num.tdiv a.value.den
  decidableLT a b := inferInstanceAs (Decidable (a.value < b.value))
  decidableLE a b := inferInstanceAs (Decidable (a.value ≤ b.value))

instance : LawfulNativeFloat Exact where
  lt_irrefl a := lt_irrefl a.value
  lt_trans a _ c h h' := (lt_trans h h' : a.value < c.value)
  lt_or_lt a b _ h _ := (lt_or_ge a.value b.value).imp_right fun hle => lt_of_le_of_lt hle h

/-- A model with two classes for images of two times two pixels; it has seven proposals, the
first of them as likely as the first pixel is red, for either class. -/
def twoClasses : Session Exact where
  inputBatch := -1
  modelChannels := 3
  modelHeight := 2
  modelWidth := 2
  modelProposals := 6
  modelProposalElements := 7
  run input := List.replicate 28 ⟨1⟩ ++ ([input.getD 0 0, 0, 0, 0, 0, 0, 0] ++
    [input.getD 0 0, ⟨3 / 4⟩, 0, 0, 0, 0, 0])

theorem twoClasses_regular : twoClasses.Regular where
  inputBatch := by decide
  modelChannels := rfl
  modelHeight := by decide
  modelWidth := by decide
  pixels := by decide
  proposals := by decide
  numElements := by decide
  elements := by decide
  run _ := rfl

/-- Both classes of a red image are equally likely: it is the first one. -/
theorem proposal_class_twoClasses :
    ∃ box, proposalAt twoClasses (twoClasses.run [⟨1⟩]) 0 = some box ∧ box.classId = 0 := by
  rcases proposal_class twoClasses twoClasses_regular (by decide) [⟨1⟩] 0 (by decide) with
    ⟨box, hbox, hlargest, hclass⟩
  refine ⟨box, hbox, ?_⟩
  rcases hclass with ⟨-, hclass⟩ | ⟨c, hc, hprob, hclass, -, hfirst⟩
  · exact hclass
  · have hbound : c < 2 := hc
    interval_cases c
    · exact hclass
    -- the second class would have to be likelier than the first
    · exfalso
      have hsame := hfirst 0 (by decide) ⟨1⟩ (by decide +kernel) (by decide +kernel)
      rw [← Option.some.inj hprob] at hsame
      revert hsame
      decide +kernel

/-! ## The planes -/

/-- The input for an image in three colours. -/
def planes (session : Session F) (pixels : Bytes) : List F :=
  let size := session.height * session.width
  (List.range (3 * size)).map fun k => ofByte (pixels.getD (k % size * 3 + k / size) 0) / byteMax

/-- Where the `j`-th pixel goes to in its `c`-th plane. -/
def place (session : Session F) (c j : ℕ) : ℕ := c * (session.height * session.width) + j

/-- The `c`-th colour of the `j`-th pixel. -/
def colour (pixels : Bytes) (j c : ℕ) : F := ofByte (pixels.getD (j * 3 + c) 0) / byteMax

/-- The first `n` pixels are in their planes. -/
structure Planar (session : Session F) (pixels : Bytes) (n : ℕ) (values : List F) : Prop where
  length : values.length = 3 * (session.height * session.width)
  plane : ∀ c < 3, ∀ j < n, values[place session c j]? = some (colour pixels j c)

variable {pixels : Bytes} {values : List F} {x y : ℕ}

omit [NativeFloat F] in
theorem cell_lt (hy : y < session.height) (hx : x < session.width) :
    y * session.width + x < session.height * session.width := by
  have hrow : (y + 1) * session.width ≤ session.height * session.width :=
    Nat.mul_le_mul_right _ hy
  rw [Nat.succ_mul] at hrow
  omega

omit [NativeFloat F] in
theorem place_lt {c j : ℕ} (hc : c < 3) (hj : j < session.height * session.width) :
    place session c j < 3 * (session.height * session.width) := by
  have hrow : (c + 1) * (session.height * session.width) ≤
      3 * (session.height * session.width) := Nat.mul_le_mul_right _ hc
  rw [Nat.succ_mul] at hrow
  exact (Nat.add_lt_add_left hj _).trans_le hrow

omit [NativeFloat F] in
/-- The index of a pixel fits in an `int`. -/
theorem pixelIdx_eq (hregular : session.Regular) (hy : y < session.height) (hx : x < session.width) :
    int32 (word32 ((y * session.modelWidth + x) * session.modelChannels)) =
      ((y * session.width + x) * 3 : ℕ) := by
  have hfits := hregular.pixels_lt
  have hcell := cell_lt hy hx
  have hcast : ((y : ℤ) * session.width + x) * 3 = ((y * session.width + x) * 3 : ℕ) := by
    push_cast
    rfl
  rw [hregular.width_eq, hregular.modelChannels, hcast, int32_word32 (by omega) (by omega)]

/-- The colours of a pixel are read in the image, and written in the buffer. -/
theorem planarPixel_eq (hregular : session.Regular)
    (hpixels : pixels.length = session.width * session.height * 3)
    (hvalues : values.length = 3 * (session.height * session.width))
    (hy : y < session.height) (hx : x < session.width) :
    planarPixel session pixels y values x =
      some (((values.set (place session 0 (y * session.width + x)) (colour pixels (y * session.width + x) 0)).set
        (place session 1 (y * session.width + x)) (colour pixels (y * session.width + x) 1)).set
        (place session 2 (y * session.width + x)) (colour pixels (y * session.width + x) 2)) := by
  have hcell := cell_lt hy hx
  have hread : ∀ c < 3, readAt pixels (((y * session.width + x) * 3 : ℕ) + (c : ℕ) : ℤ) =
      some (pixels.getD ((y * session.width + x) * 3 + c) 0) := by
    intro c hc
    rw [Nat.mul_comm session.width] at hpixels
    rw [readAt_natCast pixels (n := (y * session.width + x) * 3 + c) (by push_cast; rfl),
      List.getD_eq_getElem?_getD, List.getElem?_eq_getElem (by omega), Option.getD_some]
  have hwrite : ∀ c : ℕ, c < 3 → ∀ (vs : List F) v, vs.length = values.length →
      writeAt vs ((c : ℤ) * session.modelHeight * session.modelWidth + y * session.modelWidth + x) v =
        some (vs.set (place session c (y * session.width + x)) v) := by
    intro c hc vs v hlength
    have hindex : (c : ℤ) * session.modelHeight * session.modelWidth + y * session.modelWidth + x =
        (place session c (y * session.width + x) : ℕ) := by
      rw [place, hregular.height_eq, hregular.width_eq]
      push_cast
      ring
    rw [writeAt_natCast vs v hindex, write_of_lt v]
    rw [hlength, hvalues]
    exact place_lt hc hcell
  have hr := hread 0 (by omega)
  have hg := hread 1 (by omega)
  have hb := hread 2 (by omega)
  have hplaneR := hwrite 0 (by omega)
  have hplaneG := hwrite 1 (by omega)
  have hplaneB := hwrite 2 (by omega)
  simp only [Nat.cast_zero, Nat.cast_one, Nat.cast_ofNat] at hr hg hb hplaneR hplaneG hplaneB
  unfold planarPixel
  dsimp only
  rw [pixelIdx_eq hregular hy hx, hr, hg, hb]
  simp only [Option.bind_eq_bind, Option.bind_some]
  rw [hplaneR values _ rfl, Option.bind_some, hplaneG _ _ List.length_set, Option.bind_some,
    hplaneB _ _ (by rw [List.length_set, List.length_set])]
  rfl

theorem planar_pixel (hregular : session.Regular)
    (hpixels : pixels.length = session.width * session.height * 3)
    (hy : y < session.height) (hx : x < session.width)
    (h : Planar session pixels (y * session.width + x) values) :
    ∃ values', planarPixel session pixels y values x = some values' ∧
      Planar session pixels (y * session.width + x + 1) values' := by
  rcases h with ⟨hlength, hplane⟩
  have hcell := cell_lt hy hx
  refine ⟨_, planarPixel_eq hregular hpixels hlength hy hx, ?_, ?_⟩
  · rw [List.length_set, List.length_set, List.length_set, hlength]
  · intro c hc j hj
    have hplace : ∀ d, place session d (y * session.width + x) = place session c j ↔
        d = c ∧ y * session.width + x = j := fun d => cell_inj hcell (by omega)
    simp only [List.getElem?_set, hplace, List.length_set]
    by_cases hlast : y * session.width + x = j
    · subst hlast
      have hin : ∀ d < 3, place session d (y * session.width + x) < values.length := by
        intro d hd
        rw [hlength]
        exact place_lt hd hcell
      interval_cases c
      · simp [hin 0 (by omega)]
      · simp [hin 1 (by omega)]
      · simp [hin 2 (by omega)]
    · simp only [hlast, and_false, if_false]
      exact hplane c hc j (by omega)

/-- The loops stay inside of both arrays, and what was in the buffer is gone. -/
theorem toPlanar_eq (hregular : session.Regular)
    (hpixels : pixels.length = session.width * session.height * 3)
    (hvalues : values.length = 3 * (session.height * session.width)) :
    toPlanar session pixels values = some (planes session pixels) := by
  rcases foldlM_grid (I := Planar session pixels) session.height session.width
    ⟨hvalues, by simp⟩ (fun y hy x hx values h => planar_pixel hregular hpixels hy hx h) with
    ⟨filled, hloop, hlength, hplane⟩
  have hplanar : toPlanar session pixels values = some filled := hloop
  rw [hplanar]
  refine congrArg some (List.ext_getElem? fun k => ?_)
  by_cases hk : k < 3 * (session.height * session.width)
  · have hsize : 0 < session.height * session.width := by omega
    have hplanes : (planes session pixels)[k]? = some (ofByte (pixels.getD
        (k % (session.height * session.width) * 3 +
          k / (session.height * session.width)) 0) / byteMax) := by
      simp [planes, hk]
    have hcell := hplane (k / (session.height * session.width))
      (Nat.div_lt_of_lt_mul (by rwa [Nat.mul_comm])) (k % (session.height * session.width))
      (Nat.mod_lt k hsize)
    rw [place, Nat.mul_comm, Nat.div_add_mod] at hcell
    exact hcell.trans hplanes.symm
  · rw [List.getElem?_eq_none (by omega), List.getElem?_eq_none (by simp [planes]; omega)]

theorem length_planes : (planes session pixels).length = 3 * (session.height * session.width) := by
  simp [planes]

end

/-! ## Calls -/

/-- The pixels of an image in the size of the model. -/
def Native.pixels (native : Native F) (session : Session F) (img : StbImage) : Bytes :=
  if img.width ≠ session.modelWidth ∨ img.height ≠ session.modelHeight then
    native.stbirResize img session.modelWidth session.modelHeight
  else
    img.data

/-- The input that a frame stands for, if it does. -/
def Native.input (native : Native F) (session : Session F) (tensorData : Bytes) : Option (List F) :=
  if tensorData.length < session.modelTensorSize * 4 % 2 ^ 64 then
    (native.stbiLoad tensorData session.modelChannels).map fun img =>
      planes session (native.pixels session img)
  else
    some ((native.reinterpret tensorData).take session.modelTensorSize)

/-- What the network finds in an input. -/
def Session.found (session : Session F) (threshold : F) (maxDetections : ℕ) (input : List F) :
    List (YoloBoundingBox F) :=
  ((accepted session (session.run input) threshold session.proposals).take maxDetections).map
    (scaled session)

/-- What is there to be found in a frame, by itself. -/
def Native.detections (native : Native F) (threshold : F) (maxDetections : ℕ) (tensorData : Bytes) :
    List (YoloBoundingBox F) :=
  match native.session with
  | none => []
  | some session =>
    match native.input session tensorData with
    | none => []
    | some input => session.found threshold maxDetections input

/-- Once there is an environment, the session is the one of the model file. -/
def Core.Inv (native : Native F) (core : Core F) : Prop :=
  core.ortEnv = true → core.ortSession = native.session

section

variable {native : Native F} {core : Core F} {session : Session F}

omit [NativeFloat F] in
theorem length_pixels (hnative : native.Regular) (hregular : session.Regular) {img : StbImage}
    {data : Bytes} (hload : native.stbiLoad data 3 = some img) :
    (native.pixels session img).length = session.width * session.height * 3 := by
  unfold Native.pixels
  rw [hregular.height_eq, hregular.width_eq]
  split_ifs with hsize
  · exact hnative.stbirResize _ _ _
  · push Not at hsize
    rw [hnative.stbiLoad _ _ hload, Int.ofNat_inj.mp hsize.1, Int.ofNat_inj.mp hsize.2]

theorem length_resize (values : List F) (n : ℕ) : (resize values n).length = n := by
  rw [resize, List.length_append, List.length_take, List.length_replicate]
  omega

/-- The network and the loop behind it, on an input that is long enough. -/
theorem infer_eq (h : session.Regular) (core : Core F) {input : List F}
    (hinput : session.modelTensorSize ≤ input.length) (threshold : F)
    {detections : List (YoloBoundingBox F)} {maxDetections : ℕ} (hmax : maxDetections ≤ detections.length) :
    ∃ boxes, core.infer session input threshold detections maxDetections =
        some (core, boxes,
          (session.found threshold maxDetections (input.take session.modelTensorSize)).length) ∧
      boxes.take (session.found threshold maxDetections (input.take session.modelTensorSize)).length =
        session.found threshold maxDetections (input.take session.modelTensorSize) ∧
      boxes.length = detections.length := by
  unfold Session.found
  rw [Core.infer, if_neg (Nat.not_lt.mpr hinput), processOutput_eq h (length_output h _) threshold hmax,
    List.length_map]
  refine ⟨_, rfl, take_filled _ _, length_filled ?_⟩
  rw [List.length_take]
  omega

/-- A call finds what is there in its own frame, whatever the core has seen before. -/
theorem detectTensor_eq (hnative : native.Regular) (hcore : core.Inv native) (tensorData : Bytes)
    (threshold : F) {detections : List (YoloBoundingBox F)} {maxDetections : ℕ}
    (hpos : 1 ≤ maxDetections) (hmax : maxDetections ≤ detections.length) :
    ∃ core' boxes, core.detectTensor native tensorData threshold detections maxDetections =
        some (core', boxes, (native.detections threshold maxDetections tensorData).length) ∧
      boxes.take (native.detections threshold maxDetections tensorData).length =
        native.detections threshold maxDetections tensorData ∧
      boxes.length = detections.length ∧ core'.Inv native := by
  -- behind the first lines there is an environment
  obtain ⟨core₀, hstart, hsession⟩ : ∃ core₀ : Core F,
      (if core.ortEnv then core else { core with ortEnv := true, ortSession := native.session }) = core₀ ∧
        core₀.ortSession = native.session := by
    refine ⟨_, rfl, ?_⟩
    split_ifs with henv
    · exact hcore henv
    · rfl
  unfold Core.detectTensor Native.detections
  rw [hstart]
  dsimp only
  rw [hsession]
  cases hload : native.session with
  | none => exact ⟨core₀, detections, rfl, rfl, rfl, fun _ => hsession⟩
  | some session =>
    have hregular := hnative.session session hload
    have hsize := modelTensorSize_eq hregular
    have hbuffer : (if core₀.inputTensorValues.length ≠ session.modelTensorSize then
        resize core₀.inputTensorValues session.modelTensorSize else core₀.inputTensorValues).length =
          session.modelTensorSize := by
      split_ifs with hlength
      · exact length_resize _ _
      · exact not_not.mp hlength
    simp only [if_neg (Nat.not_lt.mpr hpos), Native.input]
    generalize (if core₀.inputTensorValues.length ≠ session.modelTensorSize then
      resize core₀.inputTensorValues session.modelTensorSize else core₀.inputTensorValues) = values at *
    split_ifs with hshort
    -- an image
    · cases himage : native.stbiLoad tensorData session.modelChannels with
      | none => exact ⟨_, detections, rfl, rfl, rfl, fun _ => hload.symm⟩
      | some img =>
        rw [hregular.modelChannels] at himage
        have hplanar := toPlanar_eq hregular (length_pixels hnative hregular himage)
          (hbuffer.trans hsize)
        have hlength : (planes session (native.pixels session img)).length = session.modelTensorSize :=
          length_planes.trans hsize.symm
        rcases infer_eq hregular ⟨core₀.ortEnv, some session, planes session (native.pixels session img)⟩
          hlength.ge threshold hmax with ⟨boxes, hinfer, htake, hboxes⟩
        rw [List.take_of_length_le hlength.le] at hinfer htake
        refine ⟨⟨core₀.ortEnv, some session, planes session (native.pixels session img)⟩, boxes, ?_, htake,
          hboxes, fun _ => hload.symm⟩
        unfold Native.pixels at hplanar
        simp only [hplanar]
        exact hinfer
    -- floats
    · have hinput : session.modelTensorSize ≤ (native.reinterpret tensorData).length := by
        have hfits := hregular.pixels_lt
        rw [hnative.reinterpret]
        omega
      rcases infer_eq hregular ⟨core₀.ortEnv, some session, values⟩ hinput threshold hmax with
        ⟨boxes, hinfer, htake, hboxes⟩
      exact ⟨_, boxes, hinfer, htake, hboxes, fun _ => hload.symm⟩

/-- The answer to a call. -/
def answer (native : Native F) (literals : F × F × F × F) (engine : Yolo26InferenceEngine F)
    (dllNotFound : Bool) (tensorData : Bytes) : List (YoloBoundingBox F) :=
  if tensorData.isEmpty then []
  else if engine.hasNativeLibrary = false ∨ dllNotFound = true then
    simulateInference literals engine.yoloConfidenceThreshold
  else native.detections engine.yoloConfidenceThreshold 64 tensorData

theorem check_eq (hnative : native.Regular) (literals : F × F × F × F)
    {engine : Yolo26InferenceEngine F} (hcore : engine.core.Inv native) (dllNotFound : Bool)
    (tensorData : Bytes) :
    ∃ engine', engine.checkTensorAndInvokeSync native literals dllNotFound tensorData =
        some (engine', answer native literals engine dllNotFound tensorData) ∧
      engine'.yoloConfidenceThreshold = engine.yoloConfidenceThreshold ∧ engine'.core.Inv native := by
  unfold Yolo26InferenceEngine.checkTensorAndInvokeSync answer
  by_cases hempty : tensorData.isEmpty = true
  · rw [if_pos hempty, if_pos hempty]
    exact ⟨engine, rfl, rfl, hcore⟩
  rw [if_neg hempty, if_neg hempty]
  by_cases hmissing : engine.hasNativeLibrary = false
  · rw [if_pos (Or.inl hmissing)]
    simp only [if_pos hmissing]
    exact ⟨engine, rfl, rfl, hcore⟩
  cases dllNotFound with
  | true =>
    simp only [if_neg hmissing, or_true, if_true]
    exact ⟨_, rfl, rfl, hcore⟩
  | false =>
    rw [if_neg (by simp [hmissing] : ¬(engine.hasNativeLibrary = false ∨ false = true))]
    have hroom : 64 ≤ (List.replicate 64 (noBox : YoloBoundingBox F)).length := by
      rw [List.length_replicate]
    rcases detectTensor_eq hnative hcore tensorData engine.yoloConfidenceThreshold (by decide : 1 ≤ 64)
      hroom with ⟨core', boxes, hcall, htake, hboxes, hcore'⟩
    rw [List.length_replicate] at hboxes
    simp only [if_neg hmissing, Bool.false_eq_true, if_false, List.length_replicate, hcall]
    generalize native.detections engine.yoloConfidenceThreshold 64 tensorData = hits at *
    split_ifs with hnone hmany
    · rw [List.length_eq_zero_iff.mp (Nat.le_zero.mp hnone)]
      exact ⟨_, rfl, rfl, hcore'⟩
    -- there are never more hits than fit in
    · have hfits := congrArg List.length htake
      rw [List.length_take, hboxes] at hfits
      omega
    · rw [htake]
      exact ⟨_, rfl, rfl, hcore'⟩

theorem step_defined (hnative : native.Regular) (literals : F × F × F × F) {threshold : F}
    (engine : Yolo26InferenceEngine F) (call : Bool × Bytes)
    (h : engine.yoloConfidenceThreshold = threshold ∧ engine.core.Inv native) :
    ∃ engine', step native literals engine call = some engine' ∧
      engine'.yoloConfidenceThreshold = threshold ∧ engine'.core.Inv native := by
  rcases check_eq hnative literals h.2 call.1 call.2 with ⟨engine', hcall, hthreshold, hcore⟩
  refine ⟨engine', ?_, hthreshold.trans h.1, hcore⟩
  rw [step, hcall, Option.map_some]

/-- What is known of an engine after any calls. -/
theorem engine_reached (hnative : native.Regular) (literals : F × F × F × F) (hasNativeLibrary : Bool)
    (threshold : F) (calls : List (Bool × Bytes)) :
    ∃ engine, run (step native literals) (initial hasNativeLibrary threshold) calls = some engine ∧
      engine.yoloConfidenceThreshold = threshold ∧ engine.core.Inv native :=
  run_defined (step_defined hnative literals) calls (initial hasNativeLibrary threshold)
    ⟨rfl, fun henv => by cases henv⟩

/-- On a regular model no call of a run makes an access outside of an array, and in every
reachable state the engine finds in a frame what is there: nothing in an empty one; otherwise,
with the library, the first 64 proposals of the network for this very frame that reach the
threshold. -/
theorem engine_detects (native : Native F) (hnative : native.Regular) (literals : F × F × F × F)
    (hasNativeLibrary : Bool) (threshold : F) (calls : List (Bool × Bytes)) :
    ∃ engine, run (step native literals) (initial hasNativeLibrary threshold) calls = some engine ∧
      ∀ dllNotFound tensorData, ∃ engine',
        engine.checkTensorAndInvokeSync native literals dllNotFound tensorData =
          some (engine',
            if tensorData.isEmpty then []
            else if engine.hasNativeLibrary = false ∨ dllNotFound = true then
              simulateInference literals threshold
            else native.detections threshold 64 tensorData) := by
  rcases engine_reached hnative literals hasNativeLibrary threshold calls with
    ⟨engine, hrun, hthreshold, hcore⟩
  refine ⟨engine, hrun, fun dllNotFound tensorData => ?_⟩
  rcases check_eq hnative literals hcore dllNotFound tensorData with ⟨engine', hcall, -, -⟩
  refine ⟨engine', ?_⟩
  rw [hcall, answer, hthreshold]

end

/-- A core with that model, and a file that is a red image. -/
def redNative : Native Exact where
  session := some twoClasses
  reinterpret data := List.replicate (data.length / 4) 0
  stbiLoad data n := if data = [1, 2, 3] then some ⟨2, 2, List.replicate (2 * 2 * n.toNat) 255⟩ else none
  stbirResize _ w h := List.replicate (w.toNat * h.toNat * 3) 0

theorem redNative_regular : redNative.Regular where
  session session h := by
    obtain rfl := Option.some.inj h
    exact twoClasses_regular
  reinterpret data := List.length_replicate
  stbiLoad _ img h := by
    unfold redNative at h
    dsimp only at h
    split_ifs at h
    obtain rfl := Option.some.inj h
    exact List.length_replicate
  stbirResize _ w h := List.length_replicate

/-- After a file that is no image the red one is found all the same, with two proposals. -/
theorem engine_detects_red :
    ∃ engine, run (step redNative (0, 0, 0, 0)) (initial true ⟨1 / 2⟩) [(false, [7])] = some engine ∧
      engine.hasNativeLibrary = true ∧
      ∃ engine', engine.checkTensorAndInvokeSync redNative (0, 0, 0, 0) false [1, 2, 3] =
        some (engine', [⟨⟨1 / 2⟩, ⟨1 / 2⟩, 0, 0, ⟨1⟩, 0⟩, ⟨⟨1 / 2⟩, ⟨1 / 2⟩, 0, 0, ⟨3 / 4⟩, 1⟩]) := by
  rcases engine_detects redNative redNative_regular (0, 0, 0, 0) true ⟨1 / 2⟩ [(false, [7])] with
    ⟨engine, hrun, hanswers⟩
  have hlibrary : ((run (step redNative (0, 0, 0, 0)) (initial true ⟨1 / 2⟩) [(false, [7])]).map
      fun engine => engine.hasNativeLibrary) = some true := by
    decide +kernel
  rw [hrun, Option.map_some, Option.some.injEq] at hlibrary
  rcases hanswers false [1, 2, 3] with ⟨engine', hanswer⟩
  refine ⟨engine, hrun, hlibrary, engine', ?_⟩
  rw [hanswer, hlibrary]
  have hfound : redNative.detections ⟨1 / 2⟩ 64 [1, 2, 3] =
      [⟨⟨1 / 2⟩, ⟨1 / 2⟩, 0, 0, ⟨1⟩, 0⟩, ⟨⟨1 / 2⟩, ⟨1 / 2⟩, 0, 0, ⟨3 / 4⟩, 1⟩] := by
    decide +kernel
  rw [hfound]
  rfl

end Yolo26

end ManagedSecurity

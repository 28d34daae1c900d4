import ManagedSecurity.Guardian

/-! # Targets and inference loops (`InquisitorBehavior`)

A target is locked by its URL, and a loop polls its pictures and has them analysed. Loops are
started for new targets only, and only a loop that fails releases its target.

* `Inv`: there is one loop for every target;
* `Inv.acceptTarget`, `Inv.inferenceRound`: it is kept.
-/

namespace ManagedSecurity

/-- `YoloBoundingBox`; the floats are bit patterns. -/
structure YoloBoundingBox where
  x : UInt32
  y : UInt32
  width : UInt32
  height : UInt32
  confidence : UInt32
  classId : ℤ
deriving DecidableEq, Repr

/-- `BoundingBox`. -/
structure BoundingBox extends YoloBoundingBox where
  label : String
deriving DecidableEq, Repr

/-- `IYoloInferenceEngine`; `DetectAsync` may throw. -/
structure YoloInferenceEngine where
  isNative : Bool
  engineVersion : String
  detect : Bytes → Option (List YoloBoundingBox)

/-- `InferenceTelemetryEvent`. -/
structure InferenceTelemetryEvent where
  cameraId : String
  timestampMs : ℕ
  detections : List BoundingBox
  isNative : Bool
  engineVersion : String
deriving DecidableEq, Repr

/-- The state of `InquisitorBehavior`. `loops` are the targets of the calls of
`RunInferenceLoopAsync` that are under way, `emitted` the events that were raised. -/
structure InquisitorBehavior where
  cipher : Cipher
  yoloEngine : YoloInferenceEngine
  isRunning : Bool
  activeTargets : Dictionary String DiscoveryResult
  loops : List DiscoveryResult
  emitted : List InferenceTelemetryEvent

namespace InquisitorBehavior

/-- A new inquisitor, behind `StartAsync`. -/
def initial (cipher : Cipher) (yoloEngine : YoloInferenceEngine) : InquisitorBehavior :=
  ⟨cipher, yoloEngine, true, ∅, [], []⟩

/-- `StopAsync`. -/
def stop (s : InquisitorBehavior) : InquisitorBehavior := { s with isRunning := false }

/-- `AcceptTarget`. A loop that does not find the behavior running returns at once. -/
def acceptTarget (s : InquisitorBehavior) (target : DiscoveryResult) : InquisitorBehavior :=
  if target.url ∈ s.activeTargets then
    s
  else
    let s := { s with activeTargets := s.activeTargets.set target.url target }
    if s.isRunning then { s with loops := s.loops ++ [target] } else s

/-- `ReleaseTarget`. -/
def releaseTarget (s : InquisitorBehavior) (cameraUrl : String) : InquisitorBehavior :=
  { s with activeTargets := s.activeTargets.remove cameraUrl }

/-- The k-th loop is over. -/
def leave (s : InquisitorBehavior) (k : ℕ) : InquisitorBehavior :=
  { s with loops := s.loops.eraseIdx k }

/-- The condition of the k-th loop, at the end of a round. -/
def goOn (s : InquisitorBehavior) (k : ℕ) (target : DiscoveryResult) : InquisitorBehavior :=
  if s.isRunning ∧ target.url ∈ s.activeTargets then s else s.leave k

/-- What is told about a frame. -/
def telemetry (s : InquisitorBehavior) (target : DiscoveryResult) (timestampMs : ℕ)
    (hits : List YoloBoundingBox) : InferenceTelemetryEvent where
  cameraId := target.id
  timestampMs := timestampMs
  detections := hits.map fun h => ⟨h, "Person"⟩
  isNative := s.yoloEngine.isNative
  engineVersion := s.yoloEngine.engineVersion

/-- One round of the k-th loop; `throws` is whether a receiver of the event does. After an
exception the target is released. -/
def inferenceRound (s : InquisitorBehavior) (k : ℕ) (imageBytes : Option Bytes) (timestampMs : ℕ)
    (throws : Bool) : Option InquisitorBehavior :=
  (s.loops[k]?).map fun target =>
    let feedStrategy : PollingSnapshotFeedStrategy := ⟨target, some s.cipher⟩
    match feedStrategy.getNextFrame imageBytes with
    | none => s.goOn k target
    | some frame =>
      match s.yoloEngine.detect frame with
      | none => (s.releaseTarget target.url).leave k
      | some hits =>
        let s := { s with emitted := s.emitted ++ [s.telemetry target timestampMs hits] }
        if throws then (s.releaseTarget target.url).leave k else s.goOn k target

end InquisitorBehavior

/-! ## The targets of the inquisitor -/

namespace InquisitorBehavior

/-- There is one loop for every target, as long as the behavior runs, and none for anything
else. -/
structure Inv (s : InquisitorBehavior) : Prop where
  keyed : ∀ url target, s.activeTargets.lookup url = some target → target.url = url
  inferring : ∀ target ∈ s.loops, s.activeTargets.lookup target.url = some target
  once : (s.loops.map DiscoveryResult.url).Nodup
  running : s.isRunning = true → ∀ url target, s.activeTargets.lookup url = some target →
    target ∈ s.loops

section

variable {s s' : InquisitorBehavior} {k : ℕ} {target : DiscoveryResult}

theorem inv_initial (cipher : Cipher) (yoloEngine : YoloInferenceEngine) :
    (initial cipher yoloEngine).Inv where
  keyed := by simp [initial]
  inferring := by simp [initial]
  once := List.nodup_nil
  running := by simp [initial]

theorem Inv.stop (h : s.Inv) : s.stop.Inv where
  keyed := h.keyed
  inferring := h.inferring
  once := h.once
  running := by simp [InquisitorBehavior.stop]

theorem Inv.acceptTarget (h : s.Inv) (target : DiscoveryResult) : (s.acceptTarget target).Inv := by
  unfold InquisitorBehavior.acceptTarget
  split_ifs with hmem
  · exact h
  dsimp only
  have hkeyed : ∀ url found, (s.activeTargets.set target.url target).lookup url = some found →
      found = target ∧ url = target.url ∨ url ≠ target.url ∧ s.activeTargets.lookup url = some found := by
    intro url found hfound
    by_cases hurl : url = target.url
    · rw [hurl, Dictionary.lookup_set_self] at hfound
      exact Or.inl ⟨(Option.some.inj hfound).symm, hurl⟩
    · rw [Dictionary.lookup_set_ne hurl] at hfound
      exact Or.inr ⟨hurl, hfound⟩
  have hurls : ∀ url found, (s.activeTargets.set target.url target).lookup url = some found →
      found.url = url := by
    intro url found hfound
    rcases hkeyed url found hfound with ⟨rfl, rfl⟩ | ⟨-, hold⟩
    · rfl
    · exact h.keyed url found hold
  -- the loops that are under way have other targets
  have hother : ∀ found ∈ s.loops, found.url ≠ target.url := by
    intro found hfound hurl
    exact hmem (Dictionary.mem_iff_lookup.mpr ⟨found, by rw [← hurl]; exact h.inferring found hfound⟩)
  have hinferring : ∀ found ∈ s.loops,
      (s.activeTargets.set target.url target).lookup found.url = some found := by
    intro found hfound
    rw [Dictionary.lookup_set_ne (hother found hfound)]
    exact h.inferring found hfound
  split_ifs with hrunning
  · refine ⟨hurls, ?_, ?_, ?_⟩
    · intro found hfound
      rcases List.mem_append.mp hfound with hfound | hfound
      · exact hinferring found hfound
      · rw [List.mem_singleton.mp hfound]
        exact Dictionary.lookup_set_self
    · dsimp only
      rw [List.map_append, List.nodup_append]
      refine ⟨h.once, List.nodup_singleton _, ?_⟩
      intro url hold url' hnew
      rcases List.mem_map.mp hold with ⟨found, hfound, rfl⟩
      rw [List.map_singleton, List.mem_singleton] at hnew
      rw [hnew]
      exact hother found hfound
    · intro _ url found hfound
      rcases hkeyed url found hfound with ⟨rfl, -⟩ | ⟨-, hold⟩
      · exact List.mem_append_right _ (List.mem_singleton_self _)
      · exact List.mem_append_left _ (h.running hrunning url found hold)
  · exact ⟨hurls, hinferring, h.once, fun hstarted => absurd hstarted hrunning⟩

/-- The target is active behind `AcceptTarget`, and no other one has become active. -/
theorem acceptTarget_lookup (target : DiscoveryResult) :
    target.url ∈ (s.acceptTarget target).activeTargets ∧
      ∀ url found, (s.acceptTarget target).activeTargets.lookup url = some found →
        s.activeTargets.lookup url = some found ∨ found = target ∧ url = target.url := by
  unfold InquisitorBehavior.acceptTarget
  split_ifs with hmem
  · exact ⟨hmem, fun url found hfound => Or.inl hfound⟩
  have hset : ∀ url found, (s.activeTargets.set target.url target).lookup url = some found →
      s.activeTargets.lookup url = some found ∨ found = target ∧ url = target.url := by
    intro url found hfound
    by_cases hurl : url = target.url
    · rw [hurl, Dictionary.lookup_set_self] at hfound
      exact Or.inr ⟨(Option.some.inj hfound).symm, hurl⟩
    · rw [Dictionary.lookup_set_ne hurl] at hfound
      exact Or.inl hfound
  dsimp only
  split_ifs
  · exact ⟨Dictionary.mem_set.mpr (Or.inl rfl), hset⟩
  · exact ⟨Dictionary.mem_set.mpr (Or.inl rfl), hset⟩

/-- The other loops have other targets. -/
theorem Inv.others (h : s.Inv) (hk : s.loops[k]? = some target) {found : DiscoveryResult}
    (hfound : found ∈ s.loops.eraseIdx k) : found.url ≠ target.url := by
  intro hurl
  rcases List.mem_eraseIdx_iff_getElem?.mp hfound with ⟨i, hik, hi⟩
  have hsame : (s.loops.map DiscoveryResult.url)[i]? = (s.loops.map DiscoveryResult.url)[k]? := by
    rw [List.getElem?_map, List.getElem?_map, hi, hk, Option.map_some, Option.map_some, hurl]
  have hlt : i < (s.loops.map DiscoveryResult.url).length := by
    rw [List.length_map]
    exact (List.getElem?_eq_some_iff.mp hi).1
  exact hik ((List.getElem?_inj hlt h.once).mp hsame)

/-- A loop that is over takes its target along, if the behavior runs. -/
theorem Inv.release (h : s.Inv) (hk : s.loops[k]? = some target) :
    ((s.releaseTarget target.url).leave k).Inv := by
  have hlookup : ∀ url found, (s.activeTargets.remove target.url).lookup url = some found →
      url ≠ target.url ∧ s.activeTargets.lookup url = some found := by
    intro url found hfound
    have hne : url ≠ target.url := by
      rintro rfl
      have hnone : (s.activeTargets.remove target.url).lookup target.url = none :=
        AList.lookup_erase _ _
      rw [hnone] at hfound
      cases hfound
    have hsame : (s.activeTargets.remove target.url).lookup url = s.activeTargets.lookup url :=
      AList.lookup_erase_ne hne
    exact ⟨hne, by rw [← hsame]; exact hfound⟩
  refine ⟨fun url found hfound => h.keyed url found (hlookup url found hfound).2, ?_, ?_, ?_⟩
  · intro found hfound
    have hsame : (s.activeTargets.remove target.url).lookup found.url =
        s.activeTargets.lookup found.url := AList.lookup_erase_ne (h.others hk hfound)
    show (s.activeTargets.remove target.url).lookup found.url = some found
    rw [hsame]
    exact h.inferring found (List.mem_of_mem_eraseIdx hfound)
  · exact h.once.sublist ((List.eraseIdx_sublist _ _).map DiscoveryResult.url)
  · intro hrunning url found hfound
    rcases hlookup url found hfound with ⟨hne, hold⟩
    rcases List.getElem?_of_mem (h.running hrunning url found hold) with ⟨i, hi⟩
    refine List.mem_eraseIdx_iff_getElem?.mpr ⟨i, ?_, hi⟩
    rintro rfl
    rw [hk] at hi
    obtain rfl := Option.some.inj hi
    exact hne (h.keyed url target hold).symm

/-- A loop that finds its target active goes on. -/
theorem Inv.goOn (h : s.Inv) (hk : s.loops[k]? = some target) : (s.goOn k target).Inv := by
  unfold InquisitorBehavior.goOn
  split_ifs with hgoes
  · exact h
  have hstopped : s.isRunning ≠ true := by
    intro hrunning
    have hlookup := h.inferring target (List.mem_of_getElem? hk)
    exact hgoes ⟨hrunning, Dictionary.mem_iff_lookup.mpr ⟨target, hlookup⟩⟩
  exact ⟨h.keyed, fun found hfound => h.inferring found (List.mem_of_mem_eraseIdx hfound),
    h.once.sublist ((List.eraseIdx_sublist _ _).map DiscoveryResult.url),
    fun hrunning => absurd hrunning hstopped⟩

/-- A round keeps the invariant and adds no target. -/
theorem Inv.inferenceRound (h : s.Inv) {imageBytes : Option Bytes} {timestampMs : ℕ} {throws : Bool}
    (hround : s.inferenceRound k imageBytes timestampMs throws = some s') :
    s'.Inv ∧ ∀ url found, s'.activeTargets.lookup url = some found →
      s.activeTargets.lookup url = some found := by
  unfold InquisitorBehavior.inferenceRound at hround
  rcases Option.map_eq_some_iff.mp hround with ⟨target, hk, hs'⟩
  have hgoOn : ∀ t : InquisitorBehavior, t.activeTargets = s.activeTargets → t.Inv →
      t.loops[k]? = some target → (t.goOn k target).Inv ∧
        ∀ url found, (t.goOn k target).activeTargets.lookup url = some found →
          s.activeTargets.lookup url = some found := by
    intro t ht hinv htk
    refine ⟨hinv.goOn htk, fun url found hfound => ?_⟩
    rw [← ht]
    unfold InquisitorBehavior.goOn at hfound
    split_ifs at hfound <;> exact hfound
  have hrelease : ∀ t : InquisitorBehavior, t.activeTargets = s.activeTargets → t.Inv →
      t.loops[k]? = some target → ((t.releaseTarget target.url).leave k).Inv ∧
        ∀ url found, ((t.releaseTarget target.url).leave k).activeTargets.lookup url = some found →
          s.activeTargets.lookup url = some found := by
    intro t ht hinv htk
    refine ⟨hinv.release htk, fun url found hfound => ?_⟩
    rw [← ht]
    have herased : (t.activeTargets.erase target.url).lookup url = some found := hfound
    by_cases hurl : url = target.url
    · rw [hurl, AList.lookup_erase] at herased
      cases herased
    · rwa [AList.lookup_erase_ne hurl] at herased
  dsimp only at hs'
  split at hs'
  · rw [← hs']
    exact hgoOn s rfl h hk
  · split at hs'
    · rw [← hs']
      exact hrelease s rfl h hk
    · split_ifs at hs'
      · rw [← hs']
        exact hrelease _ rfl ⟨h.keyed, h.inferring, h.once, h.running⟩ hk
      · rw [← hs']
        exact hgoOn _ rfl ⟨h.keyed, h.inferring, h.once, h.running⟩ hk

end

end InquisitorBehavior

end ManagedSecurity

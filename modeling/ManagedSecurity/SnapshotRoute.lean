import ManagedSecurity.Agents
import ManagedSecurity.Governor

/-! # From the guardian to the camera and back (`/api/snapshot/`)

The guardian does not ask a camera for a picture: it asks the Governor API of the commander,
under an address that names the camera by its id. The API looks for the first camera with that
id, or with that display name.

* `dispatch_snapshot`, `snapshotCamera`: the branch for such an address, and its camera;
* `routed_run`: the addresses that a guardian polls are those of cameras of the pool;
* `guardian_polls_own_camera`: it gets the picture of the camera it monitors if and only if no
  camera in front of it in the pool is named like it.
-/

namespace ManagedSecurity

open Bytes Transition

/-! ## The branch -/

/-- The camera has this id, or this display name. -/
def isNamed (camera : DiscoveryResult) (cameraId : List Char) : Bool :=
  equalsIgnoreCase camera.id.toList cameraId ||
    match camera.displayName with
    | none => false
    | some displayName => equalsIgnoreCase displayName.toList cameraId

/-- The camera of a request for a snapshot, or of one for a stream. -/
def snapshotCamera (cameras : List DiscoveryResult) (cameraId : List Char) : Option DiscoveryResult :=
  cameras.find? fun c => isNamed c cameraId

/-- The answer to a request, if it has a body; `capture` is what becomes of the attempt to
take a picture with the camera. -/
def answer (cipher : Cipher) (random : ℕ → UInt8) (capture : DiscoveryResult → Bool × Bytes)
    (fallback : Bytes) (cameras : List DiscoveryResult) (httpMethod : String) (url : List Char) :
    Option Bytes :=
  match dispatch httpMethod url with
  | .snapshot cameraId =>
    (snapshotCamera cameras cameraId).bind fun cam =>
      handleSnapshotRequest cipher random (capture cam) fallback
  | _ => none

theorem equalsIgnoreCase_self (text : List Char) : equalsIgnoreCase text text = true :=
  decide_eq_true rfl

theorem isNamed_id (camera : DiscoveryResult) : isNamed camera camera.id.toList = true := by
  unfold isNamed
  rw [equalsIgnoreCase_self, Bool.true_or]

/-- The branch for the address of a snapshot. -/
theorem dispatch_snapshot (cameraId : List Char) :
    dispatch "GET" ("/api/snapshot/".toList ++ cameraId) = .snapshot (trimEndSlashes cameraId) := by
  have htake : ("/api/snapshot/".toList ++ cameraId).take 14 = "/api/snapshot/".toList :=
    List.take_left' (by rfl)
  have hdrop : ("/api/snapshot/".toList ++ cameraId).drop 14 = cameraId := List.drop_left' (by rfl)
  have hother : ∀ text : List Char,
      equalsIgnoreCase ("/api/snapshot/".toList) (text.take 14) = false →
      equalsIgnoreCase ("/api/snapshot/".toList ++ cameraId) text = false := by
    intro text htext
    refine equalsIgnoreCase_of_front 14 ?_
    rw [htake]
    exact htext
  have hfetch : startsWithIgnoreCase ("/api/snapshot/".toList ++ cameraId) "/api/vault/fetch/".toList =
      false := by
    refine equalsIgnoreCase_of_front 14 ?_
    rw [List.take_take, Nat.min_eq_left (by decide), htake]
    decide
  have hfront : startsWithIgnoreCase ("/api/snapshot/".toList ++ cameraId) "/api/snapshot/".toList = true := by
    unfold startsWithIgnoreCase
    rw [List.take_left]
    exact equalsIgnoreCase_self _
  unfold dispatch
  rw [if_neg (by decide), if_neg (by rw [hother _ (by decide)]; simp),
    if_neg (by rw [hother _ (by decide)]; simp), if_neg (by simp),
    if_neg (by rw [hother _ (by decide)]; simp), if_neg (by rw [hother _ (by decide)]; simp),
    if_neg (by rw [hfetch]; simp), if_neg (by rw [hother _ (by decide)]; simp), if_pos ⟨hfront, rfl⟩,
    hdrop]

/-! ## Addresses -/

/-- A camera whose id consists of letters and digits, as `GenerateId` makes them, and whose
snapshots the API takes. -/
structure Regular (camera : DiscoveryResult) : Prop where
  snapshotUrl : camera.snapshotUrl = "/api/snapshot/" ++ camera.id
  id : ∀ ch ∈ camera.id.toList, ch.isAlphanum = true

/-- A camera that the guardian polls under the address of a regular one. -/
structure PollsGovernor (commanderBaseUrl : String) (camera : DiscoveryResult) : Prop where
  snapshotUrl : camera.snapshotUrl =
    GuardianBehavior.trimEndSlash commanderBaseUrl ++ ("/api/snapshot/" ++ camera.id)
  id : ∀ ch ∈ camera.id.toList, ch.isAlphanum = true

theorem trimEndSlashes_id {id : String} (h : ∀ ch ∈ id.toList, ch.isAlphanum = true) :
    trimEndSlashes id.toList = id.toList := by
  refine List.rdropWhile_eq_self_iff.mpr fun hne hlast => ?_
  have halphanum := h _ (List.getLast_mem hne)
  rw [of_decide_eq_true hlast] at halphanum
  revert halphanum
  decide

/-- The camera of an assignment is polled under the address of the one that was assigned. -/
theorem polls_cameraOf (commanderBaseUrl : String) {camera : DiscoveryResult} (h : Regular camera) :
    PollsGovernor commanderBaseUrl
      (GuardianBehavior.cameraOf commanderBaseUrl (CommanderBehavior.assignmentOf camera)) := by
  have hslash : ("/api/snapshot/" ++ camera.id).startsWith "/" = true := by simp
  have hurl : camera.snapshotUrlField.getD ("/api/snapshot/" ++ camera.id) = "/api/snapshot/" ++ camera.id :=
    h.snapshotUrl
  refine ⟨?_, h.id⟩
  simp only [GuardianBehavior.cameraOf, CommanderBehavior.assignmentOf, DiscoveryResult.snapshotUrl,
    Option.getD_some, hurl, if_pos hslash]

/-! ## The pool -/

namespace CommanderBehavior

/-- All cameras that the event brings are regular ones. -/
def Event.Regular : Event → Prop
  | .load cameras => ∀ camera ∈ cameras, ManagedSecurity.Regular camera
  | .add camera => ManagedSecurity.Regular camera
  | _ => True

/-- All cameras of a pool are. -/
def RegularPool (pool : Dictionary String DiscoveryResult) : Prop :=
  ∀ url camera, pool.lookup url = some camera → ManagedSecurity.Regular camera

theorem regular_tryAdd {pool : Dictionary String DiscoveryResult} {camera : DiscoveryResult}
    (hpool : RegularPool pool) (hcamera : ManagedSecurity.Regular camera) :
    RegularPool (pool.tryAdd camera.url camera) := by
  intro url found hfound
  rw [Dictionary.lookup_tryAdd] at hfound
  split_ifs at hfound with hurl
  · cases hold : pool.lookup camera.url with
    | none =>
      rw [hold] at hfound
      obtain rfl := Option.some.inj hfound
      exact hcamera
    | some old =>
      rw [hold] at hfound
      obtain rfl := Option.some.inj hfound
      exact hpool _ old hold
  · exact hpool url found hfound

theorem regular_foldl (cameras : List DiscoveryResult) :
    ∀ pool : Dictionary String DiscoveryResult, RegularPool pool →
      (∀ camera ∈ cameras, ManagedSecurity.Regular camera) →
        RegularPool (cameras.foldl (fun pool cam => pool.tryAdd cam.url cam) pool) := by
  induction cameras with
  | nil =>
    intro pool hpool _
    exact hpool
  | cons camera cameras ih =>
    intro pool hpool hcameras
    exact ih _ (regular_tryAdd hpool (hcameras camera List.mem_cons_self))
      fun other hother => hcameras other (List.mem_cons_of_mem camera hother)

/-- Where only regular cameras come, only regular cameras are. -/
theorem regular_step {s s' : CommanderBehavior} (hs : s.Inv) {event : Event} (hevent : event.Regular)
    (hpool : RegularPool s.unassignedCameras) (h : s.step event = some s') :
    RegularPool s'.unassignedCameras := by
  cases event with
  | heartbeat hb =>
    obtain rfl := Option.some.inj h
    exact hpool
  | load cameras =>
    obtain rfl := Option.some.inj h
    exact regular_foldl cameras _ hpool hevent
  | add camera =>
    obtain rfl := Option.some.inj h
    unfold addCameraToPool
    split_ifs
    · exact hpool
    · exact regular_tryAdd hpool hevent
  | configure urlOrId displayName =>
    rcases hs.configureCamera_eq urlOrId displayName with hsame | ⟨url, camera, -, hcamera, hset⟩
    · unfold step at h
      simp only [hsame, Option.some.injEq] at h
      rw [← h]
      exact hpool
    -- the display name is no part of what makes a camera a regular one
    · unfold step at h
      simp only [hset, Option.some.injEq] at h
      rw [← h]
      intro url' found hfound
      by_cases hurl : url' = url
      · rw [hurl, Dictionary.lookup_set_self] at hfound
        obtain rfl := Option.some.inj hfound
        exact ⟨(hpool url camera hcamera).snapshotUrl, (hpool url camera hcamera).id⟩
      · rw [Dictionary.lookup_set_ne hurl] at hfound
        exact hpool url' found hfound
  | govern now clock =>
    obtain rfl := Option.some.inj h
    rw [(hs.governance now clock).2.1]
    exact hpool
  | rearrange workers cameras tasks =>
    simp only [step] at h
    split_ifs at h with hsame
    obtain rfl := Option.some.inj h
    intro url camera hcamera
    exact hpool url camera ((hsame.2.1.lookup url).trans hcamera)

end CommanderBehavior

/-! ## Runs -/

namespace Agent

/-- All cameras that the event brings are regular ones. -/
def Event.Regular : Event → Prop
  | .command event => event.Regular
  | _ => True

/-- What holds of the addresses: the pool has regular cameras, and the guardian polls the
API for them. -/
structure Routed (cipher : Cipher) (commanderBaseUrl : String) (a : Agent) : Prop where
  coherent : a.Coherent
  shares : a.guardian.Shares cipher
  base : a.guardian.commanderBaseUrl = commanderBaseUrl
  pool : CommanderBehavior.RegularPool a.commander.unassignedCameras
  tasks : ∀ url camera, a.guardian.activeTasks.lookup url = some camera →
    PollsGovernor commanderBaseUrl camera

section

variable {a a' : Agent} {cipher : Cipher} {commanderBaseUrl : String}

theorem routed_initial (id governor : String) (generateId : String → String)
    (commanderBaseUrl : String) (workerTimeout : ℤ) (cipher : Cipher)
    (yoloEngine : YoloInferenceEngine) :
    (initial id governor generateId commanderBaseUrl workerTimeout cipher yoloEngine).Routed cipher
      commanderBaseUrl where
  coherent := coherent_initial id governor generateId commanderBaseUrl workerTimeout cipher yoloEngine
  shares := shares_initial
  base := rfl
  pool := by simp [CommanderBehavior.RegularPool, initial, CommanderBehavior.initial]
  tasks := by simp [initial, GuardianBehavior.initial]

/-- The assignments of the commander leave the feeds with the cipher of the guardian. -/
theorem shares_foldl (id : String) (entries : List (String × TaskAssignment)) :
    ∀ g : GuardianBehavior, g.Shares cipher → (entries.foldl (onTaskAssigned id) g).Shares cipher := by
  induction entries with
  | nil =>
    intro g hshares
    exact hshares
  | cons entry entries ih =>
    intro g hshares
    refine ih _ ?_
    unfold onTaskAssigned
    split_ifs
    · exact shares_accept hshares entry.2
    · exact hshares

theorem base_round (g : GuardianBehavior) (feed : PollingSnapshotFeedStrategy)
    (imageBytes : Option Bytes) :
    (g.broadPhaseRound feed imageBytes).commanderBaseUrl = g.commanderBaseUrl := by
  unfold GuardianBehavior.broadPhaseRound
  split
  · rfl
  · dsimp only
    split <;> rfl

theorem routed_step {event : Event} (h : a.Routed cipher commanderBaseUrl) (hevent : event.Regular)
    (hstep : a.step event = some a') : a'.Routed cipher commanderBaseUrl := by
  have hcoherent := (coherent_step h.coherent hstep).1
  cases event with
  | command event =>
    unfold step at hstep
    rcases Option.map_eq_some_iff.mp hstep with ⟨commander, hcommander, rfl⟩
    have hpool := CommanderBehavior.regular_step h.coherent.commander hevent h.pool hcommander
    have hannounces := CommanderBehavior.announces_step h.coherent.commander hcommander
    have haccepts := accepts_foldl a.id (announced a.commander event) a.guardian
    refine ⟨hcoherent, shares_foldl _ _ _ h.shares, haccepts.base.trans h.base, hpool, ?_⟩
    intro url camera hcamera
    rcases haccepts.new url camera hcamera with hold | ⟨entry, hentry, -, rfl⟩
    · exact h.tasks url camera hold
    -- what is new has been announced, and comes from the pool
    · rcases hannounces.cameras entry hentry with ⟨pooled, hpooled, hassignment⟩
      rcases Dictionary.mem_values.mp hpooled with ⟨url', hurl'⟩
      rw [hassignment, h.base]
      exact polls_cameraOf commanderBaseUrl (hpool url' pooled hurl')
  | poll k imageBytes =>
    unfold step at hstep
    rcases Option.map_eq_some_iff.mp hstep with ⟨⟨cameraUrl, feed⟩, -, rfl⟩
    rcases round_frame (g := a.guardian) feed imageBytes with ⟨hcipher, hloops, htasks⟩
    refine ⟨hcoherent, ⟨hcipher.trans h.shares.guardian, ?_⟩, (base_round _ _ _).trans h.base, h.pool, ?_⟩
    · rw [hloops]
      exact h.shares.feeds
    · rw [htasks]
      exact h.tasks
  | infer k imageBytes timestampMs throws =>
    unfold step at hstep
    rcases Option.map_eq_some_iff.mp hstep with ⟨inquisitor, -, rfl⟩
    exact ⟨hcoherent, h.shares, h.base, h.pool, h.tasks⟩
  | shutdown =>
    obtain rfl := Option.some.inj hstep
    exact ⟨hcoherent, h.shares, h.base, h.pool, h.tasks⟩

/-- In every reachable state. -/
theorem routed_run {id governor : String} {generateId : String → String} {workerTimeout : ℤ}
    {yoloEngine : YoloInferenceEngine} {events : List Event} (hevents : ∀ event ∈ events, event.Regular)
    (hrun : run step (initial id governor generateId commanderBaseUrl workerTimeout cipher yoloEngine)
      events = some a) : a.Routed cipher commanderBaseUrl :=
  run_invariant_of (P := fun _ event => event.Regular) (I := Routed cipher commanderBaseUrl)
    (fun _ _ _ h hevent hstep => routed_step h hevent hstep) events _ _
    (routed_initial id governor generateId commanderBaseUrl workerTimeout cipher yoloEngine)
    (atEach_of_mem events _ hevents) hrun

end

/-- What a round of the guardian makes of the answer of the API. -/
theorem seen_of_answer {a : Agent} {cipher : Cipher} {commanderBaseUrl cameraUrl : String} {k : ℕ}
    {feed : PollingSnapshotFeedStrategy} {cam : DiscoveryResult} {random : ℕ → UInt8}
    {capture : DiscoveryResult → Bool × Bytes} {fallback response : Bytes}
    (h : a.Routed cipher commanderBaseUrl) (hinv : cipher.crypto.Inverts)
    (hfeed : a.guardian.feedLoops[k]? = some (cameraUrl, feed))
    (hlight : feed.camera.mvRoute = .lightPlain)
    (hrequest : handleSnapshotRequest cipher random (capture cam) fallback = some response)
    (hjpeg : IsJpeg (rawJpeg (capture cam) fallback))
    (hlength : (rawJpeg (capture cam) fallback).length < 2 ^ 25) :
    ∃ a', a.step (.poll k (some response)) = some a' ∧
      a'.guardian.lastFrames.lookup cameraUrl = some (rawJpeg (capture cam) fallback) := by
  have hcamera : a.guardian.activeTasks.lookup cameraUrl = some feed.camera :=
    h.coherent.loops.monitors cameraUrl feed (List.mem_of_getElem? hfeed)
  have hanswer : AnswersWith cipher (rawJpeg (capture cam) fallback) response :=
    Or.inr ⟨random, capture cam, fallback, rfl, hrequest⟩
  refine ⟨_, by rw [step, hfeed, Option.map_some], ?_⟩
  dsimp only
  rw [round_eq h.shares.guardian (h.shares.feeds _ (List.mem_of_getElem? hfeed)) hinv hjpeg hlength hanswer,
    if_pos hlight, ← h.coherent.url hcamera]
  exact Dictionary.lookup_set_self

/-- While only regular cameras come to an agent, in every reachable state each of the guardian's
loops polls an address that the API takes for the snapshot of a camera `cam` of its pool: it
dispatches it to the branch, which finds `cam`. On the light route what the guardian looks at next
is the picture taken with `cam`. This is the camera that it monitors if and only if no camera that
the pool lists in front of that one has its id for an id or a display name. -/
theorem guardian_polls_own_camera (id governor : String) (generateId : String → String)
    (commanderBaseUrl : String) (workerTimeout : ℤ) (cipher : Cipher) (hinv : cipher.crypto.Inverts)
    (yoloEngine : YoloInferenceEngine) (events : List Event)
    (hevents : ∀ event ∈ events, event.Regular) (a : Agent)
    (hrun : run step (initial id governor generateId commanderBaseUrl workerTimeout cipher yoloEngine)
      events = some a)
    (k : ℕ) (cameraUrl : String) (feed : PollingSnapshotFeedStrategy)
    (hfeed : a.guardian.feedLoops[k]? = some (cameraUrl, feed)) :
    ∃ url camera cam,
      feed.camera.snapshotUrl = GuardianBehavior.trimEndSlash commanderBaseUrl ++ url ∧
      a.commander.unassignedCameras.lookup cameraUrl = some camera ∧
      dispatch "GET" url.toList = .snapshot camera.id.toList ∧
      snapshotCamera a.commander.unassignedCameras.values camera.id.toList = some cam ∧
      cam ∈ a.commander.unassignedCameras.values ∧
      (cam = camera ↔ ∃ front back, a.commander.unassignedCameras.values = front ++ camera :: back ∧
        ∀ other ∈ front, isNamed other camera.id.toList = false) ∧
      ∀ random capture fallback response, feed.camera.mvRoute = .lightPlain →
        answer cipher random capture fallback a.commander.unassignedCameras.values "GET" url.toList =
          some response →
        IsJpeg (rawJpeg (capture cam) fallback) →
        (rawJpeg (capture cam) fallback).length < 2 ^ 25 →
          ∃ a', step a (.poll k (some response)) = some a' ∧
            a'.guardian.lastFrames.lookup cameraUrl = some (rawJpeg (capture cam) fallback) := by
  have h := routed_run hevents hrun
  have htask : a.guardian.activeTasks.lookup cameraUrl = some feed.camera :=
    h.coherent.loops.monitors cameraUrl feed (List.mem_of_getElem? hfeed)
  have hpolls := h.tasks cameraUrl feed.camera htask
  rcases h.coherent.tasks cameraUrl feed.camera htask with ⟨camera, hcamera, hsame⟩
  have hmem : camera ∈ a.commander.unassignedCameras.values := Dictionary.mem_values.mpr ⟨_, hcamera⟩
  -- the camera itself answers to its id, so that somebody does
  have hsome : (snapshotCamera a.commander.unassignedCameras.values camera.id.toList).isSome = true :=
    List.find?_isSome.mpr ⟨camera, hmem, isNamed_id camera⟩
  rcases Option.isSome_iff_exists.mp hsome with ⟨cam, hcam⟩
  have hdispatch : dispatch "GET" ("/api/snapshot/" ++ feed.camera.id).toList =
      .snapshot camera.id.toList := by
    rw [String.toList_append, dispatch_snapshot, trimEndSlashes_id hpolls.id, hsame.id]
  refine ⟨"/api/snapshot/" ++ feed.camera.id, camera, cam, hpolls.snapshotUrl, hcamera, hdispatch, hcam,
    List.mem_of_find?_eq_some hcam, ?_, ?_⟩
  · constructor
    · rintro rfl
      rcases (List.find?_eq_some_iff_append.mp hcam).2 with ⟨front, back, hvalues, hfront⟩
      exact ⟨front, back, hvalues, fun other hother => by simpa using hfront other hother⟩
    · rintro ⟨front, back, hvalues, hfront⟩
      have hfirst : snapshotCamera a.commander.unassignedCameras.values camera.id.toList = some camera :=
        List.find?_eq_some_iff_append.mpr ⟨isNamed_id camera, front, back, hvalues,
          fun other hother => by rw [hfront other hother]; rfl⟩
      exact Option.some.inj (hcam.symm.trans hfirst)
  · intro random capture fallback response hlight hanswer hjpeg hlength
    have hrequest : handleSnapshotRequest cipher random (capture cam) fallback = some response := by
      unfold answer at hanswer
      rw [hdispatch] at hanswer
      simpa only [hcam, Option.bind_some] using hanswer
    exact seen_of_answer h hinv hfeed hlight hrequest hjpeg hlength

/-- The camera at the door, with an id of its own. -/
def hashedCamera : DiscoveryResult :=
  { CommanderBehavior.sampleCamera "10.0.0.7" with id := "3fa9c0d1e2b4" }

/-- It is monitored. -/
def hashedEvents : List Event :=
  [.command (.heartbeat (CommanderBehavior.sampleHeartbeat "scout-1" 0)), .command (.add hashedCamera),
    doorGovern]

/-- The answer to a request for its picture. -/
def hashedAnswer : Option Bytes :=
  answer maskCipher (fun _ => 0) (fun _ => (true, [0xFF, 0xD8, 7])) [] [hashedCamera] "GET"
    "/api/snapshot/3fa9c0d1e2b4".toList

theorem hashedEvents_regular : ∀ event ∈ hashedEvents, event.Regular := by
  intro event hevent
  simp only [hashedEvents, List.mem_cons, List.not_mem_nil, or_false] at hevent
  rcases hevent with rfl | rfl | rfl
  · trivial
  · exact ⟨rfl, List.all_eq_true.mp (by decide)⟩
  · trivial

/-- The guardian asks for the picture of the camera at the door, and sees it. -/
theorem guardian_polls_own_camera_door :
    ∃ a url response a', run step doorInitial hashedEvents = some a ∧
      dispatch "GET" url = .snapshot hashedCamera.id.toList ∧
      snapshotCamera [hashedCamera] hashedCamera.id.toList = some hashedCamera ∧
      hashedAnswer = some response ∧ step a (.poll 0 (some response)) = some a' ∧
      a'.guardian.lastFrames.lookup doorUrl = some [0xFF, 0xD8, 7] := by
  have hreached : (run step doorInitial hashedEvents).isSome = true := by decide +kernel
  rcases Option.isSome_iff_exists.mp hreached with ⟨a, hrun⟩
  have hcameras : ((run step doorInitial hashedEvents).map fun a =>
      (a.commander.unassignedCameras.values, a.commander.unassignedCameras.lookup doorUrl)) =
        some ([hashedCamera], some hashedCamera) := by
    decide +kernel
  have hpolled : ((run step doorInitial hashedEvents).bind fun a =>
      a.guardian.feedLoops[0]?.map fun loop =>
        (loop.1, loop.2.camera.snapshotUrl, loop.2.camera.mvRoute)) =
        some (doorUrl, "http://localhost:5000/api/snapshot/3fa9c0d1e2b4", .lightPlain) := by
    decide +kernel
  rw [hrun, Option.map_some, Option.some.injEq, Prod.mk.injEq] at hcameras
  rw [hrun, Option.bind_some, Option.map_eq_some_iff] at hpolled
  rcases hpolled with ⟨⟨cameraUrl, feed⟩, hfeed, hloop⟩
  obtain ⟨rfl, hcamera⟩ := Prod.mk.inj hloop
  rcases Option.isSome_iff_exists.mp (by decide +kernel : hashedAnswer.isSome = true) with
    ⟨response, hresponse⟩
  rcases guardian_polls_own_camera "scout-1" "http://localhost:5000" (fun url => url)
    "http://localhost:5000" 45 maskCipher maskCrypto_inverts
    ⟨false, "Telemetry Simulation Mode", fun _ => some []⟩ hashedEvents hashedEvents_regular a hrun 0
    doorUrl feed hfeed with ⟨url, camera, cam, hurl, hpooled, hdispatch, hfound, hmem, -, hpolls⟩
  obtain rfl : hashedCamera = camera :=
    Option.some.inj (hcameras.2.symm.trans hpooled)
  rw [hcameras.1] at hfound hmem
  obtain rfl := List.mem_singleton.mp hmem
  have hpath : url.toList = "/api/snapshot/3fa9c0d1e2b4".toList := by
    have hlist : "http://localhost:5000".toList ++ "/api/snapshot/3fa9c0d1e2b4".toList =
        "http://localhost:5000".toList ++ url.toList := by
      rw [← String.toList_append, ← String.toList_append]
      exact congrArg String.toList ((congrArg Prod.fst hcamera).symm.trans hurl)
    exact (List.append_cancel_left hlist).symm
  rcases hpolls (fun _ => 0) (fun _ => (true, [0xFF, 0xD8, 7])) [] response (congrArg Prod.snd hcamera)
    (by rw [hcameras.1, hpath]; exact hresponse) ⟨[7], rfl⟩ (by decide) with
    ⟨a', hstep, hseen⟩
  exact ⟨a, url.toList, response, a', hrun, hdispatch, hfound, hresponse, hstep, hseen⟩

end Agent

end ManagedSecurity

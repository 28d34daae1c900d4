import ManagedSecurity.Platform
import ManagedSecurity.Lib.Dictionary
import ManagedSecurity.Lib.Transition
import Mathlib.Tactic

/-! # The commander (`CommanderBehavior`)

The commander keeps three dictionaries: the scouts that it hears of, the cameras of
the pool, and the leases by scout. The pool never shrinks; leases go only with the
scout that holds them, and a governance cycle hands out what is without a lease.

A time is a number of ticks. Between two steps a dictionary may be rearranged, since
the order of its enumeration is not specified.

* `assignAll_spec`: the loop over the pool, which scans the leases while it adds to
  them;
* `Inv`, `inv_run`: the dictionaries against each other;
* `assignment_invariant`: whole runs.
-/

namespace ManagedSecurity

open Transition

/-- `MachineVisionRoute`. -/
inductive MachineVisionRoute where
  | none
  | lightPlain
  | heavyPlain
  | heavySensitive
deriving DecidableEq, Repr

/-- `DiscoveryResult`. -/
structure DiscoveryResult where
  ipAddress : String
  port : ℤ
  path : Option String
  vendor : Option String
  model : Option String
  requiresAuth : Bool
  displayName : Option String
  isConfigured : Bool
  id : String
  isMvEnabled : Bool
  mvRoute : MachineVisionRoute
  snapshotUrlField : Option String
deriving DecidableEq, Repr

namespace DiscoveryResult

/-- `Url`. -/
def url (camera : DiscoveryResult) : String :=
  "rtsp://" ++ camera.ipAddress ++ ":" ++ toString camera.port ++ camera.path.getD "/"

/-- `SnapshotUrl`. -/
def snapshotUrl (camera : DiscoveryResult) : String :=
  camera.snapshotUrlField.getD ("/api/snapshot/" ++ camera.id)

/-- `cam.DisplayName = displayName; cam.IsConfigured = true`. -/
def configured (camera : DiscoveryResult) (displayName : String) : DiscoveryResult :=
  { camera with displayName := some displayName, isConfigured := true }

@[simp] theorem url_configured (camera : DiscoveryResult) (displayName : String) :
    (camera.configured displayName).url = camera.url := rfl

end DiscoveryResult

/-- What a heartbeat tells about a scout; the loads are bit patterns. -/
structure WorkerStatus where
  timestamp : ℤ
  cpuLoad : UInt32
  memoryLoad : UInt32
  platform : String
  isNativeMvAttached : Bool
  engineVersion : String
deriving DecidableEq, Repr

/-- `HeartbeatMessage`. -/
structure HeartbeatMessage where
  agentId : String
  status : WorkerStatus
deriving DecidableEq, Repr

/-- `TaskAssignment`. -/
structure TaskAssignment where
  cameraUrl : String
  id : String
  ipAddress : String
  port : ℤ
  path : Option String
  snapshotUrl : Option String
  leaseDuration : ℤ
  mvRoute : MachineVisionRoute
deriving DecidableEq, Repr

/-- `TaskLease`. -/
structure TaskLease where
  cameraUrl : String
  expiresAt : ℤ
deriving DecidableEq, Repr

/-- `TimeSpan.FromMinutes(5)`. -/
def leaseDuration : ℤ := 5 * 60 * 10000000

/-- The state of `CommanderBehavior`, and the timeout of its configuration. -/
structure CommanderBehavior where
  workerTimeout : ℤ
  activeWorkers : Dictionary String WorkerStatus
  unassignedCameras : Dictionary String DiscoveryResult
  workerTasks : Dictionary String (List TaskLease)

namespace CommanderBehavior

/-- A new commander. -/
def initial (workerTimeout : ℤ) : CommanderBehavior := ⟨workerTimeout, ∅, ∅, ∅⟩

/-- `ReceiveHeartbeatAsync`, as far as the commander's own state is concerned. -/
def receiveHeartbeat (s : CommanderBehavior) (hb : HeartbeatMessage) : CommanderBehavior :=
  { s with activeWorkers := s.activeWorkers.addOrUpdate hb.agentId hb.status fun _ => hb.status }

/-- `InitializeFromStoreAsync`, with the cameras that the store returns. -/
def initializeFromStore (s : CommanderBehavior) (cameras : List DiscoveryResult) :
    CommanderBehavior :=
  { s with
    unassignedCameras := cameras.foldl (fun pool cam => pool.tryAdd cam.url cam) s.unassignedCameras }

/-- `AddCameraToPool`; the flag says whether a save is started. -/
def addCameraToPool (s : CommanderBehavior) (camera : DiscoveryResult) : CommanderBehavior × Bool :=
  if camera.url ∈ s.unassignedCameras then
    (s, false)
  else
    ({ s with unassignedCameras := s.unassignedCameras.tryAdd camera.url camera }, true)

/-- The camera that `ConfigureCamera` means: by its URL, or the first one with that id. -/
def targetUrl (s : CommanderBehavior) (urlOrId : String) : Option String :=
  if urlOrId ∈ s.unassignedCameras then
    some urlOrId
  else
    (s.unassignedCameras.values.find? fun c => c.id = urlOrId ∨ c.url = urlOrId).map
      DiscoveryResult.url

/-- `ConfigureCamera`; the flag says whether a save is started. -/
def configureCamera (s : CommanderBehavior) (urlOrId displayName : String) :
    Except Exn (CommanderBehavior × Bool) :=
  match s.targetUrl urlOrId with
  | none => .ok (s, false)
  | some url =>
    match s.unassignedCameras.lookup url with
    | none => .error .keyNotFound
    | some cam =>
      .ok ({ s with
        unassignedCameras := s.unassignedCameras.set url (cam.configured displayName) }, true)

/-- The scouts that have not been heard of for too long. -/
def deadWorkers (s : CommanderBehavior) (now : ℤ) : List String :=
  (s.activeWorkers.entries.filter fun w => s.workerTimeout < now - w.2.timestamp).map Sigma.fst

/-- A missing scout goes, and its leases with it. -/
def salvage (s : CommanderBehavior) (id : String) : CommanderBehavior :=
  if id ∈ s.activeWorkers then
    { s with
      activeWorkers := s.activeWorkers.remove id
      workerTasks := s.workerTasks.remove id }
  else
    s

/-- `PerformGovernance`. -/
def performGovernance (s : CommanderBehavior) (now : ℤ) : CommanderBehavior :=
  (s.deadWorkers now).foldl salvage s

/-- All leases of a dictionary of task lists. -/
def leasesOf (tasks : Dictionary String (List TaskLease)) : List TaskLease := tasks.values.flatten

/-- `_workerTasks.Values.Any(tl => tl.Any(l => l.CameraUrl == url))`. -/
def Leased (tasks : Dictionary String (List TaskLease)) (url : String) : Prop :=
  ∃ lease ∈ leasesOf tasks, lease.cameraUrl = url

instance (tasks : Dictionary String (List TaskLease)) (url : String) : Decidable (Leased tasks url) :=
  inferInstanceAs (Decidable (∃ lease ∈ leasesOf tasks, lease.cameraUrl = url))

/-- The assignment of a camera. -/
def assignmentOf (camera : DiscoveryResult) : TaskAssignment where
  cameraUrl := camera.url
  id := camera.id
  ipAddress := camera.ipAddress
  port := camera.port
  path := camera.path
  snapshotUrl := some camera.snapshotUrl
  leaseDuration := leaseDuration
  mvRoute := camera.mvRoute

/-- One round of the loop in `AssignPendingTasks`. -/
def assign (targetWorker : String) (clock : String → ℤ)
    (state : Dictionary String (List TaskLease) × List (String × TaskAssignment))
    (camera : DiscoveryResult) :
    Dictionary String (List TaskLease) × List (String × TaskAssignment) :=
  if Leased state.1 camera.url then
    state
  else
    let assignment := assignmentOf camera
    let lease : TaskLease := ⟨camera.url, clock camera.url + assignment.leaseDuration⟩
    (state.1.addOrUpdate targetWorker [lease] (fun list => list ++ [lease]),
      state.2 ++ [(targetWorker, assignment)])

/-- `AssignPendingTasks`: the state, and the assignments that are announced. The clock
is read once for every camera that gets a lease. -/
def assignPendingTasks (s : CommanderBehavior) (clock : String → ℤ) :
    CommanderBehavior × List (String × TaskAssignment) :=
  match s.activeWorkers.keys with
  | [] => (s, [])
  | targetWorker :: _ =>
    let (tasks, announced) :=
      s.unassignedCameras.values.foldl (assign targetWorker clock) (s.workerTasks, [])
    ({ s with workerTasks := tasks }, announced)

/-- A governance cycle. -/
def governance (s : CommanderBehavior) (now : ℤ) (clock : String → ℤ) :
    CommanderBehavior × List (String × TaskAssignment) :=
  (s.performGovernance now).assignPendingTasks clock

/-- What can happen to the commander. -/
inductive Event where
  | heartbeat (hb : HeartbeatMessage)
  | load (cameras : List DiscoveryResult)
  | add (camera : DiscoveryResult)
  | configure (urlOrId displayName : String)
  | govern (now : ℤ) (clock : String → ℤ)
  | rearrange (workers : Dictionary String WorkerStatus)
      (cameras : Dictionary String DiscoveryResult) (tasks : Dictionary String (List TaskLease))

/-- One step. A call that throws leaves the state as it is. -/
def step (s : CommanderBehavior) : Event → Option CommanderBehavior
  | .heartbeat hb => some (s.receiveHeartbeat hb)
  | .load cameras => some (s.initializeFromStore cameras)
  | .add camera => some (s.addCameraToPool camera).1
  | .configure urlOrId displayName =>
    match s.configureCamera urlOrId displayName with
    | .ok result => some result.1
    | .error _ => some s
  | .govern now clock => some (s.governance now clock).1
  | .rearrange workers cameras tasks =>
    if s.activeWorkers.Rearrangement workers ∧ s.unassignedCameras.Rearrangement cameras ∧
        s.workerTasks.Rearrangement tasks then
      some { s with activeWorkers := workers, unassignedCameras := cameras, workerTasks := tasks }
    else
      none

/-- The leases of all scouts. -/
def leases (s : CommanderBehavior) : List TaskLease := leasesOf s.workerTasks

/-- In how many leases a camera occurs. -/
def leaseCount (s : CommanderBehavior) (url : String) : ℕ :=
  (s.leases.map TaskLease.cameraUrl).count url

/-- An active scout has the camera on its list. -/
def HeldByActive (s : CommanderBehavior) (url : String) : Prop :=
  ∃ id ∈ s.activeWorkers, ∃ tasks, s.workerTasks.lookup id = some tasks ∧
    ∃ lease ∈ tasks, lease.cameraUrl = url

/-! ## The loop over the pool -/

section

/-- No camera is leased twice. -/
def Exclusive (tasks : Dictionary String (List TaskLease)) : Prop :=
  ((leasesOf tasks).map TaskLease.cameraUrl).Nodup

/-- A scout gets one more lease. -/
theorem leasesOf_addOrUpdate (tasks : Dictionary String (List TaskLease)) (targetWorker : String)
    (lease : TaskLease) :
    (leasesOf (tasks.addOrUpdate targetWorker [lease] fun list => list ++ [lease])).Perm
      (lease :: leasesOf tasks) := by
  unfold leasesOf
  cases hlist : tasks.lookup targetWorker with
  | none =>
    rw [Dictionary.values_addOrUpdate_none hlist]
    exact List.Perm.refl _
  | some list =>
    rw [Dictionary.values_addOrUpdate_some hlist, List.flatten_cons]
    have hold : tasks.values.flatten.Perm (list ++ (tasks.remove targetWorker).values.flatten) := by
      have hperm := (Dictionary.values_perm hlist).flatten
      rwa [List.flatten_cons] at hperm
    have hmove : (list ++ [lease] ++ (tasks.remove targetWorker).values.flatten).Perm
        (lease :: (list ++ (tasks.remove targetWorker).values.flatten)) := by
      rw [List.append_assoc]
      exact List.perm_middle
    exact hmove.trans (hold.symm.cons lease)

/-- One round: a camera that is leased is left alone, any other is leased to the
target. -/
theorem assign_spec (targetWorker : String) (clock : String → ℤ)
    {tasks : Dictionary String (List TaskLease)} (announced : List (String × TaskAssignment))
    (camera : DiscoveryResult) (hexcl : Exclusive tasks) :
    Exclusive (assign targetWorker clock (tasks, announced) camera).1 ∧
      (∀ url, Leased (assign targetWorker clock (tasks, announced) camera).1 url ↔
        Leased tasks url ∨ camera.url = url) ∧
      ∀ id ∈ (assign targetWorker clock (tasks, announced) camera).1,
        id = targetWorker ∨ id ∈ tasks := by
  unfold assign
  split_ifs with hleased
  · refine ⟨hexcl, ?_, fun id hid => Or.inr hid⟩
    intro url
    constructor
    · exact Or.inl
    · rintro (h | rfl)
      · exact h
      · exact hleased
  -- a camera that nobody holds: its lease joins the target's list
  · have hperm := leasesOf_addOrUpdate tasks targetWorker
      ⟨camera.url, clock camera.url + (assignmentOf camera).leaseDuration⟩
    refine ⟨?_, ?_, ?_⟩
    · have hnew : camera.url ∉ (leasesOf tasks).map TaskLease.cameraUrl := by
        intro hmem
        rcases List.mem_map.mp hmem with ⟨lease, hlease, hurl⟩
        exact hleased ⟨lease, hlease, hurl⟩
      exact (hperm.map TaskLease.cameraUrl).nodup_iff.mpr (List.nodup_cons.mpr ⟨hnew, hexcl⟩)
    · intro url
      constructor
      · rintro ⟨lease, hlease, rfl⟩
        rcases List.mem_cons.mp (hperm.mem_iff.mp hlease) with rfl | hold
        · exact Or.inr rfl
        · exact Or.inl ⟨lease, hold, rfl⟩
      · rintro (⟨lease, hlease, rfl⟩ | rfl)
        · exact ⟨lease, hperm.mem_iff.mpr (List.mem_cons_of_mem _ hlease), rfl⟩
        · exact ⟨_, hperm.mem_iff.mpr List.mem_cons_self, rfl⟩
    · intro id hid
      exact Dictionary.mem_addOrUpdate.mp hid

/-- The loop: afterwards exactly the cameras that were leased or passed are leased,
still once each, and only the target may have become a holder. -/
theorem assignAll_spec (targetWorker : String) (clock : String → ℤ) :
    ∀ (cameras : List DiscoveryResult)
    (state : Dictionary String (List TaskLease) × List (String × TaskAssignment)),
    Exclusive state.1 →
    Exclusive (cameras.foldl (assign targetWorker clock) state).1 ∧
      (∀ url, Leased (cameras.foldl (assign targetWorker clock) state).1 url ↔
        Leased state.1 url ∨ ∃ camera ∈ cameras, camera.url = url) ∧
      ∀ id ∈ (cameras.foldl (assign targetWorker clock) state).1, id = targetWorker ∨ id ∈ state.1 := by
  intro cameras
  induction cameras with
  | nil =>
    intro state hexcl
    refine ⟨hexcl, ?_, fun id hid => Or.inr hid⟩
    intro url
    simp
  | cons camera cameras ih =>
    rintro ⟨tasks, announced⟩ hexcl
    rcases assign_spec targetWorker clock announced camera hexcl with ⟨hexcl₁, hleased₁, hholder₁⟩
    rcases ih _ hexcl₁ with ⟨hexcl₂, hleased₂, hholder₂⟩
    rw [List.foldl_cons]
    refine ⟨hexcl₂, ?_, ?_⟩
    · intro url
      rw [hleased₂, hleased₁, List.exists_mem_cons_iff, or_assoc]
    · intro id hid
      rcases hholder₂ id hid with htarget | hid
      · exact Or.inl htarget
      · exact hholder₁ id hid

end

/-! ## The invariant -/

/-- The dictionaries against each other. -/
structure Inv (s : CommanderBehavior) : Prop where
  keyed : ∀ url camera, s.unassignedCameras.lookup url = some camera → camera.url = url
  exclusive : Exclusive s.workerTasks
  pooled : ∀ url, Leased s.workerTasks url → url ∈ s.unassignedCameras
  held : ∀ id ∈ s.workerTasks, id ∈ s.activeWorkers

section

variable {s s' : CommanderBehavior}

theorem inv_initial (workerTimeout : ℤ) : (initial workerTimeout).Inv where
  keyed := by simp [initial]
  exclusive := List.nodup_nil
  pooled := by
    rintro url ⟨lease, hlease, -⟩
    cases hlease
  held := by simp [initial]

/-- A pooled camera is found under its URL. -/
theorem Inv.mem_pool (hs : s.Inv) {camera : DiscoveryResult}
    (h : camera ∈ s.unassignedCameras.values) : camera.url ∈ s.unassignedCameras := by
  rcases Dictionary.mem_values.mp h with ⟨url, hurl⟩
  rw [hs.keyed url camera hurl]
  exact Dictionary.mem_iff_lookup.mpr ⟨camera, hurl⟩

/-- Every URL of the pool is the URL of a pooled camera. -/
theorem Inv.exists_camera (hs : s.Inv) {url : String} (h : url ∈ s.unassignedCameras) :
    ∃ camera ∈ s.unassignedCameras.values, camera.url = url := by
  rcases Dictionary.mem_iff_lookup.mp h with ⟨camera, hcamera⟩
  exact ⟨camera, Dictionary.mem_values.mpr ⟨url, hcamera⟩, hs.keyed url camera hcamera⟩

/-- A pool that has grown, with the same scouts and leases. -/
theorem Inv.grow (hs : s.Inv) {pool : Dictionary String DiscoveryResult}
    (hkeyed : ∀ url camera, pool.lookup url = some camera → camera.url = url)
    (hgrow : ∀ url ∈ s.unassignedCameras, url ∈ pool) : Inv { s with unassignedCameras := pool } where
  keyed := hkeyed
  exclusive := hs.exclusive
  pooled := fun url h => hgrow url (hs.pooled url h)
  held := hs.held

theorem Inv.heartbeat (hs : s.Inv) (hb : HeartbeatMessage) : (s.receiveHeartbeat hb).Inv where
  keyed := hs.keyed
  exclusive := hs.exclusive
  pooled := hs.pooled
  held := fun id hid => Dictionary.mem_addOrUpdate.mpr (Or.inr (hs.held id hid))

/-- One camera more, under its own URL. -/
theorem Inv.tryAdd (hs : s.Inv) (camera : DiscoveryResult) :
    Inv { s with unassignedCameras := s.unassignedCameras.tryAdd camera.url camera } := by
  refine hs.grow ?_ fun url hurl => Dictionary.mem_tryAdd.mpr (Or.inr hurl)
  intro url found hfound
  rw [Dictionary.lookup_tryAdd] at hfound
  split_ifs at hfound with hsame
  · cases hold : s.unassignedCameras.lookup camera.url with
    | none =>
      rw [hold, Option.getD_none] at hfound
      rw [← Option.some.inj hfound, hsame]
    | some old =>
      rw [hold, Option.getD_some] at hfound
      rw [← Option.some.inj hfound, hsame]
      exact hs.keyed _ old hold
  · exact hs.keyed url found hfound

theorem Inv.load (hs : s.Inv) (cameras : List DiscoveryResult) :
    (s.initializeFromStore cameras).Inv := by
  unfold initializeFromStore
  induction cameras generalizing s with
  | nil => exact hs
  | cons camera cameras ih => exact ih (hs.tryAdd camera)

theorem Inv.add (hs : s.Inv) (camera : DiscoveryResult) : (s.addCameraToPool camera).1.Inv := by
  unfold addCameraToPool
  split_ifs
  · exact hs
  · exact hs.tryAdd camera

/-- The camera that `ConfigureCamera` means is there: the indexer does not throw. -/
theorem Inv.configureCamera_eq (hs : s.Inv) (urlOrId displayName : String) :
    s.configureCamera urlOrId displayName = .ok (s, false) ∨
      ∃ url camera, s.targetUrl urlOrId = some url ∧ s.unassignedCameras.lookup url = some camera ∧
        s.configureCamera urlOrId displayName = .ok ({ s with
          unassignedCameras := s.unassignedCameras.set url (camera.configured displayName) }, true) := by
  unfold configureCamera
  cases htarget : s.targetUrl urlOrId with
  | none => exact Or.inl rfl
  | some url =>
    right
    have hmem : url ∈ s.unassignedCameras := by
      unfold targetUrl at htarget
      split_ifs at htarget with h
      · rwa [← Option.some.inj htarget]
      · rcases Option.map_eq_some_iff.mp htarget with ⟨camera, hfind, rfl⟩
        exact hs.mem_pool (List.mem_of_find?_eq_some hfind)
    rcases Dictionary.mem_iff_lookup.mp hmem with ⟨camera, hcamera⟩
    refine ⟨url, camera, rfl, hcamera, ?_⟩
    simp only [hcamera]

theorem Inv.configure (hs : s.Inv) {urlOrId displayName : String} {result : CommanderBehavior × Bool}
    (h : s.configureCamera urlOrId displayName = .ok result) : result.1.Inv := by
  rcases hs.configureCamera_eq urlOrId displayName with hsame | ⟨url, camera, -, hcamera, hset⟩
  · obtain rfl := Except.ok.inj (hsame.symm.trans h)
    exact hs
  · obtain rfl := Except.ok.inj (hset.symm.trans h)
    refine hs.grow ?_ fun url' hurl' => Dictionary.mem_set.mpr (Or.inr hurl')
    intro url' found hfound
    by_cases hsame : url' = url
    · subst hsame
      rw [Dictionary.lookup_set_self] at hfound
      rw [← Option.some.inj hfound]
      exact hs.keyed url' camera hcamera
    · rw [Dictionary.lookup_set_ne hsame] at hfound
      exact hs.keyed url' found hfound

/-! ## Governance -/

/-- A scout that goes takes its leases along, and no other's. -/
theorem Inv.salvage (hs : s.Inv) (id : String) : (s.salvage id).Inv := by
  unfold CommanderBehavior.salvage
  split_ifs with hactive
  · have hfewer : (leasesOf (s.workerTasks.remove id)).Sublist (leasesOf s.workerTasks) :=
      Dictionary.values_remove_sublist.flatten
    refine ⟨hs.keyed, hs.exclusive.sublist (hfewer.map TaskLease.cameraUrl), ?_, ?_⟩
    · rintro url ⟨lease, hlease, hurl⟩
      exact hs.pooled url ⟨lease, hfewer.subset hlease, hurl⟩
    · intro holder hholder
      rcases Dictionary.mem_remove.mp hholder with ⟨hother, hmem⟩
      exact Dictionary.mem_remove.mpr ⟨hother, hs.held holder hmem⟩
  · exact hs

@[simp] theorem salvage_pool (s : CommanderBehavior) (id : String) :
    (s.salvage id).unassignedCameras = s.unassignedCameras := by
  unfold CommanderBehavior.salvage
  split_ifs <;> rfl

/-- The missing scouts go one after the other. -/
theorem foldl_salvage : ∀ (ids : List String) (s : CommanderBehavior), s.Inv →
    (ids.foldl CommanderBehavior.salvage s).Inv ∧
      (ids.foldl CommanderBehavior.salvage s).unassignedCameras = s.unassignedCameras := by
  intro ids
  induction ids with
  | nil =>
    intro s hs
    exact ⟨hs, rfl⟩
  | cons id ids ih =>
    intro s hs
    rcases ih _ (hs.salvage id) with ⟨hinv, hpool⟩
    exact ⟨hinv, hpool.trans (salvage_pool s id)⟩

/-- Those that have been silent for too long. -/
theorem mem_deadWorkers {now : ℤ} {worker : String} :
    worker ∈ s.deadWorkers now ↔ ∃ status, s.activeWorkers.lookup worker = some status ∧
      s.workerTimeout < now - status.timestamp := by
  simp only [deadWorkers, List.mem_map, List.mem_filter, decide_eq_true_eq]
  constructor
  · rintro ⟨⟨worker, status⟩, ⟨hentry, hsilent⟩, rfl⟩
    exact ⟨status, AList.mem_lookup_iff.mpr hentry, hsilent⟩
  · rintro ⟨status, hlookup, hsilent⟩
    exact ⟨⟨worker, status⟩, ⟨AList.mem_lookup_iff.mp hlookup, hsilent⟩, rfl⟩

/-- The scout goes, and no other. -/
theorem lookup_salvage {id worker : String} {status : WorkerStatus} :
    (s.salvage id).activeWorkers.lookup worker = some status ↔
      worker ≠ id ∧ s.activeWorkers.lookup worker = some status := by
  unfold CommanderBehavior.salvage
  split_ifs with hactive
  · exact Dictionary.lookup_remove
  -- nothing to remove: whoever is found is another scout
  · constructor
    · intro hlookup
      refine ⟨?_, hlookup⟩
      rintro rfl
      exact hactive (Dictionary.mem_iff_lookup.mpr ⟨status, hlookup⟩)
    · exact And.right

theorem lookup_foldl_salvage {worker : String} {status : WorkerStatus} :
    ∀ (ids : List String) (s : CommanderBehavior),
      (ids.foldl CommanderBehavior.salvage s).activeWorkers.lookup worker = some status ↔
        worker ∉ ids ∧ s.activeWorkers.lookup worker = some status := by
  intro ids
  induction ids with
  | nil =>
    intro s
    simp
  | cons id ids ih =>
    intro s
    rw [List.foldl_cons, ih, lookup_salvage, List.mem_cons, not_or]
    tauto

/-- To assign tasks leaves the scouts and their timeout alone. -/
theorem assignPendingTasks_workers (s : CommanderBehavior) (clock : String → ℤ) :
    (s.assignPendingTasks clock).1.activeWorkers = s.activeWorkers ∧
      (s.assignPendingTasks clock).1.workerTimeout = s.workerTimeout := by
  unfold CommanderBehavior.assignPendingTasks
  split
  · exact ⟨rfl, rfl⟩
  · exact ⟨rfl, rfl⟩

/-- A governance cycle keeps the scouts that were heard of in time, and nobody else. -/
theorem lookup_governance {now : ℤ} {clock : String → ℤ} {worker : String} {status : WorkerStatus} :
    (s.governance now clock).1.activeWorkers.lookup worker = some status ↔
      s.activeWorkers.lookup worker = some status ∧ now - status.timestamp ≤ s.workerTimeout := by
  unfold CommanderBehavior.governance CommanderBehavior.performGovernance
  rw [(assignPendingTasks_workers _ clock).1, lookup_foldl_salvage, mem_deadWorkers]
  constructor
  · rintro ⟨hheard, hlookup⟩
    refine ⟨hlookup, ?_⟩
    by_contra hsilent
    exact hheard ⟨status, hlookup, by omega⟩
  · rintro ⟨hlookup, hheard⟩
    refine ⟨?_, hlookup⟩
    rintro ⟨status', hlookup', hsilent⟩
    obtain rfl := Option.some.inj (hlookup.symm.trans hlookup')
    omega

/-- What is true behind `AssignPendingTasks`. -/
theorem Inv.assignPendingTasks (hs : s.Inv) (clock : String → ℤ) :
    (s.assignPendingTasks clock).1.Inv ∧
      (s.assignPendingTasks clock).1.unassignedCameras = s.unassignedCameras ∧
      ((∃ id, id ∈ (s.assignPendingTasks clock).1.activeWorkers) →
        ∀ url ∈ s.unassignedCameras, Leased (s.assignPendingTasks clock).1.workerTasks url) := by
  unfold CommanderBehavior.assignPendingTasks
  cases hkeys : s.activeWorkers.keys with
  -- no active worker: the cycle assigns nothing
  | nil =>
    refine ⟨hs, rfl, ?_⟩
    rintro ⟨id, hid⟩
    rw [AList.mem_keys, hkeys] at hid
    cases hid
  | cons targetWorker others =>
    -- the loop gives every camera to the first active worker
    have htarget : targetWorker ∈ s.activeWorkers := by
      rw [AList.mem_keys, hkeys]
      exact List.mem_cons_self
    rcases assignAll_spec targetWorker clock s.unassignedCameras.values (s.workerTasks, [])
      hs.exclusive with ⟨hexcl, hleased, hholder⟩
    refine ⟨⟨hs.keyed, hexcl, ?_, ?_⟩, rfl, ?_⟩
    · intro url hurl
      rcases (hleased url).mp hurl with hold | ⟨camera, hcamera, rfl⟩
      · exact hs.pooled url hold
      · exact hs.mem_pool hcamera
    · intro id hid
      rcases hholder id hid with rfl | hold
      · exact htarget
      · exact hs.held id hold
    · intro _ url hurl
      exact (hleased url).mpr (Or.inr (hs.exists_camera hurl))

/-- A governance cycle: no pooled camera is without a lease while a scout is left. -/
theorem Inv.governance (hs : s.Inv) (now : ℤ) (clock : String → ℤ) :
    (s.governance now clock).1.Inv ∧
      (s.governance now clock).1.unassignedCameras = s.unassignedCameras ∧
      ((∃ id, id ∈ (s.governance now clock).1.activeWorkers) →
        ∀ url ∈ s.unassignedCameras, Leased (s.governance now clock).1.workerTasks url) := by
  rcases foldl_salvage (s.deadWorkers now) s hs with ⟨hinv, hpool⟩
  rcases hinv.assignPendingTasks clock with ⟨hinv', hpool', hleased⟩
  refine ⟨hinv', hpool'.trans hpool, ?_⟩
  intro hactive url hurl
  apply hleased hactive url
  rwa [hpool]

/-! ## Runs -/

/-- Another order of enumeration. -/
theorem Inv.rearrange (hs : s.Inv) {workers : Dictionary String WorkerStatus}
    {cameras : Dictionary String DiscoveryResult} {tasks : Dictionary String (List TaskLease)}
    (hworkers : s.activeWorkers.Rearrangement workers)
    (hcameras : s.unassignedCameras.Rearrangement cameras)
    (htasks : s.workerTasks.Rearrangement tasks) :
    Inv { s with activeWorkers := workers, unassignedCameras := cameras, workerTasks := tasks } := by
  have hleases : (leasesOf s.workerTasks).Perm (leasesOf tasks) := htasks.values.flatten
  refine ⟨?_, ?_, ?_, ?_⟩
  · intro url camera hcamera
    exact hs.keyed url camera ((hcameras.lookup url).trans hcamera)
  · exact (hleases.map TaskLease.cameraUrl).nodup_iff.mp hs.exclusive
  · rintro url ⟨lease, hlease, hurl⟩
    exact (hcameras.mem url).mp (hs.pooled url ⟨lease, hleases.mem_iff.mpr hlease, hurl⟩)
  · intro id hid
    exact (hworkers.mem id).mp (hs.held id ((htasks.mem id).mpr hid))

/-- Every step keeps the invariant. -/
theorem inv_step {event : Event} (hs : s.Inv) (h : step s event = some s') : s'.Inv := by
  cases event with
  | heartbeat hb =>
    obtain rfl := Option.some.inj h
    exact hs.heartbeat hb
  | load cameras =>
    obtain rfl := Option.some.inj h
    exact hs.load cameras
  | add camera =>
    obtain rfl := Option.some.inj h
    exact hs.add camera
  -- ConfigureCamera may throw, which leaves the state as it was
  | configure urlOrId displayName =>
    unfold step at h
    cases hresult : s.configureCamera urlOrId displayName with
    | error e =>
      simp only [hresult, Option.some.injEq] at h
      rwa [← h]
    | ok result =>
      simp only [hresult, Option.some.injEq] at h
      rw [← h]
      exact hs.configure hresult
  | govern now clock =>
    obtain rfl := Option.some.inj h
    exact (hs.governance now clock).1
  | rearrange workers cameras tasks =>
    simp only [step] at h
    split_ifs at h with hsame
    obtain rfl := Option.some.inj h
    exact hs.rearrange hsame.1 hsame.2.1 hsame.2.2

theorem workerTimeout_foldl_salvage : ∀ (ids : List String) (s : CommanderBehavior),
    (ids.foldl CommanderBehavior.salvage s).workerTimeout = s.workerTimeout := by
  intro ids
  induction ids with
  | nil => exact fun s => rfl
  | cons id ids ih =>
    intro s
    rw [List.foldl_cons, ih]
    unfold CommanderBehavior.salvage
    split_ifs <;> rfl

/-- Nothing changes the timeout. -/
theorem workerTimeout_step {event : Event} (h : step s event = some s') :
    s'.workerTimeout = s.workerTimeout := by
  cases event with
  | heartbeat hb =>
    obtain rfl := Option.some.inj h
    rfl
  | load cameras =>
    obtain rfl := Option.some.inj h
    rfl
  | add camera =>
    obtain rfl := Option.some.inj h
    unfold addCameraToPool
    split_ifs <;> rfl
  | configure urlOrId displayName =>
    simp only [step, CommanderBehavior.configureCamera] at h
    grind
  | govern now clock =>
    obtain rfl := Option.some.inj h
    exact (assignPendingTasks_workers _ clock).2.trans (workerTimeout_foldl_salvage _ s)
  | rearrange workers cameras tasks =>
    simp only [step] at h
    split_ifs at h
    obtain rfl := Option.some.inj h
    rfl

/-- Whole runs. -/
theorem inv_run {workerTimeout : ℤ} {events : List Event}
    (hrun : run step (initial workerTimeout) events = some s) : s.Inv :=
  run_invariant (fun _ _ _ hs h => inv_step hs h) events _ _ (inv_initial workerTimeout) hrun

theorem workerTimeout_run {workerTimeout : ℤ} {events : List Event}
    (hrun : run step (initial workerTimeout) events = some s) : s.workerTimeout = workerTimeout :=
  run_invariant (I := fun s => s.workerTimeout = workerTimeout)
    (fun _ _ _ hs h => (workerTimeout_step h).trans hs) events _ _ rfl hrun

/-- The lease of a camera that is leased is the only one, and an active scout holds it. -/
theorem Inv.leased_once (hs : s.Inv) {url : String} (h : Leased s.workerTasks url) :
    s.leaseCount url = 1 ∧ s.HeldByActive url := by
  rcases h with ⟨lease, hlease, rfl⟩
  constructor
  · exact List.count_eq_one_of_mem hs.exclusive (List.mem_map.mpr ⟨lease, hlease, rfl⟩)
  · rcases List.mem_flatten.mp hlease with ⟨tasks, htasks, hmem⟩
    rcases Dictionary.mem_values.mp htasks with ⟨id, hid⟩
    exact ⟨id, hs.held id (Dictionary.mem_iff_lookup.mpr ⟨tasks, hid⟩), tasks, hid, lease, hmem, rfl⟩

end

end CommanderBehavior

open CommanderBehavior in
/-- In every reachable state no camera is leased twice and only active scouts have
task lists. A governance cycle keeps exactly the scouts that were heard of within the
timeout, each with its status; behind one that leaves an active scout, the pool is
what it was, and every pooled camera, and so every camera whose scout went missing,
has exactly one lease, which an active scout holds. -/
theorem assignment_invariant (workerTimeout : ℤ) (events : List Event) (s : CommanderBehavior)
    (hrun : run step (initial workerTimeout) events = some s) :
    (∀ url, s.leaseCount url ≤ 1) ∧ (∀ id ∈ s.workerTasks, id ∈ s.activeWorkers) ∧
      ∀ now clock s', step s (.govern now clock) = some s' →
        (∀ id status, s'.activeWorkers.lookup id = some status ↔
          s.activeWorkers.lookup id = some status ∧ now - status.timestamp ≤ workerTimeout) ∧
        ((∃ id, id ∈ s'.activeWorkers) →
          s'.unassignedCameras = s.unassignedCameras ∧
          (∀ camera ∈ s'.unassignedCameras.values,
            s'.leaseCount camera.url = 1 ∧ s'.HeldByActive camera.url) ∧
          ∀ lease ∈ s.leases,
            s'.leaseCount lease.cameraUrl = 1 ∧ s'.HeldByActive lease.cameraUrl) := by
  have hs := inv_run hrun
  have htimeout : s.workerTimeout = workerTimeout := workerTimeout_run hrun
  refine ⟨List.nodup_iff_count_le_one.mp hs.exclusive, hs.held, ?_⟩
  intro now clock s' hstep
  obtain rfl := Option.some.inj hstep
  refine ⟨?_, ?_⟩
  · intro id status
    rw [← htimeout]
    exact lookup_governance
  intro hactive
  rcases hs.governance now clock with ⟨hs', hpool, hleased⟩
  have hall := hleased hactive
  refine ⟨hpool, ?_, ?_⟩
  · intro camera hcamera
    refine hs'.leased_once (hall camera.url ?_)
    rw [← hpool]
    exact hs'.mem_pool hcamera
  · intro lease hlease
    exact hs'.leased_once (hall lease.cameraUrl (hs.pooled _ ⟨lease, hlease, rfl⟩))

namespace CommanderBehavior

/-- A camera of the subnet. -/
def sampleCamera (host : String) : DiscoveryResult where
  ipAddress := host
  port := 554
  path := some "/live"
  vendor := none
  model := none
  requiresAuth := false
  displayName := none
  isConfigured := false
  id := host
  isMvEnabled := true
  mvRoute := .lightPlain
  snapshotUrlField := none

/-- A heartbeat of a scout. -/
def sampleHeartbeat (agentId : String) (timestamp : ℤ) : HeartbeatMessage :=
  ⟨agentId, ⟨timestamp, 0, 0, "TestOS", false, ""⟩⟩

/-- Two scouts, one of which holds the camera and goes missing. -/
def missingScout : List Event :=
  [.heartbeat (sampleHeartbeat "scout-1" 0), .heartbeat (sampleHeartbeat "scout-2" 0),
    .add (sampleCamera "10.0.0.7"), .govern 10 (fun _ => 11),
    .heartbeat (sampleHeartbeat "scout-1" 90)]

/-- The state that this leads to. -/
def strandedCamera : CommanderBehavior := (run step (initial 45) missingScout).getD (initial 45)

end CommanderBehavior

open CommanderBehavior in
/-- The scout that was silent for too long goes, the other one stays, and gets the camera. -/
theorem assignment_invariant_salvaged :
    run step (initial 45) missingScout = some strandedCamera ∧
      strandedCamera.HeldByActive "rtsp://10.0.0.7:554/live" ∧
      ∃ s', step strandedCamera (.govern 100 fun _ => 101) = some s' ∧
        "scout-1" ∈ s'.activeWorkers ∧ "scout-2" ∉ s'.activeWorkers ∧
        s'.leaseCount "rtsp://10.0.0.7:554/live" = 1 ∧
        s'.HeldByActive "rtsp://10.0.0.7:554/live" := by
  have hrun : run step (initial 45) missingScout = some strandedCamera := rfl
  have hleased : Leased strandedCamera.workerTasks "rtsp://10.0.0.7:554/live" := by decide
  have hheard : strandedCamera.activeWorkers.lookup "scout-1" =
      some (sampleHeartbeat "scout-1" 90).status := by decide
  have hsilent : strandedCamera.activeWorkers.lookup "scout-2" =
      some (sampleHeartbeat "scout-2" 0).status := by decide
  rcases assignment_invariant 45 missingScout strandedCamera hrun with ⟨-, -, hgovern⟩
  rcases hgovern 100 (fun _ => 101) _ rfl with ⟨hworkers, hall⟩
  have hactive := Dictionary.mem_iff_lookup.mpr
    ⟨_, (hworkers "scout-1" _).mpr ⟨hheard, by decide⟩⟩
  refine ⟨hrun, ((inv_run hrun).leased_once hleased).2, _, rfl, hactive, ?_, ?_⟩
  · intro hmem
    rcases Dictionary.mem_iff_lookup.mp hmem with ⟨status, hstatus⟩
    rcases (hworkers "scout-2" status).mp hstatus with ⟨hlookup, hintime⟩
    obtain rfl := Option.some.inj (hsilent.symm.trans hlookup)
    exact absurd hintime (by decide)
  · rcases hleased with ⟨lease, hlease, hurl⟩
    rcases hall ⟨_, hactive⟩ with ⟨-, -, hheld⟩
    rw [← hurl]
    exact hheld lease hlease

end ManagedSecurity

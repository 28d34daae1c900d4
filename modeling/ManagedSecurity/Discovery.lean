import Mathlib.Data.List.Infix
import ManagedSecurity.Commander
import ManagedSecurity.Lib.Throttle

/-! # Scanning a subnet (`RtspScanner`, `PerformDiscoveryScanAsync`)

The scanner starts a task for every host; twenty of them go on at a time. A task tries the ports
one after the other, and on an open one the paths. The commander scans its subnet no more often
than every two minutes. It looks up the maker of each camera among the devices that have answered
a probe, and adds it to the pool; where the scan or the probe throws, it adds nothing.

* `eval_scanHost`: what a task yields;
* `scan_any_schedule`: whatever the order of steps, the scan ends with the same cameras;
* `url_inj`: different hosts have different URLs;
* `discovery_fills_pool`: the pool behind a scan, behind one that fails, and where none is due.
-/

namespace ManagedSecurity

open Transition

/-- `RtspWellKnown.DefaultPorts`. -/
def defaultPorts : List ℕ := [554, 8554, 8888, 5554, 7070, 10554, 37777, 8000]

/-- `RtspWellKnown.CommonPaths`. -/
def commonPaths : List String :=
  ["/stream1", "/stream2", "/live/ch0", "/Streaming/Channels/101", "/Streaming/Channels/102",
    "/Streaming/Channels/1", "/cam/realmonitor?channel=1&subtype=0",
    "/cam/realmonitor?channel=1&subtype=1", "/axis-media/media.amp",
    "/axis-media/media.amp?streamprofile=Quality", "/live", "/", "/video", "/h264", "/live.sdp",
    "/onvif/device_service", "/media/video1", "/onvif-media/media.amp"]

/-- The hosts of a network: which ports can be connected to in time, and what comes back from a
path, if nothing goes wrong. -/
structure Network where
  accepts : String → ℕ → Bool
  reply : String → ℕ → String → Option (List Char)

/-- `CheckPathAsync`: whether there is a stream, and whether it wants a password. -/
def checkPath (net : Network) (ip : String) (port : ℕ) (path : String) : Bool × Bool :=
  match net.reply ip port path with
  | none => (false, false)
  | some response =>
    if "RTSP/1.0 200 OK".toList <:+: response then (true, false)
    else if "RTSP/1.0 401 Unauthorized".toList <:+: response then (true, true)
    else (false, false)

/-- `new DiscoveryResult(ip, port, path)`; `generateId` is the hash of the URL. -/
def newDiscoveryResult (generateId : String → String) (ip : String) (port : ℕ) (path : String) :
    DiscoveryResult where
  ipAddress := ip
  port := port
  path := some path
  vendor := none
  model := none
  requiresAuth := false
  displayName := none
  isConfigured := false
  id := generateId ("rtsp://" ++ ip ++ ":" ++ toString (port : ℤ) ++ path)
  isMvEnabled := true
  mvRoute := .lightPlain
  snapshotUrlField := none

/-- `ProbeRtspPortAsync`. -/
def probeRtspPort (net : Network) (generateId : String → String) (ip : String) (port : ℕ) :
    Option DiscoveryResult :=
  commonPaths.findSome? fun path =>
    let status := checkPath net ip port path
    if status.1 then
      some { newDiscoveryResult generateId ip port path with requiresAuth := status.2 }
    else
      none

/-- A call of `ScanHostAsync`, with the ports that are left. -/
structure HostScan where
  ip : String
  ports : List ℕ
deriving DecidableEq

/-- One round of its loop. -/
def HostScan.advance (net : Network) (generateId : String → String) (scan : HostScan) :
    HostScan ⊕ Option DiscoveryResult :=
  match scan.ports with
  | [] => .inr none
  | port :: ports =>
    if net.accepts scan.ip port then
      match probeRtspPort net generateId scan.ip port with
      | some result => .inr (some result)
      | none => .inl ⟨scan.ip, ports⟩
    else
      .inl ⟨scan.ip, ports⟩

/-- Every round has one port less. -/
theorem HostScan.advance_ports {net : Network} {generateId : String → String} {scan scan' : HostScan}
    (h : scan.advance net generateId = .inl scan') :
    ∃ port, scan.ports = port :: scan'.ports ∧ scan'.ip = scan.ip := by
  unfold HostScan.advance at h
  split at h
  · cases h
  · rename_i port ports hports
    split_ifs at h
    · split at h
      · cases h
      · obtain rfl := Sum.inl.inj h
        exact ⟨port, hports, rfl⟩
    · obtain rfl := Sum.inl.inj h
      exact ⟨port, hports, rfl⟩

/-- `ScanHostAsync`. -/
def scanHost (net : Network) (generateId : String → String) :
    Throttle.Body HostScan (Option DiscoveryResult) where
  advance := HostScan.advance net generateId
  left scan := scan.ports.length
  decreasing scan scan' h := by
    rcases HostScan.advance_ports h with ⟨port, hports, -⟩
    rw [hports]
    exact Nat.lt_succ_self _

/-- The address of a host. -/
def hostAddress (subnetPrefix : String) (i : ℕ) : String := subnetPrefix ++ "." ++ toString i

/-- The hosts of a scan. -/
def hosts (startHost endHost : ℕ) : List ℕ := List.range' startHost (endHost + 1 - startHost)

/-- `ScanSubnetAsync`, where its tasks are there. -/
def scanSubnet (subnetPrefix : String) (startHost endHost : ℕ) :
    Throttle.State HostScan (Option DiscoveryResult) :=
  Throttle.initial 20 ((hosts startHost endHost).map fun i => ⟨hostAddress subnetPrefix i, defaultPorts⟩)

/-! ## The results -/

/-- The camera of a host: on the first open port with a path that answers. -/
def cameraAt (net : Network) (generateId : String → String) (ip : String) : Option DiscoveryResult :=
  defaultPorts.findSome? fun port =>
    if net.accepts ip port then probeRtspPort net generateId ip port else none

/-- The cameras of a subnet. -/
def camerasOf (net : Network) (generateId : String → String) (subnetPrefix : String)
    (startHost endHost : ℕ) : List DiscoveryResult :=
  (hosts startHost endHost).filterMap fun i => cameraAt net generateId (hostAddress subnetPrefix i)

section

variable {net : Network} {generateId : String → String}

/-- What a task yields. -/
theorem eval_scanHost (ip : String) (ports : List ℕ) :
    Throttle.eval (scanHost net generateId) ⟨ip, ports⟩ =
      ports.findSome? fun port =>
        if net.accepts ip port then probeRtspPort net generateId ip port else none := by
  induction ports with
  | nil =>
    have hadvance : (scanHost net generateId).advance ⟨ip, []⟩ = .inr none := rfl
    exact Throttle.eval_inr hadvance
  | cons port ports ih =>
    rw [List.findSome?_cons]
    split_ifs with hopen
    · cases hprobe : probeRtspPort net generateId ip port with
      | some result =>
        have hadvance : (scanHost net generateId).advance ⟨ip, port :: ports⟩ = .inr (some result) := by
          simp only [scanHost, HostScan.advance, if_pos hopen, hprobe]
        exact Throttle.eval_inr hadvance
      | none =>
        have hadvance : (scanHost net generateId).advance ⟨ip, port :: ports⟩ = .inl ⟨ip, ports⟩ := by
          simp only [scanHost, HostScan.advance, if_pos hopen, hprobe]
        rw [Throttle.eval_inl hadvance]
        exact ih
    · have hadvance : (scanHost net generateId).advance ⟨ip, port :: ports⟩ = .inl ⟨ip, ports⟩ := by
        simp only [scanHost, HostScan.advance, if_neg hopen]
      rw [Throttle.eval_inl hadvance]
      exact ih

/-- What the tasks of a scan yield. -/
theorem eval_scanSubnet (subnetPrefix : String) (startHost endHost : ℕ) :
    (((hosts startHost endHost).map fun i => (⟨hostAddress subnetPrefix i, defaultPorts⟩ : HostScan)).map
      (Throttle.eval (scanHost net generateId))).filterMap id =
        camerasOf net generateId subnetPrefix startHost endHost := by
  rw [List.map_map, List.filterMap_map]
  unfold camerasOf cameraAt
  congr 1
  funext i
  exact eval_scanHost _ _

/-- When no task can go on any more, they have yielded it. -/
theorem results_scanSubnet {subnetPrefix : String} {startHost endHost : ℕ} {steps : List ℕ}
    {s : Throttle.State HostScan (Option DiscoveryResult)}
    (hrun : run (Throttle.step (scanHost net generateId)) (scanSubnet subnetPrefix startHost endHost)
      steps = some s) (hstuck : ∀ k, Throttle.step (scanHost net generateId) s k = none) :
    s.results.filterMap id = camerasOf net generateId subnetPrefix startHost endHost := by
  rw [Throttle.results_of_stuck (Throttle.inv_run hrun) (by decide) hstuck]
  exact eval_scanSubnet subnetPrefix startHost endHost

/-- What `ScanSubnetAsync` may return: all tasks have ended, and the bag lists their results in some
order. -/
def ScanReturns (net : Network) (generateId : String → String) (subnetPrefix : String)
    (startHost endHost : ℕ) (results : List DiscoveryResult) : Prop :=
  ∃ steps s,
    run (Throttle.step (scanHost net generateId)) (scanSubnet subnetPrefix startHost endHost) steps =
      some s ∧
    (∀ k, Throttle.step (scanHost net generateId) s k = none) ∧ results.Perm (s.results.filterMap id)

/-- These are the cameras of the subnet, in any order. -/
theorem scanReturns_iff {subnetPrefix : String} {startHost endHost : ℕ}
    {results : List DiscoveryResult} :
    ScanReturns net generateId subnetPrefix startHost endHost results ↔
      results.Perm (camerasOf net generateId subnetPrefix startHost endHost) := by
  constructor
  · rintro ⟨steps, s, hrun, hstuck, hperm⟩
    rwa [results_scanSubnet hrun hstuck] at hperm
  · intro hperm
    rcases Throttle.exists_stuck (scanHost net generateId) (scanSubnet subnetPrefix startHost endHost)
      with ⟨steps, s, hrun, hstuck⟩
    refine ⟨steps, s, hrun, hstuck, ?_⟩
    rwa [results_scanSubnet hrun hstuck]

end

/-! ## The devices -/

/-- `OnvifDevice`. -/
structure OnvifDevice where
  ipAddress : String
  scopes : List String
  xAddrs : List String

/-- What is behind the last slash. -/
def lastPart (scope : String) : String := String.ofList ((scope.toList.splitOn '/').getLast?.getD [])

/-- `Model`. -/
def OnvifDevice.model (device : OnvifDevice) : Option String :=
  (device.scopes.find? fun s => decide ("/hardware/".toList <:+: s.toList)).map lastPart

/-- `Name`. -/
def OnvifDevice.name (device : OnvifDevice) : Option String :=
  (device.scopes.find? fun s => decide ("/name/".toList <:+: s.toList)).map fun s =>
    String.ofList ((lastPart s).toList.map fun ch => if ch = '_' then ' ' else ch)

/-- The devices after one more has answered. -/
def addDevice (devices : List OnvifDevice) (device : OnvifDevice) : List OnvifDevice :=
  if devices.any fun d => decide (d.ipAddress = device.ipAddress) then devices else devices ++ [device]

/-- `ProbeAsync`, with the devices that answer in time. -/
def probe (answers : List OnvifDevice) : List OnvifDevice := answers.foldl addDevice []

/-- A result with what is known of its device. -/
def merged (onvifDevices : List OnvifDevice) (r : DiscoveryResult) : DiscoveryResult :=
  match onvifDevices.find? fun o => decide (o.ipAddress = r.ipAddress) with
  | none => r
  | some device => { r with vendor := device.name, model := device.model }

/-- The loop of `PerformDiscoveryScanAsync` over the results. -/
def CommanderBehavior.addResults (s : CommanderBehavior) (results : List DiscoveryResult)
    (onvifDevices : List OnvifDevice) : CommanderBehavior :=
  results.foldl (fun s r => (s.addCameraToPool (merged onvifDevices r)).1) s

/-- `_scanInterval`. -/
def scanInterval : ℤ := 2 * 60 * 10000000

/-- A `CommanderBehavior`, with what it knows of its scans. -/
structure ScanningCommander extends CommanderBehavior where
  discoverySubnet : Option String
  lastScanTime : ℤ

namespace ScanningCommander

/-- A new commander; `DateTime.MinValue` is zero. -/
def initial (workerTimeout : ℤ) : ScanningCommander := ⟨.initial workerTimeout, none, 0⟩

/-- `EnableAutoDiscovery`. -/
def enableAutoDiscovery (s : ScanningCommander) (subnet : String) : ScanningCommander :=
  { s with discoverySubnet := some subnet }

/-- `PerformDiscoveryScanAsync`. The clock is read twice. `scanSubnetAsync` and `probeAsync` have no
value where they throw, and `meanwhile` is what other calls do while they are awaited. -/
def performDiscoveryScan (s : ScanningCommander) (now now' : ℤ)
    (scanSubnetAsync : String → Option (List DiscoveryResult)) (probeAsync : Option (List OnvifDevice))
    (meanwhile : ScanningCommander → ScanningCommander) : ScanningCommander :=
  match s.discoverySubnet with
  | none => s
  | some subnet =>
    if subnet = "" then s
    else if now - s.lastScanTime < scanInterval then s
    else
      let s := meanwhile { s with lastScanTime := now' }
      match scanSubnetAsync subnet, probeAsync with
      | some results, some onvifDevices =>
        { s with toCommanderBehavior := s.addResults results onvifDevices }
      -- either one that throws ends up in the handler, whatever the other has found
      | _, _ => s

/-- `TriggerManualScan`. -/
def triggerManualScan (s : ScanningCommander) (now now' : ℤ)
    (scanSubnetAsync : String → Option (List DiscoveryResult)) (probeAsync : Option (List OnvifDevice))
    (meanwhile : ScanningCommander → ScanningCommander) : ScanningCommander :=
  performDiscoveryScan { s with lastScanTime := 0 } now now' scanSubnetAsync probeAsync meanwhile

/-- A scan of this subnet is due. -/
def ScanDue (s : ScanningCommander) (now : ℤ) (subnet : String) : Prop :=
  s.discoverySubnet = some subnet ∧ subnet ≠ "" ∧ scanInterval ≤ now - s.lastScanTime

section

variable {s : ScanningCommander} {now now' : ℤ}
  {scanSubnetAsync : String → Option (List DiscoveryResult)} {probeAsync : Option (List OnvifDevice)}
  {meanwhile : ScanningCommander → ScanningCommander}

theorem performDiscoveryScan_not_due (h : ∀ subnet, ¬ s.ScanDue now subnet) :
    s.performDiscoveryScan now now' scanSubnetAsync probeAsync meanwhile = s := by
  unfold performDiscoveryScan
  cases hsubnet : s.discoverySubnet with
  | none => rfl
  | some subnet =>
    dsimp only
    split_ifs with hempty hearly
    · rfl
    · rfl
    · exact absurd ⟨hsubnet, hempty, not_lt.mp hearly⟩ (h subnet)

theorem performDiscoveryScan_due {subnet : String} (h : s.ScanDue now subnet) :
    s.performDiscoveryScan now now' scanSubnetAsync probeAsync meanwhile =
      match scanSubnetAsync subnet, probeAsync with
      | some results, some onvifDevices =>
        { meanwhile { s with lastScanTime := now' } with
          toCommanderBehavior :=
            (meanwhile { s with lastScanTime := now' }).addResults results onvifDevices }
      | _, _ => meanwhile { s with lastScanTime := now' } := by
  rcases h with ⟨hsubnet, hempty, hlate⟩
  unfold performDiscoveryScan
  rw [hsubnet]
  dsimp only
  rw [if_neg hempty, if_neg (not_lt.mpr hlate)]

/-- A scan that is triggered by hand is due, whenever the last one was. -/
theorem scanDue_manual {subnet : String} (hsubnet : s.discoverySubnet = some subnet)
    (hempty : subnet ≠ "") (hnow : scanInterval ≤ now) :
    ScanDue { s with lastScanTime := 0 } now subnet :=
  ⟨hsubnet, hempty, by simpa using hnow⟩

end

end ScanningCommander

/-- A device that has answered more than once counts as it was the first time. -/
theorem find?_probe (answers : List OnvifDevice) (ip : String) :
    ((probe answers).find? fun o => decide (o.ipAddress = ip)) =
      answers.find? fun o => decide (o.ipAddress = ip) := by
  have hfold : ∀ devices, ((answers.foldl addDevice devices).find? fun o => decide (o.ipAddress = ip)) =
      (devices ++ answers).find? fun o => decide (o.ipAddress = ip) := by
    induction answers with
    | nil =>
      intro devices
      rw [List.foldl_nil, List.append_nil]
    | cons device answers ih =>
      intro devices
      rw [List.foldl_cons, ih]
      unfold addDevice
      split_ifs with hknown
      -- the first answer of that address is in front
      · rcases List.any_eq_true.mp hknown with ⟨d, hd, hsame⟩
        rw [List.find?_append, List.find?_append, List.find?_cons]
        by_cases hip : device.ipAddress = ip
        · have hsome : (devices.find? fun o => decide (o.ipAddress = ip)).isSome = true :=
            List.find?_isSome.mpr ⟨d, hd, decide_eq_true ((of_decide_eq_true hsame).trans hip)⟩
          rcases Option.isSome_iff_exists.mp hsome with ⟨first, hfirst⟩
          rw [hfirst, Option.some_or, Option.some_or]
        · rw [decide_eq_false hip]
      · rw [List.append_assoc, List.singleton_append]
  exact hfold []

theorem merged_probe (answers : List OnvifDevice) (r : DiscoveryResult) :
    merged (probe answers) r = merged answers r := by
  unfold merged
  rw [find?_probe]

/-! ## Addresses -/

section

variable {net : Network} {generateId : String → String}

/-- A camera that has been found, by its host. -/
theorem cameraAt_eq {ip : String} {r : DiscoveryResult} (h : cameraAt net generateId ip = some r) :
    ∃ port ∈ defaultPorts, ∃ path ∈ commonPaths, net.accepts ip port = true ∧
      (checkPath net ip port path).1 = true ∧
      r = { newDiscoveryResult generateId ip port path with
        requiresAuth := (checkPath net ip port path).2 } := by
  rcases List.exists_of_findSome?_eq_some h with ⟨port, hport, hprobe⟩
  split_ifs at hprobe with hopen
  rcases List.exists_of_findSome?_eq_some hprobe with ⟨path, hpath, hresult⟩
  dsimp only at hresult
  split_ifs at hresult with hfound
  exact ⟨port, hport, path, hpath, hopen, hfound, (Option.some.inj hresult).symm⟩

/-- The number of a host can be read off what begins with it and a colon. -/
theorem number_inj {i j : ℕ} {rest rest' : List Char}
    (h : (toString i).toList ++ ':' :: rest = (toString j).toList ++ ':' :: rest') : i = j := by
  have hdigits : ∀ n : ℕ, (toString n).toList = Nat.toDigits 10 n := fun n => Nat.toList_repr
  have hfront : ∀ (n : ℕ) (rest : List Char),
      ((toString n).toList ++ ':' :: rest).takeWhile (fun ch => ch.isDigit) = Nat.toDigits 10 n := by
    intro n rest
    rw [hdigits, List.takeWhile_append_of_pos fun ch hch =>
      Nat.isDigit_of_mem_toDigits (by decide) (by decide) hch]
    rw [List.takeWhile_cons_of_neg (by decide), List.append_nil]
  have hsame : Nat.toDigits 10 i = Nat.toDigits 10 j := by rw [← hfront i rest, h, hfront j rest']
  rw [← Nat.ofDigitChars_ten_toDigits (n := i), hsame, Nat.ofDigitChars_ten_toDigits]

/-- Different hosts have different URLs. -/
theorem url_inj {subnetPrefix : String} {i j : ℕ} {r r' : DiscoveryResult}
    (hr : cameraAt net generateId (hostAddress subnetPrefix i) = some r)
    (hr' : cameraAt net generateId (hostAddress subnetPrefix j) = some r') (h : r.url = r'.url) :
    i = j := by
  rcases cameraAt_eq hr with ⟨port, -, path, -, -, -, rfl⟩
  rcases cameraAt_eq hr' with ⟨port', -, path', -, -, -, rfl⟩
  have hlist := congrArg String.toList h
  simp only [DiscoveryResult.url, newDiscoveryResult, hostAddress, Option.getD_some,
    String.toList_append, List.append_assoc] at hlist
  have hcolon : ":".toList = [':'] := rfl
  rw [hcolon] at hlist
  exact number_inj (List.append_cancel_left (List.append_cancel_left (List.append_cancel_left hlist)))

end

/-! ## The pool -/

theorem url_merged (onvifDevices : List OnvifDevice) (r : DiscoveryResult) :
    (merged onvifDevices r).url = r.url := by
  unfold merged
  split <;> rfl

namespace CommanderBehavior

variable {s : CommanderBehavior}

/-- What is found after one more camera has come. -/
theorem lookup_addCameraToPool (camera : DiscoveryResult) (url : String) :
    (s.addCameraToPool camera).1.unassignedCameras.lookup url =
      (s.unassignedCameras.lookup url).or (if camera.url = url then some camera else none) := by
  unfold addCameraToPool
  split_ifs with hmem hurl hurl
  · rcases Dictionary.mem_iff_lookup.mp hmem with ⟨old, hold⟩
    rw [← hurl, hold, Option.some_or]
  · rw [Option.or_none]
  · have hnone : s.unassignedCameras.lookup url = none := by
      rw [← hurl]
      exact AList.lookup_eq_none.mpr hmem
    rw [hnone, Option.none_or]
    dsimp only
    rw [Dictionary.lookup_tryAdd, if_pos hurl.symm, hurl, hnone]
    rfl
  · dsimp only
    rw [Dictionary.lookup_tryAdd, if_neg (Ne.symm hurl), Option.or_none]

/-- What is found behind a scan: what was there, or the first result with that URL. -/
theorem lookup_addResults (onvifDevices : List OnvifDevice) (url : String)
    (results : List DiscoveryResult) : ∀ s : CommanderBehavior,
      (s.addResults results onvifDevices).unassignedCameras.lookup url =
        (s.unassignedCameras.lookup url).or
          ((results.find? fun r => decide (r.url = url)).map (merged onvifDevices)) := by
  induction results with
  | nil =>
    intro s
    rw [List.find?_nil, Option.map_none, Option.or_none]
    rfl
  | cons r results ih =>
    intro s
    have hnext : s.addResults (r :: results) onvifDevices =
        (s.addCameraToPool (merged onvifDevices r)).1.addResults results onvifDevices := rfl
    rw [hnext, ih, lookup_addCameraToPool, url_merged, List.find?_cons, Option.or_assoc]
    split_ifs with hurl
    · rw [decide_eq_true hurl, Option.some_or, Option.map_some]
    · rw [decide_eq_false hurl, Option.none_or]

end CommanderBehavior

section

variable {net : Network} {generateId : String → String} {subnetPrefix : String} {startHost endHost : ℕ}
  {results : List DiscoveryResult}

/-- A camera is found by its URL among the results: a URL belongs to one host. -/
theorem find?_url (hresults : results.Perm (camerasOf net generateId subnetPrefix startHost endHost))
    {r : DiscoveryResult} (hr : r ∈ results) :
    (results.find? fun other => decide (other.url = r.url)) = some r := by
  have hmem : ∀ r ∈ results, ∃ i ∈ hosts startHost endHost,
      cameraAt net generateId (hostAddress subnetPrefix i) = some r :=
    fun r hr => List.mem_filterMap.mp (hresults.mem_iff.mp hr)
  have hsome : (results.find? fun other => decide (other.url = r.url)).isSome = true :=
    List.find?_isSome.mpr ⟨r, hr, decide_eq_true rfl⟩
  rcases Option.isSome_iff_exists.mp hsome with ⟨other, hother⟩
  rcases hmem r hr with ⟨i, -, hi⟩
  rcases hmem other (List.mem_of_find?_eq_some hother) with ⟨j, -, hj⟩
  have hurl : other.url = r.url := by simpa using List.find?_some hother
  obtain rfl := url_inj hj hi hurl
  rw [hother, ← hj, hi]

/-- What is found behind the loop: each camera of the subnet, what was there, and nothing else. -/
theorem addResults_spec (hresults : results.Perm (camerasOf net generateId subnetPrefix startHost endHost))
    (answers : List OnvifDevice) (commander : CommanderBehavior) :
    (∀ i ∈ hosts startHost endHost, ∀ r, cameraAt net generateId (hostAddress subnetPrefix i) = some r →
      (commander.addResults results (probe answers)).unassignedCameras.lookup r.url =
        some ((commander.unassignedCameras.lookup r.url).getD (merged answers r))) ∧
    (∀ url camera, commander.unassignedCameras.lookup url = some camera →
      (commander.addResults results (probe answers)).unassignedCameras.lookup url = some camera) ∧
    ∀ url camera,
      (commander.addResults results (probe answers)).unassignedCameras.lookup url = some camera →
        commander.unassignedCameras.lookup url = some camera ∨
          ∃ i ∈ hosts startHost endHost, ∃ r,
            cameraAt net generateId (hostAddress subnetPrefix i) = some r ∧ r.url = url ∧
              camera = merged answers r := by
  have hmem : ∀ r, r ∈ results ↔
      ∃ i ∈ hosts startHost endHost, cameraAt net generateId (hostAddress subnetPrefix i) = some r :=
    fun r => hresults.mem_iff.trans List.mem_filterMap
  refine ⟨?_, ?_, ?_⟩
  · intro i hi r hr
    rw [CommanderBehavior.lookup_addResults, find?_url hresults ((hmem r).mpr ⟨i, hi, hr⟩),
      Option.map_some, merged_probe]
    cases commander.unassignedCameras.lookup r.url <;> rfl
  · intro url camera hcamera
    rw [CommanderBehavior.lookup_addResults, hcamera, Option.some_or]
  · intro url camera hcamera
    rw [CommanderBehavior.lookup_addResults] at hcamera
    rcases Option.or_eq_some_iff.mp hcamera with hold | ⟨-, hnew⟩
    · exact Or.inl hold
    · rcases Option.map_eq_some_iff.mp hnew with ⟨r, hr, rfl⟩
      rcases (hmem r).mp (List.mem_of_find?_eq_some hr) with ⟨i, hi, hcameraAt⟩
      have hurl : r.url = url := by simpa using List.find?_some hr
      exact Or.inr ⟨i, hi, r, hcameraAt, hurl, merged_probe answers r⟩

end

/-- Where no scan is due, nothing changes. Where one is due, and the scan or the probe throws, the
commander is as it was left meanwhile, with the time of this scan. Otherwise, whatever the order of
the steps of the scan and of its results: each camera of the subnet that answers is in the pool, as
it was there or with what its device has told first; what was in the pool is as it was; and there
is nothing else. -/
theorem discovery_fills_pool (net : Network) (generateId : String → String)
    (scanSubnetAsync : String → Option (List DiscoveryResult))
    (hscan : ∀ subnet results, scanSubnetAsync subnet = some results →
      ScanReturns net generateId subnet 1 254 results)
    (answers : Option (List OnvifDevice)) (meanwhile : ScanningCommander → ScanningCommander)
    (commander : ScanningCommander) (now now' : ℤ) (there after : ScanningCommander)
    (hthere : there = meanwhile { commander with lastScanTime := now' })
    (hafter : after = commander.performDiscoveryScan now now' scanSubnetAsync (answers.map probe)
      meanwhile) :
    ((∀ subnet, ¬ commander.ScanDue now subnet) → after = commander) ∧
      ∀ subnet, commander.ScanDue now subnet →
        (scanSubnetAsync subnet = none ∨ answers = none → after = there) ∧
        ∀ results devices, scanSubnetAsync subnet = some results → answers = some devices →
          (∀ i ∈ hosts 1 254, ∀ r, cameraAt net generateId (hostAddress subnet i) = some r →
            after.unassignedCameras.lookup r.url =
              some ((there.unassignedCameras.lookup r.url).getD (merged devices r))) ∧
          (∀ url camera, there.unassignedCameras.lookup url = some camera →
            after.unassignedCameras.lookup url = some camera) ∧
          ∀ url camera, after.unassignedCameras.lookup url = some camera →
            there.unassignedCameras.lookup url = some camera ∨
              ∃ i ∈ hosts 1 254, ∃ r, cameraAt net generateId (hostAddress subnet i) = some r ∧
                r.url = url ∧ camera = merged devices r := by
  refine ⟨?_, ?_⟩
  · intro hnone
    rw [hafter, ScanningCommander.performDiscoveryScan_not_due hnone]
  intro subnet hdue
  rw [ScanningCommander.performDiscoveryScan_due hdue, ← hthere] at hafter
  refine ⟨?_, ?_⟩
  · rintro (hthrows | hthrows)
    · rw [hafter, hthrows]
    · rw [hafter, hthrows]
      cases scanSubnetAsync subnet <;> rfl
  · intro results devices hresults hdevices
    rw [hresults, hdevices] at hafter
    rw [hafter]
    exact addResults_spec (scanReturns_iff.mp (hscan subnet results hresults)) devices
      there.toCommanderBehavior

/-- A network with one camera, which wants a password. -/
def oneCamera : Network where
  accepts ip port := decide (ip = "10.0.0.7" ∧ port = 8554)
  reply _ _ path := if path = "/live" then some "RTSP/1.0 401 Unauthorized".toList else none

/-- A commander that has just scanned this subnet. -/
def justScanned : ScanningCommander :=
  { (ScanningCommander.initial 45).enableAutoDiscovery "10.0.0" with lastScanTime := 2 * scanInterval }

/-- It is made to scan by hand: the camera is pooled with what its device has told first. -/
theorem discovery_fills_pool_manual :
    ∃ camera, (justScanned.triggerManualScan (2 * scanInterval) (2 * scanInterval)
        (fun subnet => some (camerasOf oneCamera (fun url => url) subnet 1 254))
        ((some [⟨"10.0.0.7", ["onvif://x/name/Front_Door"], []⟩, ⟨"10.0.0.7", [], []⟩]).map probe)
        fun s => s).unassignedCameras.lookup "rtsp://10.0.0.7:8554/live" = some camera ∧
      camera.vendor = some "Front Door" := by
  have hscan : ∀ subnet results,
      some (camerasOf oneCamera (fun url => url) subnet 1 254) = some results →
        ScanReturns oneCamera (fun url => url) subnet 1 254 results := by
    intro subnet results hresults
    obtain rfl := Option.some.inj hresults
    exact scanReturns_iff.mpr (List.Perm.refl _)
  have hdue : ScanningCommander.ScanDue { justScanned with lastScanTime := 0 } (2 * scanInterval)
      "10.0.0" := ScanningCommander.scanDue_manual rfl (by decide) (by decide)
  rcases discovery_fills_pool oneCamera (fun url => url) _ hscan
    (some [⟨"10.0.0.7", ["onvif://x/name/Front_Door"], []⟩, ⟨"10.0.0.7", [], []⟩]) (fun s => s)
    { justScanned with lastScanTime := 0 } (2 * scanInterval) (2 * scanInterval) _ _ rfl rfl with
    ⟨-, hscanned⟩
  rcases (hscanned "10.0.0" hdue).2 _ _ rfl rfl with ⟨hfound, -, -⟩
  have hcamera := hfound 7 (by decide)
    { newDiscoveryResult (fun url => url) "10.0.0.7" 8554 "/live" with requiresAuth := true }
    (by decide +kernel)
  exact ⟨_, hcamera, by decide +kernel⟩

end ManagedSecurity

import ManagedSecurity.Commander
import ManagedSecurity.Lib.Snapshots

/-! # The camera store (`CameraStore`, `SaveStoreAsync`)

A call that changes the pool starts a save and does not wait for it. The save takes its
snapshot at once and writes it later, so that saves overlap, and the file is whatever
was written last.

* `restart_lookup`: what `InitializeFromStoreAsync` makes of a file;
* `store_current_iff`: when the file is the pool.
-/

namespace ManagedSecurity

open Transition Snapshots

namespace CameraStore

/-- What a camera is after it has been written and read: the getter of `SnapshotUrl` is
written, its setter fills the field. -/
def stored (camera : DiscoveryResult) : DiscoveryResult :=
  { camera with snapshotUrlField := some camera.snapshotUrl }

/-- `SaveAsync`: the content of the file. -/
def save (cameras : List DiscoveryResult) : List DiscoveryResult := cameras.map stored

/-- `LoadAsync`. -/
def load (file : Option (List DiscoveryResult)) : List DiscoveryResult := file.getD []

@[simp] theorem url_stored (camera : DiscoveryResult) : (stored camera).url = camera.url := rfl

end CameraStore

namespace CommanderBehavior

/-- The calls that concern the pool; the dictionary may also be rearranged. -/
inductive PoolCall where
  | add (camera : DiscoveryResult)
  | configure (urlOrId displayName : String)
  | rearrange (cameras : Dictionary String DiscoveryResult)

/-- A call, and whether it starts a save. -/
def perform (s : CommanderBehavior) : PoolCall → Option (CommanderBehavior × Bool)
  | .add camera => some (s.addCameraToPool camera)
  | .configure urlOrId displayName =>
    match s.configureCamera urlOrId displayName with
    | .ok result => some result
    | .error _ => some (s, false)
  | .rearrange cameras =>
    if s.unassignedCameras.Rearrangement cameras then
      some ({ s with unassignedCameras := cameras }, false)
    else
      none

/-- The file that `SaveStoreAsync` writes. -/
def snapshot (s : CommanderBehavior) : Option (List DiscoveryResult) :=
  some (CameraStore.save s.unassignedCameras.values)

/-- A commander that has read the file. -/
def restarted (workerTimeout : ℤ) (file : Option (List DiscoveryResult)) : CommanderBehavior :=
  (initial workerTimeout).initializeFromStore (CameraStore.load file)

/-- Two files with the same cameras, in any order. -/
def SameCameras (file file' : Option (List DiscoveryResult)) : Prop :=
  (CameraStore.load file).Perm (CameraStore.load file')

instance (file file' : Option (List DiscoveryResult)) : Decidable (SameCameras file file') :=
  inferInstanceAs (Decidable (List.Perm _ _))

theorem sameCameras_equivalence : Equivalence SameCameras :=
  ⟨fun _ => List.Perm.refl _, fun h => h.symm, fun h h' => h.trans h'⟩

section

variable {s s' : CommanderBehavior} {cameras : List DiscoveryResult}

/-! ## Reading a file -/

/-- The pool finds exactly the cameras that it lists. -/
theorem Inv.lookup_iff (hs : s.Inv) {url : String} {camera : DiscoveryResult} :
    s.unassignedCameras.lookup url = some camera ↔
      camera ∈ s.unassignedCameras.values ∧ camera.url = url := by
  constructor
  · intro h
    exact ⟨Dictionary.mem_values.mpr ⟨url, h⟩, hs.keyed url camera h⟩
  · rintro ⟨hmem, rfl⟩
    rcases Dictionary.mem_values.mp hmem with ⟨url, hurl⟩
    rwa [hs.keyed url camera hurl]

/-- No URL is listed twice. -/
theorem Inv.values_nodup (hs : s.Inv) :
    (s.unassignedCameras.values.map DiscoveryResult.url).Nodup := by
  have hkeys : s.unassignedCameras.values.map DiscoveryResult.url = s.unassignedCameras.keys := by
    rw [Dictionary.values, List.map_map]
    apply List.map_congr_left
    intro entry hentry
    exact hs.keyed entry.1 entry.2 (AList.mem_lookup_iff.mpr hentry)
  rw [hkeys]
  exact AList.keys_nodup _

/-- Cameras with new URLs are all added. -/
theorem foldl_tryAdd_values : ∀ (cameras : List DiscoveryResult)
    (pool : Dictionary String DiscoveryResult), (cameras.map DiscoveryResult.url).Nodup →
    (∀ camera ∈ cameras, camera.url ∉ pool) →
    (cameras.foldl (fun pool cam => pool.tryAdd cam.url cam) pool).values.Perm
      (cameras ++ pool.values) := by
  intro cameras
  induction cameras with
  | nil =>
    intro pool _ _
    exact List.Perm.refl _
  | cons camera cameras ih =>
    intro pool hnodup hfresh
    rw [List.map_cons, List.nodup_cons] at hnodup
    have hnew : camera.url ∉ pool := hfresh camera List.mem_cons_self
    have hadd : (pool.tryAdd camera.url camera).values = camera :: pool.values := by
      rw [Dictionary.tryAdd, if_neg hnew]
      exact Dictionary.values_set (AList.lookup_eq_none.mpr hnew)
    have hrest : ∀ other ∈ cameras, other.url ∉ pool.tryAdd camera.url camera := by
      intro other hother hmem
      rcases Dictionary.mem_tryAdd.mp hmem with hsame | hold
      · exact hnodup.1 (List.mem_map.mpr ⟨other, hother, hsame⟩)
      · exact hfresh other (List.mem_cons_of_mem camera hother) hold
    have hperm := ih _ hnodup.2 hrest
    rw [hadd] at hperm
    exact hperm.trans List.perm_middle

theorem restarted_values (workerTimeout : ℤ) {file : Option (List DiscoveryResult)}
    (hnodup : ((CameraStore.load file).map DiscoveryResult.url).Nodup) :
    (restarted workerTimeout file).unassignedCameras.values.Perm (CameraStore.load file) := by
  have hperm := foldl_tryAdd_values (CameraStore.load file) (initial workerTimeout).unassignedCameras
    hnodup (by simp [initial])
  exact hperm.trans (by simp [initial, Dictionary.values])

/-- A file with the cameras of the pool restores every one of them. -/
theorem restart_lookup (hs : s.Inv) (workerTimeout : ℤ) {file : Option (List DiscoveryResult)}
    (hsame : SameCameras file s.snapshot) (url : String) :
    (restarted workerTimeout file).unassignedCameras.lookup url =
      (s.unassignedCameras.lookup url).map CameraStore.stored := by
  have hurls : ((CameraStore.save s.unassignedCameras.values).map DiscoveryResult.url).Nodup := by
    rw [CameraStore.save, List.map_map]
    exact hs.values_nodup
  have hnodup : ((CameraStore.load file).map DiscoveryResult.url).Nodup :=
    (hsame.map DiscoveryResult.url).nodup_iff.mpr hurls
  have hvalues := (restarted_values workerTimeout hnodup).trans hsame
  have hinv : (restarted workerTimeout file).Inv := (inv_initial workerTimeout).load _
  refine Option.ext fun camera => ?_
  rw [hinv.lookup_iff, hvalues.mem_iff, Option.map_eq_some_iff]
  constructor
  · rintro ⟨hmem, rfl⟩
    rcases List.mem_map.mp hmem with ⟨original, horiginal, rfl⟩
    exact ⟨original, hs.lookup_iff.mpr ⟨horiginal, rfl⟩, rfl⟩
  · rintro ⟨original, horiginal, rfl⟩
    rcases hs.lookup_iff.mp horiginal with ⟨hmem, rfl⟩
    exact ⟨List.mem_map_of_mem hmem, rfl⟩

/-! ## The calls -/

/-- A call that starts no save leaves the cameras as they are. -/
theorem perform_quiet {call : PoolCall} (h : s.perform call = some (s', false)) :
    SameCameras s.snapshot s'.snapshot := by
  cases call with
  -- a known camera is not saved again; the pool stays
  | add camera =>
    simp only [perform, addCameraToPool, Option.some.injEq] at h
    split_ifs at h
    · obtain rfl := (Prod.mk.inj h).1
      exact sameCameras_equivalence.refl _
    · cases (Prod.mk.inj h).2
  | configure urlOrId displayName =>
    have hsame : s' = s := by
      simp only [perform, configureCamera] at h
      cases htarget : s.targetUrl urlOrId with
      | none =>
        simp only [htarget, Option.some.injEq, Prod.mk.injEq, and_true] at h
        exact h.symm
      | some url =>
        simp only [htarget] at h
        cases hfound : s.unassignedCameras.lookup url with
        | none =>
          simp only [hfound, Option.some.injEq, Prod.mk.injEq, and_true] at h
          exact h.symm
        | some camera => simp [hfound] at h
    rw [hsame]
    exact sameCameras_equivalence.refl _
  | rearrange cameras =>
    simp only [perform] at h
    split_ifs at h with hperm
    obtain rfl := (Prod.mk.inj (Option.some.inj h)).1
    exact hperm.values.map CameraStore.stored

theorem Inv.perform (hs : s.Inv) {call : PoolCall} {saves : Bool}
    (h : s.perform call = some (s', saves)) : s'.Inv := by
  cases call with
  | add camera =>
    obtain rfl := (Prod.mk.inj (Option.some.inj h)).1
    exact hs.add camera
  | configure urlOrId displayName =>
    simp only [CommanderBehavior.perform] at h
    cases hresult : s.configureCamera urlOrId displayName with
    | error e =>
      simp only [hresult, Option.some.injEq] at h
      obtain rfl := (Prod.mk.inj h).1
      exact hs
    | ok result =>
      simp only [hresult, Option.some.injEq] at h
      have hinv := hs.configure hresult
      rwa [h] at hinv
  | rearrange cameras =>
    simp only [CommanderBehavior.perform] at h
    split_ifs at h with hperm
    obtain rfl := (Prod.mk.inj (Option.some.inj h)).1
    exact hs.rearrange (List.Perm.refl _) hperm (List.Perm.refl _)

end

/-! ## Runs -/

/-- The commander with the saves that it has started. -/
abbrev Saved := Saving CommanderBehavior PoolCall (Option (List DiscoveryResult))

/-- A step of it: a call, or the end of a save. -/
abbrev saveStep (t : Saved) (event : Snapshots.Event PoolCall) : Option Saved :=
  t.step perform snapshot event

/-- A commander that has just read the file of an earlier one. -/
def opened (workerTimeout : ℤ) (written : Option (List DiscoveryResult)) : Saved :=
  Saving.start (restarted workerTimeout (written.map CameraStore.save))
    (written.map CameraStore.save)

/-- The file has the cameras of the pool, and a commander that reads it finds each of
them, with its name. -/
def Recovers (workerTimeout : ℤ) (t : Saved) : Prop :=
  SameCameras t.stored t.state.snapshot ∧
    ∀ url, (restarted workerTimeout t.stored).unassignedCameras.lookup url =
      (t.state.unassignedCameras.lookup url).map CameraStore.stored

/-- Behind the call whose save was completed last, the calls up to it made the same pool
as all of them. -/
def LastSaveCurrent (workerTimeout : ℤ) (written : Option (List DiscoveryResult)) (t : Saved) :
    Prop :=
  ∀ n, t.completed.getLast? = some n → ∀ s,
    run (callStep perform) (opened workerTimeout written).state (t.calls.take (n + 1)) = some s →
    SameCameras s.snapshot t.state.snapshot

theorem inv_calls {calls : List PoolCall} {s s' : CommanderBehavior} (hs : s.Inv)
    (hrun : run (callStep perform) s calls = some s') : s'.Inv := by
  refine run_invariant ?_ calls s s' hs hrun
  intro s call s' hs h
  rcases Option.map_eq_some_iff.mp h with ⟨⟨next, saves⟩, hcall, rfl⟩
  exact Inv.perform hs hcall

/-- What has been read is written back the same. -/
theorem opened_same (workerTimeout : ℤ) {written : Option (List DiscoveryResult)}
    (hdistinct : ((CameraStore.load written).map DiscoveryResult.url).Nodup) :
    SameCameras (written.map CameraStore.save) (opened workerTimeout written).state.snapshot := by
  have hfile : CameraStore.load (written.map CameraStore.save) =
      CameraStore.save (CameraStore.load written) := by
    cases written <;> rfl
  have hurls : ((CameraStore.load (written.map CameraStore.save)).map DiscoveryResult.url).Nodup := by
    rw [hfile, CameraStore.save, List.map_map]
    exact hdistinct
  have hagain : CameraStore.save (CameraStore.load (written.map CameraStore.save)) =
      CameraStore.load (written.map CameraStore.save) := by
    rw [hfile, CameraStore.save, CameraStore.save, List.map_map]
    rfl
  have hperm := (restarted_values workerTimeout hurls).map CameraStore.stored
  show (CameraStore.load (written.map CameraStore.save)).Perm _
  rw [← hagain]
  exact hperm.symm

end CommanderBehavior

open CommanderBehavior in
/-- When all saves are completed, the file recovers the pool exactly if the calls behind
the one whose save was completed last have left the pool as that save has seen it. -/
theorem store_current_iff (workerTimeout : ℤ) (written : Option (List DiscoveryResult))
    (hdistinct : ((CameraStore.load written).map DiscoveryResult.url).Nodup)
    (events : List (Snapshots.Event PoolCall)) (t : Saved)
    (hrun : run saveStep (opened workerTimeout written) events = some t) (hdone : t.pending = []) :
    Recovers workerTimeout t ↔ LastSaveCurrent workerTimeout written t := by
  have hquiet := fun s call s' (h : perform s call = some (s', false)) => perform_quiet h
  have hconsistent := consistent_run sameCameras_equivalence hquiet hrun
  have hs := inv_calls ((inv_initial workerTimeout).load _) hconsistent.state
  have hiff := stored_same_iff sameCameras_equivalence hquiet (opened_same workerTimeout hdistinct)
    hrun hdone
  constructor
  · rintro ⟨hsame, -⟩
    exact hiff.mp hsame
  · intro hcurrent
    have hsame := hiff.mpr hcurrent
    exact ⟨hsame, restart_lookup hs workerTimeout hsame⟩

namespace CommanderBehavior

/-- A scan finds two cameras. -/
def scanned : List (Snapshots.Event PoolCall) :=
  [.call (.add (sampleCamera "10.0.0.7")), .call (.add (sampleCamera "10.0.0.8"))]

/-- The commander behind the scan and the two saves. -/
def afterSaves (first last : ℕ) : Saved :=
  (run saveStep (opened 45 none) (scanned ++ [.complete first, .complete last])).getD (opened 45 none)

end CommanderBehavior

open CommanderBehavior in
/-- The saves are completed in the order of the calls. -/
theorem store_current_in_order :
    run saveStep (opened 45 none) (scanned ++ [.complete 0, .complete 1]) = some (afterSaves 0 1) ∧
      Recovers 45 (afterSaves 0 1) := by
  have hrun : run saveStep (opened 45 none) (scanned ++ [.complete 0, .complete 1]) =
      some (afterSaves 0 1) := rfl
  refine ⟨hrun, (store_current_iff 45 none List.nodup_nil _ _ hrun rfl).mpr ?_⟩
  intro n hlast s hs
  obtain rfl : 1 = n := Option.some.inj hlast
  obtain rfl : (afterSaves 0 1).state = s := Option.some.inj hs
  exact sameCameras_equivalence.refl _

open CommanderBehavior in
/-- The other way round, the second camera is not in the file. -/
theorem overlapping_saves_lose_camera :
    run saveStep (opened 45 none) (scanned ++ [.complete 1, .complete 0]) = some (afterSaves 1 0) ∧
      (afterSaves 1 0).pending = [] ∧ ¬ Recovers 45 (afterSaves 1 0) := by
  refine ⟨rfl, rfl, ?_⟩
  rintro ⟨hsame, -⟩
  have hlost : ¬ SameCameras (afterSaves 1 0).stored (afterSaves 1 0).state.snapshot := by decide
  exact hlost hsame

end ManagedSecurity

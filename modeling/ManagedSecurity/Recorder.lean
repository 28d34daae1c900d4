import ManagedSecurity.Commander
import ManagedSecurity.Lib.Ledger

/-! # Recording in the background (`StartBackgroundRecordersAsync`, `RecordCameraLoopAsync`)

Every configured camera has a recorder that writes one segment after the other to the vault. A
new segment is started only where the files of the vault took less than the quota when the
recorder looked; several recorders may find room before the first of them creates its file.

* `Inv`: the files, and what the segments under way may still take;
* `inv_step`: one case for each event;
* `underWay_rises`: how a segment comes under way;
* `vault_within_quota`: how far the vault can get above the quota.
-/

namespace ManagedSecurity

open Transition

/-- `displayName.Replace(" ", "_").Replace("/", "_").Replace("\\", "_")`. -/
def safeDisplayName (displayName : String) : String :=
  String.ofList (displayName.toList.map fun ch => if ch = ' ' ∨ ch = '/' ∨ ch = '\\' then '_' else ch)

/-- The file of a segment. -/
def segmentFileName (displayName timestamp : String) : String :=
  "Sentinel_" ++ safeDisplayName displayName ++ "_" ++ timestamp ++ ".msg"

/-- How far the loop is with a segment. -/
inductive RecorderRound where
  | waiting
  /-- Behind the check of the quota. -/
  | admitted
  /-- With its file open. -/
  | writing (file : String)
deriving DecidableEq

/-- A call of `RecordCameraLoopAsync`. -/
structure RecorderLoop where
  camera : DiscoveryResult
  round : RecorderRound
deriving DecidableEq

/-- The file that it has open. -/
def RecorderLoop.file (loop : RecorderLoop) : Option String :=
  match loop.round with
  | .writing file => some file
  | _ => none

/-- The recorders. `files` are the sizes of what is in the vault; that of a segment is the
archive and its telemetry together. -/
structure BackgroundRecorders where
  storageQuota : ℕ
  files : Dictionary String ℕ
  activeRecorders : Dictionary String RecorderLoop
deriving DecidableEq

namespace BackgroundRecorders

/-- `GetTotalVaultSize`. -/
def totalVaultSize (r : BackgroundRecorders) : ℕ := r.files.sumBy id

/-- Somebody has the file open. -/
def Writing (r : BackgroundRecorders) (file : String) : Prop :=
  ∃ loop ∈ r.activeRecorders.values, loop.file = some file

instance (r : BackgroundRecorders) (file : String) : Decidable (r.Writing file) :=
  inferInstanceAs (Decidable (∃ loop ∈ r.activeRecorders.values, loop.file = some file))

/-- A round of `StartBackgroundRecordersAsync`. -/
def startRecorders (r : BackgroundRecorders) (cameras : List DiscoveryResult) : BackgroundRecorders :=
  { r with
    activeRecorders := (cameras.filter DiscoveryResult.isConfigured).foldl
      (fun active cam => active.tryAdd cam.id ⟨cam, .waiting⟩) r.activeRecorders }

/-- The check at the beginning of a round; where there is no room, it waits. -/
def checkQuota (r : BackgroundRecorders) (cameraId : String) (camera : DiscoveryResult) :
    BackgroundRecorders :=
  if r.storageQuota ≤ r.totalVaultSize then
    r
  else
    { r with activeRecorders := r.activeRecorders.set cameraId ⟨camera, .admitted⟩ }

/-- `File.Create`. It waits after an exception: the camera may have no name, and a file that is
open cannot be created. -/
def createSegment (r : BackgroundRecorders) (cameraId timestamp : String) (camera : DiscoveryResult) :
    BackgroundRecorders :=
  let wait := { r with activeRecorders := r.activeRecorders.set cameraId ⟨camera, .waiting⟩ }
  match camera.displayName with
  | none => wait
  | some displayName =>
    let fileName := segmentFileName displayName timestamp
    if r.Writing fileName then
      wait
    else
      { r with
        files := r.files.set fileName 0
        activeRecorders := r.activeRecorders.set cameraId ⟨camera, .writing fileName⟩ }

/-- Some more bytes of a segment; they are lost if the file has been deleted. -/
def writeSegment (r : BackgroundRecorders) (file : String) (count : ℕ) : BackgroundRecorders :=
  match r.files.lookup file with
  | none => r
  | some size => { r with files := r.files.set file (size + count) }

/-- What can happen: a round over the cameras; a recorder looks for room, creates the file of a
segment, writes to it, ends it, or is over; somebody deletes a file. -/
inductive Event where
  | scan (cameras : List DiscoveryResult)
  | checkQuota (cameraId : String)
  | createSegment (cameraId timestamp : String)
  | write (cameraId : String) (count : ℕ)
  | endSegment (cameraId : String)
  | leave (cameraId : String)
  | delete (file : String)

/-- One step. -/
def step (r : BackgroundRecorders) : Event → Option BackgroundRecorders
  | .scan cameras => some (r.startRecorders cameras)
  | .checkQuota cameraId =>
    match r.activeRecorders.lookup cameraId with
    | some ⟨camera, .waiting⟩ => some (r.checkQuota cameraId camera)
    | _ => none
  | .createSegment cameraId timestamp =>
    match r.activeRecorders.lookup cameraId with
    | some ⟨camera, .admitted⟩ => some (r.createSegment cameraId timestamp camera)
    | _ => none
  | .write cameraId count =>
    match r.activeRecorders.lookup cameraId with
    | some ⟨_, .writing file⟩ => some (r.writeSegment file count)
    | _ => none
  | .endSegment cameraId =>
    match r.activeRecorders.lookup cameraId with
    | some ⟨camera, .writing _⟩ =>
      some { r with activeRecorders := r.activeRecorders.set cameraId ⟨camera, .waiting⟩ }
    | _ => none
  | .leave cameraId =>
    if cameraId ∈ r.activeRecorders then
      some { r with activeRecorders := r.activeRecorders.remove cameraId }
    else
      none
  | .delete file => some { r with files := r.files.remove file }

/-- What a step does. -/
inductive Steps (r : BackgroundRecorders) : Event → BackgroundRecorders → Prop where
  | scan (cameras : List DiscoveryResult) : Steps r (.scan cameras) (r.startRecorders cameras)
  | checkQuota {cameraId : String} {camera : DiscoveryResult}
      (hloop : r.activeRecorders.lookup cameraId = some ⟨camera, .waiting⟩) :
      Steps r (.checkQuota cameraId) (r.checkQuota cameraId camera)
  | createSegment {cameraId : String} (timestamp : String) {camera : DiscoveryResult}
      (hloop : r.activeRecorders.lookup cameraId = some ⟨camera, .admitted⟩) :
      Steps r (.createSegment cameraId timestamp) (r.createSegment cameraId timestamp camera)
  | write {cameraId : String} (count : ℕ) {camera : DiscoveryResult} {file : String}
      (hloop : r.activeRecorders.lookup cameraId = some ⟨camera, .writing file⟩) :
      Steps r (.write cameraId count) (r.writeSegment file count)
  | endSegment {cameraId : String} {camera : DiscoveryResult} {file : String}
      (hloop : r.activeRecorders.lookup cameraId = some ⟨camera, .writing file⟩) :
      Steps r (.endSegment cameraId)
        { r with activeRecorders := r.activeRecorders.set cameraId ⟨camera, .waiting⟩ }
  | leave (cameraId : String) :
      Steps r (.leave cameraId) { r with activeRecorders := r.activeRecorders.remove cameraId }
  | delete (file : String) : Steps r (.delete file) { r with files := r.files.remove file }

theorem steps_of_step {r r' : BackgroundRecorders} {event : Event} (h : r.step event = some r') :
    Steps r event r' := by
  cases event with
  | scan cameras =>
    obtain rfl := Option.some.inj h
    exact .scan cameras
  | checkQuota cameraId =>
    dsimp only [step] at h
    split at h
    · rename_i camera hloop
      obtain rfl := Option.some.inj h
      exact .checkQuota hloop
    · cases h
  | createSegment cameraId timestamp =>
    dsimp only [step] at h
    split at h
    · rename_i camera hloop
      obtain rfl := Option.some.inj h
      exact .createSegment timestamp hloop
    · cases h
  | write cameraId count =>
    dsimp only [step] at h
    split at h
    · rename_i camera file hloop
      obtain rfl := Option.some.inj h
      exact .write count hloop
    · cases h
  | endSegment cameraId =>
    dsimp only [step] at h
    split at h
    · rename_i camera file hloop
      obtain rfl := Option.some.inj h
      exact .endSegment hloop
    · cases h
  | leave cameraId =>
    dsimp only [step] at h
    split_ifs at h
    obtain rfl := Option.some.inj h
    exact .leave cameraId
  | delete file =>
    obtain rfl := Option.some.inj h
    exact .delete file

/-- Nothing changes the quota. -/
theorem storageQuota_step {r r' : BackgroundRecorders} {event : Event} (h : r.step event = some r') :
    r'.storageQuota = r.storageQuota := by
  cases steps_of_step h with
  | checkQuota =>
    unfold BackgroundRecorders.checkQuota
    split_ifs <;> rfl
  | createSegment =>
    unfold BackgroundRecorders.createSegment
    split
    · rfl
    · dsimp only
      split_ifs <;> rfl
  | write =>
    unfold writeSegment
    split <;> rfl
  | scan | endSegment | leave | delete => rfl

/-! ## What a segment may still take -/

/-- A segment never takes more than `limit`. -/
def room (limit : ℕ) (files : Dictionary String ℕ) (loop : RecorderLoop) : ℕ :=
  match loop.round with
  | .waiting => 0
  | .admitted => limit
  | .writing file => limit - (files.lookup file).getD 0

/-- The files, and what may still come from the segments under way. -/
def committed (limit : ℕ) (r : BackgroundRecorders) : ℕ :=
  r.totalVaultSize + r.activeRecorders.sumBy (room limit r.files)

/-- The cameras are known, a segment is not larger than it may be, each file is open once, and
the files with what may still come are bounded. -/
structure Inv (cameraIds : List String) (limit bound : ℕ) (r : BackgroundRecorders) : Prop where
  known : ∀ cameraId ∈ r.activeRecorders, cameraId ∈ cameraIds
  limited : ∀ cameraId loop file size, r.activeRecorders.lookup cameraId = some loop →
    loop.file = some file → r.files.lookup file = some size → size ≤ limit
  once : ∀ cameraId cameraId' loop loop' file, r.activeRecorders.lookup cameraId = some loop →
    r.activeRecorders.lookup cameraId' = some loop' → loop.file = some file → loop'.file = some file →
      cameraId = cameraId'
  committed : r.committed limit ≤ bound

/-- The size of the segment that a recorder has under way. -/
def segmentSize (r : BackgroundRecorders) (cameraId : String) : Option ℕ :=
  (r.activeRecorders.lookup cameraId).bind fun loop => loop.file.bind r.files.lookup

/-- What the run is: the cameras have known ids, and no segment gets larger than it may. -/
def Admits (cameraIds : List String) (limit : ℕ) (r : BackgroundRecorders) : Event → Prop
  | .scan cameras => ∀ cam ∈ cameras, cam.isConfigured = true → cam.id ∈ cameraIds
  | .write cameraId count => ∀ size ∈ r.segmentSize cameraId, size + count ≤ limit
  | _ => True

instance (cameraIds : List String) (limit : ℕ) (r : BackgroundRecorders) :
    ∀ event, Decidable (Admits cameraIds limit r event)
  | .scan _ => inferInstanceAs (Decidable (∀ _ ∈ _, _))
  | .write _ _ => inferInstanceAs (Decidable (∀ _ ∈ _, _))
  | .checkQuota _ => isTrue trivial
  | .createSegment _ _ => isTrue trivial
  | .endSegment _ => isTrue trivial
  | .leave _ => isTrue trivial
  | .delete _ => isTrue trivial

section

variable {cameraIds : List String} {limit bound : ℕ} {r r' : BackgroundRecorders}

theorem room_le (loop : RecorderLoop) (files : Dictionary String ℕ) : room limit files loop ≤ limit := by
  unfold room
  split
  · exact Nat.zero_le _
  · exact le_rfl
  · exact Nat.sub_le _ _

/-- What a recorder has with its file open. -/
theorem room_of_file {loop : RecorderLoop} {file : String} (hopen : loop.file = some file)
    (files : Dictionary String ℕ) : room limit files loop = limit - (files.lookup file).getD 0 := by
  unfold RecorderLoop.file at hopen
  split at hopen
  · rename_i hround
    rw [room, hround, Option.some.inj hopen]
  · cases hopen

/-- A file that a recorder does not have is of no concern to it. -/
theorem room_of_ne {files files' : Dictionary String ℕ} {file : String} {loop : RecorderLoop}
    (hne : loop.file ≠ some file) (hfiles : ∀ other, other ≠ file → files'.lookup other = files.lookup other) :
    room limit files' loop = room limit files loop := by
  unfold room
  cases hround : loop.round with
  | waiting => rfl
  | admitted => rfl
  | writing other =>
    dsimp only
    rw [hfiles other fun heq => hne (by rw [RecorderLoop.file, hround, heq])]

/-- All rooms together, where there are only so many recorders. -/
theorem rooms_le (hknown : ∀ cameraId ∈ r.activeRecorders, cameraId ∈ cameraIds)
    (files : Dictionary String ℕ) :
    r.activeRecorders.sumBy (room limit files) ≤ cameraIds.length * limit :=
  (Dictionary.sumBy_le fun loop _ => room_le loop files).trans
    (Nat.mul_le_mul_right _ (Dictionary.length_values_le hknown))

/-- The file of one recorder changes. What it takes more is what may come less. -/
theorem committed_files (h : r.Inv cameraIds limit bound) {file : String} {files' : Dictionary String ℕ}
    (hfiles : ∀ other, other ≠ file → files'.lookup other = r.files.lookup other)
    (htotal : files'.sumBy id + (r.files.lookup file).getD 0 = r.files.sumBy id + (files'.lookup file).getD 0)
    (hlimit : (files'.lookup file).getD 0 ≤ limit) (hwriting : r.Writing file) :
    ({ r with files := files' } : BackgroundRecorders).committed limit = r.committed limit := by
  rcases hwriting with ⟨loop, hloop, hopen⟩
  rcases Dictionary.mem_values.mp hloop with ⟨cameraId, hcameraId⟩
  have hothers : (r.activeRecorders.remove cameraId).sumBy (room limit files') =
      (r.activeRecorders.remove cameraId).sumBy (room limit r.files) := by
    refine Dictionary.sumBy_congr fun other hother => room_of_ne ?_ hfiles
    intro hsame
    rcases Dictionary.mem_values.mp hother with ⟨cameraId', hother⟩
    rcases Dictionary.lookup_remove.mp hother with ⟨hne, hlookup⟩
    exact hne (h.once cameraId' cameraId other loop file hlookup hcameraId hsame hopen)
  have hold : (r.files.lookup file).getD 0 ≤ limit := by
    cases hsize : r.files.lookup file with
    | none => exact Nat.zero_le _
    | some size => exact h.limited cameraId loop file size hcameraId hopen hsize
  have hafter : r.activeRecorders.sumBy (room limit files') =
      limit - (files'.lookup file).getD 0 + (r.activeRecorders.remove cameraId).sumBy (room limit r.files) := by
    rw [Dictionary.sumBy_remove hcameraId, hothers, room_of_file hopen]
  have hbefore : r.activeRecorders.sumBy (room limit r.files) =
      limit - (r.files.lookup file).getD 0 + (r.activeRecorders.remove cameraId).sumBy (room limit r.files) := by
    rw [Dictionary.sumBy_remove hcameraId, room_of_file hopen]
  unfold committed totalVaultSize
  dsimp only
  omega

/-- A file changes that nobody has open. -/
theorem committed_others {file : String} {files' : Dictionary String ℕ}
    (hfiles : ∀ other, other ≠ file → files'.lookup other = r.files.lookup other)
    (htotal : files'.sumBy id ≤ r.files.sumBy id) (hwriting : ¬r.Writing file) :
    ({ r with files := files' } : BackgroundRecorders).committed limit ≤ r.committed limit := by
  have hsame : r.activeRecorders.sumBy (room limit files') = r.activeRecorders.sumBy (room limit r.files) :=
    Dictionary.sumBy_congr fun loop hloop => room_of_ne (fun hopen => hwriting ⟨loop, hloop, hopen⟩) hfiles
  unfold committed totalVaultSize
  dsimp only
  omega

theorem Inv.known_set (h : r.Inv cameraIds limit bound) {cameraId : String} (hknown : cameraId ∈ cameraIds)
    (loop : RecorderLoop) : ∀ id ∈ r.activeRecorders.set cameraId loop, id ∈ cameraIds := by
  intro id hid
  rcases Dictionary.mem_set.mp hid with rfl | hold
  · exact hknown
  · exact h.known id hold

/-- A recorder that has no file open. -/
theorem Inv.setRound (h : r.Inv cameraIds limit bound) {cameraId : String} (hknown : cameraId ∈ cameraIds)
    {loop : RecorderLoop} (hclosed : loop.file = none)
    (hcommitted : BackgroundRecorders.committed limit
      { r with activeRecorders := r.activeRecorders.set cameraId loop } ≤ bound) :
    Inv cameraIds limit bound { r with activeRecorders := r.activeRecorders.set cameraId loop } := by
  have hlookup : ∀ id loop' file, (r.activeRecorders.set cameraId loop).lookup id = some loop' →
      loop'.file = some file → r.activeRecorders.lookup id = some loop' := by
    intro id loop' file hloop hopen
    by_cases hid : id = cameraId
    · rw [hid, Dictionary.lookup_set_self] at hloop
      rw [← Option.some.inj hloop, hclosed] at hopen
      cases hopen
    · rwa [Dictionary.lookup_set_ne hid] at hloop
  refine ⟨h.known_set hknown loop, ?_, ?_, hcommitted⟩
  · intro id loop file size hloop hopen hsize
    exact h.limited id loop file size (hlookup id loop file hloop hopen) hopen hsize
  · intro id id' loop loop' file hloop hloop' hopen hopen'
    exact h.once id id' loop loop' file (hlookup id loop file hloop hopen)
      (hlookup id' loop' file hloop' hopen') hopen hopen'

/-- A recorder that is there, or has just come, waits. -/
theorem Inv.wait (h : r.Inv cameraIds limit bound) {cameraId : String} (hknown : cameraId ∈ cameraIds)
    (camera : DiscoveryResult) :
    Inv cameraIds limit bound
      { r with activeRecorders := r.activeRecorders.set cameraId ⟨camera, .waiting⟩ } := by
  refine h.setRound hknown rfl (le_trans ?_ h.committed)
  have hsum := Dictionary.sumBy_set_add (room limit r.files) r.activeRecorders cameraId ⟨camera, .waiting⟩
  have hnone : room limit r.files ⟨camera, .waiting⟩ = 0 := rfl
  unfold BackgroundRecorders.committed
  dsimp only [totalVaultSize]
  omega

theorem Inv.scan (h : r.Inv cameraIds limit bound) (cameras : List DiscoveryResult)
    (hknown : ∀ cam ∈ cameras, cam.isConfigured = true → cam.id ∈ cameraIds) :
    Inv cameraIds limit bound (r.startRecorders cameras) := by
  unfold startRecorders
  have hconfigured : ∀ cam ∈ cameras.filter DiscoveryResult.isConfigured, cam.id ∈ cameraIds :=
    fun cam hcam => hknown cam (List.mem_filter.mp hcam).1 (List.mem_filter.mp hcam).2
  generalize cameras.filter DiscoveryResult.isConfigured = configured at hconfigured
  induction configured generalizing r with
  | nil => exact h
  | cons cam configured ih =>
    have hnext : Inv cameraIds limit bound
        { r with activeRecorders := r.activeRecorders.tryAdd cam.id ⟨cam, .waiting⟩ } := by
      unfold Dictionary.tryAdd
      split_ifs
      · exact h
      · exact h.wait (hconfigured cam List.mem_cons_self) cam
    exact ih hnext fun other hother => hconfigured other (List.mem_cons_of_mem cam hother)

theorem Inv.leave (h : r.Inv cameraIds limit bound) (cameraId : String) :
    Inv cameraIds limit bound { r with activeRecorders := r.activeRecorders.remove cameraId } := by
  have hlookup : ∀ id loop, (r.activeRecorders.remove cameraId).lookup id = some loop →
      r.activeRecorders.lookup id = some loop := fun id loop hloop => (Dictionary.lookup_remove.mp hloop).2
  refine ⟨fun id hid => h.known id (Dictionary.mem_remove.mp hid).2, ?_, ?_, ?_⟩
  · intro id loop file size hloop
    exact h.limited id loop file size (hlookup id loop hloop)
  · intro id id' loop loop' file hloop hloop'
    exact h.once id id' loop loop' file (hlookup id loop hloop) (hlookup id' loop' hloop')
  · refine le_trans ?_ h.committed
    have hsum := Dictionary.sumBy_remove_add (room limit r.files) r.activeRecorders cameraId
    unfold BackgroundRecorders.committed
    dsimp only [totalVaultSize]
    omega

/-- There is room below the quota, and all that may come from now on are segments that are under
way. -/
theorem Inv.checkQuota (h : r.Inv cameraIds limit bound)
    (hbound : r.storageQuota + cameraIds.length * limit ≤ bound) {cameraId : String}
    (hcamera : cameraId ∈ r.activeRecorders) (camera : DiscoveryResult) :
    Inv cameraIds limit bound (r.checkQuota cameraId camera) := by
  unfold BackgroundRecorders.checkQuota
  split_ifs with hfull
  · exact h
  refine h.setRound (h.known cameraId hcamera) rfl (le_trans ?_ hbound)
  have hknown := h.known_set (h.known cameraId hcamera) ⟨camera, .admitted⟩
  have hrooms : (r.activeRecorders.set cameraId ⟨camera, .admitted⟩).sumBy (room limit r.files) ≤
      cameraIds.length * limit :=
    rooms_le (r := { r with activeRecorders := r.activeRecorders.set cameraId ⟨camera, .admitted⟩ }) hknown _
  unfold BackgroundRecorders.committed
  dsimp only [totalVaultSize] at hfull hrooms ⊢
  omega

/-- Where a recorder has a file open behind the creation of one: it is the new one, or another
one that was open before. -/
theorem lookup_created {cameraId file other id : String} {camera : DiscoveryResult} {loop : RecorderLoop}
    (hwriting : ¬r.Writing file)
    (hloop : (r.activeRecorders.set cameraId ⟨camera, .writing file⟩).lookup id = some loop)
    (hopen : loop.file = some other) :
    id = cameraId ∧ other = file ∨ other ≠ file ∧ r.activeRecorders.lookup id = some loop := by
  by_cases hid : id = cameraId
  · rw [hid, Dictionary.lookup_set_self] at hloop
    rw [← Option.some.inj hloop] at hopen
    exact Or.inl ⟨hid, (Option.some.inj hopen).symm⟩
  · rw [Dictionary.lookup_set_ne hid] at hloop
    refine Or.inr ⟨?_, hloop⟩
    rintro rfl
    exact hwriting ⟨loop, Dictionary.mem_values.mpr ⟨id, hloop⟩, hopen⟩

/-- The file of a segment takes the room that was kept for it. -/
theorem committed_created {cameraId file : String} {camera : DiscoveryResult}
    (hadmitted : r.activeRecorders.lookup cameraId = some ⟨camera, .admitted⟩) (hwriting : ¬r.Writing file) :
    BackgroundRecorders.committed limit
      { r with
        files := r.files.set file 0
        activeRecorders := r.activeRecorders.set cameraId ⟨camera, .writing file⟩ } ≤ r.committed limit := by
  have htotal := Dictionary.sumBy_set_add id r.files file 0
  have hothers : r.activeRecorders.sumBy (room limit (r.files.set file 0)) =
      r.activeRecorders.sumBy (room limit r.files) :=
    Dictionary.sumBy_congr fun loop hloop => room_of_ne (fun hopen => hwriting ⟨loop, hloop, hopen⟩)
      fun other hne => Dictionary.lookup_set_ne hne
  have hrooms := Dictionary.sumBy_set_add (room limit (r.files.set file 0)) r.activeRecorders cameraId
    ⟨camera, .writing file⟩
  have hroom : room limit (r.files.set file 0) ⟨camera, .writing file⟩ = limit := by
    have hopen : RecorderLoop.file ⟨camera, .writing file⟩ = some file := rfl
    rw [room_of_file hopen, Dictionary.lookup_set_self, Option.getD_some, Nat.sub_zero]
  have hkept : r.activeRecorders.weightAt (room limit (r.files.set file 0)) cameraId = limit := by
    rw [Dictionary.weightAt, hadmitted]
    rfl
  unfold BackgroundRecorders.committed
  dsimp only [totalVaultSize]
  simp only [id_eq] at htotal
  omega

theorem Inv.createSegment (h : r.Inv cameraIds limit bound) {cameraId timestamp : String}
    {camera : DiscoveryResult} (hadmitted : r.activeRecorders.lookup cameraId = some ⟨camera, .admitted⟩) :
    Inv cameraIds limit bound (r.createSegment cameraId timestamp camera) := by
  have hcamera := Dictionary.mem_iff_lookup.mpr ⟨_, hadmitted⟩
  have hwait := h.wait (h.known cameraId hcamera) camera
  unfold BackgroundRecorders.createSegment
  split
  · exact hwait
  rename_i displayName _
  dsimp only
  generalize segmentFileName displayName timestamp = file
  split_ifs with hwriting
  · exact hwait
  refine ⟨h.known_set (h.known cameraId hcamera) _, ?_, ?_,
    (committed_created hadmitted hwriting).trans h.committed⟩
  · intro id loop other size hloop hopen hsize
    dsimp only at hsize
    rcases lookup_created hwriting hloop hopen with ⟨-, rfl⟩ | ⟨hne, hold⟩
    · rw [Dictionary.lookup_set_self] at hsize
      rw [← Option.some.inj hsize]
      exact Nat.zero_le _
    · rw [Dictionary.lookup_set_ne hne] at hsize
      exact h.limited id loop other size hold hopen hsize
  · intro id id' loop loop' other hloop hloop' hopen hopen'
    rcases lookup_created hwriting hloop hopen with ⟨hid, heq⟩ | ⟨hne, hold⟩
    · rcases lookup_created hwriting hloop' hopen' with ⟨hid', -⟩ | ⟨hne', -⟩
      · rw [hid, hid']
      · exact absurd heq hne'
    · rcases lookup_created hwriting hloop' hopen' with ⟨-, heq⟩ | ⟨-, hold'⟩
      · exact absurd heq hne
      · exact h.once id id' loop loop' other hold hold' hopen hopen'

theorem Inv.write (h : r.Inv cameraIds limit bound) {cameraId file : String} {count : ℕ}
    {loop : RecorderLoop} (hloop : r.activeRecorders.lookup cameraId = some loop)
    (hopen : loop.file = some file)
    (hlimit : ∀ size, r.files.lookup file = some size → size + count ≤ limit) :
    Inv cameraIds limit bound (r.writeSegment file count) := by
  unfold writeSegment
  split
  · exact h
  rename_i size hsize
  have hfiles : ∀ other, other ≠ file → (r.files.set file (size + count)).lookup other = r.files.lookup other :=
    fun other hne => Dictionary.lookup_set_ne hne
  refine ⟨h.known, ?_, h.once, ?_⟩
  · intro id loop' other size' hloop' hopen' hsize'
    dsimp only at hsize'
    by_cases hother : other = file
    · rw [hother, Dictionary.lookup_set_self] at hsize'
      rw [← Option.some.inj hsize']
      exact hlimit size hsize
    · rw [hfiles other hother] at hsize'
      exact h.limited id loop' other size' hloop' hopen' hsize'
  · refine le_trans (le_of_eq (committed_files h hfiles ?_ ?_ ?_)) h.committed
    · have htotal := Dictionary.sumBy_set_add id r.files file (size + count)
      rw [Dictionary.weightAt, hsize] at htotal
      rw [Dictionary.lookup_set_self, hsize]
      exact htotal
    · rw [Dictionary.lookup_set_self]
      exact hlimit size hsize
    · exact ⟨loop, Dictionary.mem_values.mpr ⟨cameraId, hloop⟩, hopen⟩

theorem Inv.delete (h : r.Inv cameraIds limit bound) (file : String) :
    Inv cameraIds limit bound { r with files := r.files.remove file } := by
  have hfiles : ∀ other, other ≠ file → (r.files.remove file).lookup other = r.files.lookup other :=
    fun other hne => AList.lookup_erase_ne hne
  have hgone : (r.files.remove file).lookup file = none := AList.lookup_erase _ _
  refine ⟨h.known, ?_, h.once, ?_⟩
  · intro id loop other size hloop hopen hsize
    exact h.limited id loop other size hloop hopen (Dictionary.lookup_remove.mp hsize).2
  · have htotal := Dictionary.sumBy_remove_add id r.files file
    by_cases hwriting : r.Writing file
    · refine le_trans (le_of_eq (committed_files h hfiles ?_ ?_ hwriting)) h.committed
      · rw [hgone]
        cases hsize : r.files.lookup file with
        | none =>
          rw [Dictionary.weightAt, hsize] at htotal
          exact htotal
        | some size =>
          rw [Dictionary.weightAt, hsize] at htotal
          exact htotal
      · rw [hgone]
        exact Nat.zero_le _
    · refine le_trans (committed_others hfiles ?_ hwriting) h.committed
      omega

/-- One case for each event. -/
theorem inv_step {event : Event} (h : r.Inv cameraIds limit bound)
    (hbound : r.storageQuota + cameraIds.length * limit ≤ bound) (hadmits : r.Admits cameraIds limit event)
    (hstep : r.step event = some r') : r'.Inv cameraIds limit bound := by
  cases steps_of_step hstep with
  | scan cameras => exact h.scan cameras hadmits
  | checkQuota hloop => exact h.checkQuota hbound (Dictionary.mem_iff_lookup.mpr ⟨_, hloop⟩) _
  | createSegment timestamp hloop => exact h.createSegment hloop
  | write count hloop =>
    rename_i cameraId camera file
    have hsegment : r.segmentSize cameraId = r.files.lookup file := by
      rw [segmentSize, hloop]
      rfl
    exact h.write hloop rfl fun size hsize => hadmits size (hsegment.trans hsize)
  | endSegment hloop => exact h.wait (h.known _ (Dictionary.mem_iff_lookup.mpr ⟨_, hloop⟩)) _
  | leave cameraId => exact h.leave cameraId
  | delete file => exact h.delete file

end

/-! ## How a segment comes under way -/

/-- A recorder is behind the check of the quota, or has its file open. -/
def UnderWay (r : BackgroundRecorders) (cameraId : String) : Prop :=
  ∃ loop, r.activeRecorders.lookup cameraId = some loop ∧ loop.round ≠ .waiting

section

variable {r r' : BackgroundRecorders} {cameraId id : String} {loop : RecorderLoop}

theorem underWay_congr (h : r'.activeRecorders = r.activeRecorders) :
    r'.UnderWay id ↔ r.UnderWay id := by
  rw [UnderWay, UnderWay, h]

/-- To set a recorder to wait brings nobody under way. -/
theorem UnderWay.of_wait {camera : DiscoveryResult}
    (h : UnderWay { r with activeRecorders := r.activeRecorders.set cameraId ⟨camera, .waiting⟩ } id) :
    r.UnderWay id := by
  rcases h with ⟨loop, hloop, hround⟩
  by_cases hid : id = cameraId
  · rw [hid, Dictionary.lookup_set_self] at hloop
    rw [← Option.some.inj hloop] at hround
    exact absurd rfl hround
  · rw [Dictionary.lookup_set_ne hid] at hloop
    exact ⟨loop, hloop, hround⟩

theorem UnderWay.of_scan {cameras : List DiscoveryResult} (h : (r.startRecorders cameras).UnderWay id) :
    r.UnderWay id := by
  unfold startRecorders at h
  generalize cameras.filter DiscoveryResult.isConfigured = configured at h
  induction configured generalizing r with
  | nil => exact h
  | cons cam configured ih =>
    have hnext : UnderWay { r with activeRecorders := r.activeRecorders.tryAdd cam.id ⟨cam, .waiting⟩ } id :=
      ih h
    unfold Dictionary.tryAdd at hnext
    split_ifs at hnext
    · exact hnext
    · exact hnext.of_wait

/-- The only way to come under way: the vault takes less than the quota. -/
theorem underWay_rises {event : Event} (hstep : r.step event = some r') (hbefore : ¬r.UnderWay id)
    (hafter : r'.UnderWay id) : event = .checkQuota id ∧ r.totalVaultSize < r.storageQuota := by
  cases steps_of_step hstep with
  | scan cameras => exact absurd hafter.of_scan hbefore
  | checkQuota hloop =>
    unfold BackgroundRecorders.checkQuota at hafter
    split_ifs at hafter with hfull
    · exact absurd hafter hbefore
    rename_i cameraId camera
    by_cases hid : id = cameraId
    · exact ⟨by rw [hid], Nat.lt_of_not_le hfull⟩
    · rcases hafter with ⟨loop, hlookup, hround⟩
      rw [Dictionary.lookup_set_ne hid] at hlookup
      exact absurd ⟨loop, hlookup, hround⟩ hbefore
  | createSegment timestamp hloop =>
    rename_i cameraId camera
    -- it has been admitted before
    have hid : id ≠ cameraId := by
      rintro rfl
      exact hbefore ⟨_, hloop, by simp⟩
    refine absurd ?_ hbefore
    unfold BackgroundRecorders.createSegment at hafter
    split at hafter
    · exact hafter.of_wait
    · dsimp only at hafter
      split_ifs at hafter
      · exact hafter.of_wait
      · rcases hafter with ⟨loop, hlookup, hround⟩
        rw [Dictionary.lookup_set_ne hid] at hlookup
        exact ⟨loop, hlookup, hround⟩
  | write count hloop =>
    unfold writeSegment at hafter
    split at hafter
    · exact absurd hafter hbefore
    · exact absurd ((underWay_congr rfl).mp hafter) hbefore
  | endSegment hloop => exact absurd hafter.of_wait hbefore
  | leave cameraId =>
    rcases hafter with ⟨loop, hlookup, hround⟩
    exact absurd ⟨loop, (Dictionary.lookup_remove.mp hlookup).2, hround⟩ hbefore
  | delete file => exact absurd ((underWay_congr rfl).mp hafter) hbefore

end

/-- Where only the recorders write to the vault, for at most so many cameras, and no segment takes
more than `limit`: in every reachable state, whatever the recorders do at the same time, the vault
is not larger than it was in the beginning or than the quota and one segment for each camera. A
recorder that is under way with a segment has found less than the quota in the vault, and has been
under way since then. -/
theorem vault_within_quota (cameraIds : List String) (limit storageQuota : ℕ) (files : Dictionary String ℕ)
    (events : List Event) (r : BackgroundRecorders)
    (hadmits : AtEach step (Admits cameraIds limit) ⟨storageQuota, files, ∅⟩ events)
    (hrun : run step ⟨storageQuota, files, ∅⟩ events = some r) :
    r.totalVaultSize ≤ max (files.sumBy id) (storageQuota + cameraIds.length * limit) ∧
      ∀ cameraId, r.UnderWay cameraId → ∃ before after r₀ r₁,
        events = before ++ .checkQuota cameraId :: after ∧
        run step ⟨storageQuota, files, ∅⟩ before = some r₀ ∧ r₀.totalVaultSize < storageQuota ∧
        step r₀ (.checkQuota cameraId) = some r₁ ∧
        AtEach step (fun r _ => r.UnderWay cameraId) r₁ after := by
  have hquota : ∀ events r, run step ⟨storageQuota, files, ∅⟩ events = some r →
      r.storageQuota = storageQuota := fun events r =>
    run_invariant (I := fun r => r.storageQuota = storageQuota)
      (fun _ _ _ h hstep => (storageQuota_step hstep).trans h) events ⟨storageQuota, files, ∅⟩ r rfl
  constructor
  · have hstart : Inv cameraIds limit (max (files.sumBy id) (storageQuota + cameraIds.length * limit))
        ⟨storageQuota, files, ∅⟩ := by
      refine ⟨by simp, by simp, by simp, le_max_of_le_left ?_⟩
      rw [committed, totalVaultSize]
      exact le_of_eq (Nat.add_zero _)
    have hinv := run_invariant_of
      (I := fun r => r.Inv cameraIds limit (max (files.sumBy id) (storageQuota + cameraIds.length * limit)) ∧
        r.storageQuota = storageQuota)
      (fun r event r' h hadmits hstep =>
        ⟨inv_step h.1 (by rw [h.2]; exact le_max_right _ _) hadmits hstep,
          (storageQuota_step hstep).trans h.2⟩) events _ r ⟨hstart, rfl⟩ hadmits hrun
    exact (Nat.le_add_right _ _).trans hinv.1.committed
  · intro cameraId hunderWay
    have hempty : ¬UnderWay ⟨storageQuota, files, ∅⟩ cameraId := by
      rintro ⟨loop, hloop, -⟩
      simp at hloop
    rcases run_since (P := fun r => UnderWay r cameraId) hrun hunderWay with hsince |
      ⟨before, event, after, r₀, r₁, hevents, hbefore, hnot, hstep, hrises, hafter⟩
    · cases events with
      | nil =>
        obtain rfl := Option.some.inj hrun
        exact absurd hunderWay hempty
      | cons event events => exact absurd hsince.1 hempty
    · rcases underWay_rises hstep hnot hrises with ⟨rfl, hroom⟩
      rw [hquota before r₀ hbefore] at hroom
      exact ⟨before, after, r₀, r₁, hevents, hbefore, hroom, hstep, hafter⟩

/-- Two cameras in a vault for a hundred bytes, of which ninety are taken: both find room. -/
def busyEvents : List Event :=
  let camera (id : String) : DiscoveryResult :=
    { CommanderBehavior.sampleCamera id with displayName := some id, isConfigured := true }
  [.scan [camera "door", camera "gate"], .checkQuota "door", .checkQuota "gate",
    .createSegment "door" "120000", .createSegment "gate" "120000", .write "door" 40, .write "gate" 50,
    .endSegment "door", .checkQuota "door"]

/-- The door has to wait with its second segment, the gate goes on with its first, and the vault
stays within the bound. -/
theorem vault_within_quota_busy :
    ∃ r, run step ⟨100, (∅ : Dictionary String ℕ).set "old.msg" 90, ∅⟩ busyEvents = some r ∧
      r.totalVaultSize = 180 ∧ r.totalVaultSize ≤ 200 ∧ ¬r.UnderWay "door" ∧
      ∃ before after r₀, busyEvents = before ++ .checkQuota "gate" :: after ∧
        run step ⟨100, (∅ : Dictionary String ℕ).set "old.msg" 90, ∅⟩ before = some r₀ ∧
        r₀.totalVaultSize < 100 := by
  have hreached : (run step ⟨100, (∅ : Dictionary String ℕ).set "old.msg" 90, ∅⟩ busyEvents).isSome = true := by
    decide +kernel
  rcases Option.isSome_iff_exists.mp hreached with ⟨r, hrun⟩
  have hsize : ((run step ⟨100, (∅ : Dictionary String ℕ).set "old.msg" 90, ∅⟩ busyEvents).map
      fun r => (r.totalVaultSize, (r.activeRecorders.lookup "door").map RecorderLoop.round,
        (r.activeRecorders.lookup "gate").map RecorderLoop.round)) =
      some (180, some .waiting, some (.writing "Sentinel_gate_120000.msg")) := by
    decide +kernel
  rw [hrun, Option.map_some, Option.some.injEq, Prod.mk.injEq, Prod.mk.injEq] at hsize
  rcases hsize with ⟨hsize, hdoor, hgate⟩
  rcases vault_within_quota ["door", "gate"] 50 100 ((∅ : Dictionary String ℕ).set "old.msg" 90)
    busyEvents r (by decide +kernel) hrun with ⟨hbound, hadmitted⟩
  rcases Option.map_eq_some_iff.mp hgate with ⟨loop, hloop, hround⟩
  rcases hadmitted "gate" ⟨loop, hloop, by rw [hround]; simp⟩ with
    ⟨before, after, r₀, -, hevents, hbefore, hroom, -, -⟩
  refine ⟨r, hrun, hsize, hbound, ?_, before, after, r₀, hevents, hbefore, hroom⟩
  rintro ⟨loop, hloop, hround⟩
  rw [hloop] at hdoor
  exact hround (Option.some.inj hdoor)

end BackgroundRecorders

end ManagedSecurity

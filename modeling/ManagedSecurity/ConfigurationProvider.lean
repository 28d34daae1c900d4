import ManagedSecurity.Lib.Dictionary
import ManagedSecurity.Lib.Transition
import Mathlib.Tactic

/-! # The configuration of the database (`SentinelDbConfigurationProvider`)

The provider publishes the camera table and remembers the version of the database, by
two separate queries. `Load` reads the rows and then records the version, a poll of the
timer compares and records the version and then reads the rows again. Other processes
commit in between; every commit raises the version.

* `Inv`: while no poll is about to read, a recorded version that is current means
  current data;
* `no_commit_missed`: whole runs, and the step of `Load` that breaks it.
-/

namespace ManagedSecurity

open Transition

/-- The columns of `CameraRecord` that are read. -/
structure CameraRow where
  cameraId : Option String
  streamUrl : Option String
  snapshotUrl : Option String
deriving DecidableEq, Repr

/-- The database, the published `Data`, the recorded version, and what is going on:
the number of loads that have not recorded yet, of polls that have not read yet, and
whether the timer runs. `rowsRead` are the rows of the latest read. -/
structure ConfigurationProvider where
  rows : List CameraRow
  version : ℕ
  data : Dictionary String String
  lastSchemaVersion : ℤ
  loading : ℕ
  polling : ℕ
  timer : Bool
  rowsRead : List CameraRow

namespace ConfigurationProvider

/-- The key of a field of a camera. -/
def cameraKey (index : ℕ) (field : String) : String :=
  "Cameras:" ++ toString index ++ ":" ++ field

/-- One row in the loop of `LoadDataAsync`. -/
def addRow (data : Dictionary String String) (row : CameraRow × ℕ) : Dictionary String String :=
  ((data.set (cameraKey row.2 "Id") (row.1.cameraId.getD "default")).set
    (cameraKey row.2 "Url") (row.1.streamUrl.getD "")).set
    (cameraKey row.2 "SnapshotUrl") (row.1.snapshotUrl.getD "")

/-- The data that the rows make. -/
def dataOf (rows : List CameraRow) : Dictionary String String := rows.zipIdx.foldl addRow ∅

/-- A provider of a database that exists. -/
def initial (rows : List CameraRow) (version : ℕ) : ConfigurationProvider :=
  ⟨rows, version, ∅, -1, 0, 0, false, []⟩

/-- `LoadDataAsync`. -/
def loadData (s : ConfigurationProvider) : ConfigurationProvider :=
  { s with data := dataOf s.rows, rowsRead := s.rows }

/-- `CheckForUpdatesAsync`. -/
def checkForUpdates (s : ConfigurationProvider) : ConfigurationProvider × Bool :=
  if s.lastSchemaVersion = -1 then
    ({ s with lastSchemaVersion := s.version }, false)
  else if s.version ≠ s.lastSchemaVersion then
    ({ s with lastSchemaVersion := s.version }, true)
  else
    (s, false)

/-- The steps of other processes, of loads and of polls. -/
inductive Event where
  | commit (rows : List CameraRow)
  | loadRead
  | loadRecord
  | pollCheck
  | pollRead
deriving DecidableEq, Repr

/-- One step. A load ignores what the check returns; the first one starts the timer. -/
def step (s : ConfigurationProvider) : Event → Option ConfigurationProvider
  | .commit rows => some { s with rows := rows, version := s.version + 1 }
  | .loadRead => some { s.loadData with loading := s.loading + 1 }
  | .loadRecord =>
    if s.loading = 0 then
      none
    else
      some { s.checkForUpdates.1 with loading := s.loading - 1, timer := true }
  | .pollCheck =>
    if s.timer then
      let result := s.checkForUpdates
      some { result.1 with polling := if result.2 then s.polling + 1 else s.polling }
    else
      none
  | .pollRead =>
    if s.polling = 0 then
      none
    else
      some { s.loadData with polling := s.polling - 1 }

/-- With no load or poll in progress, a recorded version that is current means that the
published data is the table. -/
def Fresh (s : ConfigurationProvider) : Prop :=
  s.loading = 0 → s.polling = 0 → s.lastSchemaVersion = s.version → s.data = dataOf s.rows

/-- A load records the version that is already recorded, or while a poll has yet to read
the rows, or with the rows of the latest read still in the table. -/
def RecordsCurrent (s : ConfigurationProvider) (event : Event) : Prop :=
  event = .loadRecord →
    s.lastSchemaVersion = s.version ∨ s.polling ≠ 0 ∨ dataOf s.rowsRead = dataOf s.rows

/-! ## The invariant -/

/-- While no poll is about to read, a recorded version that is current means current
data. -/
structure Inv (s : ConfigurationProvider) : Prop where
  known : s.lastSchemaVersion ≤ s.version
  recorded : s.timer = true → s.lastSchemaVersion ≠ -1
  read : s.data = dataOf s.rowsRead
  current : s.polling = 0 → s.lastSchemaVersion = s.version → s.data = dataOf s.rows

section

variable {s s' : ConfigurationProvider}

theorem inv_initial (rows : List CameraRow) (version : ℕ) : (initial rows version).Inv where
  known := by
    show (-1 : ℤ) ≤ version
    omega
  recorded := by simp [initial]
  read := rfl
  current := by
    intro _ hsame
    have hsame' : (-1 : ℤ) = version := hsame
    omega

/-- The check records the version of the database, and reports every change but the
first. -/
theorem checkForUpdates_eq (s : ConfigurationProvider) :
    s.checkForUpdates =
      ({ s with lastSchemaVersion := s.version },
        decide (s.lastSchemaVersion ≠ -1 ∧ s.lastSchemaVersion ≠ s.version)) := by
  unfold checkForUpdates
  split_ifs with hfirst hchanged
  · simp [hfirst]
  · simp [hfirst, Ne.symm hchanged]
  · rw [not_not] at hchanged
    have hrecord : ({ s with lastSchemaVersion := s.version } : ConfigurationProvider) = s := by
      rw [hchanged]
    rw [hrecord, decide_eq_false (fun h => h.2 hchanged.symm)]

theorem Inv.commit (hs : s.Inv) (rows : List CameraRow) :
    Inv { s with rows := rows, version := s.version + 1 } where
  known := by
    have hknown := hs.known
    show s.lastSchemaVersion ≤ ((s.version + 1 : ℕ) : ℤ)
    omega
  recorded := hs.recorded
  read := hs.read
  current := by
    intro _ hsame
    have hknown := hs.known
    have hsame' : s.lastSchemaVersion = ((s.version + 1 : ℕ) : ℤ) := hsame
    omega

/-- A read of the rows. -/
theorem Inv.read_rows (hs : s.Inv) (loading polling : ℕ) :
    Inv { s.loadData with loading := loading, polling := polling } where
  known := hs.known
  recorded := hs.recorded
  read := rfl
  current := fun _ _ => rfl

/-- A load records the version. -/
theorem Inv.loadRecord (hs : s.Inv) (hcond : RecordsCurrent s .loadRecord) (loading : ℕ) :
    Inv { s.checkForUpdates.1 with loading := loading, timer := true } := by
  rw [checkForUpdates_eq]
  refine ⟨le_rfl, ?_, hs.read, ?_⟩
  · intro _
    show (s.version : ℤ) ≠ -1
    omega
  · intro hidle _
    rcases hcond rfl with hsame | hpoll | hrows
    · exact hs.current hidle hsame
    · exact absurd hidle hpoll
    · exact hs.read.trans hrows

/-- A poll compares and records: when it finds a change, it goes on to read the rows. -/
theorem Inv.pollCheck (hs : s.Inv) (htimer : s.timer = true) :
    Inv { s.checkForUpdates.1 with
      polling := if s.checkForUpdates.2 then s.polling + 1 else s.polling } := by
  have hfirst := hs.recorded htimer
  rw [checkForUpdates_eq]
  refine ⟨le_rfl, ?_, hs.read, ?_⟩
  · intro _
    show (s.version : ℤ) ≠ -1
    omega
  · intro hidle _
    by_cases hsame : s.lastSchemaVersion = s.version
    · simp only [hsame, ne_eq, not_true_eq_false, and_false, decide_false] at hidle
      exact hs.current hidle hsame
    · simp [hfirst, hsame] at hidle

/-- Every step that meets the condition keeps the invariant. -/
theorem inv_step {event : Event} (hs : s.Inv) (hcond : RecordsCurrent s event)
    (h : step s event = some s') : s'.Inv := by
  cases event with
  | commit rows =>
    obtain rfl := Option.some.inj h
    exact hs.commit rows
  | loadRead =>
    obtain rfl := Option.some.inj h
    exact hs.read_rows _ _
  | loadRecord =>
    simp only [step] at h
    split_ifs at h
    obtain rfl := Option.some.inj h
    exact hs.loadRecord hcond _
  | pollCheck =>
    simp only [step] at h
    by_cases htimer : s.timer = true
    · rw [if_pos htimer] at h
      obtain rfl := Option.some.inj h
      exact hs.pollCheck htimer
    · rw [if_neg htimer] at h
      cases h
  | pollRead =>
    simp only [step] at h
    split_ifs at h
    obtain rfl := Option.some.inj h
    exact hs.read_rows _ _

theorem Inv.fresh (hs : s.Inv) : s.Fresh := fun _ hidle hsame => hs.current hidle hsame

/-- A lone load that records a new version with old rows. -/
theorem loadRecord_stale (hs : s.data = dataOf s.rowsRead) (hlone : s.loading = 1)
    (hcond : ¬ RecordsCurrent s .loadRecord) (h : step s .loadRecord = some s') : ¬ s'.Fresh := by
  rw [RecordsCurrent, Classical.not_imp] at hcond
  simp only [not_or, not_not] at hcond
  rcases hcond.2 with ⟨-, hidle, hrows⟩
  simp only [step, hlone, checkForUpdates_eq] at h
  obtain rfl := Option.some.inj h
  intro hfresh
  exact hrows (hs.symm.trans (hfresh rfl hidle rfl))

/-- The data are always those of the rows that were read last. -/
theorem read_step {event : Event} (hs : s.data = dataOf s.rowsRead) (h : step s event = some s') :
    s'.data = dataOf s'.rowsRead := by
  cases event with
  | commit rows =>
    obtain rfl := Option.some.inj h
    exact hs
  | loadRead =>
    obtain rfl := Option.some.inj h
    rfl
  | loadRecord =>
    simp only [step, checkForUpdates_eq] at h
    split_ifs at h
    obtain rfl := Option.some.inj h
    exact hs
  | pollCheck =>
    simp only [step, checkForUpdates_eq] at h
    by_cases htimer : s.timer = true
    · rw [if_pos htimer] at h
      obtain rfl := Option.some.inj h
      exact hs
    · rw [if_neg htimer] at h
      cases h
  | pollRead =>
    simp only [step] at h
    split_ifs at h
    obtain rfl := Option.some.inj h
    rfl

end

end ConfigurationProvider

open ConfigurationProvider in
/-- In a run whose loads all record with current rows, or with a poll behind them that
will read, no commit is missed in any state; a lone load that does otherwise misses one
at once. -/
theorem no_commit_missed (rows : List CameraRow) (version : ℕ) (events : List Event)
    (s : ConfigurationProvider) (hrun : run step (initial rows version) events = some s) :
    (AtEach step RecordsCurrent (initial rows version) events → s.Fresh) ∧
      ∀ s', s.loading = 1 → step s .loadRecord = some s' → ¬ RecordsCurrent s .loadRecord →
        ¬ s'.Fresh := by
  constructor
  · intro hcond
    have hs : s.Inv := run_invariant_of (fun _ _ _ hs hcond h => inv_step hs hcond h) events _ _
      (inv_initial rows version) hcond hrun
    exact hs.fresh
  · intro s' hlone hstep hcond
    have hread : s.data = dataOf s.rowsRead :=
      run_invariant (fun t _ _ ht h => read_step ht h) events _ s rfl hrun
    exact loadRecord_stale hread hlone hcond hstep

namespace ConfigurationProvider

/-- A table with one camera. -/
def oneCamera (url : String) : List CameraRow := [⟨some "cam-01", some url, none⟩]

/-- A commit behind the load, which a poll notices. -/
def polledCommit : List Event :=
  [.loadRead, .loadRecord, .commit (oneCamera "rtsp://new-url"), .pollCheck, .pollRead]

/-- A commit between the two steps of the load. -/
def missedCommit : List Event := [.loadRead, .commit (oneCamera "rtsp://new-url")]

/-- The state that a run from one camera leads to. -/
def after (events : List Event) : ConfigurationProvider :=
  (run step (initial (oneCamera "rtsp://old-url") 1) events).getD
    (initial (oneCamera "rtsp://old-url") 1)

/-- The rows that the load has read are not the rows of the table. -/
theorem stale_rows : dataOf (after missedCommit).rowsRead ≠ dataOf (after missedCommit).rows := by
  intro hsame
  have hlookup := congrArg (fun data => AList.lookup "Cameras:0:Url" data) hsame
  revert hlookup
  decide

end ConfigurationProvider

open ConfigurationProvider in
/-- The poll brings the commit; the load that records behind it does not. -/
theorem no_commit_missed_polled :
    (run step (initial (oneCamera "rtsp://old-url") 1) polledCommit = some (after polledCommit) ∧
      (after polledCommit).Fresh) ∧
    ∃ s', step (after missedCommit) .loadRecord = some s' ∧ ¬ s'.Fresh := by
  have hpolled : run step (initial (oneCamera "rtsp://old-url") 1) polledCommit =
      some (after polledCommit) := rfl
  have hmissed : run step (initial (oneCamera "rtsp://old-url") 1) missedCommit =
      some (after missedCommit) := rfl
  have hcond : AtEach step RecordsCurrent (initial (oneCamera "rtsp://old-url") 1) polledCommit := by
    have hother : ∀ s event, event ≠ .loadRecord → RecordsCurrent s event :=
      fun _ _ hne h => absurd h hne
    refine ⟨hother _ _ (by decide), ?_⟩
    intro s₁ h₁
    -- the load records right behind its read
    obtain rfl := Option.some.inj h₁
    refine ⟨fun _ => Or.inr (Or.inr rfl), ?_⟩
    intro s₂ _
    exact ⟨hother _ _ (by decide), fun _ _ => ⟨hother _ _ (by decide),
      fun _ _ => ⟨hother _ _ (by decide), fun _ _ => trivial⟩⟩⟩
  have hstale : ¬ RecordsCurrent (after missedCommit) .loadRecord := by
    intro h
    rcases h rfl with hsame | hpoll | hrows
    · revert hsame
      decide
    · exact hpoll rfl
    · exact stale_rows hrows
  exact ⟨⟨hpolled, (no_commit_missed _ _ _ _ hpolled).1 hcond⟩, _, rfl,
    (no_commit_missed _ _ _ _ hmissed).2 _ rfl rfl hstale⟩

open ConfigurationProvider in
/-- Rows read, commit, version recorded: nothing is in progress, the recorded version is
that of the database, and the published URL is the old one. -/
theorem commit_missed_by_load :
    run step (initial (oneCamera "rtsp://old-url") 1) (missedCommit ++ [.loadRecord]) =
        some (after (missedCommit ++ [.loadRecord])) ∧
      ¬ (after (missedCommit ++ [.loadRecord])).Fresh := by
  refine ⟨rfl, ?_⟩
  intro hfresh
  exact stale_rows (hfresh rfl rfl rfl)

end ManagedSecurity

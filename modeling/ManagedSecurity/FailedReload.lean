import ManagedSecurity.ConfigurationProvider
import ManagedSecurity.Lib.Outcome

/-! # A reload that fails

`LoadDataAsync` fills a new dictionary in a `try` block and publishes it behind the block,
so a `SqliteException` publishes the rows that were read before it. What a poll has found
out is recorded by then, and nothing takes it back.

* `readTable`: the `try` block, which may throw at any point;
* `tryStep`: the steps of the provider together with those that fail;
* `Keeps`: what a failed reload should do;
* `failed_reload_keeps`: exactly when it does.
-/

namespace ManagedSecurity

open Outcome Transition

/-- The exception of the database, which both methods swallow. -/
structure SqliteException where
deriving DecidableEq, Repr

/-- Where the read of the table throws: no connection, no reader, or the `ReadAsync` behind
some rows. -/
inductive ReadFailure where
  | connection
  | query
  | row (index : ℕ)
deriving DecidableEq, Repr

namespace ConfigurationProvider

/-! ## The methods, with a database that may throw -/

/-- The loop of `LoadDataAsync`. -/
def readRows (failure : Option ReadFailure) :
    List CameraRow → ℕ → EStateM SqliteException (Dictionary String String) Unit
  | [], index => ensure (failure ≠ some (.row index)) ⟨⟩
  | row :: rows, index => do
    ensure (failure ≠ some (.row index)) ⟨⟩
    modify fun data => addRow data (row, index)
    readRows failure rows (index + 1)

/-- The `try` block of `LoadDataAsync`. -/
def readTable (failure : Option ReadFailure) (rows : List CameraRow) :
    EStateM SqliteException (Dictionary String String) Unit := do
  ensure (failure ≠ some .connection) ⟨⟩
  ensure (failure ≠ some .query) ⟨⟩
  readRows failure rows 0

/-- The rows that are read before the failure. -/
def rowsBefore (rows : List CameraRow) : Option ReadFailure → List CameraRow
  | none => rows
  | some .connection => []
  | some .query => []
  | some (.row index) => rows.take index

/-- `LoadDataAsync`: the dictionary is published whether the block has thrown or not. -/
def loadDataAsync (s : ConfigurationProvider) (failure : Option ReadFailure) :
    ConfigurationProvider :=
  { s with
    data := finalState (readTable failure s.rows ∅)
    rowsRead := rowsBefore s.rows failure }

/-- The read of the table throws. -/
def ReadThrows (s : ConfigurationProvider) (failure : ReadFailure) : Prop :=
  threw (readTable (some failure) s.rows ∅) = true

instance (s : ConfigurationProvider) (failure : ReadFailure) : Decidable (s.ReadThrows failure) :=
  inferInstanceAs (Decidable (_ = true))

/-- A step that succeeds, or one in which the database throws. -/
inductive Attempt where
  | succeeds (event : Event)
  | loadReadFails (failure : ReadFailure)
  | loadRecordFails
  | pollCheckFails
  | pollReadFails (failure : ReadFailure)
deriving DecidableEq, Repr

/-- One step. A check that fails returns `false`; the load that fails goes on, too, and
starts the timer. -/
def tryStep (s : ConfigurationProvider) : Attempt → Option ConfigurationProvider
  | .succeeds event => step s event
  | .loadReadFails failure =>
    if s.ReadThrows failure then
      some { s.loadDataAsync (some failure) with loading := s.loading + 1 }
    else
      none
  | .loadRecordFails =>
    if s.loading = 0 then
      none
    else
      some { s with loading := s.loading - 1, timer := true }
  | .pollCheckFails => if s.timer then some s else none
  | .pollReadFails failure =>
    if s.polling ≠ 0 ∧ s.ReadThrows failure then
      some { s.loadDataAsync (some failure) with polling := s.polling - 1 }
    else
      none

/-- One reload whose read of the table fails, with the commits of other processes between
its two steps. A load records the version behind the read, if that does not fail as well. -/
inductive Reload where
  | load (failure : ReadFailure) (commits : List (List CameraRow)) (records : Bool)
  | poll (commits : List (List CameraRow)) (failure : ReadFailure)
deriving DecidableEq, Repr

/-- The steps of a reload. -/
def Reload.attempts : Reload → List Attempt
  | .load failure commits records =>
    .loadReadFails failure :: (commits.map (.succeeds ∘ .commit) ++
      [if records then .succeeds .loadRecord else .loadRecordFails])
  | .poll commits failure =>
    .succeeds .pollCheck :: (commits.map (.succeeds ∘ .commit) ++ [.pollReadFails failure])

/-- The reload takes place: a poll reads the table only if its check reports a change. -/
def Reload.Triggered (s : ConfigurationProvider) : Reload → Prop
  | .load _ _ _ => True
  | .poll _ _ => s.checkForUpdates.2 = true

/-! ## What a failed reload should do -/

/-- The database is not at the version that is recorded. -/
def Changed (s : ConfigurationProvider) : Prop := s.lastSchemaVersion ≠ s.version

/-- A later poll reports a change, although nothing more is committed. -/
def Detectable (s : ConfigurationProvider) : Prop :=
  ∃ polls s', (∀ attempt ∈ polls, attempt = .pollCheckFails ∨ attempt = .succeeds .pollCheck) ∧
    run tryStep s polls = some s' ∧ s.polling < s'.polling

/-- The published data are those before the reload, and a change that was there is still
detected. -/
structure Keeps (s s' : ConfigurationProvider) : Prop where
  data : s'.data = s.data
  detected : s.Changed → s'.Detectable

/-- When a failed reload does that. -/
def Reload.KeepsWhen (s : ConfigurationProvider) : Reload → Prop
  | .load failure _ records =>
    dataOf (rowsBefore s.rows (some failure)) = s.data ∧
      (s.lastSchemaVersion = s.version ∨ (records = false ∧ s.lastSchemaVersion ≠ -1))
  | .poll commits failure =>
    dataOf (rowsBefore (commits.getLastD s.rows) (some failure)) = s.data ∧ commits ≠ []

/-! ## What is published -/

section

variable {s s' : ConfigurationProvider} {failure : ReadFailure} {rows : List CameraRow}

/-- Without a failure the loop adds all rows. -/
theorem readRows_all {other : Option ReadFailure} (hother : ∀ index, other ≠ some (.row index)) :
    ∀ (rows : List CameraRow) (index : ℕ) (data : Dictionary String String),
      readRows other rows index data = .ok () ((rows.zipIdx index).foldl addRow data) := by
  intro rows
  induction rows with
  | nil =>
    intro index data
    exact ensure_true (hother index) _ _
  | cons row rows ih =>
    intro index data
    rw [readRows, bind_ok (ensure_true (hother index) _ _), modify_bind, ih]
    rfl

/-- With one it adds those before it. -/
theorem readRows_some (n : ℕ) :
    ∀ (rows : List CameraRow) (index : ℕ) (data : Dictionary String String), index ≤ n →
      finalState (readRows (some (.row n)) rows index data) =
        ((rows.take (n - index)).zipIdx index).foldl addRow data := by
  intro rows
  induction rows with
  | nil =>
    intro index data _
    rw [readRows, List.take_nil]
    unfold ensure
    split
    · rfl
    · rfl
  | cons row rows ih =>
    intro index data hindex
    rw [readRows]
    by_cases hlast : n = index
    · -- the exception comes before this row
      subst hlast
      rw [bind_error (ensure_false (not_not_intro rfl) _ _), Nat.sub_self]
      rfl
    · have hgo : some (ReadFailure.row n) ≠ some (.row index) := by
        intro heq
        exact hlast (ReadFailure.row.inj (Option.some.inj heq))
      have hcount : n - index = (n - (index + 1)) + 1 := by omega
      rw [bind_ok (ensure_true hgo _ _), modify_bind, ih _ _ (by omega), hcount]
      rfl

/-- What is published are the rows read before the failure. -/
theorem loadDataAsync_eq (s : ConfigurationProvider) (other : Option ReadFailure) :
    s.loadDataAsync other =
      { s with data := dataOf (rowsBefore s.rows other), rowsRead := rowsBefore s.rows other } := by
  have hdata : finalState (readTable other s.rows ∅) = dataOf (rowsBefore s.rows other) := by
    rw [readTable]
    rcases other with _ | _ | _ | n
    · rw [bind_ok (ensure_true (by decide) _ _), bind_ok (ensure_true (by decide) _ _),
        readRows_all (by intro index h; cases h)]
      rfl
    · rfl
    · rfl
    · rw [bind_ok (ensure_true (by simp) _ _), bind_ok (ensure_true (by simp) _ _),
        readRows_some n _ _ _ (Nat.zero_le n)]
      rfl
  rw [loadDataAsync, hdata]

/-- A read that does not fail is the one of the other runs. -/
theorem loadDataAsync_none (s : ConfigurationProvider) : s.loadDataAsync none = s.loadData :=
  loadDataAsync_eq s none

/-! ## What a step does -/

theorem succeeds_pollCheck (h : tryStep s (.succeeds .pollCheck) = some s') :
    s.timer = true ∧ s' = { s with
      lastSchemaVersion := s.version
      polling := if s.lastSchemaVersion ≠ -1 ∧ s.lastSchemaVersion ≠ s.version then s.polling + 1
        else s.polling } := by
  simp only [tryStep, step, checkForUpdates_eq, decide_eq_true_eq] at h
  by_cases htimer : s.timer = true
  · rw [if_pos htimer] at h
    exact ⟨htimer, (Option.some.inj h).symm⟩
  · rw [if_neg htimer] at h
    cases h

theorem succeeds_loadRecord (h : tryStep s (.succeeds .loadRecord) = some s') :
    s' = { s with lastSchemaVersion := s.version, loading := s.loading - 1, timer := true } := by
  simp only [tryStep, step, checkForUpdates_eq] at h
  split_ifs at h
  exact (Option.some.inj h).symm

theorem succeeds_pollRead (h : tryStep s (.succeeds .pollRead) = some s') :
    s' = { s.loadData with polling := s.polling - 1 } := by
  simp only [tryStep, step] at h
  split_ifs at h
  exact (Option.some.inj h).symm

theorem fails_loadRead (h : tryStep s (.loadReadFails failure) = some s') :
    s' = { s with
      data := dataOf (rowsBefore s.rows (some failure))
      rowsRead := rowsBefore s.rows (some failure)
      loading := s.loading + 1 } := by
  simp only [tryStep, loadDataAsync_eq] at h
  split_ifs at h
  exact (Option.some.inj h).symm

theorem fails_loadRecord (h : tryStep s .loadRecordFails = some s') :
    s' = { s with loading := s.loading - 1, timer := true } := by
  simp only [tryStep] at h
  split_ifs at h
  exact (Option.some.inj h).symm

theorem fails_pollCheck (h : tryStep s .pollCheckFails = some s') : s' = s := by
  simp only [tryStep] at h
  split_ifs at h
  exact (Option.some.inj h).symm

theorem fails_pollRead (h : tryStep s (.pollReadFails failure) = some s') :
    s' = { s with
      data := dataOf (rowsBefore s.rows (some failure))
      rowsRead := rowsBefore s.rows (some failure)
      polling := s.polling - 1 } := by
  simp only [tryStep, loadDataAsync_eq] at h
  split_ifs at h
  exact (Option.some.inj h).symm

/-! ## What a later poll detects -/

/-- Polls of a version that is recorded, or of the first one, report nothing. -/
theorem polls_silent :
    ∀ (polls : List Attempt) (s : ConfigurationProvider),
      (∀ attempt ∈ polls, attempt = .pollCheckFails ∨ attempt = .succeeds .pollCheck) →
      s.lastSchemaVersion = -1 ∨ s.lastSchemaVersion = s.version → run tryStep s polls = some s' →
      s'.polling = s.polling := by
  intro polls
  induction polls with
  | nil =>
    intro s _ _ hrun
    obtain rfl := Option.some.inj hrun
    rfl
  | cons attempt polls ih =>
    intro s hpolls hsilent hrun
    rcases run_cons.mp hrun with ⟨m, hstep, hrest⟩
    have hothers : ∀ other ∈ polls, other = .pollCheckFails ∨ other = .succeeds .pollCheck :=
      fun other hmem => hpolls other (List.mem_cons_of_mem _ hmem)
    rcases hpolls attempt List.mem_cons_self with rfl | rfl
    · obtain rfl := fails_pollCheck hstep
      exact ih _ hothers hsilent hrest
    · -- the check records the version and does not report it
      obtain ⟨-, rfl⟩ := succeeds_pollCheck hstep
      have hquiet : ¬ (s.lastSchemaVersion ≠ -1 ∧ s.lastSchemaVersion ≠ s.version) := by
        rintro ⟨hfirst, hchanged⟩
        exact hsilent.elim hfirst hchanged
      have hsame := ih _ hothers (Or.inr rfl) hrest
      rwa [if_neg hquiet] at hsame

/-- The next poll whose query succeeds decides. -/
theorem detectable_iff (htimer : s.timer = true) :
    s.Detectable ↔ s.lastSchemaVersion ≠ -1 ∧ s.lastSchemaVersion ≠ s.version := by
  constructor
  · rintro ⟨polls, s', hpolls, hrun, hreported⟩
    by_contra hnot
    have hsilent : s.lastSchemaVersion = -1 ∨ s.lastSchemaVersion = s.version := by
      rw [not_and_or, not_not, not_not] at hnot
      exact hnot
    rw [polls_silent polls s hpolls hsilent hrun] at hreported
    exact lt_irrefl _ hreported
  · intro hchanged
    refine ⟨[.succeeds .pollCheck],
      { s with lastSchemaVersion := s.version, polling := s.polling + 1 }, ?_, ?_, Nat.lt_succ_self _⟩
    · intro attempt hmem
      exact Or.inr (List.mem_singleton.mp hmem)
    · rw [run_cons]
      refine ⟨_, ?_, rfl⟩
      simp only [tryStep, step, htimer, checkForUpdates_eq, decide_eq_true hchanged, if_true]

/-! ## A reload -/

/-- The commits of other processes. -/
theorem run_commits :
    ∀ (commits : List (List CameraRow)) (s : ConfigurationProvider),
      run tryStep s (commits.map (.succeeds ∘ .commit)) =
        some { s with rows := commits.getLastD s.rows, version := s.version + commits.length } := by
  intro commits
  induction commits with
  | nil =>
    intro s
    rfl
  | cons rows commits ih =>
    intro s
    rw [List.map_cons, run_cons.mpr ⟨_, rfl, ih _⟩, List.getLastD_cons, List.length_cons]
    congr 2
    show s.version + 1 + commits.length = s.version + (commits.length + 1)
    omega

/-- The recorded version is never ahead of the database. -/
theorem known_step {attempt : Attempt} (hs : s.lastSchemaVersion ≤ s.version)
    (h : tryStep s attempt = some s') : s'.lastSchemaVersion ≤ s'.version := by
  cases attempt with
  | succeeds event =>
    cases event with
    | commit rows =>
      obtain rfl := Option.some.inj h
      show s.lastSchemaVersion ≤ ((s.version + 1 : ℕ) : ℤ)
      omega
    | loadRead =>
      obtain rfl := Option.some.inj h
      exact hs
    | loadRecord =>
      rw [succeeds_loadRecord h]
    | pollCheck =>
      rw [(succeeds_pollCheck h).2]
    | pollRead =>
      rw [succeeds_pollRead h]
      exact hs
  | loadReadFails failure =>
    rw [fails_loadRead h]
    exact hs
  | loadRecordFails =>
    rw [fails_loadRecord h]
    exact hs
  | pollCheckFails =>
    rw [fails_pollCheck h]
    exact hs
  | pollReadFails failure =>
    rw [fails_pollRead h]
    exact hs

/-- A load whose read of the table fails. -/
theorem load_keeps_iff (hknown : s.lastSchemaVersion ≤ s.version) {commits : List (List CameraRow)}
    {records : Bool} (h : run tryStep s (Reload.load failure commits records).attempts = some s') :
    Keeps s s' ↔ (Reload.load failure commits records).KeepsWhen s := by
  rcases run_cons.mp h with ⟨s₁, hread, hrest⟩
  obtain rfl := fails_loadRead hread
  rcases run_append.mp hrest with ⟨s₂, hcommits, hlast⟩
  rw [run_commits] at hcommits
  obtain rfl := Option.some.inj hcommits
  rcases run_cons.mp hlast with ⟨s₃, hrecord, hdone⟩
  obtain rfl := Option.some.inj hdone
  cases records with
  | true =>
    -- the version is recorded, so no later poll reports it
    obtain rfl := succeeds_loadRecord hrecord
    constructor
    · intro hkeeps
      refine ⟨hkeeps.data, Or.inl ?_⟩
      by_contra hchanged
      exact ((detectable_iff rfl).mp (hkeeps.detected hchanged)).2 rfl
    · rintro ⟨hdata, hsame | ⟨hfalse, -⟩⟩
      · exact ⟨hdata, fun hchanged => absurd hsame hchanged⟩
      · cases hfalse
  | false =>
    obtain rfl := fails_loadRecord hrecord
    constructor
    · intro hkeeps
      refine ⟨hkeeps.data, ?_⟩
      by_cases hsame : s.lastSchemaVersion = s.version
      · exact Or.inl hsame
      · exact Or.inr ⟨rfl, ((detectable_iff rfl).mp (hkeeps.detected hsame)).1⟩
    · rintro ⟨hdata, hcases⟩
      refine ⟨hdata, fun hchanged => (detectable_iff rfl).mpr ?_⟩
      rcases hcases with hsame | ⟨-, hfirst⟩
      · exact absurd hsame hchanged
      · refine ⟨hfirst, ?_⟩
        have hbehind : s.lastSchemaVersion ≠ s.version := hchanged
        show s.lastSchemaVersion ≠ ((s.version + commits.length : ℕ) : ℤ)
        omega

/-- A poll has recorded the version before it reads, so only a further commit is left to
detect. -/
theorem poll_keeps_iff {commits : List (List CameraRow)}
    (htriggered : (Reload.poll commits failure).Triggered s)
    (h : run tryStep s (Reload.poll commits failure).attempts = some s') :
    Keeps s s' ↔ (Reload.poll commits failure).KeepsWhen s := by
  have hchanged : s.Changed := by
    have hreports : s.checkForUpdates.2 = true := htriggered
    rw [checkForUpdates_eq] at hreports
    exact (of_decide_eq_true hreports).2
  rcases run_cons.mp h with ⟨s₁, hcheck, hrest⟩
  obtain ⟨htimer, rfl⟩ := succeeds_pollCheck hcheck
  rcases run_append.mp hrest with ⟨s₂, hcommits, hlast⟩
  rw [run_commits] at hcommits
  obtain rfl := Option.some.inj hcommits
  rcases run_cons.mp hlast with ⟨s₃, hread, hdone⟩
  obtain rfl := Option.some.inj hdone
  obtain rfl := fails_pollRead hread
  constructor
  · intro hkeeps
    refine ⟨hkeeps.data, ?_⟩
    rintro rfl
    have hlater := hkeeps.detected hchanged
    rw [detectable_iff] at hlater
    · exact hlater.2 rfl
    · exact htimer
  · rintro ⟨hdata, hcommit⟩
    refine ⟨hdata, fun _ => ?_⟩
    rw [detectable_iff]
    · have hlen : 0 < commits.length := List.length_pos_iff.mpr hcommit
      show (s.version : ℤ) ≠ -1 ∧ (s.version : ℤ) ≠ ((s.version + commits.length : ℕ) : ℤ)
      omega
    · exact htimer

end

end ConfigurationProvider

open ConfigurationProvider in
/-- A failed reload from any state that steps, failing or not, lead to. The published data
and the change are kept exactly under the condition; for a poll with no commit behind its
check, never. -/
theorem failed_reload_keeps (rows : List CameraRow) (version : ℕ) (before : List Attempt)
    (s : ConfigurationProvider) (hrun : run tryStep (initial rows version) before = some s)
    (reload : Reload) (htriggered : reload.Triggered s) (s' : ConfigurationProvider)
    (hreload : run tryStep s reload.attempts = some s') :
    Keeps s s' ↔ reload.KeepsWhen s := by
  cases reload with
  | load failure commits records =>
    apply load_keeps_iff _ hreload
    refine run_invariant (fun t _ _ ht h => known_step ht h) before _ s ?_ hrun
    show (-1 : ℤ) ≤ version
    omega
  | poll commits failure => exact poll_keeps_iff htriggered hreload

namespace ConfigurationProvider

/-- A camera is published, and another process adds one. -/
def addedCamera : List Attempt :=
  [.succeeds .loadRead, .succeeds .loadRecord,
    .succeeds (.commit (oneCamera "rtsp://old-url" ++ oneCamera "rtsp://new-url"))]

/-- The state that attempts lead to from one camera. -/
def tried (attempts : List Attempt) : ConfigurationProvider :=
  (run tryStep (initial (oneCamera "rtsp://old-url") 1) attempts).getD
    (initial (oneCamera "rtsp://old-url") 1)

end ConfigurationProvider

open ConfigurationProvider in
/-- A load that fails behind the first camera, and then in its check. -/
theorem failed_reload_keeps_added :
    ∃ s', run tryStep (tried addedCamera) (Reload.load (.row 1) [] false).attempts = some s' ∧
      Keeps (tried addedCamera) s' := by
  have hrun : run tryStep (initial (oneCamera "rtsp://old-url") 1) addedCamera =
      some (tried addedCamera) := rfl
  have hload : ∃ s', run tryStep (tried addedCamera) (Reload.load (.row 1) [] false).attempts =
      some s' := ⟨_, rfl⟩
  rcases hload with ⟨s', hload⟩
  refine ⟨s', hload, ?_⟩
  apply (failed_reload_keeps _ _ _ _ hrun (.load (.row 1) [] false) trivial s' hload).mpr
  constructor
  · rfl
  · exact Or.inr ⟨rfl, by decide⟩

open ConfigurationProvider in
/-- The poll finds the new camera and then no connection: the configuration is empty, and
no later poll reports a change. -/
theorem reload_loses_configuration :
    ∃ s', Reload.Triggered (tried addedCamera) (.poll [] .connection) ∧
      run tryStep (tried addedCamera) (Reload.poll [] .connection).attempts = some s' ∧
      (tried addedCamera).data = dataOf (oneCamera "rtsp://old-url") ∧ s'.data = ∅ ∧
      ¬ s'.Detectable := by
  refine ⟨_, rfl, rfl, rfl, rfl, ?_⟩
  rw [detectable_iff rfl]
  intro h
  exact h.2 rfl

end ManagedSecurity

import ManagedSecurity.Lib.Transition
import Mathlib.Data.List.MinMax
import Mathlib.Tactic

/-! # The job queue (`SentinelDbJobLeaseProvider`)

The table `orchestrator.Jobs` with the two statements of the provider and the
insertion of a job, each executed atomically. A label says which statement is
executed, at which time, and which rows it finds locked by statements that are
still under way; the runs of the table are therefore all interleavings of the
statements of all agents.

`leases` and `removals` record what the statements have returned and removed, so
that the history of a job can be spoken about.

* `fetchNextJob_some`, `fetchNextJob_none`: what a fetch returns, and when nothing;
* `Jobs.Inv`: the columns of a row against the history of its leases;
* `lease_exclusive`: whole runs.
-/

namespace ManagedSecurity

open Transition

/-- `JobLeaseRecord`: a row of the table. -/
structure JobLeaseRecord where
  id : ℤ
  tenantId : ℤ
  jobType : String
  payload : String
  assignedAgentId : Option String
  acquiredAtEpoch : ℤ
  expiresAtEpoch : ℤ
deriving DecidableEq, Repr

/-- The table, the time of the latest fetch, the numbers that were ever given to
a job, and what has been returned and removed so far. -/
structure Jobs where
  rows : List JobLeaseRecord
  clock : ℤ
  used : List ℤ
  leases : List JobLeaseRecord
  removals : List (ℤ × String)
deriving DecidableEq, Repr

namespace Jobs

/-- The empty table. -/
def empty (clock : ℤ) : Jobs := ⟨[], clock, [], [], []⟩

/-- `WHERE AssignedAgentId IS NULL OR ExpiresAtEpoch < @now`. -/
def Fetchable (now : ℤ) (row : JobLeaseRecord) : Prop :=
  row.assignedAgentId = none ∨ row.expiresAtEpoch < now

instance (now : ℤ) (row : JobLeaseRecord) : Decidable (Fetchable now row) :=
  inferInstanceAs (Decidable (_ ∨ _))

/-- `SELECT Id ... ORDER BY Id ASC FOR UPDATE SKIP LOCKED LIMIT 1`. -/
def unlockedJob (s : Jobs) (now : ℤ) (locked : List ℤ) : Option ℤ :=
  ((s.rows.filter fun row => decide (Fetchable now row ∧ row.id ∉ locked)).map
    JobLeaseRecord.id).min?

/-- `SET AssignedAgentId = @agentId, AcquiredAtEpoch = @now, ExpiresAtEpoch = @expires`. -/
def assign (agentId : String) (now expires : ℤ) (row : JobLeaseRecord) : JobLeaseRecord :=
  { row with assignedAgentId := some agentId, acquiredAtEpoch := now, expiresAtEpoch := expires }

/-- `FetchNextJobAsync`: the table after the update, and the row that is returned.
An epoch counts seconds up to the year 9999 and a duration is an `int`, so that
the sum fits a `long`. -/
def fetchNextJob (s : Jobs) (agentId : String) (durationSeconds now : ℤ) (locked : List ℤ) :
    List JobLeaseRecord × Option JobLeaseRecord :=
  let expires := now + durationSeconds
  match s.unlockedJob now locked with
  | none => (s.rows, none)
  | some id =>
    (s.rows.map fun row => if row.id = id then assign agentId now expires row else row,
      (s.rows.find? fun row => row.id = id).map (assign agentId now expires))

/-- `ReleaseLeaseAsync`: `DELETE ... WHERE Id = @jobId AND AssignedAgentId = @agentId`. -/
def releaseLease (s : Jobs) (jobId : ℤ) (agentId : String) : List JobLeaseRecord :=
  s.rows.filter fun row => ¬ (row.id = jobId ∧ row.assignedAgentId = some agentId)

/-- The row of a new job. -/
def newRow (id tenantId : ℤ) (jobType payload : String) : JobLeaseRecord :=
  ⟨id, tenantId, jobType, payload, none, 0, 0⟩

/-- The statements that are executed. -/
inductive Statement where
  | insert (id tenantId : ℤ) (jobType payload : String)
  | fetch (agentId : String) (durationSeconds : ℕ) (now : ℤ) (locked : List ℤ)
  | release (jobId : ℤ) (agentId : String)
deriving DecidableEq, Repr

/-- One statement. A new job gets a number that no job has had; the clock never
goes back. -/
def step (s : Jobs) : Statement → Option Jobs
  | .insert id tenantId jobType payload =>
    if id ∈ s.used then
      none
    else
      some { s with rows := s.rows ++ [newRow id tenantId jobType payload], used := id :: s.used }
  | .fetch agentId durationSeconds now locked =>
    if now < s.clock then
      none
    else
      let result := s.fetchNextJob agentId durationSeconds now locked
      some { s with
        rows := result.1
        clock := now
        leases := s.leases ++ result.2.toList }
  | .release jobId agentId =>
    some { s with
      rows := s.releaseLease jobId agentId
      removals := s.removals ++
        (s.rows.filter fun row => row.id = jobId ∧ row.assignedAgentId = some agentId).map
          fun row => (row.id, agentId) }

/-- The latest lease of a job. -/
def latestLease (s : Jobs) (id : ℤ) : Option JobLeaseRecord :=
  s.leases.reverse.find? fun lease => lease.id = id

/-! ## The statements -/

section

variable {s s' : Jobs} {agentId : String} {durationSeconds now : ℤ} {locked : List ℤ}
  {r row : JobLeaseRecord}

@[simp] theorem assign_id (agentId : String) (now expires : ℤ) (row : JobLeaseRecord) :
    (assign agentId now expires row).id = row.id := rfl

/-- A number identifies a row. -/
theorem row_unique {rows : List JobLeaseRecord} (hnodup : (rows.map JobLeaseRecord.id).Nodup)
    {row row' : JobLeaseRecord} (hrow : row ∈ rows) (hrow' : row' ∈ rows) (hid : row.id = row'.id) :
    row = row' :=
  List.inj_on_of_nodup_map hnodup hrow hrow' hid

theorem find?_id {rows : List JobLeaseRecord} (hnodup : (rows.map JobLeaseRecord.id).Nodup)
    (hrow : row ∈ rows) : rows.find? (fun row' => row'.id = row.id) = some row := by
  cases hfind : rows.find? (fun row' => row'.id = row.id) with
  | none =>
    have hnone := List.find?_eq_none.mp hfind row hrow
    simp at hnone
  | some row' =>
    have hid : row'.id = row.id := by simpa using List.find?_some hfind
    rw [row_unique hnodup (List.mem_of_find?_eq_some hfind) hrow hid]

/-- A fetch that returns a job: a row that could be fetched and was not locked,
which the update then assigns. -/
theorem fetchNextJob_some (hnodup : (s.rows.map JobLeaseRecord.id).Nodup)
    (h : (s.fetchNextJob agentId durationSeconds now locked).2 = some r) :
    ∃ row ∈ s.rows, Fetchable now row ∧ row.id ∉ locked ∧
      r = assign agentId now (now + durationSeconds) row ∧
      (s.fetchNextJob agentId durationSeconds now locked).1 =
        s.rows.map fun row' => if row'.id = row.id then r else row' := by
  unfold fetchNextJob at h ⊢
  cases hjob : s.unlockedJob now locked with
  | none =>
    rw [hjob] at h
    cases h
  | some id =>
    rw [hjob] at h
    rcases List.mem_map.mp (List.min?_mem hjob) with ⟨row, hrow, rfl⟩
    rcases List.mem_filter.mp hrow with ⟨hmem, hcond⟩
    rcases of_decide_eq_true hcond with ⟨hfetch, hfree⟩
    simp only [find?_id hnodup hmem, Option.map_some, Option.some.injEq] at h
    refine ⟨row, hmem, hfetch, hfree, h.symm, List.map_congr_left ?_⟩
    intro row' hrow'
    by_cases hid : row'.id = row.id
    · rw [if_pos hid, if_pos hid, row_unique hnodup hrow' hmem hid, h]
    · rw [if_neg hid, if_neg hid]

/-- A fetch that returns nothing: every row is leased or locked, and the table is
left alone. -/
theorem fetchNextJob_none (hnodup : (s.rows.map JobLeaseRecord.id).Nodup)
    (h : (s.fetchNextJob agentId durationSeconds now locked).2 = none) :
    (∀ row ∈ s.rows, ¬ Fetchable now row ∨ row.id ∈ locked) ∧
      (s.fetchNextJob agentId durationSeconds now locked).1 = s.rows := by
  unfold fetchNextJob at h ⊢
  cases hjob : s.unlockedJob now locked with
  | some id =>
    rw [hjob] at h
    rcases List.mem_map.mp (List.min?_mem hjob) with ⟨row, hrow, rfl⟩
    simp only [find?_id hnodup (List.mem_of_mem_filter hrow), Option.map_some] at h
    cases h
  | none =>
    refine ⟨?_, rfl⟩
    intro row hrow
    have hempty := List.map_eq_nil_iff.mp (List.min?_eq_none_iff.mp hjob)
    have hcond := List.filter_eq_nil_iff.mp hempty row hrow
    rw [decide_eq_true_iff, not_and_or, not_not] at hcond
    exact hcond

end

/-! ## The invariant -/

/-- The rows against the history: a row that is assigned is the latest lease of
its job, one that is not has never been leased, and a job that was removed is in
no row. -/
structure Inv (s : Jobs) : Prop where
  distinct : (s.rows.map JobLeaseRecord.id).Nodup
  used : ∀ row ∈ s.rows, row.id ∈ s.used
  leased : ∀ lease ∈ s.leases, lease.id ∈ s.used
  removed : ∀ removal ∈ s.removals, removal.1 ∈ s.used ∧ ∀ row ∈ s.rows, row.id ≠ removal.1
  kept : ∀ id ∈ s.used, (∃ row ∈ s.rows, row.id = id) ∨ ∃ removal ∈ s.removals, removal.1 = id
  latest : ∀ row ∈ s.rows,
    s.latestLease row.id = if row.assignedAgentId = none then none else some row
  bounded : ∀ lease ∈ s.leases, ∀ last, s.latestLease lease.id = some last →
    lease.expiresAtEpoch ≤ last.expiresAtEpoch
  disjoint : s.leases.Pairwise fun lease later =>
    lease.id = later.id → lease.expiresAtEpoch < later.acquiredAtEpoch

section

variable {s : Jobs}

theorem inv_empty (clock : ℤ) : (empty clock).Inv where
  distinct := List.nodup_nil
  used := by simp [empty]
  leased := by simp [empty]
  removed := by simp [empty]
  kept := by simp [empty]
  latest := by simp [empty]
  bounded := by simp [empty]
  disjoint := List.Pairwise.nil

/-- Without a lease there is no latest one. -/
theorem latestLease_eq_none {id : ℤ} :
    s.latestLease id = none ↔ ∀ lease ∈ s.leases, lease.id ≠ id := by
  simp [latestLease]

/-- One more lease. -/
theorem latestLease_snoc {t : Jobs} {r : JobLeaseRecord} (h : t.leases = s.leases ++ [r]) (id : ℤ) :
    t.latestLease id = if r.id = id then some r else s.latestLease id := by
  unfold latestLease
  rw [h, List.reverse_append, List.reverse_singleton, List.singleton_append, List.find?_cons]
  by_cases hid : r.id = id
  · simp [hid]
  · simp [hid]

/-- A job with a new number. -/
theorem Inv.insert (hs : s.Inv) {id tenantId : ℤ} {jobType payload : String} (hfresh : id ∉ s.used) :
    Inv { s with rows := s.rows ++ [newRow id tenantId jobType payload], used := id :: s.used } where
  distinct := by
    rw [List.map_append, List.nodup_append]
    refine ⟨hs.distinct, List.nodup_singleton _, ?_⟩
    rintro i hi j hj rfl
    rcases List.mem_map.mp hi with ⟨row, hrow, rfl⟩
    have hid : row.id = id := List.mem_singleton.mp hj
    exact hfresh (hid ▸ hs.used row hrow)
  used := by
    intro row hrow
    rcases List.mem_append.mp hrow with hrow | hrow
    · exact List.mem_cons_of_mem _ (hs.used row hrow)
    · rw [List.mem_singleton.mp hrow]
      exact List.mem_cons_self
  leased := fun lease hlease => List.mem_cons_of_mem _ (hs.leased lease hlease)
  removed := by
    intro removal hremoval
    rcases hs.removed removal hremoval with ⟨hused, hrows⟩
    refine ⟨List.mem_cons_of_mem _ hused, ?_⟩
    intro row hrow
    rcases List.mem_append.mp hrow with hrow | hrow
    · exact hrows row hrow
    · rw [List.mem_singleton.mp hrow]
      rintro rfl
      exact hfresh hused
  kept := by
    intro i hi
    rcases List.mem_cons.mp hi with rfl | hi
    · exact Or.inl ⟨_, List.mem_append_right _ List.mem_cons_self, rfl⟩
    · apply (hs.kept i hi).imp_left
      rintro ⟨row, hrow, hid⟩
      exact ⟨row, List.mem_append_left _ hrow, hid⟩
  latest := by
    intro row hrow
    rcases List.mem_append.mp hrow with hrow | hrow
    · exact hs.latest row hrow
    · -- a new job has never been leased
      rw [List.mem_singleton.mp hrow]
      apply latestLease_eq_none.mpr
      rintro lease hlease rfl
      exact hfresh (hs.leased lease hlease)
  bounded := hs.bounded
  disjoint := hs.disjoint

/-- A release takes the row of the job away, if the agent is the one assigned. -/
theorem Inv.release (hs : s.Inv) (jobId : ℤ) (agentId : String) :
    Inv { s with
      rows := s.releaseLease jobId agentId
      removals := s.removals ++
        (s.rows.filter fun row => row.id = jobId ∧ row.assignedAgentId = some agentId).map
          fun row => (row.id, agentId) } where
  distinct := hs.distinct.sublist (List.filter_sublist.map _)
  used := fun row hrow => hs.used row (List.mem_of_mem_filter hrow)
  leased := hs.leased
  removed := by
    intro removal hremoval
    rcases List.mem_append.mp hremoval with hremoval | hremoval
    · rcases hs.removed removal hremoval with ⟨hused, hrows⟩
      exact ⟨hused, fun row hrow => hrows row (List.mem_of_mem_filter hrow)⟩
    · rcases List.mem_map.mp hremoval with ⟨gone, hgone, rfl⟩
      rcases List.mem_filter.mp hgone with ⟨hmem, hcond⟩
      refine ⟨hs.used gone hmem, ?_⟩
      intro row hrow hid
      rcases List.mem_filter.mp hrow with ⟨hrow, hstays⟩
      rw [row_unique hs.distinct hrow hmem hid] at hstays
      exact of_decide_eq_true hstays (of_decide_eq_true hcond)
  kept := by
    intro id hid
    rcases hs.kept id hid with ⟨row, hrow, rfl⟩ | ⟨removal, hremoval, hid⟩
    -- a row that goes is kept as a removal
    · by_cases hgone : row.id = jobId ∧ row.assignedAgentId = some agentId
      · refine Or.inr ⟨(row.id, agentId), List.mem_append_right _ (List.mem_map.mpr ⟨row, ?_, rfl⟩), rfl⟩
        exact List.mem_filter.mpr ⟨hrow, decide_eq_true hgone⟩
      · exact Or.inl ⟨row, List.mem_filter.mpr ⟨hrow, decide_eq_true hgone⟩, rfl⟩
    · exact Or.inr ⟨removal, List.mem_append_left _ hremoval, hid⟩
  latest := fun row hrow => hs.latest row (List.mem_of_mem_filter hrow)
  bounded := hs.bounded
  disjoint := hs.disjoint

/-- The latest lease of a job that can be fetched has expired. -/
theorem Inv.expired (hs : s.Inv) {row last : JobLeaseRecord} {now : ℤ} (hrow : row ∈ s.rows)
    (hfetch : Fetchable now row) (hlast : s.latestLease row.id = some last) :
    last.expiresAtEpoch < now := by
  rw [hs.latest row hrow] at hlast
  split_ifs at hlast with hnone
  obtain rfl := Option.some.inj hlast
  exact hfetch.resolve_left hnone

/-- So have all its earlier leases. -/
theorem Inv.expired_of_mem (hs : s.Inv) {row lease : JobLeaseRecord} {now : ℤ} (hrow : row ∈ s.rows)
    (hfetch : Fetchable now row) (hlease : lease ∈ s.leases) (hid : lease.id = row.id) :
    lease.expiresAtEpoch < now := by
  cases hlast : s.latestLease row.id with
  | none => exact absurd hid (latestLease_eq_none.mp hlast lease hlease)
  | some last =>
    have hle := hs.bounded lease hlease last (by rw [hid, hlast])
    have hlt := hs.expired hrow hfetch hlast
    omega

section

variable {row r : JobLeaseRecord}

/-- The rows with one of them replaced by a row of the same number. -/
def replaced (rows : List JobLeaseRecord) (row r : JobLeaseRecord) : List JobLeaseRecord :=
  rows.map fun row' => if row'.id = row.id then r else row'

theorem ids_replaced (rows : List JobLeaseRecord) (hid : r.id = row.id) :
    (replaced rows row r).map JobLeaseRecord.id = rows.map JobLeaseRecord.id := by
  rw [replaced, List.map_map]
  apply List.map_congr_left
  intro row' _
  rw [Function.comp_apply]
  split_ifs with hsame
  · rw [hid, hsame]
  · rfl

/-- What holds of the numbers of the rows holds of them afterwards. -/
theorem forall_replaced {P : ℤ → Prop} {rows : List JobLeaseRecord} (hid : r.id = row.id) :
    (∀ row' ∈ replaced rows row r, P row'.id) ↔ ∀ row' ∈ rows, P row'.id := by
  have h : (∀ id ∈ (replaced rows row r).map JobLeaseRecord.id, P id) ↔
      ∀ id ∈ rows.map JobLeaseRecord.id, P id := by
    rw [ids_replaced rows hid]
  rwa [List.forall_mem_map, List.forall_mem_map] at h

end

/-- A fetch that returns a row replaces it, and records one more lease. -/
theorem Inv.lease (hs : s.Inv) {row : JobLeaseRecord} {agentId : String} {now : ℤ}
    {durationSeconds : ℕ} (hrow : row ∈ s.rows) (hfetch : Fetchable now row) :
    Inv { s with
      rows := s.rows.map fun row' =>
        if row'.id = row.id then assign agentId now (now + durationSeconds) row else row'
      clock := now
      leases := s.leases ++ [assign agentId now (now + durationSeconds) row] } := by
  set r := assign agentId now (now + durationSeconds) row with hr
  have hid : r.id = row.id := rfl
  change Inv { s with rows := replaced s.rows row r, clock := now, leases := s.leases ++ [r] }
  constructor
  case distinct =>
    rw [ids_replaced s.rows hid]
    exact hs.distinct
  case used => exact (forall_replaced (P := (· ∈ s.used)) hid).mpr hs.used
  case leased =>
    intro lease hlease
    rcases List.mem_append.mp hlease with hlease | hlease
    · exact hs.leased lease hlease
    · rw [List.mem_singleton.mp hlease, hid]
      exact hs.used row hrow
  case removed =>
    intro removal hremoval
    rcases hs.removed removal hremoval with ⟨hused, hrows⟩
    exact ⟨hused, (forall_replaced (P := (· ≠ removal.1)) hid).mpr hrows⟩
  case kept =>
    intro id hused
    apply (hs.kept id hused).imp_left
    rintro ⟨row₀, hrow₀, rfl⟩
    have hnumber : row₀.id ∈ (replaced s.rows row r).map JobLeaseRecord.id := by
      rw [ids_replaced s.rows hid]
      exact List.mem_map_of_mem hrow₀
    exact List.mem_map.mp hnumber
  case latest =>
    intro row₁ hrow₁
    rcases List.mem_map.mp hrow₁ with ⟨row₀, hrow₀, rfl⟩
    rw [latestLease_snoc (s := s) rfl]
    by_cases hsame : row₀.id = row.id
    · have hassigned : r.assignedAgentId ≠ none := Option.some_ne_none agentId
      rw [if_pos hsame, if_pos rfl, if_neg hassigned]
    · have hother : r.id ≠ row₀.id := fun h => hsame (h.symm.trans hid)
      rw [if_neg hsame, if_neg hother]
      exact hs.latest row₀ hrow₀
  case bounded =>
    intro lease hlease last hlast
    rw [latestLease_snoc (s := s) rfl] at hlast
    have hexpires : r.expiresAtEpoch = now + durationSeconds := rfl
    rcases List.mem_append.mp hlease with hlease | hlease
    · split_ifs at hlast with hsame
      · obtain rfl := Option.some.inj hlast
        have hlt := hs.expired_of_mem hrow hfetch hlease (hsame.symm.trans hid)
        omega
      · exact hs.bounded lease hlease last hlast
    · obtain rfl := List.mem_singleton.mp hlease
      rw [if_pos rfl] at hlast
      obtain rfl := Option.some.inj hlast
      exact le_rfl
  case disjoint =>
    rw [List.pairwise_append]
    refine ⟨hs.disjoint, List.pairwise_singleton _ _, ?_⟩
    intro lease hlease later hlater hsame
    obtain rfl := List.mem_singleton.mp hlater
    exact hs.expired_of_mem hrow hfetch hlease (hsame.trans hid)

/-- Every statement keeps the invariant. -/
theorem Inv.step {t : Jobs} {statement : Statement} (hs : s.Inv)
    (hstep : s.step statement = some t) : t.Inv := by
  cases statement with
  | insert id tenantId jobType payload =>
    simp only [Jobs.step] at hstep
    split_ifs at hstep with hused
    obtain rfl := Option.some.inj hstep
    exact hs.insert hused
  | release jobId agentId =>
    obtain rfl := Option.some.inj hstep
    exact hs.release jobId agentId
  | fetch agentId durationSeconds now locked =>
    simp only [Jobs.step] at hstep
    split_ifs at hstep with hback
    obtain rfl := Option.some.inj hstep
    cases hresult : (s.fetchNextJob agentId durationSeconds now locked).2 with
    | none =>
      rcases fetchNextJob_none hs.distinct hresult with ⟨-, hsame⟩
      rw [hsame, Option.toList_none, List.append_nil]
      exact ⟨hs.distinct, hs.used, hs.leased, hs.removed, hs.kept, hs.latest, hs.bounded, hs.disjoint⟩
    | some r =>
      rcases fetchNextJob_some hs.distinct hresult with ⟨row, hrow, hfetch, -, rfl, hrows⟩
      rw [hrows, Option.toList_some]
      exact hs.lease hrow hfetch

/-- A job whose row disappears was released by the agent it was assigned to. -/
theorem Inv.step_removes {t : Jobs} {statement : Statement} (hs : s.Inv)
    (hstep : s.step statement = some t) {row : JobLeaseRecord} (hrow : row ∈ s.rows)
    (hgone : ∀ row' ∈ t.rows, row'.id ≠ row.id) :
    ∃ agentId, statement = .release row.id agentId ∧ row.assignedAgentId = some agentId ∧
      (row.id, agentId) ∈ t.removals := by
  cases statement with
  | insert id tenantId jobType payload =>
    simp only [Jobs.step] at hstep
    split_ifs at hstep with hused
    obtain rfl := Option.some.inj hstep
    exact absurd rfl (hgone row (List.mem_append_left _ hrow))
  | fetch agentId durationSeconds now locked =>
    simp only [Jobs.step] at hstep
    split_ifs at hstep with hback
    obtain rfl := Option.some.inj hstep
    cases hresult : (s.fetchNextJob agentId durationSeconds now locked).2 with
    | none =>
      rcases fetchNextJob_none hs.distinct hresult with ⟨-, hsame⟩
      rw [hsame] at hgone
      exact absurd rfl (hgone row hrow)
    | some r =>
      rcases fetchNextJob_some hs.distinct hresult with ⟨row₁, -, -, -, rfl, hrows⟩
      rw [hrows] at hgone
      refine absurd ?_ (hgone _ (List.mem_map_of_mem hrow))
      split_ifs with hsame
      · exact hsame.symm
      · rfl
  | release jobId agentId =>
    obtain rfl := Option.some.inj hstep
    -- DELETE takes the job's row only from the agent that holds it
    have hcond : row.id = jobId ∧ row.assignedAgentId = some agentId := by
      by_contra hstays
      exact absurd rfl (hgone row (List.mem_filter.mpr ⟨hrow, decide_eq_true hstays⟩))
    refine ⟨agentId, by rw [hcond.1], hcond.2, List.mem_append_right _ ?_⟩
    exact List.mem_map.mpr ⟨row, List.mem_filter.mpr ⟨hrow, decide_eq_true hcond⟩, rfl⟩

end

/-! ## Runs -/

/-- The agent was given a lease on the job that has not expired at this time. -/
def Holds (s : Jobs) (agentId : String) (jobId time : ℤ) : Prop :=
  ∃ lease ∈ s.leases, lease.id = jobId ∧ lease.assignedAgentId = some agentId ∧
    lease.acquiredAtEpoch ≤ time ∧ time ≤ lease.expiresAtEpoch

/-- Two leases are of different jobs, or one expired before the other began. -/
def Apart (lease other : JobLeaseRecord) : Prop :=
  lease.id = other.id → lease.expiresAtEpoch < other.acquiredAtEpoch ∨
    other.expiresAtEpoch < lease.acquiredAtEpoch

instance : Std.Symm Apart where
  symm _ _ h hid := (h hid.symm).symm

/-- Leases of one job do not overlap. -/
theorem Inv.holds_unique {s : Jobs} (hs : s.Inv) {a b : String} {jobId time : ℤ}
    (ha : s.Holds a jobId time) (hb : s.Holds b jobId time) : a = b := by
  rcases ha with ⟨lease, hlease, hid, hagent, hstart, hend⟩
  rcases hb with ⟨other, hother, hid', hagent', hstart', hend'⟩
  have happart : s.leases.Pairwise Apart := hs.disjoint.imp fun h hid => Or.inl (h hid)
  by_cases hsame : lease = other
  · rw [hsame, hagent'] at hagent
    exact (Option.some.inj hagent).symm
  · have hcases := happart.forall hlease hother hsame (hid.trans hid'.symm)
    omega

/-- Statements of any agents in any order, from the empty table on.

A fetch returns a job only if it is unassigned or its latest lease expired before
the time of the fetch, so that two agents never hold a job at the same time. A job
leaves the table only when it is released by the agent it is assigned to, and is
not returned again. No job is there twice or gets lost, and a fetch returns
nothing only if all rows are leased or locked. -/
theorem lease_exclusive (clock : ℤ) (statements : List Statement) (s : Jobs)
    (hrun : run step (empty clock) statements = some s) :
    (∀ (agentId : String) (durationSeconds : ℕ) (now : ℤ) (locked : List ℤ) (r : JobLeaseRecord),
      (s.fetchNextJob agentId durationSeconds now locked).2 = some r →
        (∃ row ∈ s.rows, r = assign agentId now (now + durationSeconds) row ∧ r.id ∉ locked ∧
          (row.assignedAgentId = none ∨ row.expiresAtEpoch < now)) ∧
        ∀ lease ∈ s.leases, lease.id = r.id → lease.expiresAtEpoch < now) ∧
    (∀ (a b : String) (jobId time : ℤ), s.Holds a jobId time → s.Holds b jobId time → a = b) ∧
    (∀ (statement : Statement) (t : Jobs), s.step statement = some t →
      ∀ row ∈ s.rows, (∀ row' ∈ t.rows, row'.id ≠ row.id) →
        ∃ agentId, statement = .release row.id agentId ∧ row.assignedAgentId = some agentId ∧
          (row.id, agentId) ∈ t.removals) ∧
    (∀ removal ∈ s.removals, ∀ (agentId : String) (durationSeconds : ℕ) (now : ℤ) (locked : List ℤ)
      (r : JobLeaseRecord), (s.fetchNextJob agentId durationSeconds now locked).2 = some r →
        r.id ≠ removal.1) ∧
    (s.rows.map JobLeaseRecord.id).Nodup ∧
    (∀ id ∈ s.used, (∃ row ∈ s.rows, row.id = id) ∨ ∃ removal ∈ s.removals, removal.1 = id) ∧
    (∀ (agentId : String) (durationSeconds : ℕ) (now : ℤ) (locked : List ℤ),
      (s.fetchNextJob agentId durationSeconds now locked).2 = none →
        ∀ row ∈ s.rows, (∃ agent, row.assignedAgentId = some agent ∧ now ≤ row.expiresAtEpoch) ∨
          row.id ∈ locked) := by
  have hs : s.Inv := run_invariant (fun s statement t hs hstep => hs.step hstep) statements _ s
    (inv_empty clock) hrun
  -- each part reads one field of the invariant
  refine ⟨?_, ?_, ?_, ?_, hs.distinct, hs.kept, ?_⟩
  · intro agentId durationSeconds now locked r hresult
    rcases fetchNextJob_some hs.distinct hresult with ⟨row, hrow, hfetch, hfree, rfl, -⟩
    refine ⟨⟨row, hrow, rfl, hfree, hfetch⟩, ?_⟩
    intro lease hlease hid
    exact hs.expired_of_mem hrow hfetch hlease hid
  · intro a b jobId time ha hb
    exact hs.holds_unique ha hb
  · intro statement t hstep row hrow hgone
    exact hs.step_removes hstep hrow hgone
  · intro removal hremoval agentId durationSeconds now locked r hresult
    rcases fetchNextJob_some hs.distinct hresult with ⟨row, hrow, -, -, rfl, -⟩
    exact (hs.removed removal hremoval).2 row hrow
  · intro agentId durationSeconds now locked hresult row hrow
    apply ((fetchNextJob_none hs.distinct hresult).1 row hrow).imp_left
    intro hleased
    rw [Fetchable, not_or, not_lt] at hleased
    rcases Option.ne_none_iff_exists'.mp hleased.1 with ⟨agent, hagent⟩
    exact ⟨agent, hagent, hleased.2⟩

/-- Two jobs and two agents: the second agent gets the first job once its lease has
expired, and the late release of the first agent removes nothing. -/
def twoAgents : List Statement :=
  [.insert 1 1 "Inference" "a", .insert 2 1 "Inference" "b", .fetch "A" 30 100 [],
    .fetch "B" 30 110 [2], .fetch "B" 30 131 [], .release 1 "A", .release 1 "B"]

/-- At time 140 the first job is gone and the second one has not been leased. -/
theorem lease_exclusive_two_agents :
    ∃ s, run step (empty 0) twoAgents = some s ∧ s.removals = [(1, "B")] ∧
      s.leases.map JobLeaseRecord.id = [1, 1] ∧
      ∀ a b time, s.Holds a 1 time → s.Holds b 1 time → a = b := by
  refine ⟨_, rfl, by decide, by decide, ?_⟩
  intro a b time
  exact (lease_exclusive 0 twoAgents _ rfl).2.1 a b 1 time

end Jobs

end ManagedSecurity

import ManagedSecurity.JobLease

/-! # Waiting for a job

A fetch takes the smallest number that it can, so that a job waits for those with smaller numbers
only. A job in front may be fetched again when its lease has expired, and a row that somebody has
locked is passed over; where neither happens, the jobs in front are all there is to wait for.

* `fetchNextJob_first`: a fetch takes no job behind one that it could have taken;
* `Queued.step`: the leases that are given while a job waits are of the jobs in front;
* `served_in_turn`: whole runs.
-/

namespace ManagedSecurity

open Transition

namespace Jobs

/-- The jobs in front of a number. -/
def ahead (s : Jobs) (id : ℤ) : List ℤ := (s.rows.map JobLeaseRecord.id).filter (· < id)

/-- It is a fetch. -/
def Statement.isFetch : Statement → Bool
  | .fetch _ _ _ _ => true
  | _ => false

/-- How many fetches there are. -/
def fetches (statements : List Statement) : ℕ := statements.countP Statement.isFetch

/-- A job keeps its place: new jobs get larger numbers, and from `start` to `finish` no fetch
finds its row locked or gives a lease that expires before the end. -/
def Statement.InTurn (start finish id : ℤ) : Statement → Prop
  | .insert newId _ _ _ => id < newId
  | .fetch _ durationSeconds now locked =>
    (start ≤ now ∧ now ≤ finish ∧ finish ≤ now + durationSeconds) ∧ id ∉ locked
  | .release _ _ => True

instance (start finish id : ℤ) : ∀ statement, Decidable (Statement.InTurn start finish id statement)
  | .insert newId _ _ _ => inferInstanceAs (Decidable (id < newId))
  | .fetch _ durationSeconds now locked => inferInstanceAs
    (Decidable ((start ≤ now ∧ now ≤ finish ∧ finish ≤ now + durationSeconds) ∧ id ∉ locked))
  | .release _ _ => isTrue trivial

/-- Since `start` the job has been given to an agent, or the agent it was assigned to has
released it. -/
def Served (start : ℤ) (job : JobLeaseRecord) (s : Jobs) : Prop :=
  (∃ lease ∈ s.leases, lease.id = job.id ∧ start ≤ lease.acquiredAtEpoch) ∨
    ∃ agentId, job.assignedAgentId = some agentId ∧ (job.id, agentId) ∈ s.removals

/-- The job still waits in `u`, and these leases have been given since `s`. -/
structure Queued (s : Jobs) (finish : ℤ) (job : JobLeaseRecord) (u : Jobs)
    (given : List JobLeaseRecord) : Prop where
  inv : u.Inv
  row : job ∈ u.rows
  leases : u.leases = s.leases ++ given
  front : ∀ row ∈ u.rows, row.id < job.id → row.id ∈ s.ahead job.id
  given : ∀ lease ∈ given, lease.id ∈ s.ahead job.id ∧ lease.acquiredAtEpoch ≤ finish ∧
    finish ≤ lease.expiresAtEpoch

/-! ## A fetch -/

section

variable {s u v : Jobs} {agentId : String} {durationSeconds now start finish : ℤ} {locked : List ℤ}
  {r row job : JobLeaseRecord} {given : List JobLeaseRecord} {statement : Statement}

/-- What a fetch returns is not behind a row that it could have taken. -/
theorem fetchNextJob_le (h : (s.fetchNextJob agentId durationSeconds now locked).2 = some r)
    (hrow : row ∈ s.rows) (hfetch : Fetchable now row) (hfree : row.id ∉ locked) : r.id ≤ row.id := by
  unfold fetchNextJob at h
  cases hjob : s.unlockedJob now locked with
  | none =>
    rw [hjob] at h
    cases h
  | some id =>
    rw [hjob] at h
    rcases Option.map_eq_some_iff.mp h with ⟨taken, hfind, rfl⟩
    have hid : taken.id = id := by simpa using List.find?_some hfind
    have hcond : decide (Fetchable now row ∧ row.id ∉ locked) = true := decide_eq_true ⟨hfetch, hfree⟩
    rw [assign_id, hid]
    apply (List.min?_eq_some_iff.mp hjob).2
    exact List.mem_map_of_mem (List.mem_filter.mpr ⟨hrow, hcond⟩)

/-- A fetch that could take a row takes that one or one in front. -/
theorem fetchNextJob_first (agentId : String) (durationSeconds : ℤ)
    (hnodup : (s.rows.map JobLeaseRecord.id).Nodup) (hrow : row ∈ s.rows)
    (hfetch : Fetchable now row) (hfree : row.id ∉ locked) :
    ∃ taken ∈ s.rows, taken.id ≤ row.id ∧
      (s.fetchNextJob agentId durationSeconds now locked).2 =
        some (assign agentId now (now + durationSeconds) taken) ∧
      (s.fetchNextJob agentId durationSeconds now locked).1 =
        replaced s.rows taken (assign agentId now (now + durationSeconds) taken) := by
  cases hresult : (s.fetchNextJob agentId durationSeconds now locked).2 with
  | none =>
    rcases (fetchNextJob_none hnodup hresult).1 row hrow with hleased | hlocked
    · exact absurd hfetch hleased
    · exact absurd hlocked hfree
  | some r =>
    have hle := fetchNextJob_le hresult hrow hfetch hfree
    rcases fetchNextJob_some hnodup hresult with ⟨taken, htaken, -, -, rfl, hrows⟩
    exact ⟨taken, htaken, hle, rfl, hrows⟩

/-! ## A step -/

/-- What has been returned and removed stays so. -/
theorem step_grows (hstep : u.step statement = some v) :
    (∀ lease ∈ u.leases, lease ∈ v.leases) ∧ ∀ removal ∈ u.removals, removal ∈ v.removals := by
  cases statement with
  | insert id tenantId jobType payload =>
    simp only [Jobs.step] at hstep
    split_ifs at hstep with hused
    obtain rfl := Option.some.inj hstep
    exact ⟨fun _ h => h, fun _ h => h⟩
  | fetch agentId durationSeconds now locked =>
    simp only [Jobs.step] at hstep
    split_ifs at hstep with hback
    obtain rfl := Option.some.inj hstep
    exact ⟨fun _ h => List.mem_append_left _ h, fun _ h => h⟩
  | release jobId agentId =>
    obtain rfl := Option.some.inj hstep
    exact ⟨fun _ h => h, fun _ h => List.mem_append_left _ h⟩

theorem Served.step (h : Served start job u) (hstep : u.step statement = some v) :
    Served start job v := by
  rcases step_grows hstep with ⟨hleases, hremovals⟩
  rcases h with ⟨lease, hlease, hlater⟩ | ⟨agentId, hagent, hremoval⟩
  · exact Or.inl ⟨lease, hleases lease hlease, hlater⟩
  · exact Or.inr ⟨agentId, hagent, hremovals _ hremoval⟩

/-- A job that can be fetched at the start can be fetched later on. -/
theorem Fetchable.mono (h : Fetchable start job) (hle : start ≤ now) : Fetchable now job :=
  h.imp_right fun hexpired => hexpired.trans_le hle

/-- A statement serves the job, or it goes on waiting; then a fetch has given away one of the jobs
in front of it. -/
theorem Queued.step (h : Queued s finish job u given) (hfetch : Fetchable start job)
    (hturn : statement.InTurn start finish job.id) (hstep : u.step statement = some v) :
    Served start job v ∨
      ∃ given', Queued s finish job v given' ∧ given'.length = given.length + fetches [statement] := by
  have hinv := h.inv.step hstep
  cases statement with
  | insert id tenantId jobType payload =>
    simp only [Jobs.step] at hstep
    split_ifs at hstep with hused
    obtain rfl := Option.some.inj hstep
    refine Or.inr ⟨given, ⟨hinv, List.mem_append_left _ h.row, h.leases, ?_, h.given⟩, rfl⟩
    intro row hrow hless
    rcases List.mem_append.mp hrow with hrow | hrow
    · exact h.front row hrow hless
    · -- a new job is behind
      have hid : row.id = id := by rw [List.mem_singleton.mp hrow, newRow]
      have hbehind : job.id < id := hturn
      omega
  | release jobId agentId =>
    by_cases hgone : job.id = jobId ∧ job.assignedAgentId = some agentId
    · refine Or.inl (Or.inr ⟨agentId, hgone.2, ?_⟩)
      obtain rfl := Option.some.inj hstep
      apply List.mem_append_right
      exact List.mem_map.mpr ⟨job, List.mem_filter.mpr ⟨h.row, decide_eq_true hgone⟩, rfl⟩
    · obtain rfl := Option.some.inj hstep
      refine Or.inr ⟨given, ⟨hinv, ?_, h.leases, ?_, h.given⟩, rfl⟩
      · exact List.mem_filter.mpr ⟨h.row, decide_eq_true hgone⟩
      · intro row hrow hless
        exact h.front row (List.mem_of_mem_filter hrow) hless
  | fetch agentId durationSeconds now locked =>
    rcases hturn with ⟨⟨hstart, hfinish, hlong⟩, hfree⟩
    simp only [Jobs.step] at hstep
    split_ifs at hstep with hback
    obtain rfl := Option.some.inj hstep
    rcases fetchNextJob_first agentId durationSeconds h.inv.distinct h.row (hfetch.mono hstart) hfree
      with ⟨taken, htaken, hle, hresult, hrows⟩
    rw [hresult, hrows, Option.toList_some] at hinv ⊢
    set r := assign agentId now (now + durationSeconds) taken with hr
    rcases hle.lt_or_eq with hless | hsame
    · -- one in front of it
      have hahead := h.front taken htaken hless
      refine Or.inr ⟨given ++ [r], ⟨hinv, ?_, ?_, ?_, ?_⟩, List.length_append⟩
      · refine List.mem_map.mpr ⟨job, h.row, if_neg ?_⟩
        exact hless.ne'
      · rw [h.leases, List.append_assoc]
      · have hfront : ∀ id ∈ u.rows.map JobLeaseRecord.id, id < job.id → id ∈ s.ahead job.id :=
          List.forall_mem_map.mpr h.front
        have hid : r.id = taken.id := rfl
        rw [← ids_replaced u.rows hid] at hfront
        exact List.forall_mem_map.mp hfront
      · intro lease hlease
        rcases List.mem_append.mp hlease with hlease | hlease
        · exact h.given lease hlease
        · rw [List.mem_singleton.mp hlease]
          exact ⟨hahead, hfinish, hlong⟩
    · -- the job itself
      refine Or.inl (Or.inl ⟨r, ?_, hsame, hstart⟩)
      exact List.mem_append_right _ List.mem_cons_self

/-- No job in front is given away twice, so that there are not more leases than jobs. -/
theorem Queued.length_le (h : Queued s finish job u given) :
    given.length ≤ (s.ahead job.id).length := by
  have hdisjoint := h.inv.disjoint
  rw [h.leases, List.pairwise_append] at hdisjoint
  have hnodup : (given.map JobLeaseRecord.id).Nodup := by
    apply List.pairwise_map.mpr
    apply hdisjoint.2.1.imp_of_mem
    intro lease later hlease hlater happart hsame
    -- the earlier lease lasts until the end, and the later one begins before it
    have hexpired := happart hsame
    have hlast := (h.given lease hlease).2.2
    have hbegin := (h.given later hlater).2.1
    omega
  have hsubset : given.map JobLeaseRecord.id ⊆ s.ahead job.id := by
    intro id hid
    rcases List.mem_map.mp hid with ⟨lease, hlease, rfl⟩
    exact (h.given lease hlease).1
  rw [← List.length_map (f := JobLeaseRecord.id)]
  exact (List.subperm_of_subset hnodup hsubset).length_le

/-! ## Runs -/

/-- A job that waits is served in a run, or has been passed by as many leases as there were
fetches. -/
theorem Queued.run (hfetch : Fetchable start job) :
    ∀ (later : List Statement) (u v : Jobs) (given : List JobLeaseRecord),
      Queued s finish job u given → (∀ statement ∈ later, statement.InTurn start finish job.id) →
      run Jobs.step u later = some v → Served start job v ∨
        ∃ given', Queued s finish job v given' ∧ given'.length = given.length + fetches later := by
  intro later
  induction later with
  | nil =>
    intro u v given h _ hrun
    obtain rfl := Option.some.inj hrun
    exact Or.inr ⟨given, h, rfl⟩
  | cons statement later ih =>
    intro u v given h hturn hrun
    rcases run_cons.mp hrun with ⟨w, hstep, hrest⟩
    rcases h.step hfetch (hturn statement List.mem_cons_self) hstep with hserved | ⟨given₁, h₁, hone⟩
    · exact Or.inl (run_invariant (fun _ _ _ hs hnext => Served.step hs hnext) later w v hserved hrest)
    · have hcount : fetches ([statement] ++ later) = fetches [statement] + fetches later :=
        List.countP_append
      rw [List.singleton_append] at hcount
      have hturn' := fun other hother => hturn other (List.mem_cons_of_mem statement hother)
      rcases ih w v given₁ h₁ hturn' hrest with hserved | ⟨given₂, h₂, hmore⟩
      · exact Or.inl hserved
      · exact Or.inr ⟨given₂, h₂, by omega⟩

end

/-- In every run, from any reachable table on: a job that can be fetched is given to an agent as
soon as there have been more fetches than jobs in front of it, unless its former agent releases
it late. New jobs get larger numbers, nobody has its row locked at a fetch, and no lease that is
given meanwhile expires. -/
theorem served_in_turn (clock start finish : ℤ) (before later : List Statement) (s t : Jobs)
    (job : JobLeaseRecord) (hbefore : run step (empty clock) before = some s)
    (hlater : run step s later = some t) (hjob : job ∈ s.rows) (hfetch : Fetchable start job)
    (hturn : ∀ statement ∈ later, statement.InTurn start finish job.id)
    (hcount : (s.ahead job.id).length < fetches later) : Served start job t := by
  have hs : s.Inv := run_invariant (fun s statement t hs hstep => hs.step hstep) before _ s
    (inv_empty clock) hbefore
  have hqueued : Queued s finish job s [] := by
    refine ⟨hs, hjob, (List.append_nil _).symm, ?_, List.forall_mem_nil _⟩
    intro row hrow hless
    exact List.mem_filter.mpr ⟨List.mem_map_of_mem hrow, decide_eq_true hless⟩
  rcases hqueued.run hfetch later s t [] hturn hlater with hserved | ⟨given, hwaits, hgiven⟩
  · exact hserved
  · -- there would be more leases than jobs in front
    have hle := hwaits.length_le
    rw [List.length_nil] at hgiven
    omega

/-- Three jobs, the second of which has been leased to an agent that is gone. -/
def threeJobs : List Statement :=
  [.insert 1 1 "Inference" "a", .insert 2 1 "Inference" "b", .fetch "A" 30 100 [2],
    .fetch "gone" 5 100 [], .release 1 "A", .insert 3 1 "Inference" "c"]

/-- What happens from time 110 on. -/
def threeJobsLater : List Statement :=
  [.fetch "B" 60 110 [1], .insert 4 1 "Inference" "d", .release 7 "B", .fetch "C" 60 120 []]

/-- The third job has one in front of it, so that the second fetch takes it. -/
theorem served_in_turn_threeJobs : ∃ s t, run step (empty 0) threeJobs = some s ∧
    run step s threeJobsLater = some t ∧ s.ahead 3 = [2] ∧
    Served 110 (newRow 3 1 "Inference" "c") t := by
  refine ⟨_, _, rfl, rfl, by decide, ?_⟩
  exact served_in_turn 0 110 130 threeJobs threeJobsLater _ _ (newRow 3 1 "Inference" "c") rfl rfl
    (by decide) (by decide) (by decide) (by decide)

end Jobs

end ManagedSecurity

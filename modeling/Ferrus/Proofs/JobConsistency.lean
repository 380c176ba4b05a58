import Ferrus.Proofs.JobRows

/-! # Consistent job rows

The columns of a job row constrain each other: attempts and generations are counted together, a lease
stands exactly while the job is active, a failure code belongs to a queued or failed job, and every
time can be read back. Each group of columns has its own invariant, and a consistent row can be loaded.
-/

namespace Ferrus.Distributed

open ControlDatabase IndexJobState ReclaimUpdate JobRow Bool

/-- An instant that can be held stays one when it is cut to whole milliseconds. -/
def WholeMillis (representable : Int → Bool) : Prop :=
  ∀ instant, representable instant = true → representable (timestampMillis instant * 1000000) = true

theorem wholeMillis_utcRange : WholeMillis utcRange := by
  intro instant inRange
  simp only [utcRange, Bool.and_eq_true, decide_eq_true_eq] at inRange ⊢
  unfold timestampMillis
  omega

/-- A job is claimed once for each of its attempts. -/
structure JobRow.Counted (row : JobRow) : Prop where
  attempt_pos : 0 < row.attempt
  attempt_le : row.attempt ≤ row.maxAttempts
  attempts_lt : row.maxAttempts < 2 ^ 32
  unclaimed : row.leaseGeneration = 0 → row.attempt = 1
  claimed : row.leaseGeneration ≠ 0 → row.attempt = row.leaseGeneration
  retries : row.state = .queued → row.leaseGeneration ≠ 0 → row.attempt < row.maxAttempts

/-- A lease stands while the job is active and ends by the deadline of the job. -/
structure JobRow.Leased (representable : Int → Bool) (row : JobRow) : Prop where
  worker : row.leaseWorkerId.isSome = row.state.isActive
  expiry : row.leaseUntilMs.isSome = row.state.isActive
  generation : row.state.isActive = true → row.leaseGeneration ≠ 0
  bounded : ∀ untilMs ∈ row.leaseUntilMs, untilMs ≤ row.deadlineAtMs ∧ representable (untilMs * 1000000) = true
  requested : row.cancellationRequested = true → row.state = .cancelled

/-- A row without a lease. -/
theorem JobRow.Leased.of_released {representable : Int → Bool} {row : JobRow} (worker : row.leaseWorkerId = none)
    (expiry : row.leaseUntilMs = none) (idle : row.state.isActive = false)
    (requested : row.cancellationRequested = true → row.state = .cancelled) : row.Leased representable where
  worker := by rw [worker, idle, Option.isSome_none]
  expiry := by rw [expiry, idle, Option.isSome_none]
  generation active := by
    rw [idle] at active
    cases active
  bounded untilMs isExpiry := by
    rw [expiry] at isExpiry
    cases isExpiry
  requested := requested

/-- A failed job has a failure code, and otherwise only a queued one may have it. -/
structure JobRow.Coded (row : JobRow) : Prop where
  failed : row.state = .failed → row.failureCode.isSome = true
  pending : row.failureCode.isSome = true → row.state = .queued ∨ row.state = .failed

theorem JobRow.Coded.of_uncoded {row : JobRow} (unfailed : row.state ≠ .failed)
    (uncoded : row.failureCode.isSome = false) : row.Coded where
  failed isFailed := absurd isFailed unfailed
  pending isCoded := by
    rw [uncoded] at isCoded
    cases isCoded

structure JobRow.Timed (representable : Int → Bool) (row : JobRow) : Prop where
  ordered : row.createdAtMs ≤ row.deadlineAtMs
  created : representable (row.createdAtMs * 1000000) = true
  updated : representable (row.updatedAtMs * 1000000) = true
  deadline : representable (row.deadlineAtMs * 1000000) = true

structure JobRow.Consistent (representable : Int → Bool) (key : JobKey) (row : JobRow) : Prop where
  scope : projectOf key = row.spec.project.key
  counted : row.Counted
  leased : row.Leased representable
  coded : row.Coded
  timed : row.Timed representable

variable {representable : Int → Bool} {now : Int} {actor : RowActor} {row next : JobRow} {key : JobKey}

/-! ## One lemma for each group of columns -/

/-- A queued job has an attempt left, whose number is the generation that a claim gives. -/
theorem JobRow.Counted.nextAttempt_eq (counted : row.Counted) (queued : row.state = .queued) :
    row.nextAttempt = row.leaseGeneration + 1 ∧ row.nextAttempt ≤ row.maxAttempts := by
  have attempt_le := counted.attempt_le
  have attempts_lt := counted.attempts_lt
  unfold nextAttempt
  split_ifs with first
  · have single := counted.unclaimed first
    omega
  · have retried := counted.retries queued first
    have same := counted.claimed first
    omega

section

variable (change : RowChange representable now actor row next)

include change

theorem RowChange.spec_eq : next.spec = row.spec := by
  cases change with
  | advanced => split <;> rfl
  | renewed | failed | cancelled | reclaimed | claimed | published => rfl

/-- A finished job is not changed any more. -/
theorem RowChange.unfinished : row.state.isTerminal = false := by
  have unfinished {state : IndexJobState} (active : state.isActive = true) : state.isTerminal = false := by
    cases state <;> first | rfl | cases active
  cases change with
  | advanced _ _ _ active | renewed _ _ active | failed _ _ _ active => exact unfinished active
  | cancelled _ unfinished => exact unfinished
  | @reclaimed update _ selected =>
    cases update with
    | timeout =>
      simp only [selects, and_eq_true, or_eq_true, decide_eq_true_eq] at selected
      rcases selected.2 with queued | active
      · rw [queued]
        rfl
      · exact unfinished active
    | cancel | attemptLimit | requeue =>
      simp only [selects, and_eq_true] at selected
      exact unfinished selected.2
  | claimed _ queued =>
    rw [queued]
    rfl
  | published _ publishable =>
    rw [publishableBy_eq, and_eq_true, and_eq_true, decide_eq_true_eq] at publishable
    rw [publishable.1.1]
    rfl

/-- Only a claim counts. -/
theorem RowChange.counters : next.maxAttempts = row.maxAttempts ∧
      (next.leaseGeneration = row.leaseGeneration ∧ next.attempt = row.attempt ∨
        actor = .claimant ∧ row.state = .queued ∧ next.state = .leased ∧
          next.leaseGeneration = row.leaseGeneration + 1 ∧ next.attempt = row.nextAttempt ∧
          row.nextAttempt ≤ row.maxAttempts) := by
  cases change with
  | advanced => split <;> exact ⟨rfl, .inl ⟨rfl, rfl⟩⟩
  | renewed | failed | cancelled | reclaimed | published => exact ⟨rfl, .inl ⟨rfl, rfl⟩⟩
  | claimed acts queued _ attempts => exact ⟨rfl, .inr ⟨acts, queued, rfl, rfl, rfl, attempts⟩⟩

/-- A job is queued again only while it has attempts left. -/
theorem RowChange.attempts_of_queued (queued : next.state = .queued) : row.attempt < row.maxAttempts := by
  cases change with
  | advanced _ _ _ _ _ forward =>
    have target : IndexJobState.queued.isActive = true ∨ IndexJobState.queued = .complete := by
      rw [← queued]
      exact forward.imp And.left And.left
    rcases target with active | complete
    · cases active
    · cases complete
  | renewed _ _ active =>
    rw [show row.state = .queued from queued] at active
    cases active
  | @failed _ _ _ retry _ _ _ _ attempts =>
    cases retry with
    | true => exact (attempts rfl).1
    | false => cases queued
  | @reclaimed update _ selected =>
    cases update with
    | requeue =>
      simp only [selects, and_eq_true, decide_eq_true_eq] at selected
      exact selected.1.1.2
    | cancel | timeout | attemptLimit => cases queued
  | cancelled | claimed | published => cases queued

theorem RowChange.counted (before : row.Counted) : next.Counted := by
  obtain ⟨sameMax, ⟨sameGeneration, sameAttempt⟩ | ⟨_, queued, leased, generation, attempt, fits⟩⟩ := change.counters
  · refine ⟨?_, ?_, ?_, ?_, ?_, ?_⟩
    · exact sameAttempt ▸ before.attempt_pos
    · exact sameAttempt ▸ sameMax ▸ before.attempt_le
    · exact sameMax ▸ before.attempts_lt
    · exact sameAttempt ▸ sameGeneration ▸ before.unclaimed
    · exact sameAttempt ▸ sameGeneration ▸ before.claimed
    · intro queued _
      rw [sameAttempt, sameMax]
      exact change.attempts_of_queued queued
  · have counts := (before.nextAttempt_eq queued).1
    refine ⟨?_, ?_, ?_, ?_, ?_, ?_⟩
    · omega
    · omega
    · exact sameMax ▸ before.attempts_lt
    · omega
    · omega
    · intro isQueued
      rw [leased] at isQueued
      cases isQueued

theorem RowChange.coded (before : row.Coded) : next.Coded := by
  have clean (active : row.state.isActive = true) : row.failureCode.isSome = false := by
    cases code : row.failureCode.isSome with
    | false => rfl
    | true => rcases before.pending code with queued | failed <;> simp_all [isActive]
  cases change with
  | advanced _ _ _ wasActive _ forward =>
    have uncoded := clean wasActive
    rcases forward with ⟨active, rfl⟩ | ⟨rfl, rfl⟩
    · refine ⟨?_, fun isCoded => absurd isCoded (by simp [uncoded])⟩
      rintro rfl
      cases active
    · exact .of_uncoded (fun same => noConfusion same) uncoded
  | renewed => exact ⟨before.failed, before.pending⟩
  | @failed _ _ _ retry =>
    cases retry with
    | true => exact ⟨fun _ => rfl, fun _ => .inl rfl⟩
    | false => exact ⟨fun _ => rfl, fun _ => .inr rfl⟩
  | cancelled | claimed | published => exact .of_uncoded (fun same => noConfusion same) rfl
  | @reclaimed update =>
    cases update with
    | cancel | requeue => exact .of_uncoded (fun same => noConfusion same) rfl
    | timeout | attemptLimit => exact ⟨fun _ => rfl, fun _ => .inr rfl⟩

variable (whole : WholeMillis representable)

include whole

theorem RowChange.leased (before : row.Leased representable) (timed : row.Timed representable) :
    next.Leased representable := by
  have ends (expiresAt : Int) (inRange : representable expiresAt = true) :
      ∀ untilMs ∈ some (min (timestampMillis expiresAt) row.deadlineAtMs),
        untilMs ≤ row.deadlineAtMs ∧ representable (untilMs * 1000000) = true := by
    intro untilMs same
    obtain rfl := Option.mem_some_iff.mp same
    refine ⟨min_le_right _ _, ?_⟩
    rcases min_choice (timestampMillis expiresAt) row.deadlineAtMs with first | second
    · rw [first]
      exact whole expiresAt inRange
    · rw [second]
      exact timed.deadline
  cases change with
  | advanced _ _ requested wasActive _ forward =>
    rcases forward with ⟨active, rfl⟩ | ⟨rfl, rfl⟩
    · exact ⟨before.worker.trans (wasActive.trans active.symm), before.expiry.trans (wasActive.trans active.symm),
        fun _ => before.generation wasActive, before.bounded,
        fun isRequested => Bool.noConfusion (requested.symm.trans isRequested)⟩
    · exact .of_released rfl rfl rfl fun isRequested => Bool.noConfusion (requested.symm.trans isRequested)
  | renewed _ _ active inRange =>
    exact ⟨before.worker, active.symm, before.generation, ends _ inRange, before.requested⟩
  | @failed _ _ _ retry _ _ requested =>
    cases retry <;>
      exact .of_released rfl rfl rfl fun isRequested => Bool.noConfusion (requested.symm.trans isRequested)
  | cancelled => exact .of_released rfl rfl rfl fun _ => rfl
  | @reclaimed update _ selected =>
    cases update with
    | cancel => exact .of_released rfl rfl rfl fun _ => rfl
    | timeout | attemptLimit | requeue =>
      have requested : row.cancellationRequested = false := by
        cases isRequested : row.cancellationRequested with
        | false => rfl
        | true => simp [selects, isRequested] at selected
      exact .of_released rfl rfl rfl fun isRequested => Bool.noConfusion (requested.symm.trans isRequested)
  | claimed _ _ requested _ inRange =>
    exact ⟨rfl, rfl, fun _ => Nat.succ_ne_zero _, ends _ inRange,
      fun isRequested => Bool.noConfusion (requested.symm.trans isRequested)⟩
  | published _ publishable =>
    simp only [publishableBy, Bool.and_eq_true, Bool.not_eq_true'] at publishable
    obtain ⟨⟨⟨⟨⟨_, requested⟩, _⟩, _⟩, _⟩, _⟩ := publishable
    exact .of_released rfl rfl rfl fun isRequested => Bool.noConfusion (requested.symm.trans isRequested)

variable (inRange : representable now = true)

include inRange

theorem RowChange.timed (before : row.Timed representable) : next.Timed representable := by
  have updated := whole now inRange
  cases change with
  | advanced => split <;> exact ⟨before.ordered, before.created, updated, before.deadline⟩
  | renewed | failed | cancelled | reclaimed | claimed | published =>
    exact ⟨before.ordered, before.created, updated, before.deadline⟩

theorem RowChange.consistent (before : row.Consistent representable key) : next.Consistent representable key where
  scope := change.spec_eq ▸ before.scope
  counted := change.counted before.counted
  leased := change.leased whole before.leased before.timed
  coded := change.coded before.coded
  timed := change.timed whole inRange before.timed

end

/-! ## Every row of a database -/

def ConsistentRows (representable : Int → Bool) (db : ControlDatabase) : Prop :=
  ∀ key row, db.job? key = some row → row.Consistent representable key

theorem ConsistentRows.empty : ConsistentRows representable .empty := by
  intro key row found
  cases found

variable {db after : ControlDatabase}

section

variable (whole : WholeMillis representable) (inRange : representable now = true)

include whole inRange

theorem JobRow.submitted_consistent {limits : CoordinatorLimits} {spec : IndexJobSpec} {deadlineAt : Int}
    (scope : projectOf key = spec.project.key) (later : now ≤ deadlineAt) (deadline : representable deadlineAt = true) :
    (JobRow.submitted limits spec now deadlineAt).Consistent representable key where
  scope := scope
  counted := ⟨Nat.one_pos, limits.attempts_pos, limits.attempts_lt, fun _ => rfl, fun claimed => absurd rfl claimed,
    fun _ claimed => absurd rfl claimed⟩
  leased := .of_released rfl rfl rfl fun isRequested => Bool.noConfusion isRequested
  coded := .of_uncoded (fun same => noConfusion same) rfl
  timed := ⟨Int.ediv_le_ediv (by decide) later, whole now inRange, whole now inRange, whole deadlineAt deadline⟩

theorem RowsStep.consistent (step : RowsStep representable now actor db after)
    (before : ConsistentRows representable db) : ConsistentRows representable after := by
  intro key row found
  have rowStep := step key
  cases stored : db.job? key with
  | none =>
    rw [stored, found] at rowStep
    cases rowStep with
    | submitted _ scope later deadline => exact submitted_consistent whole inRange scope later deadline
  | some earlier =>
    rw [stored, found] at rowStep
    cases rowStep with
    | kept => exact before key row stored
    | changed change => exact change.consistent whole inRange (before key earlier stored)

theorem RowsSteps.consistent (steps : RowsSteps representable now actor db after)
    (before : ConsistentRows representable db) : ConsistentRows representable after := by
  induction steps with
  | refl => exact before
  | tail _ step ih => exact step.consistent whole inRange ih

end

theorem RowsStep.finished {key : JobKey} (step : RowsStep representable now actor db after)
    (found : db.job? key = some row) (finished : row.state.isTerminal = true) : after.job? key = some row := by
  have rowStep := step key
  rw [found] at rowStep
  generalize after.job? key = stored at rowStep ⊢
  cases rowStep with
  | kept => rfl
  | changed change =>
    rw [change.unfinished] at finished
    cases finished

theorem RowsSteps.finished {key : JobKey} (steps : RowsSteps representable now actor db after)
    (found : db.job? key = some row) (finished : row.state.isTerminal = true) : after.job? key = some row := by
  induction steps with
  | refl => exact found
  | tail _ step ih => exact step.finished ih finished

theorem ConsistentRows.afterCall (whole : WholeMillis representable) {call : CoordinatorCall}
    (inRange : representable call.now = true) (before : ConsistentRows representable db) :
    ConsistentRows representable (db.afterCall representable call) := by
  obtain ⟨middle, steps, step⟩ := afterCall_rows representable db call
  exact step.consistent whole inRange (steps.consistent whole inRange before)

/-! ## Loading a consistent row -/

theorem RemoteProjectRef.key_injective : Function.Injective RemoteProjectRef.key := by
  rintro ⟨tenantId, projectId⟩ ⟨otherTenant, otherProject⟩ same
  obtain ⟨rfl, rfl⟩ := Prod.mk.inj (toLex.injective same)
  rfl

theorem JobRow.Leased.lease_eq (leased : row.Leased representable) :
    ∃ lease, row.lease representable = .ok lease ∧ lease.isSome = row.state.isActive := by
  have worker := leased.worker
  have expiry := leased.expiry
  unfold lease
  cases isWorker : row.leaseWorkerId with
  | none =>
    cases isUntil : row.leaseUntilMs with
    | none =>
      rw [isWorker] at worker
      exact ⟨none, rfl, worker⟩
    | some untilMs => simp_all
  | some workerId =>
    cases isUntil : row.leaseUntilMs with
    | none => simp_all
    | some untilMs =>
      have active : row.state.isActive = true := by simp_all
      have read : datetime representable untilMs = .ok (untilMs * 1000000) :=
        datetime_eq_ok_iff.mpr ⟨(leased.bounded untilMs isUntil).2, rfl⟩
      refine ⟨some ⟨workerId, row.leaseGeneration, untilMs * 1000000⟩, ?_, active.symm⟩
      simp only [Except.bind_eq_ok_iff, require_eq_ok, decide_eq_true_eq]
      exact ⟨(), leased.generation active, _, read, rfl⟩

/-- The record of a consistent row is valid. -/
theorem JobRow.Consistent.isValid_recordWith {job : IndexJobRef} {lease : Option JobLease}
    (consistent : row.Consistent representable job.key) (holds : lease.isSome = row.state.isActive) :
    (row.recordWith job lease).isValid = true := by
  obtain ⟨scope, counted, leased, coded, timed⟩ := consistent
  have project : job.project = row.spec.project := RemoteProjectRef.key_injective scope
  have cancellation : row.cancellationRequested = true → decide (row.state = .complete) = false := by
    intro requested
    rw [leased.requested requested]
    rfl
  have hasCode : row.state = .failed → row.failureCode.isNone = false :=
    fun failed => Option.isNone_eq_false_iff.mpr (coded.failed failed)
  have noCode : row.state = .complete ∨ row.state = .cancelled → row.failureCode.isSome = false := by
    intro finished
    by_contra code
    rcases coded.pending (not_eq_false _ ▸ code) with queued | failed
    · simp [queued] at finished
    · simp [failed] at finished
  have ordered : row.createdAtMs * 1000000 ≤ row.deadlineAtMs * 1000000 := by
    have := timed.ordered
    omega
  simp only [IndexJobRecord.isValid, recordWith, project, holds, and_eq_true, decide_eq_true_eq,
    beq_self_eq_true, not_eq_true', and_eq_false_imp, or_eq_true]
  exact ⟨⟨⟨⟨⟨⟨⟨trivial, trivial⟩, counted.attempt_le⟩, trivial⟩, cancellation⟩, hasCode⟩, noCode⟩, ordered⟩

/-- A consistent row loads as a valid record. -/
theorem loadRecord_of_consistent {job : IndexJobRef} (found : db.job? job.key = some row)
    (kind : row.spec.kind = job.kind) (consistent : row.Consistent representable job.key) :
    ∃ record, db.loadRecord representable job = .ok (some record) := by
  obtain ⟨lease, read, holds⟩ := consistent.leased.lease_eq
  have attempt_pos := consistent.counted.attempt_pos
  have attempt_le := consistent.counted.attempt_le
  have timed := consistent.timed
  refine ⟨row.recordWith job lease, loadRecord_eq_ok_some_iff.mpr
    ⟨row, found, ?_, kind, consistent.isValid_recordWith holds⟩⟩
  exact rowToRecord_eq_ok_iff.mpr ⟨by omega, by omega, timed.created, timed.updated, timed.deadline, lease, read, rfl⟩

end Ferrus.Distributed

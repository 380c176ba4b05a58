import Mathlib.Data.Finset.Max
import Ferrus.Proofs.JobConsistency
import Ferrus.Soundness.JobTransitions

/-! # Attempts, generations and the head of the queue

A claim is the only call that counts: it raises the generation of a job by one, and the attempt with
it. A job is queued only while an attempt is left, so the oldest queued job can always be leased.
-/

namespace Ferrus.Distributed

open Ferrus.Machine ControlDatabase

/-- A call at an instant of `DateTime::<Utc>`. -/
abbrev UtcCall := { call : CoordinatorCall // utcRange call.now = true }

def callStep (db : ControlDatabase) (call : UtcCall) : ControlDatabase := db.afterCall utcRange call.1

/-- The call gives a worker the lease of the job. -/
def ControlDatabase.claimsJob (db : ControlDatabase) (call : CoordinatorCall) (key : JobKey) : Bool :=
  match db.respond utcRange call with
  | .ok (_, .claimed (some record)) => record.job.key = key
  | _ => false

/-- How often the job is claimed in a run. -/
def claimCount (key : JobKey) : ControlDatabase → List UtcCall → Nat
  | _, [] => 0
  | db, call :: rest => (db.claimsJob call.1 key).toNat + claimCount key (callStep db call) rest

/-- The generation of a job, zero before it is submitted. -/
def ControlDatabase.generation (db : ControlDatabase) (key : JobKey) : Nat :=
  (db.job? key).elim 0 (·.leaseGeneration)

variable {representable : Int → Bool} {now : Int} {actor : RowActor} {db next : ControlDatabase} {key : JobKey}
  {limits : CoordinatorLimits} {request : ClaimIndexJobRequest}

/-! ## One call -/

theorem RowsStep.generation_eq (step : RowsStep representable now actor db next) (other : actor ≠ .claimant) :
    next.generation key = db.generation key := by
  have rowStep := step key
  unfold generation
  generalize db.job? key = before, next.job? key = after at rowStep ⊢
  cases rowStep with
  | kept => rfl
  | submitted => rfl
  | changed change =>
    rcases change.counters with ⟨_, ⟨same, _⟩ | ⟨claims, _⟩⟩
    · exact same
    · exact absurd claims other

theorem RowsStep.generation_le (step : RowsStep representable now actor db next) :
    db.generation key ≤ next.generation key := by
  have rowStep := step key
  unfold generation
  generalize db.job? key = before, next.job? key = after at rowStep ⊢
  cases rowStep with
  | kept | submitted => exact le_rfl
  | changed change =>
    rcases change.counters with ⟨_, ⟨same, _⟩ | ⟨_, _, _, raised, _⟩⟩
    · exact same.ge
    · exact (Nat.le_succ _).trans raised.ge

theorem RowsSteps.generation_eq (steps : RowsSteps representable now .operator db next) :
    next.generation key = db.generation key := by
  induction steps with
  | refl => rfl
  | tail _ step ih => exact (step.generation_eq (by decide)).trans ih

/-- A claim raises the generation of the job that it returns. -/
theorem claim_generation {record : Option IndexJobRecord}
    (claimed : db.claim representable limits request now = .ok (next, record)) :
    next.generation key = db.generation key + (record.any (·.job.key = key)).toNat := by
  have reclaimed : (db.reclaimExpired request.project now).1.generation key = db.generation key :=
    (reclaimExpired_rows representable db request.project).generation_eq
  rcases claim_cases claimed with ⟨rfl, rfl⟩ | ⟨job, row, expiresAt, leased, rfl, rfl, _, stored, _, _, _, _, rfl⟩
  · exact reclaimed
  · rw [← reclaimed, generation, generation, job?_updateJob]
    split_ifs with same
    · simp [same, stored, JobRow.claimUpdate]
    · simp [Ne.symm same]

private theorem claimsJob_eq_false {call : CoordinatorCall} (other : call.actor ≠ .claimant) :
    db.claimsJob call key = false := by
  unfold claimsJob
  split
  · next next record answered =>
    cases call with
    | claim => exact absurd rfl other
    | submit | start | heartbeat | beginPublication | complete | fail | cancel | reclaim =>
      obtain ⟨_, _, same⟩ := Except.map_eq_ok_iff.mp answered
      cases same
  · rfl

private theorem generation_callStep (db : ControlDatabase) (call : UtcCall) :
    (callStep db call).generation key = db.generation key + (db.claimsJob call.1 key).toNat := by
  obtain ⟨call, timely⟩ := call
  by_cases other : call.actor = .claimant
  · cases call with
    | claim limits request now =>
      simp only [callStep, afterCall, claimsJob, respond]
      cases claimed : db.claim utcRange limits request now with
      | error failure => rfl
      | ok result =>
        obtain ⟨next, record⟩ := result
        have counted : next.generation key = _ := claim_generation claimed
        cases record <;> exact counted
    | submit | start | heartbeat | beginPublication | complete | fail | cancel | reclaim => cases other
  · rw [claimsJob_eq_false other, callStep]
    obtain ⟨middle, steps, step⟩ := afterCall_rows utcRange db call
    exact (step.generation_eq other).trans steps.generation_eq

private theorem generation_run (key : JobKey) (db : ControlDatabase) (calls : List UtcCall) :
    (run callStep db calls).generation key = db.generation key + claimCount key db calls := by
  induction calls generalizing db with
  | nil => rfl
  | cons call rest ih => rw [run_cons, ih, generation_callStep, claimCount, Nat.add_assoc]

/-! ## The head of the queue -/

/-- A queued job of the project and the kind. -/
def ControlDatabase.HasQueued (db : ControlDatabase) (project : RemoteProjectRef) (kind : IndexJobKind) : Prop :=
  ∃ key row, db.job? key = some row ∧ projectOf key = project.key ∧ row.spec.kind = kind ∧ row.state = .queued

/-- The columns by which the queue is ordered. -/
def queueRank (job : JobKey × JobRow) : Int ×ₗ String := toLex (job.2.createdAtMs, jobIdOf job.1)

private theorem orderedBefore_iff (first second : JobKey × JobRow) :
    ControlDatabase.orderedBefore first second = true ↔ queueRank first < queueRank second := by
  simp only [orderedBefore, Bool.or_eq_true, Bool.and_eq_true, decide_eq_true_eq, queueRank, Prod.Lex.toLex_lt_toLex]

/-- The oldest of the queued jobs is found. -/
private theorem claimable?_isSome {project : RemoteProjectRef} {kind : IndexJobKind}
    (consistent : ConsistentRows representable db) (queued : db.HasQueued project kind) :
    (db.claimable? project kind).isSome = true := by
  obtain ⟨key, row, stored, scope, isKind, isQueued⟩ := queued
  have requested : row.cancellationRequested = false := by
    by_contra isRequested
    have cancelled := (consistent key row stored).leased.requested (Bool.not_eq_false _ ▸ isRequested)
    rw [isQueued] at cancelled
    cases cancelled
  unfold claimable?
  have member : (key, row) ∈ db.jobs.select (fun key row => projectOf key = project.key &&
      row.spec.kind = kind && row.state = .queued && !row.cancellationRequested) :=
    db.jobs.mem_select.mpr ⟨stored, by simp [scope, isKind, isQueued, requested]⟩
  generalize db.jobs.select _ = jobs at member ⊢
  obtain ⟨oldest, isMember, least⟩ :=
    Finset.exists_min_image jobs.toFinset queueRank ⟨(key, row), List.mem_toFinset.mpr member⟩
  rw [List.find?_isSome]
  refine ⟨oldest, List.mem_toFinset.mp isMember, ?_⟩
  rw [List.all_eq_true]
  intro other isOther
  have notBefore := not_lt.mpr (least other (List.mem_toFinset.mpr isOther))
  rw [← orderedBefore_iff] at notBefore
  simp [notBefore]

/-- A claim under an acceptable request succeeds, and it leases a job whenever one is queued. -/
private theorem claim_succeeds {expiresAt : Int} (whole : WholeMillis representable)
    (inRange : representable now = true)
    (consistent : ConsistentRows representable db) (version : request.protocolVersion = controlProtocolVersion)
    (added : checkedAddMillis representable now limits.leaseTtlMs = .ok expiresAt) :
    ∃ next record, db.claim representable limits request now = .ok (next, record) ∧
      ((db.reclaimExpired request.project now).1.HasQueued request.project request.kind → record.isSome = true) := by
  have reclaimed := (reclaimExpired_rows representable db request.project).consistent whole inRange consistent
  generalize isReclaimed : (db.reclaimExpired request.project now).1 = middle at reclaimed ⊢
  simp only [claim, isReclaimed, Except.bind_eq_ok_iff, require_eq_ok, decide_eq_true_eq, version, added]
  cases chosen : middle.claimable? request.project request.kind with
  | none =>
    refine ⟨middle, none, ⟨(), trivial, expiresAt, rfl, rfl⟩, fun queued => ?_⟩
    have found := claimable?_isSome reclaimed queued
    rw [chosen] at found
    cases found
  | some selected =>
    obtain ⟨key, row⟩ := selected
    obtain ⟨stored, same, kind, queued, requested⟩ := claimable?_row chosen
    have before := reclaimed key row stored
    obtain ⟨counts, fits⟩ := before.counted.nextAttempt_eq queued
    have attempts_lt := before.counted.attempts_lt
    -- the leased row is consistent, so the claim reads it back
    have leases : RowChange representable now .claimant row (row.leasedTo request.workerId expiresAt now) :=
      .claimed rfl queued requested fits (checkedAddMillis_eq_ok added).2
    have consistent := same ▸ leases.consistent whole inRange before
    have updated : (middle.updateJob ⟨request.project, jobIdOf key, request.kind⟩
        (row.claimUpdate request.workerId expiresAt now)).job?
          (⟨request.project, jobIdOf key, request.kind⟩ : IndexJobRef).key =
        some (row.leasedTo request.workerId expiresAt now) := by
      rw [job?_updateJob, if_pos rfl, same, stored]
      rfl
    obtain ⟨record, loaded⟩ := loadRecord_of_consistent updated kind consistent
    have positive : row.nextAttempt ≠ 0 := by omega
    have bounded : row.leaseGeneration + 1 < 2 ^ 63 := by omega
    refine ⟨middle.updateJob ⟨request.project, jobIdOf key, request.kind⟩
      (row.claimUpdate request.workerId expiresAt now), some record, ⟨(), trivial, expiresAt, rfl, ?_⟩, fun _ => rfl⟩
    simp only [Except.bind_eq_ok_iff, require_eq_ok, Bool.and_eq_true, decide_eq_true_eq]
    exact ⟨(), ⟨positive, fits⟩, (), bounded, record, requireRecord_eq_ok_iff.mpr loaded, rfl⟩

/-! ## Whole runs -/

/-- The generation of a job counts its claims, its attempt is its generation once it has been claimed, and there are
no more of them than attempts. A claim at any later time leases the oldest queued job. -/
theorem attempts_of_calls (calls : List UtcCall) : (∀ key row, (run callStep .empty calls).job? key = some row →
      row.leaseGeneration = claimCount key .empty calls ∧
      (row.leaseGeneration ≠ 0 → row.attempt = row.leaseGeneration) ∧
      claimCount key .empty calls ≤ row.maxAttempts) ∧
    ∀ (limits : CoordinatorLimits) (request : ClaimIndexJobRequest) (now expiresAt : Int), utcRange now = true →
      request.protocolVersion = controlProtocolVersion →
      checkedAddMillis utcRange now limits.leaseTtlMs = .ok expiresAt →
      ∃ next record, (run callStep .empty calls).claim utcRange limits request now = .ok (next, record) ∧
        (((run callStep .empty calls).reclaimExpired request.project now).1.HasQueued request.project request.kind →
          record.isSome = true) := by
  have consistent : ConsistentRows utcRange (run callStep .empty calls) :=
    run_invariant (fun db => ConsistentRows utcRange db) ConsistentRows.empty
      (fun db call before => before.afterCall wholeMillis_utcRange call.2) calls
  refine ⟨?_, fun limits request now expiresAt inRange version added =>
    claim_succeeds wholeMillis_utcRange inRange consistent version added⟩
  intro key row stored
  have counted := (consistent key row stored).counted
  have generation : row.leaseGeneration = claimCount key .empty calls := by
    have total := generation_run key .empty calls
    rw [generation, stored] at total
    exact total.trans (Nat.zero_add _)
  refine ⟨generation, counted.claimed, ?_⟩
  rw [← generation]
  by_cases unclaimed : row.leaseGeneration = 0
  · omega
  · have attempt_le := counted.attempt_le
    rw [counted.claimed unclaimed] at attempt_le
    exact attempt_le

/-- The calls whose instants the clock can give. -/
def utcCalls (calls : List CoordinatorCall) : List UtcCall :=
  calls.filterMap fun call => if timely : utcRange call.now = true then some ⟨call, timely⟩ else none

def exampleClaim : ClaimIndexJobRequest := ⟨controlProtocolVersion, exampleProject, .repositoryGraph, "worker-1"⟩

/-- The job fails once and is claimed again. -/
def retriedCalls : List UtcCall :=
  utcCalls [.submit exampleLimits ⟨controlProtocolVersion, exampleProject, exampleSpec⟩ (atSecond 0),
    .claim exampleLimits exampleClaim (atSecond 1),
    .fail ⟨controlProtocolVersion, exampleJob, "worker-1", 1, "parse.failed", true⟩ (atSecond 2),
    .claim exampleLimits exampleClaim (atSecond 3)]

/-- The retried job is in its second attempt; one more claim is answered. -/
theorem attempts_of_retriedCalls :
    (∃ row, (run callStep .empty retriedCalls).job? exampleJob.key = some row ∧ row.leaseGeneration = 2 ∧
      row.attempt = 2) ∧ ∃ next record,
      (run callStep .empty retriedCalls).claim utcRange exampleLimits exampleClaim (atSecond 5) =
        .ok (next, record) := by
  obtain ⟨counts, claims⟩ := attempts_of_calls retriedCalls
  constructor
  · have stored : ((run callStep .empty retriedCalls).job? exampleJob.key).isSome = true := by decide
    obtain ⟨row, found⟩ := Option.isSome_iff_exists.mp stored
    obtain ⟨generation, attempt, _⟩ := counts exampleJob.key row found
    have twice : claimCount exampleJob.key .empty retriedCalls = 2 := by decide
    have second : row.leaseGeneration = 2 := generation.trans twice
    exact ⟨row, found, second, (attempt (by omega)).trans second⟩
  · obtain ⟨next, record, claimed, _⟩ :=
      claims exampleLimits exampleClaim (atSecond 5) (atSecond 65) (by decide) rfl (by decide)
    exact ⟨next, record, claimed⟩

end Ferrus.Distributed

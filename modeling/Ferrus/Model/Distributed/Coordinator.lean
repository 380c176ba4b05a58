import Ferrus.Model.Distributed.ControlDatabase

/-! # The durable job coordinator

Each operation is one immediate transaction on the control database; an error rolls it back. An
advance or failure leaves a receipt, and a repeated request is answered from it without a change.
`representable` is the range of the instants that `chrono` can hold.
-/

namespace Ferrus.Distributed

structure CoordinatorLimits where
  (maxAttempts leaseTtlMs maxJobDurationMs : Nat)
  attempts_pos : 0 < maxAttempts
  attempts_lt : maxAttempts < 2 ^ 32
  ttl_pos : 0 < leaseTtlMs
  duration_pos : 0 < maxJobDurationMs

/-- The instants from `DateTime::<Utc>::MIN_UTC` to `MAX_UTC`. -/
def utcRange (nanos : Int) : Bool :=
  -8334601228800 * 1000000000 ≤ nanos && nanos < 8210266876800 * 1000000000

/-- `DateTime::timestamp_millis`. -/
def timestampMillis (now : Int) : Int := now / 1000000

/-- Refuse with the error unless the condition holds. -/
def require (condition : Bool) (error : CoordinatorError) : Except CoordinatorError Unit :=
  if condition then .ok () else .error error

section

variable (representable : Int → Bool)

/-- `i64::try_from` of the duration and `DateTime::checked_add_signed`. -/
def checkedAddMillis (now : Int) (millis : Nat) : Except CoordinatorError Int :=
  if millis < 2 ^ 63 && representable (now + millis * 1000000) then .ok (now + millis * 1000000)
  else .error .invalidRequest

/-- `DateTime::from_timestamp_millis`. -/
def datetime (millis : Int) : Except CoordinatorError Int :=
  if representable (millis * 1000000) then .ok (millis * 1000000) else .error .serialization

/-- A lease is stored in three columns; the generation outlives the lease. -/
def JobRow.lease (row : JobRow) : Except CoordinatorError (Option JobLease) :=
  match row.leaseWorkerId, row.leaseUntilMs with
  | some workerId, some untilMs => do
      require (row.leaseGeneration ≠ 0) .serialization
      let expiresAt ← datetime representable untilMs
      return some ⟨workerId, row.leaseGeneration, expiresAt⟩
  | none, none => return none
  | _, _ => .error .serialization

def rowToRecord (job : IndexJobRef) (row : JobRow) : Except CoordinatorError IndexJobRecord := do
  require (row.attempt ≠ 0 && row.maxAttempts ≠ 0) .serialization
  let lease ← row.lease representable
  let createdAt ← datetime representable row.createdAtMs
  let updatedAt ← datetime representable row.updatedAtMs
  let deadlineAt ← datetime representable row.deadlineAtMs
  return {
    job := { job with kind := row.spec.kind }, spec := row.spec, state := row.state,
    attempt := row.attempt, maxAttempts := row.maxAttempts, lease,
    cancellationRequested := row.cancellationRequested, failureCode := row.failureCode,
    createdAt, updatedAt, deadlineAt }

end

/-- The lease must be the caller's, of this generation, and neither it nor the job expired. -/
def requireLiveLease (record : IndexJobRecord) (workerId : WorkerId) (generation : Nat) (now : Int) :
    Except CoordinatorError Unit :=
  match record.lease with
  | none => .error .leaseLost
  | some lease => require (lease.workerId = workerId && lease.generation = generation &&
      now < lease.expiresAt && now < record.deadlineAt) .leaseLost

namespace ControlDatabase

variable (representable : Int → Bool) (db : ControlDatabase)

/-- Read a job back; a record of another kind is not found, an inconsistent one is an error. -/
def loadRecord (job : IndexJobRef) : Except CoordinatorError (Option IndexJobRecord) :=
  match db.job? job.key with
  | none => .ok none
  | some row => do
      let record ← rowToRecord representable job row
      require (record.job.kind = job.kind) .notFound
      require record.isValid .serialization
      return some record

def requireRecord (job : IndexJobRef) : Except CoordinatorError IndexJobRecord := do
  match ← db.loadRecord representable job with
  | some record => return record
  | none => throw .notFound

def loadAdvanceReceipt (request : AdvanceIndexJobRequest) (expected next : IndexJobState) :
    Except CoordinatorError (Option IndexJobRecord) := do
  require (request.leaseGeneration < 2 ^ 63) .serialization
  match db.advanceReceipts.find? (fun receipt =>
    receipt.key = request.job.key && receipt.expectedState = expected && receipt.nextState = next &&
      receipt.workerId = request.workerId && receipt.leaseGeneration = request.leaseGeneration) with
  | none => return none
  | some receipt =>
      require (receipt.outcome.job = request.job && receipt.outcome.state = next &&
        receipt.outcome.isValid) .serialization
      return some receipt.outcome

def loadFailureReceipt (request : FailIndexJobRequest) : Except CoordinatorError (Option IndexJobRecord) := do
  require (request.leaseGeneration < 2 ^ 63) .serialization
  match db.failureReceipts.find? (fun receipt =>
    receipt.key = request.job.key && receipt.workerId = request.workerId &&
      receipt.leaseGeneration = request.leaseGeneration && receipt.failureCode = request.failureCode &&
      receipt.retryable = request.retryable) with
  | none => return none
  | some receipt =>
      require (receipt.outcome.job = request.job &&
        (receipt.outcome.state = .queued || receipt.outcome.state = .failed) &&
        receipt.outcome.failureCode = some request.failureCode && receipt.outcome.isValid) .serialization
      return some receipt.outcome

def submit (limits : CoordinatorLimits) (request : SubmitIndexJobRequest) (now : Int) :
    Except CoordinatorError (ControlDatabase × IndexJobRecord) := do
  require (request.protocolVersion = controlProtocolVersion && request.project = request.job.project)
    .invalidRequest
  let job : IndexJobRef := ⟨request.project, request.job.idempotencyKey, request.job.kind⟩
  let deadlineAt ← checkedAddMillis representable now limits.maxJobDurationMs
  require (!db.hasDeletionTombstone request.project) .projectDeleted
  match ← db.loadRecord representable job with
  | some existing =>
      require (existing.spec = request.job) .conflict
      return (db, existing)
  | none =>
      let db := { db with
        jobs := db.jobs.insertNew job.key {
          spec := request.job, state := .queued, attempt := 1, maxAttempts := limits.maxAttempts,
          leaseWorkerId := none, leaseGeneration := 0, leaseUntilMs := none,
          cancellationRequested := false, failureCode := none, createdAtMs := timestampMillis now,
          updatedAtMs := timestampMillis now, deadlineAtMs := timestampMillis deadlineAt } }
      let record ← db.requireRecord representable job
      return (db, record)

section

variable (request : AdvanceIndexJobRequest)

/-- The advance of a leased job, guarded by its receipt, its lease and its state. -/
def transitionWithLease (expected next : IndexJobState) (now : Int)
    (clearLease : Bool) :
    Except CoordinatorError (ControlDatabase × IndexJobRecord) := do
  require (request.protocolVersion = controlProtocolVersion && expected.canTransitionTo next)
    .invalidRequest
  match ← db.loadAdvanceReceipt request expected next with
  | some replayed => return (db, replayed)
  | none =>
      let record ← db.requireRecord representable request.job
      requireLiveLease record request.workerId request.leaseGeneration now
      require (!(record.cancellationRequested || record.state = .cancelled)) .cancelled
      require (record.state = expected) .conflict
      let db := db.updateJob request.job fun row =>
        { (if clearLease then row.clearLease else row) with
          state := next, updatedAtMs := timestampMillis now }
      let updated ← db.requireRecord representable request.job
      return ({ db with
        advanceReceipts := db.advanceReceipts ++
          [⟨request.job.key, expected, next, request.workerId, request.leaseGeneration, updated⟩] }, updated)

def start (now : Int) : Except CoordinatorError (ControlDatabase × IndexJobRecord) :=
  db.transitionWithLease representable request .leased .running now false

def beginPublication (now : Int) : Except CoordinatorError (ControlDatabase × IndexJobRecord) :=
  db.transitionWithLease representable request .running .publishing now false

def complete (now : Int) : Except CoordinatorError (ControlDatabase × IndexJobRecord) :=
  db.transitionWithLease representable request .publishing .complete now true

end

def heartbeat (limits : CoordinatorLimits) (request : AdvanceIndexJobRequest) (now : Int) :
    Except CoordinatorError (ControlDatabase × IndexJobRecord) := do
  require (request.protocolVersion = controlProtocolVersion) .invalidRequest
  let expiresAt ← checkedAddMillis representable now limits.leaseTtlMs
  let record ← db.requireRecord representable request.job
  requireLiveLease record request.workerId request.leaseGeneration now
  require (!(record.cancellationRequested || record.state = .cancelled)) .cancelled
  require (record.state.isActive) .leaseLost
  let db := db.updateJob request.job fun row =>
    { row with
      leaseUntilMs := some (min (timestampMillis expiresAt) row.deadlineAtMs)
      updatedAtMs := timestampMillis now }
  let updated ← db.requireRecord representable request.job
  return (db, updated)

/-- A worker reports a failure; only a leased or running job is queued again. -/
def fail (request : FailIndexJobRequest) (now : Int) :
    Except CoordinatorError (ControlDatabase × IndexJobRecord) := do
  require (request.protocolVersion = controlProtocolVersion) .invalidRequest
  match ← db.loadFailureReceipt request with
  | some replayed => return (db, replayed)
  | none =>
      let record ← db.requireRecord representable request.job
      requireLiveLease record request.workerId request.leaseGeneration now
      require (!(record.cancellationRequested || record.state = .cancelled)) .cancelled
      require record.state.isActive .conflict
      let retry := request.retryable && record.attempt < record.maxAttempts &&
        (record.state = .leased || record.state = .running)
      let db := db.updateJob request.job fun row =>
        { row.clearLease with
          state := if retry then .queued else .failed
          failureCode := some request.failureCode
          updatedAtMs := timestampMillis now }
      let updated ← db.requireRecord representable request.job
      return ({ db with
        failureReceipts := db.failureReceipts ++
          [⟨request.job.key, request.workerId, request.leaseGeneration, request.failureCode,
            request.retryable, updated⟩] }, updated)

def cancel (request : CancelIndexJobRequest) (now : Int) :
    Except CoordinatorError (ControlDatabase × IndexJobRecord) := do
  require (request.protocolVersion = controlProtocolVersion) .invalidRequest
  let record ← db.requireRecord representable request.job
  if record.state = .cancelled then return (db, record)
  require (request.expectedState.all (· = record.state)) .conflict
  if record.state.isTerminal then return (db, record)
  let db := db.updateJob request.job fun row =>
    { row.clearLease with
      state := .cancelled, cancellationRequested := true, failureCode := none,
      updatedAtMs := timestampMillis now }
  let updated ← db.requireRecord representable request.job
  return (db, updated)

end ControlDatabase

/-! ## Reclaiming expired leases -/

/-- The four updates of a reclaim, in order; each selects rows of the project by their columns. -/
inductive ReclaimUpdate where
  | cancel | timeout | attemptLimit | requeue
deriving DecidableEq, Repr

open ReclaimUpdate

namespace ReclaimUpdate

variable (update : ReclaimUpdate)

def selects (nowMs : Int) (row : JobRow) : Bool :=
  match update with
  | cancel => row.cancellationRequested && row.leaseExpired nowMs && row.state.isActive
  | timeout => !row.cancellationRequested && row.deadlineAtMs ≤ nowMs &&
      (row.state = .queued || row.state.isActive)
  | attemptLimit => !row.cancellationRequested && row.maxAttempts ≤ row.attempt &&
      row.leaseExpired nowMs && row.state.isActive
  | requeue => !row.cancellationRequested && row.attempt < row.maxAttempts &&
      row.leaseExpired nowMs && row.state.isActive

def state : ReclaimUpdate → IndexJobState
  | cancel => .cancelled
  | timeout | attemptLimit => .failed
  | requeue => .queued

def failureCode : ReclaimUpdate → Option String
  | timeout => some "job.timeout"
  | attemptLimit => some "job.attempt_limit"
  | cancel | requeue => none

def change (nowMs : Int) (row : JobRow) : JobRow :=
  { row.clearLease with
    state := update.state, failureCode := update.failureCode, updatedAtMs := nowMs }

def apply (project : RemoteProjectRef) (nowMs : Int) (db : ControlDatabase) : ControlDatabase :=
  db.updateJobs (fun key row => projectOf key = project.key && update.selects nowMs row)
    (update.change nowMs)

/-- The number of rows the update changes. -/
def count (project : RemoteProjectRef) (nowMs : Int) (db : ControlDatabase) : Nat :=
  (db.jobs.select (fun key row => projectOf key = project.key && update.selects nowMs row)).length

end ReclaimUpdate

namespace ControlDatabase

variable (db : ControlDatabase)

/-- The database after each of the four updates. -/
def reclaimWrites (project : RemoteProjectRef) (nowMs : Int) : List ControlDatabase :=
  let cancelled := ReclaimUpdate.cancel.apply project nowMs db
  let timedOut := timeout.apply project nowMs cancelled
  let limited := attemptLimit.apply project nowMs timedOut
  [cancelled, timedOut, limited, requeue.apply project nowMs limited]

def reclaimExpired (project : RemoteProjectRef) (now : Int) : ControlDatabase × ReclaimIndexJobsResult :=
  let nowMs := timestampMillis now
  let cancelled := ReclaimUpdate.cancel.apply project nowMs db
  let timedOut := timeout.apply project nowMs cancelled
  let limited := attemptLimit.apply project nowMs timedOut
  (requeue.apply project nowMs limited,
    { requeued := requeue.count project nowMs limited
      failed := timeout.count project nowMs cancelled +
        attemptLimit.count project nowMs timedOut
      cancelled := ReclaimUpdate.cancel.count project nowMs db })

def reclaim (request : ReclaimIndexJobsRequest) (now : Int) :
    Except CoordinatorError (ControlDatabase × ReclaimIndexJobsResult) := do
  require (request.protocolVersion = controlProtocolVersion) .invalidRequest
  return db.reclaimExpired request.project now

/-- `ORDER BY created_at_ms, job_id`. -/
def orderedBefore (first second : JobKey × JobRow) : Bool :=
  first.2.createdAtMs < second.2.createdAtMs ||
    (first.2.createdAtMs = second.2.createdAtMs && jobIdOf first.1 < jobIdOf second.1)

/-- The oldest queued job of a kind that nobody has asked to cancel: no other comes before it. -/
def claimable? (project : RemoteProjectRef) (kind : IndexJobKind) : Option (JobKey × JobRow) :=
  let queued := db.jobs.select fun key row => projectOf key = project.key && row.spec.kind = kind &&
    row.state = .queued && !row.cancellationRequested
  queued.find? fun job => queued.all fun other => !orderedBefore other job

/-- A claim reclaims first and then leases the oldest queued job. -/
def claim (representable : Int → Bool) (db : ControlDatabase) (limits : CoordinatorLimits)
    (request : ClaimIndexJobRequest) (now : Int) :
    Except CoordinatorError (ControlDatabase × Option IndexJobRecord) := do
  require (request.protocolVersion = controlProtocolVersion) .invalidRequest
  let expiresAt ← checkedAddMillis representable now limits.leaseTtlMs
  let db := (db.reclaimExpired request.project now).1
  match db.claimable? request.project request.kind with
  | none => return (db, none)
  | some (key, row) =>
      let nextAttempt := if row.leaseGeneration = 0 then row.attempt else min (row.attempt + 1) (2 ^ 32 - 1)
      require (nextAttempt ≠ 0 && nextAttempt ≤ row.maxAttempts) .conflict
      let generation := row.leaseGeneration + 1
      require (generation < 2 ^ 63) .serialization
      let job : IndexJobRef := ⟨request.project, jobIdOf key, request.kind⟩
      let db := db.updateJob job fun row =>
        { row with
          state := .leased, attempt := nextAttempt, leaseWorkerId := some request.workerId,
          leaseGeneration := generation,
          leaseUntilMs := some (min (timestampMillis expiresAt) row.deadlineAtMs),
          updatedAtMs := timestampMillis now, failureCode := none }
      let record ← db.requireRecord representable job
      return (db, some record)

end ControlDatabase

end Ferrus.Distributed

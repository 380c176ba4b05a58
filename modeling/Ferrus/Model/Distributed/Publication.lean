import Ferrus.Model.Distributed.Coordinator

/-! # Publication of a job's result

The publication store shares the control database with the coordinator. A publication checks the
worker's authority and writes its facts, its view and the completion of the job in one transaction.
The content checks and the other tables are an input here: what the job row has to allow is modelled.
-/

namespace Ferrus.Distributed

inductive RemoteStoreError where
  | projectDeleted | authorityLost | invalidInput | immutableConflict | factConflict | quotaExceeded
  | integrityFailure | database
deriving DecidableEq, Repr

/-- The lease under which a publication request is made. -/
structure PublicationLease where
  job : IndexJobRef
  workerId : WorkerId
  leaseGeneration : Nat
deriving DecidableEq, Repr

/-- The job is being published by this worker, and neither its lease nor the job has expired. -/
def JobRow.publishableBy (row : JobRow) (request : PublicationLease) (nowMs : Int) : Bool :=
  row.state = .publishing && !row.cancellationRequested && row.leaseWorkerId = some request.workerId &&
    row.leaseGeneration = request.leaseGeneration && row.leaseUntilMs.any (nowMs < ·) &&
    nowMs < row.deadlineAtMs

namespace ControlDatabase

variable (db : ControlDatabase)

def requirePublicationAuthority (request : PublicationLease) (now : Int) : Except RemoteStoreError IndexJobSpec :=
  if db.hasDeletionTombstone request.job.project then .error .projectDeleted
  else
    match db.job? request.job.key with
    | none => .error .authorityLost
    | some row =>
        if row.spec.kind = request.job.kind && row.spec.project = request.job.project &&
          row.publishableBy request (timestampMillis now) then .ok row.spec
        else .error .authorityLost

/-- The statement makes the same checks again; no row means the authority is lost. -/
def completeJob (request : PublicationLease) (now : Int) : Except RemoteStoreError ControlDatabase :=
  let nowMs := timestampMillis now
  let selected (key : JobKey) (row : JobRow) : Bool := key = request.job.key && row.publishableBy request nowMs
  if (db.jobs.select selected).length = 1 then
    .ok (db.updateJobs selected fun row =>
      { row.clearLease with state := .complete, failureCode := none, updatedAtMs := nowMs })
  else .error .authorityLost

/-- Publish a prepared result. `contentMatches` is the check of the content against the specification. -/
def publishPrepared (request : PublicationLease) (contentMatches : IndexJobSpec → Bool) (now : Int) :
    Except RemoteStoreError ControlDatabase := do
  let spec ← db.requirePublicationAuthority request now
  if contentMatches spec then db.completeJob request now else throw .invalidInput

end ControlDatabase

end Ferrus.Distributed

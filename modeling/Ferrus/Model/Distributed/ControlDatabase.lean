import Ferrus.Model.Distributed.Protocol

/-! # The control database

The tables that the coordinator, the publication store and the deletion service share: the jobs, the
receipts of their advances and failures, and the tombstones of projects under deletion.
-/

namespace Ferrus.Distributed

/-- The key of a project: tenant and project. -/
abbrev ProjectKey := String ×ₗ String

/-- The primary key of a job: tenant, project and job id. -/
abbrev JobKey := ProjectKey ×ₗ String

def RemoteProjectRef.key (project : RemoteProjectRef) : ProjectKey :=
  toLex (project.tenantId, project.projectId)

def IndexJobRef.key (job : IndexJobRef) : JobKey := toLex (job.project.key, job.jobId)

def projectOf (key : JobKey) : ProjectKey := (ofLex key).1

def jobIdOf (key : JobKey) : String := (ofLex key).2

@[simp] theorem projectOf_key (job : IndexJobRef) : projectOf job.key = job.project.key := rfl

/-- One row of `distributed_index_jobs`, without its key; times are milliseconds. -/
structure JobRow where
  spec : IndexJobSpec
  state : IndexJobState
  (attempt maxAttempts : Nat)
  leaseWorkerId : Option WorkerId
  leaseGeneration : Nat
  leaseUntilMs : Option Int
  cancellationRequested : Bool
  failureCode : Option String
  (createdAtMs updatedAtMs deadlineAtMs : Int)
deriving DecidableEq, Repr

/-- The row without its lease; the generation stays. -/
def JobRow.clearLease (row : JobRow) : JobRow := { row with leaseWorkerId := none, leaseUntilMs := none }

/-- `lease_until_ms <= now`; a null deadline is no deadline. -/
def JobRow.leaseExpired (row : JobRow) (nowMs : Int) : Bool := row.leaseUntilMs.any (· ≤ nowMs)

structure AdvanceReceipt where
  key : JobKey
  (expectedState nextState : IndexJobState)
  workerId : WorkerId
  leaseGeneration : Nat
  outcome : IndexJobRecord
deriving DecidableEq

structure FailureReceipt where
  key : JobKey
  workerId : WorkerId
  leaseGeneration : Nat
  failureCode : String
  retryable : Bool
  outcome : IndexJobRecord
deriving DecidableEq

structure ControlDatabase where
  jobs : Table JobKey JobRow
  tombstones : Table ProjectKey String
  advanceReceipts : List AdvanceReceipt
  failureReceipts : List FailureReceipt
deriving DecidableEq

namespace ControlDatabase

def empty : ControlDatabase := ⟨.empty, .empty, [], []⟩

variable (db : ControlDatabase)

def job? (key : JobKey) : Option JobRow := db.jobs.get? key

def state? (key : JobKey) : Option IndexJobState := (db.job? key).map (·.state)

/-- `UPDATE distributed_index_jobs SET … WHERE …`. -/
def updateJobs (selected : JobKey → JobRow → Bool) (change : JobRow → JobRow) : ControlDatabase :=
  { db with jobs := db.jobs.updateWhere selected change }

theorem job?_updateJobs (selected : JobKey → JobRow → Bool)
    (change : JobRow → JobRow) (key : JobKey) :
    (db.updateJobs selected change).job? key =
      (db.job? key).map (fun row => if selected key row then change row else row) :=
  db.jobs.get?_updateWhere selected change key

/-- The update of one job. -/
def updateJob (job : IndexJobRef) (change : JobRow → JobRow) : ControlDatabase :=
  { db with jobs := db.jobs.modify job.key change }

theorem job?_updateJob (job : IndexJobRef) (change : JobRow → JobRow) (key : JobKey) :
    (db.updateJob job change).job? key = if key = job.key then (db.job? key).map change else db.job? key :=
  db.jobs.get?_modify job.key key change

/-- `DELETE FROM distributed_index_jobs WHERE …`; the receipts of a job go with it. -/
def deleteJobs (selected : JobKey → JobRow → Bool) : ControlDatabase :=
  let gone := (db.jobs.select selected).map (·.1)
  { db with
    jobs := db.jobs.deleteWhere selected
    advanceReceipts := db.advanceReceipts.filter (·.key ∉ gone)
    failureReceipts := db.failureReceipts.filter (·.key ∉ gone) }

theorem job?_deleteJobs (selected : JobKey → JobRow → Bool) (key : JobKey) :
    (db.deleteJobs selected).job? key = (db.job? key).filter (fun row => !selected key row) :=
  db.jobs.get?_deleteWhere selected key

def hasDeletionTombstone (project : RemoteProjectRef) : Bool :=
  (db.tombstones.get? project.key).isSome

end ControlDatabase

end Ferrus.Distributed

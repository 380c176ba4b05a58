import Ferrus.Model.Distributed.Coordinator
import Ferrus.Model.Distributed.FactBatches

/-! # The store of unpublished fact batches

Workers put their batches here until the job is published. The store is a database of its own with the
control database attached: one immediate transaction covers both, checks the lease of the writer and
drops the batches of finished jobs first. An error, and also a batch that is already stored, rolls it back.
-/

namespace Ferrus.Distributed

structure FactBatchWriteAuthority where
  workerId : WorkerId
  leaseGeneration : Nat
deriving DecidableEq, Repr

structure FactStoreQuota where
  (maxBatchesPerProject maxBytesPerProject maxBatchBytes : Nat)
deriving DecidableEq, Repr

inductive FactStoreError where
  | invalidBatch | sequenceConflict | batchQuotaExceeded | projectBatchQuotaExceeded
  | projectByteQuotaExceeded | projectDeleted | jobNotWritable | database
deriving DecidableEq, Repr

inductive PutFactBatchOutcome where
  | stored | reused
deriving DecidableEq, Repr

/-- The text of the column `job_kind`. -/
def IndexJobKind.column : IndexJobKind → String
  | repositoryGraph => "repository_graph"
  | projectMemory => "project_memory"

/-- The primary key of a batch: job, kind, shard and sequence. -/
abbrev BatchKey := JobKey ×ₗ String ×ₗ String ×ₗ Nat

def FactBatch.key (batch : FactBatch) : BatchKey :=
  toLex (batch.header.job.key, toLex (batch.header.job.kind.column,
    toLex (batch.header.shardId, batch.header.sequence)))

namespace BatchKey

variable (key : BatchKey)

def job : JobKey := (ofLex key).1

def kind : String := (ofLex (ofLex key).2).1

def project : ProjectKey := projectOf (job key)

def isOf (other : IndexJobRef) : Bool := job key = other.key && kind key = other.kind.column

end BatchKey

/-- One row of `unpublished_fact_batches`. -/
structure StoredBatch where
  batch : FactBatch
  byteLen : Nat
deriving DecidableEq, Repr

structure FactDatabase where
  batches : Table BatchKey StoredBatch
  tombstones : Table ProjectKey String
deriving DecidableEq

structure StoredFactBatchRef where
  (batchId shardId : String)
  sequence : Nat
  finalBatch : Bool
deriving DecidableEq, Repr

structure FactBatchProgress where
  job : IndexJobRef
  batches : List StoredFactBatchRef
  finalBatchSeen : Bool
deriving DecidableEq, Repr

/-- The job runs under this lease, which has not expired. The deadline of the job is not read. -/
def JobRow.writableBy (row : JobRow) (authority : FactBatchWriteAuthority) (nowMs : Int) : Bool :=
  row.state = .running && row.leaseWorkerId = some authority.workerId &&
    row.leaseGeneration = min authority.leaseGeneration (2 ^ 63 - 1) && row.leaseUntilMs.any (nowMs < ·) &&
    !row.cancellationRequested

def ControlDatabase.isWritable (control : ControlDatabase) (job : IndexJobRef)
    (authority : FactBatchWriteAuthority) (nowMs : Int) : Bool :=
  (control.job? job.key).any fun row => row.spec.kind = job.kind && row.writableBy authority nowMs

/-- The job of a batch is over. -/
def ControlDatabase.hasFinished (control : ControlDatabase) (key : BatchKey) : Bool :=
  (control.job? (BatchKey.job key)).any fun row =>
    row.spec.kind.column = BatchKey.kind key && row.state.isTerminal

namespace FactDatabase

def empty : FactDatabase := ⟨.empty, .empty⟩

variable (facts : FactDatabase)

def hasDeletionTombstone (project : RemoteProjectRef) : Bool :=
  (facts.tombstones.get? project.key).isSome

/-- The batches of a job, in the order of their shards and sequences. -/
def rowsForJob (job : IndexJobRef) : List FactBatch :=
  (facts.batches.select (fun key _ => BatchKey.isOf key job)).map (·.2.batch)

def loadForIngestion (job : IndexJobRef) : List FactBatch := facts.rowsForJob job

def progress (job : IndexJobRef) : FactBatchProgress :=
  let batches := (facts.rowsForJob job).map fun batch =>
    (⟨batch.header.batchId, batch.header.shardId, batch.header.sequence, batch.header.finalBatch⟩ :
      StoredFactBatchRef)
  ⟨job, batches, batches.any (·.finalBatch)⟩

/-- Drop the batches of the project's finished jobs. -/
def dropFinished (control : ControlDatabase) (project : RemoteProjectRef) : FactDatabase :=
  { facts with
    batches := facts.batches.deleteWhere (fun key _ =>
      BatchKey.project key = project.key && control.hasFinished key) }

def ofProject (project : ProjectKey) : List StoredBatch :=
  (facts.batches.select (fun key _ => BatchKey.project key = project)).map (·.2)

/-- The number and the bytes of a project's batches. -/
def batchCount (project : ProjectKey) : Nat := (facts.ofProject project).length

def batchBytes (project : ProjectKey) : Nat :=
  ((facts.ofProject project).map (·.byteLen)).sum

/-- The checks and the insertion of a batch whose sequence is free. -/
def insertBatch (quota : FactStoreQuota) (batch : FactBatch) (byteLen : Nat) : Except FactStoreError FactDatabase :=
  let job := batch.header.job
  if (facts.rowsForJob job).any (·.header.finalBatch) then .error .sequenceConflict
  else if quota.maxBatchesPerProject ≤ facts.batchCount job.project.key then .error .projectBatchQuotaExceeded
  else if quota.maxBytesPerProject < facts.batchBytes job.project.key + byteLen then
    .error .projectByteQuotaExceeded
  else if (facts.rowsForJob job).any (·.header.batchId = batch.header.batchId) then .error .database
  else .ok { facts with batches := facts.batches.insertNew batch.key ⟨batch, byteLen⟩ }

/-- Put a batch under the lease of its writer. -/
def put (codec : BatchCodec) (control : ControlDatabase) (quota : FactStoreQuota) (facts : FactDatabase)
    (batch : FactBatch) (authority : FactBatchWriteAuthority) (now : Int) :
    Except FactStoreError (FactDatabase × PutFactBatchOutcome) :=
  let job := batch.header.job
  if !batch.validate codec then .error .invalidBatch
  else if quota.maxBatchBytes < codec.byteLen batch then .error .batchQuotaExceeded
  else if facts.hasDeletionTombstone job.project then .error .projectDeleted
  else if !control.isWritable job authority (timestampMillis now) then .error .jobNotWritable
  else
    let cleaned := facts.dropFinished control job.project
    match cleaned.batches.get? batch.key with
    | some existing => if existing.batch = batch then .ok (facts, .reused) else .error .sequenceConflict
    | none => (cleaned.insertBatch quota batch (codec.byteLen batch)).map (·, .stored)

end FactDatabase

end Ferrus.Distributed

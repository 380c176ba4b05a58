import Mathlib.Algebra.GroupWithZero.Nat
import Mathlib.Data.Prod.Lex
import Mathlib.Data.String.Basic
import Ferrus.ToMathlib.KeyedTable

/-! # The distributed index-job protocol

The states of an index job, the transition table that states which changes of them are meant, and the
records and requests that the coordinator exchanges with its workers.
-/

namespace Ferrus.Distributed

abbrev WorkerId := String

/-- The text of a hash. -/
abbrev Digest := String

structure RemoteProjectRef where
  (tenantId projectId : String)
deriving DecidableEq, Repr

structure RemoteRepositoryRef where
  project : RemoteProjectRef
  repositoryId : String
deriving DecidableEq, Repr

structure RemoteGraphSnapshotRef where
  repository : RemoteRepositoryRef
  snapshotId : String
deriving DecidableEq, Repr

structure RemoteMemoryRevisionRef where
  project : RemoteProjectRef
  revisionId : String
deriving DecidableEq, Repr

inductive IndexJobKind where
  | repositoryGraph | projectMemory
deriving DecidableEq, Repr

/-- The manifest of a repository, beside the repository itself. -/
structure RepositoryManifest where
  repositoryIdentity : String
  (manifestDigest sourcePolicyDigest : Digest)
  expectedSnapshotId : String
deriving DecidableEq, Repr

/-- The manifest of a project's memory: its sources and the repository snapshots it is linked to. -/
structure MemoryManifest where
  projectIdentity : String
  (manifestDigest memoryPolicyDigest : Digest)
  expectedRevisionId : String
  repositorySnapshot : Option RemoteGraphSnapshotRef
  repositoryOriginSnapshots : List RemoteGraphSnapshotRef
deriving DecidableEq, Repr

/-- What a job indexes. -/
inductive IndexInputRef where
  | repository (repository : RemoteRepositoryRef) (manifest : RepositoryManifest)
  | memory (project : RemoteProjectRef) (manifest : MemoryManifest)
deriving DecidableEq, Repr

namespace IndexInputRef

def project : IndexInputRef → RemoteProjectRef
  | repository target _ => target.project
  | memory project _ => project

def kind : IndexInputRef → IndexJobKind
  | repository .. => .repositoryGraph
  | memory .. => .projectMemory

end IndexInputRef

structure IndexSemantics where
  semanticConfigDigest : Digest
  modelVersion : Nat
  extractorSetDigest : Digest
deriving DecidableEq, Repr

/-- A validated specification: its kind is the kind of its input. -/
structure IndexJobSpec where
  input : IndexInputRef
  semantics : IndexSemantics
  idempotencyKey : String
deriving DecidableEq, Repr

def IndexJobSpec.kind (spec : IndexJobSpec) : IndexJobKind := spec.input.kind

def IndexJobSpec.project (spec : IndexJobSpec) : RemoteProjectRef := spec.input.project

inductive IndexJobState where
  | queued | leased | running | publishing | complete | failed | cancelled
deriving DecidableEq, Repr, Inhabited

namespace IndexJobState

/-- The transition table. -/
def canTransitionTo : IndexJobState → IndexJobState → Bool
  | queued, leased | queued, cancelled | queued, failed => true
  | leased, running | leased, queued | leased, cancelled | leased, failed => true
  | running, publishing | running, queued | running, cancelled | running, failed => true
  | publishing, complete | publishing, cancelled | publishing, failed => true
  | _, _ => false

def isTerminal : IndexJobState → Bool
  | complete | failed | cancelled => true
  | _ => false

/-- The condition `state IN ('leased', 'running', 'publishing')`. -/
def isActive : IndexJobState → Bool
  | leased | running | publishing => true
  | _ => false

theorem isActive_iff {state : IndexJobState} :
    state.isActive = true ↔ state = leased ∨ state = running ∨ state = publishing := by
  cases state <;> simp [isActive]

/-- The table leaves no way out of a terminal state. -/
theorem canTransitionTo_of_isTerminal {state : IndexJobState} (terminal : state.isTerminal = true)
    (next : IndexJobState) : state.canTransitionTo next = false := by
  cases state <;> cases next <;> first | rfl | cases terminal

end IndexJobState

structure IndexJobRef where
  project : RemoteProjectRef
  jobId : String
  kind : IndexJobKind
deriving DecidableEq, Repr

/-- A lease; its expiry is in nanoseconds since the Unix epoch. -/
structure JobLease where
  workerId : WorkerId
  generation : Nat
  expiresAt : Int
deriving DecidableEq, Repr

structure IndexJobRecord where
  job : IndexJobRef
  spec : IndexJobSpec
  state : IndexJobState
  (attempt maxAttempts : Nat)
  lease : Option JobLease
  cancellationRequested : Bool
  failureCode : Option String
  (createdAt updatedAt deadlineAt : Int)
deriving DecidableEq, Repr

/-- The consistency of a record; the specification has been validated on its own. -/
def IndexJobRecord.isValid (record : IndexJobRecord) : Bool :=
  record.job.project = record.spec.project && record.job.kind = record.spec.kind &&
    record.attempt ≤ record.maxAttempts && record.state.isActive == record.lease.isSome &&
    !(record.cancellationRequested && record.state = .complete) &&
    !(record.state = .failed && record.failureCode.isNone) &&
    !((record.state = .complete || record.state = .cancelled) && record.failureCode.isSome) &&
    record.createdAt ≤ record.deadlineAt

def controlProtocolVersion : Nat := 3

structure SubmitIndexJobRequest where
  protocolVersion : Nat
  project : RemoteProjectRef
  job : IndexJobSpec
deriving DecidableEq, Repr

structure ClaimIndexJobRequest where
  protocolVersion : Nat
  project : RemoteProjectRef
  kind : IndexJobKind
  workerId : WorkerId
deriving DecidableEq, Repr

structure AdvanceIndexJobRequest where
  protocolVersion : Nat
  job : IndexJobRef
  workerId : WorkerId
  leaseGeneration : Nat
deriving DecidableEq, Repr

structure FailIndexJobRequest where
  protocolVersion : Nat
  job : IndexJobRef
  workerId : WorkerId
  leaseGeneration : Nat
  failureCode : String
  retryable : Bool
deriving DecidableEq, Repr

structure CancelIndexJobRequest where
  protocolVersion : Nat
  job : IndexJobRef
  expectedState : Option IndexJobState
deriving DecidableEq, Repr

structure ReclaimIndexJobsRequest where
  protocolVersion : Nat
  project : RemoteProjectRef
deriving DecidableEq, Repr

structure ReclaimIndexJobsResult where
  (requeued failed cancelled : Nat)
deriving DecidableEq, Repr

inductive CoordinatorError where
  | invalidRequest | notFound | conflict | leaseLost | cancelled | projectDeleted | serialization
deriving DecidableEq, Repr

end Ferrus.Distributed

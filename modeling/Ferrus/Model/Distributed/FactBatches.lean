import Ferrus.Model.Distributed.Protocol
import Ferrus.ToMathlib.PartialEq

/-! # Facts and their batches

A worker sends the facts that it extracts in numbered batches. The header of a batch names the job, the
immutable target and the place of the batch in its shard, and binds the payload by its digest. The rest
of a fact, which is only stored and compared, stays one text. The properties of nodes and edges stay apart, since
they may be floating-point numbers, which are not compared by their bits.
-/

namespace Ferrus.Distributed

/-- A double by its bits: a sign, eleven bits of exponent and fifty-two of fraction. -/
structure F64 where
  bits : UInt64
deriving DecidableEq, Repr

namespace F64

/-- The number without its sign. -/
def magnitude (number : F64) : Nat := number.bits.toNat % 9223372036854775808

/-- The exponent is full and the fraction is not zero. -/
def isNan (number : F64) : Bool := 9218868437227405312 < number.magnitude

/-- The comparison of IEEE 754: a NaN equals nothing, and the two zeros are equal. -/
def eq (first second : F64) : Bool :=
  !first.isNan && !second.isNan && (first = second || first.magnitude = 0 && second.magnitude = 0)

instance : PartialEq F64 where
  eq := eq
  symm {first second} same := by
    simp only [eq, Bool.and_eq_true, Bool.or_eq_true, decide_eq_true_eq] at same ⊢
    exact ⟨same.1.symm, same.2.imp Eq.symm And.symm⟩
  trans {first second third} same again := by
    simp only [eq, Bool.and_eq_true, Bool.or_eq_true, decide_eq_true_eq] at same again ⊢
    obtain ⟨⟨isNumber, _⟩, rfl | ⟨isZero, middleZero⟩⟩ := same
    · exact again
    · obtain ⟨⟨_, isOther⟩, rfl | ⟨_, otherZero⟩⟩ := again
      · exact ⟨⟨isNumber, isOther⟩, .inr ⟨isZero, middleZero⟩⟩
      · exact ⟨⟨isNumber, isOther⟩, .inr ⟨isZero, otherZero⟩⟩

end F64

inductive GraphValue where
  | boolean (value : Bool)
  | integer (value : Int)
  | float (value : F64)
  | string (value : String)
  | stringList (values : List String)
deriving DecidableEq, Repr

namespace GraphValue

def eq : GraphValue → GraphValue → Bool
  | float first, float second => PartialEq.eq first second
  | first, second => first = second

instance : PartialEq GraphValue where
  eq := eq
  symm {first second} same := by
    cases first <;> cases second <;> first | exact PartialEq.symm same | simp_all [eq]
  trans {first second third} same again := by
    cases first <;> cases second <;> cases third <;> first | exact PartialEq.trans same again | simp_all [eq]

end GraphValue

/-- Maps are equal if their keys are the same and their values equal, one after the other. -/
instance : PartialEq (Table String GraphValue) :=
  .comap (.list (.and (.comap (.exact String) (·.1)) (.comap inferInstance (·.2)))) (·.rows)

structure GraphNode where
  (snapshotId id : String)
  (semanticKey evidencePath : Option String)
  content : String
  properties : Table String GraphValue
deriving DecidableEq, Repr

/-- Field by field, as `PartialEq` is derived. -/
instance : PartialEq GraphNode :=
  .and (.comap (.exact GraphNode) fun node => { node with properties := .empty }) (.comap inferInstance (·.properties))

inductive EdgeTarget where
  | node (id : String)
  | external (text : String)
  | unresolved (text : String)
deriving DecidableEq, Repr

structure GraphEdge where
  (snapshotId id source : String)
  target : EdgeTarget
  content : String
  properties : Table String GraphValue
deriving DecidableEq, Repr

instance : PartialEq GraphEdge :=
  .and (.comap (.exact GraphEdge) fun edge => { edge with properties := .empty }) (.comap inferInstance (·.properties))

structure GraphDiagnostic where
  buildId : String
  snapshotId : Option String
  content : String
deriving DecidableEq, Repr

instance : PartialEq GraphDiagnostic := .exact _

inductive MemoryResolutionState where
  | resolved | unresolved | stale
deriving DecidableEq, Repr

/-- Where a memory fact comes from; its times are nanoseconds since the Unix epoch. -/
structure MemoryProvenance where
  content : String
  resolution : MemoryResolutionState
  (sourceObservedAt indexedAt : Int)
deriving DecidableEq, Repr

structure MemoryEntity where
  (project memoryRevisionId id data : String)
  provenance : MemoryProvenance
deriving DecidableEq, Repr

instance : PartialEq MemoryEntity := .exact _

inductive MemoryRelationshipTarget where
  | memoryEntity (entityId : String)
  | repositoryNode (repository snapshotId nodeId : String) (semanticKey : Option String)
  | repositoryPath (repository path : String) (snapshotId : Option String)
  | repositorySymbol (repository semanticKey : String) (snapshotId : Option String)
  | task (taskId : String)
  | run (runId : String)
  | milestone (milestoneId : String)
deriving DecidableEq, Repr

/-- The repository that a relationship points into, and the snapshot if it names one. -/
def MemoryRelationshipTarget.repository? : MemoryRelationshipTarget → Option (String × Option String)
  | repositoryNode repository snapshotId _ _ => some (repository, some snapshotId)
  | repositoryPath repository _ snapshotId | repositorySymbol repository _ snapshotId =>
      some (repository, snapshotId)
  | memoryEntity _ | task _ | run _ | milestone _ => none

structure MemoryRelationship where
  (project memoryRevisionId id source : String)
  target : MemoryRelationshipTarget
  content : String
  provenance : MemoryProvenance
deriving DecidableEq, Repr

instance : PartialEq MemoryRelationship := .exact _

variable (relationship : MemoryRelationship)

def MemoryRelationship.isRepositoryRelationship : Bool :=
  relationship.target.repository?.isSome

structure MemoryDiagnostic where
  (buildId revisionId : String)
  relationshipId : Option String
  content : String
deriving DecidableEq, Repr

instance : PartialEq MemoryDiagnostic := .exact _

/-- One resolution of a memory revision against a repository snapshot. -/
structure MemoryRepositoryLinkSet where
  (id project memoryRevisionId repository : String)
  repositorySnapshotId : Option String
  resolver : String
deriving DecidableEq, Repr

structure RemoteMemoryLinkSetTarget where
  graph : RemoteGraphSnapshotRef
  originGraphs : List RemoteGraphSnapshotRef
  linkSet : MemoryRepositoryLinkSet
deriving DecidableEq, Repr

inductive FactTarget where
  | repositoryGraph (snapshot : RemoteGraphSnapshotRef) (repositoryIdentity buildId : String)
  | projectMemory (revision : RemoteMemoryRevisionRef) (projectIdentity buildId : String)
      (repositoryLinks : Option RemoteMemoryLinkSetTarget)
deriving DecidableEq, Repr

namespace FactTarget

def project : FactTarget → RemoteProjectRef
  | repositoryGraph snapshot _ _ => snapshot.repository.project
  | projectMemory revision _ _ _ => revision.project

def kind : FactTarget → IndexJobKind
  | repositoryGraph .. => .repositoryGraph
  | projectMemory .. => .projectMemory

end FactTarget

inductive FactBatchPayload where
  | repositoryGraph (nodes : List GraphNode) (edges : List GraphEdge) (diagnostics : List GraphDiagnostic)
  | projectMemory (entities : List MemoryEntity) (relationships : List MemoryRelationship)
      (diagnostics : List MemoryDiagnostic)
deriving DecidableEq, Repr

namespace FactBatchPayload

def kind : FactBatchPayload → IndexJobKind
  | repositoryGraph .. => .repositoryGraph
  | projectMemory .. => .projectMemory

def factCount : FactBatchPayload → Nat
  | repositoryGraph nodes edges diagnostics => nodes.length + edges.length + diagnostics.length
  | projectMemory entities relationships diagnostics =>
      entities.length + relationships.length + diagnostics.length

/-! The facts of one kind; a payload of the other kind has none. -/

def nodes : FactBatchPayload → List GraphNode
  | repositoryGraph nodes _ _ => nodes
  | projectMemory .. => []

def edges : FactBatchPayload → List GraphEdge
  | repositoryGraph _ edges _ => edges
  | projectMemory .. => []

def graphDiagnostics : FactBatchPayload → List GraphDiagnostic
  | repositoryGraph _ _ diagnostics => diagnostics
  | projectMemory .. => []

def entities : FactBatchPayload → List MemoryEntity
  | projectMemory entities _ _ => entities
  | repositoryGraph .. => []

def relationships : FactBatchPayload → List MemoryRelationship
  | projectMemory _ relationships _ => relationships
  | repositoryGraph .. => []

def memoryDiagnostics : FactBatchPayload → List MemoryDiagnostic
  | projectMemory _ _ diagnostics => diagnostics
  | repositoryGraph .. => []

end FactBatchPayload

structure FactBatchHeader where
  protocolVersion : Nat
  job : IndexJobRef
  target : FactTarget
  (batchId shardId : String)
  sequence : Nat
  (payloadDigest extractorSetDigest : Digest)
  finalBatch : Bool
deriving DecidableEq, Repr

structure FactBatch where
  header : FactBatchHeader
  payload : FactBatchPayload
deriving DecidableEq, Repr

def factProtocolVersion : Nat := 2

/-- The serialization of a batch: its hashes and its length in bytes. -/
structure BatchCodec where
  payloadDigest : FactBatchPayload → Digest
  batchId : IndexJobRef → FactTarget → String → Nat → Digest → Digest → String
  byteLen : FactBatch → Nat

/-- A relationship into a repository is resolved at the linked snapshot, stale at one of its origins, or
unresolved. -/
def MemoryRelationship.matchesSnapshot (target : RemoteMemoryLinkSetTarget) (snapshotId : Option String) : Bool :=
  match snapshotId with
  | none => relationship.provenance.resolution = .unresolved
  | some snapshot =>
      if snapshot = target.graph.snapshotId then relationship.provenance.resolution = .resolved
      else relationship.provenance.resolution = .stale &&
        target.originGraphs.any (·.snapshotId = snapshot)

def MemoryRelationship.matchesLinkTarget (target : Option RemoteMemoryLinkSetTarget) : Bool :=
  match relationship.target.repository? with
  | none => true
  | some (repository, snapshotId) => target.any fun target =>
      repository = target.linkSet.repository && relationship.matchesSnapshot target snapshotId

/-- The order of `RemoteGraphSnapshotRef`: its fields in turn. -/
def RemoteGraphSnapshotRef.rank (snapshot : RemoteGraphSnapshotRef) : String ×ₗ String ×ₗ String ×ₗ String :=
  toLex (snapshot.repository.project.tenantId, toLex (snapshot.repository.project.projectId,
    toLex (snapshot.repository.repositoryId, snapshot.snapshotId)))

/-- The links of a memory target are those of its revision, and their origins are ordered snapshots of the
same repository. -/
def RemoteMemoryLinkSetTarget.isValidFor (links : RemoteMemoryLinkSetTarget) (revision : RemoteMemoryRevisionRef)
    (projectIdentity : String) : Bool :=
  links.graph.repository.project = revision.project && links.linkSet.project = projectIdentity &&
    links.linkSet.memoryRevisionId = revision.revisionId &&
    links.linkSet.repositorySnapshotId = some links.graph.snapshotId &&
    (links.originGraphs.zip links.originGraphs.tail).all (fun (first, second) => first.rank < second.rank) &&
    links.originGraphs.all fun origin => origin.repository = links.graph.repository && origin ≠ links.graph

/-- Every fact of the payload belongs to the target. -/
def factTargetsMatch : FactTarget → FactBatchPayload → Bool
  | .repositoryGraph snapshot _ buildId, .repositoryGraph nodes edges diagnostics =>
      nodes.all (·.snapshotId = snapshot.snapshotId) && edges.all (·.snapshotId = snapshot.snapshotId) &&
        diagnostics.all fun diagnostic => diagnostic.buildId = buildId &&
          diagnostic.snapshotId.all (· = snapshot.snapshotId)
  | .projectMemory revision projectIdentity buildId links, .projectMemory entities relationships diagnostics =>
      links.all (·.isValidFor revision projectIdentity) &&
        entities.all (fun entity => entity.project = projectIdentity &&
          entity.memoryRevisionId = revision.revisionId) &&
        relationships.all (fun relationship => relationship.project = projectIdentity &&
          relationship.memoryRevisionId = revision.revisionId && relationship.matchesLinkTarget links) &&
        diagnostics.all fun diagnostic => diagnostic.buildId = buildId &&
          diagnostic.revisionId = revision.revisionId
  | _, _ => false

namespace FactBatch

variable (codec : BatchCodec)

def validate (batch : FactBatch) : Bool :=
  let header := batch.header
  let payloadDigest := codec.payloadDigest batch.payload
  header.protocolVersion = factProtocolVersion && header.job.kind = header.target.kind &&
    header.job.kind = batch.payload.kind && header.job.project = header.target.project &&
    factTargetsMatch header.target batch.payload && header.payloadDigest = payloadDigest &&
    header.batchId = codec.batchId header.job header.target header.shardId header.sequence payloadDigest
      header.extractorSetDigest

/-- The batch of a payload, with the identity that its content gives it. -/
def identified (job : IndexJobRef) (target : FactTarget) (shardId : String) (sequence : Nat)
    (extractorSetDigest : Digest) (finalBatch : Bool) (payload : FactBatchPayload) : FactBatch where
  header := {
    protocolVersion := factProtocolVersion, job, target, shardId, sequence, extractorSetDigest, finalBatch
    payloadDigest := codec.payloadDigest payload
    batchId := codec.batchId job target shardId sequence (codec.payloadDigest payload) extractorSetDigest }
  payload := payload

/-- `FactBatch::new`: the batch of a payload, if it is valid. -/
def new? (job : IndexJobRef) (target : FactTarget) (shardId : String) (sequence : Nat)
    (extractorSetDigest : Digest) (finalBatch : Bool) (payload : FactBatchPayload) : Option FactBatch :=
  let batch := identified codec job target shardId sequence extractorSetDigest finalBatch payload
  if batch.validate codec then some batch else none

end FactBatch

/-- A stream is accepted for ingestion: valid batches of the job and of one shard, numbered from zero, and
the last one final. -/
def validateBatchStream (codec : BatchCodec) (job : IndexJobRef) (batches : List FactBatch) : Bool :=
  match batches with
  | [] => false
  | first :: _ => batches.zipIdx.all fun (batch, index) => batch.validate codec && batch.header.job = job &&
      batch.header.shardId = first.header.shardId && batch.header.sequence = index &&
      batch.header.finalBatch == (index + 1 == batches.length)

end Ferrus.Distributed

import Ferrus.Model.Distributed.FactBatches
import Ferrus.Model.Distributed.Publication

/-! # Preparing the facts of a publication

A publication reads the whole stream of its job. The facts of all batches are merged by their ids, the
ends of edges and relationships must exist, and the merged set is counted and hashed. Relationships into
a repository and their diagnostics leave the memory revision and form a link set of their own.
-/

namespace Ferrus.Distributed

/-- A fact as it is stored; the three kinds of a revision have their own names in each domain. -/
inductive Fact where
  | node (node : GraphNode)
  | edge (edge : GraphEdge)
  | graphDiagnostic (diagnostic : GraphDiagnostic)
  | entity (entity : MemoryEntity)
  | relationship (relationship : MemoryRelationship)
  | memoryDiagnostic (diagnostic : MemoryDiagnostic)
deriving DecidableEq, Repr

structure PlainFact where
  id : String
  fact : Fact
deriving DecidableEq, Repr

structure RemoteFactCounts where
  (primary relationships diagnostics : Nat)
deriving DecidableEq, Repr

def RemoteFactCounts.total (counts : RemoteFactCounts) : Nat :=
  counts.primary + counts.relationships + counts.diagnostics

/-- The content that the digest of a fact set covers. -/
inductive FactSet where
  | graph (nodes : List GraphNode) (edges : List GraphEdge) (diagnostics : List GraphDiagnostic)
  | memory (entities : List MemoryEntity) (relationships : List MemoryRelationship)
      (diagnostics : List MemoryDiagnostic)
  | links (target : RemoteMemoryLinkSetTarget) (relationships : List MemoryRelationship)
      (diagnostics : List MemoryDiagnostic)
deriving DecidableEq, Repr

inductive PublicationDomain where
  | repositoryGraph | projectMemory | memoryRepositoryLinks
deriving DecidableEq, Repr

/-- The text of the column `domain`. -/
def PublicationDomain.column : PublicationDomain → String
  | repositoryGraph => "repository_graph"
  | projectMemory => "project_memory"
  | memoryRepositoryLinks => "memory_repository_links"

/-- The kind of the jobs that publish in a domain. -/
def PublicationDomain.jobKind : PublicationDomain → IndexJobKind
  | repositoryGraph => .repositoryGraph
  | projectMemory | memoryRepositoryLinks => .projectMemory

/-- A target and its place in the history of a view. -/
structure PublicationVersion where
  targetId : String
  generation : Nat
deriving DecidableEq, Repr

structure PublishGraphRequest where
  protocolVersion : Nat
  job : IndexJobRef
  workerId : WorkerId
  leaseGeneration : Nat
  repository : RemoteRepositoryRef
  (viewName snapshotId : String)
  expected : Option PublicationVersion
deriving DecidableEq, Repr

structure PublishMemoryRequest where
  protocolVersion : Nat
  job : IndexJobRef
  workerId : WorkerId
  leaseGeneration : Nat
  project : RemoteProjectRef
  (viewName revisionId : String)
  expected : Option PublicationVersion
deriving DecidableEq, Repr

/-- What both requests ask for: to move a view of a domain to a target. -/
structure PublicationRequest where
  protocolVersion : Nat
  domain : PublicationDomain
  lease : PublicationLease
  project : RemoteProjectRef
  (repositoryId viewName targetId : String)
  expected : Option PublicationVersion
deriving DecidableEq, Repr

namespace PublishGraphRequest

variable (request : PublishGraphRequest)

def validate : Bool :=
  request.protocolVersion = controlProtocolVersion && request.job.kind = .repositoryGraph &&
    request.job.project = request.repository.project

def lease : PublicationLease := ⟨request.job, request.workerId, request.leaseGeneration⟩

def toRequest : PublicationRequest where
  protocolVersion := request.protocolVersion
  domain := .repositoryGraph
  lease := request.lease
  project := request.repository.project
  repositoryId := request.repository.repositoryId
  viewName := request.viewName
  targetId := request.snapshotId
  expected := request.expected

end PublishGraphRequest

namespace PublishMemoryRequest

variable (request : PublishMemoryRequest)

def validate : Bool :=
  request.protocolVersion = controlProtocolVersion && request.job.kind = .projectMemory &&
    request.job.project = request.project

def lease : PublicationLease := ⟨request.job, request.workerId, request.leaseGeneration⟩

def toRequest : PublicationRequest where
  protocolVersion := request.protocolVersion
  domain := .projectMemory
  lease := request.lease
  project := request.project
  repositoryId := ""
  viewName := request.viewName
  targetId := request.revisionId
  expected := request.expected

end PublishMemoryRequest

/-- The serialization of facts and requests: their hashes and lengths. -/
structure PublicationCodec extends BatchCodec where
  graphDiagnosticId : GraphDiagnostic → String
  memoryDiagnosticId : MemoryDiagnostic → String
  factLen : Fact → Nat
  factSetDigest : FactSet → Digest
  publicationDigest : PublicationRequest → Digest

/-- An immutable revision before it is stored. -/
structure PreparedRevision where
  project : RemoteProjectRef
  domain : PublicationDomain
  (repositoryId targetId : String)
  job : IndexJobRef
  buildId : String
  (extractorSetDigest factSetDigest : Digest)
  counts : RemoteFactCounts
  facts : List PlainFact
deriving DecidableEq, Repr

structure PreparedGraph where
  repositoryIdentity : String
  revision : PreparedRevision
deriving DecidableEq, Repr

structure PreparedMemoryRepositoryLinks where
  target : RemoteMemoryLinkSetTarget
  relationships : List MemoryRelationship
  revision : PreparedRevision
deriving DecidableEq, Repr

structure PreparedMemory where
  projectIdentity : String
  revision : PreparedRevision
  repositoryLinks : Option PreparedMemoryRepositoryLinks
deriving DecidableEq, Repr

/-! ## Merging -/

/-- Put a fact in the place of the one with its id; if that one is not equal to it, this is a conflict. -/
def mergeFact {α : Type} [PartialEq α] (id : α → String) (merged : Table String α) (fact : α) :
    Except RemoteStoreError (Table String α) :=
  if (merged.get? (id fact)).all (PartialEq.eq · fact) then .ok (merged.put (id fact) fact) else .error .factConflict

def mergeFacts {α : Type} [PartialEq α] (id : α → String) (merged : Table String α) (incoming : List α) :
    Except RemoteStoreError (Table String α) :=
  incoming.foldlM (mergeFact id) merged

/-- The facts of a table with their ids. -/
def plainFacts {α : Type} (toFact : α → Fact) (facts : Table String α) : List PlainFact :=
  facts.rows.map fun (id, fact) => ⟨id, toFact fact⟩

/-! ## Graphs -/

/-- What the batches read so far have in common, and their merged facts. -/
structure GraphFacts where
  source : Option (FactTarget × Digest)
  nodes : Table String GraphNode
  edges : Table String GraphEdge
  diagnostics : Table String GraphDiagnostic

namespace GraphFacts

def empty : GraphFacts := ⟨none, .empty, .empty, .empty⟩

/-- Every batch has the requested target and one extractor set. -/
def add (codec : PublicationCodec) (request : PublishGraphRequest) (facts : GraphFacts) (batch : FactBatch) :
    Except RemoteStoreError GraphFacts :=
  let source := (batch.header.target, batch.header.extractorSetDigest)
  match batch.header.target, batch.payload with
  | .repositoryGraph snapshot _ _, .repositoryGraph nodes edges diagnostics =>
      if snapshot = ⟨request.repository, request.snapshotId⟩ && facts.source.all (· = source) then do
        let nodes ← mergeFacts (·.id) facts.nodes nodes
        let edges ← mergeFacts (·.id) facts.edges edges
        let diagnostics ← mergeFacts codec.graphDiagnosticId facts.diagnostics diagnostics
        return ⟨some source, nodes, edges, diagnostics⟩
      else .error .invalidInput
  | _, _ => .error .invalidInput

/-- Both ends of an edge are nodes of the graph, unless it leaves the repository. -/
def holdsEnds (facts : GraphFacts) (edge : GraphEdge) : Bool :=
  (facts.nodes.get? edge.source).isSome &&
    match edge.target with
    | .node id => (facts.nodes.get? id).isSome
    | .external _ | .unresolved _ => true

def counts (facts : GraphFacts) : RemoteFactCounts :=
  ⟨facts.nodes.rows.length, facts.edges.rows.length, facts.diagnostics.rows.length⟩

end GraphFacts

def prepareGraph (codec : PublicationCodec) (request : PublishGraphRequest) (batches : List FactBatch)
    (maxFacts : Nat) : Except RemoteStoreError PreparedGraph :=
  if !validateBatchStream codec.toBatchCodec request.job batches then .error .invalidInput
  else do
    let facts ← batches.foldlM (GraphFacts.add codec request) .empty
    if !facts.edges.values.all facts.holdsEnds then .error .factConflict
    else if maxFacts < facts.counts.total then .error .quotaExceeded
    else
      match facts.source with
      | some (.repositoryGraph snapshot repositoryIdentity buildId, extractorSetDigest) =>
          .ok ⟨repositoryIdentity, {
            project := snapshot.repository.project
            domain := .repositoryGraph
            repositoryId := snapshot.repository.repositoryId
            targetId := snapshot.snapshotId
            job := request.job
            buildId, extractorSetDigest
            factSetDigest := codec.factSetDigest
              (.graph facts.nodes.values facts.edges.values facts.diagnostics.values)
            counts := facts.counts
            facts := plainFacts .node facts.nodes ++ plainFacts .edge facts.edges ++
              plainFacts .graphDiagnostic facts.diagnostics }⟩
      | _ => .error .invalidInput

/-! ## Memory -/

/-- The relationship is one of the link set and is resolved as its snapshot says. -/
def MemoryRelationship.matchesLinkSet (relationship : MemoryRelationship) (target : RemoteMemoryLinkSetTarget) : Bool :=
  relationship.project = target.linkSet.project &&
    relationship.memoryRevisionId = target.linkSet.memoryRevisionId &&
    relationship.target.repository?.any fun (repository, snapshotId) =>
      repository = target.linkSet.repository && relationship.matchesSnapshot target snapshotId

structure MemoryFacts where
  source : Option (FactTarget × Digest)
  entities : Table String MemoryEntity
  (relationships repositoryRelationships : Table String MemoryRelationship)
  diagnostics : Table String MemoryDiagnostic

namespace MemoryFacts

def empty : MemoryFacts := ⟨none, .empty, .empty, .empty, .empty⟩

def add (codec : PublicationCodec) (request : PublishMemoryRequest) (facts : MemoryFacts) (batch : FactBatch) :
    Except RemoteStoreError MemoryFacts :=
  let source := (batch.header.target, batch.header.extractorSetDigest)
  match batch.header.target, batch.payload with
  | .projectMemory revision _ _ _, .projectMemory entities relationships diagnostics =>
      if revision = ⟨request.project, request.revisionId⟩ && facts.source.all (· = source) then do
        let entities ← mergeFacts (·.id) facts.entities entities
        let semantic ← mergeFacts (·.id) facts.relationships
          (relationships.filter (!·.isRepositoryRelationship))
        let repository ← mergeFacts (·.id) facts.repositoryRelationships
          (relationships.filter (·.isRepositoryRelationship))
        let diagnostics ← mergeFacts codec.memoryDiagnosticId facts.diagnostics diagnostics
        return ⟨some source, entities, semantic, repository, diagnostics⟩
      else .error .invalidInput
  | _, _ => .error .invalidInput

variable (facts : MemoryFacts)

def holdsEnds (relationship : MemoryRelationship) : Bool :=
  (facts.entities.get? relationship.source).isSome &&
    match relationship.target with
    | .memoryEntity entityId => (facts.entities.get? entityId).isSome
    | _ => true

/-- The relationships into a repository start at an entity and belong to the link set of the target. -/
def holdsLinks (target : Option RemoteMemoryLinkSetTarget) : Bool :=
  facts.repositoryRelationships.values.all fun relationship =>
    (facts.entities.get? relationship.source).isSome && target.any (relationship.matchesLinkSet ·)

/-- The diagnostic is about a relationship into a repository. -/
def isRepositoryDiagnostic (diagnostic : MemoryDiagnostic) : Bool :=
  diagnostic.relationshipId.any fun id => (facts.repositoryRelationships.get? id).isSome

/-- The diagnostics that stay with the revision. -/
def semanticDiagnostics : Table String MemoryDiagnostic :=
  facts.diagnostics.deleteWhere fun _ diagnostic => facts.isRepositoryDiagnostic diagnostic

def repositoryDiagnostics : Table String MemoryDiagnostic :=
  facts.diagnostics.deleteWhere fun _ diagnostic => !facts.isRepositoryDiagnostic diagnostic

def total : Nat :=
  facts.entities.rows.length + (facts.relationships.rows.length + facts.repositoryRelationships.rows.length) +
    (facts.semanticDiagnostics.rows.length + facts.repositoryDiagnostics.rows.length)

/-- The facts of the revision itself. -/
def semanticSet : FactSet :=
  .memory facts.entities.values facts.relationships.values facts.semanticDiagnostics.values

def revision (codec : PublicationCodec) (request : PublishMemoryRequest) (facts : MemoryFacts)
    (revision : RemoteMemoryRevisionRef) (buildId : String) (extractorSetDigest : Digest) : PreparedRevision where
  project := revision.project
  domain := .projectMemory
  repositoryId := ""
  targetId := revision.revisionId
  job := request.job
  buildId := buildId
  extractorSetDigest := extractorSetDigest
  factSetDigest := codec.factSetDigest facts.semanticSet
  counts := ⟨facts.entities.rows.length, facts.relationships.rows.length, facts.semanticDiagnostics.rows.length⟩
  facts := plainFacts .entity facts.entities ++ plainFacts .relationship facts.relationships ++
    plainFacts .memoryDiagnostic facts.semanticDiagnostics

def repositoryLinks (codec : PublicationCodec) (request : PublishMemoryRequest) (facts : MemoryFacts)
    (buildId : String) (extractorSetDigest : Digest) (target : RemoteMemoryLinkSetTarget) :
    PreparedMemoryRepositoryLinks where
  target := target
  relationships := facts.repositoryRelationships.values
  revision := {
    project := request.project
    domain := .memoryRepositoryLinks
    repositoryId := target.graph.repository.repositoryId
    targetId := target.linkSet.id
    job := request.job
    buildId, extractorSetDigest
    factSetDigest := codec.factSetDigest
      (.links target facts.repositoryRelationships.values facts.repositoryDiagnostics.values)
    counts := ⟨0, facts.repositoryRelationships.rows.length, facts.repositoryDiagnostics.rows.length⟩
    facts := plainFacts .relationship facts.repositoryRelationships ++
      plainFacts .memoryDiagnostic facts.repositoryDiagnostics }

end MemoryFacts

def prepareMemory (codec : PublicationCodec) (request : PublishMemoryRequest) (batches : List FactBatch)
    (maxFacts : Nat) : Except RemoteStoreError PreparedMemory :=
  if !validateBatchStream codec.toBatchCodec request.job batches then .error .invalidInput
  else do
    let facts ← batches.foldlM (MemoryFacts.add codec request) .empty
    if !facts.relationships.values.all facts.holdsEnds then .error .factConflict
    else
      match facts.source with
      | some (.projectMemory revision projectIdentity buildId links, extractorSetDigest) =>
          if !facts.holdsLinks links then .error .factConflict
          else if maxFacts < facts.total then .error .quotaExceeded
          else .ok ⟨projectIdentity, facts.revision codec request revision buildId extractorSetDigest,
            links.map (facts.repositoryLinks codec request buildId extractorSetDigest)⟩
      | _ => .error .invalidInput

end Ferrus.Distributed

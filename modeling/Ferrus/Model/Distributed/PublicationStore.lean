import Ferrus.Model.Distributed.PublicationPrepare

/-! # The publication store

The store keeps immutable revisions with their facts and the views that point to them, in the control
database. A publication stores its revision unless it is there, moves the view if it is still at the
expected version, leaves a receipt and completes its job. All of this is one immediate transaction, and a
repeated request is answered from the receipt.
-/

namespace Ferrus.Distributed

structure RemoteStoreLimits where
  (maxSnapshotsPerProject maxFactsPerProject maxBytesPerProject maxFactsPerSnapshot maxFactBytes : Nat)
deriving DecidableEq, Repr

/-- The key of a target or a view: project, domain, repository and its own name. -/
abbrev ScopedKey := ProjectKey ×ₗ String ×ₗ String ×ₗ String

def scopedKey (project : RemoteProjectRef) (domain : PublicationDomain) (repositoryId name : String) : ScopedKey :=
  toLex (project.key, toLex (domain.column, toLex (repositoryId, name)))

namespace ScopedKey

variable (key : ScopedKey)

def project : ProjectKey := (ofLex key).1

def domain : String := (ofLex (ofLex key).2).1

def repositoryId : String := (ofLex (ofLex (ofLex key).2).2).1

end ScopedKey

/-- An encrypted fact; the ciphertext has an authentication tag of 16 bytes. -/
structure StoredFact where
  id : String
  fact : Fact
  byteLen : Nat
deriving DecidableEq, Repr

def StoredFact.ciphertextLen (fact : StoredFact) : Nat := fact.byteLen + 16

/-- One row of `remote_immutable_revisions` with its rows of `remote_encrypted_facts`. -/
structure RevisionRow where
  jobId : String
  jobKind : IndexJobKind
  buildId : String
  (extractorSetDigest factSetDigest : Digest)
  counts : RemoteFactCounts
  completedAtMs : Int
  facts : List StoredFact
deriving DecidableEq, Repr

/-- One row of `remote_graph_views` or `remote_memory_views`. -/
structure ViewRow where
  (targetId jobId : String)
  generation : Nat
deriving DecidableEq, Repr

/-- A view as it is returned. -/
structure PublishedRemoteView where
  project : RemoteProjectRef
  (repositoryId viewName targetId : String)
  job : IndexJobRef
  generation : Nat
deriving DecidableEq, Repr

inductive PublicationOutcome where
  | published (view : PublishedRemoteView) (reused : Bool)
  | superseded (current : Option PublishedRemoteView)
deriving DecidableEq, Repr

structure PublicationReceipt where
  target : ScopedKey
  requestDigest : Digest
  outcome : PublicationOutcome
  completedAtMs : Int
deriving DecidableEq

/-- One row of `remote_memory_repository_link_sets`. -/
structure LinkSetRow where
  (linkSetId jobId : String)
  target : RemoteMemoryLinkSetTarget
deriving DecidableEq, Repr

/-- The key of a link set: project, repository, memory revision and snapshot. -/
abbrev LinkSetKey := ProjectKey ×ₗ String ×ₗ String ×ₗ String

structure PublicationTables where
  revisions : Table ScopedKey RevisionRow
  /-- The repository identities of the graph snapshots. -/
  snapshotMetadata : Table ScopedKey String
  publishedTargets : Table ScopedKey Int
  receipts : Table JobKey PublicationReceipt
  /-- The views of both domains, which have a table each. -/
  views : Table ScopedKey ViewRow
  linkSets : Table LinkSetKey LinkSetRow
deriving DecidableEq

/-- The control database with the tables of the publication store. -/
structure RemoteDatabase where
  control : ControlDatabase
  publications : PublicationTables
deriving DecidableEq

namespace PublicationRequest

variable (request : PublicationRequest)

def targetKey : ScopedKey := scopedKey request.project request.domain request.repositoryId request.targetId

def viewKey : ScopedKey := scopedKey request.project request.domain request.repositoryId request.viewName

end PublicationRequest

def PreparedRevision.key (prepared : PreparedRevision) : ScopedKey :=
  scopedKey prepared.project prepared.domain prepared.repositoryId prepared.targetId

/-- Every fact is within its quota before it is encrypted. -/
def encryptFacts (codec : PublicationCodec) (maxFactBytes : Nat) (facts : List PlainFact) :
    Except RemoteStoreError (List StoredFact) :=
  if facts.all (fun fact => codec.factLen fact.fact ≤ maxFactBytes) then
    .ok (facts.map fun fact => ⟨fact.id, fact.fact, codec.factLen fact.fact⟩)
  else .error .quotaExceeded

/-- The length of the ciphertexts of facts. -/
def ciphertextTotal (facts : List StoredFact) : Nat := (facts.map StoredFact.ciphertextLen).sum

/-- A graph as it is read back. -/
structure StoredRemoteGraphSnapshot where
  snapshot : RemoteGraphSnapshotRef
  repositoryIdentity : String
  nodes : List GraphNode
deriving DecidableEq, Repr

namespace RevisionRow

variable (row : RevisionRow)

/-- The stored revision has the digests and the counts of the prepared one. -/
def holds (prepared : PreparedRevision) : Bool :=
  row.factSetDigest = prepared.factSetDigest && row.extractorSetDigest = prepared.extractorSetDigest &&
    row.counts = prepared.counts

def nodes : List GraphNode :=
  row.facts.filterMap fun stored => match stored.fact with
    | .node node => some node
    | _ => none

/-- The facts are those of a graph, and as many of each kind as the row says. -/
def isGraph : Bool :=
  let edges := row.facts.countP fun stored => stored.fact matches .edge _
  let diagnostics := row.facts.countP fun stored => stored.fact matches .graphDiagnostic _
  row.nodes.length + edges + diagnostics = row.facts.length && row.counts = ⟨row.nodes.length, edges, diagnostics⟩

end RevisionRow

namespace StoredRemoteGraphSnapshot

variable (graph : StoredRemoteGraphSnapshot)

def holdsNode (nodeId : String) (semanticKey : Option String) : Bool :=
  graph.nodes.any fun node => node.id = nodeId && semanticKey.all (node.semanticKey = some ·)

def holdsPath (path : String) : Bool :=
  graph.nodes.any (·.evidencePath = some path)

end StoredRemoteGraphSnapshot

/-- A relationship points to what its snapshot holds, as its resolution says. -/
def MemoryRelationship.isHeldBy (relationship : MemoryRelationship) (graph : StoredRemoteGraphSnapshot)
    (origins : List StoredRemoteGraphSnapshot) : Bool :=
  let origin? (snapshotId : String) := origins.find? (·.snapshot.snapshotId = snapshotId)
  match relationship.target, relationship.provenance.resolution with
  | .repositoryNode repository snapshotId nodeId semanticKey, .resolved =>
      repository = graph.repositoryIdentity && snapshotId = graph.snapshot.snapshotId &&
        graph.holdsNode nodeId semanticKey
  | .repositoryNode repository snapshotId nodeId semanticKey, .stale =>
      repository = graph.repositoryIdentity && (origin? snapshotId).any (·.holdsNode nodeId semanticKey)
  | .repositoryPath repository path (some snapshotId), .resolved =>
      repository = graph.repositoryIdentity && snapshotId = graph.snapshot.snapshotId && graph.holdsPath path
  | .repositoryPath repository path (some snapshotId), .stale =>
      repository = graph.repositoryIdentity && (origin? snapshotId).any (·.holdsPath path)
  | .repositoryPath repository _ none, .unresolved | .repositorySymbol repository _ none, .unresolved =>
      repository = graph.repositoryIdentity
  | _, _ => false

/-- The links of a publication against the stored graphs that they name. -/
def PreparedMemoryRepositoryLinks.areHeldBy (links : PreparedMemoryRepositoryLinks)
    (graph : StoredRemoteGraphSnapshot) (origins : List StoredRemoteGraphSnapshot) : Bool :=
  links.target.graph = graph.snapshot && links.target.linkSet.repository = graph.repositoryIdentity &&
    origins.map (·.snapshot) = links.target.originGraphs &&
    origins.all (·.repositoryIdentity = graph.repositoryIdentity) &&
    links.relationships.all (·.isHeldBy graph origins)

def RemoteGraphSnapshotRef.targetKey (snapshot : RemoteGraphSnapshotRef) : ScopedKey :=
  scopedKey snapshot.repository.project .repositoryGraph snapshot.repository.repositoryId snapshot.snapshotId

def RemoteMemoryLinkSetTarget.key (target : RemoteMemoryLinkSetTarget) (project : RemoteProjectRef) : LinkSetKey :=
  toLex (project.key, toLex (target.graph.repository.repositoryId,
    toLex (target.linkSet.memoryRevisionId, target.graph.snapshotId)))

namespace PublicationTables

variable (tables : PublicationTables)

def empty : PublicationTables := ⟨.empty, .empty, .empty, .empty, .empty, .empty⟩

variable (project : ProjectKey)

def ofProject : List RevisionRow :=
  (tables.revisions.select (fun key _ => ScopedKey.project key = project)).map (·.2)

/-- The revisions of a project, their facts and the bytes of these. -/
def revisionCount : Nat := (tables.ofProject project).length

def factCount : Nat := ((tables.ofProject project).map (·.facts.length)).sum

def ciphertextBytes : Nat :=
  ((tables.ofProject project).map (fun row => ciphertextTotal row.facts)).sum

variable (limits : RemoteStoreLimits)

def withinQuota (project : ProjectKey) (facts : List StoredFact) : Bool :=
  tables.revisionCount project < limits.maxSnapshotsPerProject &&
    tables.factCount project + facts.length ≤ limits.maxFactsPerProject &&
    tables.ciphertextBytes project + ciphertextTotal facts ≤ limits.maxBytesPerProject

/-- Store a revision, or find that the same one is stored. -/
def insertRevision (prepared : PreparedRevision) (facts : List StoredFact) (now : Int) :
    Except RemoteStoreError (PublicationTables × Bool) :=
  match tables.revisions.get? prepared.key with
  | some existing => if existing.holds prepared then .ok (tables, true) else .error .immutableConflict
  | none =>
      if tables.withinQuota limits prepared.project.key facts then
        .ok ({ tables with
          revisions := tables.revisions.insertNew prepared.key {
            jobId := prepared.job.jobId, jobKind := prepared.job.kind, buildId := prepared.buildId
            extractorSetDigest := prepared.extractorSetDigest, factSetDigest := prepared.factSetDigest
            counts := prepared.counts, completedAtMs := timestampMillis now, facts } }, false)
      else .error .quotaExceeded

def insertGraphSnapshot (prepared : PreparedGraph) (facts : List StoredFact) (now : Int) :
    Except RemoteStoreError (PublicationTables × Bool) := do
  let (tables, reused) ← tables.insertRevision limits prepared.revision facts now
  match tables.snapshotMetadata.get? prepared.revision.key with
  | some existing => if existing = prepared.repositoryIdentity then .ok (tables, reused) else .error .immutableConflict
  | none => .ok ({ tables with
      snapshotMetadata := tables.snapshotMetadata.insertNew prepared.revision.key prepared.repositoryIdentity }, reused)

variable (snapshot : RemoteGraphSnapshotRef)

/-- Read a graph that has been published. -/
def loadPublishedGraph : Except RemoteStoreError (Option StoredRemoteGraphSnapshot) :=
  if (tables.publishedTargets.get? snapshot.targetKey).isNone then .ok none
  else
    match tables.revisions.get? snapshot.targetKey, tables.snapshotMetadata.get? snapshot.targetKey with
    | none, _ => .ok none
    | some _, none => .error .database
    | some row, some repositoryIdentity =>
        if row.isGraph then .ok (some ⟨snapshot, repositoryIdentity, row.nodes⟩) else .error .integrityFailure

def requirePublishedGraph : Except RemoteStoreError StoredRemoteGraphSnapshot := do
  match ← tables.loadPublishedGraph snapshot with
  | some graph => .ok graph
  | none => .error .invalidInput

/-- The links, if there are any, must be held by the graphs that are pinned. -/
def requireLinks : Option PreparedMemoryRepositoryLinks → Except RemoteStoreError Unit
  | none => .ok ()
  | some links => do
      let graph ← tables.requirePublishedGraph links.target.graph
      let origins ← links.target.originGraphs.mapM tables.requirePublishedGraph
      if links.areHeldBy graph origins then .ok () else .error .invalidInput

/-- Store a link set; one revision has one link set for each snapshot. -/
def insertMemoryRepositoryLinks (project : RemoteProjectRef) (links : PreparedMemoryRepositoryLinks)
    (facts : List StoredFact) (now : Int) :
    Except RemoteStoreError PublicationTables := do
  let (tables, _) ← tables.insertRevision limits links.revision facts now
  match tables.revisions.get? links.revision.key, tables.linkSets.get? (links.target.key project) with
  | none, _ => .error .integrityFailure
  | some _, some existing =>
      if existing.target.graph ≠ links.target.graph then .error .integrityFailure
      else if existing.linkSetId = links.target.linkSet.id && existing.target = links.target then .ok tables
      else .error .immutableConflict
  | some stored, none =>
      if (tables.linkSets.select (fun key row => (ofLex key).1 = project.key &&
          (ofLex (ofLex key).2).1 = links.target.graph.repository.repositoryId &&
          row.linkSetId = links.target.linkSet.id)).isEmpty then
        .ok { tables with
          linkSets := tables.linkSets.insertNew (links.target.key project)
            ⟨links.target.linkSet.id, stored.jobId, links.target⟩ }
      else .error .database

variable (request : PublicationRequest)

/-- The view that a request names. -/
def view? : Option PublishedRemoteView :=
  (tables.views.get? request.viewKey).map fun row =>
    { project := request.project, repositoryId := request.repositoryId, viewName := request.viewName
      targetId := row.targetId, job := ⟨request.project, row.jobId, request.domain.jobKind⟩
      generation := row.generation }

/-- The view is still at the version that the publisher has seen. -/
def expectedMatches : Option PublicationVersion → Option PublishedRemoteView → Bool
  | none, none => true
  | some expected, some actual => expected.targetId = actual.targetId && expected.generation = actual.generation
  | _, _ => false

/-- Move the view to the target. The comparison comes before the shortcut for the same target: a stale
publisher loses even when it would publish what is there. -/
def swapView (reused : Bool) : Except RemoteStoreError (PublicationTables × PublicationOutcome) :=
  let actual := tables.view? request
  if !expectedMatches request.expected actual then .ok (tables, .superseded actual)
  else
    match actual.filter (·.targetId = request.targetId) with
    | some current => .ok (tables, .published current true)
    | none =>
        let generation := (actual.map (·.generation)).getD 0 + 1
        if generation < 2 ^ 63 then
          let row : ViewRow := ⟨request.targetId, request.lease.job.jobId, generation⟩
          .ok ({ tables with views := tables.views.put request.viewKey row },
            .published {
              project := request.project, repositoryId := request.repositoryId, viewName := request.viewName
              targetId := request.targetId, job := request.lease.job, generation } reused)
        else .error .quotaExceeded

/-- The first publication of a target is kept. -/
def markPublishedTarget (key : ScopedKey) (now : Int) : PublicationTables :=
  { tables with publishedTargets := tables.publishedTargets.insertNew key (timestampMillis now) }

/-- A job has one receipt. -/
def recordPublication (codec : PublicationCodec) (request : PublicationRequest) (outcome : PublicationOutcome)
    (now : Int) : Except RemoteStoreError PublicationTables :=
  if (tables.receipts.get? request.lease.job.key).isSome then .error .database
  else .ok { tables with
    receipts := tables.receipts.insertNew request.lease.job.key
      ⟨request.targetKey, codec.publicationDigest request, outcome, timestampMillis now⟩ }

end PublicationTables

namespace RemoteDatabase

def empty : RemoteDatabase := ⟨.empty, .empty⟩

/-- The outcome of the same request, once it has completed its job. -/
def replayPublication (codec : PublicationCodec) (db : RemoteDatabase) (request : PublicationRequest) :
    Except RemoteStoreError (Option PublicationOutcome) :=
  if db.control.hasDeletionTombstone request.lease.job.project then .error .projectDeleted
  else if db.control.state? request.lease.job.key = some .complete then
    .ok (((db.publications.receipts.get? request.lease.job.key).filter (fun receipt =>
      receipt.target = request.targetKey && receipt.requestDigest = codec.publicationDigest request)).map
        (·.outcome))
  else .ok none

/-- Only a published target is marked, and only it gets its links. -/
def writePublished (tables : PublicationTables) (request : PublicationRequest) (outcome : PublicationOutcome)
    (writeLinks : PublicationTables → Except RemoteStoreError PublicationTables) (now : Int) :
    Except RemoteStoreError PublicationTables :=
  match outcome with
  | .published .. => (writeLinks tables).map (·.markPublishedTarget request.targetKey now)
  | .superseded _ => .ok tables

/-- The end of a publication whose revision is stored: the view, what belongs to a published target, the
receipt and the job. -/
def finishPublication (codec : PublicationCodec) (control : ControlDatabase) (tables : PublicationTables)
    (request : PublicationRequest) (reused : Bool)
    (writeLinks : PublicationTables → Except RemoteStoreError PublicationTables) (now : Int) :
    Except RemoteStoreError (RemoteDatabase × PublicationOutcome) := do
  let (tables, outcome) ← tables.swapView request reused
  let tables ← writePublished tables request outcome writeLinks now
  let tables ← tables.recordPublication codec request outcome now
  let control ← control.completeJob request.lease now
  return (⟨control, tables⟩, outcome)

end RemoteDatabase

/-- The prepared graph is the one that the job asks for. -/
def IndexJobSpec.asksForGraph (spec : IndexJobSpec) (request : PublishGraphRequest) (prepared : PreparedGraph) : Bool :=
  spec.semantics.extractorSetDigest = prepared.revision.extractorSetDigest &&
    match spec.input with
    | .repository repository manifest => repository = request.repository &&
        manifest.repositoryIdentity = prepared.repositoryIdentity &&
        manifest.expectedSnapshotId = request.snapshotId
    | .memory .. => false

/-- The prepared memory is the one that the job asks for, linked to the snapshots that it pins. -/
def IndexJobSpec.asksForMemory (spec : IndexJobSpec) (request : PublishMemoryRequest)
    (prepared : PreparedMemory) : Bool :=
  spec.semantics.extractorSetDigest = prepared.revision.extractorSetDigest &&
    match spec.input with
    | .repository .. => false
    | .memory project manifest => project = request.project &&
        manifest.projectIdentity = prepared.projectIdentity &&
        manifest.expectedRevisionId = request.revisionId &&
        manifest.repositorySnapshot = prepared.repositoryLinks.map (·.target.graph) &&
        manifest.repositoryOriginSnapshots = (prepared.repositoryLinks.map (·.target.originGraphs)).getD []

namespace RemoteDatabase

variable (codec : PublicationCodec) (limits : RemoteStoreLimits)

def publishGraph (db : RemoteDatabase) (request : PublishGraphRequest) (batches : List FactBatch) (now : Int) :
    Except RemoteStoreError (RemoteDatabase × PublicationOutcome) :=
  if !request.validate then .error .invalidInput
  else do
    match ← db.replayPublication codec request.toRequest with
    | some outcome => return (db, outcome)
    | none =>
        let prepared ← prepareGraph codec request batches limits.maxFactsPerSnapshot
        let facts ← encryptFacts codec limits.maxFactBytes prepared.revision.facts
        let spec ← db.control.requirePublicationAuthority request.lease now
        if !spec.asksForGraph request prepared then .error .invalidInput
        else
          let (tables, reused) ← db.publications.insertGraphSnapshot limits prepared facts now
          finishPublication codec db.control tables request.toRequest reused .ok now

/-- The links of a publication are encrypted with the facts of their own. -/
def encryptLinks (links : Option PreparedMemoryRepositoryLinks) :
    Except RemoteStoreError (Option (PreparedMemoryRepositoryLinks × List StoredFact)) :=
  match links with
  | none => .ok none
  | some links => do
      let facts ← encryptFacts codec limits.maxFactBytes links.revision.facts
      return some (links, facts)

/-- Write the links of a published memory revision; the pinned graph is still published. -/
def writeLinks (project : RemoteProjectRef) (links : Option (PreparedMemoryRepositoryLinks × List StoredFact))
    (now : Int) (tables : PublicationTables) : Except RemoteStoreError PublicationTables :=
  match links with
  | none => .ok tables
  | some (links, facts) =>
      if (tables.publishedTargets.get? links.target.graph.targetKey).isNone then .error .invalidInput
      else tables.insertMemoryRepositoryLinks limits project links facts now

def publishMemory (db : RemoteDatabase) (request : PublishMemoryRequest) (batches : List FactBatch) (now : Int) :
    Except RemoteStoreError (RemoteDatabase × PublicationOutcome) :=
  if !request.validate then .error .invalidInput
  else do
    match ← db.replayPublication codec request.toRequest with
    | some outcome => return (db, outcome)
    | none =>
        let prepared ← prepareMemory codec request batches limits.maxFactsPerSnapshot
        let links ← encryptLinks codec limits prepared.repositoryLinks
        let facts ← encryptFacts codec limits.maxFactBytes prepared.revision.facts
        let spec ← db.control.requirePublicationAuthority request.lease now
        if !spec.asksForMemory request prepared then .error .invalidInput
        else
          db.publications.requireLinks prepared.repositoryLinks
          let (tables, reused) ← db.publications.insertRevision limits prepared.revision facts now
          finishPublication codec db.control tables request.toRequest reused
            (writeLinks limits request.project links now) now

end RemoteDatabase

end Ferrus.Distributed

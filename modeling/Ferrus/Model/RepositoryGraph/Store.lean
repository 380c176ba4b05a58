import Ferrus.Model.RepositoryGraph.Domain
import Ferrus.ToMathlib.KeyedTable
import Mathlib.Data.Prod.Lex
import Mathlib.Data.String.Basic

/-! # Builds, snapshots and published views

The sidecar database of the repository graph. A build is started, completes a snapshot or fails, and a
completed build is offered to named views. Each call is one immediate transaction, so it is a function
of the whole database whose error leaves the database alone. The rows of `files`, `nodes` and `edges`
are written with the row of their snapshot and deleted with it, so they stand in that row.
-/

namespace Ferrus.RepositoryGraph

open Ferrus.Runtime (Digest)

/-- The column `state` of `index_builds`. -/
inductive StoredBuildState where
  | building | published | failed | superseded
deriving DecidableEq, Repr

/-- One row of `index_builds`; `finished` is `finished_at IS NOT NULL`. -/
structure BuildRow where
  rowid : Nat
  repository : RepositoryRef
  sourceRevisionId : SourceRevisionId
  prospectiveSnapshotId : SnapshotId
  state : StoredBuildState
  finished : Bool
  failureCode : Option DiagnosticCode
deriving DecidableEq, Repr

/-- The updates of a build row. -/
def BuildRow.fail (code : DiagnosticCode) (row : BuildRow) : BuildRow :=
  { row with state := .failed, finished := true, failureCode := some code }

def BuildRow.finish (row : BuildRow) : BuildRow := { row with finished := true }

def BuildRow.mark (state : StoredBuildState) (row : BuildRow) : BuildRow := { row with state }

/-- A snapshot with the facts that were inserted with it. -/
structure StoredSnapshot where
  snapshot : GraphSnapshot
  files : List SourceFileDescriptor
  nodes : List GraphNode
  edges : List GraphEdge
deriving DecidableEq, Repr

/-- The primary key of `published_views`. -/
abbrev ViewKey := String ×ₗ String ×ₗ String

def RepositoryRef.viewKey (repository : RepositoryRef) (name : PublishedViewName) : ViewKey :=
  toLex (repository.repositoryNamespace, toLex (repository.repositoryId, name))

structure ViewRow where
  snapshotId : SnapshotId
  buildId : BuildId
  generation : Nat
deriving DecidableEq, Repr

structure Sidecar where
  indexBuilds : Table BuildId BuildRow := .empty
  snapshots : Table SnapshotId StoredSnapshot := .empty
  publishedViews : Table ViewKey ViewRow := .empty
  snapshotDiagnosticSets : Table SnapshotId BuildId := .empty
  diagnostics : List GraphDiagnostic := []
  fragmentCache : FragmentCacheKey → Option GraphFragment := fun _ => none
  buildMetrics : Table BuildId IndexBuildMetrics := .empty

structure PublicationVersion where
  snapshotId : SnapshotId
  generation : Nat
deriving DecidableEq, Repr

structure BuildFailure where
  buildId : BuildId
  code : DiagnosticCode
deriving DecidableEq, Repr

structure PublishRequest where
  repository : RepositoryRef
  viewName : PublishedViewName
  buildId : BuildId
  expected : Option PublicationVersion
deriving DecidableEq, Repr

structure PublishedView where
  repository : RepositoryRef
  viewName : PublishedViewName
  snapshotId : SnapshotId
  buildId : BuildId
  generation : Nat
deriving DecidableEq, Repr

inductive PublicationOutcome where
  | published (view : PublishedView)
  | superseded (current : PublishedView)
deriving DecidableEq, Repr

inductive StoreError where
  | buildNotFound (id : BuildId)
  | snapshotNotFound (id : SnapshotId)
  | invalidTransition (state : BuildState) (operation : String)
  | identityMismatch (what : String)
  | publicationConflict (expected actual : Option PublicationVersion)
  | corrupt (message : String)
  | database
deriving DecidableEq, Repr

/-- `i64::MAX`, the largest integer of a column. -/
def columnMax : Nat := 9223372036854775807

def ViewRow.version (row : ViewRow) : PublicationVersion := ⟨row.snapshotId, row.generation⟩

def ViewRow.view (row : ViewRow) (repository : RepositoryRef) (name : PublishedViewName) : PublishedView :=
  ⟨repository, name, row.snapshotId, row.buildId, row.generation⟩

/-- The columns of the unique index on `snapshots`. -/
def GraphSnapshot.identity (snapshot : GraphSnapshot) : RepositoryRef × Digest × Nat × Digest × Digest :=
  (snapshot.repository, snapshot.sourceManifestDigest, snapshot.graphModelVersion, snapshot.analysisConfigDigest,
    snapshot.extractorSetDigest)

def validateSnapshotForBuild (snapshot : GraphSnapshot) (build : GraphBuild) : Except StoreError Unit :=
  if snapshot.id ≠ build.prospectiveSnapshotId then .error (.identityMismatch "snapshot id")
  else if snapshot.repository ≠ build.repository then .error (.identityMismatch "repository")
  else if snapshot.sourceRevisionId ≠ build.sourceRevisionId then .error (.identityMismatch "source revision")
  else .ok ()

def validateEquivalentSnapshot (requested existing : GraphSnapshot) : Except StoreError Unit :=
  if requested.id ≠ existing.id ∨ requested.identity ≠ existing.identity then
    .error (.identityMismatch "existing snapshot contents")
  else .ok ()

namespace Sidecar

variable (sidecar : Sidecar)

def loadSnapshot (id : SnapshotId) : Option GraphSnapshot :=
  (sidecar.snapshots.get? id).map (·.snapshot)

def loadPublishedView (repository : RepositoryRef) (name : PublishedViewName) : Option ViewRow :=
  sidecar.publishedViews.get? (repository.viewKey name)

/-- The state of a build; a finished build is complete once its snapshot is stored. -/
def buildState? (row : BuildRow) : Option BuildState :=
  match row.state, row.finished with
  | .building, false => some .building
  | .building, true =>
      if (sidecar.snapshots.get? row.prospectiveSnapshotId).isSome then some .complete else none
  | .published, _ => some .published
  | .failed, _ => some .failed
  | .superseded, _ => some .superseded

def loadBuild (id : BuildId) : Except StoreError (Option GraphBuild) :=
  match sidecar.indexBuilds.get? id with
  | none => .ok none
  | some row =>
    match sidecar.buildState? row with
    | none => .error (.corrupt s!"invalid lifecycle state for build {id}")
    | some state =>
        .ok (some ⟨id, row.repository, row.sourceRevisionId, row.prospectiveSnapshotId, state⟩)

def requireBuild (id : BuildId) : Except StoreError GraphBuild := do
  match ← sidecar.loadBuild id with
  | none => .error (.buildNotFound id)
  | some build => return build

/-- The order of starts: `rowid` of the build. -/
def buildOrder (id : BuildId) : Except StoreError Nat :=
  match sidecar.indexBuilds.get? id with
  | none => .error .database
  | some row => .ok row.rowid

/-- The rowid of a new row is one above the largest. -/
def nextRowid : Nat :=
  (sidecar.indexBuilds.values.map (·.rowid)).foldr max 0 + 1

def startBuild (build : GraphBuild) : Except StoreError Sidecar :=
  if build.state ≠ .building then .error (.invalidTransition build.state "start")
  else if (sidecar.indexBuilds.get? build.id).isSome then .error .database
  else .ok { sidecar with
    indexBuilds := sidecar.indexBuilds.insertNew build.id
      ⟨sidecar.nextRowid, build.repository, build.sourceRevisionId, build.prospectiveSnapshotId, .building, false,
        none⟩ }

def failBuild (failure : BuildFailure) : Except StoreError (Sidecar × GraphBuild) := do
  let build ← sidecar.requireBuild failure.buildId
  if build.state ≠ .building then .error (.invalidTransition build.state "fail")
  else return ({ sidecar with
    indexBuilds := sidecar.indexBuilds.modify failure.buildId (.fail failure.code) },
    { build with state := .failed })

/-- Another snapshot already has the identity columns. -/
def identityTaken (snapshot : GraphSnapshot) : Bool :=
  sidecar.snapshots.values.any fun stored => stored.snapshot.identity = snapshot.identity

def insertSnapshot (stored : StoredSnapshot) : Except StoreError Sidecar :=
  if sidecar.identityTaken stored.snapshot then .error .database
  else .ok { sidecar with snapshots := sidecar.snapshots.insertNew stored.snapshot.id stored }

/-- The stored snapshot with the requested id, or else the requested one after its insertion. -/
def existingOr (requested : GraphSnapshot) (inserted : Except StoreError Sidecar) :
    Except StoreError (Sidecar × GraphSnapshot) :=
  match sidecar.loadSnapshot requested.id with
  | some existing => (validateEquivalentSnapshot requested existing).map fun _ => (sidecar, existing)
  | none => inserted.map (·, requested)

def setDiagnosticSet (snapshot : GraphSnapshot) : Sidecar :=
  { sidecar with snapshotDiagnosticSets := sidecar.snapshotDiagnosticSets.put snapshot.id snapshot.completedBy }

def finishBuild (id : BuildId) : Sidecar :=
  { sidecar with indexBuilds := sidecar.indexBuilds.modify id .finish }

def completeBuild (snapshot : GraphSnapshot) : Except StoreError (Sidecar × GraphSnapshot) := do
  let build ← sidecar.requireBuild snapshot.completedBy
  if build.state ≠ .building then .error (.invalidTransition build.state "complete")
  else
    validateSnapshotForBuild snapshot build
    let (stored, completed) ← sidecar.existingOr snapshot (sidecar.insertSnapshot ⟨snapshot, [], [], []⟩)
    return ((stored.setDiagnosticSet snapshot).finishBuild build.id, completed)

def markBuild (id : BuildId) (state : StoredBuildState) : Sidecar :=
  { sidecar with indexBuilds := sidecar.indexBuilds.modify id (.mark state) }

/-- The pointer and the state of the build that a view moves to. -/
def movePointer (request : PublishRequest) (build : GraphBuild) (snapshot : GraphSnapshot) (generation : Nat) :
    Sidecar :=
  { sidecar with
    publishedViews := sidecar.publishedViews.put (request.repository.viewKey request.viewName)
      ⟨snapshot.id, build.id, generation⟩ }.markBuild build.id .published

def advanceView (request : PublishRequest) (build : GraphBuild) (snapshot : GraphSnapshot)
    (current : Option ViewRow) : Except StoreError (Sidecar × PublicationOutcome) :=
  let generation := current.elim 1 (·.generation + 1)
  if columnMax < generation then .error (.corrupt "publication generation overflow")
  else .ok (sidecar.movePointer request build snapshot generation,
    .published ⟨request.repository, request.viewName, snapshot.id, build.id, generation⟩)

/-- Publication to a view that shows another snapshot, unless the build it shows was started later. -/
def replaceView (request : PublishRequest) (build : GraphBuild) (snapshot : GraphSnapshot) (current : ViewRow) :
    Except StoreError (Sidecar × PublicationOutcome) := do
  let candidateOrder ← sidecar.buildOrder build.id
  let currentOrder ← sidecar.buildOrder current.buildId
  if candidateOrder < currentOrder then
    return (sidecar.markBuild build.id .superseded,
      .superseded (current.view request.repository request.viewName))
  else sidecar.advanceView request build snapshot (some current)

def publish (sidecar : Sidecar) (request : PublishRequest) : Except StoreError (Sidecar × PublicationOutcome) := do
  let build ← sidecar.requireBuild request.buildId
  if build.repository ≠ request.repository then .error (.identityMismatch "repository")
  else if build.state ≠ .complete ∧ build.state ≠ .published then
    .error (.invalidTransition build.state "publish")
  else
    match sidecar.loadSnapshot build.prospectiveSnapshotId with
    | none => .error (.snapshotNotFound build.prospectiveSnapshotId)
    | some snapshot =>
      let current := sidecar.loadPublishedView request.repository request.viewName
      let actual := current.map (·.version)
      if request.expected ≠ actual then .error (.publicationConflict request.expected actual)
      else
        match current with
        | none => sidecar.advanceView request build snapshot none
        | some view =>
          if view.snapshotId = snapshot.id then
            return (sidecar, .published (view.view request.repository request.viewName))
          else sidecar.replaceView request build snapshot view

def supersedeBuild (id : BuildId) : Except StoreError (Sidecar × GraphBuild) := do
  let build ← sidecar.requireBuild id
  if build.state ≠ .complete then .error (.invalidTransition build.state "supersede")
  else return (sidecar.markBuild id .superseded, { build with state := .superseded })

end Sidecar

end Ferrus.RepositoryGraph

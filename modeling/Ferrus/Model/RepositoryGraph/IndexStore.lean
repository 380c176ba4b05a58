import Ferrus.Model.RepositoryGraph.Store

/-! # Complete index snapshots and cached fragments

`completeIndex` stores the facts of a snapshot once, replaces the diagnostics that are shown with it and
keeps the fragment of every extracted file. A later run may reuse a stored snapshot if both the build
that produced its facts and the latest recorded diagnostics show exactly the warnings of the source.
Which of the removable rows a garbage collection keeps depends on creation times; it is an input here.
-/

namespace Ferrus.RepositoryGraph

variable (diagnostic : GraphDiagnostic)

/-- A warning without span and metrics, as the source reports them. -/
def GraphDiagnostic.isPlain (snapshotId : SnapshotId) : Bool :=
  diagnostic.severity = .warning && diagnostic.location.all (·.span.isNone) && diagnostic.metrics.isEmpty &&
    diagnostic.snapshotId = some snapshotId

/-- The code and path of a diagnostic. -/
def GraphDiagnostic.sourceKey : DiagnosticCode × Option RepoPath :=
  (diagnostic.code, diagnostic.location.map (·.path))

/-- Strike each row from the expected keys; a row that is not plain or not expected is a mismatch. -/
def strikeExpected (snapshotId : SnapshotId) (expected : List (DiagnosticCode × Option RepoPath)) :
    List GraphDiagnostic → Option (List (DiagnosticCode × Option RepoPath))
  | [] => some expected
  | row :: rows =>
      if row.isPlain snapshotId && expected.contains row.sourceKey then
        strikeExpected snapshotId (expected.erase row.sourceKey) rows
      else none

/-- The primary keys and foreign keys of the fact tables admit the facts of a new snapshot. -/
def IndexCommit.admissible (commit : IndexCommit) : Bool :=
  let hasFile := fun (provenance : FactProvenance) =>
    provenance.evidence.all fun evidence => commit.files.any (·.path = evidence.path)
  let hasNode := fun id => commit.graph.nodes.any (·.id = id)
  decide (commit.files.map (·.path)).Nodup && decide (commit.graph.nodes.map (·.id)).Nodup &&
    decide (commit.graph.edges.map (·.id)).Nodup &&
    commit.graph.nodes.all (fun node => node.snapshotId = commit.snapshot.id && hasFile node.provenance) &&
    commit.graph.edges.all fun edge => edge.snapshotId = commit.snapshot.id && hasFile edge.provenance &&
      hasNode edge.source && match edge.target with
        | .node id => hasNode id
        | .external _ | .unresolved _ => true

namespace Sidecar

variable (sidecar : Sidecar)

def diagnosticsOf (buildId : BuildId) : List GraphDiagnostic :=
  sidecar.diagnostics.filter (·.buildId = buildId)

def diagnosticsMatchSource (snapshot : GraphSnapshot) (buildId : BuildId) (source : List GraphDiagnostic) : Bool :=
  source.all (·.isPlain snapshot.id) && decide (source.map (·.sourceKey)).Nodup &&
    strikeExpected snapshot.id (source.map (·.sourceKey)) (sidecar.diagnosticsOf buildId) = some []

def reusableIndexMetrics (requested : GraphSnapshot) (source : List GraphDiagnostic) :
    Except StoreError (Option IndexBuildMetrics) :=
  match sidecar.snapshots.get? requested.id with
  | none => .ok none
  | some stored => do
    validateEquivalentSnapshot requested stored.snapshot
    match sidecar.buildMetrics.get? stored.snapshot.completedBy,
        sidecar.snapshotDiagnosticSets.get? stored.snapshot.id with
    | some metrics, some diagnosticsBuild =>
      if (metrics.discoveredFiles, metrics.nodes, metrics.edges) =
            (stored.files.length, stored.nodes.length, stored.edges.length) &&
          [stored.snapshot.completedBy, diagnosticsBuild].all (fun build =>
            sidecar.diagnosticsMatchSource stored.snapshot build source) then
        return some { discoveredFiles := metrics.discoveredFiles, nodes := metrics.nodes, edges := metrics.edges,
                      diagnostics := source.length }
      else return none
    | _, _ => return none

def replaceSnapshotDiagnostics (snapshot : GraphSnapshot) (diagnostics : List GraphDiagnostic) :
    Except StoreError Sidecar :=
  if diagnostics.any (fun (diagnostic : GraphDiagnostic) =>
      diagnostic.buildId ≠ snapshot.completedBy || diagnostic.snapshotId ≠ some snapshot.id) then
    .error (.identityMismatch "snapshot diagnostics")
  else .ok ({ sidecar with
    diagnostics := sidecar.diagnostics.filter (fun (diagnostic : GraphDiagnostic) =>
      !(diagnostic.buildId = snapshot.completedBy && diagnostic.snapshotId = some snapshot.id)) ++ diagnostics
    }.setDiagnosticSet snapshot)

def upsertCachedFragment (cached : CachedFragment) : Sidecar :=
  { sidecar with
    fragmentCache := fun key => if key = cached.key then some cached.fragment else sidecar.fragmentCache key }

def upsertMetrics (buildId : BuildId) (metrics : IndexBuildMetrics) : Sidecar :=
  { sidecar with buildMetrics := sidecar.buildMetrics.put buildId metrics }

/-- The recheck of a commit that reuses the stored facts. -/
def checkReuse (commit : IndexCommit) : Except StoreError Unit := do
  if !commit.files.isEmpty || !commit.graph.nodes.isEmpty || !commit.graph.edges.isEmpty ||
      !commit.cacheWrites.isEmpty || !commit.cacheHits.isEmpty then
    .error (.identityMismatch "reused snapshot payload")
  else
    match ← sidecar.reusableIndexMetrics commit.snapshot commit.graph.diagnostics with
    | none => .error (.identityMismatch "reused snapshot eligibility")
    | some existing =>
      if existing.discoveredFiles ≠ commit.metrics.discoveredFiles ∨ existing.nodes ≠ commit.metrics.nodes ∨
          existing.edges ≠ commit.metrics.edges ∨ existing.diagnostics ≠ commit.metrics.diagnostics then
        .error (.identityMismatch "reused snapshot metrics")
      else return ()

/-- The insertion of a new snapshot with its files, nodes and edges. -/
def insertFacts (commit : IndexCommit) : Except StoreError Sidecar := do
  let stored ← sidecar.insertSnapshot ⟨commit.snapshot, commit.files, commit.graph.nodes, commit.graph.edges⟩
  if commit.admissible then return stored else .error .database

def completeIndex (commit : IndexCommit) : Except StoreError (Sidecar × GraphSnapshot) := do
  let build ← sidecar.requireBuild commit.snapshot.completedBy
  if build.state ≠ .building then .error (.invalidTransition build.state "complete index")
  else
    validateSnapshotForBuild commit.snapshot build
    if commit.reuseCompletedSnapshot then sidecar.checkReuse commit
    let (stored, completed) ← sidecar.existingOr commit.snapshot (sidecar.insertFacts commit)
    let replaced ← stored.replaceSnapshotDiagnostics commit.snapshot commit.graph.diagnostics
    let cached := commit.cacheWrites.foldl upsertCachedFragment replaced
    return ((cached.upsertMetrics commit.snapshot.completedBy commit.metrics).finishBuild commit.snapshot.completedBy,
      completed)

end Sidecar

/-! ## Garbage collection -/

/-- `LIKE 'task-overlay:%' OR LIKE 'task-baseline:%'`, which ignores the case of ASCII letters. -/
def isTaskView (name : PublishedViewName) : Bool :=
  let lowered := name.toList.map Char.toLower
  "task-overlay:".toList.isPrefixOf lowered || "task-baseline:".toList.isPrefixOf lowered

namespace ViewKey

def repository (key : ViewKey) : RepositoryRef := ⟨(ofLex key).1, (ofLex (ofLex key).2).1⟩

def name (key : ViewKey) : PublishedViewName := (ofLex (ofLex key).2).2

end ViewKey

/-- What one garbage collection keeps: the protected views, the protected or recent snapshots and the recent
failed builds. -/
structure Retention where
  views : PublishedViewName → Bool
  snapshots : SnapshotId → Bool
  failedBuilds : BuildId → Bool

namespace Sidecar

variable (sidecar : Sidecar)

section

variable (repository : RepositoryRef)

def removeViews (kept : Retention) : Sidecar :=
  { sidecar with
    publishedViews := sidecar.publishedViews.deleteWhere (fun key _ =>
      ViewKey.repository key = repository && isTaskView (ViewKey.name key) && !kept.views (ViewKey.name key)) }

def isPublishedSnapshot (id : SnapshotId) : Bool :=
  !(sidecar.publishedViews.select (fun key row => ViewKey.repository key = repository && row.snapshotId = id)).isEmpty

/-- Deleting a snapshot deletes its facts, its diagnostics and its diagnostic set. -/
def removeSnapshots (kept : Retention) : Sidecar :=
  let gone := fun id (stored : StoredSnapshot) => stored.snapshot.repository = repository &&
    !sidecar.isPublishedSnapshot repository id && !kept.snapshots id
  let isGone := fun id => (sidecar.snapshots.get? id).any (gone id)
  { sidecar with
    snapshots := sidecar.snapshots.deleteWhere gone
    snapshotDiagnosticSets := sidecar.snapshotDiagnosticSets.deleteWhere fun id _ => isGone id
    diagnostics := sidecar.diagnostics.filter (fun diagnostic => !diagnostic.snapshotId.any isGone) }

def removeFragments : Sidecar :=
  let used := fun (key : FragmentCacheKey) => sidecar.snapshots.values.any fun stored => stored.files.any fun file =>
    file.path = key.path && file.contentIdentity = key.contentIdentity && file.byteLen = key.byteLen
  { sidecar with
    fragmentCache := fun key =>
      if key.repository = repository && !used key then none else sidecar.fragmentCache key }

end

/-- A build that nothing refers to any more. -/
def isOrphaned (sidecar : Sidecar) (repository : RepositoryRef) (kept : Retention) (id : BuildId) (row : BuildRow) :
    Bool :=
  row.repository = repository && !(row.state = .building && !row.finished) &&
    !sidecar.snapshots.values.any (·.snapshot.completedBy = id) &&
    !sidecar.publishedViews.values.any (·.buildId = id) &&
    !sidecar.snapshotDiagnosticSets.values.any (· = id) && !(row.state = .failed && kept.failedBuilds id)

/-- Deleting a build deletes its diagnostics and metrics. -/
def removeBuilds (repository : RepositoryRef) (kept : Retention) : Sidecar :=
  let isGone := fun id => (sidecar.indexBuilds.get? id).any (sidecar.isOrphaned repository kept id)
  { sidecar with
    indexBuilds := sidecar.indexBuilds.deleteWhere (sidecar.isOrphaned repository kept)
    diagnostics := sidecar.diagnostics.filter fun diagnostic => !isGone diagnostic.buildId
    buildMetrics := sidecar.buildMetrics.deleteWhere (fun id _ => isGone id) }

def collectGarbage (repository : RepositoryRef) (kept : Retention) : Sidecar :=
  ((((sidecar.removeViews repository kept).removeSnapshots repository kept).removeFragments repository).removeBuilds
    repository kept)

end Sidecar

end Ferrus.RepositoryGraph

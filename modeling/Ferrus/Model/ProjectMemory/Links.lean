import Ferrus.Model.ProjectMemory.Extractors
import Ferrus.ToMathlib.KeyedTable
import Mathlib.Data.String.Basic

/-! # Links from project memory into the repository

A run derives candidates from the evidence of the entities: the path of a tracked source, the specification of an
archive, explicit references in curated text and the paths that changed between the snapshots of a task or run.
Each is matched against the snapshot that is published in the repository graph. What matched before and is gone
stays as stale evidence, as far as the previous link set has it.
-/

namespace Ferrus.ProjectMemory

open Ferrus.Text
open Ferrus.Runtime (Digest)
open Ferrus.RepositoryGraph (RepoPath RepositoryRef SnapshotId)

def maxRepositoryLinks : Nat := 20000

def maxOriginFiles : Nat := 100000

/-! ## Explicit references -/

/-- The distinct values in their order, as a `BTreeSet` has them. -/
def sortedUnique (values : List String) : List String :=
  (values.foldl (fun table value => table.insertNew value ()) (Table.empty : Table String Unit)).rows.map Prod.fst

/-- `RepoPath::new`. -/
def repoPath? (value : List Char) : Option RepoPath :=
  let normalized := value.map fun char => if char = '\\' then '/' else char
  let drive := match normalized with
    | first :: ':' :: _ => first.utf8Size = 1
    | _ => false
  let forbidden (component : List Char) := component = [] || component = ['.'] || component = ['.', '.']
  if value.isEmpty || value.contains '\x00' || normalized.head? = some '/' || drive ||
      (normalized.splitOn '/').any forbidden then none
  else some (String.ofList normalized)

/-- `SemanticKey::new`. -/
def semanticKey? (value : List Char) : Option SemanticKey :=
  if value.isEmpty then none else some (String.ofList value)

/-- What stands between backticks, given the pieces between them. -/
def codePieces : List (List Char) → List (List Char)
  | _ :: code :: rest => code :: codePieces rest
  | _ => []

def explicitReferences (text : String) : List RepositoryReference :=
  let codes := (codePieces (text.toList.splitOn '\x60')).filter fun code => !(code.contains '\n' || code.contains '\r')
  let paths := codes.filterMap fun code => (dropHead? "path:".toList (trim code)).bind fun path => repoPath? (trim path)
  let symbols := codes.filterMap
    (fun code => (dropHead? "symbol:".toList (trim code)).bind fun symbol => semanticKey? (trim symbol))
  (sortedUnique paths).map .path ++ (sortedUnique symbols).map .symbol

def curatedText : MemoryEntityData → Option String
  | .outcome text | .decision text | .deviation text | .followUpWork text _ => some text
  | .validationEvidence text _ _ => text
  | _ => none

/-! ## Snapshots -/

structure LinkGraphSnapshot where
  repository : RepositoryRef
  files : Table RepoPath Digest
  nodes : List (NodeId × Option SemanticKey)

/-- The repository graph as a run finds it, with the snapshot that is published. -/
structure LinkGraph where
  current : SnapshotId
  snapshots : Table SnapshotId LinkGraphSnapshot

/-- The graph is missing where it is not built, cannot be read or has nothing published. -/
structure LocalRepositoryLinkResolver where
  repository : RepositoryRef
  graph : Option LinkGraph

structure ChangedPath where
  path : RepoPath
  originSnapshotId : SnapshotId
deriving DecidableEq, Repr

namespace LocalRepositoryLinkResolver

/-- `LocalRepositoryLinkResolver::open`. -/
def new (project : ProjectRef) (graph : Option LinkGraph) : LocalRepositoryLinkResolver :=
  ⟨⟨"local:" ++ project.projectId, "root"⟩, graph⟩

variable (resolver : LocalRepositoryLinkResolver)

def repositorySnapshotId : Option SnapshotId := resolver.graph.map (·.current)

variable (id : SnapshotId)

def snapshot? : Option LinkGraphSnapshot := resolver.graph.bind (·.snapshots.get? id)

def snapshotBelongsTo : Bool := (resolver.snapshot? id).any (·.repository = resolver.repository)

def pathExists (path : RepoPath) : Bool :=
  (resolver.snapshot? id).any fun snapshot => (snapshot.files.get? path).isSome

/-- At most two nodes, which is enough to see that a key is ambiguous. -/
def symbolNodes (semanticKey : SemanticKey) : List NodeId :=
  match resolver.snapshot? id with
  | some snapshot => ((snapshot.nodes.filter (fun node => node.2 = some semanticKey)).map Prod.fst).take 2
  | none => []

/-- The files of a snapshot, unless there are more than the budget allows. -/
def snapshotFiles : Option (Table RepoPath Digest) :=
  match resolver.snapshot? id with
  | some snapshot => if maxOriginFiles < snapshot.files.rows.length then none else some snapshot.files
  | none => some .empty

/-- The paths whose files differ between two snapshots; nothing where a snapshot is not there. -/
def originChangedPaths (baseline view : Option SnapshotId) : Option (List ChangedPath) :=
  match baseline, view with
  | some baseline, some view =>
      if resolver.snapshotBelongsTo baseline && resolver.snapshotBelongsTo view then do
        let baselineFiles ← resolver.snapshotFiles baseline
        let viewFiles ← resolver.snapshotFiles view
        let paths := sortedUnique (baselineFiles.rows.map Prod.fst ++ viewFiles.rows.map Prod.fst)
        return (paths.filter (fun path => baselineFiles.get? path ≠ viewFiles.get? path)).map
          (fun path => ⟨path, if (viewFiles.get? path).isSome then view else baseline⟩)
      else some []
  | _, _ => some []

end LocalRepositoryLinkResolver

/-! ## Candidates -/

/-- A reference that some evidence makes, before it has an id. -/
structure ReferenceEvidence where
  source : MemoryEntityId
  kind : MemoryRelationshipKind
  reference : RepositoryReference
  originSnapshotId : Option SnapshotId
  provenance : MemoryProvenance
deriving DecidableEq, Repr

structure LinkCandidate extends ReferenceEvidence where
  id : MemoryRelationshipId
deriving DecidableEq, Repr

abbrev LinkCandidates := Table MemoryRelationshipId LinkCandidate

/-- The first evidence for a link counts. Past the limit nothing is added. -/
def insertCandidate (ids : Identities) (project : ProjectRef) (candidates : LinkCandidates)
    (evidence : ReferenceEvidence) : LinkCandidates :=
  if maxRepositoryLinks < candidates.rows.length then candidates
  else
    let id := ids.relationshipId project (.repositoryLink evidence.source evidence.kind evidence.reference)
    candidates.insertNew id { evidence with id }

/-- The entity of a milestone; of several with one id, the last in id order. -/
def milestoneEntity (entities : List MemoryEntity) (milestoneId : MemoryRecordId) : Option MemoryEntityId :=
  (entities.reverse.find? (fun entity =>
    match entity.data with
    | .milestone id _ _ => id = milestoneId
    | _ => false)).map (·.id)

/-- The evidence of an entity that does not depend on the graph. -/
def statedReferences (entity : MemoryEntity) : List ReferenceEvidence :=
  let tracked := match entity.provenance.source.locator with
    | .trackedFile path => [⟨entity.id, .concerns, .path path, none, entity.provenance⟩]
    | _ => []
  let archived := match entity.data with
    | .archiveReference _ specPath _ _ _ => [⟨entity.id, .concerns, .path specPath, none, entity.provenance⟩]
    | _ => []
  let curated := match curatedText entity.data with
    | some text => (explicitReferences text).map fun reference =>
      ⟨entity.id, .touches, reference, none, entity.provenance⟩
    | none => []
  tracked ++ archived ++ curated

namespace LocalRepositoryLinkResolver

variable (resolver : LocalRepositoryLinkResolver) (entities : List MemoryEntity)

/-- The changed paths of a task or run. Those of a task count for its milestone as well. -/
def originReferences (entity : MemoryEntity) : Option (List ReferenceEvidence) :=
  match entity.data with
  | .taskReference taskId milestoneId _ baseline view => do
      let changed ← resolver.originChangedPaths baseline view
      return changed.flatMap fun changed =>
        let own : ReferenceEvidence :=
          ⟨entity.id, .touches, .path changed.path, some changed.originSnapshotId, entity.provenance⟩
        match milestoneId.bind (milestoneEntity entities) with
        | some milestone =>
            [own, { own with source := milestone, provenance := { entity.provenance with evidence := .record taskId } }]
        | none => [own]
  | .runReference _ _ _ _ baseline view => do
      let changed ← resolver.originChangedPaths baseline view
      return changed.map fun changed =>
        ⟨entity.id, .touches, .path changed.path, some changed.originSnapshotId, entity.provenance⟩
  | _ => some []

def references : Option (List ReferenceEvidence) := do
  let evidence ← entities.mapM fun entity => do
    return statedReferences entity ++ (← resolver.originReferences entities entity)
  return evidence.flatten

def candidates (ids : Identities) (project : ProjectRef) (entities : List MemoryEntity) : Option LinkCandidates := do
  let evidence ← resolver.references entities
  return evidence.foldl (insertCandidate ids project) .empty

end LocalRepositoryLinkResolver

/-! ## Resolution -/

/-- What the id of a link set covers. An origin snapshot is listed with whether it is there. -/
structure MemoryRepositoryLinkSetId where
  revision : MemoryRevisionId
  repository : RepositoryRef
  snapshot : Option SnapshotId
  origins : List (SnapshotId × Bool)
  resolver : MemoryExtractorIdentity
deriving DecidableEq, Repr

structure MemoryRepositoryLinkCommit where
  linkSet : MemoryRepositoryLinkSetId
  relationships : List MemoryRelationship
deriving DecidableEq, Repr

def resolverIdentity (version : String) : MemoryExtractorIdentity :=
  extractorIdentity version "ferrus.repository-link-resolver"

def repositoryOriginSnapshots (entity : MemoryEntity) : List SnapshotId :=
  match entity.data with
  | .taskReference _ _ _ baseline view | .runReference _ _ _ _ baseline view => baseline.toList ++ view.toList
  | _ => []

namespace LocalRepositoryLinkResolver

variable (resolver : LocalRepositoryLinkResolver)

def linkSetId (version : String) (revision : MemoryRevisionId) (entities : List MemoryEntity) :
    MemoryRepositoryLinkSetId where
  revision := revision
  repository := resolver.repository
  snapshot := resolver.repositorySnapshotId
  origins := (sortedUnique (entities.flatMap repositoryOriginSnapshots)).map
    (fun snapshot => (snapshot, resolver.snapshotBelongsTo snapshot))
  resolver := resolverIdentity version

variable (previous : Option MemoryRelationship)

/-- A link of the previous set that has matched once. -/
def matchedBefore : Option MemoryRelationship :=
  previous.filter fun link => link.provenance.resolution ≠ .unresolved

/-- What becomes of a reference that matches nothing now. -/
def carryOver (missing : MemoryRelationshipTarget) : MemoryRelationshipTarget × MemoryResolutionState :=
  match matchedBefore previous with
  | some link => (link.target, .stale)
  | none => (missing, .unresolved)

def resolvePath (path : RepoPath) (origin : Option SnapshotId) (previous : Option MemoryRelationship) :
    MemoryRelationshipTarget × MemoryResolutionState :=
  match resolver.repositorySnapshotId.filter (resolver.pathExists · path) with
  | some current => (.repositoryPath resolver.repository path (some current), .resolved)
  | none =>
      match origin.filter (resolver.pathExists · path) with
      | some origin => (.repositoryPath resolver.repository path (some origin), .stale)
      | none => carryOver previous (.repositoryPath resolver.repository path none)

def resolveSymbol (semanticKey : SemanticKey) (origin : Option SnapshotId) (previous : Option MemoryRelationship) :
    MemoryRelationshipTarget × MemoryResolutionState :=
  let repository := resolver.repository
  let current := resolver.repositorySnapshotId.map fun snapshot => (snapshot, resolver.symbolNodes snapshot semanticKey)
  match current with
  | some (snapshot, [node]) => (.repositoryNode repository snapshot node (some semanticKey), .resolved)
  | some (snapshot, _ :: _ :: _) => (.repositorySymbol repository semanticKey (some snapshot), .unresolved)
  | some (_, []) | none =>
      match origin.map (fun snapshot => (snapshot, resolver.symbolNodes snapshot semanticKey)) with
      | some (snapshot, [node]) => (.repositoryNode repository snapshot node (some semanticKey), .stale)
      | _ => carryOver previous (.repositorySymbol repository semanticKey none)

def resolveReference (reference : RepositoryReference) (origin : Option SnapshotId)
    (previous : Option MemoryRelationship) : MemoryRelationshipTarget × MemoryResolutionState :=
  match reference with
  | .path path => resolver.resolvePath path origin previous
  | .symbol semanticKey => resolver.resolveSymbol semanticKey origin previous

def resolveCandidate (version : String) (now : Nat) (revision : MemoryRevisionId) (previous : Option MemoryRelationship)
    (candidate : LinkCandidate) : MemoryRelationship :=
  let (target, resolution) := resolver.resolveReference candidate.reference candidate.originSnapshotId previous
  { project := revision.project
    memoryRevisionId := revision
    id := candidate.id
    kind := candidate.kind
    source := candidate.source
    target
    provenance :=
      { candidate.provenance with
        extractor := resolverIdentity version
        resolution
        confidence := .exact
        timestamps := ⟨candidate.provenance.timestamps.sourceObservedAt, now⟩ } }

/-- The candidates that become links. -/
def linkedCandidates (ids : Identities) (project : ProjectRef) (entities : List MemoryEntity) :
    Option (List LinkCandidate) :=
  (resolver.candidates ids project entities).map fun candidates => candidates.values.take maxRepositoryLinks

/-- The links of a set that a run may fall back on. Without a current snapshot there are none. -/
def previousLinks (previous : Option MemoryRepositoryLinkCommit) : List MemoryRelationship :=
  if resolver.repositorySnapshotId.isSome then (previous.map (·.relationships)).getD [] else []

/-- A set that is stored under the id is taken as it is. -/
def resolve (ids : Identities) (version : String) (now : Nat) (revision : MemoryRevisionId)
    (entities : List MemoryEntity) (previous : Option MemoryRepositoryLinkCommit) : Option MemoryRepositoryLinkCommit :=
  let id := resolver.linkSetId version revision entities
  match previous.filter (·.linkSet = id) with
  | some stored => some stored
  | none => do
      let candidates ← resolver.linkedCandidates ids revision.project entities
      let links := resolver.previousLinks previous
      return ⟨id, candidates.map fun candidate =>
        resolver.resolveCandidate version now revision (links.find? (·.id = candidate.id)) candidate⟩

end LocalRepositoryLinkResolver

end Ferrus.ProjectMemory

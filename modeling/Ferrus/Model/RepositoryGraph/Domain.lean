import Ferrus.Model.Runtime.RepositoryView

/-! # Facts of a repository graph

The values that extractors produce and the sidecar stores. A fact carries the identity of its
snapshot, the extractor that produced it and the source it rests on. The property map of a fact is
only stored, so it stands here as its serialized text.
-/

namespace Ferrus.RepositoryGraph

open Ferrus.Runtime (Digest)

abbrev BuildId := String
abbrev SnapshotId := String
abbrev SourceRevisionId := String
abbrev PublishedViewName := String
abbrev RepoPath := String
abbrev DiagnosticCode := String

structure RepositoryRef where
  (repositoryNamespace repositoryId : String)
deriving DecidableEq, Repr

inductive SourceFileMode where
  | regular | executable
deriving DecidableEq, Repr

structure SourceFileDescriptor where
  path : RepoPath
  contentIdentity : Digest
  byteLen : Nat
  fileMode : SourceFileMode
deriving DecidableEq, Repr

structure ExtractorIdentity where
  (id version : String)
  contractVersion : Nat
deriving DecidableEq, Repr

structure SourcePosition where
  byteOffset : Nat
  (line column : Option Nat)
deriving DecidableEq, Repr

structure SourceSpan where
  (start stop : SourcePosition)
deriving DecidableEq, Repr

structure SourceEvidence where
  path : RepoPath
  contentIdentity : Digest
  span : Option SourceSpan
deriving DecidableEq, Repr

inductive ResolutionState where
  | resolved | unresolved | external
deriving DecidableEq, Repr

inductive Confidence where
  | exact | high | medium | low
deriving DecidableEq, Repr

structure FactProvenance where
  extractor : ExtractorIdentity
  evidence : Option SourceEvidence
  resolution : ResolutionState
  confidence : Confidence
deriving DecidableEq, Repr

structure GraphNode where
  snapshotId : SnapshotId
  (id kind : String)
  semanticKey : Option String
  provenance : FactProvenance
  properties : String
deriving DecidableEq, Repr

inductive EdgeTarget where
  | node (id : String)
  | external (value : String)
  | unresolved (value : String)
deriving DecidableEq, Repr

structure GraphEdge where
  snapshotId : SnapshotId
  (id kind source : String)
  target : EdgeTarget
  provenance : FactProvenance
  properties : String
deriving DecidableEq, Repr

inductive DiagnosticSeverity where
  | info | warning | error
deriving DecidableEq, Repr

structure DiagnosticLocation where
  path : RepoPath
  span : Option SourceSpan
deriving DecidableEq, Repr

structure GraphDiagnostic where
  buildId : BuildId
  snapshotId : Option SnapshotId
  severity : DiagnosticSeverity
  code : DiagnosticCode
  location : Option DiagnosticLocation
  metrics : List (DiagnosticCode × Int)
deriving DecidableEq, Repr

structure GraphFragment where
  nodes : List GraphNode := []
  edges : List GraphEdge := []
  diagnostics : List GraphDiagnostic := []
deriving DecidableEq, Repr, Inhabited

structure GraphSnapshot where
  id : SnapshotId
  repository : RepositoryRef
  sourceRevisionId : SourceRevisionId
  sourceManifestDigest : Digest
  graphModelVersion : Nat
  (analysisConfigDigest extractorSetDigest : Digest)
  completedBy : BuildId
deriving DecidableEq, Repr

inductive BuildState where
  | building | complete | published | failed | superseded
deriving DecidableEq, Repr

structure GraphBuild where
  id : BuildId
  repository : RepositoryRef
  sourceRevisionId : SourceRevisionId
  prospectiveSnapshotId : SnapshotId
  state : BuildState
deriving DecidableEq, Repr

structure FragmentCacheKey where
  repository : RepositoryRef
  path : RepoPath
  contentIdentity : Digest
  byteLen : Nat
  fileMode : SourceFileMode
  analysisConfigDigest : Digest
  extractor : ExtractorIdentity
deriving DecidableEq, Repr

structure CachedFragment where
  key : FragmentCacheKey
  fragment : GraphFragment
deriving DecidableEq, Repr

/-- The counters of a build without its duration. -/
structure IndexBuildMetrics where
  discoveredFiles : Nat := 0
  reusedFiles : Nat := 0
  parsedFiles : Nat := 0
  skippedFiles : Nat := 0
  failedFiles : Nat := 0
  processedBytes : Nat := 0
  nodes : Nat := 0
  edges : Nat := 0
  diagnostics : Nat := 0
deriving DecidableEq, Repr, Inhabited

structure IndexCommit where
  snapshot : GraphSnapshot
  reuseCompletedSnapshot : Bool
  files : List SourceFileDescriptor
  graph : GraphFragment
  cacheWrites : List CachedFragment
  cacheHits : List FragmentCacheKey
  metrics : IndexBuildMetrics
deriving DecidableEq, Repr

end Ferrus.RepositoryGraph

import Ferrus.Model.ProjectMemory.Sidecar
import Mathlib.Data.List.Sort

/-! # Indexing project memory

A run discovers the sources that the policy authorizes, takes the fragment of each from the cache or extracts it,
merges the fragments by the ids of their facts, resolves the links and completes the build. A run over unchanged
sources has the revision of the run before it.
-/

namespace Ferrus.ProjectMemory

open Ferrus.RepositoryGraph (RepoPath)

inductive MemoryIndexError where
  | source | links | factCollision
  | store (error : MemoryStoreError)
deriving DecidableEq, Repr

/-! ## Sources -/

/-- A tracked specification. The file has no text where it is not UTF-8. -/
structure TrackedSpec where
  path : RepoPath
  file : Option (List Char)
  byteLen : Nat
deriving DecidableEq, Repr

structure ArchiveSource where
  archiveId : MemoryRecordId
  document : ArchiveSourceDocument
  byteLen : Nat
deriving DecidableEq, Repr

/-- What stands in the workspace and in the data directory of a project. -/
structure ProjectSources where
  specs : List TrackedSpec
  approvedOutcomes : List (RepoPath × SpecOutcomeDocument)
  archives : List ArchiveSource
  runtime : Option (RuntimeSourceDocument × Nat)
deriving DecidableEq, Repr

structure SourceMaterial where
  descriptor : AuthorizedSourceDescriptor
  content : MemorySourceContent
deriving DecidableEq, Repr

section Discovery

variable (project : ProjectRef) (policy : MemoryPolicy) (sources : ProjectSources)

/-- A file that is not UTF-8 is discovered as if it were empty. An Outcome counts if an archive has approved it. -/
def specMaterials (spec : TrackedSpec) : List SourceMaterial :=
  let parsed := parseSpecMemory (spec.file.getD [])
  let layout := if policy.isAuthorized .specificationStructure then
      [⟨⟨⟨.specificationStructure, .trackedFile spec.path, .layout parsed.layout⟩, project, spec.byteLen⟩,
        .file spec.file⟩]
    else []
  let outcome := match parsed.outcome with
    | some outcome =>
        if policy.isAuthorized .approvedOutcome && (spec.path, outcome) ∈ sources.approvedOutcomes then
          [⟨⟨⟨.approvedOutcome, .trackedFile spec.path, .outcome outcome⟩, project, byteLen outcome.text⟩,
            .file spec.file⟩]
        else []
    | none => []
  layout ++ outcome

def archiveMaterials : List SourceMaterial :=
  if policy.isAuthorized .archiveManifest then
    sources.archives.map fun archive => ⟨⟨⟨.archiveManifest, .archiveManifest archive.archiveId,
      .archive archive.document⟩, project, archive.byteLen⟩, .archive archive.document⟩
  else []

def runtimeMaterials : List SourceMaterial :=
  if policy.isAuthorized .runtimeProvenance then
    sources.runtime.toList.map fun (document, byteLen) => ⟨⟨⟨.runtimeProvenance,
      .runtimeRecords "task-run-check-metadata", .runtime document⟩, project, byteLen⟩, .runtime document⟩
  else []

def discover (ids : Identities) : List SourceMaterial :=
  (sources.specs.flatMap (specMaterials project policy sources) ++ archiveMaterials project policy sources ++
    runtimeMaterials project policy sources).insertionSort
      (fun first second => ids.descriptorKey first.descriptor ≤ ids.descriptorKey second.descriptor)

end Discovery

variable (category : MemorySourceCategory)

def specFingerprint (content : List Char) : Option SourceFingerprint :=
  let parsed := parseSpecMemory content
  match category with
  | .specificationStructure => some (.layout parsed.layout)
  | .approvedOutcome => parsed.outcome.map .outcome
  | _ => none

/-- The fingerprint that the content has when it is read. -/
def MemorySourceContent.fingerprint : MemorySourceContent → Option SourceFingerprint
  | file text => text.bind (specFingerprint category)
  | archive document => some (.archive document)
  | runtime document => some (.runtime document)

/-- The content of a discovered source, if it still has the fingerprint. -/
def readVerified (materials : List SourceMaterial) (source : AuthorizedSourceDescriptor) :
    Option MemorySourceContent := do
  let material ← materials.find? (·.descriptor = source)
  if material.content.fingerprint source.category = some source.fingerprint then some material.content else none

/-! ## Runs -/

/-- One run with what it reads outside the sidecar: its program's version, the policy, the sources before and after
the extraction, the repository graph and the clock. -/
structure IndexRun where
  project : ProjectRef
  version : String
  policy : MemoryPolicy
  (sources sourcesAfter : ProjectSources)
  full : Bool
  graph : Option LinkGraph
  (indexedAt resolvedAt : Nat)

namespace IndexRun

variable (ids : Identities) (run : IndexRun)

def materials : List SourceMaterial := discover run.project run.policy run.sources ids

def manifest : List AuthorizedSourceDescriptor := (run.materials ids).map (·.descriptor)

/-- Discovery lists the sources in the order in which the digest of the source set takes them. -/
def revision : MemoryRevisionId :=
  ⟨run.project, (run.manifest ids).map (·.toCanonicalSource), run.policy, memoryModelVersion,
    builtInExtractorSet run.version⟩

def revalidates : Bool :=
  (discover run.project run.policy run.sourcesAfter ids).map (·.descriptor) = run.manifest ids

def context : MemoryExtractionContext := ⟨run.revision ids, run.indexedAt⟩

def resolver : LocalRepositoryLinkResolver := .new run.project run.graph

def cacheKey (extractor : MemoryExtractor) (source : CanonicalSource) : MemoryFragmentCacheKey :=
  ⟨run.project, source, run.policy, extractor.identity run.version⟩

end IndexRun

/-! ## Merging -/

def insertFact {α : Type} [DecidableEq α] (id : α → String) (facts : Table String α) (fact : α) :
    Except MemoryIndexError (Table String α) :=
  match facts.get? (id fact) with
  | some existing => if existing = fact then .ok facts else .error .factCollision
  | none => .ok (facts.insertNew (id fact) fact)

def mergeFragment (facts : MemoryFacts) (fragment : MemoryFragment) : Except MemoryIndexError MemoryFacts := do
  let entities ← fragment.entities.foldlM (insertFact (·.id)) facts.entities
  let relationships ← fragment.relationships.foldlM (insertFact (·.id)) facts.relationships
  return ⟨entities, relationships⟩

def rebaseFragment (revision : MemoryRevisionId) (fragment : MemoryFragment) : MemoryFragment where
  entities := fragment.entities.map
    (fun entity => { entity with memoryRevisionId := revision, project := revision.project })
  relationships := fragment.relationships.map
    (fun relationship => { relationship with memoryRevisionId := revision, project := revision.project })

def maxEntitiesPerSource : Nat := 10000

def maxRelationshipsPerSource : Nat := 20000

def FragmentDraft.withinLimits (draft : FragmentDraft) : Bool :=
  draft.entities.length ≤ maxEntitiesPerSource && draft.relationships.length ≤ maxRelationshipsPerSource

/-- The facts merged so far and the fragments to cache. -/
structure Gathered where
  facts : MemoryFacts
  cacheWrites : List (MemoryFragmentCacheKey × MemoryFragment)

namespace IndexRun

variable (ids : Identities) (run : IndexRun) (sidecar : MemorySidecar) (extractor : MemoryExtractor)

/-- The cached fragment of a source; a full run does not look. -/
def cachedFragment (source : CanonicalSource) : Option MemoryFragment :=
  if run.full then none else sidecar.cache (run.cacheKey extractor source)

/-- Read and extract a source. One that fails or gives too much is left out. -/
def extractSource (source : AuthorizedSourceDescriptor) (gathered : Gathered) : Except MemoryIndexError Gathered :=
  match readVerified (run.materials ids) source with
  | none => .error .source
  | some content =>
      match extractor.extract ids run.project source.toCanonicalSource content with
      | .error _ => .ok gathered
      | .ok draft =>
          if draft.withinLimits then do
            let identity := extractor.identity run.version
            let fragment := (run.context ids).fragment source.toCanonicalSource identity draft
            let facts ← mergeFragment gathered.facts fragment
            return ⟨facts, gathered.cacheWrites ++ [(run.cacheKey extractor source.toCanonicalSource, fragment)]⟩
          else .ok gathered

def gatherSource (gathered : Gathered) (source : AuthorizedSourceDescriptor) : Except MemoryIndexError Gathered :=
  match extractorFor source.category with
  | none => .ok gathered
  | some extractor =>
      match run.cachedFragment sidecar extractor source.toCanonicalSource with
      | some fragment => do
          let facts ← mergeFragment gathered.facts (rebaseFragment (run.revision ids) fragment)
          return { gathered with facts }
      | none => run.extractSource ids extractor source gathered

def gather : Except MemoryIndexError Gathered :=
  (run.manifest ids).foldlM (run.gatherSource ids sidecar) ⟨.empty, []⟩

/-! ## Builds -/

variable (entities : List MemoryEntity)

def linkSetId : MemoryRepositoryLinkSetId :=
  run.resolver.linkSetId run.version (run.revision ids) entities

def resolveLinks : Option MemoryRepositoryLinkCommit :=
  run.resolver.resolve ids run.version run.resolvedAt (run.revision ids) entities
    (sidecar.previousLinkSet (run.linkSetId ids entities))

def prepareCommit : Except MemoryIndexError MemoryCommit := do
  let gathered ← run.gather ids sidecar
  if run.revalidates ids then
    match run.resolveLinks ids sidecar gathered.facts.entities.values with
    | some links => .ok ⟨run.revision ids, gathered.facts, gathered.cacheWrites, links⟩
    | none => .error .links
  else .error .source

end IndexRun

/-- A run that fails leaves the sidecar as it is. -/
def index (ids : Identities) (sidecar : MemorySidecar) (run : IndexRun) :
    Except MemoryIndexError MemoryCommit × MemorySidecar :=
  match run.prepareCommit ids sidecar with
  | .error error => (.error error, sidecar)
  | .ok commit =>
      match sidecar.completeBuild commit with
      | .error error => (.error (.store error), sidecar)
      | .ok completed => (.ok commit, completed)

/-- The sidecar after a run. -/
def indexStep (ids : Identities) (sidecar : MemorySidecar) (run : IndexRun) : MemorySidecar := (index ids sidecar run).2

end Ferrus.ProjectMemory

import Ferrus.Model.ProjectMemory.Links

/-! # The sidecar of project memory

A build is completed in one transaction. The facts of a revision are written by the first build of it and stay;
link sets are appended, and a set that is there already is only compared; fragments replace what the cache has
under their keys.
-/

namespace Ferrus.ProjectMemory

open Ferrus.RepositoryGraph (RepositoryRef)

/-! ## Times -/

def MemoryProvenance.at (provenance : MemoryProvenance) (timestamps : MemoryIndexTimestamps) : MemoryProvenance :=
  { provenance with timestamps }

def MemoryEntity.at (entity : MemoryEntity) (timestamps : MemoryIndexTimestamps) : MemoryEntity :=
  { entity with provenance := entity.provenance.at timestamps }

def MemoryRelationship.at (relationship : MemoryRelationship) (timestamps : MemoryIndexTimestamps) :
    MemoryRelationship :=
  { relationship with provenance := relationship.provenance.at timestamps }

/-- An entity apart from its timestamps. -/
def MemoryEntity.timeless (entity : MemoryEntity) : MemoryEntity := entity.at ⟨0, 0⟩

def MemoryRelationship.timeless (relationship : MemoryRelationship) : MemoryRelationship := relationship.at ⟨0, 0⟩

/-! ## Tables -/

structure MemoryFragmentCacheKey where
  project : ProjectRef
  source : CanonicalSource
  policy : MemoryPolicy
  extractor : MemoryExtractorIdentity
deriving DecidableEq, Repr

/-- Facts under their ids. -/
structure MemoryFacts where
  entities : Table MemoryEntityId MemoryEntity
  relationships : Table MemoryRelationshipId MemoryRelationship
deriving DecidableEq

def MemoryFacts.empty : MemoryFacts := ⟨.empty, .empty⟩

/-- Link sets stand in the order of their sequence numbers. -/
structure MemorySidecar where
  revisions : MemoryRevisionId → Option MemoryFacts
  cache : MemoryFragmentCacheKey → Option MemoryFragment
  linkSets : List MemoryRepositoryLinkCommit

structure MemoryCommit where
  revision : MemoryRevisionId
  facts : MemoryFacts
  cacheWrites : List (MemoryFragmentCacheKey × MemoryFragment)
  repositoryLinks : MemoryRepositoryLinkCommit

inductive MemoryStoreError where
  | identityMismatch
deriving DecidableEq, Repr

namespace MemorySidecar

def empty : MemorySidecar := ⟨fun _ => none, fun _ => none, []⟩

variable (sidecar : MemorySidecar)

/-! ## Link sets -/

variable (id : MemoryRepositoryLinkSetId)

def repositoryLinkSet : Option MemoryRepositoryLinkCommit :=
  sidecar.linkSets.find? (·.linkSet = id)

/-- The set stored last of those that a condition selects. -/
def latestLinkSet (selected : MemoryRepositoryLinkSetId → Bool) : Option MemoryRepositoryLinkCommit :=
  (sidecar.linkSets.filter (fun set => selected set.linkSet)).getLast?

variable (revision : MemoryRevisionId)

def latestRepositoryLinkSet (repository : RepositoryRef) : Option MemoryRepositoryLinkCommit :=
  sidecar.latestLinkSet fun set => set.revision = revision && set.repository = repository

/-- A set of another revision of the project that was made under the same policy and by the same extractors. -/
def latestCompatibleRepositoryLinkSet (repository : RepositoryRef) : Option MemoryRepositoryLinkCommit :=
  sidecar.latestLinkSet fun set => set.revision ≠ revision && set.revision.project = revision.project &&
    set.revision.policy = revision.policy && set.revision.modelVersion = revision.modelVersion &&
    set.revision.extractorSet = revision.extractorSet && set.repository = repository

/-- The set that a run for a link set builds on. -/
def previousLinkSet : Option MemoryRepositoryLinkCommit :=
  (sidecar.repositoryLinkSet id).or ((sidecar.latestRepositoryLinkSet id.revision id.repository).or
    (sidecar.latestCompatibleRepositoryLinkSet id.revision id.repository))

def insertRepositoryLinkCommit (commit : MemoryRepositoryLinkCommit) : Except MemoryStoreError MemorySidecar :=
  if commit.linkSet.revision ≠ revision ||
      commit.relationships.any (fun link => link.project ≠ revision.project || link.memoryRevisionId ≠ revision) then
    .error .identityMismatch
  else
    match sidecar.repositoryLinkSet commit.linkSet with
    | some existing =>
        if existing.relationships.map (·.timeless) = commit.relationships.map (·.timeless) then .ok sidecar
        else .error .identityMismatch
    | none => .ok { sidecar with linkSets := sidecar.linkSets ++ [commit] }

/-! ## Builds -/

/-- The facts belong to the revision. -/
def belongs (facts : MemoryFacts) : Bool :=
  facts.entities.values.all (fun entity => entity.project = revision.project && entity.memoryRevisionId = revision) &&
    facts.relationships.values.all
      (fun relationship => relationship.project = revision.project && relationship.memoryRevisionId = revision)

/-- The facts of a stored revision stay as they are. -/
def insertRevision (facts : MemoryFacts) : Except MemoryStoreError MemorySidecar :=
  match sidecar.revisions revision with
  | some _ => .ok sidecar
  | none =>
      if belongs revision facts then
        .ok { sidecar with revisions := Function.update sidecar.revisions revision (some facts) }
      else .error .identityMismatch

def writeFragment (cache : MemoryFragmentCacheKey → Option MemoryFragment)
    (write : MemoryFragmentCacheKey × MemoryFragment) : MemoryFragmentCacheKey → Option MemoryFragment :=
  Function.update cache write.1 (some write.2)

def completeBuild (commit : MemoryCommit) : Except MemoryStoreError MemorySidecar := do
  let stored ← sidecar.insertRevision commit.revision commit.facts
  let linked ← stored.insertRepositoryLinkCommit commit.revision commit.repositoryLinks
  return { linked with cache := commit.cacheWrites.foldl writeFragment linked.cache }

/-! ## Queries -/

/-- The links of a revision, those of the newest set first. -/
def linkRows : List MemoryRelationship :=
  (sidecar.linkSets.filter (·.linkSet.revision = revision)).reverse.flatMap (·.relationships)

/-- The relationships that a context query of a revision uses. Of several links with one id, the first counts. -/
def relationships : Table MemoryRelationshipId MemoryRelationship :=
  let semantic := ((sidecar.revisions revision).map (·.relationships)).getD .empty
  (sidecar.linkRows revision).foldl (fun found link => found.insertNew link.id link) semantic

end MemorySidecar

end Ferrus.ProjectMemory

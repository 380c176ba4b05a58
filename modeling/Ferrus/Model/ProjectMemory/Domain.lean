import Ferrus.Model.ProjectMemory.Documents
import Mathlib.Logic.Function.Basic

/-! # Facts of project memory

The values that extractors and the link resolver produce. A digest that is only compared stands for the value it
is the digest of: the fingerprint of a source, the id of a revision and the id of a link set. The ids of facts
are ordered as well, so they are texts, given by functions that take distinct keys to distinct ids.
-/

namespace Ferrus.ProjectMemory

open Ferrus.Text
open Ferrus.RepositoryGraph (RepoPath RepositoryRef SnapshotId SourceSpan)

abbrev MemoryEntityId := String
abbrev MemoryRelationshipId := String
abbrev MemoryRecordId := String
abbrev MemoryDiagnosticCode := String
abbrev NodeId := String
abbrev SemanticKey := String

/-! ## Bounded texts -/

/-- `char::is_control`. -/
def isControl (char : Char) : Bool := char.toNat < 0x20 || (0x7f ≤ char.toNat && char.toNat ≤ 0x9f)

def validateBoundedText (maxBytes : Nat) (allowNewlines : Bool) (value : String) : Option String :=
  let valid (char : Char) := !isControl char || (allowNewlines && char ∈ ['\n', '\r', '\t'])
  if isBlank value || maxBytes < byteLen value.toList || !value.toList.all valid then none else some value

def memoryRecordId? : String → Option MemoryRecordId := validateBoundedText 512 false

def memoryStatusToken? : String → Option String := validateBoundedText 512 false

def memoryTitle? : String → Option String := validateBoundedText 1024 false

def memoryText? : String → Option String := validateBoundedText (64 * 1024) true

/-! ## Sources -/

structure ProjectRef where
  (projectNamespace projectId : String)
deriving DecidableEq, Repr

inductive MemorySourceCategory where
  | specificationStructure | approvedOutcome | archiveManifest | runtimeProvenance | taskBody | submissionBody
  | reviewBody | patchBody | checkLogBody | questionBody | answerBody | consultationBody | integrationErrorBody
deriving DecidableEq, Repr

inductive MemorySourceLocator where
  | trackedFile (path : RepoPath)
  | archiveManifest (archiveId : MemoryRecordId)
  | runtimeRecords (recordType : String)
deriving DecidableEq, Repr

/-- What a fingerprint is the digest of. A specification is read through its parsed parts only. -/
inductive SourceFingerprint where
  | layout (document : SpecStructureDocument)
  | outcome (document : SpecOutcomeDocument)
  | archive (document : ArchiveSourceDocument)
  | runtime (document : RuntimeSourceDocument)
deriving DecidableEq, Repr

/-- A source as the digest of the source set lists it. -/
structure CanonicalSource where
  category : MemorySourceCategory
  locator : MemorySourceLocator
  fingerprint : SourceFingerprint
deriving DecidableEq, Repr

structure AuthorizedSourceDescriptor extends CanonicalSource where
  project : ProjectRef
  byteLen : Nat
deriving DecidableEq, Repr

inductive MemorySourceSensitivity where
  | curated | operationalMetadata | sensitive
deriving DecidableEq, Repr

inductive MemoryContentAccess where
  | structureOnly | curatedSections | identityAndCountsOnly | rawBody
deriving DecidableEq, Repr

structure MemorySourcePolicy where
  enabled : Bool
  sensitivity : MemorySourceSensitivity
  contentAccess : MemoryContentAccess
deriving DecidableEq, Repr

structure MemoryPolicy where
  schemaVersion : Nat
  categories : List (MemorySourceCategory × MemorySourcePolicy)
deriving DecidableEq, Repr

def MemoryPolicy.isAuthorized (policy : MemoryPolicy) (category : MemorySourceCategory) : Bool :=
  (policy.categories.lookup category).any (·.enabled)

structure MemoryExtractorIdentity where
  (id version : String)
  contractVersion : Nat
deriving DecidableEq, Repr

def memoryModelVersion : Nat := 1

def memoryExtractorContractVersion : Nat := 1

/-- The identity of a built-in extractor; the version is that of the program. -/
def extractorIdentity (version id : String) : MemoryExtractorIdentity := ⟨id, version, memoryExtractorContractVersion⟩

structure MemoryRevisionId where
  project : ProjectRef
  sources : List CanonicalSource
  policy : MemoryPolicy
  modelVersion : Nat
  extractorSet : List MemoryExtractorIdentity
deriving DecidableEq, Repr

/-! ## Facts -/

inductive MemoryEvidenceLocator where
  | span (span : SourceSpan)
  | record (id : MemoryRecordId)
deriving DecidableEq, Repr

inductive MemoryResolutionState where
  | resolved | unresolved | stale
deriving DecidableEq, Repr

inductive MemoryConfidence where
  | exact | high | medium | low
deriving DecidableEq, Repr

structure MemoryIndexTimestamps where
  (sourceObservedAt indexedAt : Nat)
deriving DecidableEq, Repr

structure MemoryProvenance where
  source : CanonicalSource
  extractor : MemoryExtractorIdentity
  evidence : MemoryEvidenceLocator
  resolution : MemoryResolutionState
  confidence : MemoryConfidence
  timestamps : MemoryIndexTimestamps
deriving DecidableEq, Repr

inductive MilestoneCompletion where
  | pending | complete
deriving DecidableEq, Repr

inductive MemoryEntityData where
  | specification (title : String)
  | milestone (milestoneId : MemoryRecordId) (title : String) (completion : MilestoneCompletion)
  | outcome (text : String)
  | decision (text : String)
  | deviation (text : String)
  | validationEvidence (text : Option String) (checkId : Option MemoryRecordId) (status : Option String)
  | followUpWork (text : String) (milestoneId : Option MemoryRecordId)
  | taskReference (taskId : MemoryRecordId) (milestoneId : Option MemoryRecordId) (status : String)
      (baselineSnapshotId repositorySnapshotId : Option SnapshotId)
  | runReference (runId taskId : MemoryRecordId) (status : String) (checkIds : List MemoryRecordId)
      (baselineSnapshotId repositorySnapshotId : Option SnapshotId)
  | archiveReference (archiveId : MemoryRecordId) (specPath : RepoPath) (archivedAt : String) (taskCount runCount : Nat)
deriving DecidableEq, Repr

structure MemoryEntity where
  project : ProjectRef
  memoryRevisionId : MemoryRevisionId
  id : MemoryEntityId
  data : MemoryEntityData
  provenance : MemoryProvenance
deriving DecidableEq, Repr

inductive MemoryRelationshipKind where
  | contains | implements | validates | supersedes | concerns | touches | followsUp
deriving DecidableEq, Repr

inductive MemoryRelationshipTarget where
  | memoryEntity (entityId : MemoryEntityId)
  | repositoryNode (repository : RepositoryRef) (snapshotId : SnapshotId) (nodeId : NodeId)
      (semanticKey : Option SemanticKey)
  | repositoryPath (repository : RepositoryRef) (path : RepoPath) (snapshotId : Option SnapshotId)
  | repositorySymbol (repository : RepositoryRef) (semanticKey : SemanticKey) (snapshotId : Option SnapshotId)
  | task (taskId : MemoryRecordId)
  | run (runId : MemoryRecordId)
  | milestone (milestoneId : MemoryRecordId)
deriving DecidableEq, Repr

/-- A target in the repository. -/
def MemoryRelationshipTarget.isRepository : MemoryRelationshipTarget → Bool
  | repositoryNode .. | repositoryPath .. | repositorySymbol .. => true
  | memoryEntity _ | task _ | run _ | milestone _ => false

structure MemoryRelationship where
  project : ProjectRef
  memoryRevisionId : MemoryRevisionId
  id : MemoryRelationshipId
  kind : MemoryRelationshipKind
  source : MemoryEntityId
  target : MemoryRelationshipTarget
  provenance : MemoryProvenance
deriving DecidableEq, Repr

structure MemoryFragment where
  entities : List MemoryEntity
  relationships : List MemoryRelationship
deriving DecidableEq, Repr

/-! ## Ids -/

/-- A reference that a text or a record makes to the repository. -/
inductive RepositoryReference where
  | path (path : RepoPath)
  | symbol (semanticKey : SemanticKey)
deriving DecidableEq, Repr

inductive EntityKey where
  | specification (locator : MemorySourceLocator)
  | milestone (locator : MemorySourceLocator) (id : List Char)
  | outcome (locator : MemorySourceLocator)
  | outcomeSection (locator : MemorySourceLocator) (kind : OutcomeSectionKind) (text : List Char) (occurrence : Nat)
  | archive (id : String)
  | task (id : String)
  | run (id : String)
  | check (id : String)
deriving DecidableEq, Repr

inductive RelationshipKey where
  | contains (source target : MemoryEntityId)
  | concerns (source target : MemoryEntityId)
  | archiveTask (archive : MemoryEntityId) (task : MemoryRecordId)
  | archiveMilestone (archive : MemoryEntityId) (milestone : MemoryRecordId)
  | implements (task : MemoryEntityId) (milestone : MemoryRecordId)
  | taskRun (task run : MemoryEntityId)
  | validates (check target : MemoryEntityId)
  | repositoryLink (source : MemoryEntityId) (kind : MemoryRelationshipKind) (reference : RepositoryReference)
deriving DecidableEq, Repr

/-- The digests that name facts, and the text that orders the sources of a manifest. -/
structure Identities where
  entityId : ProjectRef → EntityKey → MemoryEntityId
  relationshipId : ProjectRef → RelationshipKey → MemoryRelationshipId
  descriptorKey : AuthorizedSourceDescriptor → String
  entityId_injective : Function.Injective2 entityId
  relationshipId_injective : Function.Injective2 relationshipId

end Ferrus.ProjectMemory

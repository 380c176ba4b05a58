import Ferrus.Model.ProjectMemory.Domain

/-! # The built-in extractors of project memory

An extractor reads drafts of facts off a document. What a draft leaves open is filled in from the context of the
run: the project, the revision and the time, and the source and extractor in the provenance.
-/

namespace Ferrus.ProjectMemory

structure EntityDraft where
  id : MemoryEntityId
  data : MemoryEntityData
  evidence : MemoryEvidenceLocator
deriving DecidableEq, Repr

structure RelationshipDraft where
  id : MemoryRelationshipId
  kind : MemoryRelationshipKind
  source : MemoryEntityId
  target : MemoryRelationshipTarget
  evidence : MemoryEvidenceLocator
deriving DecidableEq, Repr

structure FragmentDraft where
  entities : List EntityDraft
  relationships : List RelationshipDraft
deriving DecidableEq, Repr

/-- An entity with the relationship that comes with it. -/
abbrev DraftPair := EntityDraft × RelationshipDraft

structure MemoryExtractionContext where
  revisionId : MemoryRevisionId
  indexedAt : Nat
deriving DecidableEq, Repr

namespace MemoryExtractionContext

variable (context : MemoryExtractionContext) (source : CanonicalSource) (extractor : MemoryExtractorIdentity)

def provenance (evidence : MemoryEvidenceLocator) : MemoryProvenance :=
  ⟨source, extractor, evidence, .resolved, .exact, ⟨context.indexedAt, context.indexedAt⟩⟩

def entity (draft : EntityDraft) : MemoryEntity :=
  ⟨context.revisionId.project, context.revisionId, draft.id, draft.data,
    context.provenance source extractor draft.evidence⟩

def relationship (draft : RelationshipDraft) : MemoryRelationship :=
  ⟨context.revisionId.project, context.revisionId, draft.id, draft.kind, draft.source, draft.target,
    context.provenance source extractor draft.evidence⟩

def fragment (draft : FragmentDraft) : MemoryFragment :=
  ⟨draft.entities.map (context.entity source extractor),
    draft.relationships.map (context.relationship source extractor)⟩

end MemoryExtractionContext

section Extractors

variable (ids : Identities) (project : ProjectRef) (locator : MemorySourceLocator)

/-! ## Specifications -/

def specificationId : MemoryEntityId := ids.entityId project (.specification locator)

def milestoneDrafts (milestone : SpecMilestoneDocument) : Option DraftPair := do
  let milestoneId ← memoryRecordId? (String.ofList milestone.id)
  let title ← memoryTitle? (String.ofList milestone.title)
  let specId := specificationId ids project locator
  let entityId := ids.entityId project (.milestone locator milestone.id)
  let completion := if milestone.completed then .complete else .pending
  return (⟨entityId, .milestone milestoneId title completion, .span milestone.span⟩,
    ⟨ids.relationshipId project (.contains specId entityId), .contains, specId, .memoryEntity entityId,
      .span milestone.span⟩)

def extractStructure (document : SpecStructureDocument) : Option FragmentDraft := do
  let title ← document.title
  let titleSpan ← document.titleSpan
  let title ← memoryTitle? (String.ofList title)
  let milestones ← document.milestones.mapM (milestoneDrafts ids project locator)
  let spec : EntityDraft := ⟨specificationId ids project locator, .specification title, .span titleSpan⟩
  return ⟨spec :: milestones.map Prod.fst, milestones.map Prod.snd⟩

def outcomeId : MemoryEntityId := ids.entityId project (.outcome locator)

def OutcomeSectionKind.data (text : String) : OutcomeSectionKind → MemoryEntityData
  | decision => .decision text
  | deviation => .deviation text
  | validation => .validationEvidence (some text) none none
  | followUp => .followUpWork text none

/-- Equal sections are told apart by how many stand before them. -/
def sectionDrafts (earlier : List OutcomeSection) : List OutcomeSection → Option (List DraftPair)
  | [] => some []
  | part :: rest => do
      let text ← memoryText? (String.ofList part.text)
      let occurrence := (earlier.filter (fun other => other.kind = part.kind && other.text = part.text)).length
      let sectionId := ids.entityId project (.outcomeSection locator part.kind part.text occurrence)
      let outcome := outcomeId ids project locator
      let later ← sectionDrafts (earlier ++ [part]) rest
      return (⟨sectionId, part.kind.data text, .span part.span⟩,
        ⟨ids.relationshipId project (.contains outcome sectionId), .contains, outcome, .memoryEntity sectionId,
          .span part.span⟩) :: later

def extractOutcome (document : SpecOutcomeDocument) : Option FragmentDraft := do
  let text ← memoryText? (String.ofList document.text)
  let sections ← sectionDrafts ids project locator [] document.sections
  let outcome := outcomeId ids project locator
  let spec := specificationId ids project locator
  let concerns : RelationshipDraft :=
    ⟨ids.relationshipId project (.concerns outcome spec), .concerns, outcome, .memoryEntity spec, .span document.span⟩
  return ⟨⟨outcome, .outcome text, .span document.span⟩ :: sections.map Prod.fst, concerns :: sections.map Prod.snd⟩

/-! ## Archives -/

def orFail {α : Type} (code : MemoryDiagnosticCode) : Option α → Except MemoryDiagnosticCode α
  | some value => .ok value
  | none => .error code

def archiveTaskDraft (archive : MemoryEntityId) (evidence : MemoryEvidenceLocator) (task : String) :
    Except MemoryDiagnosticCode RelationshipDraft := do
  let taskId ← orFail "runtime.invalid.task.id" (memoryRecordId? task)
  return ⟨ids.relationshipId project (.archiveTask archive taskId), .contains, archive, .task taskId, evidence⟩

def archiveMilestoneDraft (archive : MemoryEntityId) (evidence : MemoryEvidenceLocator) (milestone : String) :
    Except MemoryDiagnosticCode RelationshipDraft := do
  let milestoneId ← orFail "runtime.invalid.milestone.id" (memoryRecordId? milestone)
  return ⟨ids.relationshipId project (.archiveMilestone archive milestoneId), .concerns, archive,
    .milestone milestoneId, evidence⟩

def extractArchive (document : ArchiveSourceDocument) : Except MemoryDiagnosticCode FragmentDraft := do
  let archiveId ← orFail "archive.invalid.id" (memoryRecordId? document.archiveId)
  let entityId := ids.entityId project (.archive document.archiveId)
  let archivedAt ← orFail "archive.invalid.timestamp" (memoryStatusToken? document.archivedAt)
  let evidence : MemoryEvidenceLocator := .record archiveId
  let tasks ← document.taskIds.mapM (archiveTaskDraft ids project entityId evidence)
  let milestones ← document.milestoneIds.mapM (archiveMilestoneDraft ids project entityId evidence)
  let data : MemoryEntityData :=
    .archiveReference archiveId document.specPath archivedAt document.taskCount document.runCount
  return ⟨[⟨entityId, data, evidence⟩], tasks ++ milestones⟩

/-! ## Runtime records -/

def taskEntityId (id : String) : MemoryEntityId := ids.entityId project (.task id)

def runEntityId (id : String) : MemoryEntityId := ids.entityId project (.run id)

/-- A record with the relationship that it may have. -/
abbrev RecordDraft := EntityDraft × Option RelationshipDraft

def taskDraft (task : RuntimeTaskDocument) : Except MemoryDiagnosticCode RecordDraft := do
  let taskId ← orFail "runtime.invalid.task.id" (memoryRecordId? task.id)
  let milestoneId ← task.milestoneId.mapM fun id => orFail "runtime.invalid.milestone.id" (memoryRecordId? id)
  let status ← orFail "runtime.invalid.status" (memoryStatusToken? task.status)
  let entityId := taskEntityId ids project task.id
  return (⟨entityId, .taskReference taskId milestoneId status task.baselineSnapshotId task.repositorySnapshotId,
      .record taskId⟩,
    milestoneId.map fun milestone => ⟨ids.relationshipId project (.implements entityId milestone), .implements,
      entityId, .milestone milestone, .record taskId⟩)

variable (document : RuntimeSourceDocument)

def runDraft (run : RuntimeRunDocument) : Except MemoryDiagnosticCode RecordDraft := do
  let runId ← orFail "runtime.invalid.run.id" (memoryRecordId? run.id)
  let taskId ← orFail "runtime.invalid.task.id" (memoryRecordId? run.taskId)
  let checkIds ← run.checkIds.mapM fun id => orFail "runtime.invalid.check.id" (memoryRecordId? id)
  let status ← orFail "runtime.invalid.status" (memoryStatusToken? run.status)
  let entityId := runEntityId ids project run.id
  let task := taskEntityId ids project run.taskId
  let contains : RelationshipDraft :=
    ⟨ids.relationshipId project (.taskRun task entityId), .contains, task, .memoryEntity entityId, .record runId⟩
  return (⟨entityId, .runReference runId taskId status checkIds run.baselineSnapshotId run.repositorySnapshotId,
      .record runId⟩,
    if document.tasks.any (·.id = run.taskId) then some contains else none)

/-- What a check validates: its run if that is listed, else its task. -/
def checkTarget (check : RuntimeCheckDocument) : Option MemoryEntityId :=
  match check.runId.filter (fun run => document.runs.any (·.id = run)) with
  | some run => some (runEntityId ids project run)
  | none => if document.tasks.any (·.id = check.taskId) then some (taskEntityId ids project check.taskId) else none

def checkDraft (check : RuntimeCheckDocument) : Except MemoryDiagnosticCode RecordDraft := do
  let checkId ← orFail "runtime.invalid.check.id" (memoryRecordId? check.id)
  let status ← orFail "runtime.invalid.status" (memoryStatusToken? check.status)
  let entityId := ids.entityId project (.check check.id)
  return (⟨entityId, .validationEvidence none (some checkId) (some status), .record checkId⟩,
    (checkTarget ids project document check).map fun target => ⟨ids.relationshipId project (.validates entityId target),
      .validates, entityId, .memoryEntity target, .record checkId⟩)

def extractRuntime : Except MemoryDiagnosticCode FragmentDraft := do
  let tasks ← document.tasks.mapM (taskDraft ids project)
  let runs ← document.runs.mapM (runDraft ids project document)
  let checks ← document.checks.mapM (checkDraft ids project document)
  let records := tasks ++ runs ++ checks
  return ⟨records.map Prod.fst, records.filterMap Prod.snd⟩

end Extractors

/-! ## Selection -/

/-- The bytes of a source: a specification, which may not be UTF-8, or a document that discovery has encoded. -/
inductive MemorySourceContent where
  | file (text : Option (List Char))
  | archive (document : ArchiveSourceDocument)
  | runtime (document : RuntimeSourceDocument)
deriving DecidableEq, Repr

inductive MemoryExtractor where
  | specification | archiveManifest | runtimeProvenance
deriving DecidableEq, Repr

namespace MemoryExtractor

def id : MemoryExtractor → String
  | specification => "ferrus.specification"
  | archiveManifest => "ferrus.archive-manifest"
  | runtimeProvenance => "ferrus.runtime-provenance"

def identity (version : String) (extractor : MemoryExtractor) : MemoryExtractorIdentity :=
  extractorIdentity version extractor.id

def supports : MemoryExtractor → MemorySourceCategory → Bool
  | specification, .specificationStructure | specification, .approvedOutcome => true
  | archiveManifest, .archiveManifest => true
  | runtimeProvenance, .runtimeProvenance => true
  | _, _ => false

/-- Extract from a specification; the category says which part of it. -/
def extractSpecification (ids : Identities) (project : ProjectRef) (source : CanonicalSource) (content : List Char) :
    Except MemoryDiagnosticCode FragmentDraft :=
  let parsed := parseSpecMemory content
  match source.category with
  | .specificationStructure => orFail "spec.invalid" (extractStructure ids project source.locator parsed.layout)
  | .approvedOutcome => orFail "outcome.invalid" (parsed.outcome.bind (extractOutcome ids project source.locator))
  | _ => .error "source.unsupported"

def extract (ids : Identities) (project : ProjectRef) (source : CanonicalSource) :
    MemoryExtractor → MemorySourceContent → Except MemoryDiagnosticCode FragmentDraft
  | specification, .file none => .error "source.non.utf8"
  | specification, .file (some content) => extractSpecification ids project source content
  | specification, _ => .error "source.unsupported"
  | archiveManifest, .archive document => extractArchive ids project document
  | archiveManifest, _ => .error "archive.invalid"
  | runtimeProvenance, .runtime document => extractRuntime ids project document
  | runtimeProvenance, _ => .error "runtime.invalid"

end MemoryExtractor

def builtInExtractors : List MemoryExtractor := [.specification, .archiveManifest, .runtimeProvenance]

def builtInExtractorSet (version : String) : List MemoryExtractorIdentity :=
  builtInExtractors.map (MemoryExtractor.identity version)

def extractorFor (category : MemorySourceCategory) : Option MemoryExtractor :=
  builtInExtractors.find? (·.supports category)

end Ferrus.ProjectMemory

import Ferrus.Proofs.DeletionSteps
import Ferrus.Soundness.PublicationSwap

/-! # What a complete deletion has removed

A deletion that returns `complete` has gone through its phases, and each purge leaves nothing of its class
in its store. Two ways around a purge remain: a record of the same target and coverage that is complete
answers the request, and batches whose job row is gone are not found by the purge of a repository.
-/

namespace Ferrus.Distributed

open Ferrus.Machine DeleteDataRequest DeletionPhase Nat DeletionSystem PublicationDomain ScopedKey

/-- A row or a file that a retention class may cover. -/
inductive StoredItem where
  | object (key : ObjectKey)
  | file (key : ObjectKey)
  | batch (key : BatchKey) (batch : FactBatch)
  | revision (key : ScopedKey)
  | view (key : ScopedKey)
  | linkSet (key : LinkSetKey)
  | audit (record : AuditRecord)
deriving DecidableEq

open StoredItem

/-- The batch holds facts of the repository. -/
def FactBatch.isOfRepository (batch : FactBatch) (repository : RemoteRepositoryRef) : Bool :=
  match batch.header.target with
  | .repositoryGraph snapshot _ _ => snapshot.repository = repository
  | .projectMemory .. => false

namespace StoredItem

def isIn (stores : RemoteStores) : StoredItem → Bool
  | object key => (stores.objects.objects.get? key).isSome
  | file key => (stores.objects.files.get? key).isSome
  | batch key facts => (stores.facts.batches.get? key).any (·.batch = facts)
  | revision key => (stores.database.publications.revisions.get? key).isSome
  | view key => (stores.database.publications.views.get? key).isSome
  | linkSet key => (stores.database.publications.linkSets.get? key).isSome
  | audit record => stores.deletions.auditRecords.contains record

/-- The item is of the target and of a class that the deletion covers. Links belong to both of their ends. -/
def coveredBy (deletion : DeleteDataRequest) (item : StoredItem) : Bool :=
  match deletion.target, item with
  | .project project, object key | .project project, file key =>
      deletion.covers .uploadedSource && ObjectKey.project key = project.key
  | .project project, batch key _ => deletion.covers .unpublishedFact && BatchKey.project key = project.key
  | .repository repository, batch key facts =>
      deletion.covers .unpublishedFact && BatchKey.project key = repository.project.key &&
        facts.isOfRepository repository
  | .project project, revision key => ScopedKey.project key = project.key &&
      (deletion.covers .publishedGraphSnapshot && domain key = repositoryGraph.column ||
        deletion.covers .publishedMemoryRevision && domain key = projectMemory.column ||
        (deletion.covers .publishedGraphSnapshot || deletion.covers .publishedMemoryRevision) &&
          domain key = memoryRepositoryLinks.column)
  | .repository repository, revision key => project key = repository.project.key &&
      repositoryId key = repository.repositoryId && deletion.covers .publishedGraphSnapshot &&
      (domain key = repositoryGraph.column ||
        domain key = memoryRepositoryLinks.column)
  | .project project, view key => ScopedKey.project key = project.key &&
      (deletion.covers .publishedGraphSnapshot && domain key = repositoryGraph.column ||
        deletion.covers .publishedMemoryRevision && domain key = projectMemory.column)
  | .repository repository, view key => project key = repository.project.key &&
      repositoryId key = repository.repositoryId && deletion.covers .publishedGraphSnapshot &&
      domain key = repositoryGraph.column
  | .project project, linkSet key => (ofLex key).1 = project.key &&
      (deletion.covers .publishedGraphSnapshot || deletion.covers .publishedMemoryRevision)
  | .repository repository, linkSet key => (ofLex key).1 = repository.project.key &&
      (ofLex (ofLex key).2).1 = repository.repositoryId && deletion.covers .publishedGraphSnapshot
  | target, audit record => deletion.covers .auditRecord && record.isOf target
  | .repository _, object _ | .repository _, file _ => false

/-- The phase whose transaction removes the item. -/
def purge : StoredItem → DeletionPhase
  | object _ | file _ => .purgeObjects
  | batch .. => .purgeFacts
  | revision _ | view _ | linkSet _ | audit _ => .purgeControl

end StoredItem

/-- The item is stored in every state of the run. -/
def StoredThroughout (codec : StoreCodec) (item : StoredItem) (system : DeletionSystem) (events : List DeletionEvent) :
    Prop :=
  item.isIn system.stores = true ∧
    EveryStep (step codec) (fun _ _ target => item.isIn target.stores = true) system events

/-- The deletion that is requested here leaves nothing that was stored then, once it has returned that it is
complete. -/
def PurgesCovered (codec : StoreCodec) (system : DeletionSystem) (request : DeleteDataRequest)
    (later : List DeletionEvent) : Prop :=
  ∀ process item,
    (run (step codec) system (.start request :: later)).processes[system.processes.length]? = some process →
    process.phase = .complete → item.coveredBy request = true →
    ¬ StoredThroughout codec item system (.start request :: later)

/-- When the deletion begins there is no complete record of its identity. When it lists the jobs of a repository,
every stored batch of the repository is of one of them. -/
def DeletionProcess.isFresh (process : DeletionProcess) (stores : RemoteStores) : Bool :=
  match process.phase, process.carried.target with
  | .begin, _ => (stores.deletions.loadByIdempotency process.request).all (·.state ≠ .complete)
  | .listJobs, .repository repository =>
      (stores.facts.batches.select (fun key stored =>
        BatchKey.project key = repository.project.key && stored.batch.isOfRepository repository)).all fun row =>
          (stores.database.control.repositoryJobs repository).contains (jobIdOf (BatchKey.job row.1))
  | _, _ => true

/-- The deletion is fresh when it makes a step. -/
def DeletionSystem.isFreshAt (system : DeletionSystem) (index : Nat) : DeletionEvent → Bool
  | .advance other _ => other ≠ index || system.processes[other]?.all (·.isFresh system.stores)
  | .client _ | .start _ | .interrupt .. => true

/-! ## The purges -/

theorem StoredItem.coveredBy_congr {first second : DeleteDataRequest} (same : first.identity = second.identity)
    (item : StoredItem) : item.coveredBy first = item.coveredBy second := by
  obtain ⟨target, covers⟩ := identity_eq_iff.mp same
  unfold coveredBy
  rw [target]
  simp only [covers]

variable {stores : RemoteStores} {deletion request : DeleteDataRequest} {item : StoredItem}
  {process : DeletionProcess}

private theorem purgeObjects_removes {objects : ObjectDatabase}
    (purges : stores.objects.deleteProjectObjects deletion = .ok objects)
    (isObject : item.purge.rank = purgeObjects.rank) (covered : item.coveredBy deletion = true) :
    item.isIn { stores with objects } = false := by
  obtain ⟨tombstones, _, rfl⟩ := Except.map_eq_ok_iff.mp purges
  cases item with
  | object key | file key =>
    cases target : deletion.target with
    | project project =>
      simp only [coveredBy, target, Bool.and_eq_true, decide_eq_true_eq] at covered
      simp [isIn, Table.get?_deleteWhere_key, DeletionTarget.projectRef, covered.2]
    | repository repository => simp [coveredBy, target] at covered
  | batch | revision | view | linkSet | audit => cases isObject

private theorem purgeFacts_removes {jobs : List String} {facts : FactDatabase}
    (purges : stores.facts.deleteUnpublishedFacts deletion jobs = .ok facts) {key : BatchKey} {batch : FactBatch}
    (covered : (StoredItem.batch key batch).coveredBy deletion = true)
    (listed : deletion.isProject = false → jobIdOf (BatchKey.job key) ∈ jobs) :
    (StoredItem.batch key batch).isIn { stores with facts } = false := by
  obtain ⟨tombstones, _, rfl⟩ := Except.map_eq_ok_iff.mp purges
  have chosen : deletion.purgesBatch jobs key = true := by
    unfold purgesBatch isProject at *
    cases target : deletion.target with
    | project project =>
      simp only [StoredItem.coveredBy, target, Bool.and_eq_true, decide_eq_true_eq] at covered
      simp [DeletionTarget.projectRef, covered.2]
    | repository repository =>
      simp only [StoredItem.coveredBy, target, Bool.and_eq_true, decide_eq_true_eq] at covered
      rw [target] at listed
      simp [DeletionTarget.projectRef, covered.1.2, listed rfl]
  simp only [isIn, Table.get?_deleteWhere_key, if_pos chosen, Option.any_none]

/-- The purge of the control database deletes the covered publications and audit records. -/
private theorem purgeControl_removes {jobs : List String} {factsRemain : Bool} {now : Int} {deletions : DeletionTables}
    (persists : (stores.deletions.purgeAudit deletion).persistProgress deletion = .ok deletions)
    (isControl : item.purge.rank = purgeControl.rank) (covered : item.coveredBy deletion = true) :
    item.isIn { stores with
      database := stores.database.deleteControlData deletion jobs factsRemain now, deletions } = false := by
  have deleted {κ ρ : Type} [LinearOrder κ] (table : Table κ ρ) {selected : κ → Bool} {key : κ}
      (chosen : selected key = true) : ((table.deleteWhere (fun key _ => selected key)).get? key).isSome = false := by
    rw [Table.get?_deleteWhere_key, if_pos chosen, Option.isSome_none]
  cases item with
  | revision key =>
    have chosen : deletion.purgesRevision key = true := by
      unfold purgesRevision inScope purgesMemory
        isProject
      cases target : deletion.target <;>
        simp_all [coveredBy, DeletionTarget.projectRef] <;> tauto
    exact deleted _ chosen
  | view key =>
    have chosen : deletion.purgesView key = true := by
      unfold purgesView inScope purgesMemory
        isProject
      cases target : deletion.target <;> simp_all [coveredBy, DeletionTarget.projectRef]
    exact deleted _ chosen
  | linkSet key =>
    have chosen : deletion.purgesLinkSet key = true := by
      unfold purgesLinkSet inScope purgesMemory
        isProject
      cases target : deletion.target <;> simp_all [coveredBy, DeletionTarget.projectRef]
    exact deleted _ chosen
  | audit record =>
    simp only [coveredBy, Bool.and_eq_true] at covered
    simp only [isIn, DeletionTables.persistProgress_auditRecords persists, DeletionTables.purgeAudit,
      if_pos covered.1]
    simp [covered.2]
  | object | file | batch => cases isControl

/-! ## A deletion on its way -/

/-- The jobs that the process has listed include the one whose batch the item is. -/
def DeletionProcess.Lists (process : DeletionProcess) : StoredItem → Prop
  | .batch key _ => process.carried.isProject = false → jobIdOf (BatchKey.job key) ∈ process.repositoryJobs
  | .object _ | .file _ | .revision _ | .view _ | .linkSet _ | .audit _ => True

/-- The process has not yet come past the purge that removes the item. -/
structure DeletionProcess.Awaits (process : DeletionProcess) (request : DeleteDataRequest) (item : StoredItem) :
    Prop where
  requested : process.request = request
  carries : process.Carries
  before : process.phase.rank ≤ item.purge.rank
  listed : DeletionPhase.listJobs.rank < process.phase.rank → process.Lists item

theorem DeletionProcess.goOn_awaits {result : Except MaintenanceStoreError RemoteStores}
    {next onError : DeletionPhase} (carries : process.Carries) (requested : process.request = request)
    (listed : process.Lists item)
    (goes : ∀ after, result = .ok after → item.isIn after = true → next.rank ≤ item.purge.rank)
    (fails : onError.rank = 0) (remains : item.isIn (process.goOn stores result next onError).1 = true) :
    (process.goOn stores result next onError).2.Awaits request item := by
  revert remains
  unfold goOn
  split
  · next after =>
    intro remains
    exact ⟨requested, carries, goes after rfl remains, fun _ => listed⟩
  · intro _
    exact ⟨requested, carries, fails.symm ▸ zero_le _, fun _ => listed⟩

namespace StoredItem

theorem purgeObjects_le (item : StoredItem) : purgeObjects.rank ≤ item.purge.rank := by
  cases item <;> simp [purge, rank]

theorem purgeFacts_le (later : purgeObjects.rank < item.purge.rank) : purgeFacts.rank ≤ item.purge.rank := by
  revert later
  cases item <;> simp [purge, rank]

theorem purgeControl_le (later : purgeFacts.rank < item.purge.rank) : purgeControl.rank ≤ item.purge.rank := by
  revert later
  cases item <;> simp [purge, rank]

theorem le_purgeControl (item : StoredItem) : item.purge.rank ≤ purgeControl.rank := by
  cases item <;> simp [purge, rank]

/-- The purges of objects and facts are left out when the deletion does not cover their class. -/
theorem covers_of_purgeObjects (covered : item.coveredBy deletion = true)
    (isObject : item.purge.rank = purgeObjects.rank) : deletion.covers .uploadedSource = true := by
  cases item with
  | object | file =>
    cases target : deletion.target <;> simp_all [coveredBy]
  | batch | revision | view | linkSet | audit => cases isObject

theorem covers_of_purgeFacts (covered : item.coveredBy deletion = true)
    (isBatch : item.purge.rank = purgeFacts.rank) : deletion.covers .unpublishedFact = true := by
  cases item with
  | batch key facts =>
    cases target : deletion.target <;> simp_all [coveredBy]
  | object | file | revision | view | linkSet | audit => cases isBatch

end StoredItem

/-- A listing of a repository includes the job of each of its batches. -/
theorem DeletionProcess.listedJobs_lists {key : BatchKey} {facts : FactBatch}
    (covered : (batch key facts).coveredBy process.carried = true)
    (stored : (batch key facts).isIn stores = true) (fresh : process.isFresh stores = true)
    (phase : process.phase = .listJobs) (isRepository : process.carried.isProject = false) :
    jobIdOf (BatchKey.job key) ∈ stores.database.control.listedJobs process.carried := by
  unfold isProject at isRepository
  cases target : process.carried.target with
  | project project =>
    rw [target] at isRepository
    cases isRepository
  | repository repository =>
    simp only [coveredBy, target, Bool.and_eq_true, decide_eq_true_eq] at covered
    obtain ⟨row, found, same⟩ := (Option.any_eq_true _ _).mp stored
    have isOf : row.batch.isOfRepository repository = true := of_decide_eq_true same ▸ covered.2
    simp only [isFresh, phase, target, List.all_eq_true, List.contains_iff_mem] at fresh
    simp only [ControlDatabase.listedJobs, target]
    exact fresh (key, row) (stores.facts.batches.mem_select.mpr ⟨found, by simp [covered.1.2, isOf]⟩)

/-- A process does not come past the purge of an item that is still there afterwards. -/
theorem DeletionProcess.advance_awaits (covered : item.coveredBy request = true)
    (awaits : process.Awaits request item) (now : Int) (fresh : process.isFresh stores = true)
    (stored : item.isIn stores = true) (remains : item.isIn (process.advance stores now).1 = true) :
    (process.advance stores now).2.Awaits request item := by
  obtain ⟨requested, carries, before, listed⟩ := awaits
  have isCovered : item.coveredBy process.carried = true := by
    rw [coveredBy_congr carries, requested, covered]
  revert remains
  unfold advance
  cases phase : process.phase with
  | begin =>
    dsimp only
    split_ifs
    · exact fun _ => ⟨requested, carries, zero_le _, nofun⟩
    · split
      · next next found begins =>
        intro _
        have incomplete : found.state ≠ .complete := by
          intro isComplete
          simp [isFresh, phase, beginDeletion_complete begins isComplete, isComplete] at fresh
        rw [if_neg incomplete]
        exact ⟨requested, (beginDeletion_writes begins).1, le_of_succ_le item.purgeObjects_le,
          fun later => absurd later (lt_irrefl _)⟩
      · exact fun _ => ⟨requested, carries, zero_le _, nofun⟩
  | listJobs =>
    intro _
    refine ⟨requested, carries, item.purgeObjects_le, fun _ => ?_⟩
    cases item with
    | batch key facts =>
      have lists := listedJobs_lists isCovered stored fresh phase
      exact lists
    | object | file | revision | view | linkSet | audit => trivial
  | purgeObjects =>
    have lists := listed (phase ▸ by decide)
    dsimp only
    split
    · refine goOn_awaits carries requested lists (fun after result there => ?_) rfl
      obtain ⟨objects, purges, rfl⟩ := Except.map_eq_ok_iff.mp result
      refine lt_of_le_of_ne item.purgeObjects_le fun isObject => ?_
      rw [purgeObjects_removes purges isObject.symm isCovered] at there
      cases there
    · next uncovered =>
      intro _
      refine ⟨requested, carries, purgeFacts_le (lt_of_le_of_ne item.purgeObjects_le ?_), fun _ => lists⟩
      exact fun isObject => uncovered (covers_of_purgeObjects isCovered isObject.symm)
  | recordObjects =>
    rw [phase] at before listed
    exact goOn_awaits carries requested (listed (by decide)) (fun _ _ _ => purgeFacts_le before) rfl
  | purgeFacts =>
    rw [phase] at before listed
    have lists := listed (by decide)
    dsimp only
    split
    · refine goOn_awaits carries requested lists (fun after result there => ?_) rfl
      obtain ⟨facts, purges, rfl⟩ := Except.map_eq_ok_iff.mp result
      refine lt_of_le_of_ne before fun isBatch => ?_
      cases item with
      | batch key facts =>
        rw [purgeFacts_removes purges isCovered lists] at there
        cases there
      | object | file | revision | view | linkSet | audit => cases isBatch
    · next uncovered =>
      intro _
      have later : purgeFacts.rank < item.purge.rank := lt_of_le_of_ne before
        (fun isBatch => uncovered (covers_of_purgeFacts isCovered isBatch.symm))
      exact ⟨requested, carries, le_of_succ_le (purgeControl_le later), fun _ => lists⟩
  | recordFacts =>
    rw [phase] at before listed
    exact goOn_awaits carries requested (listed (by decide))
      (fun _ _ _ => le_of_succ_le (purgeControl_le before)) rfl
  | checkFacts =>
    rw [phase] at before listed
    exact fun _ => ⟨requested, carries, purgeControl_le (lt_of_succ_lt before), fun _ => listed (by decide)⟩
  | purgeControl =>
    rw [phase] at before listed
    refine goOn_awaits carries requested (listed (by decide)) (fun after result there => ?_) rfl
    obtain ⟨deletions, persists, rfl⟩ := Except.map_eq_ok_iff.mp result
    have isControl := le_antisymm item.le_purgeControl before
    rw [purgeControl_removes persists isControl isCovered] at there
    cases there
  | finish | releaseFacts | releaseObjects | releaseControl | complete =>
    rw [phase] at before
    exact absurd (le_trans before item.le_purgeControl) (by decide)
  | recordFailure => exact fun _ => ⟨requested, carries, zero_le _, nofun⟩
  | refused =>
    exact fun _ => ⟨requested, carries, before, listed⟩

theorem DeletionProcess.interrupt_awaits (awaits : process.Awaits request item) (removed : List ObjectKey) :
    (process.interrupt stores removed).2.Awaits request item := by
  obtain ⟨requested, carries, before, listed⟩ := awaits
  have failed (phase : DeletionPhase) (isLast : phase.rank = 0) : ({ process with phase }).Awaits request item :=
    ⟨requested, carries, isLast ▸ zero_le _, fun later => by rw [isLast] at later; cases later⟩
  unfold interrupt
  cases phase : process.phase with
  | purgeObjects =>
    dsimp only
    split <;> exact failed _ rfl
  | begin | listJobs | recordObjects | purgeFacts | recordFacts | checkFacts | purgeControl | finish | releaseFacts
  | releaseObjects | releaseControl | recordFailure => exact failed _ rfl
  | complete | refused => exact ⟨requested, carries, before, listed⟩

/-- A fresh deletion that returns that it is complete has removed what it covers, whatever clients and other
deletions do meanwhile. -/
theorem purges_covered (codec : StoreCodec) (system : DeletionSystem) (request : DeleteDataRequest)
    (later : List DeletionEvent)
    (fresh : EveryStep (step codec) (fun source event _ => source.isFreshAt system.processes.length event = true)
      system (.start request :: later)) : PurgesCovered codec system request later := by
  rintro process item found isComplete covered ⟨stored, throughout⟩
  let Inv (current : DeletionSystem) : Prop := item.isIn current.stores = true ∧
    ∃ process, current.processes[system.processes.length]? = some process ∧ process.Awaits request item
  have start : Inv (system.step codec (.start request)) :=
    ⟨throughout.1, .ofRequest request, List.getElem?_concat_length .., rfl, rfl, Nat.zero_le _, nofun⟩
  have reached : Inv (run (step codec) (system.step codec (.start request)) later) := by
    refine EveryStep.run_invariant Inv (fresh.2.and throughout.2) start ?_
    rintro current event ⟨isStored, process, isProcess, awaits⟩ ⟨isFresh, remains⟩
    obtain ⟨after, isAfter, moves⟩ := current.step_moves codec isProcess event
    refine ⟨remains, after, isAfter, ?_⟩
    generalize (current.step codec event).stores = next at moves remains
    cases moves with
    | still => exact awaits
    | advanced =>
      simp only [isFreshAt, isProcess, Option.all_some, ne_eq, not_true, decide_false, Bool.false_or] at isFresh
      exact DeletionProcess.advance_awaits covered awaits _ isFresh isStored remains
    | interrupted => exact DeletionProcess.interrupt_awaits awaits _
  obtain ⟨_, other, same, awaits⟩ := reached
  cases found.symm.trans same
  have before := awaits.before
  rw [isComplete] at before
  exact absurd (Nat.le_trans before item.le_purgeControl) (by decide)

def exampleObject : VerifiedObject := ⟨"content", [1, 2, 3]⟩

def putExampleObject : DeletionEvent := .client (.putObject ⟨10, 100, 10⟩ exampleProject exampleObject)

def sourceDeletion (deletionId : String) : DeleteDataRequest := ⟨deletionId, .project exampleProject, [.uploadedSource]⟩

/-- A deletion of one class takes at most eleven transactions. -/
def deletionAdvances (index : Nat) : List DeletionEvent := List.replicate 11 (.advance index (atSecond 1))

/-- The first deletion of the uploaded sources is complete and has removed the object. -/
theorem purges_covered_uploaded :
    ((run (step exampleCodec) .empty (putExampleObject :: .start (sourceDeletion "deletion-1") ::
        deletionAdvances 0)).processes.map (·.phase)) = [.complete] ∧
    PurgesCovered exampleCodec (run (step exampleCodec) .empty [putExampleObject])
      (sourceDeletion "deletion-1") (deletionAdvances 0) :=
  ⟨by decide, purges_covered exampleCodec _ _ _ (by decide)⟩

/-- The object is uploaded again after the first deletion: a second one of the same target and coverage returns that it
is complete and leaves the object. -/
theorem not_purges_covered_repeated : ¬ PurgesCovered exampleCodec
      (run (step exampleCodec) .empty (putExampleObject :: .start (sourceDeletion "deletion-1") ::
        deletionAdvances 0 ++ [putExampleObject]))
      (sourceDeletion "deletion-2") (deletionAdvances 1) := by
  intro purges
  exact purges ⟨sourceDeletion "deletion-2", sourceDeletion "deletion-1", .complete, [], false⟩
    (.object (objectKey exampleProject "content")) (by decide) rfl (by decide) ⟨by decide, by decide⟩

/-- A job runs and its batch is stored; then the graph snapshots of the project are deleted, and the row of the job
with them. -/
def orphanedBatchEvents : List DeletionEvent :=
  (publishingRequests.take 3).map (fun request => .client request.1) ++
    .client (.putFacts ⟨10, 100, 10⟩ exampleBatch ⟨"worker-1", 1⟩ (atSecond 3)) ::
    .start ⟨"deletion-1", .project exampleProject, [.publishedGraphSnapshot]⟩ :: deletionAdvances 0

/-- The deletion of the unpublished facts of the repository lists the jobs by their rows: it is complete and leaves the
batch of the job without a row. -/
theorem not_purges_covered_orphaned :
    ¬ PurgesCovered exampleCodec (run (step exampleCodec) .empty orphanedBatchEvents)
      ⟨"deletion-2", .repository exampleRepository, [.unpublishedFact]⟩ (deletionAdvances 1) := by
  intro purges
  exact purges ⟨⟨"deletion-2", .repository exampleRepository, [.unpublishedFact]⟩,
      ⟨"deletion-2", .repository exampleRepository, [.unpublishedFact]⟩, .complete, [], false⟩
    (.batch exampleBatch.key exampleBatch) (by decide) rfl (by decide) ⟨by decide, by decide⟩

end Ferrus.Distributed

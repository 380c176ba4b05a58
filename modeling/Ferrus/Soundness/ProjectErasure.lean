import Ferrus.Proofs.DeletionSteps
import Ferrus.Soundness.PublicationSwap

/-! # Full deletion of a project

A full project deletion keeps its tombstones. Each store is erased in the transaction that installs its
tombstone, and from then on no client adds to it, whatever the other stores still hold. A process knows by its
phase which stores are erased; a retry begins again and finds the tombstones to be its own, so nothing refuses it.
-/

namespace Ferrus.Distributed

open Ferrus.Machine DeletionProcess DeletionTables List PublicationDomain DeleteDataRequest DeletionSystem

/-! ## Erased stores -/

section Erased

variable (deletion : DeleteDataRequest) (stores : RemoteStores)

structure ObjectsErased : Prop where
  tombstone : stores.objects.tombstones.get? deletion.target.projectRef.key = some deletion.deletionId
  objects : stores.objects.objects.EmptyOn (ObjectKey.project · = deletion.target.projectRef.key)
  files : stores.objects.files.EmptyOn (ObjectKey.project · = deletion.target.projectRef.key)

structure FactsErased : Prop where
  tombstone : stores.facts.tombstones.get? deletion.target.projectRef.key = some deletion.deletionId
  batches : stores.facts.batches.EmptyOn (BatchKey.project · = deletion.target.projectRef.key)

structure ControlErased : Prop where
  tombstone : stores.database.control.tombstones.get? deletion.target.projectRef.key = some deletion.deletionId
  jobs : stores.database.control.jobs.EmptyOn (projectOf · = deletion.target.projectRef.key)
  revisions : stores.database.publications.revisions.EmptyOn (ScopedKey.project · = deletion.target.projectRef.key)
  views : stores.database.publications.views.EmptyOn (ScopedKey.project · = deletion.target.projectRef.key)

/-- Nothing of the project is stored. -/
structure Erased : Prop where
  objects : ObjectsErased deletion stores
  facts : FactsErased deletion stores
  control : ControlErased deletion stores

end Erased

variable {deletion : DeleteDataRequest} {stores next : RemoteStores} {tombstones : Table ProjectKey String}
  {project : ProjectKey} {old new : PublicationTables} {process : DeletionProcess}

/-! ## Clients add nothing -/

variable {objects : ObjectDatabase} {limits : RemoteStoreLimits}

section Clients

variable {codec : StoreCodec} {request : ClientRequest} {reply : ClientReply} {erased : ProjectKey}

/-- What a store accepts is of another project than its tombstone. -/
private theorem ne_of_alive {other : ProjectKey} {deletionId : String}
    (tombstone : tombstones.get? project = some deletionId)
    (alive : (tombstones.get? other).isSome = false) : other ≠ project := by
  rintro rfl
  rw [tombstone] at alive
  cases alive

private theorem writes_agreesOn {project : RemoteProjectRef} (other : project.key ≠ erased)
    (pending : List VerifiedObject) (db : ObjectDatabase) : Table.AgreesOn (ObjectKey.project · = erased) db.objects
        (pending.foldl (fun db object => db.write project object) db).objects ∧
      Table.AgreesOn (ObjectKey.project · = erased) db.files
        (pending.foldl (fun db object => db.write project object) db).files := by
  induction pending generalizing db with
  | nil => exact ⟨.refl _, .refl _⟩
  | cons object rest ih =>
    obtain ⟨objects, files⟩ := ih (db.write project object)
    refine ⟨Table.AgreesOn.trans ?_ objects, Table.AgreesOn.trans ?_ files⟩
    · exact .insertNew _ other
    · exact .put _ other

theorem PutsObjects.objectsErased {quota : ObjectStoreQuota} {project : RemoteProjectRef}
    {pending : List VerifiedObject} (puts : PutsObjects quota project stores.objects pending objects)
    (erased : ObjectsErased deletion stores) : ObjectsErased deletion { stores with objects } := by
  obtain ⟨sameObjects, sameFiles⟩ := writes_agreesOn (ne_of_alive erased.tombstone puts.alive) pending stores.objects
  refine ⟨puts.tombstones ▸ erased.tombstone, ?_, ?_⟩
  · rw [puts.written]
    exact erased.objects.agrees sameObjects
  · rw [puts.written]
    exact erased.files.agrees sameFiles

theorem Admits.emptyOn (admits : Admits limits project old new) (other : project ≠ erased)
    (revisions : old.revisions.EmptyOn (ScopedKey.project · = erased)) :
    new.revisions.EmptyOn (ScopedKey.project · = erased) := by
  cases admits with
  | kept same => rwa [same]
  | inserted scope _ _ _ same =>
    rw [same]
    exact revisions.agrees (.insertNew _ (scope ▸ other))

theorem SwapsView.emptyOn {asked : PublicationRequest} {outcome : PublicationOutcome}
    (swaps : SwapsView asked old new outcome) (other : asked.project.key ≠ erased)
    (views : old.views.EmptyOn (ScopedKey.project · = erased)) : new.views.EmptyOn (ScopedKey.project · = erased) := by
  cases swaps with
  | superseded _ same | unchanged _ _ _ same => rwa [same]
  | moved _ _ put =>
    rw [put]
    exact views.agrees (.put _ other)

section

variable (serves : Serves codec stores request next reply)

include serves

theorem Serves.objectsErased (erased : ObjectsErased deletion stores) : ObjectsErased deletion next := by
  cases serves with
  | coordinated | factsPut | replayed | published => exact { erased with }
  | objectPut put =>
    obtain ⟨_, puts⟩ := putVerified_puts put
    exact puts.objectsErased erased
  | objectsPut put =>
    obtain ⟨_, puts⟩ := putVerifiedBatch_puts put
    exact puts.objectsErased erased

theorem Serves.factsErased (erased : FactsErased deletion stores) : FactsErased deletion next := by
  obtain ⟨tombstone, batches⟩ := erased
  cases serves with
  | coordinated | replayed | published | objectPut | objectsPut => exact ⟨tombstone, batches⟩
  | factsPut put =>
    obtain ⟨_, alive, _, puts⟩ := put_cases put
    cases puts with
    | reused => exact ⟨tombstone, batches⟩
    | stored => exact ⟨tombstone, (batches.deleteWhere _).agrees (.insertNew _ (ne_of_alive tombstone alive))⟩

theorem Serves.controlErased (erased : ControlErased deletion stores) : ControlErased deletion next := by
  have kept := serves.tombstones.1
  obtain ⟨tombstone, jobs, revisions, views⟩ := erased
  cases serves with
  | coordinated answered =>
    refine ⟨kept ▸ tombstone, fun key isOf => ?_, revisions, views⟩
    exact respond_absent answered (by rw [isOf, tombstone]; rfl) (jobs key isOf)
  | factsPut | replayed | objectPut | objectsPut => exact ⟨tombstone, jobs, revisions, views⟩
  | published asks valid publishes =>
    obtain ⟨spec, authority⟩ := publishes.authority
    have alive := (requirePublicationAuthority_eq_ok_iff.mp authority).1
    rw [PublicationRequest.isValid.scope valid] at alive
    have other := ne_of_alive tombstone alive
    obtain ⟨middle, first, second⟩ := publishes.admitted
    refine ⟨kept ▸ tombstone, fun key isOf => ?_, second.emptyOn other (first.emptyOn other revisions),
      publishes.swapped.emptyOn other views⟩
    have step : RowsStep utcRange _ _ _ _ := completeJob_rows publishes.completed
    exact step.absent nofun (jobs key isOf)

end

end Clients

/-! ## One deletion and its retries -/

section

variable (deletion) (stores)

def Recorded : Prop := ∃ state, stores.deletions.deletions = [⟨deletion, state⟩]

/-- The stores while the deletion is the only one: its record is the only one, and the tombstones of the project are
its own. -/
structure Erasing : Prop where
  records : stores.deletions.deletions = [] ∨ Recorded deletion stores
  started : Recorded deletion stores →
    stores.database.control.tombstones.get? deletion.target.projectRef.key = some deletion.deletionId
  completed : stores.deletions.deletions = [⟨deletion, .complete⟩] → Erased deletion stores
  controlHolder : ∀ holder, stores.database.control.tombstones.get? deletion.target.projectRef.key = some holder →
    holder = deletion.deletionId
  factHolder : ∀ holder, stores.facts.tombstones.get? deletion.target.projectRef.key = some holder →
    holder = deletion.deletionId
  objectHolder : ∀ holder, stores.objects.tombstones.get? deletion.target.projectRef.key = some holder →
    holder = deletion.deletionId
  placed : stores.database.publications.Placed

/-- What is erased stays so. -/
structure KeepsErased (old new : RemoteStores) : Prop where
  recorded : Recorded deletion old → Recorded deletion new
  objects : ObjectsErased deletion old → ObjectsErased deletion new
  facts : FactsErased deletion old → FactsErased deletion new
  control : ControlErased deletion old → ControlErased deletion new

/-- What a process of the deletion knows in a phase. A full deletion releases no tombstone. -/
structure Knows (phase : DeletionPhase) : Prop where
  keepsTombstones : phase ≠ .releaseObjects ∧ phase ≠ .releaseControl
  recorded : DeletionPhase.begin.rank < phase.rank → Recorded deletion stores
  objects : DeletionPhase.purgeObjects.rank < phase.rank → ObjectsErased deletion stores
  facts : DeletionPhase.purgeFacts.rank < phase.rank → FactsErased deletion stores
  control : DeletionPhase.purgeControl.rank < phase.rank → ControlErased deletion stores

end

/-- The deletion is still the only one, and what was erased is. -/
structure ErasingStep (deletion : DeleteDataRequest) (stores next : RemoteStores) : Prop where
  erasing : Erasing deletion next
  keeps : KeepsErased deletion stores next

theorem KeepsErased.refl (stores : RemoteStores) : KeepsErased deletion stores stores := ⟨id, id, id, id⟩

theorem KeepsErased.trans {middle : RemoteStores} (first : KeepsErased deletion stores middle)
    (second : KeepsErased deletion middle next) : KeepsErased deletion stores next :=
  ⟨second.recorded ∘ first.recorded, second.objects ∘ first.objects, second.facts ∘ first.facts,
    second.control ∘ first.control⟩

theorem KeepsErased.erased (keeps : KeepsErased deletion stores next) (erased : Erased deletion stores) :
    Erased deletion next :=
  ⟨keeps.objects erased.objects, keeps.facts erased.facts, keeps.control erased.control⟩

theorem Knows.keeps {phase : DeletionPhase} (knows : Knows deletion stores phase)
    (keeps : KeepsErased deletion stores next) : Knows deletion next phase :=
  ⟨knows.keepsTombstones, fun later => keeps.recorded (knows.recorded later),
    fun later => keeps.objects (knows.objects later),
    fun later => keeps.facts (knows.facts later), fun later => keeps.control (knows.control later)⟩

/-- The next phase knows what its predecessor did, and what the transaction of that one has erased. -/
theorem Knows.advance {phase after : DeletionPhase} (knows : Knows deletion stores phase)
    (keeps : KeepsErased deletion stores next) (follows : after.rank = phase.rank + 1)
    (keepsTombstones : after ≠ .releaseObjects ∧ after ≠ .releaseControl)
    (recorded : phase.rank = DeletionPhase.begin.rank → Recorded deletion next)
    (objects : phase.rank = DeletionPhase.purgeObjects.rank → ObjectsErased deletion next)
    (facts : phase.rank = DeletionPhase.purgeFacts.rank → FactsErased deletion next)
    (control : phase.rank = DeletionPhase.purgeControl.rank → ControlErased deletion next) :
    Knows deletion next after := by
  have split {rank : Nat} (before : rank < after.rank) : rank < phase.rank ∨ phase.rank = rank := by omega
  exact ⟨keepsTombstones, fun before => (split before).elim (keeps.recorded ∘ knows.recorded) recorded,
    fun before => (split before).elim (keeps.objects ∘ knows.objects) objects,
    fun before => (split before).elim (keeps.facts ∘ knows.facts) facts,
    fun before => (split before).elim (keeps.control ∘ knows.control) control⟩

/-- A process that has failed knows nothing. -/
theorem Knows.failed {phase : DeletionPhase} (isFailed : phase = .recordFailure ∨ phase = .refused) :
    Knows deletion stores phase := by
  rcases isFailed with rfl | rfl <;> exact ⟨⟨nofun, nofun⟩, nofun, nofun, nofun, nofun⟩

theorem Erasing.empty : Erasing deletion .empty := by
  refine ⟨.inl rfl, ?_, nofun, nofun, nofun, nofun, nofun, nofun, nofun⟩
  rintro ⟨state, isRecord⟩
  cases isRecord

section Clients

variable {codec : StoreCodec} {request : ClientRequest} {reply : ClientReply}

theorem Admits.placed (admits : Admits limits project old new)
    (placed : ∀ key row, old.revisions.get? key = some row → ∃ domain, ScopedKey.domain key = column domain)
    (key : ScopedKey) (row : RevisionRow) (found : new.revisions.get? key = some row) :
    ∃ domain, ScopedKey.domain key = column domain := by
  cases admits with
  | kept same => exact placed key row (same ▸ found)
  | inserted _ isPlaced _ _ same =>
    rw [same, Table.get?_insertNew] at found
    split_ifs at found with isKey
    · exact isKey ▸ isPlaced
    · exact placed key row found

section

variable (serves : Serves codec stores request next reply)

include serves

theorem Serves.keepsErased : KeepsErased deletion stores next := by
  refine ⟨?_, serves.objectsErased, serves.factsErased, serves.controlErased⟩
  rw [Recorded, Recorded, serves.deletions]
  exact id

theorem Serves.placed (placed : stores.database.publications.Placed) : next.database.publications.Placed := by
  cases serves with
  | coordinated | factsPut | replayed | objectPut | objectsPut => exact placed
  | @published _ limits asked _ _ _ asks valid publishes =>
    refine ⟨fun key receipt found => ?_, ?_, fun key row found => ?_⟩
    · rw [publishes.recorded, Table.get?_insertNew] at found
      split_ifs at found with same
      · rw [publishes.unrecorded] at found
        cases found
        rw [same, projectOf_key, PublicationRequest.isValid.scope valid]
        rfl
      · exact placed.receipts key receipt found
    · obtain ⟨middle, first, second⟩ := publishes.admitted
      exact second.placed (first.placed placed.revisions)
    · have domain : asked.domain = .repositoryGraph ∨ asked.domain = .projectMemory := by
        cases request <;> cases asks <;> simp [PublishGraphRequest.toRequest, PublishMemoryRequest.toRequest]
      cases publishes.swapped with
      | superseded _ same | unchanged _ _ _ same => exact placed.views key row (same ▸ found)
      | moved _ _ put =>
        rw [put, Table.get?_put] at found
        split_ifs at found with same
        · rw [same]
          exact domain.imp (congrArg column) (congrArg column)
        · exact placed.views key row found

theorem Serves.erasing (erasing : Erasing deletion stores) : Erasing deletion next := by
  have keeps : KeepsErased deletion stores next := serves.keepsErased
  obtain ⟨control, facts, objects⟩ := serves.tombstones
  have same := serves.deletions
  refine ⟨?_, ?_, ?_, ?_, ?_, ?_, serves.placed erasing.placed⟩
  · rw [Recorded, same]
    exact erasing.records
  · rw [Recorded, same, control]
    exact erasing.started
  · rw [same]
    exact fun complete => keeps.erased (erasing.completed complete)
  · rw [control]
    exact erasing.controlHolder
  · rw [facts]
    exact erasing.factHolder
  · rw [objects]
    exact erasing.objectHolder

end

end Clients

/-! ## Its transactions -/

private theorem installStoreTombstone_of_holder
    (holder : ∀ other, tombstones.get? deletion.target.projectRef.key = some other → other = deletion.deletionId) :
    ∃ installed, installStoreTombstone tombstones deletion = .ok installed ∧
      installed.get? deletion.target.projectRef.key = some deletion.deletionId := by
  unfold installStoreTombstone
  cases held : tombstones.get? deletion.target.projectRef.key with
  | none =>
    refine ⟨_, rfl, ?_⟩
    rw [Table.get?_insertNew, if_pos rfl, held]
    rfl
  | some other =>
    obtain rfl := holder other held
    exact ⟨tombstones, if_pos rfl, held⟩

private theorem isFullProjectDeletion_covers (full : deletion.isFullProjectDeletion = true) :
    (∃ project, deletion.target = .project project) ∧ ∀ retention, deletion.covers retention = true := by
  unfold isFullProjectDeletion at full
  cases target : deletion.target with
  | repository =>
    rw [target] at full
    cases full
  | project project =>
    rw [target] at full
    refine ⟨⟨project, rfl⟩, fun retention => ?_⟩
    exact all_eq_true.mp full retention (by cases retention <;> decide)

variable {other : DeletionState}

section Records

variable {tables : DeletionTables} {state : DeletionState}

section

variable (isRecord : tables.deletions = [⟨deletion, state⟩])

include isRecord

private theorem loadByIdempotency_record : tables.loadByIdempotency deletion = some ⟨deletion, state⟩ := by
  rw [loadByIdempotency, isRecord]
  exact find?_cons_of_pos (decide_eq_true rfl)

/-- A record that is complete stays so. -/
private theorem setState_record (new : DeletionState) :
    (tables.setState deletion new).deletions = [⟨deletion, if state = .complete then .complete else new⟩] := by
  simp only [setState, isRecord, map_cons, map_nil, hasId, decide_true, Bool.and_self, Bool.true_and, decide_eq_true_eq]
  by_cases complete : state = .complete <;> simp [complete]

private theorem persistProgress_record : ∃ next, tables.persistProgress deletion = .ok next ∧
      next.deletions = [⟨deletion, if state = .complete then .complete else .running⟩] := by
  rw [persistProgress, loadByIdempotency_record isRecord]
  exact ⟨_, rfl, setState_record isRecord .running⟩

private theorem persistAudit_record (record : AuditRecord) :
    (tables.persistAudit record).deletions = [⟨deletion, state⟩] := isRecord

private theorem finish_record (now : Int) :
    ∃ next, tables.finish deletion now = .ok next ∧ next.deletions = [⟨deletion, .complete⟩] := by
  rw [finish, loadByIdempotency_record isRecord]
  refine ⟨_, rfl, (setState_record (persistAudit_record isRecord _) .complete).trans ?_⟩
  rw [ite_self]

private theorem recordFailure_record (now : Int) :
    (tables.recordFailure deletion now).deletions = [⟨deletion, if state = .complete then .complete else .failed⟩] := by
  rw [recordFailure, loadByIdempotency_record isRecord]
  by_cases complete : state = .complete
  · simp only [complete, if_true] at isRecord ⊢
    exact isRecord
  · simp only [if_neg complete]
    refine (setState_record (persistAudit_record isRecord _) .failed).trans ?_
    rw [if_neg complete]

end

end Records

namespace Erasing

variable {state : DeletionState} {deletions : DeletionTables} (erasing : Erasing deletion stores)

include erasing

/-- A write of the record and of the control store. The record is complete only when everything is erased. -/
theorem withControl {database : RemoteDatabase} (isRecord : deletions.deletions = [⟨deletion, state⟩])
    (complete : state = .complete → Erased deletion stores)
    (tombstone : database.control.tombstones.get? deletion.target.projectRef.key = some deletion.deletionId)
    (kept : ControlErased deletion stores → ControlErased deletion { stores with database, deletions })
    (placed : database.publications.Placed) : ErasingStep deletion stores { stores with database, deletions } := by
  have keeps : KeepsErased deletion stores { stores with database, deletions } :=
    ⟨fun _ => ⟨state, isRecord⟩, fun objects => { objects with }, fun facts => { facts with }, kept⟩
  refine ⟨{ erasing with
    records := .inr ⟨state, isRecord⟩
    started := fun _ => tombstone
    completed := fun isComplete => keeps.erased (complete ?_)
    controlHolder := fun holder held => Option.some.inj (held.symm.trans tombstone)
    placed }, keeps⟩
  cases isRecord.symm.trans isComplete
  rfl

theorem withRecord (recorded : Recorded deletion stores) (isRecord : deletions.deletions = [⟨deletion, state⟩])
    (complete : state = .complete → Erased deletion stores) : ErasingStep deletion stores { stores with deletions } :=
  erasing.withControl isRecord complete (erasing.started recorded) (fun control => { control with }) erasing.placed

/-- Progress completes no record. -/
theorem erased_of_progress (isRecord : stores.deletions.deletions = [⟨deletion, state⟩])
    (notComplete : other ≠ .complete)
    (isComplete : (if state = .complete then .complete else other) = DeletionState.complete) :
    Erased deletion stores := by
  by_cases complete : state = .complete
  · exact erasing.completed (complete ▸ isRecord)
  · rw [if_neg complete] at isComplete
    exact absurd isComplete notComplete

/-- A write of the record that is not its completion. -/
theorem withProgress (isRecord : stores.deletions.deletions = [⟨deletion, state⟩]) (notComplete : other ≠ .complete)
    (written : deletions.deletions = [⟨deletion, if state = .complete then .complete else other⟩]) :
    ErasingStep deletion stores { stores with deletions } := by
  exact erasing.withRecord ⟨state, isRecord⟩ written (erasing.erased_of_progress isRecord notComplete)

theorem recordFailure (now : Int) :
    ErasingStep deletion stores { stores with deletions := stores.deletions.recordFailure deletion now } := by
  rcases erasing.records with unrecorded | ⟨state, isRecord⟩
  · have unchanged : stores.deletions.recordFailure deletion now = stores.deletions := by
      rw [DeletionTables.recordFailure, DeletionTables.loadByIdempotency, unrecorded]
      rfl
    rw [unchanged]
    exact ⟨erasing, .refl _⟩
  · exact erasing.withProgress isRecord (by decide) (recordFailure_record isRecord now)

/-- A write of the object store alone. -/
theorem withObjects (kept : ObjectsErased deletion stores → ObjectsErased deletion { stores with objects })
    (holder : ∀ other, objects.tombstones.get? deletion.target.projectRef.key = some other →
      other = deletion.deletionId) : ErasingStep deletion stores { stores with objects } := by
  have keeps : KeepsErased deletion stores { stores with objects } :=
    ⟨id, kept, fun facts => { facts with }, fun control => { control with }⟩
  exact ⟨{ erasing with
    completed := fun isComplete => keeps.erased (erasing.completed isComplete), objectHolder := holder }, keeps⟩

theorem withFacts {facts : FactDatabase}
    (kept : FactsErased deletion stores → FactsErased deletion { stores with facts })
    (holder : ∀ other, facts.tombstones.get? deletion.target.projectRef.key = some other →
      other = deletion.deletionId) : ErasingStep deletion stores { stores with facts } := by
  have keeps : KeepsErased deletion stores { stores with facts } :=
    ⟨id, fun objects => { objects with }, kept, fun control => { control with }⟩
  exact ⟨{ erasing with
    completed := fun isComplete => keeps.erased (erasing.completed isComplete), factHolder := holder }, keeps⟩

/-- The purge of the object store erases it. -/
theorem purgeObjects : ∃ objects, stores.objects.deleteProjectObjects deletion = .ok objects ∧
      ObjectsErased deletion { stores with objects } := by
  obtain ⟨tombstones, installs, tombstone⟩ := installStoreTombstone_of_holder erasing.objectHolder
  rw [ObjectDatabase.deleteProjectObjects, installs]
  exact ⟨_, rfl, tombstone, .of_deleteWhere _ (fun _ _ isOf _ => decide_eq_true isOf),
    .of_deleteWhere _ fun _ _ isOf _ => decide_eq_true isOf⟩

theorem tearFiles (removed : List ObjectKey) :
    ErasingStep deletion stores { stores with objects := stores.objects.tearFiles deletion removed } := by
  unfold ObjectDatabase.tearFiles
  split
  · refine erasing.withObjects (fun erased => ?_) erasing.objectHolder
    exact ⟨erased.tombstone, erased.objects, erased.files.deleteWhere _⟩
  · exact ⟨erasing, .refl _⟩

theorem purgeFacts (full : deletion.isFullProjectDeletion = true) (jobs : List String) :
    ∃ facts, stores.facts.deleteUnpublishedFacts deletion jobs = .ok facts ∧
      FactsErased deletion { stores with facts } := by
  obtain ⟨tombstones, installs, tombstone⟩ := installStoreTombstone_of_holder erasing.factHolder
  obtain ⟨⟨project, isProject⟩, _⟩ := isFullProjectDeletion_covers full
  rw [FactDatabase.deleteUnpublishedFacts, installs]
  refine ⟨_, rfl, tombstone, .of_deleteWhere _ fun key _ isOf _ => ?_⟩
  simp [DeleteDataRequest.purgesBatch, DeleteDataRequest.isProject, isOf, isProject]

/-- A full deletion takes every job of the project and whatever it has published. -/
theorem purgeControl (full : deletion.isFullProjectDeletion = true)
    (isRecord : stores.deletions.deletions = [⟨deletion, state⟩])
    (written : deletions.deletions = [⟨deletion, if state = .complete then .complete else .running⟩])
    (jobs : List String) (factsRemain : Bool) (now : Int) :
    ControlErased deletion { stores with
        database := stores.database.deleteControlData deletion jobs factsRemain now, deletions } ∧
      ErasingStep deletion stores { stores with
        database := stores.database.deleteControlData deletion jobs factsRemain now, deletions } := by
  obtain ⟨⟨project, isProject⟩, covers⟩ := isFullProjectDeletion_covers full
  have tombstone := erasing.started ⟨state, isRecord⟩
  have erased : ControlErased deletion { stores with
      database := stores.database.deleteControlData deletion jobs factsRemain now, deletions } := by
    refine ⟨tombstone, .of_deleteWhere _ (fun key row isOf _ => ?_),
      .of_deleteWhere _ (fun key row isOf stored => ?_), .of_deleteWhere _ fun key row isOf stored => ?_⟩
    · cases kind : row.spec.kind <;> simp [DeleteDataRequest.deletesJob, isOf, isProject, kind, covers]
    · obtain ⟨domain, isDomain⟩ := erasing.placed.revisions key row stored
      cases domain <;> simp [DeleteDataRequest.purgesRevision, DeleteDataRequest.purgesMemory,
        DeleteDataRequest.inScope, DeleteDataRequest.isProject, isOf, isProject, isDomain, covers]
    · rcases erasing.placed.views key row stored with isDomain | isDomain <;>
        simp [purgesView, purgesMemory, inScope,
          DeleteDataRequest.isProject, isOf, isProject, isDomain, covers]
  refine ⟨erased, erasing.withControl written (erasing.erased_of_progress isRecord (by decide)) tombstone
    (fun _ => erased) ⟨fun key receipt found => ?_, fun key row found => ?_, fun key row found => ?_⟩⟩
  · have kept : (stores.database.publications.purge deletion).receipts.get? key = some receipt :=
      Table.get?_of_deleteWhere found
    exact erasing.placed.receipts key receipt (Table.get?_of_deleteWhere kept)
  · exact erasing.placed.revisions key row (Table.get?_of_deleteWhere found)
  · exact erasing.placed.views key row (Table.get?_of_deleteWhere found)

/-- A deletion can always begin: no tombstone of the project is another's. -/
theorem beginDeletion :
    ∃ next state, stores.beginDeletion deletion = .ok (next, ⟨deletion, state⟩) ∧ Recorded deletion next ∧
      ErasingStep deletion stores next ∧ (state = .complete → Erased deletion next) := by
  obtain ⟨tombstones, installs, tombstone⟩ := installStoreTombstone_of_holder erasing.controlHolder
  have installed : stores.database.control.installControlTombstone deletion =
      .ok { stores.database.control with tombstones } := by
    rw [ControlDatabase.installControlTombstone, installs]
    rfl
  have begun (deletions : DeletionTables) {state : DeletionState} (isRecord : deletions.deletions = [⟨deletion, state⟩])
      (complete : state = .complete → Erased deletion stores) :
      ErasingStep deletion stores { stores with
        database.control := { stores.database.control with tombstones }, deletions } :=
    erasing.withControl isRecord complete tombstone (fun control => { control with tombstone }) erasing.placed
  rcases erasing.records with unrecorded | ⟨state, isRecord⟩
  · have unknown : stores.deletions.loadByIdempotency deletion = none := by
      rw [loadByIdempotency, unrecorded]
      rfl
    have unnamed : stores.deletions.loadByDeletionId deletion = none := by
      rw [loadByDeletionId, unrecorded]
      rfl
    have isRecord :
        stores.deletions.deletions ++ [⟨deletion, .running⟩] = [(⟨deletion, .running⟩ : StoredDeletion)] := by
      rw [unrecorded]
      rfl
    have step := begun { stores.deletions with deletions := stores.deletions.deletions ++
      [⟨deletion, .running⟩] } isRecord nofun
    refine ⟨_, .running, ?_, ?_, step, nofun⟩
    · simp only [RemoteStores.beginDeletion, unknown, unnamed, installed]
      rfl
    · exact ⟨.running, isRecord⟩
  · have complete (isComplete : state = .complete) : Erased deletion stores := erasing.completed (isComplete ▸ isRecord)
    have step := begun stores.deletions isRecord complete
    refine ⟨_, state, ?_, ?_, step, step.keeps.erased ∘ complete⟩
    · simp only [RemoteStores.beginDeletion, loadByIdempotency_record isRecord, installed]
      rfl
    · exact ⟨state, isRecord⟩

end Erasing

/-! ## Its processes -/

/-- What a step of a process of the deletion leads to. -/
structure ProcessStep (deletion : DeleteDataRequest) (stores : RemoteStores) (after : DeletionPhase)
    (next : RemoteStores × DeletionProcess) : Prop extends ErasingStep deletion stores next.1 where
  own : next.2.request = deletion ∧ next.2.carried = deletion
  phase : next.2.phase = after
  knows : Knows deletion next.1 after

/-- A failed process stays so, and a complete one; any other comes nearer to completion. -/
def DeletionPhase.GoesTo (phase after : DeletionPhase) : Prop :=
  phase = .recordFailure ∨ phase = .refused ∨ phase = .complete ∧ after = .complete ∨ phase.rank < after.rank

theorem DeletionPhase.not_failed {phase after : DeletionPhase} (later : phase.rank < after.rank) :
    after ≠ .recordFailure ∧ after ≠ .refused := by
  constructor
  · rintro rfl
    exact absurd later (Nat.not_lt_zero _)
  · rintro rfl
    exact absurd later (Nat.not_lt_zero _)

theorem DeletionPhase.complete_of_rank {phase : DeletionPhase} (last : DeletionPhase.complete.rank ≤ phase.rank) :
    phase = .complete := by
  revert last
  cases phase <;> simp [rank]

private theorem accepts_full (full : deletion.isFullProjectDeletion = true) :
    (deletion.coverage.isEmpty || !deletion.isAcceptable) = false := by
  obtain ⟨⟨project, isProject⟩, covers⟩ := isFullProjectDeletion_covers full
  have covered := covers .uploadedSource
  rw [isAcceptable, isProject]
  cases coverage : deletion.coverage with
  | nil =>
    rw [DeleteDataRequest.covers, coverage] at covered
    cases covered
  | cons first rest => rfl

/-- A process of the deletion goes on with every transaction; none is refused. -/
private theorem advance_step (full : deletion.isFullProjectDeletion = true) (erasing : Erasing deletion stores)
    (own : process.request = deletion ∧ process.carried = deletion)
    (knows : Knows deletion stores process.phase) (now : Int) :
    ∃ after, process.phase.GoesTo after ∧ ProcessStep deletion stores after (process.advance stores now) := by
  obtain ⟨_, covers⟩ := isFullProjectDeletion_covers full
  obtain ⟨request, carried, phase, jobs, factsRemain⟩ := process
  obtain ⟨isRequest, isCarried⟩ := own
  dsimp only at isRequest isCarried knows
  subst isRequest isCarried
  have idle : ErasingStep carried stores stores := ⟨erasing, .refl _⟩
  have forward {phase after : DeletionPhase} (later : phase.rank < after.rank) : phase.GoesTo after :=
    .inr (.inr (.inr later))
  cases phase with
  | begin =>
    obtain ⟨next, state, begins, recorded, begun, complete⟩ := erasing.beginDeletion
    simp only [advance, accepts_full full, begins]
    by_cases isComplete : state = .complete
    · have erased := complete isComplete
      rw [if_pos isComplete]
      exact ⟨.releaseFacts, forward (by decide), begun, ⟨rfl, rfl⟩, rfl, ⟨nofun, nofun⟩, fun _ => recorded,
        fun _ => erased.objects, fun _ => erased.facts, fun _ => erased.control⟩
    · rw [if_neg isComplete]
      exact ⟨.listJobs, forward (by decide), begun, ⟨rfl, rfl⟩, rfl,
        knows.advance begun.keeps rfl ⟨nofun, nofun⟩ (fun _ => recorded) nofun nofun nofun⟩
  | listJobs | checkFacts =>
    exact ⟨_, forward (Nat.lt_succ_self _), idle, ⟨rfl, rfl⟩, rfl,
      knows.advance idle.keeps rfl ⟨nofun, nofun⟩ nofun nofun nofun nofun⟩
  | purgeObjects =>
    obtain ⟨objects, purges, erased⟩ := erasing.purgeObjects
    have purged := erasing.withObjects (fun _ => erased)
      (fun other held => Option.some.inj (held.symm.trans erased.tombstone))
    simp only [advance, covers, if_true, purges, Except.map, goOn]
    exact ⟨.recordObjects, forward (by decide), purged, ⟨rfl, rfl⟩, rfl,
      knows.advance purged.keeps rfl ⟨nofun, nofun⟩ nofun (fun _ => erased) nofun nofun⟩
  | recordObjects | recordFacts =>
    obtain ⟨state, isRecord⟩ := knows.recorded (by decide)
    obtain ⟨deletions, persists, written⟩ := persistProgress_record isRecord
    have persisted := erasing.withProgress isRecord (by decide) written
    simp only [advance, persists, Except.map, goOn]
    exact ⟨_, forward (Nat.lt_succ_self _), persisted, ⟨rfl, rfl⟩, rfl,
      knows.advance persisted.keeps rfl ⟨nofun, nofun⟩ nofun nofun nofun nofun⟩
  | purgeFacts =>
    obtain ⟨facts, purges, erased⟩ := erasing.purgeFacts full jobs
    have purged := erasing.withFacts (fun _ => erased)
      (fun other held => Option.some.inj (held.symm.trans erased.tombstone))
    simp only [advance, covers, if_true, purges, Except.map, goOn]
    exact ⟨.recordFacts, forward (by decide), purged, ⟨rfl, rfl⟩, rfl,
      knows.advance purged.keeps rfl ⟨nofun, nofun⟩ nofun nofun (fun _ => erased) nofun⟩
  | purgeControl =>
    obtain ⟨state, isRecord⟩ := knows.recorded (by decide)
    have audited : (stores.deletions.purgeAudit carried).deletions = [⟨carried, state⟩] := by
      unfold purgeAudit
      split <;> exact isRecord
    obtain ⟨deletions, persists, written⟩ := persistProgress_record audited
    obtain ⟨erased, purged⟩ := erasing.purgeControl full isRecord written jobs factsRemain now
    simp only [advance, persists, Except.map, goOn]
    exact ⟨.finish, forward (by decide), purged, ⟨rfl, rfl⟩, rfl,
      knows.advance purged.keeps rfl ⟨nofun, nofun⟩ nofun nofun nofun fun _ => erased⟩
  | finish =>
    obtain ⟨state, isRecord⟩ := knows.recorded (by decide)
    obtain ⟨deletions, finishes, written⟩ := finish_record isRecord now
    have finished := erasing.withRecord ⟨state, isRecord⟩ written
      (fun _ => ⟨knows.objects (by decide), knows.facts (by decide), knows.control (by decide)⟩)
    simp only [advance, finishes, Except.map, goOn]
    exact ⟨.releaseFacts, forward (by decide), finished, ⟨rfl, rfl⟩, rfl,
      knows.advance finished.keeps rfl ⟨nofun, nofun⟩ nofun nofun nofun nofun⟩
  | releaseFacts =>
    simp only [advance, full, if_true]
    exact ⟨.complete, forward (by decide), idle, ⟨rfl, rfl⟩, rfl, ⟨nofun, nofun⟩,
      fun _ => knows.recorded (by decide), fun _ => knows.objects (by decide), fun _ => knows.facts (by decide),
      fun _ => knows.control (by decide)⟩
  | releaseObjects => exact absurd rfl knows.keepsTombstones.1
  | releaseControl => exact absurd rfl knows.keepsTombstones.2
  | complete => exact ⟨.complete, .inr (.inr (.inl ⟨rfl, rfl⟩)), idle, ⟨rfl, rfl⟩, rfl, knows⟩
  | recordFailure => exact ⟨.refused, .inl rfl, erasing.recordFailure now, ⟨rfl, rfl⟩, rfl, .failed (.inr rfl)⟩
  | refused => exact ⟨.refused, .inr (.inl rfl), idle, ⟨rfl, rfl⟩, rfl, knows⟩

private theorem interrupt_step (erasing : Erasing deletion stores)
    (own : process.request = deletion ∧ process.carried = deletion) (knows : Knows deletion stores process.phase)
    (removed : List ObjectKey) : ∃ after, ProcessStep deletion stores after (process.interrupt stores removed) := by
  obtain ⟨request, carried, phase, jobs, factsRemain⟩ := process
  obtain ⟨isRequest, isCarried⟩ := own
  dsimp only at isRequest isCarried knows
  subst isRequest isCarried
  have idle : ErasingStep carried stores stores := ⟨erasing, .refl _⟩
  cases phase with
  | purgeObjects =>
    simp only [interrupt]
    split
    · exact ⟨_, erasing.tearFiles removed, ⟨rfl, rfl⟩, rfl, .failed (.inl rfl)⟩
    · exact ⟨_, idle, ⟨rfl, rfl⟩, rfl, .failed (.inl rfl)⟩
  | listJobs | recordObjects | purgeFacts | recordFacts | checkFacts | purgeControl =>
    exact ⟨_, idle, ⟨rfl, rfl⟩, rfl, .failed (.inl rfl)⟩
  | begin | finish | releaseFacts | releaseObjects | releaseControl | recordFailure =>
    exact ⟨_, idle, ⟨rfl, rfl⟩, rfl, .failed (.inr rfl)⟩
  | complete | refused => exact ⟨_, idle, ⟨rfl, rfl⟩, rfl, knows⟩

/-! ## Runs -/

/-- The deletion is the only one, and each of its processes knows what its phase says. -/
structure DeletionSystem.ErasingOnly (deletion : DeleteDataRequest) (system : DeletionSystem) : Prop where
  erasing : Erasing deletion system.stores
  processes : ∀ process ∈ system.processes, (process.request = deletion ∧ process.carried = deletion) ∧
    Knows deletion system.stores process.phase

/-- The only deletion that is requested. -/
def DeletionEvent.isOf (deletion : DeleteDataRequest) : DeletionEvent → Bool
  | .start request => request = deletion
  | .client _ | .advance .. | .interrupt .. => true

namespace DeletionSystem

variable {system : DeletionSystem}

section

variable (only : system.ErasingOnly deletion)

include only

theorem ErasingOnly.act (index : Nat) {action : DeletionProcess → RemoteStores → RemoteStores × DeletionProcess}
    (steps : ∀ process, system.processes[index]? = some process →
      ∃ after, ProcessStep deletion system.stores after (action process system.stores)) :
    (system.act index action).ErasingOnly deletion ∧
      KeepsErased deletion system.stores (system.act index action).stores := by
  unfold DeletionSystem.act
  cases found : system.processes[index]? with
  | none => exact ⟨only, .refl _⟩
  | some process =>
    obtain ⟨after, stepped⟩ := steps process found
    refine ⟨⟨stepped.erasing, fun other member => ?_⟩, stepped.keeps⟩
    rcases mem_or_eq_of_mem_set member with isOther | rfl
    · obtain ⟨own, knows⟩ := only.processes other isOther
      exact ⟨own, knows.keeps stepped.keeps⟩
    · exact ⟨stepped.own, stepped.phase ▸ stepped.knows⟩

variable {event : DeletionEvent} (full : deletion.isFullProjectDeletion = true)

include full

theorem ErasingOnly.step (codec : StoreCodec) (isOf : event.isOf deletion = true) :
    (system.step codec event).ErasingOnly deletion ∧
      KeepsErased deletion system.stores (system.step codec event).stores := by
  cases event with
  | client request =>
    let Kept (after : RemoteStores) : Prop :=
      (⟨after, system.processes⟩ : DeletionSystem).ErasingOnly deletion ∧ KeepsErased deletion system.stores after
    refine afterRequest_of_serves (P := Kept) ⟨only, .refl _⟩ fun next reply serves => ?_
    have keeps : KeepsErased deletion system.stores next := serves.keepsErased
    refine ⟨⟨serves.erasing only.erasing, fun process member => ?_⟩, keeps⟩
    obtain ⟨own, knows⟩ := only.processes process member
    exact ⟨own, knows.keeps keeps⟩
  | start request =>
    refine ⟨⟨only.erasing, fun process member => ?_⟩, .refl _⟩
    rcases mem_append.mp member with old | new
    · exact only.processes process old
    · rw [mem_singleton.mp new, of_decide_eq_true isOf]
      exact ⟨⟨rfl, rfl⟩, ⟨nofun, nofun⟩, nofun, nofun, nofun, nofun⟩
  | advance index now =>
    simp only [step]
    refine only.act index fun process found => ?_
    obtain ⟨own, knows⟩ := only.processes process (mem_of_getElem? found)
    obtain ⟨after, _, stepped⟩ := advance_step full only.erasing own knows now
    exact ⟨after, stepped⟩
  | interrupt index removed =>
    simp only [step]
    refine only.act index fun process found => ?_
    obtain ⟨own, knows⟩ := only.processes process (mem_of_getElem? found)
    exact interrupt_step only.erasing own knows removed

variable {events : List DeletionEvent}

theorem ErasingOnly.run (codec : StoreCodec) (areOf : ∀ event ∈ events, event.isOf deletion = true) :
    (Machine.run (DeletionSystem.step codec) system events).ErasingOnly deletion ∧
      KeepsErased deletion system.stores (Machine.run (DeletionSystem.step codec) system events).stores := by
  induction events generalizing system with
  | nil => exact ⟨only, .refl _⟩
  | cons event rest ih =>
    obtain ⟨isOf, restOf⟩ := forall_mem_cons.mp areOf
    obtain ⟨next, keeps⟩ := only.step full codec isOf
    obtain ⟨last, keepsOn⟩ := ih next restOf
    exact ⟨last, keeps.trans keepsOn⟩

/-- A process that has not failed and is not interrupted comes nearer to completion with each of its transactions. -/
theorem advances_run (codec : StoreCodec) {index : Nat} (found : system.processes[index]? = some process)
    (alive : process.phase ≠ .recordFailure ∧ process.phase ≠ .refused)
    (areOf : ∀ event ∈ events, event.isOf deletion = true)
    (undisturbed : ∀ event ∈ events, event.interrupts index = false) :
    ∃ after, (Machine.run (step codec) system events).processes[index]? = some after ∧
      (after.phase = .complete ∨ process.phase.rank + events.countP (·.advances index) ≤ after.phase.rank) := by
  induction events generalizing system process with
  | nil => exact ⟨process, found, .inr (Nat.le_refl _)⟩
  | cons event rest ih =>
    obtain ⟨isOf, restOf⟩ := forall_mem_cons.mp areOf
    obtain ⟨calm, restCalm⟩ := forall_mem_cons.mp undisturbed
    obtain ⟨after, isAfter, moves⟩ := system.step_moves codec found event
    have next := (only.step full codec isOf).1
    rw [run_cons, countP_cons]
    generalize (system.step codec event).stores = stores at moves
    cases moves with
    | still idle =>
      rw [idle]
      exact ih next isAfter alive restOf restCalm
    | advanced =>
      obtain ⟨own, knows⟩ := only.processes process (mem_of_getElem? found)
      obtain ⟨reached, goes, stepped⟩ := advance_step full only.erasing own knows _
      rw [← stepped.phase] at goes
      rcases goes with failed | refused | ⟨_, complete⟩ | later
      · exact absurd failed alive.1
      · exact absurd refused alive.2
      · obtain ⟨last, isLast, finished⟩ := ih next isAfter ⟨complete ▸ nofun, complete ▸ nofun⟩ restOf restCalm
        refine ⟨last, isLast, .inl (finished.elim id fun further => DeletionPhase.complete_of_rank ?_)⟩
        rw [complete] at further
        omega
      · obtain ⟨last, isLast, finished⟩ := ih next isAfter (DeletionPhase.not_failed later) restOf restCalm
        refine ⟨last, isLast, finished.imp_right fun further => ?_⟩
        split <;> omega
    | interrupted => simp [DeletionEvent.interrupts] at calm

end

theorem ErasingOnly.empty : empty.ErasingOnly deletion := ⟨Erasing.empty, nofun⟩

/-- A transaction of the deletion touches no other project. -/
theorem ErasingOnly.sameOutside {event : DeletionEvent} (codec : StoreCodec) (only : system.ErasingOnly deletion)
    (notClient : ∀ request, event ≠ .client request) :
    system.stores.SameOutside deletion.target.projectRef (system.step codec event).stores := by
  have carry : system.Carry := by
    intro process member
    obtain ⟨isRequest, isCarried⟩ := (only.processes process member).1
    rw [DeletionProcess.Carries, isCarried, isRequest]
  rcases (system.step_stepped codec carry _).2 notClient with same | ⟨process, member, other, sameIdentity, writes⟩
  · rw [same]
    exact .refl _
  · have target := (identity_eq_iff.mp sameIdentity).1
    rw [(only.processes process member).1.1] at target
    rw [← target]
    exact writes.sameOutside only.erasing.placed

end DeletionSystem

theorem DeletionWrites.placed (writes : DeletionWrites deletion stores next)
    (placed : stores.database.publications.Placed) : next.database.publications.Placed := by
  cases writes with
  | purgedControl =>
    refine ⟨fun key receipt found => ?_, fun key row found => ?_, fun key row found => ?_⟩
    · have kept : (stores.database.publications.purge deletion).receipts.get? key = some receipt :=
        Table.get?_of_deleteWhere found
      exact placed.receipts key receipt (Table.get?_of_deleteWhere kept)
    · exact placed.revisions key row (Table.get?_of_deleteWhere found)
    · exact placed.views key row (Table.get?_of_deleteWhere found)
  | _ => exact placed

/-- Each transaction of a deletion touches the project of its target only, whatever else runs. -/
theorem deletions_keep_to_projects (codec : StoreCodec) (events : List DeletionEvent) :
    EveryStep (step codec) (fun source event target => ∀ index process, source.processes[index]? = some process →
      (∃ now, event = .advance index now) ∨ (∃ removed, event = .interrupt index removed) →
        source.stores.SameOutside process.request.target.projectRef target.stores) .empty events := by
  have kept (source : DeletionSystem) event (inv : source.Carry ∧ source.stores.database.publications.Placed) :
      (source.step codec event).Carry ∧ (source.step codec event).stores.database.publications.Placed := by
    obtain ⟨carry, written⟩ := step_stepped codec inv.1 event
    refine ⟨carry, ?_⟩
    cases event with
    | client =>
      exact afterRequest_of_serves (P := (·.database.publications.Placed)) inv.2 fun _ _ serves => serves.placed inv.2
    | _ =>
      rcases written (fun _ => nofun) with same | ⟨_, _, _, _, writes⟩
      · exact same ▸ inv.2
      · exact writes.placed inv.2
  refine .of_preserved ⟨nofun, nofun, nofun, nofun⟩ kept (fun source _ inv index process found acts => ?_) events
  have carries := inv.1 process (mem_of_getElem? found)
  have same {result} (stepped : process.Stepped source.stores result) :
      source.stores.SameOutside process.request.target.projectRef result.1 := by
    obtain ⟨_, identity, writes⟩ := stepped.writes
    exact (identity_eq_iff.mp identity).1 ▸ writes.sameOutside inv.2
  rcases acts with ⟨now, rfl⟩ | ⟨removed, rfl⟩ <;> simp only [step, act, found]
  · exact same (advance_stepped carries now)
  · exact same (interrupt_stepped carries removed)

/-- A full deletion of a project in every interleaving with clients and with its own retries. Once one of its processes
has returned that it is complete, the project is erased for good. None of its steps touches another project. Wherever
earlier attempts have stopped, a retry with the same request is complete after ten transactions of its own. -/
theorem project_erased (codec : StoreCodec) (deletion : DeleteDataRequest)
    (full : deletion.isFullProjectDeletion = true)
    (events : List DeletionEvent) (areOf : ∀ event ∈ events, event.isOf deletion = true) :
    (∀ process ∈ (run (step codec) .empty events).processes, process.phase = .complete →
      ∀ later : List DeletionEvent, (∀ event ∈ later, event.isOf deletion = true) →
        Erased deletion (run (step codec) .empty (events ++ later)).stores) ∧
    EveryStep (step codec) (fun source event target => (∀ request, event ≠ .client request) →
      source.stores.SameOutside deletion.target.projectRef target.stores) .empty events ∧
    ∀ later : List DeletionEvent, (∀ event ∈ later, event.isOf deletion = true) →
      (∀ event ∈ later, event.interrupts (run (step codec) .empty events).processes.length = false) →
      10 ≤ later.countP (·.advances (run (step codec) .empty events).processes.length) →
      ((run (DeletionSystem.step codec) .empty (events ++ .start deletion :: later)).processes[
        (run (DeletionSystem.step codec) .empty events).processes.length]?).map (·.phase) = some .complete := by
  obtain ⟨only, _⟩ := DeletionSystem.ErasingOnly.empty.run full codec areOf
  refine ⟨fun process member isComplete later laterOf => ?_, ?_, fun later laterOf undisturbed advances => ?_⟩
  · have knows := (only.processes process member).2
    rw [isComplete] at knows
    obtain ⟨_, keeps⟩ := only.run full codec laterOf
    rw [run_append]
    exact keeps.erased ⟨knows.objects (by decide), knows.facts (by decide), knows.control (by decide)⟩
  · have requested : EveryStep (step codec) (fun _ event _ => event.isOf deletion = true) .empty events :=
      EveryStep.of_mem (P := fun _ event _ => event.isOf deletion = true) (fun event member _ => areOf event member) _
    exact requested.of_invariant DeletionSystem.ErasingOnly.empty
      (fun _ _ current isOf => (current.step full codec isOf).1) fun _ _ current _ => current.sameOutside codec
  · have isOf : (DeletionEvent.start deletion).isOf deletion = true := decide_eq_true rfl
    obtain ⟨restarted, _⟩ := only.step full codec isOf
    rw [run_append, run_cons]
    obtain ⟨last, isLast, finished⟩ := advances_run restarted full codec
      (getElem?_concat_length ..) ⟨nofun, nofun⟩ laterOf undisturbed
    rw [isLast, Option.map_some, Option.some.injEq]
    refine finished.elim id fun further => ?_
    obtain ⟨ended, _⟩ := restarted.run full codec laterOf
    have keepsTombstones := (ended.processes last (mem_of_getElem? isLast)).2.keepsTombstones
    have released : DeletionPhase.releaseObjects.rank ≤ last.phase.rank :=
      Nat.le_trans advances (Nat.le_trans (Nat.le_add_left _ _) further)
    revert released keepsTombstones
    cases last.phase <;> simp [DeletionPhase.rank]

def erasureRequest : DeleteDataRequest := ⟨"deletion-1", .project exampleProject, RetentionClass.all⟩

/-- The object is uploaded, a first attempt stops when some files are gone, and a retry is complete. -/
theorem project_erased_retried : ((run (step exampleCodec) .empty
        ([.client (.putObject ⟨10, 100, 10⟩ exampleProject ⟨"content", [1, 2, 3]⟩), .start erasureRequest,
          .advance 0 (atSecond 1), .advance 0 (atSecond 1), .interrupt 0 [objectKey exampleProject "content"]] ++
        .start erasureRequest :: List.replicate 10 (.advance 1 (atSecond 2)))).processes[1]?).map (·.phase) =
      some .complete :=
  (project_erased exampleCodec erasureRequest (by decide) _ (by decide)).2.2 _ (by decide) (by decide) (by decide)

end Ferrus.Distributed

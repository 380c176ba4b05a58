import Ferrus.Model.Distributed.DeletionService
import Ferrus.Proofs.ClientSteps

/-! # What a deletion writes

`DeletionWrites` lists what one transaction of a deletion may do to the stores, whatever its phase. All of
it stays in the project of the deletion.
-/

namespace Ferrus.Distributed

open DeleteDataRequest ControlDatabase DeletionTables DeletionProcess Except List

/-! ## Identities -/

/-- Requests of one identity have the same target and cover the same classes. -/
theorem DeleteDataRequest.identity_eq_iff {first second : DeleteDataRequest} : first.identity = second.identity ↔
      first.target = second.target ∧ ∀ retention, first.covers retention = second.covers retention := by
  simp only [identity, DeletionIdentity.mk.injEq]
  refine and_congr_right fun _ => ⟨fun same retention => ?_, fun same => filter_congr fun retention _ => same retention⟩
  have listed : retention ∈ RetentionClass.all := by cases retention <;> decide
  have members (deletion : DeleteDataRequest) :
      retention ∈ RetentionClass.all.filter deletion.covers ↔ deletion.covers retention = true := by
    rw [mem_filter, and_iff_right listed]
  exact Bool.eq_iff_iff.mpr ((members first).symm.trans (same ▸ members second))

variable {deletion : DeleteDataRequest} {stored : StoredDeletion}

theorem DeletionTables.loadByIdempotency_eq_some {tables : DeletionTables}
    (found : tables.loadByIdempotency deletion = some stored) :
    stored ∈ tables.deletions ∧ stored.request.identity = deletion.identity := by
  have same := find?_some found
  exact ⟨mem_of_find?_eq_some found, of_decide_eq_true same⟩

/-! ## The records of other projects -/

/-- The records of other projects are the same. -/
structure DeletionTables.SameOutside (project : RemoteProjectRef) (old new : DeletionTables) : Prop where
  deletions : ∀ stored : StoredDeletion, stored.request.target.projectRef ≠ project →
    (stored ∈ new.deletions ↔ stored ∈ old.deletions)
  auditRecords : ∀ record : AuditRecord, record.event.target.projectRef ≠ project →
    (record ∈ new.auditRecords ↔ record ∈ old.auditRecords)

namespace DeletionTables

variable {tables next : DeletionTables} {deletion : DeleteDataRequest} {project : RemoteProjectRef}

theorem SameOutside.refl (tables : DeletionTables) : SameOutside project tables tables :=
  ⟨fun _ _ => Iff.rfl, fun _ _ => Iff.rfl⟩

theorem SameOutside.trans {first middle last : DeletionTables} (left : SameOutside project first middle)
    (right : SameOutside project middle last) : SameOutside project first last :=
  ⟨fun stored outside => (right.deletions stored outside).trans (left.deletions stored outside),
    fun record outside => (right.auditRecords record outside).trans (left.auditRecords record outside)⟩

theorem setState_sameOutside (tables : DeletionTables) (state : DeletionState)
    (scope : deletion.target.projectRef = project) : SameOutside project tables (tables.setState deletion state) := by
  refine ⟨fun stored outside => ?_, fun _ _ => Iff.rfl⟩
  have untouched (other : StoredDeletion) (isOutside : other.request.target.projectRef ≠ project) :
      hasId deletion other = false := by
    simp [hasId, scope, isOutside]
  simp only [setState, mem_map]
  constructor
  · rintro ⟨other, member, isStored⟩
    split at isStored
    · next chosen =>
      subst isStored
      rw [untouched other outside] at chosen
      cases chosen
    · exact isStored ▸ member
  · intro member
    exact ⟨stored, member, by simp [untouched stored outside]⟩

theorem persistAudit_sameOutside (tables : DeletionTables) {record : AuditRecord}
    (scope : record.event.target.projectRef = project) : SameOutside project tables (tables.persistAudit record) := by
  refine ⟨fun _ _ => Iff.rfl, fun other outside => ?_⟩
  have different : other.event ≠ record.event := fun same => outside (same ▸ scope)
  have notIt : other ≠ record := fun same => different (congrArg _ same)
  simp [persistAudit, different, notIt]

theorem purgeAudit_sameOutside (tables : DeletionTables) (scope : deletion.target.projectRef = project) :
    SameOutside project tables (tables.purgeAudit deletion) := by
  unfold purgeAudit
  split
  · refine ⟨fun _ _ => Iff.rfl, fun record outside => ?_⟩
    have kept : record.isOf deletion.target = false := by
      unfold AuditRecord.isOf
      cases target : deletion.target with
      | project owner =>
        rw [target] at scope
        simp only [DeletionTarget.projectRef] at scope
        simp [scope, outside]
      | repository repository =>
        rw [target] at scope
        refine decide_eq_false fun same => outside ?_
        rw [same]
        exact scope
    simp [kept]
  · exact .refl tables

theorem persistProgress_auditRecords (persists : tables.persistProgress deletion = .ok next) :
    next.auditRecords = tables.auditRecords := by
  unfold persistProgress at persists
  split at persists
  · cases persists
  · cases persists
    rfl

theorem persistProgress_sameOutside (persists : tables.persistProgress deletion = .ok next)
    (scope : deletion.target.projectRef = project) : SameOutside project tables next := by
  unfold persistProgress at persists
  split at persists
  · cases persists
  · next current found =>
    cases persists
    have same := (loadByIdempotency_eq_some found).2
    exact setState_sameOutside tables _ ((identity_eq_iff.mp same).1 ▸ scope)

theorem finish_sameOutside {now : Int} (finishes : tables.finish deletion now = .ok next)
    (scope : deletion.target.projectRef = project) : SameOutside project tables next := by
  unfold finish at finishes
  split at finishes
  · cases finishes
  · next current found =>
    cases finishes
    have same := (loadByIdempotency_eq_some found).2
    exact (persistAudit_sameOutside tables scope).trans
      (setState_sameOutside _ _ ((identity_eq_iff.mp same).1 ▸ scope))

theorem recordFailure_sameOutside (tables : DeletionTables) (now : Int) (scope : deletion.target.projectRef = project) :
    SameOutside project tables (tables.recordFailure deletion now) := by
  unfold recordFailure
  split
  · exact .refl tables
  · next current found =>
    split
    · exact .refl tables
    · have same := (loadByIdempotency_eq_some found).2
      exact (persistAudit_sameOutside tables scope).trans
        (setState_sameOutside _ _ ((identity_eq_iff.mp same).1 ▸ scope))

end DeletionTables

/-! ## One transaction -/

/-- What a transaction of a deletion does to the stores. -/
inductive DeletionWrites (deletion : DeleteDataRequest) (stores : RemoteStores) : RemoteStores → Prop
  | kept : DeletionWrites deletion stores stores
  | begun {control : ControlDatabase} {deletions : DeletionTables}
      (installs : stores.database.control.installControlTombstone deletion = .ok control)
      (records : stores.deletions.SameOutside deletion.target.projectRef deletions) :
      DeletionWrites deletion stores { stores with database.control := control, deletions }
  | recorded {deletions : DeletionTables}
      (records : stores.deletions.SameOutside deletion.target.projectRef deletions) :
      DeletionWrites deletion stores { stores with deletions }
  | purgedObjects {objects : ObjectDatabase} (purges : stores.objects.deleteProjectObjects deletion = .ok objects) :
      DeletionWrites deletion stores { stores with objects }
  | tornFiles {removed : List ObjectKey} :
      DeletionWrites deletion stores { stores with objects := stores.objects.tearFiles deletion removed }
  | purgedFacts {jobs : List String} {facts : FactDatabase}
      (purges : stores.facts.deleteUnpublishedFacts deletion jobs = .ok facts) :
      DeletionWrites deletion stores { stores with facts }
  | purgedControl {jobs : List String} {factsRemain : Bool} {now : Int} {deletions : DeletionTables}
      (records : stores.deletions.SameOutside deletion.target.projectRef deletions) :
      DeletionWrites deletion stores
        { stores with database := stores.database.deleteControlData deletion jobs factsRemain now, deletions }
  | releasedFacts : DeletionWrites deletion stores
      { stores with facts.tombstones := releaseStoreTombstone stores.facts.tombstones deletion }
  | releasedObjects : DeletionWrites deletion stores
      { stores with objects.tombstones := releaseStoreTombstone stores.objects.tombstones deletion }
  | releasedControl : DeletionWrites deletion stores
      { stores with database.control.tombstones := releaseStoreTombstone stores.database.control.tombstones deletion }

namespace DeletionProcess

variable {process : DeletionProcess} {stores : RemoteStores}

theorem beginDeletion_writes {next : RemoteStores} (begins : stores.beginDeletion deletion = .ok (next, stored)) :
    stored.request.identity = deletion.identity ∧ DeletionWrites stored.request stores next := by
  unfold RemoteStores.beginDeletion at begins
  split at begins
  · next existing found =>
    obtain ⟨control, installs, same⟩ := map_eq_ok_iff.mp begins
    cases same
    exact ⟨(loadByIdempotency_eq_some found).2, .begun installs (.refl _)⟩
  · split_ifs at begins
    obtain ⟨control, installs, same⟩ := map_eq_ok_iff.mp begins
    cases same
    refine ⟨rfl, .begun installs ⟨fun other outside => ?_, fun _ _ => Iff.rfl⟩⟩
    simp only [mem_append, mem_singleton, or_iff_left_iff_imp]
    rintro rfl
    exact absurd rfl outside

/-- Only the record of an earlier deletion is complete when it is found. -/
theorem beginDeletion_complete {next : RemoteStores} (begins : stores.beginDeletion deletion = .ok (next, stored))
    (isComplete : stored.state = .complete) : stores.deletions.loadByIdempotency deletion = some stored := by
  unfold RemoteStores.beginDeletion at begins
  split at begins
  · next existing found =>
    obtain ⟨control, _, same⟩ := map_eq_ok_iff.mp begins
    cases same
    exact found
  · split_ifs at begins
    obtain ⟨control, _, same⟩ := map_eq_ok_iff.mp begins
    cases same
    cases isComplete

/-- What a process carries out is what it was asked for. -/
def Carries (process : DeletionProcess) : Prop := process.carried.identity = process.request.identity

/-- A step writes what the process was asked for, which it carries out afterwards as well. -/
structure Stepped (process : DeletionProcess) (stores : RemoteStores) (result : RemoteStores × DeletionProcess) :
    Prop where
  writes : ∃ deletion : DeleteDataRequest, deletion.identity = process.request.identity ∧
    DeletionWrites deletion stores result.1
  carries : result.2.Carries

section

variable (carries : process.Carries)

include carries

/-- A step that may fail writes what it writes when it does not. -/
theorem goOn_stepped {result : Except MaintenanceStoreError RemoteStores} {next onError : DeletionPhase}
    (writes : ∀ after, result = .ok after → DeletionWrites process.carried stores after) :
    process.Stepped stores (process.goOn stores result next onError) := by
  unfold goOn
  split
  · next after => exact ⟨⟨_, carries, writes after rfl⟩, carries⟩
  · exact ⟨⟨_, carries, .kept⟩, carries⟩

theorem advance_stepped (now : Int) : process.Stepped stores (process.advance stores now) := by
  have scope : process.carried.target = process.request.target := (identity_eq_iff.mp carries).1
  unfold advance
  cases process.phase with
  | begin =>
    dsimp only
    split_ifs
    · exact ⟨⟨_, carries, .kept⟩, carries⟩
    · split
      · next begins =>
        obtain ⟨same, writes⟩ := beginDeletion_writes begins
        exact ⟨⟨_, same, writes⟩, same⟩
      · exact ⟨⟨_, carries, .kept⟩, carries⟩
  | listJobs | checkFacts | complete | refused => exact ⟨⟨_, carries, .kept⟩, carries⟩
  | purgeObjects =>
    dsimp only
    split
    · refine goOn_stepped carries fun after result => ?_
      obtain ⟨objects, purges, rfl⟩ := map_eq_ok_iff.mp result
      exact .purgedObjects purges
    · exact ⟨⟨_, carries, .kept⟩, carries⟩
  | recordObjects | recordFacts =>
    refine goOn_stepped carries fun after result => ?_
    obtain ⟨deletions, persists, rfl⟩ := map_eq_ok_iff.mp result
    exact .recorded (persistProgress_sameOutside persists rfl)
  | purgeFacts =>
    dsimp only
    split
    · refine goOn_stepped carries fun after result => ?_
      obtain ⟨facts, purges, rfl⟩ := map_eq_ok_iff.mp result
      exact .purgedFacts purges
    · exact ⟨⟨_, carries, .kept⟩, carries⟩
  | purgeControl =>
    refine goOn_stepped carries fun after result => ?_
    obtain ⟨deletions, persists, rfl⟩ := map_eq_ok_iff.mp result
    exact .purgedControl ((purgeAudit_sameOutside _ rfl).trans (persistProgress_sameOutside persists rfl))
  | finish =>
    refine goOn_stepped carries fun after result => ?_
    obtain ⟨deletions, finishes, rfl⟩ := map_eq_ok_iff.mp result
    exact .recorded (finish_sameOutside finishes (congrArg _ scope.symm))
  | releaseFacts =>
    dsimp only
    split_ifs
    · exact ⟨⟨_, carries, .kept⟩, carries⟩
    · exact ⟨⟨_, carries, .releasedFacts⟩, carries⟩
    · exact ⟨⟨_, carries, .kept⟩, carries⟩
  | releaseObjects =>
    dsimp only
    split_ifs
    · exact ⟨⟨_, carries, .releasedObjects⟩, carries⟩
    · exact ⟨⟨_, carries, .kept⟩, carries⟩
  | releaseControl => exact ⟨⟨_, carries, .releasedControl⟩, carries⟩
  | recordFailure =>
    exact ⟨⟨_, carries, .recorded (recordFailure_sameOutside _ now (congrArg _ scope.symm))⟩, carries⟩

theorem interrupt_stepped (removed : List ObjectKey) : process.Stepped stores (process.interrupt stores removed) := by
  unfold interrupt
  cases process.phase with
  | purgeObjects =>
    split_ifs
    · exact ⟨⟨_, carries, .tornFiles⟩, carries⟩
    · exact ⟨⟨_, carries, .kept⟩, carries⟩
  | _ => exact ⟨⟨_, carries, .kept⟩, carries⟩

end

end DeletionProcess

/-! ## The data of other projects -/

/-- A receipt is of the project of its job; revisions are of one of the domains, views of one that has views. -/
structure PublicationTables.Placed (tables : PublicationTables) : Prop where
  receipts : ∀ key receipt, tables.receipts.get? key = some receipt → ScopedKey.project receipt.target = projectOf key
  revisions : ∀ key row, tables.revisions.get? key = some row →
    ∃ domain, ScopedKey.domain key = PublicationDomain.column domain
  views : ∀ key row, tables.views.get? key = some row →
    ScopedKey.domain key = PublicationDomain.repositoryGraph.column ∨
      ScopedKey.domain key = PublicationDomain.projectMemory.column

/-- Whatever the stores hold of other projects is the same. -/
structure RemoteStores.SameOutside (project : RemoteProjectRef) (old new : RemoteStores) : Prop where
  jobs : Table.AgreesOn (projectOf · ≠ project.key) old.database.control.jobs new.database.control.jobs
  advanceReceipts : ∀ receipt : AdvanceReceipt, projectOf receipt.key ≠ project.key →
    (receipt ∈ new.database.control.advanceReceipts ↔ receipt ∈ old.database.control.advanceReceipts)
  failureReceipts : ∀ receipt : FailureReceipt, projectOf receipt.key ≠ project.key →
    (receipt ∈ new.database.control.failureReceipts ↔ receipt ∈ old.database.control.failureReceipts)
  controlTombstones : Table.AgreesOn (· ≠ project.key) old.database.control.tombstones new.database.control.tombstones
  revisions : Table.AgreesOn (ScopedKey.project · ≠ project.key) old.database.publications.revisions
    new.database.publications.revisions
  snapshotMetadata : Table.AgreesOn (ScopedKey.project · ≠ project.key) old.database.publications.snapshotMetadata
    new.database.publications.snapshotMetadata
  publishedTargets : Table.AgreesOn (ScopedKey.project · ≠ project.key) old.database.publications.publishedTargets
    new.database.publications.publishedTargets
  receipts : Table.AgreesOn (projectOf · ≠ project.key) old.database.publications.receipts
    new.database.publications.receipts
  views : Table.AgreesOn (ScopedKey.project · ≠ project.key) old.database.publications.views
    new.database.publications.views
  linkSets : Table.AgreesOn (fun key : LinkSetKey => (ofLex key).1 ≠ project.key) old.database.publications.linkSets
    new.database.publications.linkSets
  batches : Table.AgreesOn (BatchKey.project · ≠ project.key) old.facts.batches new.facts.batches
  factTombstones : Table.AgreesOn (· ≠ project.key) old.facts.tombstones new.facts.tombstones
  objects : Table.AgreesOn (ObjectKey.project · ≠ project.key) old.objects.objects new.objects.objects
  files : Table.AgreesOn (ObjectKey.project · ≠ project.key) old.objects.files new.objects.files
  objectTombstones : Table.AgreesOn (· ≠ project.key) old.objects.tombstones new.objects.tombstones
  deletions : old.deletions.SameOutside project new.deletions

open RemoteStores.SameOutside

theorem RemoteStores.SameOutside.refl {project : RemoteProjectRef} (stores : RemoteStores) :
    stores.SameOutside project stores :=
  ⟨.refl _, fun _ _ => Iff.rfl, fun _ _ => Iff.rfl, .refl _, .refl _, .refl _, .refl _, .refl _, .refl _, .refl _,
    .refl _, .refl _, .refl _, .refl _, .refl _, .refl _⟩

section OtherProjects

variable {deletion : DeleteDataRequest}

private theorem installStoreTombstone_agrees {tombstones next : Table ProjectKey String}
    (installs : installStoreTombstone tombstones deletion = .ok next) :
    Table.AgreesOn (· ≠ deletion.target.projectRef.key) tombstones next := by
  unfold installStoreTombstone at installs
  split at installs
  · split_ifs at installs
    cases installs
    exact .refl _
  · cases installs
    exact .insertNew _ (not_not_intro rfl)

private theorem releaseStoreTombstone_agrees (tombstones : Table ProjectKey String) :
    Table.AgreesOn (· ≠ deletion.target.projectRef.key) tombstones (releaseStoreTombstone tombstones deletion) :=
  .deleteWhere fun key _ outside _ => by simp [outside]

private theorem deleteControlData_agrees (db : ControlDatabase) (jobs : List String) (dataRemains : Bool) (now : Int) :
    Table.AgreesOn (projectOf · ≠ deletion.target.projectRef.key) db.jobs
      (db.deleteControlData deletion jobs dataRemains now).jobs := by
  refine Table.AgreesOn.trans (.updateWhere _ (fun key _ outside => ?_)) (.deleteWhere fun key _ outside _ => ?_)
  · simp [cancelsJob, outside]
  · simp [deletesJob, outside]

/-- No job of another project is deleted, so none of its receipts is. -/
private theorem mem_deleteControlData {db : ControlDatabase} {jobs : List String} {dataRemains : Bool} {now : Int}
    {key : JobKey} (outside : projectOf key ≠ deletion.target.projectRef.key) :
    key ∉ (((db.cancelCoveredJobs deletion jobs now).jobs.select (deletion.deletesJob jobs dataRemains)).map
      (·.1)) := by
  intro member
  obtain ⟨⟨key, row⟩, selected, rfl⟩ := mem_map.mp member
  have chosen := (Table.mem_select _).mp selected
  simp [deletesJob, outside] at chosen

theorem DeletionWrites.sameOutside {stores next : RemoteStores} (writes : DeletionWrites deletion stores next)
    (placed : stores.database.publications.Placed) : stores.SameOutside deletion.target.projectRef next := by
  cases writes with
  | kept => exact .refl _
  | begun installs records =>
    obtain ⟨tombstones, installed, rfl⟩ := map_eq_ok_iff.mp installs
    exact { refl stores with
      controlTombstones := installStoreTombstone_agrees installed, deletions := records }
  | recorded records => exact { refl stores with deletions := records }
  | purgedObjects purges =>
    obtain ⟨tombstones, installs, rfl⟩ := map_eq_ok_iff.mp purges
    exact { refl stores with
      objects := .deleteWhere fun key _ outside _ => decide_eq_false outside
      files := .deleteWhere fun key _ outside _ => decide_eq_false outside
      objectTombstones := installStoreTombstone_agrees installs }
  | tornFiles =>
    unfold ObjectDatabase.tearFiles
    split
    · exact { refl stores with
        files := .deleteWhere (fun key _ outside _ => by simp [outside]) }
    · exact .refl _
  | purgedFacts purges =>
    obtain ⟨tombstones, installs, rfl⟩ := map_eq_ok_iff.mp purges
    exact { refl stores with
      batches := .deleteWhere fun key _ outside _ => by simp [purgesBatch, outside]
      factTombstones := installStoreTombstone_agrees installs }
  | purgedControl records =>
    refine { refl stores with
      jobs := deleteControlData_agrees _ _ _ _
      advanceReceipts := fun receipt outside => ?_
      failureReceipts := fun receipt outside => ?_
      revisions := .deleteWhere fun key _ outside _ => by simp [purgesRevision, outside]
      snapshotMetadata := .deleteWhere fun key _ outside _ => by simp [purgesRevision, outside]
      publishedTargets := .deleteWhere fun key _ outside _ => by simp [purgesRevision, outside]
      receipts := Table.AgreesOn.trans (.deleteWhere fun key receipt outside stored => ?_)
        (.deleteWhere fun key receipt outside _ => ?_)
      views := .deleteWhere fun key _ outside _ => by simp [purgesView, outside]
      linkSets := .deleteWhere fun key _ outside _ => by simp [purgesLinkSet, outside]
      deletions := records }
    · simp only [RemoteDatabase.deleteControlData, deleteControlData, deleteJobs,
        mem_filter, decide_eq_true_eq, mem_deleteControlData outside, not_false_eq_true, and_true]
      rfl
    · simp only [RemoteDatabase.deleteControlData, deleteControlData, deleteJobs,
        mem_filter, decide_eq_true_eq, mem_deleteControlData outside, not_false_eq_true, and_true]
      rfl
    · simp [purgesRevision, placed.receipts key receipt stored, outside]
    · have same (jobs : List String) (dataRemains : Bool) (now : Int) :=
        deleteControlData_agrees stores.database.control jobs dataRemains now key outside
      simp only [job?, same, Bool.and_eq_false_iff, Option.isNone_eq_false_iff, Option.isSome_eq_false_iff]
      cases stores.database.control.jobs.get? key <;> simp
  | releasedFacts =>
    exact { refl stores with factTombstones := releaseStoreTombstone_agrees _ }
  | releasedObjects =>
    exact { refl stores with objectTombstones := releaseStoreTombstone_agrees _ }
  | releasedControl =>
    exact { refl stores with controlTombstones := releaseStoreTombstone_agrees _ }

end OtherProjects

/-! ## One process of the system -/

/-- The place of a phase on the way to completion; a failed deletion is on no way. -/
def DeletionPhase.rank : DeletionPhase → Nat
  | begin | recordFailure | refused => 0
  | listJobs => 1
  | purgeObjects => 2
  | recordObjects => 3
  | purgeFacts => 4
  | recordFacts => 5
  | checkFacts => 6
  | purgeControl => 7
  | finish => 8
  | releaseFacts => 9
  | releaseObjects => 10
  | releaseControl => 11
  | complete => 12

/-- The event is a transaction of the process, or its failure. -/
def DeletionEvent.advances (index : Nat) : DeletionEvent → Bool
  | .advance other _ => other = index
  | .client _ | .start _ | .interrupt .. => false

def DeletionEvent.interrupts (index : Nat) : DeletionEvent → Bool
  | .interrupt other _ => other = index
  | .client _ | .start _ | .advance .. => false

/-- What a step of the system does to one of its processes. -/
inductive DeletionSystem.Moves (index : Nat) (system : DeletionSystem) (process : DeletionProcess) :
    DeletionEvent → RemoteStores → DeletionProcess → Prop
  | still {event : DeletionEvent} {stores : RemoteStores} (idle : event.advances index = false) :
      Moves index system process event stores process
  | advanced {now : Int} : Moves index system process (.advance index now) (process.advance system.stores now).1
      (process.advance system.stores now).2
  | interrupted {removed : List ObjectKey} : Moves index system process (.interrupt index removed)
      (process.interrupt system.stores removed).1 (process.interrupt system.stores removed).2

theorem DeletionSystem.step_moves (codec : StoreCodec) {system : DeletionSystem} {index : Nat}
    {process : DeletionProcess} (found : system.processes[index]? = some process) (event : DeletionEvent) :
    ∃ after, (system.step codec event).processes[index]? = some after ∧
      system.Moves index process event (system.step codec event).stores after := by
  have inRange := (List.getElem?_eq_some_iff.mp found).1
  -- the step of another process sets another place of the list
  have elsewhere (other : Nat) (differs : other ≠ index)
      (action : DeletionProcess → RemoteStores → RemoteStores × DeletionProcess) :
      (system.act other action).processes[index]? = some process := by
    unfold act
    split
    · exact found
    · exact (getElem?_set_ne differs).trans found
  have itself (action : DeletionProcess → RemoteStores → RemoteStores × DeletionProcess) :
      system.act index action =
        ⟨(action process system.stores).1, system.processes.set index (action process system.stores).2⟩ := by
    simp only [act, found]
  cases event with
  | client request => exact ⟨process, found, .still rfl⟩
  | start request => exact ⟨process, (getElem?_append_left inRange).trans found, .still rfl⟩
  | advance other now =>
    by_cases own : other = index
    · subst own
      simp only [step, itself]
      exact ⟨_, getElem?_set_self inRange, .advanced⟩
    · exact ⟨process, elsewhere other own _, .still (decide_eq_false own)⟩
  | interrupt other removed =>
    by_cases own : other = index
    · subst own
      simp only [step, itself]
      exact ⟨_, getElem?_set_self inRange, .interrupted⟩
    · exact ⟨process, elsewhere other own _, .still rfl⟩

namespace DeletionSystem

variable {system : DeletionSystem}

/-- Every process carries out what it was asked for. -/
def Carry (system : DeletionSystem) : Prop := ∀ process ∈ system.processes, process.Carries

/-- A step of one of the processes, which may not exist. -/
theorem act_stepped (carry : system.Carry) (index : Nat)
    {action : DeletionProcess → RemoteStores → RemoteStores × DeletionProcess}
    (stepped : ∀ process : DeletionProcess, process.Carries →
      process.Stepped system.stores (action process system.stores)) : (system.act index action).Carry ∧
      ((system.act index action).stores = system.stores ∨ ∃ process ∈ system.processes, ∃ deletion : DeleteDataRequest,
        deletion.identity = process.request.identity ∧
          DeletionWrites deletion system.stores (system.act index action).stores) := by
  unfold DeletionSystem.act
  cases found : system.processes[index]? with
  | none => exact ⟨carry, .inl rfl⟩
  | some process =>
    have member := mem_of_getElem? found
    obtain ⟨writes, carries⟩ := stepped process (carry process member)
    refine ⟨fun other isMember => ?_, .inr ⟨process, member, writes⟩⟩
    rcases mem_or_eq_of_mem_set isMember with isOther | rfl
    · exact carry other isOther
    · exact carries

/-- A step that is no client's is a transaction of one of the deletions, or it leaves the stores. -/
theorem step_stepped (codec : StoreCodec) (carry : system.Carry) (event : DeletionEvent) :
    (system.step codec event).Carry ∧ ((∀ request, event ≠ .client request) →
      (system.step codec event).stores = system.stores ∨ ∃ process ∈ system.processes, ∃ deletion : DeleteDataRequest,
        deletion.identity = process.request.identity ∧
          DeletionWrites deletion system.stores (system.step codec event).stores) := by
  cases event with
  | client request => exact ⟨carry, fun notClient => absurd rfl (notClient request)⟩
  | start request =>
    refine ⟨fun process member => ?_, fun _ => .inl rfl⟩
    rcases mem_append.mp member with old | new
    · exact carry process old
    · rw [mem_singleton.mp new]
      rfl
  | advance index now =>
    exact (act_stepped carry index (fun _ carries => advance_stepped carries now)).imp_right fun writes _ => writes
  | interrupt index removed =>
    exact (act_stepped carry index (fun _ carries => interrupt_stepped carries removed)).imp_right
      fun writes _ => writes

theorem Carry.step (codec : StoreCodec) (carry : system.Carry) (event : DeletionEvent) :
    (system.step codec event).Carry :=
  (step_stepped codec carry event).1

end DeletionSystem

end Ferrus.Distributed

import Ferrus.Model.Distributed.RemoteStores

/-! # The deletion service

A deletion works on three databases that share no transaction. It goes through its phases one transaction
at a time; between two of them clients and other deletions make their own. The record of a deletion is
found again by its target and its coverage, so a repeated request continues it, and one whose record is
complete is not carried out again.
-/

namespace Ferrus.Distributed

open ScopedKey PublicationDomain

/-! ## Records -/

/-- The audit records of a target; those of a project's repositories belong to the project. -/
def AuditRecord.isOf (record : AuditRecord) : DeletionTarget → Bool
  | .project project => record.event.target.projectRef = project
  | .repository repository => record.event.target = .repository repository

namespace DeletionTables

variable (tables : DeletionTables) (deletion : DeleteDataRequest)

def loadByIdempotency : Option StoredDeletion :=
  tables.deletions.find? (·.request.identity = deletion.identity)

/-- The record has the id of the deletion, in its project. -/
def hasId (stored : StoredDeletion) : Bool :=
  stored.request.target.projectRef = deletion.target.projectRef && stored.request.deletionId = deletion.deletionId

def loadByDeletionId : Option StoredDeletion := tables.deletions.find? (hasId deletion)

/-- A record that is complete stays so. -/
def setState (state : DeletionState) : DeletionTables :=
  { tables with
    deletions := tables.deletions.map (fun stored =>
      if hasId deletion stored && stored.state ≠ .complete then { stored with state } else stored) }

def persistProgress : Except MaintenanceStoreError DeletionTables :=
  match tables.loadByIdempotency deletion with
  | none => .error .integrityFailure
  | some current => .ok (tables.setState current.request .running)

def persistAudit (record : AuditRecord) : DeletionTables :=
  { tables with
    auditRecords := tables.auditRecords.filter (fun other =>
      !(other.event = record.event && other.outcome = record.outcome)) ++ [record] }

def purgeAudit : DeletionTables :=
  if deletion.covers .auditRecord then
    { tables with auditRecords := tables.auditRecords.filter (fun record => !record.isOf deletion.target) }
  else tables

/-- The record of a deletion becomes complete, with an audit record of its success. -/
def finish (now : Int) : Except MaintenanceStoreError DeletionTables :=
  match tables.loadByIdempotency deletion with
  | none => .error .integrityFailure
  | some current => .ok ((tables.persistAudit
      ⟨deletion.identity, .succeeded, current.request.deletionId,
        timestampMillis now⟩).setState current.request .complete)

/-- A failure is recorded unless the deletion has been completed meanwhile. -/
def recordFailure (now : Int) : DeletionTables :=
  match tables.loadByIdempotency deletion with
  | none => tables
  | some current =>
      if current.state = .complete then tables
      else (tables.persistAudit
        ⟨deletion.identity, .failed, current.request.deletionId, timestampMillis now⟩).setState current.request .failed

end DeletionTables

/-! ## Purging the stores -/

namespace DeleteDataRequest

variable (deletion : DeleteDataRequest)

/-- The scope of a published target: the whole project, or one repository of it. -/
def inScope (repositoryId : String) : Bool :=
  match deletion.target with
  | .project _ => true
  | .repository repository => repositoryId = repository.repositoryId

def isProject : Bool :=
  match deletion.target with
  | .project _ => true
  | .repository _ => false

/-- Memory belongs to no repository. -/
def purgesMemory : Bool := deletion.covers .publishedMemoryRevision && deletion.isProject

/-- The revisions that the purge deletes. The links of a memory revision go with either end. -/
def purgesRevision (key : ScopedKey) : Bool :=
  project key = deletion.target.projectRef.key &&
    (deletion.covers .publishedGraphSnapshot && deletion.inScope (repositoryId key) &&
        (domain key = memoryRepositoryLinks.column ||
          domain key = repositoryGraph.column) ||
      deletion.purgesMemory && (domain key = memoryRepositoryLinks.column ||
        domain key = projectMemory.column))

def purgesView (key : ScopedKey) : Bool :=
  project key = deletion.target.projectRef.key &&
    (deletion.covers .publishedGraphSnapshot && deletion.inScope (repositoryId key) &&
        domain key = repositoryGraph.column ||
      deletion.purgesMemory && domain key = projectMemory.column)

def purgesLinkSet (key : LinkSetKey) : Bool :=
  (ofLex key).1 = deletion.target.projectRef.key &&
    (deletion.covers .publishedGraphSnapshot && deletion.inScope (ofLex (ofLex key).2).1 || deletion.purgesMemory)

/-- The batches that the purge deletes: those of the project, or of the listed jobs. -/
def purgesBatch (repositoryJobs : List String) (key : BatchKey) : Bool :=
  BatchKey.project key = deletion.target.projectRef.key &&
    (deletion.isProject || repositoryJobs.contains (jobIdOf (BatchKey.job key)))

end DeleteDataRequest

/-- Delete the files and the rows of a project. -/
def ObjectDatabase.deleteProjectObjects (db : ObjectDatabase) (deletion : DeleteDataRequest) :
    Except MaintenanceStoreError ObjectDatabase :=
  (installStoreTombstone db.tombstones deletion).map fun tombstones =>
    { objects := db.objects.deleteWhere fun key _ => ObjectKey.project key = deletion.target.projectRef.key
      files := db.files.deleteWhere fun key _ => ObjectKey.project key = deletion.target.projectRef.key
      tombstones }

/-- The purge of the files stops before its transaction commits: some files are gone. -/
def ObjectDatabase.tearFiles (db : ObjectDatabase) (deletion : DeleteDataRequest) (removed : List ObjectKey) :
    ObjectDatabase :=
  match installStoreTombstone db.tombstones deletion with
  | .ok _ => { db with
      files := db.files.deleteWhere (fun key _ =>
        ObjectKey.project key = deletion.target.projectRef.key && removed.contains key) }
  | .error _ => db

def FactDatabase.deleteUnpublishedFacts (facts : FactDatabase) (deletion : DeleteDataRequest)
    (repositoryJobs : List String) : Except MaintenanceStoreError FactDatabase :=
  (installStoreTombstone facts.tombstones deletion).map fun tombstones =>
    { batches := facts.batches.deleteWhere fun key _ => deletion.purgesBatch repositoryJobs key
      tombstones }

/-- Batches of the listed jobs are left; unless the deletion covers what the jobs made, it does not look. -/
def FactDatabase.repositoryHasUnpublishedFacts (facts : FactDatabase) (deletion : DeleteDataRequest)
    (repositoryJobs : List String) : Bool :=
  match deletion.target with
  | .project _ => false
  | .repository repository =>
      if deletion.covers .publishedGraphSnapshot || deletion.covers .unpublishedFact then
        !(facts.batches.select (fun key _ => BatchKey.project key = repository.project.key &&
          repositoryJobs.contains (jobIdOf (BatchKey.job key)))).isEmpty
      else true

/-- Delete the covered publications; what belongs to a revision goes with it. -/
def PublicationTables.purge (tables : PublicationTables) (deletion : DeleteDataRequest) : PublicationTables where
  revisions := tables.revisions.deleteWhere fun key _ => deletion.purgesRevision key
  snapshotMetadata := tables.snapshotMetadata.deleteWhere fun key _ => deletion.purgesRevision key
  publishedTargets := tables.publishedTargets.deleteWhere fun key _ => deletion.purgesRevision key
  receipts := tables.receipts.deleteWhere fun _ receipt => deletion.purgesRevision receipt.target
  views := tables.views.deleteWhere fun key _ => deletion.purgesView key
  linkSets := tables.linkSets.deleteWhere fun key _ => deletion.purgesLinkSet key

/-- Graph snapshots of the repository are left. -/
def PublicationTables.snapshotsRemain (tables : PublicationTables) (deletion : DeleteDataRequest) : Bool :=
  !(tables.revisions.select (fun key _ => project key = deletion.target.projectRef.key &&
    domain key = repositoryGraph.column &&
    deletion.inScope (repositoryId key))).isEmpty

/-- The purge of the control database; the receipts of a deleted job go with it. -/
def RemoteDatabase.deleteControlData (db : RemoteDatabase) (deletion : DeleteDataRequest)
    (repositoryJobs : List String) (factsRemain : Bool) (now : Int) : RemoteDatabase :=
  let publications := db.publications.purge deletion
  let control := db.control.deleteControlData deletion repositoryJobs
    (factsRemain || publications.snapshotsRemain deletion) now
  { control
    publications := { publications with
      receipts := publications.receipts.deleteWhere (fun key _ =>
        (db.control.job? key).isSome && (control.job? key).isNone) } }

/-! ## Processes -/

/-- What a deletion does next. -/
inductive DeletionPhase where
  | begin | listJobs | purgeObjects | recordObjects | purgeFacts | recordFacts | checkFacts | purgeControl | finish
  | releaseFacts | releaseObjects | releaseControl
  /-- The request has returned that the deletion is complete. -/
  | complete
  | recordFailure
  /-- The request has returned an error. -/
  | refused
deriving DecidableEq, Repr

/-- One call of `delete`. -/
structure DeletionProcess where
  request : DeleteDataRequest
  /-- The request of the record, which is the one that is carried out. -/
  carried : DeleteDataRequest
  phase : DeletionPhase
  repositoryJobs : List String
  factsRemain : Bool
deriving DecidableEq, Repr

def DeletionProcess.ofRequest (request : DeleteDataRequest) : DeletionProcess := ⟨request, request, .begin, [], false⟩

namespace RemoteStores

variable (stores : RemoteStores)

/-- Begin a deletion, or find its record. -/
def beginDeletion (deletion : DeleteDataRequest) : Except MaintenanceStoreError (RemoteStores × StoredDeletion) :=
  match stores.deletions.loadByIdempotency deletion with
  | some existing =>
      (stores.database.control.installControlTombstone existing.request).map fun control =>
        ({ stores with database.control := control }, existing)
  | none =>
      if (stores.deletions.loadByDeletionId deletion).isSome then .error .conflict
      else (stores.database.control.installControlTombstone deletion).map fun control =>
        ({ stores with
          database.control := control
          deletions.deletions := stores.deletions.deletions ++ [⟨deletion, .running⟩] }, ⟨deletion, .running⟩)

end RemoteStores

namespace DeletionProcess

variable (process : DeletionProcess) (stores : RemoteStores)

/-- A step that may fail: the process goes on to the next phase, or to the one after a failure. -/
def goOn (result : Except MaintenanceStoreError RemoteStores) (next onError : DeletionPhase) :
    RemoteStores × DeletionProcess :=
  match result with
  | .ok stores => (stores, { process with phase := next })
  | .error _ => (stores, { process with phase := onError })

/-- The next transaction of a deletion. -/
def advance (now : Int) : RemoteStores × DeletionProcess :=
  let deletion := process.carried
  match process.phase with
  | .begin =>
      if process.request.coverage.isEmpty || !process.request.isAcceptable then
        (stores, { process with phase := .refused })
      else
        match stores.beginDeletion process.request with
        | .ok (next, stored) => (next, { process with
            carried := stored.request
            phase := if stored.state = .complete then .releaseFacts else .listJobs })
        | .error _ => (stores, { process with phase := .refused })
  | .listJobs => (stores, { process with
      repositoryJobs := stores.database.control.listedJobs deletion, phase := .purgeObjects })
  | .purgeObjects =>
      if deletion.covers .uploadedSource then
        process.goOn stores ((stores.objects.deleteProjectObjects deletion).map fun objects => { stores with objects })
          .recordObjects .recordFailure
      else (stores, { process with phase := .purgeFacts })
  | .recordObjects =>
      process.goOn stores ((stores.deletions.persistProgress deletion).map fun deletions => { stores with deletions })
        .purgeFacts .recordFailure
  | .purgeFacts =>
      if deletion.covers .unpublishedFact then
        process.goOn stores ((stores.facts.deleteUnpublishedFacts deletion process.repositoryJobs).map
          (fun facts => { stores with facts })) .recordFacts .recordFailure
      else (stores, { process with phase := .checkFacts })
  | .recordFacts =>
      process.goOn stores ((stores.deletions.persistProgress deletion).map fun deletions => { stores with deletions })
        .checkFacts .recordFailure
  | .checkFacts => (stores, { process with
      factsRemain := stores.facts.repositoryHasUnpublishedFacts deletion process.repositoryJobs
      phase := .purgeControl })
  | .purgeControl =>
      process.goOn stores (((stores.deletions.purgeAudit deletion).persistProgress deletion).map (fun deletions =>
        { stores with
          database := stores.database.deleteControlData deletion process.repositoryJobs process.factsRemain now
          deletions })) .finish .recordFailure
  | .finish =>
      process.goOn stores ((stores.deletions.finish process.request now).map fun deletions => { stores with deletions })
        .releaseFacts .refused
  | .releaseFacts =>
      if deletion.isFullProjectDeletion then (stores, { process with phase := .complete })
      else if deletion.covers .unpublishedFact then
        ({ stores with facts.tombstones := releaseStoreTombstone stores.facts.tombstones deletion },
          { process with phase := .releaseObjects })
      else (stores, { process with phase := .releaseObjects })
  | .releaseObjects =>
      if deletion.covers .uploadedSource then
        ({ stores with objects.tombstones := releaseStoreTombstone stores.objects.tombstones deletion },
          { process with phase := .releaseControl })
      else (stores, { process with phase := .releaseControl })
  | .releaseControl =>
      ({ stores with
          database.control.tombstones := releaseStoreTombstone stores.database.control.tombstones deletion },
        { process with phase := .complete })
  | .recordFailure =>
      ({ stores with deletions := stores.deletions.recordFailure process.request now },
        { process with phase := .refused })
  | .complete | .refused => (stores, process)

/-- The next transaction fails and is rolled back; only files may be gone. -/
def interrupt (removed : List ObjectKey) : RemoteStores × DeletionProcess :=
  match process.phase with
  | .purgeObjects =>
      if process.carried.covers .uploadedSource then
        ({ stores with objects := stores.objects.tearFiles process.carried removed },
          { process with phase := .recordFailure })
      else (stores, { process with phase := .recordFailure })
  | .listJobs | .recordObjects | .purgeFacts | .recordFacts | .checkFacts | .purgeControl =>
      (stores, { process with phase := .recordFailure })
  | .begin | .finish | .releaseFacts | .releaseObjects | .releaseControl | .recordFailure =>
      (stores, { process with phase := .refused })
  | .complete | .refused => (stores, process)

end DeletionProcess

/-! ## Clients and deletions together -/

/-- The stores with the deletions that have been requested. -/
structure DeletionSystem where
  stores : RemoteStores
  processes : List DeletionProcess
deriving DecidableEq

inductive DeletionEvent where
  | client (request : ClientRequest)
  | start (request : DeleteDataRequest)
  | advance (index : Nat) (now : Int)
  | interrupt (index : Nat) (removed : List ObjectKey)

namespace DeletionSystem

def empty : DeletionSystem := ⟨.empty, []⟩

/-- The process does something to the stores and to itself. -/
def act (system : DeletionSystem) (index : Nat)
    (action : DeletionProcess → RemoteStores → RemoteStores × DeletionProcess) : DeletionSystem :=
  match system.processes[index]? with
  | none => system
  | some process =>
      let (stores, process) := action process system.stores
      ⟨stores, system.processes.set index process⟩

def step (codec : StoreCodec) (system : DeletionSystem) : DeletionEvent → DeletionSystem
  | .client request => { system with stores := system.stores.afterRequest codec request }
  | .start request => { system with processes := system.processes ++ [.ofRequest request] }
  | .advance index now => system.act index fun process stores => process.advance stores now
  | .interrupt index removed => system.act index fun process stores => process.interrupt stores removed

end DeletionSystem

end Ferrus.Distributed

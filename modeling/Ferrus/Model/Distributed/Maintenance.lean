import Ferrus.Model.Distributed.Coordinator
import Ferrus.ToMathlib.ExceptBind

/-! # Deletion of project and repository data

A deletion first installs a tombstone that keeps new jobs out of the project. It lists the jobs of a
repository, purges its stores, and removes a temporary tombstone at its end. The purge of the control
database cancels the covered jobs and then deletes those whose data is gone.
-/

namespace Ferrus.Distributed

inductive RetentionClass where
  | uploadedSource | unpublishedFact | publishedGraphSnapshot | publishedMemoryRevision | queryCache
  | auditRecord
deriving DecidableEq, Repr

namespace RetentionClass

def all : List RetentionClass :=
  [uploadedSource, unpublishedFact, publishedGraphSnapshot, publishedMemoryRevision, queryCache, auditRecord]

end RetentionClass

inductive DeletionTarget where
  | project (project : RemoteProjectRef)
  | repository (repository : RemoteRepositoryRef)
deriving DecidableEq, Repr

def DeletionTarget.projectRef : DeletionTarget → RemoteProjectRef
  | project target => target
  | repository target => target.project

structure DeleteDataRequest where
  deletionId : String
  target : DeletionTarget
  coverage : List RetentionClass
deriving DecidableEq, Repr

inductive MaintenanceStoreError where
  | conflict | integrityFailure
deriving DecidableEq, Repr

namespace DeleteDataRequest

variable (deletion : DeleteDataRequest)

def covers (retention : RetentionClass) : Bool := deletion.coverage.contains retention

/-- Source objects may be shared, so a repository deletion must not cover them. -/
def isAcceptable : Bool :=
  match deletion.target with
  | .project _ => true
  | .repository _ => !deletion.covers .uploadedSource

def isFullProjectDeletion : Bool :=
  match deletion.target with
  | .project _ => RetentionClass.all.all deletion.covers
  | .repository _ => false

variable (repositoryJobs : List String)

/-- The jobs that the purge cancels, given the jobs listed for a repository. -/
def cancelsJob (key : JobKey) : Bool :=
  projectOf key = deletion.target.projectRef.key &&
    match deletion.target with
    | .project _ => deletion.covers .unpublishedFact
    | .repository _ => (deletion.covers .publishedGraphSnapshot || deletion.covers .unpublishedFact) &&
        repositoryJobs.contains (jobIdOf key)

/-- The jobs that the purge deletes. A repository's jobs stay while facts or snapshots of it remain. -/
def deletesJob (dataRemains : Bool) (key : JobKey) (row : JobRow) : Bool :=
  projectOf key = deletion.target.projectRef.key &&
    match deletion.target with
    | .project _ =>
        (row.spec.kind = .repositoryGraph && deletion.covers .publishedGraphSnapshot) ||
          (row.spec.kind = .projectMemory && deletion.covers .publishedMemoryRevision)
    | .repository _ => (deletion.covers .publishedGraphSnapshot || deletion.covers .unpublishedFact) &&
        !dataRemains && repositoryJobs.contains (jobIdOf key)

/-- Of the row only the specification decides. -/
theorem deletesJob_congr {deletion : DeleteDataRequest} {repositoryJobs : List String} {dataRemains : Bool}
    {key : JobKey} {row other : JobRow} (same : row.spec = other.spec) :
    deletion.deletesJob repositoryJobs dataRemains key row =
      deletion.deletesJob repositoryJobs dataRemains key other := by
  rw [deletesJob, deletesJob, same]

end DeleteDataRequest

/-- One deletion at a time holds the tombstone of a project, in each of the databases. -/
def installStoreTombstone (tombstones : Table ProjectKey String) (deletion : DeleteDataRequest) :
    Except MaintenanceStoreError (Table ProjectKey String) :=
  match tombstones.get? deletion.target.projectRef.key with
  | some existing => if existing = deletion.deletionId then .ok tombstones else .error .conflict
  | none => .ok (tombstones.insertNew deletion.target.projectRef.key deletion.deletionId)

def releaseStoreTombstone (tombstones : Table ProjectKey String) (deletion : DeleteDataRequest) :
    Table ProjectKey String :=
  tombstones.deleteWhere fun key existing =>
    key = deletion.target.projectRef.key && existing = deletion.deletionId

namespace ControlDatabase

variable (db : ControlDatabase)

def installControlTombstone (deletion : DeleteDataRequest) : Except MaintenanceStoreError ControlDatabase :=
  (installStoreTombstone db.tombstones deletion).map fun tombstones => { db with tombstones }

/-- The tombstone of a deletion leaves the jobs as they are. -/
theorem installControlTombstone_jobs {db next : ControlDatabase} {deletion : DeleteDataRequest}
    (installs : db.installControlTombstone deletion = .ok next) : next.jobs = db.jobs := by
  obtain ⟨_, _, rfl⟩ := Except.map_eq_ok_iff.mp installs
  rfl

/-- The jobs whose input is the repository. -/
def repositoryJobs (repository : RemoteRepositoryRef) : List String :=
  (db.jobs.select (fun key row => projectOf key = repository.project.key &&
    match row.spec.input with
    | .repository input _ => input = repository
    | .memory .. => false)).map fun (key, _) => jobIdOf key

section

variable (deletion : DeleteDataRequest)

/-- The listing of a deletion; a project deletion needs none. -/
def listedJobs : List String :=
  match deletion.target with
  | .project _ => []
  | .repository repository => db.repositoryJobs repository

/-- The statements are keyed by project or job only, whatever the job's state. -/
def cancelCoveredJobs (repositoryJobs : List String) (now : Int) : ControlDatabase :=
  db.updateJobs (fun key _ => deletion.cancelsJob repositoryJobs key) fun row =>
    { row.clearLease with
      state := .cancelled, cancellationRequested := true, updatedAtMs := timestampMillis now }

/-- The purge of the control database. -/
def deleteControlData (repositoryJobs : List String) (dataRemains : Bool) (now : Int) : ControlDatabase :=
  (db.cancelCoveredJobs deletion repositoryJobs now).deleteJobs
    (deletion.deletesJob repositoryJobs dataRemains)

end

end ControlDatabase

end Ferrus.Distributed

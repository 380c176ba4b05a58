import Ferrus.ToMathlib.KeyedTable
import Ferrus.Model.Runtime.TaskStatus
import Ferrus.Model.Runtime.RepositoryView
import Mathlib.Data.String.Basic

/-! # The runtime database

The tables of `ferrus.db` that the task, claim, run and graph operations read and write. An operation
that runs in one transaction is a function of the whole database; a failed transaction is an error
and leaves the database as it was. Rows carry the column defaults of the schema.

An event keeps its run and type. Its payload and creation time are never read back by the modelled
operations. Events are only appended, so the `AUTOINCREMENT` id of an event is its position.
-/

namespace Ferrus.Runtime

abbrev TaskId := String

abbrev AgentId := String

abbrev RunId := String

/-- One row of `tasks`, without its key. -/
structure TaskRow where
  path : String
  status : TaskStatus
  pausedStatus : Option TaskStatus := none
  specPath : Option String := none
  milestoneId : Option String := none
  claimedBy : Option AgentId := none
  leaseUntil : Option String := none
  lastHeartbeat : Option String := none
  checkRetries : Nat := 0
  reviewCycles : Nat := 0
  failureReason : Option String := none
  awaitingHumanBy : Option AgentId := none
  awaitingHumanStatus : Option TaskStatus := none
  humanQuestionOrder : Option Nat := none
  humanAnswerRecorded : Bool := false
  executorDispatches : Nat := 0
  view : ViewColumns := .default
deriving DecidableEq, Repr, Inhabited

/-- One row of `runs`, without its key. -/
structure RunRow where
  taskId : TaskId
  role : RunRole
  agent : AgentId
  status : RunStatus
  (startedAt updatedAt : String)
  pid : Option Nat
  workspacePath : String
  view : ViewColumns := .default
deriving DecidableEq, Repr, Inhabited

structure EventRow where
  runId : Option RunId
  eventType : String
deriving DecidableEq, Repr, Inhabited

inductive CanonicalGraphStatus where
  | unknown | stale | fresh
deriving DecidableEq, Repr, Inhabited

/-- The canonical graph columns of the single `project_runtime_state` row. -/
structure ProjectRuntimeState where
  canonicalSourceRevisionId : Option String := none
  canonicalManifestAlgorithm : Option String := none
  canonicalManifestDigest : Option String := none
  canonicalGraphSnapshotId : Option String := none
  canonicalGraphStatus : CanonicalGraphStatus := .unknown
  canonicalGraphUpdatedAt : Option String := none
  updatedAt : String := ""
deriving DecidableEq, Repr, Inhabited

structure Database where
  tasks : Table TaskId TaskRow
  runs : Table RunId RunRow
  events : List EventRow
  runtimeState : ProjectRuntimeState
deriving DecidableEq, Inhabited

/-- A counter column read as `u32`. -/
def asU32 (stored : Nat) : Nat := stored % 2 ^ 32

/-- `u32` addition of one, as the release build computes it. -/
def u32Succ (value : Nat) : Nat := (value + 1) % 2 ^ 32

namespace Database

/-- The database right after its migrations. -/
def empty : Database := ⟨.empty, .empty, [], {}⟩

variable (db : Database)

def task? (id : TaskId) : Option TaskRow := db.tasks.get? id

def status? (id : TaskId) : Option TaskStatus := (db.task? id).map (·.status)

def run? (id : RunId) : Option RunRow := db.runs.get? id

/-- `UPDATE tasks SET … WHERE id = …`. -/
def updateTask (id : TaskId) (change : TaskRow → TaskRow) : Database :=
  { db with tasks := db.tasks.modify id change }

theorem task?_updateTask (id other : TaskId) (change : TaskRow → TaskRow) :
    (db.updateTask id change).task? other =
      if other = id then (db.task? other).map change else db.task? other :=
  db.tasks.get?_modify id other change

@[simp] theorem task?_updateTask_self (id : TaskId) (change : TaskRow → TaskRow) :
    (db.updateTask id change).task? id = (db.task? id).map change :=
  db.tasks.get?_modify_self id change

/-- Insert an event that names no run; nothing can refuse it. -/
def recordEvent (eventType : String) : Database :=
  { db with events := db.events ++ [⟨none, eventType⟩] }

@[simp] theorem task?_recordEvent (eventType : String) (id : TaskId) :
    (db.recordEvent eventType).task? id = db.task? id := rfl

/-- Insert an event under the foreign key from `events.run_id` to `runs.id`. -/
def insertEventInTransaction (runId : Option RunId) (eventType : String) : Except String Database :=
  match runId with
  | none => .ok (db.recordEvent eventType)
  | some id =>
      if (db.run? id).isSome then .ok { db with events := db.events ++ [⟨some id, eventType⟩] }
      else .error "FOREIGN KEY constraint failed"

/-- Inserting an event changes the event log only. -/
theorem insertEventInTransaction_ok {db next : Database} {runId : Option RunId} {eventType : String}
    (inserted : db.insertEventInTransaction runId eventType = .ok next) :
    next = { db with events := db.events ++ [⟨runId, eventType⟩] } := by
  unfold insertEventInTransaction at inserted
  cases runId with
  | none => exact (Except.ok.inj inserted).symm
  | some id =>
    dsimp only at inserted
    split at inserted
    · exact (Except.ok.inj inserted).symm
    · cases inserted

/-- The foreign key refuses only a run that does not exist. -/
theorem insertEventInTransaction_of_bound {db : Database} {runId : Option RunId}
    (bound : ∀ run ∈ runId, (db.run? run).isSome) (eventType : String) : db.insertEventInTransaction runId eventType =
      .ok { db with events := db.events ++ [⟨runId, eventType⟩] } := by
  cases runId with
  | none => rfl
  | some id => exact if_pos (bound id rfl)

/-- `insert_event` looks the run up itself before inserting. -/
def insertEvent (runId : Option RunId) (eventType : String) : Except String Database :=
  match runId with
  | none => .ok (db.recordEvent eventType)
  | some id =>
      if (db.run? id).isSome then .ok { db with events := db.events ++ [⟨some id, eventType⟩] }
      else .error s!"Cannot insert event for unknown run id {id}"

/-- A transaction commits its result or rolls back. -/
def commit {α : Type*} (db : Database) (transaction : Except String (Database × α)) : Database :=
  match transaction with
  | .ok (next, _) => next
  | .error _ => db

/-- `INSERT … ON CONFLICT(id) DO UPDATE` of a task; the other columns keep their values. -/
def upsertTask (id : TaskId) (path : String) (status : TaskStatus) (specPath milestoneId : Option String) : Database :=
  { db with
    tasks := db.tasks.upsert id { path, status, specPath, milestoneId } (fun row =>
      { row with
        path
        status
        specPath := specPath.or row.specPath
        milestoneId := milestoneId.or row.milestoneId }) }

theorem task?_upsertTask (id other : TaskId) (path : String) (status : TaskStatus)
    (specPath milestoneId : Option String) :
    (db.upsertTask id path status specPath milestoneId).task? other =
      if other = id then
        some ((db.task? id).elim { path, status, specPath, milestoneId } (fun row =>
          { row with
            path
            status
            specPath := specPath.or row.specPath
            milestoneId := milestoneId.or row.milestoneId }))
      else db.task? other :=
  db.tasks.get?_upsert id other _ _

/-- `INSERT OR IGNORE` of a task whose status is not known yet. -/
def ensureTaskExists (id : TaskId) (path : String) : Database :=
  { db with tasks := db.tasks.insertNew id { path, status := .unknown } }

theorem task?_ensureTaskExists (id other : TaskId) (path : String) :
    (db.ensureTaskExists id path).task? other =
      if other = id then some ((db.task? id).getD { path, status := .unknown }) else db.task? other :=
  db.tasks.get?_insertNew id other _

end Database

/-- The row without its lease. -/
def TaskRow.clearLease (row : TaskRow) : TaskRow :=
  { row with claimedBy := none, leaseUntil := none, lastHeartbeat := none }

namespace Database

variable (db : Database) (id : TaskId)

/-- The statement is keyed by the task only, not by the lease it means to clear. -/
def clearTaskLease : Database := db.updateTask id TaskRow.clearLease

def taskCheckRetries : Nat :=
  asU32 ((db.task? id).elim 0 (·.checkRetries))

def taskReviewCycles : Nat :=
  asU32 ((db.task? id).elim 0 (·.reviewCycles))

def taskExecutorDispatches : Nat :=
  asU32 ((db.task? id).elim 0 (·.executorDispatches))

end Database

end Ferrus.Runtime

import Ferrus.Model.Runtime.TaskContext

/-! # Agent runs

The writers of the `runs` table. Starting a run and attaching it to a task work in autocommit mode,
so they are available as the statements they consist of; reserving a session and attaching a
supervisor to a consultation are one transaction each. A run copies the view columns of its task as
one row value.
-/

namespace Ferrus.Runtime

/-- The legacy row that runs without a task refer to. -/
def currentTaskId : TaskId := "current"

def currentTaskPath : String := ".ferrus/TASK.md"

def defaultTaskPathForId (id : TaskId) : String :=
  if id = currentTaskId then currentTaskPath else s!".ferrus/tasks/{id}.md"

namespace Database

variable (db : Database)

/-- `UPDATE runs SET … WHERE id = …`. -/
def updateRun (id : RunId) (change : RunRow → RunRow) : Database :=
  { db with runs := db.runs.modify id change }

theorem run?_updateRun (id other : RunId) (change : RunRow → RunRow) :
    (db.updateRun id change).run? other =
      if other = id then (db.run? other).map change else db.run? other :=
  db.runs.get?_modify id other change

/-- An executor whose process is alive uses the workspace. -/
def executorOccupied (processIsAlive : Nat → Bool) (sharedWorkspace : Bool) : Bool :=
  (db.runs.select (fun _ run =>
    (sharedWorkspace || run.taskId = currentTaskId) && run.role = .executor && run.status.isActive)).any
    (·.2.pid.any processIsAlive)

/-- The reserved run counts as live under the pid of the reserving process. -/
def reserveExecutorSession (processIsAlive : Nat → Bool) (runId : RunId) (agent : AgentId) (workspacePath : String)
    (task : TaskId) (sharedWorkspace : Bool) (pid : Nat) (timestamp : String) : Except String Database :=
  if db.executorOccupied processIsAlive sharedWorkspace then
    .error (if sharedWorkspace then
      "Cannot start an Executor while another Executor uses the shared workspace. Stop that session first."
    else
      "Cannot start a direct Nano session while another taskless Executor uses the canonical workspace. " ++
        "Stop that session first.")
  else if (db.run? runId).isSome then .error "UNIQUE constraint failed: runs.id"
  else
    let db := db.ensureTaskExists task (defaultTaskPathForId task)
    .ok { db with
      runs := db.runs.insertNew runId
        { taskId := task, role := .executor, agent, status := .running, startedAt := timestamp,
          updatedAt := timestamp, pid := some pid, workspacePath } }

/-- The `INSERT … SELECT … FROM tasks` of a started run. Without the task it inserts nothing; over an
existing run it keeps the task, role, agent and start, and copies the view again. -/
def insertStartedRun (runId : RunId) (role : RunRole) (agent : AgentId) (pid : Nat) (task : TaskId)
    (workspacePath timestamp : String) : Database :=
  match db.task? task with
  | none => db
  | some row =>
      { db with
        runs := db.runs.upsert runId
          { taskId := task, role, agent, status := .running, startedAt := timestamp,
            updatedAt := timestamp, pid := some pid, workspacePath, view := row.view }
          (fun run =>
            { run with
              status := .running, updatedAt := timestamp, pid := some pid, workspacePath,
              view := row.view }) }

/-- `ORDER BY started_at DESC, id DESC LIMIT 1` over the active runs of the agent. -/
def runToAttach? (agent : AgentId) : Option RunId :=
  ((db.runs.select (fun _ run => run.agent = agent && run.status.isActive)).argmax
    (fun (id, run) => toLex (run.startedAt, id))).map (·.1)

/-- Move a run to a task and copy the task's view. Without the task the foreign key refuses it. -/
def attachRunToTask (runId : RunId) (task : TaskId) (timestamp : String) : Except String Database :=
  match db.run? runId, db.task? task with
  | none, _ => .ok db
  | some _, none => .error "FOREIGN KEY constraint failed"
  | some _, some row => .ok (db.updateRun runId fun run =>
      { run with taskId := task, updatedAt := timestamp, view := row.view })

def latestActiveRunForAgent (agent : AgentId) : Option RunId :=
  (latestRun (db.runs.select (fun _ run => run.agent = agent && run.status.isActive))).map (·.1)

/-- The consultation that the run is already attached to. -/
def consultationContextForRun (runId : RunId) : Except String (Option RuntimeTaskContext) :=
  match db.run? runId with
  | none => .ok none
  | some run =>
      match db.task? run.taskId with
      | none => .ok none
      | some row =>
          if row.status = .consultation then
            (repositoryViewReferenceFromDatabase row.view).map fun view =>
              some ⟨run.taskId, row.path, row.status, row.pausedStatus, some runId, view⟩
          else .ok none

/-- An active supervisor run of the task, other than the given one. -/
def supervised (task : TaskId) (other : Option RunId) : Bool :=
  db.runs.select (fun id run =>
    run.taskId = task && run.role = .supervisor && run.status.isActive && other ≠ some id) ≠ []

/-- The first consultation without a supervisor, or the given one if it is such a consultation. -/
def consultationCandidate? (task : Option TaskId) : Option (TaskId × TaskRow) :=
  (db.tasks.select (fun id row =>
    task.all (· = id) && row.status = .consultation && !db.supervised id none)).head?

/-- Attach the agent's latest active run to a consultation: the given one, or the next. -/
def attachToConsultation (agent : AgentId) (task : Option TaskId) (timestamp : String) :
    Except String (Database × Option RuntimeTaskContext) :=
  match db.latestActiveRunForAgent agent with
  | none => .ok (db, none)
  | some runId => do
      match ← db.consultationContextForRun runId with
      | some context => return (db, if task.all (· = context.taskId) then some context else none)
      | none =>
          match db.consultationCandidate? task with
          | none => return (db, none)
          | some (id, row) =>
              let view ← repositoryViewReferenceFromDatabase row.view
              if db.supervised id (some runId) then return (db, none)
              let db ← db.attachRunToTask runId id timestamp
              let db ← db.insertEventInTransaction (some runId) "run_consultation_attached"
              return (db, some ⟨id, row.path, row.status, row.pausedStatus, some runId, view⟩)

def attachRunningRunToNextConsultation (agent : AgentId) (timestamp : String) :
    Except String (Database × Option RuntimeTaskContext) :=
  db.attachToConsultation agent none timestamp

def attachRunningRunToConsultation (task : TaskId) (agent : AgentId) (timestamp : String) :
    Except String (Database × Option RuntimeTaskContext) :=
  db.attachToConsultation agent (some task) timestamp

/-- Close a run: it gets its last status and loses its pid. -/
def closeRun (runId : RunId) (status : RunStatus) (timestamp : String) : Database :=
  db.updateRun runId fun run => { run with status, updatedAt := timestamp, pid := none }

/-- The update of `record_run_finished`. -/
def finishRun (runId : RunId) (exitCode : Int) (timestamp : String) : Database :=
  db.closeRun runId (if exitCode = 0 then .completed else .failed) timestamp

/-- The update of the run recovery. -/
def interruptRun (runId : RunId) (timestamp : String) : Database :=
  db.closeRun runId .interrupted timestamp

/-- A reservation that never started is released when it is dropped. -/
def releaseExecutorSession (runId : RunId) (timestamp : String) : Database :=
  db.closeRun runId .failed timestamp

/-- Move the task of the legacy row to `t-001` and reset the legacy row. -/
def retireLegacyCurrentTaskRow (timestamp : String) : Database :=
  match db.task? currentTaskId with
  | none => db
  | some row =>
      let moved : Database :=
        if row.status = .unknown ∨ row.status = .reset then db
        else
          { db with
            tasks := db.tasks.insertNew "t-001"
              { path := ".ferrus/tasks/t-001.md", status := row.status, pausedStatus := row.pausedStatus,
                specPath := row.specPath, milestoneId := row.milestoneId,
                checkRetries := row.checkRetries, reviewCycles := row.reviewCycles,
                failureReason := row.failureReason, awaitingHumanBy := row.awaitingHumanBy,
                awaitingHumanStatus := row.awaitingHumanStatus }
            runs := db.runs.updateWhere (fun _ run => run.taskId = currentTaskId)
              (fun run => { run with taskId := "t-001", updatedAt := timestamp }) }
      moved.updateTask currentTaskId fun row =>
        { row.clearLease with
          status := .reset, pausedStatus := none, failureReason := none, awaitingHumanBy := none,
          awaitingHumanStatus := none }

end Database

end Ferrus.Runtime

import Ferrus.Model.Runtime.Claims
import Mathlib.Data.Prod.Lex

/-! # The runtime context of an agent

Tools find their task through the calling agent: the task it has claimed, or else the task of its
latest active run. The context is a copy of the row at the moment of the read.
-/

namespace Ferrus.Runtime

structure RuntimeTaskContext where
  taskId : TaskId
  taskPath : String
  status : TaskStatus
  pausedStatus : Option TaskStatus
  runId : Option RunId
  repositoryView : RepositoryViewReference
deriving DecidableEq, Repr

namespace Database

/-- `ORDER BY updated_at DESC, started_at DESC, id DESC LIMIT 1`. -/
def latestRun (rows : List (RunId × RunRow)) : Option (RunId × RunRow) :=
  rows.argmax fun (id, run) => toLex (run.updatedAt, toLex (run.startedAt, id))

variable (db : Database)

def latestRunForAgentTask (agent : AgentId) (task : TaskId) : Option (RunId × RunRow) :=
  latestRun (db.runs.select fun _ run => run.agent = agent && run.taskId = task)

/-- The latest active run of an agent whose task exists. -/
def latestActiveRunWithTask (agent : AgentId) : Option (RunId × RunRow) :=
  latestRun (db.runs.select fun _ run =>
    run.agent = agent && run.status.isActive && (db.task? run.taskId).isSome)

/-- The view a reviewing supervisor sees is the one its run has pinned. -/
def contextView (status : TaskStatus) (taskView : RepositoryViewReference)
    (run : Option (RunRow × RepositoryViewReference)) : RepositoryViewReference :=
  match run with
  | some (run, runView) => if run.role = .supervisor ∧ status = .reviewing then runView else taskView
  | none => taskView

/-- Decode the view of the run, if there is one. -/
def decodeRun (run : Option (RunId × RunRow)) : Except String (Option (RunRow × RepositoryViewReference)) :=
  match run with
  | some (_, run) => (repositoryViewReferenceFromDatabase run.view).map fun view => some (run, view)
  | none => .ok none

def claimedContext (agent : AgentId) (id : TaskId) (row : TaskRow) : Except String RuntimeTaskContext := do
  let taskView ← repositoryViewReferenceFromDatabase row.view
  let run := db.latestRunForAgentTask agent id
  let decoded ← decodeRun run
  return ⟨id, row.path, row.status, row.pausedStatus, run.map (·.1), contextView row.status taskView decoded⟩

def runContext (runId : RunId) (run : RunRow) : Except String (Option RuntimeTaskContext) :=
  match db.task? run.taskId with
  | none => .ok none
  | some row => (repositoryViewReferenceFromDatabase run.view).map fun view =>
      some ⟨run.taskId, row.path, row.status, row.pausedStatus, some runId, view⟩

def runtimeTaskContextForAgent (agent : AgentId) : Except String (Option RuntimeTaskContext) :=
  match db.claimedTask? agent with
  | some (id, row) => (db.claimedContext agent id row).map some
  | none =>
      match db.latestActiveRunWithTask agent with
      | some (runId, run) => db.runContext runId run
      | none => .ok none

def requireRuntimeTaskContext (agent : AgentId) : Except String RuntimeTaskContext := do
  match ← db.runtimeTaskContextForAgent agent with
  | some context => return context
  | none =>
      throw s!"No SQLite runtime task is assigned to {agent}. Call the appropriate wait tool first."

end Database

end Ferrus.Runtime

import Ferrus.Model.Runtime.Claims

/-! # Managed executor sessions

A native executor works under an exact-run fence: every operation first checks that the bound run
still belongs to the task, agent, role and workspace, in the same transaction as its effect. The
filesystem's `canonicalize` is an input of the transaction.
-/

namespace Ferrus.Runtime

structure ExecutorSessionScope where
  agentId : AgentId
  taskId : TaskId
  runId : RunId
  workspacePath : String
deriving DecidableEq, Repr

/-- The run states a bound session may act in. -/
def RunStatus.isSessionActive : RunStatus → Bool
  | .running | .checking => true
  | _ => false

/-- `anyhow::ensure!`. -/
def ensure (condition : Bool) (message : String) : Except String Unit :=
  if condition then .ok () else .error message

/-- `Option::context`. -/
def required {α : Type} (value : Option α) (message : String) : Except String α :=
  match value with
  | some value => .ok value
  | none => .error message

theorem ensure_eq_ok_iff {condition : Bool} {message : String} {result : Unit} :
    ensure condition message = .ok result ↔ condition = true := by
  unfold ensure
  cases condition <;> simp

theorem required_eq_ok_iff {α : Type} {value : Option α} {message : String} {result : α} :
    required value message = .ok result ↔ value = some result := by
  unfold required
  cases value <;> simp

namespace Database

variable (canonicalize : String → Except String String)

/-- The run's workspace must be absolute and resolve to the bound one. -/
def requireWorkspace (path expected : String) : Except String Unit :=
  if path.toList.head? = some '/' then do
    let workspace ← canonicalize path
    ensure (workspace = expected) "Run workspace binding mismatch"
  else .error "Run workspace binding mismatch"

/-- The exact-run fence; it returns the bound task's row. -/
def executorContextInTransaction (db : Database) (scope : ExecutorSessionScope) (role : RunRole) :
    Except String TaskRow := do
  let run ← required (db.run? scope.runId) "Bound run is missing"
  ensure (run.taskId = scope.taskId) "Run task binding mismatch"
  ensure (run.agent = scope.agentId) "Run agent binding mismatch"
  ensure (run.role = role) "Run role mismatch"
  ensure run.status.isSessionActive "Bound run is no longer active"
  requireWorkspace canonicalize run.workspacePath scope.workspacePath
  let task ← required (db.task? scope.taskId) "Bound task is missing"
  let _ ← repositoryViewReferenceFromDatabase task.view
  return task

/-- Whether a paused task is the executor's own work to resume. -/
def resumesExecutorWork (task : TaskRow) (agent : AgentId) : Bool :=
  match task.status with
  | .awaitingHuman =>
      task.awaitingHumanBy = some agent &&
        ((task.awaitingHumanStatus.or task.pausedStatus).any (·.isExecutorWorking))
  | .consultation => task.pausedStatus.any (·.isExecutorWorking)
  | _ => true

variable (chrono : Chrono)

def claimExecutorSession (db : Database) (scope : ExecutorSessionScope) (ttlSecs : Nat) (now : Instant) :
    Except String (Database × ReadyTaskClaim) := do
  let task ← db.executorContextInTransaction canonicalize scope .executor
  if resumesExecutorWork task scope.agentId then
    db.claimReadyTaskInTransaction chrono scope.taskId scope.agentId ttlSecs
      [.pending, .executing, .addressing, .awaitingHuman, .consultation] true now
  else .ok (db, .noAvailable)

/-- The statuses an executor session keeps its lease through. -/
def inExecutorWorkPhase : TaskStatus → Bool
  | .executing | .addressing | .consultation | .awaitingHuman => true
  | _ => false

def renewExecutorSessionLease (db : Database) (scope : ExecutorSessionScope) (ttlSecs : Nat)
    (now : Instant) : Except String (Database × LeaseRenewal) := do
  let task ← db.executorContextInTransaction canonicalize scope .executor
  if task.claimedBy = some scope.agentId then
    ensure (inExecutorWorkPhase task.status) "Bound task is outside the Executor work phase"
    let (db, leaseUntil) ← db.renewTaskLeaseInTransaction chrono scope.taskId ttlSecs task.leaseUntil now
    return (db, leaseUntil.elim .expired (.renewed scope.taskId task.path scope.agentId))
  else return (db, .notClaimed)

end Database

end Ferrus.Runtime

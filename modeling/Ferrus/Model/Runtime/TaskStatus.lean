import Mathlib.Tactic.TypeStar

/-! # Task and run states

The lifecycle states of a task with the predicates the claim, submit, reset and archive paths share,
and the states and roles of an agent run. The database stores the text names; `fromStr?_asStr` lets
the model keep the enumeration in the columns.
-/

namespace Ferrus.Runtime

inductive TaskStatus where
  | unknown | pending | executing | addressing | consultation
  | awaitingHuman | reviewing | complete | failed | reset
deriving DecidableEq, Repr, Inhabited

namespace TaskStatus

/-- The name stored in `ferrus.db` and shown to agents. -/
def asStr : TaskStatus → String
  | unknown => "unknown"
  | pending => "pending"
  | executing => "executing"
  | addressing => "addressing"
  | consultation => "consultation"
  | awaitingHuman => "awaiting_human"
  | reviewing => "reviewing"
  | complete => "complete"
  | failed => "failed"
  | reset => "reset"

def fromStr? : String → Except String TaskStatus
  | "unknown" => .ok unknown
  | "pending" => .ok pending
  | "executing" => .ok executing
  | "addressing" => .ok addressing
  | "consultation" => .ok consultation
  | "awaiting_human" => .ok awaitingHuman
  | "reviewing" => .ok reviewing
  | "complete" => .ok complete
  | "failed" => .ok failed
  | "reset" => .ok reset
  | value => .error s!"unknown task status: {value}"

/-- A stored name reads back as its status. -/
theorem fromStr?_asStr (status : TaskStatus) : fromStr? status.asStr = .ok status := by
  cases status <;> rfl

/-- Recording these statuses releases the lease. -/
def clearsLease : TaskStatus → Bool
  | reset | reviewing | addressing | complete | failed => true
  | _ => false

def isExecutorReady : TaskStatus → Bool
  | pending | executing | addressing => true
  | _ => false

def isExecutorWorking : TaskStatus → Bool
  | executing | addressing => true
  | _ => false

def isTerminal : TaskStatus → Bool
  | reset | complete | failed => true
  | _ => false

end TaskStatus

/-- The states of one agent run. -/
inductive RunStatus where
  | running | checking | reviewing | completed | failed | interrupted
deriving DecidableEq, Repr, Inhabited

/-- The condition `status IN ('running', 'checking', 'reviewing')`. -/
def RunStatus.isActive : RunStatus → Bool
  | .running | .checking | .reviewing => true
  | _ => false

inductive RunRole where
  | executor | supervisor
deriving DecidableEq, Repr, Inhabited

end Ferrus.Runtime

import Ferrus.Model.Runtime.Sessions

/-! # The transactions that take and renew leases

One event for each entry point of `project/claims.rs` and `project/claims/session.rs`, with the
instants its clock reads return. A transaction that fails is rolled back.
-/

namespace Ferrus.Runtime

open ReadyTaskClaim

/-- The lease write of a transaction, with the deadline it computed. -/
inductive LeaseEffect where
  | none
  | claimed (task : TaskId) (deadline : Instant)
  | renewed (task : TaskId) (deadline : Instant)
deriving DecidableEq, Repr

def ReadyTaskClaim.effect : ReadyTaskClaim → LeaseEffect
  | .claimed lease => .claimed lease.taskId lease.leaseUntil
  | .alreadyClaimed _ | .noAvailable => .none

def LeaseRenewal.effect : LeaseRenewal → LeaseEffect
  | .renewed task _ _ leaseUntil => .renewed task leaseUntil
  | .expired | .notClaimed => .none

def TaskClaim.effect (task : TaskId) : TaskClaim → Option Instant → LeaseEffect
  | .claimed, some deadline => .claimed task deadline
  | .alreadyClaimed, some deadline => .renewed task deadline
  | _, _ => .none

/-- The claim and renewal transactions that need no bound run. -/
inductive LeaseCall where
  | claimReadyById (task : TaskId)
  | claimReviewById (task : TaskId)
  | claimNextReady
  | claimNextReview
  | renewClaimed
deriving DecidableEq, Repr

inductive LeaseEvent where
  /-- A call by `agent` that reads the clock once. -/
  | call (agent : AgentId) (ttlSecs : Nat) (now : Instant) (call : LeaseCall)
  /-- `claim_task`, which reads the clock again for a renewal. -/
  | claimTask (agent : AgentId) (ttlSecs : Nat) (now renewNow : Instant) (task : TaskId) (path : String)
  | claimSession (scope : ExecutorSessionScope) (ttlSecs : Nat) (now : Instant)
      (canonicalize : String → Except String String)
  | renewSession (scope : ExecutorSessionScope) (ttlSecs : Nat) (now : Instant)
      (canonicalize : String → Except String String)

namespace LeaseEvent

def agent : LeaseEvent → AgentId
  | call agent .. | claimTask agent .. => agent
  | claimSession scope .. | renewSession scope .. => scope.agentId

def ttlSecs : LeaseEvent → Nat
  | call _ ttlSecs .. | claimTask _ ttlSecs .. | claimSession _ ttlSecs .. | renewSession _ ttlSecs .. =>
    ttlSecs

/-- The first clock read. -/
def start : LeaseEvent → Instant
  | call _ _ now _ | claimTask _ _ now .. | claimSession _ _ now _ | renewSession _ _ now _ => now

/-- The last clock read. -/
def finish : LeaseEvent → Instant
  | claimTask _ _ _ renewNow .. => renewNow
  | event => event.start

variable (chrono : Chrono)

/-- The transaction of an event. -/
def transaction (db : Database) : LeaseEvent → Except String (Database × LeaseEffect)
  | call agent ttlSecs now (.claimReadyById task) =>
      (db.claimReadyTaskById chrono task agent ttlSecs now).map (.map id effect)
  | call agent ttlSecs now (.claimReviewById task) =>
      (db.claimReviewTaskById chrono task agent ttlSecs now).map (.map id effect)
  | call agent ttlSecs now .claimNextReady =>
      (db.claimNextReadyTask chrono agent ttlSecs now).map (.map id effect)
  | call agent ttlSecs now .claimNextReview =>
      (db.claimNextReviewTask chrono agent ttlSecs now).map (.map id effect)
  | call agent ttlSecs now .renewClaimed =>
      (db.renewClaimedTaskLease chrono agent ttlSecs now).map (.map id LeaseRenewal.effect)
  | claimTask agent ttlSecs now renewNow task path =>
      (db.claimTaskInDatabase chrono task path agent ttlSecs now renewNow).map
        (fun (db, claim, stored) => (db, claim.effect task stored))
  | claimSession scope ttlSecs now canonicalize =>
      (db.claimExecutorSession canonicalize chrono scope ttlSecs now).map (.map id effect)
  | renewSession scope ttlSecs now canonicalize =>
      (db.renewExecutorSessionLease canonicalize chrono scope ttlSecs now).map (.map id LeaseRenewal.effect)

/-- The database after the event. -/
def apply (db : Database) (event : LeaseEvent) : Database × LeaseEffect :=
  match event.transaction chrono db with
  | .ok result => result
  | .error _ => (db, .none)

end LeaseEvent

end Ferrus.Runtime

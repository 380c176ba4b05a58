import Ferrus.Model.Runtime.Clock
import Mathlib.Data.List.MinMax
import Mathlib.Order.WithBot

/-! # Task claims and lease renewal

The claim transactions of `project/claims.rs`. Each takes the instants its `Utc::now()` calls return.
A deadline that cannot be represented panics inside the transaction, which rolls it back.
-/

namespace Ferrus.Runtime

/-- What a successful claim tells its agent. -/
structure TaskLease where
  taskId : TaskId
  taskPath : String
  status : TaskStatus
  pausedStatus : Option TaskStatus
  (checkRetries reviewCycles : Nat)
  failureReason : Option String
  claimedBy : AgentId
  leaseUntil : Instant
deriving DecidableEq, Repr

inductive ReadyTaskClaim where
  | claimed (lease : TaskLease)
  | alreadyClaimed (lease : TaskLease)
  | noAvailable
deriving DecidableEq, Repr

inductive TaskClaim where
  | claimed
  | alreadyClaimed
  | claimedByOther (claimedBy : AgentId)
deriving DecidableEq, Repr

inductive LeaseRenewal where
  | renewed (taskId : TaskId) (taskPath : String) (claimedBy : AgentId) (leaseUntil : Instant)
  | expired
  | notClaimed
deriving DecidableEq, Repr

/-- The lease a candidate row is reported with. -/
def TaskRow.lease (row : TaskRow) (id : TaskId) (agent : AgentId) (leaseUntil : Instant) : TaskLease where
  taskId := id
  taskPath := row.path
  status := row.status
  pausedStatus := row.pausedStatus
  checkRetries := asU32 row.checkRetries
  reviewCycles := asU32 row.reviewCycles
  failureReason := row.failureReason
  claimedBy := agent
  leaseUntil

/-- A claimed pending task starts to execute. -/
def TaskRow.promote (row : TaskRow) : TaskRow :=
  if row.status = .pending then { row with status := .executing, pausedStatus := none } else row

variable (chrono : Chrono)

def TaskRow.claim (row : TaskRow) (agent : AgentId) (leaseUntil now : Instant) : TaskRow :=
  { row with
    claimedBy := some agent
    leaseUntil := some (chrono.toRfc3339Secs leaseUntil)
    lastHeartbeat := some (chrono.toRfc3339Secs now) }

def TaskRow.renew (row : TaskRow) (leaseUntil now : Instant) : TaskRow :=
  { row with
    leaseUntil := some (chrono.toRfc3339Secs leaseUntil)
    lastHeartbeat := some (chrono.toRfc3339Secs now) }

namespace Database

variable (db : Database)

/-- The stored owner of a task. -/
def owner (id : TaskId) : Option AgentId := (db.task? id).bind (·.claimedBy)

/-- The stored lease text of a task. -/
def leaseUntil (id : TaskId) : Option String := (db.task? id).bind (·.leaseUntil)

def claimTaskInTransaction (id : TaskId) (agent : AgentId) (leaseUntil now : Instant) : Database :=
  (db.updateTask id (·.claim chrono agent leaseUntil now)).recordEvent "task_claimed"

/-- A deadline out of `chrono`'s range panics. -/
def overflowed : String := "`DateTime + TimeDelta` overflowed"

/-- Assign a new lease to a candidate. -/
def assignLease (id : TaskId) (candidate : TaskRow) (agent : AgentId) (ttlSecs : Nat) (now : Instant) :
    Except String (Database × ReadyTaskClaim) :=
  match chrono.leaseDeadline now ttlSecs with
  | none => .error overflowed
  | some leaseUntil =>
      .ok (db.claimTaskInTransaction chrono id agent leaseUntil now,
        .claimed (candidate.lease id agent leaseUntil))

/-- Promote a pending candidate when the caller asks for it. -/
def promotePendingTaskInTransaction (id : TaskId) (candidate : TaskRow) (promotePending : Bool) : Database × TaskRow :=
  if promotePending && candidate.status = .pending then
    ((db.updateTask id TaskRow.promote).recordEvent "task_scheduled", candidate.promote)
  else (db, candidate)

def claimReadyTaskInTransaction (id : TaskId) (agent : AgentId) (ttlSecs : Nat) (allowedStatuses : List TaskStatus)
    (promotePending : Bool) (now : Instant) : Except String (Database × ReadyTaskClaim) :=
  match db.task? id with
  | none => .ok (db, .noAvailable)
  | some candidate =>
      if candidate.status ∉ allowedStatuses then .ok (db, .noAvailable)
      else if chrono.leaseActive now candidate.leaseUntil ∧ candidate.claimedBy ≠ some agent then
        .ok (db, .noAvailable)
      else
        let (db, promoted) := db.promotePendingTaskInTransaction id candidate promotePending
        match (chrono.parseLeaseUntil candidate.leaseUntil).filter (now < ·) with
        | some leaseUntil =>
            if candidate.claimedBy = some agent then
              .ok (db, .alreadyClaimed (promoted.lease id agent leaseUntil))
            else db.assignLease chrono id promoted agent ttlSecs now
        | none => db.assignLease chrono id promoted agent ttlSecs now

def claimReadyTaskById (id : TaskId) (agent : AgentId) (ttlSecs : Nat) (now : Instant) :
    Except String (Database × ReadyTaskClaim) :=
  db.claimReadyTaskInTransaction chrono id agent ttlSecs [.pending, .executing, .addressing] true now

def claimReviewTaskById (id : TaskId) (agent : AgentId) (ttlSecs : Nat) (now : Instant) :
    Except String (Database × ReadyTaskClaim) :=
  db.claimReadyTaskInTransaction chrono id agent ttlSecs [.reviewing] false now

/-- Scan the queue in id order: the caller's own live lease first, then any task without one. -/
def claimNextTaskWithStatuses (agent : AgentId) (ttlSecs : Nat) (statuses : List TaskStatus) (promotePending : Bool)
    (now : Instant) : Except String (Database × ReadyTaskClaim) :=
  let candidates := db.tasks.select fun _ row => row.status ∈ statuses
  match candidates.find? (fun (_, row) =>
      chrono.leaseActive now row.leaseUntil && row.claimedBy = some agent) with
  | some (id, candidate) =>
      let (db, promoted) := db.promotePendingTaskInTransaction id candidate promotePending
      -- the scan accepted the row, so its lease parses
      .ok (db, .alreadyClaimed
        (promoted.lease id agent ((chrono.parseLeaseUntil candidate.leaseUntil).getD now)))
  | none =>
      match candidates.find? (fun (_, row) => !chrono.leaseActive now row.leaseUntil) with
      | some (id, candidate) =>
          let (db, promoted) := db.promotePendingTaskInTransaction id candidate promotePending
          db.assignLease chrono id promoted agent ttlSecs now
      | none => .ok (db, .noAvailable)

def claimNextReadyTask (agent : AgentId) (ttlSecs : Nat) (now : Instant) : Except String (Database × ReadyTaskClaim) :=
  db.claimNextTaskWithStatuses chrono agent ttlSecs [.pending, .executing, .addressing] true now

def claimNextReviewTask (agent : AgentId) (ttlSecs : Nat) (now : Instant) : Except String (Database × ReadyTaskClaim) :=
  db.claimNextTaskWithStatuses chrono agent ttlSecs [.reviewing] false now

/-- Renew the given lease if it is still live; the caller has already matched its owner. -/
def renewTaskLeaseInTransaction (id : TaskId) (ttlSecs : Nat) (existingLease : Option String) (now : Instant) :
    Except String (Database × Option Instant) :=
  if chrono.leaseActive now existingLease then
    match chrono.leaseDeadline now ttlSecs with
    | none => .error overflowed
    | some leaseUntil =>
        .ok ((db.updateTask id (·.renew chrono leaseUntil now)).recordEvent "task_lease_renewed",
          some leaseUntil)
  else .ok (db, none)

/-- `claim_task` with the deadline it stored. The renewal inside it reads the clock again. -/
def claimTaskInDatabase (id : TaskId) (path : String) (agent : AgentId) (ttlSecs : Nat) (now renewNow : Instant) :
    Except String (Database × TaskClaim × Option Instant) :=
  let db := db.ensureTaskExists id path
  let claimedBy := db.owner id
  let leaseUntil := db.leaseUntil id
  if chrono.leaseActive now leaseUntil then
    if claimedBy = some agent then
      (db.renewTaskLeaseInTransaction chrono id ttlSecs leaseUntil renewNow).map
        (fun (db, renewed) => (db, .alreadyClaimed, renewed))
    else .ok (db, .claimedByOther (claimedBy.getD "unknown"), none)
  else
    match chrono.leaseDeadline now ttlSecs with
    | none => .error overflowed
    | some deadline => .ok (db.claimTaskInTransaction chrono id agent deadline now, .claimed, some deadline)

/-- The source drops the deadline. -/
def claimTask (id : TaskId) (path : String) (agent : AgentId) (ttlSecs : Nat) (now renewNow : Instant) :
    Except String (Database × TaskClaim) :=
  (db.claimTaskInDatabase chrono id path agent ttlSecs now renewNow).map
    (fun (db, claim, _) => (db, claim))

/-- `ORDER BY lease_until DESC` with null last. -/
def leaseOrder (row : TaskRow) : WithBot String := row.leaseUntil.elim ⊥ WithBot.some

/-- The task an agent holds a lease on, live or not; the first id among equal lease texts. -/
def claimedTask? (agent : AgentId) : Option (TaskId × TaskRow) :=
  (db.tasks.select (fun _ row => row.claimedBy = some agent)).argmax
    (fun entry => leaseOrder entry.2)

def renewClaimedTaskLease (agent : AgentId) (ttlSecs : Nat) (now : Instant) : Except String (Database × LeaseRenewal) :=
  match db.claimedTask? agent with
  | none => .ok (db, .notClaimed)
  | some (id, row) =>
      (db.renewTaskLeaseInTransaction chrono id ttlSecs row.leaseUntil now).map fun (db, leaseUntil) =>
        (db, leaseUntil.elim .expired (.renewed id row.path agent))

end Database

end Ferrus.Runtime

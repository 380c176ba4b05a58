import Ferrus.Model.Runtime.Runs
import Ferrus.Model.Runtime.Waits

/-! # Recovery of expired task leases

`recover_expired_task_leases` runs outside of a transaction: it reads the clock and the live runs,
lists the expired leases, and then clears them with one statement each. Other processes may commit
between any two of these statements. `recover_runtime_state` first interrupts the dead runs and at last
records the human answers that are already on disk; its preview counts with queries of its own.
-/

namespace Ferrus.Runtime

/-- A lease as the listing saw it. -/
structure ListedLease where
  taskId : TaskId
  claimedBy : AgentId
  leaseUntil : Option String
deriving DecidableEq, Repr

namespace Database

/-- The tasks with an active run whose process is alive. -/
def liveActiveRunTaskIds (db : Database) (processIsAlive : Nat → Bool) : List TaskId :=
  (db.runs.select (fun _ run => run.status.isActive && run.pid.any processIsAlive)).map (·.2.taskId)

/-- The claimed tasks whose lease is not live and that no live process works on. -/
def expiredLeases (db : Database) (chrono : Chrono) (now : Instant) (liveTasks : List TaskId) : List ListedLease :=
  (db.tasks.select (fun id row => !chrono.leaseActive now row.leaseUntil && id ∉ liveTasks)).filterMap
    (fun (id, row) => row.claimedBy.map fun agent => ⟨id, agent, row.leaseUntil⟩)

theorem mem_expiredLeases {db : Database} {chrono : Chrono} {now : Instant} {liveTasks : List TaskId}
    {lease : ListedLease} (listed : lease ∈ db.expiredLeases chrono now liveTasks) :
    chrono.leaseActive now lease.leaseUntil = false := by
  obtain ⟨⟨id, row⟩, selected, made⟩ := List.mem_filterMap.mp listed
  obtain ⟨agent, _, rfl⟩ := Option.map_eq_some_iff.mp made
  have expired := (db.tasks.mem_select.mp selected).2
  simp only [Bool.and_eq_true, Bool.not_eq_true'] at expired
  exact expired.1

end Database

/-! ## Recovery as a whole -/

/-- What recovery reads besides the database. -/
structure RecoveryInputs where
  chrono : Chrono
  now : Instant
  processIsAlive : Nat → Bool
  timestamp : RunId → String
  /-- The answer file of the task is not blank. -/
  answered : TaskId → Bool

structure RuntimeRecovery where
  (interruptedRuns expiredTaskLeases : Nat)
deriving DecidableEq, Repr

namespace Database

variable (inputs : RecoveryInputs) (db : Database)

/-- The active runs without a live process. -/
def interruptedRuns : List RunId :=
  (db.runs.select (fun _ run => run.status.isActive && !run.pid.any inputs.processIsAlive)).map (·.1)

/-- The event names a run that was just listed, so nothing refuses it. -/
def interruptListedRun (id : RunId) : Database :=
  { db.interruptRun id (inputs.timestamp id) with events := db.events ++ [⟨some id, "run_interrupted"⟩] }

def recoverInterruptedRuns : Database × Nat :=
  let interrupted := db.interruptedRuns inputs
  (interrupted.foldl (interruptListedRun inputs) db, interrupted.length)

def recoverExpiredTaskLeases : Database × Nat :=
  let expired := db.expiredLeases inputs.chrono inputs.now (db.liveActiveRunTaskIds inputs.processIsAlive)
  (expired.foldl (fun db lease => (db.clearTaskLease lease.taskId).recordEvent "task_lease_expired") db, expired.length)

/-- The tasks that wait for a human and whose answer is not recorded. -/
def listHumanQuestions : List TaskId :=
  (db.tasks.select (fun _ row => row.status = .awaitingHuman && !row.humanAnswerRecorded)).map (·.1)

/-- A listed task waits, so `record_task_human_answer` finds its row. -/
def recoverRecordedHumanAnswers : Database :=
  (db.listHumanQuestions.filter inputs.answered).foldl
    (fun db id => (db.updateTask id (·.markAnswer true)).recordEvent "task_human_answer_recorded") db

def recoverRuntimeState : Database × RuntimeRecovery :=
  let (db, interruptedRuns) := db.recoverInterruptedRuns inputs
  let (db, expiredTaskLeases) := db.recoverExpiredTaskLeases inputs
  (db.recoverRecordedHumanAnswers inputs, ⟨interruptedRuns, expiredTaskLeases⟩)

def previewInterruptedRuns : Nat :=
  (db.runs.select (fun _ run => run.status.isActive && run.pid.all (!inputs.processIsAlive ·))).length

def previewExpiredTaskLeases : Nat :=
  let liveTasks := db.liveActiveRunTaskIds inputs.processIsAlive
  (db.tasks.select (fun id row => row.claimedBy.isSome &&
    (inputs.chrono.parseLeaseUntil row.leaseUntil).all (· ≤ inputs.now) && id ∉ liveTasks)).length

def previewRuntimeRecovery : RuntimeRecovery :=
  ⟨db.previewInterruptedRuns inputs, db.previewExpiredTaskLeases inputs⟩

end Database

/-- Where a recovery pass is between its statements. -/
inductive RecoveryPhase where
  | listing (liveTasks : List TaskId)
  | clearing (expired : List ListedLease)
  /-- The event of the lease just cleared is still to be written. -/
  | recording (rest : List ListedLease)
deriving DecidableEq, Repr

/-- The leases a pass has still to clear. -/
def RecoveryPhase.pending : RecoveryPhase → List ListedLease
  | .listing _ => []
  | .clearing expired => expired
  | .recording rest => rest

end Ferrus.Runtime

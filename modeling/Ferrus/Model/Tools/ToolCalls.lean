import Ferrus.Machine.Core.Run
import Ferrus.Model.Runtime.TaskTransitions
import Ferrus.Model.Runtime.Waits
import Ferrus.Model.Runtime.TaskContext

/-! # MCP tool calls as interleaved steps

A tool call reads the runtime context and checks its status, resolves the lease from a second read,
claims it, works for as long as its checks or git commands take, and then writes. Every statement or
transaction is one step, and the steps of any number of calls interleave. The write uses the task id
of the first read and does not look at the status again.
-/

namespace Ferrus.Tools

open Ferrus.Runtime

inductive Tool where
  | submit | check | approve | reject | askHuman | consult | reset
deriving DecidableEq, Repr

/-- The statuses the tool's own guard lets through. -/
def Tool.accepts : Tool → TaskStatus → Bool
  | submit, status | check, status => status.isExecutorWorking
  | approve, status | reject, status => status = .reviewing
  | askHuman, status =>
      status = .executing || status = .addressing || status = .consultation || status = .reviewing
  | consult, status => status = .executing || status = .addressing
  | reset, status => status = .failed

/-- The error of a refused call. -/
def Tool.refusal (tool : Tool) (context : RuntimeTaskContext) : String :=
  let status := context.status.asStr
  let task := context.taskId
  match tool with
  | submit =>
      s!"Cannot submit from state {status}. Submit is only valid from Executing or Addressing " ++
        "after the implementation is ready."
  | check =>
      s!"Cannot run checks from state {status}. Checks are only valid in Executing or Addressing state."
  | approve => s!"Cannot approve from state {status}. Call /review_pending first."
  | reject => s!"Cannot reject from state {status}. Call /review_pending first."
  | askHuman =>
      s!"Cannot ask human from state {status}. /ask_human is only available while active work is in progress."
  | consult =>
      s!"Cannot consult from state {status}. Consultation is only available while executing work."
  | reset =>
      s!"Cannot reset task {task} from status {status}. Reset is only available for failed tasks."

/-- A supervisor may ask during a consultation without holding the executor's lease. -/
def Tool.needsLease (tool : Tool) (agent : AgentId) (status : TaskStatus) : Bool :=
  match tool with
  | reset => false
  | askHuman => !("supervisor:".toList.isPrefixOf agent.toList && status = .consultation)
  | _ => true

/-- The values of `ferrus.toml` a call loads when it starts. -/
structure ToolConfig where
  (ttlSecs maxCheckRetries maxReviewCycles : Nat)
deriving DecidableEq, Repr

/-- How far a call has come. -/
inductive Phase where
  | guarded
  | leaseResolved (taskId : TaskId) (taskPath : String)
  | working
  | checksPassed
  | statusRecorded
deriving DecidableEq, Repr

structure ToolCall where
  agent : AgentId
  tool : Tool
  config : ToolConfig
  context : RuntimeTaskContext
  phase : Phase
deriving DecidableEq, Repr

/-- The first read of a call and its guard. -/
def beginCall (db : Database) (agent : AgentId) (tool : Tool) (config : ToolConfig) :
    Except String ToolCall := do
  let context ← db.requireRuntimeTaskContext agent
  if tool.accepts context.status then
    return { agent, tool, config, context,
             phase := if tool.needsLease agent context.status then .guarded else .working }
  else throw (tool.refusal context)

/-- Where a human question returns to, and what the pause below it returns to. -/
def humanPauseContext (context : RuntimeTaskContext) : TaskStatus × Option TaskStatus :=
  if context.status = .consultation then (.consultation, context.pausedStatus)
  else (context.status, some context.status)

/-- What the work of a call came to. -/
inductive Work where
  | checkGate (failure : Option String)
  | submission (frozenView : Option RepositoryViewReference) (freezeFailed : Bool)
  | done
deriving DecidableEq, Repr

/-- The next write of a call, with the phase it leaves the call in. -/
def ToolCall.write (call : ToolCall) (db : Database) (work : Work) : Option (Except String Database × Option Phase) :=
  let id := call.context.taskId
  let path := call.context.taskPath
  match call.tool, call.phase, work with
  | .submit, .working, .checkGate (some failure) | .check, .working, .checkGate (some failure) =>
      some (.ok (db.taskCheckFailedInTransaction id failure call.config.maxCheckRetries).1, none)
  | .submit, .working, .checkGate none =>
      some (.ok (db.taskCheckPassedInTransaction id), some .checksPassed)
  | .submit, .checksPassed, .submission frozenView freezeFailed =>
      some (db.taskSubmittedInTransaction id path call.context.runId frozenView freezeFailed, none)
  | .check, .working, .checkGate none => some (.ok (db.taskCheckPassedInTransaction id), none)
  | .approve, .working, .done =>
      some (.ok (db.upsertTask id path .complete none none), some .statusRecorded)
  | .reset, .working, .done =>
      some (.ok (db.upsertTask id path .reset none none), some .statusRecorded)
  | .approve, .statusRecorded, .done | .reset, .statusRecorded, .done =>
      some (.ok ((db.clearTaskLease id).recordEvent "task_status_changed"), none)
  | .reject, .working, .done =>
      some (.ok (db.recordTaskReviewRejectedInTransaction id call.config.maxReviewCycles).1, none)
  | .consult, .working, .done =>
      some (.ok (db.taskConsultationInTransaction id call.context.status), none)
  | .askHuman, .working, .done =>
      let (resumeStatus, pausedStatus) := humanPauseContext call.context
      some (.ok (db.taskHumanQuestionInTransaction id resumeStatus pausedStatus call.agent), none)
  | _, _, _ => none

/-- Whether the next write of a call records a status; a check failure does at its limit. -/
def ToolCall.recordsStatus (call : ToolCall) (db : Database) (work : Work) : Bool :=
  match call.tool, call.phase, work with
  | .submit, .working, .checkGate (some _) | .check, .working, .checkGate (some _) =>
      call.config.maxCheckRetries ≤ u32Succ (db.taskCheckRetries call.context.taskId)
  | .submit, .checksPassed, .submission _ _ => true
  | .approve, .working, .done | .reset, .working, .done | .reject, .working, .done
  | .consult, .working, .done | .askHuman, .working, .done => true
  | _, _, _ => false

structure ToolState where
  db : Database
  calls : Table Nat ToolCall

inductive ToolEvent where
  | start (call : Nat) (agent : AgentId) (tool : Tool) (config : ToolConfig)
  | resolveLease (call : Nat)
  | claimLease (call : Nat) (now renewNow : Instant)
  | write (call : Nat) (work : Work)
deriving DecidableEq, Repr

namespace ToolState

section

variable (state : ToolState)

/-- A call that has failed or returned takes no further step. -/
def endCall (id : Nat) : ToolState :=
  { state with calls := state.calls.deleteWhere (fun other _ => other = id) }

def setPhase (id : Nat) (phase : Phase) : ToolState :=
  { state with calls := state.calls.modify id (fun call => { call with phase }) }

/-- Continue a call in its next phase, or end it. -/
def continueCall (id : Nat) : Option Phase → ToolState
  | some phase => state.setPhase id phase
  | none => state.endCall id

def start (id : Nat) (agent : AgentId) (tool : Tool) (config : ToolConfig) : ToolState :=
  match state.calls.get? id, beginCall state.db agent tool config with
  | none, .ok call => { state with calls := state.calls.insertNew id call }
  | _, _ => state

/-- `ensure_lease_owner_or_reclaim` reads the context once more. -/
def resolveLease (id : Nat) (call : ToolCall) : ToolState :=
  if call.phase = .guarded then
    match state.db.requireRuntimeTaskContext call.agent with
    | .ok context => state.setPhase id (.leaseResolved context.taskId context.taskPath)
    | .error _ => state.endCall id
  else state

end

variable (chrono : Chrono)

/-- A lease held by another agent ends the call with an error. -/
def claimLease (state : ToolState) (id : Nat) (call : ToolCall) (now renewNow : Instant) : ToolState :=
  match call.phase with
  | .leaseResolved taskId taskPath =>
      match state.db.claimTask chrono taskId taskPath call.agent call.config.ttlSecs now renewNow with
      | .ok (db, .claimedByOther _) => { state with db }.endCall id
      | .ok (db, _) => { state with db }.setPhase id .working
      | .error _ => state.endCall id
  | _ => state

def write (state : ToolState) (id : Nat) (call : ToolCall) (work : Work) : ToolState :=
  match call.write state.db work with
  | some (.ok db, next) => { state with db }.continueCall id next
  | some (.error _, _) => state.endCall id
  | none => state

/-- One step of one call. -/
def step (state : ToolState) : ToolEvent → ToolState
  | .start id agent tool config => state.start id agent tool config
  | .resolveLease id => (state.calls.get? id).elim state (state.resolveLease id)
  | .claimLease id now renewNow =>
      (state.calls.get? id).elim state (state.claimLease chrono id · now renewNow)
  | .write id work => (state.calls.get? id).elim state (state.write id · work)

/-- The call that records a status in this step. -/
def recorder? (state : ToolState) : ToolEvent → Option ToolCall
  | .write id work => (state.calls.get? id).filter (·.recordsStatus state.db work)
  | _ => none

end ToolState

end Ferrus.Tools

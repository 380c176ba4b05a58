import Ferrus.Machine.Core.Calls
import Ferrus.Model.Runtime.Runs
import Mathlib.Logic.Embedding.Basic

/-! # Executor sessions in one shared workspace

HQ reserves the workspace for a run under its own pid, spawns the child, and moves the run to the child's
pid when it records the start. A reservation that does not get that far is released when it is dropped.
Recovery lists the active runs, probes their processes and interrupts the dead ones one by one. Any number
of HQ processes do this at once, and each may die between any two steps.

A process id stands for one process: it does not come back after the process has exited. A run counts as
live as long as its row is active and its process has not exited.
-/

namespace Ferrus.Hq

open Ferrus.Runtime Ferrus.Machine

/-- The database and the processes that have exited. `started` is the history of recorded starts; no step
reads it. -/
structure Sessions where
  db : Database
  exited : List Nat
  started : List RunId

def Sessions.processIsAlive (state : Sessions) (pid : Nat) : Bool := pid ∉ state.exited

/-- What HQ records about a session it starts. -/
structure SessionSpawn where
  agent : AgentId
  workspacePath : String
  task : TaskId
deriving DecidableEq, Repr

/-- A session that HQ starts or watches, or a recovery, with the pid of the HQ process. -/
inductive SessionCall where
  | reserved (hq : Nat) (spawn : SessionSpawn)
  | spawned (hq : Nat) (spawn : SessionSpawn) (pid : Nat)
  | tasked (hq : Nat) (spawn : SessionSpawn) (pid : Nat)
  | recorded (hq : Nat) (pid : Nat)
  | running (hq : Nat) (pid : Nat)
  | recovering (hq : Nat) (pending : List (RunId × Option Nat)) (interrupted : List RunId)
deriving DecidableEq, Repr

inductive SessionRequest where
  | spawn (hq : Nat) (spawn : SessionSpawn) (timestamp : String)
  | recover (hq : Nat)
deriving DecidableEq, Repr

inductive SessionAction where
  | spawnChild (pid : Nat)
  | ensureTask
  | insertRun (timestamp : String)
  | started
  /-- The setup fails; the child is killed and the reservation is dropped. -/
  | fail (timestamp : String)
  /-- The monitor has seen the child exit. -/
  | finish (exitCode : Int) (timestamp : String)
  | probe
  | interrupt (timestamp : String)
deriving DecidableEq, Repr

/-- What other processes do to the runs. -/
inductive SessionEvent where
  | exit (pid : Nat)
  | startSupervisor (runId : RunId) (agent : AgentId) (pid : Nat) (task : TaskId)
      (workspacePath timestamp : String)
  | attachRun (runId : RunId) (task : TaskId) (timestamp : String)
deriving DecidableEq, Repr

def SessionCall.hq : SessionCall → Nat
  | reserved hq .. | spawned hq .. | tasked hq .. | recorded hq .. | running hq .. | recovering hq .. => hq

/-- The rows of `SELECT id, pid FROM runs WHERE status IN ('running', 'checking', 'reviewing')`. -/
def activeRuns (db : Database) : List (RunId × Option Nat) :=
  (db.runs.select (fun _ run => run.status.isActive)).map fun (id, run) => (id, run.pid)

variable (runIds : ℕ ↪ RunId)

def enterSession (state : Sessions) (id : ℕ) : SessionRequest → Option (Sessions × SessionCall)
  | .spawn hq spawn timestamp =>
      if state.processIsAlive hq then
        match state.db.reserveExecutorSession state.processIsAlive (runIds id) spawn.agent
          spawn.workspacePath spawn.task true hq timestamp with
        | .ok db => some ({ state with db }, .reserved hq spawn)
        | .error _ => none
      else none
  | .recover hq => some (state, .recovering hq (activeRuns state.db) [])

/-- One step of a session or a recovery whose HQ process is alive. -/
def moveSession (state : Sessions) (id : ℕ) (call : SessionCall) (action : SessionAction) :
    Option (Sessions × Option SessionCall) :=
  match call, action with
  | .reserved hq spawn, .spawnChild pid => some (state, some (.spawned hq spawn pid))
  | .spawned hq spawn pid, .ensureTask =>
      some ({ state with db := state.db.ensureTaskExists spawn.task (defaultTaskPathForId spawn.task) },
        some (.tasked hq spawn pid))
  | .tasked hq spawn pid, .insertRun timestamp =>
      some ({ state with
        db := state.db.insertStartedRun (runIds id) .executor spawn.agent pid spawn.task
          spawn.workspacePath timestamp
        started := runIds id :: state.started }, some (.recorded hq pid))
  | .recorded hq pid, .started => some (state, some (.running hq pid))
  | .reserved _ _, .fail timestamp =>
      some ({ state with db := state.db.releaseExecutorSession (runIds id) timestamp }, none)
  | .spawned _ _ pid, .fail timestamp | .tasked _ _ pid, .fail timestamp =>
      some ({ state with
        db := state.db.releaseExecutorSession (runIds id) timestamp
        exited := pid :: state.exited }, none)
  | .recorded _ pid, .fail timestamp =>
      some ({ state with
        db := (state.db.finishRun (runIds id) (-1) timestamp).releaseExecutorSession (runIds id) timestamp
        exited := pid :: state.exited }, none)
  | .running _ pid, .finish exitCode timestamp =>
      if state.processIsAlive pid then none
      else some ({ state with db := state.db.finishRun (runIds id) exitCode timestamp }, none)
  | .recovering hq ((runId, pid) :: pending) interrupted, .probe =>
      some (state, some (.recovering hq pending
        (if pid.any state.processIsAlive then interrupted else interrupted ++ [runId])))
  | .recovering hq [] (runId :: interrupted), .interrupt timestamp =>
      some ({ state with db := state.db.interruptRun runId timestamp },
        some (.recovering hq [] interrupted))
  | _, _ => none

def actSession (state : Sessions) (id : ℕ) (call : SessionCall) (action : SessionAction) :
    Option (Sessions × Option SessionCall) :=
  if state.processIsAlive call.hq then moveSession runIds state id call action else none

def sessionEvent (state : Sessions) : SessionEvent → Sessions
  | .exit pid => { state with exited := pid :: state.exited }
  | .startSupervisor runId agent pid task workspacePath timestamp =>
      if (state.db.run? runId).isNone then
        { state with
          db := state.db.insertStartedRun runId .supervisor agent pid task workspacePath timestamp }
      else state
  | .attachRun runId task timestamp =>
      match state.db.attachRunToTask runId task timestamp with
      | .ok db => { state with db }
      | .error _ => state

/-- The sessions of all HQ processes of a project. Every run gets an id of its own. -/
def sessions : CallSystem Sessions SessionCall SessionRequest SessionAction SessionEvent where
  enter := enterSession runIds
  act := actSession runIds
  env := sessionEvent

end Ferrus.Hq

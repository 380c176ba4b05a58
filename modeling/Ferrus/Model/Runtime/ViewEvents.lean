import Ferrus.Model.Runtime.Artifacts
import Ferrus.Model.Runtime.LeaseEvents
import Ferrus.Model.Runtime.Runs
import Ferrus.Model.Runtime.TaskOps
import Ferrus.Model.Runtime.ViewRecords

/-! # The writers of view columns as events

One event for each transaction or statement that may write the view columns of a task or a run, and for
those that change the rows around them. An attachment chooses its run and writes it in two statements.
-/

namespace Ferrus.Runtime

/-- The view a submission brings. -/
def TaskOp.frozenView? : TaskOp → Option RepositoryViewReference
  | .submit _ _ frozenView _ => frozenView
  | _ => none

/-- The view that a committed submission has recorded. -/
def TaskEvent.submittedView? (db : Database) (event : TaskEvent) : Option RepositoryViewReference :=
  match event.op with
  | .submit path runId frozenView freezeFailed =>
      (db.taskSubmittedInTransaction event.task path runId frozenView freezeFailed).toOption.bind
        (fun _ => frozenView)
  | _ => none

/-- The view of a row whose view columns have their defaults. -/
def RepositoryViewReference.unbuilt : RepositoryViewReference := ⟨none, none, none, none, .mutable, .notBuilt⟩

/-- The database, the views recorded so far, and the runs chosen by attachments that are under way. -/
structure ViewState where
  db : Database
  recorded : List RepositoryViewReference
  attaching : Table Nat (RunId × TaskId)

def ViewState.start : ViewState := ⟨.empty, [.unbuilt], .empty⟩

inductive ViewEvent where
  | record (owner : ViewOwner) (id : String) (view : RepositoryViewReference)
  | compareAndRecord (task : TaskId) (expected view : RepositoryViewReference)
  | task (event : TaskEvent)
  | lease (event : LeaseEvent)
  | finalize (task : TaskId) (specPath milestoneId : Option String)
  | discard (task : TaskId)
  | ensureTask (task : TaskId) (path : String)
  | reserveSession (processIsAlive : Nat → Bool) (runId : RunId) (agent : AgentId) (workspacePath : String)
      (task : TaskId) (sharedWorkspace : Bool) (pid : Nat) (timestamp : String)
  | startRun (runId : RunId) (role : RunRole) (agent : AgentId) (pid : Nat) (task : TaskId)
      (workspacePath timestamp : String)
  | chooseRun (call : Nat) (agent : AgentId) (task : TaskId)
  | attachRun (call : Nat) (timestamp : String)
  | attachNextConsultation (agent : AgentId) (timestamp : String)
  | attachConsultation (task : TaskId) (agent : AgentId) (timestamp : String)
  | finishRun (runId : RunId) (exitCode : Int) (timestamp : String)
  | interruptRun (runId : RunId) (timestamp : String)
  | releaseSession (runId : RunId) (timestamp : String)
  | runEvent (runId : Option RunId) (eventType : String)
  | retireLegacy (timestamp : String)

def viewStep (chrono : Chrono) (state : ViewState) : ViewEvent → ViewState
  | .record owner id view =>
      match state.db.recordRepositoryView owner id view with
      | .ok next => { state with db := next, recorded := view :: state.recorded }
      | .error _ => state
  | .compareAndRecord task expected view =>
      match state.db.compareAndRecordTaskRepositoryView task expected view with
      | .ok (next, true) => { state with db := next, recorded := view :: state.recorded }
      | .ok (next, false) => { state with db := next }
      | .error _ => state
  | .task event =>
      { state with
        db := event.apply state.db
        recorded := (event.submittedView? state.db).toList ++ state.recorded }
  | .lease event => { state with db := (event.apply chrono state.db).1 }
  | .finalize task specPath milestoneId =>
      match state.db.finalizeTaskArtifactReservation task specPath milestoneId with
      | .ok next => { state with db := next }
      | .error _ => state
  | .discard task =>
      match state.db.discardTaskArtifactReservation task with
      | .ok next => { state with db := next }
      | .error _ => state
  | .ensureTask task path => { state with db := state.db.ensureTaskExists task path }
  | .reserveSession processIsAlive runId agent workspacePath task sharedWorkspace pid timestamp =>
      match state.db.reserveExecutorSession processIsAlive runId agent workspacePath task sharedWorkspace
        pid timestamp with
      | .ok next => { state with db := next }
      | .error _ => state
  | .startRun runId role agent pid task workspacePath timestamp =>
      { state with db := state.db.insertStartedRun runId role agent pid task workspacePath timestamp }
  | .chooseRun call agent task =>
      match state.db.runToAttach? agent with
      | some runId => { state with attaching := state.attaching.put call (runId, task) }
      | none => state
  | .attachRun call timestamp =>
      match state.attaching.get? call with
      | some (runId, task) =>
          match state.db.attachRunToTask runId task timestamp with
          | .ok next => { state with db := next }
          | .error _ => state
      | none => state
  | .attachNextConsultation agent timestamp =>
      match state.db.attachRunningRunToNextConsultation agent timestamp with
      | .ok (next, _) => { state with db := next }
      | .error _ => state
  | .attachConsultation task agent timestamp =>
      match state.db.attachRunningRunToConsultation task agent timestamp with
      | .ok (next, _) => { state with db := next }
      | .error _ => state
  | .finishRun runId exitCode timestamp => { state with db := state.db.finishRun runId exitCode timestamp }
  | .interruptRun runId timestamp => { state with db := state.db.interruptRun runId timestamp }
  | .releaseSession runId timestamp => { state with db := state.db.releaseExecutorSession runId timestamp }
  | .runEvent runId eventType =>
      match state.db.insertEvent runId eventType with
      | .ok next => { state with db := next }
      | .error _ => state
  | .retireLegacy timestamp => { state with db := state.db.retireLegacyCurrentTaskRow timestamp }

end Ferrus.Runtime

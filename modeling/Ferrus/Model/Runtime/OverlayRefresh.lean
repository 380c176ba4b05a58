import Ferrus.Model.Runtime.TaskOps
import Ferrus.Model.Runtime.ViewRecords

/-! # Overlay refreshes and baseline pins

A refresh of a task overlay and the pin of its baseline read the stored view, work on the graph sidecar
for as long as it takes, and then record a new view if the stored one is still the one they read. The
sidecar's part is an input. Only the fallback of a pin that cannot be prepared records without comparing.
-/

namespace Ferrus.Runtime

open RepositoryViewReference

/-- Why the sidecar's part of a refresh or pin gave no snapshot. -/
inductive SidecarError where
  | refreshAlreadyInProgress
  | failed (message : String)
deriving DecidableEq, Repr

/-- What a refresh found before and during its indexing. `indexed` is `none` if the sources need no
overlay. -/
inductive OverlayIndexing where
  | disabled
  | unprepared (message : String)
  | indexed (overlay : Option (OverlayRevisionId × SnapshotId))
  | stopped (error : SidecarError)
deriving DecidableEq, Repr

/-- The sidecar's answer about the snapshot that a view pins. -/
inductive PinnedBaseline where
  | retained | gone
  | unreadable (message : String)
deriving DecidableEq, Repr

/-- The inputs of a baseline resolution. `built` is used only if the graph is enabled and the task has
a baseline tree. -/
structure BaselineAttempt where
  pinned : PinnedBaseline
  buildable : Bool
  built : Except SidecarError SnapshotId

namespace Database

variable (db : Database)

/-- The view read again by a refresh that another writer has overtaken. -/
def currentTaskView (task : TaskId) : Except String RepositoryViewReference := do
  match ← db.ownerRepositoryView .tasks task with
  | some view => return view
  | none => throw "task repository view disappeared during refresh"

/-- Record `view` over `existing`. Where another writer was first, the refresh returns the stored view,
and otherwise `outcome`. -/
def recordRefreshed (task : TaskId) (existing view : RepositoryViewReference)
    (outcome : Except String RepositoryViewReference) : Database × Except String RepositoryViewReference :=
  match db.compareAndRecordTaskRepositoryView task existing view with
  | .error message => (db, .error message)
  | .ok (db, false) => (db, db.currentTaskView task)
  | .ok (db, true) => (db, outcome)

def refreshTaskOverlayWithContext (task : TaskId) (existing : RepositoryViewReference) (indexing : OverlayIndexing) :
    Database × Except String RepositoryViewReference :=
  match indexing, existing.baselineSnapshotId with
  | .disabled, _ => (db, .ok existing)
  | _, none => (db, .error "task repository graph baseline is unavailable")
  | .unprepared message, some _ => (db, .error message)
  | .indexed overlay, some baseline =>
      match materialized baseline (overlay.map (·.1))
        (overlay.elim baseline (·.2)) .available with
      | .ok view => db.recordRefreshed task existing view (.ok view)
      | .error message => (db, .error message)
  | .stopped .refreshAlreadyInProgress, some _ =>
      (db, .error "repository graph refresh is already in progress for this view")
  | .stopped (.failed message), some _ =>
      db.recordRefreshed task existing { existing.mutableSuccessor with status := .stale }
        (.error message)

end Database

variable (existing : Option RepositoryViewReference)

def resolveTaskBaseline (attempt : BaselineAttempt) : Except SidecarError RepositoryViewReference :=
  let build :=
    if attempt.buildable then
      match attempt.built with
      | .error error => .error error
      | .ok snapshot => (materialized snapshot none snapshot .available).mapError .failed
    else (new none none .unavailable).mapError .failed
  match existing.filter (·.baselineSnapshotId.isSome), attempt.pinned with
  | some view, .retained => .ok view.mutableSuccessor
  | some _, .unreadable message => .error (.failed message)
  | _, _ => build

/-- The view a pin records for what it resolved. -/
def resolvedRepositoryView (resolved : Except SidecarError RepositoryViewReference) : RepositoryViewReference :=
  match resolved with
  | .ok view => view
  | .error .refreshAlreadyInProgress => existing.getD ⟨none, none, none, none, .mutable, .notBuilt⟩
  | .error (.failed _) =>
      match existing with
      | some view =>
          if view.baselineSnapshotId.isSome then { view.mutableSuccessor with status := .stale }
          else ⟨none, none, none, none, .mutable, .failed⟩
      | none => ⟨none, none, none, none, .mutable, .failed⟩

namespace Database

def compareAndRecordTaskBaseline (db : Database) (task : TaskId)
    (expected : Option RepositoryViewReference) (view : RepositoryViewReference) : Except String (Database × Bool) :=
  match expected with
  | none => .ok (db, false)
  | some expected => db.compareAndRecordTaskRepositoryView task expected view

end Database

/-! ## Calls -/

/-- A refresh or pin under way. A check or submission passes its guard before it reads the view. -/
inductive ViewCall where
  | guarded (task : TaskId)
  | refreshing (task : TaskId) (existing : RepositoryViewReference)
  | pinning (task : TaskId) (existing : Option RepositoryViewReference)
deriving DecidableEq, Repr

structure OverlayState where
  db : Database
  calls : Table Nat ViewCall

inductive OverlayEvent where
  /-- The guard of a check or submission. -/
  | beginCheck (call : Nat) (task : TaskId)
  /-- `refresh_task_overlay` of a guarded call reads the view. -/
  | readView (call : Nat)
  /-- A native session reads the view together with its authorization. -/
  | authorizeRefresh (call : Nat) (task : TaskId)
  | finishRefresh (call : Nat) (indexing : OverlayIndexing)
  | scheduleBaselinePin (call : Nat) (task : TaskId)
  /-- The graph context of the pin could not be loaded. -/
  | recordUnpreparedPin (call : Nat) (message : String)
  | finishBaselinePin (call : Nat) (attempt : BaselineAttempt)
  | task (event : TaskEvent)

namespace OverlayState

variable (state : OverlayState)

def endCall (call : Nat) : OverlayState :=
  { state with calls := state.calls.deleteWhere (fun other _ => other = call) }

def begin (call : Nat) (entry : ViewCall) : OverlayState :=
  { state with calls := state.calls.put call entry }

def step : OverlayEvent → OverlayState
  | .beginCheck call task =>
      match state.db.status? task with
      | some status => if status.isExecutorWorking then state.begin call (.guarded task) else state
      | none => state
  | .readView call =>
      match state.calls.get? call with
      | some (.guarded task) =>
          match state.db.ownerRepositoryView .tasks task with
          | .ok (some view) => state.begin call (.refreshing task view)
          | _ => state.endCall call
      | _ => state
  | .authorizeRefresh call task =>
      match state.db.ownerRepositoryView .tasks task with
      | .ok (some view) => state.begin call (.refreshing task view)
      | _ => state
  | .finishRefresh call indexing =>
      match state.calls.get? call with
      | some (.refreshing task existing) =>
          { state with db := (state.db.refreshTaskOverlayWithContext task existing indexing).1 }.endCall call
      | _ => state
  | .scheduleBaselinePin call task =>
      state.begin call (.pinning task (state.db.ownerRepositoryView .tasks task).toOption.join)
  | .recordUnpreparedPin call message =>
      match state.calls.get? call with
      | some (.pinning task existing) =>
          let view := resolvedRepositoryView existing (.error (.failed message))
          { state with
            db := (state.db.recordRepositoryView .tasks task view).toOption.getD state.db }.endCall call
      | _ => state
  | .finishBaselinePin call attempt =>
      match state.calls.get? call with
      | some (.pinning task existing) =>
          let view := resolvedRepositoryView existing (resolveTaskBaseline existing attempt)
          { state with
            db := state.db.commit (state.db.compareAndRecordTaskBaseline task existing view) }.endCall call
      | _ => state
  | .task event => { state with db := event.apply state.db }

end OverlayState

end Ferrus.Runtime

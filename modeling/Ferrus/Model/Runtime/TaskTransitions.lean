import Ferrus.Model.Runtime.Database

/-! # Task transitions

The writers of `project/task.rs`. Each takes the task by id and checks no status of its own: a caller
that needs a starting status reads it before. `recordTaskStatus` runs in autocommit mode, so its two
writes are also available as separate statements; every other writer is one transaction.
-/

namespace Ferrus.Runtime

open Option TaskRow

inductive TaskCheckFailure where
  | failed (retries : Nat)
  | limitExceeded (retries : Nat)
deriving DecidableEq, Repr

inductive TaskReviewRejection where
  | addressing (cycles : Nat)
  | limitExceeded (cycles : Nat)
deriving DecidableEq, Repr

inductive ExecutorDispatchOutcome where
  | proceed
  | limitExceeded (dispatches : Nat)
deriving DecidableEq, Repr

/-- The row of a task that a limit has failed. -/
def TaskRow.fail (row : TaskRow) (reason : String) : TaskRow :=
  { row.clearLease with status := .failed, failureReason := some reason }

/-- The row after a rejection that leaves review cycles: a new work phase on a mutable view. -/
def TaskRow.readdress (row : TaskRow) (cycles : Nat) : TaskRow :=
  { row.clearLease with
    status := .addressing
    reviewCycles := cycles
    checkRetries := 0
    executorDispatches := 0
    failureReason := none
    view := { row.view with treeAlgorithm := none, treeDigest := none, lifecycle := "mutable" } }

namespace Database

variable (db : Database) (id : TaskId)

/-- Record a status on one connection, inside a transaction or not. -/
def recordTaskStatusOnConnection (path : String) (status : TaskStatus) (specPath milestoneId : Option String) :
    Database :=
  let db := db.upsertTask id path status specPath milestoneId
  let db := if status.clearsLease then db.clearTaskLease id else db
  db.recordEvent "task_status_changed"

/-- Write a view into the columns of a task or run; the row has to exist. -/
def updateTaskRepositoryView (view : RepositoryViewReference) : Except String Database :=
  match db.task? id with
  | some _ => .ok (db.updateTask id fun row => { row with view := view.encode })
  | none => .error "Cannot record submitted repository view: tasks row does not exist"

def updateRunRepositoryView (id : RunId) (view : RepositoryViewReference) : Except String Database :=
  match db.run? id with
  | some _ => .ok { db with runs := db.runs.modify id (fun row => { row with view := view.encode }) }
  | none => .error "Cannot record submitted repository view: runs row does not exist"

/-- The frozen view of a submission, or the diagnostic event of a failed freeze. -/
def recordSubmittedView (runId : Option RunId) (frozenView : Option RepositoryViewReference) (freezeFailed : Bool) :
    Except String Database :=
  match frozenView with
  | some view => do
      let db ← db.updateTaskRepositoryView id view
      let db ← runId.elim (.ok db) (db.updateRunRepositoryView · view)
      db.insertEventInTransaction runId "repository_view_frozen"
  | none =>
      if freezeFailed then db.insertEventInTransaction runId "repository_view_freeze_failed" else .ok db

/-- A submission may bring only a valid view that is frozen. -/
def requireFrozenView : Option RepositoryViewReference → Except String Unit
  | none => .ok ()
  | some view => do
      view.validate
      if view.lifecycle = .frozenSubmitted then .ok ()
      else .error "A submitted repository view must be frozen"

/-- The submit transition: reviewing, no lease, and the frozen view if there is one. -/
def taskSubmittedInTransaction (path : String) (runId : Option RunId) (frozenView : Option RepositoryViewReference)
    (freezeFailed : Bool) : Except String Database := do
  requireFrozenView frozenView
  let db := (db.upsertTask id path .reviewing none none).clearTaskLease id
  let db ← db.recordSubmittedView id runId frozenView freezeFailed
  let db ← db.insertEventInTransaction runId "submission_committed"
  db.insertEventInTransaction runId "task_status_changed"

def taskCheckPassedInTransaction : Database :=
  (db.updateTask id (fun row => { row with checkRetries := 0, failureReason := none })).recordEvent
    "task_check_passed"

/-- Count a check failure and fail the task at the limit. -/
def taskCheckFailedInTransaction (failureReason : String) (maxRetries : Nat) : Database × TaskCheckFailure :=
  let retries := u32Succ (db.taskCheckRetries id)
  if retries ≥ maxRetries then
    let reason := s!"Check failed {maxRetries} consecutive times. Last failure:\n{failureReason}"
    ((db.updateTask id (fun row => { row.fail reason with checkRetries := retries })).recordEvent
      "task_check_limit_exceeded", .limitExceeded retries)
  else
    ((db.updateTask id (fun row =>
      { row with checkRetries := retries, failureReason := some failureReason })).recordEvent
      "task_check_failed", .failed retries)

/-- Count a rejection and fail the task at the limit, or start a new work phase. -/
def recordTaskReviewRejectedInTransaction (maxCycles : Nat) : Database × TaskReviewRejection :=
  let cycles := u32Succ (db.taskReviewCycles id)
  if cycles ≥ maxCycles then
    let reason := s!"Task rejected {maxCycles} times without resolution."
    ((db.updateTask id (fun row => { row.fail reason with reviewCycles := cycles })).recordEvent
      "task_review_limit_exceeded", .limitExceeded cycles)
  else
    ((db.updateTask id (fun row => row.readdress cycles)).recordEvent "task_rejected",
      .addressing cycles)

/-- Fail a task whose dispatch budget is spent; a budget of zero is no budget. -/
def enforceExecutorDispatchLimit (maxDispatches : Nat) : Database × ExecutorDispatchOutcome :=
  let dispatches := db.taskExecutorDispatches id
  if maxDispatches ≠ 0 ∧ dispatches ≥ maxDispatches then
    let reason :=
      s!"Executor was dispatched {maxDispatches} times in one work phase without reaching review."
    ((db.updateTask id (fun row => row.fail reason)).recordEvent
      "task_executor_dispatch_limit_exceeded", .limitExceeded dispatches)
  else (db, .proceed)

def recordExecutorDispatch : Database × Nat :=
  let dispatches := u32Succ (db.taskExecutorDispatches id)
  ((db.updateTask id (fun row => { row with executorDispatches := dispatches })).recordEvent
    "task_executor_dispatched", dispatches)

end Database

/-! ## What each transition does to a row -/

namespace TaskRow

variable (row : TaskRow)

def recordStatus (path : String) (status : TaskStatus) (specPath milestoneId : Option String) : TaskRow :=
  { (if status.clearsLease then row.clearLease else row) with
    path
    status
    specPath := specPath.or row.specPath
    milestoneId := milestoneId.or row.milestoneId }

def submitted (path : String) (frozenView : Option RepositoryViewReference) : TaskRow :=
  { row.clearLease with
    path
    status := .reviewing
    view := frozenView.elim row.view (·.encode) }

def checkPassed : TaskRow := { row with checkRetries := 0, failureReason := none }

def checkFailed (failureReason : String) (maxRetries : Nat) : TaskRow :=
  let retries := u32Succ (asU32 row.checkRetries)
  if retries ≥ maxRetries then
    { row.fail s!"Check failed {maxRetries} consecutive times. Last failure:\n{failureReason}" with
      checkRetries := retries }
  else { row with checkRetries := retries, failureReason := some failureReason }

def reviewRejected (maxCycles : Nat) : TaskRow :=
  let cycles := u32Succ (asU32 row.reviewCycles)
  if cycles ≥ maxCycles then
    { row.fail s!"Task rejected {maxCycles} times without resolution." with reviewCycles := cycles }
  else row.readdress cycles

def dispatchGate (maxDispatches : Nat) : TaskRow :=
  if maxDispatches ≠ 0 ∧ asU32 row.executorDispatches ≥ maxDispatches then
    row.fail
      s!"Executor was dispatched {maxDispatches} times in one work phase without reaching review."
  else row

def dispatched : TaskRow :=
  { row with executorDispatches := u32Succ (asU32 row.executorDispatches) }

end TaskRow

namespace Database

theorem task?_clearTaskLease (db : Database) (id other : TaskId) :
    (db.clearTaskLease id).task? other =
      if other = id then (db.task? other).map TaskRow.clearLease else db.task? other :=
  db.task?_updateTask id other _

theorem task?_recordTaskStatusOnConnection (db : Database) (id other : TaskId) (path : String)
    (status : TaskStatus) (specPath milestoneId : Option String) :
    (db.recordTaskStatusOnConnection id path status specPath milestoneId).task? other =
      if other = id then
        some (((db.task? id).getD { path, status }).recordStatus path status specPath milestoneId)
      else db.task? other := by
  simp only [recordTaskStatusOnConnection, task?_recordEvent]
  split_ifs with clears same same
  · subst same
    rw [task?_clearTaskLease, if_pos rfl, task?_upsertTask, if_pos rfl]
    cases db.task? other <;> simp [recordStatus, clearLease, clears]
  · rw [task?_clearTaskLease, if_neg same, task?_upsertTask, if_neg same]
  · subst same
    rw [task?_upsertTask, if_pos rfl]
    cases db.task? other <;> simp [recordStatus, clears]
  · rw [task?_upsertTask, if_neg same]

variable {db : Database} {id : TaskId}

/-- An update that reads its row through the database does to the row what `change` does. -/
private theorem task?_updateTask_of_agree {written change : TaskRow → TaskRow}
    (agree : ∀ row, db.task? id = some row → written row = change row) (other : TaskId) :
    (db.updateTask id written).task? other =
      if other = id then (db.task? other).map change else db.task? other := by
  rw [task?_updateTask]
  split_ifs with same
  · subst same
    cases stored : db.task? other with
    | none => rfl
    | some row => exact congrArg some (agree row stored)
  · rfl

theorem task?_taskCheckFailed (db : Database) (id other : TaskId) (failureReason : String) (maxRetries : Nat) :
    (db.taskCheckFailedInTransaction id failureReason maxRetries).1.task? other =
      if other = id then (db.task? other).map (·.checkFailed failureReason maxRetries)
      else db.task? other := by
  simp only [taskCheckFailedInTransaction]
  split <;> rename_i limit <;>
  · apply task?_updateTask_of_agree
    intro row stored
    simp only [taskCheckRetries, stored, elim_some] at limit ⊢
    simp only [checkFailed, limit, if_true, if_false]

theorem task?_recordTaskReviewRejected (db : Database) (id other : TaskId) (maxCycles : Nat) :
    (db.recordTaskReviewRejectedInTransaction id maxCycles).1.task? other =
      if other = id then (db.task? other).map (·.reviewRejected maxCycles) else db.task? other := by
  simp only [recordTaskReviewRejectedInTransaction]
  split <;> rename_i limit <;>
  · apply task?_updateTask_of_agree
    intro row stored
    simp only [taskReviewCycles, stored, elim_some] at limit ⊢
    simp only [reviewRejected, limit, if_true, if_false]

theorem task?_enforceExecutorDispatchLimit (db : Database) (id other : TaskId) (maxDispatches : Nat) :
    (db.enforceExecutorDispatchLimit id maxDispatches).1.task? other =
      if other = id then (db.task? other).map (·.dispatchGate maxDispatches) else db.task? other := by
  simp only [enforceExecutorDispatchLimit]
  split
  · next limit =>
    apply task?_updateTask_of_agree
    intro row stored
    simp only [taskExecutorDispatches, stored, elim_some] at limit
    exact (if_pos limit).symm
  · next limit =>
    -- an open gate writes nothing, which is the update by the identity
    have unwritten : db.task? other = (db.updateTask id (fun row => row)).task? other := by
      rw [task?_updateTask, map_id', ite_self]
    refine unwritten.trans (task?_updateTask_of_agree (fun row stored => ?_) other)
    simp only [taskExecutorDispatches, stored, elim_some] at limit
    exact (if_neg limit).symm

theorem task?_recordExecutorDispatch (db : Database) (id other : TaskId) :
    (db.recordExecutorDispatch id).1.task? other =
      if other = id then (db.task? other).map TaskRow.dispatched else db.task? other := by
  apply task?_updateTask_of_agree
  intro row stored
  simp only [taskExecutorDispatches, stored, elim_some, dispatched]

variable {next : Database} {runId : Option RunId} {frozenView : Option RepositoryViewReference} {freezeFailed : Bool}

/-- A submission records its view in its task, and in the run that it names. -/
private theorem recordSubmittedView_ok (recorded : db.recordSubmittedView id runId frozenView freezeFailed = .ok next) :
    (∀ other, next.task? other =
      if other = id then (db.task? other).map fun row => { row with view := frozenView.elim row.view (·.encode) }
      else db.task? other) ∧
    ∀ other, next.run? other =
      if some other = runId then (db.run? other).map fun run => { run with view := frozenView.elim run.view (·.encode) }
      else db.run? other := by
  unfold recordSubmittedView at recorded
  cases frozenView with
  | none =>
    have kept : next.tasks = db.tasks ∧ next.runs = db.runs := by
      dsimp only at recorded
      split at recorded
      · rw [insertEventInTransaction_ok recorded]
        exact ⟨rfl, rfl⟩
      · cases recorded
        exact ⟨rfl, rfl⟩
    simp [task?, run?, kept]
  | some view =>
    simp only [Except.bind_eq_ok_iff] at recorded
    obtain ⟨viewed, taskWritten, ran, runWritten, logged⟩ := recorded
    rw [insertEventInTransaction_ok logged]
    unfold updateTaskRepositoryView at taskWritten
    split at taskWritten
    · cases taskWritten
      cases runId with
      | none =>
        cases runWritten
        exact ⟨fun other => db.task?_updateTask id other _, fun other => (if_neg (by simp)).symm⟩
      | some run =>
        dsimp only [elim_some] at runWritten
        unfold updateRunRepositoryView at runWritten
        split at runWritten
        · cases runWritten
          refine ⟨fun other => db.task?_updateTask id other _, fun other => ?_⟩
          simp only [some.injEq]
          exact db.runs.get?_modify run other _
        · cases runWritten
    · cases taskWritten

/-- A committed submission puts the task into review without a lease. -/
theorem task?_taskSubmitted {path : String}
    (submitted : db.taskSubmittedInTransaction id path runId frozenView freezeFailed = .ok next) (other : TaskId) :
    next.task? other =
      if other = id then
        some (((db.task? id).getD { path, status := .reviewing }).submitted path frozenView)
      else db.task? other := by
  simp only [taskSubmittedInTransaction, Except.bind_eq_ok_iff] at submitted
  obtain ⟨_, _, viewed, recorded, committed, logged, changed⟩ := submitted
  have tasks : next.tasks = viewed.tasks := by
    rw [insertEventInTransaction_ok changed, insertEventInTransaction_ok logged]
  have written : next.task? other = viewed.task? other := congrArg (Table.get? · other) tasks
  rw [written, (recordSubmittedView_ok recorded).1, task?_clearTaskLease, task?_upsertTask]
  split_ifs with same
  · cases db.task? id <;> rfl
  · rfl

theorem run?_taskSubmitted {path : String}
    (submitted : db.taskSubmittedInTransaction id path runId frozenView freezeFailed = .ok next) (other : RunId) :
    next.run? other =
      if some other = runId then (db.run? other).map fun run => { run with view := frozenView.elim run.view (·.encode) }
      else db.run? other := by
  simp only [taskSubmittedInTransaction, Except.bind_eq_ok_iff] at submitted
  obtain ⟨_, _, viewed, recorded, committed, logged, changed⟩ := submitted
  rw [insertEventInTransaction_ok changed, insertEventInTransaction_ok logged]
  exact (recordSubmittedView_ok recorded).2 other

end Database

end Ferrus.Runtime

import Ferrus.Model.Runtime.TaskTransitions
import Ferrus.Model.Runtime.Waits

/-! # Task operations as events

The writers of the task table, each as one event on one task. `upsertStatus` and `clearLease` are the
statements of `record_task_status`, which commits them one by one; `recordStatus` is the same inside
of a transaction.
-/

namespace Ferrus.Runtime

inductive TaskOp where
  | upsertStatus (path : String) (status : TaskStatus) (specPath milestoneId : Option String)
  | clearLease
  | recordStatus (path : String) (status : TaskStatus) (specPath milestoneId : Option String)
  | submit (path : String) (runId : Option RunId) (frozenView : Option RepositoryViewReference)
      (freezeFailed : Bool)
  | checkPassed
  | checkFailed (failureReason : String) (maxRetries : Nat)
  | reject (maxCycles : Nat)
  | enforceDispatchLimit (maxDispatches : Nat)
  | dispatch
  | consult (pausedStatus : TaskStatus)
  | askHuman (resumeStatus : TaskStatus) (pausedStatus : Option TaskStatus) (agent : AgentId)
  | recordAnswer
  | clearAnswer
  | restoreHuman
  | restoreConsultation
deriving DecidableEq, Repr

structure TaskEvent where
  task : TaskId
  op : TaskOp
deriving DecidableEq, Repr

/-- The upsert of a status over an existing row. -/
def TaskRow.upsertStatus (row : TaskRow) (path : String) (status : TaskStatus)
    (specPath milestoneId : Option String) : TaskRow :=
  { row with
    path
    status
    specPath := specPath.or row.specPath
    milestoneId := milestoneId.or row.milestoneId }

namespace TaskOp

/-- The row that an upsert starts from where there is none. -/
def fresh? : TaskOp → Option TaskRow
  | upsertStatus path status .. | recordStatus path status .. => some { path, status }
  | submit path .. => some { path, status := .reviewing }
  | _ => none

variable (op : TaskOp)

/-- What the operation does to the row of its task. -/
def effect (questionOrder : Nat) (row : TaskRow) : TaskRow :=
  match op with
  | upsertStatus path status specPath milestoneId => row.upsertStatus path status specPath milestoneId
  | clearLease => row.clearLease
  | recordStatus path status specPath milestoneId => row.recordStatus path status specPath milestoneId
  | submit path _ frozenView _ => row.submitted path frozenView
  | checkPassed => row.checkPassed
  | checkFailed failureReason maxRetries => row.checkFailed failureReason maxRetries
  | reject maxCycles => row.reviewRejected maxCycles
  | enforceDispatchLimit maxDispatches => row.dispatchGate maxDispatches
  | dispatch => row.dispatched
  | consult pausedStatus => row.consultation pausedStatus
  | askHuman resumeStatus pausedStatus agent =>
      row.humanQuestion resumeStatus pausedStatus agent questionOrder
  | recordAnswer => row.markAnswer true
  | clearAnswer => row.markAnswer false
  | restoreHuman => row.restoreHuman
  | restoreConsultation => row.restoreConsultation

/-- The status of the row after the operation. -/
def statusAfter (row : TaskRow) : TaskStatus :=
  match op with
  | upsertStatus _ status _ _ | recordStatus _ status _ _ => status
  | submit .. => .reviewing
  | checkFailed _ maxRetries =>
      if u32Succ (asU32 row.checkRetries) ≥ maxRetries then .failed else row.status
  | reject maxCycles => if u32Succ (asU32 row.reviewCycles) ≥ maxCycles then .failed else .addressing
  | enforceDispatchLimit maxDispatches =>
      if maxDispatches ≠ 0 ∧ asU32 row.executorDispatches ≥ maxDispatches then .failed else row.status
  | consult _ => .consultation
  | askHuman .. => .awaitingHuman
  | restoreHuman => if row.status = .awaitingHuman then row.resumeStatus else row.status
  | restoreConsultation =>
      if row.status = .consultation then row.pausedStatus.getD .executing else row.status
  | _ => row.status

/-- The specification path and milestone of the row after the operation. -/
def originAfter (row : TaskRow) : Option String × Option String :=
  match op with
  | upsertStatus _ _ specPath milestoneId | recordStatus _ _ specPath milestoneId =>
      (specPath.or row.specPath, milestoneId.or row.milestoneId)
  | _ => (row.specPath, row.milestoneId)

/-- The operations that write to the view columns of a task. -/
def writesView : TaskOp → Bool
  | .submit .. | .reject _ => true
  | _ => false

/-- The status and the origin of a row after the operation, and its view if that is not written. -/
theorem columns_effect (questionOrder : Nat) (row : TaskRow) :
    (op.effect questionOrder row).status = op.statusAfter row ∧
      ((op.effect questionOrder row).specPath, (op.effect questionOrder row).milestoneId) = op.originAfter row ∧
      (op.writesView = false → (op.effect questionOrder row).view = row.view) := by
  cases op with
  | submit => exact ⟨rfl, rfl, Bool.noConfusion⟩
  | reject maxCycles =>
    simp only [effect, statusAfter, originAfter, TaskRow.reviewRejected]
    split <;> exact ⟨rfl, rfl, Bool.noConfusion⟩
  | recordStatus | checkFailed | enforceDispatchLimit | recordAnswer | clearAnswer | restoreHuman
  | restoreConsultation =>
    dsimp only [effect, statusAfter, originAfter, TaskRow.recordStatus, TaskRow.checkFailed, TaskRow.dispatchGate,
      TaskRow.markAnswer, TaskRow.restoreHuman, TaskRow.restoreConsultation]
    split <;> exact ⟨rfl, rfl, fun _ => rfl⟩
  | _ => exact ⟨rfl, rfl, fun _ => rfl⟩

/-- A submission and an answer may be refused. -/
def mayFail : TaskOp → Bool
  | .submit .. | .recordAnswer => true
  | _ => false

end TaskOp

namespace TaskEvent

variable (db : Database)

/-- A failed transaction leaves the database as it was. -/
def apply (event : TaskEvent) : Database :=
  match event.op with
  | .upsertStatus path status specPath milestoneId =>
      db.upsertTask event.task path status specPath milestoneId
  | .clearLease => (db.clearTaskLease event.task).recordEvent "task_status_changed"
  | .recordStatus path status specPath milestoneId =>
      db.recordTaskStatusOnConnection event.task path status specPath milestoneId
  | .submit path runId frozenView freezeFailed =>
      (db.taskSubmittedInTransaction event.task path runId frozenView freezeFailed).toOption.getD db
  | .checkPassed => db.taskCheckPassedInTransaction event.task
  | .checkFailed failureReason maxRetries =>
      (db.taskCheckFailedInTransaction event.task failureReason maxRetries).1
  | .reject maxCycles => (db.recordTaskReviewRejectedInTransaction event.task maxCycles).1
  | .enforceDispatchLimit maxDispatches => (db.enforceExecutorDispatchLimit event.task maxDispatches).1
  | .dispatch => (db.recordExecutorDispatch event.task).1
  | .consult pausedStatus => db.taskConsultationInTransaction event.task pausedStatus
  | .askHuman resumeStatus pausedStatus agent =>
      db.taskHumanQuestionInTransaction event.task resumeStatus pausedStatus agent
  | .recordAnswer => (db.recordTaskHumanAnswer event.task).toOption.getD db
  | .clearAnswer => db.clearTaskHumanAnswerRecorded event.task
  | .restoreHuman => (db.taskRestoreHumanInTransaction event.task).1
  | .restoreConsultation => (db.taskRestoreConsultationInTransaction event.task).1

/-- The row the event writes over: the stored one, or a new one if the event may insert it. -/
def base? (event : TaskEvent) : Option TaskRow :=
  (db.task? event.task).or event.op.fresh?

/-- The rows after an event: only the row of its task may be new, and it has the operation's effect. -/
theorem task?_apply (event : TaskEvent) (other : TaskId) :
    (event.apply db).task? other = db.task? other ∧ (other = event.task → event.op.mayFail = true) ∨
      other = event.task ∧
        (event.apply db).task? other = (event.base? db).map (event.op.effect (db.events.length + 1)) := by
  obtain ⟨task, op⟩ := event
  have updated {next : Database} {change : TaskRow → TaskRow}
      (written : next.task? other = if other = task then (db.task? other).map change else db.task? other) :
      next.task? other = db.task? other ∧ (other = task → op.mayFail = true) ∨
        other = task ∧ next.task? other = ((db.task? task).or none).map change := by
    rw [written]
    split_ifs with same
    · subst same
      exact .inr ⟨rfl, by rw [Option.or_none]⟩
    · exact .inl ⟨rfl, fun isTask => absurd isTask same⟩
  have upserted {next : Database} {fresh : TaskRow} {change : TaskRow → TaskRow}
      (written : next.task? other =
        if other = task then some (change ((db.task? task).getD fresh)) else db.task? other) :
      next.task? other = db.task? other ∧ (other = task → op.mayFail = true) ∨
        other = task ∧ next.task? other = ((db.task? task).or (some fresh)).map change := by
    rw [written]
    split_ifs with same
    · exact .inr ⟨same, by cases db.task? task <;> rfl⟩
    · exact .inl ⟨rfl, fun isTask => absurd isTask same⟩
  cases op with
  | upsertStatus path status specPath milestoneId =>
    refine upserted ((db.task?_upsertTask task other path status specPath milestoneId).trans ?_)
    cases db.task? task with
    | none => simp [TaskOp.effect, TaskRow.upsertStatus]
    | some row => rfl
  | clearLease => exact updated (db.task?_clearTaskLease task other)
  | recordStatus path status specPath milestoneId =>
    exact upserted (db.task?_recordTaskStatusOnConnection task other path status specPath milestoneId)
  | submit path runId frozenView freezeFailed =>
    unfold apply
    dsimp only
    cases submitted : db.taskSubmittedInTransaction task path runId frozenView freezeFailed with
    | ok next => exact upserted (Database.task?_taskSubmitted submitted other)
    | error => exact .inl ⟨rfl, fun _ => rfl⟩
  | checkPassed => exact updated (db.task?_updateTask task other _)
  | checkFailed failureReason maxRetries =>
    exact updated (db.task?_taskCheckFailed task other failureReason maxRetries)
  | reject maxCycles => exact updated (db.task?_recordTaskReviewRejected task other maxCycles)
  | enforceDispatchLimit maxDispatches =>
    exact updated (db.task?_enforceExecutorDispatchLimit task other maxDispatches)
  | dispatch => exact updated (db.task?_recordExecutorDispatch task other)
  | consult pausedStatus => exact updated (db.task?_taskConsultation task other pausedStatus)
  | askHuman resumeStatus pausedStatus agent =>
    exact updated (db.task?_taskHumanQuestion task other resumeStatus pausedStatus agent)
  | recordAnswer =>
    unfold apply
    dsimp only
    cases recorded : db.recordTaskHumanAnswer task with
    | ok next => exact updated (Database.task?_recordTaskHumanAnswer recorded other)
    | error => exact .inl ⟨rfl, fun _ => rfl⟩
  | clearAnswer => exact updated (db.task?_updateTask task other _)
  | restoreHuman => exact updated (db.task?_taskRestoreHuman task other)
  | restoreConsultation => exact updated (db.task?_taskRestoreConsultation task other)

end TaskEvent

end Ferrus.Runtime

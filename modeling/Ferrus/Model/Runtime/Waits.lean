import Ferrus.Model.Runtime.Database

/-! # Consultation and human-question pauses

A pause overwrites the status and remembers where to return in `paused_status` and, for a human
question, in `awaiting_human_status`. A human question asked during a consultation keeps the
consultation's own return status in `paused_status`. A restore acts only on the pause it belongs to.
-/

namespace Ferrus.Runtime

inductive TaskConsultRestore where
  | restored (status : TaskStatus)
  | notInConsultation
deriving DecidableEq, Repr

inductive TaskHumanAnswerRestore where
  | restored (status : TaskStatus)
  | notAwaitingHuman
deriving DecidableEq, Repr

namespace TaskRow

variable (row : TaskRow)

def consultation (pausedStatus : TaskStatus) : TaskRow :=
  { row with status := .consultation, pausedStatus := some pausedStatus }

def restoreConsultation : TaskRow :=
  if row.status = .consultation then
    { row with status := row.pausedStatus.getD .executing, pausedStatus := none }
  else row

def humanQuestion (resumeStatus : TaskStatus) (pausedStatus : Option TaskStatus) (awaitingHumanBy : AgentId)
    (questionOrder : Nat) : TaskRow :=
  { row with
    status := .awaitingHuman
    pausedStatus
    awaitingHumanBy := some awaitingHumanBy
    awaitingHumanStatus := some resumeStatus
    humanAnswerRecorded := false
    humanQuestionOrder := some questionOrder }

/-- Where a human answer returns the task to. -/
def resumeStatus : TaskStatus :=
  (row.awaitingHumanStatus.or row.pausedStatus).getD .executing

def restoreHuman : TaskRow :=
  if row.status = .awaitingHuman then
    { row with
      status := row.resumeStatus
      pausedStatus := if row.resumeStatus = .consultation then row.pausedStatus else none
      awaitingHumanBy := none
      awaitingHumanStatus := none
      humanQuestionOrder := none
      humanAnswerRecorded := false }
  else row

/-- Set the recorded-answer marker while the task waits. -/
def markAnswer (recorded : Bool) : TaskRow :=
  if row.status = .awaitingHuman then { row with humanAnswerRecorded := recorded } else row

end TaskRow

namespace Database

variable (db : Database)

section

variable (id : TaskId)

def taskConsultationInTransaction (pausedStatus : TaskStatus) : Database :=
  (db.updateTask id (·.consultation pausedStatus)).recordEvent "task_consultation_requested"

def taskRestoreConsultationInTransaction : Database × TaskConsultRestore :=
  match db.task? id with
  | none => (db, .notInConsultation)
  | some row =>
      if row.status = .consultation then
        ((db.updateTask id TaskRow.restoreConsultation).recordEvent "task_consultation_resolved",
          .restored (row.pausedStatus.getD .executing))
      else (db, .notInConsultation)

/-- The question is ordered by the row id of its own event. -/
def taskHumanQuestionInTransaction (resumeStatus : TaskStatus) (pausedStatus : Option TaskStatus)
    (awaitingHumanBy : AgentId) : Database :=
  let questionOrder := db.events.length + 1
  (db.updateTask id (·.humanQuestion resumeStatus pausedStatus awaitingHumanBy questionOrder)).recordEvent
    "task_human_question_requested"

def recordTaskHumanAnswer : Except String Database :=
  match db.task? id with
  | some row =>
      if row.status = .awaitingHuman then
        .ok ((db.updateTask id (·.markAnswer true)).recordEvent "task_human_answer_recorded")
      else .error s!"Task {id} is not waiting for a human answer."
  | none => .error s!"Task {id} is not waiting for a human answer."

/-- Taken back when the answer file could not be written. -/
def clearTaskHumanAnswerRecorded : Database :=
  db.updateTask id (·.markAnswer false)

def taskRestoreHumanInTransaction : Database × TaskHumanAnswerRestore :=
  match db.task? id with
  | none => (db, .notAwaitingHuman)
  | some row =>
      if row.status = .awaitingHuman then
        ((db.updateTask id TaskRow.restoreHuman).recordEvent "task_human_answered",
          .restored row.resumeStatus)
      else (db, .notAwaitingHuman)

end

theorem task?_taskConsultation (id other : TaskId) (pausedStatus : TaskStatus) :
    (db.taskConsultationInTransaction id pausedStatus).task? other =
      if other = id then (db.task? other).map (·.consultation pausedStatus) else db.task? other :=
  db.task?_updateTask id other _

theorem task?_taskHumanQuestion (id other : TaskId) (resumeStatus : TaskStatus) (pausedStatus : Option TaskStatus)
    (awaitingHumanBy : AgentId) :
    (db.taskHumanQuestionInTransaction id resumeStatus pausedStatus awaitingHumanBy).task? other =
      if other = id then
        (db.task? other).map
          (·.humanQuestion resumeStatus pausedStatus awaitingHumanBy (db.events.length + 1))
      else db.task? other :=
  db.task?_updateTask id other _

/-- An update that leaves the stored row as it is may also be skipped. -/
private theorem task?_map_of_fixed {db : Database} {id other : TaskId} {change : TaskRow → TaskRow}
    (fixed : ∀ row, db.task? id = some row → change row = row) :
    db.task? other = if other = id then (db.task? other).map change else db.task? other := by
  split_ifs with same
  · subst same
    cases stored : db.task? other with
    | none => rfl
    | some row => exact congrArg some (fixed row stored).symm
  · rfl

theorem task?_taskRestoreConsultation (id other : TaskId) : (db.taskRestoreConsultationInTransaction id).1.task? other =
      if other = id then (db.task? other).map TaskRow.restoreConsultation else db.task? other := by
  unfold taskRestoreConsultationInTransaction
  split
  · next missing => exact task?_map_of_fixed fun row stored => by rw [missing] at stored; cases stored
  · next row stored =>
    split
    · exact db.task?_updateTask id other _
    · next away =>
      refine task?_map_of_fixed fun found same => ?_
      obtain rfl := Option.some.inj (stored.symm.trans same)
      exact if_neg away

theorem task?_taskRestoreHuman (id other : TaskId) : (db.taskRestoreHumanInTransaction id).1.task? other =
      if other = id then (db.task? other).map TaskRow.restoreHuman else db.task? other := by
  unfold taskRestoreHumanInTransaction
  split
  · next missing => exact task?_map_of_fixed fun row stored => by rw [missing] at stored; cases stored
  · next row stored =>
    split
    · exact db.task?_updateTask id other _
    · next away =>
      refine task?_map_of_fixed fun found same => ?_
      obtain rfl := Option.some.inj (stored.symm.trans same)
      exact if_neg away

theorem task?_recordTaskHumanAnswer {db next : Database} {id : TaskId}
    (recorded : db.recordTaskHumanAnswer id = .ok next) (other : TaskId) : next.task? other =
      if other = id then (db.task? other).map (·.markAnswer true) else db.task? other := by
  unfold recordTaskHumanAnswer at recorded
  split at recorded
  · split at recorded
    · cases recorded
      exact db.task?_updateTask id other _
    · cases recorded
  · cases recorded

end Database

end Ferrus.Runtime

import Ferrus.Machine.Core.Run
import Ferrus.Model.Runtime.TaskOps

/-! # Leftover pause columns

The restores clear the columns of the pause they end. The other writers of a status leave the pause
columns alone, so a pause that such a writer ends stays in its columns: a runtime reset of a task in
consultation keeps the status that the consultation had paused.
-/

namespace Ferrus.Runtime

open Ferrus.Machine

/-- The statuses of a paused task. -/
def TaskStatus.isPaused : TaskStatus → Bool
  | .consultation | .awaitingHuman => true
  | _ => false

/-- No human question is left in the row. -/
def TaskRow.QuestionEmpty (row : TaskRow) : Prop :=
  row.awaitingHumanBy = none ∧ row.awaitingHumanStatus = none ∧ row.humanAnswerRecorded = false

/-- No pause is left in the row. -/
def TaskRow.PauseEmpty (row : TaskRow) : Prop := row.pausedStatus = none ∧ row.QuestionEmpty

instance (row : TaskRow) : Decidable row.QuestionEmpty := inferInstanceAs (Decidable (_ ∧ _))

instance (row : TaskRow) : Decidable row.PauseEmpty := inferInstanceAs (Decidable (_ ∧ _))

/-- Only a paused task carries a pause. -/
def TaskRow.PauseLaw (row : TaskRow) : Prop := row.status.isPaused = false → row.PauseEmpty

/-- The status that the operation writes over the row without looking at its pause columns. -/
def TaskOp.overwrites? (op : TaskOp) (row : TaskRow) : Option TaskStatus :=
  match op with
  | .upsertStatus _ status _ _ | .recordStatus _ status _ _ => some status
  | .submit .. => some .reviewing
  | .checkFailed _ maxRetries =>
      if u32Succ (asU32 row.checkRetries) ≥ maxRetries then some .failed else none
  | .reject maxCycles =>
      some (if u32Succ (asU32 row.reviewCycles) ≥ maxCycles then .failed else .addressing)
  | .enforceDispatchLimit maxDispatches =>
      if maxDispatches ≠ 0 ∧ asU32 row.executorDispatches ≥ maxDispatches then some .failed else none
  | _ => none

/-- The operation overwrites a pause only with another paused status, and a consultation that returns
to work has no human question left. -/
structure TaskOp.Tidy (op : TaskOp) (row : TaskRow) : Prop where
  overwritten : ∀ status ∈ op.overwrites? row, status.isPaused = false → row.PauseEmpty
  restored : op = .restoreConsultation → row.status = .consultation →
    (row.pausedStatus.getD .executing).isPaused = false → row.QuestionEmpty

instance (op : TaskOp) (row : TaskRow) : Decidable (op.Tidy row) :=
  decidable_of_iff ((∀ status ∈ op.overwrites? row, status.isPaused = false → row.PauseEmpty) ∧
    (op = .restoreConsultation → row.status = .consultation →
      (row.pausedStatus.getD .executing).isPaused = false → row.QuestionEmpty))
    ⟨fun ⟨overwritten, restored⟩ => ⟨overwritten, restored⟩, fun tidy => ⟨tidy.overwritten, tidy.restored⟩⟩

/-- The pause columns of two rows are the same. -/
def SamePause (row after : TaskRow) : Prop :=
  after.pausedStatus = row.pausedStatus ∧ after.awaitingHumanBy = row.awaitingHumanBy ∧
    after.awaitingHumanStatus = row.awaitingHumanStatus ∧
    after.humanAnswerRecorded = row.humanAnswerRecorded

theorem SamePause.pauseEmpty {row after : TaskRow} (same : SamePause row after) (empty : row.PauseEmpty) :
    after.PauseEmpty := by
  obtain ⟨paused, owner, status, recorded⟩ := same
  exact ⟨paused.trans empty.1, owner.trans empty.2.1, status.trans empty.2.2.1, recorded.trans empty.2.2.2⟩

variable {row : TaskRow} {op : TaskOp}

theorem TaskOp.Tidy.pauseLaw_of_overwrites {after : TaskRow} {status : TaskStatus} (tidy : op.Tidy row)
    (overwrites : op.overwrites? row = some status) (same : SamePause row after)
    (written : after.status = status) : after.PauseLaw := by
  intro active
  rw [written] at active
  exact same.pauseEmpty (tidy.overwritten status overwrites active)

/-- A human answer leaves its columns empty, and the paused status only to a consultation. -/
theorem TaskRow.PauseLaw.restoreHuman (law : row.PauseLaw) : row.restoreHuman.PauseLaw := by
  unfold TaskRow.restoreHuman
  split
  · intro active
    refine ⟨?_, rfl, rfl, rfl⟩
    rw [if_neg]
    intro consulting
    rw [consulting] at active
    cases active
  · exact law

theorem TaskRow.PauseLaw.restoreConsultation (law : row.PauseLaw)
    (tidy : TaskOp.restoreConsultation.Tidy row) : row.restoreConsultation.PauseLaw := by
  unfold TaskRow.restoreConsultation
  split
  · next consulting =>
    intro active
    exact ⟨rfl, tidy.restored rfl consulting active⟩
  · exact law

theorem TaskRow.PauseLaw.markAnswer (law : row.PauseLaw) (recorded : Bool) : (row.markAnswer recorded).PauseLaw := by
  unfold TaskRow.markAnswer
  split
  · next waiting =>
    intro active
    rw [waiting] at active
    cases active
  · exact law

/-- An operation keeps the law of a row that it treats tidily. -/
theorem TaskOp.effect_pauseLaw (questionOrder : Nat) (law : row.PauseLaw) (tidy : op.Tidy row) :
    (op.effect questionOrder row).PauseLaw := by
  have samePause : SamePause row row := ⟨rfl, rfl, rfl, rfl⟩
  cases op with
  | upsertStatus path status specPath milestoneId =>
    exact tidy.pauseLaw_of_overwrites rfl samePause rfl
  | clearLease | checkPassed | dispatch => exact law
  | recordStatus path status specPath milestoneId =>
    have same : SamePause row (row.recordStatus path status specPath milestoneId) := by
      unfold TaskRow.recordStatus
      split <;> exact samePause
    exact tidy.pauseLaw_of_overwrites rfl same rfl
  | submit path runId frozenView freezeFailed => exact tidy.pauseLaw_of_overwrites rfl samePause rfl
  | checkFailed failureReason maxRetries =>
    change (row.checkFailed failureReason maxRetries).PauseLaw
    unfold TaskRow.checkFailed
    dsimp only
    split
    · next limit => exact tidy.pauseLaw_of_overwrites (if_pos limit) samePause rfl
    · exact law
  | reject maxCycles =>
    change (row.reviewRejected maxCycles).PauseLaw
    unfold TaskRow.reviewRejected
    dsimp only
    split
    · next limit => exact tidy.pauseLaw_of_overwrites (congrArg some (if_pos limit)) samePause rfl
    · next below => exact tidy.pauseLaw_of_overwrites (congrArg some (if_neg below)) samePause rfl
  | enforceDispatchLimit maxDispatches =>
    change (row.dispatchGate maxDispatches).PauseLaw
    unfold TaskRow.dispatchGate
    split
    · next limit => exact tidy.pauseLaw_of_overwrites (if_pos limit) samePause rfl
    · exact law
  | consult | askHuman => exact nofun
  | recordAnswer => exact law.markAnswer true
  | clearAnswer => exact law.markAnswer false
  | restoreHuman => exact law.restoreHuman
  | restoreConsultation => exact law.restoreConsultation tidy

/-- A row that an operation inserts has empty pause columns. -/
theorem TaskOp.fresh?_pauseEmpty (fresh : op.fresh? = some row) : row.PauseEmpty := by
  cases op with
  | upsertStatus | recordStatus | submit =>
    cases fresh
    exact ⟨rfl, rfl, rfl, rfl⟩
  | _ => cases fresh

/-- No task carries a pause unless it is in consultation or waits for a human. -/
def PauseColumnsLaw (db : Database) : Prop := ∀ id row, db.task? id = some row → row.PauseLaw

/-- The operation treats the stored row tidily. -/
def TidyEvent (db : Database) (event : TaskEvent) (_next : Database) : Prop :=
  ∀ row ∈ db.task? event.task, event.op.Tidy row

instance (db : Database) (event : TaskEvent) (next : Database) : Decidable (TidyEvent db event next) :=
  inferInstanceAs (Decidable (∀ row ∈ db.task? event.task, event.op.Tidy row))

private theorem pauseColumnsLaw_step {db : Database} {event : TaskEvent} (law : PauseColumnsLaw db)
    (tidy : TidyEvent db event (event.apply db)) : PauseColumnsLaw (event.apply db) := by
  intro id after stored
  rcases event.task?_apply db id with ⟨kept, _⟩ | ⟨rfl, written⟩
  · exact law id after (kept.symm.trans stored)
  · obtain ⟨base, based, rfl⟩ := Option.map_eq_some_iff.mp (written.symm.trans stored)
    rcases Option.or_eq_some_iff.mp based with found | ⟨-, fresh⟩
    · exact event.op.effect_pauseLaw _ (law _ base found) (tidy base found)
    · have empty := event.op.fresh?_pauseEmpty fresh
      exact event.op.effect_pauseLaw _ (fun _ => empty) ⟨fun _ _ _ => empty, fun _ _ _ => empty.2⟩

/-- From an empty database, tidy operations leave no pause behind. -/
theorem pauseColumnsLaw_of_tidy (events : List TaskEvent) (tidy : EveryStep TaskEvent.apply TidyEvent .empty events) :
    EveryStep TaskEvent.apply (fun _ _ next => PauseColumnsLaw next) .empty events := by
  have start : PauseColumnsLaw .empty := by
    intro id row stored
    cases stored
  exact tidy.of_invariant start (fun _ _ law clean => pauseColumnsLaw_step law clean)
    (fun _ _ law clean => pauseColumnsLaw_step law clean)

/-- A task in work. -/
def startedEvent : TaskEvent := ⟨"t-001", .upsertStatus ".ferrus/tasks/t-001.md" .executing none none⟩

/-- A consultation, a question to the human within it, and then the review. -/
def tidyEvents : List TaskEvent :=
  [startedEvent, ⟨"t-001", .consult .executing⟩,
    ⟨"t-001", .askHuman .consultation (some .executing) "supervisor:codex:1"⟩, ⟨"t-001", .recordAnswer⟩,
    ⟨"t-001", .restoreHuman⟩, ⟨"t-001", .restoreConsultation⟩, ⟨"t-001", .checkFailed "tests failed" 20⟩,
    ⟨"t-001", .submit ".ferrus/tasks/t-001.md" none none false⟩, ⟨"t-001", .reject 3⟩]

theorem pauseColumnsLaw_of_tidyEvents : (run TaskEvent.apply .empty tidyEvents).status? "t-001" = some .addressing ∧
    EveryStep TaskEvent.apply (fun _ _ next => PauseColumnsLaw next) .empty tidyEvents :=
  ⟨by decide, pauseColumnsLaw_of_tidy tidyEvents (by decide)⟩

/-- The runtime reset of a task in consultation. -/
def resetEvents : List TaskEvent :=
  [startedEvent, ⟨"t-001", .consult .executing⟩, ⟨"t-001", .upsertStatus ".ferrus/tasks/t-001.md" .reset none none⟩]

/-- The reset task still carries the status that the consultation had paused. -/
theorem not_pauseColumnsLaw_of_reset :
    ¬ EveryStep TaskEvent.apply (fun _ _ next => PauseColumnsLaw next) .empty resetEvents := by
  intro law
  have leftover := law.2.2.1 "t-001"
    { path := ".ferrus/tasks/t-001.md", status := .reset, pausedStatus := some .executing } (by decide)
  cases (leftover rfl).1

end Ferrus.Runtime

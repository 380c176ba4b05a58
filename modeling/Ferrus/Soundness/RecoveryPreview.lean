import Ferrus.Model.Runtime.Recovery

/-! # The recovery preview

Interrupting dead runs leaves the tasks of live runs alone, so the preview, which sees the database before any
change, counts exactly the rows that recovery changes. Afterwards recovery finds nothing more to do.
-/

namespace Ferrus.Runtime.Database

open Database List TaskRow Table

variable {inputs : RecoveryInputs} {db : Database}

/-- What every step of a fold keeps, the fold keeps. -/
private theorem foldl_keeps {α β : Type} (part : Database → β) {step : Database → α → Database}
    (kept : ∀ db item, part (step db item) = part db) (items : List α) (db : Database) :
    part (items.foldl step db) = part db := by
  induction items generalizing db with
  | nil => rfl
  | cons item rest ih => rw [foldl_cons, ih, kept]

/-- Two selections that agree on the stored rows. -/
private theorem select_congr {κ ρ : Type} [LinearOrder κ] {table : Table κ ρ} {first second : κ → ρ → Bool}
    (same : ∀ key row, table.get? key = some row → (first key row = true ↔ second key row = true)) :
    table.select first = table.select second :=
  filter_congr fun entry member => Bool.eq_iff_iff.mpr (same entry.1 entry.2 (table.get?_eq_some_iff.mpr member))

/-! ## Interrupted runs -/

theorem mem_interruptedRuns {id : RunId} : id ∈ db.interruptedRuns inputs ↔
    ∃ run, db.run? id = some run ∧ run.status.isActive = true ∧ run.pid.any inputs.processIsAlive = false := by
  simp only [interruptedRuns, mem_map, Prod.exists, mem_select, Bool.and_eq_true, Bool.not_eq_true',
    exists_and_right, exists_eq_right]
  rfl

private def interrupted (timestamp : String) (run : RunRow) : RunRow :=
  { run with status := .interrupted, updatedAt := timestamp, pid := none }

theorem run?_recoverInterruptedRuns (id : RunId) : (db.recoverInterruptedRuns inputs).1.run? id =
    if id ∈ db.interruptedRuns inputs then (db.run? id).map (interrupted (inputs.timestamp id)) else db.run? id := by
  have onRuns : (db.recoverInterruptedRuns inputs).1.runs = (db.interruptedRuns inputs).foldl
      (fun table id => table.modify id (interrupted (inputs.timestamp id))) db.runs :=
    (foldl_hom runs fun _ _ => rfl).symm
  have idem : ∀ (id : RunId) (run : RunRow), interrupted (inputs.timestamp id) (interrupted (inputs.timestamp id) run) =
      interrupted (inputs.timestamp id) run := fun _ _ => rfl
  rw [run?, onRuns]
  exact get?_foldl_modify idem _ _ id

theorem tasks_recoverInterruptedRuns : (db.recoverInterruptedRuns inputs).1.tasks = db.tasks := by
  have kept : ∀ db id, (interruptListedRun inputs db id).tasks = db.tasks := fun _ _ => rfl
  exact foldl_keeps tasks kept _ db

/-- A run that is active afterwards has a live process, and is the one from before. -/
theorem run?_recovered_iff {id : RunId} {run : RunRow} :
    (db.recoverInterruptedRuns inputs).1.run? id = some run ∧ run.status.isActive = true ↔
      db.run? id = some run ∧ run.status.isActive = true ∧ run.pid.any inputs.processIsAlive = true := by
  rw [run?_recoverInterruptedRuns]
  by_cases dead : id ∈ db.interruptedRuns inputs
  · obtain ⟨old, stored, -, gone⟩ := mem_interruptedRuns.mp dead
    rw [if_pos dead, stored]
    constructor
    · rintro ⟨⟨⟩, active⟩
      cases active
    · rintro ⟨⟨⟩, -, alive⟩
      cases gone.symm.trans alive
  · rw [if_neg dead]
    refine and_congr_right fun stored => (and_iff_left_of_imp fun active => ?_).symm
    by_contra gone
    exact dead (mem_interruptedRuns.mpr ⟨run, stored, active, Bool.eq_false_iff.mpr gone⟩)

theorem mem_liveTasks_recovered {task : TaskId} :
    task ∈ (db.recoverInterruptedRuns inputs).1.liveActiveRunTaskIds inputs.processIsAlive ↔
      task ∈ db.liveActiveRunTaskIds inputs.processIsAlive := by
  simp only [liveActiveRunTaskIds, mem_map, Prod.exists, mem_select, Bool.and_eq_true]
  refine exists_congr fun id => exists_congr fun run => and_congr_left fun _ => ?_
  refine ⟨fun ⟨stored, active, _⟩ => run?_recovered_iff.mp ⟨stored, active⟩, fun live => ?_⟩
  obtain ⟨stored, active⟩ := run?_recovered_iff.mpr live
  exact ⟨stored, active, live.2.2⟩

/-! ## Expired leases -/

/-- The row is claimed, its lease has run out and no live run works on the task. -/
def Expired (db : Database) (inputs : RecoveryInputs) (id : TaskId) (row : TaskRow) : Prop :=
  row.claimedBy.isSome = true ∧ inputs.chrono.leaseActive inputs.now row.leaseUntil = false ∧
    id ∉ db.liveActiveRunTaskIds inputs.processIsAlive

/-- The tasks whose leases recovery clears. -/
def expiredTasks (db : Database) (inputs : RecoveryInputs) : List TaskId :=
  (db.expiredLeases inputs.chrono inputs.now (db.liveActiveRunTaskIds inputs.processIsAlive)).map (·.taskId)

theorem expiredTasks_eq : db.expiredTasks inputs = (db.tasks.select (fun id row => row.claimedBy.isSome &&
    (!inputs.chrono.leaseActive inputs.now row.leaseUntil && id ∉ db.liveActiveRunTaskIds inputs.processIsAlive))).map
      (·.1) := by
  unfold expiredTasks expiredLeases select
  induction db.tasks.rows with
  | nil => rfl
  | cons entry rest ih => cases isOwner : entry.2.claimedBy <;> grind

theorem mem_expiredTasks {id : TaskId} :
    id ∈ db.expiredTasks inputs ↔ ∃ row, db.task? id = some row ∧ db.Expired inputs id row := by
  simp only [expiredTasks_eq, mem_map, Prod.exists, mem_select, Bool.and_eq_true, Bool.not_eq_true',
    decide_eq_true_eq, exists_and_right, exists_eq_right]
  rfl

variable (id : TaskId)

theorem task?_recoverExpiredTaskLeases : (db.recoverExpiredTaskLeases inputs).1.task? id =
    if id ∈ db.expiredTasks inputs then (db.task? id).map TaskRow.clearLease else db.task? id := by
  have onTasks : (db.recoverExpiredTaskLeases inputs).1.tasks = (db.expiredTasks inputs).foldl
      (fun table id => table.modify id clearLease) db.tasks := by
    rw [expiredTasks, foldl_map]
    exact (foldl_hom tasks fun _ _ => rfl).symm
  have idem : ∀ (_ : TaskId) (row : TaskRow), row.clearLease.clearLease = row.clearLease := fun _ _ => rfl
  rw [task?, onTasks]
  exact get?_foldl_modify idem _ _ id

/-! ## Recorded answers -/

theorem task?_recoverRecordedHumanAnswers : (db.recoverRecordedHumanAnswers inputs).task? id =
    if id ∈ db.listHumanQuestions.filter inputs.answered then (db.task? id).map (·.markAnswer true)
    else db.task? id := by
  have onTasks : (db.recoverRecordedHumanAnswers inputs).tasks = (db.listHumanQuestions.filter inputs.answered).foldl
      (fun table id => table.modify id (·.markAnswer true)) db.tasks :=
    (foldl_hom tasks fun _ _ => rfl).symm
  have idem : ∀ (_ : TaskId) (row : TaskRow), (row.markAnswer true).markAnswer true = row.markAnswer true := by
    intro _ row
    unfold markAnswer
    split_ifs <;> rfl
  rw [task?, onTasks]
  exact get?_foldl_modify idem _ _ id

/-! ## Recovery and its preview -/

/-- The database after the runs and the leases are recovered. -/
private def cleared (db : Database) (inputs : RecoveryInputs) : Database :=
  ((db.recoverInterruptedRuns inputs).1.recoverExpiredTaskLeases inputs).1

theorem expiredTasks_recoverInterruptedRuns :
    (db.recoverInterruptedRuns inputs).1.expiredTasks inputs = db.expiredTasks inputs := by
  simp only [expiredTasks_eq, tasks_recoverInterruptedRuns, mem_liveTasks_recovered]

/-- Recorded answers leave the runs and the leases alone. -/
theorem runs_recoverRuntimeState :
    (db.recoverRuntimeState inputs).1.runs = (db.recoverInterruptedRuns inputs).1.runs := by
  have kept : ∀ (db : Database) (lease : ListedLease),
      ((db.clearTaskLease lease.taskId).recordEvent "task_lease_expired").runs = db.runs := fun _ _ => rfl
  have marked : ∀ (db : Database) (id : TaskId),
      ((db.updateTask id (·.markAnswer true)).recordEvent "task_human_answer_recorded").runs = db.runs := fun _ _ => rfl
  exact (foldl_keeps runs marked _ _).trans (foldl_keeps runs kept _ _)

private theorem task?_cleared : (db.cleared inputs).task? id =
    if id ∈ db.expiredTasks inputs then (db.task? id).map TaskRow.clearLease else db.task? id := by
  rw [cleared, task?_recoverExpiredTaskLeases, expiredTasks_recoverInterruptedRuns, task?, task?,
    tasks_recoverInterruptedRuns]

theorem task?_recoverRuntimeState : (db.recoverRuntimeState inputs).1.task? id =
    if id ∈ (db.cleared inputs).listHumanQuestions.filter inputs.answered then
      ((db.cleared inputs).task? id).map (·.markAnswer true)
    else (db.cleared inputs).task? id :=
  task?_recoverRecordedHumanAnswers id

theorem lease_recoverRuntimeState (inputs : RecoveryInputs) (db : Database) (id : TaskId) :
    (db.recoverRuntimeState inputs).1.owner id = (if id ∈ db.expiredTasks inputs then none else db.owner id) ∧
      (db.recoverRuntimeState inputs).1.leaseUntil id =
        if id ∈ db.expiredTasks inputs then none else db.leaseUntil id := by
  have marked (row : TaskRow) :
      (row.markAnswer true).claimedBy = row.claimedBy ∧ (row.markAnswer true).leaseUntil = row.leaseUntil := by
    unfold markAnswer
    split_ifs <;> exact ⟨rfl, rfl⟩
  simp only [owner, leaseUntil, task?_recoverRuntimeState, task?_cleared]
  cases db.task? id with
  | none => split_ifs <;> exact ⟨rfl, rfl⟩
  | some row => split_ifs <;> first | exact ⟨rfl, rfl⟩ | exact marked _

/-! ## The results -/

theorem interruptedRuns_recovered : (db.recoverRuntimeState inputs).1.interruptedRuns inputs = [] := by
  refine eq_nil_iff_forall_not_mem.mpr fun id listed => ?_
  obtain ⟨run, stored, active, gone⟩ := mem_interruptedRuns.mp listed
  rw [run?, runs_recoverRuntimeState] at stored
  cases gone.symm.trans (run?_recovered_iff.mp ⟨stored, active⟩).2.2

theorem expiredTasks_recovered : (db.recoverRuntimeState inputs).1.expiredTasks inputs = [] := by
  refine eq_nil_iff_forall_not_mem.mpr fun id listed => ?_
  obtain ⟨row, stored, owned, lapsed, idle⟩ := mem_expiredTasks.mp listed
  obtain ⟨isOwner, isLease⟩ := lease_recoverRuntimeState inputs db id
  rw [owner, stored] at isOwner
  rw [leaseUntil, stored] at isLease
  change row.claimedBy = _ at isOwner
  change row.leaseUntil = _ at isLease
  rw [isOwner] at owned
  split_ifs at owned isOwner isLease with expired
  · cases owned
  · -- the lease is as before, so recovery has listed it
    rw [liveActiveRunTaskIds, runs_recoverRuntimeState] at idle
    refine expired (mem_expiredTasks.mpr ?_)
    cases old : db.task? id with
    | none =>
      rw [owner, old] at owned
      cases owned
    | some before =>
      rw [owner, old] at owned
      rw [isLease, leaseUntil, old] at lapsed
      exact ⟨before, rfl, owned, lapsed, fun live => idle (mem_liveTasks_recovered.mpr live)⟩

theorem listHumanQuestions_recovered :
    (db.recoverRuntimeState inputs).1.listHumanQuestions.filter inputs.answered = [] := by
  have listed_iff {db : Database} {id : TaskId} : id ∈ db.listHumanQuestions ↔
      ∃ row, db.task? id = some row ∧ row.status = .awaitingHuman ∧ row.humanAnswerRecorded = false := by
    simp only [listHumanQuestions, mem_map, Prod.exists, mem_select, Bool.and_eq_true, Bool.not_eq_true',
      decide_eq_true_eq, exists_and_right, exists_eq_right]
    rfl
  refine filter_eq_nil_iff.mpr fun id listed answered => ?_
  obtain ⟨row, stored, waits, unrecorded⟩ := listed_iff.mp listed
  rw [task?_recoverRuntimeState] at stored
  split_ifs at stored with asked
  · obtain ⟨before, -, rfl⟩ := Option.map_eq_some_iff.mp stored
    by_cases waited : before.status = .awaitingHuman <;> simp [markAnswer, waited] at waits unrecorded
  · exact asked (mem_filter.mpr ⟨listed_iff.mpr ⟨row, stored, waits, unrecorded⟩, answered⟩)

/-- Without anything to recover, recovery does nothing. -/
theorem recoverRuntimeState_idle (noRuns : db.interruptedRuns inputs = []) (noLeases : db.expiredTasks inputs = [])
    (noAnswers : db.listHumanQuestions.filter inputs.answered = []) : db.recoverRuntimeState inputs = (db, ⟨0, 0⟩) := by
  have runs : db.recoverInterruptedRuns inputs = (db, 0) := by
    rw [recoverInterruptedRuns, noRuns]
    rfl
  have leases : db.recoverExpiredTaskLeases inputs = (db, 0) := by
    rw [recoverExpiredTaskLeases, map_eq_nil_iff.mp noLeases]
    rfl
  simp only [recoverRuntimeState, runs, leases, recoverRecordedHumanAnswers, noAnswers, foldl_nil]

theorem previewInterruptedRuns_eq : db.previewInterruptedRuns inputs = (db.interruptedRuns inputs).length := by
  rw [previewInterruptedRuns, interruptedRuns, length_map, select_congr]
  intro id run _
  cases run.pid <;> simp

theorem previewExpiredTaskLeases_eq : db.previewExpiredTaskLeases inputs = (db.expiredTasks inputs).length := by
  rw [previewExpiredTaskLeases, expiredTasks_eq, length_map, select_congr]
  intro id row _
  unfold Chrono.leaseActive
  cases inputs.chrono.parseLeaseUntil row.leaseUntil <;> simp [and_assoc]

/-- The preview counts the runs and the leases that recovery changes, and a second recovery changes nothing. -/
theorem preview_matches_recovery (inputs : RecoveryInputs) (db : Database) :
    let next := (db.recoverRuntimeState inputs).1
    db.previewRuntimeRecovery inputs =
      ⟨(db.runs.select (fun id run => next.run? id ≠ some run)).length,
        (db.tasks.select (fun id row => next.owner id ≠ row.claimedBy || next.leaseUntil id ≠ row.leaseUntil)).length⟩ ∧
    (db.recoverRuntimeState inputs).2 = db.previewRuntimeRecovery inputs ∧
    next.recoverRuntimeState inputs = (next, ⟨0, 0⟩) := by
  intro next
  refine ⟨?_, ?_,
    recoverRuntimeState_idle interruptedRuns_recovered expiredTasks_recovered listHumanQuestions_recovered⟩
  · rw [previewRuntimeRecovery, previewInterruptedRuns_eq, previewExpiredTaskLeases_eq, interruptedRuns,
      expiredTasks_eq, length_map, length_map]
    congr 2
    · refine select_congr fun id run stored => ?_
      change db.run? id = some run at stored
      have isNext : next.run? id = _ := (congrArg (Table.get? · id) runs_recoverRuntimeState).trans
        (run?_recoverInterruptedRuns id)
      have listed_iff : id ∈ db.interruptedRuns inputs ↔
          run.status.isActive = true ∧ run.pid.any inputs.processIsAlive = false := by
        simp [mem_interruptedRuns, stored]
      rw [stored] at isNext
      simp only [Bool.and_eq_true, Bool.not_eq_true', ← listed_iff, isNext, decide_eq_true_eq]
      split_ifs with dead
      · have changed : interrupted (inputs.timestamp id) run ≠ run := fun same => by
          have active := (listed_iff.mp dead).1
          rw [← same] at active
          cases active
        simpa [dead] using changed
      · simp [dead]
    · refine select_congr fun id row stored => ?_
      have isRow : db.owner id = row.claimedBy ∧ db.leaseUntil id = row.leaseUntil := by
        rw [owner, leaseUntil, task?, stored]
        exact ⟨rfl, rfl⟩
      obtain ⟨isOwner, isLease⟩ := lease_recoverRuntimeState inputs db id
      have listed_iff : id ∈ db.expiredTasks inputs ↔ db.Expired inputs id row := by
        simp [mem_expiredTasks, task?, stored]
      rw [isRow.1] at isOwner
      rw [isRow.2] at isLease
      simp only [Bool.and_eq_true, Bool.not_eq_true', decide_eq_true_eq, Bool.or_eq_true, next, isOwner, isLease]
      refine listed_iff.symm.trans ?_
      split_ifs with expired
      · have owned := (listed_iff.mp expired).1
        cases isClaimed : row.claimedBy <;> simp_all
      · simp [expired]
  · rw [previewRuntimeRecovery, previewInterruptedRuns_eq, previewExpiredTaskLeases_eq,
      ← expiredTasks_recoverInterruptedRuns, expiredTasks, length_map]
    rfl

end Ferrus.Runtime.Database

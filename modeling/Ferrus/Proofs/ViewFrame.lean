import Ferrus.Model.Runtime.ViewEvents
import Ferrus.Proofs.LeaseFrame
import Ferrus.ToMathlib.MergedTable

/-! # Where view columns come from

Each statement writes the seven view columns of a row as one value: the default, a view it was given,
or the columns of another row. The one exception is the rejection, which empties the columns of the
frozen tree. `ViewFrame` states this of a change of the database, and every operation meets it.
-/

namespace Ferrus.Runtime

open Database Option

/-- The columns after a rejection: no frozen tree, and open for changes. -/
def ViewColumns.clearTree (columns : ViewColumns) : ViewColumns :=
  { columns with treeAlgorithm := none, treeDigest := none, lifecycle := "mutable" }

/-- Some row has these view columns. -/
def Database.Holds (db : Database) (columns : ViewColumns) : Prop :=
  ∃ owner id, db.viewColumns? owner id = some columns

/-- Where the view columns of a row may come from when the view `written` was recorded. -/
inductive ViewSource (db : Database) (written : Option RepositoryViewReference) : ViewColumns → Prop
  | kept {columns : ViewColumns} (held : db.Holds columns) : ViewSource db written columns
  | cleared {columns : ViewColumns} (held : db.Holds columns) : ViewSource db written columns.clearTree
  | default : ViewSource db written .default
  | recorded {view : RepositoryViewReference} (given : written = some view) :
      ViewSource db written view.encode

/-- Every row has its view columns from one source. -/
structure ViewFrame (db next : Database) (written : Option RepositoryViewReference) : Prop where
  tasks : ∀ id row, next.task? id = some row → ViewSource db written row.view
  runs : ∀ id run, next.run? id = some run → ViewSource db written run.view

variable {db next : Database} {written : Option RepositoryViewReference} {id : TaskId}
  {view : RepositoryViewReference} {runId : Option RunId} {timestamp : String}

variable {row : TaskRow}

theorem ViewSource.of_task (found : db.task? id = some row) : ViewSource db written row.view :=
  .kept ⟨.tasks, id, congrArg (Option.map TaskRow.view) found⟩

variable {id : RunId}

theorem ViewSource.of_run {run : RunRow} (found : db.run? id = some run) : ViewSource db written run.view :=
  .kept ⟨.runs, id, congrArg (Option.map RunRow.view) found⟩

namespace ViewFrame

theorem refl (db : Database) (written : Option RepositoryViewReference) : ViewFrame db db written :=
  ⟨fun _ _ found => .of_task found, fun _ _ found => .of_run found⟩

theorem of_tasks (runs : next.runs = db.runs)
    (tasks : ∀ id row, next.task? id = some row → ViewSource db written row.view) : ViewFrame db next written where
  tasks := tasks
  runs id _ found := .of_run ((congrArg (Table.get? · id) runs).symm.trans found)

theorem of_runs (tasks : next.tasks = db.tasks)
    (runs : ∀ id run, next.run? id = some run → ViewSource db written run.view) : ViewFrame db next written where
  tasks id _ found := .of_task ((congrArg (Table.get? · id) tasks).symm.trans found)
  runs := runs

section

variable (frame : ViewFrame db next written)

include frame

/-- The event log plays no part in the views. -/
theorem of_tables {last : Database} (tasks : last.tasks = next.tasks) (runs : last.runs = next.runs) :
    ViewFrame db last written where
  tasks id row found := frame.tasks id row ((congrArg (Table.get? · id) tasks).symm.trans found)
  runs id run found := frame.runs id run ((congrArg (Table.get? · id) runs).symm.trans found)

theorem recordEvent (eventType : String) : ViewFrame db (next.recordEvent eventType) written :=
  frame.of_tables rfl rfl

/-- An update of other columns. -/
theorem updateTask_view (same : ∀ row, (change row).view = row.view) :
    ViewFrame db (next.updateTask id change) written where
  tasks other row found := by
    rw [task?_updateTask] at found
    split_ifs at found
    · obtain ⟨before, stored, rfl⟩ := map_eq_some_iff.mp found
      rw [same]
      exact frame.tasks other before stored
    · exact frame.tasks other row found
  runs := frame.runs

end

variable {change : TaskRow → TaskRow}

theorem updateTask (sourced : ∀ row, db.task? id = some row → ViewSource db written (change row).view) :
    ViewFrame db (db.updateTask id change) written := by
  refine .of_tasks rfl fun other row found => ?_
  rw [task?_updateTask] at found
  split_ifs at found with same
  · subst same
    obtain ⟨before, stored, rfl⟩ := map_eq_some_iff.mp found
    exact sourced before stored
  · exact .of_task found

theorem updateRun {change : RunRow → RunRow}
    (sourced : ∀ run, db.run? id = some run → ViewSource db written (change run).view) :
    ViewFrame db (db.updateRun id change) written := by
  refine .of_runs rfl fun other run found => ?_
  rw [run?_updateRun] at found
  split_ifs at found with same
  · subst same
    obtain ⟨before, stored, rfl⟩ := map_eq_some_iff.mp found
    exact sourced before stored
  · exact .of_run found

theorem ensureTaskExists (db : Database) (id : TaskId) (path : String) :
    ViewFrame db (db.ensureTaskExists id path) written := by
  refine .of_tasks rfl fun other row found => ?_
  rw [task?_ensureTaskExists] at found
  split_ifs at found
  · obtain rfl := some.inj found
    cases stored : db.task? id with
    | none => exact .default
    | some before => exact .of_task stored
  · exact .of_task found

end ViewFrame

/-! ## Claims, reservations and views -/

theorem LeaseFrame.viewFrame (frame : LeaseFrame db next) : ViewFrame db next written := by
  refine .of_tasks frame.runs fun id row found => ?_
  cases stored : db.task? id with
  | none =>
    obtain ⟨path, fresh⟩ := frame.inserted id row stored found
    have default : row.view = .default := by
      change row.clearLease.view = _
      rw [fresh]
    rw [default]
    exact .default
  | some before =>
    obtain ⟨after, written, leased⟩ := frame.kept id before stored
    obtain rfl := some.inj (found.symm.trans written)
    have same : row.view = before.view := by
      change row.clearLease.view = before.view
      rcases leased with kept | promoted
      · rw [kept]
        rfl
      · rw [promoted]
        unfold TaskRow.promote
        split <;> rfl
    rw [same]
    exact .of_task stored

theorem finalize_viewFrame {specPath milestoneId : Option String}
    (finalized : db.finalizeTaskArtifactReservation id specPath milestoneId = .ok next) :
    ViewFrame db next written := by
  obtain ⟨_, _, finalized⟩ := Except.bind_eq_ok_iff.mp finalized
  split at finalized
  · cases finalized
    apply ViewFrame.recordEvent
    exact (ViewFrame.refl db written).updateTask_view fun _ => rfl
  · cases finalized

theorem discard_viewFrame (discarded : db.discardTaskArtifactReservation id = .ok next) :
    ViewFrame db next written := by
  unfold discardTaskArtifactReservation at discarded
  split at discarded
  · cases discarded
  · cases discarded
    refine .of_tasks rfl fun other row found => ?_
    have kept := (db.tasks.get?_deleteWhere _ other).symm.trans found
    exact .of_task (filter_eq_some_iff.mp kept).1

/-- Recording a view changes no view columns to anything but that view. -/
theorem recordRepositoryView_viewFrame {owner : ViewOwner} {id : String}
    (recorded : db.recordRepositoryViewInTransaction owner id view = .ok next) : ViewFrame db next (some view) := by
  unfold recordRepositoryViewInTransaction at recorded
  split at recorded
  · cases recorded
  · cases owner with
    | tasks =>
      cases recorded
      have tasks : ViewFrame db (db.updateTask id (fun row => { row with view := view.encode })) (some view) :=
        .updateTask fun _ _ => .recorded rfl
      refine ⟨tasks.tasks, fun other run found => ?_⟩
      have updated := (db.runs.get?_updateWhere _ _ other).symm.trans found
      obtain ⟨before, stored, rfl⟩ := map_eq_some_iff.mp updated
      split
      · exact .recorded rfl
      · exact .of_run stored
    | runs =>
      cases recorded
      exact .updateRun fun _ _ => .recorded rfl

/-! ## Task operations -/

variable {op : TaskOp}

theorem TaskOp.view_effect (op : TaskOp) (questionOrder : Nat) (row : TaskRow) :
    (op.effect questionOrder row).view = row.view ∨
      (op.effect questionOrder row).view = row.view.clearTree ∨
      ∃ view, op.frozenView? = some view ∧ (op.effect questionOrder row).view = view.encode := by
  cases op with
  | submit path runId frozenView freezeFailed =>
    cases frozenView with
    | none => exact .inl rfl
    | some view => exact .inr (.inr ⟨view, rfl, rfl⟩)
  | reject maxCycles =>
    simp only [effect, TaskRow.reviewRejected]
    split
    · exact .inl rfl
    · exact .inr (.inl rfl)
  | _ => exact .inl ((columns_effect _ questionOrder row).2.2 rfl)

theorem TaskOp.view_fresh (fresh : op.fresh? = some row) : row.view = .default := by
  cases op <;> cases fresh <;> rfl

/-- The tasks after a task operation. -/
theorem TaskEvent.tasks_viewSource (db : Database) (event : TaskEvent) (id : TaskId) (row : TaskRow)
    (found : (event.apply db).task? id = some row) : ViewSource db event.op.frozenView? row.view := by
  rcases event.task?_apply db id with ⟨same, _⟩ | ⟨_, written⟩
  · exact .of_task (same.symm.trans found)
  · obtain ⟨base, started, rfl⟩ := map_eq_some_iff.mp (written.symm.trans found)
    have held : base.view = .default ∨ db.Holds base.view := by
      rcases or_eq_some_iff.mp started with stored | ⟨_, fresh⟩
      · exact .inr ⟨.tasks, event.task, congrArg (Option.map TaskRow.view) stored⟩
      · exact .inl (TaskOp.view_fresh fresh)
    rcases event.op.view_effect (db.events.length + 1) base with same | cleared | ⟨view, given, recorded⟩
    · rw [same]
      rcases held with default | held
      · rw [default]
        exact .default
      · exact .kept held
    · rw [cleared]
      rcases held with default | held
      · rw [default]
        exact .default
      · exact .cleared held
    · rw [recorded]
      exact .recorded given

/-- Only a submission writes to the runs. -/
theorem TaskEvent.runs_apply (db : Database) (event : TaskEvent) (other : event.op.frozenView? = none) :
    (event.apply db).runs = db.runs := by
  obtain ⟨task, op⟩ := event
  cases op with
  | submit path runId frozenView freezeFailed =>
    obtain rfl : frozenView = none := other
    unfold apply
    dsimp only
    cases submitted : db.taskSubmittedInTransaction task path runId none freezeFailed with
    | error => rfl
    | ok next => exact Table.ext_get? fun other => (run?_taskSubmitted submitted other).trans (by simp [run?])
  | recordStatus | checkFailed | reject | enforceDispatchLimit | recordAnswer | restoreHuman | restoreConsultation =>
    simp only [apply, recordTaskStatusOnConnection, taskCheckFailedInTransaction, recordTaskReviewRejectedInTransaction,
      enforceExecutorDispatchLimit, recordTaskHumanAnswer, taskRestoreHumanInTransaction,
      taskRestoreConsultationInTransaction]
    repeat' split
    all_goals rfl
  | _ => rfl

/-- The run columns of a submission: its run, if it has one, takes the view. -/
private theorem updateSubmittedRun_of_bound (bound : ∀ run ∈ runId, (db.run? run).isSome)
    (view : RepositoryViewReference) : ∃ ran, runId.elim (.ok db) (db.updateRunRepositoryView · view) = .ok ran ∧
      ∀ run ∈ runId, ran.viewColumns? .runs run = some view.encode := by
  cases runId with
  | none => exact ⟨db, rfl, nofun⟩
  | some run =>
    obtain ⟨before, found⟩ := Option.isSome_iff_exists.mp (bound run rfl)
    refine ⟨db.updateRun run (fun run => { run with view := view.encode }), ?_, ?_⟩
    · dsimp only [Option.elim]
      unfold updateRunRepositoryView
      rw [found]
      rfl
    · rintro _ ⟨⟩
      have written := (db.run?_updateRun run run (fun run => { run with view := view.encode })).trans
        ((if_pos rfl).trans (congrArg _ found))
      exact congrArg (Option.map RunRow.view) written

/-- A submission with a valid frozen view commits, and its task and run have the view. -/
theorem taskSubmitted_of_frozen (valid : view.Valid) (frozen : view.lifecycle = .frozenSubmitted)
    (bound : ∀ run ∈ runId, (db.run? run).isSome) (id : TaskId) (path : String) (freezeFailed : Bool) :
    ∃ next, db.taskSubmittedInTransaction id path runId (some view) freezeFailed = .ok next ∧
      next.viewColumns? .tasks id = some view.encode ∧
      ∀ run ∈ runId, next.viewColumns? .runs run = some view.encode := by
  let reviewed := (db.upsertTask id path .reviewing none none).clearTaskLease id
  let viewed := reviewed.updateTask id fun row => { row with view := view.encode }
  have required : requireFrozenView (some view) = .ok () := by
    rw [requireFrozenView, valid]
    exact if_pos frozen
  have tasked : reviewed.updateTaskRepositoryView id view = .ok viewed := by
    have stored : reviewed.task? id = some _ :=
      (task?_clearTaskLease _ id id).trans
        ((if_pos rfl).trans (congrArg _ ((db.task?_upsertTask id id ..).trans (if_pos rfl))))
    rw [updateTaskRepositoryView, stored]
  have viewedBound : ∀ run ∈ runId, (viewed.run? run).isSome := bound
  obtain ⟨ran, runWritten, runViews⟩ := updateSubmittedRun_of_bound viewedBound view
  have ranBound : ∀ run ∈ runId, (ran.run? run).isSome := by
    intro run given
    obtain ⟨row, found, _⟩ := map_eq_some_iff.mp (runViews run given)
    rw [found]
    rfl
  -- an event changes the log only, so the run stays bound for the next one
  have logs : ∀ log eventType, { ran with events := log }.insertEventInTransaction runId eventType =
      .ok { ran with events := log ++ [⟨runId, eventType⟩] } := by
    intro log eventType
    apply insertEventInTransaction_of_bound
    exact ranBound
  have committed : ∃ next, db.taskSubmittedInTransaction id path runId (some view) freezeFailed = .ok next ∧
      next.runs = ran.runs := by
    unfold taskSubmittedInTransaction recordSubmittedView
    rw [required]
    simp only [bind, Except.bind]
    rw [tasked]
    dsimp only
    rw [runWritten]
    dsimp only
    rw [insertEventInTransaction_of_bound ranBound]
    dsimp only
    rw [logs]
    exact ⟨_, logs _ _, rfl⟩
  obtain ⟨next, submitted, runs⟩ := committed
  refine ⟨next, submitted, ?_, fun run given => ?_⟩
  · have written := (task?_taskSubmitted submitted id).trans (if_pos rfl)
    exact congrArg (Option.map TaskRow.view) written
  · have same : next.run? run = ran.run? run := congrArg (Table.get? · run) runs
    exact (congrArg (Option.map RunRow.view) same).trans (runViews run given)

theorem TaskEvent.submittedView?_valid {event : TaskEvent} (given : event.submittedView? db = some view) :
    view.Valid := by
  obtain ⟨task, op⟩ := event
  cases op with
  | submit path runId frozenView freezeFailed =>
    obtain ⟨next, committed, rfl⟩ := bind_eq_some_iff.mp given
    cases submitted : db.taskSubmittedInTransaction task path runId (some view) freezeFailed with
    | error =>
      rw [submitted] at committed
      cases committed
    | ok =>
      obtain ⟨_, required, -⟩ := Except.bind_eq_ok_iff.mp submitted
      obtain ⟨_, validated, -⟩ := Except.bind_eq_ok_iff.mp required
      exact validated
  | _ => cases given

theorem TaskEvent.viewFrame (db : Database) (event : TaskEvent) :
    ViewFrame db (event.apply db) (event.submittedView? db) := by
  cases brought : event.op.frozenView? with
  | none =>
    have tasks := event.tasks_viewSource db
    have nothing : event.submittedView? db = none := by
      obtain ⟨task, op⟩ := event
      cases op with
      | submit path runId frozenView freezeFailed =>
        obtain rfl : frozenView = none := brought
        exact bind_eq_none_iff.mpr fun _ _ => rfl
      | _ => rfl
    rw [nothing]
    rw [brought] at tasks
    exact .of_tasks (event.runs_apply db brought) tasks
  | some view =>
    have tasks := event.tasks_viewSource db
    obtain ⟨task, op⟩ := event
    cases op with
    | submit path runId frozenView freezeFailed =>
      obtain rfl : frozenView = some view := brought
      unfold submittedView? at *
      unfold apply at *
      dsimp only [TaskOp.frozenView?] at *
      cases submitted : db.taskSubmittedInTransaction task path runId (some view) freezeFailed with
      | error => exact .refl db _
      | ok next =>
        rw [submitted] at tasks
        refine ⟨tasks, fun other run (found : next.run? other = some run) => ?_⟩
        rw [run?_taskSubmitted submitted] at found
        split_ifs at found
        · obtain ⟨_, _, rfl⟩ := map_eq_some_iff.mp found
          exact .recorded rfl
        · exact .of_run found
    | _ => cases brought

/-! ## Runs -/

variable {runId : RunId} {agent : AgentId} {task : TaskId}

theorem reserveExecutorSession_viewFrame {processIsAlive : Nat → Bool} {workspacePath : String}
    {sharedWorkspace : Bool} {pid : Nat}
    (reserved : db.reserveExecutorSession processIsAlive runId agent workspacePath task sharedWorkspace pid timestamp =
      .ok next) : ViewFrame db next written := by
  unfold reserveExecutorSession at reserved
  split at reserved
  · cases reserved
  · split at reserved
    · cases reserved
    · cases reserved
      have tasks : ViewFrame db (db.ensureTaskExists task (defaultTaskPathForId task)) written :=
        .ensureTaskExists db task _
      refine ⟨tasks.tasks, fun other run found => ?_⟩
      have inserted := (db.runs.get?_insertNew runId other _).symm.trans found
      split_ifs at inserted
      · obtain rfl := some.inj inserted
        cases stored : db.runs.get? runId with
        | none => exact .default
        | some before => exact .of_run stored
      · exact .of_run inserted

theorem insertStartedRun_viewFrame (runId : RunId) (role : RunRole) (agent : AgentId) (pid : Nat)
    (task : TaskId) (workspacePath timestamp : String) :
    ViewFrame db (db.insertStartedRun runId role agent pid task workspacePath timestamp) written := by
  unfold insertStartedRun
  split
  · exact .refl db written
  · next row stored =>
    refine .of_runs rfl fun other run found => ?_
    have upserted := (db.runs.get?_upsert runId other _ _).symm.trans found
    split_ifs at upserted
    · obtain rfl := some.inj upserted
      cases db.runs.get? runId <;> exact .of_task stored
    · exact .of_run upserted

theorem attachRunToTask_viewFrame (attached : db.attachRunToTask runId task timestamp = .ok next) :
    ViewFrame db next written := by
  unfold attachRunToTask at attached
  split at attached
  · cases attached
    exact .refl db written
  · cases attached
  · next row _ stored =>
    cases attached
    exact .updateRun fun _ _ => .of_task stored

/-- An attachment to a consultation changes nothing, or it moves the latest run of the agent. -/
theorem attachToConsultation_ok {task : Option TaskId} {context : Option RuntimeTaskContext}
    (attached : db.attachToConsultation agent task timestamp = .ok (next, context)) :
    next = db ∨ ∃ runId id moved, db.latestActiveRunForAgent agent = some runId ∧
      db.attachRunToTask runId id timestamp = .ok moved ∧ next.tasks = moved.tasks ∧ next.runs = moved.runs := by
  unfold attachToConsultation at attached
  split at attached
  · cases attached
    exact .inl rfl
  · next runId chosen =>
    obtain ⟨current, _, attached⟩ := Except.bind_eq_ok_iff.mp attached
    split at attached
    · cases attached
      exact .inl rfl
    · split at attached
      · cases attached
        exact .inl rfl
      · obtain ⟨view, _, attached⟩ := Except.bind_eq_ok_iff.mp attached
        split at attached
        · cases attached
          exact .inl rfl
        · obtain ⟨moved, moves, attached⟩ := Except.bind_eq_ok_iff.mp attached
          obtain ⟨logged, logs, attached⟩ := Except.bind_eq_ok_iff.mp attached
          cases attached
          refine .inr ⟨runId, _, moved, chosen, moves, ?_⟩
          rw [insertEventInTransaction_ok logs]
          exact ⟨rfl, rfl⟩

theorem closeRun_viewFrame (runId : RunId) (status : RunStatus) (timestamp : String) :
    ViewFrame db (db.closeRun runId status timestamp) written := by
  apply ViewFrame.updateRun
  intro run stored
  have source : ViewSource db written run.view := .of_run stored
  exact source

theorem retireLegacyCurrentTaskRow_viewFrame (timestamp : String) :
    ViewFrame db (db.retireLegacyCurrentTaskRow timestamp) written := by
  unfold retireLegacyCurrentTaskRow
  split
  · exact .refl db written
  · refine ViewFrame.updateTask_view ?_ fun _ => rfl
    split
    · exact .refl db written
    · constructor
      · intro id row found
        have inserted := (db.tasks.get?_insertNew "t-001" id _).symm.trans found
        split_ifs at inserted
        · obtain rfl := some.inj inserted
          cases held : db.tasks.get? "t-001" with
          | none => exact .default
          | some _ => exact .of_task held
        · exact .of_task inserted
      · intro id run found
        have updated := (db.runs.get?_updateWhere _ _ id).symm.trans found
        obtain ⟨before, stored, rfl⟩ := map_eq_some_iff.mp updated
        have source : ViewSource db written before.view := .of_run stored
        split <;> exact source

end Ferrus.Runtime

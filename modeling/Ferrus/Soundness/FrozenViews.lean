import Ferrus.Machine.Core.Run
import Ferrus.Model.Runtime.OverlayRefresh
import Ferrus.Proofs.ViewFrame

/-! # The frozen view of a submission

A submission stores the frozen view that its review reads. A refresh or baseline pin that read a mutable
view cannot replace it, because its comparison fails. One that reads the view only after the submission
compares against the frozen view itself, succeeds, and replaces it by a mutable one.
-/

namespace Ferrus.Runtime

open Ferrus.Machine OverlayState Database EveryStep Except

/-- The stored view of the task is frozen. -/
def Database.frozen (db : Database) (task : TaskId) : Bool :=
  match db.ownerRepositoryView .tasks task with
  | .ok (some view) => view.lifecycle = .frozenSubmitted
  | _ => false

/-- The task is rejected, reset or submitted again. -/
def OverlayEvent.Ends (task : TaskId) : OverlayEvent → Prop
  | .task event => event.task = task ∧
      match event.op with
      | .reject _ | .submit .. => True
      | .upsertStatus _ status _ _ | .recordStatus _ status _ _ => status = .reset
      | _ => False
  | _ => False

/-- The event is a submission that commits and brings the frozen view. -/
def OverlayState.Freezes (state : OverlayState) (event : OverlayEvent) (task : TaskId)
    (view : RepositoryViewReference) : Prop :=
  ∃ path runId freezeFailed next,
    event = .task ⟨task, .submit path runId (some view) freezeFailed⟩ ∧
      state.db.taskSubmittedInTransaction task path runId (some view) freezeFailed = .ok next

/-- Once a submission has stored its frozen view, the task has exactly this view until the task is
rejected, reset or submitted again. -/
def FrozenViewStays (db : Database) (before after : List OverlayEvent) (submission : OverlayEvent)
    (task : TaskId) (view : RepositoryViewReference) : Prop :=
  (run step ⟨db, .empty⟩ before).Freezes submission task view →
    (∀ event ∈ after, ¬ event.Ends task) →
      (run step ⟨db, .empty⟩ (before ++ submission :: after)).db.ownerRepositoryView
        .tasks task = .ok (some view)

/-- No refresh or pin reads a frozen view, and no pin falls back to an uncompared record over one. -/
def ReadsMutable (state : OverlayState) (event : OverlayEvent) (_ : OverlayState) : Prop :=
  match event with
  | .readView call => ∀ task, state.calls.get? call = some (.guarded task) → state.db.frozen task = false
  | .authorizeRefresh _ task | .scheduleBaselinePin _ task => state.db.frozen task = false
  | .recordUnpreparedPin call _ =>
      ∀ task existing, state.calls.get? call = some (.pinning task existing) → state.db.frozen task = false
  | _ => True

/-! ## What the writers leave alone -/

/-- The view a call compares against. -/
def ViewCall.existing? : ViewCall → Option RepositoryViewReference
  | .guarded _ => none
  | .refreshing _ existing => some existing
  | .pinning _ existing => existing

section Stored

variable {db next : Database} {task : TaskId} {view : RepositoryViewReference}

/-- The task has a frozen view in its columns. -/
structure Database.Stores (db : Database) (task : TaskId) (view : RepositoryViewReference) : Prop where
  valid : view.Valid
  frozen : view.lifecycle = .frozenSubmitted
  columns : db.viewColumns? .tasks task = some view.encode

namespace Database.Stores

section

variable (stores : db.Stores task view)

include stores

theorem read : db.ownerRepositoryView .tasks task = .ok (some view) :=
  ownerRepositoryView_of_encode stores.valid stores.columns

theorem isFrozen : db.frozen task = true := by
  rw [Database.frozen, stores.read]
  simpa using stores.frozen

theorem of_task? (same : next.task? task = db.task? task) : next.Stores task view where
  valid := stores.valid
  frozen := stores.frozen
  columns := (congrArg (Option.map TaskRow.view) same).trans stores.columns

/-- A view recorded for another task. -/
theorem of_recordOther {other : TaskId} {recorded : RepositoryViewReference} (different : task ≠ other)
    (written : db.recordRepositoryViewInTransaction .tasks other recorded = .ok next) : next.Stores task view := by
  unfold recordRepositoryViewInTransaction at written
  split at written
  · cases written
  · cases written
    apply stores.of_task?
    exact (db.tasks.get?_modify other task _).trans (if_neg different)

/-- A comparison with a mutable view does not replace the frozen one. -/
theorem of_compare {other : TaskId} {expected recorded : RepositoryViewReference} {answer : Bool}
    (isMutable : expected.lifecycle = .mutable)
    (compared : db.compareAndRecordTaskRepositoryView other expected recorded = .ok (next, answer)) :
    next.Stores task view := by
  by_cases same : task = other
  · subst same
    have differs : view ≠ expected := by
      intro equal
      have := stores.frozen
      rw [equal, isMutable] at this
      cases this
    obtain ⟨_, _, compared⟩ := bind_eq_ok_iff.mp compared
    obtain ⟨_, _, compared⟩ := bind_eq_ok_iff.mp compared
    obtain ⟨current, currentRead, compared⟩ := bind_eq_ok_iff.mp compared
    rw [stores.read] at currentRead
    cases currentRead
    dsimp only at compared
    rw [if_pos differs] at compared
    cases compared
    exact stores
  · rcases compareAndRecordTaskRepositoryView_ok compared with ⟨_, rfl⟩ | ⟨_, _, written⟩
    · exact stores
    · exact stores.of_recordOther same written

theorem of_refresh {other : TaskId} {existing : RepositoryViewReference} (isMutable : existing.lifecycle = .mutable)
    (indexing : OverlayIndexing) : (db.refreshTaskOverlayWithContext other existing indexing).1.Stores task view := by
  have recorded (written : RepositoryViewReference) (outcome : Except String RepositoryViewReference) :
      (db.recordRefreshed other existing written outcome).1.Stores task view := by
    unfold recordRefreshed
    split
    · exact stores
    · next compared => exact stores.of_compare isMutable compared
    · next compared => exact stores.of_compare isMutable compared
  unfold refreshTaskOverlayWithContext
  split
  · exact stores
  · exact stores
  · exact stores
  · split
    · exact recorded _ _
    · exact stores
  · exact stores
  · exact recorded _ _

/-- Every operation that does not end the review keeps the view of the task. -/
theorem of_task {event : TaskEvent} (continues : ¬ (OverlayEvent.task event).Ends task) :
    (event.apply db).Stores task view := by
  rcases event.task?_apply db task with ⟨same, _⟩ | ⟨rfl, written⟩
  · exact stores.of_task? same
  have kept : event.op.writesView = false := by
    cases op : event.op with
    | submit | reject => exact absurd ⟨rfl, by rw [op]; trivial⟩ continues
    | _ => rfl
  obtain ⟨row, stored, columns⟩ := Option.map_eq_some_iff.mp stores.columns
  have based : event.base? db = some row := by
    rw [TaskEvent.base?, stored, Option.some_or]
  refine ⟨stores.valid, stores.frozen, ?_⟩
  rw [viewColumns?, written, based, ← columns]
  exact congrArg some ((TaskOp.columns_effect _ _ row).2.2 kept)

end

/-- The row right after the submission. -/
theorem of_submitted {path : String} {runId : Option RunId} {freezeFailed : Bool}
    (submitted : db.taskSubmittedInTransaction task path runId (some view) freezeFailed = .ok next) :
    next.Stores task view := by
  obtain ⟨_, required, _⟩ := bind_eq_ok_iff.mp submitted
  obtain ⟨_, valid, isFrozen⟩ := bind_eq_ok_iff.mp required
  have written := task?_taskSubmitted submitted task
  rw [if_pos rfl] at written
  refine ⟨valid, ?_, congrArg (Option.map TaskRow.view) written⟩
  by_contra other
  rw [if_neg other] at isFrozen
  cases isFrozen

end Database.Stores

end Stored

/-! ## Runs -/

/-- No call under way has read a frozen view. -/
def OverlayState.Unfrozen (state : OverlayState) : Prop :=
  ∀ call entry, state.calls.get? call = some entry → ∀ existing ∈ entry.existing?, existing.lifecycle = .mutable

variable {state : OverlayState} {event : OverlayEvent} {task : TaskId} {view : RepositoryViewReference}

/-- A view that is read while the stored one is not frozen is mutable. -/
theorem Database.lifecycle_of_read {db : Database} (unfrozen : db.frozen task = false)
    (read : db.ownerRepositoryView .tasks task = .ok (some view)) : view.lifecycle = .mutable := by
  rw [frozen, read] at unfrozen
  cases lifecycle : view.lifecycle with
  | mutable => rfl
  | frozenSubmitted => simp [lifecycle] at unfrozen

namespace OverlayState.Unfrozen

theorem start (db : Database) : Unfrozen ⟨db, .empty⟩ := by
  intro call entry found
  cases found

section

variable (inv : state.Unfrozen)

include inv

/-- The invariant does not look at the database. -/
theorem of_calls {next : OverlayState} (calls : next.calls = state.calls) : next.Unfrozen := by
  rw [Unfrozen, calls]
  exact inv

theorem endCall (call : Nat) : (state.endCall call).Unfrozen := by
  intro other entry found
  exact inv other entry (Table.get?_of_deleteWhere found)

theorem begin (call : Nat) {entry : ViewCall}
    (isMutable : ∀ existing ∈ entry.existing?, existing.lifecycle = .mutable) : (state.begin call entry).Unfrozen := by
  intro other found stored
  rw [OverlayState.begin, Table.get?_put] at stored
  split_ifs at stored
  · cases stored
    exact isMutable
  · exact inv other found stored

/-- Under the condition a call only ever compares against a mutable view. -/
theorem step (reads : ReadsMutable state event (state.step event)) : (state.step event).Unfrozen := by
  cases event with
  | beginCheck call task =>
    dsimp only [step]
    split
    · split
      · exact inv.begin call (by rintro _ ⟨⟩)
      · exact inv
    · exact inv
  | readView call =>
    dsimp only [step]
    split
    · next task found =>
      split
      · next read =>
        apply inv.begin
        rintro _ ⟨⟩
        exact lifecycle_of_read (reads task found) read
      · exact inv.endCall call
    · exact inv
  | authorizeRefresh call task =>
    dsimp only [step]
    split
    · next read =>
      apply inv.begin
      rintro _ ⟨⟩
      exact lifecycle_of_read reads read
    · exact inv
  | scheduleBaselinePin call task =>
    apply inv.begin
    intro existing read
    cases stored : state.db.ownerRepositoryView .tasks task with
    | error => simp [ViewCall.existing?, stored, Except.toOption] at read
    | ok current =>
      cases current with
      | none => simp [ViewCall.existing?, stored, Except.toOption] at read
      | some current =>
        simp only [ViewCall.existing?, stored, Except.toOption, Option.join_some, Option.mem_def,
          Option.some.injEq] at read
        exact lifecycle_of_read reads (read ▸ stored)
  | finishRefresh call _ | recordUnpreparedPin call _ | finishBaselinePin call _ =>
    dsimp only [step]
    split
    · exact (inv.endCall call).of_calls rfl
    · exact inv
  | task event => exact inv

end

end OverlayState.Unfrozen

/-- One step under the condition keeps the frozen view of a task under review. -/
theorem Database.Stores.step (stores : state.db.Stores task view) (inv : state.Unfrozen)
    (reads : ReadsMutable state event (state.step event)) (continues : ¬ event.Ends task) :
    (state.step event).db.Stores task view := by
  cases event with
  | beginCheck | readView =>
    dsimp only [step]
    split
    · split <;> exact stores
    · exact stores
  | authorizeRefresh call other =>
    dsimp only [step]
    split <;> exact stores
  | scheduleBaselinePin call other => exact stores
  | finishRefresh call indexing =>
    dsimp only [step]
    split
    · next other existing found => exact stores.of_refresh (inv call _ found existing rfl) indexing
    · exact stores
  | recordUnpreparedPin call message =>
    dsimp only [step]
    split
    · next other existing found =>
      -- The record is not compared, so it must be of another task.
      have different : task ≠ other := by
        rintro rfl
        have := reads task existing found
        rw [stores.isFrozen] at this
        cases this
      cases recorded : state.db.recordRepositoryView .tasks other
        (resolvedRepositoryView existing (.error (.failed message))) with
      | error => exact stores
      | ok next =>
        obtain ⟨_, _, written⟩ := bind_eq_ok_iff.mp recorded
        exact stores.of_recordOther different written
    · exact stores
  | finishBaselinePin call attempt =>
    dsimp only [step]
    split
    · next other existing found =>
      cases existing with
      | none => exact stores
      | some existing =>
        have isMutable := inv call _ found existing rfl
        cases compared : state.db.compareAndRecordTaskRepositoryView other existing
          (resolvedRepositoryView (some existing) (resolveTaskBaseline (some existing) attempt)) with
        | error message =>
          show (state.db.commit (state.db.compareAndRecordTaskRepositoryView _ _ _)).Stores task view
          rw [compared]
          exact stores
        | ok answer =>
          show (state.db.commit (state.db.compareAndRecordTaskRepositoryView _ _ _)).Stores task view
          rw [compared]
          exact stores.of_compare isMutable compared
    · exact stores
  | task event => exact stores.of_task continues

/-- If no refresh and no pin reads a frozen view, and no pin records over one without comparing, the
frozen view of a submission stays until the task is rejected, reset or submitted again. -/
theorem frozenView_stays (db : Database) (before after : List OverlayEvent) (submission : OverlayEvent)
    (task : TaskId) (view : RepositoryViewReference)
    (reads : EveryStep step ReadsMutable ⟨db, .empty⟩ (before ++ submission :: after)) :
    FrozenViewStays db before after submission task view := by
  rintro ⟨path, runId, freezeFailed, next, rfl, submitted⟩ continues
  obtain ⟨readsBefore, _, readsAfter⟩ := append_iff.mp reads
  have unfrozen : (run step ⟨db, .empty⟩ before).Unfrozen :=
    run_invariant OverlayState.Unfrozen readsBefore (.start db) fun _ _ inv here => inv.step here
  have applied : TaskEvent.apply (run step ⟨db, .empty⟩ before).db
      ⟨task, .submit path runId (some view) freezeFailed⟩ = next := by
    simp only [TaskEvent.apply, submitted, Except.toOption, Option.getD_some]
  have stored : (step (run step ⟨db, .empty⟩ before)
      (.task ⟨task, .submit path runId (some view) freezeFailed⟩)).db.Stores task view := by
    rw [step, applied]
    exact .of_submitted submitted
  rw [run_append, run_cons]
  have every := readsAfter.and (of_mem (P := fun _ event _ => ¬ event.Ends task)
    (fun event member _ => continues event member) _)
  have final := run_invariant (fun state => state.db.Stores task view ∧ state.Unfrozen) every
    ⟨stored, unfrozen⟩ fun _ _ inv here => ⟨inv.1.step inv.2 here.1 here.2, inv.2.step here.1⟩
  exact final.1.read

/-! ## A check that began before the submission -/

/-- One task that is being executed. -/
def executingExample : Database :=
  { Database.empty with
    tasks := Table.empty.insertNew "t-001"
      { path := ".ferrus/tasks/t-001.md", status := .executing, view := builtExample.encode } }

def submissionExample : OverlayEvent :=
  .task ⟨"t-001", .submit ".ferrus/tasks/t-001.md" none (some frozenExample) false⟩

/-- The refresh of a check reads its view before the submission and is refused after it. -/
theorem frozenView_stays_earlyRead : EveryStep step ReadsMutable ⟨executingExample, .empty⟩
        ([.beginCheck 1 "t-001", .readView 1] ++ submissionExample :: [.finishRefresh 1 (.indexed none)]) ∧
      FrozenViewStays executingExample [.beginCheck 1 "t-001", .readView 1]
        [.finishRefresh 1 (.indexed none)] submissionExample "t-001" frozenExample := by
  refine ⟨?reads, frozenView_stays _ _ _ _ _ _ ?reads⟩
  refine ⟨trivial, ?_, trivial, trivial, trivial⟩
  rintro task ⟨⟩
  decide

/-- The check passed its guard before the submission, but its refresh reads the view after it: the
refresh compares against the frozen view and replaces it. -/
theorem not_frozenView_stays_lateRead : ¬ FrozenViewStays executingExample [.beginCheck 1 "t-001"]
      [.readView 1, .finishRefresh 1 (.indexed none)] submissionExample "t-001" frozenExample := by
  intro stays
  have continues : ∀ event ∈ [OverlayEvent.readView 1, .finishRefresh 1 (.indexed none)],
      ¬ event.Ends "t-001" := by
    intro event member
    simp only [List.mem_cons, List.not_mem_nil, or_false] at member
    rcases member with rfl | rfl <;> exact id
  have kept := congrArg Except.toOption (stays ⟨_, _, _, _, rfl, rfl⟩ continues)
  revert kept
  decide

end Ferrus.Runtime

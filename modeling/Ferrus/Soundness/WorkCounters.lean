import Ferrus.Machine.Core.Run
import Ferrus.Model.Runtime.TaskOps

/-! # The counters of a task

A task counts its check failures, its rejections and its executor dispatches, and fails when a count
reaches its limit. The counts are compared here with the history of the task. A rejection that spends
the last review cycle fails the task and resets nothing; the dispatch gate fails a task as well.
-/

namespace Ferrus.Runtime

open Ferrus.Machine TaskRow Database

/-- The `u32` limits of `ferrus.toml`; nothing validates them. -/
structure Limits where
  (maxCheckRetries maxReviewCycles maxExecutorDispatches : Nat)
  checkFits : maxCheckRetries < 2 ^ 32
  reviewFits : maxReviewCycles < 2 ^ 32
  dispatchFits : maxExecutorDispatches < 2 ^ 32

/-- One operation of the work on a task. A dispatch passes the gate before its session starts and is
recorded once it has started. -/
inductive WorkOp where
  | checkPassed
  | checkFailed (failureReason : String)
  | submit (path : String) (runId : Option RunId) (frozenView : Option RepositoryViewReference)
      (freezeFailed : Bool)
  | reject
  | gate
  | dispatch
deriving DecidableEq, Repr

def WorkOp.taskOp (limits : Limits) : WorkOp → TaskOp
  | checkPassed => .checkPassed
  | checkFailed failureReason => .checkFailed failureReason limits.maxCheckRetries
  | submit path runId frozenView freezeFailed => .submit path runId frozenView freezeFailed
  | reject => .reject limits.maxReviewCycles
  | gate => .enforceDispatchLimit limits.maxExecutorDispatches
  | dispatch => .dispatch

/-- The database with the operations performed so far, newest first, and whether the gate has let a
dispatch through that is not recorded yet. -/
structure History where
  db : Database
  log : List WorkOp
  admitted : Bool

open History

/-- Whether the operation takes place: nothing but a reset acts on a failed task, and the scheduler
starts one session at a time. -/
def History.performs (history : History) (task : TaskId) (op : WorkOp) : Bool :=
  history.db.status? task ≠ some .failed &&
    match op with
    | .gate => !history.admitted
    | .dispatch => history.admitted
    | _ => true

/-- Whether a dispatch is under way after the operation. -/
def WorkOp.admits (admitted : Bool) : WorkOp → Bool
  | gate => true
  | dispatch => false
  | _ => admitted

def History.step (limits : Limits) (task : TaskId) (history : History) (op : WorkOp) : History :=
  if history.performs task op then
    { db := TaskEvent.apply history.db ⟨task, op.taskOp limits⟩
      log := op :: history.log
      admitted := op.admits history.admitted }
  else history

/-! ## Counts of a history, newest operation first -/

/-- All rejections. -/
def rejections : List WorkOp → Nat
  | [] => 0
  | .reject :: rest => rejections rest + 1
  | _ :: rest => rejections rest

/-- The newest operation of the history is a rejection that leaves a review cycle. -/
def leavesCycle (limits : Limits) (rest : List WorkOp) : Bool := rejections rest + 1 < limits.maxReviewCycles

/-- The check failures since the last pass or the last rejection that left a review cycle. -/
def failuresSince (limits : Limits) : List WorkOp → Nat
  | [] => 0
  | .checkFailed _ :: rest => failuresSince limits rest + 1
  | .checkPassed :: _ => 0
  | .reject :: rest => if leavesCycle limits rest then 0 else failuresSince limits rest
  | _ :: rest => failuresSince limits rest

/-- The dispatches since the last rejection that left a review cycle. -/
def dispatchesSince (limits : Limits) : List WorkOp → Nat
  | [] => 0
  | .dispatch :: rest => dispatchesSince limits rest + 1
  | .reject :: rest => if leavesCycle limits rest then 0 else dispatchesSince limits rest
  | _ :: rest => dispatchesSince limits rest

/-- The operation is the one that reaches a limit. -/
def reachesLimit (limits : Limits) (log : List WorkOp) : WorkOp → Bool
  | .checkFailed _ => limits.maxCheckRetries ≤ failuresSince limits log + 1
  | .reject => limits.maxReviewCycles ≤ rejections log + 1
  | .gate => limits.maxExecutorDispatches ≠ 0 && limits.maxExecutorDispatches ≤ dispatchesSince limits log
  | _ => false

/-- No count is above its limit; a limit of zero still lets one check fail and one review reject, and
a dispatch budget of zero is none. -/
structure WithinLimits (limits : Limits) (log : List WorkOp) : Prop where
  failures : failuresSince limits log ≤ max limits.maxCheckRetries 1
  cycles : rejections log ≤ max limits.maxReviewCycles 1
  dispatches : limits.maxExecutorDispatches ≠ 0 → dispatchesSince limits log ≤ limits.maxExecutorDispatches

/-- The stored counters are the counts of the history. -/
structure Tallied (limits : Limits) (log : List WorkOp) (row : TaskRow) : Prop where
  retries : row.checkRetries = failuresSince limits log
  cycles : row.reviewCycles = rejections log
  dispatches : row.executorDispatches = dispatchesSince limits log % 2 ^ 32

/-- What one operation of a history does. -/
structure CounterLaw (limits : Limits) (task : TaskId) (history : History) (op : WorkOp)
    (target : History) : Prop where
  tallied : ∀ row, target.db.task? task = some row → Tallied limits target.log row
  bounded : WithinLimits limits target.log
  /-- A task fails exactly at the operation that reaches a limit. -/
  fails : history.db.status? task ≠ some .failed →
    (target.db.status? task = some .failed ↔
      history.performs task op = true ∧ reachesLimit limits history.log op = true)
  /-- The dispatch counter returns to zero at a rejection that leaves a review cycle. Without a budget
  it may also wrap. -/
  zeroed : ∀ row after, history.db.task? task = some row → target.db.task? task = some after →
    row.executorDispatches ≠ 0 → after.executorDispatches = 0 →
    op = .reject ∧ leavesCycle limits history.log = true ∨ limits.maxExecutorDispatches = 0

variable {limits : Limits} {task : TaskId} {log : List WorkOp} {row : TaskRow} {admitted : Bool}

/-- An operation has its effect on the stored row; a submission may also be refused. -/
theorem WorkOp.apply_row (limits : Limits) {db : Database} (op : WorkOp) (stored : db.task? task = some row) :
    ∃ after, (TaskEvent.apply db ⟨task, op.taskOp limits⟩).task? task = some after ∧
      (after = (op.taskOp limits).effect (db.events.length + 1) row ∨
        after = row ∧ ∃ path runId frozenView freezeFailed,
          op = .submit path runId frozenView freezeFailed) := by
  obtain ⟨same, mayFail⟩ | ⟨_, written⟩ := TaskEvent.task?_apply db ⟨task, op.taskOp limits⟩ task
  · refine ⟨row, same.trans stored, .inr ⟨rfl, ?_⟩⟩
    cases op with
    | submit path runId frozenView freezeFailed => exact ⟨path, runId, frozenView, freezeFailed, rfl⟩
    | _ => cases mayFail rfl
  · refine ⟨_, ?_, .inl rfl⟩
    rw [written, TaskEvent.base?, stored]
    rfl

/-- The counts of a task that has not failed are below their limits. -/
structure BelowLimits (limits : Limits) (log : List WorkOp) (admitted : Bool) : Prop where
  failures : failuresSince limits log = 0 ∨ failuresSince limits log < limits.maxCheckRetries
  cycles : rejections log = 0 ∨ rejections log < limits.maxReviewCycles
  dispatches : limits.maxExecutorDispatches ≠ 0 → dispatchesSince limits log ≤ limits.maxExecutorDispatches
  admitted : admitted = true → limits.maxExecutorDispatches ≠ 0 →
    dispatchesSince limits log < limits.maxExecutorDispatches

/-- A count below a `u32` limit is counted on without a wrap. -/
private theorem u32Succ_count {count limit : Nat} (below : count = 0 ∨ count < limit)
    (fits : limit < 2 ^ 32) : u32Succ (asU32 count) = count + 1 := by
  unfold u32Succ asU32
  rw [Nat.mod_eq_of_lt (show count < 2 ^ 32 by omega), Nat.mod_eq_of_lt (by omega)]

/-- An operation on an open task counts as its history says, and fails the task at a limit only. -/
structure Counted (limits : Limits) (log : List WorkOp) (op : WorkOp) (after : TaskRow) : Prop where
  tallied : Tallied limits (op :: log) after
  fails : after.status = .failed ↔ reachesLimit limits log op = true

section

variable (tallied : Tallied limits log row)

include tallied

private theorem counted_dispatch (active : row.status ≠ .failed) : Counted limits log .dispatch row.dispatched := by
  refine ⟨⟨tallied.retries, tallied.cycles, ?_⟩, ⟨fun failed => absurd failed active, nofun⟩⟩
  change u32Succ (asU32 row.executorDispatches) = (dispatchesSince limits log + 1) % 2 ^ 32
  rw [tallied.dispatches, u32Succ, asU32, Nat.mod_mod, Nat.mod_add_mod]

variable (below : BelowLimits limits log admitted)

include below

private theorem counted_checkFailed (active : row.status ≠ .failed) (failureReason : String) :
    Counted limits log (.checkFailed failureReason)
      (row.checkFailed failureReason limits.maxCheckRetries) := by
  have next : u32Succ (asU32 row.checkRetries) = failuresSince limits log + 1 := by
    rw [tallied.retries]
    exact u32Succ_count below.failures limits.checkFits
  unfold checkFailed
  rw [next]
  dsimp only
  split
  · next limit =>
    exact ⟨⟨rfl, tallied.cycles, tallied.dispatches⟩, by simp [fail, reachesLimit, limit]⟩
  · next under =>
    exact ⟨⟨rfl, tallied.cycles, tallied.dispatches⟩, by simp [active, reachesLimit, under]⟩

private theorem counted_reject : Counted limits log .reject (row.reviewRejected limits.maxReviewCycles) := by
  have next : u32Succ (asU32 row.reviewCycles) = rejections log + 1 := by
    rw [tallied.cycles]
    exact u32Succ_count below.cycles limits.reviewFits
  unfold reviewRejected
  rw [next]
  dsimp only
  split
  · next limit =>
    have spent : leavesCycle limits log = false := by simp [leavesCycle, limit]
    refine ⟨⟨?_, rfl, ?_⟩, by simp [fail, reachesLimit, limit]⟩
    · simp only [failuresSince, spent]
      exact tallied.retries
    · simp only [dispatchesSince, spent]
      exact tallied.dispatches
  · next under =>
    have left : leavesCycle limits log = true := decide_eq_true (not_le.mp under)
    refine ⟨⟨?_, rfl, ?_⟩, by simp [readdress, reachesLimit, under]⟩
    · simp only [failuresSince, left]
      rfl
    · simp only [dispatchesSince, left]
      rfl

private theorem counted_gate (active : row.status ≠ .failed) :
    Counted limits log .gate (row.dispatchGate limits.maxExecutorDispatches) := by
  have spent : limits.maxExecutorDispatches ≠ 0 ∧
      asU32 row.executorDispatches ≥ limits.maxExecutorDispatches ↔
        reachesLimit limits log .gate = true := by
    have count : limits.maxExecutorDispatches ≠ 0 →
        asU32 row.executorDispatches = dispatchesSince limits log := by
      intro budget
      have bound := below.dispatches budget
      have fits := limits.dispatchFits
      rw [tallied.dispatches, asU32, Nat.mod_mod]
      exact Nat.mod_eq_of_lt (by omega)
    simp only [reachesLimit, Bool.and_eq_true, decide_eq_true_eq]
    constructor
    · intro ⟨budget, reached⟩
      rw [count budget] at reached
      exact ⟨budget, reached⟩
    · intro ⟨budget, reached⟩
      rw [count budget]
      exact ⟨budget, reached⟩
  unfold dispatchGate
  split
  · next limit =>
    exact ⟨{ tallied with }, by simp [fail, spent.mp limit]⟩
  · next under =>
    refine ⟨{ tallied with }, ?_⟩
    rw [← spent]
    exact ⟨fun failed => absurd failed active, fun reached => absurd reached under⟩

end

/-- Every operation counts as its history says. -/
theorem WorkOp.counted {questionOrder : Nat} {after : TaskRow} (op : WorkOp) (tallied : Tallied limits log row)
    (below : BelowLimits limits log admitted) (active : row.status ≠ .failed)
    (written : after = (op.taskOp limits).effect questionOrder row ∨ after = row ∧
      ∃ path runId frozenView freezeFailed, op = .submit path runId frozenView freezeFailed) :
    Counted limits log op after := by
  rcases written with rfl | ⟨rfl, path, runId, frozenView, freezeFailed, rfl⟩
  · cases op with
    | checkPassed =>
      exact ⟨⟨rfl, tallied.cycles, tallied.dispatches⟩, ⟨fun failed => absurd failed active, nofun⟩⟩
    | checkFailed failureReason => exact counted_checkFailed tallied below active failureReason
    | submit path runId frozenView freezeFailed =>
      exact ⟨{ tallied with }, ⟨nofun, nofun⟩⟩
    | reject => exact counted_reject tallied below
    | gate => exact counted_gate tallied below active
    | dispatch => exact counted_dispatch tallied active
  · exact ⟨{ tallied with }, ⟨fun failed => absurd failed active, nofun⟩⟩

/-- A performed operation takes no count over its limit. -/
theorem BelowLimits.within (below : BelowLimits limits log admitted) (op : WorkOp)
    (recorded : op = .dispatch → admitted = true) : WithinLimits limits (op :: log) := by
  obtain ⟨failures, cycles, dispatches, room⟩ := below
  cases op with
  | checkPassed => exact ⟨by simp [failuresSince], by simp only [rejections]; omega, dispatches⟩
  | checkFailed | submit =>
    exact ⟨by simp only [failuresSince]; omega, by simp only [rejections]; omega, dispatches⟩
  | reject =>
    refine ⟨?_, by simp only [rejections]; omega, fun budget => ?_⟩
    · simp only [failuresSince]
      split_ifs <;> omega
    · simp only [dispatchesSince]
      split_ifs <;> omega
  | gate => exact ⟨by simp only [failuresSince]; omega, by simp only [rejections]; omega, dispatches⟩
  | dispatch =>
    refine ⟨by simp only [failuresSince]; omega, by simp only [rejections]; omega, fun budget => ?_⟩
    exact room (recorded rfl) budget

/-- The counts stay below their limits until an operation reaches one. -/
theorem BelowLimits.next {op : WorkOp} (below : BelowLimits limits log admitted)
    (recorded : op = .dispatch → admitted = true) (under : reachesLimit limits log op = false) :
    BelowLimits limits (op :: log) (op.admits admitted) := by
  obtain ⟨failures, cycles, dispatches, room⟩ := below
  cases op with
  | checkPassed => exact ⟨.inl rfl, cycles, dispatches, room⟩
  | checkFailed failureReason =>
    exact ⟨.inr (not_le.mp (of_decide_eq_false under)), cycles, dispatches, room⟩
  | submit path runId frozenView freezeFailed => exact ⟨failures, cycles, dispatches, room⟩
  | reject =>
    have left : rejections log + 1 < limits.maxReviewCycles := not_le.mp (of_decide_eq_false under)
    have reset : failuresSince limits (.reject :: log) = 0 ∧ dispatchesSince limits (.reject :: log) = 0 := by
      simp [failuresSince, dispatchesSince, leavesCycle, left]
    refine ⟨.inl reset.1, .inr left, fun _ => ?_, fun _ budget => ?_⟩
    · rw [reset.2]
      exact Nat.zero_le _
    · rw [reset.2]
      exact Nat.pos_of_ne_zero budget
  | gate =>
    refine ⟨failures, cycles, dispatches, fun _ budget => ?_⟩
    by_contra spent
    have reached : reachesLimit limits log .gate = true := by
      simp only [reachesLimit, Bool.and_eq_true, decide_eq_true_eq]
      exact ⟨budget, not_lt.mp spent⟩
    rw [reached] at under
    cases under
  | dispatch =>
    exact ⟨failures, cycles, fun budget => room (recorded rfl) budget, nofun⟩

/-- The invariant of a history. -/
structure Counting (limits : Limits) (task : TaskId) (history : History) : Prop where
  stored : ∃ row, history.db.task? task = some row ∧ Tallied limits history.log row
  bounded : WithinLimits limits history.log
  below : history.db.status? task ≠ some .failed → BelowLimits limits history.log history.admitted

variable {history : History} {op : WorkOp}

theorem History.performs_dispatch (performs : history.performs task op = true) :
    history.db.status? task ≠ some .failed ∧ (op = .dispatch → history.admitted = true) := by
  simp only [History.performs, Bool.and_eq_true, decide_eq_true_eq] at performs
  refine ⟨performs.1, ?_⟩
  rintro rfl
  exact performs.2

/-- A count of dispatches that an operation takes to zero. -/
private theorem reject_of_dispatchesSince_eq_zero (counted : dispatchesSince limits log ≠ 0)
    (zeroed : dispatchesSince limits (op :: log) = 0) : op = .reject ∧ leavesCycle limits log = true := by
  cases op with
  | reject =>
    refine ⟨rfl, ?_⟩
    by_contra spent
    simp only [dispatchesSince, if_neg spent] at zeroed
    exact counted zeroed
  | dispatch => cases zeroed
  | checkPassed | checkFailed | submit | gate => exact absurd zeroed counted

section

variable (counting : Counting limits task history)

include counting

/-- A performed operation, with the rows before and after it. -/
theorem Counting.performed (performs : history.performs task op = true) :
    ∃ row after, history.db.task? task = some row ∧
      (history.step limits task op).db.task? task = some after ∧ Tallied limits history.log row ∧
      Counted limits history.log op after := by
  obtain ⟨row, stored, tallied⟩ := counting.stored
  obtain ⟨active, _⟩ := performs_dispatch performs
  have unfailed : row.status ≠ .failed := by
    intro failed
    rw [status?, stored] at active
    exact active (congrArg some failed)
  obtain ⟨after, written, effect⟩ := op.apply_row limits stored
  refine ⟨row, after, stored, ?_, tallied, op.counted tallied (counting.below active) unfailed effect⟩
  rw [step, if_pos performs]
  exact written

theorem Counting.step (op : WorkOp) : Counting limits task (history.step limits task op) := by
  by_cases performs : history.performs task op = true
  · obtain ⟨row, after, stored, written, tallied, counted⟩ := counting.performed performs
    obtain ⟨active, recorded⟩ := performs_dispatch performs
    have below := counting.below active
    have log : (history.step limits task op).log = op :: history.log := by
      rw [History.step, if_pos performs]
    have admitted : (history.step limits task op).admitted = op.admits history.admitted := by
      rw [History.step, if_pos performs]
    refine ⟨⟨after, written, ?_⟩, ?_, fun unfailed => ?_⟩
    · rw [log]
      exact counted.tallied
    · rw [log]
      exact below.within op recorded
    · rw [log, admitted]
      refine below.next recorded ?_
      rw [Bool.eq_false_iff]
      intro reached
      rw [status?, written] at unfailed
      exact unfailed (congrArg some (counted.fails.mpr reached))
  · rw [History.step, if_neg performs]
    exact counting

private theorem counterLaw_step : CounterLaw limits task history op (history.step limits task op) := by
  have after := counting.step op
  constructor
  · intro row stored
    obtain ⟨found, same, tallied⟩ := after.stored
    rw [Option.some.inj (stored.symm.trans same)]
    exact tallied
  · exact after.bounded
  · intro active
    by_cases performs : history.performs task op = true
    · obtain ⟨row, written, _, stored, _, counted⟩ := counting.performed performs
      rw [status?, stored]
      simp only [Option.map_some, Option.some.injEq, performs, true_and]
      exact counted.fails
    · rw [step, if_neg performs]
      exact ⟨fun failed => absurd failed active, fun reached => absurd reached.1 performs⟩
  · intro row zero stored written nonzero isZero
    by_cases performs : history.performs task op = true
    · obtain ⟨found, changed, same, rewritten, tallied, counted⟩ := counting.performed performs
      obtain rfl := Option.some.inj (stored.symm.trans same)
      obtain rfl := Option.some.inj (written.symm.trans rewritten)
      refine or_iff_not_imp_right.mpr fun budget => ?_
      have bound := (counting.below (performs_dispatch performs).1).within op
        (performs_dispatch performs).2
      have fits := limits.dispatchFits
      have count := counted.tallied.dispatches
      rw [isZero, Nat.mod_eq_of_lt (lt_of_le_of_lt (bound.dispatches budget) fits)] at count
      refine reject_of_dispatchesSince_eq_zero (fun none => ?_) count.symm
      rw [tallied.dispatches, none] at nonzero
      exact nonzero rfl
    · rw [step, if_neg performs, stored] at written
      cases written
      exact absurd isZero nonzero

end

/-- From a task without counts, every history keeps the counters as the history has them and within
their limits, and fails the task exactly at a limit. -/
theorem counterLaw_of_history (limits : Limits) (db : Database) (task : TaskId) (row : TaskRow)
    (stored : db.task? task = some row)
    (uncounted : row.checkRetries = 0 ∧ row.reviewCycles = 0 ∧ row.executorDispatches = 0) (ops : List WorkOp) :
    EveryStep (step limits task) (CounterLaw limits task) ⟨db, [], false⟩ ops := by
  obtain ⟨retries, cycles, dispatches⟩ := uncounted
  have start : Counting limits task ⟨db, [], false⟩ := by
    refine ⟨⟨row, stored, retries, cycles, dispatches⟩, ?_, fun _ => ?_⟩
    · exact ⟨Nat.zero_le _, Nat.zero_le _, fun _ => Nat.zero_le _⟩
    · exact ⟨.inl rfl, .inl rfl, fun _ => Nat.zero_le _, nofun⟩
  exact .of_preserved start (fun _ op counting => counting.step op)
    (fun _ _ counting => counterLaw_step counting) ops

/-- A task that has just been started. -/
def startedRow : TaskRow := { path := ".ferrus/tasks/t-001.md", status := .executing }

def startedDatabase : Database where
  tasks := Table.empty.insertNew "t-001" startedRow
  runs := .empty
  events := []
  runtimeState := {}

/-- Two check failures in a row, three rejections, one dispatch in a work phase. -/
def tightLimits : Limits := ⟨2, 3, 1, by decide, by decide, by decide⟩

def submission : WorkOp := .submit ".ferrus/tasks/t-001.md" none none false

/-- A rejected first phase, and a second one that ends with its second check failure. -/
def workedOps : List WorkOp :=
  [.gate, .dispatch, .checkFailed "tests failed", .checkPassed, submission, .reject, .gate, .dispatch,
    .checkFailed "tests failed", .checkFailed "lint failed", .reject]

theorem counterLaw_of_worked :
    ((run (step tightLimits "t-001") ⟨startedDatabase, [], false⟩ workedOps).db.task? "t-001").map
      (fun row => (row.status, row.checkRetries, row.reviewCycles, row.executorDispatches)) =
        some (.failed, 2, 1, 1) ∧ EveryStep (step tightLimits "t-001") (CounterLaw tightLimits "t-001")
      ⟨startedDatabase, [], false⟩ workedOps :=
  ⟨by decide, counterLaw_of_history tightLimits startedDatabase "t-001" startedRow (by decide) (by decide) workedOps⟩

def oneReview : Limits := ⟨20, 1, 6, by decide, by decide, by decide⟩

def noReview : Limits := ⟨20, 0, 6, by decide, by decide, by decide⟩

/-- A task also fails at the dispatch gate, where nothing has been checked or rejected; the rejection
that fails a task keeps its check retries; and one rejection exceeds a review limit of zero. -/
theorem not_failed_by_checks_and_reviews_only :
    ¬ EveryStep (step tightLimits "t-001") (fun history op target =>
        history.db.status? "t-001" ≠ some .failed → (target.db.status? "t-001" = some .failed ↔
          (∃ failureReason, op = .checkFailed failureReason ∧
            tightLimits.maxCheckRetries ≤ failuresSince tightLimits history.log + 1) ∨
          op = .reject ∧ tightLimits.maxReviewCycles ≤ rejections history.log + 1))
      ⟨startedDatabase, [], false⟩ [.gate, .dispatch, .gate] ∧
    ((run (step oneReview "t-001") ⟨startedDatabase, [], false⟩
      [.checkFailed "tests failed", submission, .reject]).db.task? "t-001").map (·.checkRetries) = some 1 ∧
    ((run (step noReview "t-001") ⟨startedDatabase, [], false⟩
      [submission, .reject]).db.task? "t-001").map (·.reviewCycles) = some 1 := by
  refine ⟨fun law => ?_, by decide, by decide⟩
  rcases (law.2.2.1 (by decide)).mp (by decide) with ⟨_, checked, _⟩ | ⟨rejected, _⟩
  · cases checked
  · cases rejected

end Ferrus.Runtime

import Ferrus.Model.Runtime.UtcClock
import Ferrus.Proofs.LeaseFrame
import Ferrus.Proofs.ToolCallSteps

/-! # Racing tool calls

Every call is guarded when it reads its context, so a write goes from an accepted status as long as
the stored status is still the one the call read. Nothing enforces this: the writers do not check the
status again, and a second submission takes an approved task back to review.
-/

namespace Ferrus.Tools

open Ferrus.Runtime Ferrus.Machine Option ToolState

/-- Every stored status is the same after the step. -/
def StatusKept (db next : Database) : Prop :=
  ∀ id row after, db.task? id = some row → next.task? id = some after → after.status = row.status

theorem StatusKept.refl (db : Database) : StatusKept db db := by
  intro id row after found stored
  rw [some.inj (stored.symm.trans found)]

/-- Only the row of `task` may be different after the step. -/
def OnlyTask (task : TaskId) (db next : Database) : Prop :=
  ∀ other, other ≠ task → next.task? other = db.task? other

variable {call : ToolCall} {state : ToolState} {db next : Database} {work : Work} {phase : Option Phase}

/-- A call writes no other task than the one of its context. -/
theorem ToolCall.write_onlyTask (written : call.write db work = some (.ok next, phase)) :
    OnlyTask call.context.taskId db next := by
  intro other ne
  obtain ⟨op, rfl, _⟩ := call.write_taskOp written
  rcases TaskEvent.task?_apply db ⟨call.context.taskId, op⟩ other with ⟨same, _⟩ | ⟨here, _⟩
  · exact same
  · exact absurd here ne

/-- A write that records no status keeps every status. -/
theorem ToolCall.write_statusKept (written : call.write db work = some (.ok next, phase))
    (silent : call.recordsStatus db work = false) : StatusKept db next := by
  intro id row after found stored
  obtain ⟨op, rfl, kept⟩ := call.write_taskOp written
  rcases TaskEvent.task?_apply db ⟨call.context.taskId, op⟩ id with ⟨same, _⟩ | ⟨rfl, effect⟩
  · rw [some.inj (stored.symm.trans (same.trans found))]
  · have base : TaskEvent.base? db ⟨call.context.taskId, op⟩ = some row :=
      or_eq_some_iff.mpr (.inl found)
    rw [base, stored] at effect
    rw [some.inj effect, (TaskOp.columns_effect ..).1]
    exact kept silent row found

variable {event : ToolEvent}

namespace ToolState

variable {chrono : Chrono}

/-- A step keeps every status unless it is the recording write of a call, which touches one task. -/
theorem step_inversion (state : ToolState) (chrono : Chrono) (event : ToolEvent) :
    StatusKept state.db (state.step chrono event).db ∨
      ∃ call, state.recorder? event = some call ∧
        OnlyTask call.context.taskId state.db (state.step chrono event).db := by
  refine step_db_cases state event (.inl (.refl state.db)) ?_ ?_
  · intro id now renewNow agent ttlSecs task path next claim _ claimed
    left
    intro other row after found stored
    obtain ⟨written, same, kept⟩ := Database.claimTask_row claimed found
    obtain rfl := some.inj (stored.symm.trans same)
    exact TaskRow.status_eq_of_clearLease kept
  · rintro id work call next phase rfl stored written
    cases records : call.recordsStatus state.db work with
    | false => exact .inl (call.write_statusKept written records)
    | true =>
      refine .inr ⟨call, ?_, call.write_onlyTask written⟩
      rw [recorder?, stored, filter_eq_some_iff]
      exact ⟨rfl, records⟩

/-- Every call in flight has read a status that its tool accepts. -/
def Accepted : ToolState → Prop := InFlight fun tool context => tool.accepts context.status = true

theorem Accepted.step (accepted : Accepted state) (event : ToolEvent) : Accepted (state.step chrono event) :=
  InFlight.step accepted event fun _ _ _ _ _ _ begun => (beginCall_read begun).2.2

theorem Accepted.of_recorder (accepted : Accepted state) (records : state.recorder? event = some call) :
    call.tool.accepts call.context.status = true := by
  cases event with
  | write id work => exact accepted id call (filter_eq_some_iff.mp records).1
  | start | resolveLease | claimLease => cases records

end ToolState

/-- The stored status is still the one that the recording call has read. -/
def Undisturbed (state : ToolState) (event : ToolEvent) (_target : ToolState) : Prop :=
  ∀ call ∈ state.recorder? event, ∀ row ∈ state.db.task? call.context.taskId,
    row.status = call.context.status

instance (state : ToolState) (event : ToolEvent) (target : ToolState) : Decidable (Undisturbed state event target) :=
  inferInstanceAs (Decidable (∀ call ∈ state.recorder? event, ∀ row ∈ state.db.task? call.context.taskId,
    row.status = call.context.status))

/-- A status changes only through a recording call whose tool accepts the stored status, and a task
that is complete or reset stays so. -/
def StatusLaw (state : ToolState) (event : ToolEvent) (target : ToolState) : Prop :=
  ∀ id row after, state.db.task? id = some row → target.db.task? id = some after →
    (after.status ≠ row.status → ∃ call, state.recorder? event = some call ∧
      call.context.taskId = id ∧ call.tool.accepts row.status = true) ∧
    (row.status = .complete ∨ row.status = .reset → after.status = row.status)

/-- One undisturbed step from a state whose calls have all passed their guard. -/
private theorem statusLaw_step {chrono : Chrono} (accepted : ToolState.Accepted state)
    (undisturbed : Undisturbed state event (state.step chrono event)) :
    StatusLaw state event (state.step chrono event) := by
  intro id row after found stored
  have recorded : after.status ≠ row.status → ∃ call, state.recorder? event = some call ∧
      call.context.taskId = id ∧ call.tool.accepts row.status = true := by
    intro changed
    rcases state.step_inversion chrono event with kept | ⟨call, records, only⟩
    · exact absurd (kept id row after found stored) changed
    · have here : id = call.context.taskId := by
        by_contra elsewhere
        rw [only id elsewhere, found] at stored
        exact changed (by rw [some.inj stored])
      subst here
      refine ⟨call, records, rfl, ?_⟩
      rw [undisturbed call records row found]
      exact accepted.of_recorder records
  refine ⟨recorded, fun final => ?_⟩
  by_contra changed
  obtain ⟨call, _, _, accepts⟩ := recorded changed
  -- No tool accepts a task that is complete or reset.
  have refused : call.tool.accepts row.status = false := by
    rcases final with isFinal | isFinal <;> rw [isFinal] <;> cases call.tool <;> rfl
  rw [refused] at accepts
  cases accepts

/-- In a run where no recording call has been disturbed, every status change goes from a status the
calling tool accepts, and no call moves a task that is complete or reset. -/
theorem statusLaw_of_undisturbed (chrono : Chrono) (db : Database) (events : List ToolEvent)
    (undisturbed : EveryStep (step chrono) Undisturbed ⟨db, .empty⟩ events) :
    EveryStep (step chrono) StatusLaw ⟨db, .empty⟩ events := by
  have start : ToolState.Accepted ⟨db, .empty⟩ := by
    intro id call stored
    cases stored
  exact undisturbed.of_invariant start (fun _ event accepted _ => accepted.step event)
    (fun _ _ accepted quiet => statusLaw_step accepted quiet)

/-- An executor works on a task that a supervisor is going to review. -/
def reviewedDatabase : Database where
  tasks := Table.empty.insertNew "t-001"
    { path := ".ferrus/tasks/t-001.md"
      status := .executing
      claimedBy := some "executor:codex:1"
      leaseUntil := some "2026-01-01T00:02:00Z" }
  runs := (Table.empty.insertNew "run-1"
    ⟨"t-001", .executor, "executor:codex:1", .running, "2026-01-01T00:00:00Z", "2026-01-01T00:00:00Z",
      some 7, "/work/t-001", .default⟩).insertNew "run-2"
    ⟨"t-001", .supervisor, "supervisor:codex:1", .running, "2026-01-01T00:00:00Z", "2026-01-01T00:00:00Z",
      some 8, "/work", .default⟩
  events := []
  runtimeState := {}

def defaultConfig : ToolConfig := ⟨90, 20, 3⟩

/-- 2026-01-01T00:00:30Z -/
def reviewInstant : Instant := 1767225630000000000

/-- Read the context and take the lease. -/
def openCall (id : Nat) (agent : AgentId) (tool : Tool) : List ToolEvent :=
  [.start id agent tool defaultConfig, .resolveLease id, .claimLease id reviewInstant reviewInstant]

/-- The writes of a submission whose checks pass. -/
def submitWrites (id : Nat) : List ToolEvent :=
  [.write id (.checkGate none), .write id (.submission none false)]

/-- The two statements of an approval. -/
def approveWrites (id : Nat) : List ToolEvent := [.write id .done, .write id .done]

/-- A submission and the approval after it. -/
def reviewedEvents : List ToolEvent :=
  openCall 0 "executor:codex:1" .submit ++ submitWrites 0 ++
    openCall 2 "supervisor:codex:1" .approve ++ approveWrites 2

theorem statusLaw_of_reviewed :
    (run (step utcChrono) ⟨reviewedDatabase, .empty⟩ reviewedEvents).db.status? "t-001" =
      some .complete ∧ EveryStep (step utcChrono) StatusLaw ⟨reviewedDatabase, .empty⟩ reviewedEvents :=
  ⟨by decide, statusLaw_of_undisturbed utcChrono reviewedDatabase reviewedEvents (by decide)⟩

/-- A second submission is in flight while the first one is reviewed and approved. -/
def racingEvents : List ToolEvent :=
  openCall 0 "executor:codex:1" .submit ++ openCall 1 "executor:codex:1" .submit ++ submitWrites 0 ++
    openCall 2 "supervisor:codex:1" .approve ++ approveWrites 2 ++ [.write 1 (.checkGate none)]

/-- The late submission takes the complete task back to review. -/
theorem not_statusLaw_of_racing : ¬ EveryStep (step utcChrono) StatusLaw ⟨reviewedDatabase, .empty⟩
      (racingEvents ++ [.write 1 (.submission none false)]) := by
  intro law
  have last := law.at_cut
  have before : (run (step utcChrono) ⟨reviewedDatabase, .empty⟩ racingEvents).db.status?
      "t-001" = some .complete := by decide
  have after : (step utcChrono (run (step utcChrono) ⟨reviewedDatabase, .empty⟩ racingEvents)
      (.write 1 (.submission none false))).db.status? "t-001" = some .reviewing := by decide
  obtain ⟨row, found, complete⟩ := map_eq_some_iff.mp before
  obtain ⟨moved, stored, reviewing⟩ := map_eq_some_iff.mp after
  have kept := (last "t-001" row moved found stored).2 (.inl complete)
  rw [complete, reviewing] at kept
  cases kept

end Ferrus.Tools

import Ferrus.Model.Runtime.TaskOps
import Ferrus.Model.Tools.ToolCalls
import Ferrus.Proofs.LeaseEffects

/-! # What the calls in flight have read

A call keeps the context of its first read to its end. `InFlight` states a property of all of these
contexts; a step preserves it if the guard of a starting call establishes it.
-/

namespace Ferrus.Tools

open Ferrus.Runtime

variable {db : Database} {agent : AgentId} {tool : Tool} {config : ToolConfig} {call : ToolCall}

/-- A call that has begun has passed the guard of its tool on the context it has read. -/
theorem beginCall_read (begun : beginCall db agent tool config = .ok call) :
    call.tool = tool ∧ db.requireRuntimeTaskContext agent = .ok call.context ∧
      call.tool.accepts call.context.status = true := by
  obtain ⟨context, read, begun⟩ := Except.bind_eq_ok_iff.mp begun
  split at begun
  · next accepts =>
    cases begun
    exact ⟨rfl, read, accepts⟩
  · cases begun

/-- Every write of a call is one task operation, which changes a status only if the call records it. -/
theorem ToolCall.write_taskOp {next : Database} {work : Work} {phase : Option Phase}
    (written : call.write db work = some (.ok next, phase)) :
    ∃ op, next = TaskEvent.apply db ⟨call.context.taskId, op⟩ ∧
      (call.recordsStatus db work = false → ∀ row, db.task? call.context.taskId = some row →
        op.statusAfter row = row.status) := by
  obtain ⟨agent, tool, config, context, callPhase⟩ := call
  have belowLimit {failure : String} {row : TaskRow} (found : db.task? context.taskId = some row)
      (below : decide (config.maxCheckRetries ≤ u32Succ (db.taskCheckRetries context.taskId)) = false) :
      (TaskOp.checkFailed failure config.maxCheckRetries).statusAfter row = row.status := by
    have under := of_decide_eq_false below
    rw [Database.taskCheckRetries, found] at under
    exact if_neg under
  unfold ToolCall.write at written
  dsimp only at written ⊢
  split at written
  · next failure =>
    cases written
    exact ⟨.checkFailed failure config.maxCheckRetries, rfl, fun silent _ found => belowLimit found silent⟩
  · next failure =>
    cases written
    exact ⟨.checkFailed failure config.maxCheckRetries, rfl, fun silent _ found => belowLimit found silent⟩
  · cases written
    exact ⟨.checkPassed, rfl, fun _ _ _ => rfl⟩
  · next frozenView freezeFailed =>
    obtain ⟨submitted, -⟩ := Prod.mk.inj (Option.some.inj written)
    refine ⟨.submit context.taskPath context.runId frozenView freezeFailed, ?_, fun silent => Bool.noConfusion silent⟩
    unfold TaskEvent.apply
    dsimp only
    rw [submitted]
    rfl
  · cases written
    exact ⟨.checkPassed, rfl, fun _ _ _ => rfl⟩
  · cases written
    exact ⟨.upsertStatus context.taskPath .complete none none, rfl, fun silent => Bool.noConfusion silent⟩
  · cases written
    exact ⟨.upsertStatus context.taskPath .reset none none, rfl, fun silent => Bool.noConfusion silent⟩
  · cases written
    exact ⟨.clearLease, rfl, fun _ _ _ => rfl⟩
  · cases written
    exact ⟨.clearLease, rfl, fun _ _ _ => rfl⟩
  · cases written
    exact ⟨.reject config.maxReviewCycles, rfl, fun silent => Bool.noConfusion silent⟩
  · cases written
    exact ⟨.consult context.status, rfl, fun silent => Bool.noConfusion silent⟩
  · cases written
    exact ⟨.askHuman _ _ agent, rfl, fun silent => Bool.noConfusion silent⟩
  · cases written

namespace ToolState

variable {chrono : Chrono}

@[simp] theorem continueCall_db (state : ToolState) (id : Nat) (phase : Option Phase) :
    (state.continueCall id phase).db = state.db := by
  cases phase <;> rfl

/-- Every step in one lemma: nothing happens, a call begins, or a call in flight goes on, with the
database as it is, with a claim of the lease or with its next write. -/
@[elab_as_elim]
theorem step_cases {P : ToolState → Prop} (state : ToolState) (event : ToolEvent) (idle : P state)
    (begins : ∀ id agent tool config call, event = .start id agent tool config →
      state.calls.get? id = none → beginCall state.db agent tool config = .ok call →
      P { state with calls := state.calls.insertNew id call })
    (goesOn : ∀ id phase, P (state.continueCall id phase))
    (claims : ∀ id now renewNow call task path next claim phase, event = .claimLease id now renewNow →
      state.db.claimTask chrono task path (ToolCall.agent call) call.config.ttlSecs now renewNow =
        .ok (next, claim) → P ({ state with db := next }.continueCall id phase))
    (writes : ∀ id work call next phase, event = .write id work → state.calls.get? id = some call →
      call.write state.db work = some (.ok next, phase) →
      P ({ state with db := next }.continueCall id phase)) :
    P (state.step chrono event) := by
  cases event with
  | start id agent tool config =>
    dsimp only [step, start]
    split
    · next call missing begun => exact begins id agent tool config call rfl missing begun
    · exact idle
  | resolveLease id =>
    dsimp only [step]
    cases state.calls.get? id with
    | none => exact idle
    | some call =>
      dsimp only [Option.elim_some, resolveLease]
      split
      · split
        · exact goesOn id (some _)
        · exact goesOn id none
      · exact idle
  | claimLease id now renewNow =>
    dsimp only [step]
    cases state.calls.get? id with
    | none => exact idle
    | some call =>
      dsimp only [Option.elim_some, claimLease]
      split
      · split
        · next claimed => exact claims id now renewNow call _ _ _ _ none rfl claimed
        · next claimed => exact claims id now renewNow call _ _ _ _ (some _) rfl claimed
        · exact goesOn id none
      · exact idle
  | write id work =>
    dsimp only [step]
    cases found : state.calls.get? id with
    | none => exact idle
    | some call =>
      dsimp only [Option.elim_some, write]
      split
      · next next phase written => exact writes id work call next phase rfl found written
      · exact goesOn id none
      · exact idle

/-- A step leaves the database as it is, or claims a lease in it, or makes the next write of a call. -/
@[elab_as_elim]
theorem step_db_cases {P : Database → Prop} (state : ToolState) (event : ToolEvent) (idle : P state.db)
    (claims : ∀ id now renewNow agent ttlSecs task path next claim, event = .claimLease id now renewNow →
      state.db.claimTask chrono task path agent ttlSecs now renewNow = .ok (next, claim) → P next)
    (writes : ∀ id work call next phase, event = .write id work → state.calls.get? id = some call →
      call.write state.db work = some (.ok next, phase) → P next) : P (state.step chrono event).db := by
  refine step_cases state event idle (fun _ _ _ _ _ _ _ _ => idle) ?_ ?_ ?_
  · intro id phase
    rw [continueCall_db]
    exact idle
  · intro id now renewNow call task path next claim phase here claimed
    rw [continueCall_db]
    exact claims id now renewNow _ _ task path next claim here claimed
  · intro id work call next phase here found written
    rw [continueCall_db]
    exact writes id work call next phase here found written

/-- Every call in flight has the property. -/
def InFlight (P : Tool → RuntimeTaskContext → Prop) (state : ToolState) : Prop :=
  ∀ id call, state.calls.get? id = some call → P call.tool call.context

namespace InFlight

variable {P : Tool → RuntimeTaskContext → Prop} {state : ToolState} (inFlight : InFlight P state)

include inFlight

theorem withDb (db : Database) : InFlight P { state with db } := inFlight

theorem endCall (id : Nat) : InFlight P (state.endCall id) := by
  intro other call stored
  rw [ToolState.endCall, Table.get?_deleteWhere, Option.filter_eq_some_iff] at stored
  exact inFlight other call stored.1

theorem setPhase (id : Nat) (phase : Phase) : InFlight P (state.setPhase id phase) := by
  intro other call stored
  rw [ToolState.setPhase, Table.get?_modify] at stored
  split_ifs at stored
  · obtain ⟨before, found, rfl⟩ := Option.map_eq_some_iff.mp stored
    exact inFlight other before found
  · exact inFlight other call stored

theorem continueCall (id : Nat) (phase : Option Phase) : InFlight P (state.continueCall id phase) := by
  cases phase with
  | none => exact inFlight.endCall id
  | some phase => exact inFlight.setPhase id phase

/-- A step keeps the property if a call that starts in it has it. -/
theorem step (event : ToolEvent) (begins : ∀ id agent tool config call, event = .start id agent tool config →
      beginCall state.db agent tool config = .ok call → P call.tool call.context) :
    InFlight P (state.step chrono event) := by
  refine step_cases state event inFlight ?_ inFlight.continueCall ?_ ?_
  · intro id agent tool config call starts missing begun other stored found
    rw [Table.get?_insertNew] at found
    split_ifs at found with same
    · rw [missing] at found
      cases found
      exact begins id agent tool config _ starts begun
    · exact inFlight other stored found
  · intro id now renewNow call task path next claim phase _ _
    exact (inFlight.withDb next).continueCall id phase
  · intro id work call next phase _ _ _
    exact (inFlight.withDb next).continueCall id phase

end InFlight

end ToolState

end Ferrus.Tools

import Ferrus.Machine.Core.Run
import Ferrus.Model.Runtime.UtcClock
import Ferrus.Proofs.ViewFrame

/-! # Whole repository views

The seven view columns of a task or run always hold one view. Starting from the empty database, every
row decodes, to a view that was recorded as a whole or to its mutable successor after a rejection.
-/

namespace Ferrus.Runtime

open Ferrus.Machine Database

/-- The columns are those of one recorded view, or of its mutable successor. -/
def OneView (recorded : List RepositoryViewReference) (columns : ViewColumns) : Prop :=
  ∃ view ∈ recorded, columns = view.encode ∨ columns = view.mutableSuccessor.encode

/-- The event writes a valid view into a row that exists. -/
inductive ViewEvent.Writes (db : Database) : ViewEvent → ViewOwner → String → RepositoryViewReference → Prop
  | record {owner : ViewOwner} {id : String} {view : RepositoryViewReference} (valid : view.Valid)
      (stored : (db.viewColumns? owner id).isSome) : Writes db (.record owner id view) owner id view
  | compareAndRecord {task : TaskId} {expected view : RepositoryViewReference} (valid : view.Valid)
      (current : db.ownerRepositoryView .tasks task = .ok (some expected)) :
      Writes db (.compareAndRecord task expected view) .tasks task view
  | submitTask {task : TaskId} {path : String} {runId : Option RunId} {view : RepositoryViewReference}
      {freezeFailed : Bool} (valid : view.Valid) (frozen : view.lifecycle = .frozenSubmitted)
      (bound : ∀ run ∈ runId, (db.run? run).isSome) :
      Writes db (.task ⟨task, .submit path runId (some view) freezeFailed⟩) .tasks task view
  | submitRun {task : TaskId} {path : String} {run : RunId} {view : RepositoryViewReference}
      {freezeFailed : Bool} (valid : view.Valid) (frozen : view.lifecycle = .frozenSubmitted)
      (bound : (db.run? run).isSome) :
      Writes db (.task ⟨task, .submit path (some run) (some view) freezeFailed⟩) .runs run view

/-- What each step must meet. -/
structure ViewLaw (state : ViewState) (event : ViewEvent) (target : ViewState) : Prop where
  decodes : ∀ owner id columns, target.db.viewColumns? owner id = some columns →
    ∃ view, repositoryViewReferenceFromDatabase columns = .ok view
  whole : ∀ owner id columns, target.db.viewColumns? owner id = some columns →
    OneView target.recorded columns
  readBack : ∀ owner id view, event.Writes state.db owner id view →
    target.db.ownerRepositoryView owner id = .ok (some view)

theorem RepositoryViewReference.encode_unbuilt : unbuilt.encode = .default := rfl

theorem RepositoryViewReference.clearTree_encode (view : RepositoryViewReference) :
    view.encode.clearTree = view.mutableSuccessor.encode := rfl

/-- Only valid views were recorded, and every row holds one of them. -/
structure ViewInvariant (state : ViewState) : Prop where
  unbuilt : .unbuilt ∈ state.recorded
  valid : ∀ view ∈ state.recorded, view.Valid
  whole : ∀ columns, state.db.Holds columns → OneView state.recorded columns

variable {state : ViewState}

theorem ViewInvariant.start : ViewInvariant .start where
  unbuilt := List.mem_singleton.mpr rfl
  valid view member := by
    rw [List.mem_singleton.mp member]
    rfl
  whole := by
    rintro columns ⟨owner, id, held⟩
    cases owner <;> cases held

variable {written : Option RepositoryViewReference} {columns : ViewColumns}

/-- One source gives one view. -/
theorem ViewInvariant.oneView (inv : ViewInvariant state) (source : ViewSource state.db written columns) :
    OneView (written.toList ++ state.recorded) columns := by
  have later : ∀ view ∈ state.recorded, view ∈ written.toList ++ state.recorded :=
    fun _ member => List.mem_append_right _ member
  cases source with
  | kept held =>
    obtain ⟨view, member, same⟩ := inv.whole _ held
    exact ⟨view, later view member, same⟩
  | cleared held =>
    obtain ⟨view, member, same⟩ := inv.whole _ held
    refine ⟨view, later view member, .inr ?_⟩
    rcases same with rfl | rfl
    · exact view.clearTree_encode
    · exact view.mutableSuccessor.clearTree_encode
  | default => exact ⟨.unbuilt, later _ inv.unbuilt, .inl RepositoryViewReference.encode_unbuilt.symm⟩
  | recorded given =>
    subst given
    exact ⟨_, List.mem_append_left _ (List.mem_singleton.mpr rfl), .inl rfl⟩

variable {next : Database}

theorem ViewInvariant.of_frame (inv : ViewInvariant state) (frame : ViewFrame state.db next written)
    (valid : ∀ view ∈ written, view.Valid) (attaching : Table Nat (RunId × TaskId)) :
    ViewInvariant ⟨next, written.toList ++ state.recorded, attaching⟩ where
  unbuilt := List.mem_append_right _ inv.unbuilt
  valid view member := by
    rcases List.mem_append.mp member with given | earlier
    · exact valid view (Option.mem_toList.mp given)
    · exact inv.valid view earlier
  whole := by
    rintro columns ⟨owner, id, held⟩
    apply inv.oneView
    cases owner with
    | tasks =>
      obtain ⟨row, found, rfl⟩ := Option.map_eq_some_iff.mp held
      exact frame.tasks id row found
    | runs =>
      obtain ⟨run, found, rfl⟩ := Option.map_eq_some_iff.mp held
      exact frame.runs id run found

/-- A change that records no view. -/
theorem ViewInvariant.of_unrecorded (inv : ViewInvariant state) (frame : ViewFrame state.db next none) :
    ViewInvariant { state with db := next } :=
  inv.of_frame frame nofun state.attaching

theorem ViewInvariant.step (chrono : Chrono) (state : ViewState) (event : ViewEvent)
    (inv : ViewInvariant state) : ViewInvariant (viewStep chrono state event) := by
  cases event with
  | record owner id view =>
    dsimp only [viewStep]
    split
    · next next recorded =>
      obtain ⟨_, validated, written⟩ := Except.bind_eq_ok_iff.mp recorded
      refine inv.of_frame (recordRepositoryView_viewFrame written) ?_ state.attaching
      rintro _ ⟨⟩
      exact validated
    · exact inv
  | compareAndRecord task expected view =>
    dsimp only [viewStep]
    split
    · next next compared =>
      rcases compareAndRecordTaskRepositoryView_ok compared with ⟨skipped, _⟩ | ⟨_, validated, written⟩
      · cases skipped
      · refine inv.of_frame (recordRepositoryView_viewFrame written) ?_ state.attaching
        rintro _ ⟨⟩
        exact validated
    · next next compared =>
      rcases compareAndRecordTaskRepositoryView_ok compared with ⟨_, rfl⟩ | ⟨recorded, _⟩
      · exact inv
      · cases recorded
    · exact inv
  | task event =>
    exact inv.of_frame (event.viewFrame state.db) (fun _ given => TaskEvent.submittedView?_valid given)
      state.attaching
  | lease event => exact inv.of_unrecorded (event.apply_leaseFrame chrono state.db).viewFrame
  | finalize task specPath milestoneId =>
    dsimp only [viewStep]
    split
    · next finalized => exact inv.of_unrecorded (finalize_viewFrame finalized)
    · exact inv
  | discard task =>
    dsimp only [viewStep]
    split
    · next discarded => exact inv.of_unrecorded (discard_viewFrame discarded)
    · exact inv
  | ensureTask task path => exact inv.of_unrecorded (.ensureTaskExists state.db task path)
  | reserveSession =>
    dsimp only [viewStep]
    split
    · next reserved => exact inv.of_unrecorded (reserveExecutorSession_viewFrame reserved)
    · exact inv
  | startRun => exact inv.of_unrecorded (insertStartedRun_viewFrame ..)
  | chooseRun call agent task =>
    dsimp only [viewStep]
    split
    · exact inv.of_frame (.refl state.db none) nofun _
    · exact inv
  | attachRun call timestamp =>
    dsimp only [viewStep]
    split
    · split
      · next attached => exact inv.of_unrecorded (attachRunToTask_viewFrame attached)
      · exact inv
    · exact inv
  | attachNextConsultation | attachConsultation =>
    dsimp only [viewStep]
    split
    · next attached =>
      obtain same | ⟨_, _, _, _, moves, tasks, runs⟩ := attachToConsultation_ok attached
      · exact inv.of_unrecorded (same ▸ .refl _ _)
      · exact inv.of_unrecorded ((attachRunToTask_viewFrame moves).of_tables tasks runs)
    · exact inv
  | finishRun | interruptRun | releaseSession => exact inv.of_unrecorded (closeRun_viewFrame ..)
  | runEvent runId eventType =>
    dsimp only [viewStep]
    split
    · next inserted =>
      apply inv.of_unrecorded
      unfold insertEvent at inserted
      split at inserted
      · cases inserted
        exact (ViewFrame.refl _ none).recordEvent eventType
      · split at inserted
        · cases inserted
          exact (ViewFrame.refl state.db none).of_tables rfl rfl
        · cases inserted
    · exact inv
  | retireLegacy timestamp => exact inv.of_unrecorded (retireLegacyCurrentTaskRow_viewFrame timestamp)

/-- Columns that hold one valid view decode. -/
theorem OneView.decodes {recorded : List RepositoryViewReference} (one : OneView recorded columns)
    (valid : ∀ view ∈ recorded, view.Valid) : ∃ view, repositoryViewReferenceFromDatabase columns = .ok view := by
  obtain ⟨view, member, same⟩ := one
  rcases same with rfl | rfl
  · exact ⟨view, (valid view member).decode_encode⟩
  · exact ⟨view.mutableSuccessor, (valid view member).mutableSuccessor.decode_encode⟩

/-- A valid view written into an existing row is the one read from it. -/
theorem ViewEvent.Writes.readBack {event : ViewEvent} {owner : ViewOwner} {id : String}
    {view : RepositoryViewReference} (writes : event.Writes state.db owner id view) (chrono : Chrono) :
    (viewStep chrono state event).db.ownerRepositoryView owner id = .ok (some view) := by
  cases writes with
  | record valid stored =>
    obtain ⟨next, written, columns⟩ := recordRepositoryViewInTransaction_of_stored stored view
    dsimp only [viewStep]
    rw [recordRepositoryView_of_valid valid, written]
    exact ownerRepositoryView_of_encode valid columns
  | compareAndRecord valid current =>
    have stored := (valid_of_ownerRepositoryView current).2
    obtain ⟨next, written, columns⟩ := recordRepositoryViewInTransaction_of_stored stored view
    dsimp only [viewStep, compareAndRecordTaskRepositoryView]
    rw [(valid_of_ownerRepositoryView current).1, valid, current]
    simp only [bind, Except.bind, ne_eq, not_true_eq_false, ↓reduceIte, written]
    exact ownerRepositoryView_of_encode valid columns
  | @submitTask task path runId view freezeFailed valid frozen bound =>
    obtain ⟨next, submitted, columns, _⟩ := taskSubmitted_of_frozen valid frozen bound id path freezeFailed
    dsimp only [viewStep, TaskEvent.apply]
    rw [submitted]
    exact ownerRepositoryView_of_encode valid columns
  | @submitRun task path run view freezeFailed valid frozen bound =>
    have isBound : ∀ run ∈ some id, (state.db.run? run).isSome := by
      rintro _ ⟨⟩
      exact bound
    obtain ⟨next, submitted, _, columns⟩ := taskSubmitted_of_frozen valid frozen isBound task path freezeFailed
    dsimp only [viewStep, TaskEvent.apply]
    rw [submitted]
    exact ownerRepositoryView_of_encode valid (columns id rfl)

/-- In every reachable database each stored view decodes and is one recorded view, and a valid view
that is written is read back. -/
theorem viewLaw_of_reachable (chrono : Chrono) (events : List ViewEvent) :
    EveryStep (viewStep chrono) ViewLaw .start events := by
  refine .of_preserved ViewInvariant.start (ViewInvariant.step chrono) (fun state event inv => ?_) events
  have after := ViewInvariant.step chrono state event inv
  constructor
  · intro owner id columns held
    exact (after.whole columns ⟨owner, id, held⟩).decodes after.valid
  · intro owner id columns held
    exact after.whole columns ⟨owner, id, held⟩
  · intro owner id view writes
    exact writes.readBack chrono

end Ferrus.Runtime

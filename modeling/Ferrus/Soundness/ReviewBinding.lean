import Ferrus.Model.Tools.NativeReview
import Ferrus.Soundness.RepositoryViews

/-! # What a native reviewer decides on

The view of a run is copied when the run starts, and nobody else writes it again once it is frozen. So the
tree that a session reads from its run when it binds is the tree of every later read, and the transaction of
a decision compares that tree with the one that is stored for the task.
-/

namespace Ferrus.Tools

open Ferrus.Runtime Ferrus.Machine Database Except RepositoryViewReference NativeReview Option

/-- The decision is about a task in review, under a live lease, and about the tree of the inspection source,
which is still the submitted one. An approval merges that tree or, with a blank patch, nothing. -/
structure ReviewDecision.Sound (decision : ReviewDecision) : Prop where
  inReview : decision.status = .reviewing
  leaseLive : decision.leaseLive = true
  decided : decision.decided = some decision.source
  merged : decision.merged = none ∨ decision.merged = some decision.source
  submitted : ∃ tree, decision.submitted = some tree ∧ tree.value = decision.source.value

/-! ### The run of the session -/

/-- The run keeps its agent, and its view if it is the session's and has a baseline. -/
def KeepsRun (scope : ExecutorSessionScope) (db next : Database) : Prop :=
  ∀ run, db.run? scope.runId = some run → ∃ after, next.run? scope.runId = some after ∧
    after.agent = run.agent ∧
    (run.agent = scope.agentId → run.view.baselineSnapshotId.isSome = true → after.view = run.view)

variable {runId : RunId} {task : TaskId} {view : RepositoryViewReference} {db : Database} {event : ViewEvent}
  {now : Instant}

namespace KeepsRun

variable {scope : ExecutorSessionScope} {db next : Database}

theorem of_runs (same : next.runs = db.runs) : KeepsRun scope db next := by
  intro run stored
  exact ⟨run, (congrArg (Table.get? · scope.runId) same).trans stored, rfl, fun _ _ => rfl⟩

/-- A statement over the runs that changes neither agents nor views. -/
theorem of_get? (change : RunRow → RunRow)
    (read : next.run? scope.runId = db.run? scope.runId ∨ next.run? scope.runId = (db.run? scope.runId).map change)
    (agent : ∀ run, (change run).agent = run.agent) (view : ∀ run, (change run).view = run.view) :
    KeepsRun scope db next := by
  intro run stored
  obtain same | changed := read
  · exact ⟨run, same.trans stored, rfl, fun _ _ => rfl⟩
  · exact ⟨change run, by rw [changed, stored]; rfl, agent run, fun _ _ => view run⟩

theorem updateRun (runId : RunId) (change : RunRow → RunRow) (agent : ∀ run, (change run).agent = run.agent)
    (view : ∀ run, (change run).view = run.view) : KeepsRun scope db (db.updateRun runId change) := by
  refine .of_get? change ?_ agent view
  rw [run?_updateRun]
  split_ifs
  · exact .inr rfl
  · exact .inl rfl

/-- A statement over another run. -/
theorem updateOther (other : runId ≠ scope.runId) (change : RunRow → RunRow) :
    KeepsRun scope db (db.updateRun runId change) := by
  intro run stored
  rw [run?_updateRun, if_neg other.symm]
  exact ⟨run, stored, rfl, fun _ _ => rfl⟩

/-- A view recorded for a task goes only to runs without a baseline. -/
theorem recordTaskView (recorded : db.recordRepositoryViewInTransaction .tasks task view = .ok next) :
    KeepsRun scope db next := by
  unfold recordRepositoryViewInTransaction at recorded
  split at recorded
  · cases recorded
  · cases recorded
    intro run stored
    have read := db.runs.get?_updateWhere (fun _ run => run.taskId = task && run.awaitsView)
      (fun run => { run with view := view.encode }) scope.runId
    rw [show db.runs.get? scope.runId = some run from stored, map_some] at read
    by_cases awaits : (run.taskId = task && run.awaitsView) = true
    · refine ⟨_, read, by rw [if_pos awaits], fun _ hasBaseline => ?_⟩
      simp only [Bool.and_eq_true, RunRow.awaitsView, decide_eq_true_eq] at awaits
      rw [awaits.2.1] at hasBaseline
      cases hasBaseline
    · rw [if_neg awaits] at read
      exact ⟨run, read, rfl, fun _ _ => rfl⟩

/-- A submission writes the run that it names. -/
theorem submitted {path : String} {runId : Option RunId} {view : Option RepositoryViewReference}
    {freezeFailed : Bool} (other : runId ≠ some scope.runId)
    (committed : db.taskSubmittedInTransaction task path runId view freezeFailed = .ok next) :
    KeepsRun scope db next := by
  intro run stored
  rw [run?_taskSubmitted committed, if_neg other.symm]
  exact ⟨run, stored, rfl, fun _ _ => rfl⟩

theorem recordView {owner : ViewOwner} {id : String} (other : owner = .runs → id ≠ scope.runId)
    (recorded : db.recordRepositoryView owner id view = .ok next) : KeepsRun scope db next := by
  obtain ⟨_, _, written⟩ := bind_eq_ok_iff.mp recorded
  cases owner with
  | tasks => exact .recordTaskView written
  | runs =>
    unfold recordRepositoryViewInTransaction at written
    split at written
    · cases written
    · cases written
      exact .updateOther (other rfl) _

theorem compareAndRecord {expected : RepositoryViewReference} {isRecorded : Bool}
    (compared : db.compareAndRecordTaskRepositoryView task expected view = .ok (next, isRecorded)) :
    KeepsRun scope db next := by
  rcases compareAndRecordTaskRepositoryView_ok compared with ⟨_, rfl⟩ | ⟨_, _, written⟩
  · exact .of_runs rfl
  · exact .recordTaskView written

theorem finalized {specPath milestoneId : Option String}
    (finalizes : db.finalizeTaskArtifactReservation task specPath milestoneId = .ok next) :
    KeepsRun scope db next := by
  obtain ⟨_, _, finalizes⟩ := bind_eq_ok_iff.mp finalizes
  split_ifs at finalizes
  cases finalizes
  exact .of_runs rfl

theorem discarded (discards : db.discardTaskArtifactReservation task = .ok next) : KeepsRun scope db next := by
  unfold discardTaskArtifactReservation at discards
  split_ifs at discards
  cases discards
  exact .of_runs rfl

/-- A reservation inserts a row only under an id that no run has. -/
theorem reserved {processIsAlive : Nat → Bool} {agent : AgentId} {workspacePath timestamp : String}
    {sharedWorkspace : Bool} {pid : Nat}
    (reserves : db.reserveExecutorSession processIsAlive runId agent workspacePath task sharedWorkspace pid timestamp =
      .ok next) : KeepsRun scope db next := by
  unfold reserveExecutorSession at reserves
  split_ifs at reserves
  cases reserves
  intro run stored
  refine ⟨run, (db.runs.get?_insertNew runId scope.runId _).trans ?_, rfl, fun _ _ => rfl⟩
  split_ifs with same
  · subst same
    rw [show db.runs.get? scope.runId = some run from stored]
    rfl
  · exact stored

theorem started {role : RunRole} {agent : AgentId} {pid : Nat} {workspacePath timestamp : String}
    (other : db.run? scope.runId ≠ none → scope.runId ≠ runId) :
    KeepsRun scope db (db.insertStartedRun runId role agent pid task workspacePath timestamp) := by
  intro run stored
  refine ⟨run, ?_, rfl, fun _ _ => rfl⟩
  unfold insertStartedRun
  split
  · exact stored
  · have isOther := other (by rw [stored]; exact some_ne_none run)
    exact (db.runs.get?_upsert runId scope.runId _ _).trans ((if_neg isOther).trans stored)

theorem eventInserted {runId : Option RunId} {eventType : String}
    (inserted : db.insertEvent runId eventType = .ok next) : KeepsRun scope db next := by
  unfold insertEvent at inserted
  split at inserted
  · cases inserted
    exact .of_runs rfl
  · split_ifs at inserted
    cases inserted
    exact .of_runs rfl

/-- The runs of the legacy task move to the first task and keep the rest of their rows. -/
theorem legacyRetired (timestamp : String) : KeepsRun scope db (db.retireLegacyCurrentTaskRow timestamp) := by
  unfold retireLegacyCurrentTaskRow
  split
  · exact .of_runs rfl
  split_ifs
  · exact .of_runs rfl
  refine .of_get? (fun run => if run.taskId = currentTaskId then
    { run with taskId := "t-001", updatedAt := timestamp } else run) (.inr ?_) ?_ ?_
  · exact (db.runs.get?_updateWhere _ _ scope.runId).trans (by simp only [decide_eq_true_eq]; rfl)
  · intro run
    split_ifs <;> rfl
  · intro run
    split_ifs <;> rfl

end KeepsRun

/-- An attachment under way that chose the run of the session is the proof that the run has another agent. -/
def ChosenByOthers (scope : ExecutorSessionScope) (state : ViewState) : Prop :=
  ∀ call task, state.attaching.get? call = some (scope.runId, task) →
    ∃ run, state.db.run? scope.runId = some run ∧ run.agent ≠ scope.agentId

section Others

variable {scope : ExecutorSessionScope} {state : ViewState} {agent : AgentId}

/-- The run that is chosen for an agent is its own, whatever the order of the runs. -/
private theorem agent_of_chosen {β : Type} [LinearOrder β] {order : RunId × RunRow → β}
    (chosen : ((db.runs.select (fun _ run => run.agent = agent && run.status.isActive)).argmax order).map (·.1) =
      some runId) : ∃ run, db.run? runId = some run ∧ run.agent = agent := by
  obtain ⟨⟨id, run⟩, isLatest, rfl⟩ := map_eq_some_iff.mp chosen
  obtain ⟨stored, selected⟩ := db.runs.mem_select.mp (List.argmax_mem isLatest)
  simp only [Bool.and_eq_true, decide_eq_true_eq] at selected
  exact ⟨run, stored, selected.1⟩

variable {next : Database} {timestamp : String}

/-- An attachment of a run keeps its agent, and the view of the session's run unless that has another agent. -/
private theorem attachRunToTask_keepsRun (attached : db.attachRunToTask runId task timestamp = .ok next)
    (others : runId = scope.runId → ∃ run, db.run? scope.runId = some run ∧ run.agent ≠ scope.agentId) :
    KeepsRun scope db next := by
  unfold attachRunToTask at attached
  split at attached
  · cases attached
    exact .of_runs rfl
  · cases attached
  · cases attached
    by_cases own : runId = scope.runId
    · intro run stored
      obtain ⟨other, found, otherAgent⟩ := others own
      obtain rfl := some.inj (found.symm.trans stored)
      rw [run?_updateRun, if_pos own.symm, stored]
      exact ⟨_, rfl, rfl, fun isOwn => absurd isOwn otherAgent⟩
    · exact .updateOther own _

private theorem attachToConsultation_keepsRun {task : Option TaskId} {context : Option RuntimeTaskContext}
    (other : agent ≠ scope.agentId)
    (attached : db.attachToConsultation agent task timestamp = .ok (next, context)) : KeepsRun scope db next := by
  obtain rfl | ⟨runId, _, _, chosen, moves, _, runs⟩ := attachToConsultation_ok attached
  · exact .of_runs rfl
  · intro run stored
    rw [Database.run?, runs]
    refine attachRunToTask_keepsRun moves ?_ run stored
    rintro rfl
    obtain ⟨run, stored, isAgent⟩ := agent_of_chosen chosen
    exact ⟨run, stored, isAgent ▸ other⟩

variable (chrono : Chrono)

section

variable (isForeign : foreign scope state.db event = true)

include isForeign

private theorem foreign_keepsRun (chosen : ChosenByOthers scope state) :
    KeepsRun scope state.db (viewStep chrono state event).db := by
  cases event with
  | record owner id view =>
    dsimp only [viewStep]
    split
    · next recorded =>
      refine .recordView ?_ recorded
      rintro rfl
      simp only [foreign, Bool.and_eq_true, decide_eq_true_eq] at isForeign
      exact isForeign.1
    · exact .of_runs rfl
  | compareAndRecord task expected view =>
    dsimp only [viewStep]
    split
    · next compared => exact .compareAndRecord compared
    · next compared => exact .compareAndRecord compared
    · exact .of_runs rfl
  | task event =>
    obtain ⟨task, op⟩ := event
    cases op with
    | submit path runId view freezeFailed =>
      simp only [foreign, Bool.and_eq_true, decide_eq_true_eq] at isForeign
      dsimp only [viewStep, TaskEvent.apply]
      cases submitted : state.db.taskSubmittedInTransaction task path runId view freezeFailed with
      | error => exact .of_runs rfl
      | ok next => exact .submitted isForeign.1 submitted
    | _ => exact .of_runs (TaskEvent.runs_apply state.db _ rfl)
  | lease event => exact .of_runs (event.apply_leaseFrame chrono state.db).runs
  | finalize task specPath milestoneId =>
    dsimp only [viewStep]
    split
    · next finalized => exact .finalized finalized
    · exact .of_runs rfl
  | discard task =>
    dsimp only [viewStep]
    split
    · next discarded => exact .discarded discarded
    · exact .of_runs rfl
  | ensureTask task path => exact .of_runs rfl
  | reserveSession processIsAlive runId agent workspacePath task sharedWorkspace pid timestamp =>
    dsimp only [viewStep]
    split
    · next reserved => exact .reserved reserved
    · exact .of_runs rfl
  | startRun runId role agent pid task workspacePath timestamp =>
    refine .started ?_
    rintro isStored rfl
    exact isStored (by simpa [foreign] using isForeign)
  | chooseRun call agent task =>
    dsimp only [viewStep]
    split <;> exact .of_runs rfl
  | attachRun call timestamp =>
    dsimp only [viewStep]
    split
    · next runId task entry =>
      split
      · next next attached =>
        refine attachRunToTask_keepsRun attached ?_
        rintro rfl
        exact chosen call task entry
      · exact .of_runs rfl
    · exact .of_runs rfl
  | attachNextConsultation agent timestamp | attachConsultation task agent timestamp =>
    dsimp only [viewStep]
    split
    · next attached => exact attachToConsultation_keepsRun (of_decide_eq_true isForeign) attached
    · exact .of_runs rfl
  | finishRun | interruptRun | releaseSession => exact .updateRun _ _ (fun _ => rfl) fun _ => rfl
  | runEvent runId eventType =>
    dsimp only [viewStep]
    split
    · next inserted => exact .eventInserted inserted
    · exact .of_runs rfl
  | retireLegacy timestamp => exact .legacyRetired timestamp

/-- A foreign step adds only attachments of runs with other agents. -/
private theorem foreign_chosenByOthers (chosen : ChosenByOthers scope state) :
    ChosenByOthers scope (viewStep chrono state event) := by
  have kept := foreign_keepsRun chrono isForeign chosen
  have earlier : ∀ call task, state.attaching.get? call = some (scope.runId, task) →
      ∃ run, (viewStep chrono state event).db.run? scope.runId = some run ∧ run.agent ≠ scope.agentId := by
    intro call task entry
    obtain ⟨run, stored, otherAgent⟩ := chosen call task entry
    obtain ⟨after, isAfter, sameAgent, -⟩ := kept run stored
    exact ⟨after, isAfter, sameAgent ▸ otherAgent⟩
  by_cases choice : (viewStep chrono state event).attaching = state.attaching
  · intro call task entry
    rw [choice] at entry
    exact earlier call task entry
  · cases event with
    | chooseRun call agent task =>
      dsimp only [viewStep] at choice earlier ⊢
      split at choice
      · next runId isChosen =>
        rw [isChosen] at earlier
        intro other otherTask entry
        rw [Table.get?_put] at entry
        split_ifs at entry
        · cases entry
          obtain ⟨run, stored, isAgent⟩ := agent_of_chosen isChosen
          exact ⟨run, stored, isAgent ▸ of_decide_eq_true isForeign⟩
        · exact earlier other otherTask entry
      · exact absurd rfl choice
    | _ =>
      refine absurd ?_ choice
      dsimp only [viewStep]
      repeat' split
      all_goals rfl

/-- A foreign step records views that the code can make. -/
private theorem foreign_made
    (made : ∀ view ∈ state.recorded, madeView view = true) :
    ∀ view ∈ (viewStep chrono state event).recorded, madeView view = true := by
  have recorded : ∀ {view : RepositoryViewReference}, madeView view = true →
      ∀ other ∈ view :: state.recorded, madeView other = true := by
    intro view isMade other member
    obtain rfl | member := List.mem_cons.mp member
    · exact isMade
    · exact made other member
  cases event with
  | record owner id view =>
    dsimp only [viewStep]
    split
    · refine recorded ?_
      cases owner with
      | tasks => exact isForeign
      | runs => exact (Bool.and_eq_true_iff.mp isForeign).2
    · exact made
  | compareAndRecord task expected view =>
    dsimp only [viewStep]
    split
    · exact recorded isForeign
    · exact made
    · exact made
  | task event =>
    obtain ⟨task, op⟩ := event
    dsimp only [viewStep]
    cases submitted : TaskEvent.submittedView? state.db ⟨task, op⟩ with
    | none => exact made
    | some view =>
      refine recorded ?_
      cases op with
      | submit path runId frozenView freezeFailed =>
        obtain ⟨_, _, isView⟩ := bind_eq_some_iff.mp submitted
        exact (all_eq_true ..).mp (Bool.and_eq_true_iff.mp isForeign).2 view isView
      | _ => cases submitted
  | _ =>
    dsimp only [viewStep]
    repeat' split
    all_goals exact made

end

end Others

/-! ### What the session reads -/

/-- A stored view that is frozen on the tree. -/
structure FrozenOn (view : RepositoryViewReference) (tree : Digest) : Prop where
  valid : view.Valid
  lifecycle : view.lifecycle = .frozenSubmitted
  tree : view.frozenSourceTree = some tree
  baseline : view.baselineSnapshotId.isSome = true

/-- The run of the session holds a view that is frozen on the tree. -/
def Pins (scope : ExecutorSessionScope) (db : Database) (tree : Digest) : Prop :=
  ∃ run view, db.run? scope.runId = some run ∧ run.agent = scope.agentId ∧ run.view = view.encode ∧
    FrozenOn view tree

section Reads

variable {chrono : Chrono} {canonicalize : String → Except String String} {scope : ExecutorSessionScope}
  {db next : Database} {row : TaskRow} {view : RepositoryViewReference} {tree : Digest} {ttl : Nat}

theorem Pins.kept (pins : Pins scope db tree) (kept : KeepsRun scope db next) : Pins scope next tree := by
  obtain ⟨run, view, stored, isAgent, columns, frozen⟩ := pins
  obtain ⟨after, isAfter, sameAgent, sameView⟩ := kept run stored
  have hasBaseline : run.view.baselineSnapshotId.isSome = true := by
    rw [columns, encode, isSome_map]
    exact frozen.baseline
  exact ⟨after, view, isAfter, sameAgent.trans isAgent, (sameView isAgent hasBaseline).trans columns, frozen⟩

private theorem supervisorContext_ok (read : supervisorContextInTransaction canonicalize db scope = .ok (row, view)) :
    db.task? scope.taskId = some row ∧ ∃ run, db.run? scope.runId = some run ∧ run.agent = scope.agentId ∧
      (row.status = .reviewing ∨ row.status = .awaitingHuman →
        repositoryViewReferenceFromDatabase run.view = .ok view) := by
  simp only [supervisorContextInTransaction, executorContextInTransaction, bind_eq_ok_iff,
    required_eq_ok_iff, ensure_eq_ok_iff, decide_eq_true_eq] at read
  obtain ⟨_, ⟨run, stored, _, _, _, isAgent, _, _, _, _, _, _, task, isTask, _, _, ⟨⟩⟩, _, decoded, ⟨⟩⟩ := read
  refine ⟨isTask, run, stored, isAgent, fun paused => ?_⟩
  have inReview : (row.status = .reviewing || row.status = .awaitingHuman) = true := by
    simpa only [Bool.or_eq_true, decide_eq_true_eq] using paused
  rw [if_pos inReview, stored] at decoded
  exact decoded

theorem Pins.read (pins : Pins scope db tree)
    (read : supervisorContextInTransaction canonicalize db scope = .ok (row, view))
    (inReview : row.status = .reviewing ∨ row.status = .awaitingHuman) : FrozenOn view tree := by
  obtain ⟨run, pinned, stored, _, columns, frozen⟩ := pins
  obtain ⟨_, other, alsoStored, _, decoded⟩ := supervisorContext_ok read
  obtain rfl := some.inj (stored.symm.trans alsoStored)
  have same := decoded inReview
  rw [columns, frozen.valid.decode_encode] at same
  cases same
  exact frozen

private theorem authorize_ok (authorized : authorize chrono canonicalize db scope now = .ok (row, view)) :
    supervisorContextInTransaction canonicalize db scope = .ok (row, view) ∧
      (row.status = .reviewing ∨ row.status = .awaitingHuman) := by
  simp only [authorize, bind_eq_ok_iff, ensure_eq_ok_iff] at authorized
  obtain ⟨⟨read, seen⟩, context, _, _, authorized⟩ := authorized
  split_ifs at authorized with paused
  · simp only [bind_eq_ok_iff] at authorized
    obtain ⟨_, _, _, _, _, _, ⟨⟩⟩ := authorized
    exact ⟨context, .inr paused⟩
  · simp only [bind_eq_ok_iff, ensure_eq_ok_iff, decide_eq_true_eq] at authorized
    obtain ⟨_, inReview, _, _, _, _, ⟨⟩⟩ := authorized
    exact ⟨context, .inl inReview⟩

private theorem renewTaskLease_leaseFrame {lease : Option String} {renewed : Option Instant}
    (success : db.renewTaskLeaseInTransaction chrono task ttl lease now = .ok (next, renewed)) :
    LeaseFrame db next := by
  unfold renewTaskLeaseInTransaction at success
  split_ifs at success
  · split at success
    · cases success
    · cases success
      exact .update "task_lease_renewed" (fun _ => .inl rfl)
  · cases success
    exact .refl db

variable {renewNow : Instant}

private theorem startSupervisorSession_leaseFrame
    (started : startSupervisorSession chrono canonicalize db scope ttl now renewNow = .ok next) :
    LeaseFrame db next := by
  simp only [startSupervisorSession, bind_eq_ok_iff] at started
  obtain ⟨_, _, _, _, started⟩ := started
  have claims : ∃ mid claim, db.claimReadyTaskInTransaction chrono scope.taskId scope.agentId ttl
      [.reviewing, .awaitingHuman] false now = .ok (mid, claim) ∧ LeaseFrame mid next := by
    split_ifs at started <;>
    · simp only [bind_eq_ok_iff] at started
      obtain ⟨_, _, ⟨mid, claim⟩, claimed, started⟩ := started
      refine ⟨mid, claim, claimed, ?_⟩
      split at started
      · cases started
      · cases started
        exact .refl _
      · simp only [bind_eq_ok_iff] at started
        obtain ⟨_, renewal, _, _, returned⟩ := started
        cases returned
        exact renewTaskLease_leaseFrame renewal
  obtain ⟨mid, claim, claimed, frame⟩ := claims
  obtain ⟨_, prelude, write⟩ := claimReadyTask_transaction claimed
  exact (prelude.leaseFrame.trans write.leaseFrame).trans frame

private theorem renewSupervisorSession_leaseFrame {renewed : Bool}
    (success : renewSupervisorSession chrono canonicalize db scope ttl now renewNow = .ok (next, renewed)) :
    LeaseFrame db next := by
  simp only [renewSupervisorSession, bind_eq_ok_iff] at success
  obtain ⟨_, _, success⟩ := success
  split_ifs at success
  · cases success
    exact .refl db
  · simp only [bind_eq_ok_iff] at success
    obtain ⟨_, _, _, renewal, returned⟩ := success
    cases returned
    exact renewTaskLease_leaseFrame renewal

end Reads

/-! ### The run of a session -/

/-- What the session carries is frozen on its source. -/
def ReviewPhase.Sound : ReviewPhase → Prop
  | .approving source view | .integrating source view | .rejecting source view => FrozenOn view source
  | .merged source view tree => FrozenOn view source ∧ (tree = none ∨ tree = some source)
  | _ => True

structure BindingInvariant (scope : ExecutorSessionScope) (state : NativeReview) : Prop where
  views : ViewInvariant state.views
  made : ∀ view ∈ state.views.recorded, madeView view = true
  chosen : ChosenByOthers scope state.views
  pinned : ∀ source, state.phase.source? = some source → Pins scope state.views.db source
  phase : state.phase.Sound
  decisions : ∀ decision ∈ state.decisions, decision.Sound

namespace BindingInvariant

variable {chrono : Chrono} {canonicalize : String → Except String String} {scope : ExecutorSessionScope}
  {state next : NativeReview}

theorem initial : BindingInvariant scope .initial where
  views := .start
  made view member := by
    rw [List.mem_singleton.mp member]
    rfl
  chosen call task entry := by cases entry
  pinned source isSource := by cases isSource
  phase := trivial
  decisions decision member := by cases member

variable {phase : ReviewPhase}

/-- The session goes on, in a phase with the same source. -/
theorem proceed (inv : BindingInvariant scope state)
    (same : phase.source? = state.phase.source? ∨ phase.source? = none) (sound : phase.Sound) :
    BindingInvariant scope { state with phase } where
  views := inv.views
  made := inv.made
  chosen := inv.chosen
  pinned source isSource := by
    obtain same | missing := same
    · exact inv.pinned source (same.symm.trans isSource)
    · cases missing.symm.trans isSource
  phase := sound
  decisions := inv.decisions

theorem foreignStep (chrono : Chrono) (inv : BindingInvariant scope state)
    (isForeign : foreign scope state.views.db event = true) :
    BindingInvariant scope { state with views := viewStep chrono state.views event } where
  views := inv.views.step chrono _ event
  made := foreign_made chrono isForeign inv.made
  chosen := foreign_chosenByOthers chrono isForeign inv.chosen
  pinned source isSource := (inv.pinned source isSource).kept (foreign_keepsRun chrono isForeign inv.chosen)
  phase := inv.phase
  decisions := inv.decisions

/-- A lease write of the session. -/
theorem leased (inv : BindingInvariant scope state) (frame : LeaseFrame state.views.db db)
    (same : phase.source? = state.phase.source?) (sound : phase.Sound) :
    BindingInvariant scope (state.withDb db phase) where
  views := inv.views.of_unrecorded frame.viewFrame
  made := inv.made
  chosen call task entry := by
    obtain ⟨run, stored, otherAgent⟩ := inv.chosen call task entry
    exact ⟨run, (congrArg (Table.get? · scope.runId) frame.runs).trans stored, otherAgent⟩
  pinned source isSource := (inv.pinned source (same.symm.trans isSource)).kept (.of_runs frame.runs)
  phase := sound
  decisions := inv.decisions

variable {row : TaskRow} (inv : BindingInvariant scope state)

include inv

/-- A frozen view that is read from the run of the session is stored there as it is. -/
theorem pins_of_read {tree : Digest}
    (read : supervisorContextInTransaction canonicalize state.views.db scope = .ok (row, view))
    (inReview : row.status = .reviewing ∨ row.status = .awaitingHuman) (lifecycle : view.lifecycle = .frozenSubmitted)
    (hasTree : view.frozenSourceTree = some tree) : Pins scope state.views.db tree := by
  obtain ⟨_, run, stored, isAgent, decoded⟩ := supervisorContext_ok read
  obtain ⟨source, member, columns⟩ := inv.views.whole run.view
    ⟨.runs, scope.runId, congrArg (Option.map RunRow.view) stored⟩
  have valid := inv.views.valid source member
  have same := decoded inReview
  obtain whole | successor := columns
  · rw [whole, valid.decode_encode] at same
    cases same
    refine ⟨run, view, stored, isAgent, whole, valid, lifecycle, hasTree, ?_⟩
    have isMade := inv.made view member
    simpa [madeView, lifecycle] using isMade
  · rw [successor, valid.mutableSuccessor.decode_encode] at same
    cases same
    cases lifecycle

/-- The tree columns of a task row are those of the tree that its view is frozen on. -/
theorem submitted_of_digest {value : String} (stored : state.views.db.task? scope.taskId = some row)
    (digest : row.view.treeDigest = some value) : ∃ tree, frozenTree? row = some tree ∧ tree.value = value := by
  obtain ⟨source, member, columns⟩ := inv.views.whole row.view
    ⟨.tasks, scope.taskId, congrArg (Option.map TaskRow.view) stored⟩
  have valid := inv.views.valid source member
  obtain whole | successor := columns
  · rw [whole] at digest
    obtain ⟨tree, hasTree, isValue⟩ := map_eq_some_iff.mp digest
    refine ⟨tree, ?_, isValue⟩
    rw [frozenTree?, whole, valid.decode_encode]
    refine (if_pos ?_).trans hasTree
    -- A valid view with a tree is frozen.
    cases lifecycle : source.lifecycle with
    | frozenSubmitted => rfl
    | «mutable» =>
      unfold RepositoryViewReference.Valid validate at valid
      rw [lifecycle, hasTree, isSome_some, if_pos rfl] at valid
      split_ifs at valid
  · rw [successor] at digest
    cases digest

/-- A decision commits over the source that the session was bound to. -/
theorem commit {op : TaskOp} {approval : Bool} {source : Digest}
    {tree : Option Digest} (isForeign : foreign scope state.views.db (.task ⟨scope.taskId, op⟩) = true)
    (isSource : state.phase.source? = some source) (frozen : FrozenOn view source)
    (merged : tree = none ∨ tree = some source)
    (committed : state.commit chrono canonicalize scope op source (fun row =>
      decision chrono scope approval source view tree row now) view.frozenSourceTree now = .ok next) :
    BindingInvariant scope next := by
  simp only [NativeReview.commit, bind_eq_ok_iff] at committed
  obtain ⟨⟨row, current⟩, read, _, checked, returned⟩ := committed
  cases returned
  rw [frozen.tree] at checked
  simp only [requireSupervisorReview, requireExecutorOwner, bind_eq_ok_iff, ensure_eq_ok_iff,
    Bool.and_eq_true, decide_eq_true_eq] at checked
  obtain ⟨_, ⟨_, owner, live⟩, _, ⟨⟨inReview, _⟩, _⟩, digest⟩ := checked
  have after := inv.foreignStep chrono isForeign
  refine ⟨after.views, after.made, after.chosen, ?_, trivial, ?_⟩
  · rintro _ ⟨⟩
    exact after.pinned source isSource
  · intro decision member
    obtain rfl | member := List.mem_cons.mp member
    · have leaseLive := Bool.and_eq_true_iff.mpr ⟨decide_eq_true owner, live⟩
      have submitted := inv.submitted_of_digest (supervisorContext_ok read).1 digest
      exact ⟨inReview, leaseLive, frozen.tree, merged, submitted⟩
    · exact inv.decisions decision member

theorem act {action : ReviewAction} (acted : state.act chrono canonicalize scope action = .ok next) :
    BindingInvariant scope next := by
  obtain ⟨views, phase, decisions⟩ := state
  have sound := inv.phase
  unfold act at acted
  dsimp only at acted
  split at acted
  · -- `bind` reads the tree from the run
    simp only [bind_eq_ok_iff, ensure_eq_ok_iff, required_eq_ok_iff, decide_eq_true_eq] at acted
    obtain ⟨⟨row, view⟩, read, _, status, _, lifecycle, tree, hasTree, ⟨⟩⟩ := acted
    have inReview : row.status = .reviewing ∨ row.status = .awaitingHuman := by
      split_ifs at status with paused
      · exact .inr paused
      · exact .inl (some.inj status)
    have pins := inv.pins_of_read read inReview lifecycle hasTree
    refine ⟨inv.views, inv.made, inv.chosen, ?_, trivial, inv.decisions⟩
    rintro _ ⟨⟩
    exact pins
  · cases acted
    exact inv.proceed (.inl rfl) trivial
  · simp only [bind_eq_ok_iff] at acted
    obtain ⟨db, started, ⟨⟩⟩ := acted
    exact inv.leased (startSupervisorSession_leaseFrame started) rfl trivial
  · simp only [bind_eq_ok_iff] at acted
    obtain ⟨_, _, ⟨⟩⟩ := acted
    exact inv.proceed (.inl rfl) trivial
  · simp only [bind_eq_ok_iff] at acted
    obtain ⟨_, renewed, ⟨⟩⟩ := acted
    exact inv.leased (renewSupervisorSession_leaseFrame renewed) rfl trivial
  · next source now =>
    simp only [bind_eq_ok_iff] at acted
    obtain ⟨_, authorized, _, _, ⟨⟩⟩ := acted
    obtain ⟨read, inReview⟩ := authorize_ok authorized
    exact inv.proceed (.inl rfl) ((inv.pinned source rfl).read read inReview)
  · simp only [bind_eq_ok_iff] at acted
    obtain ⟨_, _, _, _, ⟨⟩⟩ := acted
    exact inv.proceed (.inl rfl) sound
  · next source view patch =>
    cases acted
    refine inv.proceed (.inl rfl) ⟨sound, ?_⟩
    cases patch with
    | none => exact .inl rfl
    | some patch =>
      refine .inr (congrArg some ?_)
      rw [submissionTree, sound.tree]
      exact if_pos sound.lifecycle
  · exact inv.commit rfl rfl sound.1 sound.2 acted
  · next source now =>
    simp only [bind_eq_ok_iff] at acted
    obtain ⟨_, authorized, _, _, ⟨⟩⟩ := acted
    obtain ⟨read, inReview⟩ := authorize_ok authorized
    exact inv.proceed (.inl rfl) ((inv.pinned source rfl).read read inReview)
  · exact inv.commit rfl rfl sound (.inl rfl) acted
  · cases acted
    exact inv.proceed (.inl rfl) trivial
  · cases acted
    exact inv.proceed (.inl rfl) trivial
  · cases acted
    exact inv.proceed (.inl rfl) trivial
  · cases acted
    exact inv.proceed (.inl rfl) trivial
  · cases acted
    exact inv.proceed (.inr rfl) trivial
  · cases acted

theorem step (event : ReviewEvent) : BindingInvariant scope (state.step chrono canonicalize scope event) := by
  cases event with
  | session action =>
    dsimp only [NativeReview.step]
    cases acted : state.act chrono canonicalize scope action with
    | error => exact inv
    | ok next => exact inv.act acted
  | other event =>
    dsimp only [NativeReview.step]
    split_ifs with isForeign
    · exact inv.foreignStep chrono isForeign
    · exact inv

end BindingInvariant

/-- Whatever other processes do meanwhile, every decision that a native reviewer commits is about a task in
review, under the reviewer's live lease, and about the tree that its inspection source was made from, which is
then still the submitted tree. -/
theorem decisions_sound (chrono : Chrono) (canonicalize : String → Except String String)
    (scope : ExecutorSessionScope) (events : List ReviewEvent) :
    ∀ decision ∈ (run (step chrono canonicalize scope) .initial events).decisions,
      decision.Sound :=
  (run_invariant (BindingInvariant scope) .initial (fun _ event inv => inv.step event) events).decisions

/-- A submission, and an approval of it up to the integration of its tree. -/
private def approveExample : List ReviewEvent :=
  [.other (.task ⟨"t-001", .submit ".ferrus/tasks/t-001.md" none (some frozenExample) false⟩),
    .other (.startRun "r-1" .supervisor "supervisor:1" 7 "t-001" "/w" ""), .session .bind,
    .session .materialize, .session (.start 60 0 0), .session (.authorize 1),
    .session (.approve 2), .session (.check 3), .session (.integrate frozenExample.frozenSourceTree)]

/-- An approval commits what it has merged. -/
theorem decisions_sound_approved :
    ∃ decision ∈ (run (step utcChrono Except.ok ⟨"supervisor:1", "t-001", "r-1", "/w"⟩) .initial
        (approveExample ++ [.session (.complete 4)])).decisions,
      decision.merged = frozenExample.frozenSourceTree ∧ decision.Sound := by
  obtain ⟨decision, member, merged⟩ : ∃ decision ∈ (run (step utcChrono ok
      ⟨"supervisor:1", "t-001", "r-1", "/w"⟩) .initial (approveExample ++ [.session (.complete 4)])).decisions,
        decision.merged = frozenExample.frozenSourceTree := by
    decide +kernel
  exact ⟨decision, member, merged, decisions_sound _ _ _ _ decision member⟩

end Ferrus.Tools

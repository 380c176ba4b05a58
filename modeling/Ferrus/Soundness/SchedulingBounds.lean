import Ferrus.Model.Hq.Scheduling
import Ferrus.Model.Runtime.UtcClock
import Mathlib.Data.List.Perm.Subperm

/-! # How many sessions the scheduler starts

A stage counts the live executors by their run rows, so it sees those of an earlier HQ. The live supervisors
it counts by its own handles only. As long as every live supervisor has a handle in the HQ that schedules,
each stage stays within `max_parallel_tasks` and starts no second session for a task. After a restart that
condition can fail, and then the bound does.

A project without git needs no condition: its executors reserve the workspace through their run rows.
-/

namespace Ferrus.Hq

open Ferrus.Runtime Ferrus.Machine List Database

/-! ### What the bounds rest on -/

def SpawnAttempt.tracked : SpawnAttempt → Bool
  | .started session => session.recorded && session.counted
  | _ => true

/-- Every start of the stage gets its run row and its dispatch written. -/
def StageInput.Tracked (input : StageInput) : Prop := ∀ entry ∈ input.attempts, entry.2.tracked = true

/-- The roles that a stage starts sessions of. -/
def SchedulingStage.startsRole : SchedulingStage → RunRole → Bool
  | .answeredHuman, _ => true
  | .consultation, role | .reviewing, role => role = .supervisor
  | .answeredConsultation, role | .queued, role => role = .executor

namespace HqContext

variable (hq : HqContext)

/-- Every live supervisor has a handle in this HQ. -/
def OwnsSupervisors : Prop :=
  ∀ session ∈ hq.liveSessions .supervisor, ∃ entry ∈ hq.headless.rows,
    hasRole entry.1 .supervisor = true ∧ entry.2.pid = session.pid

/-- No live executor works on the legacy row. -/
def ScopedExecutors : Prop :=
  ∀ session ∈ hq.liveSessions .executor, session.task ≠ currentTaskId

/-- A live session for the task and the role of an answered waiter goes by the waiter's name. -/
def NamesWaiters : Prop :=
  ∀ waiter ∈ hq.waiters, ∀ role ∈ ownerRole? waiter.awaitingHumanBy,
    ∀ session ∈ hq.liveSessions role, session.task = waiter.taskId → session.agent = waiter.awaitingHumanBy

/-- The HQ that runs a stage knows the sessions that the stage has to count. -/
def Oversees (event : HqEvent) (_ : HqContext) : Prop :=
  match event with
  | .stage stage input =>
      input.Tracked ∧ (stage.startsRole .supervisor = true → hq.OwnsSupervisors) ∧
        (stage.startsRole .executor = true → hq.ScopedExecutors) ∧
        (stage = .answeredHuman → hq.NamesWaiters)
  | _ => True

/-- Each start found less than `max_parallel_tasks` live sessions of its role and none for its task, and
executors without git are alone. -/
structure Bounded (hq : HqContext) : Prop where
  starts : ∀ start ∈ hq.starts, start.live < start.maxParallel ∧ start.second = false
  shared : hq.git = false → (hq.liveSessions .executor).length ≤ 1

end HqContext

/-! ### The functions without a state -/

private theorem takeChecked_spec {α : Type} {check : α → Except String Bool} {slots : Nat} {entries taken : List α}
    (found : takeChecked check slots entries = .ok taken) :
    taken.Sublist entries ∧ taken.length ≤ slots ∧ ∀ entry ∈ taken, check entry = .ok true := by
  fun_induction takeChecked check slots entries generalizing taken with
  | case1 | case2 =>
    obtain rfl := Except.ok.inj found
    simp
  | case3 => cases found
  | case4 slots entry rest checked ih =>
    cases later : takeChecked check slots rest with
    | error message => rw [later] at found; cases found
    | ok others =>
      rw [later] at found
      obtain rfl := Except.ok.inj found
      obtain ⟨sublist, length, passed⟩ := ih later
      exact ⟨sublist.cons_cons entry, Nat.succ_le_succ length, forall_mem_cons.mpr ⟨checked, passed⟩⟩
  | case5 slots entry rest _ ih =>
    obtain ⟨sublist, length, passed⟩ := ih found
    exact ⟨sublist.cons entry, length, passed⟩

private theorem card_le_occupiedExecutorSlotsFromHandles (ids : Finset TaskId) (unscoped : Nat) (names : List String) :
    ids.card ≤ occupiedExecutorSlotsFromHandles ids unscoped names := by
  fun_induction occupiedExecutorSlotsFromHandles ids unscoped names with
  | case1 ids unscoped => exact Nat.le_add_right _ _
  | case2 ids unscoped name names task _ ih =>
    exact (Finset.card_le_card (Finset.subset_insert task ids)).trans ih
  | case3 ids unscoped name names _ ih => exact ih

variable {input : StageInput}

theorem StageInput.Tracked.attempt (tracked : input.Tracked) (task : TaskId) : (input.attempt task).tracked = true := by
  unfold StageInput.attempt
  cases found : input.attempts.find? (·.1 = task) with
  | none => rfl
  | some entry => exact tracked entry (mem_of_find?_eq_some found)

private theorem nodup_keys {ρ : Type} (table : Table String ρ) : (table.rows.map (·.1)).Nodup :=
  pairwise_map.mpr (table.sorted.imp ne_of_lt)

variable (db : Database)

private theorem listTasks_nodup : ((listTasks db).map (·.1)).Nodup := by
  have parts : (listTasks db).Perm db.tasks.rows := by
    simpa only [listTasks, Table.select, ne_eq, decide_not] using
      filter_append_perm (fun row => decide (row.1 = currentTaskId)) db.tasks.rows
  exact (parts.map _).nodup_iff.mpr (nodup_keys db.tasks)

private theorem listAnsweredHumanWaiters_nodup : ((listAnsweredHumanWaiters db).map (·.taskId)).Nodup := by
  rw [listAnsweredHumanWaiters, map_map]
  refine ((perm_insertionSort _ _).map _).nodup_iff.mpr ?_
  exact (nodup_keys db.tasks).sublist (filter_sublist.map _)

/-! ### One start -/

/-- The run row that the other processes of the project see of a session. -/
def HasRow (session : Session) : Prop :=
  ∃ id run, db.run? id = some run ∧ run.status.isActive = true ∧ run.pid = some session.pid ∧
    run.role = session.role ∧ run.agent = session.agent ∧ run.taskId = session.task

namespace HqContext

variable {hq : HqContext} {role : RunRole} {name : String} {task id : TaskId} {session : SpawnedSession}

theorem mem_liveSessions {session : Session} : session ∈ hq.liveSessions role ↔
      session ∈ hq.sessions ∧ session.role = role ∧ session.pid ∉ hq.exited := by
  simp only [liveSessions, processIsAlive, mem_filter, Bool.and_eq_true, decide_eq_true_eq]

theorem liveOn_eq_false : hq.liveOn role task = false ↔ ∀ session ∈ hq.liveSessions role, session.task ≠ task := by
  simp [liveOn]

theorem mem_liveActiveRuns {session : Session} (row : HasRow hq.db session) (alive : session.pid ∉ hq.exited) :
    ∃ run ∈ hq.liveActiveRuns, run.role = session.role ∧ run.agent = session.agent ∧
      run.taskId = session.task := by
  obtain ⟨id, run, stored, active, pid, role, agent, task⟩ := row
  refine ⟨run, mem_map.mpr ⟨(id, run), ?_, rfl⟩, role, agent, task⟩
  refine hq.db.runs.mem_select.mpr ⟨stored, ?_⟩
  simpa [active, pid, processIsAlive] using alive

/-- What a start needs of the project. -/
structure Launches (hq : HqContext) (role : RunRole) (session : SpawnedSession) : Prop where
  unused : hq.db.run? session.runId = none
  alive : session.pid ∉ hq.exited
  fresh : session.pid ∉ hq.sessions.map (·.pid)
  recorded : role = .executor → hq.git = false → session.recorded = true
  vacant : role = .executor → hq.git = false → hq.db.executorOccupied hq.processIsAlive true = false

/-- A spawn changes nothing or starts a session. -/
theorem spawnHeadless_cases (hq : HqContext) (role : RunRole) (name : String) (task : TaskId) (attempt : SpawnAttempt) :
    (∃ ok, hq.spawnHeadless role name task attempt = (hq, ok)) ∨
      ∃ session, attempt = .started session ∧ hq.Launches role session ∧
        hq.spawnHeadless role name task attempt =
          (hq.launched role name task session, role = .supervisor || session.counted) := by
  unfold spawnHeadless
  split_ifs
  · exact .inl ⟨true, rfl⟩
  · cases attempt with
    | failed => exact .inl ⟨false, rfl⟩
    | limitReached => exact .inl ⟨_, rfl⟩
    | started session =>
      simp only [launch]
      split_ifs with occupied taken unwritten
      · exact .inl ⟨false, rfl⟩
      · exact .inl ⟨false, rfl⟩
      · exact .inl ⟨false, rfl⟩
      · simp only [Bool.or_eq_true, decide_eq_true_eq, not_or, Bool.not_eq_true, Option.isSome_eq_false_iff,
          Option.isNone_iff_eq_none] at taken
        refine .inr ⟨session, rfl, ⟨taken.1.1, taken.1.2, taken.2, ?_, ?_⟩, rfl⟩
        · rintro rfl noGit
          simpa [noGit] using unwritten
        · rintro rfl noGit
          simpa [noGit] using occupied

theorem liveSessions_launched (alive : session.pid ∉ hq.exited) (other : RunRole) :
    (hq.launched role name task session).liveSessions other =
      if role = other then ⟨role, name, task, session.pid⟩ :: hq.liveSessions other
      else hq.liveSessions other := by
  simp only [liveSessions, launched, filter_cons, processIsAlive, alive, not_false_eq_true, decide_true,
    Bool.and_true, decide_eq_true_eq]
  split_ifs <;> rfl

section

variable (launches : hq.Launches role session)

include launches

theorem run?_launched (id : RunId) {run : RunRow} (stored : hq.db.run? id = some run) :
    (hq.launched role name task session).db.run? id = some run := by
  have other : id ≠ session.runId := by
    rintro rfl
    rw [launches.unused] at stored
    cases stored
  dsimp only [launched]
  split_ifs
  · simp only [insertStartedRun, task?_ensureTaskExists, if_true]
    exact (hq.db.runs.get?_upsert session.runId id _ _).trans ((if_neg other).trans stored)
  · exact stored

theorem hasRow_launched (recorded : session.recorded = true) :
    HasRow (hq.launched role name task session).db ⟨role, name, task, session.pid⟩ := by
  have unused : hq.db.runs.get? session.runId = none := launches.unused
  simp only [launched, recorded, if_true, insertStartedRun, task?_ensureTaskExists]
  exact ⟨session.runId, _, (hq.db.runs.get?_upsert session.runId session.runId _ _).trans
    ((if_pos rfl).trans (by rw [unused])), rfl, rfl, rfl, rfl, rfl⟩

theorem liveOn_launched (other : RunRole) {otherTask : TaskId}
    (differs : otherTask ≠ task) :
    (hq.launched role name task session).liveOn other otherTask = hq.liveOn other otherTask := by
  simp only [liveOn, liveSessions_launched launches.alive]
  split_ifs
  · simp [differs.symm]
  · rfl

end

theorem keepsRow_launched {other : Session} (row : HasRow hq.db other) (launches : hq.Launches role session) :
    HasRow (hq.launched role name task session).db other := by
  obtain ⟨id, run, stored, rest⟩ := row
  exact ⟨id, run, run?_launched launches id stored, rest⟩

/-- What a stage chooses: tasks of the pass without a live session of the role, no more than there are free slots. -/
structure Spawnable (hq : HqContext) (role : RunRole) (chosen : List (TaskId × TaskRow)) : Prop where
  listed : chosen.Sublist hq.tasks
  unlisted : ∀ task ∈ chosen, task.1 ∉ hq.liveActiveRunTaskIdsForRole role
  within : chosen.length ≤ hq.waiterSlots role

theorem unlisted_of_unblocked {chrono : Chrono} {now : Instant} {row : TaskRow} {expected : AgentId}
    (unblocked : taskClaimBlocksSpawn chrono now id row expected hq.liveActiveRunTaskIds = false) (role : RunRole) :
    id ∉ hq.liveActiveRunTaskIdsForRole role := by
  simp only [taskClaimBlocksSpawn, Bool.or_eq_false_iff, decide_eq_false_iff_not] at unblocked
  exact fun listed => unblocked.1 ((filter_sublist.map _).subset listed)

/-- A stage resumes the answered waiters, starts sessions for the tasks that it chooses, or does nothing. -/
@[elab_as_elim]
theorem runStage_cases {P : HqContext → Prop} (chrono : Chrono) (stage : SchedulingStage) (idle : P hq)
    (resumed : stage = .answeredHuman → P (hq.scheduleAnsweredHumanTasks input))
    (spawned : ∀ role chosen (agentId : TaskId → AgentId), stage.startsRole role = true → hq.Spawnable role chosen →
      P (spawnEach role input hq (chosen.map (fun task => (task.1, agentId task.1))))) :
    P (hq.runStage chrono input stage) := by
  cases stage with
  | answeredHuman => exact resumed rfl
  | consultation =>
    dsimp only [runStage, scheduleConsultationTasks]
    split
    · exact idle
    · next chosen found =>
      obtain ⟨listed, within, checked⟩ := takeChecked_spec found
      refine spawned .supervisor chosen _ rfl ⟨listed, fun task member live => ?_, within⟩
      have passed := checked task member
      simp [live] at passed
  | answeredConsultation =>
    dsimp only [runStage, scheduleAnsweredConsultationTasks]
    split_ifs
    · exact idle
    · split
      · exact idle
      · next answered found =>
        obtain ⟨listed, -, -⟩ := takeChecked_spec found
        refine spawned .executor _ _ rfl ⟨((take_sublist _ _).trans filter_sublist).trans listed, fun task member => ?_,
          length_take_le _ _⟩
        have passed := (mem_filter.mp (mem_of_mem_take member)).2
        simp only [Bool.and_eq_true, Bool.not_eq_true'] at passed
        exact unlisted_of_unblocked passed.1.2 _
  | reviewing =>
    dsimp only [runStage, scheduleReviewingTasks]
    split
    · exact idle
    · next chosen found =>
      obtain ⟨listed, within, checked⟩ := takeChecked_spec found
      refine spawned .supervisor chosen _ rfl ⟨listed, fun task member => ?_, within⟩
      have passed := checked task member
      split_ifs at passed with refused
      · cases passed
      all_goals
        simp only [Bool.or_eq_true, not_or, Bool.not_eq_true] at refused
        exact unlisted_of_unblocked refused.2 _
  | queued =>
    refine spawned .executor _ _ rfl ⟨((take_sublist _ _).trans filter_sublist).trans filter_sublist,
      fun task member => ?_, length_take_le _ _⟩
    have passed := (mem_filter.mp (mem_filter.mp (mem_of_mem_take member)).1).2
    simp only [Bool.and_eq_true, Bool.not_eq_true'] at passed
    exact unlisted_of_unblocked passed.2 _

/-- A property that every start keeps is kept by every stage. -/
theorem runStage_invariant {P : HqContext → Prop}
    (kept : ∀ (hq : HqContext) role name task session, hq.Launches role session → P hq →
      P (hq.launched role name task session))
    (chrono : Chrono) (input : StageInput) (stage : SchedulingStage) (holds : P hq) :
    P (hq.runStage chrono input stage) := by
  have spawned : ∀ (hq : HqContext) role name task attempt, P hq →
      P (hq.spawnHeadless role name task attempt).1 := by
    intro hq role name task attempt holds
    obtain ⟨ok, same⟩ | ⟨session, -, launches, same⟩ := hq.spawnHeadless_cases role name task attempt
    · rwa [same]
    · rw [same]
      exact kept hq role name task session launches holds
  have each : ∀ role entries (hq : HqContext), P hq → P (spawnEach role input hq entries) := by
    intro role entries hq holds
    fun_induction spawnEach role input hq entries with
    | case1 hq => exact holds
    | case2 hq task name rest next result ih =>
      exact ih (by simpa [result] using spawned hq role name task (input.attempt task) holds)
    | case3 hq task name rest next result => simpa [result] using spawned hq role name task (input.attempt task) holds
  refine runStage_cases chrono stage holds (fun _ => ?_) fun role chosen agentId _ _ => each role _ hq holds
  dsimp only [scheduleAnsweredHumanTasks]
  generalize hq.liveActiveRunAgents = agents, hq.waiterSlots = slots, hq.waiters = waiters
  fun_induction resumeWaiters agents input hq slots waiters with
  | case1 hq slots => exact holds
  | case2 hq slots waiter rest _ ih => exact ih holds
  | case3 hq slots waiter rest _ _ ih => exact ih holds
  | case4 hq slots waiter rest _ role _ _ ih => exact ih holds
  | case5 hq slots waiter rest _ role _ _ next result ih =>
    refine ih ?_
    simpa [result] using spawned hq role waiter.awaitingHumanBy waiter.taskId (input.attempt waiter.taskId) holds
  | case6 hq slots waiter rest _ role _ _ next result ih =>
    refine ih ?_
    simpa [result] using spawned hq role waiter.awaitingHumanBy waiter.taskId (input.attempt waiter.taskId) holds

/-- An exit only removes live sessions. -/
theorem liveSessions_exit (hq : HqContext) (pid : Nat) (role : RunRole) :
    ({ hq with exited := pid :: hq.exited }.liveSessions role).Sublist (hq.liveSessions role) := by
  refine monotone_filter_right _ ?_
  intro session
  simp only [processIsAlive, mem_cons, not_or, Bool.and_eq_true, decide_eq_true_eq]
  exact fun chosen => ⟨chosen.1, chosen.2.2⟩

/-- Closing the row of a dead process leaves the rows of the live sessions. -/
theorem keepsRow_closeRun {other : Session} (row : HasRow hq.db other) (alive : other.pid ∉ hq.exited)
    {runId : RunId} (dead : ¬ (hq.db.run? runId).any (fun run => run.pid.any hq.processIsAlive) = true)
    (status : RunStatus) (timestamp : String) : HasRow (hq.db.closeRun runId status timestamp) other := by
  obtain ⟨id, run, stored, active, pid, rest⟩ := row
  have differs : id ≠ runId := by
    rintro rfl
    exact dead (by simp [stored, pid, processIsAlive, alive])
  exact ⟨id, run, (hq.db.run?_updateRun runId id _).trans ((if_neg differs).trans stored), active, pid, rest⟩

/-! ### Executors that share the workspace -/

/-- Without git every live executor has its run row and is alone. -/
structure SharesWorkspace (hq : HqContext) : Prop where
  rows : hq.git = false → ∀ session ∈ hq.liveSessions .executor, HasRow hq.db session
  alone : hq.git = false → (hq.liveSessions .executor).length ≤ 1

theorem SharesWorkspace.launched (shares : hq.SharesWorkspace) (launches : hq.Launches role session) :
    (hq.launched role name task session).SharesWorkspace := by
  have live : (hq.launched role name task session).liveSessions .executor = _ :=
    liveSessions_launched launches.alive .executor
  by_cases isExecutor : role = .executor
  · rw [if_pos isExecutor] at live
    constructor
    · intro noGit other member
      rw [live] at member
      obtain rfl | old := mem_cons.mp member
      · exact hasRow_launched launches (launches.recorded isExecutor noGit)
      · exact keepsRow_launched (shares.rows noGit other old) launches
    · intro noGit
      -- a live executor would hold the reservation
      have isEmpty : hq.liveSessions .executor = [] := by
        refine eq_nil_iff_forall_not_mem.mpr fun other member => ?_
        obtain ⟨id, run, stored, active, pid, isRole, -⟩ := shares.rows noGit other member
        obtain ⟨-, otherRole, alive⟩ := mem_liveSessions.mp member
        have vacant := launches.vacant isExecutor noGit
        refine Bool.eq_false_iff.mp vacant (any_eq_true.mpr ⟨(id, run), ?_, ?_⟩)
        · exact hq.db.runs.mem_select.mpr ⟨stored, by simp [isRole, otherRole, active]⟩
        · simpa [pid, processIsAlive] using alive
      rw [live, isEmpty]
      exact Nat.le_refl 1
  · rw [if_neg isExecutor] at live
    refine ⟨fun noGit other member => ?_, fun noGit => ?_⟩
    · rw [live] at member
      exact keepsRow_launched (shares.rows noGit other member) launches
    · rw [live]
      exact shares.alone noGit

theorem SharesWorkspace.step (chrono : Chrono) (shares : hq.SharesWorkspace) (event : HqEvent) :
    (hq.step chrono event).SharesWorkspace := by
  cases event with
  | writeTasks | pauseNano | resumeNano | restart | readTasks => exact ⟨shares.rows, shares.alone⟩
  | exit pid =>
    have fewer := hq.liveSessions_exit pid .executor
    exact ⟨fun noGit other member => shares.rows noGit other (fewer.subset member),
      fun noGit => fewer.length_le.trans (shares.alone noGit)⟩
  | closeRun runId status timestamp =>
    dsimp only [HqContext.step]
    split_ifs with live
    · exact shares
    · exact ⟨fun noGit other member => keepsRow_closeRun (shares.rows noGit other member)
        (mem_liveSessions.mp member).2.2 live status timestamp, shares.alone⟩
  | stage stage input =>
    exact runStage_invariant (fun _ _ _ _ _ launches shares => shares.launched launches) chrono input stage shares

/-! ### The counted sessions -/

/-- Every live session has its run row and every start found its slot free. -/
structure Accounted (hq : HqContext) : Prop where
  pids : (hq.sessions.map (·.pid)).Nodup
  rows : ∀ role, ∀ session ∈ hq.liveSessions role, HasRow hq.db session
  single : ∀ role, ((hq.liveSessions role).map (·.task)).Nodup
  tasks : (hq.tasks.map (·.1)).Nodup
  waiters : (hq.waiters.map (·.taskId)).Nodup
  positive : 1 ≤ hq.maxParallel
  starts : ∀ start ∈ hq.starts, start.live < start.maxParallel ∧ start.second = false

/-! ### A stage -/

variable (chrono : Chrono)

section

variable (inv : hq.Accounted)

include inv

theorem Accounted.launched (launches : hq.Launches role session) (recorded : session.recorded = true)
    (room : (hq.liveSessions role).length < hq.maxParallel)
    (free : hq.liveOn role task = false) : (hq.launched role name task session).Accounted where
  pids := List.nodup_cons.mpr ⟨launches.fresh, inv.pids⟩
  rows := by
    intro other session member
    rw [liveSessions_launched launches.alive] at member
    split_ifs at member with same
    · obtain rfl | old := mem_cons.mp member
      · exact hasRow_launched launches recorded
      · exact keepsRow_launched (inv.rows other session old) launches
    · exact keepsRow_launched (inv.rows other session member) launches
  single := by
    intro other
    rw [liveSessions_launched launches.alive]
    split_ifs with same
    · subst same
      refine nodup_cons.mpr ⟨fun member => ?_, inv.single role⟩
      obtain ⟨session, live, isTask⟩ := mem_map.mp member
      exact liveOn_eq_false.mp free session live isTask
    · exact inv.single other
  tasks := inv.tasks
  waiters := inv.waiters
  positive := inv.positive
  starts := forall_mem_cons.mpr ⟨⟨room, free⟩, inv.starts⟩

/-- The live executors have distinct tasks, and each of these is in the set that the slots are counted by. -/
theorem Accounted.liveExecutors_le (tasked : hq.ScopedExecutors) :
    (hq.liveSessions .executor).length ≤ hq.occupiedExecutorSlots := by
  refine le_trans ?_ (card_le_occupiedExecutorSlotsFromHandles _ 0 _)
  rw [← length_map (f := (·.task)), ← toFinset_card_of_nodup (inv.single .executor)]
  refine Finset.card_le_card fun task member => ?_
  obtain ⟨session, live, rfl⟩ := mem_map.mp (mem_toFinset.mp member)
  obtain ⟨-, isRole, alive⟩ := mem_liveSessions.mp live
  obtain ⟨run, runLive, runRole, -, runTask⟩ := mem_liveActiveRuns (inv.rows _ session live) alive
  have listed : session.task ∈ (hq.liveActiveRunTaskIdsForRole .executor).toFinset := by
    refine mem_toFinset.mpr (mem_map.mpr ⟨run, mem_filter.mpr ⟨runLive, ?_⟩, runTask⟩)
    simp [runRole, isRole]
  split_ifs
  · exact Finset.mem_erase.mpr ⟨tasked session live, listed⟩
  · exact listed

/-- The live supervisors have distinct pids, and each of these is the pid of a counted handle. -/
theorem Accounted.liveSupervisors_le (owns : hq.OwnsSupervisors) :
    (hq.liveSessions .supervisor).length ≤ hq.runningSupervisorCount := by
  have distinct : ((hq.liveSessions .supervisor).map (·.pid)).Nodup :=
    inv.pids.sublist (filter_sublist.map _)
  have counted : (hq.liveSessions .supervisor).map (·.pid) ⊆ (hq.headless.select (fun name handle =>
      hasRole name .supervisor && hq.processIsAlive handle.pid)).map (·.2.pid) := by
    intro pid member
    obtain ⟨session, live, rfl⟩ := mem_map.mp member
    obtain ⟨entry, isRow, named, samePid⟩ := owns session live
    refine mem_map.mpr ⟨entry, mem_filter.mpr ⟨isRow, ?_⟩, samePid⟩
    simpa [named, samePid, processIsAlive] using (mem_liveSessions.mp live).2.2
  simpa [runningSupervisorCount] using (subperm_of_subset distinct counted).length_le

theorem Accounted.spawnEach {entries : List (TaskId × AgentId)} (tracked : input.Tracked)
    (distinct : (entries.map (·.1)).Nodup) (free : ∀ entry ∈ entries, hq.liveOn role entry.1 = false)
    (room : 0 < entries.length → (hq.liveSessions role).length + entries.length ≤ hq.maxParallel) :
    (spawnEach role input hq entries).Accounted := by
  induction entries generalizing hq with
  | nil => exact inv
  | cons entry rest ih =>
    obtain ⟨task, name⟩ := entry
    obtain ⟨isFree, laterFree⟩ := forall_mem_cons.mp free
    obtain ⟨first, laterDistinct⟩ := nodup_cons.mp distinct
    replace room := room (Nat.succ_pos _)
    rw [length_cons] at room
    simp only [HqContext.spawnEach]
    obtain ⟨ok, same⟩ | ⟨session, started, launches, same⟩ :=
      hq.spawnHeadless_cases role name task (input.attempt task)
    · rw [same]
      cases ok with
      | true => exact ih inv laterDistinct laterFree fun _ => by omega
      | false => exact inv
    · have written := tracked.attempt task
      simp only [started, SpawnAttempt.tracked, Bool.and_eq_true] at written
      have next : (hq.launched role name task session).Accounted :=
        inv.launched launches written.1 (by omega) isFree
      rw [same, written.2, Bool.or_true]
      refine ih next laterDistinct (fun other member => ?_) fun _ => ?_
      · have differs : other.1 ≠ task := fun eq => first (mem_map.mpr ⟨other, member, eq⟩)
        exact (liveOn_launched launches role differs).trans (laterFree other member)
      · rw [liveSessions_launched launches.alive, if_pos rfl, length_cons]
        exact (Nat.add_right_comm _ _ _).trans_le room

/-- The loop over the answered waiters. `slots` bounds what the rest of the loop may start; a live session
for the task of a later waiter was alive before the loop and so is in `agents`. -/
theorem Accounted.resumeWaiters {agents : List AgentId} {slots : RunRole → Nat} {waiters : List AnsweredHumanWaiter}
    (tracked : input.Tracked)
    (distinct : (waiters.map (·.taskId)).Nodup)
    (known : ∀ waiter ∈ waiters, ∀ role ∈ ownerRole? waiter.awaitingHumanBy, hq.liveOn role waiter.taskId = true →
      waiter.awaitingHumanBy ∈ agents)
    (room : ∀ role, 0 < slots role → (hq.liveSessions role).length + slots role ≤ hq.maxParallel) :
    (resumeWaiters agents input hq slots waiters).Accounted := by
  induction waiters generalizing hq slots with
  | nil => exact inv
  | cons waiter rest ih =>
    obtain ⟨isKnown, laterKnown⟩ := forall_mem_cons.mp known
    obtain ⟨first, laterDistinct⟩ := nodup_cons.mp distinct
    have skip : (HqContext.resumeWaiters agents input hq slots rest).Accounted :=
      ih inv laterDistinct laterKnown room
    simp only [HqContext.resumeWaiters]
    split_ifs with busy
    · exact skip
    · split
      · exact skip
      · rename_i role isRole
        split_ifs with full
        · exact skip
        · obtain ⟨ok, same⟩ | ⟨session, started, launches, same⟩ := hq.spawnHeadless_cases role
            waiter.awaitingHumanBy waiter.taskId (input.attempt waiter.taskId)
          · rw [same]
            cases ok with
            | false => exact skip
            | true =>
              refine ih inv laterDistinct laterKnown fun other => ?_
              have before := room other
              by_cases isOther : other = role
              · subst isOther
                rw [Function.update_self]
                omega
              · rwa [Function.update_of_ne isOther]
          · have written := tracked.attempt waiter.taskId
            simp only [started, SpawnAttempt.tracked, Bool.and_eq_true] at written
            have free : hq.liveOn role waiter.taskId = false := by
              rw [← Bool.not_eq_true]
              intro live
              exact busy (by simp [isKnown role isRole live])
            have below := room role (Nat.pos_of_ne_zero full)
            have next : (hq.launched role waiter.awaitingHumanBy waiter.taskId session).Accounted :=
              inv.launched launches written.1 (by omega) free
            rw [same, written.2, Bool.or_true]
            refine ih next laterDistinct (fun other member otherRole isRole live => ?_) fun other => ?_
            · have differs : other.taskId ≠ waiter.taskId := fun eq => first (mem_map.mpr ⟨other, member, eq⟩)
              rw [liveOn_launched launches otherRole differs] at live
              exact laterKnown other member otherRole isRole live
            · have before := room other
              rw [liveSessions_launched launches.alive]
              by_cases isOther : role = other
              · subst isOther
                rw [if_pos rfl, Function.update_self, length_cons]
                change _ → _ ≤ hq.maxParallel
                omega
              · rw [if_neg isOther, Function.update_of_ne (Ne.symm isOther)]
                exact before

theorem free_of_unlistedForRole (unlisted : id ∉ hq.liveActiveRunTaskIdsForRole role) :
    hq.liveOn role id = false := by
  refine liveOn_eq_false.mpr fun session live isTask => unlisted ?_
  obtain ⟨-, isRole, alive⟩ := mem_liveSessions.mp live
  obtain ⟨run, runLive, runRole, -, runTask⟩ := mem_liveActiveRuns (inv.rows role session live) alive
  exact mem_map.mpr ⟨run, mem_filter.mpr ⟨runLive, by simp [runRole, isRole]⟩, runTask.trans isTask⟩

/-- The slots are counted so that no more sessions are alive than allowed. -/
theorem Accounted.room (owns : role = .supervisor → hq.OwnsSupervisors)
    (tasked : role = .executor → hq.ScopedExecutors) {chosen : Nat} (within : chosen ≤ hq.waiterSlots role) :
    0 < chosen → (hq.liveSessions role).length + chosen ≤ hq.maxParallel := by
  cases role with
  | supervisor =>
    have counted := inv.liveSupervisors_le (owns rfl)
    simp only [waiterSlots] at within
    omega
  | executor =>
    have counted := inv.liveExecutors_le (tasked rfl)
    have positive := inv.positive
    simp only [waiterSlots, executorParallelLimit] at within
    split_ifs at within <;> omega

theorem Accounted.runStage {stage : SchedulingStage} (tracked : input.Tracked)
    (owns : stage.startsRole .supervisor = true → hq.OwnsSupervisors)
    (tasked : stage.startsRole .executor = true → hq.ScopedExecutors)
    (named : stage = .answeredHuman → hq.NamesWaiters) : (hq.runStage chrono input stage).Accounted := by
  refine runStage_cases chrono stage inv ?_ ?_
  · rintro rfl
    refine inv.resumeWaiters tracked inv.waiters ?_ fun role =>
      inv.room (fun _ => owns rfl) (fun _ => tasked rfl) le_rfl
    intro waiter member role isRole live
    obtain ⟨session, isLive, isTask⟩ := any_eq_true.mp live
    have agent := named rfl waiter member role isRole session isLive (of_decide_eq_true isTask)
    obtain ⟨run, runLive, -, runAgent, -⟩ :=
      mem_liveActiveRuns (inv.rows role session isLive) (mem_liveSessions.mp isLive).2.2
    exact mem_map.mpr ⟨run, runLive, runAgent.trans agent⟩
  · intro role chosen agentId starts spawnable
    refine inv.spawnEach tracked ?_ ?_ ?_
    · rw [map_map]
      exact inv.tasks.sublist (spawnable.listed.map _)
    · intro entry member
      obtain ⟨task, isChosen, rfl⟩ := mem_map.mp member
      exact free_of_unlistedForRole inv (spawnable.unlisted task isChosen)
    · rw [length_map]
      refine inv.room ?_ ?_ spawnable.within
      · rintro rfl
        exact owns starts
      · rintro rfl
        exact tasked starts

theorem Accounted.step {event : HqEvent} (oversees : hq.Oversees event (hq.step chrono event)) :
    (hq.step chrono event).Accounted := by
  cases event with
  | writeTasks | pauseNano | resumeNano =>
    exact { inv with }
  | restart => exact ⟨inv.pids, inv.rows, inv.single, .nil, .nil, inv.positive, inv.starts⟩
  | exit pid =>
    have fewer := hq.liveSessions_exit pid
    exact ⟨inv.pids, fun role session member => inv.rows role session ((fewer role).subset member),
      fun role => (inv.single role).sublist ((fewer role).map _), inv.tasks, inv.waiters, inv.positive, inv.starts⟩
  | closeRun runId status timestamp =>
    dsimp only [HqContext.step]
    split_ifs with live
    · exact inv
    · exact { inv with
        rows := fun role session member => keepsRow_closeRun (inv.rows role session member)
          (mem_liveSessions.mp member).2.2 live status timestamp }
  | readTasks maxParallelTasks =>
    exact ⟨inv.pids, inv.rows, inv.single, listTasks_nodup hq.db, listAnsweredHumanWaiters_nodup hq.db,
      Nat.le_max_right _ _, inv.starts⟩
  | stage stage input =>
    obtain ⟨tracked, owns, tasked, named⟩ := oversees
    exact inv.runStage chrono tracked owns tasked named

end

/-! ### Every run -/

/-- The first HQ of a project. -/
def initial (git : Bool) (executor supervisor : String) : HqContext := { git, executor, supervisor }

/-- Without git there are never two live executors, whatever the HQ knows. -/
theorem one_executor_without_git (git : Bool) (executor supervisor : String) (events : List HqEvent) :
    (run (step chrono) (initial git executor supervisor) events).SharesWorkspace := by
  have start : (initial git executor supervisor).SharesWorkspace :=
    ⟨fun _ => forall_mem_nil _, fun _ => Nat.zero_le 1⟩
  exact run_invariant SharesWorkspace start (fun _ event shares => shares.step chrono event) events

theorem accounted_initial (git : Bool) (executor supervisor : String) :
    (initial git executor supervisor).Accounted where
  pids := .nil
  rows _ := forall_mem_nil _
  single _ := .nil
  tasks := .nil
  waiters := .nil
  positive := Nat.le_refl 1
  starts := forall_mem_nil _

/-- As long as each stage is run by an HQ that knows the live sessions, no pass starts a session beyond
`max_parallel_tasks` or a second one for a task, and executors without git stay alone. -/
theorem passes_stay_bounded (git : Bool) (executor supervisor : String) (events : List HqEvent)
    (overseen : EveryStep (step chrono) Oversees (initial git executor supervisor) events) :
    (run (step chrono) (initial git executor supervisor) events).Bounded where
  starts := (overseen.run_invariant Accounted (accounted_initial git executor supervisor)
    (fun _ _ inv oversees => inv.step chrono oversees)).starts
  shared := (one_executor_without_git chrono git executor supervisor events).alone

instance (hq : HqContext) (event : HqEvent) (target : HqContext) : Decidable (hq.Oversees event target) :=
  match event with
  | .stage _ input =>
      have : Decidable input.Tracked := inferInstanceAs (Decidable (∀ entry ∈ input.attempts, _))
      have : Decidable hq.OwnsSupervisors := inferInstanceAs (Decidable (∀ session ∈ hq.liveSessions _, _))
      have : Decidable hq.ScopedExecutors := inferInstanceAs (Decidable (∀ session ∈ hq.liveSessions _, _))
      have : Decidable hq.NamesWaiters := inferInstanceAs (Decidable (∀ waiter ∈ hq.waiters, _))
      inferInstanceAs (Decidable (_ ∧ _ ∧ _ ∧ _))
  | .writeTasks _ | .exit _ | .closeRun .. | .pauseNano _ | .resumeNano | .restart .. | .readTasks _ =>
      .isTrue trivial

/-- Two submitted tasks. -/
def submittedTasks : Table TaskId TaskRow :=
  (Table.empty.insertNew "t-001" { path := ".ferrus/tasks/t-001.md", status := .reviewing }).insertNew "t-002"
    { path := ".ferrus/tasks/t-002.md", status := .reviewing }

/-- A stage in which one task gets a session. -/
def startOne (task : TaskId) (runId : RunId) (pid : Nat) : StageInput where
  now := 0
  response _ := .ok none
  attempts := [(task, .started ⟨runId, pid, false, true, true, "/project", "2026-01-01T00:00:00Z"⟩)]

/-- The reviewer of the first task is gone when HQ is restarted. -/
def reviewedThenRestarted : List HqEvent :=
  [.writeTasks submittedTasks, .readTasks 1, .stage .reviewing (startOne "t-001" "run-1" 10), .exit 10,
    .restart "codex" "codex", .readTasks 1, .stage .reviewing (startOne "t-001" "run-2" 11)]

theorem passes_stay_bounded_reviewed :
    (run (step utcChrono) (initial true "codex" "codex") reviewedThenRestarted).starts.length = 2 ∧
      (run (step utcChrono) (initial true "codex" "codex") reviewedThenRestarted).Bounded :=
  ⟨by decide +kernel, passes_stay_bounded utcChrono true "codex" "codex" reviewedThenRestarted (by decide +kernel)⟩

/-- HQ is restarted while the reviewer of the first task is alive. The new HQ has no handle of it, counts no
supervisor and starts a second one where the limit is one. -/
def restartedUnderReview : List HqEvent :=
  [.writeTasks submittedTasks, .readTasks 1, .stage .reviewing (startOne "t-001" "run-1" 10),
    .restart "codex" "codex", .readTasks 1, .stage .reviewing (startOne "t-002" "run-2" 11)]

theorem not_bounded_restarted :
    ¬ (run (step utcChrono) (initial true "codex" "codex") restartedUnderReview).Bounded := by
  intro bounded
  have first : (run (step utcChrono) (initial true "codex" "codex") restartedUnderReview).starts.head? =
      some ⟨.supervisor, "t-002", 1, false, 1⟩ := by decide +kernel
  exact Nat.lt_irrefl 1 (bounded.starts _ (mem_of_mem_head? first)).1

end HqContext

end Ferrus.Hq

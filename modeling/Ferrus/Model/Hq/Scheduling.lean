import Ferrus.Model.Runtime.Runs
import Ferrus.Model.Tools.Consultations
import Mathlib.Data.Finset.Card
import Mathlib.Data.List.Sort

/-! # The scheduler of HQ

A scheduling pass reads the tasks and the answered waiters once and then runs five stages over them. Each
stage counts the occupied slots of its role, picks tasks and starts a session for each. HQ knows the
sessions it started itself by their handles and the sessions of an earlier HQ only by their run rows.

The sessions are the processes themselves. Whether the row of a start is written, whether the start fails
and which pid it gets are inputs of the stage. A pid stands for one process.
-/

namespace Ferrus.Hq

open Ferrus.Runtime

def roleName : RunRole → String
  | .executor => "executor"
  | .supervisor => "supervisor"

/-- `name.starts_with(role)`. -/
def hasRole (name : String) (role : RunRole) : Bool := (roleName role).toList.isPrefixOf name.toList

/-- The role of a waiter by its name; an executor is tried first. -/
def ownerRole? (owner : String) : Option RunRole :=
  if hasRole owner .executor then some .executor
  else if hasRole owner .supervisor then some .supervisor
  else none

structure HeadlessHandle where
  pid : Nat
  nativeControl : Bool
  taskId : Option TaskId
deriving DecidableEq, Repr

structure AnsweredHumanWaiter where
  taskId : TaskId
  awaitingHumanBy : AgentId
deriving DecidableEq, Repr

/-- A process that a pass has started. -/
structure Session where
  role : RunRole
  agent : AgentId
  task : TaskId
  pid : Nat
deriving DecidableEq, Repr

/-- What was alive when a pass started a session. -/
structure SessionStart where
  role : RunRole
  task : TaskId
  live : Nat
  second : Bool
  maxParallel : Nat
deriving DecidableEq, Repr

/-- HQ with the project around it. `tasks`, `waiters` and `maxParallel` are what the current pass has read.
`starts` is the history of the starts; no stage reads it. -/
structure HqContext where
  git : Bool
  (executor supervisor : String)
  db : Database := .empty
  sessions : List Session := []
  exited : List Nat := []
  headless : Table String HeadlessHandle := .empty
  nanoPausedTasks : List TaskId := []
  tasks : List (TaskId × TaskRow) := []
  waiters : List AnsweredHumanWaiter := []
  maxParallel : Nat := 1
  starts : List SessionStart := []

/-- A session as it was started: `recorded` if its run row was written, `counted` if its dispatch was. -/
structure SpawnedSession where
  runId : RunId
  pid : Nat
  (native recorded counted : Bool)
  (workspacePath timestamp : String)
deriving DecidableEq, Repr

inductive SpawnAttempt where
  | failed
  /-- The task has used up its executor dispatches. -/
  | limitReached
  | started (session : SpawnedSession)
deriving DecidableEq, Repr

/-- What a stage meets: the time, the response files and how each spawn goes. -/
structure StageInput where
  now : Instant
  response : TaskId → Except String (Option String)
  attempts : List (TaskId × SpawnAttempt)

def StageInput.attempt (input : StageInput) (task : TaskId) : SpawnAttempt :=
  (input.attempts.find? (·.1 = task)).elim .failed (·.2)

def listTasks (db : Database) : List (TaskId × TaskRow) :=
  db.tasks.select (fun id _ => id = currentTaskId) ++ db.tasks.select fun id _ => id ≠ currentTaskId

/-- `ORDER BY CASE WHEN human_question_order IS NULL THEN 0 ELSE 1 END, human_question_order, id`. -/
def questionBefore (first second : TaskId × TaskRow) : Prop :=
  toLex (first.2.humanQuestionOrder.isSome, toLex (first.2.humanQuestionOrder.getD 0, first.1)) ≤
    toLex (second.2.humanQuestionOrder.isSome, toLex (second.2.humanQuestionOrder.getD 0, second.1))

instance : DecidableRel questionBefore :=
  fun first second => inferInstanceAs (Decidable (toLex (first.2.humanQuestionOrder.isSome, _) ≤
    toLex (second.2.humanQuestionOrder.isSome, _)))

def listAnsweredHumanWaiters (db : Database) : List AnsweredHumanWaiter :=
  ((db.tasks.select (fun _ row => row.status = .awaitingHuman && row.humanAnswerRecorded &&
      row.awaitingHumanBy.isSome)).insertionSort questionBefore).map
    (fun (id, row) => ⟨id, row.awaitingHumanBy.getD ""⟩)

def consultationResponseIsReady (input : StageInput) (task : TaskId) : Except String Bool :=
  (input.response task).map fun response => response.any fun text => !Text.isBlank text

def executorParallelLimit (git : Bool) (configured : Nat) : Nat :=
  let configured := max configured 1
  if configured = 1 then 1 else if git then configured else 1

/-- The task of an executor's name: `splitn(3, ':')` leaves the colons of the third part. -/
def taskIdFromScopedAgentName (name : String) : Option TaskId :=
  match name.splitOn ":" with
  | role :: _ :: first :: rest =>
      let task := ":".intercalate (first :: rest)
      if role = roleName .executor && "t-".toList.isPrefixOf task.toList then some task else none
  | _ => none

def occupiedExecutorSlotsFromHandles (liveDbTaskIds : Finset TaskId) (unscopedLiveHandles : Nat) :
    List String → Nat
  | [] => liveDbTaskIds.card + unscopedLiveHandles
  | name :: names =>
      match taskIdFromScopedAgentName name with
      | some task => occupiedExecutorSlotsFromHandles (insert task liveDbTaskIds) unscopedLiveHandles names
      | none => occupiedExecutorSlotsFromHandles liveDbTaskIds (unscopedLiveHandles + 1) names

def taskClaimBlocksSpawn (chrono : Chrono) (now : Instant) (id : TaskId) (row : TaskRow)
    (expectedAgentId : AgentId) (liveRunTaskIds : List TaskId) : Bool :=
  id ∈ liveRunTaskIds ||
    row.claimedBy.any fun claimedBy => claimedBy ≠ expectedAgentId && chrono.leaseActive now row.leaseUntil

/-- The loop that checks one task after the other, stops when `slots` tasks are found and gives up when a
check fails. -/
def takeChecked {α : Type} (check : α → Except String Bool) : Nat → List α → Except String (List α)
  | 0, _ => .ok []
  | _ + 1, [] => .ok []
  | slots + 1, entry :: rest =>
      match check entry with
      | .error message => .error message
      | .ok true => (takeChecked check slots rest).map (entry :: ·)
      | .ok false => takeChecked check (slots + 1) rest

namespace HqContext

variable (chrono : Chrono) (hq : HqContext)

def processIsAlive (pid : Nat) : Bool := pid ∉ hq.exited

variable (role : RunRole)

/-- The sessions of a role whose process is alive. -/
def liveSessions : List Session :=
  hq.sessions.filter fun session => session.role = role && hq.processIsAlive session.pid

def liveOn (task : TaskId) : Bool := (hq.liveSessions role).any (·.task = task)

/-- The active run rows with a live process. -/
def liveActiveRuns : List RunRow :=
  (hq.db.runs.select (fun _ run => run.status.isActive && run.pid.any hq.processIsAlive)).map (·.2)

def liveActiveRunTaskIds : List TaskId := hq.liveActiveRuns.map (·.taskId)

def liveActiveRunTaskIdsForRole : List TaskId :=
  (hq.liveActiveRuns.filter (·.role = role)).map (·.taskId)

def liveActiveRunAgents : List AgentId := hq.liveActiveRuns.map (·.agent)

def handleIsAlive (name : String) : Bool := (hq.headless.get? name).any fun handle => hq.processIsAlive handle.pid

def executorAgentIdForTask (task : TaskId) : AgentId := s!"executor:{hq.executor}:{task}"

def supervisorAgentIdForTask (task : TaskId) : AgentId := s!"supervisor:{hq.supervisor}:{task}"

/-- Only the handles of this HQ are counted. -/
def runningSupervisorCount : Nat :=
  (hq.headless.select (fun name handle => hasRole name .supervisor && hq.processIsAlive handle.pid)).length

def occupiedExecutorSlots : Nat :=
  let liveDbTaskIds := (hq.liveActiveRunTaskIdsForRole .executor).toFinset
  let localTasklessExecutor := hq.headless.rows.any fun (name, handle) => hasRole name .executor &&
    hq.processIsAlive handle.pid && handle.nativeControl && handle.taskId.isNone
  let managedWorkspacesIsolated :=
    (localTasklessExecutor || decide (currentTaskId ∈ liveDbTaskIds)) && hq.git
  let liveDbTaskIds :=
    if managedWorkspacesIsolated || localTasklessExecutor then liveDbTaskIds.erase currentTaskId
    else liveDbTaskIds
  occupiedExecutorSlotsFromHandles liveDbTaskIds 0
    ((hq.headless.select (fun name handle => hasRole name .executor && hq.processIsAlive handle.pid &&
      !(managedWorkspacesIsolated && handle.nativeControl && handle.taskId.isNone))).map (·.1))

/-- The project after a session has started. -/
def launched (name : String) (task : TaskId) (session : SpawnedSession) : HqContext :=
  { hq with
    db := if session.recorded then
        (hq.db.ensureTaskExists task (defaultTaskPathForId task)).insertStartedRun session.runId role name
          session.pid task session.workspacePath session.timestamp
      else hq.db
    sessions := ⟨role, name, task, session.pid⟩ :: hq.sessions
    headless := hq.headless.put name ⟨session.pid, session.native, some task⟩
    starts :=
      ⟨role, task, (hq.liveSessions role).length, hq.liveOn role task, hq.maxParallel⟩ :: hq.starts }

/-- Start a process for a session. Without git the executors share the workspace, so they reserve it first.
The result says whether the caller sees a success: an executor's dispatch is counted after its start. -/
def launch (name : String) (task : TaskId) (session : SpawnedSession) : HqContext × Bool :=
  let reserved := role = .executor && !hq.git
  if reserved && hq.db.executorOccupied hq.processIsAlive true then (hq, false)
  else if (hq.db.run? session.runId).isSome || session.pid ∈ hq.exited ||
      session.pid ∈ hq.sessions.map (·.pid) then (hq, false)
  else if (session.native || reserved) && !session.recorded then (hq, false)
  else (hq.launched role name task session, role = .supervisor || session.counted)

/-- A session that is already running under the name counts as a success. -/
def spawnHeadless (name : String) (task : TaskId) (attempt : SpawnAttempt) : HqContext × Bool :=
  if hq.handleIsAlive name then (hq, true)
  else
    match attempt with
    | .failed => (hq, false)
    | .limitReached => (hq, role = .executor)
    | .started session => hq.launch role name task session

/-- Start the sessions one by one up to the first error. -/
def spawnEach (role : RunRole) (input : StageInput) : HqContext → List (TaskId × AgentId) → HqContext
  | hq, [] => hq
  | hq, (task, name) :: rest =>
      match hq.spawnHeadless role name task (input.attempt task) with
      | (hq, true) => spawnEach role input hq rest
      | (hq, false) => hq

variable (input : StageInput)

def scheduleReviewingTasks : HqContext :=
  let slots := hq.maxParallel - hq.runningSupervisorCount
  let liveRunTaskIds := hq.liveActiveRunTaskIds
  let reviewable : TaskId × TaskRow → Except String Bool := fun (id, row) =>
    if row.status ≠ .reviewing ||
        taskClaimBlocksSpawn chrono input.now id row (hq.supervisorAgentIdForTask id) liveRunTaskIds then
      .ok false
    else if hq.supervisor = "nano" then
      match hq.db.task? id with
      | none => .ok false
      | some stored => (repositoryViewReferenceFromDatabase stored.view).map fun view =>
          view.lifecycle = .frozenSubmitted && view.frozenSourceTree.isSome
    else .ok true
  match takeChecked reviewable slots hq.tasks with
  | .error _ => hq
  | .ok tasks =>
      spawnEach .supervisor input hq (tasks.map fun task => (task.1, hq.supervisorAgentIdForTask task.1))

def scheduleConsultationTasks : HqContext :=
  let slots := hq.maxParallel - hq.runningSupervisorCount
  let liveSupervisorTaskIds := hq.liveActiveRunTaskIdsForRole .supervisor
  let actionable : TaskId × TaskRow → Except String Bool := fun (id, row) =>
    if row.status ≠ .consultation || id ∈ liveSupervisorTaskIds then .ok false
    else (consultationResponseIsReady input id).map (!·)
  match takeChecked actionable slots hq.tasks with
  | .error _ => hq
  | .ok tasks =>
      spawnEach .supervisor input hq (tasks.map fun task => (task.1, hq.supervisorAgentIdForTask task.1))

def scheduleAnsweredConsultationTasks : HqContext :=
  let slots := executorParallelLimit hq.git hq.maxParallel - hq.occupiedExecutorSlots
  let liveRunTaskIds := hq.liveActiveRunTaskIds
  let answered : TaskId × TaskRow → Except String Bool := fun (id, row) =>
    if row.status ≠ .consultation then .ok false else consultationResponseIsReady input id
  if slots = 0 then hq
  else
    -- every response is read before the slots count
    match takeChecked answered hq.tasks.length hq.tasks with
    | .error _ => hq
    | .ok tasks =>
        let spawnTasks := (tasks.filter (fun (id, row) =>
          id ∉ hq.nanoPausedTasks &&
          !taskClaimBlocksSpawn chrono input.now id row (hq.executorAgentIdForTask id) liveRunTaskIds &&
          !hq.handleIsAlive (hq.executorAgentIdForTask id))).take slots
        spawnEach .executor input hq (spawnTasks.map fun task => (task.1, hq.executorAgentIdForTask task.1))

/-- The loop of `schedule_answered_human_tasks`. A failed relaunch keeps its slot. -/
def resumeWaiters (liveRunAgents : List AgentId) (input : StageInput) :
    HqContext → (RunRole → Nat) → List AnsweredHumanWaiter → HqContext
  | hq, _, [] => hq
  | hq, slots, waiter :: rest =>
      if (hasRole waiter.awaitingHumanBy .executor && waiter.taskId ∈ hq.nanoPausedTasks) ||
          hq.handleIsAlive waiter.awaitingHumanBy || waiter.awaitingHumanBy ∈ liveRunAgents then
        resumeWaiters liveRunAgents input hq slots rest
      else
        match ownerRole? waiter.awaitingHumanBy with
        | none => resumeWaiters liveRunAgents input hq slots rest
        | some role =>
            if slots role = 0 then resumeWaiters liveRunAgents input hq slots rest
            else
              match hq.spawnHeadless role waiter.awaitingHumanBy waiter.taskId (input.attempt waiter.taskId) with
              | (hq, true) =>
                  resumeWaiters liveRunAgents input hq (Function.update slots role (slots role - 1)) rest
              | (hq, false) => resumeWaiters liveRunAgents input hq slots rest

/-- The slots that the answered waiters may use. -/
def waiterSlots : RunRole → Nat
  | .executor => executorParallelLimit hq.git hq.maxParallel - hq.occupiedExecutorSlots
  | .supervisor => hq.maxParallel - hq.runningSupervisorCount

def scheduleAnsweredHumanTasks : HqContext :=
  resumeWaiters hq.liveActiveRunAgents input hq hq.waiterSlots hq.waiters

def scheduleQueuedTasksFrom : HqContext :=
  let liveRunTaskIds := hq.liveActiveRunTaskIds
  let readyTasks := hq.tasks.filter fun (id, row) =>
    row.status.isExecutorReady && id ∉ hq.nanoPausedTasks &&
    !taskClaimBlocksSpawn chrono input.now id row (hq.executorAgentIdForTask id) liveRunTaskIds
  let slots := executorParallelLimit hq.git hq.maxParallel - hq.occupiedExecutorSlots
  let spawnTasks :=
    (readyTasks.filter (fun task => !hq.handleIsAlive (hq.executorAgentIdForTask task.1))).take slots
  spawnEach .executor input hq (spawnTasks.map fun task => (task.1, hq.executorAgentIdForTask task.1))

end HqContext

/-- The stages of a pass. -/
inductive SchedulingStage where
  | answeredHuman | consultation | answeredConsultation | reviewing | queued
deriving DecidableEq, Repr

/-- The events of a project. A pass is a `readTasks` and then its stages. -/
inductive HqEvent where
  /-- Other processes change the task rows. -/
  | writeTasks (tasks : Table TaskId TaskRow)
  | exit (pid : Nat)
  /-- A monitor or the recovery closes the row of a dead process. -/
  | closeRun (runId : RunId) (status : RunStatus) (timestamp : String)
  | pauseNano (task : TaskId)
  | resumeNano
  /-- A new HQ, maybe with other agents, which has no handle of the earlier one. -/
  | restart (executor supervisor : String)
  | readTasks (maxParallelTasks : Nat)
  | stage (stage : SchedulingStage) (input : StageInput)

namespace HqContext

variable (chrono : Chrono)

def runStage (hq : HqContext) (input : StageInput) : SchedulingStage → HqContext
  | .answeredHuman => hq.scheduleAnsweredHumanTasks input
  | .consultation => hq.scheduleConsultationTasks input
  | .answeredConsultation => hq.scheduleAnsweredConsultationTasks chrono input
  | .reviewing => hq.scheduleReviewingTasks chrono input
  | .queued => hq.scheduleQueuedTasksFrom chrono input

def step (hq : HqContext) : HqEvent → HqContext
  | .writeTasks tasks => { hq with db := { hq.db with tasks } }
  | .exit pid => { hq with exited := pid :: hq.exited }
  | .closeRun runId status timestamp =>
      if (hq.db.run? runId).any (fun run => run.pid.any hq.processIsAlive) then hq
      else { hq with db := hq.db.closeRun runId status timestamp }
  | .pauseNano task => { hq with nanoPausedTasks := task :: hq.nanoPausedTasks }
  | .resumeNano => { hq with nanoPausedTasks := [] }
  | .restart executor supervisor =>
      { hq with executor, supervisor, headless := .empty, nanoPausedTasks := [], tasks := [], waiters := [] }
  | .readTasks maxParallelTasks =>
      { hq with
        tasks := listTasks hq.db
        waiters := listAnsweredHumanWaiters hq.db
        maxParallel := max maxParallelTasks 1 }
  | .stage stage input => hq.runStage chrono input stage

end HqContext

end Ferrus.Hq

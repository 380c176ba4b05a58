import Ferrus.Model.Runtime.ViewEvents
import Ferrus.Model.Runtime.TaskTransitions

/-! # A native reviewer session

The session binds to its run, makes its inspection source from the tree that the run's view is frozen on,
takes the review lease, and then decides. Each of these steps is a transaction or a filesystem operation of
its own. An approval is authorized, checked under the approval lock, merged, and only then committed.

Other processes change the database in between. They work under runs and agent names of their own: nobody
else attaches the run of the session, submits for it or starts it again. Every frozen view has a baseline,
since `frozen` makes it.
-/

namespace Ferrus.Tools

open Ferrus.Runtime

/-- The tree that the stored view of a row is frozen on. -/
def frozenTree? (row : TaskRow) : Option Digest :=
  match repositoryViewReferenceFromDatabase row.view with
  | .ok view => if view.lifecycle = .frozenSubmitted then view.frozenSourceTree else none
  | .error _ => none

/-- The views that the code can make. -/
def madeView (view : RepositoryViewReference) : Bool :=
  view.lifecycle = .mutable || view.baselineSnapshotId.isSome

/-- An event of another process. -/
def foreign (scope : ExecutorSessionScope) (db : Database) : ViewEvent → Bool
  | .record .tasks _ view => madeView view
  | .record .runs id view => id ≠ scope.runId && madeView view
  | .compareAndRecord _ _ view => madeView view
  | .task ⟨_, .submit _ runId view _⟩ => runId ≠ some scope.runId && view.all madeView
  | .startRun runId .. => runId ≠ scope.runId || (db.run? runId).isNone
  | .chooseRun _ agent _ | .attachNextConsultation agent _ | .attachConsultation _ agent _ =>
      agent ≠ scope.agentId
  | _ => true

section Transactions

variable (chrono : Chrono) (canonicalize : String → Except String String) (db : Database)

/-- The row of the bound task and the view the session works with: in review, that of its run. -/
def supervisorContextInTransaction (scope : ExecutorSessionScope) :
    Except String (TaskRow × RepositoryViewReference) := do
  let row ← db.executorContextInTransaction canonicalize scope .supervisor
  let columns :=
    if row.status = .reviewing || row.status = .awaitingHuman then
      ((db.run? scope.runId).map (·.view)).getD row.view
    else row.view
  let view ← repositoryViewReferenceFromDatabase columns
  return (row, view)

variable (row : TaskRow)

def requireExecutorOwner (scope : ExecutorSessionScope) (now : Instant) : Except String Unit := do
  ensure (row.claimedBy = some scope.agentId) "Executor lease lost"
  ensure (chrono.leaseActive now row.leaseUntil) "Executor lease expired"

def requireSupervisorReview (view : RepositoryViewReference) (scope : ExecutorSessionScope)
    (expectedTree : Option Digest) (now : Instant) : Except String Unit := do
  requireExecutorOwner chrono row scope now
  ensure (row.status = .reviewing && expectedTree.isSome && view.frozenSourceTree = expectedTree)
    "Native review binding changed before decision"
  ensure (row.view.treeDigest = expectedTree.map (·.value)) "Review submission changed before decision"

section

variable (scope : ExecutorSessionScope)

/-- Another supervisor run is attached to the task. -/
def competing : Bool :=
  db.supervised scope.taskId (some scope.runId)

/-- A question of the session itself that pauses the review. -/
def ownQuestion : Bool :=
  row.awaitingHumanBy = some scope.agentId && row.awaitingHumanStatus = some .reviewing

def startSupervisorSession (ttl : Nat) (now renewNow : Instant) : Except String Database := do
  let (row, _) ← supervisorContextInTransaction canonicalize db scope
  ensure (!competing db scope) "Another Supervisor run is attached to this task"
  if row.status = .awaitingHuman then
    ensure (ownQuestion row scope) "Human waiter binding mismatch"
  else ensure (row.status = .reviewing) "Supervisor task phase mismatch"
  let (db, claim) ← db.claimReadyTaskInTransaction chrono scope.taskId scope.agentId ttl
    [.reviewing, .awaitingHuman] false now
  match claim with
  | .noAvailable => .error "Reviewer lease unavailable"
  | .claimed _ => .ok db
  | .alreadyClaimed _ => do
      let (db, renewed) ← db.renewTaskLeaseInTransaction chrono scope.taskId ttl
        ((db.task? scope.taskId).bind (·.leaseUntil)) renewNow
      ensure renewed.isSome "Inherited Reviewer lease expired"
      return db

/-- The reviewer's `authorize`. -/
def authorize (now : Instant) : Except String (TaskRow × RepositoryViewReference) := do
  let (row, view) ← supervisorContextInTransaction canonicalize db scope
  ensure (!competing db scope) "Another Supervisor run owns this task attachment"
  if row.status = .awaitingHuman then
    ensure (ownQuestion row scope) "Question binding mismatch"
  else ensure (row.status = .reviewing) "Supervisor phase ended"
  requireExecutorOwner chrono row scope now
  ensure (row.view.treeDigest = view.frozenSourceTree.map (·.value)) "Review submission changed"
  return (row, view)

def renewSupervisorSession (ttl : Nat) (now renewNow : Instant) : Except String (Database × Bool) := do
  let (row, _) ← supervisorContextInTransaction canonicalize db scope
  if row.status ≠ .reviewing && row.status ≠ .awaitingHuman then return (db, false)
  requireExecutorOwner chrono row scope now
  let (db, renewed) ← db.renewTaskLeaseInTransaction chrono scope.taskId ttl row.leaseUntil renewNow
  return (db, renewed.isSome)

end

end Transactions

/-- Where the session stands, with the tree that its inspection source is made from. -/
inductive ReviewPhase where
  | launched
  | bound (source : Digest)
  | materialized (source : Digest)
  | started (source : Digest)
  | ready (source : Digest)
  /-- The context that an approval or a rejection was authorized with. -/
  | approving (source : Digest) (view : RepositoryViewReference)
  | integrating (source : Digest) (view : RepositoryViewReference)
  | merged (source : Digest) (view : RepositoryViewReference) (tree : Option Digest)
  | rejecting (source : Digest) (view : RepositoryViewReference)
  | ended
deriving DecidableEq, Repr

/-- A committed decision and the state of the task right before it. -/
structure ReviewDecision where
  approval : Bool
  source : Digest
  (decided merged : Option Digest)
  status : TaskStatus
  leaseLive : Bool
  submitted : Option Digest
deriving DecidableEq, Repr

structure NativeReview where
  views : ViewState
  phase : ReviewPhase
  decisions : List ReviewDecision := []

inductive ReviewAction where
  | bind
  | materialize
  | start (ttl : Nat) (now renewNow : Instant)
  | authorize (now : Instant)
  | renew (ttl : Nat) (now renewNow : Instant)
  | approve (now : Instant)
  | check (now : Instant)
  /-- `patch` is the tree that `PATCH.diff` gives for a view that is not frozen, if the file is not blank. -/
  | integrate (patch : Option Digest)
  | complete (now : Instant)
  | reject (now : Instant)
  | commitRejection (maxCycles : Nat) (now : Instant)
  /-- An operation fails and the session goes on. -/
  | abort
  | stop
deriving DecidableEq, Repr

def ReviewPhase.source? : ReviewPhase → Option Digest
  | .launched | .ended => none
  | .bound source | .materialized source | .started source | .ready source | .approving source _
  | .integrating source _ | .merged source .. | .rejecting source _ => some source

/-- The tree that an approval merges. -/
def submissionTree (view : RepositoryViewReference) (patch : Digest) : Digest :=
  match view.frozenSourceTree with
  | some tree => if view.lifecycle = .frozenSubmitted then tree else patch
  | none => patch

namespace NativeReview

variable (chrono : Chrono) (canonicalize : String → Except String String) (scope : ExecutorSessionScope)
  (state : NativeReview)

/-- The decision that a transaction commits over the row. -/
def decision (approval : Bool) (source : Digest) (view : RepositoryViewReference) (merged : Option Digest)
    (row : TaskRow) (now : Instant) : ReviewDecision where
  approval
  source
  decided := view.frozenSourceTree
  merged
  status := row.status
  leaseLive := row.claimedBy = some scope.agentId && chrono.leaseActive now row.leaseUntil
  submitted := frozenTree? row

/-- A decision over the review that is still the expected one. -/
def commit (op : TaskOp) (source : Digest) (decided : TaskRow → ReviewDecision) (expected : Option Digest)
    (now : Instant) : Except String NativeReview := do
  let (row, current) ← supervisorContextInTransaction canonicalize state.views.db scope
  requireSupervisorReview chrono row current scope expected now
  return {
    views := viewStep chrono state.views (.task ⟨scope.taskId, op⟩)
    phase := .ready source
    decisions := decided row :: state.decisions }

def withDb (db : Database) (phase : ReviewPhase) : NativeReview :=
  { state with views := { state.views with db }, phase }

/-- One step of the session; an error ends the operation and changes nothing in the database. -/
def act (action : ReviewAction) : Except String NativeReview :=
  let db := state.views.db
  match state.phase, action with
  | .launched, .bind => do
      let (row, view) ← supervisorContextInTransaction canonicalize db scope
      let status := if row.status = .awaitingHuman then row.awaitingHumanStatus else some row.status
      ensure (status = some .reviewing) "No review or consultation for this run"
      ensure (view.lifecycle = .frozenSubmitted) "Reviewer submitted view is missing"
      let tree ← required view.frozenSourceTree "Reviewer submitted tree is missing"
      return { state with phase := .bound tree }
  | .bound source, .materialize => .ok { state with phase := .materialized source }
  | .materialized source, .start ttl now renewNow => do
      let db ← startSupervisorSession chrono canonicalize db scope ttl now renewNow
      return state.withDb db (.started source)
  | .started source, .authorize now => do
      let _ ← authorize chrono canonicalize db scope now
      return { state with phase := .ready source }
  | .ready source, .renew ttl now renewNow => do
      let (db, _) ← renewSupervisorSession chrono canonicalize db scope ttl now renewNow
      return state.withDb db (.ready source)
  | .ready source, .approve now => do
      let (row, view) ← authorize chrono canonicalize db scope now
      ensure (row.status ≠ .awaitingHuman) "Human answer must be delivered before other operations"
      return { state with phase := .approving source view }
  | .approving source view, .check now => do
      let (row, current) ← supervisorContextInTransaction canonicalize db scope
      requireSupervisorReview chrono row current scope view.frozenSourceTree now
      return { state with phase := .integrating source view }
  | .integrating source view, .integrate patch =>
      .ok { state with phase := .merged source view (patch.map (submissionTree view)) }
  | .merged source view tree, .complete now =>
      state.commit chrono canonicalize scope (.recordStatus (taskPath db) .complete none none) source
        (fun row => decision chrono scope true source view tree row now) view.frozenSourceTree now
  | .ready source, .reject now => do
      let (row, view) ← authorize chrono canonicalize db scope now
      ensure (row.status ≠ .awaitingHuman) "Human answer must be delivered before other operations"
      return { state with phase := .rejecting source view }
  | .rejecting source view, .commitRejection maxCycles now =>
      state.commit chrono canonicalize scope (.reject maxCycles) source
        (fun row => decision chrono scope false source view none row now) view.frozenSourceTree now
  | .approving source _, .abort | .integrating source _, .abort | .merged source .., .abort
  | .rejecting source _, .abort => .ok { state with phase := .ready source }
  | _, .stop => .ok { state with phase := .ended }
  | _, _ => .error "not a step of the session"
where
  taskPath (db : Database) : String := ((db.task? scope.taskId).map (·.path)).getD ""

end NativeReview

/-- A step of the session or of another process. -/
inductive ReviewEvent where
  | session (action : ReviewAction)
  | other (event : ViewEvent)

def NativeReview.step (chrono : Chrono) (canonicalize : String → Except String String)
    (scope : ExecutorSessionScope) (state : NativeReview) : ReviewEvent → NativeReview
  | .session action => (state.act chrono canonicalize scope action).toOption.getD state
  | .other event =>
      if foreign scope state.views.db event then { state with views := viewStep chrono state.views event }
      else state

/-- The session is launched over the empty database. -/
def NativeReview.initial : NativeReview := { views := .start, phase := .launched }

end Ferrus.Tools

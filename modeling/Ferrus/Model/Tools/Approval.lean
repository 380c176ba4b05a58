import Ferrus.Model.Runtime.Database
import Ferrus.Model.Tools.SpecMilestones

/-! # Integrating an approved task

An approval merges the submitted tree into the canonical working tree, runs the configured checks there, marks
the milestone in the specification, and records the task as complete. A native session does the last two in one
transaction with a backup of the specification; the tool does them one after the other. When a step fails, the
working tree and the index go back to a snapshot, if there is one.

What Git says of a working tree and which steps fail are inputs. A failing step may leave its work half done.
-/

namespace Ferrus.Tools

open Ferrus.Runtime Ferrus.Specs Ferrus.Text

/-- Files at their paths: a working tree or a Git tree. -/
abbrev FileTree := Table String String

/-- The canonical workspace, its index file, and the status of the task. Paths are relative to the project
root, or absolute outside of it. -/
structure CanonicalWorkspace where
  files : FileTree
  index : Option String
  status : TaskStatus

inductive ApprovalStep where
  | readPatch | submissionTrees | captureSnapshot | mergeTrees | validate | materialize | writeDiagnostics
  | loadConfig | startChecks | runChecks | restoreIndex
  | openSession | requireReview | readBackup | commit | writeBackup
  | readSpec | writeSpec | upsertTask | clearLease | insertEvent
  | captureRollback | excludeIgnored | materializeRollback | restoreRollbackIndex
deriving DecidableEq, Repr

/-- What Git and the check commands do, and what fails. -/
structure ApprovalWorld where
  /-- The paths that `git add -A` stores, except those below `.ferrus`. -/
  captured : FileTree → String → Bool
  /-- `git ls-files --others --ignored --exclude-standard`, and the same with `--directory`. -/
  (ignored ignoredEntries : FileTree → List String)
  /-- The submission merged into a tree; `none` is a conflict. -/
  merged : FileTree → Option FileTree
  /-- What the checks make of the files and the index. -/
  checks : FileTree → Option String → FileTree × Option String
  fails : ApprovalStep → Bool
  /-- The text of a failure. -/
  detail : ApprovalStep → String
  /-- The paths that a failing `read-tree -u` has updated. -/
  reached : String → Bool
  /-- What a failing write leaves in the file, and whether a failing restore has removed the index. -/
  torn : String
  indexLost : Bool

structure ApprovedTask where
  taskId : TaskId
  (runDir projectRoot patch : String)
  /-- The path of the specification and the id of the milestone. -/
  milestone : Option (String × String)
  native : Bool

inductive ApprovalError where
  | failed (message : String)
  /-- `ApprovalEffectUnknown`. -/
  | effectUnknown (error rollback : String)
deriving DecidableEq, Repr

def ApprovalError.text : ApprovalError → String
  | .failed message => message
  | .effectUnknown error rollback =>
      s!"{error}\n\nApproval rollback failed; manual reconciliation is required: {rollback}"

structure ApprovalRun where
  workspace : CanonicalWorkspace
  error : Option ApprovalError

/-- An error that leaves the workspace to its caller as it is. -/
def ApprovalRun.stop (workspace : CanonicalWorkspace) (message : String) : ApprovalRun :=
  { workspace, error := some (.failed message) }

/-! ### Trees -/

/-- `materialize_tree` over the paths that it reaches: the files of the current tree give way to those of the
target, and other files stay. -/
def materializeTree (reached : String → Bool) (current target files : FileTree) : FileTree :=
  let gone := fun path (_ : String) => reached path && (current.get? path).isSome && (target.get? path).isNone
  (target.rows.filter (reached ·.1)).foldl (fun files row => files.put row.1 row.2) (files.deleteWhere gone)

def pathIsParent (parent child : String) : Bool := (parent.toList ++ ['/']).isPrefixOf child.toList

def pathsOverlap (left right : String) : Bool := left = right || pathIsParent left right || pathIsParent right left

/-- `reject_ignored_path_collisions`: a new path overlaps with ignored content. -/
def collides (entries : List String) (current target : FileTree) : Bool :=
  let additions := target.select fun path _ => (current.get? path).isNone
  entries.any fun entry =>
    let entry := if entry.toList.getLast? = some '/' then String.ofList entry.toList.dropLast else entry
    additions.any fun addition => pathsOverlap entry addition.1

structure CanonicalWorkspaceSnapshot where
  tree : FileTree
  index : Option String
  ignoredPaths : List String

namespace ApprovalWorld

variable (world : ApprovalWorld)

def captureTree (files : FileTree) : FileTree := files.deleteWhere fun path _ => !world.captured files path

variable (workspace : CanonicalWorkspace)

def captureSnapshot : CanonicalWorkspaceSnapshot where
  tree := world.captureTree workspace.files
  index := workspace.index
  ignoredPaths := world.ignored workspace.files

/-- The index after a restore. -/
def restoredIndex (step : ApprovalStep) (contents current : Option String) : Option String :=
  if world.fails step then if world.indexLost then none else current else contents

/-- `CanonicalWorkspaceSnapshot::restore`, with its error. -/
def restore (snapshot : CanonicalWorkspaceSnapshot) (workspace : CanonicalWorkspace) :
    CanonicalWorkspace × Option String :=
  if world.fails .captureRollback then (workspace, some (world.detail .captureRollback))
  else if !snapshot.ignoredPaths.isEmpty && world.fails .excludeIgnored then
    (workspace, some (world.detail .excludeIgnored))
  else
    let current := (world.captureTree workspace.files).deleteWhere fun path _ => path ∈ snapshot.ignoredPaths
    let reached := fun path => !world.fails .materializeRollback || world.reached path
    let restored := { workspace with
      files := materializeTree reached current snapshot.tree workspace.files
      index := world.restoredIndex .restoreRollbackIndex snapshot.index workspace.index }
    let worktreeError := "Failed to restore the pre-integration canonical worktree"
    let indexError := world.detail .restoreRollbackIndex
    match world.fails .materializeRollback, world.fails .restoreRollbackIndex with
    | false, false => (restored, none)
    | true, false => (restored, some worktreeError)
    | false, true => (restored, some indexError)
    | true, true =>
        (restored, some s!"{worktreeError}\n\nAdditionally failed to restore the canonical index: {indexError}")

/-- Roll back, and report the error or that its effect is unknown. -/
def rollBack (snapshot : CanonicalWorkspaceSnapshot) (error : ApprovalError) (workspace : CanonicalWorkspace) :
    ApprovalRun :=
  let restored := world.restore snapshot workspace
  { workspace := restored.1
    error := some (match restored.2 with
      | none => error
      | some rollback => .effectUnknown error.text rollback) }

/-! ### The integration -/

/-- `integrate_patch_three_way` and the steps before it. -/
def integrateSubmission : Except ApprovalRun (CanonicalWorkspace × CanonicalWorkspaceSnapshot) :=
  let stop := fun step => Except.error (ApprovalRun.stop workspace (world.detail step))
  if world.fails .submissionTrees then stop .submissionTrees
  else if world.fails .captureSnapshot then stop .captureSnapshot
  else
    let snapshot := world.captureSnapshot workspace
    match world.merged snapshot.tree with
    | none => stop .mergeTrees
    | some merged =>
        if world.fails .mergeTrees then stop .mergeTrees
        else if world.fails .validate then stop .validate
        else if collides (world.ignoredEntries workspace.files) snapshot.tree merged then
          .error (.stop workspace
            "Canonical workspace contains ignored local content at a path changed by the approved submission")
        else if world.fails .materialize then
          .error (world.rollBack snapshot (.failed (world.detail .materialize))
            { workspace with files := materializeTree world.reached snapshot.tree merged workspace.files })
        else
          .ok ({ workspace with
            files := materializeTree (fun _ => true) snapshot.tree merged workspace.files }, snapshot)

variable (task : ApprovedTask)

/-- The report of a submission that could not be merged. -/
def integrationError : ApprovalError → ApprovalError
  | .effectUnknown error rollback => .effectUnknown error rollback
  | .failed message =>
      let reason := s!"Cannot approve task {task.taskId} because its submitted changes could not be merged " ++
        s!"into {task.projectRoot}: {message}\n\n"
      let report := world.detail .writeDiagnostics
      .failed (reason ++
        if world.fails .writeDiagnostics then s!"Failed to save integration diagnostics: {report}"
        else s!"Integration error was saved to {task.runDir}/INTEGRATION_ERROR.md. " ++
          "Reject this review with the conflict details so an Executor can address it.")

/-- Without a patch there is nothing to merge and no snapshot. -/
def applyApprovedPatch (workspace : CanonicalWorkspace) :
    Except ApprovalRun (CanonicalWorkspace × Option CanonicalWorkspaceSnapshot) :=
  if world.fails .readPatch then .error (.stop workspace (world.detail .readPatch))
  else if isBlank task.patch then .ok (workspace, none)
  else
    match world.integrateSubmission workspace with
    | .ok (merged, snapshot) => .ok (merged, some snapshot)
    | .error run => .error { run with error := run.error.map (world.integrationError task) }

/-- The checks over the merged tree, and the index as it was before them. -/
def integrationGate (snapshot : CanonicalWorkspaceSnapshot) (workspace : CanonicalWorkspace) :
    Except ApprovalRun CanonicalWorkspace :=
  if world.fails .loadConfig then
    .error (world.rollBack snapshot (.failed (world.detail .loadConfig)) workspace)
  else
    let (files, index) := world.checks workspace.files workspace.index
    let checked := { workspace with files, index }
    if world.fails .startChecks then
      .error (world.rollBack snapshot (.failed (world.detail .startChecks)) checked)
    else if world.fails .runChecks then
      let message :=
        if world.fails .writeDiagnostics then world.detail .writeDiagnostics
        else checksReport (world.detail .runChecks)
      .error (world.rollBack snapshot (.failed message) checked)
    else if world.fails .restoreIndex then
      .error (world.rollBack snapshot (.failed "Failed to preserve the pre-integration canonical index")
        { checked with index := world.restoredIndex .restoreIndex snapshot.index checked.index })
    else .ok { checked with index := snapshot.index }
where
  checksReport (report : String) : String :=
    s!"Cannot approve task {task.taskId} because configured checks failed after applying its patch to the " ++
      s!"canonical workspace.\n\n{report}\n\nIntegration error was saved to {task.runDir}/INTEGRATION_ERROR.md. " ++
      "The task remains in review and the applied patch was rolled back; " ++
      "reject this review with the check details so an Executor can address it."

/-- `complete_milestone_blocking`, with its error. -/
def completeMilestone (path milestoneId : String) (workspace : CanonicalWorkspace) :
    CanonicalWorkspace × Option String :=
  match workspace.files.get? path with
  | none => (workspace, none)
  | some content =>
      if world.fails .readSpec then (workspace, some s!"Failed to read spec {path}")
      else
        match completedText? content milestoneId with
        | none => (workspace, none)
        | some updated =>
            if world.fails .writeSpec then
              ({ workspace with files := workspace.files.put path world.torn }, some s!"Failed to write spec {path}")
            else ({ workspace with files := workspace.files.put path updated }, none)

/-- The first statement of `record_task_status_on_connection` that fails. -/
def statusFailure? : Option ApprovalStep := [.upsertTask, .clearLease, .insertEvent].find? world.fails

/-- The specification is read before it is written in a transaction, and written back when that fails. -/
def completeWithBackup (path milestoneId : String) (workspace : CanonicalWorkspace) :
    CanonicalWorkspace × Option ApprovalError :=
  let backup := workspace.files.get? path
  if backup.isSome && world.fails .readBackup then
    (workspace, some (.failed "Failed to back up approval milestone"))
  else
    let (written, failure) := world.completeMilestone path milestoneId workspace
    match failure, world.fails .commit with
    | none, false => ({ written with status := .complete }, none)
    | failure, _ =>
        let error := failure.getD (world.detail .commit)
        match backup with
        | none => (written, some (.failed error))
        | some contents =>
            if world.fails .writeBackup then
              ({ written with files := written.files.put path world.torn },
                some (.effectUnknown error s!"Failed to restore approval milestone {path}"))
            else ({ written with files := written.files.put path contents }, some (.failed error))

/-- One transaction: when it fails, its writes to the database go with it. -/
def nativeTransition (workspace : CanonicalWorkspace) : CanonicalWorkspace × Option ApprovalError :=
  let stop := fun step => (workspace, some (.failed (world.detail step)))
  if world.fails .openSession then stop .openSession
  else if world.fails .requireReview then stop .requireReview
  else
    match world.statusFailure?, task.milestone with
    | some step, _ => stop step
    | none, none => if world.fails .commit then stop .commit else ({ workspace with status := .complete }, none)
    | none, some (path, milestoneId) => world.completeWithBackup path milestoneId workspace

/-- Each statement commits by itself. -/
def recordTaskStatus : CanonicalWorkspace × Option ApprovalError :=
  if world.fails .upsertTask then (workspace, some (.failed (world.detail .upsertTask)))
  else
    ({ workspace with status := .complete }, world.statusFailure?.map fun step => .failed (world.detail step))

section

variable (workspace : CanonicalWorkspace)

def toolTransition : CanonicalWorkspace × Option ApprovalError :=
  match task.milestone with
  | none => world.recordTaskStatus workspace
  | some (path, milestoneId) =>
      match world.completeMilestone path milestoneId workspace with
      | (written, some error) => (written, some (.failed error))
      | (written, none) => world.recordTaskStatus written

def transition : CanonicalWorkspace × Option ApprovalError :=
  if task.native then world.nativeTransition task workspace else world.toolTransition task workspace

def integrate : Except ApprovalRun ApprovalRun := do
  let (applied, snapshot) ← world.applyApprovedPatch task workspace
  let checked ← snapshot.elim (.ok applied) (world.integrationGate task · applied)
  match world.transition task checked, snapshot with
  | (done, none), _ => return { workspace := done, error := none }
  | (done, some error), none => return { workspace := done, error := some error }
  | (done, some error), some snapshot => return world.rollBack snapshot error done

/-- `integrate_approved_task`. -/
def integrateApprovedTask : ApprovalRun :=
  match world.integrate task workspace with
  | .ok run | .error run => run

end

end ApprovalWorld

end Ferrus.Tools

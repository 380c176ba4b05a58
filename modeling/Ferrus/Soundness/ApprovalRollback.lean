import Ferrus.Model.Tools.Approval
import Ferrus.ToMathlib.MergedTable

/-! # What a failed approval leaves behind

A rollback brings back the files that the snapshot has captured and removes the new files that Git captures; it
leaves ignored files alone. So a working tree comes back as a whole exactly where only such files have changed. The
native transition keeps the specification and the status as they were by itself. The tool's transition leaves what
it has written, to a snapshot if there is one.
-/

namespace Ferrus.Tools

open Ferrus.Runtime Ferrus.Specs Ferrus.Text ApprovalWorld Option Table

/-! ### Trees -/

private theorem get?_materializeTree (reached : String → Bool) (current target files : FileTree) (path : String) :
    (materializeTree reached current target files).get? path =
      if reached path then (target.get? path).or (if (current.get? path).isSome then none else files.get? path)
      else files.get? path := by
  have found : ((target.rows.filter (reached ·.1)).find? (fun row => row.1 = path)).map Prod.snd =
      if reached path then target.get? path else none := by
    have kept := target.get?_deleteWhere_key (fun path => !reached path) path
    simp only [deleteWhere, Bool.not_not] at kept
    refine kept.trans ?_
    cases reached path <;> rfl
  rw [materializeTree, get?_foldl_put (target.sorted.filter _), found, get?_deleteWhere_key]
  cases reached path with
  | true => cases target.get? path <;> simp
  | false => simp

/-- A rollback can undo the difference: a path was captured before, or is new and captured now, or has not
changed and is out of the rollback's reach. -/
def ApprovalWorld.Covered (world : ApprovalWorld) (before now : FileTree) : Prop := ∀ path,
  (before.get? path).isSome = true ∧ world.captured before path = true ∨
    before.get? path = none ∧
      (now.get? path = none ∨ world.captured now path = true ∧ path ∉ world.ignored before) ∨
    now.get? path = before.get? path ∧ (world.captured now path = false ∨ path ∈ world.ignored before)

private theorem get?_captureTree (world : ApprovalWorld) (files : FileTree) (path : String) :
    (world.captureTree files).get? path = if world.captured files path then files.get? path else none := by
  rw [captureTree, get?_deleteWhere_key]
  cases world.captured files path <;> rfl

/-- A rollback makes the tree of the snapshot of exactly the working trees that are covered. -/
private theorem materialize_captured_iff {world : ApprovalWorld} {before now : FileTree} :
    materializeTree (fun _ => true) ((world.captureTree now).deleteWhere fun path _ => path ∈ world.ignored before)
      (world.captureTree before) now = before ↔ world.Covered before now := by
  have pointwise {first second : FileTree} : first = second ↔ ∀ path, first.get? path = second.get? path :=
    ⟨fun same path => same ▸ rfl, ext_get?⟩
  rw [pointwise, Covered]
  refine forall_congr' fun path => ?_
  rw [get?_materializeTree, if_pos rfl, get?_deleteWhere_key, get?_captureTree, get?_captureTree]
  by_cases ignores : path ∈ world.ignored before <;> cases world.captured before path <;>
    cases world.captured now path <;> cases before.get? path <;> cases now.get? path <;> simp [ignores, eq_comm]

/-! ### What is left where a step fails -/

namespace ApprovalWorld

section Settles

variable (world : ApprovalWorld) (task : ApprovedTask) (original : CanonicalWorkspace)

/-- No step of a rollback fails. -/
def canRestore : Bool :=
  !world.fails .captureRollback && ((world.ignored original.files).isEmpty || !world.fails .excludeIgnored) &&
    !world.fails .materializeRollback && !world.fails .restoreRollbackIndex

/-- The tree that the submission gives, if nothing fails before it is written. -/
def mergedTree? : Option FileTree :=
  if world.fails .submissionTrees || world.fails .captureSnapshot || world.fails .mergeTrees ||
    world.fails .validate then
    none
  else (world.merged (world.captureTree original.files)).filter fun merged =>
    !collides (world.ignoredEntries original.files) (world.captureTree original.files) merged

/-- A workspace in which a step may fail: without a patch nothing is written yet; with one, a rollback fails or brings
everything back. -/
def Undone (now : CanonicalWorkspace) : Prop :=
  if isBlank task.patch then now = original
  else world.canRestore original = true → now.status = original.status ∧ world.Covered original.files now.files

/-- The statements of the tool that record the status. -/
def StatusSettles (now : CanonicalWorkspace) : Prop :=
  if world.fails .upsertTask then world.Undone task original now
  else world.fails .clearLease = true ∨ world.fails .insertEvent = true →
    world.Undone task original { now with status := .complete }

/-- The specification of the milestone and the id in it. -/
def specOf? (files : FileTree) : Option (String × String × String) :=
  task.milestone.bind fun (path, milestoneId) => (files.get? path).map fun content => (path, content, milestoneId)

def ToolSettles (now : CanonicalWorkspace) : Prop :=
  match specOf? task now.files with
  | none => world.StatusSettles task original now
  | some (path, content, milestoneId) =>
      if world.fails .readSpec then world.Undone task original now
      else
        match completedText? content milestoneId with
        | none => world.StatusSettles task original now
        | some updated =>
            if world.fails .writeSpec then
              world.Undone task original { now with files := now.files.put path world.torn }
            else world.StatusSettles task original { now with files := now.files.put path updated }

/-- A native transition fails, and writes the specification back if it has written it. -/
def nativeFails (files : FileTree) : Bool :=
  world.fails .openSession || world.fails .requireReview || world.statusFailure?.isSome ||
    match specOf? task files with
    | none => world.fails .commit
    | some (_, content, milestoneId) =>
        world.fails .readBackup || !world.fails .writeBackup && (world.fails .commit || world.fails .readSpec ||
          (completedText? content milestoneId).isSome && world.fails .writeSpec)

def TransitionSettles (now : CanonicalWorkspace) : Prop :=
  if task.native then world.nativeFails task now.files = true → world.Undone task original now
  else world.ToolSettles task original now

/-- The checks over a merged working tree, and what comes after them. -/
def MergeSettles (now : CanonicalWorkspace) : Prop :=
  if world.fails .loadConfig then world.Undone task original now
  else
    let checked := { now with files := (world.checks now.files now.index).1, index := original.index }
    if world.fails .startChecks || world.fails .runChecks || world.fails .restoreIndex then
      world.Undone task original checked
    else world.TransitionSettles task original checked

/-- At the step that fails, if one does, nothing is written or everything is taken back. -/
def Settles : Prop :=
  world.fails .readPatch = true ∨
    if isBlank task.patch then world.TransitionSettles task original original
    else ∀ merged, world.mergedTree? original = some merged →
      let written := fun reached => { original with
        files := materializeTree reached (world.captureTree original.files) merged original.files }
      if world.fails .materialize then world.Undone task original (written world.reached)
      else world.MergeSettles task original (written fun _ => true)

end Settles

end ApprovalWorld

/-! ### The steps of an approval -/

/-- A run that ends in an error, but not in an unknown effect, leaves the workspace as it was. -/
def ApprovalRun.RollsBack (run : ApprovalRun) (original : CanonicalWorkspace) : Prop :=
  ∀ message, run.error = some (.failed message) → run.workspace = original

/-- A transition that fails leaves such a workspace, unless its effect is unknown. -/
private def Leaves (kept : CanonicalWorkspace → Prop) (result : CanonicalWorkspace × Option ApprovalError) : Prop :=
  ∀ message, result.2 = some (.failed message) → kept result.1

section Steps

variable {world : ApprovalWorld} {task : ApprovedTask} {original now : CanonicalWorkspace}
  {kept : CanonicalWorkspace → Prop} {message error rollback : String}

private theorem leaves_done : Leaves kept (now, none) ↔ True := by simp [Leaves]

private theorem leaves_failed : Leaves kept (now, some (.failed message)) ↔ kept now := by simp [Leaves]

private theorem leaves_unknown : Leaves kept (now, some (.effectUnknown error rollback)) ↔ True := by simp [Leaves]

/-- A rollback without an error has brought back the tree and the index of the snapshot. -/
private theorem restore_eq (world : ApprovalWorld) (original now : CanonicalWorkspace) :
    if world.canRestore original then world.restore (world.captureSnapshot original) now = ({ now with
        files := materializeTree (fun _ => true)
          ((world.captureTree now.files).deleteWhere fun path _ => path ∈ world.ignored original.files)
          (world.captureTree original.files) now.files
        index := original.index }, none)
    else (world.restore (world.captureSnapshot original) now).2.isSome = true := by
  unfold canRestore restore restoredIndex captureSnapshot
  cases world.fails .captureRollback <;> cases (world.ignored original.files).isEmpty <;>
    cases world.fails .excludeIgnored <;> cases world.fails .materializeRollback <;>
    cases world.fails .restoreRollbackIndex <;> rfl

/-- A rollback brings the workspace back, or reports an unknown effect. -/
private theorem rollBack_rollsBack_iff (hasPatch : ¬ isBlank task.patch = true) :
    (world.rollBack (world.captureSnapshot original) (.failed message) now).RollsBack original ↔
      world.Undone task original now := by
  have restored := restore_eq world original now
  rw [Undone, if_neg hasPatch, ← materialize_captured_iff]
  unfold rollBack ApprovalRun.RollsBack
  dsimp only
  cases canRestore : world.canRestore original with
  | true =>
    rw [canRestore, if_pos rfl] at restored
    rw [restored]
    obtain ⟨files, index, status⟩ := original
    simp [and_comm]
  | false =>
    rw [canRestore, if_neg Bool.false_ne_true] at restored
    obtain ⟨detail, failed⟩ := isSome_iff_exists.mp restored
    rw [failed]
    simp

private theorem recordTaskStatus_leaves_iff :
    Leaves (world.Undone task original) (world.recordTaskStatus now) ↔ world.StatusSettles task original now := by
  unfold recordTaskStatus StatusSettles statusFailure?
  cases upserts : world.fails .upsertTask with
  | true => exact leaves_failed
  | false =>
    cases clears : world.fails .clearLease <;> cases inserts : world.fails .insertEvent <;>
      simp [upserts, clears, inserts, Leaves]

private theorem toolTransition_leaves_iff :
    Leaves (world.Undone task original) (world.toolTransition task now) ↔ world.ToolSettles task original now := by
  unfold toolTransition ToolSettles specOf? completeMilestone
  cases task.milestone with
  | none => exact recordTaskStatus_leaves_iff
  | some milestone =>
    dsimp only [Option.bind_some]
    cases now.files.get? milestone.1 with
    | none => exact recordTaskStatus_leaves_iff
    | some content =>
      dsimp only [Option.map_some]
      cases world.fails .readSpec with
      | true => exact leaves_failed
      | false =>
        cases completedText? content milestone.2 with
        | none => exact recordTaskStatus_leaves_iff
        | some updated =>
          cases world.fails .writeSpec with
          | true => exact leaves_failed
          | false => exact recordTaskStatus_leaves_iff

/-- Writing the specification back takes back what completing a milestone has written. -/
private theorem completeMilestone_put (world : ApprovalWorld) {path content : String} (milestoneId : String)
    (stored : now.files.get? path = some content) :
    let written := (world.completeMilestone path milestoneId now).1
    { written with files := written.files.put path content } = now := by
  have written : ∃ files, (world.completeMilestone path milestoneId now).1 = { now with files } ∧
      ∀ other, other ≠ path → files.get? other = now.files.get? other := by
    unfold completeMilestone
    repeat' split
    any_goals
      exact ⟨now.files, rfl, fun _ _ => rfl⟩
    all_goals
      exact ⟨_, rfl, fun other differs => (get?_put ..).trans (if_neg differs)⟩
  obtain ⟨files, isWritten, others⟩ := written
  have restored : files.put path content = now.files := by
    refine ext_get? fun other => ?_
    rw [get?_put]
    split_ifs with isPath
    · rw [isPath, stored]
    · exact others other isPath
  rw [isWritten]
  dsimp only
  rw [restored]

private theorem completeWithBackup_leaves_iff {path content milestoneId : String}
    (stored : now.files.get? path = some content) :
    Leaves kept (world.completeWithBackup path milestoneId now) ↔
      ((world.fails .readBackup || !world.fails .writeBackup && (world.fails .commit || world.fails .readSpec ||
        (completedText? content milestoneId).isSome && world.fails .writeSpec)) = true → kept now) := by
  have restored := completeMilestone_put world milestoneId stored
  have failure : (world.completeMilestone path milestoneId now).2.isSome =
      (world.fails .readSpec || (completedText? content milestoneId).isSome && world.fails .writeSpec) := by
    rw [completeMilestone, stored]
    dsimp only
    cases world.fails .readSpec <;> cases completedText? content milestoneId <;> cases world.fails .writeSpec <;> rfl
  rw [Bool.or_assoc, ← failure]
  unfold completeWithBackup
  rw [stored]
  dsimp only at restored ⊢
  cases world.fails .readBackup with
  | true => simp [leaves_failed]
  | false =>
    cases (world.completeMilestone path milestoneId now).2 <;> cases world.fails .commit <;>
      cases world.fails .writeBackup <;> simp [leaves_failed, leaves_done, leaves_unknown, restored]

/-- A native transition that fails has changed nothing, or reports an unknown effect. -/
private theorem nativeTransition_leaves_iff :
    Leaves kept (world.nativeTransition task now) ↔ (world.nativeFails task now.files = true → kept now) := by
  unfold nativeTransition nativeFails specOf?
  dsimp only
  cases world.fails .openSession with
  | true => simp [leaves_failed]
  | false =>
    cases world.fails .requireReview with
    | true => simp [leaves_failed]
    | false =>
      cases world.statusFailure? with
      | some step => simp [leaves_failed]
      | none =>
        cases task.milestone with
        | none => cases world.fails .commit <;> simp [leaves_failed, leaves_done]
        | some milestone =>
          cases stored : now.files.get? milestone.1 with
          | none =>
            simp only [completeWithBackup, completeMilestone, stored]
            cases world.fails .commit <;> simp [leaves_failed, leaves_done, stored]
          | some content => simp [completeWithBackup_leaves_iff stored, stored]

private theorem transition_leaves_iff :
    Leaves (world.Undone task original) (world.transition task now) ↔ world.TransitionSettles task original now := by
  unfold transition TransitionSettles
  split_ifs
  · exact nativeTransition_leaves_iff
  · exact toolTransition_leaves_iff

/-- Nothing is written before the merged tree. -/
private theorem integrateSubmission_eq (world : ApprovalWorld) (original : CanonicalWorkspace) : ∃ message,
    world.integrateSubmission original = match world.mergedTree? original with
      | none => .error (.stop original message)
      | some merged =>
          let written := fun reached => { original with
            files := materializeTree reached (world.captureTree original.files) merged original.files }
          if world.fails .materialize then
            .error (world.rollBack (world.captureSnapshot original) (.failed (world.detail .materialize))
              (written world.reached))
          else .ok (written fun _ => true, world.captureSnapshot original) := by
  unfold integrateSubmission mergedTree?
  dsimp only [captureSnapshot]
  cases world.fails .submissionTrees with
  | true => exact ⟨_, rfl⟩
  | false =>
    cases world.fails .captureSnapshot with
    | true => exact ⟨_, rfl⟩
    | false =>
      cases world.merged (world.captureTree original.files) with
      | none => cases world.fails .mergeTrees <;> cases world.fails .validate <;> exact ⟨_, rfl⟩
      | some merged =>
        cases world.fails .mergeTrees with
        | true => exact ⟨_, rfl⟩
        | false =>
          cases world.fails .validate with
          | true => exact ⟨_, rfl⟩
          | false =>
            rw [Option.filter_some]
            dsimp only
            cases collides (world.ignoredEntries original.files) (world.captureTree original.files) merged with
            | true => exact ⟨_, rfl⟩
            | false => exact ⟨"", rfl⟩

/-- The report of a failed merge names the task, and an unknown effect stays one. -/
private theorem integrationError_rollsBack_iff {run : ApprovalRun} :
    { run with error := run.error.map (world.integrationError task) : ApprovalRun }.RollsBack original ↔
      run.RollsBack original := by
  obtain ⟨workspace, error⟩ := run
  match error with
  | none | some (.failed _) | some (.effectUnknown ..) => simp [ApprovalRun.RollsBack, integrationError]

end Steps

section Integration

variable {world : ApprovalWorld} {task : ApprovedTask} {original now : CanonicalWorkspace}

/-- The end of an approval with a snapshot. -/
private theorem transition_rollsBack_iff (hasPatch : ¬ isBlank task.patch = true) :
    (match world.transition task now with
      | (done, none) => { workspace := done, error := none }
      | (done, some error) => world.rollBack (world.captureSnapshot original) error done :
        ApprovalRun).RollsBack original ↔
    world.TransitionSettles task original now := by
  rw [← transition_leaves_iff]
  obtain ⟨done, error⟩ := world.transition task now
  match error with
  | none => simp [leaves_done, ApprovalRun.RollsBack]
  | some (.failed message) => exact (rollBack_rollsBack_iff hasPatch).trans leaves_failed.symm
  | some (.effectUnknown error rollback) =>
    refine (iff_true_intro fun message failed => ?_).trans leaves_unknown.symm
    unfold rollBack at failed
    dsimp only at failed
    split at failed <;> cases failed

/-- The checks over a merged working tree, and the transition. -/
private theorem integrationGate_rollsBack_iff (hasPatch : ¬ isBlank task.patch = true) :
    (match world.integrationGate task (world.captureSnapshot original) now with
      | .error run => run
      | .ok checked =>
          match world.transition task checked with
          | (done, none) => { workspace := done, error := none }
          | (done, some error) => world.rollBack (world.captureSnapshot original) error done : ApprovalRun).RollsBack
        original ↔ world.MergeSettles task original now := by
  have undone (now : CanonicalWorkspace) (index : Option String) :
      world.Undone task original { now with index } ↔ world.Undone task original now := by
    rw [Undone, Undone, if_neg hasPatch, if_neg hasPatch]
  unfold integrationGate MergeSettles
  cases world.fails .loadConfig with
  | true => exact rollBack_rollsBack_iff hasPatch
  | false =>
    dsimp only
    cases world.fails .startChecks with
    | true => exact (rollBack_rollsBack_iff hasPatch).trans (undone _ _).symm
    | false =>
      cases world.fails .runChecks with
      | true => exact (rollBack_rollsBack_iff hasPatch).trans (undone _ _).symm
      | false =>
        cases world.fails .restoreIndex with
        | true => exact (rollBack_rollsBack_iff hasPatch).trans (undone _ _).symm
        | false => exact transition_rollsBack_iff hasPatch

end Integration

/-- Whatever step fails, an error other than an unknown effect leaves the working tree, the index, the specification
and the status as they were: exactly if at that step nothing is written or everything can be taken back. -/
theorem approval_rollsBack (world : ApprovalWorld) (task : ApprovedTask) (original : CanonicalWorkspace) :
    (world.integrateApprovedTask task original).RollsBack original ↔ world.Settles task original := by
  unfold integrateApprovedTask integrate applyApprovedPatch Settles
  cases world.fails .readPatch with
  | true => exact iff_of_true (fun _ _ => rfl) (.inl rfl)
  | false =>
    simp only [Bool.false_eq_true, if_false, false_or]
    by_cases noPatch : isBlank task.patch = true
    · rw [if_pos noPatch, if_pos noPatch, ← transition_leaves_iff]
      have isOriginal : world.Undone task original = (· = original) := by
        funext now
        rw [Undone, if_pos noPatch]
      rw [isOriginal]
      dsimp only [bind, Except.bind, Option.elim_none]
      obtain ⟨done, error⟩ := world.transition task original
      cases error <;> exact Iff.rfl
    · rw [if_neg noPatch, if_neg noPatch]
      obtain ⟨message, isIntegration⟩ := integrateSubmission_eq world original
      rw [isIntegration]
      cases world.mergedTree? original with
      | none => exact iff_of_true (fun _ _ => rfl) (by simp)
      | some merged =>
        simp only [some.injEq, forall_eq']
        cases world.fails .materialize with
        | true => exact integrationError_rollsBack_iff.trans (rollBack_rollsBack_iff noPatch)
        | false =>
          refine Iff.trans ?_ (integrationGate_rollsBack_iff noPatch)
          simp only [Bool.false_eq_true, if_false, bind, Except.bind, Option.elim_some]
          cases world.integrationGate task (world.captureSnapshot original) _ with
          | error run => exact Iff.rfl
          | ok checked =>
            dsimp only
            obtain ⟨done, error⟩ := world.transition task checked
            cases error <;> exact Iff.rfl

variable (failing : List ApprovalStep)

/-- A world in which Git captures every file, the submission adds one, and the given steps fail. -/
def plainWorld : ApprovalWorld where
  captured _ _ := true
  ignored _ := []
  ignoredEntries _ := []
  merged tree := some (tree.put "src/lib.rs" "pub mod parser;")
  checks files index := (files, index)
  fails step := step ∈ failing
  detail _ := "disk I/O error"
  reached _ := true
  torn := ""
  indexLost := false

/-- A task in review, with a milestone that is not completed yet. -/
def reviewedWorkspace : CanonicalWorkspace where
  files := Table.empty.put "docs/specs/spec.md" "- [ ] #1 Parser\n  - ID: m-1\n"
  index := some "DIRC"
  status := .reviewing

def approvedTask (patch : String) (native : Bool) : ApprovedTask where
  taskId := "t-001"
  runDir := ".ferrus/runs/r-1"
  projectRoot := "/project"
  patch
  milestone := some ("docs/specs/spec.md", "m-1")
  native

/-- Without a patch, the tool leaves the milestone completed when the status cannot be recorded. With one, it
leaves the task complete, over a working tree that it has rolled back, when a later statement fails. -/
theorem not_rollsBack_tool :
    ¬ ((plainWorld [.upsertTask]).integrateApprovedTask (approvedTask "" false) reviewedWorkspace).RollsBack
        reviewedWorkspace ∧
      ¬ ((plainWorld [.insertEvent]).integrateApprovedTask (approvedTask "diff" false) reviewedWorkspace).RollsBack
        reviewedWorkspace := by
  constructor
  · intro rollsBack
    have same := congrArg (fun workspace => workspace.files.get? "docs/specs/spec.md")
      (rollsBack "disk I/O error" (by decide +kernel))
    revert same
    decide +kernel
  · intro rollsBack
    have same := congrArg CanonicalWorkspace.status (rollsBack "disk I/O error" (by decide +kernel))
    revert same
    decide +kernel

end Ferrus.Tools

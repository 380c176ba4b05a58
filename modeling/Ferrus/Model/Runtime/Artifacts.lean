import Ferrus.Model.Runtime.Database

/-! # Task artifact reservations

A new task reserves its row first, writes its files, and is then finalized or discarded. The number
of the reservation is an input; it is the first one that neither the task files nor the table have.
Only the finalization checks that a milestone has no other task under way.
-/

namespace Ferrus.Runtime

/-- A number with at least three digits. -/
def paddedDigits (number : Nat) : List Char :=
  List.replicate (3 - (Nat.toDigits 10 number).length) '0' ++ Nat.toDigits 10 number

/-- The id a task number is spelled as. -/
def taskId (number : Nat) : TaskId := String.ofList ('t' :: '-' :: paddedDigits number)

namespace Database

variable (db : Database) (id : TaskId)

def reserveTaskArtifact (path : String) : Database := db.ensureTaskExists id path

/-- The first other task of the milestone that is not reset, complete or failed. -/
def milestoneTask? (specPath milestoneId : String) : Option TaskId :=
  (db.tasks.select (fun other row =>
    row.specPath = some specPath && row.milestoneId = some milestoneId && other ≠ id &&
      !row.status.isTerminal)).head?.map (·.1)

/-- Refuse a second task for a milestone; a task without both names is not checked. -/
def requireMilestoneFree (specPath milestoneId : Option String) : Except String Unit :=
  match specPath, milestoneId with
  | some specPath, some milestoneId =>
      match db.milestoneTask? id specPath milestoneId with
      | some duplicate => .error
          s!"Cannot enqueue task: milestone {milestoneId} from {specPath} already has task {duplicate}."
      | none => .ok ()
  | _, _ => .ok ()

def finalizeTaskArtifactReservation (specPath milestoneId : Option String) : Except String Database := do
  db.requireMilestoneFree id specPath milestoneId
  if (db.task? id).any (·.status = .unknown) then
    return (db.updateTask id (fun row =>
      { row with status := .pending, specPath, milestoneId })).recordEvent "task_status_changed"
  else throw s!"Task reservation {id} is no longer available"

/-- Delete a row that is still reserved; a run of the task keeps it. -/
def discardTaskArtifactReservation : Except String Database :=
  if (db.task? id).any (·.status = .unknown) ∧ db.runs.select (fun _ run => run.taskId = id) ≠ [] then
    .error "FOREIGN KEY constraint failed"
  else .ok { db with tasks := db.tasks.deleteWhere (fun other row => other = id && row.status = .unknown) }

theorem milestoneTask?_eq_none {db : Database} {id : TaskId} {specPath milestoneId : String} :
    db.milestoneTask? id specPath milestoneId = none ↔ ∀ other row, db.task? other = some row →
      row.specPath = some specPath → row.milestoneId = some milestoneId → row.status.isTerminal = false →
      other = id := by
  rw [milestoneTask?, Option.map_eq_none_iff, List.head?_eq_none_iff, List.eq_nil_iff_forall_not_mem]
  constructor
  · intro nobody other row found spec milestone live
    by_contra rival
    refine nobody (other, row) (db.tasks.mem_select.mpr ⟨found, ?_⟩)
    simp [spec, milestone, live, rival]
  · rintro only ⟨other, row⟩ selected
    obtain ⟨found, matching⟩ := db.tasks.mem_select.mp selected
    simp only [Bool.and_eq_true, decide_eq_true_eq, Bool.not_eq_true'] at matching
    obtain ⟨⟨⟨spec, milestone⟩, rival⟩, live⟩ := matching
    exact rival (only other row found spec milestone live)

end Database

end Ferrus.Runtime

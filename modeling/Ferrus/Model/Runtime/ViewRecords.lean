import Ferrus.Model.Runtime.Database

/-! # Recorded repository views

A view is recorded for a task or for a run, after it has been validated. The view of a task is also
given to the runs of the task that have none yet.
-/

namespace Ferrus.Runtime

/-- The table whose row owns a view. -/
inductive ViewOwner where
  | tasks | runs
deriving DecidableEq, Repr

def ViewOwner.name : ViewOwner → String
  | tasks => "tasks"
  | runs => "runs"

/-- A run that has no view yet takes over the one recorded for its task. -/
def RunRow.awaitsView (run : RunRow) : Bool :=
  run.view.baselineSnapshotId = none && ["not_built", "unavailable", "failed"].contains run.view.status

namespace Database

section

variable (db : Database)

/-- The view columns of a row, if there is one. -/
def viewColumns? (owner : ViewOwner) (id : String) : Option ViewColumns :=
  match owner with
  | .tasks => (db.task? id).map (·.view)
  | .runs => (db.run? id).map (·.view)

def ownerRepositoryView (owner : ViewOwner) (id : String) : Except String (Option RepositoryViewReference) :=
  match db.viewColumns? owner id with
  | none => .ok none
  | some columns => (repositoryViewReferenceFromDatabase columns).map some

def recordRepositoryViewInTransaction (owner : ViewOwner) (id : String) (view : RepositoryViewReference) :
    Except String Database :=
  match db.viewColumns? owner id with
  | none => .error s!"Cannot record repository view: {owner.name} row does not exist"
  | some _ =>
      match owner with
      | .tasks => .ok
          { db with
            tasks := db.tasks.modify id fun row => { row with view := view.encode }
            runs := db.runs.updateWhere (fun _ run => run.taskId = id && run.awaitsView)
              (fun run => { run with view := view.encode }) }
      | .runs => .ok { db with runs := db.runs.modify id (fun run => { run with view := view.encode }) }

def recordRepositoryView (owner : ViewOwner) (id : String) (view : RepositoryViewReference) :
    Except String Database := do
  view.validate
  db.recordRepositoryViewInTransaction owner id view

/-- Record a view unless the stored one is no longer the expected one. -/
def compareAndRecordTaskRepositoryView (id : TaskId) (expected view : RepositoryViewReference) :
    Except String (Database × Bool) := do
  expected.validate
  view.validate
  match ← db.ownerRepositoryView .tasks id with
  | none => throw "Cannot record repository view: tasks row does not exist"
  | some current =>
      if current ≠ expected then return (db, false)
      let db ← db.recordRepositoryViewInTransaction .tasks id view
      return (db, true)

end

end Database

variable {db next : Database} {owner : ViewOwner} {id : String} {view : RepositoryViewReference}

namespace Database

/-- A view is recorded in every row that exists, and the row then has its columns. -/
theorem recordRepositoryViewInTransaction_of_stored (stored : (db.viewColumns? owner id).isSome)
    (view : RepositoryViewReference) : ∃ next, db.recordRepositoryViewInTransaction owner id view = .ok next ∧
      next.viewColumns? owner id = some view.encode := by
  obtain ⟨columns, held⟩ := Option.isSome_iff_exists.mp stored
  unfold recordRepositoryViewInTransaction
  rw [held]
  cases owner with
  | tasks =>
    refine ⟨_, rfl, ?_⟩
    obtain ⟨row, found, _⟩ := Option.map_eq_some_iff.mp held
    have written := (db.tasks.get?_modify_self id (fun row => { row with view := view.encode })).trans
      (congrArg _ found)
    exact congrArg (Option.map TaskRow.view) written
  | runs =>
    refine ⟨_, rfl, ?_⟩
    obtain ⟨run, found, _⟩ := Option.map_eq_some_iff.mp held
    have written := (db.runs.get?_modify_self id (fun run => { run with view := view.encode })).trans
      (congrArg _ found)
    exact congrArg (Option.map RunRow.view) written

/-- Reading columns that a valid view was written to. -/
theorem ownerRepositoryView_of_encode (valid : view.Valid) (written : db.viewColumns? owner id = some view.encode) :
    db.ownerRepositoryView owner id = .ok (some view) := by
  rw [ownerRepositoryView, written]
  dsimp only
  rw [valid.decode_encode]
  rfl

/-- A view that was read is valid. -/
theorem valid_of_ownerRepositoryView (read : db.ownerRepositoryView owner id = .ok (some view)) :
    view.Valid ∧ (db.viewColumns? owner id).isSome := by
  unfold ownerRepositoryView at read
  split at read
  · cases read
  · next columns held =>
    obtain ⟨decoded, decodes, same⟩ := Except.map_eq_ok_iff.mp read
    obtain rfl := Option.some.inj same
    exact ⟨valid_of_decode decodes, by rw [held]; rfl⟩

theorem recordRepositoryView_of_valid (valid : view.Valid) :
    db.recordRepositoryView owner id view = db.recordRepositoryViewInTransaction owner id view := by
  rw [recordRepositoryView, valid]
  rfl

/-- A compare-and-record writes its valid view, or nothing. -/
theorem compareAndRecordTaskRepositoryView_ok {expected : RepositoryViewReference} {recorded : Bool}
    (compared : db.compareAndRecordTaskRepositoryView id expected view = .ok (next, recorded)) :
    recorded = false ∧ next = db ∨
      recorded = true ∧ view.Valid ∧ db.recordRepositoryViewInTransaction .tasks id view = .ok next := by
  obtain ⟨_, _, compared⟩ := Except.bind_eq_ok_iff.mp compared
  obtain ⟨_, validated, compared⟩ := Except.bind_eq_ok_iff.mp compared
  obtain ⟨current, _, compared⟩ := Except.bind_eq_ok_iff.mp compared
  split at compared
  · cases compared
  · split at compared
    · cases compared
      exact .inl ⟨rfl, rfl⟩
    · obtain ⟨_, written, same⟩ := Except.bind_eq_ok_iff.mp compared
      cases same
      exact .inr ⟨rfl, validated, written⟩

end Database

end Ferrus.Runtime

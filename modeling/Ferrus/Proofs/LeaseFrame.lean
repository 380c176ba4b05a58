import Ferrus.Proofs.LeaseEffects

/-! # Claims and renewals keep the work

A claim may promote a pending task. Apart from this it changes the lease columns only: the counters,
the pause columns, the origin and the view of every task stay as they are, and so do the runs. A
claim of an unknown task inserts its row first.
-/

namespace Ferrus.Runtime

open Database TaskRow

/-- The rows differ in their lease, or by a promotion as well. -/
def Leased (row after : TaskRow) : Prop :=
  after.clearLease = row.clearLease ∨ after.clearLease = row.promote.clearLease

theorem TaskRow.status_eq_of_clearLease {row after : TaskRow} (same : after.clearLease = row.clearLease) :
    after.status = row.status := by
  change after.clearLease.status = row.clearLease.status
  rw [same]

theorem TaskRow.promote_of_ne {row : TaskRow} (active : row.status ≠ .pending) : row.promote = row :=
  if_neg active

theorem TaskRow.promote_clearLease (row : TaskRow) : row.clearLease.promote = row.promote.clearLease := by
  unfold promote
  by_cases pending : row.status = .pending
  · rw [if_pos pending, if_pos (show row.clearLease.status = .pending from pending)]
    rfl
  · rw [if_neg pending, if_neg (show row.clearLease.status ≠ .pending from pending)]

theorem TaskRow.promote_promote (row : TaskRow) : row.promote.promote = row.promote := by
  apply promote_of_ne
  unfold promote
  split
  · exact nofun
  · next active => exact active

namespace Leased

variable {row after last : TaskRow}

theorem refl (row : TaskRow) : Leased row row := .inl rfl

theorem promote (row : TaskRow) : Leased row row.promote := .inr rfl

theorem trans (first : Leased row after) (second : Leased after last) : Leased row last := by
  have promoted : after.promote.clearLease = row.promote.clearLease := by
    rw [← promote_clearLease]
    rcases first with same | same
    · rw [same, promote_clearLease]
    · rw [same, promote_clearLease, promote_promote]
  rcases second with kept | kept
  · rcases first with same | same
    · exact .inl (kept.trans same)
    · exact .inr (kept.trans same)
  · exact .inr (kept.trans promoted)

theorem clearLease_eq (leased : Leased row after) (active : row.status ≠ .pending) :
    after.clearLease = row.clearLease := by
  rcases leased with same | same
  · exact same
  · rw [same, promote_of_ne active]

end Leased

/-- What claims and renewals may do to the tables. -/
structure LeaseFrame (db next : Database) : Prop where
  runs : next.runs = db.runs
  kept : ∀ id row, db.task? id = some row → ∃ after, next.task? id = some after ∧ Leased row after
  inserted : ∀ id after, db.task? id = none → next.task? id = some after →
    ∃ path, after.clearLease = { path, status := .unknown }

variable {db mid next : Database} {task : TaskId}

namespace LeaseFrame

theorem refl (db : Database) : LeaseFrame db db where
  runs := rfl
  kept _ row found := ⟨row, found, .refl row⟩
  inserted _ _ missing stored := by cases missing.symm.trans stored

theorem trans (first : LeaseFrame db mid) (second : LeaseFrame mid next) : LeaseFrame db next where
  runs := second.runs.trans first.runs
  kept id row found := by
    obtain ⟨middle, stored, leased⟩ := first.kept id row found
    obtain ⟨after, written, again⟩ := second.kept id middle stored
    exact ⟨after, written, leased.trans again⟩
  inserted id after missing stored := by
    cases found : mid.task? id with
    | none => exact second.inserted id after found stored
    | some middle =>
      obtain ⟨path, fresh⟩ := first.inserted id middle missing found
      obtain ⟨written, same, leased⟩ := second.kept id middle found
      obtain rfl := Option.some.inj (stored.symm.trans same)
      have unknown : middle.clearLease.status = .unknown := by rw [fresh]
      have active : middle.status ≠ .pending := by
        change middle.clearLease.status ≠ .pending
        rw [unknown]
        decide
      exact ⟨path, (leased.clearLease_eq active).trans fresh⟩

theorem update {change : TaskRow → TaskRow} (eventType : String) (leased : ∀ row, Leased row (change row)) :
    LeaseFrame db ((db.updateTask task change).recordEvent eventType) where
  runs := rfl
  kept id row found := by
    rw [task?_recordEvent, task?_updateTask]
    split_ifs
    · exact ⟨change row, congrArg (Option.map change) found, leased row⟩
    · exact ⟨row, found, .refl row⟩
  inserted id after missing stored := by
    rw [task?_recordEvent, task?_updateTask, missing] at stored
    split_ifs at stored
    cases stored

theorem ensureTaskExists (db : Database) (task : TaskId) (path : String) :
    LeaseFrame db (db.ensureTaskExists task path) where
  runs := rfl
  kept id row found := by
    rw [task?_ensureTaskExists]
    split_ifs with same
    · subst same
      exact ⟨row, by rw [found]; rfl, .refl row⟩
    · exact ⟨row, found, .refl row⟩
  inserted id after missing stored := by
    rw [task?_ensureTaskExists] at stored
    split_ifs at stored with same
    · subst same
      rw [missing] at stored
      cases stored
      exact ⟨path, rfl⟩
    · cases missing.symm.trans stored

end LeaseFrame

theorem LeasePrelude.leaseFrame (prelude : LeasePrelude db mid) : LeaseFrame db mid := by
  cases prelude with
  | none => exact .refl db
  | ensure task path => exact .ensureTaskExists db task path
  | promote task candidate promotePending =>
    unfold promotePendingTaskInTransaction
    split
    · exact .update "task_scheduled" Leased.promote
    · exact .refl db

variable {other : TaskId}

section

variable {chrono : Chrono} {agent : AgentId} {ttlSecs : Nat} {start finish : Instant}
  {effect : LeaseEffect} {db next : Database}

section

variable (write : LeaseWrite chrono agent ttlSecs start finish db effect next)

include write

theorem LeaseWrite.leaseFrame : LeaseFrame db next := by
  cases write with
  | none => exact .refl db
  | claim => exact .update "task_claimed" (fun _ => .inl rfl)
  | renew => exact .update "task_lease_renewed" (fun _ => .inl rfl)

/-- The lease write changes nothing but the lease columns. -/
theorem LeaseWrite.row {row : TaskRow}
    (found : db.task? other = some row) :
    ∃ after, next.task? other = some after ∧ after.clearLease = row.clearLease := by
  have updated {task : TaskId} {change : TaskRow → TaskRow} (kept : (change row).clearLease = row.clearLease) :
      ∃ after, (db.updateTask task change).task? other = some after ∧ after.clearLease = row.clearLease := by
    rw [task?_updateTask]
    split_ifs
    · exact ⟨_, congrArg (Option.map change) found, kept⟩
    · exact ⟨row, found, rfl⟩
  cases write with
  | none => exact ⟨row, found, rfl⟩
  | claim | renew => exact updated rfl

end

end

/-- `claim_task` changes nothing but the lease columns of an existing row. -/
theorem Database.claimTask_row {chrono : Chrono} {path : String} {agent : AgentId} {ttlSecs : Nat}
    {now renewNow : Instant} {claim : TaskClaim}
    (claimed : db.claimTask chrono task path agent ttlSecs now renewNow = .ok (next, claim)) {row : TaskRow}
    (found : db.task? other = some row) :
    ∃ after, next.task? other = some after ∧ after.clearLease = row.clearLease := by
  have ensured : (db.ensureTaskExists task path).task? other = some row := by
    rw [task?_ensureTaskExists]
    split_ifs with same
    · rw [← same, found]
      rfl
    · exact found
  obtain ⟨⟨written, _, _⟩, claimed, same⟩ := Except.map_eq_ok_iff.mp claimed
  cases same
  exact (claimTaskInDatabase_write claimed).row ensured

/-- Every claim and renewal stays within the frame. -/
theorem LeaseEvent.apply_leaseFrame (chrono : Chrono) (db : Database) (event : LeaseEvent) :
    LeaseFrame db (event.apply chrono db).1 := by
  obtain ⟨mid, prelude, write⟩ := event.apply_transaction chrono db
  exact prelude.leaseFrame.trans write.leaseFrame

end Ferrus.Runtime

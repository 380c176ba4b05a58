import Ferrus.Model.Runtime.LeaseEvents

/-! # What a claim or renewal does

A lease transaction first inserts a missing task or promotes a pending one. Then it assigns a lease to
the caller, extends the caller's live lease, or writes nothing more. `LeaseTransaction` says this once,
and each entry point has one lemma that places it there. `LeaseMove` is what follows for the owner and
lease text of all tasks.
-/

namespace Ferrus.Runtime

open Database Except

/-- The lease columns of every task but `task` are the same. -/
def SameLeasesExcept (task : TaskId) (db next : Database) : Prop :=
  ∀ other, other ≠ task → next.owner other = db.owner other ∧ next.leaseUntil other = db.leaseUntil other

variable (chrono : Chrono)

/-- What a transaction of `agent` may do to the lease columns, if its first clock read is `start` and
its last one `finish`. Claims are decided at the first read and renewals at the last one. -/
inductive LeaseMove (agent : AgentId) (ttlSecs : Nat) (start finish : Instant) :
    LeaseEffect → Database → Database → Prop where
  | kept {db next : Database}
      (same : ∀ task, next.owner task = db.owner task ∧ next.leaseUntil task = db.leaseUntil task) :
      LeaseMove agent ttlSecs start finish .none db next
  | claimed {db next : Database} {task : TaskId} {deadline : Instant}
      (expired : chrono.leaseActive start (db.leaseUntil task) = false)
      (computed : chrono.leaseDeadline start ttlSecs = some deadline)
      (owned : next.owner task = some agent)
      (stored : next.leaseUntil task = some (chrono.toRfc3339Secs deadline))
      (rest : SameLeasesExcept task db next) :
      LeaseMove agent ttlSecs start finish (.claimed task deadline) db next
  | renewed {db next : Database} {task : TaskId} {deadline : Instant}
      (live : chrono.leaseActive finish (db.leaseUntil task) = true)
      (holder : db.owner task = some agent)
      (computed : chrono.leaseDeadline finish ttlSecs = some deadline)
      (owned : next.owner task = some agent)
      (stored : next.leaseUntil task = some (chrono.toRfc3339Secs deadline))
      (rest : SameLeasesExcept task db next) :
      LeaseMove agent ttlSecs start finish (.renewed task deadline) db next

/-- What a lease transaction may write before its lease. -/
inductive LeasePrelude (db : Database) : Database → Prop where
  | none : LeasePrelude db db
  | ensure (task : TaskId) (path : String) : LeasePrelude db (db.ensureTaskExists task path)
  | promote (task : TaskId) (candidate : TaskRow) (promotePending : Bool) :
      LeasePrelude db (db.promotePendingTaskInTransaction task candidate promotePending).1

/-- The lease write itself, with what the transaction knows about the row at that point. -/
inductive LeaseWrite (agent : AgentId) (ttlSecs : Nat) (start finish : Instant) (db : Database) :
    LeaseEffect → Database → Prop where
  | none : LeaseWrite agent ttlSecs start finish db .none db
  | claim {task : TaskId} {row : TaskRow} {deadline : Instant} (found : db.task? task = some row)
      (expired : chrono.leaseActive start row.leaseUntil = false)
      (computed : chrono.leaseDeadline start ttlSecs = some deadline) :
      LeaseWrite agent ttlSecs start finish db (.claimed task deadline)
        (db.claimTaskInTransaction chrono task agent deadline start)
  | renew {task : TaskId} {row : TaskRow} {deadline : Instant} (found : db.task? task = some row)
      (holder : row.claimedBy = some agent)
      (live : chrono.leaseActive finish row.leaseUntil = true)
      (computed : chrono.leaseDeadline finish ttlSecs = some deadline) :
      LeaseWrite agent ttlSecs start finish db (.renewed task deadline)
        ((db.updateTask task (·.renew chrono deadline finish)).recordEvent "task_lease_renewed")

/-- A lease transaction of `agent` between its two clock reads. -/
def LeaseTransaction (agent : AgentId) (ttlSecs : Nat) (start finish : Instant) (effect : LeaseEffect)
    (db next : Database) : Prop :=
  ∃ mid, LeasePrelude db mid ∧ LeaseWrite chrono agent ttlSecs start finish mid effect next

variable {chrono} {task : TaskId}

namespace LeaseTransaction

variable {agent : AgentId} {ttlSecs : Nat} {start finish : Instant} {effect : LeaseEffect}
  {db next : Database}

theorem refl : LeaseTransaction chrono agent ttlSecs start finish .none db db := ⟨db, .none, .none⟩

theorem of_prelude (prelude : LeasePrelude db next) :
    LeaseTransaction chrono agent ttlSecs start finish .none db next :=
  ⟨next, prelude, .none⟩

theorem of_write (write : LeaseWrite chrono agent ttlSecs start finish db effect next) :
    LeaseTransaction chrono agent ttlSecs start finish effect db next :=
  ⟨db, .none, write⟩

end LeaseTransaction

namespace Database

variable {db next : Database} {agent : AgentId} {ttlSecs : Nat} {now : Instant} {claim : ReadyTaskClaim}

private theorem promote_found {candidate : TaskRow} (promotePending : Bool) (found : db.task? task = some candidate) :
    (db.promotePendingTaskInTransaction task candidate promotePending).1.task? task =
        some (db.promotePendingTaskInTransaction task candidate promotePending).2 ∧
      (db.promotePendingTaskInTransaction task candidate promotePending).2.leaseUntil = candidate.leaseUntil := by
  unfold promotePendingTaskInTransaction
  split
  · rw [task?_recordEvent, task?_updateTask_self, found]
    refine ⟨rfl, ?_⟩
    unfold TaskRow.promote
    split <;> rfl
  · exact ⟨found, rfl⟩

/-- Promoting a candidate whose lease is not live and assigning it to the caller. -/
private theorem assignLease_transaction {candidate : TaskRow} (promotePending : Bool)
    (found : db.task? task = some candidate) (expired : chrono.leaseActive now candidate.leaseUntil = false)
    (assigned : (db.promotePendingTaskInTransaction task candidate promotePending).1.assignLease chrono task
      (db.promotePendingTaskInTransaction task candidate promotePending).2 agent ttlSecs now = .ok (next, claim)) :
    LeaseTransaction chrono agent ttlSecs now now claim.effect db next := by
  unfold assignLease at assigned
  split at assigned
  · cases assigned
  · next deadline computed =>
    cases assigned
    obtain ⟨promoted, same⟩ := promote_found promotePending found
    refine ⟨_, .promote task candidate promotePending, .claim promoted ?_ computed⟩
    rw [same]
    exact expired

theorem claimReadyTask_transaction {allowedStatuses : List TaskStatus} {promotePending : Bool}
    (claimed : db.claimReadyTaskInTransaction chrono task agent ttlSecs allowedStatuses promotePending now =
      .ok (next, claim)) : LeaseTransaction chrono agent ttlSecs now now claim.effect db next := by
  unfold claimReadyTaskInTransaction at claimed
  split at claimed
  · cases claimed
    exact .refl
  · next candidate found =>
    split at claimed
    · cases claimed
      exact .refl
    · split at claimed
      · cases claimed
        exact .refl
      · next available =>
        dsimp only at claimed
        split at claimed
        · next deadline live =>
          split at claimed
          · cases claimed
            exact .of_prelude (.promote task candidate promotePending)
          · next other =>
            obtain ⟨parsed, later⟩ := Option.filter_eq_some_iff.mp live
            refine absurd ⟨?_, other⟩ available
            exact chrono.leaseActive_iff.mpr ⟨deadline, parsed, of_decide_eq_true later⟩
        · next dead =>
          refine assignLease_transaction promotePending found ?_ claimed
          rw [Chrono.leaseActive, Option.any_eq_false]
          intro deadline parsed
          exact Bool.eq_false_iff.mpr (Option.filter_eq_none_iff.mp dead deadline parsed)

theorem claimNextTask_transaction {statuses : List TaskStatus} {promotePending : Bool}
    (claimed : db.claimNextTaskWithStatuses chrono agent ttlSecs statuses promotePending now = .ok (next, claim)) :
    LeaseTransaction chrono agent ttlSecs now now claim.effect db next := by
  unfold claimNextTaskWithStatuses at claimed
  dsimp only at claimed
  split at claimed
  · cases claimed
    exact .of_prelude (.promote _ _ promotePending)
  · split at claimed
    · next task candidate first =>
      have member := List.mem_of_find?_eq_some first
      have idle := List.find?_some first
      have found := (db.tasks.mem_select.mp member).1
      refine assignLease_transaction promotePending found ?_ claimed
      simpa only [Bool.not_eq_true'] using idle
    · cases claimed
      exact .refl

/-- A renewal of the caller's own stored lease. -/
private theorem renewTaskLease_write {row : TaskRow} (start : Instant) {renewed : Option Instant}
    (found : db.task? task = some row) (holder : row.claimedBy = some agent)
    (renewal : db.renewTaskLeaseInTransaction chrono task ttlSecs row.leaseUntil now = .ok (next, renewed)) :
    LeaseWrite chrono agent ttlSecs start now db (renewed.elim .none (.renewed task)) next := by
  unfold renewTaskLeaseInTransaction at renewal
  split at renewal
  · next live =>
    split at renewal
    · cases renewal
    · next deadline computed =>
      cases renewal
      exact .renew found holder live computed
  · cases renewal
    exact .none

/-- `claim_task` never promotes, and it renews at the later of its two clock reads. -/
theorem claimTaskInDatabase_write {path : String} {renewNow : Instant} {claim : TaskClaim} {stored : Option Instant}
    (claimed : db.claimTaskInDatabase chrono task path agent ttlSecs now renewNow = .ok (next, claim, stored)) :
    LeaseWrite chrono agent ttlSecs now renewNow (db.ensureTaskExists task path) (claim.effect task stored)
      next := by
  obtain ⟨row, found⟩ : ∃ row, (db.ensureTaskExists task path).task? task = some row := by
    rw [task?_ensureTaskExists, if_pos rfl]
    exact ⟨_, rfl⟩
  have ownerRow : (db.ensureTaskExists task path).owner task = row.claimedBy := by
    rw [owner, found]
    rfl
  have leaseRow : (db.ensureTaskExists task path).leaseUntil task = row.leaseUntil := by
    rw [leaseUntil, found]
    rfl
  simp only [claimTaskInDatabase, ownerRow, leaseRow] at claimed
  split at claimed
  · split at claimed
    · next holder =>
      obtain ⟨⟨renewedDb, renewed⟩, renewal, same⟩ := map_eq_ok_iff.mp claimed
      cases same
      have write := renewTaskLease_write now found holder renewal
      cases renewed <;> exact write
    · cases claimed
      exact .none
  · next expired =>
    split at claimed
    · cases claimed
    · next deadline computed =>
      cases claimed
      exact .claim found (Bool.eq_false_iff.mpr expired) computed

theorem claimedTask?_eq_some {row : TaskRow} (claimed : db.claimedTask? agent = some (task, row)) :
    db.task? task = some row ∧ row.claimedBy = some agent := by
  obtain ⟨found, owned⟩ := db.tasks.mem_select.mp (List.argmax_mem claimed)
  exact ⟨found, of_decide_eq_true owned⟩

theorem renewClaimedTaskLease_write {renewal : LeaseRenewal}
    (renewed : db.renewClaimedTaskLease chrono agent ttlSecs now = .ok (next, renewal)) :
    LeaseWrite chrono agent ttlSecs now now db renewal.effect next := by
  unfold renewClaimedTaskLease at renewed
  split at renewed
  · cases renewed
    exact .none
  · next task row claimed =>
    obtain ⟨found, holder⟩ := claimedTask?_eq_some claimed
    obtain ⟨⟨renewedDb, deadline⟩, written, same⟩ := map_eq_ok_iff.mp renewed
    cases same
    have write := renewTaskLease_write now found holder written
    cases deadline <;> exact write

variable {canonicalize : String → Except String String} {scope : ExecutorSessionScope}

theorem renewExecutorSession_write {renewal : LeaseRenewal}
    (renewed : db.renewExecutorSessionLease canonicalize chrono scope ttlSecs now = .ok (next, renewal)) :
    LeaseWrite chrono scope.agentId ttlSecs now now db renewal.effect next := by
  obtain ⟨task, context, renewed⟩ := bind_eq_ok_iff.mp renewed
  -- The fence returns the stored row of the bound task.
  have found : db.task? scope.taskId = some task := by
    simp only [executorContextInTransaction, bind_eq_ok_iff] at context
    obtain ⟨_, _, _, _, _, _, _, _, _, _, _, _, row, bound, _, _, same⟩ := context
    cases same
    unfold required at bound
    split at bound
    · next value stored =>
      cases bound
      exact stored
    · cases bound
  split at renewed
  · next holder =>
    simp only [bind_eq_ok_iff] at renewed
    obtain ⟨_, _, ⟨renewedDb, deadline⟩, written, same⟩ := renewed
    cases same
    have write := renewTaskLease_write now found holder written
    cases deadline <;> exact write
  · cases renewed
    exact .none

end Database

variable (chrono) in
/-- Every claim and renewal is a lease transaction of its agent. -/
theorem LeaseEvent.apply_transaction (db : Database) (event : LeaseEvent) :
    LeaseTransaction chrono event.agent event.ttlSecs event.start event.finish (event.apply chrono db).2 db
      (event.apply chrono db).1 := by
  unfold apply
  split
  · next result done =>
    cases event with
    | call agent ttlSecs now call =>
      cases call with
      | claimReadyById task | claimReviewById task =>
        obtain ⟨_, claimed, rfl⟩ := map_eq_ok_iff.mp done
        exact claimReadyTask_transaction claimed
      | claimNextReady | claimNextReview =>
        obtain ⟨_, claimed, rfl⟩ := map_eq_ok_iff.mp done
        exact claimNextTask_transaction claimed
      | renewClaimed =>
        obtain ⟨_, renewed, rfl⟩ := map_eq_ok_iff.mp done
        exact .of_write (renewClaimedTaskLease_write renewed)
    | claimTask agent ttlSecs now renewNow task path =>
      obtain ⟨_, claimed, rfl⟩ := map_eq_ok_iff.mp done
      exact ⟨_, .ensure task path, claimTaskInDatabase_write claimed⟩
    | claimSession scope ttlSecs now canonicalize =>
      obtain ⟨_, claimed, rfl⟩ := map_eq_ok_iff.mp done
      obtain ⟨task, _, claimed⟩ := bind_eq_ok_iff.mp claimed
      split at claimed
      · exact claimReadyTask_transaction claimed
      · cases claimed
        exact .refl
    | renewSession scope ttlSecs now canonicalize =>
      obtain ⟨_, renewed, rfl⟩ := map_eq_ok_iff.mp done
      exact .of_write (renewExecutorSession_write renewed)
  · exact .refl

/-! ## The lease columns -/

/-- An update of one row leaves the lease columns of the others alone. -/
theorem Database.sameLeasesExcept_updateTask (db : Database) (task : TaskId) (change : TaskRow → TaskRow) :
    SameLeasesExcept task db (db.updateTask task change) := by
  intro other ne
  rw [owner, leaseUntil, task?_updateTask, if_neg ne]
  exact ⟨rfl, rfl⟩

theorem LeasePrelude.sameLeases {db mid : Database} (prelude : LeasePrelude db mid) (task : TaskId) :
    mid.owner task = db.owner task ∧ mid.leaseUntil task = db.leaseUntil task := by
  cases prelude with
  | none => exact ⟨rfl, rfl⟩
  | ensure inserted path =>
    rw [owner, leaseUntil, task?_ensureTaskExists, owner, leaseUntil]
    split_ifs with same
    · subst same
      -- a row that is inserted because it was missing has no lease
      cases db.task? task <;> exact ⟨rfl, rfl⟩
    · exact ⟨rfl, rfl⟩
  | promote promoted candidate promotePending =>
    unfold promotePendingTaskInTransaction
    split
    · rw [owner, leaseUntil, task?_recordEvent, task?_updateTask, owner, leaseUntil]
      cases db.task? task with
      | none => split_ifs <;> exact ⟨rfl, rfl⟩
      | some row =>
        by_cases pending : row.status = .pending <;> split_ifs <;> simp [TaskRow.promote, pending]
    · exact ⟨rfl, rfl⟩

section

variable {agent : AgentId} {ttlSecs : Nat} {start finish : Instant} {effect : LeaseEffect}
  {db mid next : Database}

/-- The move is decided by the lease columns of the start alone. -/
theorem LeaseMove.of_same_start
    (same : ∀ task, mid.owner task = db.owner task ∧ mid.leaseUntil task = db.leaseUntil task)
    (move : LeaseMove chrono agent ttlSecs start finish effect mid next) :
    LeaseMove chrono agent ttlSecs start finish effect db next := by
  have transfer {task : TaskId} (rest : SameLeasesExcept task mid next) : SameLeasesExcept task db next :=
    fun other ne => ⟨(rest other ne).1.trans (same other).1, (rest other ne).2.trans (same other).2⟩
  cases move with
  | kept unchanged =>
    exact .kept fun task =>
      ⟨(unchanged task).1.trans (same task).1, (unchanged task).2.trans (same task).2⟩
  | claimed expired computed owned stored rest =>
    rw [(same _).2] at expired
    exact .claimed expired computed owned stored (transfer rest)
  | renewed live holder computed owned stored rest =>
    rw [(same _).2] at live
    rw [(same _).1] at holder
    exact .renewed live holder computed owned stored (transfer rest)

theorem LeaseWrite.move (write : LeaseWrite chrono agent ttlSecs start finish db effect next) :
    LeaseMove chrono agent ttlSecs start finish effect db next := by
  cases write with
  | none => exact .kept fun _ => ⟨rfl, rfl⟩
  | @claim task row deadline found expired computed =>
    have written : (db.claimTaskInTransaction chrono task agent deadline start).task? task =
        some (row.claim chrono agent deadline start) := by
      rw [claimTaskInTransaction, task?_recordEvent, task?_updateTask_self, found]
      rfl
    refine .claimed ?_ computed ?_ ?_ (db.sameLeasesExcept_updateTask task _)
    · rw [leaseUntil, found]
      exact expired
    · rw [owner, written]
      rfl
    · rw [leaseUntil, written]
      rfl
  | @renew task row deadline found holder live computed =>
    have written : ((db.updateTask task (·.renew chrono deadline finish)).recordEvent
        "task_lease_renewed").task? task = some (row.renew chrono deadline finish) := by
      rw [task?_recordEvent, task?_updateTask_self, found]
      rfl
    refine .renewed ?_ ?_ computed ?_ ?_ (db.sameLeasesExcept_updateTask task _)
    · rw [leaseUntil, found]
      exact live
    · rw [owner, found]
      exact holder
    · rw [owner, written]
      exact holder
    · rw [leaseUntil, written]
      rfl

end

variable (chrono) in
/-- Every claim and renewal is a move of its agent between its two clock reads. -/
theorem LeaseEvent.apply_move (db : Database) (event : LeaseEvent) :
    LeaseMove chrono event.agent event.ttlSecs event.start event.finish (event.apply chrono db).2 db
      (event.apply chrono db).1 := by
  obtain ⟨mid, prelude, write⟩ := event.apply_transaction chrono db
  exact .of_same_start prelude.sameLeases write.move

end Ferrus.Runtime

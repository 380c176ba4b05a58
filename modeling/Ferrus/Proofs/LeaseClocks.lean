import Ferrus.Model.Runtime.LeaseEvents

/-! # When a lease operation comes to a deadline

A claim that finds the caller's own lease, or nothing to claim, computes no deadline; neither does a renewal without a
live lease. Every other operation adds its TTL to one reading of the clock, and fails if the calendar has no such date.
-/

namespace Ferrus.Runtime

open Database LeaseEvent

variable (chrono : Chrono)

/-- The task may be claimed: its status is one of these and nobody has a live lease on it. -/
def Database.isClaimable (db : Database) (statuses : List TaskStatus) (now : Instant) (id : TaskId) : Bool :=
  (db.task? id).any fun row => row.status ∈ statuses && !chrono.leaseActive now row.leaseUntil

/-- A claim of the next task takes a new one: the caller has no live lease in the queue, and some task has none. -/
def Database.takesNext (db : Database) (agent : AgentId) (statuses : List TaskStatus) (now : Instant) : Bool :=
  let queue := db.tasks.select fun _ row => row.status ∈ statuses
  (queue.find? fun (_, row) => chrono.leaseActive now row.leaseUntil && row.claimedBy = some agent).isNone &&
    (queue.find? fun (_, row) => !chrono.leaseActive now row.leaseUntil).isSome

/-- The clock reading from which an event computes a deadline, if it comes to that. -/
def LeaseEvent.deadlineClock? (db : Database) : LeaseEvent → Option Instant
  | call _ _ now (.claimReadyById task) =>
      if db.isClaimable chrono [.pending, .executing, .addressing] now task then some now else none
  | call _ _ now (.claimReviewById task) => if db.isClaimable chrono [.reviewing] now task then some now else none
  | call agent _ now .claimNextReady =>
      if db.takesNext chrono agent [.pending, .executing, .addressing] now then some now else none
  | call agent _ now .claimNextReview => if db.takesNext chrono agent [.reviewing] now then some now else none
  | call agent _ now .renewClaimed =>
      if (db.claimedTask? agent).any (chrono.leaseActive now ·.2.leaseUntil) then some now else none
  | claimTask agent _ now renewNow task path =>
      let db := db.ensureTaskExists task path
      if !chrono.leaseActive now (db.leaseUntil task) then some now
      else if db.owner task = some agent && chrono.leaseActive renewNow (db.leaseUntil task) then some renewNow
      else none
  | claimSession scope _ now canonicalize =>
      match db.executorContextInTransaction canonicalize scope .executor with
      | .ok task =>
          if resumesExecutorWork task scope.agentId && db.isClaimable chrono
            [.pending, .executing, .addressing, .awaitingHuman, .consultation] now scope.taskId then some now else none
      | .error _ => none
  | renewSession scope _ now canonicalize =>
      match db.executorContextInTransaction canonicalize scope .executor with
      | .ok task =>
          if task.claimedBy = some scope.agentId && inExecutorWorkPhase task.status &&
            chrono.leaseActive now task.leaseUntil then some now else none
      | .error _ => none

/-- The same clock with dates that have no end. -/
def Chrono.unbounded (chrono : Chrono) : Chrono :=
  { chrono with add := fun instant duration => some (instant + duration) }

@[simp] theorem Chrono.leaseActive_unbounded : chrono.unbounded.leaseActive = chrono.leaseActive := rfl

@[simp] theorem Chrono.parseLeaseUntil_unbounded : chrono.unbounded.parseLeaseUntil = chrono.parseLeaseUntil := rfl

/-- What an operation comes to with the calendar and with the one that has no end: it leaves the leases alone, or writes
the deadline that it computes from a reading of the clock and fails if there is none. -/
inductive LeaseDecision (start finish : Instant) (ttlSecs : Nat)
    (bounded endless : Except String (Database × LeaseEffect)) : Option Instant → Prop
  | idle (same : endless = bounded) (idle : ∀ next effect, bounded = .ok (next, effect) → effect = .none) :
      LeaseDecision start finish ttlSecs bounded endless none
  | claimed (task : TaskId) (write : Instant → Database)
      (isBounded : bounded = (chrono.leaseDeadline start ttlSecs).elim (.error overflowed) fun deadline =>
        .ok (write deadline, .claimed task deadline))
      (isEndless : endless = (chrono.unbounded.leaseDeadline start ttlSecs).elim (.error overflowed) fun deadline =>
        .ok (write deadline, .claimed task deadline)) : LeaseDecision start finish ttlSecs bounded endless (some start)
  | renewed (task : TaskId) (write : Instant → Database)
      (isBounded : bounded = (chrono.leaseDeadline finish ttlSecs).elim (.error overflowed) fun deadline =>
        .ok (write deadline, .renewed task deadline))
      (isEndless : endless = (chrono.unbounded.leaseDeadline finish ttlSecs).elim (.error overflowed) fun deadline =>
        .ok (write deadline, .renewed task deadline)) : LeaseDecision start finish ttlSecs bounded endless (some finish)

variable {chrono} {start finish now : Instant} {ttlSecs : Nat} {agent : AgentId} {db : Database} {task : TaskId}

theorem Chrono.leaseActive_eq (chrono : Chrono) (leaseUntil : Option String) :
    chrono.leaseActive now leaseUntil = ((chrono.parseLeaseUntil leaseUntil).filter (now < ·)).isSome := by
  rw [leaseActive, Option.isSome_filter]

theorem LeaseDecision.of_none {next : Database} :
    LeaseDecision chrono start finish ttlSecs (.ok (next, .none)) (.ok (next, .none)) none :=
  .idle rfl (by rintro _ _ ⟨⟩; rfl)

private theorem map_assignLease (candidate : TaskRow) :
    (db.assignLease chrono task candidate agent ttlSecs now).map (.map id ReadyTaskClaim.effect) =
      (chrono.leaseDeadline now ttlSecs).elim (.error overflowed) fun deadline =>
        .ok (db.claimTaskInTransaction chrono task agent deadline now, .claimed task deadline) := by
  unfold assignLease
  cases chrono.leaseDeadline now ttlSecs <;> rfl

private theorem claimReadyTask_decision (statuses : List TaskStatus) (promotePending : Bool) :
    LeaseDecision chrono now finish ttlSecs
      ((db.claimReadyTaskInTransaction chrono task agent ttlSecs statuses promotePending now).map
        (.map id ReadyTaskClaim.effect))
      ((db.claimReadyTaskInTransaction chrono.unbounded task agent ttlSecs statuses promotePending now).map
        (.map id ReadyTaskClaim.effect)) (if db.isClaimable chrono statuses now task then some now else none) := by
  unfold isClaimable claimReadyTaskInTransaction
  cases db.task? task with
  | none => exact .of_none
  | some row =>
    by_cases queued : row.status ∈ statuses
    · simp only [Option.any_some, queued, decide_true, Bool.true_and, not_true_eq_false, if_false,
        Chrono.leaseActive_unbounded, Chrono.parseLeaseUntil_unbounded]
      cases live : (chrono.parseLeaseUntil row.leaseUntil).filter (now < ·) with
      | none =>
        have dead : chrono.leaseActive now row.leaseUntil = false := by rw [chrono.leaseActive_eq, live]; rfl
        simp only [dead, Bool.not_false, if_true, Bool.false_eq_true, false_and, if_false]
        exact .claimed task _ (map_assignLease _) (map_assignLease _)
      | some deadline =>
        have active : chrono.leaseActive now row.leaseUntil = true := by rw [chrono.leaseActive_eq, live]; rfl
        simp only [active, Bool.not_true, Bool.false_eq_true, if_false, true_and]
        by_cases own : row.claimedBy = some agent
        · simp only [own, ne_eq, not_true_eq_false, if_false, if_true]
          exact .of_none
        · simp only [own, ne_eq, not_false_eq_true, if_true]
          exact .of_none
    · simp only [Option.any_some, queued, decide_false, Bool.false_and, Bool.false_eq_true, if_false, not_false_eq_true,
        if_true]
      exact .of_none

private theorem claimNextTask_decision (statuses : List TaskStatus) (promotePending : Bool) :
    LeaseDecision chrono now finish ttlSecs
      ((db.claimNextTaskWithStatuses chrono agent ttlSecs statuses promotePending now).map
        (.map id ReadyTaskClaim.effect))
      ((db.claimNextTaskWithStatuses chrono.unbounded agent ttlSecs statuses promotePending now).map
        (.map id ReadyTaskClaim.effect)) (if db.takesNext chrono agent statuses now then some now else none) := by
  cases held : (db.tasks.select fun _ row => row.status ∈ statuses).find? (fun entry =>
    chrono.leaseActive now entry.2.leaseUntil && entry.2.claimedBy = some agent) with
  | some entry =>
    simp only [takesNext, claimNextTaskWithStatuses, Chrono.leaseActive_unbounded, held, Option.isNone_some,
      Bool.false_and, Bool.false_eq_true, if_false]
    exact .of_none
  | none =>
    cases free : (db.tasks.select fun _ row => row.status ∈ statuses).find? (fun entry =>
      !chrono.leaseActive now entry.2.leaseUntil) with
    | some entry =>
      simp only [takesNext, claimNextTaskWithStatuses, Chrono.leaseActive_unbounded, held, free, Option.isNone_none,
        Option.isSome_some, Bool.and_self, if_true]
      exact .claimed entry.1 _ (map_assignLease _) (map_assignLease _)
    | none =>
      simp only [takesNext, claimNextTaskWithStatuses, Chrono.leaseActive_unbounded, held, free, Option.isSome_none,
        Bool.and_false, Bool.false_eq_true, if_false]
      exact .of_none

/-- What an operation makes of a renewal. -/
private theorem renewTaskLease_decision
    (report : Except String (Database × Option Instant) → Except String (Database × LeaseEffect))
    (lease : Option String) (expired : report (.ok (db, none)) = .ok (db, .none))
    (renewed : ∀ next deadline, report (.ok (next, some deadline)) = .ok (next, .renewed task deadline))
    (failed : ∀ message, report (.error message) = .error message) :
    LeaseDecision chrono start now ttlSecs (report (db.renewTaskLeaseInTransaction chrono task ttlSecs lease now))
      (report (db.renewTaskLeaseInTransaction chrono.unbounded task ttlSecs lease now))
      (if chrono.leaseActive now lease then some now else none) := by
  cases live : chrono.leaseActive now lease with
  | true =>
    refine .renewed task
      (fun deadline => (db.updateTask task (·.renew chrono deadline now)).recordEvent "task_lease_renewed") ?_ ?_
    · rw [renewTaskLeaseInTransaction, if_pos live]
      cases chrono.leaseDeadline now ttlSecs with
      | none => exact failed _
      | some deadline => exact renewed _ deadline
    · rw [renewTaskLeaseInTransaction, Chrono.leaseActive_unbounded, if_pos live]
      cases chrono.unbounded.leaseDeadline now ttlSecs with
      | none => exact failed _
      | some deadline => exact renewed _ deadline
  | false =>
    simp only [renewTaskLeaseInTransaction, Chrono.leaseActive_unbounded, live, Bool.false_eq_true, if_false, expired]
    exact .of_none

/-- An event comes to a deadline exactly where its clock reading says so. -/
theorem LeaseEvent.transaction_decision (chrono : Chrono) (db : Database) (event : LeaseEvent) :
    LeaseDecision chrono event.start event.finish event.ttlSecs (event.transaction chrono db)
      (event.transaction chrono.unbounded db) (event.deadlineClock? chrono db) := by
  cases event with
  | call agent ttlSecs now call =>
    cases call with
    | claimReadyById | claimReviewById => exact claimReadyTask_decision _ _
    | claimNextReady | claimNextReview => exact claimNextTask_decision _ _
    | renewClaimed =>
      simp only [deadlineClock?, transaction, renewClaimedTaskLease]
      cases db.claimedTask? agent with
      | none => exact .of_none
      | some claimed =>
        exact renewTaskLease_decision (fun result => Except.map _ (Except.map _ result)) _ rfl (fun _ _ => rfl)
          fun _ => rfl
  | claimTask agent ttlSecs now renewNow task path =>
    simp only [deadlineClock?, transaction, claimTaskInDatabase, Chrono.leaseActive_unbounded]
    cases chrono.leaseActive now ((db.ensureTaskExists task path).leaseUntil task) with
    | false =>
      refine .claimed task
        (fun deadline => (db.ensureTaskExists task path).claimTaskInTransaction chrono task agent deadline now)
        ?_ ?_
      · simp only [start, LeaseEvent.ttlSecs]
        cases chrono.leaseDeadline now ttlSecs <;> rfl
      · simp only [start, LeaseEvent.ttlSecs]
        cases chrono.unbounded.leaseDeadline now ttlSecs <;> rfl
    | true =>
      by_cases own : (db.ensureTaskExists task path).owner task = some agent
      · simp only [own, if_true, decide_true, Bool.true_and, Bool.not_true, Bool.false_eq_true, if_false]
        exact renewTaskLease_decision (fun result => Except.map _ (Except.map _ result)) _ rfl (fun _ _ => rfl)
          fun _ => rfl
      · simp only [own, if_true, if_false, decide_false, Bool.false_and, Bool.not_true, Bool.false_eq_true]
        exact .of_none
  | claimSession scope ttlSecs now canonicalize =>
    simp only [deadlineClock?, transaction, claimExecutorSession]
    cases db.executorContextInTransaction canonicalize scope .executor with
    | error message => exact .idle rfl (by rintro _ _ ⟨⟩)
    | ok row =>
      dsimp only [bind, Except.bind]
      cases resumesExecutorWork row scope.agentId with
      | false => exact .of_none
      | true => exact claimReadyTask_decision _ _
  | renewSession scope ttlSecs now canonicalize =>
    simp only [deadlineClock?, transaction, renewExecutorSessionLease]
    cases db.executorContextInTransaction canonicalize scope .executor with
    | error message => exact .idle rfl (by rintro _ _ ⟨⟩)
    | ok row =>
      dsimp only [bind, Except.bind]
      by_cases own : row.claimedBy = some scope.agentId
      · simp only [own, if_true, decide_true, Bool.true_and]
        cases inExecutorWorkPhase row.status with
        | false => exact .idle rfl (by rintro _ _ ⟨⟩)
        | true =>
          exact renewTaskLease_decision (fun result => Except.map (.map id LeaseRenewal.effect)
            (result >>= fun renewal =>
              pure (renewal.1, renewal.2.elim .expired (.renewed scope.taskId row.path scope.agentId))))
            _ rfl (fun _ _ => rfl) fun _ => rfl
      · simp only [own, if_false, decide_false, Bool.false_and, Bool.false_eq_true]
        exact .of_none

end Ferrus.Runtime

import Ferrus.Proofs.LeaseClocks
import Ferrus.Soundness.LeaseExclusivity

/-! # The deadline that is reported and the one that is stored

A claim reports the deadline it computed and stores the second it lies in. The two agree exactly for a deadline on a
whole second of a four-digit year, and then nobody else gets the task before the reported instant. The deadline
itself needs a TTL that neither wraps nor leaves the calendar.
-/

namespace Ferrus.Runtime

open Ferrus.Machine UtcClock Database LeaseEvent

/-- The task and deadline of a reply. -/
def ReadyTaskClaim.reported : ReadyTaskClaim → Option (TaskId × Instant)
  | .claimed lease | .alreadyClaimed lease => some (lease.taskId, lease.leaseUntil)
  | .noAvailable => none

@[inherit_doc ReadyTaskClaim.reported]
def LeaseRenewal.reported : LeaseRenewal → Option (TaskId × Instant)
  | .renewed task _ _ leaseUntil => some (task, leaseUntil)
  | .expired | .notClaimed => none

/-- What a committed transaction tells its caller. -/
def replied {α : Type} (reported : α → Option (TaskId × Instant)) :
    Except String (Database × α) → Option (TaskId × Instant)
  | .ok (_, reply) => reported reply
  | .error _ => none

variable (chrono : Chrono)

/-- The deadline that an event reports; `claim_task` drops the one it computed. -/
def LeaseEvent.reported (db : Database) : LeaseEvent → Option (TaskId × Instant)
  | call agent ttlSecs now (.claimReadyById task) =>
      replied ReadyTaskClaim.reported (db.claimReadyTaskById chrono task agent ttlSecs now)
  | call agent ttlSecs now (.claimReviewById task) =>
      replied ReadyTaskClaim.reported (db.claimReviewTaskById chrono task agent ttlSecs now)
  | call agent ttlSecs now .claimNextReady =>
      replied ReadyTaskClaim.reported (db.claimNextReadyTask chrono agent ttlSecs now)
  | call agent ttlSecs now .claimNextReview =>
      replied ReadyTaskClaim.reported (db.claimNextReviewTask chrono agent ttlSecs now)
  | call agent ttlSecs now .renewClaimed =>
      replied LeaseRenewal.reported (db.renewClaimedTaskLease chrono agent ttlSecs now)
  | claimTask .. => none
  | claimSession scope ttlSecs now canonicalize =>
      replied ReadyTaskClaim.reported (db.claimExecutorSession canonicalize chrono scope ttlSecs now)
  | renewSession scope ttlSecs now canonicalize =>
      replied LeaseRenewal.reported (db.renewExecutorSessionLease canonicalize chrono scope ttlSecs now)

/-- The store gives the task to the agent until exactly the deadline. -/
def Database.Held (db : Database) (agent : AgentId) (task : TaskId) (deadline : Instant) : Prop :=
  db.owner task = some agent ∧ chrono.parseLeaseUntil (db.leaseUntil task) = some deadline

/-- The deadline that the event reports, if it computes one, is a whole second of a four-digit year. -/
def LeaseEvent.ExactDeadline (db : Database) : LeaseEvent → Prop
  | .claimTask .. => True
  | event => ∀ now ∈ event.deadlineClock? chrono db, ∀ deadline ∈ chrono.leaseDeadline now event.ttlSecs,
      FourDigitYear deadline ∧ wholeSecond deadline = deadline

instance (db : Database) : DecidablePred (LeaseEvent.ExactDeadline chrono db)
  | .claimTask .. => .isTrue trivial
  | .call .. | .claimSession .. | .renewSession .. => inferInstanceAs (Decidable (∀ now ∈ _, ∀ deadline ∈ _, _ ∧ _))

variable {chrono} {db next : Database} {agent : AgentId} {task : TaskId} {deadline : Instant}

namespace Database

private theorem held_promote {candidate : TaskRow} {promotePending : Bool} (found : db.task? task = some candidate)
    (holder : candidate.claimedBy = some agent) (parsed : chrono.parseLeaseUntil candidate.leaseUntil = some deadline) :
    (db.promotePendingTaskInTransaction task candidate promotePending).1.Held chrono agent task deadline := by
  have prelude : LeasePrelude db _ := .promote task candidate promotePending
  obtain ⟨sameOwner, sameLease⟩ := prelude.sameLeases task
  rw [Held, sameOwner, sameLease, owner, leaseUntil, found]
  exact ⟨holder, parsed⟩

variable {ttlSecs : Nat} {statuses : List TaskStatus} {promotePending : Bool} {now : Instant} {lease : TaskLease}

theorem claimReadyTask_held
    (claimed : db.claimReadyTaskInTransaction chrono task agent ttlSecs statuses promotePending now =
      .ok (next, .alreadyClaimed lease)) : next.Held chrono agent lease.taskId lease.leaseUntil := by
  have assigned {db : Database} {candidate : TaskRow} :
      db.assignLease chrono task candidate agent ttlSecs now ≠ .ok (next, .alreadyClaimed lease) := by
    unfold assignLease
    split <;> simp
  unfold claimReadyTaskInTransaction at claimed
  split at claimed
  · cases claimed
  · next candidate found =>
    split at claimed
    · cases claimed
    · split at claimed
      · cases claimed
      · dsimp only at claimed
        split at claimed
        · next stored live =>
          split at claimed
          · next holder =>
            cases claimed
            exact held_promote found holder (Option.filter_eq_some_iff.mp live).1
          · exact absurd claimed assigned
        · exact absurd claimed assigned

theorem claimNextTask_held (claimed : db.claimNextTaskWithStatuses chrono agent ttlSecs statuses promotePending now =
      .ok (next, .alreadyClaimed lease)) : next.Held chrono agent lease.taskId lease.leaseUntil := by
  unfold claimNextTaskWithStatuses at claimed
  dsimp only at claimed
  split at claimed
  · next id candidate first =>
    have found := (db.tasks.mem_select.mp (List.mem_of_find?_eq_some first)).1
    have accepted := List.find?_some first
    simp only [Bool.and_eq_true, decide_eq_true_eq] at accepted
    obtain ⟨stored, parsed, -⟩ := chrono.leaseActive_iff.mp accepted.1
    cases claimed
    refine held_promote found accepted.2 (parsed.trans ?_)
    rw [parsed]
    rfl
  · split at claimed
    · unfold assignLease at claimed
      split at claimed <;> cases claimed
    · cases claimed

end Database

namespace LeaseEvent

variable {event : LeaseEvent} {now : Instant}

private theorem apply_of_ok {result : Database × LeaseEffect} (done : event.transaction chrono db = .ok result) :
    event.apply chrono db = result := by
  unfold apply
  rw [done]

/-- The event writes a lease that it computed at one of its clock readings. -/
def Grants (chrono : Chrono) (db : Database) (event : LeaseEvent) (task : TaskId) (now deadline : Instant) : Prop :=
  (event.apply chrono db).2 = .claimed task deadline ∧ now = event.start ∨
    (event.apply chrono db).2 = .renewed task deadline ∧ now = event.finish

/-- A computed deadline is written. -/
theorem grants_of_clock (read : event.deadlineClock? chrono db = some now)
    (computed : chrono.leaseDeadline now event.ttlSecs = some deadline) :
    ∃ task, event.Grants chrono db task now deadline := by
  have decision := event.transaction_decision chrono db
  rw [read] at decision
  cases decision with
  | claimed task write isBounded =>
    rw [computed] at isBounded
    exact ⟨task, .inl ⟨congrArg Prod.snd (apply_of_ok isBounded), rfl⟩⟩
  | renewed task write isBounded =>
    rw [computed] at isBounded
    exact ⟨task, .inr ⟨congrArg Prod.snd (apply_of_ok isBounded), rfl⟩⟩

section

variable (granted : event.Grants chrono db task now deadline)

include granted

theorem Grants.clock :
    event.deadlineClock? chrono db = some now ∧ chrono.leaseDeadline now event.ttlSecs = some deadline := by
  have decision := event.transaction_decision chrono db
  unfold Grants apply at granted
  generalize event.deadlineClock? chrono db = clock? at decision ⊢
  cases decision with
  | idle _ idle =>
    cases done : event.transaction chrono db with
    | error => simp [done] at granted
    | ok result => simp [done, idle result.1 result.2 done] at granted
  | claimed other write isBounded =>
    rw [isBounded] at granted
    cases computed : chrono.leaseDeadline event.start event.ttlSecs <;> simp [computed] at granted
    obtain ⟨⟨-, rfl⟩, rfl⟩ := granted
    exact ⟨rfl, computed⟩
  | renewed other write isBounded =>
    rw [isBounded] at granted
    cases computed : chrono.leaseDeadline event.finish event.ttlSecs <;> simp [computed] at granted
    obtain ⟨⟨-, rfl⟩, rfl⟩ := granted
    exact ⟨rfl, computed⟩

theorem Grants.stored : (event.apply chrono db).1.owner task = some event.agent ∧
    (event.apply chrono db).1.leaseUntil task = some (chrono.toRfc3339Secs deadline) := by
  have move := event.apply_move chrono db
  rcases granted with ⟨isEffect, -⟩ | ⟨isEffect, -⟩
  · rw [isEffect] at move
    cases move with
    | claimed _ _ owned stored => exact ⟨owned, stored⟩
  · rw [isEffect] at move
    cases move with
    | renewed _ _ _ owned stored => exact ⟨owned, stored⟩

end

/-- A claim reports what it writes or what it has read. -/
private theorem claim_reported_iff {result : Except String (Database × ReadyTaskClaim)}
    (done : event.transaction chrono db = result.map (.map id ReadyTaskClaim.effect)) :
    replied ReadyTaskClaim.reported result = some (task, deadline) ↔ (∃ now, event.Grants chrono db task now deadline) ∨
      ∃ next lease, result = .ok (next, .alreadyClaimed lease) ∧ lease.taskId = task ∧ lease.leaseUntil = deadline := by
  unfold Grants apply
  rw [done]
  obtain _ | ⟨next, reply⟩ := result
  · simp [replied, Except.map]
  · cases reply <;> simp [replied, Except.map, ReadyTaskClaim.effect, ReadyTaskClaim.reported]

private theorem renewal_reported_iff {result : Except String (Database × LeaseRenewal)}
    (done : event.transaction chrono db = result.map (.map id LeaseRenewal.effect)) :
    replied LeaseRenewal.reported result = some (task, deadline) ↔ ∃ now, event.Grants chrono db task now deadline := by
  unfold Grants apply
  rw [done]
  obtain _ | ⟨next, reply⟩ := result
  · simp [replied, Except.map]
  · cases reply <;> simp [replied, Except.map, LeaseRenewal.effect, LeaseRenewal.reported]

/-- What is written is reported. -/
theorem Grants.reported (granted : event.Grants chrono db task now deadline)
    (reports : ∀ agent ttlSecs now renewNow task path, event ≠ claimTask agent ttlSecs now renewNow task path) :
    event.reported chrono db = some (task, deadline) := by
  cases event with
  | call agent ttlSecs now call =>
    cases call with
    | claimReadyById | claimReviewById | claimNextReady | claimNextReview =>
      exact (claim_reported_iff rfl).mpr (.inl ⟨_, granted⟩)
    | renewClaimed => exact (renewal_reported_iff rfl).mpr ⟨_, granted⟩
  | claimTask => exact absurd rfl (reports _ _ _ _ _ _)
  | claimSession => exact (claim_reported_iff rfl).mpr (.inl ⟨_, granted⟩)
  | renewSession => exact (renewal_reported_iff rfl).mpr ⟨_, granted⟩

section

variable (reported : event.reported chrono db = some (task, deadline))

include reported

theorem reported_cases : (∃ now, event.Grants chrono db task now deadline) ∨
    (event.apply chrono db).1.Held chrono event.agent task deadline := by
  have claims {result : Except String (Database × ReadyTaskClaim)}
      (done : event.transaction chrono db = result.map (.map id ReadyTaskClaim.effect))
      (told : replied ReadyTaskClaim.reported result = some (task, deadline))
      (held : ∀ {next lease}, result = .ok (next, .alreadyClaimed lease) →
        next.Held chrono event.agent lease.taskId lease.leaseUntil) :
      (∃ now, event.Grants chrono db task now deadline) ∨
        (event.apply chrono db).1.Held chrono event.agent task deadline := by
    refine ((claim_reported_iff done).mp told).imp_right ?_
    rintro ⟨next, lease, rfl, rfl, rfl⟩
    rw [apply_of_ok done]
    exact held rfl
  cases event with
  | call agent ttlSecs now call =>
    cases call with
    | claimReadyById | claimReviewById => exact claims rfl reported claimReadyTask_held
    | claimNextReady | claimNextReview => exact claims rfl reported claimNextTask_held
    | renewClaimed => exact .inl ((renewal_reported_iff rfl).mp reported)
  | claimTask => cases reported
  | claimSession scope ttlSecs now canonicalize =>
    refine claims rfl reported fun claimed => ?_
    obtain ⟨row, -, claimed⟩ := Except.bind_eq_ok_iff.mp claimed
    split at claimed
    · exact claimReadyTask_held claimed
    · cases claimed
  | renewSession => exact .inl ((renewal_reported_iff rfl).mp reported)

/-- The caller of a report owns the task. -/
theorem reported_owner : (event.apply chrono db).1.owner task = some event.agent :=
  (reported_cases reported).elim (fun ⟨_, granted⟩ => granted.stored.1) And.left

/-- The text of a deadline on a whole second of a four-digit year is read back as it. -/
theorem held_of_reported (readsBack : chrono.ReadsBack) (exactly : event.ExactDeadline chrono db) :
    (event.apply chrono db).1.Held chrono event.agent task deadline := by
  rcases reported_cases reported with ⟨now, granted⟩ | held
  · obtain ⟨read, computed⟩ := granted.clock
    have isExact : FourDigitYear deadline ∧ wholeSecond deadline = deadline := by
      cases event with
      | claimTask => cases reported
      | call | claimSession | renewSession => exact exactly now read deadline computed
    obtain ⟨owned, stored⟩ := granted.stored
    exact ⟨owned, stored ▸ (readsBack deadline isExact.1).trans (congrArg some isExact.2)⟩
  · exact held

end

/-- Another agent's event before the deadline leaves the lease alone. -/
theorem held_step (held : db.Held chrono agent task deadline) (other : event.agent ≠ agent)
    (early : event.start < deadline) : (event.apply chrono db).1.Held chrono agent task deadline := by
  have move := event.apply_move chrono db
  generalize event.apply chrono db = result at move
  obtain ⟨next, effect⟩ := result
  have unchanged (same : next.owner task = db.owner task ∧ next.leaseUntil task = db.leaseUntil task) :
      next.Held chrono agent task deadline := by
    rw [Database.Held, same.1, same.2]
    exact held
  cases move with
  | kept same => exact unchanged (same task)
  | @claimed _ _ leased _ expired _ _ _ rest =>
    refine unchanged (rest task fun here => ?_)
    have live : chrono.leaseActive event.start (db.leaseUntil task) = true :=
      chrono.leaseActive_iff.mpr ⟨deadline, held.2, early⟩
    rw [here, expired] at live
    cases live
  | @renewed _ _ leased _ _ holder _ _ _ rest =>
    refine unchanged (rest task fun here => ?_)
    subst here
    exact other (Option.some.inj (holder.symm.trans held.1))

end LeaseEvent

theorem LeaseEvent.deadlineClock?_mem {event : LeaseEvent} {now : Instant}
    (read : event.deadlineClock? chrono db = some now) : now ∈ [event.start, event.finish] := by
  have decision := event.transaction_decision chrono db
  rw [read] at decision
  cases decision <;> simp

/-- The store gives the task to the caller until the deadline, and no other agent gets it before. -/
def Enforces (chrono : Chrono) (db : Database) (agent : AgentId) (task : TaskId) (deadline : Instant) : Prop :=
  db.Held chrono agent task deadline ∧
    ∀ others : List LeaseEvent, (∀ other ∈ others, other.agent ≠ agent ∧ other.start < deadline) →
      EveryStep (fun db (other : LeaseEvent) => (other.apply chrono db).1)
        (fun db other next => next.owner task = some agent ∧
          ∀ later, other.reported chrono db ≠ some (task, later)) db others

private theorem enforces_of_held (held : db.Held chrono agent task deadline) :
    Enforces chrono db agent task deadline := by
  refine ⟨held, fun others rivals => ?_⟩
  induction others generalizing db with
  | nil => trivial
  | cons other rest ih =>
    obtain ⟨different, early⟩ := rivals other (by simp)
    have after := held_step held different early
    refine ⟨⟨after.1, fun later told => ?_⟩, ih after fun next member => rivals next (by simp [member])⟩
    exact different (Option.some.inj ((reported_owner told).symm.trans after.1))

/-- A claim on the whole second. -/
def wholeSecondClaim : LeaseEvent := .call "executor:codex:1" 90 (newYear 0) .claimNextReady

/-- A claim half a second into the minute. -/
def halfSecondClaim : LeaseEvent := .call "executor:codex:1" 10 (newYear 0 + 500000000) .claimNextReady

/-- The first instant after a TTL. -/
def ttlEnd (now : Int) (ttlSecs : Nat) : Int := now + ttlSecs * 1000000000

/-- Where the event computes a deadline, the TTL ends in a four-digit year, and not before the clock reading once it is
cut to its second. -/
def LeaseEvent.FitsCalendar (chrono : Chrono) (db : Database) (event : LeaseEvent) : Prop :=
  ∀ now ∈ event.deadlineClock? chrono db, FourDigitYear (ttlEnd now event.ttlSecs) ∧
    (1 ≤ event.ttlSecs ∨ wholeSecond now = now)

instance (db : Database) (event : LeaseEvent) : Decidable (event.FitsCalendar chrono db) :=
  inferInstanceAs (Decidable (∀ now ∈ event.deadlineClock? chrono db, _ ∧ (_ ∨ _)))

theorem Chrono.Bounded.eq_of_add {now duration deadline : Int} (bounded : chrono.Bounded)
    (added : chrono.add now duration = some deadline) : deadline = now + duration := by
  rw [bounded.add] at added
  split_ifs at added
  exact (Option.some.inj added).symm

/-- An unsigned number keeps its value or turns negative. -/
private theorem asI64_cases {value : Nat} (wide : value ≤ 18446744073709551615) :
    asI64 value = value ∨ asI64 value < 0 := by
  have isWidth : asI64 value = (value : Int).bmod 18446744073709551616 := rfl
  rw [isWidth, Int.bmod_def]
  omega

section

variable {now deadline : Int} {ttlSecs : Nat} (bounded : chrono.Bounded) (representable : InCalendar now)

include bounded representable

/-- A TTL that ends in a four-digit year neither wraps nor saturates. -/
private theorem leaseDeadline_of_fourDigitYear (fits : FourDigitYear (ttlEnd now ttlSecs)) :
    chrono.leaseDeadline now ttlSecs = some (ttlEnd now ttlSecs) := by
  unfold InCalendar at representable
  unfold FourDigitYear ttlEnd at fits
  have isTtl : asI64 ttlSecs = ttlSecs := Int.bmod_eq_of_le (by omega) (by omega)
  have isDuration : chrono.trySeconds ttlSecs = some ((ttlSecs : Int) * 1000000000) := by
    rw [bounded.trySeconds, bounded.maxDuration, if_pos (by omega)]
  rw [Chrono.leaseDeadline, isTtl, isDuration, Option.getD_some, bounded.add, if_pos (by unfold InCalendar; omega)]
  rfl

/-- A deadline that is not before the clock reading is the end of the TTL. -/
private theorem leaseDeadline_eq_ttlEnd (wide : ttlSecs ≤ 18446744073709551615)
    (computed : chrono.leaseDeadline now ttlSecs = some deadline)
    (printable : FourDigitYear deadline) (forward : now ≤ deadline) : deadline = ttlEnd now ttlSecs := by
  have wraps : asI64 ttlSecs = ttlSecs ∨ asI64 ttlSecs < 0 := asI64_cases wide
  have isDeadline := bounded.eq_of_add computed
  have durations := bounded.trySeconds (asI64 ttlSecs)
  generalize asI64 ttlSecs = seconds at wraps isDeadline durations
  split_ifs at durations
  · rw [durations, Option.getD_some] at isDeadline
    unfold ttlEnd
    omega
  · rw [durations, Option.getD_none, bounded.maxDuration] at isDeadline
    unfold FourDigitYear at printable
    unfold InCalendar at representable
    omega

end

private theorem leaseDeadline_unbounded {now : Instant} {ttlSecs : Nat} (bounded : chrono.Bounded)
    (computed : chrono.leaseDeadline now ttlSecs = some deadline) :
    chrono.unbounded.leaseDeadline now ttlSecs = some deadline := by
  rw [bounded.eq_of_add computed]
  rfl

/-- Only a deadline outside the calendar tells the two calendars apart. -/
private theorem transaction_unbounded_iff (bounded : chrono.Bounded) (db : Database) (event : LeaseEvent) :
    event.transaction chrono db = event.transaction chrono.unbounded db ↔
      ∀ now ∈ event.deadlineClock? chrono db, ∃ deadline, chrono.leaseDeadline now event.ttlSecs = some deadline := by
  have decision := event.transaction_decision chrono db
  generalize event.deadlineClock? chrono db = clock? at decision ⊢
  cases decision with
  | idle same => simp [same]
  | claimed task write isBounded isEndless | renewed task write isBounded isEndless =>
    rw [isBounded, isEndless]
    simp only [Option.mem_def, Option.some.injEq, forall_eq']
    constructor
    · intro same
      by_contra none
      rw [Option.eq_none_iff_forall_ne_some.mpr (not_exists.mp none)] at same
      cases same
    · rintro ⟨deadline, computed⟩
      rw [computed, leaseDeadline_unbounded bounded computed]

private theorem wholeSecond_le (instant : Int) : wholeSecond instant ≤ instant := by
  unfold wholeSecond
  omega

private theorem le_wholeSecond_ttlEnd_iff {now : Int} {ttlSecs : Nat} :
    now ≤ wholeSecond (ttlEnd now ttlSecs) ↔ 1 ≤ ttlSecs ∨ wholeSecond now = now := by
  unfold wholeSecond ttlEnd
  omega

/-- The event gives what it would give in a calendar without end, and the deadline it stores is not in the past. -/
structure Completes (chrono : Chrono) (db : Database) (event : LeaseEvent) : Prop where
  unbounded : event.transaction chrono db = event.transaction chrono.unbounded db
  inTime : ∀ task now deadline, event.Grants chrono db task now deadline → ∃ stored,
    chrono.parseLeaseUntil ((event.apply chrono db).1.leaseUntil task) = some stored ∧ now ≤ stored

/-- A claim with some TTL at the turn of the year. -/
def claimWithTtl (ttlSecs : Nat) : LeaseEvent := .call "executor:codex:1" ttlSecs (newYear 0) .claimNextReady

end Ferrus.Runtime

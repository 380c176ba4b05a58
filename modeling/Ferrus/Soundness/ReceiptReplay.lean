import Ferrus.Soundness.JobTransitions

/-! # Receipts answer repeated requests

An advance or a failure looks for its receipt before it does anything else, and it leaves one when it
has been carried out. Receipts are never changed, so the request is answered from its receipt at every
later time. Nothing in a request but the columns of the receipt's primary key is read on the way, a
request id in particular is not.
-/

namespace Ferrus.Distributed

open Ferrus.Machine ControlDatabase Except List

/-- The primary key of `distributed_job_advance_receipts`. -/
def AdvanceReceipt.primaryKey (receipt : AdvanceReceipt) : JobKey × IndexJobState × IndexJobState × WorkerId × Nat :=
  (receipt.key, receipt.expectedState, receipt.nextState, receipt.workerId, receipt.leaseGeneration)

/-- The primary key of `distributed_job_failure_receipts`. -/
def FailureReceipt.primaryKey (receipt : FailureReceipt) : JobKey × WorkerId × Nat × String × Bool :=
  (receipt.key, receipt.workerId, receipt.leaseGeneration, receipt.failureCode, receipt.retryable)

/-- No two receipts have the same primary key. -/
structure DistinctReceipts (db : ControlDatabase) : Prop where
  advances : (db.advanceReceipts.map (·.primaryKey)).Nodup
  failures : (db.failureReceipts.map (·.primaryKey)).Nodup

/-- What a call does to the receipts: it leaves them, or it adds one whose key is free. -/
inductive ReceiptStep (db next : ControlDatabase) : Prop
  | kept (advances : next.advanceReceipts = db.advanceReceipts) (failures : next.failureReceipts = db.failureReceipts)
  | advanced (receipt : AdvanceReceipt) (fresh : ∀ other ∈ db.advanceReceipts, other.primaryKey ≠ receipt.primaryKey)
      (advances : next.advanceReceipts = db.advanceReceipts ++ [receipt])
      (failures : next.failureReceipts = db.failureReceipts)
  | failed (receipt : FailureReceipt) (fresh : ∀ other ∈ db.failureReceipts, other.primaryKey ≠ receipt.primaryKey)
      (advances : next.advanceReceipts = db.advanceReceipts)
      (failures : next.failureReceipts = db.failureReceipts ++ [receipt])

variable {representable : Int → Bool} {now : Int} {db next : ControlDatabase} {request : AdvanceIndexJobRequest}
  {expected target : IndexJobState} {record : IndexJobRecord}

theorem ReceiptStep.refl (db : ControlDatabase) : ReceiptStep db db := .kept rfl rfl

theorem ReceiptStep.grows (step : ReceiptStep db next) :
    db.advanceReceipts <+: next.advanceReceipts ∧ db.failureReceipts <+: next.failureReceipts := by
  cases step with
  | kept advances failures => exact ⟨advances ▸ prefix_refl _, failures ▸ prefix_refl _⟩
  | advanced receipt _ advances failures => exact ⟨⟨[receipt], advances.symm⟩, failures ▸ prefix_refl _⟩
  | failed receipt _ advances failures => exact ⟨advances ▸ prefix_refl _, ⟨[receipt], failures.symm⟩⟩

private theorem nodup_append_singleton {ρ κ : Type} {key : ρ → κ} {receipts : List ρ} {receipt : ρ}
    (distinct : (receipts.map key).Nodup) (fresh : ∀ other ∈ receipts, key other ≠ key receipt) :
    ((receipts ++ [receipt]).map key).Nodup := by
  rw [map_append, nodup_append]
  refine ⟨distinct, pairwise_singleton _ _, ?_⟩
  intro first isFirst second isSecond same
  obtain ⟨other, isOther, rfl⟩ := mem_map.mp isFirst
  obtain rfl := mem_singleton.mp isSecond
  exact fresh other isOther same

theorem ReceiptStep.distinct (step : ReceiptStep db next) (distinct : DistinctReceipts db) : DistinctReceipts next := by
  obtain ⟨distinctAdvances, distinctFailures⟩ := distinct
  cases step with
  | kept advances failures => exact ⟨advances ▸ distinctAdvances, failures ▸ distinctFailures⟩
  | advanced receipt fresh advances failures =>
    exact ⟨advances ▸ nodup_append_singleton distinctAdvances fresh, failures ▸ distinctFailures⟩
  | failed receipt fresh advances failures =>
    exact ⟨advances ▸ distinctAdvances, failures ▸ nodup_append_singleton distinctFailures fresh⟩

/-! ## Reading a receipt -/

private theorem loadAdvanceReceipt_mono (grows : db.advanceReceipts <+: next.advanceReceipts)
    (loads : db.loadAdvanceReceipt request expected target = .ok (some record)) :
    next.loadAdvanceReceipt request expected target = .ok (some record) := by
  obtain ⟨more, same⟩ := grows
  obtain ⟨_, bounded, loads⟩ := bind_eq_ok_iff.mp loads
  refine bind_eq_ok_iff.mpr ⟨(), bounded, ?_⟩
  rw [← same, find?_append]
  split at loads
  · cases loads
  · next receipt found =>
    rw [found]
    exact loads

private theorem loadFailureReceipt_mono {request : FailIndexJobRequest}
    (grows : db.failureReceipts <+: next.failureReceipts) (loads : db.loadFailureReceipt request = .ok (some record)) :
    next.loadFailureReceipt request = .ok (some record) := by
  obtain ⟨more, same⟩ := grows
  obtain ⟨_, bounded, loads⟩ := bind_eq_ok_iff.mp loads
  refine bind_eq_ok_iff.mpr ⟨(), bounded, ?_⟩
  rw [← same, find?_append]
  split at loads
  · cases loads
  · next receipt found =>
    rw [found]
    exact loads

/-- A stored receipt that fits the request is read back, if none before it has its key. -/
private theorem loadAdvanceReceipt_of_appended (absent : db.loadAdvanceReceipt request expected target = .ok none)
    (appended : next.advanceReceipts = db.advanceReceipts ++ [⟨request.job.key, expected, target, request.workerId,
      request.leaseGeneration, record⟩])
    (job : record.job = request.job) (state : record.state = target) (valid : record.isValid = true) :
    next.loadAdvanceReceipt request expected target = .ok (some record) ∧
      ∀ other ∈ db.advanceReceipts, other.primaryKey ≠
        (request.job.key, expected, target, request.workerId, request.leaseGeneration) := by
  obtain ⟨_, bounded, absent⟩ := bind_eq_ok_iff.mp absent
  split at absent
  · next missing =>
    constructor
    · refine bind_eq_ok_iff.mpr ⟨(), bounded, ?_⟩
      rw [appended, find?_append, missing]
      simp [job, state, valid, require]
    · intro other member same
      have differs := find?_eq_none.mp missing other member
      simp only [AdvanceReceipt.primaryKey, Prod.mk.injEq] at same
      simp [same] at differs
  · obtain ⟨_, _, returned⟩ := bind_eq_ok_iff.mp absent
    cases returned

private theorem loadFailureReceipt_of_appended {request : FailIndexJobRequest}
    (absent : db.loadFailureReceipt request = .ok none)
    (appended : next.failureReceipts = db.failureReceipts ++ [⟨request.job.key, request.workerId,
      request.leaseGeneration, request.failureCode, request.retryable, record⟩])
    (job : record.job = request.job) (state : record.state = .queued ∨ record.state = .failed)
    (code : record.failureCode = some request.failureCode) (valid : record.isValid = true) :
    next.loadFailureReceipt request = .ok (some record) ∧
      ∀ other ∈ db.failureReceipts, other.primaryKey ≠
        (request.job.key, request.workerId, request.leaseGeneration, request.failureCode, request.retryable) := by
  obtain ⟨_, bounded, absent⟩ := bind_eq_ok_iff.mp absent
  split at absent
  · next missing =>
    constructor
    · refine bind_eq_ok_iff.mpr ⟨(), bounded, ?_⟩
      rw [appended, find?_append, missing]
      simp [job, state, code, valid, require]
    · intro other member same
      have differs := find?_eq_none.mp missing other member
      simp only [FailureReceipt.primaryKey, Prod.mk.injEq] at same
      simp [same] at differs
  · obtain ⟨_, _, returned⟩ := bind_eq_ok_iff.mp absent
    cases returned

/-! ## The requests that leave a receipt -/

private theorem transitionWithLease_receipt {clears : Bool}
    (advanced : db.transitionWithLease representable request expected target now clears = .ok (next, record)) :
    ReceiptStep db next ∧ next.loadAdvanceReceipt request expected target = .ok (some record) := by
  obtain ⟨_, ⟨rfl, loads⟩ | ⟨row, lease, loads, _, _, _, _, same, job, valid, isNext⟩⟩ :=
    transitionWithLease_cases advanced
  · exact ⟨.refl _, loads⟩
  · have state : record.state = target := by
      rw [same]
      rfl
    have appended := congrArg ControlDatabase.advanceReceipts isNext
    obtain ⟨stored, fresh⟩ := loadAdvanceReceipt_of_appended loads appended job state valid
    have failures : next.failureReceipts = db.failureReceipts := by rw [isNext]
    exact ⟨.advanced ⟨_, _, _, _, _, record⟩ fresh appended failures, stored⟩

private theorem fail_receipt {request : FailIndexJobRequest}
    (failed : db.fail representable request now = .ok (next, record)) :
    ReceiptStep db next ∧ next.loadFailureReceipt request = .ok (some record) := by
  obtain ⟨rfl, loads⟩ | ⟨row, lease, retry, loads, _, _, _, _, _, same, job, valid, isNext⟩ := fail_cases failed
  · exact ⟨.refl _, loads⟩
  · have state : record.state = .queued ∨ record.state = .failed := by
      rw [same]
      cases retry
      · exact .inr rfl
      · exact .inl rfl
    have code : record.failureCode = some request.failureCode := by
      rw [same]
      rfl
    have appended := congrArg ControlDatabase.failureReceipts isNext
    obtain ⟨stored, fresh⟩ := loadFailureReceipt_of_appended loads appended job state code valid
    have advances : next.advanceReceipts = db.advanceReceipts := by rw [isNext]
    exact ⟨.failed ⟨_, _, _, _, _, record⟩ fresh advances appended, stored⟩

/-! ## All calls -/

private theorem respond_receipts {call : CoordinatorCall} {reply : CoordinatorReply}
    (answered : db.respond representable call = .ok (next, reply)) : ReceiptStep db next := by
  cases respond_responds answered with
  | submitted done => obtain rfl | ⟨_, _, _, _, _, _, _, _, rfl⟩ := submit_cases done <;> exact .kept rfl rfl
  | claimed done => rw [claim_frame done]; exact .kept rfl rfl
  | started done | begun done | completed done => exact (transitionWithLease_receipt done).1
  | renewed done => obtain ⟨_, _, _, _, _, _, rfl⟩ := heartbeat_cases done; exact .kept rfl rfl
  | failed done => exact (fail_receipt done).1
  | cancelled done => obtain rfl | ⟨_, _, _, rfl⟩ := cancel_cases done <;> exact .kept rfl rfl
  | reclaimed => exact .kept rfl rfl

private theorem afterCall_receipts (representable : Int → Bool) (db : ControlDatabase) (call : CoordinatorCall) :
    ReceiptStep db (db.afterCall representable call) := by
  unfold afterCall
  split
  · next next reply answered => exact respond_receipts answered
  · exact .refl db

/-- Receipts stay through every further call. -/
private theorem receipts_grow (representable : Int → Bool) (db : ControlDatabase) (calls : List CoordinatorCall) :
    db.advanceReceipts <+: (run (afterCall representable) db calls).advanceReceipts ∧
      db.failureReceipts <+: (run (afterCall representable) db calls).failureReceipts := by
  induction calls generalizing db with
  | nil => exact ⟨prefix_refl _, prefix_refl _⟩
  | cons call rest ih =>
    obtain ⟨advances, failures⟩ := (afterCall_receipts representable db call).grows
    obtain ⟨laterAdvances, laterFailures⟩ := ih (db.afterCall representable call)
    exact ⟨advances.trans laterAdvances, failures.trans laterFailures⟩

/-! ## Repeated requests -/

/-- In every sequence of calls no two receipts have the same key, and a request that has left a receipt is answered
alike at every later time, without a change. -/
theorem receipts_answer_repeats (representable : Int → Bool) (calls : List CoordinatorCall) :
    DistinctReceipts (run (afterCall representable) .empty calls) ∧ ∀ call next reply, call.leavesReceipt = true →
      (run (afterCall representable) .empty calls).respond representable call = .ok (next, reply) →
      ∀ (later : List CoordinatorCall) (again : Int),
        (run (afterCall representable) next later).respond representable (call.atTime again) =
          .ok (run (afterCall representable) next later, reply) := by
  constructor
  · have start : DistinctReceipts .empty := ⟨nodup_nil, nodup_nil⟩
    exact run_invariant DistinctReceipts start
      (fun db call distinct => (afterCall_receipts representable db call).distinct distinct) calls
  · intro call next reply leaves answered later again
    obtain ⟨advances, failures⟩ := receipts_grow representable next later
    cases call with
    | start request now | beginPublication request now | complete request now =>
      obtain ⟨_, advanced, same⟩ := map_eq_ok_iff.mp answered
      cases same
      have stored := loadAdvanceReceipt_mono advances (transitionWithLease_receipt advanced).2
      obtain ⟨_, permitted, _⟩ := bind_eq_ok_iff.mp advanced
      refine map_eq_ok_iff.mpr ⟨(_, _), bind_eq_ok_iff.mpr ⟨(), permitted, ?_⟩, rfl⟩
      exact bind_eq_ok_iff.mpr ⟨_, stored, rfl⟩
    | fail request now =>
      obtain ⟨_, failed, same⟩ := map_eq_ok_iff.mp answered
      cases same
      have stored := loadFailureReceipt_mono failures (fail_receipt failed).2
      obtain ⟨_, permitted, _⟩ := bind_eq_ok_iff.mp failed
      refine map_eq_ok_iff.mpr ⟨(_, _), bind_eq_ok_iff.mpr ⟨(), permitted, ?_⟩, rfl⟩
      exact bind_eq_ok_iff.mpr ⟨_, stored, rfl⟩
    | submit | claim | heartbeat | cancel | reclaim => cases leaves

/-- The job is submitted and claimed. -/
def claimedCalls : List CoordinatorCall :=
  [.submit exampleLimits ⟨controlProtocolVersion, exampleProject, exampleSpec⟩ (atSecond 0),
    .claim exampleLimits ⟨controlProtocolVersion, exampleProject, .repositoryGraph, "worker-1"⟩ (atSecond 1)]

def cancelCall : CoordinatorCall := .cancel ⟨controlProtocolVersion, exampleJob, none⟩ (atSecond 3)

/-- A worker starts the job, and its start is repeated after the job has been cancelled. -/
theorem receipts_answer_cancelled_start : ∃ next reply,
      (run (afterCall utcRange) .empty claimedCalls).respond utcRange (.start exampleAdvance (atSecond 2)) =
        .ok (next, reply) ∧
      (run (afterCall utcRange) next [cancelCall]).respond utcRange (.start exampleAdvance (atSecond 9)) =
        .ok (run (afterCall utcRange) next [cancelCall], reply) := by
  have starts : ((run (afterCall utcRange) .empty claimedCalls).respond utcRange
      (.start exampleAdvance (atSecond 2))).toOption.isSome = true := by
    decide
  cases answered : (run (afterCall utcRange) .empty claimedCalls).respond utcRange
      (.start exampleAdvance (atSecond 2)) with
  | error failure =>
    rw [answered] at starts
    cases starts
  | ok result =>
    exact ⟨result.1, result.2, rfl, (receipts_answer_repeats utcRange claimedCalls).2
      (.start exampleAdvance (atSecond 2)) result.1 result.2 rfl answered [cancelCall] (atSecond 9)⟩

end Ferrus.Distributed

import Ferrus.Proofs.ClientSteps
import Ferrus.Soundness.AttemptCounts

/-! # Fencing by lease generations

Coordinator, fact store and publisher read the columns of one job row, each in its own way. A consistent
row makes their tests one: a lease is alive exactly while a reclaim would leave it. Whatever a request
under another lease is answered, it leaves every store as it was.
-/

namespace Ferrus.Distributed

open Ferrus.Machine ReclaimUpdate ControlDatabase JobRow Option

/-- The lease is alive at the instant. -/
def ControlDatabase.holdsLease (db : ControlDatabase) (lease : PublicationLease) (now : Int) : Bool :=
  (db.job? lease.job.key).any (·.liveFor lease.workerId lease.leaseGeneration (timestampMillis now))

/-- The generation of the lease on a job that a request is granted. -/
def RemoteStores.granted? (codec : StoreCodec) (stores : RemoteStores) (request : ClientRequest) (key : JobKey) :
    Option Nat :=
  match stores.serve codec request with
  | .ok (_, .coordinated (.claimed (some record))) =>
      if record.job.key = key then record.lease.map (·.generation) else none
  | _ => none

/-! ## The tests of one row -/

variable {representable : Int → Bool} {row : JobRow} {key : JobKey} {workerId : WorkerId} {generation : Nat}
  {nowMs : Int}

theorem JobRow.Counted.generation_lt (counted : row.Counted) : row.leaseGeneration < 2 ^ 32 := by
  have attempt_le := counted.attempt_le
  have attempts_lt := counted.attempts_lt
  by_cases unclaimed : row.leaseGeneration = 0
  · omega
  · have same := counted.claimed unclaimed
    omega

/-- The lease ends by the deadline, so a test that does not read the deadline accepts no more. -/
theorem JobRow.Leased.liveFor_iff (leased : row.Leased representable) :
    row.liveFor workerId generation nowMs = true ↔ row.leaseWorkerId = some workerId ∧
      row.leaseGeneration = generation ∧ row.leaseUntilMs.any (nowMs < ·) = true := by
  simp only [liveFor, Bool.and_eq_true, decide_eq_true_eq]
  constructor
  · rintro ⟨⟨⟨holder, isGeneration⟩, alive⟩, _⟩
    exact ⟨holder, isGeneration, alive⟩
  · rintro ⟨holder, isGeneration, alive⟩
    refine ⟨⟨⟨holder, isGeneration⟩, alive⟩, ?_⟩
    obtain ⟨untilMs, isUntil, later⟩ := (any_eq_true _ _).mp alive
    exact lt_of_lt_of_le (of_decide_eq_true later) (leased.bounded untilMs isUntil).1

theorem JobRow.Leased.not_requested (leased : row.Leased representable) (active : row.state.isActive = true) :
    row.cancellationRequested = false := by
  by_contra requested
  rw [leased.requested (Bool.not_eq_false _ ▸ requested)] at active
  cases active

theorem JobRow.Consistent.writableBy_iff (consistent : row.Consistent representable key) :
    row.writableBy ⟨workerId, generation⟩ nowMs = true ↔
      row.state = .running ∧ row.liveFor workerId generation nowMs = true := by
  have bounded := consistent.counted.generation_lt
  rw [consistent.leased.liveFor_iff]
  simp only [writableBy, Bool.and_eq_true, decide_eq_true_eq, Bool.not_eq_true']
  constructor
  · rintro ⟨⟨⟨⟨running, holder⟩, isGeneration⟩, alive⟩, _⟩
    exact ⟨running, holder, by omega, alive⟩
  · rintro ⟨running, holder, isGeneration, alive⟩
    exact ⟨⟨⟨⟨running, holder⟩, by omega⟩, alive⟩, consistent.leased.not_requested (by rw [running]; rfl)⟩

theorem JobRow.Consistent.publishableBy_iff {lease : PublicationLease} (consistent : row.Consistent representable key) :
    row.publishableBy lease nowMs = true ↔
      row.state = .publishing ∧ row.liveFor lease.workerId lease.leaseGeneration nowMs = true := by
  simp only [publishableBy_eq, Bool.and_eq_true, decide_eq_true_eq, Bool.not_eq_true']
  constructor
  · rintro ⟨⟨publishing, _⟩, live⟩
    exact ⟨publishing, live⟩
  · rintro ⟨publishing, live⟩
    exact ⟨⟨publishing, consistent.leased.not_requested (by rw [publishing]; rfl)⟩, live⟩

/-! ## A reclaim -/

/-- One update of a reclaim on one row of its project. -/
def ReclaimUpdate.onRow (nowMs : Int) (row : JobRow) (update : ReclaimUpdate) : JobRow :=
  if update.selects nowMs row then update.change nowMs row else row

/-- A row after a reclaim of its project. -/
def JobRow.afterReclaim (nowMs : Int) (row : JobRow) : JobRow :=
  [ReclaimUpdate.cancel, .timeout, .attemptLimit, .requeue].foldl (ReclaimUpdate.onRow nowMs) row

variable {db : ControlDatabase} {job : IndexJobRef} {now : Int}

variable {update : ReclaimUpdate}

theorem ReclaimUpdate.inactive_onRow (inactive : row.state.isActive = false) :
    (update.onRow nowMs row).state.isActive = false := by
  unfold onRow
  split
  · cases update <;> rfl
  · exact inactive

theorem ReclaimUpdate.inactive_of_selects (selected : update.selects nowMs row = true) :
    (update.onRow nowMs row).state.isActive = false := by
  rw [onRow, if_pos selected]
  cases update <;> rfl

theorem ReclaimUpdate.onRow_of_alive (leased : row.Leased representable)
    (alive : row.leaseUntilMs.any (nowMs < ·) = true) : update.onRow nowMs row = row := by
  obtain ⟨untilMs, isUntil, later⟩ := (any_eq_true _ _).mp alive
  have later := of_decide_eq_true later
  have ends := (leased.bounded untilMs isUntil).1
  have unexpired : row.leaseExpired nowMs = false := by
    rw [leaseExpired, mem_def.mp isUntil]
    simpa using later
  have early : ¬ row.deadlineAtMs ≤ nowMs := by omega
  cases update <;> simp [onRow, selects, unexpired, early]

/-- A reclaim leaves a leased row exactly while its lease is alive. -/
theorem JobRow.Leased.afterReclaim_eq_iff (leased : row.Leased representable)
    (holder : row.leaseWorkerId = some workerId) :
    row.afterReclaim nowMs = row ↔ row.leaseUntilMs.any (nowMs < ·) = true := by
  have active : row.state.isActive = true := by rw [← leased.worker, holder]; rfl
  have requested := leased.not_requested active
  constructor
  · intro unchanged
    by_contra expired
    have isExpired : row.leaseExpired nowMs = true := by
      obtain ⟨untilMs, isUntil⟩ := isSome_iff_exists.mp (leased.expiry.trans active)
      rw [isUntil] at expired
      rw [leaseExpired, isUntil]
      simpa using expired
    -- some update selects the row, and none brings a row back to work
    have stopped : (row.afterReclaim nowMs).state.isActive = false := by
      unfold afterReclaim
      have uncancelled : cancel.onRow nowMs row = row := by
        simp [onRow, selects, requested]
      rw [List.foldl_cons, uncancelled]
      by_cases late : timeout.selects nowMs row = true
      · exact inactive_onRow (inactive_onRow (inactive_of_selects late))
      · have timely : timeout.onRow nowMs row = row := if_neg late
        rw [List.foldl_cons, timely]
        by_cases attempts : row.maxAttempts ≤ row.attempt
        · refine inactive_onRow (inactive_of_selects ?_)
          simp [selects, requested, attempts, isExpired, active]
        · have unlimited : attemptLimit.onRow nowMs row = row := by
            simp [onRow, selects, attempts]
          rw [List.foldl_cons, unlimited]
          refine inactive_of_selects ?_
          simp [selects, requested, not_le.mp attempts, isExpired, active]
    rw [unchanged, active] at stopped
    cases stopped
  · intro alive
    simp only [afterReclaim, List.foldl_cons, List.foldl_nil, onRow_of_alive leased alive]

/-- The worker has the lease, and a reclaim at the instant would leave the row. -/
def ControlDatabase.Keeps (db : ControlDatabase) (job : IndexJobRef) (row : JobRow) (workerId : WorkerId)
    (generation : Nat) (now : Int) : Prop :=
  row.leaseWorkerId = some workerId ∧ row.leaseGeneration = generation ∧
    (db.reclaimExpired job.project now).1.job? job.key = some row

theorem ControlDatabase.keeps_iff (leased : row.Leased representable) (stored : db.job? job.key = some row) :
    db.Keeps job row workerId generation now ↔ row.liveFor workerId generation (timestampMillis now) = true := by
  have reclaimed : (db.reclaimExpired job.project now).1.job? job.key =
      some (row.afterReclaim (timestampMillis now)) := by
    simp only [reclaimExpired, apply, job?_updateJobs, projectOf_key, decide_true, Bool.true_and, map_map, stored]
    rfl
  rw [leased.liveFor_iff, ControlDatabase.Keeps, reclaimed, some.injEq]
  exact and_congr_right fun holder => and_congr_right fun _ => leased.afterReclaim_eq_iff holder

/-! ## Requests -/

variable {codec : StoreCodec} {stores next : RemoteStores} {request : ClientRequest} {reply : ClientReply}

/-- An answered request under a lease finds it alive, or writes nothing. -/
theorem Serves.lease {lease : PublicationLease} (consistent : ConsistentRows utcRange stores.database.control)
    (under : request.lease? = some lease) (serves : Serves codec stores request next reply) :
    next = stores ∨ stores.database.control.holdsLease lease request.instant = true := by
  unfold holdsLease
  rw [any_eq_true]
  cases serves with
  | coordinated answered =>
    rcases respond_lease under answered with rfl | ⟨row, found, live⟩
    · exact .inl rfl
    · exact .inr ⟨row, found, live⟩
  | factsPut put =>
    cases under
    obtain ⟨_, _, writable, _⟩ := put_cases put
    obtain ⟨row, found, writes⟩ := (any_eq_true _ _).mp writable
    rw [Bool.and_eq_true] at writes
    exact .inr ⟨row, found, ((consistent _ row found).writableBy_iff.mp writes.2).2⟩
  | replayed => exact .inl rfl
  | published asks _ publishes =>
    obtain ⟨isLease, instant, _⟩ := ClientRequest.lease_of_publication asks
    obtain rfl := some.inj (isLease.symm.trans under)
    obtain ⟨spec, authority⟩ := publishes.authority
    obtain ⟨_, row, found, _, _, publishable, _⟩ := requirePublicationAuthority_eq_ok_iff.mp authority
    rw [instant]
    exact .inr ⟨row, found, ((consistent _ row found).publishableBy_iff.mp publishable).2⟩
  | objectPut | objectsPut => cases under

/-- A grant is of the generation after the stored one, which it becomes. -/
private theorem granted?_generation {generation : Nat} (granted : stores.granted? codec request key = some generation) :
    generation = stores.database.control.generation key + 1 ∧
      (stores.afterRequest codec request).database.control.generation key = generation := by
  unfold RemoteStores.granted? at granted
  split at granted
  · next after record served =>
    split_ifs at granted with isJob
    have isAfter : stores.afterRequest codec request = after := by rw [RemoteStores.afterRequest, served]
    cases serve_serves served with
    | coordinated answered =>
      rw [isAfter]
      cases respond_responds answered with
      | claimed done =>
        have counted : ControlDatabase.generation _ key = _ := claim_generation done
        simp only [any_some, isJob, decide_true, Bool.toNat_true] at counted
        rcases claim_cases done with ⟨none, _⟩ | ⟨_, row, _, leased, same, rfl, given, stored, _, _, _, _, rfl⟩
        · cases none
        · cases same
          rw [given] at granted
          obtain rfl := some.inj granted
          rw [← counted, ← isJob, ControlDatabase.generation, job?_updateJob, if_pos rfl, stored]
          exact ⟨rfl, rfl⟩
  · cases granted

theorem Serves.generation_le (serves : Serves codec stores request next reply) :
    stores.database.control.generation key ≤ next.database.control.generation key := by
  obtain ⟨middle, steps, step⟩ := serves.rows
  rw [← steps.generation_eq]
  exact step.generation_le

/-! ## Whole runs -/

/-- What the leases are worth, in a state of the stores. -/
structure RemoteStores.Fenced (codec : StoreCodec) (stores : RemoteStores) : Prop where
  /-- One worker and one generation at most is alive on a job. -/
  unique : ∀ key row, stores.database.control.job? key = some row → ∀ firstWorker firstGeneration firstMs
    secondWorker secondGeneration secondMs, row.liveFor firstWorker firstGeneration firstMs = true →
      row.liveFor secondWorker secondGeneration secondMs = true →
        firstWorker = secondWorker ∧ firstGeneration = secondGeneration
  /-- A request under a lease that is not alive leaves every store. -/
  stale : ∀ (request : ClientRequest) lease, request.lease? = some lease →
    stores.database.control.holdsLease lease request.instant = false → stores.afterRequest codec request = stores
  /-- The coordinator accepts the leases that a reclaim would leave. -/
  coordinator : ∀ job row, stores.database.control.job? job.key = some row → row.spec.kind = job.kind →
    ∃ record, stores.database.control.loadRecord utcRange job = .ok (some record) ∧
      ∀ workerId generation now, requireLiveLease record workerId generation now = .ok () ↔
        stores.database.control.Keeps job row workerId generation now
  /-- The fact store accepts those of running jobs. -/
  factStore : ∀ job row, stores.database.control.job? job.key = some row → row.spec.kind = job.kind →
    ∀ workerId generation now,
      stores.database.control.isWritable job ⟨workerId, generation⟩ (timestampMillis now) = true ↔
        row.state = .running ∧ stores.database.control.Keeps job row workerId generation now
  /-- The publisher accepts those of jobs that are being published. -/
  publisher : ∀ job row, stores.database.control.job? job.key = some row → row.spec.kind = job.kind →
    ∀ workerId generation now,
      (∃ spec, stores.database.control.requirePublicationAuthority ⟨job, workerId, generation⟩ now = .ok spec) ↔
        row.state = .publishing ∧ stores.database.control.Keeps job row workerId generation now

theorem RemoteStores.Fenced.of_consistent (consistent : ConsistentRows utcRange stores.database.control)
    (undeleted : stores.database.control.tombstones = .empty) : stores.Fenced codec where
  unique := by
    intro key row stored _ _ _ _ _ _ first second
    have leased := (consistent key row stored).leased
    obtain ⟨holder, generation, _⟩ := leased.liveFor_iff.mp first
    obtain ⟨otherHolder, otherGeneration, _⟩ := leased.liveFor_iff.mp second
    exact ⟨some.inj (holder.symm.trans otherHolder), generation.symm.trans otherGeneration⟩
  stale := by
    intro request lease under lost
    rcases afterRequest_cases codec stores request with ⟨reply, serves⟩ | same
    · rcases serves.lease consistent under with same | held
      · exact same
      · rw [lost] at held
        cases held
    · exact same
  coordinator := by
    intro job row stored kind
    obtain ⟨record, loads⟩ := loadRecord_of_consistent stored kind (consistent _ row stored)
    refine ⟨record, loads, fun workerId generation now => ?_⟩
    obtain ⟨other, lease, found, read, rfl, _⟩ := requireRecord_row (requireRecord_eq_ok_iff.mpr loads)
    obtain rfl := some.inj (stored.symm.trans found)
    rw [keeps_iff (consistent _ row stored).leased stored, requireLiveLease_eq_ok_iff read]
  factStore := by
    intro job row stored kind workerId generation now
    have isConsistent := consistent _ row stored
    rw [keeps_iff isConsistent.leased stored, ← isConsistent.writableBy_iff, isWritable, stored]
    simp [kind]
  publisher := by
    intro job row stored kind workerId generation now
    have isConsistent := consistent _ row stored
    have project : row.spec.project = job.project := RemoteProjectRef.key_injective isConsistent.scope.symm
    have alive : stores.database.control.hasDeletionTombstone job.project = false := by
      rw [hasDeletionTombstone, undeleted]
      rfl
    have accepted : row.publishableBy ⟨job, workerId, generation⟩ (timestampMillis now) = true ↔ _ :=
      isConsistent.publishableBy_iff
    rw [keeps_iff isConsistent.leased stored]
    refine Iff.trans ?_ accepted
    simp [requirePublicationAuthority_eq_ok_iff, stored, kind, project, alive]

variable (codec) in
theorem undeleted_run (requests : List UtcRequest) :
    ConsistentRows utcRange (run (requestStep codec) .empty requests).database.control ∧
      (run (requestStep codec) .empty requests).database.control.tombstones = .empty := by
  refine run_invariant
    (fun stores : RemoteStores =>
      ConsistentRows utcRange stores.database.control ∧ stores.database.control.tombstones = .empty)
    ⟨ConsistentRows.empty, rfl⟩ ?_ requests
  rintro stores request ⟨consistent, undeleted⟩
  refine ⟨consistent.afterRequest request, ?_⟩
  unfold requestStep
  refine afterRequest_of_serves undeleted ?_
  intro next reply serves
  exact serves.tombstones.1.trans undeleted

variable (codec) in
private theorem generation_le_run (key : JobKey) (stores : RemoteStores) (requests : List UtcRequest) :
    stores.database.control.generation key ≤
      (run (requestStep codec) stores requests).database.control.generation key := by
  induction requests generalizing stores with
  | nil => exact le_rfl
  | cons request rest ih =>
    refine le_trans ?_ (ih (requestStep codec stores request))
    unfold requestStep
    refine afterRequest_of_serves le_rfl ?_
    intro next reply serves
    exact serves.generation_le

/-- Whatever requests the clients make, in any order and at any times, the leases of a job have increasing
generations and fence its row, its batches and its publication. -/
theorem leases_fenced (codec : StoreCodec) (requests : List UtcRequest) :
    (run (requestStep codec) .empty requests).Fenced codec ∧
      ∀ (later : List UtcRequest) (first second : UtcRequest) key firstGeneration secondGeneration,
        (run (requestStep codec) .empty requests).granted? codec first.1 key = some firstGeneration →
        (run (requestStep codec) .empty (requests ++ first :: later)).granted? codec second.1 key =
          some secondGeneration → firstGeneration < secondGeneration := by
  obtain ⟨consistent, undeleted⟩ := undeleted_run codec requests
  refine ⟨.of_consistent consistent undeleted, ?_⟩
  intro later first second key firstGeneration secondGeneration granted again
  rw [run_append, run_cons] at again
  have stored := (granted?_generation granted).2
  have raised := (granted?_generation again).1
  have kept := generation_le_run codec key (requestStep codec (run (requestStep codec) .empty requests) first) later
  rw [requestStep, stored] at kept
  rw [requestStep] at raised
  omega

/-- Digests that only name their place, and facts of one byte. -/
def exampleCodec : StoreCodec where
  payloadDigest _ := "payload"
  batchId _ _ shardId sequence _ _ := shardId ++ sequence.repr
  byteLen _ := 1
  graphDiagnosticId diagnostic := diagnostic.content
  memoryDiagnosticId diagnostic := diagnostic.content
  factLen _ := 1
  factSetDigest _ := "facts"
  publicationDigest request := request.viewName
  contentDigest _ := "content"

def exampleSubmit : UtcRequest :=
  ⟨.coordinate (.submit exampleLimits ⟨controlProtocolVersion, exampleProject, exampleSpec⟩ (atSecond 0)), by decide⟩

def claimBy (workerId : WorkerId) (now : Int) : ClientRequest :=
  .coordinate (.claim exampleLimits ⟨controlProtocolVersion, exampleProject, .repositoryGraph, workerId⟩ now)

/-- The lease of the first worker runs out and the second worker gets the next one: a late start of the first
worker leaves the stores. -/
theorem leases_fenced_lateStart :
    (run (requestStep exampleCodec) .empty [exampleSubmit]).granted? exampleCodec (claimBy "worker-1" (atSecond 1))
      exampleJob.key = some 1 ∧
    (run (requestStep exampleCodec) .empty [exampleSubmit, ⟨claimBy "worker-1" (atSecond 1), by decide⟩]).granted?
      exampleCodec (claimBy "worker-2" (atSecond 100)) exampleJob.key = some 2 ∧ 1 < 2 ∧
    (run (requestStep exampleCodec) .empty [exampleSubmit, ⟨claimBy "worker-1" (atSecond 1), by decide⟩,
      ⟨claimBy "worker-2" (atSecond 100), by decide⟩]).afterRequest exampleCodec
        (.coordinate (.start exampleAdvance (atSecond 101))) =
      run (requestStep exampleCodec) .empty [exampleSubmit, ⟨claimBy "worker-1" (atSecond 1), by decide⟩,
        ⟨claimBy "worker-2" (atSecond 100), by decide⟩] := by
  refine ⟨?first, ?second, (leases_fenced exampleCodec [exampleSubmit]).2 []
    ⟨claimBy "worker-1" (atSecond 1), by decide⟩
    ⟨claimBy "worker-2" (atSecond 100), by decide⟩ exampleJob.key 1 2 ?first ?second, ?_⟩
  · decide
  · decide
  · exact (leases_fenced exampleCodec _).1.stale _ ⟨exampleJob, "worker-1", 1⟩ rfl (by decide)

end Ferrus.Distributed

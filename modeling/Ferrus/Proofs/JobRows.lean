import Mathlib.Logic.Relation
import Ferrus.ToMathlib.ExceptBind
import Ferrus.Model.Distributed.CoordinatorCalls
import Ferrus.Model.Distributed.Maintenance

/-! # What a statement does to a job row

The statements of the coordinator and of the publication store replace single rows of the job table.
`RowChange` lists the replacements with the conditions under which they are made, and `RowStep` adds
the submission of a job. What holds of every job is a case analysis over these two.
-/

namespace Ferrus.Distributed

open ControlDatabase Except Option JobRow

/-- The row's lease is this worker's, of this generation, and neither it nor the job has expired. -/
def JobRow.liveFor (row : JobRow) (workerId : WorkerId) (generation : Nat) (nowMs : Int) : Bool :=
  row.leaseWorkerId = some workerId && row.leaseGeneration = generation &&
    row.leaseUntilMs.any (nowMs < ·) && nowMs < row.deadlineAtMs

theorem JobRow.publishableBy_eq (row : JobRow) (request : PublicationLease) (nowMs : Int) :
    row.publishableBy request nowMs = (row.state = .publishing && !row.cancellationRequested &&
      row.liveFor request.workerId request.leaseGeneration nowMs) := by
  simp only [publishableBy, liveFor, Bool.and_assoc]

/-- The row that a submission inserts. -/
def JobRow.submitted (limits : CoordinatorLimits) (spec : IndexJobSpec) (now deadlineAt : Int) : JobRow where
  spec := spec
  state := .queued
  attempt := 1
  maxAttempts := limits.maxAttempts
  leaseWorkerId := none
  leaseGeneration := 0
  leaseUntilMs := none
  cancellationRequested := false
  failureCode := none
  createdAtMs := timestampMillis now
  updatedAtMs := timestampMillis now
  deadlineAtMs := timestampMillis deadlineAt

/-- The attempt that the next claim of a row makes. -/
def JobRow.nextAttempt (row : JobRow) : Nat :=
  if row.leaseGeneration = 0 then row.attempt else min (row.attempt + 1) (2 ^ 32 - 1)

/-- The update of a claim that has selected a row: the lease of the next generation. -/
def JobRow.claimUpdate (selected : JobRow) (workerId : WorkerId) (expiresAt now : Int) (row : JobRow) : JobRow :=
  { row with
    state := .leased, attempt := selected.nextAttempt, leaseWorkerId := some workerId,
    leaseGeneration := selected.leaseGeneration + 1,
    leaseUntilMs := some (min (timestampMillis expiresAt) row.deadlineAtMs),
    updatedAtMs := timestampMillis now, failureCode := none }

def JobRow.leasedTo (row : JobRow) (workerId : WorkerId) (expiresAt now : Int) : JobRow :=
  row.claimUpdate workerId expiresAt now row

/-- Who changes a row: the bearer of a lease, a worker that claims one, or neither. -/
inductive RowActor where
  | bearer (workerId : WorkerId) (generation : Nat)
  | claimant
  | operator
deriving DecidableEq, Repr

/-- Who acts in the last statement of a call. -/
def CoordinatorCall.actor : CoordinatorCall → RowActor
  | start request _ | heartbeat _ request _ | beginPublication request _ | complete request _ =>
      .bearer request.workerId request.leaseGeneration
  | fail request _ => .bearer request.workerId request.leaseGeneration
  | claim .. => .claimant
  | submit .. | cancel .. | reclaim .. => .operator

/-- A replacement of a job row at an instant. -/
inductive RowChange (representable : Int → Bool) (now : Int) (actor : RowActor) (row : JobRow) :
    JobRow → Prop
  /-- A worker moves its job on under a live lease, which goes when the job is complete. -/
  | advanced {workerId : WorkerId} {generation : Nat} {next : IndexJobState} {clears : Bool}
      (acts : actor = .bearer workerId generation)
      (live : row.liveFor workerId generation (timestampMillis now) = true)
      (requested : row.cancellationRequested = false) (active : row.state.isActive = true)
      (moves : row.state.canTransitionTo next = true)
      (forward : next.isActive = true ∧ clears = false ∨ next = .complete ∧ clears = true) :
      RowChange representable now actor row
        { (if clears then row.clearLease else row) with state := next, updatedAtMs := timestampMillis now }
  /-- A worker renews its live lease. -/
  | renewed {workerId : WorkerId} {generation : Nat} {expiresAt : Int}
      (acts : actor = .bearer workerId generation)
      (live : row.liveFor workerId generation (timestampMillis now) = true)
      (active : row.state.isActive = true) (inRange : representable expiresAt = true) :
      RowChange representable now actor row
        { row with
          leaseUntilMs := some (min (timestampMillis expiresAt) row.deadlineAtMs)
          updatedAtMs := timestampMillis now }
  /-- A worker reports a failure under its live lease. -/
  | failed {workerId : WorkerId} {generation : Nat} {code : String} {retry : Bool}
      (acts : actor = .bearer workerId generation)
      (live : row.liveFor workerId generation (timestampMillis now) = true)
      (requested : row.cancellationRequested = false) (active : row.state.isActive = true)
      (attempts : retry = true → row.attempt < row.maxAttempts ∧ row.state ≠ .publishing) :
      RowChange representable now actor row
        { row.clearLease with
          state := if retry then .queued else .failed
          failureCode := some code
          updatedAtMs := timestampMillis now }
  | cancelled (acts : actor = .operator) (unfinished : row.state.isTerminal = false) :
      RowChange representable now actor row
        { row.clearLease with
          state := .cancelled, cancellationRequested := true, failureCode := none,
          updatedAtMs := timestampMillis now }
  | reclaimed {update : ReclaimUpdate} (acts : actor = .operator)
      (selected : update.selects (timestampMillis now) row = true) :
      RowChange representable now actor row (update.change (timestampMillis now) row)
  /-- A worker gets the lease of the next generation. -/
  | claimed {workerId : WorkerId} {expiresAt : Int} (acts : actor = .claimant) (queued : row.state = .queued)
      (requested : row.cancellationRequested = false) (attempts : row.nextAttempt ≤ row.maxAttempts)
      (inRange : representable expiresAt = true) :
      RowChange representable now actor row (row.leasedTo workerId expiresAt now)
  | published {request : PublicationLease} (acts : actor = .bearer request.workerId request.leaseGeneration)
      (publishable : row.publishableBy request (timestampMillis now) = true) :
      RowChange representable now actor row
        { row.clearLease with state := .complete, failureCode := none, updatedAtMs := timestampMillis now }

/-- What a statement other than a deletion's may do to the row of a key. -/
inductive RowStep (representable : Int → Bool) (now : Int) (actor : RowActor) (key : JobKey) :
    Option JobRow → Option JobRow → Prop
  | kept (row : Option JobRow) : RowStep representable now actor key row row
  | submitted {limits : CoordinatorLimits} {spec : IndexJobSpec} {deadlineAt : Int}
      (acts : actor = .operator) (scope : projectOf key = spec.project.key) (later : now ≤ deadlineAt)
      (inRange : representable deadlineAt = true) :
      RowStep representable now actor key none (some (.submitted limits spec now deadlineAt))
  | changed {row next : JobRow} (change : RowChange representable now actor row next) :
      RowStep representable now actor key (some row) (some next)

/-- Every row takes a step of `RowStep`. -/
def RowsStep (representable : Int → Bool) (now : Int) (actor : RowActor) (db next : ControlDatabase) : Prop :=
  ∀ key, RowStep representable now actor key (db.job? key) (next.job? key)

/-- Several statements of one actor. -/
def RowsSteps (representable : Int → Bool) (now : Int) (actor : RowActor) : ControlDatabase → ControlDatabase → Prop :=
  Relation.ReflTransGen (RowsStep representable now actor)

variable {representable : Int → Bool} {now : Int} {actor : RowActor} {db next : ControlDatabase} {key : JobKey}
  {change : JobRow → JobRow} {job : IndexJobRef} {row : JobRow} {record : IndexJobRecord}
  {limits : CoordinatorLimits} {request : AdvanceIndexJobRequest}

namespace RowsStep

theorem of_jobs (same : next.jobs = db.jobs) : RowsStep representable now actor db next := by
  intro key
  have kept : next.job? key = db.job? key := congrArg (Table.get? · key) same
  rw [kept]
  exact .kept _

theorem refl (db : ControlDatabase) : RowsStep representable now actor db db := of_jobs rfl

/-- Only an operator's call adds a row. -/
theorem absent (step : RowsStep representable now actor db next) (acts : actor ≠ .operator)
    (isAbsent : db.job? key = none) : next.job? key = none := by
  have rowStep := step key
  rw [isAbsent] at rowStep
  generalize next.job? key = after at rowStep
  cases rowStep with
  | kept => rfl
  | submitted isOperator => exact absurd isOperator acts

theorem updateJobs {selected : JobKey → JobRow → Bool}
    (changes : ∀ key row, db.job? key = some row → selected key row = true →
      RowChange representable now actor row (change row)) :
    RowsStep representable now actor db (db.updateJobs selected change) := by
  intro key
  rw [job?_updateJobs]
  cases found : db.job? key with
  | none => exact .kept _
  | some row =>
    rw [map_some]
    split
    · next chosen => exact .changed (changes key row found chosen)
    · exact .kept _

theorem updateJob (found : db.job? job.key = some row) (changes : RowChange representable now actor row (change row)) :
    RowsStep representable now actor db (db.updateJob job change) := by
  intro key
  rw [job?_updateJob]
  split_ifs with same
  · rw [same, found]
    exact .changed changes
  · exact .kept _

end RowsStep

/-! ## What a loaded record says about its row -/

@[simp] theorem require_eq_ok {condition : Bool} {error : CoordinatorError} {value : Unit} :
    require condition error = .ok value ↔ condition = true := by
  cases condition <;> simp [require]

/-- The record of a row, once its lease and its times have been read. -/
def JobRow.recordWith (row : JobRow) (job : IndexJobRef) (lease : Option JobLease) : IndexJobRecord where
  job := { job with kind := row.spec.kind }
  spec := row.spec
  state := row.state
  attempt := row.attempt
  maxAttempts := row.maxAttempts
  lease := lease
  cancellationRequested := row.cancellationRequested
  failureCode := row.failureCode
  createdAt := row.createdAtMs * 1000000
  updatedAt := row.updatedAtMs * 1000000
  deadlineAt := row.deadlineAtMs * 1000000

variable {instant : Int}

theorem datetime_eq_ok_iff {millis : Int} : datetime representable millis = .ok instant ↔
      representable (millis * 1000000) = true ∧ millis * 1000000 = instant := by
  unfold datetime
  split_ifs with inRange <;> simp [inRange]

theorem rowToRecord_eq_ok_iff : rowToRecord representable job row = .ok record ↔
      row.attempt ≠ 0 ∧ row.maxAttempts ≠ 0 ∧ representable (row.createdAtMs * 1000000) = true ∧
        representable (row.updatedAtMs * 1000000) = true ∧ representable (row.deadlineAtMs * 1000000) = true ∧
        ∃ lease, row.lease representable = .ok lease ∧ row.recordWith job lease = record := by
  simp only [rowToRecord, bind_eq_ok_iff, datetime_eq_ok_iff, require_eq_ok, Bool.and_eq_true, decide_eq_true_eq]
  constructor
  · rintro ⟨_, ⟨attempt, maxAttempts⟩, lease, read, _, ⟨created, rfl⟩, _, ⟨updated, rfl⟩, _, ⟨deadline, rfl⟩, made⟩
    exact ⟨attempt, maxAttempts, created, updated, deadline, lease, read, ok.inj made⟩
  · rintro ⟨attempt, maxAttempts, created, updated, deadline, lease, read, made⟩
    exact ⟨(), ⟨attempt, maxAttempts⟩, lease, read, _, ⟨created, rfl⟩, _, ⟨updated, rfl⟩, _, ⟨deadline, rfl⟩,
      congrArg _ made⟩

theorem loadRecord_eq_ok_some_iff : db.loadRecord representable job = .ok (some record) ↔
      ∃ row, db.job? job.key = some row ∧ rowToRecord representable job row = .ok record ∧
        record.job.kind = job.kind ∧ record.isValid = true := by
  unfold loadRecord
  cases found : db.job? job.key with
  | none => simp
  | some row =>
    simp [bind_eq_ok_iff, pure, Except.pure, and_left_comm]

private theorem loadRecord_eq_ok_none (absent : db.loadRecord representable job = .ok none) :
    db.job? job.key = none := by
  unfold loadRecord at absent
  cases found : db.job? job.key with
  | none => rfl
  | some row =>
    simp only [found, bind_eq_ok_iff] at absent
    obtain ⟨_, _, _, _, _, _, same⟩ := absent
    cases same

theorem requireRecord_eq_ok_iff : db.requireRecord representable job = .ok record ↔
      db.loadRecord representable job = .ok (some record) := by
  simp [requireRecord, bind_eq_ok_iff, Option.exists, pure, Except.pure]

/-- The record of a job is read from its row. -/
theorem requireRecord_row (loaded : db.requireRecord representable job = .ok record) :
    ∃ row lease, db.job? job.key = some row ∧ row.lease representable = .ok lease ∧
      record = row.recordWith job lease ∧ row.spec.kind = job.kind ∧ record.isValid = true := by
  rw [requireRecord_eq_ok_iff, loadRecord_eq_ok_some_iff] at loaded
  obtain ⟨row, found, made, kind, valid⟩ := loaded
  obtain ⟨_, _, _, _, _, lease, read, rfl⟩ := rowToRecord_eq_ok_iff.mp made
  exact ⟨row, lease, found, read, rfl, kind, valid⟩

/-- The coordinator compares instants and the statements compare milliseconds; both read the same lease
as live. -/
theorem requireLiveLease_eq_ok_iff {lease : Option JobLease} {workerId : WorkerId} {generation : Nat}
    (read : row.lease representable = .ok lease) :
    requireLiveLease (row.recordWith job lease) workerId generation now = .ok () ↔
      row.liveFor workerId generation (timestampMillis now) = true := by
  have instants (millis : Int) : now < millis * 1000000 ↔ timestampMillis now < millis := by
    unfold timestampMillis
    omega
  unfold JobRow.lease at read
  split at read
  · next holder untilMs isHolder isUntil =>
    simp only [bind_eq_ok_iff, datetime_eq_ok_iff] at read
    obtain ⟨_, _, _, ⟨_, rfl⟩, same⟩ := read
    obtain rfl := ok.inj same
    simp only [requireLiveLease, recordWith, require_eq_ok, Bool.and_eq_true, decide_eq_true_eq,
      liveFor, isHolder, isUntil, some.injEq, any_some, instants]
  · next noHolder noUntil =>
    obtain rfl := ok.inj read
    simp [requireLiveLease, recordWith, liveFor, noHolder]
  · cases read

/-! ## The operations -/

theorem checkedAddMillis_eq_ok {millis : Nat} (added : checkedAddMillis representable now millis = .ok instant) :
    now ≤ instant ∧ representable instant = true := by
  unfold checkedAddMillis at added
  split_ifs at added with fits
  rw [Bool.and_eq_true] at fits
  obtain rfl := ok.inj added
  exact ⟨by omega, fits.2⟩

/-- A submission repeats an answer, or it inserts the row of a job that does not exist. -/
theorem submit_cases {request : SubmitIndexJobRequest}
    (submitted : db.submit representable limits request now = .ok (next, record)) :
    next = db ∨ ∃ job deadlineAt,
      job = (⟨request.project, request.job.idempotencyKey, request.job.kind⟩ : IndexJobRef) ∧
      request.project = request.job.project ∧ now ≤ deadlineAt ∧ representable deadlineAt = true ∧
      db.hasDeletionTombstone request.project = false ∧ db.job? job.key = none ∧
      next = { db with jobs := db.jobs.insertNew job.key (.submitted limits request.job now deadlineAt) } := by
  simp only [submit, bind_eq_ok_iff, require_eq_ok, Bool.and_eq_true, decide_eq_true_eq, Bool.not_eq_true'] at submitted
  obtain ⟨_, ⟨_, project⟩, deadlineAt, added, _, alive, found, loaded, submitted⟩ := submitted
  obtain ⟨later, inRange⟩ := checkedAddMillis_eq_ok added
  cases found with
  | some existing =>
    obtain ⟨_, _, returned⟩ := bind_eq_ok_iff.mp submitted
    cases returned
    exact .inl rfl
  | none =>
    obtain ⟨_, _, returned⟩ := bind_eq_ok_iff.mp submitted
    cases returned
    exact .inr ⟨_, deadlineAt, rfl, project, later, inRange, alive, loadRecord_eq_ok_none loaded, rfl⟩

private theorem submit_rows {request : SubmitIndexJobRequest}
    (submitted : db.submit representable limits request now = .ok (next, record)) :
    RowsStep representable now .operator db next := by
  obtain rfl | ⟨job, deadlineAt, rfl, project, later, inRange, _, fresh, rfl⟩ := submit_cases submitted
  · exact .refl _
  · intro key
    change RowStep _ _ _ key (db.job? key) ((db.jobs.insertNew _ _).get? key)
    rw [Table.get?_insertNew]
    split_ifs with same
    · subst same
      have absent : db.jobs.get? _ = none := fresh
      rw [fresh, absent]
      exact .submitted rfl (congrArg RemoteProjectRef.key project) later inRange
    · exact .kept _

/-- What is read back after an update of the job. -/
private theorem requireRecord_updateJob
    (loaded : (db.updateJob job change).requireRecord representable job = .ok record) :
    ∃ row lease, db.job? job.key = some row ∧ record = (change row).recordWith job lease ∧ record.job = job ∧
      record.isValid = true := by
  obtain ⟨row, lease, found, _, rfl, kind, valid⟩ := requireRecord_row loaded
  rw [job?_updateJob, if_pos rfl] at found
  obtain ⟨before, stored, rfl⟩ := map_eq_some_iff.mp found
  exact ⟨before, lease, stored, rfl, congrArg (fun kind => { job with kind := kind }) kind, valid⟩

/-- The row of an advanced job. -/
def JobRow.advanceUpdate (target : IndexJobState) (clears : Bool) (now : Int) (row : JobRow) : JobRow :=
  { (if clears then row.clearLease else row) with state := target, updatedAtMs := timestampMillis now }

variable {expected target : IndexJobState} {clears : Bool}

/-- An advance is answered from its receipt, or it finds its job under a live lease and leaves a receipt. -/
theorem transitionWithLease_cases
    (advanced : db.transitionWithLease representable request expected target now clears = .ok (next, record)) :
    expected.canTransitionTo target = true ∧
      (next = db ∧ db.loadAdvanceReceipt request expected target = .ok (some record) ∨
        ∃ row lease, db.loadAdvanceReceipt request expected target = .ok none ∧ db.job? request.job.key = some row ∧
          row.liveFor request.workerId request.leaseGeneration (timestampMillis now) = true ∧
          row.cancellationRequested = false ∧ row.state = expected ∧
          record = (row.advanceUpdate target clears now).recordWith request.job lease ∧ record.job = request.job ∧
          record.isValid = true ∧
          next = { db with
            jobs := db.jobs.modify request.job.key (advanceUpdate target clears now)
            advanceReceipts := db.advanceReceipts ++
              [⟨request.job.key, expected, target, request.workerId, request.leaseGeneration, record⟩] }) := by
  simp only [transitionWithLease, bind_eq_ok_iff, require_eq_ok, Bool.and_eq_true] at advanced
  obtain ⟨_, ⟨_, moves⟩, replay, loads, advanced⟩ := advanced
  refine ⟨moves, ?_⟩
  cases replay with
  | some replayed =>
    cases advanced
    exact .inl ⟨rfl, loads⟩
  | none =>
    simp only [bind_eq_ok_iff, require_eq_ok, decide_eq_true_eq] at advanced
    obtain ⟨loaded, isLoaded, _, live, _, standing, _, stands, updated, reloads, returned⟩ := advanced
    obtain ⟨isNext, rfl⟩ := Prod.mk.inj (ok.inj returned)
    obtain ⟨row, lease, found, read, rfl, _⟩ := requireRecord_row isLoaded
    obtain ⟨other, reread, held, isRecord, job, valid⟩ := requireRecord_updateJob reloads
    obtain rfl := some.inj (found.symm.trans held)
    simp only [recordWith, Bool.not_eq_true', Bool.or_eq_false_iff] at standing
    exact .inr ⟨row, reread, loads, found, (requireLiveLease_eq_ok_iff read).mp live, standing.1, stands, isRecord, job,
      valid, isNext.symm⟩

theorem transitionWithLease_rows (active : expected.isActive = true)
    (forward : target.isActive = true ∧ clears = false ∨ target = .complete ∧ clears = true)
    (advanced : db.transitionWithLease representable request expected target now clears = .ok (next, record)) :
    RowsStep representable now (.bearer request.workerId request.leaseGeneration) db next := by
  obtain ⟨moves, ⟨rfl, _⟩ | ⟨row, _, _, found, live, requested, isExpected, _, _, _, rfl⟩⟩ :=
    transitionWithLease_cases advanced
  · exact .refl _
  · exact .updateJob found (.advanced rfl live requested (isExpected ▸ active) (isExpected ▸ moves) forward)

section

variable (renewed : db.heartbeat representable limits request now = .ok (next, record))

include renewed

/-- A heartbeat finds its job under a live lease. -/
theorem heartbeat_cases :
    ∃ row expiresAt, db.job? request.job.key = some row ∧
      row.liveFor request.workerId request.leaseGeneration (timestampMillis now) = true ∧ row.state.isActive = true ∧
      representable expiresAt = true ∧
      next = db.updateJob request.job (fun row => { row with
        leaseUntilMs := some (min (timestampMillis expiresAt) row.deadlineAtMs)
        updatedAtMs := timestampMillis now }) := by
  simp only [heartbeat, bind_eq_ok_iff, require_eq_ok] at renewed
  obtain ⟨_, _, expiresAt, added, loaded, loads, _, live, _, _, _, active, _, _, returned⟩ := renewed
  obtain ⟨isNext, _⟩ := Prod.mk.inj (ok.inj returned)
  obtain ⟨row, lease, found, read, rfl, _⟩ := requireRecord_row loads
  exact ⟨row, expiresAt, found, (requireLiveLease_eq_ok_iff read).mp live, active, (checkedAddMillis_eq_ok added).2,
    isNext.symm⟩

theorem heartbeat_rows : RowsStep representable now (.bearer request.workerId request.leaseGeneration) db next := by
  obtain ⟨row, expiresAt, found, live, active, inRange, rfl⟩ := heartbeat_cases renewed
  exact .updateJob found (.renewed rfl live active inRange)

end

/-- The row of a job whose failure is reported. -/
def JobRow.failUpdate (code : String) (retry : Bool) (now : Int) (row : JobRow) : JobRow :=
  { row.clearLease with
    state := if retry then .queued else .failed
    failureCode := some code
    updatedAtMs := timestampMillis now }

/-- A failure is answered from its receipt, or it finds its job under a live lease and leaves a receipt. -/
theorem fail_cases {request : FailIndexJobRequest} (failed : db.fail representable request now = .ok (next, record)) :
    next = db ∧ db.loadFailureReceipt request = .ok (some record) ∨
      ∃ row lease retry, db.loadFailureReceipt request = .ok none ∧ db.job? request.job.key = some row ∧
        row.liveFor request.workerId request.leaseGeneration (timestampMillis now) = true ∧
        row.cancellationRequested = false ∧ row.state.isActive = true ∧
        (retry = true → row.attempt < row.maxAttempts ∧ row.state ≠ .publishing) ∧
        record = (row.failUpdate request.failureCode retry now).recordWith request.job lease ∧
        record.job = request.job ∧ record.isValid = true ∧
        next = { db with
          jobs := db.jobs.modify request.job.key (failUpdate request.failureCode retry now)
          failureReceipts := db.failureReceipts ++
            [⟨request.job.key, request.workerId, request.leaseGeneration, request.failureCode, request.retryable,
              record⟩] } := by
  simp only [fail, bind_eq_ok_iff] at failed
  obtain ⟨_, _, replay, loads, failed⟩ := failed
  cases replay with
  | some replayed =>
    cases failed
    exact .inl ⟨rfl, loads⟩
  | none =>
    simp only [bind_eq_ok_iff, require_eq_ok] at failed
    obtain ⟨loaded, isLoaded, _, live, _, standing, _, active, updated, reloads, returned⟩ := failed
    obtain ⟨isNext, rfl⟩ := Prod.mk.inj (ok.inj returned)
    obtain ⟨row, lease, found, read, rfl, _⟩ := requireRecord_row isLoaded
    obtain ⟨other, reread, held, isRecord, job, valid⟩ := requireRecord_updateJob reloads
    obtain rfl := some.inj (found.symm.trans held)
    simp only [recordWith, Bool.not_eq_true', Bool.or_eq_false_iff] at standing
    refine .inr ⟨row, reread, _, loads, found, (requireLiveLease_eq_ok_iff read).mp live, standing.1, active, ?_,
      isRecord, job, valid, isNext.symm⟩
    intro retried
    simp only [Bool.and_eq_true, Bool.or_eq_true, decide_eq_true_eq] at retried
    obtain ⟨⟨_, attempts⟩, leased | running⟩ := retried
    · exact ⟨attempts, fun publishing => absurd (publishing.symm.trans leased) (by decide)⟩
    · exact ⟨attempts, fun publishing => absurd (publishing.symm.trans running) (by decide)⟩

theorem fail_rows {request : FailIndexJobRequest} (failed : db.fail representable request now = .ok (next, record)) :
    RowsStep representable now (.bearer request.workerId request.leaseGeneration) db next := by
  obtain ⟨rfl, _⟩ | ⟨row, _, retry, _, found, live, requested, active, attempts, _, _, _, rfl⟩ := fail_cases failed
  · exact .refl _
  · exact .updateJob found (.failed rfl live requested active attempts)

/-- The row of a cancelled job. -/
def JobRow.cancelUpdate (now : Int) (row : JobRow) : JobRow :=
  { row.clearLease with
    state := .cancelled, cancellationRequested := true, failureCode := none, updatedAtMs := timestampMillis now }

/-- A cancellation finds its job terminal, or it ends the job. -/
theorem cancel_cases {request : CancelIndexJobRequest}
    (cancelled : db.cancel representable request now = .ok (next, record)) :
    next = db ∨ ∃ row, db.job? request.job.key = some row ∧ row.state.isTerminal = false ∧
      next = db.updateJob request.job (cancelUpdate now) := by
  simp only [cancel, bind_eq_ok_iff] at cancelled
  obtain ⟨_, _, loaded, loads, cancelled⟩ := cancelled
  split at cancelled
  · cases cancelled
    exact .inl rfl
  · obtain ⟨_, _, cancelled⟩ := bind_eq_ok_iff.mp cancelled
    split at cancelled
    · cases cancelled
      exact .inl rfl
    · next unfinished =>
      obtain ⟨_, _, returned⟩ := bind_eq_ok_iff.mp cancelled
      cases returned
      obtain ⟨row, lease, found, read, rfl, _⟩ := requireRecord_row loads
      exact .inr ⟨row, found, Bool.not_eq_true _ ▸ unfinished, rfl⟩

private theorem cancel_rows {request : CancelIndexJobRequest}
    (cancelled : db.cancel representable request now = .ok (next, record)) :
    RowsStep representable now .operator db next := by
  obtain rfl | ⟨row, found, unfinished, rfl⟩ := cancel_cases cancelled
  · exact .refl _
  · exact .updateJob found (.cancelled rfl unfinished)

variable {lease : PublicationLease}

theorem requirePublicationAuthority_eq_ok_iff {spec : IndexJobSpec} :
    db.requirePublicationAuthority lease now = .ok spec ↔ db.hasDeletionTombstone lease.job.project = false ∧
      ∃ row, db.job? lease.job.key = some row ∧ row.spec.kind = lease.job.kind ∧ row.spec.project = lease.job.project ∧
        row.publishableBy lease (timestampMillis now) = true ∧ row.spec = spec := by
  unfold requirePublicationAuthority
  split
  · next tombstone => simp [tombstone]
  · next alive =>
    cases found : db.job? lease.job.key with
    | none => simp
    | some row =>
      simp only [some.injEq, exists_eq_left', Bool.not_eq_true _ ▸ alive, true_and]
      split_ifs with authorized
      · simp only [Bool.and_eq_true, decide_eq_true_eq] at authorized
        simp [authorized]
      · simp only [Bool.and_eq_true, decide_eq_true_eq] at authorized
        simp only [false_iff]
        rintro ⟨kind, project, publishable, _⟩
        exact authorized ⟨⟨kind, project⟩, publishable⟩

theorem completeJob_ok {request : PublicationLease} (completed : db.completeJob request now = .ok next) :
    next = db.updateJobs (fun key row => key = request.job.key && row.publishableBy request (timestampMillis now))
      fun row =>
        { row.clearLease with state := .complete, failureCode := none, updatedAtMs := timestampMillis now } := by
  simp only [completeJob] at completed
  split at completed
  · exact (ok.inj completed).symm
  · cases completed

theorem completeJob_rows {request : PublicationLease} (completed : db.completeJob request now = .ok next) :
    RowsStep representable now (.bearer request.workerId request.leaseGeneration) db next := by
  rw [completeJob_ok completed]
  apply RowsStep.updateJobs
  intro key row _ chosen
  rw [Bool.and_eq_true] at chosen
  exact .published rfl chosen.2

theorem publishPrepared_rows {request : PublicationLease} {contentMatches : IndexJobSpec → Bool}
    (published : db.publishPrepared request contentMatches now = .ok next) :
    RowsStep representable now (.bearer request.workerId request.leaseGeneration) db next := by
  obtain ⟨_, _, published⟩ := bind_eq_ok_iff.mp published
  split at published
  · exact completeJob_rows published
  · cases published

theorem ReclaimUpdate.apply_rows (update : ReclaimUpdate) (project : RemoteProjectRef) :
    RowsStep representable now .operator db (update.apply project (timestampMillis now) db) := by
  apply RowsStep.updateJobs
  intro key row _ chosen
  rw [Bool.and_eq_true] at chosen
  exact .reclaimed rfl chosen.2

theorem reclaimExpired_rows (representable : Int → Bool) (db : ControlDatabase) (project : RemoteProjectRef) :
    RowsSteps representable now .operator db (db.reclaimExpired project now).1 :=
  (((Relation.ReflTransGen.single (ReclaimUpdate.cancel.apply_rows project)).tail
    (ReclaimUpdate.timeout.apply_rows project)).tail (ReclaimUpdate.attemptLimit.apply_rows project)).tail
    (ReclaimUpdate.requeue.apply_rows project)

/-- The row that a claim selects. -/
theorem claimable?_row {project : RemoteProjectRef} {kind : IndexJobKind}
    (chosen : db.claimable? project kind = some (key, row)) :
    db.job? key = some row ∧ (⟨project, jobIdOf key, kind⟩ : IndexJobRef).key = key ∧ row.spec.kind = kind ∧
      row.state = .queued ∧ row.cancellationRequested = false := by
  obtain ⟨stored, queued⟩ := (Table.mem_select _).mp (List.mem_of_find?_eq_some chosen)
  simp only [Bool.and_eq_true, decide_eq_true_eq, Bool.not_eq_true'] at queued
  obtain ⟨⟨⟨scope, isKind⟩, isQueued⟩, requested⟩ := queued
  refine ⟨stored, ?_, isKind, isQueued, requested⟩
  rw [IndexJobRef.key, ← scope]
  rfl

section

variable {request : ClaimIndexJobRequest} {record : Option IndexJobRecord}
  (claimed : db.claim representable limits request now = .ok (next, record))

include claimed

/-- A claim finds no job after its reclaim, or it leases the one that it selects. -/
theorem claim_cases : record = none ∧ next = (db.reclaimExpired request.project now).1 ∨
      ∃ (job : IndexJobRef) (row : JobRow) (expiresAt : Int) (leased : IndexJobRecord),
        record = some leased ∧ leased.job = job ∧
        leased.lease.map (·.generation) = some (row.leaseGeneration + 1) ∧
        (db.reclaimExpired request.project now).1.job? job.key = some row ∧ row.state = .queued ∧
        row.cancellationRequested = false ∧ row.nextAttempt ≤ row.maxAttempts ∧ representable expiresAt = true ∧
        next = (db.reclaimExpired request.project now).1.updateJob job
          (row.claimUpdate request.workerId expiresAt now) := by
  simp only [claim, bind_eq_ok_iff] at claimed
  obtain ⟨_, _, expiresAt, added, claimed⟩ := claimed
  split at claimed
  · cases claimed
    exact .inl ⟨rfl, rfl⟩
  · next key row chosen =>
    simp only [bind_eq_ok_iff, require_eq_ok, Bool.and_eq_true, decide_eq_true_eq] at claimed
    obtain ⟨_, ⟨_, attempts⟩, _, _, leased, loads, returned⟩ := claimed
    cases returned
    obtain ⟨stored, same, _, queued, requested⟩ := claimable?_row chosen
    obtain ⟨held, lease, found, read, rfl, kind, _⟩ := requireRecord_row loads
    rw [job?_updateJob, if_pos rfl, same, stored] at found
    refine .inr ⟨_, row, expiresAt, _, rfl, ?_, ?_, same ▸ stored, queued, requested, attempts,
      (checkedAddMillis_eq_ok added).2, rfl⟩
    · exact congrArg (fun kind => (⟨_, _, kind⟩ : IndexJobRef)) kind
    · obtain rfl := some.inj found
      simp only [JobRow.lease, bind_eq_ok_iff] at read
      obtain ⟨_, _, _, _, isLease⟩ := read
      obtain rfl := ok.inj isLease
      rfl

theorem claim_rows : RowsStep representable now .claimant (db.reclaimExpired request.project now).1 next := by
  rcases claim_cases claimed with ⟨_, rfl⟩ | ⟨job, row, expiresAt, _, _, _, _, stored, queued, requested, attempts,
    inRange, rfl⟩
  · exact .refl _
  · exact .updateJob stored (.claimed rfl queued requested attempts inRange)

/-- A claim writes nothing but jobs. -/
theorem claim_frame : next = { db with jobs := next.jobs } := by
  rcases claim_cases claimed with ⟨_, rfl⟩ | ⟨_, _, _, _, _, _, _, _, _, _, _, _, rfl⟩ <;> rfl

end

/-! ## Calls -/

/-- An answered call is an operation that has succeeded. -/
inductive Responds (representable : Int → Bool) (db : ControlDatabase) :
    CoordinatorCall → ControlDatabase → CoordinatorReply → Prop
  | submitted {limits : CoordinatorLimits} {request : SubmitIndexJobRequest} {now : Int} {next : ControlDatabase}
      {record : IndexJobRecord} (done : db.submit representable limits request now = .ok (next, record)) :
      Responds representable db (.submit limits request now) next (.record record)
  | claimed {limits : CoordinatorLimits} {request : ClaimIndexJobRequest} {now : Int} {next : ControlDatabase}
      {record : Option IndexJobRecord} (done : db.claim representable limits request now = .ok (next, record)) :
      Responds representable db (.claim limits request now) next (.claimed record)
  | started {request : AdvanceIndexJobRequest} {now : Int} {next : ControlDatabase} {record : IndexJobRecord}
      (done : db.transitionWithLease representable request .leased .running now false = .ok (next, record)) :
      Responds representable db (.start request now) next (.record record)
  | begun {request : AdvanceIndexJobRequest} {now : Int} {next : ControlDatabase} {record : IndexJobRecord}
      (done : db.transitionWithLease representable request .running .publishing now false = .ok (next, record)) :
      Responds representable db (.beginPublication request now) next (.record record)
  | completed {request : AdvanceIndexJobRequest} {now : Int} {next : ControlDatabase} {record : IndexJobRecord}
      (done : db.transitionWithLease representable request .publishing .complete now true = .ok (next, record)) :
      Responds representable db (.complete request now) next (.record record)
  | renewed {limits : CoordinatorLimits} {request : AdvanceIndexJobRequest} {now : Int} {next : ControlDatabase}
      {record : IndexJobRecord} (done : db.heartbeat representable limits request now = .ok (next, record)) :
      Responds representable db (.heartbeat limits request now) next (.record record)
  | failed {request : FailIndexJobRequest} {now : Int} {next : ControlDatabase} {record : IndexJobRecord}
      (done : db.fail representable request now = .ok (next, record)) :
      Responds representable db (.fail request now) next (.record record)
  | cancelled {request : CancelIndexJobRequest} {now : Int} {next : ControlDatabase} {record : IndexJobRecord}
      (done : db.cancel representable request now = .ok (next, record)) :
      Responds representable db (.cancel request now) next (.record record)
  | reclaimed {request : ReclaimIndexJobsRequest} {now : Int} :
      Responds representable db (.reclaim request now) (db.reclaimExpired request.project now).1
        (.reclaimed (db.reclaimExpired request.project now).2)

variable {call : CoordinatorCall} {reply : CoordinatorReply}

theorem respond_responds (answered : db.respond representable call = .ok (next, reply)) :
    Responds representable db call next reply := by
  cases call <;> obtain ⟨_, done, same⟩ := map_eq_ok_iff.mp answered <;> cases same
  case submit => exact .submitted done
  case claim => exact .claimed done
  case start => exact .started done
  case heartbeat => exact .renewed done
  case beginPublication => exact .begun done
  case complete => exact .completed done
  case fail => exact .failed done
  case cancel => exact .cancelled done
  case reclaim =>
    obtain ⟨_, _, returned⟩ := bind_eq_ok_iff.mp done
    cases returned
    exact .reclaimed

/-- The statements of an answered call: a claim reclaims before it leases. -/
theorem respond_rows (answered : db.respond representable call = .ok (next, reply)) :
    ∃ middle, RowsSteps representable call.now .operator db middle ∧
      RowsStep representable call.now call.actor middle next := by
  cases respond_responds answered with
  | submitted done => exact ⟨db, .refl, submit_rows done⟩
  | claimed done => exact ⟨_, reclaimExpired_rows representable db _, claim_rows done⟩
  | started done | begun done => exact ⟨db, .refl, transitionWithLease_rows rfl (.inl ⟨rfl, rfl⟩) done⟩
  | completed done => exact ⟨db, .refl, transitionWithLease_rows rfl (.inr ⟨rfl, rfl⟩) done⟩
  | renewed done => exact ⟨db, .refl, heartbeat_rows done⟩
  | failed done => exact ⟨db, .refl, fail_rows done⟩
  | cancelled done => exact ⟨db, .refl, cancel_rows done⟩
  | reclaimed => exact ⟨_, reclaimExpired_rows representable db _, .refl _⟩

theorem afterCall_rows (representable : Int → Bool) (db : ControlDatabase) (call : CoordinatorCall) :
    ∃ middle, RowsSteps representable call.now .operator db middle ∧
      RowsStep representable call.now call.actor middle (db.afterCall representable call) := by
  unfold afterCall
  split
  · next next reply answered => exact respond_rows answered
  · exact ⟨db, .refl, .refl db⟩

/-- No call touches a tombstone. -/
theorem respond_tombstones (answered : db.respond representable call = .ok (next, reply)) :
    next.tombstones = db.tombstones := by
  cases respond_responds answered with
  | submitted done => obtain rfl | ⟨_, _, _, _, _, _, _, _, rfl⟩ := submit_cases done <;> rfl
  | claimed done => rw [claim_frame done]
  | started done | begun done | completed done =>
    obtain ⟨_, ⟨rfl, _⟩ | ⟨_, _, _, _, _, _, _, _, _, _, rfl⟩⟩ := transitionWithLease_cases done <;> rfl
  | renewed done => obtain ⟨_, _, _, _, _, _, rfl⟩ := heartbeat_cases done; rfl
  | failed done => obtain ⟨rfl, _⟩ | ⟨_, _, _, _, _, _, _, _, _, _, _, _, rfl⟩ := fail_cases done <;> rfl
  | cancelled done => obtain rfl | ⟨_, _, _, rfl⟩ := cancel_cases done <;> rfl
  | reclaimed => rfl

/-- Under a tombstone no call adds a job to the project. -/
theorem respond_absent (answered : db.respond representable call = .ok (next, reply))
    (tombstone : (db.tombstones.get? (projectOf key)).isSome = true) (absent : db.job? key = none) :
    next.job? key = none := by
  have reclaimed (project : RemoteProjectRef) (now : Int) : (db.reclaimExpired project now).1.job? key = none := by
    simp only [reclaimExpired, ReclaimUpdate.apply, job?_updateJobs, absent, map_none]
  cases respond_responds answered with
  | submitted done =>
    obtain rfl | ⟨job, _, rfl, _, _, _, alive, _, rfl⟩ := submit_cases done
    · exact absent
    · change (db.jobs.insertNew _ _).get? key = none
      rw [Table.get?_insertNew, if_neg]
      · exact absent
      · rintro rfl
        exact Bool.false_ne_true (alive.symm.trans tombstone)
  | claimed done => exact (claim_rows done).absent (by simp) (reclaimed _ _)
  | started done | begun done => exact (transitionWithLease_rows rfl (.inl ⟨rfl, rfl⟩) done).absent (by simp) absent
  | completed done => exact (transitionWithLease_rows rfl (.inr ⟨rfl, rfl⟩) done).absent (by simp) absent
  | renewed done => exact (heartbeat_rows done).absent (by simp) absent
  | failed done => exact (fail_rows done).absent (by simp) absent
  | cancelled done =>
    obtain rfl | ⟨_, _, _, rfl⟩ := cancel_cases done
    · exact absent
    · rw [job?_updateJob, absent, map_none, ite_self]
  | reclaimed => exact reclaimed _ _

/-- An answered call under a lease finds the lease alive, or it only repeats an answer. -/
theorem respond_lease (under : call.lease? = some lease)
    (answered : db.respond representable call = .ok (next, reply)) :
    next = db ∨ ∃ row, db.job? lease.job.key = some row ∧
      row.liveFor lease.workerId lease.leaseGeneration (timestampMillis call.now) = true := by
  cases respond_responds answered with
  | started done | begun done | completed done =>
    cases under
    obtain ⟨_, ⟨same, _⟩ | ⟨row, _, _, found, live, _⟩⟩ := transitionWithLease_cases done
    · exact .inl same
    · exact .inr ⟨row, found, live⟩
  | renewed done =>
    cases under
    obtain ⟨row, _, found, live, _⟩ := heartbeat_cases done
    exact .inr ⟨row, found, live⟩
  | failed done =>
    cases under
    obtain ⟨same, _⟩ | ⟨row, _, _, _, found, live, _⟩ := fail_cases done
    · exact .inl same
    · exact .inr ⟨row, found, live⟩
  | submitted | claimed | cancelled | reclaimed => cases under

end Ferrus.Distributed

import Ferrus.Proofs.WorkerBatches
import Ferrus.Soundness.DeletionCompleteness

/-! # The jobs of the stored batches

A batch is stored under the lease of a running job, whose row stays until a deletion purges the control
database. The fact store is another database, so nothing there keeps the purge from removing the row of a job
whose batches are still stored.
-/

namespace Ferrus.Distributed

open Ferrus.Machine DeletionSystem

/-- The job of the batches of a key has its row. -/
def ControlDatabase.owns (control : ControlDatabase) (key : BatchKey) : Bool :=
  (control.job? (BatchKey.job key)).any fun row => row.spec.kind.column = BatchKey.kind key

/-- Every stored batch belongs to a job row. -/
def RemoteStores.BatchesOwned (stores : RemoteStores) : Prop :=
  ∀ entry ∈ stores.facts.batches.rows, stores.database.control.owns entry.1 = true

instance (stores : RemoteStores) : Decidable stores.BatchesOwned :=
  inferInstanceAs (Decidable (∀ entry ∈ stores.facts.batches.rows, stores.database.control.owns entry.1 = true))

/-- The process is about to purge the control database, and the row of the job is one of those it deletes there. -/
def DeletionProcess.purgesJob (process : DeletionProcess) (database : RemoteDatabase) (key : JobKey) : Bool :=
  process.phase = .purgeControl && (database.control.job? key).any (process.carried.deletesJob process.repositoryJobs
    (process.factsRemain || (database.publications.purge process.carried).snapshotsRemain process.carried) key)

/-- A purge of the control database finds no stored batch of a job whose row it deletes. -/
def DeletionSystem.sparesOwners (system : DeletionSystem) : DeletionEvent → Bool
  | .advance index _ => system.processes[index]?.all fun process => system.stores.facts.batches.rows.all fun entry =>
      !process.purgesJob system.stores.database (BatchKey.job entry.1)
  | .client _ | .start _ | .interrupt .. => true

variable {codec : StoreCodec} {stores next : RemoteStores} {process : DeletionProcess} {representable : Int → Bool}
  {now : Int} {actor : RowActor}

/-! ## Rows stay -/

theorem RowStep.owner {key : JobKey} {before after : Option JobRow} {kind : String}
    (step : RowStep representable now actor key before after)
    (owned : before.any (fun row => row.spec.kind.column = kind) = true) :
    after.any (fun row => row.spec.kind.column = kind) = true := by
  cases step with
  | kept => exact owned
  | submitted => cases owned
  | changed change =>
    rw [Option.any_some] at owned ⊢
    rw [change.spec_eq]
    exact owned

theorem RowsStep.owns {db after : ControlDatabase} {key : BatchKey}
    (step : RowsStep representable now actor db after) (owned : db.owns key = true) : after.owns key = true :=
  (step (BatchKey.job key)).owner owned

theorem RowsSteps.owns {db after : ControlDatabase} {key : BatchKey}
    (steps : RowsSteps representable now actor db after) (owned : db.owns key = true) : after.owns key = true := by
  induction steps with
  | refl => exact owned
  | tail _ step ih => exact step.owns ih

theorem ControlDatabase.owns_of_isWritable {control : ControlDatabase} {batch : FactBatch}
    {authority : FactBatchWriteAuthority} {nowMs : Int}
    (writable : control.isWritable batch.header.job authority nowMs = true) : control.owns batch.key = true := by
  rw [ControlDatabase.isWritable, Option.any_eq_true] at writable
  obtain ⟨row, found, isJob⟩ := writable
  have kind : row.spec.kind = batch.header.job.kind := of_decide_eq_true (Bool.and_eq_true_iff.mp isJob).1
  change (control.job? batch.header.job.key).any (fun row => row.spec.kind.column = batch.header.job.kind.column) = true
  rw [found, Option.any_some, kind]
  exact decide_eq_true rfl

/-! ## Steps -/

theorem Serves.batchesOwned {request : ClientRequest} {reply : ClientReply}
    (serves : Serves codec stores request next reply) (owned : stores.BatchesOwned) : next.BatchesOwned := by
  obtain ⟨middle, steps, step⟩ := serves.rows
  have kept (key : BatchKey) (isOwned : stores.database.control.owns key = true) :
      next.database.control.owns key = true :=
    step.owns (steps.owns isOwned)
  cases serves with
  | @factsPut quota batch authority now facts outcome put =>
    obtain ⟨_, _, writable, puts⟩ := put_cases put
    rintro ⟨key, row⟩ member
    cases puts with
    | reused => exact owned (key, row) member
    | stored absent =>
      have found := (Table.get?_eq_some_iff _).mpr member
      rw [Table.get?_insertNew] at found
      split_ifs at found with same
      · rw [same]
        exact ControlDatabase.owns_of_isWritable writable
      · exact owned (key, row) ((Table.get?_eq_some_iff _).mp (Table.get?_of_deleteWhere found))
  | coordinated | replayed | published | objectPut | objectsPut =>
    exact fun entry member => kept entry.1 (owned entry member)

theorem ControlDatabase.owns_of_deleteControlData {control : ControlDatabase} {deletion : DeleteDataRequest}
    {jobs : List String} {dataRemains : Bool} {key : BatchKey} (owned : control.owns key = true)
    (spared : (control.job? (BatchKey.job key)).any (deletion.deletesJob jobs dataRemains (BatchKey.job key)) = false) :
    (control.deleteControlData deletion jobs dataRemains now).owns key = true := by
  rw [owns, Option.any_eq_true] at owned
  obtain ⟨row, found, kind⟩ := owned
  rw [found, Option.any_some] at spared
  -- the cancellation before the deletion leaves the specification, which is all the deletion looks at
  have kept (after : JobRow) (same : after.spec = row.spec) :
      ((some after).filter fun row => !deletion.deletesJob jobs dataRemains (BatchKey.job key) row).any
        (fun row => row.spec.kind.column = BatchKey.kind key) = true := by
    rw [Option.filter_some, DeleteDataRequest.deletesJob_congr same, spared, if_pos (by rfl), Option.any_some, same]
    exact kind
  rw [owns, deleteControlData, job?_deleteJobs, cancelCoveredJobs, job?_updateJobs, found, Option.map_some]
  split
  · exact kept _ rfl
  · exact kept _ rfl

/-- The purge of the control database is the only transaction of a deletion that removes rows. -/
theorem DeletionProcess.advance_jobs (other : process.phase ≠ .purgeControl) :
    (process.advance stores now).1.database.control.jobs = stores.database.control.jobs := by
  have goesOn (result : Except MaintenanceStoreError RemoteStores) (next onError : DeletionPhase)
      (keeps : ∀ after, result = .ok after → after.database.control.jobs = stores.database.control.jobs) :
      (process.goOn stores result next onError).1.database.control.jobs = stores.database.control.jobs := by
    unfold goOn
    split
    · next after => exact keeps after rfl
    · rfl
  unfold advance
  cases phase : process.phase with
  | purgeControl => exact absurd phase other
  | begin =>
    dsimp only
    split_ifs
    · rfl
    · split
      · next begins =>
        unfold RemoteStores.beginDeletion at begins
        split at begins
        · obtain ⟨control, installs, same⟩ := Except.map_eq_ok_iff.mp begins
          cases same
          exact ControlDatabase.installControlTombstone_jobs installs
        · split_ifs at begins
          obtain ⟨control, installs, same⟩ := Except.map_eq_ok_iff.mp begins
          cases same
          exact ControlDatabase.installControlTombstone_jobs installs
      · rfl
  | purgeObjects | purgeFacts =>
    dsimp only
    split
    · refine goesOn _ _ _ fun after result => ?_
      obtain ⟨_, _, rfl⟩ := Except.map_eq_ok_iff.mp result
      rfl
    · rfl
  | recordObjects | recordFacts | finish =>
    refine goesOn _ _ _ fun after result => ?_
    obtain ⟨_, _, rfl⟩ := Except.map_eq_ok_iff.mp result
    rfl
  | releaseFacts | releaseObjects =>
    dsimp only
    split_ifs <;> rfl
  | listJobs | checkFacts | releaseControl | recordFailure | complete | refused => rfl

theorem DeletionProcess.advance_owns {key : BatchKey}
    (spares : process.purgesJob stores.database (BatchKey.job key) = false)
    (owned : stores.database.control.owns key = true) :
    (process.advance stores now).1.database.control.owns key = true := by
  by_cases purges : process.phase = .purgeControl
  · rw [purgesJob, decide_eq_true purges, Bool.true_and] at spares
    unfold advance goOn
    simp only [purges]
    split
    · next result =>
      obtain ⟨deletions, _, rfl⟩ := Except.map_eq_ok_iff.mp result
      exact ControlDatabase.owns_of_deleteControlData owned spares
    · exact owned
  · rw [ControlDatabase.owns, ControlDatabase.job?, advance_jobs purges]
    exact owned

theorem DeletionProcess.interrupt_control (removed : List ObjectKey) :
    (process.interrupt stores removed).1.database.control = stores.database.control := by
  unfold interrupt
  split
  · split_ifs <;> rfl
  all_goals rfl

/-- A deletion adds no batches. -/
theorem DeletionWrites.mem_of_mem_batches {deletion : DeleteDataRequest} (writes : DeletionWrites deletion stores next)
    {entry : BatchKey × StoredBatch} (member : entry ∈ next.facts.batches.rows) :
    entry ∈ stores.facts.batches.rows := by
  cases writes with
  | purgedFacts purges =>
    obtain ⟨tombstones, _, rfl⟩ := Except.map_eq_ok_iff.mp purges
    exact (List.mem_filter.mp member).1
  | kept | begun | recorded | purgedObjects | tornFiles | purgedControl | releasedFacts | releasedObjects
  | releasedControl => exact member

theorem DeletionSystem.batchesOwned_step {system : DeletionSystem} {event : DeletionEvent} (carry : system.Carry)
    (spares : system.sparesOwners event = true) (owned : system.stores.BatchesOwned) :
    (system.step codec event).stores.BatchesOwned := by
  have acts (index : Nat) (action : DeletionProcess → RemoteStores → RemoteStores × DeletionProcess)
      (stepped : ∀ process : DeletionProcess, process.Carries →
        process.Stepped system.stores (action process system.stores))
      (owns : ∀ process ∈ system.processes[index]?, ∀ entry ∈ system.stores.facts.batches.rows,
        (action process system.stores).1.database.control.owns entry.1 = true) :
      (system.act index action).stores.BatchesOwned := by
    unfold DeletionSystem.act
    cases found : system.processes[index]? with
    | none => exact owned
    | some process =>
      obtain ⟨⟨_, _, writes⟩, _⟩ := stepped process (carry process (List.mem_of_getElem? found))
      exact fun entry member => owns process found entry (writes.mem_of_mem_batches member)
  cases event with
  | client request =>
    exact afterRequest_of_serves (P := RemoteStores.BatchesOwned) owned fun _ _ serves => serves.batchesOwned owned
  | start request => exact owned
  | advance index now =>
    refine acts index _ (fun _ carries => DeletionProcess.advance_stepped carries now)
      fun process found entry member => ?_
    simp only [sparesOwners, Option.all_eq_true, List.all_eq_true, Bool.not_eq_true'] at spares
    exact process.advance_owns (spares process found entry member) (owned entry member)
  | interrupt index removed =>
    refine acts index _ (fun _ carries => DeletionProcess.interrupt_stepped carries removed)
      fun process _ entry member => ?_
    rw [process.interrupt_control]
    exact owned entry member

/-- As long as no batch is stored, at a purge of the control database, of a job whose row the purge deletes, every
stored batch belongs to the row of its job, whatever clients and deletions do. -/
theorem batches_owned (codec : StoreCodec) (events : List DeletionEvent)
    (spares : EveryStep (step codec) (fun source event _ => source.sparesOwners event = true) .empty events) :
    (run (step codec) .empty events).stores.BatchesOwned := by
  have reached := EveryStep.run_invariant
    (fun system : DeletionSystem => system.Carry ∧ system.stores.BatchesOwned) spares
    ⟨fun process none => absurd none List.not_mem_nil, fun entry none => absurd none List.not_mem_nil⟩
    (fun source event ⟨carry, owned⟩ spares =>
      ⟨carry.step codec event, batchesOwned_step carry spares owned⟩)
  exact reached.2

/-- A job runs and its batch is stored. -/
def storedBatchEvents : List DeletionEvent :=
  (publishingRequests.take 3).map (fun request => .client request.1) ++
    [.client (.putFacts ⟨10, 100, 10⟩ exampleBatch ⟨"worker-1", 1⟩ (atSecond 3))]

/-- A deletion of the graph snapshots together with the unpublished facts removes the batch and then the row. -/
theorem batches_owned_purged :
    (run (step exampleCodec) .empty storedBatchEvents).stores.facts.batches.rows.length = 1 ∧
    (run (step exampleCodec) .empty (storedBatchEvents ++
      .start ⟨"deletion-1", .project exampleProject, [.unpublishedFact, .publishedGraphSnapshot]⟩ ::
        (deletionAdvances 0 ++ deletionAdvances 0))).processes.map (·.phase) = [.complete] ∧
    (run (step exampleCodec) .empty storedBatchEvents).stores.BatchesOwned ∧
    (run (step exampleCodec) .empty (storedBatchEvents ++
      .start ⟨"deletion-1", .project exampleProject, [.unpublishedFact, .publishedGraphSnapshot]⟩ ::
        (deletionAdvances 0 ++ deletionAdvances 0))).stores.BatchesOwned :=
  ⟨by decide, by decide, batches_owned _ _ (by decide), batches_owned _ _ (by decide)⟩

/-- The graph snapshots of the project are deleted without its unpublished facts: the row of the job goes, and its batch
stays. -/
theorem not_batches_owned_orphaned : ¬ ∀ (codec : StoreCodec) (events : List DeletionEvent),
      (run (step codec) .empty events).stores.BatchesOwned := by
  intro owned
  exact absurd (owned exampleCodec orphanedBatchEvents) (by decide)

/-- The deletion of a repository's snapshots looks for batches of its jobs in one transaction and deletes the jobs in
the next one; a batch that is put between the two stays without its row. -/
theorem not_batches_owned_raced : ¬ (run (step exampleCodec) .empty
      ((publishingRequests.take 3).map (fun request => .client request.1) ++
        .start ⟨"deletion-1", .repository exampleRepository, [.publishedGraphSnapshot]⟩ ::
        List.replicate 5 (.advance 0 (atSecond 3)) ++
        [.client (.putFacts ⟨10, 100, 10⟩ exampleBatch ⟨"worker-1", 1⟩ (atSecond 3)),
          .advance 0 (atSecond 3)])).stores.BatchesOwned := by
  decide

end Ferrus.Distributed

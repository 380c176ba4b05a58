import Ferrus.Proofs.WorkerBatches
import Ferrus.Soundness.PublicationSwap

/-! # The batch stream of a job

Any number of workers may execute one job at the same time, each with its own limits and batches, and may stop
anywhere. What is stored of the job is at every moment a prefix of one worker's batch list, so a complete stream
is the whole list of one worker. It is the list of every worker that returns a success, until the job is over
and its batches are dropped.
-/

namespace Ferrus.Distributed

open Ferrus.Machine WorkerSystem List WorkerProcess

/-- The event does not put batches of the job past the workers. -/
def WorkerEvent.leavesToWorkers (job : IndexJobRef) : WorkerEvent → Bool
  | .client (.putFacts _ batch _ _) => batch.header.job ≠ job
  | .client _ | .execute .. | .advance .. | .expire _ => true

/-- What holds of the stored batches of a job and of the workers that execute it. -/
structure WorkerSystem.Streams (codec : SystemCodec) (job : IndexJobRef) (system : WorkerSystem) : Prop where
  placed : system.stores.facts.Placed
  valid : ∀ batch ∈ system.stores.facts.rowsForJob job, batch.validate codec.toBatchCodec = true
  /-- The stream is a prefix of one worker's list. -/
  source : system.stores.facts.rowsForJob job = [] ∨ ∃ worker ∈ system.workers, worker.request.job = job ∧
    system.stores.facts.rowsForJob job <+: worker.batches codec.toBatchCodec
  /-- What a worker has put is still there, unless the job is over. -/
  kept : ∀ worker ∈ system.workers, worker.request.job = job →
    (worker.batches codec.toBatchCodec).take worker.passed <+: system.stores.facts.rowsForJob job ∨
      system.stores.facts.rowsForJob job = [] ∧ system.stores.database.control.isOver job = true
  nonempty : ∀ worker ∈ system.workers, worker.payloads = [] → worker.failed = true

namespace WorkerSystem

variable {codec : SystemCodec} {job : IndexJobRef} {system : WorkerSystem}

theorem streams_empty : Streams codec job .empty where
  placed _ _ found := Option.some_ne_none _ found.symm |>.elim
  valid batch member := absurd member (not_mem_nil (a := batch))
  source := .inl rfl
  kept worker member := absurd member (not_mem_nil (a := worker))
  nonempty worker member := absurd member (not_mem_nil (a := worker))

theorem Streams.numbered (streams : Streams codec job system) : Numbered job (system.stores.facts.rowsForJob job) := by
  rcases streams.source with none | ⟨worker, _, rfl, before⟩
  · rw [none]
    intro index batch found
    cases found
  · exact (worker.numbered_batches codec.toBatchCodec).of_isPrefix before

end WorkerSystem

/-! ## Steps of the stores -/

/-- A job's stream is left alone, or dropped because the job is over. -/
structure RemoteStores.LeavesStream (job : IndexJobRef) (stores next : RemoteStores) : Prop where
  placed : stores.facts.Placed → next.facts.Placed
  rows : next.facts.rowsForJob job = stores.facts.rowsForJob job ∨
    next.facts.rowsForJob job = [] ∧ next.database.control.isOver job = true
  ended : stores.database.control.isOver job = true → next.database.control.isOver job = true

variable {codec : SystemCodec} {job : IndexJobRef}

variable {stores : RemoteStores} {quota : FactStoreQuota} {batch : FactBatch} {now : Int} {facts : FactDatabase}
  {outcome : PutFactBatchOutcome}

theorem RemoteStores.leavesStream_of_put {batchCodec : BatchCodec} {authority : FactBatchWriteAuthority}
    (other : batch.header.job ≠ job)
    (put : stores.facts.put batchCodec stores.database.control quota batch authority now = .ok (facts, outcome)) :
    RemoteStores.LeavesStream job stores { stores with facts } := by
  obtain ⟨_, _, _, puts⟩ := put_cases put
  exact ⟨puts.placed, puts.rows_of_ne other, id⟩

theorem Serves.leavesStream {storeCodec : StoreCodec} {next : RemoteStores} {request : ClientRequest}
    {reply : ClientReply} (serves : Serves storeCodec stores request next reply)
    (leaves : (WorkerEvent.client request).leavesToWorkers job = true) : stores.LeavesStream job next := by
  have ended : stores.database.control.isOver job = true → next.database.control.isOver job = true := by
    intro ended
    obtain ⟨row, found, isOver⟩ := (Option.any_eq_true _ _).mp ended
    rw [ControlDatabase.isOver, serves.finished found (Bool.and_eq_true_iff.mp isOver).2]
    exact isOver
  cases serves with
  | factsPut put => exact RemoteStores.leavesStream_of_put (of_decide_eq_true leaves) put
  | coordinated | replayed | published | objectPut | objectsPut => exact ⟨id, .inl rfl, ended⟩

namespace WorkerSystem

variable {system : WorkerSystem} {worker next : WorkerProcess} {index : Nat}

/-- A worker puts its next batch. -/
theorem Streams.puts (streams : Streams codec worker.request.job system) (member : worker ∈ system.workers)
    (own : (worker.batches codec.toBatchCodec)[worker.passed]? = some batch)
    (put : system.stores.facts.put codec.toBatchCodec system.stores.database.control quota batch
      worker.request.authority now = .ok (facts, outcome)) :
    Streams codec worker.request.job { system with stores.facts := facts } ∧
      (worker.batches codec.toBatchCodec).take (worker.passed + 1) <+: facts.rowsForJob worker.request.job := by
  obtain ⟨isJob, shard, sequence⟩ := worker.numbered_batches codec.toBatchCodec _ _ own
  obtain ⟨valid, _, writable, putsBatch⟩ := put_cases put
  have ongoing : system.stores.database.control.isOver batch.header.job = false := by
    obtain ⟨row, found, isWritable⟩ := (Option.any_eq_true ..).mp writable
    simp only [JobRow.writableBy, Bool.and_eq_true, decide_eq_true_eq] at isWritable
    rw [ControlDatabase.isOver, found, Option.any_some, isWritable.2.1.1.1.1]
    exact Bool.and_false _
  have numbered := streams.numbered
  rw [← isJob] at numbered shard
  have puts := putsBatch.puts streams.placed numbered shard ongoing
  rw [isJob] at ongoing puts
  rw [sequence] at puts
  -- The job is not over, so the stream still starts with what the worker has put.
  have keeps : ∀ other ∈ system.workers, other.request.job = worker.request.job →
      (other.batches codec.toBatchCodec).take other.passed <+: system.stores.facts.rowsForJob worker.request.job := by
    intro other isOther sameJob
    rcases streams.kept other isOther sameJob with before | ⟨_, ended⟩
    · exact before
    · rw [ongoing] at ended
      cases ended
  have before := keeps worker member rfl
  refine ⟨⟨putsBatch.placed streams.placed, ?_, ?_, ?_, streams.nonempty⟩, puts.covers own before⟩
  · intro stored isStored
    rcases puts.mem isStored with earlier | rfl
    · exact streams.valid stored earlier
    · exact valid
  · rcases puts.source own before with same | isOwn
    · rw [same]
      exact streams.source
    · exact .inr ⟨worker, member, rfl, isOwn⟩
  · intro other isOther sameJob
    exact .inl ((keeps other isOther sameJob).trans puts.grows)

variable {event : WorkerEvent}

section

variable (streams : Streams codec job system)

include streams

/-- The workers' part of the invariant survives whatever leaves the stream. -/
theorem Streams.leaves {next : RemoteStores} (leaves : system.stores.LeavesStream job next) :
    Streams codec job { system with stores := next } := by
  have placed := leaves.placed streams.placed
  rcases leaves.rows with same | dropped
  · refine ⟨placed, ?_, ?_, ?_, streams.nonempty⟩
    · exact same ▸ streams.valid
    · exact same ▸ streams.source
    · intro worker member isJob
      rw [same]
      exact (streams.kept worker member isJob).imp_right (And.imp_right leaves.ended)
  · exact ⟨placed, by simp [dropped.1], .inl dropped.1, fun _ _ _ => .inr dropped, streams.nonempty⟩

theorem Streams.start (fresh : worker.passed = 0)
    (nonempty : worker.payloads = [] → worker.failed = true) :
    Streams codec job { system with workers := system.workers ++ [worker] } where
  placed := streams.placed
  valid := streams.valid
  source := by
    rcases streams.source with none | ⟨other, member, isJob, before⟩
    · exact .inl none
    · exact .inr ⟨other, mem_append_left _ member, isJob, before⟩
  kept := by
    refine forall_mem_append.mpr ⟨streams.kept, ?_⟩
    simp [fresh]
  nonempty := forall_mem_append.mpr ⟨streams.nonempty, by simpa using nonempty⟩

theorem Streams.replace (found : system.workers[index]? = some worker)
    (same : worker.SameWork next)
    (keeps : next.request.job = job → (next.batches codec.toBatchCodec).take next.passed <+:
      system.stores.facts.rowsForJob job ∨ system.stores.facts.rowsForJob job = [] ∧
      system.stores.database.control.isOver job = true) (ends : next.payloads = [] → next.failed = true) :
    Streams codec job { system with workers := system.workers.set index next } where
  placed := streams.placed
  valid := streams.valid
  source := by
    rcases streams.source with none | ⟨other, member, isJob, before⟩
    · exact .inl none
    · obtain ⟨after, isAfter, sameWork⟩ : ∃ after ∈ system.workers.set index next, other.SameWork after := by
        obtain ⟨place, isOther⟩ := mem_iff_getElem?.mp member
        by_cases here : index = place
        · subst here
          obtain rfl := Option.some.inj (found.symm.trans isOther)
          exact ⟨next, List.mem_set (List.getElem?_eq_some_iff.mp found).choose _, same⟩
        · refine ⟨other, mem_of_getElem? (i := place) ?_, ⟨rfl, rfl, rfl⟩⟩
          rw [getElem?_set_ne here]
          exact isOther
      refine .inr ⟨after, isAfter, ?_, ?_⟩
      · rw [sameWork.request]
        exact isJob
      · rw [sameWork.batches]
        exact before
  kept other member := by
    rcases mem_or_eq_of_mem_set member with earlier | rfl
    · exact streams.kept other earlier
    · exact keeps
  nonempty other member := by
    rcases mem_or_eq_of_mem_set member with earlier | rfl
    · exact streams.nonempty other earlier
    · exact ends

theorem Streams.moves {after : RemoteStores} (found : system.workers[index]? = some worker)
    (moves : worker.Moves codec.toBatchCodec system.stores after next) :
    Streams codec job ⟨after, system.workers.set index next⟩ := by
  have member := mem_of_getElem? found
  cases moves with
  | still same fewer _ ends =>
    refine streams.replace found same ?_ ?_
    · intro isJob
      rw [same.request] at isJob
      rw [same.batches]
      rcases streams.kept worker member isJob with before | ended
      · exact .inl ((take_prefix_take_left fewer).trans before)
      · exact .inr ended
    · rw [same.payloads]
      exact fun none => ends (streams.nonempty worker member none)
  | puts same before own put more =>
    subst before
    have some : next.payloads = [] → next.failed = true := by
      intro none
      have inside := (List.getElem?_eq_some_iff.mp own).choose
      rw [length_batches, ← same.payloads, none] at inside
      cases inside
    by_cases isJob : worker.request.job = job
    · subst isJob
      obtain ⟨stored, covers⟩ := streams.puts member own put
      refine stored.replace found same (fun _ => .inl ?_) some
      rw [same.batches, more]
      exact covers
    · have other := (worker.numbered_batches codec.toBatchCodec _ _ own).1
      have leaves := RemoteStores.leavesStream_of_put (fun same => isJob (other.symm.trans same)) put
      refine (streams.leaves leaves).replace found same (fun sameJob => ?_) some
      rw [same.request] at sameJob
      exact absurd sameJob isJob
  | succeeds same before alive _ all =>
    refine streams.replace found same ?_ ?_
    · intro isJob
      rw [same.request] at isJob
      rw [same.batches, all, ← before]
      exact streams.kept worker member isJob
    · intro none
      rw [same.payloads] at none
      rw [streams.nonempty worker member none] at alive
      cases alive

theorem Streams.step (leaves : event.leavesToWorkers job = true) : Streams codec job (system.step codec event) := by
  cases event with
  | client request =>
    rcases afterRequest_cases codec.toStoreCodec system.stores request with ⟨reply, serves⟩ | same
    · exact streams.leaves (serves.leavesStream leaves)
    · simp only [step, same]
      exact streams
  | execute request limits target facts =>
    obtain ⟨fresh, _, nonempty⟩ := begin_spec codec.toWorkerCodec request limits target facts
    exact streams.start fresh nonempty
  | advance index quota now =>
    simp only [step, act]
    split
    · exact streams
    · next worker found => exact streams.moves found (advance_moves rfl)
  | expire index =>
    simp only [step, act]
    split
    · exact streams
    · next worker found => exact streams.moves found expire_moves

end

/-! ## Complete streams -/

section

variable (streams : Streams codec job system)

include streams

/-- A worker that has put its whole list finds the stream equal to it. -/
theorem Streams.eq_batches (nonempty : worker.payloads ≠ [])
    (before : worker.batches codec.toBatchCodec <+: system.stores.facts.rowsForJob job) :
    system.stores.facts.rowsForJob job = worker.batches codec.toBatchCodec := by
  have some : worker.batches codec.toBatchCodec ≠ [] := by
    rw [← length_pos_iff, length_batches]
    exact length_pos_iff.mpr nonempty
  rcases streams.source with none | ⟨other, _, _, within⟩
  · rw [none] at before
    exact absurd (prefix_nil.mp before) some
  · have same := (worker.marked_batches _).eq_of_isPrefix (other.marked_batches _) (before.trans within) some
    refine (before.eq_of_length_le ?_).symm
    rw [same]
    exact within.length_le

theorem Streams.validateBatchStream (isJob : worker.request.job = job) (nonempty : worker.payloads ≠ [])
    (stored : system.stores.facts.rowsForJob job = worker.batches codec.toBatchCodec) :
    validateBatchStream codec.toBatchCodec job (system.stores.facts.rowsForJob job) = true := by
  have valid := streams.valid
  subst isJob
  rw [stored] at valid ⊢
  have numbered := worker.numbered_batches codec.toBatchCodec
  refine validateBatchStream_iff.mpr ⟨?_, ?_⟩
  · rw [← length_pos_iff, length_batches]
    exact length_pos_iff.mpr nonempty
  · intro index batch first found isFirst
    obtain ⟨isJob, isShard, sequence⟩ := numbered index batch found
    exact ⟨valid batch (mem_of_getElem? found), isJob, isShard.trans (numbered 0 first isFirst).2.1.symm, sequence,
      worker.marked_batches _ index batch found⟩

/-- A worker that has returned a success has its list stored, unless the job is over and nothing is. -/
theorem Streams.of_succeeded (member : worker ∈ system.workers) (isJob : worker.request.job = job)
    (succeeded : worker.succeeded = true) : system.stores.facts.rowsForJob job = worker.batches codec.toBatchCodec ∧
        Distributed.validateBatchStream codec.toBatchCodec job (system.stores.facts.rowsForJob job) = true ∨
      system.stores.facts.rowsForJob job = [] ∧ system.stores.database.control.isOver job = true := by
  obtain ⟨all, alive⟩ := WorkerProcess.of_succeeded succeeded
  have nonempty : worker.payloads ≠ [] := by
    intro none
    rw [streams.nonempty worker member none] at alive
    cases alive
  rcases streams.kept worker member isJob with before | ended
  · have whole : (worker.batches codec.toBatchCodec).take worker.passed = worker.batches codec.toBatchCodec :=
      take_of_length_le (by rw [length_batches, all])
    rw [whole] at before
    have stored := streams.eq_batches nonempty before
    exact .inl ⟨stored, streams.validateBatchStream isJob nonempty stored⟩
  · exact .inr ended

/-- An accepted stream is the whole list of one worker. -/
theorem Streams.source_of_validateBatchStream
    (accepted : Distributed.validateBatchStream codec.toBatchCodec job (system.stores.facts.rowsForJob job) = true) :
    ∃ worker ∈ system.workers, worker.request.job = job ∧
      system.stores.facts.rowsForJob job = worker.batches codec.toBatchCodec := by
  obtain ⟨nonempty, batches⟩ := validateBatchStream_iff.mp accepted
  rcases streams.source with none | ⟨worker, member, isJob, before⟩
  · exact absurd none nonempty
  · have marked : SharedStream.Marked (·.header.finalBatch) (system.stores.facts.rowsForJob job) := by
      intro index batch found
      have isFirst : (system.stores.facts.rowsForJob job)[0]? = some _ :=
        getElem?_eq_getElem (length_pos_iff.mpr nonempty)
      exact (batches index batch _ found isFirst).2.2.2.2
    exact ⟨worker, member, isJob, marked.eq_of_isPrefix (worker.marked_batches _) before nonempty⟩

end

/-- The worker at an index returns a success in this step. -/
def returnsAt (index : Nat) (worker : WorkerProcess) (source target : WorkerSystem) : Prop :=
  target.workers[index]? = some worker ∧ worker.succeeded = true ∧ source.workers[index]?.any (·.succeeded) = false

/-- A success is returned by a worker that has found the stream complete. -/
theorem complete_of_returnsAt (returns : returnsAt index worker system (system.step codec event)) :
    (system.step codec event).stores.facts.progress worker.request.job |>.isComplete := by
  obtain ⟨found, succeeded, before⟩ := returns
  have unchanged {other : WorkerProcess} (same : system.workers[index]? = some other) (isSame : worker = other) :
      False := by
    rw [same, Option.any_some, ← isSame, succeeded] at before
    cases before
  -- Only the step of this worker itself makes it return.
  have acts {place : Nat} {action : WorkerProcess → RemoteStores → RemoteStores × WorkerProcess}
      (found : (system.act place action).workers[index]? = some worker)
      (moves : ∀ process : WorkerProcess, process.Moves codec.toBatchCodec system.stores
        (action process system.stores).1 (action process system.stores).2) :
      (system.act place action).stores.facts.progress worker.request.job |>.isComplete := by
    unfold act at found ⊢
    split at found
    · exact (unchanged found rfl).elim
    next process isProcess =>
    by_cases here : place = index
    · subst here
      rw [List.getElem?_set_self (List.getElem?_eq_some_iff.mp isProcess).choose] at found
      obtain rfl := Option.some.inj found
      have notYet : process.succeeded = false := by simpa [isProcess] using before
      exact (moves process).complete notYet succeeded
    · rw [getElem?_set_ne here] at found
      exact (unchanged found rfl).elim
  cases event with
  | client request => exact (unchanged found rfl).elim
  | execute request limits target facts =>
    simp only [step] at found
    by_cases old : index < system.workers.length
    · rw [getElem?_append_left old] at found
      exact (unchanged found rfl).elim
    · rw [getElem?_append_right (not_lt.mp old)] at found
      obtain rfl := mem_singleton.mp (mem_of_getElem? found)
      rw [(begin_spec _ request limits target facts).2.1] at succeeded
      cases succeeded
  | advance place quota now => exact acts found fun process => advance_moves rfl
  | expire place => exact acts found fun process => expire_moves

end WorkerSystem

/-- However the workers of a job overlap and wherever they stop: when one returns a success, the stored batches of
the job are its batch list and pass the check of the ingestion. They stay so until the job is over and its batches
are dropped, and a stream that passes the check is always the whole list of one worker. -/
theorem streams_of_workers (codec : SystemCodec) (job : IndexJobRef) (events : List WorkerEvent)
    (leaves : ∀ event ∈ events, event.leavesToWorkers job = true) :
    EveryStep (step codec) (fun source _ target => ∀ index worker, worker.request.job = job →
      returnsAt index worker source target →
        target.stores.facts.loadForIngestion job = worker.batches codec.toBatchCodec ∧
        validateBatchStream codec.toBatchCodec job (target.stores.facts.loadForIngestion job) = true) .empty events ∧
    (∀ worker ∈ (run (step codec) .empty events).workers, worker.request.job = job → worker.succeeded = true →
      (run (step codec) .empty events).stores.facts.loadForIngestion job = worker.batches codec.toBatchCodec ∧
        validateBatchStream codec.toBatchCodec job
          ((run (step codec) .empty events).stores.facts.loadForIngestion job) = true ∨
      (run (step codec) .empty events).stores.facts.loadForIngestion job = [] ∧
        (run (step codec) .empty events).stores.database.control.isOver job = true) ∧
    (validateBatchStream codec.toBatchCodec job
      ((run (step codec) .empty events).stores.facts.loadForIngestion job) = true →
      ∃ worker ∈ (run (step codec) .empty events).workers, worker.request.job = job ∧
        (run (step codec) .empty events).stores.facts.loadForIngestion job =
          worker.batches codec.toBatchCodec) := by
  let Q (_ : WorkerSystem) (event : WorkerEvent) (_ : WorkerSystem) : Prop := event.leavesToWorkers job = true
  have every : EveryStep (step codec) Q .empty events :=
    EveryStep.of_mem (P := Q) (fun event member _ => leaves event member) _
  have reached := EveryStep.run_invariant (WorkerSystem.Streams codec job) every streams_empty
    (fun _ _ streams leaves => streams.step leaves)
  refine ⟨?_, fun worker member isJob succeeded => reached.of_succeeded member isJob succeeded,
    reached.source_of_validateBatchStream⟩
  refine every.of_invariant streams_empty
    (fun _ _ streams leaves => streams.step leaves) ?_
  intro source event streams leaves index worker isJob returns
  have complete := complete_of_returnsAt returns
  rcases (streams.step leaves).of_succeeded (mem_of_getElem? returns.1) isJob returns.2.1 with stored | ⟨none, _⟩
  · exact stored
  · subst isJob
    rw [FactDatabase.progress, none] at complete
    cases complete

/-- The digests of the stores, and diagnostics sorted by their content. -/
def exampleSystemCodec : SystemCodec :=
  { exampleCodec with graphDiagnosticJson := (·.content), memoryDiagnosticJson := (·.content) }

/-- Two nodes, in batches of at most `maxFacts` facts. -/
def executeExample (maxFacts : Nat) (positive : 0 < maxFacts) : WorkerEvent :=
  .execute ⟨exampleJob, exampleSpec, "worker-1", 1⟩ ⟨maxFacts, 10, 10, 10, positive⟩
    (.repositoryGraph ⟨exampleRepository, "snapshot-a"⟩ "identity-a" "build-a")
    (.repositoryGraph [⟨"snapshot-a", "node-b", none, none, "", .empty⟩,
      ⟨"snapshot-a", "node-a", none, none, "", .empty⟩] [] [])

/-- The worker with one fact in a batch puts its first one, then the worker with one batch for both facts meets it. -/
def overlappingEvents : List WorkerEvent :=
  (publishingRequests.take 3).map (fun request => .client request.1) ++
    [executeExample 1 (by decide), executeExample 2 (by decide)] ++
    [0, 0, 1, 1, 0, 0, 0].map fun index => .advance index ⟨10, 10, 10⟩ (atSecond 3)

/-- The first worker returns a success with two batches stored, the second one has failed. -/
theorem streams_of_overlapping_workers :
    (run (step exampleSystemCodec) .empty overlappingEvents).workers.map (·.succeeded) = [true, false] ∧
    ((run (step exampleSystemCodec) .empty overlappingEvents).stores.facts.loadForIngestion exampleJob).length = 2 ∧
    validateBatchStream exampleSystemCodec.toBatchCodec exampleJob
      ((run (step exampleSystemCodec) .empty overlappingEvents).stores.facts.loadForIngestion exampleJob) = true := by
  have leaves : ∀ event ∈ overlappingEvents, event.leavesToWorkers exampleJob = true := by decide
  obtain ⟨_, kept, _⟩ := streams_of_workers exampleSystemCodec exampleJob overlappingEvents leaves
  have returned : ∃ worker ∈ (run (step exampleSystemCodec) .empty overlappingEvents).workers,
      worker.request.job = exampleJob ∧ worker.succeeded = true := by decide
  obtain ⟨worker, member, isJob, success⟩ := returned
  refine ⟨by decide, ?stored, ?_⟩
  · decide
  rcases kept worker member isJob success with ⟨_, valid⟩ | ⟨none, _⟩
  · exact valid
  · exact absurd (congrArg length none) (by decide)

end Ferrus.Distributed

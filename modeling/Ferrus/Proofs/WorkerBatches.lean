import Ferrus.Machine.Core.SharedStream
import Ferrus.Proofs.ClientSteps
import Ferrus.Proofs.PayloadSizes

/-! # What a worker puts

The stored batches of a job are a shared stream: a put compares the slot of its sequence or fills the next
one. The batches of finished jobs may be dropped by any put of the project, but then no one can write the job
any more. `Moves` lists what one step of a worker does.
-/

namespace Ferrus.Distributed

open Ferrus.Machine FactDatabase ControlDatabase FactBatch IndexJobKind BatchKey List

/-! ## The batches of one job -/

theorem IndexJobKind.column_injective : Function.Injective IndexJobKind.column := by
  intro first second same
  cases first <;> cases second <;> simp_all [column]

theorem IndexJobRef.eq_of_key {first second : IndexJobRef} (key : first.key = second.key)
    (kind : first.kind.column = second.kind.column) : first = second := by
  obtain ⟨project, jobId, kind⟩ := first
  obtain ⟨sameProject, rfl⟩ := Prod.mk.inj (toLex.injective key)
  obtain rfl := RemoteProjectRef.key_injective sameProject
  obtain rfl := column_injective kind
  rfl

variable {batch : FactBatch} {job : IndexJobRef}

theorem BatchKey.isOf_key_iff : isOf batch.key job = true ↔ batch.header.job = job := by
  simp only [isOf, Bool.and_eq_true, decide_eq_true_eq]
  constructor
  · rintro ⟨key, kind⟩
    exact IndexJobRef.eq_of_key key kind
  · rintro rfl
    exact ⟨rfl, rfl⟩

/-- The job is over, so its batches may be dropped. -/
def ControlDatabase.isOver (control : ControlDatabase) (job : IndexJobRef) : Bool :=
  (control.job? job.key).any fun row => row.spec.kind = job.kind && row.state.isTerminal

theorem ControlDatabase.hasFinished_of_isOf {control : ControlDatabase} {key : BatchKey}
    (isOf : BatchKey.isOf key job = true) : control.hasFinished key = control.isOver job := by
  simp only [BatchKey.isOf, Bool.and_eq_true, decide_eq_true_eq] at isOf
  simp only [hasFinished, isOver, isOf, column_injective.eq_iff]

namespace FactDatabase

/-- Every batch is stored under its own key. -/
def Placed (facts : FactDatabase) : Prop := ∀ key row, facts.batches.get? key = some row → row.batch.key = key

variable {facts : FactDatabase} {job : IndexJobRef}

theorem mem_rowsForJob (placed : facts.Placed) :
    batch ∈ facts.rowsForJob job ↔
      batch.header.job = job ∧ ∃ byteLen, facts.batches.get? batch.key = some ⟨batch, byteLen⟩ := by
  unfold rowsForJob
  rw [mem_map]
  constructor
  · rintro ⟨⟨key, row⟩, selected, rfl⟩
    obtain ⟨found, isOf⟩ := (facts.batches.mem_select).mp selected
    obtain rfl := placed key row found
    exact ⟨isOf_key_iff.mp isOf, row.byteLen, found⟩
  · rintro ⟨isJob, byteLen, found⟩
    exact ⟨(batch.key, ⟨batch, byteLen⟩), (facts.batches.mem_select).mpr ⟨found, isOf_key_iff.mpr isJob⟩, rfl⟩

theorem rowsForJob_dropFinished (facts : FactDatabase) (control : ControlDatabase) (project : RemoteProjectRef)
    (job : IndexJobRef) : (facts.dropFinished control project).rowsForJob job =
      if projectOf job.key = project.key && control.isOver job then [] else facts.rowsForJob job := by
  unfold rowsForJob dropFinished
  rw [Table.select_deleteWhere facts.batches (projectOf job.key = project.key && control.isOver job)]
  · split_ifs <;> rfl
  · intro key row isOf
    have isJob : BatchKey.job key = job.key := by
      simp only [BatchKey.isOf, Bool.and_eq_true, decide_eq_true_eq] at isOf
      exact isOf.1
    rw [hasFinished_of_isOf isOf, BatchKey.project, isJob]

theorem Placed.dropFinished (placed : facts.Placed) (control : ControlDatabase) (project : RemoteProjectRef) :
    (facts.dropFinished control project).Placed :=
  fun key row found => placed key row (Table.get?_of_deleteWhere found)

end FactDatabase

/-- The batches of a job are numbered from zero in its shard. -/
def Numbered (job : IndexJobRef) (batches : List FactBatch) : Prop :=
  ∀ (index : Nat) (batch : FactBatch), batches[index]? = some batch →
    batch.header.job = job ∧ batch.header.shardId = shardOf job.kind ∧ batch.header.sequence = index

theorem Numbered.of_isPrefix {first second : List FactBatch} (numbered : Numbered job second)
    (before : first <+: second) : Numbered job first :=
  fun index batch found => numbered index batch (SharedStream.getElem?_of_isPrefix before found)

namespace PutsBatch

variable {codec : BatchCodec} {control : ControlDatabase} {quota : FactStoreQuota} {facts next : FactDatabase}
  {batch : FactBatch} {outcome : PutFactBatchOutcome} {job : IndexJobRef}

section

variable (puts : PutsBatch codec quota facts (facts.dropFinished control batch.header.job.project) batch next outcome)

include puts

theorem placed (before : facts.Placed) : next.Placed := by
  cases puts with
  | reused => exact before
  | stored =>
    intro key row found
    rw [Table.get?_insertNew] at found
    split_ifs at found with same
    · subst same
      cases stored : (facts.dropFinished control batch.header.job.project).batches.get? batch.key with
      | none =>
        rw [stored] at found
        cases found
        rfl
      | some old =>
        rw [stored] at found
        cases found
        exact before.dropFinished control _ _ _ stored
    · exact before.dropFinished control _ _ _ found

/-- A put of another job drops all batches of this one or leaves them. -/
theorem rows_of_ne
    (other : batch.header.job ≠ job) :
    next.rowsForJob job = facts.rowsForJob job ∨ next.rowsForJob job = [] ∧ control.isOver job = true := by
  cases puts with
  | reused => exact .inl rfl
  | stored =>
    have isOther : isOf batch.key job = false := by
      rw [← Bool.not_eq_true, isOf_key_iff]
      exact other
    have rows := facts.rowsForJob_dropFinished control batch.header.job.project job
    unfold rowsForJob at rows ⊢
    rw [Table.select_insertNew_other _ (fun key => isOf key job) _ isOther, rows]
    split_ifs with gone
    · exact .inr ⟨rfl, (Bool.and_eq_true_iff.mp gone).2⟩
    · exact .inl rfl

end

/-- A put of a numbered stream that is not over is one of the shared stream. -/
theorem puts
    (putsBatch : PutsBatch codec quota facts (facts.dropFinished control batch.header.job.project) batch next outcome)
    (before : facts.Placed) (numbered : Numbered batch.header.job (facts.rowsForJob batch.header.job))
    (shard : batch.header.shardId = shardOf batch.header.job.kind) (ongoing : control.isOver batch.header.job = false) :
    SharedStream.Puts (facts.rowsForJob batch.header.job) batch.header.sequence batch
      (next.rowsForJob batch.header.job) := by
  have kept : (facts.dropFinished control batch.header.job.project).rowsForJob batch.header.job =
      facts.rowsForJob batch.header.job := by
    rw [rowsForJob_dropFinished, ongoing, Bool.and_false, if_neg Bool.false_ne_true]
  cases putsBatch with
  | @reused stored found same =>
    refine .same ?_
    have member : batch ∈ facts.rowsForJob batch.header.job := by
      rw [← kept]
      refine (mem_rowsForJob (before.dropFinished control _)).mpr ⟨rfl, stored.byteLen, ?_⟩
      rw [found, ← same]
    obtain ⟨index, isIndex⟩ := mem_iff_getElem?.mp member
    rw [(numbered index batch isIndex).2.2]
    exact isIndex
  | stored absent =>
    have placed := before.dropFinished control batch.header.job.project
    generalize facts.dropFinished control batch.header.job.project = cleaned at absent kept placed
    rw [← kept] at numbered ⊢
    have free : (cleaned.rowsForJob batch.header.job).length ≤ batch.header.sequence := by
      by_contra taken
      have found : (cleaned.rowsForJob batch.header.job)[batch.header.sequence]? = some _ :=
        getElem?_eq_getElem (not_le.mp taken)
      obtain ⟨isJob, isShard, isSequence⟩ := numbered _ _ found
      obtain ⟨_, byteLen, isStored⟩ := (mem_rowsForJob placed).mp (mem_of_getElem? found)
      rw [key, isJob, isShard.trans shard.symm, isSequence] at isStored
      rw [key] at absent
      rw [absent] at isStored
      cases isStored
    -- The keys of a stream are in the order of its sequences.
    have last : ∀ entry ∈ cleaned.batches.select (fun key _ => isOf key batch.header.job), entry.1 < batch.key := by
      rintro ⟨key, row⟩ selected
      obtain rfl := placed key row ((cleaned.batches.mem_select).mp selected).1
      obtain ⟨index, found⟩ := mem_iff_getElem?.mp
        (mem_map_of_mem (f := fun entry => StoredBatch.batch (Prod.snd entry)) selected)
      obtain ⟨isJob, isShard, isSequence⟩ := numbered index _ found
      dsimp only at isJob isShard isSequence
      simp only [key, isJob, isShard, shard, isSequence, Prod.Lex.toLex_lt_toLex, lt_irrefl, true_and, false_or]
      exact (List.getElem?_eq_some_iff.mp found).choose.trans_le free
    have appended := Table.select_insertNew_last cleaned.batches (fun key => isOf key batch.header.job)
      ⟨batch, codec.byteLen batch⟩ (isOf_key_iff.mpr rfl) last
    have rows : rowsForJob
        { cleaned with batches := cleaned.batches.insertNew batch.key ⟨batch, codec.byteLen batch⟩ } batch.header.job =
          cleaned.rowsForJob batch.header.job ++ [batch] := by
      unfold rowsForJob
      rw [appended, map_append]
      rfl
    rw [rows]
    exact .next free

end PutsBatch

theorem validateBatchStream_iff {codec : BatchCodec} {batches : List FactBatch} :
    validateBatchStream codec job batches = true ↔ batches ≠ [] ∧
      ∀ (index : Nat) (batch first : FactBatch), batches[index]? = some batch → batches[0]? = some first →
        batch.validate codec = true ∧ batch.header.job = job ∧ batch.header.shardId = first.header.shardId ∧
          batch.header.sequence = index ∧ batch.header.finalBatch = (index + 1 == batches.length) := by
  cases batches with
  | nil => simp [validateBatchStream]
  | cons first rest =>
    simp only [validateBatchStream, all_eq_true, Prod.forall, mem_zipIdx_iff_getElem?, Bool.and_eq_true,
      decide_eq_true_eq, beq_iff_eq, and_assoc, ne_eq, reduceCtorEq, not_false_eq_true, true_and]
    constructor
    · intro each index batch head found isFirst
      cases isFirst
      exact each batch index found
    · intro each batch index found
      exact each index batch first found rfl

/-! ## Steps of a worker -/

namespace WorkerProcess

/-- The batch list of a worker. -/
def batches (codec : BatchCodec) (process : WorkerProcess) : List FactBatch :=
  process.payloads.mapIdx fun index payload =>
    FactBatch.identified codec process.request.job process.target (shardOf process.request.job.kind) index
      process.request.spec.semantics.extractorSetDigest (index + 1 == process.payloads.length) payload

/-- The number of batches that the worker has put; none matter once it has failed. -/
def passed (process : WorkerProcess) : Nat :=
  match process.phase with
  | .authorize index | .put index => index
  | .readProgress | .returned (.ok _) => process.payloads.length
  | .returned (.error _) => 0

def succeeded (process : WorkerProcess) : Bool :=
  match process.phase with
  | .returned (.ok _) => true
  | .authorize _ | .put _ | .readProgress | .returned (.error _) => false

def failed (process : WorkerProcess) : Bool :=
  match process.phase with
  | .returned (.error _) => true
  | .authorize _ | .put _ | .readProgress | .returned (.ok _) => false

variable {codec : BatchCodec} {process next : WorkerProcess} {quota : FactStoreQuota} {now : Int}
  {stores after : RemoteStores} {index : Nat}

@[simp] theorem length_batches : (process.batches codec).length = process.payloads.length := length_mapIdx

theorem marked_batches (codec : BatchCodec) (process : WorkerProcess) :
    SharedStream.Marked (·.header.finalBatch) (process.batches codec) := by
  intro index batch found
  rw [batches, getElem?_mapIdx, Option.map_eq_some_iff] at found
  obtain ⟨payload, _, rfl⟩ := found
  rw [length_batches]
  rfl

theorem numbered_batches (codec : BatchCodec) (process : WorkerProcess) :
    Numbered process.request.job (process.batches codec) := by
  intro index batch found
  rw [batches, getElem?_mapIdx, Option.map_eq_some_iff] at found
  obtain ⟨payload, _, rfl⟩ := found
  exact ⟨rfl, rfl, rfl⟩

theorem batches_of_batch? (built : process.batch? codec index = some batch) :
    (process.batches codec)[index]? = some batch := by
  obtain ⟨payload, found, built⟩ := Option.bind_eq_some_iff.mp built
  unfold ExecuteIndexJobRequest.batch? new? at built
  dsimp only at built
  split_ifs at built
  rw [batches, getElem?_mapIdx, found, Option.map_some]
  exact built

/-- The worker goes on with the same batches. -/
structure SameWork (process next : WorkerProcess) : Prop where
  request : next.request = process.request
  target : next.target = process.target
  payloads : next.payloads = process.payloads

theorem SameWork.batches (same : SameWork process next) : next.batches codec = process.batches codec := by
  simp only [WorkerProcess.batches, same.request, same.target, same.payloads]

/-- One step of a worker. -/
inductive Moves (codec : BatchCodec) (process : WorkerProcess) (stores : RemoteStores) :
    RemoteStores → WorkerProcess → Prop
  /-- It asks for its authority, stops or has returned. -/
  | still {next : WorkerProcess} (same : SameWork process next) (fewer : next.passed ≤ process.passed)
      (before : next.succeeded = true → process.succeeded = true) (ends : process.failed = true → next.failed = true) :
      Moves codec process stores stores next
  | puts {next : WorkerProcess} {index : Nat} {batch : FactBatch} {quota : FactStoreQuota} {now : Int}
      {facts : FactDatabase} {outcome : PutFactBatchOutcome} (same : SameWork process next)
      (before : process.passed = index) (own : (process.batches codec)[index]? = some batch)
      (put : stores.facts.put codec stores.database.control quota batch process.request.authority now =
        .ok (facts, outcome))
      (more : next.passed = index + 1) (running : next.succeeded = false) :
      Moves codec process stores { stores with facts } next
  /-- It has put all of its batches and finds the job's stream complete. -/
  | succeeds {next : WorkerProcess} (same : SameWork process next) (before : process.passed = process.payloads.length)
      (alive : process.failed = false) (complete : (stores.facts.progress process.request.job).isComplete = true)
      (all : next.passed = process.payloads.length) : Moves codec process stores stores next

theorem stop_moves (error : WorkerError) : Moves codec process stores stores (process.stop error) :=
  .still ⟨rfl, rfl, rfl⟩ (Nat.zero_le _) nofun fun _ => rfl

theorem passed_afterPut (own : (process.batches codec)[index]? = some batch) :
    ({ process with phase := process.afterPut index } : WorkerProcess).passed = index + 1 ∧
      ({ process with phase := process.afterPut index } : WorkerProcess).succeeded = false := by
  have inside := (List.getElem?_eq_some_iff.mp own).choose
  rw [length_batches] at inside
  unfold afterPut
  split_ifs with more
  · exact ⟨rfl, rfl⟩
  · exact ⟨show process.payloads.length = index + 1 by omega, rfl⟩

theorem putBatch_moves (phase : process.phase = .put index)
    (steps : process.putBatch codec quota stores index now = (after, next)) :
    Moves codec process stores after next := by
  unfold putBatch at steps
  split_ifs at steps
  · cases steps
    exact stop_moves _
  split at steps
  · cases steps
    exact stop_moves _
  next batch built =>
  dsimp only at steps
  split_ifs at steps
  · cases steps
    exact stop_moves _
  split at steps
  · cases steps
    exact stop_moves _
  · next facts outcome put =>
    cases steps
    have own := batches_of_batch? built
    obtain ⟨more, running⟩ := passed_afterPut own
    refine .puts ⟨rfl, rfl, rfl⟩ ?_ own put more running
    simp only [passed, phase]

theorem advance_moves (steps : process.advance codec quota stores now = (after, next)) :
    Moves codec process stores after next := by
  unfold advance at steps
  cases phase : process.phase with
  | authorize index =>
    simp only [phase] at steps
    split_ifs at steps
    · cases steps
      refine .still ⟨rfl, rfl, rfl⟩ ?_ nofun ?_
      · simp only [passed, phase, le_refl]
      · simp only [failed, phase, Bool.false_eq_true, false_implies]
    · cases steps
      exact stop_moves _
  | put index =>
    simp only [phase] at steps
    exact putBatch_moves phase steps
  | readProgress =>
    simp only [phase] at steps
    cases steps
    have before : process.passed = process.payloads.length := by simp only [passed, phase]
    unfold finish
    dsimp only
    split_ifs with complete
    · exact .succeeds ⟨rfl, rfl, rfl⟩ before (by simp only [failed, phase]) complete rfl
    · exact stop_moves _
  | returned result =>
    simp only [phase] at steps
    cases steps
    exact .still ⟨rfl, rfl, rfl⟩ le_rfl id id

theorem expire_moves : Moves codec process stores stores process.expire := by
  unfold expire
  split
  · exact .still ⟨rfl, rfl, rfl⟩ le_rfl id id
  · exact stop_moves _
  · exact stop_moves _
  · exact stop_moves _

theorem Moves.complete (moves : Moves codec process stores after next) (notYet : process.succeeded = false)
    (succeeded : next.succeeded = true) : (after.facts.progress next.request.job).isComplete = true := by
  cases moves with
  | still _ _ before =>
    rw [before succeeded] at notYet
    cases notYet
  | puts _ _ _ _ _ running =>
    rw [running] at succeeded
    cases succeeded
  | succeeds same _ _ complete =>
    rw [same.request]
    exact complete

theorem of_succeeded (succeeded : process.succeeded = true) :
    process.passed = process.payloads.length ∧ process.failed = false := by
  unfold WorkerProcess.succeeded at succeeded
  split at succeeded
  · next phase => simp only [passed, failed, phase, and_self]
  all_goals cases succeeded

/-- A new worker has put nothing, and has something to put unless it has failed. -/
theorem begin_spec (codec : WorkerCodec) (request : ExecuteIndexJobRequest) (limits : WorkerLimits)
    (target : FactTarget) (facts : FactBatchPayload) :
    (begin codec request limits target facts).passed = 0 ∧ (begin codec request limits target facts).succeeded = false ∧
      ((begin codec request limits target facts).payloads = [] →
        (begin codec request limits target facts).failed = true) := by
  unfold begin
  split
  · next payloads cuts =>
    have some := ExecuteIndexJobRequest.payloads_ne_nil cuts
    rw [if_neg some]
    exact ⟨rfl, rfl, fun none => absurd none some⟩
  · exact ⟨rfl, rfl, fun _ => rfl⟩

end WorkerProcess

end Ferrus.Distributed

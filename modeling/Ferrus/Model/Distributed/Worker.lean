import Ferrus.Model.Distributed.RemoteStores
import Mathlib.Data.List.Sort

/-! # Workers

A worker cuts the facts that it has extracted into payloads within its own limits and puts them as numbered
batches, one after the other. It asks the coordinator for its authority before each of them, and at the end it
looks at what is stored of the job. It may stop between any two of its steps.
-/

namespace Ferrus.Distributed

structure WorkerLimits where
  (maxFactsPerBatch maxTotalFacts maxBatchBytes maxOutputBytes : Nat)
  /-- A limit is a `NonZeroU64`. -/
  facts_pos : 0 < maxFactsPerBatch
deriving DecidableEq, Repr

inductive WorkerError where
  | outputLimitExceeded | factConflict | factStore | authorityLost | deadlineExceeded | invalidInput
  | incompatibleSemantics | extractionFailed
deriving DecidableEq, Repr

/-- The serialization of a worker: that of batches, and the JSON texts by which diagnostics are sorted. -/
structure WorkerCodec extends BatchCodec where
  graphDiagnosticJson : GraphDiagnostic → String
  memoryDiagnosticJson : MemoryDiagnostic → String

/-! ## Payloads -/

/-- Take what is left of a limit from a list; the rest of the list and of the limit. -/
def takePrefix {α : Type} (items : List α) (remaining : Nat) : List α × List α × Nat :=
  (items.take remaining, items.drop remaining, remaining - items.length)

namespace FactBatchPayload

/-- The first facts of a payload and the others; the lists are taken in turn. -/
def takeFacts (limit : Nat) : FactBatchPayload → FactBatchPayload × FactBatchPayload
  | repositoryGraph nodes edges diagnostics =>
      let (firstNodes, nodes, remaining) := takePrefix nodes limit
      let (firstEdges, edges, remaining) := takePrefix edges remaining
      let (firstDiagnostics, diagnostics, _) := takePrefix diagnostics remaining
      (repositoryGraph firstNodes firstEdges firstDiagnostics, repositoryGraph nodes edges diagnostics)
  | projectMemory entities relationships diagnostics =>
      let (firstEntities, entities, remaining) := takePrefix entities limit
      let (firstRelationships, relationships, remaining) := takePrefix relationships remaining
      let (firstDiagnostics, diagnostics, _) := takePrefix diagnostics remaining
      (projectMemory firstEntities firstRelationships firstDiagnostics,
        projectMemory entities relationships diagnostics)

/-- Payloads of at most `limit` facts each. A round takes at least one fact, so as many rounds as there are
facts are enough. -/
def cut (limit : Nat) : Nat → FactBatchPayload → List FactBatchPayload
  | 0, _ => []
  | rounds + 1, payload =>
      if payload.factCount = 0 then []
      else
        let (first, rest) := payload.takeFacts limit
        first :: cut limit rounds rest

/-- There is always a payload, which may have no facts. -/
def cutAll (limit : Nat) (payload : FactBatchPayload) : List FactBatchPayload :=
  match payload.cut limit payload.factCount with
  | [] => [payload]
  | first :: rest => first :: rest

/-- Two halves of a payload that is too large. -/
def split (payload : FactBatchPayload) : Except WorkerError (FactBatchPayload × FactBatchPayload) :=
  if payload.factCount < 2 then .error .outputLimitExceeded
  else .ok (payload.takeFacts (payload.factCount / 2))

end FactBatchPayload

def graphPayloads (codec : WorkerCodec) (nodes : List GraphNode) (edges : List GraphEdge)
    (diagnostics : List GraphDiagnostic) (maxFacts : Nat) : List FactBatchPayload :=
  (FactBatchPayload.repositoryGraph (nodes.insertionSort fun first second => first.id ≤ second.id)
    (edges.insertionSort fun first second => first.id ≤ second.id)
    (diagnostics.insertionSort (fun first second =>
      codec.graphDiagnosticJson first ≤ codec.graphDiagnosticJson second))).cutAll maxFacts

def memoryPayloads (codec : WorkerCodec) (entities : List MemoryEntity) (relationships : List MemoryRelationship)
    (diagnostics : List MemoryDiagnostic) (maxFacts : Nat) : List FactBatchPayload :=
  (FactBatchPayload.projectMemory (entities.insertionSort fun first second => first.id ≤ second.id)
    (relationships.insertionSort fun first second => first.id ≤ second.id)
    (diagnostics.insertionSort (fun first second =>
      codec.memoryDiagnosticJson first ≤ codec.memoryDiagnosticJson second))).cutAll maxFacts

/-- The payloads of all extracted facts. -/
def FactBatchPayload.payloads (codec : WorkerCodec) (maxFacts : Nat) : FactBatchPayload → List FactBatchPayload
  | repositoryGraph nodes edges diagnostics => graphPayloads codec nodes edges diagnostics maxFacts
  | projectMemory entities relationships diagnostics => memoryPayloads codec entities relationships diagnostics maxFacts

/-! ## Requests -/

/-- One execution of a job, under the lease that the worker has got for it. -/
structure ExecuteIndexJobRequest where
  job : IndexJobRef
  spec : IndexJobSpec
  workerId : WorkerId
  leaseGeneration : Nat
deriving DecidableEq, Repr

/-- The only shard of a job. -/
def shardOf : IndexJobKind → String
  | .repositoryGraph => "repository-all"
  | .projectMemory => "memory-all"

namespace ExecuteIndexJobRequest

variable (request : ExecuteIndexJobRequest)

def authority : FactBatchWriteAuthority := ⟨request.workerId, request.leaseGeneration⟩

/-- A batch of the execution; its header is checked when it is built. -/
def batch? (codec : BatchCodec) (target : FactTarget) (sequence : Nat) (finalBatch : Bool)
    (payload : FactBatchPayload) : Option FactBatch :=
  FactBatch.new? codec request.job target (shardOf request.job.kind) sequence request.spec.semantics.extractorSetDigest
    finalBatch payload

/-- How often `sizePayloadsForBatches` may look at a payload: once, and once for each part of it. -/
def rounds (payloads : List FactBatchPayload) : Nat :=
  (payloads.map (fun payload => 2 * max payload.factCount 1 - 1)).sum

/-- Split the payloads whose batches would be too large. The deadline is checked before each payload: it has not
passed for the first `checks` of them. -/
def sizeBeforeDeadline (codec : BatchCodec) (target : FactTarget) (maxBatchBytes : Nat) :
    Nat → List FactBatchPayload → List FactBatchPayload → Except WorkerError (List FactBatchPayload)
  | _, [], sized => .ok sized
  | 0, _ :: _, _ => .error .deadlineExceeded
  | checks + 1, payload :: pending, sized =>
      if 2 ^ 32 ≤ sized.length then .error .outputLimitExceeded
      else
        match request.batch? codec target sized.length pending.isEmpty payload with
        | none => .error .factConflict
        | some candidate =>
            if codec.byteLen candidate ≤ maxBatchBytes then
              sizeBeforeDeadline codec target maxBatchBytes checks pending (sized ++ [payload])
            else
              match payload.split with
              | .ok (first, second) =>
                  sizeBeforeDeadline codec target maxBatchBytes checks (first :: second :: pending) sized
              | .error error => .error error

/-- Sizing in time: no payload is looked at more often than `rounds` says. -/
def sizePayloadsForBatches (codec : BatchCodec) (target : FactTarget) (maxBatchBytes : Nat)
    (payloads : List FactBatchPayload) : Except WorkerError (List FactBatchPayload) :=
  request.sizeBeforeDeadline codec target maxBatchBytes (rounds payloads) payloads []

/-- The payloads of an execution, cut and sized within the worker's limits. -/
def payloads (codec : WorkerCodec) (limits : WorkerLimits) (target : FactTarget) (facts : FactBatchPayload) :
    Except WorkerError (List FactBatchPayload) := do
  let sized ← request.sizePayloadsForBatches codec.toBatchCodec target limits.maxBatchBytes
    (facts.payloads codec limits.maxFactsPerBatch)
  if limits.maxTotalFacts < (sized.map (·.factCount)).sum then .error .outputLimitExceeded
  else return sized

end ExecuteIndexJobRequest

/-- The coordinator still shows the job as running under the lease of the worker. -/
def ControlDatabase.authorizes (control : ControlDatabase) (request : ExecuteIndexJobRequest) (now : Int) : Bool :=
  match control.loadRecord utcRange request.job with
  | .ok (some current) =>
      current.spec = request.spec && current.state = .running && !current.cancellationRequested &&
        now < current.deadlineAt && current.lease.any fun lease =>
          lease.workerId = request.workerId && lease.generation = request.leaseGeneration && now < lease.expiresAt
  | .ok none | .error _ => false

/-- The stored batches are numbered from zero, of one shard, and the last one is final. -/
def FactBatchProgress.isComplete (progress : FactBatchProgress) : Bool :=
  match progress.batches with
  | [] => false
  | first :: _ => progress.batches.zipIdx.all fun (batch, index) => batch.sequence = index &&
      batch.finalBatch == (index + 1 == progress.batches.length) && batch.shardId = first.shardId

/-! ## Processes -/

structure WorkerExecutionOutcome where
  target : FactTarget
  progress : FactBatchProgress
  (storedBatches reusedBatches emittedFacts : Nat)
deriving DecidableEq, Repr

/-- What a worker does next. -/
inductive WorkerPhase where
  | authorize (index : Nat)
  | put (index : Nat)
  | readProgress
  | returned (result : Except WorkerError WorkerExecutionOutcome)
deriving DecidableEq

structure WorkerProcess where
  request : ExecuteIndexJobRequest
  limits : WorkerLimits
  target : FactTarget
  payloads : List FactBatchPayload
  phase : WorkerPhase
  (storedBatches reusedBatches outputBytes : Nat)
deriving DecidableEq

namespace WorkerProcess

variable (codec : BatchCodec) (process : WorkerProcess)

/-- The worker has extracted its facts and has cut them into payloads. -/
def begin (codec : WorkerCodec) (request : ExecuteIndexJobRequest) (limits : WorkerLimits) (target : FactTarget)
    (facts : FactBatchPayload) : WorkerProcess :=
  match request.payloads codec limits target facts with
  | .ok payloads => ⟨request, limits, target, payloads, if payloads = [] then .readProgress else .authorize 0, 0, 0, 0⟩
  | .error error => ⟨request, limits, target, [], .returned (.error error), 0, 0, 0⟩

def stop (error : WorkerError) : WorkerProcess := { process with phase := .returned (.error error) }

def batch? (index : Nat) : Option FactBatch :=
  process.payloads[index]?.bind fun payload =>
    process.request.batch? codec process.target index (index + 1 == process.payloads.length) payload

/-- The phase after the batch of an index is stored. -/
def afterPut (index : Nat) : WorkerPhase :=
  if index + 1 < process.payloads.length then .authorize (index + 1) else .readProgress

/-- Put one batch. -/
def putBatch (quota : FactStoreQuota) (stores : RemoteStores) (index : Nat) (now : Int) :
    RemoteStores × WorkerProcess :=
  if 2 ^ 32 ≤ index then (stores, process.stop .outputLimitExceeded)
  else
    match process.batch? codec index with
    | none => (stores, process.stop .factConflict)
    | some batch =>
        let byteLen := codec.byteLen batch
        if process.limits.maxBatchBytes < byteLen || process.limits.maxOutputBytes < process.outputBytes + byteLen then
          (stores, process.stop .outputLimitExceeded)
        else
          match stores.facts.put codec stores.database.control quota batch process.request.authority now with
          | .error _ => (stores, process.stop .factStore)
          | .ok (facts, outcome) => ({ stores with facts }, { process with
              phase := process.afterPut index
              outputBytes := process.outputBytes + byteLen
              storedBatches := process.storedBatches + (if outcome = .stored then 1 else 0)
              reusedBatches := process.reusedBatches + (if outcome = .reused then 1 else 0) })

/-- Look at what is stored of the job. -/
def finish (stores : RemoteStores) : WorkerProcess :=
  let progress := stores.facts.progress process.request.job
  if progress.isComplete then
    { process with
      phase := .returned (.ok {
        target := process.target, progress, storedBatches := process.storedBatches
        reusedBatches := process.reusedBatches, emittedFacts := (process.payloads.map (·.factCount)).sum }) }
  else process.stop .factStore

/-- The next step of a worker. -/
def advance (quota : FactStoreQuota) (stores : RemoteStores) (now : Int) : RemoteStores × WorkerProcess :=
  match process.phase with
  | .authorize index =>
      if stores.database.control.authorizes process.request now then (stores, { process with phase := .put index })
      else (stores, process.stop .authorityLost)
  | .put index => process.putBatch codec quota stores index now
  | .readProgress => (stores, process.finish stores)
  | .returned _ => (stores, process)

/-- The worker runs out of time, or is lost. What it has put stays. -/
def expire : WorkerProcess :=
  match process.phase with
  | .returned _ => process
  | .authorize _ | .put _ | .readProgress => process.stop .deadlineExceeded

end WorkerProcess

/-! ## Workers of one job and other clients -/

structure WorkerSystem where
  stores : RemoteStores
  workers : List WorkerProcess
deriving DecidableEq

inductive WorkerEvent where
  | client (request : ClientRequest)
  | execute (request : ExecuteIndexJobRequest) (limits : WorkerLimits) (target : FactTarget) (facts : FactBatchPayload)
  | advance (index : Nat) (quota : FactStoreQuota) (now : Int)
  | expire (index : Nat)

/-- The serialization of the stores and of the workers. -/
structure SystemCodec extends StoreCodec where
  graphDiagnosticJson : GraphDiagnostic → String
  memoryDiagnosticJson : MemoryDiagnostic → String

def SystemCodec.toWorkerCodec (codec : SystemCodec) : WorkerCodec :=
  { codec.toBatchCodec with
    graphDiagnosticJson := codec.graphDiagnosticJson, memoryDiagnosticJson := codec.memoryDiagnosticJson }

namespace WorkerSystem

def empty : WorkerSystem := ⟨.empty, []⟩

def act (system : WorkerSystem) (index : Nat) (action : WorkerProcess → RemoteStores → RemoteStores × WorkerProcess) :
    WorkerSystem :=
  match system.workers[index]? with
  | none => system
  | some worker =>
      let (stores, worker) := action worker system.stores
      ⟨stores, system.workers.set index worker⟩

def step (codec : SystemCodec) (system : WorkerSystem) : WorkerEvent → WorkerSystem
  | .client request => { system with stores := system.stores.afterRequest codec.toStoreCodec request }
  | .execute request limits target facts =>
      { system with workers := system.workers ++ [.begin codec.toWorkerCodec request limits target facts] }
  | .advance index quota now => system.act index fun worker stores => worker.advance codec.toBatchCodec quota stores now
  | .expire index => system.act index fun worker stores => (stores, worker.expire)

end WorkerSystem

end Ferrus.Distributed

import Ferrus.Model.Distributed.RemoteStores
import Ferrus.Proofs.JobConsistency
import Ferrus.Proofs.PublicationSteps

/-! # What a client's request does

`Serves` lists the answered requests with what each of them has found and written. A refused request
leaves the stores, so a step is one of these or none. The job rows stay consistent, and no request
touches a tombstone.
-/

namespace Ferrus.Distributed

open ControlDatabase List

/-! ## Fact batches -/

/-- What an answered put finds once the batches of finished jobs are dropped. -/
inductive PutsBatch (codec : BatchCodec) (quota : FactStoreQuota) (facts cleaned : FactDatabase) (batch : FactBatch) :
    FactDatabase → PutFactBatchOutcome → Prop
  | reused {stored : StoredBatch} (found : cleaned.batches.get? batch.key = some stored) (same : stored.batch = batch) :
      PutsBatch codec quota facts cleaned batch facts .reused
  | stored (absent : cleaned.batches.get? batch.key = none)
      (unfinished : (cleaned.rowsForJob batch.header.job).any (·.header.finalBatch) = false)
      (count : cleaned.batchCount batch.header.job.project.key < quota.maxBatchesPerProject)
      (bytes : cleaned.batchBytes batch.header.job.project.key + codec.byteLen batch ≤ quota.maxBytesPerProject) :
      PutsBatch codec quota facts cleaned batch
        { cleaned with batches := cleaned.batches.insertNew batch.key ⟨batch, codec.byteLen batch⟩ } .stored

theorem put_cases {codec : BatchCodec} {control : ControlDatabase} {quota : FactStoreQuota} {facts next : FactDatabase}
    {batch : FactBatch} {authority : FactBatchWriteAuthority} {now : Int} {outcome : PutFactBatchOutcome}
    (put : facts.put codec control quota batch authority now = .ok (next, outcome)) :
    batch.validate codec = true ∧ facts.hasDeletionTombstone batch.header.job.project = false ∧
      control.isWritable batch.header.job authority (timestampMillis now) = true ∧
      PutsBatch codec quota facts (facts.dropFinished control batch.header.job.project) batch next outcome := by
  unfold FactDatabase.put at put
  dsimp only at put
  split_ifs at put with invalid large tombstone writable
  refine ⟨by simpa using invalid, by simpa using tombstone, by simpa using writable, ?_⟩
  split at put
  · next stored found =>
    split_ifs at put with same
    cases put
    exact .reused found same
  · next absent =>
    obtain ⟨inserted, inserts, same⟩ := Except.map_eq_ok_iff.mp put
    cases same
    unfold FactDatabase.insertBatch at inserts
    dsimp only at inserts
    split_ifs at inserts with finished count bytes taken
    cases inserts
    exact .stored absent (by simpa using finished) (by omega) (by omega)

/-! ## Objects -/

/-- What an answered put of objects has found and written: those that have no row yet, unless there is none. -/
structure PutsObjects (quota : ObjectStoreQuota) (project : RemoteProjectRef) (db : ObjectDatabase)
    (pending : List VerifiedObject) (next : ObjectDatabase) : Prop where
  alive : db.hasDeletionTombstone project = false
  absent : ∀ object ∈ pending, db.objects.get? (objectKey project object.contentIdentity) = none
  distinct : (pending.map (·.contentIdentity)).Nodup
  fits : pending = [] ∨ db.objectCount project.key + pending.length ≤ quota.maxObjectsPerProject ∧
    db.objectBytes project.key + (pending.map (·.byteLen)).sum ≤ quota.maxBytesPerProject
  written : next = pending.foldl (fun db object => db.write project object) db

section Objects

variable {hash : List UInt8 → Digest} {quota : ObjectStoreQuota} {project : RemoteProjectRef} {db next : ObjectDatabase}

theorem putVerified_puts {object : VerifiedObject} {result : PutObjectResult}
    (put : db.putVerified hash quota project object = .ok (next, result)) :
    ∃ pending, PutsObjects quota project db pending next := by
  obtain ⟨_, _, put⟩ := Except.bind_eq_ok_iff.mp put
  split at put
  · cases put
  next tombstone =>
  have alive : db.hasDeletionTombstone project = false := by simpa using tombstone
  split at put
  · split_ifs at put
    cases put
    exact ⟨[], alive, nofun, nodup_nil, .inl rfl, rfl⟩
  · next absent =>
    split_ifs at put with count bytes
    cases put
    refine ⟨[object], alive, ?_, pairwise_singleton _ _, .inr ⟨?_, ?_⟩, rfl⟩
    · intro other isObject
      rw [mem_singleton.mp isObject]
      exact absent
    · rw [length_singleton]
      omega
    · rw [map_singleton, sum_singleton]
      omega

/-- An object is staged under an id that no other staged one has. -/
private theorem stageObject_distinct {staged next : List VerifiedObject} {object : VerifiedObject}
    (distinct : (staged.map (·.contentIdentity)).Nodup)
    (stages : ObjectDatabase.stageObject hash quota staged object = .ok next) :
    (next.map (·.contentIdentity)).Nodup := by
  obtain ⟨_, _, stages⟩ := Except.bind_eq_ok_iff.mp stages
  split at stages
  · next absent =>
    cases stages
    rw [map_append, nodup_append]
    refine ⟨distinct, pairwise_singleton _ _, ?_⟩
    intro first isFirst second isSecond same
    obtain ⟨other, isOther, rfl⟩ := mem_map.mp isFirst
    obtain rfl := mem_singleton.mp isSecond
    exact find?_eq_none.mp absent other isOther (decide_eq_true same)
  · split_ifs at stages
    cases stages
    exact distinct

theorem putVerifiedBatch_puts {objects : List VerifiedObject} {results : List PutObjectResult}
    (put : db.putVerifiedBatch hash quota project objects = .ok (next, results)) :
    ∃ pending, PutsObjects quota project db pending next := by
  obtain ⟨staged, stages, put⟩ := Except.bind_eq_ok_iff.mp put
  dsimp only at put
  split_ifs at put with tombstone _ count bytes
  cases put
  have distinct : (staged.map (·.contentIdentity)).Nodup :=
    Except.foldlM_invariant (fun staged => (staged.map VerifiedObject.contentIdentity).Nodup) nodup_nil
      (fun _ _ _ distinct stages => stageObject_distinct distinct stages) stages
  refine ⟨db.pending project staged, by simpa using tombstone, ?_, ?_, .inr ⟨by omega, by omega⟩, rfl⟩
  · intro object isPending
    exact Option.isNone_iff_eq_none.mp (mem_filter.mp isPending).2
  · exact distinct.sublist (filter_sublist.map _)

private theorem writes_tombstones (db : ObjectDatabase) (pending : List VerifiedObject) :
    (pending.foldl (fun db object => db.write project object) db).tombstones = db.tombstones := by
  induction pending generalizing db with
  | nil => rfl
  | cons object rest ih => exact ih (db.write project object)

theorem PutsObjects.tombstones {pending : List VerifiedObject} (puts : PutsObjects quota project db pending next) :
    next.tombstones = db.tombstones := by
  rw [puts.written]
  exact writes_tombstones db pending

end Objects

/-! ## Requests -/

/-- An answered request. -/
inductive Serves (codec : StoreCodec) (stores : RemoteStores) : ClientRequest → RemoteStores → ClientReply → Prop
  | coordinated {call : CoordinatorCall} {control : ControlDatabase} {reply : CoordinatorReply}
      (answered : stores.database.control.respond utcRange call = .ok (control, reply)) :
      Serves codec stores (.coordinate call) { stores with database.control := control } (.coordinated reply)
  | factsPut {quota : FactStoreQuota} {batch : FactBatch} {authority : FactBatchWriteAuthority} {now : Int}
      {facts : FactDatabase} {outcome : PutFactBatchOutcome}
      (put : stores.facts.put codec.toBatchCodec stores.database.control quota batch authority now =
        .ok (facts, outcome)) :
      Serves codec stores (.putFacts quota batch authority now) { stores with facts } (.factsPut outcome)
  | replayed {event : ClientRequest} {limits : RemoteStoreLimits} {request : PublicationRequest} {now : Int}
      {outcome : PublicationOutcome} (asks : event.publication? = some (limits, request, now))
      (valid : request.isValid = true)
      (replays : stores.database.replayPublication codec.toPublicationCodec request = .ok (some outcome)) :
      Serves codec stores event stores (.publication outcome)
  | published {event : ClientRequest} {limits : RemoteStoreLimits} {request : PublicationRequest} {now : Int}
      {database : RemoteDatabase} {outcome : PublicationOutcome}
      (asks : event.publication? = some (limits, request, now)) (valid : request.isValid = true)
      (publishes : Publishes codec.toPublicationCodec limits request now stores.database database outcome) :
      Serves codec stores event { stores with database } (.publication outcome)
  | objectPut {quota : ObjectStoreQuota} {project : RemoteProjectRef} {object : VerifiedObject}
      {objects : ObjectDatabase} {result : PutObjectResult}
      (put : stores.objects.putVerified codec.contentDigest quota project object = .ok (objects, result)) :
      Serves codec stores (.putObject quota project object) { stores with objects } (.objectPut result)
  | objectsPut {quota : ObjectStoreQuota} {project : RemoteProjectRef} {package : List VerifiedObject}
      {objects : ObjectDatabase} {results : List PutObjectResult}
      (put : stores.objects.putVerifiedBatch codec.contentDigest quota project package = .ok (objects, results)) :
      Serves codec stores (.putObjects quota project package) { stores with objects } (.objectsPut results)

variable {codec : StoreCodec} {stores next : RemoteStores} {request : ClientRequest} {reply : ClientReply}

theorem serve_serves (served : stores.serve codec request = .ok (next, reply)) :
    Serves codec stores request next reply := by
  unfold RemoteStores.serve at served
  cases request with
  | coordinate call =>
    dsimp only at served
    split at served
    · next answered =>
      cases served
      exact .coordinated answered
    · cases served
  | putFacts quota batch authority now =>
    dsimp only at served
    split at served
    · next put =>
      cases served
      exact .factsPut put
    · cases served
  | publishGraph limits request batches now =>
    dsimp only at served
    split at served
    · next published =>
      cases served
      obtain ⟨valid, ⟨replays, rfl⟩ | publishes⟩ := publishGraph_cases published
      · exact .replayed rfl valid replays
      · exact .published rfl valid publishes
    · cases served
  | publishMemory limits request batches now =>
    dsimp only at served
    split at served
    · next published =>
      cases served
      obtain ⟨valid, ⟨replays, rfl⟩ | publishes⟩ := publishMemory_cases published
      · exact .replayed rfl valid replays
      · exact .published rfl valid publishes
    · cases served
  | putObject quota project object =>
    dsimp only at served
    split at served
    · next put =>
      cases served
      exact .objectPut put
    · cases served
  | putObjects quota project objects =>
    dsimp only at served
    split at served
    · next put =>
      cases served
      exact .objectsPut put
    · cases served

/-- A request is answered, or it leaves the stores. -/
theorem afterRequest_cases (codec : StoreCodec) (stores : RemoteStores) (request : ClientRequest) :
    (∃ reply, Serves codec stores request (stores.afterRequest codec request) reply) ∨
      stores.afterRequest codec request = stores := by
  unfold RemoteStores.afterRequest
  split
  · next served => exact .inl ⟨_, serve_serves served⟩
  · exact .inr rfl

/-- What every answered request does holds of a step, unless the request leaves the stores. -/
@[elab_as_elim]
theorem afterRequest_of_serves {P : RemoteStores → Prop} (kept : P stores)
    (served : ∀ next reply, Serves codec stores request next reply → P next) :
    P (stores.afterRequest codec request) := by
  rcases afterRequest_cases codec stores request with ⟨reply, serves⟩ | same
  · exact served _ reply serves
  · rw [same]
    exact kept

/-! ## Job rows -/

/-- The instant of a request; the epoch for one that reads no clock. -/
def ClientRequest.instant (request : ClientRequest) : Int := request.now?.getD 0

/-- Who changes the job rows. -/
def ClientRequest.actor : ClientRequest → RowActor
  | coordinate call => call.actor
  | publishGraph _ request _ _ => .bearer request.workerId request.leaseGeneration
  | publishMemory _ request _ _ => .bearer request.workerId request.leaseGeneration
  | putFacts .. | putObject .. | putObjects .. => .operator

theorem ClientRequest.lease_of_publication {limits : RemoteStoreLimits} {asked : PublicationRequest} {now : Int}
    (asks : request.publication? = some (limits, asked, now)) :
    request.lease? = some asked.lease ∧ request.instant = now ∧
      request.actor = .bearer asked.lease.workerId asked.lease.leaseGeneration := by
  cases request with
  | publishGraph | publishMemory =>
    cases asks
    exact ⟨rfl, rfl, rfl⟩
  | coordinate | putFacts | putObject | putObjects => cases asks

section

variable (serves : Serves codec stores request next reply)

include serves

theorem Serves.rows :
    ∃ middle, RowsSteps utcRange request.instant .operator stores.database.control middle ∧
      RowsStep utcRange request.instant request.actor middle next.database.control := by
  cases serves with
  | coordinated answered => exact respond_rows answered
  | factsPut | replayed | objectPut | objectsPut => exact ⟨_, .refl, .refl _⟩
  | published asks _ publishes =>
    obtain ⟨_, instant, acts⟩ := ClientRequest.lease_of_publication asks
    rw [instant, acts]
    exact ⟨_, .refl, completeJob_rows publishes.completed⟩

theorem Serves.finished {key : JobKey} {row : JobRow} (found : stores.database.control.job? key = some row)
    (finished : row.state.isTerminal = true) :
    next.database.control.job? key = some row := by
  obtain ⟨middle, steps, step⟩ := serves.rows
  exact step.finished (steps.finished found finished) finished

theorem Serves.tombstones :
    next.database.control.tombstones = stores.database.control.tombstones ∧
      next.facts.tombstones = stores.facts.tombstones ∧ next.objects.tombstones = stores.objects.tombstones := by
  cases serves with
  | coordinated answered => exact ⟨respond_tombstones answered, rfl, rfl⟩
  | factsPut put =>
    obtain ⟨_, _, _, puts⟩ := put_cases put
    cases puts with
    | reused | stored => exact ⟨rfl, rfl, rfl⟩
  | replayed => exact ⟨rfl, rfl, rfl⟩
  | published _ _ publishes => exact ⟨by rw [completeJob_ok publishes.completed]; rfl, rfl, rfl⟩
  | objectPut put =>
    obtain ⟨_, puts⟩ := putVerified_puts put
    exact ⟨rfl, rfl, puts.tombstones⟩
  | objectsPut put =>
    obtain ⟨_, puts⟩ := putVerifiedBatch_puts put
    exact ⟨rfl, rfl, puts.tombstones⟩

/-- Clients do not write the tables of the deletion service. -/
theorem Serves.deletions : next.deletions = stores.deletions := by
  cases serves <;> rfl

end

/-- A request at an instant of `DateTime::<Utc>`. -/
abbrev UtcRequest := { request : ClientRequest // request.now?.all utcRange = true }

def requestStep (codec : StoreCodec) (stores : RemoteStores) (request : UtcRequest) : RemoteStores :=
  stores.afterRequest codec request.1

theorem UtcRequest.instant_utcRange (request : UtcRequest) : utcRange request.1.instant = true := by
  obtain ⟨request, timely⟩ := request
  unfold ClientRequest.instant
  cases now : request.now? with
  | none => rfl
  | some now =>
    simp only [now, Option.all_some] at timely
    exact timely

theorem ConsistentRows.afterRequest (request : UtcRequest) (before : ConsistentRows utcRange stores.database.control) :
    ConsistentRows utcRange (stores.afterRequest codec request.1).database.control := by
  refine afterRequest_of_serves before ?_
  intro next reply serves
  obtain ⟨middle, steps, step⟩ := serves.rows
  have inRange := request.instant_utcRange
  exact step.consistent wholeMillis_utcRange inRange (steps.consistent wholeMillis_utcRange inRange before)

end Ferrus.Distributed

import Ferrus.Model.Distributed.CoordinatorCalls
import Ferrus.Model.Distributed.FactStore
import Ferrus.Model.Distributed.Maintenance
import Ferrus.Model.Distributed.ObjectStore
import Ferrus.Model.Distributed.PublicationStore

/-! # The remote stores and their clients

The control database, the fact store and the object store are three databases. A client makes one request
at a time, which is one transaction on one of them; a refused request leaves every store as it was.
-/

namespace Ferrus.Distributed

inductive DeletionState where
  | requested | running | complete | failed
deriving DecidableEq, Repr

/-- What a deletion is identified by: its target and the classes it covers. -/
structure DeletionIdentity where
  target : DeletionTarget
  coverage : List RetentionClass
deriving DecidableEq, Repr

/-- The coverage is a set, so its classes are listed in their own order. -/
def DeleteDataRequest.identity (deletion : DeleteDataRequest) : DeletionIdentity :=
  ⟨deletion.target, RetentionClass.all.filter deletion.covers⟩

/-- One row of `remote_deletions`. -/
structure StoredDeletion where
  request : DeleteDataRequest
  state : DeletionState
deriving DecidableEq, Repr

inductive AuditOutcome where
  | succeeded | failed
deriving DecidableEq, Repr

/-- One row of `remote_audit_records`; the event is the identity of the deletion with its outcome. -/
structure AuditRecord where
  event : DeletionIdentity
  outcome : AuditOutcome
  deletionId : String
  observedAtMs : Int
deriving DecidableEq, Repr

/-- The tables of the deletion service, in the control database. -/
structure DeletionTables where
  deletions : List StoredDeletion
  auditRecords : List AuditRecord
deriving DecidableEq

structure RemoteStores where
  database : RemoteDatabase
  deletions : DeletionTables
  facts : FactDatabase
  objects : ObjectDatabase
deriving DecidableEq

def RemoteStores.empty : RemoteStores := ⟨.empty, ⟨[], []⟩, .empty, .empty⟩

/-- The hashes and lengths that the stores use. -/
structure StoreCodec extends PublicationCodec where
  contentDigest : List UInt8 → Digest

inductive ClientRequest where
  | coordinate (call : CoordinatorCall)
  | putFacts (quota : FactStoreQuota) (batch : FactBatch) (authority : FactBatchWriteAuthority) (now : Int)
  | publishGraph (limits : RemoteStoreLimits) (request : PublishGraphRequest) (batches : List FactBatch) (now : Int)
  | publishMemory (limits : RemoteStoreLimits) (request : PublishMemoryRequest) (batches : List FactBatch)
      (now : Int)
  | putObject (quota : ObjectStoreQuota) (project : RemoteProjectRef) (object : VerifiedObject)
  | putObjects (quota : ObjectStoreQuota) (project : RemoteProjectRef) (objects : List VerifiedObject)

inductive ClientReply where
  | coordinated (reply : CoordinatorReply)
  | factsPut (outcome : PutFactBatchOutcome)
  | publication (outcome : PublicationOutcome)
  | objectPut (result : PutObjectResult)
  | objectsPut (results : List PutObjectResult)
deriving DecidableEq

inductive ServiceError where
  | coordinator (error : CoordinatorError)
  | factStore (error : FactStoreError)
  | publicationStore (error : RemoteStoreError)
  | objectStore (error : ObjectStoreError)
deriving DecidableEq, Repr

namespace ClientRequest

/-- The instant of a request; the object store reads no clock. -/
def now? : ClientRequest → Option Int
  | coordinate call => some call.now
  | putFacts _ _ _ now | publishGraph _ _ _ now | publishMemory _ _ _ now => some now
  | putObject .. | putObjects .. => none

/-- The job and the lease under which a request is made, if it needs one. -/
def lease? : ClientRequest → Option PublicationLease
  | coordinate call => call.lease?
  | putFacts _ batch authority _ => some ⟨batch.header.job, authority.workerId, authority.leaseGeneration⟩
  | publishGraph _ request _ _ => some request.lease
  | publishMemory _ request _ _ => some request.lease
  | putObject .. | putObjects .. => none

/-- What a publication asks for, with the limits and the instant of the request. -/
def publication? : ClientRequest → Option (RemoteStoreLimits × PublicationRequest × Int)
  | publishGraph limits request _ now => some (limits, request.toRequest, now)
  | publishMemory limits request _ now => some (limits, request.toRequest, now)
  | coordinate _ | putFacts .. | putObject .. | putObjects .. => none

end ClientRequest

namespace RemoteStores

variable (codec : StoreCodec)

def serve (stores : RemoteStores) : ClientRequest → Except ServiceError (RemoteStores × ClientReply)
  | .coordinate call =>
      match stores.database.control.respond utcRange call with
      | .ok (control, reply) => .ok ({ stores with database.control := control }, .coordinated reply)
      | .error error => .error (.coordinator error)
  | .putFacts quota batch authority now =>
      match stores.facts.put codec.toBatchCodec stores.database.control quota batch authority now with
      | .ok (facts, outcome) => .ok ({ stores with facts }, .factsPut outcome)
      | .error error => .error (.factStore error)
  | .publishGraph limits request batches now =>
      match stores.database.publishGraph codec.toPublicationCodec limits request batches now with
      | .ok (database, outcome) => .ok ({ stores with database }, .publication outcome)
      | .error error => .error (.publicationStore error)
  | .publishMemory limits request batches now =>
      match stores.database.publishMemory codec.toPublicationCodec limits request batches now with
      | .ok (database, outcome) => .ok ({ stores with database }, .publication outcome)
      | .error error => .error (.publicationStore error)
  | .putObject quota project object =>
      match stores.objects.putVerified codec.contentDigest quota project object with
      | .ok (objects, result) => .ok ({ stores with objects }, .objectPut result)
      | .error error => .error (.objectStore error)
  | .putObjects quota project objects =>
      match stores.objects.putVerifiedBatch codec.contentDigest quota project objects with
      | .ok (objects, results) => .ok ({ stores with objects }, .objectsPut results)
      | .error error => .error (.objectStore error)

/-- The stores after a request. -/
def afterRequest (stores : RemoteStores) (request : ClientRequest) : RemoteStores :=
  match stores.serve codec request with
  | .ok (next, _) => next
  | .error _ => stores

end RemoteStores

end Ferrus.Distributed

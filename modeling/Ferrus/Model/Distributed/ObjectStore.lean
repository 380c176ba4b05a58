import Ferrus.Model.Distributed.ControlDatabase

/-! # The store of uploaded source objects

An object is a file of its project's directory and a row that counts it. Its id is the digest of its
content, so the same content is stored once. A put holds an immediate transaction from its tombstone
check to the row of the object; the file is written in between.
-/

namespace Ferrus.Distributed

structure ObjectStoreQuota where
  (maxObjectsPerProject maxBytesPerProject maxObjectBytes : Nat)
deriving DecidableEq, Repr

inductive ObjectStoreError where
  | contentIdentityMismatch | objectQuotaExceeded | projectObjectQuotaExceeded | projectByteQuotaExceeded
  | projectDeleted | integrityFailure
deriving DecidableEq, Repr

inductive PutObjectOutcome where
  | stored | reused
deriving DecidableEq, Repr

structure VerifiedObject where
  contentIdentity : Digest
  content : List UInt8
deriving DecidableEq, Repr

def VerifiedObject.byteLen (object : VerifiedObject) : Nat := object.content.length

structure PutObjectResult where
  objectId : Digest
  outcome : PutObjectOutcome
deriving DecidableEq, Repr

/-- The key of an object, and the path of its file: project and object id. -/
abbrev ObjectKey := ProjectKey ×ₗ String

def objectKey (project : RemoteProjectRef) (objectId : Digest) : ObjectKey := toLex (project.key, objectId)

def ObjectKey.project (key : ObjectKey) : ProjectKey := (ofLex key).1

/-- The rows of `source_objects` hold the length of each object. -/
structure ObjectDatabase where
  objects : Table ObjectKey Nat
  files : Table ObjectKey (List UInt8)
  tombstones : Table ProjectKey String
deriving DecidableEq

namespace ObjectDatabase

def empty : ObjectDatabase := ⟨.empty, .empty, .empty⟩

variable (db : ObjectDatabase) (project : RemoteProjectRef)

def hasDeletionTombstone : Bool := (db.tombstones.get? project.key).isSome

def ofProject (project : ProjectKey) : List Nat :=
  (db.objects.select (fun key _ => ObjectKey.project key = project)).map (·.2)

def objectCount (project : ProjectKey) : Nat := (db.ofProject project).length

def objectBytes (project : ProjectKey) : Nat := (db.ofProject project).sum

variable (hash : List UInt8 → Digest)

/-- The content has the digest it is uploaded under, and it is not too long. -/
def verify (quota : ObjectStoreQuota) (object : VerifiedObject) : Except ObjectStoreError Unit :=
  if hash object.content ≠ object.contentIdentity then .error .contentIdentityMismatch
  else if quota.maxObjectBytes < object.byteLen then .error .objectQuotaExceeded
  else .ok ()

/-- A stored object has the length and the content of the uploaded one. -/
def holds (object : VerifiedObject) (storedLen : Nat) : Bool :=
  storedLen = object.byteLen && db.files.get? (objectKey project object.contentIdentity) = some object.content

/-- Write the file and the row of an object. -/
def write (object : VerifiedObject) : ObjectDatabase :=
  let key := objectKey project object.contentIdentity
  { db with objects := db.objects.insertNew key object.byteLen, files := db.files.put key object.content }

def putVerified (quota : ObjectStoreQuota) (project : RemoteProjectRef) (object : VerifiedObject) :
    Except ObjectStoreError (ObjectDatabase × PutObjectResult) := do
  verify hash quota object
  if db.hasDeletionTombstone project then .error .projectDeleted
  else
    match db.objects.get? (objectKey project object.contentIdentity) with
    | some storedLen =>
        if db.holds project object storedLen then .ok (db, ⟨object.contentIdentity, .reused⟩)
        else .error .integrityFailure
    | none =>
        if quota.maxObjectsPerProject ≤ db.objectCount project.key then .error .projectObjectQuotaExceeded
        else if quota.maxBytesPerProject < db.objectBytes project.key + object.byteLen then
          .error .projectByteQuotaExceeded
        else .ok (db.write project object, ⟨object.contentIdentity, .stored⟩)

/-- Add an object to the package that is to be stored, once. -/
def stageObject (quota : ObjectStoreQuota) (staged : List VerifiedObject) (object : VerifiedObject) :
    Except ObjectStoreError (List VerifiedObject) := do
  verify hash quota object
  match staged.find? (·.contentIdentity = object.contentIdentity) with
  | none => return staged ++ [object]
  | some existing => if existing.content = object.content then return staged else .error .integrityFailure

/-- The staged objects that have no row yet. -/
def pending (staged : List VerifiedObject) : List VerifiedObject :=
  staged.filter fun object => (db.objects.get? (objectKey project object.contentIdentity)).isNone

/-- Every staged object that has a row is the stored one. -/
def agrees (staged : List VerifiedObject) : Bool :=
  staged.all fun object => (db.objects.get? (objectKey project object.contentIdentity)).all
    (db.holds project object)

/-- Store a package as a whole, or nothing of it. -/
def putVerifiedBatch (quota : ObjectStoreQuota) (project : RemoteProjectRef) (objects : List VerifiedObject) :
    Except ObjectStoreError (ObjectDatabase × List PutObjectResult) := do
  let staged ← objects.foldlM (stageObject hash quota) []
  if db.hasDeletionTombstone project then .error .projectDeleted
  else if !db.agrees project staged then .error .integrityFailure
  else
    let pending := db.pending project staged
    if quota.maxObjectsPerProject < db.objectCount project.key + pending.length then
      .error .projectObjectQuotaExceeded
    else if quota.maxBytesPerProject < db.objectBytes project.key + (pending.map (·.byteLen)).sum then
      .error .projectByteQuotaExceeded
    else
      let results := objects.map fun object => (⟨object.contentIdentity,
        if (db.objects.get? (objectKey project object.contentIdentity)).isSome then .reused else .stored⟩ :
          PutObjectResult)
      return (pending.foldl (fun db object => db.write project object) db, results)

end ObjectDatabase

end Ferrus.Distributed

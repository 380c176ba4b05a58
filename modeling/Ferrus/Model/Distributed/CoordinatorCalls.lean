import Ferrus.Model.Distributed.Publication

/-! # Calls of the coordinator

The operations of the coordinator as one type of calls, each with the instant at which it is made. A
call that is refused leaves the database as it was.
-/

namespace Ferrus.Distributed

inductive CoordinatorCall where
  | submit (limits : CoordinatorLimits) (request : SubmitIndexJobRequest) (now : Int)
  | claim (limits : CoordinatorLimits) (request : ClaimIndexJobRequest) (now : Int)
  | start (request : AdvanceIndexJobRequest) (now : Int)
  | heartbeat (limits : CoordinatorLimits) (request : AdvanceIndexJobRequest) (now : Int)
  | beginPublication (request : AdvanceIndexJobRequest) (now : Int)
  | complete (request : AdvanceIndexJobRequest) (now : Int)
  | fail (request : FailIndexJobRequest) (now : Int)
  | cancel (request : CancelIndexJobRequest) (now : Int)
  | reclaim (request : ReclaimIndexJobsRequest) (now : Int)

inductive CoordinatorReply where
  | record (record : IndexJobRecord)
  | claimed (record : Option IndexJobRecord)
  | reclaimed (result : ReclaimIndexJobsResult)
deriving DecidableEq

namespace CoordinatorCall

def now : CoordinatorCall → Int
  | submit _ _ now | claim _ _ now | start _ now | heartbeat _ _ now | beginPublication _ now
  | complete _ now | fail _ now | cancel _ now | reclaim _ now => now

/-- The same request at another time. -/
def atTime (later : Int) : CoordinatorCall → CoordinatorCall
  | submit limits request _ => submit limits request later
  | claim limits request _ => claim limits request later
  | start request _ => start request later
  | heartbeat limits request _ => heartbeat limits request later
  | beginPublication request _ => beginPublication request later
  | complete request _ => complete request later
  | fail request _ => fail request later
  | cancel request _ => cancel request later
  | reclaim request _ => reclaim request later

/-- The job and the lease that the request names, if it acts under one. -/
def lease? : CoordinatorCall → Option PublicationLease
  | start request _ | heartbeat _ request _ | beginPublication request _ | complete request _ =>
      some ⟨request.job, request.workerId, request.leaseGeneration⟩
  | fail request _ => some ⟨request.job, request.workerId, request.leaseGeneration⟩
  | submit .. | claim .. | cancel .. | reclaim .. => none

/-- The advances and the failure leave a receipt. -/
def leavesReceipt : CoordinatorCall → Bool
  | start .. | beginPublication .. | complete .. | fail .. => true
  | submit .. | claim .. | heartbeat .. | cancel .. | reclaim .. => false

end CoordinatorCall

namespace ControlDatabase

variable (representable : Int → Bool)

def respond (db : ControlDatabase) :
    CoordinatorCall → Except CoordinatorError (ControlDatabase × CoordinatorReply)
  | .submit limits request now => (db.submit representable limits request now).map (Prod.map id .record)
  | .claim limits request now => (db.claim representable limits request now).map (Prod.map id .claimed)
  | .start request now => (db.start representable request now).map (Prod.map id .record)
  | .heartbeat limits request now => (db.heartbeat representable limits request now).map (Prod.map id .record)
  | .beginPublication request now => (db.beginPublication representable request now).map (Prod.map id .record)
  | .complete request now => (db.complete representable request now).map (Prod.map id .record)
  | .fail request now => (db.fail representable request now).map (Prod.map id .record)
  | .cancel request now => (db.cancel representable request now).map (Prod.map id .record)
  | .reclaim request now => (db.reclaim request now).map (Prod.map id .reclaimed)

/-- The database after a call. -/
def afterCall (db : ControlDatabase) (call : CoordinatorCall) : ControlDatabase :=
  match db.respond representable call with
  | .ok (next, _) => next
  | .error _ => db

end ControlDatabase

end Ferrus.Distributed

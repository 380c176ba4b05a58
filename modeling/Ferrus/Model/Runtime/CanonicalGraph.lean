import Ferrus.ToMathlib.LatestEntry
import Ferrus.Model.Runtime.Database

/-! # The canonical graph record

A refresh of the canonical graph reads a guard, builds a snapshot outside the database and then
records its result if the guard is still current. The guard is the pair of ids of the latest
invalidation and the latest recorded refresh.
-/

namespace Ferrus.Runtime

open Database

structure CanonicalSourceIdentity where
  sourceRevisionId : SourceRevisionId
  manifestDigest : Digest
deriving DecidableEq, Repr

structure CanonicalGraphRefreshGuard where
  (invalidationEventId refreshEventId : Nat)
deriving DecidableEq, Repr, Inhabited

inductive CanonicalGraphRefreshOutcome where
  | recorded | superseded
deriving DecidableEq, Repr

/-- The event type of an invalidation. -/
def invalidatedEvent : String := "canonical_graph_invalidated"

/-- The event type of a recorded refresh. -/
def refreshedEvent : String := "canonical_graph_refreshed"

/-- The event type of a failed refresh. -/
def refreshFailedEvent : String := "canonical_graph_refresh_failed"

theorem refreshedEvent_ne : refreshedEvent ≠ invalidatedEvent := by decide

theorem refreshFailedEvent_ne : refreshFailedEvent ≠ invalidatedEvent := by decide

variable (record : ProjectRuntimeState)

/-- The source columns of the record, without a source all null. -/
def ProjectRuntimeState.setSource (source : Option CanonicalSourceIdentity) : ProjectRuntimeState :=
  { record with
    canonicalSourceRevisionId := source.map (·.sourceRevisionId.value)
    canonicalManifestAlgorithm := source.map (·.manifestDigest.algorithm)
    canonicalManifestDigest := source.map (·.manifestDigest.value) }

def ProjectRuntimeState.setStatus (status : CanonicalGraphStatus) (timestamp : String) : ProjectRuntimeState :=
  { record with
    canonicalGraphStatus := status
    canonicalGraphUpdatedAt := some timestamp
    updatedAt := timestamp }

namespace Database

section

variable (db : Database)

/-- `SELECT COALESCE(MAX(id), 0) FROM events WHERE type = …`. -/
def latestEventId (eventType : String) : Nat :=
  latestEntry (fun event => event.eventType = eventType) db.events

def latestCanonicalGraphInvalidationEventId : Nat := db.latestEventId invalidatedEvent

def latestCanonicalGraphRefreshEventId : Nat := db.latestEventId refreshedEvent

/-- The condition of the conditional updates. -/
def guardIsCurrent (guard : CanonicalGraphRefreshGuard) : Bool :=
  db.latestCanonicalGraphInvalidationEventId = guard.invalidationEventId &&
    db.latestCanonicalGraphRefreshEventId = guard.refreshEventId

def recordCanonicalGraphInvalidation (runId : Option RunId) (source : Option CanonicalSourceIdentity)
    (timestamp : String) : Except String Database :=
  let record := (db.runtimeState.setSource source).setStatus .stale timestamp
  { db with runtimeState := record }.insertEventInTransaction runId invalidatedEvent

def recordCanonicalGraphRefresh (runId : Option RunId) (guard : CanonicalGraphRefreshGuard)
    (source : CanonicalSourceIdentity) (snapshotId : SnapshotId)
    (timestamp : String) : Except String (Database × CanonicalGraphRefreshOutcome) :=
  if db.guardIsCurrent guard then
    let record :=
      { (db.runtimeState.setSource (some source)).setStatus .fresh timestamp with
        canonicalGraphSnapshotId := some snapshotId.value }
    ({ db with runtimeState := record }.insertEventInTransaction runId refreshedEvent).map
      (fun next => (next, .recorded))
  else .ok (db, .superseded)

/-- The failure is logged even where the guard is no longer current. -/
def recordCanonicalGraphRefreshFailed (runId : Option RunId)
    (guard : CanonicalGraphRefreshGuard) (timestamp : String) : Except String Database :=
  let record :=
    if db.guardIsCurrent guard then db.runtimeState.setStatus .stale timestamp else db.runtimeState
  { db with runtimeState := record }.insertEventInTransaction runId refreshFailedEvent

end

end Database

variable {db next : Database} {runId : Option RunId} {guard : CanonicalGraphRefreshGuard}
  {timestamp : String}

variable {source : CanonicalSourceIdentity} {snapshotId : SnapshotId}

/-- A refresh either found its guard current and is the last event, or changed nothing. -/
theorem Database.recordCanonicalGraphRefresh_ok {outcome : CanonicalGraphRefreshOutcome}
    (recorded : db.recordCanonicalGraphRefresh runId guard source snapshotId timestamp = .ok (next, outcome)) :
    (outcome = .recorded ∧ db.guardIsCurrent guard = true ∧
      next.events = db.events ++ [⟨runId, refreshedEvent⟩] ∧
      next.runtimeState.canonicalGraphStatus = .fresh) ∨
    (outcome = .superseded ∧ db.guardIsCurrent guard = false ∧ next = db) := by
  unfold recordCanonicalGraphRefresh at recorded
  split at recorded
  · next current =>
    obtain ⟨inserted, inserts, same⟩ := Except.map_eq_ok_iff.mp recorded
    have written := insertEventInTransaction_ok inserts
    cases same
    exact .inl ⟨rfl, current, by rw [written], by rw [written]; rfl⟩
  · next stale =>
    cases recorded
    exact .inr ⟨rfl, eq_false_of_ne_true stale, rfl⟩

/-- A failed refresh is the last event; it makes the record stale only where its guard is current. -/
theorem Database.recordCanonicalGraphRefreshFailed_ok
    (recorded : db.recordCanonicalGraphRefreshFailed runId guard timestamp = .ok next) :
    next.events = db.events ++ [⟨runId, refreshFailedEvent⟩] ∧
      next.tasks = db.tasks ∧ next.runs = db.runs ∧
      next.runtimeState =
        if db.guardIsCurrent guard then db.runtimeState.setStatus .stale timestamp
        else db.runtimeState := by
  rw [insertEventInTransaction_ok recorded]
  exact ⟨rfl, rfl, rfl, rfl⟩

end Ferrus.Runtime

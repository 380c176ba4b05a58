import Ferrus.Machine.Core.Run
import Ferrus.Model.Runtime.CanonicalGraph

/-! # A fresh canonical graph

Any number of refreshes run at once. Each takes its guard with two separate reads and records its
result later, between invalidations, other refreshes and unrelated operations. The length of the
event log serves as the clock: a guard's reads are dated by the events they could see.
-/

namespace Ferrus.Runtime

open Ferrus.Machine Database ReadAt

/-- How far a refresh is with its guard, and the lengths the log had at its reads. -/
inductive RefreshProgress where
  | reading (invalidationReadAt invalidationEventId : Nat)
  | guarded (invalidationReadAt refreshReadAt : Nat) (guard : CanonicalGraphRefreshGuard)
deriving DecidableEq, Repr

/-- The record and the refreshes in flight. `freshSince` is the moment at which the refresh that last
made the record fresh began to take its guard; before any such refresh it is the start of the run. -/
structure CanonicalState where
  db : Database
  refreshes : Table Nat RefreshProgress
  freshSince : Nat

def CanonicalState.start (db : Database) : CanonicalState := ⟨db, .empty, db.events.length⟩

/-- An operation on tasks, runs and the other runtime columns; its events are of other types. -/
structure OtherOperation where
  tasks : Table TaskId TaskRow
  runs : Table RunId RunRow
  updatedAt : String
  events : List EventRow
  unrelated : ∀ event ∈ events, event.eventType ≠ invalidatedEvent ∧ event.eventType ≠ refreshedEvent

def OtherOperation.apply (operation : OtherOperation) (db : Database) : Database where
  tasks := operation.tasks
  runs := operation.runs
  events := db.events ++ operation.events
  runtimeState := { db.runtimeState with updatedAt := operation.updatedAt }

inductive CanonicalEvent where
  | invalidate (runId : Option RunId) (source : Option CanonicalSourceIdentity) (timestamp : String)
  | readInvalidationId (refresh : Nat)
  | readRefreshId (refresh : Nat)
  | complete (refresh : Nat) (runId : Option RunId) (source : CanonicalSourceIdentity)
      (snapshotId : SnapshotId) (timestamp : String)
  | fail (refresh : Nat) (runId : Option RunId) (timestamp : String)
  | other (operation : OtherOperation)

/-- The refresh whose result the event records. -/
def CanonicalEvent.finishes? : CanonicalEvent → Option Nat
  | .complete refresh .. | .fail refresh .. => some refresh
  | _ => none

def canonicalStep (state : CanonicalState) : CanonicalEvent → CanonicalState
  | .invalidate runId source timestamp =>
      match state.db.recordCanonicalGraphInvalidation runId source timestamp with
      | .ok next => { state with db := next }
      | .error _ => state
  | .readInvalidationId refresh =>
      let progress := .reading state.db.events.length state.db.latestCanonicalGraphInvalidationEventId
      { state with refreshes := state.refreshes.put refresh progress }
  | .readRefreshId refresh =>
      match state.refreshes.get? refresh with
      | some (.reading readAt invalidationEventId) =>
          let progress := .guarded readAt state.db.events.length
            ⟨invalidationEventId, state.db.latestCanonicalGraphRefreshEventId⟩
          { state with refreshes := state.refreshes.put refresh progress }
      | _ => state
  | .complete refresh runId source snapshotId timestamp =>
      match state.refreshes.get? refresh with
      | some (.guarded readAt _ guard) =>
          match state.db.recordCanonicalGraphRefresh runId guard source snapshotId timestamp with
          | .ok (next, .recorded) => { state with db := next, freshSince := readAt }
          | .ok (next, .superseded) => { state with db := next }
          | .error _ => state
      | _ => state
  | .fail refresh runId timestamp =>
      match state.refreshes.get? refresh with
      | some (.guarded _ _ guard) =>
          match state.db.recordCanonicalGraphRefreshFailed runId guard timestamp with
          | .ok next => { state with db := next }
          | .error _ => state
      | _ => state
  | .other operation => { state with db := operation.apply state.db }

/-- No event of the type was logged from the moment on. -/
def NoneSince (eventType : String) (events : List EventRow) (moment : Nat) : Prop :=
  ∀ event ∈ events.drop moment, event.eventType ≠ eventType

/-- An invalidation or another refresh was recorded after the refresh had read its guard. -/
def CanonicalState.Superseded (state : CanonicalState) (refresh : Nat) : Prop :=
  ∃ invalidationReadAt refreshReadAt guard,
    state.refreshes.get? refresh = some (.guarded invalidationReadAt refreshReadAt guard) ∧
    ¬ (NoneSince invalidatedEvent state.db.events invalidationReadAt ∧
      NoneSince refreshedEvent state.db.events refreshReadAt)

/-- What each step must meet. -/
structure CanonicalLaw (state : CanonicalState) (event : CanonicalEvent) (target : CanonicalState) :
    Prop where
  fresh : target.db.runtimeState.canonicalGraphStatus = .fresh →
    NoneSince invalidatedEvent target.db.events target.freshSince
  superseded : ∀ refresh ∈ event.finishes?, state.Superseded refresh →
    target.db = { state.db with events := target.db.events } ∧ target.freshSince = state.freshSince

/-- The ids of a refresh are those the log had at their reads. -/
def RefreshProgress.ReadFrom (events : List EventRow) : RefreshProgress → Prop
  | .reading readAt id => ReadAt (fun event => event.eventType = invalidatedEvent) events readAt id
  | .guarded invalidationReadAt refreshReadAt guard =>
      ReadAt (fun event => event.eventType = invalidatedEvent) events invalidationReadAt
        guard.invalidationEventId ∧
      ReadAt (fun event => event.eventType = refreshedEvent) events refreshReadAt guard.refreshEventId

structure CanonicalInvariant (state : CanonicalState) : Prop where
  fresh : state.db.runtimeState.canonicalGraphStatus = .fresh →
    NoneSince invalidatedEvent state.db.events state.freshSince
  guards : ∀ refresh progress, state.refreshes.get? refresh = some progress →
    progress.ReadFrom state.db.events

variable {state : CanonicalState} {refresh : Nat} {progress : RefreshProgress}
  {events more : List EventRow} {eventType : String} {moment : Nat}

theorem NoneSince.append (none : NoneSince eventType events moment)
    (unrelated : ∀ event ∈ more, event.eventType ≠ eventType) : NoneSince eventType (events ++ more) moment := by
  intro event member
  rw [List.drop_append] at member
  rcases List.mem_append.mp member with earlier | later
  · exact none event earlier
  · exact unrelated event (List.mem_of_mem_drop later)

theorem RefreshProgress.ReadFrom.append (reading : progress.ReadFrom events) (more : List EventRow) :
    progress.ReadFrom (events ++ more) := by
  cases progress with
  | reading readAt id => exact append reading more
  | guarded invalidationReadAt refreshReadAt guard =>
    exact ⟨append reading.1 more, append reading.2 more⟩

/-- The conditional updates see exactly whether something was recorded after the guard's reads. -/
private theorem guardIsCurrent_iff {db : Database} {invalidationReadAt refreshReadAt : Nat}
    {guard : CanonicalGraphRefreshGuard}
    (reading : (RefreshProgress.guarded invalidationReadAt refreshReadAt guard).ReadFrom db.events) :
    db.guardIsCurrent guard = true ↔
      NoneSince invalidatedEvent db.events invalidationReadAt ∧
        NoneSince refreshedEvent db.events refreshReadAt := by
  have invalidation := current_iff reading.1
  have refreshed := current_iff reading.2
  simp only [decide_eq_false_iff_not] at invalidation refreshed
  rw [guardIsCurrent, Bool.and_eq_true, decide_eq_true_iff, decide_eq_true_iff]
  exact and_congr invalidation refreshed

section

variable (inv : CanonicalInvariant state)

include inv

/-- A write to the database keeps the invariant if it appends no invalidation behind a fresh record. -/
theorem CanonicalInvariant.of_write {next : Database} {since : Nat} (appended : next.events = state.db.events ++ more)
    (fresh : next.runtimeState.canonicalGraphStatus = .fresh →
      NoneSince invalidatedEvent state.db.events since ∧
        ∀ event ∈ more, event.eventType ≠ invalidatedEvent) :
    CanonicalInvariant { state with db := next, freshSince := since } := by
  constructor
  · intro isFresh
    obtain ⟨before, unrelated⟩ := fresh isFresh
    rw [appended]
    exact before.append unrelated
  · intro refresh progress found
    rw [appended]
    exact (inv.guards refresh progress found).append more

/-- A read keeps the invariant if the refresh dates it rightly. -/
theorem CanonicalInvariant.of_read (reading : progress.ReadFrom state.db.events) :
    CanonicalInvariant { state with refreshes := state.refreshes.put refresh progress } := by
  refine ⟨inv.fresh, fun other otherProgress found => ?_⟩
  rw [Table.get?_put] at found
  split at found
  · rw [← Option.some.inj found]
    exact reading
  · exact inv.guards other otherProgress found

/-- A refresh that was overtaken finds its guard out of date. -/
private theorem guardIsCurrent_of_superseded {readAt refreshReadAt : Nat} {guard : CanonicalGraphRefreshGuard}
    (superseded : state.Superseded refresh)
    (found : state.refreshes.get? refresh = some (.guarded readAt refreshReadAt guard)) :
    state.db.guardIsCurrent guard = false := by
  obtain ⟨_, _, _, same, overtaken⟩ := superseded
  rw [found] at same
  cases same
  apply eq_false_of_ne_true
  exact fun current => overtaken ((guardIsCurrent_iff (inv.guards _ _ found)).mp current)

/-- The result of an overtaken refresh changes nothing but the event log. -/
private theorem superseded_unchanged {event : CanonicalEvent} (finishes : event.finishes? = some refresh)
    (superseded : state.Superseded refresh) :
    (canonicalStep state event).db = { state.db with events := (canonicalStep state event).db.events } ∧
      (canonicalStep state event).freshSince = state.freshSince := by
  cases event with
  | invalidate | readInvalidationId | readRefreshId | other => cases finishes
  | complete =>
    cases finishes
    dsimp only [canonicalStep]
    split
    · next readAt refreshReadAt guard found =>
      have outdated := guardIsCurrent_of_superseded inv superseded found
      split
      · next next recorded =>
        rcases recordCanonicalGraphRefresh_ok recorded with
          ⟨-, current, -, -⟩ | ⟨failed, -, -⟩
        · rw [outdated] at current
          cases current
        · cases failed
      · next next recorded =>
        rcases recordCanonicalGraphRefresh_ok recorded with ⟨failed, -, -, -⟩ | ⟨-, -, same⟩
        · cases failed
        · exact ⟨by rw [same], rfl⟩
      · exact ⟨rfl, rfl⟩
    · exact ⟨rfl, rfl⟩
  | fail =>
    cases finishes
    dsimp only [canonicalStep]
    split
    · next readAt refreshReadAt guard found =>
      have outdated := guardIsCurrent_of_superseded inv superseded found
      split
      · next next recorded =>
        obtain ⟨-, tasks, runs, record⟩ := recordCanonicalGraphRefreshFailed_ok recorded
        rw [outdated, if_neg Bool.false_ne_true] at record
        refine ⟨?_, rfl⟩
        rw [← tasks, ← runs, ← record]
      · exact ⟨rfl, rfl⟩
    · exact ⟨rfl, rfl⟩

end

theorem CanonicalInvariant.start (db : Database) : CanonicalInvariant (.start db) := by
  constructor
  · intro _ event member
    rw [CanonicalState.start, List.drop_length] at member
    cases member
  · intro refresh progress found
    cases found

/-- Every step keeps the invariant. -/
theorem CanonicalInvariant.step (state : CanonicalState) (event : CanonicalEvent)
    (inv : CanonicalInvariant state) : CanonicalInvariant (canonicalStep state event) := by
  cases event with
  | invalidate runId source timestamp =>
    dsimp only [canonicalStep]
    split
    · next next recorded =>
      obtain rfl := insertEventInTransaction_ok recorded
      -- the record is stale afterwards, so the new invalidation spoils nothing
      refine inv.of_write rfl fun fresh => ?_
      cases fresh
    · exact inv
  | readInvalidationId refresh => exact inv.of_read (now _ _)
  | readRefreshId refresh =>
    dsimp only [canonicalStep]
    split
    · next found => exact inv.of_read ⟨inv.guards _ _ found, now _ _⟩
    · exact inv
  | complete refresh runId source snapshotId timestamp =>
    dsimp only [canonicalStep]
    split
    · next readAt refreshReadAt guard found =>
      split
      · next next recorded =>
        rcases recordCanonicalGraphRefresh_ok recorded with
          ⟨-, current, appended, -⟩ | ⟨failed, -, -⟩
        · obtain ⟨valid, -⟩ := (guardIsCurrent_iff (inv.guards _ _ found)).mp current
          refine inv.of_write appended fun _ => ⟨valid, fun event member => ?_⟩
          rw [List.mem_singleton.mp member]
          exact refreshedEvent_ne
        · cases failed
      · next next recorded =>
        rcases recordCanonicalGraphRefresh_ok recorded with ⟨failed, -, -, -⟩ | ⟨-, -, same⟩
        · cases failed
        · rw [same]
          exact inv
      · exact inv
    · exact inv
  | fail refresh runId timestamp =>
    dsimp only [canonicalStep]
    split
    · next readAt refreshReadAt guard found =>
      split
      · next next recorded =>
        obtain ⟨appended, -, -, record⟩ := recordCanonicalGraphRefreshFailed_ok recorded
        refine inv.of_write appended fun fresh => ?_
        rw [record] at fresh
        split at fresh
        · cases fresh
        · refine ⟨inv.fresh fresh, fun event member => ?_⟩
          rw [List.mem_singleton.mp member]
          exact refreshFailedEvent_ne
      · exact inv
    · exact inv
  | other operation =>
    exact inv.of_write rfl fun fresh =>
      ⟨inv.fresh fresh, fun event member => (operation.unrelated event member).1⟩

end Ferrus.Runtime

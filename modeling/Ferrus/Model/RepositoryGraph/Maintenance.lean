import Ferrus.Model.RepositoryGraph.IndexStore
import Mathlib.Data.List.Sort

/-! # Recovery, refresh leases and retention

A refresh of a view holds a lease that its heartbeat renews. Each call reads the clock before it opens its
immediate transaction, so the reading is an input of the call and may be older than the transaction.
Recovery fails the unfinished builds that no live lease owns. A collection keeps the protected snapshots, those
of the views that remain, and the newest of the others; the times in the rows are an input of a collection.
-/

namespace Ferrus.RepositoryGraph

/-- One row of `graph_refresh_leases`. -/
structure RefreshLease where
  ownerToken : String
  (acquiredAtMs expiresAtMs : ℕ)
deriving DecidableEq, Repr

/-- The sidecar with its table of leases. -/
structure LeasedSidecar where
  sidecar : Sidecar := {}
  refreshLeases : Table ViewKey RefreshLease := .empty

inductive RefreshLeaseOutcome where
  | acquired | busy
deriving DecidableEq, Repr

inductive LeaseError where
  | context (message : String)
  /-- A constraint of the table. -/
  | database
deriving DecidableEq, Repr

/-- The counters of a recovery. -/
structure GraphMaintenanceReport where
  interruptedBuilds : ℕ := 0
  expiredRefreshLeases : ℕ := 0
deriving DecidableEq, Repr

def unixMillis (clock : ℕ) : Except LeaseError ℕ :=
  if columnMax < clock then .error (.context "Unix timestamp does not fit SQLite integer") else .ok clock

/-- When a lease expires that is taken or renewed now. -/
def leaseExpiration (now ttl : ℕ) : Except LeaseError ℕ :=
  if columnMax < ttl then .error (.context "refresh lease TTL is too large")
  else if columnMax < now + ttl then .error (.context "refresh lease expiration overflow")
  else .ok (now + ttl)

def interruptedBuildCode : DiagnosticCode := "build.interrupted"

namespace LeasedSidecar

variable (store : LeasedSidecar) (now : ℕ)

/-- `DELETE … WHERE expires_at_ms <= now`. -/
def reclaim : LeasedSidecar :=
  { store with refreshLeases := store.refreshLeases.deleteWhere (fun _ lease => lease.expiresAtMs ≤ now) }

variable (clock : ℕ)

def acquireRefreshLease (repository : RepositoryRef) (viewName : PublishedViewName) (ownerToken : String) (ttl : ℕ) :
    Except LeaseError (LeasedSidecar × RefreshLeaseOutcome) := do
  let now ← unixMillis clock
  let expiresAt ← leaseExpiration now ttl
  let reclaimed := store.reclaim now
  let key := repository.viewKey viewName
  match reclaimed.refreshLeases.get? key with
  | some _ => return (reclaimed, .busy)
  | none =>
      return ({ reclaimed with refreshLeases := reclaimed.refreshLeases.insertNew key ⟨ownerToken, now, expiresAt⟩ },
        .acquired)

def releaseRefreshLease (repository : RepositoryRef) (viewName : PublishedViewName) (ownerToken : String) :
    LeasedSidecar × Bool :=
  let owned := fun key (lease : RefreshLease) => key = repository.viewKey viewName && lease.ownerToken = ownerToken
  ({ store with refreshLeases := store.refreshLeases.deleteWhere owned },
    !(store.refreshLeases.select owned).isEmpty)

/-- One renewal of the heartbeat; the update is refused if the lease would expire before it was acquired. -/
def renewRefreshLeaseAt (repository : RepositoryRef) (viewName : PublishedViewName) (ownerToken : String) (ttl : ℕ) :
    Except LeaseError (LeasedSidecar × Bool) := do
  let now ← unixMillis clock
  let expiresAt ← leaseExpiration now ttl
  let key := repository.viewKey viewName
  match store.refreshLeases.get? key with
  | none => return (store, false)
  | some lease =>
    if lease.ownerToken ≠ ownerToken ∨ lease.expiresAtMs ≤ now then return (store, false)
    else if expiresAt < lease.acquiredAtMs then .error .database
    else return ({ store with
      refreshLeases := store.refreshLeases.modify key (fun lease => { lease with expiresAtMs := expiresAt }) }, true)

/-- An unfinished build that no live lease owns. -/
def isInterrupted (id : BuildId) (row : BuildRow) : Bool :=
  row.state = .building && !row.finished &&
    !store.refreshLeases.values.any fun lease => lease.ownerToken = id && decide (now < lease.expiresAtMs)

/-- What a recovery counts. -/
def recoveryReport : GraphMaintenanceReport where
  interruptedBuilds := (store.sidecar.indexBuilds.select (store.isInterrupted now)).length
  expiredRefreshLeases := (store.refreshLeases.select (fun _ lease => lease.expiresAtMs ≤ now)).length

def failInterrupted : LeasedSidecar :=
  { store with sidecar := { store.sidecar with
      indexBuilds := store.sidecar.indexBuilds.updateWhere (store.isInterrupted now) (.fail interruptedBuildCode) } }

def recoverInterruptedBuilds : Except LeaseError (LeasedSidecar × GraphMaintenanceReport) := do
  let now ← unixMillis clock
  return ((store.failInterrupted now).reclaim now, store.recoveryReport now)

end LeasedSidecar

/-! ## Retention -/

structure RetentionConfig where
  maxSnapshots : ℕ := 5
  maxFailedBuilds : ℕ := 10
deriving DecidableEq, Repr

structure RetentionProtection where
  snapshotIds : List SnapshotId := []
  publishedViews : List PublishedViewName := []
deriving DecidableEq, Repr

/-- The columns `created_at` of the snapshots and `started_at` of the builds. -/
structure RowTimes where
  createdAt : SnapshotId → String
  startedAt : BuildId → String

/-- `ORDER BY time DESC, id DESC`. -/
def newestFirst (time : String → String) (ids : List String) : List String :=
  ids.insertionSort fun first second => time second < time first ∨ time second = time first ∧ second ≤ first

/-- One collection: the repository, the limits and what the runtime still refers to. -/
structure Collection where
  repository : RepositoryRef
  config : RetentionConfig
  protection : RetentionProtection
  times : RowTimes

namespace Sidecar

variable (sidecar : Sidecar) (collection : Collection)

/-- The sidecar without the task views that are not protected. -/
def withdrawViews : Sidecar :=
  sidecar.removeViews collection.repository
    ⟨collection.protection.publishedViews.contains, fun _ => true, fun _ => true⟩

/-- Neither shown by a view that remains nor protected. -/
def isOrdinary (id : SnapshotId) (stored : StoredSnapshot) : Bool :=
  stored.snapshot.repository = collection.repository &&
    !(sidecar.withdrawViews collection).isPublishedSnapshot collection.repository id &&
    !collection.protection.snapshotIds.contains id

def recentSnapshots : List SnapshotId :=
  (newestFirst collection.times.createdAt
    ((sidecar.snapshots.select (sidecar.isOrdinary collection)).map (·.1))).take collection.config.maxSnapshots

def retainedFailedBuilds : List BuildId :=
  (newestFirst collection.times.startedAt
    ((sidecar.indexBuilds.select (fun _ row => row.repository = collection.repository && row.state = .failed)).map
      (·.1))).take collection.config.maxFailedBuilds

def retention : Retention where
  views := collection.protection.publishedViews.contains
  snapshots id := collection.protection.snapshotIds.contains id || (sidecar.recentSnapshots collection).contains id
  failedBuilds := (sidecar.retainedFailedBuilds collection).contains

/-- `collect_garbage` with its retention settings. A view that shows a deleted snapshot refuses the deletion. -/
def collect : Except StoreError Sidecar :=
  let collected := sidecar.collectGarbage collection.repository (sidecar.retention collection)
  if collected.publishedViews.values.any (fun view => (sidecar.snapshots.get? view.snapshotId).isSome &&
      (collected.snapshots.get? view.snapshotId).isNone) then .error .database
  else .ok collected

end Sidecar

end Ferrus.RepositoryGraph

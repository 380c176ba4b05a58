import Ferrus.Machine.Core.Run
import Ferrus.Model.RepositoryGraph.Maintenance
import Ferrus.Proofs.GraphStoreSteps

/-! # Runs of the graph store with maintenance

The calls of index runs, the refresh leases of any owners, recovery and collections in any order, against one
clock that never goes back. A call that needs the time has read the clock at some earlier moment; its
transaction takes effect at the present one.
-/

namespace Ferrus.RepositoryGraph

/-- The store and the clock in milliseconds. -/
structure MaintainedGraph where
  store : LeasedSidecar := {}
  clock : ℕ := 0

inductive MaintenanceEvent where
  | pass (millis : ℕ)
  | call (call : StoreCall)
  | acquire (readAt : ℕ) (repository : RepositoryRef) (viewName : PublishedViewName) (ownerToken : String) (ttl : ℕ)
  | renew (readAt : ℕ) (repository : RepositoryRef) (viewName : PublishedViewName) (ownerToken : String) (ttl : ℕ)
  | release (repository : RepositoryRef) (viewName : PublishedViewName) (ownerToken : String)
  | recover (readAt : ℕ)
  | collect (collection : Collection)

namespace MaintainedGraph

variable (graph : MaintainedGraph)

def sidecar : Sidecar := graph.store.sidecar

def leases : Table ViewKey RefreshLease := graph.store.refreshLeases

/-- A transaction whose clock was read at an earlier moment; a failed one is rolled back. -/
def commit {α : Type} (readAt : ℕ) (result : Except LeaseError (LeasedSidecar × α)) : MaintainedGraph :=
  if readAt ≤ graph.clock then
    match result with
    | .ok (store, _) => { graph with store }
    | .error _ => graph
  else graph

def step : MaintenanceEvent → MaintainedGraph
  | .pass millis => { graph with clock := graph.clock + millis }
  | .call call => { graph with store := { graph.store with sidecar := graph.store.sidecar.step call } }
  | .acquire readAt repository viewName ownerToken ttl =>
      graph.commit readAt (graph.store.acquireRefreshLease readAt repository viewName ownerToken ttl)
  | .renew readAt repository viewName ownerToken ttl =>
      graph.commit readAt (graph.store.renewRefreshLeaseAt readAt repository viewName ownerToken ttl)
  | .release repository viewName ownerToken =>
      { graph with store := (graph.store.releaseRefreshLease repository viewName ownerToken).1 }
  | .recover readAt => graph.commit readAt (graph.store.recoverInterruptedBuilds readAt)
  | .collect collection =>
      match graph.store.sidecar.collect collection with
      | .ok sidecar => { graph with store := { graph.store with sidecar } }
      | .error _ => graph

variable {graph}

theorem leases_collect (collection : Collection) : (graph.step (.collect collection)).leases = graph.leases := by
  simp only [step]
  cases graph.store.sidecar.collect collection <;> rfl

theorem clock_collect (collection : Collection) : (graph.step (.collect collection)).clock = graph.clock := by
  simp only [step]
  cases graph.store.sidecar.collect collection <;> rfl

/-- A transaction has done nothing, or what its successful result says. -/
theorem commit_elim {α : Type} {readAt : ℕ} {result : Except LeaseError (LeasedSidecar × α)}
    (P : MaintainedGraph → Prop) (unchanged : P graph)
    (done : ∀ store value, readAt ≤ graph.clock → result = .ok (store, value) → P { graph with store }) :
    P (graph.commit readAt result) := by
  unfold commit
  split_ifs with past
  · cases result with
    | error error => exact unchanged
    | ok success => exact done success.1 success.2 past rfl
  · exact unchanged

end MaintainedGraph

namespace LeasedSidecar

variable {store next : LeasedSidecar} {clock ttl : ℕ} {repository : RepositoryRef} {viewName : PublishedViewName}
  {ownerToken : String}

theorem unixMillis_ok {now : ℕ} (read : unixMillis clock = .ok now) : now = clock := by
  unfold unixMillis at read
  split at read
  · cases read
  · cases read
    rfl

/-- A lease that lives longer is not reclaimed. -/
theorem get?_reclaim_of_lt {now : ℕ} {key : ViewKey} {lease : RefreshLease}
    (stored : store.refreshLeases.get? key = some lease) (live : now < lease.expiresAtMs) :
    (store.reclaim now).refreshLeases.get? key = some lease := by
  rw [reclaim, Table.get?_deleteWhere, stored]
  simp [live]

/-- An acquisition reclaims the expired leases and takes a view that has none left. -/
theorem acquireRefreshLease_ok {outcome : RefreshLeaseOutcome}
    (done : store.acquireRefreshLease clock repository viewName ownerToken ttl = .ok (next, outcome)) :
    (outcome = .busy ∧ next = store.reclaim clock) ∨
      outcome = .acquired ∧ (store.reclaim clock).refreshLeases.get? (repository.viewKey viewName) = none ∧
        ∃ lease : RefreshLease, lease.ownerToken = ownerToken ∧
          next = { store.reclaim clock with
            refreshLeases := (store.reclaim clock).refreshLeases.insertNew (repository.viewKey viewName) lease } := by
  obtain ⟨now, read, rest⟩ := Except.bind_eq_ok_iff.mp done
  obtain ⟨expiresAt, _, rest⟩ := Except.bind_eq_ok_iff.mp rest
  obtain rfl := unixMillis_ok read
  dsimp only at rest
  split at rest
  · cases rest
    exact .inl ⟨rfl, rfl⟩
  · next free =>
    cases rest
    exact .inr ⟨rfl, free, _, rfl, rfl⟩

/-- A renewal changes only the expiration of a lease of its owner that was live when the clock was read. -/
theorem renewRefreshLeaseAt_ok {renewed : Bool}
    (done : store.renewRefreshLeaseAt clock repository viewName ownerToken ttl = .ok (next, renewed)) :
    (renewed = false ∧ next = store) ∨
      renewed = true ∧ ∃ lease, store.refreshLeases.get? (repository.viewKey viewName) = some lease ∧
        lease.ownerToken = ownerToken ∧ clock < lease.expiresAtMs ∧
          ∃ expiresAt, next = { store with
            refreshLeases := store.refreshLeases.modify (repository.viewKey viewName)
              (fun lease => { lease with expiresAtMs := expiresAt }) } := by
  obtain ⟨now, read, rest⟩ := Except.bind_eq_ok_iff.mp done
  obtain ⟨expiresAt, _, rest⟩ := Except.bind_eq_ok_iff.mp rest
  obtain rfl := unixMillis_ok read
  dsimp only at rest
  split at rest
  · cases rest
    exact .inl ⟨rfl, rfl⟩
  · next lease stored =>
    split at rest
    · cases rest
      exact .inl ⟨rfl, rfl⟩
    · next live =>
      split at rest
      · cases rest
      · cases rest
        obtain ⟨same, later⟩ := not_or.mp live
        exact .inr ⟨rfl, lease, stored, not_not.mp same, not_le.mp later, expiresAt, rfl⟩

theorem get?_release {key : ViewKey} :
    (store.releaseRefreshLease repository viewName ownerToken).1.refreshLeases.get? key =
      (store.refreshLeases.get? key).filter (fun lease =>
        !(key = repository.viewKey viewName && lease.ownerToken = ownerToken)) := by
  rw [releaseRefreshLease, Table.get?_deleteWhere]

theorem recoverInterruptedBuilds_ok {report : GraphMaintenanceReport}
    (done : store.recoverInterruptedBuilds clock = .ok (next, report)) :
    next = (store.failInterrupted clock).reclaim clock ∧ report = store.recoveryReport clock := by
  obtain ⟨now, read, rest⟩ := Except.bind_eq_ok_iff.mp done
  obtain rfl := unixMillis_ok read
  cases rest
  exact ⟨rfl, rfl⟩

end LeasedSidecar

end Ferrus.RepositoryGraph

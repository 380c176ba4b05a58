import Ferrus.Proofs.GraphMaintenance
import Ferrus.ToMathlib.MergedTable

/-! # Refresh leases of repository views

In every order of acquisitions, renewals, releases and recoveries a view has at most one owner, and no other
owner's call takes a live lease away. Whether a lease is live is decided with the clock that the call has read,
so a renewal may still reach a lease that expires between its reading and its transaction.
-/

namespace Ferrus.RepositoryGraph

open Ferrus.Machine LeasedSidecar

/-- A call of the owner on its own lease, or the passing of time. -/
def MaintenanceEvent.isOwn (owner : String) : MaintenanceEvent → Bool
  | .pass _ => true
  | .renew _ _ _ token _ | .release _ _ token => token = owner
  | _ => false

namespace MaintainedGraph

/-- The owner of a lease that has not expired. -/
def Holds (graph : MaintainedGraph) (view : ViewKey) (owner : String) : Prop :=
  ∃ lease, graph.leases.get? view = some lease ∧ lease.ownerToken = owner ∧ graph.clock < lease.expiresAtMs

/-- What one event does to the leases. -/
structure LeaseLaw (before : MaintainedGraph) (event : MaintenanceEvent) (after : MaintainedGraph) : Prop where
  exclusive : ∀ view owner other, after.Holds view owner → after.Holds view other → owner = other
  kept : ∀ view owner, before.Holds view owner → event.isOwn owner = false → after.Holds view owner
  acquired : ∀ readAt repository viewName owner ttl store,
    event = .acquire readAt repository viewName owner ttl → readAt ≤ before.clock →
    before.store.acquireRefreshLease readAt repository viewName owner ttl = .ok (store, .acquired) →
      ∀ other, ¬ before.Holds (repository.viewKey viewName) other
  renewed : ∀ readAt repository viewName owner ttl lease, event = .renew readAt repository viewName owner ttl →
    before.leases.get? (repository.viewKey viewName) = some lease → lease.expiresAtMs ≤ readAt → after = before
  released : ∀ repository viewName owner, event = .release repository viewName owner →
    (∀ lease ∈ before.leases.get? (repository.viewKey viewName), lease.ownerToken ≠ owner) → after = before
  recovered : ∀ readAt view build row, event = .recover readAt →
    before.sidecar.indexBuilds.get? build = some row → before.Holds view build →
      after.sidecar.indexBuilds.get? build = some row

variable {graph after : MaintainedGraph} {view : ViewKey} {owner : String} {readAt : ℕ}

theorem Holds.unique {other : String} (first : graph.Holds view owner) (second : graph.Holds view other) :
    owner = other := by
  obtain ⟨lease, stored, rfl, _⟩ := first
  obtain ⟨same, isSame, rfl, _⟩ := second
  rw [Option.some.inj (stored.symm.trans isSame)]

section

variable (holds : graph.Holds view owner)

include holds

/-- Whatever keeps the clock and the row of a lease keeps its holder. -/
theorem Holds.of_kept (clock : after.clock = graph.clock)
    (kept : ∀ lease, graph.leases.get? view = some lease → lease.ownerToken = owner →
      graph.clock < lease.expiresAtMs → after.leases.get? view = some lease) : after.Holds view owner := by
  obtain ⟨lease, stored, isOwner, live⟩ := holds
  exact ⟨lease, kept lease stored isOwner live, isOwner, clock ▸ live⟩

theorem Holds.acquire (readAt : ℕ) (repository : RepositoryRef) (viewName : PublishedViewName) (token : String)
    (ttl : ℕ) : (graph.step (.acquire readAt repository viewName token ttl)).Holds view owner := by
  refine commit_elim (fun after => after.Holds view owner) holds fun store outcome past done => ?_
  refine holds.of_kept rfl fun lease stored _ live => ?_
  have remains := get?_reclaim_of_lt stored (lt_of_le_of_lt past live)
  obtain ⟨_, rfl⟩ | ⟨_, free, taken, _, rfl⟩ := acquireRefreshLease_ok done
  · exact remains
  · change ((graph.store.reclaim readAt).refreshLeases.insertNew (repository.viewKey viewName) taken).get? view = _
    rw [Table.get?_insertNew]
    split_ifs with own
    · rw [own, free] at remains
      cases remains
    · exact remains

/-- Another owner's renewal. -/
theorem Holds.renew (readAt : ℕ) (repository : RepositoryRef) (viewName : PublishedViewName) {token : String}
    (ttl : ℕ) (foreign : token ≠ owner) :
    (graph.step (.renew readAt repository viewName token ttl)).Holds view owner := by
  refine commit_elim (fun after => after.Holds view owner) holds fun store outcome past done => ?_
  refine holds.of_kept rfl fun lease stored isOwner _ => ?_
  obtain ⟨_, rfl⟩ | ⟨_, renewed, isRenewed, isToken, _, expiresAt, rfl⟩ := renewRefreshLeaseAt_ok done
  · exact stored
  · simp only [leases]
    rw [Table.get?_modify, if_neg]
    · exact stored
    rintro rfl
    obtain rfl : lease = renewed := Option.some.inj (stored.symm.trans isRenewed)
    exact foreign (isToken.symm.trans isOwner)

theorem Holds.release (repository : RepositoryRef) (viewName : PublishedViewName) {token : String}
    (foreign : token ≠ owner) : (graph.step (.release repository viewName token)).Holds view owner := by
  refine holds.of_kept rfl fun lease stored isOwner _ => ?_
  change (graph.store.releaseRefreshLease repository viewName token).1.refreshLeases.get? view = some lease
  rw [get?_release, show graph.store.refreshLeases.get? view = some lease from stored]
  simp [isOwner, Ne.symm foreign]

theorem Holds.recover (readAt : ℕ) : (graph.step (.recover readAt)).Holds view owner := by
  refine commit_elim (fun after => after.Holds view owner) holds fun store report past done => ?_
  obtain ⟨rfl, _⟩ := recoverInterruptedBuilds_ok done
  refine holds.of_kept rfl fun lease stored _ live => ?_
  exact get?_reclaim_of_lt stored (lt_of_le_of_lt past live)

/-- No event of another owner ends a live lease. -/
theorem Holds.step {event : MaintenanceEvent} (foreign : event.isOwn owner = false) :
    (graph.step event).Holds view owner := by
  cases event with
  | pass millis => cases foreign
  | call call => exact holds
  | acquire readAt repository viewName token ttl => exact holds.acquire readAt repository viewName token ttl
  | renew readAt repository viewName token ttl =>
    exact holds.renew readAt repository viewName ttl (of_decide_eq_false foreign)
  | release repository viewName token => exact holds.release repository viewName (of_decide_eq_false foreign)
  | recover readAt => exact holds.recover readAt
  | collect collection =>
    refine holds.of_kept (clock_collect collection) fun lease stored _ _ => ?_
    rw [leases_collect]
    exact stored

end

theorem release_foreign
    (foreign : ∀ lease ∈ graph.leases.get? (repository.viewKey viewName), lease.ownerToken ≠ owner) :
    graph.step (.release repository viewName owner) = graph := by
  have same : (graph.store.releaseRefreshLease repository viewName owner).1.refreshLeases =
      graph.store.refreshLeases := by
    refine Table.ext_get? fun key => ?_
    rw [get?_release]
    cases stored : graph.store.refreshLeases.get? key with
    | none => rfl
    | some lease =>
      by_cases own : key = repository.viewKey viewName
      · subst own
        simpa using foreign lease stored
      · simp [own]
  exact congrArg
    (fun refreshLeases => ({ graph with store := ⟨graph.store.sidecar, refreshLeases⟩ } : MaintainedGraph)) same

/-- The build of a live lease is not interrupted. -/
theorem recover_owned {build : BuildId} {row : BuildRow} (stored : graph.sidecar.indexBuilds.get? build = some row)
    (holds : graph.Holds view build) : (graph.step (.recover readAt)).sidecar.indexBuilds.get? build = some row := by
  refine commit_elim (fun after => after.sidecar.indexBuilds.get? build = some row) stored
    (fun store report past done => ?_)
  obtain ⟨rfl, _⟩ := recoverInterruptedBuilds_ok done
  obtain ⟨lease, isLease, isOwner, live⟩ := holds
  have owned : graph.store.isInterrupted readAt build row = false := by
    have found : lease ∈ graph.store.refreshLeases.values := Table.mem_values_iff _ |>.mpr ⟨_, isLease⟩
    have isLive : (graph.store.refreshLeases.values.any
        (fun lease => lease.ownerToken = build && decide (readAt < lease.expiresAtMs))) = true :=
      List.any_eq_true.mpr ⟨lease, found, by simp [isOwner, lt_of_le_of_lt past live]⟩
    rw [isInterrupted, isLive, Bool.not_true, Bool.and_false]
  change (graph.sidecar.indexBuilds.updateWhere (graph.store.isInterrupted readAt) _).get? build = some row
  rw [Table.get?_updateWhere, stored, Option.map_some, owned]
  rfl

/-- From every store and in every order of events, the leases of a view exclude each other, a lease that had
expired when a renewal read the clock is not renewed, a release by anyone but the owner does nothing, and no
recovery fails a build that a live lease owns. -/
theorem refresh_leases_exclude (graph : MaintainedGraph) (events : List MaintenanceEvent) :
    EveryStep step LeaseLaw graph events := by
  refine EveryStep.of_forall (fun graph event => ?_) graph events
  constructor
  · exact fun view owner other first second => first.unique second
  · exact fun view owner holds foreign => holds.step foreign
  · rintro readAt repository viewName owner ttl store rfl past done
    rintro other ⟨lease, stored, _, live⟩
    have remains := get?_reclaim_of_lt stored (lt_of_le_of_lt past live)
    obtain ⟨busy, _⟩ | ⟨_, free, _⟩ := acquireRefreshLease_ok done
    · cases busy
    · rw [free] at remains
      cases remains
  · rintro readAt repository viewName owner ttl lease rfl stored expired
    refine commit_elim (fun after => after = graph) rfl fun store renewed past done => ?_
    obtain ⟨_, rfl⟩ | ⟨_, other, isOther, _, live, _⟩ := renewRefreshLeaseAt_ok done
    · rfl
    · obtain rfl : lease = other := Option.some.inj (stored.symm.trans isOther)
      omega
  · rintro repository viewName owner rfl foreign
    exact release_foreign foreign
  · rintro readAt view build row rfl stored holds
    exact recover_owned stored holds

/-- A lease for ten milliseconds whose renewal reads the clock before it expires and commits afterwards. -/
def lateRenewal : List MaintenanceEvent :=
  [.acquire 0 ⟨"local", "root"⟩ "canonical" "b-1" 10, .pass 10, .renew 9 ⟨"local", "root"⟩ "canonical" "b-1" 10]

theorem refresh_leases_exclude_lateRenewal :
    (run step {} lateRenewal).Holds (RepositoryRef.viewKey ⟨"local", "root"⟩ "canonical") "b-1" ∧
      EveryStep step LeaseLaw {} lateRenewal := by
  refine ⟨⟨⟨"b-1", 0, 19⟩, ?_, rfl, ?_⟩, refresh_leases_exclude {} lateRenewal⟩
  · decide +kernel
  · decide +kernel

/-- The renewal reaches a lease that has expired when it takes effect. -/
theorem not_renewed_expired_lateRenewal :
    ¬ ∀ events, EveryStep step (fun before event after => ∀ readAt repository viewName owner ttl lease,
      event = .renew readAt repository viewName owner ttl →
      before.leases.get? (repository.viewKey viewName) = some lease → lease.expiresAtMs ≤ before.clock →
        after.leases.get? (repository.viewKey viewName) = some lease) {} events := by
  intro unrenewed
  obtain ⟨_, _, last, _⟩ := unrenewed lateRenewal
  have kept := last 9 ⟨"local", "root"⟩ "canonical" "b-1" 10 ⟨"b-1", 0, 10⟩ rfl (by decide +kernel) (by decide +kernel)
  revert kept
  decide +kernel

end MaintainedGraph

end Ferrus.RepositoryGraph

import Ferrus.Model.RepositoryGraph.IndexStore
import Mathlib.Data.List.MinMax

/-! # What a call does to builds, snapshots and views

Every successful call of the graph store adds a build row, changes an open build or publishes one. The
facts, diagnostics and caches of the store play no part.
-/

namespace Ferrus.RepositoryGraph

open Except

inductive StoreCall where
  | startBuild (build : GraphBuild)
  | failBuild (failure : BuildFailure)
  | completeBuild (snapshot : GraphSnapshot)
  | completeIndex (commit : IndexCommit)
  | publish (request : PublishRequest)
  | supersedeBuild (id : BuildId)
deriving DecidableEq, Repr

/-- The build may be offered to a view: it is complete or was published before. -/
def BuildRow.Offered (row : BuildRow) : Prop :=
  row.state = .building ∧ row.finished = true ∨ row.state = .published

namespace Sidecar

/-- The database after a successful call. -/
def call (sidecar : Sidecar) : StoreCall → Except StoreError Sidecar
  | .startBuild build => sidecar.startBuild build
  | .failBuild failure => (sidecar.failBuild failure).map (·.1)
  | .completeBuild snapshot => (sidecar.completeBuild snapshot).map (·.1)
  | .completeIndex commit => (sidecar.completeIndex commit).map (·.1)
  | .publish request => (sidecar.publish request).map (·.1)
  | .supersedeBuild id => (sidecar.supersedeBuild id).map (·.1)

/-- A failed call is rolled back. -/
def step (sidecar : Sidecar) (call : StoreCall) : Sidecar :=
  match sidecar.call call with
  | .ok next => next
  | .error _ => sidecar

variable {sidecar next : Sidecar} {id : BuildId} {build : GraphBuild} {row : BuildRow} {commit : IndexCommit}
  {call : StoreCall} {snapshot : GraphSnapshot} {request : PublishRequest} {outcome : PublicationOutcome}

/-! ## Reads -/

theorem requireBuild_ok (required : sidecar.requireBuild id = .ok build) :
    ∃ row state, sidecar.indexBuilds.get? id = some row ∧ sidecar.buildState? row = some state ∧
      build = ⟨id, row.repository, row.sourceRevisionId, row.prospectiveSnapshotId, state⟩ := by
  obtain ⟨loaded, isLoaded, found⟩ := bind_eq_ok_iff.mp required
  cases loaded with
  | none => cases found
  | some other =>
    cases found
    unfold loadBuild at isLoaded
    split at isLoaded
    · cases isLoaded
    · next row stored =>
      split at isLoaded
      · cases isLoaded
      · next state isState =>
        cases isLoaded
        exact ⟨row, state, stored, isState, rfl⟩

/-- A build that is still being built has an open row. -/
theorem open_of_building (isBuilding : sidecar.buildState? row = some .building) :
    row.state = .building ∧ row.finished = false := by
  unfold buildState? at isBuilding
  split at isBuilding <;> simp_all

theorem finished_of_complete (isComplete : sidecar.buildState? row = some .complete) :
    row.state = .building ∧ row.finished = true := by
  unfold buildState? at isComplete
  split at isComplete <;> simp_all

theorem published_of_published (isPublished : sidecar.buildState? row = some .published) : row.state = .published := by
  unfold buildState? at isPublished
  split at isPublished <;> simp_all

/-- A new row comes after every row. -/
theorem rowid_lt_nextRowid (stored : sidecar.indexBuilds.get? id = some row) : row.rowid < sidecar.nextRowid := by
  have member : row.rowid ∈ sidecar.indexBuilds.values.map (·.rowid) :=
    List.mem_map_of_mem (sidecar.indexBuilds.mem_values_iff.mpr ⟨id, stored⟩)
  exact Nat.lt_succ_of_le (List.le_max_of_le' 0 member le_rfl)

/-! ## Effects -/

/-- Stored snapshots stay, and a new one is stored under its own id. -/
structure SnapshotsGrow (old new : Table SnapshotId StoredSnapshot) : Prop where
  kept : old.Extends new
  named : ∀ id stored, new.get? id = some stored → old.get? id = some stored ∨ stored.snapshot.id = id

theorem SnapshotsGrow.of_eq {old new : Table SnapshotId StoredSnapshot} (same : new = old) : SnapshotsGrow old new :=
  ⟨same ▸ Table.Extends.refl _, fun _ _ stored => .inl (same ▸ stored)⟩

/-- What a successful publication changes and reports: nothing, a build that comes too late, or a view that
moves. -/
inductive Publishes (before : Sidecar) (request : PublishRequest) : Sidecar → PublicationOutcome → Prop
  | confirm (current : ViewRow) (row : BuildRow)
      (shown : before.loadPublishedView request.repository request.viewName = some current)
      (stored : before.indexBuilds.get? request.buildId = some row)
      (same : row.prospectiveSnapshotId = current.snapshotId) :
      Publishes before request before (.published (current.view request.repository request.viewName))
  | outdate (current : ViewRow) (row later : BuildRow)
      (shown : before.loadPublishedView request.repository request.viewName = some current)
      (stored : before.indexBuilds.get? request.buildId = some row)
      (recorded : before.indexBuilds.get? current.buildId = some later) (late : row.rowid < later.rowid) :
      Publishes before request (before.markBuild request.buildId .superseded)
        (.superseded (current.view request.repository request.viewName))
  | move {after} (row : BuildRow) (generation : Nat)
      (stored : before.indexBuilds.get? request.buildId = some row) (offered : row.Offered)
      (snapshot : (before.snapshots.get? row.prospectiveSnapshotId).isSome = true)
      (grown : generation = (before.loadPublishedView request.repository request.viewName).elim 0 (·.generation) + 1)
      (other : ∀ current ∈ before.loadPublishedView request.repository request.viewName,
        current.snapshotId ≠ row.prospectiveSnapshotId ∧ ∀ recorded,
          before.indexBuilds.get? current.buildId = some recorded → recorded.rowid ≤ row.rowid)
      (builds : after.indexBuilds = before.indexBuilds.modify request.buildId (.mark .published))
      (snapshots : after.snapshots = before.snapshots)
      (views : after.publishedViews = before.publishedViews.put (request.repository.viewKey request.viewName)
        ⟨row.prospectiveSnapshotId, request.buildId, generation⟩) :
      Publishes before request after (.published ⟨request.repository, request.viewName, row.prospectiveSnapshotId,
        request.buildId, generation⟩)

/-- What a successful call changes. -/
inductive Effect (before : Sidecar) : StoreCall → Sidecar → Prop
  | start {build after} (row : BuildRow) (fresh : before.indexBuilds.get? build.id = none)
      (rowid : row.rowid = before.nextRowid) (opened : row.state = .building)
      (builds : after.indexBuilds = before.indexBuilds.insertNew build.id row)
      (snapshots : after.snapshots = before.snapshots) (views : after.publishedViews = before.publishedViews) :
      Effect before (.startBuild build) after
  | change {call after} (id : BuildId) (row : BuildRow) (update : BuildRow → BuildRow)
      (stored : before.indexBuilds.get? id = some row) (isOpen : row.state = .building)
      (rowid : (update row).rowid = row.rowid) (unpublished : (update row).state ≠ .published)
      (builds : after.indexBuilds = before.indexBuilds.modify id update)
      (snapshots : SnapshotsGrow before.snapshots after.snapshots)
      (views : after.publishedViews = before.publishedViews) : Effect before call after
  | publish {request after outcome} (published : before.Publishes request after outcome) :
      Effect before (.publish request) after

theorem startBuild_ok (started : sidecar.startBuild build = .ok next) : ∃ row : BuildRow,
    sidecar.indexBuilds.get? build.id = none ∧ row.rowid = sidecar.nextRowid ∧ row.state = .building ∧
      row.finished = false ∧ next = { sidecar with indexBuilds := sidecar.indexBuilds.insertNew build.id row } := by
  simp only [startBuild, reject_eq_ok_iff, Option.not_isSome_iff_eq_none] at started
  obtain ⟨_, fresh, ⟨⟩⟩ := started
  exact ⟨_, fresh, rfl, rfl, rfl, rfl⟩

/-- A change of a build that has to be in the state `state`. -/
theorem requireBuild_state {state : BuildState} (required : sidecar.requireBuild id = .ok build)
    (isState : build.state = state) : ∃ row, sidecar.indexBuilds.get? id = some row ∧
      sidecar.buildState? row = some state := by
  obtain ⟨row, _, stored, found, rfl⟩ := requireBuild_ok required
  exact ⟨row, stored, found.trans (congrArg some isState)⟩

theorem failBuild_ok {failure : BuildFailure} (failed : (sidecar.failBuild failure).map (·.1) = .ok next) :
    ∃ row, sidecar.indexBuilds.get? failure.buildId = some row ∧ sidecar.buildState? row = some .building ∧
      next = { sidecar with indexBuilds := sidecar.indexBuilds.modify failure.buildId (.fail failure.code) } := by
  simp only [failBuild, map_eq_ok_iff, bind_eq_ok_iff, reject_eq_ok_iff, not_not] at failed
  obtain ⟨_, ⟨build, required, isBuilding, ⟨⟩⟩, rfl⟩ := failed
  obtain ⟨row, stored, isState⟩ := requireBuild_state required isBuilding
  exact ⟨row, stored, isState, rfl⟩

theorem supersedeBuild_ok (superseded : (sidecar.supersedeBuild id).map (·.1) = .ok next) :
    ∃ row, sidecar.indexBuilds.get? id = some row ∧ sidecar.buildState? row = some .complete ∧
      next = sidecar.markBuild id .superseded := by
  simp only [supersedeBuild, map_eq_ok_iff, bind_eq_ok_iff, reject_eq_ok_iff, not_not] at superseded
  obtain ⟨_, ⟨build, required, isComplete, ⟨⟩⟩, rfl⟩ := superseded
  obtain ⟨row, stored, isState⟩ := requireBuild_state required isComplete
  exact ⟨row, stored, isState, rfl⟩

/-! ## Completion -/

/-- The snapshot is stored with its repository, or it has been inserted. -/
def Stores (before : Table SnapshotId StoredSnapshot) (snapshot : GraphSnapshot)
    (after : Table SnapshotId StoredSnapshot) : Prop :=
  (∃ stored, before.get? snapshot.id = some stored ∧ stored.snapshot.repository = snapshot.repository ∧
    after = before) ∨
  ∃ stored : StoredSnapshot, stored.snapshot = snapshot ∧ before.get? snapshot.id = none ∧
    after = before.insertNew snapshot.id stored

theorem Stores.grows {old new : Table SnapshotId StoredSnapshot} (stores : Stores old snapshot new) :
    SnapshotsGrow old new := by
  obtain ⟨_, _, _, rfl⟩ | ⟨stored, rfl, absent, rfl⟩ := stores
  · exact .of_eq rfl
  · refine ⟨Table.Extends.insertNew _ _ _, fun id found isFound => ?_⟩
    rw [Table.get?_insertNew] at isFound
    split_ifs at isFound with same
    · rw [absent] at isFound
      cases isFound
      exact .inr same.symm
    · exact .inl isFound

/-- What a completion stores: the snapshot unless its identity is stored already, the build that shows its
diagnostics, and the end of the build. -/
structure Completes (before : Sidecar) (snapshot : GraphSnapshot) (after : Sidecar) : Prop where
  build : ∃ row, before.indexBuilds.get? snapshot.completedBy = some row ∧
    row.prospectiveSnapshotId = snapshot.id ∧ row.repository = snapshot.repository
  snapshots : Stores before.snapshots snapshot after.snapshots
  sets : after.snapshotDiagnosticSets = before.snapshotDiagnosticSets.put snapshot.id snapshot.completedBy
  builds : after.indexBuilds = before.indexBuilds.modify snapshot.completedBy .finish
  views : after.publishedViews = before.publishedViews

/-- The stored or inserted snapshot of a completion; the other tables stay. -/
structure Keeps (before : Sidecar) (snapshot : GraphSnapshot) (after : Sidecar) : Prop where
  snapshots : Stores before.snapshots snapshot after.snapshots
  sets : after.snapshotDiagnosticSets = before.snapshotDiagnosticSets
  builds : after.indexBuilds = before.indexBuilds
  views : after.publishedViews = before.publishedViews

variable {requested shown : GraphSnapshot}

theorem validateEquivalentSnapshot_ok {existing : GraphSnapshot}
    (valid : validateEquivalentSnapshot requested existing = .ok ()) : existing.repository = requested.repository := by
  simp only [validateEquivalentSnapshot, reject_eq_ok_iff, not_or, not_not] at valid
  exact (congrArg Prod.fst valid.1.2).symm

theorem insertSnapshot_ok {stored : StoredSnapshot} (inserted : sidecar.insertSnapshot stored = .ok next) :
    next = { sidecar with snapshots := sidecar.snapshots.insertNew stored.snapshot.id stored } := by
  obtain ⟨_, ⟨⟩⟩ := reject_eq_ok_iff.mp inserted
  rfl

theorem replaceSnapshotDiagnostics_ok {diagnostics : List GraphDiagnostic}
    (replaced : sidecar.replaceSnapshotDiagnostics snapshot diagnostics = .ok next) :
    next = { sidecar with
      diagnostics := sidecar.diagnostics.filter (fun (diagnostic : GraphDiagnostic) =>
        !(diagnostic.buildId = snapshot.completedBy && diagnostic.snapshotId = some snapshot.id)) ++ diagnostics
      }.setDiagnosticSet snapshot := by
  obtain ⟨_, ⟨⟩⟩ := reject_eq_ok_iff.mp replaced
  rfl

/-- Writing the cache leaves every table alone. -/
theorem foldl_upsertCachedFragment (writes : List CachedFragment) (sidecar : Sidecar) :
    writes.foldl upsertCachedFragment sidecar =
      { sidecar with fragmentCache := (writes.foldl upsertCachedFragment sidecar).fragmentCache } := by
  induction writes generalizing sidecar with
  | nil => rfl
  | cons cached rest ih =>
    rw [List.foldl_cons, ih]
    rfl

theorem existingOr_keeps {inserted : Except StoreError Sidecar}
    (isKept : sidecar.existingOr requested inserted = .ok (next, shown))
    (inserts : ∀ after, inserted = .ok after → ∃ stored : StoredSnapshot, stored.snapshot = requested ∧ after =
      { sidecar with snapshots := sidecar.snapshots.insertNew requested.id stored }) :
    sidecar.Keeps requested next := by
  unfold existingOr at isKept
  split at isKept
  · next existing loaded =>
    obtain ⟨_, valid, ⟨⟩⟩ := map_eq_ok_iff.mp isKept
    obtain ⟨stored, isStored, rfl⟩ := Option.map_eq_some_iff.mp loaded
    exact ⟨.inl ⟨stored, isStored, validateEquivalentSnapshot_ok valid, rfl⟩, rfl, rfl, rfl⟩
  · next absent =>
    obtain ⟨_, isInserted, ⟨⟩⟩ := map_eq_ok_iff.mp isKept
    obtain ⟨stored, isSnapshot, rfl⟩ := inserts _ isInserted
    exact ⟨.inr ⟨stored, isSnapshot, Option.map_eq_none_iff.mp absent, rfl⟩, rfl, rfl, rfl⟩

/-- The row that a completion finishes. -/
theorem requireBuild_row (required : sidecar.requireBuild snapshot.completedBy = .ok build)
    (valid : validateSnapshotForBuild snapshot build = .ok ()) :
    ∃ row, sidecar.indexBuilds.get? snapshot.completedBy = some row ∧
      row.prospectiveSnapshotId = snapshot.id ∧ row.repository = snapshot.repository := by
  obtain ⟨row, _, stored, _, rfl⟩ := requireBuild_ok required
  simp only [validateSnapshotForBuild, reject_eq_ok_iff, not_not] at valid
  exact ⟨row, stored, valid.1.symm, valid.2.1.symm⟩

theorem completeBuild_ok (completed : (sidecar.completeBuild snapshot).map (·.1) = .ok next) :
    ∃ build, sidecar.requireBuild snapshot.completedBy = .ok build ∧ build.state = .building ∧
      sidecar.Completes snapshot next := by
  simp only [completeBuild, map_eq_ok_iff, bind_eq_ok_iff, reject_eq_ok_iff, not_not] at completed
  obtain ⟨_, ⟨build, required, isBuilding, _, valid, ⟨kept, shown⟩, isKept, ⟨⟩⟩, rfl⟩ := completed
  have keeps := existingOr_keeps isKept fun after inserted => ⟨_, rfl, insertSnapshot_ok inserted⟩
  refine ⟨build, required, isBuilding, requireBuild_row required valid, keeps.snapshots,
    congrArg (·.put snapshot.id snapshot.completedBy) keeps.sets, ?_, keeps.views⟩
  obtain ⟨_, _, _, _, rfl⟩ := requireBuild_ok required
  exact congrArg (·.modify snapshot.completedBy .finish) keeps.builds

/-- The recheck of a reused snapshot only reads. -/
theorem completeIndex_ok (completed : (sidecar.completeIndex commit).map (·.1) = .ok next) :
    ∃ build, sidecar.requireBuild commit.snapshot.completedBy = .ok build ∧ build.state = .building ∧
      sidecar.Completes commit.snapshot next := by
  obtain ⟨_, isResult, rfl⟩ := map_eq_ok_iff.mp completed
  obtain ⟨build, required, rest⟩ := bind_eq_ok_iff.mp isResult
  obtain ⟨isBuilding, rest⟩ := reject_eq_ok_iff.mp rest
  obtain ⟨_, valid, rest⟩ := bind_eq_ok_iff.mp rest
  split at rest
  on_goal 1 => replace rest := (bind_eq_ok_iff.mp rest).choose_spec.2
  all_goals
    obtain ⟨⟨kept, shown⟩, isKept, rest⟩ := bind_eq_ok_iff.mp rest
    obtain ⟨replaced, isReplaced, ⟨⟩⟩ := bind_eq_ok_iff.mp rest
    have keeps := existingOr_keeps isKept fun after inserted => by
      obtain ⟨stored, isStored, rest⟩ := bind_eq_ok_iff.mp inserted
      split_ifs at rest
      cases rest
      exact ⟨_, rfl, insertSnapshot_ok isStored⟩
    rw [replaceSnapshotDiagnostics_ok isReplaced, foldl_upsertCachedFragment]
    exact ⟨build, required, not_not.mp isBuilding, requireBuild_row required valid, keeps.snapshots,
      congrArg (·.put commit.snapshot.id commit.snapshot.completedBy) keeps.sets,
      congrArg (·.modify commit.snapshot.completedBy .finish) keeps.builds, keeps.views⟩

/-- Completing a build finishes its row, whatever is stored with the snapshot. -/
theorem Completes.effect (completes : sidecar.Completes snapshot next)
    (required : sidecar.requireBuild snapshot.completedBy = .ok build) (isBuilding : build.state = .building) :
    sidecar.Effect call next := by
  obtain ⟨row, stored, isState⟩ := requireBuild_state required isBuilding
  obtain ⟨isOpen, _⟩ := open_of_building isState
  refine .change _ row .finish stored isOpen rfl ?_ completes.builds completes.snapshots.grows completes.views
  change row.state ≠ .published
  rw [isOpen]
  decide
/-! ## Publication -/

theorem buildOrder_ok {order : Nat} (ordered : sidecar.buildOrder id = .ok order) :
    ∃ row, sidecar.indexBuilds.get? id = some row ∧ row.rowid = order := by
  unfold buildOrder at ordered
  cases stored : sidecar.indexBuilds.get? id <;> simp_all

/-- The snapshots of the store carry the ids they are stored under. -/
def Keyed (sidecar : Sidecar) : Prop :=
  ∀ id stored, sidecar.snapshots.get? id = some stored → stored.snapshot.id = id

theorem publish_ok (keyed : sidecar.Keyed) (published : sidecar.publish request = .ok (next, outcome)) :
    request.expected = (sidecar.loadPublishedView request.repository request.viewName).map (·.version) ∧
      sidecar.Publishes request next outcome ∧ next.snapshotDiagnosticSets = sidecar.snapshotDiagnosticSets := by
  obtain ⟨build, required, rest⟩ := bind_eq_ok_iff.mp published
  obtain ⟨row, state, stored, isState, rfl⟩ := requireBuild_ok required
  obtain ⟨_, rest⟩ := reject_eq_ok_iff.mp rest
  obtain ⟨isOffered, rest⟩ := reject_eq_ok_iff.mp rest
  split at rest
  · cases rest
  next snapshot loaded =>
  obtain ⟨kept, isKept, rfl⟩ := Option.map_eq_some_iff.mp loaded
  have snapshotId : kept.snapshot.id = row.prospectiveSnapshotId := keyed _ kept isKept
  have isStored : (sidecar.snapshots.get? row.prospectiveSnapshotId).isSome = true := Option.isSome_of_eq_some isKept
  obtain ⟨expected, rest⟩ := reject_eq_ok_iff.mp rest
  refine ⟨not_not.mp expected, ?_⟩
  have offered : row.Offered := by
    rcases not_and_or.mp isOffered with complete | published
    · exact .inl (finished_of_complete (isState.trans (congrArg some (not_not.mp complete))))
    · exact .inr (published_of_published (isState.trans (congrArg some (not_not.mp published))))
  have moves : ∀ {current},
      sidecar.loadPublishedView request.repository request.viewName = current →
      sidecar.advanceView request ⟨request.buildId, row.repository, row.sourceRevisionId,
        row.prospectiveSnapshotId, state⟩
        kept.snapshot current = .ok (next, outcome) →
      (∀ shown ∈ current, shown.snapshotId ≠ row.prospectiveSnapshotId ∧ ∀ recorded,
        sidecar.indexBuilds.get? shown.buildId = some recorded → recorded.rowid ≤ row.rowid) →
      sidecar.Publishes request next outcome ∧ next.snapshotDiagnosticSets = sidecar.snapshotDiagnosticSets := by
    intro current shown advanced other
    have generation : current.elim 1 (·.generation + 1) = current.elim 0 (·.generation) + 1 := by
      cases current <;> rfl
    simp only [advanceView, generation] at advanced
    obtain ⟨_, ⟨⟩⟩ := reject_eq_ok_iff.mp advanced
    rw [snapshotId]
    refine ⟨.move row _ stored offered isStored (by rw [shown]) (by rw [shown]; exact other) rfl rfl ?_, rfl⟩
    rw [← snapshotId]
    rfl
  split at rest
  · next shown => exact moves shown rest (by simp)
  next view shown =>
  split at rest
  · next same =>
    cases rest
    exact ⟨.confirm view row shown stored (snapshotId.symm.trans same.symm), rfl⟩
  next different =>
  obtain ⟨candidate, isCandidate, rest⟩ := bind_eq_ok_iff.mp rest
  obtain ⟨currentOrder, isCurrent, rest⟩ := bind_eq_ok_iff.mp rest
  obtain ⟨own, isOwn, rfl⟩ := buildOrder_ok isCandidate
  obtain ⟨later, isLater, rfl⟩ := buildOrder_ok isCurrent
  obtain rfl : row = own := Option.some.inj (stored.symm.trans isOwn)
  split at rest
  · next late =>
    cases rest
    exact ⟨.outdate view row later shown stored isLater late, rfl⟩
  · next inOrder =>
    refine moves shown rest ?_
    rintro current ⟨⟩
    refine ⟨fun same => different (same.trans snapshotId.symm), fun recorded isRecorded => ?_⟩
    obtain rfl : later = recorded := Option.some.inj (isLater.symm.trans isRecorded)
    exact Nat.not_lt.mp inOrder

theorem call_effect (keyed : sidecar.Keyed) (called : sidecar.call call = .ok next) : sidecar.Effect call next := by
  cases call with
  | startBuild build =>
    obtain ⟨row, fresh, rowid, opened, _, rfl⟩ := startBuild_ok called
    exact .start row fresh rowid opened rfl rfl rfl
  | failBuild failure =>
    obtain ⟨row, stored, isState, rfl⟩ := failBuild_ok called
    exact .change failure.buildId row (.fail failure.code) stored (open_of_building isState).1 rfl
      StoredBuildState.noConfusion rfl (.of_eq rfl) rfl
  | completeBuild snapshot =>
    obtain ⟨build, required, isBuilding, completes⟩ := completeBuild_ok called
    exact completes.effect required isBuilding
  | completeIndex commit =>
    obtain ⟨build, required, isBuilding, completes⟩ := completeIndex_ok called
    exact completes.effect required isBuilding
  | publish request =>
    obtain ⟨⟨_, outcome⟩, published, rfl⟩ := map_eq_ok_iff.mp called
    exact .publish (publish_ok keyed published).2.1
  | supersedeBuild id =>
    obtain ⟨row, stored, isState, rfl⟩ := supersedeBuild_ok called
    exact .change id row (.mark .superseded) stored
      (finished_of_complete isState).1 rfl StoredBuildState.noConfusion rfl (.of_eq rfl) rfl

theorem Publishes.snapshots_eq (published : sidecar.Publishes request next outcome) :
    next.snapshots = sidecar.snapshots := by
  cases published with
  | confirm => rfl
  | outdate => rfl
  | move _ _ _ _ _ _ _ _ snapshots _ => exact snapshots

theorem Effect.grows (effect : sidecar.Effect call next) : SnapshotsGrow sidecar.snapshots next.snapshots := by
  cases effect with
  | start _ _ _ _ _ snapshots _ => exact .of_eq snapshots
  | change _ _ _ _ _ _ _ _ snapshots _ => exact snapshots
  | publish published => exact .of_eq published.snapshots_eq

theorem Keyed.grows (keyed : sidecar.Keyed) (grown : SnapshotsGrow sidecar.snapshots next.snapshots) : next.Keyed := by
  intro id stored found
  rcases grown.named id stored found with old | isId
  · exact keyed id stored old
  · exact isId

end Sidecar

end Ferrus.RepositoryGraph

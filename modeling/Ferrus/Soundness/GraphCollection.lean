import Ferrus.Proofs.GraphLinks
import Ferrus.Soundness.GraphPublications

/-! # Collections between completion and publication

What a collection removes: task views that are not protected, snapshots that no remaining view shows and that
are neither protected nor recent, and builds that nothing refers to any more. A run that has completed its
snapshot and not yet published it is referred to by nothing else. So a collection may remove its snapshot if
this is old, and its build if another run has completed the same snapshot after it.
-/

namespace Ferrus.RepositoryGraph

open Ferrus.Machine LeasedSidecar List Option

/-- A task view that is not protected. -/
def Collection.withdraws (collection : Collection) (key : ViewKey) : Bool :=
  ViewKey.repository key = collection.repository && isTaskView (ViewKey.name key) &&
    !collection.protection.publishedViews.contains (ViewKey.name key)

namespace Sidecar

variable {sidecar next : Sidecar} {collection : Collection} {id : BuildId} {row : BuildRow} {key : ViewKey}
  {view : ViewRow} {build : BuildId}

/-- The snapshot is protected, shown by a view that remains, or recent. -/
def retains (sidecar : Sidecar) (collection : Collection) (id : SnapshotId) : Bool :=
  (sidecar.withdrawViews collection).isPublishedSnapshot collection.repository id ||
    (collection.protection.snapshotIds.contains id || (sidecar.recentSnapshots collection).contains id)

def removesSnapshot (sidecar : Sidecar) (collection : Collection) (id : SnapshotId) (stored : StoredSnapshot) : Bool :=
  stored.snapshot.repository = collection.repository && !sidecar.retains collection id

/-- The sidecar before its builds are collected. -/
def withoutSnapshots (sidecar : Sidecar) (collection : Collection) : Sidecar :=
  ((sidecar.withdrawViews collection).removeSnapshots collection.repository
    (sidecar.retention collection)).removeFragments
    collection.repository

def removesBuild (sidecar : Sidecar) (collection : Collection) (id : BuildId) (row : BuildRow) : Bool :=
  (sidecar.withoutSnapshots collection).isOrphaned collection.repository (sidecar.retention collection) id row

/-- A snapshot, a view or a set of diagnostics refers to the build. -/
def Refers (sidecar : Sidecar) (id : BuildId) : Prop :=
  (∃ key stored, sidecar.snapshots.get? key = some stored ∧ stored.snapshot.completedBy = id) ∨
    (∃ key view, sidecar.publishedViews.get? key = some view ∧ view.buildId = id) ∨
    ∃ key, sidecar.snapshotDiagnosticSets.get? key = some id

/-! ## The tables after a collection -/

theorem removesSnapshot_eq (sidecar : Sidecar) (collection : Collection) (id : SnapshotId) :
    sidecar.removesSnapshot collection id = fun stored => stored.snapshot.repository = collection.repository &&
      !(sidecar.withdrawViews collection).isPublishedSnapshot collection.repository id &&
      !(sidecar.retention collection).snapshots id := by
  funext stored
  simp only [removesSnapshot, retains, retention, Bool.not_or, Bool.and_assoc]

section

variable (collected : sidecar.collect collection = .ok next)

include collected

theorem collect_ok :
    next = (sidecar.withoutSnapshots collection).removeBuilds collection.repository (sidecar.retention collection) ∧
      ∀ view ∈ next.publishedViews.values, (sidecar.snapshots.get? view.snapshotId).isSome = true →
        (next.snapshots.get? view.snapshotId).isSome = true := by
  unfold collect at collected
  dsimp only at collected
  split at collected
  · cases collected
  · next referenced =>
    cases collected
    refine ⟨rfl, fun view member isStored => ?_⟩
    by_contra gone
    exact referenced (any_eq_true.mpr ⟨view, member, by simpa [isStored] using gone⟩)

theorem get?_snapshots_collect (id : SnapshotId) :
    next.snapshots.get? id = (sidecar.snapshots.get? id).filter
      (fun stored => !sidecar.removesSnapshot collection id stored) := by
  obtain ⟨rfl, _⟩ := collect_ok collected
  rw [removesSnapshot_eq]
  exact Table.get?_deleteWhere _ _ id

theorem get?_views_collect (key : ViewKey) :
    next.publishedViews.get? key = if collection.withdraws key then none else sidecar.publishedViews.get? key := by
  obtain ⟨rfl, _⟩ := collect_ok collected
  exact Table.get?_deleteWhere_key _ _ key

theorem get?_builds_collect (id : BuildId) :
    next.indexBuilds.get? id = (sidecar.indexBuilds.get? id).filter
      (fun row => !sidecar.removesBuild collection id row) := by
  obtain ⟨rfl, _⟩ := collect_ok collected
  exact Table.get?_deleteWhere _ _ id

theorem get?_sets_collect (id : SnapshotId) :
    next.snapshotDiagnosticSets.get? id =
      if (sidecar.snapshots.get? id).any (sidecar.removesSnapshot collection id) then none
      else sidecar.snapshotDiagnosticSets.get? id := by
  obtain ⟨rfl, _⟩ := collect_ok collected
  rw [removesSnapshot_eq]
  exact Table.get?_deleteWhere_key _ _ id

/-- A snapshot that is not removed. -/
theorem snapshot_kept
    (safe : ∀ stored, sidecar.snapshots.get? id = some stored → sidecar.removesSnapshot collection id stored = false) :
    next.snapshots.get? id = sidecar.snapshots.get? id := by
  rw [get?_snapshots_collect collected]
  cases found : sidecar.snapshots.get? id with
  | none => rfl
  | some stored => simp [safe stored found]

theorem snapshot_of_collected {stored : StoredSnapshot} (found : next.snapshots.get? id = some stored) :
    sidecar.snapshots.get? id = some stored ∧ sidecar.removesSnapshot collection id stored = false := by
  rw [get?_snapshots_collect collected, filter_eq_some_iff] at found
  exact ⟨found.1, by simpa using found.2⟩

theorem build_of_collected (found : next.indexBuilds.get? id = some row) :
    sidecar.indexBuilds.get? id = some row ∧ sidecar.removesBuild collection id row = false := by
  rw [get?_builds_collect collected, filter_eq_some_iff] at found
  exact ⟨found.1, by simpa using found.2⟩

theorem view_of_collected (found : next.publishedViews.get? key = some view) :
    sidecar.publishedViews.get? key = some view ∧ collection.withdraws key = false := by
  rw [get?_views_collect collected] at found
  split_ifs at found with isWithdrawn
  exact ⟨found, by simpa using isWithdrawn⟩

theorem set_of_collected (found : next.snapshotDiagnosticSets.get? id = some build) :
    sidecar.snapshotDiagnosticSets.get? id = some build ∧
      ∀ stored, sidecar.snapshots.get? id = some stored → sidecar.removesSnapshot collection id stored = false := by
  rw [get?_sets_collect collected] at found
  split_ifs at found with isGone
  refine ⟨found, fun stored isStored => ?_⟩
  simpa [isStored] using isGone

/-! ## References keep builds -/

/-- The references that count are those which the collection leaves. -/
theorem removesBuild_iff : sidecar.removesBuild collection id row = true ↔ row.repository = collection.repository ∧
      ¬ (row.state = .building ∧ row.finished = false) ∧ ¬ next.Refers id ∧
      ¬ (row.state = .failed ∧ (sidecar.retention collection).failedBuilds id = true) := by
  obtain ⟨rfl, _⟩ := collect_ok collected
  unfold removesBuild isOrphaned Refers
  simp only [Bool.and_eq_true, decide_eq_true_eq, Bool.not_eq_true', ← Bool.not_eq_true, Table.any_values_iff,
    exists_eq_right, not_or, and_assoc]
  rfl

/-- A build stays if it is of another repository or referred to. -/
theorem build_kept
    (needed : ∀ row, sidecar.indexBuilds.get? id = some row → row.repository ≠ collection.repository ∨ next.Refers id) :
    next.indexBuilds.get? id = sidecar.indexBuilds.get? id := by
  rw [get?_builds_collect collected]
  cases found : sidecar.indexBuilds.get? id with
  | none => rfl
  | some row =>
    have kept : ¬ sidecar.removesBuild collection id row = true := by
      rw [removesBuild_iff collected]
      rintro ⟨own, _, unreferred, _⟩
      exact (needed row found).elim (· own) unreferred
    simp [kept]

/-! ## Links after a collection -/

theorem Builds.collect {snapshot : SnapshotId} (builds : sidecar.Builds build snapshot) (needed : next.Refers build) :
    next.Builds build snapshot := by
  obtain ⟨row, stored, prospective⟩ := builds
  exact ⟨row, (build_kept collected (fun _ _ => .inr needed)).trans stored, prospective⟩

variable (linked : sidecar.Linked)

include linked

theorem shown_kept (found : next.publishedViews.get? key = some view) :
    (next.snapshots.get? view.snapshotId).isSome = true := by
  obtain ⟨isStored, _⟩ := linked.shown key view (view_of_collected collected found).1
  exact (collect_ok collected).2 view (next.publishedViews.mem_values_iff.mpr ⟨key, found⟩) isStored

/-- The build of a finished row that stays still has its snapshot. -/
theorem candidate_of_collected (found : next.indexBuilds.get? id = some row) (isBuilding : row.state = .building)
    (finished : row.finished = true) :
    next.snapshots.get? row.prospectiveSnapshotId = sidecar.snapshots.get? row.prospectiveSnapshotId := by
  have isRow := (build_of_collected collected found).1
  obtain ⟨stored, isStored, sameRepository⟩ := linked.candidates id row isRow isBuilding finished
  refine snapshot_kept collected fun other isOther => ?_
  obtain rfl : stored = other := some.inj (isStored.symm.trans isOther)
  -- Whatever refers to the build refers to its snapshot.
  have prospective : ∀ snapshot, sidecar.Builds id snapshot → row.prospectiveSnapshotId = snapshot := by
    rintro snapshot ⟨same, isSame, isProspective⟩
    rwa [← some.inj (isRow.symm.trans isSame)] at isProspective
  by_cases own : row.repository = collection.repository
  · have referred : next.Refers id := by
      by_contra unreferred
      have removed : sidecar.removesBuild collection id row = true :=
        (removesBuild_iff collected).mpr ⟨own, by simp [finished], unreferred, by simp [isBuilding]⟩
      exact Bool.false_ne_true ((build_of_collected collected found).2.symm.trans removed)
    obtain ⟨key, other, isOther, completes⟩ | ⟨key, view, isShown, shows⟩ | ⟨key, isSet⟩ := referred
    · obtain ⟨old, safe⟩ := snapshot_of_collected collected isOther
      obtain rfl := prospective key (completes ▸ linked.completed key other old)
      rwa [some.inj (isStored.symm.trans old)]
    · obtain ⟨_, builds⟩ := linked.shown key view (view_of_collected collected isShown).1
      obtain remaining := shown_kept collected linked isShown
      rw [← prospective view.snapshotId (shows ▸ builds)] at remaining
      obtain ⟨other, isOther⟩ := isSome_iff_exists.mp remaining
      obtain ⟨old, safe⟩ := snapshot_of_collected collected isOther
      rwa [some.inj (isStored.symm.trans old)]
    · obtain ⟨old, safe⟩ := set_of_collected collected isSet
      obtain rfl := prospective key (linked.diagnosed key id old)
      exact safe stored isStored
  · simp [removesSnapshot, sameRepository, own]

theorem Linked.collect : next.Linked where
  keyed id stored found := linked.keyed id stored (snapshot_of_collected collected found).1
  completed id stored found :=
    .collect collected (linked.completed id stored (snapshot_of_collected collected found).1)
      (.inl ⟨id, stored, found, rfl⟩)
  diagnosed id build found :=
    .collect collected (linked.diagnosed id build (set_of_collected collected found).1) (.inr (.inr ⟨id, found⟩))
  shown key view found := by
    obtain ⟨_, builds⟩ := linked.shown key view (view_of_collected collected found).1
    exact ⟨shown_kept collected linked found, builds.collect collected (.inr (.inl ⟨key, view, found, rfl⟩))⟩
  candidates id row found isBuilding finished := by
    rw [candidate_of_collected collected linked found isBuilding finished]
    exact linked.candidates id row (build_of_collected collected found).1 isBuilding finished

end

/-! ## The number of snapshots -/

/-- The snapshots that remain without a view or protection are recent. -/
theorem ordinary_bounded (collected : sidecar.collect collection = .ok next) :
    (next.snapshots.select (fun id stored => stored.snapshot.repository = collection.repository &&
      !next.isPublishedSnapshot collection.repository id &&
      !collection.protection.snapshotIds.contains id)).length ≤ collection.config.maxSnapshots := by
  set remaining := next.snapshots.select _ with isRemaining
  have distinct : (remaining.map (·.1)).Nodup := by
    refine List.Nodup.sublist (filter_sublist.map _) ?_
    exact (pairwise_map.mpr (next.snapshots.sorted.imp fun before => before.ne))
  have recent : remaining.map (·.1) ⊆ sidecar.recentSnapshots collection := by
    intro _ member
    obtain ⟨⟨id, stored⟩, selected, rfl⟩ := mem_map.mp member
    obtain ⟨isStored, isOrdinary⟩ := next.snapshots.mem_select.mp selected
    obtain ⟨_, kept⟩ := snapshot_of_collected collected isStored
    simp only [Bool.and_eq_true, decide_eq_true_eq, Bool.not_eq_true'] at isOrdinary
    obtain ⟨⟨own, unpublished⟩, unprotected⟩ := isOrdinary
    have sameViews : next.isPublishedSnapshot collection.repository =
        (sidecar.withdrawViews collection).isPublishedSnapshot collection.repository := by
      obtain ⟨rfl, _⟩ := collect_ok collected
      rfl
    rw [sameViews] at unpublished
    have isRecent : (sidecar.recentSnapshots collection).contains id = true := by
      simpa only [removesSnapshot, own, decide_true, Bool.true_and, retains, unpublished, unprotected, Bool.false_or,
        Bool.not_eq_false'] using kept
    simpa using isRecent
  calc remaining.length = (remaining.map (·.1)).length := (length_map _).symm
    _ ≤ (sidecar.recentSnapshots collection).length := (subperm_of_subset distinct recent).length_le
    _ ≤ collection.config.maxSnapshots := length_take_le _ _

/-! ## Candidates -/

/-- The collection finds the snapshot of every run between completion and publication protected, shown or recent,
and the run's build as the one that stored the snapshot or that completed it last. -/
def spares (sidecar : Sidecar) (collection : Collection) : Bool :=
  sidecar.indexBuilds.rows.all fun (id, row) =>
    !(row.repository = collection.repository && row.state = .building && row.finished) ||
      (sidecar.retains collection row.prospectiveSnapshotId &&
        ((sidecar.snapshots.get? row.prospectiveSnapshotId).any (·.snapshot.completedBy = id) ||
          sidecar.snapshotDiagnosticSets.get? row.prospectiveSnapshotId = some id))

/-! ## Publication after a collection -/

variable {other : Sidecar} {request : PublishRequest}

/-- The outcome of a publication rests on the build, its snapshot, the view and the order of the two builds. -/
theorem publish_outcome_congr (build : other.loadBuild request.buildId = sidecar.loadBuild request.buildId)
    (snapshot : ∀ row, sidecar.indexBuilds.get? request.buildId = some row →
      other.loadSnapshot row.prospectiveSnapshotId = sidecar.loadSnapshot row.prospectiveSnapshotId)
    (view : other.loadPublishedView request.repository request.viewName =
      sidecar.loadPublishedView request.repository request.viewName)
    (order : other.buildOrder request.buildId = sidecar.buildOrder request.buildId)
    (shownOrder : ∀ view, sidecar.loadPublishedView request.repository request.viewName = some view →
      other.buildOrder view.buildId = sidecar.buildOrder view.buildId) :
    (other.publish request).map (·.2) = (sidecar.publish request).map (·.2) := by
  have required : other.requireBuild request.buildId = sidecar.requireBuild request.buildId := by
    unfold requireBuild
    rw [build]
  have advanced : ∀ build snapshot current, (other.advanceView request build snapshot current).map (·.2) =
      (sidecar.advanceView request build snapshot current).map (·.2) := by
    intro build snapshot current
    unfold advanceView
    dsimp only
    split_ifs <;> rfl
  unfold publish
  rw [required, view]
  cases isBuild : sidecar.requireBuild request.buildId with
  | error error => rfl
  | ok build =>
    obtain ⟨row, state, stored, _, isRow⟩ := requireBuild_ok isBuild
    have isId : build.id = request.buildId := congrArg (·.id) isRow
    have sameSnapshot : other.loadSnapshot build.prospectiveSnapshotId =
        sidecar.loadSnapshot build.prospectiveSnapshotId := isRow ▸ snapshot row stored
    change Except.map _ (ite _ _ (ite _ _ _)) = Except.map _ (ite _ _ (ite _ _ _))
    rw [sameSnapshot]
    split_ifs
    · rfl
    · rfl
    cases sidecar.loadSnapshot build.prospectiveSnapshotId with
    | none => rfl
    | some snapshot =>
      dsimp only
      split_ifs
      · rfl
      cases shown : sidecar.loadPublishedView request.repository request.viewName with
      | none => exact advanced build snapshot none
      | some current =>
        dsimp only
        split_ifs
        · rfl
        unfold replaceView
        rw [isId, order, shownOrder current shown]
        cases sidecar.buildOrder request.buildId with
        | error error => rfl
        | ok candidateOrder =>
          cases sidecar.buildOrder current.buildId with
          | error error => rfl
          | ok currentOrder =>
            change Except.map _ (ite _ _ _) = Except.map _ (ite _ _ _)
            split_ifs
            · rfl
            · exact advanced build snapshot (some current)

theorem buildOrder_congr (same : other.indexBuilds.get? id = sidecar.indexBuilds.get? id) :
    other.buildOrder id = sidecar.buildOrder id := by
  unfold buildOrder
  rw [same]

/-! ## Other repositories -/

/-- The data of every other repository. -/
structure LeavesOthers (before : Sidecar) (repository : RepositoryRef) (after : Sidecar) : Prop where
  views : ∀ key, ViewKey.repository key ≠ repository → after.publishedViews.get? key = before.publishedViews.get? key
  snapshots : ∀ id stored, before.snapshots.get? id = some stored → stored.snapshot.repository ≠ repository →
    after.snapshots.get? id = some stored ∧ after.snapshotDiagnosticSets.get? id = before.snapshotDiagnosticSets.get? id
  builds : ∀ id row, before.indexBuilds.get? id = some row → row.repository ≠ repository →
    after.indexBuilds.get? id = some row ∧ after.buildMetrics.get? id = before.buildMetrics.get? id
  fragments : ∀ key, key.repository ≠ repository → after.fragmentCache key = before.fragmentCache key
  diagnostics : ∀ diagnostic ∈ before.diagnostics,
    (∀ row, before.indexBuilds.get? diagnostic.buildId = some row → row.repository ≠ repository) →
    (∀ id ∈ diagnostic.snapshotId, ∀ stored, before.snapshots.get? id = some stored →
      stored.snapshot.repository ≠ repository) → diagnostic ∈ after.diagnostics

theorem removesBuild_other (other : row.repository ≠ collection.repository) :
    sidecar.removesBuild collection id row = false := by
  simp [removesBuild, isOrphaned, other]

theorem leavesOthers_collect (collected : sidecar.collect collection = .ok next) :
    sidecar.LeavesOthers collection.repository next := by
  have kept : ∀ id stored, sidecar.snapshots.get? id = some stored →
      stored.snapshot.repository ≠ collection.repository → sidecar.removesSnapshot collection id stored = false := by
    intro id stored _ other
    simp [removesSnapshot, other]
  constructor
  · intro key other
    rw [get?_views_collect collected, if_neg]
    simp [Collection.withdraws, other]
  · intro id stored found other
    have safe := kept id stored found other
    constructor
    · rw [get?_snapshots_collect collected, found]
      simp [safe]
    · rw [get?_sets_collect collected, found]
      simp [safe]
  · intro id row found other
    constructor
    · rw [build_kept collected, found]
      intro same isSame
      obtain rfl : row = same := some.inj (found.symm.trans isSame)
      exact .inl other
    · obtain ⟨rfl, _⟩ := collect_ok collected
      change (sidecar.buildMetrics.deleteWhere (fun id _ => (sidecar.indexBuilds.get? id).any
        (sidecar.removesBuild collection id))).get? id = _
      rw [Table.get?_deleteWhere_key, found]
      simp [removesBuild_other other]
  · intro key other
    obtain ⟨rfl, _⟩ := collect_ok collected
    change (if key.repository = collection.repository && _ then none else _) = _
    simp only [other, decide_false, Bool.false_and]
    rfl
  · intro diagnostic member otherBuild otherSnapshot
    have keptBuild : (sidecar.indexBuilds.get? diagnostic.buildId).any
        (sidecar.removesBuild collection diagnostic.buildId) = false := by
      cases found : sidecar.indexBuilds.get? diagnostic.buildId with
      | none => rfl
      | some row => exact removesBuild_other (otherBuild row found)
    have keptSnapshot : diagnostic.snapshotId.any (fun id =>
        (sidecar.snapshots.get? id).any (sidecar.removesSnapshot collection id)) = false := by
      cases isSnapshot : diagnostic.snapshotId with
      | none => rfl
      | some id =>
        cases found : sidecar.snapshots.get? id with
        | none => simp [found]
        | some stored => simp [found, kept id stored found (otherSnapshot id isSnapshot stored found)]
    obtain ⟨rfl, _⟩ := collect_ok collected
    refine mem_filter.mpr ⟨mem_filter.mpr ⟨member, ?_⟩, ?_⟩
    · simp only [removesSnapshot_eq] at keptSnapshot
      exact congrArg not keptSnapshot
    · exact congrArg not keptBuild

/-! ## One collection -/

structure CollectionLaw (before : Sidecar) (collection : Collection) (after : Sidecar) : Prop where
  /-- A run that has completed its snapshot keeps it, and its build. -/
  candidates : ∀ id row, before.indexBuilds.get? id = some row → row.state = .building → row.finished = true →
    after.indexBuilds.get? id = some row ∧
      after.snapshots.get? row.prospectiveSnapshotId = before.snapshots.get? row.prospectiveSnapshotId
  /-- Its publication has the same outcome as before, unless the task view was withdrawn. -/
  publishes : ∀ request row, before.indexBuilds.get? request.buildId = some row → row.state = .building →
    row.finished = true → collection.withdraws (request.repository.viewKey request.viewName) = false →
      (after.publish request).map (·.2) = (before.publish request).map (·.2)
  views : ∀ key, collection.withdraws key = false → after.publishedViews.get? key = before.publishedViews.get? key
  published : ∀ key view, after.publishedViews.get? key = some view → ∃ stored,
    before.snapshots.get? view.snapshotId = some stored ∧ after.snapshots.get? view.snapshotId = some stored
  protects : ∀ id ∈ collection.protection.snapshotIds, after.snapshots.get? id = before.snapshots.get? id
  others : before.LeavesOthers collection.repository after
  bounded : (after.snapshots.select (fun id stored => stored.snapshot.repository = collection.repository &&
    !after.isPublishedSnapshot collection.repository id &&
    !collection.protection.snapshotIds.contains id)).length ≤ collection.config.maxSnapshots
  loadable : ∀ id, ∃ build, after.loadBuild id = .ok build

section

variable (linked : sidecar.Linked)

include linked

/-- Every build row can be loaded. -/
theorem Linked.loadable (id : BuildId) : ∃ build, sidecar.loadBuild id = .ok build := by
  unfold loadBuild
  cases found : sidecar.indexBuilds.get? id with
  | none => exact ⟨none, rfl⟩
  | some row =>
    have known : (sidecar.buildState? row).isSome = true := by
      unfold buildState?
      split
      · rfl
      · next isBuilding finished =>
        obtain ⟨stored, isStored, _⟩ := linked.candidates id row found isBuilding finished
        simp [isStored]
      · rfl
      · rfl
      · rfl
    obtain ⟨state, isState⟩ := isSome_iff_exists.mp known
    simp [isState]

section

variable (spared : sidecar.spares collection = true) (collected : sidecar.collect collection = .ok next)

include spared collected

theorem candidate_kept
    (found : sidecar.indexBuilds.get? id = some row)
    (isBuilding : row.state = .building) (finished : row.finished = true) : next.indexBuilds.get? id = some row ∧
      next.snapshots.get? row.prospectiveSnapshotId = sidecar.snapshots.get? row.prospectiveSnapshotId := by
  suffices kept : next.indexBuilds.get? id = sidecar.indexBuilds.get? id by
    rw [found] at kept
    exact ⟨kept, candidate_of_collected collected linked kept isBuilding finished⟩
  refine build_kept collected fun other isOther => ?_
  obtain rfl : row = other := some.inj (found.symm.trans isOther)
  by_cases own : row.repository = collection.repository
  · have holds := all_eq_true.mp spared (id, row) (sidecar.indexBuilds.get?_eq_some_iff.mp found)
    obtain ⟨retained, needed⟩ : _ ∧ _ := by simpa [own, isBuilding, finished, Option.any_eq_true] using holds
    have safe : ∀ stored, sidecar.removesSnapshot collection row.prospectiveSnapshotId stored = false := by
      simp [removesSnapshot, retained]
    obtain ⟨stored, isStored, completes⟩ | isSet := needed
    · refine .inr (.inl ⟨row.prospectiveSnapshotId, stored, ?_, completes⟩)
      rw [snapshot_kept collected (fun stored _ => safe stored), isStored]
    · refine .inr (.inr (.inr ⟨row.prospectiveSnapshotId, ?_⟩))
      rw [get?_sets_collect collected, if_neg, isSet]
      simp [Option.any_eq_true, safe]
  · exact .inl own

theorem publish_after_collect
    (found : sidecar.indexBuilds.get? request.buildId = some row)
    (isBuilding : row.state = .building) (finished : row.finished = true)
    (remains : collection.withdraws (request.repository.viewKey request.viewName) = false) :
    (next.publish request).map (·.2) = (sidecar.publish request).map (·.2) := by
  obtain ⟨sameBuild, sameSnapshot⟩ := candidate_kept linked spared collected found isBuilding finished
  have sameRow := sameBuild.trans found.symm
  have sameView : next.loadPublishedView request.repository request.viewName =
      sidecar.loadPublishedView request.repository request.viewName := by
    unfold loadPublishedView
    rw [get?_views_collect collected, remains]
    rfl
  refine publish_outcome_congr ?_ ?_ sameView (buildOrder_congr sameRow) ?_
  · unfold loadBuild buildState?
    rw [sameRow, found]
    dsimp only
    rw [sameSnapshot]
  · intro other isOther
    obtain rfl : row = other := some.inj (found.symm.trans isOther)
    unfold loadSnapshot
    rw [sameSnapshot]
  · intro view shown
    exact buildOrder_congr (build_kept collected fun _ _ => .inr (.inr (.inl ⟨_, view, sameView.trans shown, rfl⟩)))

theorem collectionLaw_of_spares : sidecar.CollectionLaw collection next where
  candidates id row found isBuilding finished := candidate_kept linked spared collected found isBuilding finished
  publishes request row found isBuilding finished remains :=
    publish_after_collect linked spared collected found isBuilding finished remains
  views key remains := by
    rw [get?_views_collect collected, remains]
    rfl
  published key view found := by
    obtain ⟨stored, isStored⟩ := isSome_iff_exists.mp (shown_kept collected linked found)
    exact ⟨stored, (snapshot_of_collected collected isStored).1, isStored⟩
  protects id member := by
    refine snapshot_kept collected fun stored _ => ?_
    simp [removesSnapshot, retains, member]
  others := leavesOthers_collect collected
  bounded := ordinary_bounded collected
  loadable := (linked.collect collected).loadable

end

end

end Sidecar

namespace MaintainedGraph

/-- What an event does if it is a collection; one that is refused does nothing. -/
def Collects (before : MaintainedGraph) (event : MaintenanceEvent) (after : MaintainedGraph) : Prop :=
  ∀ collection, event = .collect collection →
    (after = before ∧ ∀ collected, before.sidecar.collect collection ≠ .ok collected) ∨
      before.sidecar.collect collection = .ok after.sidecar ∧ before.sidecar.CollectionLaw collection after.sidecar

def sparesCandidates (before : MaintainedGraph) : MaintenanceEvent → Bool
  | .collect collection => before.sidecar.spares collection
  | _ => true

theorem collect_cases (graph : MaintainedGraph) (collection : Collection) :
    (graph.step (.collect collection) = graph ∧ ∀ collected, graph.sidecar.collect collection ≠ .ok collected) ∨
      graph.sidecar.collect collection = .ok (graph.step (.collect collection)).sidecar := by
  simp only [step, sidecar]
  cases graph.store.sidecar.collect collection with
  | error error => exact .inl ⟨rfl, fun _ => by simp⟩
  | ok collected => exact .inr rfl

/-- The references of the store hold. -/
def Referential (graph : MaintainedGraph) : Prop := graph.sidecar.Linked

theorem Referential.empty : Referential {} := Sidecar.Linked.empty

theorem Referential.step {graph : MaintainedGraph} (linked : graph.Referential) (event : MaintenanceEvent) :
    (graph.step event).Referential := by
  cases event with
  | pass | release => exact linked
  | call call => exact Sidecar.Linked.step linked call
  | acquire readAt repository viewName ownerToken ttl =>
    refine commit_elim Referential linked fun store outcome _ done => ?_
    obtain ⟨_, rfl⟩ | ⟨_, _, _, _, rfl⟩ := acquireRefreshLease_ok done <;> exact linked
  | renew readAt repository viewName ownerToken ttl =>
    refine commit_elim Referential linked fun store renewed _ done => ?_
    obtain ⟨_, rfl⟩ | ⟨_, _, _, _, _, _, rfl⟩ := renewRefreshLeaseAt_ok done <;> exact linked
  | recover readAt =>
    refine commit_elim Referential linked fun store report _ done => ?_
    obtain ⟨rfl, _⟩ := recoverInterruptedBuilds_ok done
    exact Sidecar.Linked.of_rows linked (.updateWhere _ _ (.fail interruptedBuildCode) (fun _ => rfl)
      (fun _ => by simp [BuildRow.fail])) rfl rfl fun _ _ old => .inl old
  | collect collection =>
    obtain ⟨same, _⟩ | collected := graph.collect_cases collection
    · rwa [same]
    · exact Sidecar.Linked.collect collected linked

/-- In every interleaving of index runs, leases, recoveries and collections from the empty store, if each
collection spares the candidates, it removes nothing that a publication, a view, a task or another repository
needs, keeps at most the configured number of other snapshots, and leaves every build loadable. -/
theorem collections_keep_candidates (events : List MaintenanceEvent)
    (spared : EveryStep step (fun before event _ => before.sparesCandidates event = true) {} events) :
    EveryStep step Collects {} events := by
  refine spared.of_invariant Referential.empty (fun graph event linked _ => linked.step event) ?_
  rintro graph event linked holds collection rfl
  obtain unchanged | collected := graph.collect_cases collection
  · exact .inl unchanged
  · exact .inr ⟨collected, Sidecar.collectionLaw_of_spares linked holds collected⟩

/-! ## Two runs that have not published yet -/

/-- Two runs complete a snapshot each; the collection keeps the given number of snapshots. -/
def candidateRuns (maxSnapshots : ℕ) : List MaintenanceEvent :=
  (buildCalls "b-1" "s-1" 1 ++ buildCalls "b-2" "s-2" 2).map .call ++
    [.collect ⟨exampleRepository, { maxSnapshots }, {}, ⟨id, id⟩⟩]

theorem collections_keep_candidates_two :
    EveryStep step (fun before event _ => before.sparesCandidates event = true) {} (candidateRuns 2) ∧
      EveryStep step Collects {} (candidateRuns 2) := by
  have spared : EveryStep step (fun before event _ => before.sparesCandidates event = true) {} (candidateRuns 2) := by
    decide +kernel
  exact ⟨spared, collections_keep_candidates (candidateRuns 2) spared⟩

def candidateRequest : PublishRequest := ⟨exampleRepository, "task-overlay:t-1", "b-1", none⟩

/-- With room for one snapshot the collection removes the older candidate, and its publication fails. -/
theorem not_collections_keep_candidates_one : ¬ EveryStep step Collects {} (candidateRuns 1) ∧
      ((run step {} ((candidateRuns 1).take 4)).sidecar.publish candidateRequest).isOk = true ∧
      ((run step {} (candidateRuns 1)).sidecar.publish candidateRequest).isOk = false := by
  refine ⟨fun every => ?_, by decide +kernel, by decide +kernel⟩
  obtain ⟨_, _, _, _, last, _⟩ := every
  obtain ⟨same, _⟩ | ⟨_, law⟩ := last _ rfl
  · -- The collection was not refused: it has removed the snapshot.
    have kept := congrArg (fun graph => (graph.sidecar.snapshots.get? "s-1").isSome) same
    revert kept
    decide +kernel
  · have kept := (law.candidates "b-1" ⟨1, exampleRepository, "revision-1", "s-1", .building, true, none⟩
      (by decide +kernel) rfl rfl).1
    revert kept
    decide +kernel

end MaintainedGraph

end Ferrus.RepositoryGraph

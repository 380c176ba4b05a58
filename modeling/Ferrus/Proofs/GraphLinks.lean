import Ferrus.Proofs.GraphMaintenance

/-! # References between builds, snapshots and views

Snapshots, diagnostic sets and views refer to builds that are stored, and a build refers to the snapshot it
completes. `Linked` says so for the whole store; every call of an index run, every recovery and every collection
keeps it. For a collection this needs the deletion of the builds whose snapshot it removes.
-/

namespace Ferrus.RepositoryGraph

open Except Table

namespace Sidecar

/-- The build is stored and completes the snapshot. -/
def Builds (sidecar : Sidecar) (build : BuildId) (snapshot : SnapshotId) : Prop :=
  ∃ row, sidecar.indexBuilds.get? build = some row ∧ row.prospectiveSnapshotId = snapshot

structure Linked (sidecar : Sidecar) : Prop where
  keyed : sidecar.Keyed
  completed : ∀ id stored, sidecar.snapshots.get? id = some stored → sidecar.Builds stored.snapshot.completedBy id
  diagnosed : ∀ id build, sidecar.snapshotDiagnosticSets.get? id = some build → sidecar.Builds build id
  shown : ∀ key view, sidecar.publishedViews.get? key = some view →
    (sidecar.snapshots.get? view.snapshotId).isSome = true ∧ sidecar.Builds view.buildId view.snapshotId
  /-- A finished build that is neither published nor given up has its snapshot, in its repository. -/
  candidates : ∀ id row, sidecar.indexBuilds.get? id = some row → row.state = .building → row.finished = true →
    ∃ stored, sidecar.snapshots.get? row.prospectiveSnapshotId = some stored ∧
      stored.snapshot.repository = row.repository

variable {sidecar next : Sidecar} {snapshot : GraphSnapshot}

theorem Linked.empty : Linked {} where
  keyed _ _ found := by cases found
  completed _ _ found := by cases found
  diagnosed _ _ found := by cases found
  shown _ _ found := by cases found
  candidates _ _ found := by cases found

/-! ## Steps that store no snapshot -/

/-- The rows of the builds stay with their snapshots, and no other build gets finished. -/
structure RowsKept (before after : Table BuildId BuildRow) : Prop where
  found : ∀ id row, before.get? id = some row →
    ∃ kept, after.get? id = some kept ∧ kept.prospectiveSnapshotId = row.prospectiveSnapshotId
  finished : ∀ id row, after.get? id = some row → row.state = .building → row.finished = true →
    before.get? id = some row

theorem RowsKept.builds (kept : RowsKept sidecar.indexBuilds next.indexBuilds) {build : BuildId} {snapshot : SnapshotId}
    (builds : sidecar.Builds build snapshot) : next.Builds build snapshot := by
  obtain ⟨row, stored, rfl⟩ := builds
  exact kept.found build row stored

variable {id : BuildId}

section

variable (table : Table BuildId BuildRow)

include table

theorem RowsKept.insertNew {row : BuildRow} (isOpen : row.finished = false) :
    RowsKept table (table.insertNew id row) := by
  refine ⟨fun other stored isStored => ⟨stored, Table.Extends.insertNew _ _ _ _ _ isStored, rfl⟩, ?_⟩
  intro other found isFound _ finished
  rw [get?_insertNew] at isFound
  split_ifs at isFound with same
  · subst same
    cases stored : table.get? other with
    | none =>
      rw [stored] at isFound
      cases isFound
      simp [isOpen] at finished
    | some old =>
      rw [stored] at isFound
      cases isFound
      rfl
  · exact isFound

/-- Changes that keep the snapshot of a row and close it. -/
theorem RowsKept.updateWhere (selected : BuildId → BuildRow → Bool) (change : BuildRow → BuildRow)
    (same : ∀ row, (change row).prospectiveSnapshotId = row.prospectiveSnapshotId)
    (closes : ∀ row, (change row).state ≠ .building) : RowsKept table (table.updateWhere selected change) := by
  constructor
  · intro id row stored
    rw [get?_updateWhere, stored]
    refine ⟨_, rfl, ?_⟩
    dsimp only
    split_ifs
    · exact same row
    · rfl
  · intro id row found isOpen _
    rw [get?_updateWhere] at found
    obtain ⟨old, stored, rfl⟩ := Option.map_eq_some_iff.mp found
    split_ifs at isOpen ⊢ with isSelected
    · exact absurd isOpen (closes old)
    · exact stored

theorem RowsKept.mark (id : BuildId) (closes : state ≠ .building) : RowsKept table (table.modify id (.mark state)) :=
  .updateWhere table _ (.mark state) (fun _ => rfl) fun _ => closes

theorem RowsKept.fail (id : BuildId) (code : DiagnosticCode) : RowsKept table (table.modify id (.fail code)) :=
  .updateWhere table _ (.fail code) (fun _ => rfl) fun _ => by simp [BuildRow.fail]

end

variable {state : StoredBuildState}

variable {request : PublishRequest} {outcome : PublicationOutcome}

/-! ## Completion -/

theorem Completes.builds_of (completes : sidecar.Completes snapshot next) {build : BuildId} {id : SnapshotId}
    (builds : sidecar.Builds build id) : next.Builds build id := by
  obtain ⟨row, stored, rfl⟩ := builds
  refine ⟨if build = snapshot.completedBy then row.finish else row, ?_, by split_ifs <;> rfl⟩
  rw [completes.builds, get?_modify, stored]
  split_ifs <;> rfl

/-- The snapshot that is stored afterwards. -/
theorem Completes.stored (completes : sidecar.Completes snapshot next) :
    ∃ stored, next.snapshots.get? snapshot.id = some stored ∧ stored.snapshot.repository = snapshot.repository := by
  obtain ⟨stored, isStored, sameRepository, same⟩ | ⟨stored, isSnapshot, absent, grown⟩ := completes.snapshots
  · exact ⟨stored, same ▸ isStored, sameRepository⟩
  · refine ⟨stored, ?_, by rw [isSnapshot]⟩
    rw [grown, get?_insertNew, if_pos rfl, absent]
    rfl

section

variable (linked : sidecar.Linked)

include linked

/-- Steps that keep snapshots and diagnostic sets, and show only what a linked view may show. -/
theorem Linked.of_rows (rows : RowsKept sidecar.indexBuilds next.indexBuilds)
    (snapshots : next.snapshots = sidecar.snapshots)
    (sets : next.snapshotDiagnosticSets = sidecar.snapshotDiagnosticSets)
    (views : ∀ key view, next.publishedViews.get? key = some view → sidecar.publishedViews.get? key = some view ∨
      (sidecar.snapshots.get? view.snapshotId).isSome = true ∧ sidecar.Builds view.buildId view.snapshotId) :
    next.Linked where
  keyed id stored found := linked.keyed id stored (snapshots ▸ found)
  completed id stored found := rows.builds (linked.completed id stored (snapshots ▸ found))
  diagnosed id build found := rows.builds (linked.diagnosed id build (sets ▸ found))
  shown key view found := by
    rw [snapshots]
    obtain old | ⟨isStored, builds⟩ := views key view found
    · obtain ⟨isStored, builds⟩ := linked.shown key view old
      exact ⟨isStored, rows.builds builds⟩
    · exact ⟨isStored, rows.builds builds⟩
  candidates id row found isOpen finished := by
    rw [snapshots]
    exact linked.candidates id row (rows.finished id row found isOpen finished) isOpen finished

theorem Linked.markBuild (id : BuildId) (closes : state ≠ .building) : (sidecar.markBuild id state).Linked :=
  linked.of_rows (.mark _ id closes) rfl rfl fun _ _ old => .inl old

theorem Linked.publish (published : sidecar.publish request = .ok (next, outcome)) : next.Linked := by
  obtain ⟨_, publishes, sets⟩ := publish_ok linked.keyed published
  cases publishes with
  | confirm => exact linked
  | outdate => exact linked.markBuild _ (by decide)
  | move row _ stored _ snapshot _ _ builds snapshots views =>
    refine linked.of_rows (builds ▸ .mark _ _ (by decide)) snapshots sets ?_
    intro key view found
    rw [views, get?_put] at found
    split_ifs at found
    · cases found
      exact .inr ⟨snapshot, row, stored, rfl⟩
    · exact .inl found

theorem Linked.complete (completes : sidecar.Completes snapshot next) : next.Linked := by
  obtain ⟨row, isRow, prospective, sameRepository⟩ := completes.build
  have own : next.Builds snapshot.completedBy snapshot.id := completes.builds_of ⟨row, isRow, prospective⟩
  have sources : ∀ id stored, next.snapshots.get? id = some stored →
      sidecar.snapshots.get? id = some stored ∨ id = snapshot.id ∧ stored.snapshot = snapshot := by
    intro id stored found
    obtain ⟨_, _, _, same⟩ | ⟨inserted, isSnapshot, absent, grown⟩ := completes.snapshots
    · exact .inl (same ▸ found)
    · rw [grown, get?_insertNew] at found
      split_ifs at found with isId
      · rw [absent] at found
        cases found
        exact .inr ⟨isId, isSnapshot⟩
      · exact .inl found
  constructor
  · intro id stored found
    obtain old | ⟨rfl, isSnapshot⟩ := sources id stored found
    · exact linked.keyed id stored old
    · rw [isSnapshot]
  · intro id stored found
    obtain old | ⟨rfl, isSnapshot⟩ := sources id stored found
    · exact completes.builds_of (linked.completed id stored old)
    · rw [isSnapshot]
      exact own
  · intro id build found
    rw [completes.sets, get?_put] at found
    split_ifs at found with isId
    · cases found
      exact isId ▸ own
    · exact completes.builds_of (linked.diagnosed id build found)
  · intro key view found
    obtain ⟨isStored, builds⟩ := linked.shown key view (completes.views ▸ found)
    exact ⟨completes.snapshots.grows.kept.isSome isStored, completes.builds_of builds⟩
  · intro id found isFound isOpen finished
    rw [completes.builds, get?_modify] at isFound
    split_ifs at isFound with isId
    · -- The build that is being completed.
      rw [isId, isRow] at isFound
      cases isFound
      change ∃ stored, next.snapshots.get? row.prospectiveSnapshotId = some stored ∧
        stored.snapshot.repository = row.repository
      rw [prospective, sameRepository]
      exact completes.stored
    · obtain ⟨stored, isStored, same⟩ := linked.candidates id found isFound isOpen finished
      exact ⟨stored, completes.snapshots.grows.kept _ _ isStored, same⟩

theorem Linked.call {call : StoreCall} (called : sidecar.call call = .ok next) : next.Linked := by
  cases call with
  | startBuild build =>
    obtain ⟨row, _, _, _, isOpen, rfl⟩ := startBuild_ok called
    exact linked.of_rows (.insertNew _ isOpen) rfl rfl fun _ _ old => .inl old
  | failBuild failure =>
    obtain ⟨row, _, _, rfl⟩ := failBuild_ok called
    exact linked.of_rows (.fail _ failure.buildId failure.code) rfl rfl fun _ _ old => .inl old
  | completeBuild snapshot =>
    obtain ⟨_, _, _, completes⟩ := completeBuild_ok called
    exact linked.complete completes
  | completeIndex commit =>
    obtain ⟨_, _, _, completes⟩ := completeIndex_ok called
    exact linked.complete completes
  | publish request =>
    obtain ⟨⟨_, outcome⟩, published, rfl⟩ := map_eq_ok_iff.mp called
    exact linked.publish published
  | supersedeBuild id =>
    obtain ⟨row, _, _, rfl⟩ := supersedeBuild_ok called
    exact linked.markBuild id (by decide)

theorem Linked.step (call : StoreCall) : (sidecar.step call).Linked := by
  unfold Sidecar.step
  split
  · next called => exact linked.call called
  · exact linked

end

end Sidecar

end Ferrus.RepositoryGraph

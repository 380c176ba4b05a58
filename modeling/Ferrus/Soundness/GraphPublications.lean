import Ferrus.Machine.Core.Run
import Ferrus.Proofs.GraphStoreSteps

/-! # Views of the repository graph

In every order of calls a view moves only for the caller that has seen its last version, and its
generation grows by one with each move. A view points to a stored snapshot and to the build that
completed it, as long as no build that a view points to is offered to another view that already shows
a later build. The build that a view records orders later publications: once a build has moved the
view, no build that was started earlier changes it.
-/

namespace Ferrus.RepositoryGraph

open Ferrus.Machine Option Table Sidecar

namespace Sidecar

variable {sidecar next : Sidecar} {call : StoreCall} {row : BuildRow} {view : ViewRow} {id : BuildId}
  {update : BuildRow → BuildRow} {request : PublishRequest}

/-- A call that fails changes nothing. -/
@[elab_as_elim]
theorem step_cases {P : Sidecar → Prop} (keyed : sidecar.Keyed) (kept : P sidecar)
    (effect : ∀ next, sidecar.Effect call next → P next) : P (sidecar.step call) := by
  unfold step
  split
  · next called => exact effect _ (call_effect keyed called)
  · exact kept

/-! ## Pointers -/

/-- The view shows a stored snapshot, and a build marked as published that completed it. -/
def Points (sidecar : Sidecar) (view : ViewRow) : Prop :=
  (∃ stored, sidecar.snapshots.get? view.snapshotId = some stored ∧ stored.snapshot.id = view.snapshotId) ∧
    ∃ build, sidecar.indexBuilds.get? view.buildId = some build ∧ build.state = .published ∧
      build.finished = true ∧ build.prospectiveSnapshotId = view.snapshotId

/-- What one call does to the views. -/
structure PublicationLaw (before : Sidecar) (call : StoreCall) (after : Sidecar) : Prop where
  generations : ∀ key, after.publishedViews.get? key = before.publishedViews.get? key ∨
    ∃ view, after.publishedViews.get? key = some view ∧
      view.generation = (before.publishedViews.get? key).elim 0 (·.generation) + 1 ∧
      ∀ old ∈ before.publishedViews.get? key, old.snapshotId ≠ view.snapshotId
  stale : ∀ request, call = .publish request →
    request.expected ≠ (before.loadPublishedView request.repository request.viewName).map (·.version) → after = before
  pointers : ∀ key view, after.publishedViews.get? key = some view → after.Points view

def startedBefore (sidecar : Sidecar) (first second : BuildId) : Bool :=
  match sidecar.indexBuilds.get? first, sidecar.indexBuilds.get? second with
  | some first, some second => first.rowid < second.rowid
  | _, _ => false

/-- A build that a view points to is not offered to a view that shows a build started later. -/
def offersCurrent (before : Sidecar) (call : StoreCall) : Bool :=
  match call with
  | .publish request =>
      match before.loadPublishedView request.repository request.viewName with
      | some current => !before.startedBefore request.buildId current.buildId ||
          before.publishedViews.values.all fun view => view.buildId ≠ request.buildId
      | none => true
  | _ => true

/-- Published builds are finished, and every view points. -/
structure PointersHold (sidecar : Sidecar) : Prop where
  keyed : sidecar.Keyed
  finished : ∀ id row, sidecar.indexBuilds.get? id = some row → row.state = .published → row.finished = true
  pointers : ∀ key view, sidecar.publishedViews.get? key = some view → sidecar.Points view

theorem PointersHold.empty : PointersHold {} := by
  constructor
  · intro id stored found
    cases found
  · intro id row found
    cases found
  · intro key view found
    cases found

section

variable (points : sidecar.Points view)

include points

/-- Whatever keeps the row of its build and the snapshot keeps a pointer. -/
theorem Points.of_kept (snapshots : sidecar.snapshots.Extends next.snapshots)
    (builds : ∀ row, sidecar.indexBuilds.get? view.buildId = some row → row.state = .published →
      ∃ other, next.indexBuilds.get? view.buildId = some other ∧ other.state = .published ∧ other.finished =
      row.finished ∧ other.prospectiveSnapshotId = row.prospectiveSnapshotId) : next.Points view := by
  obtain ⟨⟨stored, isStored, isId⟩, row, isRow, published, finished, prospective⟩ := points
  obtain ⟨other, isOther, state, same, shown⟩ := builds row isRow published
  exact ⟨⟨stored, snapshots _ _ isStored, isId⟩, other, isOther, state, same.trans finished, shown.trans prospective⟩

end

namespace PointersHold

variable (inv : sidecar.PointersHold)

include inv

/-- Rows keep their `finished` when they are not newly published. -/
theorem finished_modify (stored : sidecar.indexBuilds.get? id = some row)
    (allowed : (update row).state = .published → (update row).finished = true)
    (builds : next.indexBuilds = sidecar.indexBuilds.modify id update) :
    ∀ other kept, next.indexBuilds.get? other = some kept → kept.state = .published → kept.finished = true := by
  intro other kept found published
  rw [builds, get?_modify] at found
  split_ifs at found with same
  · rw [same, stored] at found
    cases found
    exact allowed published
  · exact inv.finished other kept found published

theorem finished_of_offered (stored : sidecar.indexBuilds.get? id = some row) (offered : row.Offered) :
    row.finished = true := by
  rcases offered with ⟨_, finished⟩ | published
  · exact finished
  · exact inv.finished id row stored published

theorem publishes {outcome : PublicationOutcome} (published : sidecar.Publishes request next outcome)
    (offers : sidecar.offersCurrent (.publish request) = true) : next.PointersHold := by
  refine ⟨inv.keyed.grows (.of_eq published.snapshots_eq), ?_, ?_⟩
  · cases published with
    | confirm => exact inv.finished
    | outdate _ row _ _ stored _ _ =>
      have unpublished : (row.mark .superseded).state ≠ .published := StoredBuildState.noConfusion
      exact inv.finished_modify stored (fun published => absurd published unpublished) rfl
    | move row _ stored offered _ _ _ builds _ _ =>
      have finished := inv.finished_of_offered stored offered
      exact inv.finished_modify stored (fun _ => finished) builds
  · cases published with
    | confirm => exact inv.pointers
    | outdate current row later isCurrent stored recorded late =>
      intro key view shown
      have others : ∀ view ∈ sidecar.publishedViews.values, view.buildId ≠ request.buildId := by
        simpa [offersCurrent, isCurrent, startedBefore, stored, recorded, late, markBuild] using offers
      refine (inv.pointers key view shown).of_kept (.refl _) fun kept found published => ⟨kept, ?_, published, rfl, rfl⟩
      rw [markBuild, get?_modify, if_neg (others view (sidecar.publishedViews.mem_values_iff.mpr ⟨key, shown⟩))]
      exact found
    | move row generation stored offered snapshot _ _ builds snapshots views =>
      intro key view shown
      rw [views, get?_put] at shown
      split_ifs at shown
      · cases shown
        obtain ⟨kept, isKept⟩ := isSome_iff_exists.mp snapshot
        have finished := inv.finished_of_offered stored offered
        refine ⟨⟨kept, by rw [snapshots]; exact isKept, inv.keyed _ kept isKept⟩, row.mark .published, ?_, rfl,
          finished, rfl⟩
        rw [builds, get?_modify_self, stored]
        rfl
      · refine (inv.pointers key view shown).of_kept (snapshots ▸ .refl _) fun kept found published => ?_
        rw [builds, get?_modify, found]
        split_ifs
        · exact ⟨_, rfl, rfl, rfl, rfl⟩
        · exact ⟨kept, rfl, published, rfl, rfl⟩

theorem effect (effect : sidecar.Effect call next) (offers : sidecar.offersCurrent call = true) :
    next.PointersHold := by
  have grown := effect.grows
  cases effect with
  | start row fresh _ opened builds _ views =>
    refine ⟨inv.keyed.grows grown, ?_, ?_⟩
    · intro id kept found published
      rw [builds, get?_insertNew] at found
      split_ifs at found with same
      · rw [fresh] at found
        cases found
        exact absurd (opened.symm.trans published) (by decide)
      · exact inv.finished id kept found published
    · intro key view shown
      rw [views] at shown
      refine (inv.pointers key view shown).of_kept grown.kept fun kept found published =>
        ⟨kept, ?_, published, rfl, rfl⟩
      rw [builds]
      exact Table.Extends.insertNew _ _ _ _ _ found
  | change id row _ stored isOpen _ unpublished builds _ views =>
    refine ⟨inv.keyed.grows grown, ?_, ?_⟩
    · exact inv.finished_modify stored (fun published => absurd published unpublished) builds
    · intro key view shown
      rw [views] at shown
      refine (inv.pointers key view shown).of_kept grown.kept fun kept found published =>
        ⟨kept, ?_, published, rfl, rfl⟩
      rw [builds, get?_modify, if_neg, found]
      rintro rfl
      rw [some.inj (found.symm.trans stored), isOpen] at published
      cases published
  | publish published => exact inv.publishes published offers

theorem step (offers : sidecar.offersCurrent call = true) : (sidecar.step call).PointersHold :=
  step_cases inv.keyed inv fun _ effect => inv.effect effect offers

end PointersHold

/-! ## Generations -/

section

variable (effect : sidecar.Effect call next)

include effect

/-- A call keeps a view, or moves it to a build that was started no earlier than the one that it showed. -/
theorem Effect.views (key : ViewKey) :
    next.publishedViews.get? key = sidecar.publishedViews.get? key ∨
      ∃ view row, next.publishedViews.get? key = some view ∧ sidecar.indexBuilds.get? view.buildId = some row ∧
        (∀ request, call = .publish request → view.buildId = request.buildId) ∧
        view.generation = (sidecar.publishedViews.get? key).elim 0 (·.generation) + 1 ∧
        ∀ old ∈ sidecar.publishedViews.get? key, old.snapshotId ≠ view.snapshotId ∧
          ∀ recorded, sidecar.indexBuilds.get? old.buildId = some recorded → recorded.rowid ≤ row.rowid := by
  cases effect with
  | start _ _ _ _ _ _ views => exact .inl (by rw [views])
  | change _ _ _ _ _ _ _ _ _ views => exact .inl (by rw [views])
  | publish published =>
    cases published with
    | confirm | outdate => exact .inl rfl
    | move row generation stored _ _ grown other _ _ views =>
      rw [views, get?_put]
      split_ifs with same
      · subst same
        refine .inr ⟨_, row, rfl, stored, ?_, grown, other⟩
        rintro _ ⟨⟩
        rfl
      · exact .inl rfl

/-- Rows keep their place in the order of starts. -/
theorem Effect.rowid (stored : sidecar.indexBuilds.get? id = some row) :
    ∃ kept, next.indexBuilds.get? id = some kept ∧ kept.rowid = row.rowid := by
  have modified : ∀ {other : BuildId} {update : BuildRow → BuildRow},
      (other = id → (update row).rowid = row.rowid) →
      ∃ kept, (sidecar.indexBuilds.modify other update).get? id = some kept ∧ kept.rowid = row.rowid := by
    intro other update same
    rw [get?_modify, stored]
    split_ifs with isId
    · exact ⟨_, rfl, same isId.symm⟩
    · exact ⟨row, rfl, rfl⟩
  cases effect with
  | start added _ _ _ builds _ _ =>
    rw [builds]
    exact ⟨row, Table.Extends.insertNew _ _ _ _ _ stored, rfl⟩
  | change other changed update isChanged _ rowid _ builds _ _ =>
    rw [builds]
    refine modified ?_
    rintro rfl
    rw [some.inj (stored.symm.trans isChanged)]
    exact rowid
  | publish published =>
    cases published with
    | confirm => exact ⟨row, stored, rfl⟩
    | outdate => exact modified fun _ => rfl
    | move _ _ _ _ _ _ _ builds _ _ =>
      rw [builds]
      exact modified fun _ => rfl

/-- A row that a call adds comes after every row there was. -/
theorem Effect.rowid_new {other : BuildId} {added : BuildRow} (absent : sidecar.indexBuilds.get? other = none)
    (stored : sidecar.indexBuilds.get? id = some row)
    (isAdded : next.indexBuilds.get? other = some added) : row.rowid < added.rowid := by
  have unmodified : ∀ {changed : BuildId} {update : BuildRow → BuildRow},
      (sidecar.indexBuilds.modify changed update).get? other ≠ some added := by
    intro changed update
    rw [get?_modify, absent]
    split_ifs <;> simp
  cases effect with
  | start started _ rowid _ builds _ _ =>
    rw [builds, get?_insertNew, absent] at isAdded
    split_ifs at isAdded with isOther
    rw [← isOther, absent] at isAdded
    cases isAdded
    exact lt_of_lt_of_eq (rowid_lt_nextRowid stored) rowid.symm
  | change _ _ _ _ _ _ _ builds _ _ =>
    rw [builds] at isAdded
    exact absurd isAdded unmodified
  | publish published =>
    cases published with
    | confirm => exact absurd (absent.symm.trans isAdded) (by simp)
    | outdate => exact absurd isAdded unmodified
    | move _ _ _ _ _ _ _ builds _ _ =>
      rw [builds] at isAdded
      exact absurd isAdded unmodified

end

/-! ## Every order of calls -/

/-- In every order of calls that offers builds as described, views move by one generation at a time, only for
the version that the caller expects, and point to the build that completed their snapshot. -/
theorem publications_point (calls : List StoreCall)
    (offers : EveryStep step (fun before call _ => before.offersCurrent call = true) {} calls) :
    EveryStep step PublicationLaw {} calls := by
  refine offers.of_invariant PointersHold.empty (fun _ _ inv here => inv.step here) ?_
  intro before call inv here
  refine ⟨fun key => ?_, ?_, (inv.step here).pointers⟩
  · refine step_cases inv.keyed (.inl rfl) fun next effect => ?_
    obtain same | ⟨view, row, shown, -, -, grown, other⟩ := effect.views key
    · exact .inl same
    · exact .inr ⟨view, shown, grown, fun old isOld => (other old isOld).1⟩
  · rintro request rfl stale
    cases published : before.publish request with
    | error failure => simp [step, call, published, Except.map]
    | ok result => exact absurd (publish_ok inv.keyed published).1 stale

/-! ## The latest start -/

theorem Keyed.step (keyed : sidecar.Keyed) (call : StoreCall) : (sidecar.step call).Keyed :=
  step_cases keyed keyed fun _ effect => keyed.grows effect.grows

/-- Stored snapshots are kept, and a view that shows one generation at two moments has not moved. -/
theorem versions_tell_snapshots (calls later : List StoreCall) :
    (run step {} calls).snapshots.Extends (run step {} (calls ++ later)).snapshots ∧
      ∀ key view, (run step {} calls).publishedViews.get? key = some view →
        ∃ last, (run step {} (calls ++ later)).publishedViews.get? key = some last ∧
          (last = view ∨ view.generation < last.generation) := by
  -- the calls are taken from the end, so that the statement is its own invariant
  induction later using List.reverseRecOn with
  | nil =>
    rw [List.append_nil]
    exact ⟨.refl _, fun _ view shown => ⟨view, shown, .inl rfl⟩⟩
  | append_singleton later call ih =>
    have keyed := run_invariant Keyed PointersHold.empty.keyed (fun _ call keyed => keyed.step call) (calls ++ later)
    rw [← List.append_assoc, run_append _ _ (calls ++ later), run_cons, run_nil]
    refine step_cases keyed ih fun next effect => ⟨ih.1.trans effect.grows.kept, fun key view shown => ?_⟩
    obtain ⟨last, isLast, order⟩ := ih.2 key view shown
    obtain same | ⟨moved, _, isMoved, -, -, grown, -⟩ := effect.views key
    · exact ⟨last, same.trans isLast, order⟩
    · rw [isLast, elim_some] at grown
      refine ⟨moved, isMoved, .inr ?_⟩
      rcases order with rfl | further <;> omega

/-- `earlier` is stored, and if `later` is stored it comes after it. -/
structure Ordered (sidecar : Sidecar) (earlier later : BuildId) : Prop where
  keyed : sidecar.Keyed
  started : ∃ row, sidecar.indexBuilds.get? earlier = some row
  after : ∀ row other, sidecar.indexBuilds.get? earlier = some row →
    sidecar.indexBuilds.get? later = some other → row.rowid < other.rowid

theorem Ordered.step {earlier later : BuildId} (ordered : sidecar.Ordered earlier later) (call : StoreCall) :
    (sidecar.step call).Ordered earlier later := by
  refine step_cases ordered.keyed ordered fun next effect => ?_
  obtain ⟨first, isFirst⟩ := ordered.started
  obtain ⟨kept, isKept, rowid⟩ := effect.rowid isFirst
  refine ⟨ordered.keyed.grows effect.grows, ⟨kept, isKept⟩, ?_⟩
  intro row other isRow isOther
  rw [← some.inj (isKept.symm.trans isRow), rowid]
  cases found : sidecar.indexBuilds.get? later with
  | none => exact effect.rowid_new found isFirst isOther
  | some second =>
    obtain ⟨last, isLast, same⟩ := effect.rowid found
    rw [← some.inj (isLast.symm.trans isOther), same]
    exact ordered.after first second isFirst found

/-- Every view records a build that is stored. -/
def Recorded (sidecar : Sidecar) : Prop :=
  ∀ key view, sidecar.publishedViews.get? key = some view → ∃ row, sidecar.indexBuilds.get? view.buildId = some row

theorem Recorded.step (recorded : sidecar.Recorded) (keyed : sidecar.Keyed) (call : StoreCall) :
    (sidecar.step call).Recorded := by
  refine step_cases keyed recorded fun next effect => ?_
  intro key view found
  have stored : ∃ row, sidecar.indexBuilds.get? view.buildId = some row := by
    obtain same | ⟨moved, row, shown, stored, _⟩ := effect.views key
    · exact recorded key view (same ▸ found)
    · cases shown.symm.trans found
      exact ⟨row, stored⟩
  obtain ⟨row, isRow⟩ := stored
  obtain ⟨kept, isKept, _⟩ := effect.rowid isRow
  exact ⟨kept, isKept⟩

/-- The view records a build that was started after `earlier`. -/
structure Overtaken (sidecar : Sidecar) (earlier : BuildId) (key : ViewKey) : Prop where
  keyed : sidecar.Keyed
  overtaken : ∃ view row recorded, sidecar.publishedViews.get? key = some view ∧
    sidecar.indexBuilds.get? earlier = some row ∧ sidecar.indexBuilds.get? view.buildId = some recorded ∧
    row.rowid < recorded.rowid

namespace Overtaken

variable {earlier : BuildId} {key : ViewKey}

/-- A view only moves to a build that was started no earlier than the one it records. -/
theorem step (inv : sidecar.Overtaken earlier key) (call : StoreCall) : (sidecar.step call).Overtaken earlier key := by
  refine step_cases inv.keyed inv fun next effect => ?_
  obtain ⟨view, row, recorded, shown, stored, isRecorded, late⟩ := inv.overtaken
  obtain ⟨kept, isKept, rowid⟩ := effect.rowid stored
  have keyed := inv.keyed.grows effect.grows
  obtain same | ⟨moved, start, isShown, started, -, -, other⟩ := effect.views key
  · obtain ⟨record, isRecord, place⟩ := effect.rowid isRecorded
    exact ⟨keyed, view, kept, record, same.trans shown, isKept, isRecord, by omega⟩
  · obtain ⟨record, isRecord, place⟩ := effect.rowid started
    have inOrder := (other view shown).2 recorded isRecorded
    exact ⟨keyed, moved, kept, record, isShown, isKept, isRecord, by omega⟩

/-- The overtaken build does not move the view. -/
theorem unchanged (inv : sidecar.Overtaken earlier key) (request : PublishRequest)
    (isEarlier : request.buildId = earlier) :
    (sidecar.step (.publish request)).publishedViews.get? key = sidecar.publishedViews.get? key := by
  obtain ⟨view, row, recorded, shown, stored, isRecorded, late⟩ := inv.overtaken
  refine step_cases inv.keyed rfl fun next effect => ?_
  refine (effect.views key).resolve_right ?_
  -- The move would need a start no earlier than the recorded one.
  rintro ⟨moved, start, -, started, isBuild, -, other⟩
  have inOrder := (other view shown).2 recorded isRecorded
  rw [isBuild request rfl, isEarlier, stored] at started
  cases started
  omega

end Overtaken

/-- The publication does not merely confirm a snapshot that the view records for a build started before it. -/
def recordsStart (sidecar : Sidecar) (request : PublishRequest) : Bool :=
  match sidecar.loadPublishedView request.repository request.viewName,
      sidecar.indexBuilds.get? request.buildId with
  | some current, some row =>
      current.snapshotId ≠ row.prospectiveSnapshotId || !sidecar.startedBefore current.buildId request.buildId
  | _, _ => true

theorem overtaken_of_published {view : PublishedView} {earlier : BuildId}
    (ordered : sidecar.Ordered earlier request.buildId) (recorded : sidecar.Recorded)
    (published : sidecar.publish request = .ok (next, .published view))
    (records : sidecar.recordsStart request = true) :
    next.Overtaken earlier (request.repository.viewKey request.viewName) := by
  obtain ⟨first, isFirst⟩ := ordered.started
  cases (publish_ok ordered.keyed published).2.1 with
  | confirm current row shown stored same =>
    obtain ⟨record, isRecord⟩ := recorded _ current shown
    have before := ordered.after first row isFirst stored
    have inOrder : row.rowid ≤ record.rowid := by
      simpa [recordsStart, shown, stored, same, startedBefore, isRecord] using records
    exact ⟨ordered.keyed, current, first, record, shown, isFirst, isRecord, by omega⟩
  | move row generation stored _ _ _ _ builds snapshots views =>
    have before := ordered.after first row isFirst stored
    have different : earlier ≠ request.buildId := by
      rintro rfl
      rw [some.inj (isFirst.symm.trans stored)] at before
      omega
    refine ⟨ordered.keyed.grows (.of_eq snapshots), ⟨row.prospectiveSnapshotId, request.buildId, generation⟩, first,
      row.mark .published, ?_, ?_, ?_, before⟩
    · rw [views, get?_put, if_pos rfl]
    · rw [builds, get?_modify, if_neg different, isFirst]
    · rw [builds, get?_modify_self, stored]
      rfl

theorem keyed_run (calls : List StoreCall) : (run step {} calls).Keyed ∧ (run step {} calls).Recorded :=
  Machine.run_invariant (fun sidecar : Sidecar => sidecar.Keyed ∧ sidecar.Recorded)
    ⟨PointersHold.empty.keyed, fun _ _ found => by cases found⟩
    (fun _ call inv => ⟨inv.1.step call, inv.2.step inv.1 call⟩) calls

/-- Once a build has been published to a view, other than by confirming what the view records for a build started
before it, no build that was started earlier changes the view. -/
theorem latest_start_wins (first second third : List StoreCall) (earlier : BuildId) (request : PublishRequest)
    (view : PublishedView) (next : Sidecar) (started : (run step {} first).indexBuilds.get? earlier ≠ none)
    (unstarted : (run step {} first).indexBuilds.get? request.buildId = none)
    (published : (run step {} (first ++ second)).publish request = .ok (next, .published view))
    (records : (run step {} (first ++ second)).recordsStart request = true) :
    EveryStep step (fun before call after => ∀ other, call = .publish other → other.buildId = earlier →
      after.loadPublishedView request.repository request.viewName =
        before.loadPublishedView request.repository request.viewName) next third := by
  obtain ⟨keyed, _⟩ := keyed_run first
  obtain ⟨_, recorded⟩ := keyed_run (first ++ second)
  have start : (run step {} first).Ordered earlier request.buildId := by
    refine ⟨keyed, ne_none_iff_exists'.mp started, ?_⟩
    intro row other _ isOther
    rw [unstarted] at isOther
    cases isOther
  have ordered := Machine.run_invariant (fun sidecar : Sidecar => sidecar.Ordered earlier request.buildId) start
    (fun _ call inv => inv.step call) second
  rw [← run_append] at ordered
  have overtaken := overtaken_of_published ordered recorded published records
  have kept : ∀ (sidecar : Sidecar) call, sidecar.Overtaken earlier (request.repository.viewKey request.viewName) →
      (sidecar.step call).Overtaken earlier (request.repository.viewKey request.viewName) :=
    fun _ call inv => inv.step call
  refine EveryStep.of_preserved ?_ kept ?_ third
  · exact overtaken
  · rintro sidecar call inv other rfl isEarlier
    exact inv.unchanged other isEarlier

end Sidecar

/-! ### Builds for the runs below -/

def exampleRepository : RepositoryRef := ⟨"local", "root"⟩

/-- A snapshot whose identity differs by its model version. -/
def exampleSnapshot (id : SnapshotId) (version : Nat) (build : BuildId) : GraphSnapshot :=
  ⟨id, exampleRepository, "revision-1", Runtime.firstTree, version, Runtime.firstTree, Runtime.firstTree, build⟩

/-- Start and complete a build. -/
def buildCalls (build : BuildId) (id : SnapshotId) (version : Nat) : List StoreCall :=
  [.startBuild ⟨build, exampleRepository, "revision-1", id, .building⟩,
    .completeBuild (exampleSnapshot id version build)]

def publishCall (build : BuildId) (view : PublishedViewName) (expected : Option PublicationVersion) : StoreCall :=
  .publish ⟨exampleRepository, view, build, expected⟩

/-- Two builds move one view in turn. -/
theorem publications_point_inTurn : EveryStep step Sidecar.PublicationLaw {}
      (buildCalls "b-1" "s-1" 1 ++ [publishCall "b-1" "canonical" none] ++ buildCalls "b-2" "s-2" 2 ++
        [publishCall "b-2" "canonical" (some ⟨"s-1", 1⟩)]) :=
  publications_point _ (by decide +kernel)

/-- A build that one view points to is offered to another view that shows a later build. It is marked as
superseded although the first view still points to it. -/
theorem not_publications_point_otherView : ¬ EveryStep step Sidecar.PublicationLaw {}
      (buildCalls "b-1" "s-1" 1 ++ [publishCall "b-1" "canonical" none] ++ buildCalls "b-2" "s-2" 2 ++
        [publishCall "b-2" "task" none, publishCall "b-1" "task" (some ⟨"s-2", 1⟩)]) := by
  intro law
  rw [← List.append_cons, List.append_cons] at law
  have last := (EveryStep.append_iff.mp law).2.1
  obtain ⟨_, build, isBuild, published, _⟩ :=
    last.pointers (exampleRepository.viewKey "canonical") ⟨"s-1", "b-1", 1⟩ (by decide +kernel)
  have superseded : build.state = .superseded := by
    have row : build = ⟨1, exampleRepository, "revision-1", "s-1", .superseded, true, none⟩ :=
      some.inj (isBuild.symm.trans (by decide +kernel))
    rw [row]
  rw [superseded] at published
  cases published

/-- Two builds are started in turn, the second is published and the first comes too late. -/
theorem latest_start_wins_inTurn :
    EveryStep step (fun before call after => ∀ other, call = .publish other → other.buildId = "b-1" →
      after.loadPublishedView exampleRepository "canonical" = before.loadPublishedView exampleRepository "canonical")
      ((run step {} (buildCalls "b-1" "s-1" 1 ++ buildCalls "b-2" "s-2" 2)).step
        (publishCall "b-2" "canonical" none))
      [publishCall "b-1" "canonical" (some ⟨"s-2", 1⟩)] :=
  latest_start_wins (buildCalls "b-1" "s-1" 1) (buildCalls "b-2" "s-2" 2) _ "b-1"
    ⟨exampleRepository, "canonical", "b-2", none⟩ ⟨exampleRepository, "canonical", "s-2", "b-2", 1⟩ _
    (by decide +kernel) (by decide +kernel) rfl (by decide +kernel)

/-- `b-3` confirms the snapshot that the view records for `b-1`, and `b-2` is published after it although it was
started before it. -/
theorem not_latest_start_wins_confirmed : ∃ first second third earlier request view next,
      (run step {} first).indexBuilds.get? earlier ≠ none ∧
      (run step {} first).indexBuilds.get? request.buildId = none ∧
      (run step {} (first ++ second)).publish request = .ok (next, .published view) ∧
      ¬ EveryStep step (fun before call after => ∀ other, call = .publish other → other.buildId = earlier →
        after.loadPublishedView request.repository request.viewName =
          before.loadPublishedView request.repository request.viewName) next third := by
  refine ⟨buildCalls "b-1" "s-1" 1 ++ [publishCall "b-1" "canonical" none] ++ buildCalls "b-2" "s-2" 2,
    buildCalls "b-3" "s-1" 1, [publishCall "b-2" "canonical" (some ⟨"s-1", 1⟩)], "b-2",
    ⟨exampleRepository, "canonical", "b-3", some ⟨"s-1", 1⟩⟩, ⟨exampleRepository, "canonical", "s-1", "b-1", 1⟩, _,
    by decide +kernel, by decide +kernel, rfl, ?_⟩
  intro unchanged
  exact absurd (unchanged.1 _ rfl rfl) (by decide +kernel)

end Ferrus.RepositoryGraph

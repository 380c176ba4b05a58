import Ferrus.Soundness.LeaseFencing

/-! # Publication as compare-and-swap

A view moves only to another target, by the publisher that has seen its last version, and then its
generation grows by one. Revisions are kept as they were stored. The receipt of a job stands for its one
publication and answers every repetition of the request.
-/

namespace Ferrus.Distributed

open Ferrus.Machine RemoteStores ControlDatabase Option PublicationTables

/-- The key of another name in the same scope. -/
def ScopedKey.withName (key : ScopedKey) (name : String) : ScopedKey :=
  toLex (ScopedKey.project key, toLex (ScopedKey.domain key, toLex (ScopedKey.repositoryId key, name)))

namespace PublicationTables

/-- A view stays, or it moves to another target and its generation grows by one. -/
def ViewsStep (old new : PublicationTables) : Prop :=
  ∀ key, new.views.get? key = old.views.get? key ∨
    ∃ row, new.views.get? key = some row ∧ (old.views.get? key).map (·.targetId) ≠ some row.targetId ∧
      row.generation = ((old.views.get? key).map (·.generation)).getD 0 + 1

/-- Every view points to a stored revision that is marked published. -/
def ViewsPublished (tables : PublicationTables) : Prop :=
  ∀ key row, tables.views.get? key = some row →
    (tables.revisions.get? (ScopedKey.withName key row.targetId)).isSome = true ∧
      (tables.publishedTargets.get? (ScopedKey.withName key row.targetId)).isSome = true

end PublicationTables

variable {codec : StoreCodec} {stores next : RemoteStores} {request : ClientRequest} {reply : ClientReply}
  {asked : PublicationRequest} {outcome : PublicationOutcome} {limits : RemoteStoreLimits} {now : Int}
  {db : RemoteDatabase}

/-! ## One publication -/

theorem SwapsView.viewsStep {old new : PublicationTables} (swaps : SwapsView asked old new outcome) :
    old.ViewsStep new := by
  intro key
  cases swaps with
  | superseded _ same | unchanged _ _ _ same => exact .inl (by rw [same])
  | moved _ other put =>
    rw [put, Table.get?_put]
    split_ifs with isView
    · subst isView
      refine .inr ⟨_, rfl, fun same => ?_, ?_⟩
      · obtain ⟨row, stored, isTarget⟩ := map_eq_some_iff.mp same
        exact other _ (by rw [view?, stored, map_some]) isTarget
      · rw [view?, nextViewGeneration, map_map]
        rfl
    · exact .inl rfl

/-- A view that a publication moves points to what it has stored and marked. -/
theorem Publishes.viewsPublished {after : RemoteDatabase}
    (publishes : Publishes codec.toPublicationCodec limits asked now db after outcome)
    (before : db.publications.ViewsPublished) : after.publications.ViewsPublished := by
  intro key row found
  have kept (stored : db.publications.views.get? key = some row) :=
    (before key row stored).imp publishes.grows.revisions.isSome publishes.grows.publishedTargets.isSome
  cases publishes.swapped with
  | superseded _ same | unchanged _ _ _ same =>
    rw [same] at found
    exact kept found
  | moved _ _ put =>
    rw [put, Table.get?_put] at found
    split_ifs at found with isView
    · subst isView
      cases found
      exact ⟨publishes.stored, publishes.marked ⟨_, _, rfl⟩⟩
    · exact kept found

/-- A publication completes its job. -/
theorem Publishes.completes {after : RemoteDatabase}
    (publishes : Publishes codec.toPublicationCodec limits asked now db after outcome) :
    ∃ row, after.control.job? asked.lease.job.key = some row ∧ row.state = .complete := by
  obtain ⟨spec, authority⟩ := publishes.authority
  obtain ⟨_, row, found, _, _, publishable, _⟩ := requirePublicationAuthority_eq_ok_iff.mp authority
  rw [completeJob_ok publishes.completed, job?_updateJobs, found, map_some, publishable]
  simp

/-! ## Requests -/

section

variable (serves : Serves codec stores request next reply)

include serves

theorem Serves.viewsStep : stores.database.publications.ViewsStep next.database.publications := by
  cases serves with
  | published _ _ publishes => exact publishes.swapped.viewsStep
  | coordinated | factsPut | replayed | objectPut | objectsPut => exact fun _ => .inl rfl

theorem Serves.viewsPublished (before : stores.database.publications.ViewsPublished) :
    next.database.publications.ViewsPublished := by
  cases serves with
  | published _ _ publishes => exact publishes.viewsPublished before
  | coordinated | factsPut | replayed | objectPut | objectsPut => exact before

/-- Revisions and receipts stay. -/
theorem Serves.extends : stores.database.publications.revisions.Extends next.database.publications.revisions ∧
      stores.database.publications.receipts.Extends next.database.publications.receipts := by
  cases serves with
  | published _ _ publishes =>
    refine ⟨publishes.grows.revisions, ?_⟩
    rw [publishes.recorded]
    exact .insertNew _ _ _
  | coordinated | factsPut | replayed | objectPut | objectsPut => exact ⟨.refl _, .refl _⟩

end

/-- The receipt of a completed job answers the request. -/
def RemoteStores.Answers (codec : StoreCodec) (stores : RemoteStores) (asked : PublicationRequest)
    (outcome : PublicationOutcome) : Prop :=
  asked.isValid = true ∧
    (∃ row, stores.database.control.job? asked.lease.job.key = some row ∧ row.state = .complete) ∧
    ∃ receipt, stores.database.publications.receipts.get? asked.lease.job.key = some receipt ∧
      receipt.target = asked.targetKey ∧ receipt.requestDigest = codec.publicationDigest asked ∧
        receipt.outcome = outcome

private theorem replayPublication_eq_ok_some_iff :
    db.replayPublication codec.toPublicationCodec asked = .ok (some outcome) ↔
      db.control.hasDeletionTombstone asked.lease.job.project = false ∧
      (∃ row, db.control.job? asked.lease.job.key = some row ∧ row.state = .complete) ∧
      ∃ receipt, db.publications.receipts.get? asked.lease.job.key = some receipt ∧
        receipt.target = asked.targetKey ∧ receipt.requestDigest = codec.publicationDigest asked ∧
        receipt.outcome = outcome := by
  unfold RemoteDatabase.replayPublication state?
  split_ifs with tombstone complete
  · simp [tombstone]
  · simp only [map_eq_some_iff] at complete
    simp only [Except.ok.injEq, map_eq_some_iff, filter_eq_some_iff, Bool.and_eq_true, decide_eq_true_eq,
      and_assoc, complete, true_and]
    simp [tombstone]
  · simp only [map_eq_some_iff] at complete
    simp [complete]

/-- The outcome of an answered publication stands in the receipt of its job. -/
private theorem serve_answers (asks : request.publication? = some (limits, asked, now))
    (served : stores.serve codec request = .ok (next, .publication outcome)) : next.Answers codec asked outcome := by
  cases serve_serves served with
  | replayed other valid replays =>
    cases asks.symm.trans other
    obtain ⟨_, complete, receipt⟩ := replayPublication_eq_ok_some_iff.mp replays
    exact ⟨valid, complete, receipt⟩
  | published other valid publishes =>
    cases asks.symm.trans other
    refine ⟨valid, publishes.completes, ?_⟩
    rw [publishes.recorded, Table.get?_insertNew, if_pos rfl, publishes.unrecorded]
    exact ⟨_, rfl, rfl, rfl, rfl⟩

theorem Serves.answers (serves : Serves codec stores request next reply)
    (answers : stores.Answers codec asked outcome) : next.Answers codec asked outcome := by
  obtain ⟨valid, ⟨row, found, complete⟩, receipt, stored, isReceipt⟩ := answers
  exact ⟨valid, ⟨row, serves.finished found (by rw [complete]; rfl), complete⟩, receipt,
    serves.extends.2 _ _ stored, isReceipt⟩

/-! ## Publishers that have seen another version -/

variable (expected : Option PublicationVersion)

/-- The same publication by a publisher that has seen another version. -/
def ClientRequest.withExpected : ClientRequest → ClientRequest
  | publishGraph limits request batches now => publishGraph limits { request with expected } batches now
  | publishMemory limits request batches now => publishMemory limits { request with expected } batches now
  | coordinate call => coordinate call
  | putFacts quota batch authority now => putFacts quota batch authority now
  | putObject quota project object => putObject quota project object
  | putObjects quota project objects => putObjects quota project objects

/-- What the expected version is worth, in a state of the stores. -/
structure RemoteStores.ComparesVersions (codec : StoreCodec) (stores : RemoteStores) : Prop where
  /-- A publisher that has seen another version leaves the views, and its outcome says so unless it repeats one. -/
  stale : ∀ request limits asked now, request.publication? = some (limits, asked, now) →
    expectedMatches asked.expected (stores.database.publications.view? asked) = false →
      (stores.afterRequest codec request).database.publications.views = stores.database.publications.views ∧
        ∀ next outcome, stores.serve codec request = .ok (next, .publication outcome) →
          outcome = .superseded (stores.database.publications.view? asked) ∨
            stores.database.replayPublication codec.toPublicationCodec asked = .ok (some outcome)
  /-- Whoever would publish at one version is superseded at every other. -/
  superseded : ∀ request limits asked now next outcome expected, request.publication? = some (limits, asked, now) →
    stores.database.replayPublication codec.toPublicationCodec asked = .ok none →
    stores.serve codec request = .ok (next, .publication outcome) →
    expectedMatches expected (stores.database.publications.view? asked) = false →
      ∃ after, stores.serve codec (request.withExpected expected) =
          .ok (after, .publication (.superseded (stores.database.publications.view? asked))) ∧
        after.database.publications.views = stores.database.publications.views

theorem SwapsView.of_stale {old new : PublicationTables} (swaps : SwapsView asked old new outcome)
    (stale : expectedMatches asked.expected (old.view? asked) = false) :
    outcome = .superseded (old.view? asked) ∧ new.views = old.views := by
  cases swaps with
  | superseded _ same => exact ⟨rfl, same⟩
  | unchanged fresh | moved fresh =>
    rw [stale] at fresh
    cases fresh

private theorem comparesVersions (codec : StoreCodec) (stores : RemoteStores) : stores.ComparesVersions codec where
  stale := by
    intro request limits asked now asks stale
    constructor
    · refine afterRequest_of_serves rfl ?_
      intro next reply serves
      cases serves with
      | published other _ publishes =>
        cases asks.symm.trans other
        exact (publishes.swapped.of_stale stale).2
      | coordinated | factsPut | replayed | objectPut | objectsPut => rfl
    · intro next outcome served
      cases serve_serves served with
      | replayed other _ replays =>
        cases asks.symm.trans other
        exact .inr replays
      | published other _ publishes =>
        cases asks.symm.trans other
        exact .inl (publishes.swapped.of_stale stale).1
  superseded := by
    intro request limits asked now next outcome expected asks fresh served stale
    cases request with
    | publishGraph limits graph batches now =>
      cases asks
      simp only [serve] at served
      split at served
      · next published =>
        cases served
        obtain ⟨after, supersedes, same⟩ := publishGraph_superseded fresh published stale
        refine ⟨{ stores with database := after }, ?_, same⟩
        simp only [ClientRequest.withExpected, serve, supersedes]
      · cases served
    | publishMemory limits memory batches now =>
      cases asks
      simp only [serve] at served
      split at served
      · next published =>
        cases served
        obtain ⟨after, supersedes, same⟩ := publishMemory_superseded fresh published stale
        refine ⟨{ stores with database := after }, ?_, same⟩
        simp only [ClientRequest.withExpected, serve, supersedes]
      · cases served
    | coordinate | putFacts | putObject | putObjects => cases asks

/-! ## Whole runs -/

private theorem requestStep_of_serves {P : RemoteStores → Prop} (request : UtcRequest) (kept : P stores)
    (served : ∀ next reply, Serves codec stores request.1 next reply → P next) :
    P (requestStep codec stores request) := by
  unfold requestStep
  exact afterRequest_of_serves kept served

section

variable (answers : stores.Answers codec asked outcome)

include answers

/-- A job that has a receipt is not published again. -/
theorem RemoteStores.Answers.kept {other : PublicationRequest}
    (asks : request.publication? = some (limits, other, now))
    (sameJob : other.lease.job.key = asked.lease.job.key) : stores.afterRequest codec request = stores := by
  obtain ⟨_, _, receipt, stored, _⟩ := answers
  rcases afterRequest_cases codec stores request with ⟨reply, serves⟩ | same
  · generalize stores.afterRequest codec request = after at serves ⊢
    cases serves with
    | replayed => rfl
    | published otherAsks _ publishes =>
      cases asks.symm.trans otherAsks
      have unrecorded := publishes.unrecorded
      rw [sameJob, stored] at unrecorded
      cases unrecorded
    | coordinated | factsPut | objectPut | objectsPut => cases asks
  · exact same

/-- The same request is answered as it was. -/
theorem RemoteStores.Answers.serve
    (undeleted : stores.database.control.tombstones = .empty)
    (asks : request.publication? = some (limits, asked, now)) :
    stores.serve codec request = .ok (stores, .publication outcome) := by
  obtain ⟨valid, complete, receipt⟩ := answers
  have alive : stores.database.control.hasDeletionTombstone asked.lease.job.project = false := by
    rw [hasDeletionTombstone, undeleted]
    rfl
  have replays := replayPublication_eq_ok_some_iff.mpr ⟨alive, complete, receipt⟩
  cases request with
  | publishGraph limits graph batches now =>
    cases asks
    rw [serve, publishGraph_eq_ok_iff.mpr ⟨valid, .inr ⟨_, replays, rfl⟩⟩]
  | publishMemory limits memory batches now =>
    cases asks
    rw [serve, publishMemory_eq_ok_iff.mpr ⟨valid, .inr ⟨_, replays, rfl⟩⟩]
  | coordinate | putFacts | putObject | putObjects => cases asks

/-- What a publication has left stays through every later request. -/
theorem RemoteStores.Answers.through (requests : List UtcRequest) :
    (run (requestStep codec) stores requests).Answers codec asked outcome :=
  run_invariant (fun stores : RemoteStores => stores.Answers codec asked outcome) answers
    (fun _ request before => requestStep_of_serves request before (fun _ _ serves => serves.answers before)) requests

end

/-- Publications compare and swap: in every run a view moves only to another target and its generation grows by one,
it points to a published revision, and stored revisions stay. A publisher that has seen another version is superseded.
An answered publication is the only one of its job, and its request is answered the same ever after. -/
theorem publications_swap (codec : StoreCodec) (requests : List UtcRequest) : EveryStep (requestStep codec)
      (fun source _ target => source.database.publications.ViewsStep target.database.publications) .empty requests ∧
    (run (requestStep codec) .empty requests).database.publications.ViewsPublished ∧
    (run (requestStep codec) .empty requests).ComparesVersions codec ∧
    (∀ later, (run (requestStep codec) .empty requests).database.publications.revisions.Extends
      (run (requestStep codec) .empty (requests ++ later)).database.publications.revisions) ∧
    ∀ (first : UtcRequest) (later : List UtcRequest) limits asked now next outcome,
      first.1.publication? = some (limits, asked, now) →
      (run (requestStep codec) .empty requests).serve codec first.1 = .ok (next, .publication outcome) →
        (∀ (second : ClientRequest) limits other now, second.publication? = some (limits, other, now) →
          other.lease.job.key = asked.lease.job.key →
          (run (requestStep codec) .empty (requests ++ first :: later)).afterRequest codec second =
            run (requestStep codec) .empty (requests ++ first :: later)) ∧
        ∀ (second : ClientRequest) limits now, second.publication? = some (limits, asked, now) →
          (run (requestStep codec) .empty (requests ++ first :: later)).serve codec second =
            .ok (run (requestStep codec) .empty (requests ++ first :: later), .publication outcome) := by
  refine ⟨?_, ?_, comparesVersions codec _, ?_, ?_⟩
  · exact EveryStep.of_forall (fun source request =>
      requestStep_of_serves request (fun _ => .inl rfl) (fun _ _ serves => serves.viewsStep)) _ _
  · refine run_invariant (fun stores : RemoteStores => stores.database.publications.ViewsPublished) ?_
      (fun _ request before => requestStep_of_serves request before (fun _ _ serves => serves.viewsPublished before)) _
    intro key row found
    cases found
  · intro later
    rw [run_append]
    exact run_invariant (fun after : RemoteStores => Table.Extends _ after.database.publications.revisions) (.refl _)
      (fun _ request before => requestStep_of_serves request before
        (fun _ _ serves => before.trans serves.extends.1)) later
  · intro first later limits asked now next outcome asks served
    have answers : (run (requestStep codec) .empty (requests ++ first :: later)).Answers codec asked outcome := by
      rw [run_append, run_cons]
      refine RemoteStores.Answers.through ?_ later
      rw [requestStep, afterRequest, served]
      exact serve_answers asks served
    have undeleted := (undeleted_run codec (requests ++ first :: later)).2
    exact ⟨fun second _ other _ otherAsks sameJob => answers.kept otherAsks sameJob,
      fun second _ _ sameAsks => answers.serve undeleted sameAsks⟩

def exampleRepository : RemoteRepositoryRef := ⟨exampleProject, "repository-a"⟩

/-- The one batch of a graph without nodes. -/
def exampleBatch : FactBatch :=
  .identified exampleCodec.toBatchCodec exampleJob
    (.repositoryGraph ⟨exampleRepository, "snapshot-a"⟩ "identity-a" "build-a")
    "repository-all" 0 "extractors-1" true (.repositoryGraph [] [] [])

def exampleStoreLimits : RemoteStoreLimits := ⟨10, 100, 1000, 100, 100⟩

def examplePublish (now : Int) : ClientRequest :=
  .publishGraph exampleStoreLimits
    ⟨controlProtocolVersion, exampleJob, "worker-1", 1, exampleRepository, "main", "snapshot-a", expected⟩
    [exampleBatch] now

/-- The job is claimed and brought to its publication. -/
def publishingRequests : List UtcRequest :=
  [exampleSubmit, ⟨claimBy "worker-1" (atSecond 1), by decide⟩,
    ⟨.coordinate (.start exampleAdvance (atSecond 2)), by decide⟩,
    ⟨.coordinate (.beginPublication exampleAdvance (atSecond 3)), by decide⟩]

def exampleView : PublishedRemoteView := ⟨exampleProject, "repository-a", "main", "snapshot-a", exampleJob, 1⟩

/-- The first publication makes the view, and its repetition an hour later has the same outcome. -/
theorem publications_swap_repeated : (run (requestStep exampleCodec) .empty
      (publishingRequests ++ [⟨examplePublish none (atSecond 4), by decide⟩])).serve exampleCodec
        (examplePublish none (atSecond 3600)) =
      .ok (run (requestStep exampleCodec) .empty
        (publishingRequests ++ [⟨examplePublish none (atSecond 4), by decide⟩]),
        .publication (.published exampleView false)) := by
  have served : (run (requestStep exampleCodec) .empty publishingRequests).serve exampleCodec
      (examplePublish none (atSecond 4)) =
      .ok ((run (requestStep exampleCodec) .empty publishingRequests).afterRequest exampleCodec
        (examplePublish none (atSecond 4)), .publication (.published exampleView false)) := by decide
  obtain ⟨_, _, _, _, once⟩ := publications_swap exampleCodec publishingRequests
  exact (once ⟨examplePublish none (atSecond 4), by decide⟩ [] _ _ _ _ _ rfl served).2 _ _ _ rfl

end Ferrus.Distributed

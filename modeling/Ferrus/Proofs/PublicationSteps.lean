import Ferrus.Proofs.FactMerging
import Ferrus.Proofs.JobRows
import Ferrus.Model.Distributed.PublicationStore

/-! # What a publication does

A publication that is answered either repeats an earlier outcome or writes once: `Publishes` says what is
then in each table. Both kinds of publications are brought under it here, and what holds of every
publication follows from it.
-/

namespace Ferrus.Distributed

open RemoteDatabase PublicationTables Except

variable {codec : PublicationCodec} {limits : RemoteStoreLimits} {now : Int} {tables next : PublicationTables}
  {facts : List StoredFact} {reused : Bool} {outcome : PublicationOutcome} {db : RemoteDatabase}

/-! ## The tables -/

/-- The revisions are as before, or one of the project is new and fits the quota. -/
inductive Admits (limits : RemoteStoreLimits) (project : ProjectKey) (old : PublicationTables) :
    PublicationTables → Prop
  | kept {new : PublicationTables} (same : new.revisions = old.revisions) : Admits limits project old new
  | inserted {new : PublicationTables} {key : ScopedKey} {row : RevisionRow}
      (scope : ScopedKey.project key = project)
      (placed : ∃ domain, ScopedKey.domain key = PublicationDomain.column domain)
      (absent : old.revisions.get? key = none)
      (fits : old.withinQuota limits project row.facts = true)
      (same : new.revisions = old.revisions.insertNew key row) : Admits limits project old new

variable {project : ProjectKey}

theorem Admits.of_revisions {old new other : PublicationTables} (admits : Admits limits project old new)
    (same : other.revisions = new.revisions) : Admits limits project old other := by
  cases admits with
  | kept kept => exact .kept (same.trans kept)
  | inserted scope placed absent fits inserted => exact .inserted scope placed absent fits (same.trans inserted)

/-- What is immutable stays, whatever else is written. -/
structure PublicationTables.Grows (old new : PublicationTables) : Prop where
  revisions : old.revisions.Extends new.revisions
  snapshotMetadata : old.snapshotMetadata.Extends new.snapshotMetadata
  publishedTargets : old.publishedTargets.Extends new.publishedTargets
  linkSets : old.linkSets.Extends new.linkSets

theorem PublicationTables.Grows.refl (tables : PublicationTables) : tables.Grows tables :=
  ⟨.refl _, .refl _, .refl _, .refl _⟩

variable {last : PublicationTables}

theorem PublicationTables.Grows.trans {first middle : PublicationTables} (left : first.Grows middle)
    (right : middle.Grows last) : first.Grows last :=
  ⟨left.revisions.trans right.revisions, left.snapshotMetadata.trans right.snapshotMetadata,
    left.publishedTargets.trans right.publishedTargets, left.linkSets.trans right.linkSets⟩

/-- An insertion writes neither views nor receipts. -/
structure Inserts (limits : RemoteStoreLimits) (project : ProjectKey) (old new : PublicationTables) : Prop where
  admits : Admits limits project old new
  grows : old.Grows new
  views : new.views = old.views
  receipts : new.receipts = old.receipts
  publishedTargets : new.publishedTargets = old.publishedTargets

private theorem insertRevision_inserts {prepared : PreparedRevision}
    (inserted : tables.insertRevision limits prepared facts now = .ok (next, reused)) :
    Inserts limits prepared.project.key tables next ∧ (next.revisions.get? prepared.key).isSome = true := by
  unfold insertRevision at inserted
  split at inserted
  · next existing stored =>
    split_ifs at inserted
    cases inserted
    exact ⟨⟨.kept rfl, .refl _, rfl, rfl, rfl⟩, by rw [stored]; rfl⟩
  · next absent =>
    split_ifs at inserted with fits
    cases inserted
    refine ⟨⟨.inserted rfl ⟨_, rfl⟩ absent fits rfl, ⟨.insertNew _ _ _, .refl _, .refl _, .refl _⟩, rfl, rfl, rfl⟩, ?_⟩
    rw [Table.get?_insertNew, if_pos rfl]
    rfl

variable {prepared : PreparedGraph}

private theorem insertGraphSnapshot_inserts
    (inserted : tables.insertGraphSnapshot limits prepared facts now = .ok (next, reused)) :
    Inserts limits prepared.revision.project.key tables next ∧
      (next.revisions.get? prepared.revision.key).isSome = true := by
  obtain ⟨⟨middle, _⟩, revision, inserted⟩ := bind_eq_ok_iff.mp inserted
  obtain ⟨inserts, stored⟩ := insertRevision_inserts revision
  dsimp only at inserted
  split at inserted
  · split_ifs at inserted
    cases inserted
    exact ⟨inserts, stored⟩
  · cases inserted
    obtain ⟨admits, grows, views, receipts, targets⟩ := inserts
    exact ⟨⟨admits.of_revisions rfl, grows.trans ⟨.refl _, .insertNew _ _ _, .refl _, .refl _⟩, views, receipts,
      targets⟩, stored⟩

private theorem insertMemoryRepositoryLinks_inserts {project : RemoteProjectRef} {links : PreparedMemoryRepositoryLinks}
    (inserted : tables.insertMemoryRepositoryLinks limits project links facts now = .ok next) :
    Inserts limits links.revision.project.key tables next := by
  obtain ⟨⟨middle, _⟩, revision, inserted⟩ := bind_eq_ok_iff.mp inserted
  obtain ⟨inserts, _⟩ := insertRevision_inserts revision
  dsimp only at inserted
  split at inserted
  · cases inserted
  · split_ifs at inserted
    cases inserted
    exact inserts
  · split_ifs at inserted
    cases inserted
    obtain ⟨admits, grows, views, receipts, targets⟩ := inserts
    exact ⟨admits.of_revisions rfl, grows.trans ⟨.refl _, .refl _, .refl _, .insertNew _ _ _⟩, views, receipts, targets⟩

/-! ## The view -/

/-- The generation that a view gets when it moves. -/
def nextViewGeneration (actual : Option PublishedRemoteView) : Nat := (actual.map (·.generation)).getD 0 + 1

/-- What a publication does to the view that it names, and how it is answered. -/
inductive SwapsView (request : PublicationRequest) (old new : PublicationTables) : PublicationOutcome → Prop
  | superseded (stale : expectedMatches request.expected (old.view? request) = false)
      (same : new.views = old.views) : SwapsView request old new (.superseded (old.view? request))
  | unchanged {current : PublishedRemoteView}
      (fresh : expectedMatches request.expected (old.view? request) = true)
      (found : old.view? request = some current) (target : current.targetId = request.targetId)
      (same : new.views = old.views) : SwapsView request old new (.published current true)
  | moved {reused : Bool}
      (fresh : expectedMatches request.expected (old.view? request) = true)
      (other : ∀ current, old.view? request = some current → current.targetId ≠ request.targetId)
      (put : new.views = old.views.put request.viewKey
        ⟨request.targetId, request.lease.job.jobId, nextViewGeneration (old.view? request)⟩) :
      SwapsView request old new (.published {
        project := request.project, repositoryId := request.repositoryId, viewName := request.viewName
        targetId := request.targetId, job := request.lease.job
        generation := nextViewGeneration (old.view? request) } reused)

variable {request : PublicationRequest}

/-- The swap reads and writes the views only. -/
private theorem swapView_swaps (swapped : tables.swapView request reused = .ok (next, outcome)) :
    SwapsView request tables next outcome ∧ next = { tables with views := next.views } := by
  unfold swapView at swapped
  dsimp only at swapped
  split at swapped
  · next stale =>
    cases swapped
    exact ⟨.superseded (by simpa using stale) rfl, rfl⟩
  · next fresh =>
    have isFresh : expectedMatches request.expected (tables.view? request) = true := by
      simpa using fresh
    split at swapped
    · next current found =>
      cases swapped
      obtain ⟨isCurrent, target⟩ := Option.filter_eq_some_iff.mp found
      exact ⟨.unchanged isFresh isCurrent (of_decide_eq_true target) rfl, rfl⟩
    · next absent =>
      split_ifs at swapped
      cases swapped
      refine ⟨.moved isFresh (fun current found same => ?_) rfl, rfl⟩
      rw [found] at absent
      simp [Option.filter, same] at absent

theorem SwapsView.congr {old new other : PublicationTables}
    (swaps : SwapsView request old new outcome) (before : other.views = old.views)
    (after : last.views = new.views) : SwapsView request other last outcome := by
  have sameView : old.view? request = other.view? request := by
    unfold view?
    rw [before]
  cases swaps with
  | superseded stale same =>
    rw [sameView] at stale ⊢
    exact .superseded stale (after.trans (same.trans before.symm))
  | unchanged fresh found target same =>
    rw [sameView] at fresh found
    exact .unchanged fresh found target (after.trans (same.trans before.symm))
  | moved fresh different put =>
    rw [sameView] at fresh different put ⊢
    rw [← before] at put
    exact .moved fresh different (after.trans put)

/-! ## The whole publication -/

/-- Both kinds of requests are validated alike. -/
def PublicationRequest.isValid (request : PublicationRequest) : Bool :=
  request.protocolVersion = controlProtocolVersion && request.lease.job.kind = request.domain.jobKind &&
    request.lease.job.project = request.project

theorem PublicationRequest.isValid.scope (valid : request.isValid = true) :
    request.lease.job.project = request.project := by
  simp only [PublicationRequest.isValid, Bool.and_eq_true, decide_eq_true_eq] at valid
  exact valid.2

/-- A job that may be published has not been completed yet. -/
private theorem replayPublication_of_authority {spec : IndexJobSpec}
    (authority : db.control.requirePublicationAuthority request.lease now = .ok spec) :
    db.replayPublication codec request = .ok none := by
  obtain ⟨alive, row, found, _, _, publishable, _⟩ := requirePublicationAuthority_eq_ok_iff.mp authority
  rw [JobRow.publishableBy_eq, Bool.and_eq_true, Bool.and_eq_true, decide_eq_true_eq] at publishable
  have publishing : db.control.state? request.lease.job.key = some .publishing := by
    rw [ControlDatabase.state?, found, Option.map_some, publishable.1.1]
  unfold replayPublication
  rw [alive, publishing]
  rfl

/-- A publication that writes. -/
structure Publishes (codec : PublicationCodec) (limits : RemoteStoreLimits) (request : PublicationRequest) (now : Int)
    (db next : RemoteDatabase) (outcome : PublicationOutcome) : Prop where
  fresh : db.replayPublication codec request = .ok none
  authority : ∃ spec, db.control.requirePublicationAuthority request.lease now = .ok spec
  completed : db.control.completeJob request.lease now = .ok next.control
  admitted : ∃ middle, Admits limits request.project.key db.publications middle ∧
    Admits limits request.project.key middle next.publications
  grows : db.publications.Grows next.publications
  stored : (next.publications.revisions.get? request.targetKey).isSome = true
  swapped : SwapsView request db.publications next.publications outcome
  marked : (∃ view reused, outcome = .published view reused) →
    (next.publications.publishedTargets.get? request.targetKey).isSome = true
  unrecorded : db.publications.receipts.get? request.lease.job.key = none
  recorded : next.publications.receipts = db.publications.receipts.insertNew request.lease.job.key
    ⟨request.targetKey, codec.publicationDigest request, outcome, timestampMillis now⟩

variable {next : RemoteDatabase} {batches : List FactBatch}

private theorem finishPublication_publishes {writeLinks : PublicationTables → Except RemoteStoreError PublicationTables}
    (fresh : db.replayPublication codec request = .ok none)
    (authority : ∃ spec, db.control.requirePublicationAuthority request.lease now = .ok spec)
    (inserts : Inserts limits request.project.key db.publications tables)
    (stored : (tables.revisions.get? request.targetKey).isSome = true)
    (links : ∀ source target, writeLinks source = .ok target → Inserts limits request.project.key source target)
    (finished : finishPublication codec db.control tables request reused writeLinks now = .ok (next, outcome)) :
    Publishes codec limits request now db next outcome := by
  simp only [finishPublication, bind_eq_ok_iff] at finished
  obtain ⟨⟨swapped, answer⟩, swaps, written, writes, recorded, records, control, completes, returned⟩ := finished
  cases returned
  obtain ⟨moves, frame⟩ := swapView_swaps swaps
  -- the links are written for a published target only
  have middle :
      Inserts limits request.project.key swapped { written with publishedTargets := swapped.publishedTargets } ∧
      swapped.publishedTargets.Extends written.publishedTargets ∧
      ((∃ view reused, answer = .published view reused) →
        (written.publishedTargets.get? request.targetKey).isSome = true) := by
    cases answer with
    | published view isReused =>
      obtain ⟨linked, linking, rfl⟩ := map_eq_ok_iff.mp writes
      obtain ⟨admits, grows, views, receipts, targets⟩ := links _ _ linking
      refine ⟨⟨admits.of_revisions rfl, ⟨grows.revisions, grows.snapshotMetadata, .refl _, grows.linkSets⟩, views,
        receipts, rfl⟩, ?_, fun _ => ?_⟩
      · rw [← targets]
        exact .insertNew _ _ _
      · change ((linked.publishedTargets.insertNew _ _).get? _).isSome = true
        rw [Table.get?_insertNew, if_pos rfl]
        rfl
    | superseded current =>
      cases writes
      exact ⟨⟨.kept rfl, .refl _, rfl, rfl, rfl⟩, .refl _, fun ⟨_, _, same⟩ => by cases same⟩
  obtain ⟨inserted, targets, marked⟩ := middle
  unfold recordPublication at records
  split_ifs at records with taken
  cases records
  have sameRevisions : swapped.revisions = tables.revisions := by rw [frame]
  have sameReceipts : written.receipts = db.publications.receipts := by
    rw [show written.receipts = swapped.receipts from inserted.receipts, frame]
    exact inserts.receipts
  have grows : db.publications.Grows written := by
    refine inserts.grows.trans ⟨?_, ?_, ?_, ?_⟩
    · rw [← sameRevisions]
      exact inserted.grows.revisions
    · rw [show tables.snapshotMetadata = swapped.snapshotMetadata by rw [frame]]
      exact inserted.grows.snapshotMetadata
    · rw [show tables.publishedTargets = swapped.publishedTargets by rw [frame]]
      exact targets
    · rw [show tables.linkSets = swapped.linkSets by rw [frame]]
      exact inserted.grows.linkSets
  refine {
    fresh, authority, completed := completes, stored := ?_, marked
    admitted := ⟨swapped, inserts.admits.of_revisions sameRevisions, inserted.admits.of_revisions rfl⟩
    grows := { grows with }
    swapped := moves.congr inserts.views.symm inserted.views
    unrecorded := ?_
    recorded := congrArg (fun receipts => Table.insertNew receipts _ _) sameReceipts }
  · exact inserted.grows.revisions.isSome (sameRevisions ▸ stored)
  · rw [← sameReceipts]
    simpa using taken

/-! ## Both kinds of publications -/

variable {maxFacts : Nat} {request : PublishGraphRequest}

/-- The prepared facts are those of the requested snapshot. -/
private theorem prepareGraph_revision (prepares : prepareGraph codec request batches maxFacts = .ok prepared) :
    prepared.revision.key = request.toRequest.targetKey ∧ prepared.revision.project = request.repository.project := by
  unfold prepareGraph at prepares
  split_ifs at prepares
  obtain ⟨facts, folded, built⟩ := bind_eq_ok_iff.mp prepares
  obtain ⟨fit, _, rfl⟩ := (GraphFacts.streamLaw codec request).foldlM_eq_ok_iff.mp folded
  split_ifs at built
  cases batches with
  | nil => cases built
  | cons batch rest =>
    obtain ⟨_, identity, buildId, isTarget, rfl⟩ := request.asksFor_iff.mp (asks_of_fits (fit batch List.mem_cons_self))
    simp only [GraphFacts.read, sourceOf, List.head?_cons, Option.map_some, isTarget] at built
    cases built
    exact ⟨rfl, rfl⟩

variable {result : RemoteDatabase × PublicationOutcome}

/-- A publication goes through all of its steps or is a repeated one. -/
theorem publishGraph_eq_ok_iff :
    db.publishGraph codec limits request batches now = .ok result ↔ request.validate = true ∧
      (db.replayPublication codec request.toRequest = .ok none ∧
          (∃ prepared, prepareGraph codec request batches limits.maxFactsPerSnapshot = .ok prepared ∧
          ∃ facts, encryptFacts codec limits.maxFactBytes prepared.revision.facts = .ok facts ∧
          ∃ spec, db.control.requirePublicationAuthority request.lease now = .ok spec ∧
          spec.asksForGraph request prepared = true ∧
          ∃ inserted, db.publications.insertGraphSnapshot limits prepared facts now = .ok inserted ∧
          finishPublication codec db.control inserted.1 request.toRequest inserted.2 .ok now = .ok result) ∨
        ∃ outcome, db.replayPublication codec request.toRequest = .ok (some outcome) ∧ (db, outcome) = result) := by
  simp only [publishGraph, guard_eq_ok_iff, bind_eq_ok_iff, Option.exists, pure, Except.pure, ok.injEq]

theorem publishGraph_cases (published : db.publishGraph codec limits request batches now = .ok (next, outcome)) :
    request.validate = true ∧ (db.replayPublication codec request.toRequest = .ok (some outcome) ∧ next = db ∨
      Publishes codec limits request.toRequest now db next outcome) := by
  obtain ⟨valid, ⟨fresh, prepared, prepares, facts, _, spec, authority, _, ⟨tables, reused⟩, inserted, finished⟩ |
    ⟨_, replays, ⟨⟩⟩⟩ := publishGraph_eq_ok_iff.mp published
  · obtain ⟨key, project⟩ := prepareGraph_revision prepares
    obtain ⟨inserts, stored⟩ := insertGraphSnapshot_inserts inserted
    rw [project] at inserts
    rw [key] at stored
    refine ⟨valid, .inr (finishPublication_publishes fresh ⟨spec, authority⟩ inserts stored ?_ finished)⟩
    rintro source target written
    cases written
    exact ⟨.kept rfl, .refl _, rfl, rfl, rfl⟩
  · exact ⟨valid, .inl ⟨replays, rfl⟩⟩

variable {request : PublishMemoryRequest}

private theorem prepareMemory_revision {prepared : PreparedMemory}
    (prepares : prepareMemory codec request batches maxFacts = .ok prepared) :
    prepared.revision.key = request.toRequest.targetKey ∧ prepared.revision.project = request.project ∧
      ∀ links ∈ prepared.repositoryLinks, links.revision.project = request.project := by
  unfold prepareMemory at prepares
  split_ifs at prepares
  obtain ⟨facts, folded, built⟩ := bind_eq_ok_iff.mp prepares
  obtain ⟨fit, _, rfl⟩ := (MemoryFacts.streamLaw codec request).foldlM_eq_ok_iff.mp folded
  split at built
  · cases built
  cases batches with
  | nil => cases built
  | cons batch rest =>
    obtain ⟨_, identity, buildId, links, isTarget, rfl⟩ :=
      request.asksFor_iff.mp (asks_of_fits (fit batch List.mem_cons_self))
    simp only [MemoryFacts.read, sourceOf, List.head?_cons, Option.map_some, isTarget] at built
    split_ifs at built
    cases built
    refine ⟨rfl, rfl, fun prepared member => ?_⟩
    obtain ⟨target, _, rfl⟩ := Option.map_eq_some_iff.mp member
    rfl

theorem publishMemory_eq_ok_iff :
    db.publishMemory codec limits request batches now = .ok result ↔ request.validate = true ∧
      (db.replayPublication codec request.toRequest = .ok none ∧
          (∃ prepared, prepareMemory codec request batches limits.maxFactsPerSnapshot = .ok prepared ∧
          ∃ links, encryptLinks codec limits prepared.repositoryLinks = .ok links ∧
          ∃ facts, encryptFacts codec limits.maxFactBytes prepared.revision.facts = .ok facts ∧
          ∃ spec, db.control.requirePublicationAuthority request.lease now = .ok spec ∧
          spec.asksForMemory request prepared = true ∧
          ∃ held, db.publications.requireLinks prepared.repositoryLinks = .ok held ∧
          ∃ inserted, db.publications.insertRevision limits prepared.revision facts now = .ok inserted ∧
          finishPublication codec db.control inserted.1 request.toRequest inserted.2
            (writeLinks limits request.project links now) now = .ok result) ∨
        ∃ outcome, db.replayPublication codec request.toRequest = .ok (some outcome) ∧ (db, outcome) = result) := by
  simp only [publishMemory, guard_eq_ok_iff, bind_eq_ok_iff, Option.exists, pure, Except.pure, ok.injEq]

theorem publishMemory_cases (published : db.publishMemory codec limits request batches now = .ok (next, outcome)) :
    request.validate = true ∧ (db.replayPublication codec request.toRequest = .ok (some outcome) ∧ next = db ∨
      Publishes codec limits request.toRequest now db next outcome) := by
  obtain ⟨valid, ⟨fresh, prepared, prepares, links, encrypts, facts, _, spec, authority, _, _, _, ⟨tables, reused⟩,
    inserted, finished⟩ | ⟨_, replays, ⟨⟩⟩⟩ := publishMemory_eq_ok_iff.mp published
  · obtain ⟨key, project, linked⟩ := prepareMemory_revision prepares
    obtain ⟨inserts, stored⟩ := insertRevision_inserts inserted
    rw [project] at inserts
    rw [key] at stored
    refine ⟨valid, .inr (finishPublication_publishes fresh ⟨spec, authority⟩ inserts stored
      (fun source target written => ?_) finished)⟩
    unfold encryptLinks at encrypts
    split at encrypts
    · cases encrypts
      cases written
      exact ⟨.kept rfl, .refl _, rfl, rfl, rfl⟩
    · next links isLinks =>
      obtain ⟨facts, _, ⟨⟩⟩ := bind_eq_ok_iff.mp encrypts
      simp only [writeLinks] at written
      split_ifs at written
      show Inserts limits request.project.key source target
      rw [← linked links isLinks]
      exact insertMemoryRepositoryLinks_inserts written
  · exact ⟨valid, .inl ⟨replays, rfl⟩⟩

/-! ## The expected version decides nothing else -/

variable {expected : Option PublicationVersion}

/-- A publication that writes is superseded at any other version than the stored one. -/
theorem Publishes.superseded {request : PublicationRequest}
    (publishes : Publishes codec limits request now db next outcome)
    (inserts : Inserts limits project db.publications tables)
    (stale : expectedMatches expected (db.publications.view? request) = false) (reused : Bool)
    (writeLinks : PublicationTables → Except RemoteStoreError PublicationTables) :
    db.replayPublication codec { request with expected } = .ok none ∧
      ∃ after, finishPublication codec db.control tables { request with expected } reused writeLinks now =
        .ok (after, .superseded (db.publications.view? request)) ∧
          after.publications.views = db.publications.views := by
  obtain ⟨spec, authority⟩ := publishes.authority
  refine ⟨replayPublication_of_authority authority, ?_⟩
  -- the view is read the same once the revision is inserted, and there is still no receipt
  have sameView : tables.view? { request with expected } = db.publications.view? request := by
    rw [view?, inserts.views]
    rfl
  have swapped : tables.swapView { request with expected } reused =
      .ok (tables, .superseded (db.publications.view? request)) := by
    simp [swapView, sameView, stale]
  have unrecorded : tables.receipts.get? request.lease.job.key = none := inserts.receipts ▸ publishes.unrecorded
  obtain ⟨written, records, sameViews⟩ : ∃ written, tables.recordPublication codec { request with expected }
      (.superseded (db.publications.view? request)) now = .ok written ∧ written.views = tables.views := by
    simp [recordPublication, unrecorded]
  refine ⟨⟨next.control, written⟩, ?_, sameViews.trans inserts.views⟩
  simp only [finishPublication, bind_eq_ok_iff]
  exact ⟨_, swapped, tables, rfl, written, records, next.control, publishes.completed, rfl⟩

/-- A graph that would be published at the stored version is superseded at any other. -/
theorem publishGraph_superseded {request : PublishGraphRequest}
    (fresh : db.replayPublication codec request.toRequest = .ok none)
    (published : db.publishGraph codec limits request batches now = .ok (next, outcome))
    (stale : expectedMatches expected (db.publications.view? request.toRequest) = false) :
    ∃ after, db.publishGraph codec limits { request with expected } batches now =
      .ok (after, .superseded (db.publications.view? request.toRequest)) ∧
        after.publications.views = db.publications.views := by
  have publishes := (publishGraph_cases published).2.resolve_left fun replays => by simp [fresh] at replays
  obtain ⟨valid, ⟨_, prepared, prepares, facts, encrypts, spec, authority, asks, inserted, inserts, _⟩ |
    ⟨_, replays, _⟩⟩ :=
    publishGraph_eq_ok_iff.mp published
  · obtain ⟨stillFresh, after, finished, same⟩ := publishes.superseded
      (insertGraphSnapshot_inserts inserts).1 stale inserted.2 .ok
    exact ⟨after, publishGraph_eq_ok_iff.mpr ⟨valid, .inl
      ⟨stillFresh, prepared, prepares, facts, encrypts, spec, authority, asks, inserted, inserts, finished⟩⟩, same⟩
  · cases fresh.symm.trans replays

/-- And so is memory. -/
theorem publishMemory_superseded {request : PublishMemoryRequest}
    (fresh : db.replayPublication codec request.toRequest = .ok none)
    (published : db.publishMemory codec limits request batches now = .ok (next, outcome))
    (stale : expectedMatches expected (db.publications.view? request.toRequest) = false) :
    ∃ after, db.publishMemory codec limits { request with expected } batches now =
      .ok (after, .superseded (db.publications.view? request.toRequest)) ∧
        after.publications.views = db.publications.views := by
  have publishes := (publishMemory_cases published).2.resolve_left fun replays => by simp [fresh] at replays
  obtain ⟨valid, ⟨_, prepared, prepares, links, encryptsLinks, facts, encrypts, spec, authority, asks, held, holds,
    inserted, inserts, _⟩ | ⟨_, replays, _⟩⟩ := publishMemory_eq_ok_iff.mp published
  · obtain ⟨stillFresh, after, finished, same⟩ := publishes.superseded
      (insertRevision_inserts inserts).1 stale inserted.2 (writeLinks limits request.project links now)
    exact ⟨after, publishMemory_eq_ok_iff.mpr ⟨valid, .inl ⟨stillFresh, prepared, prepares, links, encryptsLinks, facts,
      encrypts, spec, authority, asks, held, holds, inserted, inserts, finished⟩⟩, same⟩
  · cases fresh.symm.trans replays

end Ferrus.Distributed

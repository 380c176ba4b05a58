import Ferrus.Proofs.JobConsistency
import Ferrus.Soundness.JobTransitions

/-! # Every job can be read back

A job is loaded only if its row is a valid record. The coordinator and the publication store keep
every row valid. The purge of a deletion does not look at the failure code: a job that has one is
cancelled with it, and if the purge leaves the row it can never be loaded again.
-/

namespace Ferrus.Distributed

open Ferrus.Machine JobSystem

/-- The instant at which an event reads the clock. -/
def JobEvent.now? : JobEvent → Option Int
  | .call asked => some asked.now
  | .publish _ _ now | .purge _ _ now => some now
  | .beginDeletion .. | .listJobs _ | .finishDeletion _ => none

/-- An event whose instant is one of `DateTime::<Utc>`. -/
abbrev UtcEvent := { event : JobEvent // event.now?.all utcRange = true }

def utcStep (system : JobSystem) (event : UtcEvent) : JobSystem := jobStep utcRange system event.1

/-- Each stored job is loaded as a valid record. -/
def ControlDatabase.Loadable (db : ControlDatabase) : Prop :=
  ∀ (job : IndexJobRef) (row : JobRow), db.job? job.key = some row → row.spec.kind = job.kind →
    ∃ record, db.loadRecord utcRange job = .ok (some record) ∧ record.isValid = true

/-- No purge cancels a job with a failure code that it does not delete. -/
def CleanPurge (system : JobSystem) (event : JobEvent) : Prop :=
  match event with
  | .purge call dataRemains _ =>
      match system.deletions.get? call with
      | some (.listed deletion repositoryJobs) =>
          system.db.jobs.select (fun key row => deletion.cancelsJob repositoryJobs key &&
            !deletion.deletesJob repositoryJobs dataRemains key row && row.failureCode.isSome) = []
      | _ => True
  | _ => True

instance (system : JobSystem) (event : JobEvent) : Decidable (CleanPurge system event) :=
  match event with
  | .purge call _ _ => by
      dsimp only [CleanPurge]
      exact match system.deletions.get? call with
        | some (.listed ..) => inferInstanceAs (Decidable (_ = []))
        | some (.begun _) | none => .isTrue True.intro
  | .call _ | .publish .. | .beginDeletion .. | .listJobs _ | .finishDeletion _ => .isTrue True.intro

variable {system : JobSystem} {db : ControlDatabase} {now : Int}

theorem ConsistentRows.loadable (consistent : ConsistentRows utcRange db) : db.Loadable := by
  intro job row found kind
  obtain ⟨record, loaded⟩ := loadRecord_of_consistent found kind (consistent job.key row found)
  obtain ⟨_, _, _, _, valid⟩ := loadRecord_eq_ok_some_iff.mp loaded
  exact ⟨record, loaded, valid⟩

theorem ConsistentRows.of_jobs {next : ControlDatabase} (same : next.jobs = db.jobs)
    (before : ConsistentRows utcRange db) : ConsistentRows utcRange next := by
  intro key row found
  have kept : next.job? key = db.job? key := congrArg (Table.get? · key) same
  exact before key row (kept ▸ found)

/-- The last statement of a call leaves the database that the call does. -/
private theorem callWrites_getLastD (db : ControlDatabase) (call : CoordinatorCall) :
    (db.callWrites utcRange call).getLastD db = db.afterCall utcRange call := by
  unfold ControlDatabase.callWrites ControlDatabase.afterCall
  cases answered : db.respond utcRange call with
  | error => rfl
  | ok answer =>
    obtain ⟨next, reply⟩ := answer
    cases respond_responds answered <;> rfl

/-! ## The purge -/

/-- Cancelling a job without a failure code leaves a consistent row. -/
theorem JobRow.Consistent.purged {row : JobRow} {key : JobKey} (inRange : utcRange now = true)
    (before : row.Consistent utcRange key) (uncoded : row.failureCode.isSome = false) :
    JobRow.Consistent utcRange key { row.clearLease with
      state := .cancelled, cancellationRequested := true, updatedAtMs := timestampMillis now } where
  scope := before.scope
  counted := { before.counted with retries := nofun }
  leased := ⟨rfl, rfl, nofun, nofun, fun _ => rfl⟩
  coded := ⟨nofun, fun code => absurd code (by simp [JobRow.clearLease, uncoded])⟩
  timed := { before.timed with updated := wholeMillis_utcRange now inRange }

theorem ConsistentRows.deleteControlData {deletion : DeleteDataRequest} {repositoryJobs : List String}
    {dataRemains : Bool} (before : ConsistentRows utcRange db) (inRange : utcRange now = true)
    (clean : db.jobs.select (fun key row => deletion.cancelsJob repositoryJobs key &&
      !deletion.deletesJob repositoryJobs dataRemains key row && row.failureCode.isSome) = []) :
    ConsistentRows utcRange (db.deleteControlData deletion repositoryJobs dataRemains now) := by
  intro key row found
  rw [ControlDatabase.deleteControlData, ControlDatabase.job?_deleteJobs, ControlDatabase.cancelCoveredJobs,
    ControlDatabase.job?_updateJobs, Option.filter_eq_some_iff, Option.map_eq_some_iff] at found
  obtain ⟨⟨earlier, stored, rfl⟩, spared⟩ := found
  have consistent := before key earlier stored
  split at spared
  · next covered =>
    rw [if_pos covered]
    apply consistent.purged inRange
    by_contra coded
    have member : (key, earlier) ∈ ([] : List (JobKey × JobRow)) := by
      rw [← clean]
      refine db.jobs.mem_select.mpr ⟨stored, ?_⟩
      rw [Bool.and_eq_true, Bool.and_eq_true]
      exact ⟨⟨covered, spared⟩, Bool.not_eq_false _ ▸ coded⟩
    cases member
  · next uncovered =>
    rw [if_neg uncovered]
    exact consistent

/-! ## Whole runs -/

private theorem utcStep_consistent {event : UtcEvent} (before : ConsistentRows utcRange system.db)
    (clean : CleanPurge system event.1) : ConsistentRows utcRange (utcStep system event).db := by
  obtain ⟨event, timely⟩ := event
  cases event with
  | call call =>
    simp only [utcStep, jobStep, writes, callWrites_getLastD]
    exact before.afterCall wholeMillis_utcRange timely
  | publish request contentMatches now =>
    simp only [utcStep, jobStep, writes]
    cases published : system.db.publishPrepared request contentMatches now with
    | error => exact before
    | ok next => exact (publishPrepared_rows published).consistent wholeMillis_utcRange timely before
  | beginDeletion call deletion =>
    simp only [utcStep, jobStep, writes]
    split
    · cases begun : system.db.installControlTombstone deletion with
      | error => exact before
      | ok next => exact before.of_jobs (ControlDatabase.installControlTombstone_jobs begun)
    · exact before
  | listJobs call => exact before
  | purge call dataRemains now =>
    simp only [utcStep, jobStep, writes]
    simp only [CleanPurge] at clean
    split
    · next deletion repositoryJobs listed =>
      rw [listed] at clean
      exact before.deleteControlData timely clean
    · exact before
  | finishDeletion call =>
    simp only [utcStep, jobStep, writes]
    split
    · split
      · exact before
      · exact before.of_jobs rfl
    · exact before

/-- After every sequence of operations whose purges are clean, each stored job can be loaded. -/
theorem loadable_of_cleanPurges (events : List UtcEvent)
    (clean : EveryStep utcStep (fun system event _ => CleanPurge system event.1) .start events) :
    (run utcStep .start events).db.Loadable := by
  have consistent := clean.run_invariant (fun system => ConsistentRows utcRange system.db)
    ConsistentRows.empty fun _ _ before clean => utcStep_consistent before clean
  exact consistent.loadable

/-! ## A failed job under a deletion -/

/-- The events whose instants the clock can give. -/
def utcEvents (events : List JobEvent) : List UtcEvent :=
  events.filterMap fun event => if timely : event.now?.all utcRange = true then some ⟨event, timely⟩ else none

/-- The worker of the job reports that it cannot be done. -/
def failedEvents : List JobEvent :=
  publishingEvents ++
    [.call (.fail ⟨controlProtocolVersion, exampleJob, "worker-1", 1, "parse.failed", false⟩ (atSecond 4))]

/-- A published job is still loaded after a deletion of its project's unpublished facts has cancelled it. -/
theorem loadable_of_published : EveryStep utcStep (fun system event _ => CleanPurge system event.1) .start
      (utcEvents (publishedEvents ++ deletionEvents [.unpublishedFact] ++ [.purge 0 false (atSecond 6)])) ∧
    (run utcStep .start (utcEvents
      (publishedEvents ++ deletionEvents [.unpublishedFact] ++ [.purge 0 false (atSecond 6)]))).db.Loadable :=
  ⟨by decide, loadable_of_cleanPurges _ (by decide)⟩

/-- The same deletion makes a failed job cancelled with its failure code, which is not a valid record. -/
theorem not_loadable_of_failed : ¬ (run utcStep .start (utcEvents
      (failedEvents ++ deletionEvents [.unpublishedFact] ++ [.purge 0 false (atSecond 6)]))).db.Loadable := by
  intro loadable
  have stored : ∃ row, (run utcStep .start (utcEvents
      (failedEvents ++ deletionEvents [.unpublishedFact] ++ [.purge 0 false (atSecond 6)]))).db.job? exampleJob.key =
        some row ∧ row.spec.kind = exampleJob.kind := by
    decide
  obtain ⟨row, found, kind⟩ := stored
  obtain ⟨record, loaded, _⟩ := loadable exampleJob row found kind
  cases loaded

end Ferrus.Distributed

import Ferrus.Machine.Core.Run
import Ferrus.Proofs.JobAdvances

/-! # Job transitions

Workers, publishers, operators and deletions work on one control database. All but two of their
statements move a job along the transition table. A reclaim also queues an expired publishing job
again, and the purge of a deletion cancels jobs that are complete or failed.
-/

namespace Ferrus.Distributed

open Ferrus.Machine ControlDatabase Option List

/-- A deletion between its transactions; its job listing may be out of date when it purges. -/
inductive DeletionProgress where
  | begun (deletion : DeleteDataRequest)
  | listed (deletion : DeleteDataRequest) (repositoryJobs : List String)
deriving DecidableEq, Repr

structure JobSystem where
  db : ControlDatabase
  deletions : Table Nat DeletionProgress

def JobSystem.start : JobSystem := ⟨.empty, .empty⟩

inductive JobEvent where
  | call (call : CoordinatorCall)
  | publish (request : PublicationLease) (contentMatches : IndexJobSpec → Bool) (now : Int)
  | beginDeletion (call : Nat) (deletion : DeleteDataRequest)
  | listJobs (call : Nat)
  | purge (call : Nat) (dataRemains : Bool) (now : Int)
  | finishDeletion (call : Nat)

/-- A transaction with one writing statement. -/
def written {ε : Type} : Except ε ControlDatabase → List ControlDatabase
  | .ok next => [next]
  | .error _ => []

/-- The statements of a call; a claim and a reclaim release the expired jobs with four of them. -/
def ControlDatabase.callWrites (representable : Int → Bool) (db : ControlDatabase) (call : CoordinatorCall) :
    List ControlDatabase :=
  match db.respond representable call with
  | .error _ => []
  | .ok (next, _) =>
      match call with
      | .claim _ request now => db.reclaimWrites request.project (timestampMillis now) ++ [next]
      | .reclaim request now => db.reclaimWrites request.project (timestampMillis now)
      | _ => [next]

/-- The database after each writing statement of the event's transaction; none if it rolls back. -/
def JobSystem.writes (representable : Int → Bool) (system : JobSystem) : JobEvent → List ControlDatabase
  | .call call => system.db.callWrites representable call
  | .publish request contentMatches now => written (system.db.publishPrepared request contentMatches now)
  | .beginDeletion _ deletion =>
      if deletion.isAcceptable then written (system.db.installControlTombstone deletion) else []
  | .listJobs _ => []
  | .purge call dataRemains now =>
      match system.deletions.get? call with
      | some (.listed deletion repositoryJobs) =>
          [system.db.cancelCoveredJobs deletion repositoryJobs now,
            system.db.deleteControlData deletion repositoryJobs dataRemains now]
      | _ => []
  | .finishDeletion call =>
      match system.deletions.get? call with
      | some (.listed deletion _) =>
          -- a full project deletion keeps its tombstone
          if deletion.isFullProjectDeletion then []
          else [{ system.db with tombstones := releaseStoreTombstone system.db.tombstones deletion }]
      | _ => []

/-- The deletions under way after the event. -/
def JobSystem.deletionsAfter (system : JobSystem) : JobEvent → Table Nat DeletionProgress
  | .beginDeletion call deletion =>
      if deletion.isAcceptable && (system.db.installControlTombstone deletion).isOk then
        system.deletions.put call (.begun deletion)
      else system.deletions
  | .listJobs call =>
      match system.deletions.get? call with
      | some (.begun deletion) => system.deletions.put call (.listed deletion (system.db.listedJobs deletion))
      | _ => system.deletions
  | _ => system.deletions

/-- The last writing statement of a transaction leaves the committed database. -/
def jobStep (representable : Int → Bool) (system : JobSystem) (event : JobEvent) : JobSystem where
  db := (system.writes representable event).getLastD system.db
  deletions := system.deletionsAfter event

/-- Each job whose row is still there at the end keeps its state or moves along the table. -/
def JobChange (committed before after : ControlDatabase) : Prop :=
  ∀ key first second, (committed.state? key).isSome → before.state? key = some first →
    after.state? key = some second → first.Allows second

/-- What each step must meet. -/
structure JobLaw (representable : Int → Bool) (system : JobSystem) (event : JobEvent) (target : JobSystem) :
    Prop where
  allowed : (system.db :: system.writes representable event).IsChain (JobChange target.db)
  terminal : ∀ key first second, system.db.state? key = some first → first.isTerminal = true →
    target.db.state? key = some second → second = first

/-- No reclaim queues a publishing job again, and no purge cancels a complete or failed job that it
does not delete. -/
def Orderly (system : JobSystem) (event : JobEvent) (_target : JobSystem) : Prop :=
  match event with
  | .call (.claim _ request now) => system.db.requeuesPublishing request.project (timestampMillis now) = false
  | .call (.reclaim request now) => system.db.requeuesPublishing request.project (timestampMillis now) = false
  | .purge call dataRemains _ =>
      match system.deletions.get? call with
      | some (.listed deletion repositoryJobs) =>
          system.db.jobs.select (fun key row => deletion.cancelsJob repositoryJobs key &&
            !deletion.deletesJob repositoryJobs dataRemains key row &&
            (row.state = .complete || row.state = .failed)) = []
      | _ => True
  | _ => True

instance (system : JobSystem) (event : JobEvent) (target : JobSystem) : Decidable (Orderly system event target) :=
  match event with
  | .call (.claim ..) | .call (.reclaim ..) => inferInstanceAs (Decidable (_ = false))
  | .purge call _ _ => by
      dsimp only [Orderly]
      exact match system.deletions.get? call with
        | some (.listed ..) => inferInstanceAs (Decidable (_ = []))
        | some (.begun _) | none => .isTrue True.intro
  | .call (.submit ..) | .call (.start ..) | .call (.heartbeat ..) | .call (.beginPublication ..) | .call (.complete ..)
  | .call (.fail ..) | .call (.cancel ..) | .publish .. | .beginDeletion .. | .listJobs _ | .finishDeletion _ =>
      .isTrue True.intro

variable {representable : Int → Bool} {system : JobSystem} {db : ControlDatabase} {writes : List ControlDatabase}
  {key : JobKey} {event : JobEvent} {deletion : DeleteDataRequest} {repositoryJobs : List String}
  {dataRemains : Bool} {now : Int}

/-- A terminal job keeps its state through any number of advancing statements. -/
private theorem terminal_of_chain (chain : (db :: writes).IsChain Advances) {first : IndexJobState}
    (stored : db.state? key = some first) (terminal : first.isTerminal = true) :
    (writes.getLastD db).state? key = some first := by
  induction writes generalizing db with
  | nil => exact stored
  | cons next rest ih =>
    obtain ⟨advances, later⟩ := isChain_cons_cons.mp chain
    obtain ⟨state, found, allows⟩ := advances key first stored
    rw [allows.eq_of_isTerminal terminal] at found
    rw [getLastD_cons]
    exact ih later found

private theorem written_advances {ε : Type} {result : Except ε ControlDatabase}
    (advances : ∀ next, result = .ok next → Advances db next) : (db :: written result).IsChain Advances := by
  cases result with
  | ok next => exact isChain_cons_cons.mpr ⟨advances next rfl, .singleton _⟩
  | error => exact .singleton _

/-- A transaction whose statements all advance the jobs meets the law. -/
private theorem jobLaw_of_chain (chain : (system.db :: system.writes representable event).IsChain Advances) :
    JobLaw representable system event (jobStep representable system event) where
  allowed := by
    refine chain.imp fun _ _ advances key first second _ stored moved => ?_
    obtain ⟨state, found, allows⟩ := advances key first stored
    rw [found] at moved
    exact some.inj moved ▸ allows
  terminal key first second stored isTerminal after := by
    have kept := terminal_of_chain chain stored isTerminal
    exact some.inj (after.symm.trans kept)

/-! ## The purge -/

/-- A job that outlives a purge was not selected by its deletion. -/
private theorem survivor_of_deleteControlData
    (survives : ((db.deleteControlData deletion repositoryJobs dataRemains now).state? key).isSome) :
    ∃ row, db.job? key = some row ∧ deletion.deletesJob repositoryJobs dataRemains key row = false ∧
      (db.deleteControlData deletion repositoryJobs dataRemains now).state? key =
        (db.cancelCoveredJobs deletion repositoryJobs now).state? key := by
  obtain ⟨state, found⟩ := isSome_iff_exists.mp survives
  rw [state?, deleteControlData, job?_deleteJobs] at found ⊢
  obtain ⟨kept, filtered, _⟩ := map_eq_some_iff.mp found
  obtain ⟨held, spared⟩ := filter_eq_some_iff.mp filtered
  rw [filtered]
  have same : (db.cancelCoveredJobs deletion repositoryJobs now).state? key = some kept.state := by
    rw [state?, held]
    rfl
  rw [cancelCoveredJobs, job?_updateJobs] at held
  obtain ⟨row, stored, changed⟩ := map_eq_some_iff.mp held
  refine ⟨row, stored, ?_, same.symm⟩
  -- the cancellation leaves the specification, which is all the deletion looks at
  have spec : kept.spec = row.spec := by
    subst changed
    split <;> rfl
  rw [← DeleteDataRequest.deletesJob_congr spec]
  exact Bool.not_eq_true' _ ▸ spared

/-- An orderly purge moves the jobs that it leaves along the table. -/
private theorem allows_of_purge
    (spared : db.jobs.select (fun key row => deletion.cancelsJob repositoryJobs key && !deletion.deletesJob
      repositoryJobs dataRemains key row && (row.state = .complete || row.state = .failed)) = [])
    {first : IndexJobState} (stored : db.state? key = some first)
    (survives : ((db.deleteControlData deletion repositoryJobs dataRemains now).state? key).isSome) :
    ∃ second, (db.cancelCoveredJobs deletion repositoryJobs now).state? key = some second ∧
      (db.deleteControlData deletion repositoryJobs dataRemains now).state? key = some second ∧
      first.Allows second := by
  obtain ⟨row, found, kept, same⟩ := survivor_of_deleteControlData survives
  rw [same, state?, cancelCoveredJobs, job?_updateJobs, found]
  refine ⟨_, rfl, rfl, ?_⟩
  obtain rfl : row.state = first := by
    rw [state?, found] at stored
    exact some.inj stored
  dsimp only
  by_cases covered : deletion.cancelsJob repositoryJobs key = true
  · rw [if_pos covered]
    have unfinished : ¬ (row.state = .complete ∨ row.state = .failed) := by
      intro finished
      have member : (key, row) ∈ ([] : List (JobKey × JobRow)) := by
        rw [← spared]
        refine db.jobs.mem_select.mpr ⟨found, ?_⟩
        simp only [covered, kept, Bool.not_false, Bool.and_self, Bool.true_and, Bool.or_eq_true, decide_eq_true_eq]
        exact finished
      cases member
    cases state : row.state with
    | queued | leased | running | publishing => exact .inr rfl
    | complete => exact absurd (.inl state) unfinished
    | failed => exact absurd (.inr state) unfinished
    | cancelled => exact .inl rfl
  · rw [if_neg covered]
    exact .inl rfl

/-- An orderly purge meets the law. -/
private theorem jobLaw_of_purge {call : Nat}
    (progress : system.deletions.get? call = some (.listed deletion repositoryJobs))
    (orderly : Orderly system (.purge call dataRemains now) (jobStep representable system
      (.purge call dataRemains now))) : JobLaw representable system (.purge call dataRemains now)
      (jobStep representable system (.purge call dataRemains now)) := by
  have spared := orderly
  simp only [Orderly, progress] at spared
  have statements : system.writes representable (.purge call dataRemains now) =
      [system.db.cancelCoveredJobs deletion repositoryJobs now,
        system.db.deleteControlData deletion repositoryJobs dataRemains now] := by
    simp only [JobSystem.writes, progress]
  have committed : (jobStep representable system (.purge call dataRemains now)).db =
      system.db.deleteControlData deletion repositoryJobs dataRemains now := by
    rw [jobStep, statements]
    rfl
  refine ⟨?_, ?_⟩
  · rw [statements, committed, isChain_cons_cons, isChain_cons_cons]
    refine ⟨?_, ?_, .singleton _⟩
    · intro key first second survives stored cancelled
      obtain ⟨state, afterCancel, _, allows⟩ := allows_of_purge spared stored survives
      rw [afterCancel] at cancelled
      exact some.inj cancelled ▸ allows
    · intro key first second survives cancelled deleted
      obtain ⟨_, _, _, same⟩ := survivor_of_deleteControlData survives
      rw [same, cancelled] at deleted
      exact .inl (some.inj deleted).symm
  · intro key first second stored terminal after
    rw [committed] at after
    obtain ⟨state, _, afterDelete, allows⟩ :=
      allows_of_purge spared stored (isSome_iff_exists.mpr ⟨second, after⟩)
    rw [after] at afterDelete
    exact (some.inj afterDelete).trans (allows.eq_of_isTerminal terminal)

/-! ## Whole runs -/

private theorem callWrites_advance {call : CoordinatorCall} {target : JobSystem}
    (orderly : Orderly system (.call call) target) :
    (system.db :: system.db.callWrites representable call).IsChain Advances := by
  unfold callWrites
  split
  · exact .singleton _
  · next next reply answered =>
    cases respond_responds answered with
    | submitted done =>
      refine isChain_cons_cons.mpr ⟨?_, .singleton _⟩
      obtain rfl | ⟨_, _, _, _, _, _, _, _, rfl⟩ := submit_cases done
      · exact .refl _
      · exact .insertNew _ _
    | claimed done =>
      have reclaimed := reclaimWrites_advance orderly
      have last := (claim_rows done).advances (by rintro ⟨⟩)
      simp only [reclaimWrites, isChain_cons_cons] at reclaimed
      obtain ⟨cancelled, timedOut, limited, requeued, _⟩ := reclaimed
      simp only [reclaimWrites, cons_append, nil_append, isChain_cons_cons]
      exact ⟨cancelled, timedOut, limited, requeued, last, .singleton _⟩
    | started done | begun done =>
      exact isChain_cons_cons.mpr
        ⟨(transitionWithLease_rows rfl (.inl ⟨rfl, rfl⟩) done).advances (by rintro ⟨⟩), .singleton _⟩
    | completed done =>
      exact isChain_cons_cons.mpr
        ⟨(transitionWithLease_rows rfl (.inr ⟨rfl, rfl⟩) done).advances (by rintro ⟨⟩), .singleton _⟩
    | renewed done => exact isChain_cons_cons.mpr ⟨(heartbeat_rows done).advances (by rintro ⟨⟩), .singleton _⟩
    | failed done => exact isChain_cons_cons.mpr ⟨(fail_rows done).advances (by rintro ⟨⟩), .singleton _⟩
    | cancelled done => exact isChain_cons_cons.mpr ⟨cancel_advances done, .singleton _⟩
    | reclaimed => exact reclaimWrites_advance orderly

section

variable (orderly : Orderly system event (jobStep representable system event))

include orderly

/-- Every transaction but the purge of a listed deletion advances the jobs with each of its statements. -/
private theorem writes_advance
    (other : ∀ call dataRemains now deletion repositoryJobs, event = .purge call dataRemains now →
      system.deletions.get? call ≠ some (.listed deletion repositoryJobs)) :
    (system.db :: system.writes representable event).IsChain Advances := by
  cases event with
  | call call => exact callWrites_advance orderly
  | publish request contentMatches now =>
    refine written_advances fun next published => ?_
    have step : RowsStep representable now _ _ _ := publishPrepared_rows published
    exact step.advances (by rintro ⟨⟩)
  | beginDeletion call deletion =>
    simp only [JobSystem.writes]
    split
    · exact written_advances fun _ begun => .of_jobs (installControlTombstone_jobs begun)
    · exact .singleton _
  | listJobs call => exact .singleton _
  | purge call dataRemains now =>
    simp only [JobSystem.writes]
    split
    · next deletion repositoryJobs listed =>
      exact absurd listed (other call dataRemains now deletion repositoryJobs rfl)
    · exact .singleton _
  | finishDeletion call =>
    simp only [JobSystem.writes]
    split
    · split
      · exact .singleton _
      · exact isChain_cons_cons.mpr ⟨.of_jobs rfl, .singleton _⟩
    · exact .singleton _

private theorem jobLaw_of_step : JobLaw representable system event (jobStep representable system event) := by
  by_cases purges : ∃ call dataRemains now deletion repositoryJobs, event = .purge call dataRemains now ∧
      system.deletions.get? call = some (.listed deletion repositoryJobs)
  · obtain ⟨call, dataRemains, now, deletion, repositoryJobs, rfl, progress⟩ := purges
    exact jobLaw_of_purge progress orderly
  · apply jobLaw_of_chain
    apply writes_advance orderly
    intro call dataRemains now deletion repositoryJobs same progress
    exact purges ⟨call, dataRemains, now, deletion, repositoryJobs, same, progress⟩

end

/-- In every interleaving whose steps are orderly, job states move along the table and terminal ones stay. -/
theorem jobLaw_of_orderly (representable : Int → Bool) (system : JobSystem) (events : List JobEvent)
    (orderly : EveryStep (jobStep representable) Orderly system events) :
    EveryStep (jobStep representable) (JobLaw representable) system events :=
  orderly.mono fun _ _ => jobLaw_of_step

/-! ## One job of one worker -/

def exampleProject : RemoteProjectRef := ⟨"tenant-a", "project-a"⟩

def exampleSpec : IndexJobSpec where
  input := .repository ⟨exampleProject, "repository-a"⟩ ⟨"identity-a", "manifest-a", "policy-a", "snapshot-a"⟩
  semantics := ⟨"config-1", 1, "extractors-1"⟩
  idempotencyKey := "job-a"

def exampleJob : IndexJobRef := ⟨exampleProject, "job-a", .repositoryGraph⟩

private theorem exampleAttempts_lt : 3 < 2 ^ 32 := by decide

/-- Three attempts, a lease of one minute and a job of one hour. -/
def exampleLimits : CoordinatorLimits := ⟨3, 60000, 3600000, by decide, exampleAttempts_lt, by decide, by decide⟩

def exampleAdvance : AdvanceIndexJobRequest := ⟨controlProtocolVersion, exampleJob, "worker-1", 1⟩

/-- The instant some seconds after the epoch. -/
def atSecond (seconds : Int) : Int := seconds * 1000000000

/-- The job is claimed and brought to its publication. -/
def publishingEvents : List JobEvent :=
  [.call (.submit exampleLimits ⟨controlProtocolVersion, exampleProject, exampleSpec⟩ (atSecond 0)),
    .call (.claim exampleLimits ⟨controlProtocolVersion, exampleProject, .repositoryGraph, "worker-1"⟩ (atSecond 1)),
    .call (.start exampleAdvance (atSecond 2)), .call (.beginPublication exampleAdvance (atSecond 3))]

def publishedEvents : List JobEvent :=
  publishingEvents ++ [.publish ⟨exampleJob, "worker-1", 1⟩ (fun _ => true) (atSecond 4)]

variable (coverage : List RetentionClass)

def projectDeletion : DeleteDataRequest :=
  ⟨"deletion-1", .project exampleProject, coverage⟩

/-- A project deletion up to its purge. -/
def deletionEvents : List JobEvent :=
  [.beginDeletion 0 (projectDeletion coverage), .listJobs 0]

/-- A published job goes with its project. -/
theorem jobLaw_of_published :
    (run (jobStep utcRange) .start publishedEvents).db.state? exampleJob.key = some .complete ∧
    EveryStep (jobStep utcRange) (JobLaw utcRange) .start
      (publishedEvents ++ deletionEvents RetentionClass.all ++ [.purge 0 false (atSecond 6), .finishDeletion 0]) :=
  ⟨by decide, jobLaw_of_orderly utcRange .start _ (by decide)⟩

/-- A reclaim queues the publishing job again once its lease has expired; a deletion that covers only
unpublished facts cancels the complete job and leaves its row. -/
theorem not_jobLaw_of_reclaim_and_purge : (¬ EveryStep (jobStep utcRange) (JobLaw utcRange) .start
      (publishingEvents ++ [.call (.reclaim ⟨controlProtocolVersion, exampleProject⟩ (atSecond 61))])) ∧
    ¬ EveryStep (jobStep utcRange) (JobLaw utcRange) .start
      (publishedEvents ++ deletionEvents [.unpublishedFact] ++ [.purge 0 false (atSecond 6)]) := by
  constructor
  · intro law
    have chain : ((run (jobStep utcRange) .start publishingEvents).db ::
        (run (jobStep utcRange) .start publishingEvents).db.reclaimWrites exampleProject
          (timestampMillis (atSecond 61))).IsChain _ := law.at_cut.allowed
    simp only [reclaimWrites, isChain_cons_cons] at chain
    obtain ⟨_, _, _, requeued, _⟩ := chain
    have allowed := requeued exampleJob.key .publishing .queued (by decide) (by decide) (by decide)
    revert allowed
    decide
  · intro law
    have kept := law.at_cut.terminal exampleJob.key .complete .cancelled (by decide) rfl (by decide)
    cases kept

end Ferrus.Distributed

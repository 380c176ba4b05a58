import Ferrus.Proofs.JobRows

/-! # Job states along the transition table

The coordinator and the publication store change a job's state only after they have read it in the
same transaction. `Advances` states this of a change of the job table; the updates of a reclaim meet
it for every job but a publishing one that they queue again.
-/

namespace Ferrus.Distributed

open ControlDatabase ReclaimUpdate IndexJobState

/-- The job keeps its state or moves along the transition table. -/
def IndexJobState.Allows (before after : IndexJobState) : Prop :=
  after = before ∨ before.canTransitionTo after = true

instance (before after : IndexJobState) : Decidable (before.Allows after) :=
  inferInstanceAs (Decidable (_ ∨ _))

/-- A terminal state allows only itself. -/
theorem IndexJobState.Allows.eq_of_isTerminal {before after : IndexJobState} (allows : before.Allows after)
    (terminal : before.isTerminal = true) : after = before := by
  rcases allows with same | moves
  · exact same
  · rw [canTransitionTo_of_isTerminal terminal] at moves
    cases moves

/-- Every job stays and moves along the transition table; new jobs may appear. -/
def Advances (db next : ControlDatabase) : Prop :=
  ∀ key before, db.state? key = some before → ∃ after, next.state? key = some after ∧ before.Allows after

variable {db next : ControlDatabase}

namespace Advances

theorem of_jobs (same : next.jobs = db.jobs) : Advances db next := by
  intro key before stored
  refine ⟨before, ?_, .inl rfl⟩
  have kept : next.job? key = db.job? key := congrArg (Table.get? · key) same
  rw [state?, kept]
  exact stored

theorem refl (db : ControlDatabase) : Advances db db := of_jobs rfl

theorem updateJobs {selected : JobKey → JobRow → Bool} {change : JobRow → JobRow}
    (allowed : ∀ key row, db.job? key = some row → selected key row = true → row.state.Allows (change row).state) :
    Advances db (db.updateJobs selected change) := by
  intro key before stored
  obtain ⟨row, found, rfl⟩ := Option.map_eq_some_iff.mp stored
  rw [state?, job?_updateJobs, found]
  by_cases chosen : selected key row = true
  · refine ⟨(change row).state, ?_, allowed key row found chosen⟩
    simp [chosen]
  · refine ⟨row.state, ?_, .inl rfl⟩
    simp [chosen]

theorem updateJob {job : IndexJobRef} {change : JobRow → JobRow}
    (allowed : ∀ row, db.job? job.key = some row → row.state.Allows (change row).state) :
    Advances db (db.updateJob job change) := by
  intro key before stored
  obtain ⟨row, found, rfl⟩ := Option.map_eq_some_iff.mp stored
  rw [state?, job?_updateJob]
  split_ifs with same
  · subst same
    exact ⟨(change row).state, by rw [found]; rfl, allowed row found⟩
  · exact ⟨row.state, by rw [found]; rfl, .inl rfl⟩

theorem insertNew (key : JobKey) (row : JobRow) : Advances db { db with jobs := db.jobs.insertNew key row } := by
  intro other before stored
  obtain ⟨found, held, rfl⟩ := Option.map_eq_some_iff.mp stored
  have kept : db.jobs.get? other = some found := held
  have after : (db.jobs.insertNew key row).get? other = some found := by
    rw [Table.get?_insertNew]
    split_ifs with same
    · subst same
      rw [kept]
      rfl
    · exact kept
  exact ⟨found.state, congrArg (Option.map JobRow.state) after, .inl rfl⟩

end Advances

/-! ## The operations -/

variable {representable : Int → Bool} {now : Int} {actor : RowActor}

/-- Every replacement but that of a reclaim moves along the table. -/
theorem RowChange.allows {row next : JobRow} (change : RowChange representable now actor row next)
    (acts : actor ≠ .operator) : row.state.Allows next.state := by
  cases change with
  | advanced _ _ _ _ moves => exact .inr moves
  | renewed => exact .inl rfl
  | @failed _ _ _ retry _ _ _ active attempts =>
    -- only a leased or running job is queued again
    rcases isActive_iff.mp active with state | state | state <;> rw [state] at attempts ⊢ <;> cases retry
    all_goals first | exact .inr rfl | exact absurd rfl (attempts rfl).2
  | cancelled isOperator | reclaimed isOperator => exact absurd isOperator acts
  | claimed _ queued =>
    rw [queued]
    exact .inr rfl
  | published _ publishable =>
    simp only [JobRow.publishableBy_eq, Bool.and_eq_true, decide_eq_true_eq] at publishable
    rw [publishable.1.1]
    exact .inr rfl

theorem RowsStep.advances (step : RowsStep representable now actor db next) (acts : actor ≠ .operator) :
    Advances db next := by
  intro key before stored
  obtain ⟨row, found, rfl⟩ := Option.map_eq_some_iff.mp stored
  have rowStep := step key
  rw [found] at rowStep
  rw [state?]
  generalize next.job? key = after at rowStep
  cases rowStep with
  | kept => exact ⟨row.state, rfl, .inl rfl⟩
  | changed change => exact ⟨_, rfl, change.allows acts⟩

theorem cancel_advances {request : CancelIndexJobRequest} {record : IndexJobRecord}
    (cancelled : db.cancel representable request now = .ok (next, record)) : Advances db next := by
  obtain rfl | ⟨row, found, unfinished, rfl⟩ := cancel_cases cancelled
  · exact .refl _
  · apply Advances.updateJob
    intro other held
    obtain rfl := Option.some.inj (found.symm.trans held)
    revert unfinished
    cases row.state <;> first | exact fun _ => .inr rfl | exact fun live => absurd live (by decide)

/-! ## Reclaims and claims -/

/-- A reclaim at this time queues a publishing job of the project again: its lease has expired, it has
attempts left, its deadline is ahead and nobody has asked to cancel it. -/
def ControlDatabase.requeuesPublishing (db : ControlDatabase) (project : RemoteProjectRef) (nowMs : Int) : Bool :=
  db.jobs.select (fun key row => projectOf key = project.key && row.state = .publishing &&
    ReclaimUpdate.requeue.selects nowMs row && !ReclaimUpdate.timeout.selects nowMs row) ≠ []

variable {project : RemoteProjectRef} {nowMs : Int} {key : JobKey} {row : JobRow}

/-- The updates of a reclaim never make a job publishing. -/
theorem ReclaimUpdate.publishing_before {update : ReclaimUpdate}
    (found : (update.apply project nowMs db).job? key = some row) (publishing : row.state = .publishing)
    (scope : projectOf key = project.key) : db.job? key = some row ∧ update.selects nowMs row = false := by
  rw [apply, job?_updateJobs] at found
  obtain ⟨before, stored, changed⟩ := Option.map_eq_some_iff.mp found
  split at changed
  · subst changed
    cases update <;> cases publishing
  · next skipped =>
    subst changed
    refine ⟨stored, ?_⟩
    simpa [scope] using skipped

theorem ReclaimUpdate.apply_advances {update : ReclaimUpdate}
    (spared : update = .requeue → ∀ key row, db.job? key = some row → projectOf key = project.key →
      update.selects nowMs row = true → row.state ≠ .publishing) : Advances db (update.apply project nowMs db) := by
  apply Advances.updateJobs
  intro key row found chosen
  rw [Bool.and_eq_true, decide_eq_true_eq] at chosen
  obtain ⟨scope, selected⟩ := chosen
  cases update with
  | cancel | attemptLimit =>
    simp only [selects, Bool.and_eq_true] at selected
    rcases isActive_iff.mp selected.2 with state | state | state
    all_goals
      rw [state]
      exact .inr rfl
  | timeout =>
    simp only [selects, Bool.and_eq_true, Bool.or_eq_true, decide_eq_true_eq] at selected
    have unfinished := selected.2
    revert unfinished
    cases row.state <;> first | exact fun _ => .inr rfl | exact fun live => absurd live (by decide)
  | requeue =>
    have rest := spared rfl key row found scope selected
    simp only [selects, Bool.and_eq_true] at selected
    rcases isActive_iff.mp selected.2 with state | state | state
    · rw [state]
      exact .inr rfl
    · rw [state]
      exact .inr rfl
    · exact absurd state rest

/-- Without a publishing job to queue again, all four updates move along the table. -/
theorem reclaimWrites_advance (spared : db.requeuesPublishing project nowMs = false) :
    (db :: db.reclaimWrites project nowMs).IsChain Advances := by
  have requeues : ∀ key row, (attemptLimit.apply project nowMs
      (timeout.apply project nowMs (cancel.apply project nowMs db))).job? key =
        some row →
      projectOf key = project.key → requeue.selects nowMs row = true →
      row.state ≠ .publishing := by
    intro key row found scope selected publishing
    obtain ⟨timedOut, _⟩ := publishing_before found publishing scope
    obtain ⟨cancelled, inTime⟩ := publishing_before timedOut publishing scope
    obtain ⟨stored, _⟩ := publishing_before cancelled publishing scope
    have member : (key, row) ∈ ([] : List (JobKey × JobRow)) := by
      rw [← of_not_not (of_decide_eq_false spared)]
      refine db.jobs.mem_select.mpr ⟨stored, ?_⟩
      simp [scope, publishing, selected, inTime]
    cases member
  simp only [reclaimWrites, List.isChain_cons_cons]
  exact ⟨apply_advances nofun, apply_advances nofun,
    apply_advances nofun, apply_advances (fun _ => requeues), .singleton _⟩

end Ferrus.Distributed

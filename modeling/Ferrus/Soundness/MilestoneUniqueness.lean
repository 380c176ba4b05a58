import Ferrus.Machine.Core.Run
import Ferrus.Model.Runtime.Artifacts
import Ferrus.Model.Runtime.TaskOps
import Ferrus.Model.Runtime.UtcClock
import Ferrus.Proofs.LeaseFrame

/-! # One task for a milestone

The finalization of a task refuses a milestone that has another task under way. The writers of a
status make no such check, so a late write to an old task of the milestone brings back a second one.
-/

namespace Ferrus.Runtime

open Ferrus.Machine Option Database

/-- The specification path and milestone a task occupies while it has the status. -/
def livePair? (status : TaskStatus) (origin : Option String × Option String) : Option (String × String) :=
  if status.isTerminal then none
  else origin.1.bind fun specPath => origin.2.map fun milestoneId => (specPath, milestoneId)

def TaskRow.livePair? (row : TaskRow) : Option (String × String) :=
  Runtime.livePair? row.status (row.specPath, row.milestoneId)

def Database.livePair? (db : Database) (id : TaskId) : Option (String × String) :=
  (db.task? id).bind TaskRow.livePair?

/-- At most one task is under way for a specification path and milestone. -/
def UniqueMilestones (db : Database) : Prop :=
  ∀ first second pair, db.livePair? first = some pair → db.livePair? second = some pair → first = second

inductive MilestoneEvent where
  | reserve (task : TaskId) (path : String)
  | finalize (task : TaskId) (specPath milestoneId : Option String)
  | discard (task : TaskId)
  | status (event : TaskEvent)
  | lease (event : LeaseEvent)

def milestoneStep (chrono : Chrono) (db : Database) : MilestoneEvent → Database
  | .reserve task path => db.reserveTaskArtifact task path
  | .finalize task specPath milestoneId =>
      (db.finalizeTaskArtifactReservation task specPath milestoneId).toOption.getD db
  | .discard task => (db.discardTaskArtifactReservation task).toOption.getD db
  | .status event => event.apply db
  | .lease event => (event.apply chrono db).1

/-- A status operation that puts its task under way for a milestone where it was not before finds no
other task under way for it. -/
def Unrivalled (db : Database) (event : MilestoneEvent) (_next : Database) : Prop :=
  match event with
  | .status event => ∀ base ∈ event.base? db,
      ∀ pair ∈ livePair? (event.op.statusAfter base) (event.op.originAfter base),
        db.livePair? event.task = some pair ∨ db.milestoneTask? event.task pair.1 pair.2 = none
  | _ => True

instance (db : Database) (event : MilestoneEvent) (next : Database) : Decidable (Unrivalled db event next) :=
  match event with
  | .status event => inferInstanceAs (Decidable (∀ base ∈ event.base? db,
      ∀ pair ∈ livePair? (event.op.statusAfter base) (event.op.originAfter base),
        db.livePair? event.task = some pair ∨ db.milestoneTask? event.task pair.1 pair.2 = none))
  | .reserve .. | .finalize .. | .discard _ | .lease _ => .isTrue trivial

variable {db next : Database} {task : TaskId}

private theorem livePair?_eq_some {status : TaskStatus} {origin : Option String × Option String}
    {pair : String × String} : livePair? status origin = some pair ↔
      status.isTerminal = false ∧ origin.1 = some pair.1 ∧ origin.2 = some pair.2 := by
  unfold livePair?
  split
  · next terminal => simp [terminal]
  · next live =>
    simp only [bind_eq_some_iff, map_eq_some_iff, live]
    constructor
    · rintro ⟨specPath, spec, milestoneId, milestone, rfl⟩
      exact ⟨trivial, spec, milestone⟩
    · rintro ⟨-, spec, milestone⟩
      exact ⟨pair.1, spec, pair.2, milestone, rfl⟩

/-- The finalization's query finds exactly the rivals of a task. -/
private theorem rival_of_milestoneTask? {pair : String × String} {other : TaskId}
    (free : db.milestoneTask? task pair.1 pair.2 = none) (live : db.livePair? other = some pair) : other = task := by
  obtain ⟨row, found, pairs⟩ := bind_eq_some_iff.mp live
  obtain ⟨active, spec, milestone⟩ := livePair?_eq_some.mp pairs
  exact milestoneTask?_eq_none.mp free other row found spec milestone active

section

variable (unique : UniqueMilestones db)

include unique

/-- A change of one task keeps the law if the task has no rival in its new place. -/
theorem UniqueMilestones.of_change (task : TaskId)
    (others : ∀ other pair, other ≠ task → next.livePair? other = some pair →
      db.livePair? other = some pair) (own : ∀ pair, next.livePair? task = some pair →
      db.livePair? task = some pair ∨ ∀ other, db.livePair? other = some pair → other = task) :
    UniqueMilestones next := by
  intro first second pair firstLive secondLive
  by_cases isFirst : first = task
  · by_cases isSecond : second = task
    · rw [isFirst, isSecond]
    · have held := others second pair isSecond secondLive
      subst isFirst
      rcases own pair firstLive with kept | free
      · exact unique first second pair kept held
      · exact (free second held).symm
  · have held := others first pair isFirst firstLive
    by_cases isSecond : second = task
    · subst isSecond
      rcases own pair secondLive with kept | free
      · exact unique first second pair held kept
      · exact free first held
    · exact unique first second pair held (others second pair isSecond secondLive)

/-- A change that puts no task under way anew. -/
theorem UniqueMilestones.of_subset (kept : ∀ id pair, next.livePair? id = some pair → db.livePair? id = some pair) :
    UniqueMilestones next :=
  fun first second pair firstLive secondLive =>
    unique first second pair (kept first pair firstLive) (kept second pair secondLive)

private theorem uniqueMilestones_finalize {specPath milestoneId : Option String}
    (finalized : db.finalizeTaskArtifactReservation task specPath milestoneId = .ok next) : UniqueMilestones next := by
  obtain ⟨_, free, written⟩ := Except.bind_eq_ok_iff.mp finalized
  split at written
  · cases written
    refine unique.of_change task ?_ ?_
    · intro other pair ne live
      rw [Database.livePair?, Database.task?_recordEvent, Database.task?_updateTask, if_neg ne] at live
      exact live
    · intro pair live
      refine .inr fun other held => ?_
      rw [Database.livePair?, Database.task?_recordEvent, Database.task?_updateTask_self] at live
      obtain ⟨row, stored, pairs⟩ := bind_eq_some_iff.mp live
      obtain ⟨_, _, rfl⟩ := map_eq_some_iff.mp stored
      obtain ⟨_, spec, milestone⟩ := livePair?_eq_some.mp pairs
      subst spec milestone
      unfold requireMilestoneFree at free
      dsimp only at free
      split at free
      · cases free
      · next noRival => exact rival_of_milestoneTask? noRival held
  · cases written

private theorem uniqueMilestones_discard (discarded : db.discardTaskArtifactReservation task = .ok next) :
    UniqueMilestones next := by
  unfold discardTaskArtifactReservation at discarded
  split at discarded
  · cases discarded
  · cases discarded
    refine unique.of_subset fun id pair live => ?_
    obtain ⟨row, stored, pairs⟩ := bind_eq_some_iff.mp live
    change (db.tasks.deleteWhere _).get? id = some row at stored
    rw [Table.get?_deleteWhere] at stored
    exact bind_eq_some_iff.mpr ⟨row, (filter_eq_some_iff.mp stored).1, pairs⟩

/-- A reserved row belongs to no milestone yet. -/
private theorem uniqueMilestones_reserve (path : String) : UniqueMilestones (db.reserveTaskArtifact task path) := by
  refine unique.of_subset fun id pair live => ?_
  obtain ⟨row, stored, pairs⟩ := bind_eq_some_iff.mp live
  rw [reserveTaskArtifact, task?_ensureTaskExists] at stored
  split_ifs at stored with same
  · subst same
    cases found : db.task? id with
    | none =>
      rw [found] at stored
      cases stored
      cases pairs
    | some old =>
      rw [found] at stored
      cases stored
      exact bind_eq_some_iff.mpr ⟨_, found, pairs⟩
  · exact bind_eq_some_iff.mpr ⟨row, stored, pairs⟩

end

private theorem uniqueMilestones_status {event : TaskEvent} (unique : UniqueMilestones db)
    (unrivalled : Unrivalled db (.status event) (event.apply db)) : UniqueMilestones (event.apply db) := by
  refine unique.of_change event.task (fun other pair ne live => ?_) fun pair live => ?_
  · rcases event.task?_apply db other with ⟨kept, _⟩ | ⟨here, _⟩
    · rw [Database.livePair?, kept] at live
      exact live
    · exact absurd here ne
  · rcases event.task?_apply db event.task with ⟨kept, _⟩ | ⟨_, written⟩
    · rw [Database.livePair?, kept] at live
      exact .inl live
    · obtain ⟨after, stored, pairs⟩ := bind_eq_some_iff.mp live
      obtain ⟨base, based, rfl⟩ := map_eq_some_iff.mp (written.symm.trans stored)
      obtain ⟨status, origin, _⟩ := event.op.columns_effect _ base
      rw [TaskRow.livePair?, status, origin] at pairs
      rcases unrivalled base based pair pairs with held | free
      · exact .inl held
      · exact .inr fun other held => rival_of_milestoneTask? free held

/-- A lease is taken and renewed within the milestone of its task. -/
theorem Leased.livePair? {row after : TaskRow} (leased : Leased row after) : after.livePair? = row.livePair? := by
  have pair_clearLease (row : TaskRow) : row.clearLease.livePair? = row.livePair? := rfl
  have pair_promote (row : TaskRow) : row.promote.livePair? = row.livePair? := by
    unfold TaskRow.promote
    split
    · next pending =>
      unfold TaskRow.livePair?
      rw [pending]
      rfl
    · rfl
  rcases leased with same | same
  · rw [← pair_clearLease after, same, pair_clearLease]
  · rw [← pair_clearLease after, same, pair_clearLease, pair_promote]

private theorem uniqueMilestones_lease (frame : LeaseFrame db next) (unique : UniqueMilestones db) :
    UniqueMilestones next := by
  refine unique.of_subset fun id pair live => ?_
  obtain ⟨after, stored, pairs⟩ := bind_eq_some_iff.mp live
  cases found : db.task? id with
  | none =>
    obtain ⟨path, fresh⟩ := frame.inserted id after found stored
    have unnamed : after.clearLease.livePair? = none := by rw [fresh]; rfl
    cases unnamed.symm.trans pairs
  | some row =>
    obtain ⟨written, same, leased⟩ := frame.kept id row found
    obtain rfl := some.inj (stored.symm.trans same)
    exact bind_eq_some_iff.mpr ⟨row, found, leased.livePair?.symm.trans pairs⟩

private theorem uniqueMilestones_step {chrono : Chrono} {event : MilestoneEvent} (unique : UniqueMilestones db)
    (unrivalled : Unrivalled db event (milestoneStep chrono db event)) :
    UniqueMilestones (milestoneStep chrono db event) := by
  cases event with
  | reserve task path => exact uniqueMilestones_reserve unique path
  | finalize task specPath milestoneId =>
    dsimp only [milestoneStep]
    cases finalized : db.finalizeTaskArtifactReservation task specPath milestoneId with
    | ok next => exact uniqueMilestones_finalize unique finalized
    | error => exact unique
  | discard task =>
    dsimp only [milestoneStep]
    cases discarded : db.discardTaskArtifactReservation task with
    | ok next => exact uniqueMilestones_discard unique discarded
    | error => exact unique
  | status event => exact uniqueMilestones_status unique unrivalled
  | lease event => exact uniqueMilestones_lease (event.apply_leaseFrame chrono db) unique

/-- If every status operation finds its place free, each milestone has at most one task under way. -/
theorem uniqueMilestones_of_unrivalled (chrono : Chrono) (db : Database) (start : UniqueMilestones db)
    (events : List MilestoneEvent) (unrivalled : EveryStep (milestoneStep chrono) Unrivalled db events) :
    EveryStep (milestoneStep chrono) (fun _ _ next => UniqueMilestones next) db events :=
  unrivalled.of_invariant start (fun _ _ unique free => uniqueMilestones_step unique free)
    (fun _ _ unique free => uniqueMilestones_step unique free)

private theorem uniqueMilestones_empty : UniqueMilestones .empty := by
  intro first second pair live
  cases live

/-- Reserve a task and finalize it for the first milestone of a specification. -/
def enqueueEvents (task : TaskId) : List MilestoneEvent :=
  [.reserve task (".ferrus/tasks/" ++ task ++ ".md"), .finalize task (some "docs/spec.md") (some "m-1")]

/-- Record a status for the first task. -/
def statusEvent (status : TaskStatus) : MilestoneEvent :=
  .status ⟨"t-001", .upsertStatus ".ferrus/tasks/t-001.md" status none none⟩

/-- The first task is completed before the milestone gets another one. -/
def consecutiveEvents : List MilestoneEvent :=
  enqueueEvents "t-001" ++ [.lease (.call "executor:codex:1" 90 (newYear 0) .claimNextReady),
    .status ⟨"t-001", .submit ".ferrus/tasks/t-001.md" none none false⟩, statusEvent .complete] ++
    enqueueEvents "t-002"

theorem uniqueMilestones_of_consecutive :
    (run (milestoneStep utcChrono) .empty consecutiveEvents).status? "t-002" = some .pending ∧
    EveryStep (milestoneStep utcChrono) (fun _ _ next => UniqueMilestones next) .empty consecutiveEvents :=
  ⟨by decide, uniqueMilestones_of_unrivalled utcChrono .empty uniqueMilestones_empty consecutiveEvents (by decide)⟩

/-- The first task is reset and replaced while its executor still works on a submission. -/
def replacedEvents : List MilestoneEvent :=
  enqueueEvents "t-001" ++ [statusEvent .executing, statusEvent .reset] ++ enqueueEvents "t-002"

/-- The late submission gives the milestone two tasks. -/
theorem not_uniqueMilestones_of_replaced :
    ¬ EveryStep (milestoneStep utcChrono) (fun _ _ next => UniqueMilestones next) .empty
      (replacedEvents ++ [.status ⟨"t-001", .submit ".ferrus/tasks/t-001.md" none none false⟩]) := by
  intro law
  have same := law.at_cut "t-001" "t-002" ("docs/spec.md", "m-1") (by decide) (by decide)
  revert same
  decide

end Ferrus.Runtime

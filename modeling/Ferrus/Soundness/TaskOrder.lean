import Ferrus.Model.Runtime.Artifacts
import Ferrus.Model.Runtime.Claims
import Ferrus.Model.Runtime.UtcClock
import Ferrus.ToMathlib.DecimalText

/-! # The order of the task queue

The queue is scanned in the order of the ids, which are numbers padded to three digits. The first
task of the scan is the one that was allocated first exactly when no claimable id is shorter.
-/

namespace Ferrus.Runtime

variable {first second : Nat}

private theorem isDigit_paddedDigits : ∀ char ∈ paddedDigits first, char.isDigit = true := by
  intro char member
  rcases List.mem_append.mp member with padding | digit
  · rw [List.eq_of_mem_replicate padding]
    rfl
  · exact Nat.isDigit_of_mem_toDigits (by decide) le_rfl digit

@[simp] theorem ofDigitChars_paddedDigits : Nat.ofDigitChars 10 (paddedDigits first) 0 = first := by
  rw [paddedDigits, Nat.ofDigitChars_append, Nat.ofDigitChars_replicate_zero, Nat.mul_zero,
    Nat.ofDigitChars_ten_toDigits]

private theorem taskId_lt (sameWidth : (taskId first).length = (taskId second).length) (less : first < second) :
    taskId first < taskId second := by
  simp only [taskId, String.length_ofList, List.length_cons, Nat.add_right_cancel_iff] at sameWidth
  rw [taskId, taskId, String.lt_iff_toList_lt, String.toList_ofList, String.toList_ofList,
    List.cons_lt_cons_iff, List.cons_lt_cons_iff]
  exact .inr ⟨rfl, .inr ⟨rfl, lt_of_ofDigitChars_lt sameWidth isDigit_paddedDigits isDigit_paddedDigits
    (by simpa using less)⟩⟩

private theorem length_taskId_mono (less : first ≤ second) : (taskId first).length ≤ (taskId second).length := by
  have width (number : Nat) : (taskId number).length = 2 + max 3 (Nat.toDigits 10 number).length := by
    simp only [taskId, paddedDigits, String.length_ofList, List.length_cons, List.length_append, List.length_replicate]
    omega
  have below := (Nat.length_toDigits_le_iff (by decide) Nat.length_toDigits_pos).mp
    (le_refl (Nat.toDigits 10 second).length)
  have fewer := (Nat.length_toDigits_le_iff (by decide) Nat.length_toDigits_pos).mpr (less.trans_lt below)
  rw [width, width]
  omega

variable {chrono : Chrono} {db next : Database} {statuses : List TaskStatus} {now : Instant} {claim : ReadyTaskClaim}

/-- The queue holds the task and nobody has a live lease on it. -/
def Database.Claimable (chrono : Chrono) (db : Database) (statuses : List TaskStatus) (now : Instant) (id : TaskId) :
    Prop :=
  ∃ row, db.task? id = some row ∧ row.status ∈ statuses ∧ chrono.leaseActive now row.leaseUntil = false

/-- The caller has a live lease on a task of the queue, which it is given again. -/
def Database.HoldsLease (chrono : Chrono) (db : Database) (agent : AgentId) (statuses : List TaskStatus)
    (now : Instant) : Prop :=
  ∃ id row, db.task? id = some row ∧ row.status ∈ statuses ∧ chrono.leaseActive now row.leaseUntil = true ∧
    row.claimedBy = some agent

/-- A claim of the next task takes the claimable task with the least id. -/
theorem Database.claimNextTask_least {agent : AgentId} {ttlSecs : Nat} {promotePending : Bool}
    (claimed : db.claimNextTaskWithStatuses chrono agent ttlSecs statuses promotePending now = .ok (next, claim)) :
    (∀ lease, claim = .claimed lease → db.Claimable chrono statuses now lease.taskId ∧
      (∀ id, db.Claimable chrono statuses now id → lease.taskId ≤ id) ∧
      ¬ db.HoldsLease chrono agent statuses now ∧ chrono.leaseDeadline now ttlSecs ≠ none) ∧
    (claim = .noAvailable → ∀ id, ¬ db.Claimable chrono statuses now id) := by
  have scans {id : TaskId} (claimable : db.Claimable chrono statuses now id) : ∃ row,
      (id, row) ∈ db.tasks.select (fun _ row => row.status ∈ statuses) ∧
        (!chrono.leaseActive now row.leaseUntil) = true := by
    obtain ⟨row, found, queued, idle⟩ := claimable
    exact ⟨row, db.tasks.mem_select.mpr ⟨found, decide_eq_true queued⟩, by rw [idle]; rfl⟩
  unfold claimNextTaskWithStatuses at claimed
  dsimp only at claimed
  split at claimed
  · cases claimed
    exact ⟨by rintro _ ⟨⟩, by rintro ⟨⟩⟩
  · next unheld =>
    split at claimed
    · next id candidate scanned =>
      obtain ⟨found, queued⟩ := db.tasks.mem_select.mp (List.mem_of_find?_eq_some scanned)
      have idle := List.find?_some scanned
      unfold assignLease at claimed
      split at claimed
      · cases claimed
      · next fits =>
        cases claimed
        refine ⟨fun lease told => ?_, by rintro ⟨⟩⟩
        cases told
        refine ⟨⟨candidate, found, of_decide_eq_true queued, by simpa using idle⟩, fun other rival => ?_, ?_,
          fits ▸ Option.some_ne_none _⟩
        · obtain ⟨row, member, accepted⟩ := scans rival
          exact db.tasks.le_of_find?_select scanned member accepted
        · rintro ⟨id, row, found, queued, own⟩
          have free := List.find?_eq_none.mp unheld _ (db.tasks.mem_select.mpr ⟨found, decide_eq_true queued⟩)
          simp [own] at free
    · next scanned =>
      cases claimed
      refine ⟨by rintro _ ⟨⟩, fun _ id claimable => ?_⟩
      obtain ⟨row, member, accepted⟩ := scans claimable
      exact List.find?_eq_none.mp scanned _ member accepted

/-- A call that is not refused takes a claimable task if there is one. -/
theorem Database.claimNextTask_takes {agent : AgentId} {ttlSecs : Nat} {id : TaskId} {deadline : Instant}
    (promotePending : Bool) (idle : ¬ db.HoldsLease chrono agent statuses now)
    (fits : chrono.leaseDeadline now ttlSecs = some deadline) (claimable : db.Claimable chrono statuses now id) :
    ∃ next lease, db.claimNextTaskWithStatuses chrono agent ttlSecs statuses promotePending now =
      .ok (next, .claimed lease) := by
  unfold claimNextTaskWithStatuses
  dsimp only
  split
  · next id row scanned =>
    obtain ⟨found, queued⟩ := db.tasks.mem_select.mp (List.mem_of_find?_eq_some scanned)
    have own := List.find?_some scanned
    rw [Bool.and_eq_true, decide_eq_true_eq] at own
    exact absurd ⟨id, row, found, of_decide_eq_true queued, own⟩ idle
  · split
    · simp only [assignLease, fits]
      exact ⟨_, _, rfl⟩
    · next scanned =>
      obtain ⟨row, found, queued, free⟩ := claimable
      have accepted := List.find?_eq_none.mp scanned _ (db.tasks.mem_select.mpr ⟨found, decide_eq_true queued⟩)
      simp [free] at accepted

/-- A claim of the next task takes the claimable one with the smallest number, and none only if
there is none. -/
structure HandsOutFirst (chrono : Chrono) (db : Database) (agent : AgentId) (ttlSecs : Nat)
    (statuses : List TaskStatus) (promotePending : Bool) (now : Instant) : Prop where
  first : ∀ next lease, db.claimNextTaskWithStatuses chrono agent ttlSecs statuses promotePending now =
    .ok (next, .claimed lease) → ∃ number, lease.taskId = taskId number ∧
      db.Claimable chrono statuses now (taskId number) ∧
      ∀ other, db.Claimable chrono statuses now (taskId other) → number ≤ other
  none : ∀ next, db.claimNextTaskWithStatuses chrono agent ttlSecs statuses promotePending now =
    .ok (next, .noAvailable) → ∀ id, ¬ db.Claimable chrono statuses now id

/-- The claim of the next task hands out the one that was allocated first exactly when the caller has a task already,
or no deadline can be given to it, or no claimable id is shorter than the one that stands first. -/
theorem next_task_allocated_first (chrono : Chrono) (db : Database) (agent : AgentId) (ttlSecs : Nat)
    (statuses : List TaskStatus) (promotePending : Bool) (now : Instant)
    (allocated : ∀ id, db.Claimable chrono statuses now id → ∃ number, id = taskId number) :
    HandsOutFirst chrono db agent ttlSecs statuses promotePending now ↔
      db.HoldsLease chrono agent statuses now ∨ chrono.leaseDeadline now ttlSecs = none ∨
        ∀ first, db.Claimable chrono statuses now first → (∀ id, db.Claimable chrono statuses now id → first ≤ id) →
          ∀ id, db.Claimable chrono statuses now id → first.length ≤ id.length := by
  constructor
  · intro handsOut
    by_cases holds : db.HoldsLease chrono agent statuses now
    · exact .inl holds
    cases fits : chrono.leaseDeadline now ttlSecs with
    | none => exact .inr (.inl rfl)
    | some deadline =>
      refine .inr (.inr fun first claimable least id rival => ?_)
      obtain ⟨next, lease, claimed⟩ := Database.claimNextTask_takes promotePending holds fits claimable
      obtain ⟨taken, leastTaken, -⟩ := (Database.claimNextTask_least claimed).1 lease rfl
      obtain ⟨number, spelled, -, smallest⟩ := handsOut.first next lease claimed
      obtain ⟨other, rfl⟩ := allocated id rival
      rw [le_antisymm (least _ taken) (leastTaken _ claimable), spelled]
      exact length_taskId_mono (smallest other rival)
  · intro condition
    refine ⟨fun next lease claimed => ?_, fun next claimed => (Database.claimNextTask_least claimed).2 rfl⟩
    obtain ⟨claimable, least, idle, fits⟩ := (Database.claimNextTask_least claimed).1 lease rfl
    have shortest := (condition.resolve_left idle).resolve_left fits _ claimable least
    obtain ⟨number, spelled⟩ := allocated lease.taskId claimable
    rw [spelled] at claimable least shortest
    refine ⟨number, spelled, claimable, fun other rival => le_of_not_gt fun less => ?_⟩
    -- the smaller number is not longer, so it is of the same width and stands before
    have sameWidth := le_antisymm (length_taskId_mono less.le) (shortest _ rival)
    exact not_lt_of_ge (least _ rival) (taskId_lt sameWidth less)

/-- A queue of two tasks. -/
def queueOf (first second : Nat) : Database where
  tasks := (Table.empty.insertNew (taskId first) { path := "a.md", status := .pending }).insertNew (taskId second)
    { path := "b.md", status := .pending }
  runs := .empty
  events := []
  runtimeState := {}

/-- The task an executor's call gets. -/
def nextTask (db : Database) : Option TaskId :=
  match db.claimNextReadyTask utcChrono "executor:codex:1" 90 (newYear 0) with
  | .ok (_, .claimed lease) => some lease.taskId
  | _ => none

private theorem queueOf_claimable {id : TaskId} (claimable : (queueOf first second).Claimable chrono statuses now id) :
    id = taskId second ∨ id = taskId first := by
  obtain ⟨row, found, -⟩ := claimable
  by_contra others
  obtain ⟨notSecond, notFirst⟩ := not_or.mp others
  simp [Database.task?, queueOf, Table.get?_insertNew, notSecond, notFirst] at found

/-- Two widths, and the shorter id stands first. -/
theorem next_task_allocated_first_padded : nextTask (queueOf 1000 1) = some (taskId 1) ∧
    HandsOutFirst utcChrono (queueOf 1000 1) "executor:codex:1" 90
    [.pending, .executing, .addressing] true (newYear 0) := by
  refine ⟨by decide, (next_task_allocated_first utcChrono _ _ _ _ _ _ fun id claimable => ?_).mpr (.inr (.inr ?_))⟩
  · rcases queueOf_claimable claimable with same | same
    · exact ⟨_, same⟩
    · exact ⟨_, same⟩
  · intro first claimable least id rival
    have stands := least (taskId 1) ⟨_, rfl, by decide⟩
    rcases queueOf_claimable claimable with rfl | rfl
    · rcases queueOf_claimable rival with rfl | rfl <;> decide
    · exact absurd stands (by decide)

/-- The first id of four digits stands before the last one of three. -/
theorem next_task_not_allocated_first :
    (queueOf 999 1000).Claimable utcChrono [.pending, .executing, .addressing] (newYear 0) (taskId 999) ∧
      nextTask (queueOf 999 1000) = some (taskId 1000) :=
  ⟨⟨_, rfl, by decide⟩, by decide⟩

end Ferrus.Runtime

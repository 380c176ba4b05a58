import Ferrus.Machine.Core.Run
import Ferrus.Proofs.CommandSpools
import Mathlib.Algebra.GroupWithZero.Nat
import Mathlib.Algebra.BigOperators.Group.List.Basic

/-! # The output of background commands

However the supervisors of a session are interleaved, what they have written and may still write never exceeds the
charged bytes: a supervisor takes from the counter before it writes, and what it holds more after a step is what the
step has taken. Each supervisor's own invariant does not depend on the others.
-/

namespace Ferrus.Nano.Commands

open Ferrus.Machine List Session

namespace Session

/-- The bytes of all spools. -/
def spoolBytes (session : Session) : Nat := (session.processes.map (·.spoolBytes)).sum

/-- The invariant of a session with some limits. -/
structure Balanced (limits : Limits) (session : Session) : Prop where
  limits_eq : session.limits = limits
  sound : ∀ process ∈ session.processes, process.Sound limits
  within : session.charged ≤ limits.totalBytes
  balance : (session.processes.map (·.held)).sum + stateBytes * session.attempts ≤ session.charged

theorem sum_map_set {α : Type} (weight : α → Nat) (items : List α) {index : Nat} {item : α}
    (found : items[index]? = some item)
    (next : α) : ((items.set index next).map weight).sum + weight item = (items.map weight).sum + weight next := by
  induction items generalizing index with
  | nil => cases found
  | cons first rest ih =>
    cases index with
    | zero =>
      obtain rfl := Option.some.inj found
      simp only [set_cons_zero, map_cons, sum_cons]
      omega
    | succ index =>
      have rest := ih found
      simp only [set_cons_succ, map_cons, sum_cons]
      omega

variable {limits : Limits} {session : Session}

theorem balanced_new (sessionId backend : String) (limits : Limits) : Balanced limits (.new sessionId backend limits) :=
  ⟨rfl, fun _ member => absurd member not_mem_nil, Nat.zero_le _, Nat.le_refl _⟩

theorem sound_start (limits : Limits) {snapshot : Snapshot} (running : snapshot.completion = .running)
    (empty : snapshot.outputBytes = 0) (incomplete : snapshot.outputComplete = false) :
    (Supervisor.start snapshot).Sound limits := by
  refine ⟨⟨Nat.zero_le _, fun stream isDone => ?_, fun complete => ?_, fun complete => ?_⟩,
    ⟨⟨rfl, empty, rfl, rfl⟩, ?_⟩⟩
  · cases stream <;> cases isDone
  · exact absurd (incomplete.symm.trans complete) (by simp)
  · exact absurd (incomplete.symm.trans complete) (by simp)
  · rintro (limit | unknown | ⟨_, cancelled | timedOut⟩)
    · cases running.symm.trans limit
    · cases running.symm.trans unknown
    · cases running.symm.trans cancelled
    · cases running.symm.trans timedOut

/-- A command is refused, or charged for the bytes of its state; then its process is started, or fails to start. -/
theorem exec_cases (session : Session) (request : ExecRequest) (cancelled spawned : Bool) :
    (session.exec request cancelled spawned).1 = session ∨
      session.charged + stateBytes ≤ session.limits.totalBytes ∧
        ((∃ snapshot : Snapshot, snapshot.completion = .running ∧ snapshot.outputBytes = 0 ∧
          snapshot.outputComplete = false ∧
          (session.exec request cancelled spawned).1 = { session with
            charged := session.charged + stateBytes, attempts := session.attempts + 1
            processes := session.processes ++ [.start snapshot] }) ∨
        (session.exec request cancelled spawned).1 = { session with
          charged := session.charged + stateBytes, attempts := session.attempts + 1 }) := by
  unfold exec
  split
  · exact .inl rfl
  split
  · exact .inl rfl
  split
  · exact .inl rfl
  cases reserved : Commands.reserve session.charged session.limits.totalBytes stateBytes with
  | none => exact .inl rfl
  | some charged =>
    unfold Commands.reserve at reserved
    split_ifs at reserved with fits
    obtain rfl := Option.some.inj reserved
    refine .inr ⟨fits, ?_⟩
    cases spawned with
    | true => exact .inl ⟨_, rfl, rfl, rfl, rfl⟩
    | false => exact .inr rfl

variable (balanced : Balanced limits session)

include balanced

theorem Balanced.exec (request : ExecRequest) (cancelled spawned : Bool) :
    Balanced limits (session.exec request cancelled spawned).1 := by
  obtain ⟨rfl, sound, within, balance⟩ := balanced
  have more : stateBytes * (session.attempts + 1) = stateBytes * session.attempts + stateBytes := Nat.mul_succ _ _
  obtain same | ⟨fits, ⟨snapshot, running, empty, incomplete, started⟩ | failed⟩ :=
    exec_cases session request cancelled spawned
  · rw [same]
    exact ⟨rfl, sound, within, balance⟩
  · rw [started]
    refine ⟨rfl, fun process member => ?_, fits, ?_⟩
    · obtain old | new := mem_append.mp member
      · exact sound process old
      · obtain rfl := mem_singleton.mp new
        exact sound_start _ running empty incomplete
    · have none : (Supervisor.start snapshot).held = 0 := rfl
      simp only [map_append, map_cons, map_nil, sum_append, sum_cons, sum_nil, none]
      omega
  · rw [failed]
    refine ⟨rfl, sound, fits, ?_⟩
    dsimp only
    omega

theorem Balanced.process {index : Nat} {supervisor : Supervisor}
    (found : session.processes[index]? = some supervisor) (event : SupervisorEvent) :
    Balanced limits { session with
      charged := (supervisor.step session.limits session.charged event).2
      processes := session.processes.set index (supervisor.step session.limits session.charged event).1 } := by
  obtain ⟨rfl, sound, within, balance⟩ := balanced
  obtain ⟨soundNext, heldNext, totalNext⟩ :=
    Supervisor.step_steps session.charged (sound supervisor (mem_of_getElem? found)) event
  refine ⟨rfl, fun process member => ?_, totalNext within, ?_⟩
  · obtain old | rfl := mem_or_eq_of_mem_set member
    · exact sound process old
    · exact soundNext
  · have sums := sum_map_set (·.held) session.processes found (supervisor.step session.limits session.charged event).1
    dsimp only at sums ⊢
    omega

theorem Balanced.step (event : CommandEvent) : Balanced limits (session.step event) := by
  cases event with
  | exec request cancelled spawned => exact balanced.exec request cancelled spawned
  | shutdown => exact { balanced with }
  | process index event =>
    simp only [Session.step]
    cases found : session.processes[index]? with
    | none => exact balanced
    | some supervisor => exact balanced.process found event

theorem Balanced.spoolBytes_le : session.spoolBytes + stateBytes * session.attempts ≤ limits.totalBytes := by
  have less : session.spoolBytes ≤ (session.processes.map (·.held)).sum := by
    unfold spoolBytes
    induction session.processes with
    | nil => exact Nat.le_refl _
    | cons process rest ih =>
      have here : process.spoolBytes ≤ process.held := Nat.le_add_right _ _
      simp only [map_cons, sum_cons]
      omega
  have balance := balanced.balance
  have within := balanced.within
  omega

end Session

namespace Supervisor

variable {limits : Limits} {supervisor : Supervisor}

theorem report_outputComplete : supervisor.report.outputComplete = supervisor.status.outputComplete := by
  unfold report
  split_ifs <;> rfl

/-- Output that is reported as complete is all in the spools. -/
theorem Sound.complete (sound : supervisor.Sound limits) (complete : supervisor.report.outputComplete = true) :
    supervisor.allDone = true ∧ supervisor.spools = supervisor.received := by
  rw [report_outputComplete] at complete
  have all := sound.base.told complete
  refine ⟨all, Streams.ext_get fun stream => (sound.base.done stream ?_).1⟩
  obtain ⟨out, err⟩ := (Bool.and_eq_true _ _ ▸ all : _ ∧ _)
  cases stream with
  | stdout => exact out
  | stderr => exact err

/-- The last report of a supervisor that lacks some output. -/
theorem Sound.completion (sound : supervisor.Sound limits) (ended : supervisor.phase = .ended)
    (isCut : supervisor.spools ≠ supervisor.received) :
    supervisor.report.completion = .outputLimit ∨ supervisor.report.completion = .unknown ∨
      supervisor.interruptedCapture = true ∧
        (supervisor.report.completion = .cancelled ∨ supervisor.report.completion = .timedOut) := by
  have inPhase := sound.inPhase
  rw [InPhase, ended] at inPhase
  obtain ⟨⟨whole, _⟩ | broken, last⟩ := inPhase
  · exact absurd whole isCut
  · have same : supervisor.report = supervisor.snapshot := by rw [report, ended, if_neg (by simp), last]
    rw [same]
    exact broken

end Supervisor

/-- However the supervisors are interleaved and whatever their reads return: the spools of all processes, with the
state of each attempt, stay within the total of the session and those of each process within its limit. A process
that lacks some of its output is reported with incomplete output, and at its end with a completion that says why. -/
theorem output_within_limits (sessionId backend : String) (limits : Limits) (events : List CommandEvent) :
    (run step (.new sessionId backend limits) events).spoolBytes +
        stateBytes * (run step (.new sessionId backend limits) events).attempts ≤ limits.totalBytes ∧
    ∀ process ∈ (run step (.new sessionId backend limits) events).processes,
      process.spoolBytes ≤ limits.processOutputBytes ∧
      (process.spools ≠ process.received ∨ process.allDone = false → process.report.outputComplete = false) ∧
      (process.phase = .ended → process.spools ≠ process.received →
        process.report.completion = .outputLimit ∨ process.report.completion = .unknown ∨
          process.interruptedCapture = true ∧
            (process.report.completion = .cancelled ∨ process.report.completion = .timedOut)) := by
  have balanced : (run step (.new sessionId backend limits) events).Balanced limits :=
    run_invariant (Session.Balanced limits) (balanced_new sessionId backend limits)
      (fun _ event balanced => balanced.step event) events
  refine ⟨balanced.spoolBytes_le, fun process member => ?_⟩
  have sound := balanced.sound process member
  refine ⟨Nat.le_trans (Nat.le_add_right _ _) sound.base.held_le, fun isCut => ?_, sound.completion⟩
  by_contra complete
  obtain ⟨all, whole⟩ := sound.complete (Bool.not_eq_false _ ▸ complete)
  exact isCut.elim (fun lacks => lacks whole) fun notAll => Bool.noConfusion (all.symm.trans notAll)

/-! ### A read that is too long -/

def exampleLimits : Limits := ⟨1, 1, 1000, 2, 3000⟩

/-- The process writes three bytes and may keep two. -/
def longRead : List CommandEvent :=
  [.exec ⟨"yes", ".", 1000⟩ false true, .process 0 (.read .stdout [1, 2, 3]), .process 0 .load, .process 0 .reserve,
    .process 0 (.write 5), .process 0 .complete, .process 0 (.waited none false), .process 0 .finish]

theorem output_within_limits_longRead :
    (run step (.new "s" "trusted_local" exampleLimits) longRead).spoolBytes + stateBytes * 1 ≤ 3000 ∧
    (run step (.new "s" "trusted_local" exampleLimits) longRead).processes.map
      (fun process => (process.spools, process.report.outputComplete, process.report.completion)) =
        [(⟨[1, 2], []⟩, false, .outputLimit)] := by
  have within := (output_within_limits "s" "trusted_local" exampleLimits longRead).1
  exact ⟨within, by decide +kernel⟩

end Ferrus.Nano.Commands

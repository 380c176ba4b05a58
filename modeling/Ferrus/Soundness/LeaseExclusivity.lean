import Ferrus.Machine.Core.Run
import Ferrus.Proofs.LeaseEffects
import Ferrus.Proofs.UtcRoundTrip

/-! # Leases exclude each other

The deadline an agent is granted and the text that later transactions parse agree as long as the
deadline has a four-digit year. Then no other agent takes the task before that deadline. A TTL that
reaches past the year 9999 is granted all the same, but its text does not parse, so the next claim
takes the task away at once.
-/

namespace Ferrus.Runtime

open Ferrus.Machine

/-- A task table with the time of the last clock read and the deadline each agent was last granted. -/
structure LeaseState where
  db : Database
  clock : Instant
  granted : TaskId → AgentId → Option Instant

/-- A lease write grants the agent the second it stores. -/
def LeaseEffect.grant (agent : AgentId) (granted : TaskId → AgentId → Option Instant) :
    LeaseEffect → TaskId → AgentId → Option Instant
  | .none, task, holder => granted task holder
  | .claimed leased deadline, task, holder | .renewed leased deadline, task, holder =>
      if task = leased ∧ holder = agent then some (wholeSecond deadline) else granted task holder

namespace LeaseState

variable (chrono : Chrono)

/-- Before the first event an owner holds what the stored text says. -/
def initial (db : Database) (clock : Instant) : LeaseState where
  db
  clock
  granted task agent :=
    if db.owner task = some agent then chrono.parseLeaseUntil (db.leaseUntil task) else none

def step (state : LeaseState) (event : LeaseEvent) : LeaseState where
  db := (event.apply chrono state.db).1
  clock := event.finish
  granted := (event.apply chrono state.db).2.grant event.agent state.granted

/-- The agent has been granted the task until after `time`. -/
def Live (state : LeaseState) (time : Instant) (task : TaskId) (agent : AgentId) : Prop :=
  ∃ deadline, state.granted task agent = some deadline ∧ time < deadline

/-- From now on at most one agent holds a live lease on a task. -/
def Exclusive (state : LeaseState) : Prop :=
  ∀ time task first second, state.clock ≤ time → state.Live time task first →
    state.Live time task second → first = second

end LeaseState

/-- The clock does not run backwards. -/
def Timely (state : LeaseState) (event : LeaseEvent) (_target : LeaseState) : Prop :=
  state.clock ≤ event.start ∧ event.start ≤ event.finish

instance (state : LeaseState) (event : LeaseEvent) (target : LeaseState) : Decidable (Timely state event target) :=
  inferInstanceAs (Decidable (_ ∧ _))

/-- Each deadline the event can compute has a four-digit year. -/
def PrintableDeadline (chrono : Chrono) (_state : LeaseState) (event : LeaseEvent) (_target : LeaseState) : Prop :=
  ∀ now ∈ [event.start, event.finish], ∀ deadline ∈ chrono.leaseDeadline now event.ttlSecs,
    FourDigitYear deadline

instance (chrono : Chrono) (state : LeaseState) (event : LeaseEvent) (target : LeaseState) :
    Decidable (PrintableDeadline chrono state event target) :=
  inferInstanceAs (Decidable (∀ now ∈ [event.start, event.finish],
    ∀ deadline ∈ chrono.leaseDeadline now event.ttlSecs, FourDigitYear deadline))

/-- An owner loses a task to another agent only at or after the granted deadline, no two agents hold
a live lease, and only the live owner renews. -/
structure LeaseLaw (chrono : Chrono) (state : LeaseState) (event : LeaseEvent) (target : LeaseState) :
    Prop where
  takeover : ∀ task holder taker deadline, state.db.owner task = some holder →
    target.db.owner task = some taker → taker ≠ holder → state.granted task holder = some deadline →
    deadline ≤ event.start
  exclusive : state.Exclusive ∧ target.Exclusive
  renewal : ∀ task deadline, (event.apply chrono state.db).2 = .renewed task deadline →
    state.db.owner task = some event.agent ∧ state.Live event.finish task event.agent

/-- The granted deadlines and the stored columns agree, except for grants that have run out. -/
structure LeaseState.Agrees (chrono : Chrono) (state : LeaseState) : Prop where
  owned : ∀ task agent, state.db.owner task = some agent →
    state.granted task agent = chrono.parseLeaseUntil (state.db.leaseUntil task)
  lapsed : ∀ task agent deadline, state.granted task agent = some deadline →
    state.db.owner task = some agent ∨ deadline ≤ state.clock

variable {chrono : Chrono} {state : LeaseState} {event : LeaseEvent}

namespace LeaseState

theorem agrees_initial (db : Database) (clock : Instant) : (initial chrono db clock).Agrees chrono where
  owned task agent owner := if_pos owner
  lapsed task agent deadline granted := by
    refine .inl ?_
    by_contra other
    cases granted.symm.trans (if_neg other)

/-- A grant that outlives the clock belongs to the stored owner. -/
theorem Agrees.exclusive (agrees : state.Agrees chrono) : state.Exclusive := by
  intro time task first second later ⟨_, firstGrant, firstLive⟩ ⟨_, secondGrant, secondLive⟩
  have firstOwner :=
    (agrees.lapsed _ _ _ firstGrant).resolve_right (not_le.mpr (lt_of_le_of_lt later firstLive))
  have secondOwner :=
    (agrees.lapsed _ _ _ secondGrant).resolve_right (not_le.mpr (lt_of_le_of_lt later secondLive))
  exact Option.some.inj (firstOwner.symm.trans secondOwner)

/-- A lease that is not live at `time` was granted at most until then. -/
theorem Agrees.deadline_le (agrees : state.Agrees chrono) {task : TaskId} {agent : AgentId} {time deadline : Instant}
    (expired : chrono.leaseActive time (state.db.leaseUntil task) = false) (owner : state.db.owner task = some agent)
    (granted : state.granted task agent = some deadline) : deadline ≤ time := by
  by_contra later
  rw [agrees.owned task agent owner] at granted
  rw [chrono.leaseActive_iff.mpr ⟨deadline, granted, not_le.mp later⟩] at expired
  cases expired

end LeaseState

/-- The stored text of a printable deadline is read back as the granted second. -/
private theorem parse_stored (readsBack : chrono.ReadsBack)
    (printable : PrintableDeadline chrono state event (state.step chrono event)) {now deadline : Instant}
    (read : now ∈ [event.start, event.finish]) (computed : chrono.leaseDeadline now event.ttlSecs = some deadline) :
    chrono.parseLeaseUntil (some (chrono.toRfc3339Secs deadline)) = some (wholeSecond deadline) :=
  readsBack deadline (printable now read deadline computed)

/-- A write of one task's lease keeps the agreement: the new owner is granted what was stored, and
every other grant of the task has run out. -/
private theorem agrees_write {next : Database} {task : TaskId} {finish deadline : Instant} {agent : AgentId}
    {effect : LeaseEffect} (agrees : state.Agrees chrono) (later : state.clock ≤ finish)
    (grant : ∀ other holder, effect.grant agent state.granted other holder =
      if other = task ∧ holder = agent then some deadline else state.granted other holder)
    (owned : next.owner task = some agent)
    (stored : chrono.parseLeaseUntil (next.leaseUntil task) = some deadline)
    (rest : SameLeasesExcept task state.db next)
    (outlived : ∀ holder old, holder ≠ agent → state.db.owner task = some holder →
      state.granted task holder = some old → old ≤ finish) :
    LeaseState.Agrees chrono ⟨next, finish, effect.grant agent state.granted⟩ where
  owned other holder owner := by
    dsimp only at owner ⊢
    rw [grant]
    by_cases same : other = task
    · subst same
      rw [Option.some.inj (owner.symm.trans owned), if_pos ⟨rfl, rfl⟩, stored]
    · rw [if_neg (fun both => same both.1), (rest other same).2]
      exact agrees.owned other holder ((rest other same).1.symm.trans owner)
  lapsed other holder old granted := by
    dsimp only at granted ⊢
    rw [grant] at granted
    by_cases same : other = task
    · subst same
      by_cases self : holder = agent
      · exact .inl (by rw [owned, self])
      · rw [if_neg (fun both => self both.2)] at granted
        refine .inr ?_
        rcases agrees.lapsed _ _ _ granted with owner | past
        · exact outlived holder old self owner granted
        · exact past.trans later
    · rw [if_neg (fun both => same both.1)] at granted
      rw [(rest other same).1]
      exact (agrees.lapsed _ _ _ granted).imp_right fun past => past.trans later

/-- One timely step with a printable deadline keeps the agreement. -/
private theorem agrees_step (readsBack : chrono.ReadsBack) (agrees : state.Agrees chrono)
    (timely : Timely state event (state.step chrono event))
    (printable : PrintableDeadline chrono state event (state.step chrono event)) :
    (state.step chrono event).Agrees chrono := by
  have later : state.clock ≤ event.finish := timely.1.trans timely.2
  have move := event.apply_move chrono state.db
  unfold LeaseState.step
  generalize event.apply chrono state.db = result at move ⊢
  obtain ⟨next, effect⟩ := result
  cases move with
  | kept same =>
    refine ⟨fun task agent owner => ?_, fun task agent deadline granted => ?_⟩
    · rw [(same task).2]
      exact agrees.owned task agent ((same task).1.symm.trans owner)
    · rw [(same task).1]
      exact (agrees.lapsed _ _ _ granted).imp_right fun past => past.trans later
  | claimed expired computed owned stored rest =>
    refine agrees_write agrees later (fun _ _ => rfl) owned ?_ rest ?_
    · rw [stored]
      exact parse_stored readsBack printable (by simp) computed
    · intro holder old _ owner granted
      exact (agrees.deadline_le expired owner granted).trans timely.2
  | renewed live holder computed owned stored rest =>
    refine agrees_write agrees later (fun _ _ => rfl) owned ?_ rest ?_
    · rw [stored]
      exact parse_stored readsBack printable (by simp) computed
    · intro other old ne owner _
      exact absurd (Option.some.inj (owner.symm.trans holder)) ne

/-- One timely step from an agreeing state. -/
private theorem leaseLaw_step (agrees : state.Agrees chrono) (after : (state.step chrono event).Agrees chrono) :
    LeaseLaw chrono state event (state.step chrono event) := by
  have move := event.apply_move chrono state.db
  refine ⟨fun task holder taker deadline owner taken other granted => ?_,
    ⟨agrees.exclusive, after.exclusive⟩, fun task deadline renewed => ?_⟩
  · change (event.apply chrono state.db).1.owner task = some taker at taken
    generalize event.apply chrono state.db = result at move taken
    obtain ⟨next, effect⟩ := result
    have unchanged (same : next.owner task = state.db.owner task) : deadline ≤ event.start :=
      absurd (Option.some.inj (taken.symm.trans (same.trans owner))) other
    cases move with
    | kept same => exact unchanged (same task).1
    | @claimed _ _ leased _ expired _ _ _ rest =>
      by_cases here : task = leased
      · subst here
        exact agrees.deadline_le expired owner granted
      · exact unchanged (rest task here).1
    | @renewed _ _ leased _ _ renewer _ owned _ rest =>
      by_cases here : task = leased
      · subst here
        exact unchanged (owned.trans renewer.symm)
      · exact unchanged (rest task here).1
  · rw [renewed] at move
    cases move with
    | renewed live holder =>
      obtain ⟨stored, parsed, later⟩ := chrono.leaseActive_iff.mp live
      exact ⟨holder, stored, (agrees.owned _ _ holder).trans parsed, later⟩

/-- In every timely run whose deadlines have four-digit years, leases exclude each other. -/
theorem leaseLaw_of_printable (readsBack : chrono.ReadsBack) (db : Database) (clock : Instant)
    (events : List LeaseEvent) (timely : EveryStep (LeaseState.step chrono) Timely (.initial chrono db clock) events)
    (printable : EveryStep (LeaseState.step chrono) (PrintableDeadline chrono) (.initial chrono db clock) events) :
    EveryStep (LeaseState.step chrono) (LeaseLaw chrono) (.initial chrono db clock) events := by
  refine (timely.and printable).of_invariant (LeaseState.agrees_initial db clock) ?_ ?_
  · intro state event agrees ⟨inTime, fits⟩
    exact agrees_step readsBack agrees inTime fits
  · intro state event agrees ⟨inTime, fits⟩
    exact leaseLaw_step agrees (agrees_step readsBack agrees inTime fits)

/-- One task waits in the queue. -/
def queuedDatabase : Database where
  tasks := Table.empty.insertNew "t-001" { path := ".ferrus/tasks/t-001.md", status := .pending }
  runs := .empty
  events := []
  runtimeState := {}

/-- The first executor renews its lease; the second one gets the task after the lease has run out. -/
def handedOverEvents : List LeaseEvent :=
  [.call "executor:codex:1" 90 (newYear 0) .claimNextReady, .call "executor:codex:1" 90 (newYear 60) .renewClaimed,
    .call "executor:codex:2" 90 (newYear 100) .claimNextReady,
    .call "executor:codex:2" 90 (newYear 150) .claimNextReady]

theorem leaseLaw_of_handedOver : (run (LeaseState.step utcChrono) (.initial utcChrono queuedDatabase (newYear 0))
      handedOverEvents).db.owner "t-001" = some "executor:codex:2" ∧
    EveryStep (LeaseState.step utcChrono) (LeaseLaw utcChrono)
      (.initial utcChrono queuedDatabase (newYear 0)) handedOverEvents :=
  ⟨by decide, leaseLaw_of_printable utcChrono_readsBack queuedDatabase (newYear 0) handedOverEvents
    (by decide) (by decide)⟩

/-- A TTL of about 12,675 years. -/
def longClaim : LeaseEvent := .call "executor:codex:1" 400000000000 (newYear 0) .claimNextReady

/-- The next executor asks for work one second later. -/
def nextClaim : LeaseEvent := .call "executor:codex:2" 90 (newYear 1) .claimNextReady

/-- The lease that ends in the year 14701 is taken over after a second. -/
theorem not_leaseLaw_of_longClaim :
    EveryStep (LeaseState.step utcChrono) Timely (.initial utcChrono queuedDatabase (newYear 0))
      [longClaim, nextClaim] ∧ ¬ EveryStep (LeaseState.step utcChrono) (LeaseLaw utcChrono)
      (.initial utcChrono queuedDatabase (newYear 0)) [longClaim, nextClaim] := by
  refine ⟨by decide, fun law => ?_⟩
  have early := law.2.1.takeover "t-001" "executor:codex:1" "executor:codex:2"
    (newYear 400000000000) (by decide) (by decide) (by decide) (by decide)
  revert early
  decide

end Ferrus.Runtime

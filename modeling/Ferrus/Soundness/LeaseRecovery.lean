import Ferrus.Machine.Core.Run
import Ferrus.Model.Runtime.Recovery
import Ferrus.Proofs.LeaseEffects
import Ferrus.Proofs.UtcRoundTrip

/-! # Recovery races with claims

A recovery pass clears by task id alone. It takes away only what it has listed as long as each row
still has the listed owner and lease text. Nothing checks this: a claim that lands after the listing
is cleared with its live lease.
-/

namespace Ferrus.Runtime

open Ferrus.Machine Database

/-- A recovery pass, with a record of the tasks claimed or renewed since it started to list. -/
structure RecoveryPass where
  now : Instant
  phase : RecoveryPhase
  taken : List TaskId := []

structure RecoveryState where
  db : Database
  clock : Instant
  passes : Table Nat RecoveryPass

open RecoveryState

/-- Claims and renewals interleave with the statements of any number of passes. A clear has a moment
of its own, although it does not read the clock. -/
inductive RecoveryEvent where
  | lease (event : LeaseEvent)
  | start (pass : Nat) (now : Instant) (processIsAlive : Nat → Bool)
  | list (pass : Nat)
  | clear (pass : Nat) (moment : Instant)
  | record (pass : Nat)

def LeaseEffect.task? : LeaseEffect → Option TaskId
  | .none => Option.none
  | .claimed task _ | .renewed task _ => some task

/-- A lease write is noted in the pass. -/
def RecoveryPass.note (effect : LeaseEffect) (pass : RecoveryPass) : RecoveryPass :=
  { pass with taken := effect.task?.toList ++ pass.taken }

namespace RecoveryState

variable (chrono : Chrono)

section

variable (state : RecoveryState)

def phase? (id : Nat) : Option RecoveryPhase := (state.passes.get? id).map (·.phase)

/-- The lease that a clear statement is about to clear. -/
def cleared? : RecoveryEvent → Option ListedLease
  | .clear id _ =>
      match state.phase? id with
      | some (.clearing (lease :: _)) => some lease
      | _ => none
  | _ => none

def advance (id : Nat) (phase : RecoveryPhase) : RecoveryState :=
  { state with passes := state.passes.modify id (fun pass => { pass with phase }) }

/-- A statement of a pass that is not in the phase for it does nothing. -/
def step : RecoveryEvent → RecoveryState
  | .lease event =>
      { db := (event.apply chrono state.db).1
        clock := event.finish
        passes := state.passes.updateWhere (fun _ _ => true) (.note (event.apply chrono state.db).2) }
  | .start id now processIsAlive =>
      { state with
        clock := now
        passes := state.passes.insertNew id ⟨now, .listing (state.db.liveActiveRunTaskIds processIsAlive), []⟩ }
  | .list id =>
      match state.passes.get? id with
      | some ⟨now, .listing liveTasks, _⟩ =>
          { state with passes := state.passes.modify id (fun _ =>
              ⟨now, .clearing (state.db.expiredLeases chrono now liveTasks), []⟩) }
      | _ => state
  | .clear id moment =>
      match state.phase? id with
      | some (.clearing (lease :: rest)) =>
          { state.advance id (.recording rest) with
            db := state.db.clearTaskLease lease.taskId
            clock := moment }
      | _ => state
  | .record id =>
      match state.phase? id with
      | some (.recording rest) =>
          { state.advance id (.clearing rest) with db := state.db.recordEvent "task_lease_expired" }
      | _ => state

end

end RecoveryState

/-- The clock does not run backwards. -/
def RecoveryTimely (state : RecoveryState) (event : RecoveryEvent) (_target : RecoveryState) : Prop :=
  match event with
  | .lease event => state.clock ≤ event.start ∧ event.start ≤ event.finish
  | .start _ now _ => state.clock ≤ now
  | .clear _ moment => state.clock ≤ moment
  | .list _ | .record _ => True

instance (state : RecoveryState) (event : RecoveryEvent) (target : RecoveryState) :
    Decidable (RecoveryTimely state event target) :=
  match event with
  | .lease event => inferInstanceAs (Decidable (state.clock ≤ event.start ∧ event.start ≤ event.finish))
  | .start _ now _ => inferInstanceAs (Decidable (state.clock ≤ now))
  | .clear _ moment => inferInstanceAs (Decidable (state.clock ≤ moment))
  | .list _ | .record _ => .isTrue trivial

/-- Each deadline a claim or renewal can compute has a four-digit year and lies ahead. -/
def LastingDeadline (chrono : Chrono) (_state : RecoveryState) (event : RecoveryEvent)
    (_target : RecoveryState) : Prop :=
  match event with
  | .lease event => ∀ now ∈ [event.start, event.finish],
      ∀ deadline ∈ chrono.leaseDeadline now event.ttlSecs,
        FourDigitYear deadline ∧ now < wholeSecond deadline
  | _ => True

instance (chrono : Chrono) (state : RecoveryState) (event : RecoveryEvent) (target : RecoveryState) :
    Decidable (LastingDeadline chrono state event target) :=
  match event with
  | .lease event => inferInstanceAs (Decidable (∀ now ∈ [event.start, event.finish],
      ∀ deadline ∈ chrono.leaseDeadline now event.ttlSecs,
        FourDigitYear deadline ∧ now < wholeSecond deadline))
  | .start .. | .list _ | .clear .. | .record _ => .isTrue trivial

/-- The row still has the owner and the lease text that the pass has listed. -/
def AsListed (state : RecoveryState) (event : RecoveryEvent) (_target : RecoveryState) : Prop :=
  ∀ lease ∈ state.cleared? event, state.db.owner lease.taskId = some lease.claimedBy ∧
    state.db.leaseUntil lease.taskId = lease.leaseUntil

instance (state : RecoveryState) (event : RecoveryEvent) (target : RecoveryState) :
    Decidable (AsListed state event target) :=
  inferInstanceAs (Decidable (∀ lease ∈ state.cleared? event, state.db.owner lease.taskId = some lease.claimedBy ∧
      state.db.leaseUntil lease.taskId = lease.leaseUntil))

/-- The lease columns of a task are the same. -/
def SameLease (task : TaskId) (db next : Database) : Prop :=
  next.owner task = db.owner task ∧ next.leaseUntil task = db.leaseUntil task

/-- A clear touches no lease that is live at its moment, and no task that an agent has claimed or
renewed since the pass listed it. -/
structure RecoveryLaw (chrono : Chrono) (state : RecoveryState) (event : RecoveryEvent)
    (target : RecoveryState) : Prop where
  live : ∀ id moment task, event = .clear id moment →
    chrono.leaseActive moment (state.db.leaseUntil task) = true → SameLease task state.db target.db
  survives : ∀ id moment pass task, event = .clear id moment → state.passes.get? id = some pass →
    task ∈ pass.taken → SameLease task state.db target.db

/-- What a pass knows: its listed leases had run out when it started, and a task taken since then is
unowned again or has a lease beyond that time. -/
structure RecoveryPass.Sound (chrono : Chrono) (db : Database) (clock : Instant) (pass : RecoveryPass) :
    Prop where
  started : pass.now ≤ clock
  expired : ∀ lease ∈ pass.phase.pending, chrono.leaseActive pass.now lease.leaseUntil = false
  taken : ∀ task ∈ pass.taken,
    db.owner task = none ∨ chrono.leaseActive pass.now (db.leaseUntil task) = true

def RecoveryState.Sound (chrono : Chrono) (state : RecoveryState) : Prop :=
  ∀ id pass, state.passes.get? id = some pass → pass.Sound chrono state.db state.clock

variable {chrono : Chrono} {state : RecoveryState}

variable (chrono) in
/-- A clear statement clears the next listed lease of its pass or does nothing. -/
theorem RecoveryState.step_clear (state : RecoveryState) (id : Nat) (moment : Instant) :
    (∃ pass lease rest, state.passes.get? id = some pass ∧ pass.phase = .clearing (lease :: rest) ∧
      state.cleared? (.clear id moment) = some lease ∧
      state.step chrono (.clear id moment) = { state.advance id (.recording rest) with
        db := state.db.clearTaskLease lease.taskId
        clock := moment }) ∨
    state.step chrono (.clear id moment) = state := by
  unfold step cleared?
  dsimp only
  split
  · next lease rest phase =>
    obtain ⟨pass, found, phase⟩ := Option.map_eq_some_iff.mp phase
    exact .inl ⟨pass, lease, rest, found, phase, rfl, rfl⟩
  · exact .inr rfl

private theorem sameLease_clearTaskLease {db : Database} {task other : TaskId} (ne : other ≠ task) :
    SameLease other db (db.clearTaskLease task) :=
  db.sameLeasesExcept_updateTask task TaskRow.clearLease other ne

private theorem owner_clearTaskLease (db : Database) (task : TaskId) : (db.clearTaskLease task).owner task = none := by
  rw [owner, clearTaskLease, task?_updateTask_self]
  cases db.task? task <;> rfl

/-- A clear of what was listed changes no live lease and no taken task. -/
private theorem recoveryLaw_step {event : RecoveryEvent} (sound : state.Sound chrono)
    (timely : RecoveryTimely state event (state.step chrono event))
    (asListed : AsListed state event (state.step chrono event)) :
    RecoveryLaw chrono state event (state.step chrono event) := by
  constructor
  · rintro id moment task rfl live
    rcases state.step_clear chrono id moment with
      ⟨pass, lease, rest, found, phase, clears, stepped⟩ | idle
    · rw [stepped]
      refine sameLease_clearTaskLease fun same => ?_
      have pending : lease ∈ pass.phase.pending := by rw [phase]; exact List.mem_cons_self
      have held := sound id pass found
      rw [same, (asListed lease clears).2] at live
      -- what is live at the clear was live at the listing
      obtain ⟨deadline, parsed, ahead⟩ := chrono.leaseActive_iff.mp live
      have active := chrono.leaseActive_iff.mpr ⟨deadline, parsed, lt_of_le_of_lt (held.started.trans timely) ahead⟩
      rw [held.expired lease pending] at active
      cases active
    · rw [idle]
      exact ⟨rfl, rfl⟩
  · rintro id moment pass task rfl found taken
    rcases state.step_clear chrono id moment with
      ⟨holder, lease, rest, holds, phase, clears, stepped⟩ | idle
    · rw [stepped]
      refine sameLease_clearTaskLease fun same => ?_
      cases Option.some.inj (found.symm.trans holds)
      have pending : lease ∈ pass.phase.pending := by rw [phase]; exact List.mem_cons_self
      obtain ⟨owner, text⟩ := asListed lease clears
      rcases (sound id pass found).taken lease.taskId (same ▸ taken) with unowned | active
      · cases unowned.symm.trans owner
      · rw [text, (sound id pass found).expired lease pending] at active
        cases active
    · rw [idle]
      exact ⟨rfl, rfl⟩

namespace RecoveryPass.Sound

variable {db next : Database} {clock later : Instant} {pass : RecoveryPass}

/-- Statements that only take leases away keep what a pass knows. -/
theorem of_cleared (sound : pass.Sound chrono db clock) (after : clock ≤ later)
    (kept : ∀ task, next.owner task = none ∨ SameLease task db next) : pass.Sound chrono next later where
  started := sound.started.trans after
  expired := sound.expired
  taken task taken := by
    rcases kept task with unowned | ⟨owner, text⟩
    · exact .inl unowned
    · rw [owner, text]
      exact sound.taken task taken

theorem advance {phase : RecoveryPhase} (sound : pass.Sound chrono db clock)
    (fewer : ∀ lease ∈ phase.pending, lease ∈ pass.phase.pending) :
    RecoveryPass.Sound chrono db clock { pass with phase } :=
  ⟨sound.started, fun lease pending => sound.expired lease (fewer lease pending), sound.taken⟩

/-- A claim or renewal that lasts beyond its clock read lasts beyond the start of the pass. -/
theorem note (readsBack : chrono.ReadsBack) {event : LeaseEvent} (sound : pass.Sound chrono db clock)
    (timely : clock ≤ event.start ∧ event.start ≤ event.finish)
    (lasting : ∀ now ∈ [event.start, event.finish], ∀ deadline ∈ chrono.leaseDeadline now event.ttlSecs,
      FourDigitYear deadline ∧ now < wholeSecond deadline) :
    (pass.note (event.apply chrono db).2).Sound chrono (event.apply chrono db).1 event.finish := by
  have started : pass.now ≤ event.start := sound.started.trans timely.1
  have live {now deadline : Instant} (read : now ∈ [event.start, event.finish])
      (computed : chrono.leaseDeadline now event.ttlSecs = some deadline) :
      chrono.leaseActive pass.now (some (chrono.toRfc3339Secs deadline)) = true := by
    obtain ⟨printable, ahead⟩ := lasting now read deadline computed
    have after : pass.now ≤ now := by
      rcases List.mem_pair.mp read with rfl | rfl
      · exact started
      · exact started.trans timely.2
    exact chrono.leaseActive_iff.mpr ⟨_, readsBack deadline printable, lt_of_le_of_lt after ahead⟩
  refine ⟨started.trans timely.2, sound.expired, ?_⟩
  have move := event.apply_move chrono db
  generalize event.apply chrono db = result at move ⊢
  obtain ⟨next, effect⟩ := result
  intro task taken
  have unchanged (old : task ∈ pass.taken) (same : SameLease task db next) :
      next.owner task = none ∨ chrono.leaseActive pass.now (next.leaseUntil task) = true := by
    rw [same.1, same.2]
    exact sound.taken task old
  cases move with
  | kept same => exact unchanged taken (same task)
  | @claimed _ _ leased _ _ computed _ stored rest =>
    by_cases here : task = leased
    · subst here
      rw [stored]
      exact .inr (live (by simp) computed)
    · exact unchanged ((List.mem_cons.mp taken).resolve_left here) (rest task here)
  | @renewed _ _ leased _ _ _ computed _ stored rest =>
    by_cases here : task = leased
    · subst here
      rw [stored]
      exact .inr (live (by simp) computed)
    · exact unchanged ((List.mem_cons.mp taken).resolve_left here) (rest task here)

end RecoveryPass.Sound

/-- One step keeps what every pass knows. -/
theorem RecoveryState.Sound.step (readsBack : chrono.ReadsBack) {event : RecoveryEvent}
    (sound : state.Sound chrono) (timely : RecoveryTimely state event (state.step chrono event))
    (lasting : LastingDeadline chrono state event (state.step chrono event)) :
    (state.step chrono event).Sound chrono := by
  have advanced {id : Nat} {phase : RecoveryPhase} {old pass : RecoveryPass} {other : Nat}
      (found : state.passes.get? id = some old)
      (fewer : ∀ lease ∈ phase.pending, lease ∈ old.phase.pending)
      (stored : (state.advance id phase).passes.get? other = some pass) :
      pass.Sound chrono state.db state.clock := by
    change (state.passes.modify id _).get? other = some pass at stored
    rw [Table.get?_modify] at stored
    split_ifs at stored with same
    · subst same
      rw [found] at stored
      cases stored
      exact (sound other old found).advance fewer
    · exact sound other pass stored
  intro other pass stored
  cases event with
  | lease event =>
    change (state.passes.updateWhere _ _).get? other = some pass at stored
    rw [Table.get?_updateWhere] at stored
    obtain ⟨old, found, rfl⟩ := Option.map_eq_some_iff.mp stored
    exact (sound other old found).note readsBack timely lasting
  | start id now processIsAlive =>
    change (state.passes.insertNew id _).get? other = some pass at stored
    rw [Table.get?_insertNew] at stored
    split_ifs at stored with same
    · cases found : state.passes.get? id with
      | none =>
        rw [found] at stored
        cases stored
        exact ⟨le_refl now, fun _ pending => absurd pending List.not_mem_nil,
          fun _ taken => absurd taken List.not_mem_nil⟩
      | some old =>
        rw [found] at stored
        cases stored
        exact (sound id old found).of_cleared timely fun _ => .inr ⟨rfl, rfl⟩
    · exact (sound other pass stored).of_cleared timely fun _ => .inr ⟨rfl, rfl⟩
  | list id =>
    unfold RecoveryState.step at stored ⊢
    dsimp only at stored ⊢
    split at stored
    · next now liveTasks taken found =>
      rw [Table.get?_modify] at stored
      split_ifs at stored with same
      · subst same
        rw [found] at stored
        cases stored
        exact ⟨(sound other _ found).started, fun _ => mem_expiredLeases, fun _ taken => absurd taken List.not_mem_nil⟩
      · exact sound other pass stored
    · exact sound other pass stored
  | clear id moment =>
    rcases state.step_clear chrono id moment with ⟨old, lease, rest, found, phase, _, stepped⟩ | idle
    · rw [stepped] at stored ⊢
      refine (advanced found ?_ stored).of_cleared timely fun task => ?_
      · intro other pending
        rw [phase]
        exact List.mem_cons_of_mem lease pending
      · by_cases here : task = lease.taskId
        · subst here
          exact .inl (owner_clearTaskLease state.db lease.taskId)
        · exact .inr (sameLease_clearTaskLease here)
    · rw [idle] at stored ⊢
      exact sound other pass stored
  | record id =>
    unfold RecoveryState.step at stored ⊢
    dsimp only at stored ⊢
    split at stored
    · next rest phase =>
      obtain ⟨old, found, phase⟩ := Option.map_eq_some_iff.mp phase
      refine (advanced found ?_ stored).of_cleared le_rfl fun _ => .inr ⟨rfl, rfl⟩
      intro lease pending
      rw [phase]
      exact pending
    · exact sound other pass stored

/-- In a run where every clear meets the row as its pass has listed it, no recovery pass takes away a
live lease or a task claimed since the listing. -/
theorem recoveryLaw_of_asListed (readsBack : chrono.ReadsBack) (db : Database) (clock : Instant)
    (events : List RecoveryEvent)
    (timely : EveryStep (step chrono) RecoveryTimely ⟨db, clock, .empty⟩ events)
    (lasting : EveryStep (step chrono) (LastingDeadline chrono) ⟨db, clock, .empty⟩ events)
    (asListed : EveryStep (step chrono) AsListed ⟨db, clock, .empty⟩ events) :
    EveryStep (step chrono) (RecoveryLaw chrono) ⟨db, clock, .empty⟩ events := by
  have start : RecoveryState.Sound chrono ⟨db, clock, .empty⟩ := by
    intro id pass stored
    cases stored
  refine ((timely.and lasting).and asListed).of_invariant start ?_ ?_
  · intro state event sound ⟨⟨inTime, ahead⟩, _⟩
    exact sound.step readsBack inTime ahead
  · intro state event sound ⟨⟨inTime, _⟩, listed⟩
    exact recoveryLaw_step sound inTime listed

/-- An executor has stopped; its lease ran out at 2025-12-31T23:59:00Z. -/
def abandonedDatabase : Database where
  tasks := Table.empty.insertNew "t-001"
    { path := ".ferrus/tasks/t-001.md"
      status := .executing
      claimedBy := some "executor:codex:1"
      leaseUntil := some "2025-12-31T23:59:00Z" }
  runs := .empty
  events := []
  runtimeState := {}

/-- A pass that finds no live process lists the expired leases. -/
def listingEvents : List RecoveryEvent := [.start 0 (newYear 0) (fun _ => false), .list 0]

/-- Another executor takes the task. -/
def laterClaim : RecoveryEvent := .lease (.call "executor:codex:2" 90 (newYear 1) .claimNextReady)

/-- The pass ends before the claim. -/
def recoveredEvents : List RecoveryEvent :=
  listingEvents ++ [.clear 0 (newYear 0), .record 0, laterClaim]

theorem recoveryLaw_of_recovered : (run (step utcChrono) ⟨abandonedDatabase, newYear 0, .empty⟩
      recoveredEvents).db.owner "t-001" = some "executor:codex:2" ∧
    EveryStep (step utcChrono) (RecoveryLaw utcChrono)
      ⟨abandonedDatabase, newYear 0, .empty⟩ recoveredEvents :=
  ⟨by decide, recoveryLaw_of_asListed utcChrono_readsBack abandonedDatabase (newYear 0)
    recoveredEvents (by decide) (by decide) (by decide)⟩

/-- The claim lands between the listing and the clear, and loses its live lease. -/
theorem not_recoveryLaw_of_laterClaim : EveryStep (step utcChrono) RecoveryTimely
      ⟨abandonedDatabase, newYear 0, .empty⟩
      (listingEvents ++ [laterClaim] ++ [.clear 0 (newYear 2)]) ∧
    EveryStep (step utcChrono) (LastingDeadline utcChrono)
      ⟨abandonedDatabase, newYear 0, .empty⟩
      (listingEvents ++ [laterClaim] ++ [.clear 0 (newYear 2)]) ∧
    ¬ EveryStep (step utcChrono) (RecoveryLaw utcChrono)
      ⟨abandonedDatabase, newYear 0, .empty⟩
      (listingEvents ++ [laterClaim] ++ [.clear 0 (newYear 2)]) := by
  refine ⟨by decide, by decide, fun law => ?_⟩
  have kept := (law.at_cut.live 0 (newYear 2) "t-001" rfl (by decide)).1
  revert kept
  decide

end Ferrus.Runtime

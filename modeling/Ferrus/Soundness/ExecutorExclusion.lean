import Ferrus.Model.Hq.ExecutorSpawns

/-! # One executor in a shared workspace

A run is live while its row is active and its process has not exited. The reservation refuses a second
live executor, and from the reservation to the recorded start the run is live under the pid of its HQ. So
a start moves the one live run and never adds one. Recovery and attachments only take runs away.
-/

namespace Ferrus.Hq

open Ferrus.Runtime Ferrus.Machine Database List Option

/-! ## The columns that decide -/

/-- The columns of a run that its liveness depends on. -/
structure RunSession where
  role : RunRole
  status : RunStatus
  pid : Option Nat
deriving DecidableEq, Repr

def session? (db : Database) (runId : RunId) : Option RunSession :=
  (db.run? runId).map fun run => ⟨run.role, run.status, run.pid⟩

/-- The run is an active executor whose process has not exited. -/
def Sessions.Live (state : Sessions) (runId : RunId) : Prop :=
  ∃ session, session? state.db runId = some session ∧ session.role = .executor ∧
    session.status.isActive = true ∧ session.pid.any state.processIsAlive = true

/-- At most one executor run is live. -/
def Sessions.Exclusive (state : Sessions) : Prop :=
  ∀ first second, state.Live first → state.Live second → first = second

variable {status : RunStatus}

section Columns

variable (db : Database) {runId other : RunId}

/-- The run gets the status and loses its pid, and nothing else of the runs changes. -/
def Closes (db next : Database) (runId : RunId) (status : RunStatus) : Prop :=
  ∀ other, session? next other =
    if other = runId then (session? db other).map fun session => ⟨session.role, status, none⟩
    else session? db other

private theorem closes_closeRun (runId : RunId) (status : RunStatus) (timestamp : String) :
    Closes db (db.closeRun runId status timestamp) runId status := by
  intro other
  unfold session? closeRun
  rw [run?_updateRun]
  split_ifs
  · cases db.run? other <;> rfl
  · rfl

theorem Closes.again {db first second : Database} {last : RunStatus} (before : Closes db first runId status)
    (after : Closes first second runId last) : Closes db second runId last := by
  intro other
  rw [after other, before other]
  split_ifs
  · rw [Option.map_map]
    rfl
  · rfl

variable {next : Database} {task : TaskId} {timestamp : String}

private theorem session?_attach (attached : db.attachRunToTask runId task timestamp = .ok next) (other : RunId) :
    session? next other = session? db other := by
  unfold attachRunToTask at attached
  split at attached
  · cases attached
    rfl
  · cases attached
  · cases attached
    unfold session?
    rw [run?_updateRun]
    split_ifs
    · cases db.run? other <;> rfl
    · rfl

/-- A recorded start keeps the role of a run that is there. -/
private theorem session?_start (runId other : RunId) (role : RunRole) (agent : AgentId) (pid : Nat) (task : TaskId)
    (workspacePath timestamp : String) :
    session? (db.insertStartedRun runId role agent pid task workspacePath timestamp) other =
        session? db other ∨
      other = runId ∧
        session? (db.insertStartedRun runId role agent pid task workspacePath timestamp) other =
          some ⟨((session? db other).map (·.role)).getD role, .running, some pid⟩ := by
  unfold insertStartedRun
  split
  · exact .inl rfl
  · by_cases same : other = runId
    · subst same
      refine .inr ⟨rfl, ?_⟩
      unfold session?
      show Option.map _ (Table.get? _ other) = _
      rw [Table.get?_upsert, if_pos rfl]
      show Option.map _ (some ((db.run? other).elim _ _)) = _
      cases db.run? other <;> rfl
    · refine .inl ?_
      show Option.map _ (Table.get? _ other) = _
      rw [Table.get?_upsert, if_neg same]
      rfl

/-- A reservation adds one run, and only if no executor is live. -/
private theorem session?_reserve {alive : Nat → Bool} {agent : AgentId} {workspacePath : String} {pid : Nat}
    (reserved : db.reserveExecutorSession alive runId agent workspacePath task true pid timestamp = .ok next) :
    (∀ run session, session? db run = some session → session.role = .executor →
        session.status.isActive = true → session.pid.any alive = false) ∧
      session? db runId = none ∧
      ∀ other, session? next other =
        if other = runId then some ⟨.executor, .running, some pid⟩ else session? db other := by
  unfold reserveExecutorSession at reserved
  split_ifs at reserved with occupied taken
  cases reserved
  have absent : db.run? runId = none := by simpa using taken
  refine ⟨?_, by rw [session?, absent]; rfl, fun other => ?_⟩
  · intro run session found role active
    obtain ⟨row, stored, rfl⟩ := map_eq_some_iff.mp found
    by_contra alive
    apply occupied
    refine any_eq_true.mpr ⟨(run, row), (db.runs.mem_select).mpr ⟨stored, ?_⟩, by simpa using alive⟩
    simp only [Bool.true_or, Bool.true_and, Bool.and_eq_true, decide_eq_true_eq]
    exact ⟨role, active⟩
  · show Option.map _ (Table.get? _ other) = _
    rw [Table.get?_insertNew]
    split_ifs
    · show Option.map _ (some ((db.run? runId).getD _)) = _
      rw [absent]
      rfl
    · rfl

end Columns

/-! ## Steps that take runs away -/

variable {runIds : ℕ ↪ RunId} {state next : Sessions} {id other : ℕ} {runId : RunId} {call : SessionCall}

/-- Processes may exit, runs may be closed and supervisor runs may be added. -/
structure Sessions.Shrinks (state next : Sessions) : Prop where
  exits : ∀ pid, next.processIsAlive pid = true → state.processIsAlive pid = true
  started : next.started = state.started
  runs : ∀ runId, session? next.db runId = session? state.db runId ∨
    (∃ status, status.isActive = false ∧
      session? next.db runId = (session? state.db runId).map (fun session => ⟨session.role, status, none⟩)) ∨
    session? state.db runId = none ∧ ∃ session, session? next.db runId = some session ∧
      session.role = .supervisor

namespace Sessions.Shrinks

theorem of_close (inactive : status.isActive = false)
    (exits : ∀ pid, next.processIsAlive pid = true → state.processIsAlive pid = true)
    (started : next.started = state.started) (closed : Closes state.db next.db runId status) : state.Shrinks next := by
  refine ⟨exits, started, fun other => ?_⟩
  rw [closed other]
  split_ifs
  · exact .inr (.inl ⟨status, inactive, rfl⟩)
  · exact .inl rfl

theorem of_same (exits : ∀ pid, next.processIsAlive pid = true → state.processIsAlive pid = true)
    (started : next.started = state.started)
    (same : ∀ runId, session? next.db runId = session? state.db runId) : state.Shrinks next :=
  ⟨exits, started, fun runId => .inl (same runId)⟩

/-- A run that is live afterwards was live before. -/
theorem live (shrinks : state.Shrinks next) (isLive : next.Live runId) : state.Live runId := by
  obtain ⟨session, found, role, active, alive⟩ := isLive
  rcases shrinks.runs runId with same | ⟨status, inactive, closed⟩ | ⟨_, fresh, added, supervises⟩
  · refine ⟨session, same.symm.trans found, role, active, ?_⟩
    obtain ⟨pid, given, alive⟩ := (any_eq_true _ _).mp alive
    exact (any_eq_true _ _).mpr ⟨pid, given, shrinks.exits pid alive⟩
  · obtain ⟨before, _, rfl⟩ := map_eq_some_iff.mp (closed.symm.trans found)
    rw [show status.isActive = true from active] at inactive
    cases inactive
  · obtain rfl := some.inj (added.symm.trans found)
    rw [role] at supervises
    cases supervises

/-- Rows stay, and a pid either stays or is removed. -/
theorem pid (shrinks : state.Shrinks next) {session : RunSession} (found : session? state.db runId = some session) :
    ∃ after, session? next.db runId = some after ∧ (after.pid = session.pid ∨ after.pid = none) := by
  rcases shrinks.runs runId with same | ⟨status, _, closed⟩ | ⟨absent, _⟩
  · exact ⟨session, same.trans found, .inl rfl⟩
  · exact ⟨⟨session.role, status, none⟩, by rw [closed, found]; rfl, .inr rfl⟩
  · rw [absent] at found
    cases found

end Sessions.Shrinks

/-! ## The invariant -/

structure Sessions.Sound (state : Sessions) : Prop where
  exclusive : state.Exclusive
  known : ∀ runId ∈ state.started, session? state.db runId ≠ none

/-- The run of a session that HQ is starting is live under the pid of HQ. -/
def Sessions.HeldBy (state : Sessions) (hq : Nat) (runId : RunId) : Prop :=
  runId ∉ state.started ∧
    (state.processIsAlive hq = true → session? state.db runId = some ⟨.executor, .running, some hq⟩)

/-- What a recovery knows of a run that it has listed, unless its start has been recorded since. -/
def Sessions.Listed (state : Sessions) (entry : RunId × Option Nat) : Prop :=
  entry.1 ∉ state.started →
    ∃ session, session? state.db entry.1 = some session ∧ (session.pid = entry.2 ∨ session.pid = none)

/-- What it knows of a run whose process it has found dead. -/
def Sessions.Dead (state : Sessions) (runId : RunId) : Prop :=
  runId ∉ state.started →
    ∃ session, session? state.db runId = some session ∧ session.pid.any state.processIsAlive = false

variable (runIds) in
def SessionHolds (state : Sessions) (id : ℕ) : SessionCall → Prop
  | .reserved hq _ | .spawned hq _ _ | .tasked hq _ _ => state.HeldBy hq (runIds id)
  | .recorded _ _ | .running _ _ => True
  | .recovering _ pending interrupted =>
      (∀ entry ∈ pending, state.Listed entry) ∧ ∀ runId ∈ interrupted, state.Dead runId

namespace Sessions.Shrinks

section

variable (shrinks : state.Shrinks next)

include shrinks

theorem sound (inv : state.Sound) : next.Sound where
  exclusive := fun first second isLive alsoLive =>
    inv.exclusive first second (shrinks.live isLive) (shrinks.live alsoLive)
  known := by
    intro runId recorded absent
    rw [shrinks.started] at recorded
    obtain ⟨session, found⟩ := ne_none_iff_exists'.mp (inv.known runId recorded)
    obtain ⟨after, stays, _⟩ := shrinks.pid found
    rw [absent] at stays
    cases stays

theorem listed {entry : RunId × Option Nat} (listed : state.Listed entry) : next.Listed entry := by
  intro unrecorded
  rw [shrinks.started] at unrecorded
  obtain ⟨session, found, same⟩ := listed unrecorded
  obtain ⟨after, stays, pid⟩ := shrinks.pid found
  refine ⟨after, stays, ?_⟩
  rcases pid with kept | removed
  · exact same.imp kept.trans kept.trans
  · exact .inr removed

theorem dead (dead : state.Dead runId) : next.Dead runId := by
  intro unrecorded
  rw [shrinks.started] at unrecorded
  obtain ⟨session, found, exited⟩ := dead unrecorded
  obtain ⟨after, stays, pid⟩ := shrinks.pid found
  refine ⟨after, stays, ?_⟩
  rcases pid with kept | removed
  · rw [kept]
    cases isPid : session.pid with
    | none => rfl
    | some pid =>
      by_contra alive
      rw [isPid, any_some, shrinks.exits pid (by simpa using alive)] at exited
      cases exited
  · rw [removed]
    rfl

/-- What is said of a call stays, if its own run is left alone as long as it is held. -/
theorem holds (held : SessionHolds runIds state id call)
    (kept : ∀ hq, state.HeldBy hq (runIds id) → state.processIsAlive hq = true →
      session? next.db (runIds id) = session? state.db (runIds id)) : SessionHolds runIds next id call := by
  have own {hq : Nat} (held : state.HeldBy hq (runIds id)) : next.HeldBy hq (runIds id) := by
    refine ⟨shrinks.started ▸ held.1, fun alive => ?_⟩
    have before := shrinks.exits hq alive
    exact (kept hq held before).trans (held.2 before)
  cases call with
  | reserved | spawned | tasked => exact own held
  | recorded | running => trivial
  | recovering =>
    exact ⟨fun entry member => shrinks.listed (held.1 entry member),
      fun runId member => shrinks.dead (held.2 runId member)⟩

end

end Sessions.Shrinks

/-! ## Steps that take the workspace -/

/-- Only the run changes, and no other one is live. A run that has not been started is a new one. -/
structure Sessions.Takes (state next : Sessions) (runId : RunId) : Prop where
  others : ∀ other ≠ runId, session? next.db other = session? state.db other ∧
    (other ∈ next.started ↔ other ∈ state.started)
  processes : next.processIsAlive = state.processIsAlive
  present : session? next.db runId ≠ none
  alone : ∀ other, state.Live other → other = runId
  fresh : runId ∉ next.started → runId ∉ state.started ∧ session? state.db runId = none

namespace Sessions.Takes

theorem live (takes : state.Takes next runId) {other : RunId} (isLive : next.Live other) : other = runId := by
  by_contra different
  obtain ⟨session, found, role, active, alive⟩ := isLive
  refine different (takes.alone other ⟨session, ?_, role, active, takes.processes ▸ alive⟩)
  exact (takes.others other different).1.symm.trans found

theorem sound (takes : state.Takes next runId) (inv : state.Sound) : next.Sound where
  exclusive first second isLive alsoLive := (takes.live isLive).trans (takes.live alsoLive).symm
  known other recorded := by
    by_cases same : other = runId
    · exact same ▸ takes.present
    · obtain ⟨sessions, started⟩ := takes.others other same
      rw [sessions]
      exact inv.known other (started.mp recorded)

/-- What was known of a run that has not been started stays. -/
theorem stays (takes : state.Takes next runId) {other : RunId} (unrecorded : other ∉ next.started) :
    other ∉ state.started ∧
      ∀ session, session? state.db other = some session → session? next.db other = some session := by
  by_cases same : other = runId
  · subst same
    obtain ⟨before, absent⟩ := takes.fresh unrecorded
    refine ⟨before, fun session found => ?_⟩
    rw [absent] at found
    cases found
  · obtain ⟨sessions, started⟩ := takes.others other same
    exact ⟨fun recorded => unrecorded (started.mpr recorded), fun _ found => sessions.trans found⟩

theorem stable (takes : state.Takes next (runIds id)) : Calls.Stable (SessionHolds runIds) state next (some id) := by
  intro other call different held
  have distinct : runIds other ≠ runIds id := fun same => different (congrArg some (runIds.injective same))
  obtain ⟨sessions, started⟩ := takes.others _ distinct
  cases call with
  | reserved | spawned | tasked =>
    exact ⟨fun recorded => held.1 (started.mp recorded), fun alive => sessions.trans (held.2 (takes.processes ▸ alive))⟩
  | recorded | running => trivial
  | recovering =>
    refine ⟨fun entry member unrecorded => ?_, fun runId member unrecorded => ?_⟩
    · obtain ⟨before, kept⟩ := takes.stays unrecorded
      obtain ⟨session, found, same⟩ := held.1 entry member before
      exact ⟨session, kept session found, same⟩
    · obtain ⟨before, kept⟩ := takes.stays unrecorded
      obtain ⟨session, found, exited⟩ := held.2 runId member before
      exact ⟨session, kept session found, takes.processes ▸ exited⟩

end Sessions.Takes

/-! ## Steps of the calls -/

/-- A session that ends closes its own run. -/
private theorem close_holds (inactive : status.isActive = false) (inv : state.Sound)
    (exits : ∀ pid, next.processIsAlive pid = true → state.processIsAlive pid = true)
    (started : next.started = state.started) (closed : Closes state.db next.db (runIds id) status) :
    next.Sound ∧ (∀ call ∈ (none : Option SessionCall), SessionHolds runIds next id call) ∧
      Calls.Stable (SessionHolds runIds) state next (some id) := by
  have shrinks := Sessions.Shrinks.of_close inactive exits started closed
  refine ⟨shrinks.sound inv, by rintro _ ⟨⟩, ?_⟩
  intro other call different held
  refine shrinks.holds held fun _ _ _ => ?_
  have distinct : runIds other ≠ runIds id := fun same => different (congrArg some (runIds.injective same))
  rw [closed, if_neg distinct]

private theorem alive_of_cons {pid exit : Nat}
    (alive : ({ state with exited := exit :: state.exited } : Sessions).processIsAlive pid = true) :
    state.processIsAlive pid = true := by
  simp only [Sessions.processIsAlive, mem_cons, not_or, decide_eq_true_eq] at alive ⊢
  exact alive.2

private theorem enterSession_holds {request : SessionRequest} (inv : state.Sound)
    (entered : enterSession runIds state id request = some (next, call)) :
    next.Sound ∧ SessionHolds runIds next id call ∧
      Calls.Stable (SessionHolds runIds) state next (some id) := by
  cases request with
  | recover hq =>
    cases entered
    refine ⟨inv, ⟨?_, fun _ member => absurd member not_mem_nil⟩, .refl _ _ _⟩
    intro entry member _
    obtain ⟨⟨runId, run⟩, selected, rfl⟩ := mem_map.mp member
    obtain ⟨stored, _⟩ := state.db.runs.mem_select.mp selected
    exact ⟨⟨run.role, run.status, run.pid⟩, congrArg (Option.map _) stored, .inl rfl⟩
  | spawn hq spawn timestamp =>
    dsimp only [enterSession] at entered
    split at entered
    · split at entered
      · next db reserved =>
        cases entered
        obtain ⟨free, absent, sessions⟩ := session?_reserve state.db reserved
        have takes : state.Takes { state with db } (runIds id) := by
          refine ⟨fun other different => ⟨?_, Iff.rfl⟩, rfl, ?_, ?_, fun unrecorded => ⟨unrecorded, absent⟩⟩
          · rw [sessions, if_neg different]
          · rw [sessions, if_pos rfl]
            exact some_ne_none _
          -- nothing was live
          · rintro other ⟨session, found, role, active, alive⟩
            rw [free other session found role active] at alive
            cases alive
        refine ⟨takes.sound inv, ⟨fun recorded => inv.known _ recorded absent, fun _ => ?_⟩, takes.stable⟩
        rw [sessions, if_pos rfl]
      · cases entered
    · cases entered

/-- The recorded start moves the live run from HQ to the child. -/
private theorem insertRun_takes {hq : Nat} (pid : Nat) (spawn : SessionSpawn) (timestamp : String) (inv : state.Sound)
    (alive : state.processIsAlive hq = true) (held : state.HeldBy hq (runIds id)) :
    state.Takes { state with
      db := state.db.insertStartedRun (runIds id) .executor spawn.agent pid spawn.task spawn.workspacePath timestamp
      started := runIds id :: state.started } (runIds id) := by
  have own := held.2 alive
  have live : state.Live (runIds id) :=
    ⟨_, own, rfl, rfl, by rw [any_some]; exact alive⟩
  have sessions (runId : RunId) := session?_start state.db (runIds id) runId .executor spawn.agent pid
    spawn.task spawn.workspacePath timestamp
  refine ⟨fun other different => ⟨?_, ?_⟩, rfl, ?_, fun other isLive => inv.exclusive _ _ isLive live,
    fun unrecorded => absurd mem_cons_self unrecorded⟩
  · exact (sessions other).resolve_right fun changed => different changed.1
  · simp [different]
  · rcases sessions (runIds id) with same | ⟨_, written⟩
    · exact fun absent => some_ne_none _ (own.symm.trans (same.symm.trans absent))
    · exact fun absent => some_ne_none _ (written.symm.trans absent)

/-- An interruption takes a run whose process was found dead, so it takes none that HQ is starting. -/
private theorem interrupt_stable {own : Option ℕ} (timestamp : String) (dead : state.Dead runId) :
    Calls.Stable (SessionHolds runIds) state
      { state with db := state.db.interruptRun runId timestamp } own := by
  intro other call _ held
  have shrinks : state.Shrinks { state with db := state.db.interruptRun runId timestamp } :=
    .of_close rfl (fun _ alive => alive) rfl (closes_closeRun _ _ _ _)
  refine shrinks.holds held fun hq holds alive => ?_
  have distinct : runIds other ≠ runId := by
    rintro rfl
    obtain ⟨session, found, exited⟩ := dead holds.1
    obtain rfl := some.inj ((holds.2 alive).symm.trans found)
    rw [any_some, alive] at exited
    cases exited
  exact (closes_closeRun _ _ _ _ _).trans (if_neg distinct)

private theorem actSession_holds {action : SessionAction} {left : Option SessionCall} (inv : state.Sound)
    (held : SessionHolds runIds state id call) (acted : actSession runIds state id call action = some (next, left)) :
    next.Sound ∧ (∀ call ∈ left, SessionHolds runIds next id call) ∧
      Calls.Stable (SessionHolds runIds) state next (some id) := by
  unfold actSession at acted
  split at acted
  swap
  · cases acted
  next alive =>
  unfold moveSession at acted
  split at acted
  · cases acted
    refine ⟨inv, ?_, .refl _ _ _⟩
    rintro _ ⟨⟩
    exact held
  · next hq spawn pid =>
    cases acted
    have shrinks : state.Shrinks
        { state with db := state.db.ensureTaskExists spawn.task (defaultTaskPathForId spawn.task) } :=
      .of_same (fun _ alive => alive) rfl fun _ => rfl
    refine ⟨shrinks.sound inv, ?_, fun _ _ _ holds => shrinks.holds holds fun _ _ _ => rfl⟩
    rintro _ ⟨⟩
    exact held
  · next spawn pid timestamp =>
    cases acted
    have takes := insertRun_takes pid spawn timestamp inv alive held
    refine ⟨takes.sound inv, ?_, takes.stable⟩
    rintro _ ⟨⟩
    trivial
  · cases acted
    refine ⟨inv, ?_, .refl _ _ _⟩
    rintro _ ⟨⟩
    trivial
  · cases acted
    exact close_holds rfl inv (fun _ alive => alive) rfl (closes_closeRun _ _ _ _)
  · cases acted
    exact close_holds rfl inv (fun _ => alive_of_cons) rfl (closes_closeRun _ _ _ _)
  · cases acted
    exact close_holds rfl inv (fun _ => alive_of_cons) rfl (closes_closeRun _ _ _ _)
  · cases acted
    exact close_holds rfl inv (fun _ => alive_of_cons) rfl
      ((closes_closeRun _ _ _ _).again (closes_closeRun _ _ _ _))
  · next exitCode timestamp =>
    split at acted
    · cases acted
    · cases acted
      have inactive : (if exitCode = 0 then RunStatus.completed else RunStatus.failed).isActive = false := by
        split <;> rfl
      exact close_holds inactive inv (fun _ alive => alive) rfl (closes_closeRun _ _ _ _)
  · next hq runId pid pending interrupted =>
    cases acted
    refine ⟨inv, ?_, .refl _ _ _⟩
    rintro _ ⟨⟩
    obtain ⟨listed, dead⟩ := held
    obtain ⟨listedHere, listedLater⟩ := forall_mem_cons.mp listed
    refine ⟨listedLater, ?_⟩
    split
    · exact dead
    · next exited =>
      intro other member
      rcases mem_append.mp member with earlier | here
      · exact dead other earlier
      · obtain rfl := mem_singleton.mp here
        intro unrecorded
        obtain ⟨session, found, same⟩ := listedHere unrecorded
        refine ⟨session, found, ?_⟩
        rcases same with same | removed
        · rw [same]
          simpa using exited
        · rw [removed]
          rfl
  · next hq runId interrupted timestamp =>
    cases acted
    obtain ⟨_, dead⟩ := held
    obtain ⟨deadHere, deadLater⟩ := forall_mem_cons.mp dead
    have shrinks : state.Shrinks { state with db := state.db.interruptRun runId timestamp } :=
      .of_close rfl (fun _ alive => alive) rfl (closes_closeRun _ _ _ _)
    refine ⟨shrinks.sound inv, ?_, interrupt_stable timestamp deadHere⟩
    rintro _ ⟨⟩
    exact ⟨fun _ member => absurd member not_mem_nil, fun other member => shrinks.dead (deadLater other member)⟩
  · cases acted

private theorem sessionEvent_holds (event : SessionEvent) (inv : state.Sound) : (sessionEvent state event).Sound ∧
      Calls.Stable (SessionHolds runIds) state (sessionEvent state event) none := by
  cases event with
  | exit pid =>
    have shrinks : state.Shrinks { state with exited := pid :: state.exited } :=
      .of_same (fun _ => alive_of_cons) rfl fun _ => rfl
    exact ⟨shrinks.sound inv, fun _ _ _ holds => shrinks.holds holds fun _ _ _ => rfl⟩
  | attachRun runId task timestamp =>
    dsimp only [sessionEvent]
    split
    · next db attached =>
      have same := session?_attach state.db attached
      have shrinks : state.Shrinks { state with db } := .of_same (fun _ alive => alive) rfl same
      exact ⟨shrinks.sound inv, fun _ _ _ holds => shrinks.holds holds fun _ _ _ => same _⟩
    · exact ⟨inv, .refl _ _ _⟩
  | startSupervisor runId agent pid task workspacePath timestamp =>
    dsimp only [sessionEvent]
    split
    · next fresh =>
      have absent : session? state.db runId = none := by
        rw [session?, isNone_iff_eq_none.mp fresh]
        rfl
      have sessions (other : RunId) := session?_start state.db runId other .supervisor agent pid task
        workspacePath timestamp
      have shrinks : state.Shrinks { state with
          db := state.db.insertStartedRun runId .supervisor agent pid task workspacePath timestamp } := by
        refine ⟨fun _ alive => alive, rfl, fun other => ?_⟩
        rcases sessions other with same | ⟨rfl, written⟩
        · exact .inl same
        · refine .inr (.inr ⟨absent, _, written, ?_⟩)
          rw [absent]
          rfl
      refine ⟨shrinks.sound inv, fun other _ _ holds => shrinks.holds holds fun hq held alive => ?_⟩
      refine (sessions (runIds other)).resolve_right ?_
      rintro ⟨rfl, _⟩
      rw [held.2 alive] at absent
      cases absent
    · exact ⟨inv, .refl _ _ _⟩

variable (runIds) in
private theorem sessions_keeps : (sessions runIds).Keeps (fun _ _ _ => True) Sessions.Sound (SessionHolds runIds) where
  enter := enterSession_holds
  act := fun inv held _ acted => actSession_holds inv held acted
  env := sessionEvent_holds

/-- In every interleaving of reservations, starts, ends and recoveries, from an empty database, at most
one executor run is live. -/
theorem one_live_executor (runIds : ℕ ↪ RunId) (exited : List Nat)
    (events : List (CallEvent SessionRequest SessionAction SessionEvent)) :
    (run (sessions runIds).step (Calls.idle ⟨.empty, exited, []⟩) events).shared.Exclusive := by
  have start : (⟨.empty, exited, []⟩ : Sessions).Sound := by
    refine ⟨?_, fun _ member => absurd member not_mem_nil⟩
    rintro first second ⟨session, found, _⟩
    cases found
  exact ((sessions_keeps runIds).run_always (.idle start) events).shared.exclusive

end Ferrus.Hq

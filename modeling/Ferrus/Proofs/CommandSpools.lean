import Ferrus.Model.Nano.Commands
import Mathlib.Order.Basic
import Mathlib.Tactic.Common

/-! # What a supervisor writes and reports

A supervisor captures only while its spools hold all that it has read. A capture that is cut, fails or is
interrupted is its last one, so the bytes that it has reserved are a bound for its spools, and the output is
complete only if both pipes were read to their ends.
-/

namespace Ferrus.Nano.Commands

open CaptureStage List Streams

namespace Streams

variable {α : Type} (streams : Streams α) (stream other : Stream) (value : α)

@[simp] theorem get_set :
    (streams.set stream value).get other = if other = stream then value else streams.get other := by
  cases stream <;> cases other <;> rfl

theorem ext_get {first second : Streams α} (same : ∀ stream, first.get stream = second.get stream) :
    first = second := by
  obtain ⟨_, _⟩ := first
  obtain rfl := same .stdout
  obtain rfl := same .stderr
  rfl

end Streams

/-- How many bytes a capture will write at most, and how many it has written. -/
def CaptureStage.counts : CaptureStage → Nat × Nat
  | .load count | .reserve count => (count, 0)
  | .write count written => (count, written)

/-- The number of reserved bytes that have not been written. -/
def unwrittenBytes (unwritten : Option (Stream × List UInt8)) : Nat := (unwritten.map (·.2.length)).getD 0

namespace Supervisor

variable {limits : Limits} {supervisor : Supervisor} {charged : Nat}

def spoolBytes (supervisor : Supervisor) : Nat := supervisor.spools.stdout.length + supervisor.spools.stderr.length

/-- What the supervisor has of the session's bytes. -/
def held (supervisor : Supervisor) : Nat := supervisor.spoolBytes + unwrittenBytes supervisor.unwritten

/-- All that was read is in the spools, and nothing else is to come. -/
structure Intact (supervisor : Supervisor) : Prop where
  spools : supervisor.spools = supervisor.received
  counted : supervisor.snapshot.outputBytes = supervisor.spoolBytes
  settled : supervisor.inflight = none
  uninterrupted : supervisor.interruptedCapture = false

/-- The completion tells that output may be missing. -/
def Broken (supervisor : Supervisor) : Prop :=
  supervisor.snapshot.completion = .outputLimit ∨ supervisor.snapshot.completion = .unknown ∨
    supervisor.interruptedCapture = true ∧
      (supervisor.snapshot.completion = .cancelled ∨ supervisor.snapshot.completion = .timedOut)

/-- Nothing that was read is missing, or the completion tells it. -/
def Accounted (supervisor : Supervisor) : Prop :=
  supervisor.spools = supervisor.received ∧ supervisor.inflight = none ∨ supervisor.Broken

/-- A capture of the bytes that were read at last. -/
structure Captures (limits : Limits) (supervisor : Supervisor) (stream : Stream) (bytes : List UInt8)
    (count written : Nat) : Prop where
  settled : supervisor.inflight = none
  uninterrupted : supervisor.interruptedCapture = false
  unbroken : ¬ supervisor.Broken
  notDone : supervisor.done.get stream = false
  written_le : written ≤ count
  count_le : count ≤ bytes.length
  bounded : supervisor.snapshot.outputBytes + count ≤ limits.processOutputBytes
  counted : supervisor.snapshot.outputBytes + written = supervisor.spoolBytes
  others : ∀ other ≠ stream, supervisor.spools.get other = supervisor.received.get other
  /-- The spool holds what was read before, and the first bytes of the last read. -/
  spool : ∃ before, supervisor.received.get stream = before ++ bytes ∧
    supervisor.spools.get stream = before ++ bytes.take written

/-- What holds in each phase. -/
def InPhase (limits : Limits) (supervisor : Supervisor) : Prop :=
  match supervisor.phase with
  | .reading | .draining => supervisor.Intact ∧ ¬ supervisor.Broken
  | .capturing _ stream bytes stage => Captures limits supervisor stream bytes stage.counts.1 stage.counts.2
  | .waiting => supervisor.Intact ∨ supervisor.Broken
  | .finishing => supervisor.Accounted
  | .ended => supervisor.Accounted ∧ supervisor.status = supervisor.snapshot
  | .aborted => True

/-- What holds in every phase, with the bytes that may still be written. -/
structure Base (limits : Limits) (supervisor : Supervisor) (unwritten : Option (Stream × List UInt8)) : Prop where
  held_le : supervisor.spoolBytes + unwrittenBytes unwritten ≤ limits.processOutputBytes
  /-- A pipe that was read to its end is in its spool, and no write to it is on its way. -/
  done : ∀ stream, supervisor.done.get stream = true → supervisor.spools.get stream = supervisor.received.get stream ∧
    ∀ bytes, unwritten ≠ some (stream, bytes)
  complete : supervisor.snapshot.outputComplete = true → supervisor.allDone = true
  told : supervisor.status.outputComplete = true → supervisor.allDone = true

/-- The invariant of a supervisor. -/
structure Sound (limits : Limits) (supervisor : Supervisor) : Prop where
  base : supervisor.Base limits supervisor.unwritten
  inPhase : supervisor.InPhase limits

/-- A step leaves the supervisor sound, and what it holds more was added to the counter. -/
structure Steps (limits : Limits) (charged : Nat) (supervisor next : Supervisor) (chargedNext : Nat) : Prop where
  sound : next.Sound limits
  held : next.held + charged ≤ supervisor.held + chargedNext
  total : charged ≤ limits.totalBytes → chargedNext ≤ limits.totalBytes

theorem Steps.of_le {next : Supervisor} {bytes : Nat} (result : next.Sound limits ∧ next.held = bytes)
    (le : bytes ≤ supervisor.held) : Steps limits charged supervisor next charged :=
  ⟨result.1, Nat.add_le_add_right (Nat.le_trans (Nat.le_of_eq result.2) le) _, id⟩

/-! ## The parts of a step -/

/-- The completion of a broken supervisor is no exit. -/
theorem Broken.not_exited (broken : supervisor.Broken) : supervisor.snapshot.completion.isExited = false := by
  obtain is | is | ⟨_, is | is⟩ := broken <;> rw [is] <;> rfl

theorem Intact.accounted (intact : supervisor.Intact) : supervisor.Accounted := .inl ⟨intact.spools, intact.settled⟩

theorem accounted_of_or (either : supervisor.Intact ∨ supervisor.Broken) : supervisor.Accounted :=
  either.elim Intact.accounted .inr

section

variable (base : supervisor.Base limits supervisor.inflight)

include base

/-- The cleanup goes on, or it comes to its end. -/
theorem drainOrFinish_sound (either : supervisor.Intact ∨ supervisor.Broken) : supervisor.drainOrFinish.Sound limits ∧
      supervisor.drainOrFinish.held = supervisor.spoolBytes + unwrittenBytes supervisor.inflight := by
  unfold drainOrFinish
  split_ifs with goesOn
  · simp only [Bool.and_eq_true, Bool.not_eq_true', decide_eq_true_eq, ne_eq] at goesOn
    obtain ⟨⟨⟨_, uninterrupted⟩, within⟩, known⟩ := goesOn
    have unbroken : ¬ supervisor.Broken := by
      rintro (limit | unknown | ⟨interrupted, _⟩)
      · exact within limit
      · exact known unknown
      · rw [uninterrupted] at interrupted
        cases interrupted
    have intact := either.resolve_right unbroken
    exact ⟨⟨{ base with }, ⟨{ intact with }, unbroken⟩⟩, rfl⟩
  · refine ⟨⟨{ base with complete := fun complete => ?_ }, ?_⟩, rfl⟩
    · exact (Bool.and_eq_true _ _ ▸ complete : _ ∧ _).2
    · have accounted : supervisor.Accounted := accounted_of_or either
      exact accounted

/-- The last capture of a supervisor, whose error is its completion. -/
theorem captureFails_sound (draining : Bool) {reason : Completion}
    (isError : reason = .outputLimit ∨ reason = .unknown) : (supervisor.captureFails draining reason).Sound limits ∧
      (supervisor.captureFails draining reason).held = supervisor.spoolBytes + unwrittenBytes supervisor.inflight := by
  have broken (next : Supervisor) (completes : next.snapshot.completion = reason) : next.Broken :=
    isError.elim (fun limit => .inl (completes.trans limit)) fun unknown => .inr (.inl (completes.trans unknown))
  unfold captureFails
  split_ifs
  · refine ⟨⟨{ base with complete := fun complete => ?_ }, .inr (broken _ rfl)⟩, rfl⟩
    exact (Bool.and_eq_true _ _ ▸ complete : _ ∧ _).2
  · exact ⟨⟨{ base with }, .inr (broken _ rfl)⟩, rfl⟩

end

theorem allDone_set {done : Streams Bool} (stream : Stream) (all : (done.stdout && done.stderr) = true) :
    ((done.set stream true).stdout && (done.set stream true).stderr) = true := by
  simp only [Bool.and_eq_true] at all
  cases stream <;> simp [Streams.set, all]

/-- The end of a pipe is read by a supervisor whose spools hold everything so far. -/
theorem Base.markDone (base : supervisor.Base limits supervisor.inflight) (intact : supervisor.Intact)
    (stream : Stream) :
    { supervisor with done := supervisor.done.set stream true }.Base limits supervisor.inflight := by
  refine ⟨base.held_le, fun other _ => ⟨by rw [intact.spools], fun bytes => by rw [intact.settled]; simp⟩, ?_, ?_⟩
  · exact fun complete => allDone_set stream (base.complete complete)
  · exact fun complete => allDone_set stream (base.told complete)

section

variable (sound : supervisor.Sound limits)

include sound

theorem Steps.stay : Steps limits charged supervisor supervisor charged :=
  ⟨sound, Nat.le_refl _, id⟩

/-- Outside the writes of a capture only a write in flight may follow. -/
theorem Sound.base_of_idle (idle : supervisor.unwritten = supervisor.inflight) :
    supervisor.Base limits supervisor.inflight ∧
      supervisor.held = supervisor.spoolBytes + unwrittenBytes supervisor.inflight :=
  ⟨idle ▸ sound.base, by rw [held, idle]⟩

theorem readBytes_sound (intact : supervisor.Intact) (unbroken : ¬ supervisor.Broken)
    (idle : supervisor.unwritten = supervisor.inflight) (draining : Bool)
    (phase : draining = false → supervisor.phase = .reading) (stream : Stream) (bytes : List UInt8) :
    (supervisor.readBytes limits draining stream bytes).Sound limits ∧
      (supervisor.readBytes limits draining stream bytes).held = supervisor.held := by
  obtain ⟨base, heldNow⟩ := sound.base_of_idle idle
  unfold readBytes
  split_ifs with ignored isEnd
  · exact ⟨sound, rfl⟩
  · rw [heldNow]
    exact drainOrFinish_sound (base.markDone intact stream) (.inl { intact with })
  · next main =>
    have isReading := phase (Bool.eq_false_iff.mpr main)
    have idleNext : { supervisor with done := supervisor.done.set stream true }.unwritten = supervisor.inflight := by
      simp only [unwritten, isReading]
    have marked : Base limits { supervisor with done := supervisor.done.set stream true }
        { supervisor with done := supervisor.done.set stream true }.unwritten := by
      rw [idleNext]
      exact base.markDone intact stream
    refine ⟨⟨marked, ?_⟩, ?_⟩
    · simp only [InPhase, isReading]
      exact ⟨{ intact with }, unbroken⟩
    · rfl
  · push Not at ignored
    refine ⟨⟨{ base with done := fun other isDone => ?_ }, ?_⟩, heldNow.symm⟩
    · have different : other ≠ stream := by
        rintro rfl
        exact ignored.1 isDone
      obtain ⟨same, free⟩ := base.done other isDone
      refine ⟨?_, free⟩
      rw [get_set, if_neg different]
      exact same
    · refine ⟨intact.settled, intact.uninterrupted, unbroken, ?_, Nat.zero_le _, Nat.min_le_left _ _, ?_,
        intact.counted, ?_, ?_⟩
      · exact Bool.eq_false_iff.mpr ignored.1
      · have bound := base.held_le
        have counted := intact.counted
        simp only [counts]
        omega
      · intro other different
        rw [get_set, if_neg different, intact.spools]
      · exact ⟨supervisor.spools.get stream, by rw [get_set, if_pos rfl, intact.spools], by simp [counts]⟩

end

/-! ## Captures -/

section Captures

variable {draining : Bool} {stream : Stream} {bytes : List UInt8} {count written charged : Nat}
  {stage : CaptureStage}

theorem spoolBytes_appendSpool (supervisor : Supervisor) (stream : Stream) (more : List UInt8) :
    (supervisor.appendSpool stream more).spoolBytes = supervisor.spoolBytes + more.length := by
  cases stream <;> simp [appendSpool, spoolBytes, Streams.set, Streams.get] <;> omega

theorem outputBytes_withBytes (snapshot : Snapshot) (stream : Stream) (more : Nat) :
    (snapshot.withBytes stream ((snapshot.outputs.get stream).bytes + more)).outputBytes =
      snapshot.outputBytes + more := by
  cases stream <;> simp [Snapshot.withBytes, Snapshot.outputBytes, Streams.set, Streams.get] <;> omega

theorem Captures.of_inPhase (sound : supervisor.Sound limits)
    (isCapture : supervisor.phase = .capturing draining stream bytes stage) :
    Captures limits supervisor stream bytes stage.counts.1 stage.counts.2 := by
  have inPhase := sound.inPhase
  rwa [InPhase, isCapture] at inPhase

theorem unwritten_of_write (isCapture : supervisor.phase = .capturing draining stream bytes (.write count written)) :
    supervisor.unwritten = some (stream, (bytes.take count).drop written) := by
  simp only [unwritten, isCapture]

/-- Some of the bytes that may still be written reach the spool. -/
theorem Base.append (base : supervisor.Base limits (some (stream, bytes))) (count : Nat) :
    (supervisor.appendSpool stream (bytes.take count)).Base limits (some (stream, bytes.drop count)) ∧
      (supervisor.appendSpool stream (bytes.take count)).spoolBytes + (bytes.drop count).length =
        supervisor.spoolBytes + bytes.length := by
  have same : (supervisor.appendSpool stream (bytes.take count)).spoolBytes + (bytes.drop count).length =
      supervisor.spoolBytes + bytes.length := by
    rw [spoolBytes_appendSpool, length_take, length_drop]
    omega
  refine ⟨⟨Nat.le_trans (Nat.le_of_eq same) base.held_le, fun other isDone => ?_, base.complete, base.told⟩, same⟩
  obtain ⟨whole, free⟩ := base.done other isDone
  have different : other ≠ stream := by
    rintro rfl
    exact free bytes rfl
  refine ⟨?_, fun rest isRest => different (Prod.mk.inj (Option.some.inj isRest)).1.symm⟩
  simp only [appendSpool, get_set, if_neg different]
  exact whole

variable (sound : supervisor.Sound limits)

include sound

/-- The counter is raised by what the capture may write. -/
theorem reserve_steps {chargedNext : Nat}
    (isCapture : supervisor.phase = .capturing draining stream bytes (.reserve count))
    (reserved : reserve charged limits.totalBytes count = some chargedNext) :
    Steps limits charged supervisor { supervisor with phase := .capturing draining stream bytes (.write count 0) }
      chargedNext := by
  have captures : Captures limits supervisor stream bytes count 0 := Captures.of_inPhase sound isCapture
  have none : supervisor.held = supervisor.spoolBytes := by
    simp [held, unwritten, isCapture, captures.settled, unwrittenBytes]
  have whole : unwrittenBytes (some (stream, (bytes.take count).drop 0)) = count := by
    simp [unwrittenBytes, captures.count_le]
  have counted := captures.counted
  have bounded := captures.bounded
  unfold Commands.reserve at reserved
  split_ifs at reserved with within
  obtain rfl := Option.some.inj reserved
  refine ⟨⟨⟨?_, ?_, sound.base.complete, sound.base.told⟩, ?_⟩, ?_, fun _ => within⟩
  · change supervisor.spoolBytes + unwrittenBytes (some (stream, (bytes.take count).drop 0)) ≤ _
    omega
  · intro other isDone
    refine ⟨(sound.base.done other isDone).1, fun rest same => ?_⟩
    obtain ⟨rfl, _⟩ := Prod.mk.inj (Option.some.inj same)
    rw [captures.notDone] at isDone
    cases isDone
  · exact { captures with }
  · change supervisor.spoolBytes + unwrittenBytes (some (stream, (bytes.take count).drop 0)) + charged ≤ _
    omega

/-- Some of the reserved bytes reach the spool. -/
theorem write_steps {more : Nat}
    (isCapture : supervisor.phase = .capturing draining stream bytes (.write count written))
    (le : more ≤ count - written) : Steps limits charged supervisor
      { supervisor.appendSpool stream ((bytes.drop written).take more) with
        phase := .capturing draining stream bytes (.write count (written + more)) } charged := by
  have captures : Captures limits supervisor stream bytes count written := Captures.of_inPhase sound isCapture
  have within := captures.written_le
  have length := captures.count_le
  have bytesNow : (bytes.drop written).take more = ((bytes.take count).drop written).take more := by
    rw [drop_take, take_take, Nat.min_eq_left le]
  obtain ⟨base, same⟩ := Base.append (unwritten_of_write isCapture ▸ sound.base) more
  rw [← bytesNow, drop_drop] at base same
  refine ⟨⟨{ base with }, ?_⟩, ?_, id⟩
  · obtain ⟨before, received, spool⟩ := captures.spool
    refine { captures with written_le := ?_, counted := ?_, others := ?_, spool := ⟨before, received, ?_⟩ }
    · simp only [counts]
      omega
    · have grown : ((bytes.drop written).take more).length = more := by
        rw [length_take, length_drop]
        omega
      have counted := captures.counted
      refine Eq.trans ?_ (spoolBytes_appendSpool supervisor stream _).symm
      change supervisor.snapshot.outputBytes + (written + more) = _
      omega
    · intro other different
      simp only [appendSpool, get_set, if_neg different]
      exact captures.others other different
    · simp only [appendSpool, get_set, if_true, spool, counts, append_assoc, take_add]
  · rw [held, held, unwritten_of_write isCapture]
    exact Nat.le_of_eq (congrArg (· + charged) same)

/-- The bytes that were reserved stay with the supervisor when the capture is left. -/
theorem leaveCapture_base : supervisor.leaveCapture.Base limits supervisor.leaveCapture.inflight :=
  ⟨sound.base.held_le, sound.base.done, sound.base.complete, sound.base.told⟩

/-- All reserved bytes are written. -/
theorem complete_steps (isCapture : supervisor.phase = .capturing draining stream bytes (.write count count)) :
    Steps limits charged supervisor
      (if count < bytes.length then
        { supervisor with
          snapshot := supervisor.snapshot.withBytes stream ((supervisor.snapshot.outputs.get stream).bytes + count)
        }.captureFails draining .outputLimit
      else
        { supervisor with
          snapshot := supervisor.snapshot.withBytes stream ((supervisor.snapshot.outputs.get stream).bytes + count)
        }.captureReturns draining) charged := by
  have captures : Captures limits supervisor stream bytes count count := Captures.of_inPhase sound isCapture
  let next : Supervisor := { supervisor with
    snapshot := supervisor.snapshot.withBytes stream ((supervisor.snapshot.outputs.get stream).bytes + count) }
  have base : next.Base limits next.inflight := by
    refine ⟨?_, fun other isDone => ⟨(sound.base.done other isDone).1, fun rest => ?_⟩, sound.base.complete,
      sound.base.told⟩
    · have bound := sound.base.held_le
      rw [captures.settled]
      exact Nat.le_trans (Nat.le_add_right _ _) bound
    · rw [captures.settled]
      simp
  have less : supervisor.spoolBytes + unwrittenBytes supervisor.inflight ≤ supervisor.held := by
    rw [captures.settled]
    exact Nat.le_add_right _ _
  split_ifs with isCut
  · exact .of_le (captureFails_sound base draining (.inl rfl)) less
  · have whole : count = bytes.length := Nat.le_antisymm captures.count_le (Nat.le_of_not_lt isCut)
    obtain ⟨before, received, spool⟩ := captures.spool
    have intact : next.Intact := by
      refine ⟨ext_get fun other => ?_, ?_, captures.settled, captures.uninterrupted⟩
      · by_cases same : other = stream
        · subst same
          rw [spool, received, whole, take_length]
        · exact captures.others other same
      · exact (outputBytes_withBytes _ _ _).trans captures.counted
    unfold captureReturns
    split_ifs
    · exact .of_le (drainOrFinish_sound base (.inl intact)) less
    · exact .of_le ⟨⟨{ base with told := base.complete }, ⟨{ intact with }, captures.unbroken⟩⟩, rfl⟩ less

theorem writeFails_steps (draining : Bool) :
    Steps limits charged supervisor (supervisor.leaveCapture.captureFails draining .unknown) charged :=
  .of_le (captureFails_sound (leaveCapture_base sound) draining (.inr rfl)) (Nat.le_refl _)

section

variable (isCapture : supervisor.phase = .capturing draining stream bytes stage)

include isCapture

/-- A capture that has reserved nothing is at another such stage with no more bytes. -/
theorem unreserved_steps {next : CaptureStage} {smaller : Nat}
    (unreserved : stage = .load count ∨ stage = .reserve count)
    (unreservedNext : next = .load smaller ∨ next = .reserve smaller) (le : smaller ≤ count) :
    Steps limits charged supervisor { supervisor with phase := .capturing draining stream bytes next } charged := by
  have captures : Captures limits supervisor stream bytes count 0 := by
    have := Captures.of_inPhase sound isCapture
    obtain rfl | rfl := unreserved <;> exact this
  have idle : supervisor.unwritten = supervisor.inflight := by
    obtain rfl | rfl := unreserved <;> simp only [unwritten, isCapture]
  have idleNext :
      { supervisor with phase := .capturing draining stream bytes next }.unwritten = supervisor.inflight := by
    obtain rfl | rfl := unreservedNext <;> rfl
  obtain ⟨base, heldNow⟩ := sound.base_of_idle idle
  have bounded := captures.bounded
  refine ⟨⟨?_, ?_⟩, ?_, id⟩
  · rw [idleNext]
    exact { base with }
  · have counts : next.counts = (smaller, 0) := by obtain rfl | rfl := unreservedNext <;> rfl
    simp only [InPhase, counts]
    exact { captures with
      written_le := Nat.zero_le _, count_le := Nat.le_trans le captures.count_le, bounded := by dsimp only; omega }
  · rw [heldNow, held, idleNext]
    exact Nat.le_refl _

theorem capture_steps
    (event : SupervisorEvent) :
    Steps limits charged supervisor (supervisor.capture limits charged draining stream bytes stage event).1
      (supervisor.capture limits charged draining stream bytes stage event).2 := by
  have interrupted (reason : Completion) : Steps limits charged supervisor
      (if draining = false ∧ (reason = .cancelled ∨ reason = .timedOut) then
        ({ supervisor.leaveCapture with interruptedCapture := true }.breakWith reason, charged)
      else (supervisor, charged)).1
      (if draining = false ∧ (reason = .cancelled ∨ reason = .timedOut) then
        ({ supervisor.leaveCapture with interruptedCapture := true }.breakWith reason, charged)
      else (supervisor, charged)).2 := by
    split_ifs with isReason
    · have base := leaveCapture_base sound
      exact ⟨⟨{ base with }, .inr (.inr (.inr ⟨rfl, isReason.2⟩))⟩, Nat.le_refl _, id⟩
    · exact .stay sound
  cases stage with
  | load count =>
    cases event with
    | load => exact unreserved_steps sound isCapture (.inl rfl) (.inr rfl) (Nat.min_le_left _ _)
    | interrupt reason => exact interrupted reason
    | _ => exact .stay sound
  | reserve count =>
    cases event with
    | reserve =>
      simp only [capture]
      cases reserved : Commands.reserve charged limits.totalBytes count with
      | none => exact unreserved_steps sound isCapture (.inr rfl) (.inl rfl) (Nat.le_refl _)
      | some chargedNext => exact reserve_steps sound isCapture reserved
    | interrupt reason => exact interrupted reason
    | _ => exact .stay sound
  | write count written =>
    cases event with
    | write more => exact write_steps sound isCapture (Nat.min_le_right _ _)
    | complete =>
      by_cases isWhole : written = count
      · subst isWhole
        simp only [capture, if_true]
        exact complete_steps sound isCapture
      · simp only [capture, if_neg isWhole]
        exact .stay sound
    | writeFails => exact writeFails_steps sound draining
    | interrupt reason => exact interrupted reason
    | _ => exact .stay sound

end

end Captures

/-! ## Steps -/

/-- The phases in which no capture is running. -/
theorem unwritten_eq_inflight (notCapturing : ∀ draining stream bytes stage,
    supervisor.phase ≠ .capturing draining stream bytes stage) : supervisor.unwritten = supervisor.inflight := by
  unfold unwritten
  split
  · next draining stream bytes count written isCapture => exact absurd isCapture (notCapturing _ _ _ _)
  · rfl

section

variable (sound : supervisor.Sound limits)

include sound

theorem failCleanup_steps : Steps limits charged supervisor supervisor.failCleanup charged := by
  have base := leaveCapture_base sound
  exact ⟨⟨{ base with complete := nofun, told := nofun }, ⟨.inr (.inr (.inl rfl)), rfl⟩⟩, Nat.le_refl _, id⟩

theorem abort_steps : Steps limits charged supervisor { supervisor.leaveCapture with phase := .aborted } charged := by
  have base := leaveCapture_base sound
  exact ⟨⟨{ base with }, trivial⟩, Nat.le_refl _, id⟩

theorem finish_steps (isFinishing : supervisor.phase = .finishing) :
    Steps limits charged supervisor supervisor.finish charged := by
  have accounted : supervisor.Accounted := by
    have inPhase := sound.inPhase
    rwa [InPhase, isFinishing] at inPhase
  have less : supervisor.spoolBytes ≤ supervisor.held := Nat.le_add_right _ _
  refine ⟨⟨⟨Nat.le_trans less sound.base.held_le, ?_, sound.base.complete, sound.base.complete⟩, ⟨?_, rfl⟩⟩,
    Nat.add_le_add_right less _, id⟩
  · exact fun stream isDone => ⟨(sound.base.done stream isDone).1, fun bytes => by simp [finish, unwritten]⟩
  · exact accounted.imp (fun both => ⟨both.1, rfl⟩) id

/-- While a write is in flight the completion tells it, except in an aborted task. -/
theorem Sound.inPhase_of_inflight {write : Stream × List UInt8} (inflight : supervisor.inflight = some write) :
    supervisor.phase = .aborted ∨
      supervisor.Broken ∧ (supervisor.phase = .waiting ∨ supervisor.phase = .finishing ∨
        supervisor.phase = .ended ∧ supervisor.status = supervisor.snapshot) := by
  have unsettled : supervisor.inflight ≠ none := by simp [inflight]
  have inPhase := sound.inPhase
  unfold InPhase at inPhase
  revert inPhase
  cases supervisor.phase with
  | reading | draining => exact fun going => absurd going.1.settled unsettled
  | capturing => exact fun captures => absurd captures.settled unsettled
  | waiting =>
    rintro (intact | broken)
    · exact absurd intact.settled unsettled
    · exact .inr ⟨broken, .inl rfl⟩
  | finishing =>
    rintro (⟨_, settled⟩ | broken)
    · exact absurd settled unsettled
    · exact .inr ⟨broken, .inr (.inl rfl)⟩
  | ended =>
    rintro ⟨⟨_, settled⟩ | broken, last⟩
    · exact absurd settled unsettled
    · exact .inr ⟨broken, .inr (.inr ⟨rfl, last⟩)⟩
  | aborted => exact fun _ => .inl rfl

theorem settle_steps (count : Nat) : Steps limits charged supervisor (supervisor.settle count) charged := by
  unfold settle
  cases inflight : supervisor.inflight with
  | none => exact .stay sound
  | some write =>
    obtain ⟨stream, bytes⟩ := write
    have told := sound.inPhase_of_inflight inflight
    have notCapturing : ∀ draining other more stage, supervisor.phase ≠ .capturing draining other more stage := by
      intro draining other more stage isCapture
      rw [isCapture] at told
      simp at told
    have idle := (unwritten_eq_inflight notCapturing).trans inflight
    have idleNext : { supervisor.appendSpool stream (bytes.take count) with
        inflight := some (stream, bytes.drop count) }.unwritten = some (stream, bytes.drop count) :=
      unwritten_eq_inflight notCapturing
    obtain ⟨base, same⟩ := Base.append (idle ▸ sound.base) count
    refine .of_le ⟨⟨?_, ?_⟩, congrArg (_ + unwrittenBytes ·) idleNext⟩ ?_
    · rw [idleNext]
      exact { base with }
    · unfold InPhase
      obtain aborted | ⟨broken, isWaiting | isFinishing | ⟨isEnded, last⟩⟩ := told
      · simp only [appendSpool, aborted]
      · simp only [appendSpool, isWaiting]
        exact .inr broken
      · simp only [appendSpool, isFinishing]
        exact .inr broken
      · simp only [appendSpool, isEnded]
        exact ⟨.inr broken, last⟩
    · rw [held, idle]
      exact Nat.le_of_eq same

/-- The first loop is left by a supervisor whose spools hold everything so far. -/
theorem break_steps (isReading : supervisor.phase = .reading) (reason : Completion) :
    Steps limits charged supervisor (supervisor.breakWith reason) charged := by
  have inPhase := sound.inPhase
  rw [InPhase, isReading] at inPhase
  have intact := inPhase.1
  have idle : supervisor.unwritten = supervisor.inflight := unwritten_eq_inflight (by simp [isReading])
  obtain ⟨base, heldNow⟩ := sound.base_of_idle idle
  exact .of_le ⟨⟨{ base with }, .inl { intact with }⟩, rfl⟩
    (Nat.le_of_eq heldNow.symm)

theorem waited_steps (isWaiting : supervisor.phase = .waiting) (code : Option Int) (success : Bool) :
    Steps limits charged supervisor
      ((if supervisor.snapshot.completion.isExited then
        { supervisor with snapshot := { supervisor.snapshot with completion := .exited code success } }
      else supervisor).drainOrFinish) charged := by
  have inPhase := sound.inPhase
  rw [InPhase, isWaiting] at inPhase
  have idle : supervisor.unwritten = supervisor.inflight := unwritten_eq_inflight (by simp [isWaiting])
  obtain ⟨base, heldNow⟩ := sound.base_of_idle idle
  split_ifs with exited
  · have intact :=
      inPhase.resolve_right fun broken => Bool.noConfusion (broken.not_exited.symm.trans exited)
    let next : Supervisor :=
      { supervisor with snapshot := { supervisor.snapshot with completion := .exited code success } }
    have baseNext : next.Base limits next.inflight := { base with }
    exact .of_le (drainOrFinish_sound baseNext (.inl { intact with })) (Nat.le_of_eq heldNow.symm)
  · exact .of_le (drainOrFinish_sound base inPhase) (Nat.le_of_eq heldNow.symm)

theorem read_steps (draining : Bool) (phase : supervisor.phase = if draining then .draining else .reading)
    (stream : Stream) (bytes : List UInt8) :
    Steps limits charged supervisor (supervisor.readBytes limits draining stream bytes) charged := by
  have inPhase := sound.inPhase
  have idle : supervisor.unwritten = supervisor.inflight :=
    unwritten_eq_inflight (by intro _ _ _ _; rw [phase]; split_ifs <;> simp)
  have going : supervisor.Intact ∧ ¬ supervisor.Broken := by
    rw [InPhase, phase] at inPhase
    cases draining <;> exact inPhase
  exact .of_le (readBytes_sound sound going.1 going.2 idle draining (fun main => by rw [phase, main]; rfl) stream bytes)
    (Nat.le_refl _)

end

theorem step_steps (charged : Nat) (sound : supervisor.Sound limits) (event : SupervisorEvent) :
    Steps limits charged supervisor (supervisor.step limits charged event).1
      (supervisor.step limits charged event).2 := by
  unfold step
  split
  · split_ifs
    · exact failCleanup_steps sound
    · exact .stay sound
  · split_ifs
    · exact .stay sound
    · exact abort_steps sound
  · exact settle_steps sound _
  · split
    · split_ifs
      · exact break_steps sound (by assumption) _
      · exact .stay sound
    · exact read_steps sound false (by assumption) _ _
    · split_ifs
      · exact .stay sound
      · exact break_steps sound (by assumption) _
    · exact capture_steps sound (by assumption) _
    · exact waited_steps sound (by assumption) _ _
    · exact read_steps sound true (by assumption) _ _
    · exact finish_steps sound (by assumption)
    · exact .stay sound

end Supervisor

end Ferrus.Nano.Commands

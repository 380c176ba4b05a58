import Ferrus.Model.Text

/-! # Background commands

A session runs commands in the background. Each has a supervisor that reads the two pipes of its process and
captures what it reads in two spool files, until the process ends or a limit is reached. The supervisors run at the
same time and share one counter of charged bytes, so every access to it and every write is a step of its own. A
write that is interrupted may still reach the file later. What the pipes deliver, which operations fail and when a
supervisor is cancelled are inputs.
-/

namespace Ferrus.Nano.Commands

def stateBytes : Nat := 2048

structure Limits where
  (concurrent processes durationMs processOutputBytes totalBytes : Nat)
deriving DecidableEq, Repr

inductive Completion where
  | running
  | exited (code : Option Int) (success : Bool)
  | timedOut | cancelled | outputLimit | unknown
deriving DecidableEq, Repr

def Completion.isExited : Completion → Bool
  | .exited .. => true
  | _ => false

/-- The two outputs of a process. -/
inductive Stream where
  | stdout | stderr
deriving DecidableEq, Repr

/-- A value for each output. -/
structure Streams (α : Type) where
  (stdout stderr : α)
deriving DecidableEq, Repr

namespace Streams

variable {α : Type}

def get (streams : Streams α) : Stream → α
  | .stdout => streams.stdout
  | .stderr => streams.stderr

def set (streams : Streams α) : Stream → α → Streams α
  | .stdout, value => { streams with stdout := value }
  | .stderr, value => { streams with stderr := value }

end Streams

structure OutputRef where
  handle : String
  bytes : Nat
deriving DecidableEq, Repr

structure Snapshot where
  (processId backend : String)
  completion : Completion
  outputs : Streams OutputRef
  outputComplete : Bool
  mutationScope : String
deriving DecidableEq, Repr

namespace Snapshot

variable (snapshot : Snapshot)

def potentiallyWriting : Bool :=
  snapshot.completion = .running || snapshot.completion = .unknown

def outputBytes : Nat := snapshot.outputs.stdout.bytes + snapshot.outputs.stderr.bytes

def withBytes (stream : Stream) (bytes : Nat) : Snapshot :=
  { snapshot with outputs := snapshot.outputs.set stream { snapshot.outputs.get stream with bytes } }

end Snapshot

/-! ## Supervisors -/

/-- What a capture does next: load the counter, reserve a number of bytes, or write the ones it has reserved. -/
inductive CaptureStage where
  | load (count : Nat)
  | reserve (count : Nat)
  | write (count written : Nat)
deriving DecidableEq, Repr

inductive Phase where
  /-- The loop over the reads. -/
  | reading
  | capturing (draining : Bool) (stream : Stream) (bytes : List UInt8) (stage : CaptureStage)
  /-- The cleanup, before the exit of the process is known. -/
  | waiting
  /-- The loop of the cleanup over what is left in the pipes. -/
  | draining
  | finishing
  | ended
  /-- The task was dropped. -/
  | aborted
deriving DecidableEq, Repr

structure Supervisor where
  phase : Phase
  snapshot : Snapshot
  /-- The value of the watch channel. -/
  status : Snapshot
  spools : Streams (List UInt8)
  /-- What has been read from the pipes. -/
  received : Streams (List UInt8)
  done : Streams Bool
  interruptedCapture : Bool
  /-- Reserved bytes of an interrupted write that may still reach their spool. -/
  inflight : Option (Stream × List UInt8)
deriving DecidableEq, Repr

inductive SupervisorEvent where
  /-- The first loop ends without a read: cancelled, timed out, exited, or the exit is not known. -/
  | stop (reason : Completion)
  /-- What a read returns; nothing at the end of the pipe. -/
  | read (stream : Stream) (bytes : List UInt8)
  | readFails (stream : Stream)
  | load
  | reserve
  /-- Some of the reserved bytes reach the spool. -/
  | write (count : Nat)
  | writeFails
  /-- The write is flushed. -/
  | complete
  /-- The capture is cancelled, or its deadline passes. -/
  | interrupt (reason : Completion)
  | waited (code : Option Int) (success : Bool)
  | finish
  /-- A step of the cleanup fails, or the cleanup times out. -/
  | cleanupFails
  | abort
  /-- An interrupted write goes on. -/
  | settle (count : Nat)
deriving DecidableEq, Repr

/-- `reserve`: add to the counter if it stays within the total. -/
def reserve (charged total bytes : Nat) : Option Nat := if charged + bytes ≤ total then some (charged + bytes) else none

namespace Supervisor

def start (snapshot : Snapshot) : Supervisor :=
  ⟨.reading, snapshot, snapshot, ⟨[], []⟩, ⟨[], []⟩, ⟨false, false⟩, false, none⟩

variable (supervisor : Supervisor)

def allDone : Bool := supervisor.done.stdout && supervisor.done.stderr

/-- Leave the first loop with a reason. -/
def breakWith (reason : Completion) : Supervisor :=
  { supervisor with snapshot := { supervisor.snapshot with completion := reason }, phase := .waiting }

/-- The cleanup goes on with the pipes, or to the end. -/
def drainOrFinish : Supervisor :=
  if !supervisor.allDone && !supervisor.interruptedCapture && supervisor.snapshot.completion ≠ .outputLimit &&
      supervisor.snapshot.completion ≠ .unknown then { supervisor with phase := .draining }
  else
    { supervisor with
      snapshot := { supervisor.snapshot with outputComplete := !supervisor.interruptedCapture && supervisor.allDone }
      phase := .finishing }

/-- The reserved bytes that have not been written yet. -/
def unwritten : Option (Stream × List UInt8) :=
  match supervisor.phase with
  | .capturing _ stream bytes (.write count written) => some (stream, (bytes.take count).drop written)
  | _ => supervisor.inflight

/-- The capture is given up; a write may still go on. -/
def leaveCapture : Supervisor := { supervisor with inflight := supervisor.unwritten }

def appendSpool (stream : Stream) (bytes : List UInt8) : Supervisor :=
  { supervisor with spools := supervisor.spools.set stream (supervisor.spools.get stream ++ bytes) }

/-- A capture returns an error: the loop that it is part of ends with the reason. -/
def captureFails (draining : Bool) (reason : Completion) : Supervisor :=
  if draining then
    { supervisor with
      snapshot := { supervisor.snapshot with
        completion := reason, outputComplete := !supervisor.interruptedCapture && supervisor.allDone }
      phase := .finishing }
  else supervisor.breakWith reason

/-- A capture returns: its loop goes on. -/
def captureReturns (draining : Bool) : Supervisor :=
  if draining then supervisor.drainOrFinish else { supervisor with status := supervisor.snapshot, phase := .reading }

variable (limits : Limits)

/-- The end of a pipe, or bytes to capture. -/
def readBytes (draining : Bool) (stream : Stream) (bytes : List UInt8) : Supervisor :=
  if supervisor.done.get stream = true ∨ 8192 < bytes.length then supervisor
  else if bytes = [] then
    let next := { supervisor with done := supervisor.done.set stream true }
    if draining then next.drainOrFinish else next
  else
    let count := min bytes.length (limits.processOutputBytes - supervisor.snapshot.outputBytes)
    { supervisor with
      received := supervisor.received.set stream (supervisor.received.get stream ++ bytes)
      phase := .capturing draining stream bytes (.load count) }

/-- One step of a capture, with the shared counter. -/
def capture (charged : Nat) (draining : Bool) (stream : Stream) (bytes : List UInt8) :
    CaptureStage → SupervisorEvent → Supervisor × Nat
  | .load count, .load =>
      ({ supervisor with
          phase := .capturing draining stream bytes (.reserve (min count (limits.totalBytes - charged))) }, charged)
  | .reserve count, .reserve =>
      match Commands.reserve charged limits.totalBytes count with
      | some next => ({ supervisor with phase := .capturing draining stream bytes (.write count 0) }, next)
      -- A sibling has consumed the allowance since it was loaded.
      | none => ({ supervisor with phase := .capturing draining stream bytes (.load count) }, charged)
  | .write count written, .write more =>
      let more := min more (count - written)
      ({ supervisor.appendSpool stream ((bytes.drop written).take more) with
          phase := .capturing draining stream bytes (.write count (written + more)) }, charged)
  | .write count written, .complete =>
      if written = count then
        let next := { supervisor with
          snapshot := supervisor.snapshot.withBytes stream ((supervisor.snapshot.outputs.get stream).bytes + count) }
        (if count < bytes.length then next.captureFails draining .outputLimit else next.captureReturns draining,
          charged)
      else (supervisor, charged)
  | .write _ _, .writeFails => (supervisor.leaveCapture.captureFails draining .unknown, charged)
  | _, .interrupt reason =>
      if draining = false ∧ (reason = .cancelled ∨ reason = .timedOut) then
        ({ supervisor.leaveCapture with interruptedCapture := true }.breakWith reason, charged)
      else (supervisor, charged)
  | _, _ => (supervisor, charged)

/-- The cleanup is running. -/
def cleaning : Bool :=
  match supervisor.phase with
  | .waiting | .draining | .finishing | .capturing true _ _ _ => true
  | .reading | .capturing false _ _ _ | .ended | .aborted => false

/-- A cleanup that fails or times out. -/
def failCleanup : Supervisor :=
  let snapshot := { supervisor.snapshot with completion := .unknown, outputComplete := false }
  { supervisor.leaveCapture with snapshot, status := snapshot, phase := .ended }

/-- `Writer::finish` and the last message on the channel. -/
def finish : Supervisor :=
  let snapshot := (supervisor.snapshot.withBytes .stdout supervisor.spools.stdout.length).withBytes .stderr
    supervisor.spools.stderr.length
  { supervisor with snapshot, status := snapshot, phase := .ended, inflight := none }

/-- What is still in flight may reach its spool at any time. -/
def settle (count : Nat) : Supervisor :=
  match supervisor.inflight with
  | none => supervisor
  | some (stream, bytes) =>
    { supervisor.appendSpool stream (bytes.take count) with inflight := some (stream, bytes.drop count) }

def step (charged : Nat) (event : SupervisorEvent) : Supervisor × Nat :=
  match event with
  | .cleanupFails => (if supervisor.cleaning then supervisor.failCleanup else supervisor, charged)
  | .abort =>
      (if supervisor.phase = .ended then supervisor else { supervisor.leaveCapture with phase := .aborted }, charged)
  | .settle count => (supervisor.settle count, charged)
  | event =>
      match supervisor.phase, event with
      | .reading, .stop reason =>
          (if reason = .cancelled ∨ reason = .timedOut ∨ reason = .unknown ∨ reason = .exited none false then
            supervisor.breakWith reason else supervisor, charged)
      | .reading, .read stream bytes => (supervisor.readBytes limits false stream bytes, charged)
      | .reading, .readFails stream =>
          (if supervisor.done.get stream = true then supervisor else supervisor.breakWith .unknown, charged)
      | .capturing draining stream bytes stage, event =>
          supervisor.capture limits charged draining stream bytes stage event
      | .waiting, .waited code success =>
          let next := if supervisor.snapshot.completion.isExited then
            { supervisor with snapshot := { supervisor.snapshot with completion := .exited code success } }
          else supervisor
          (next.drainOrFinish, charged)
      | .draining, .read stream bytes => (supervisor.readBytes limits true stream bytes, charged)
      | .finishing, .finish => (supervisor.finish, charged)
      | _, _ => (supervisor, charged)

/-- What `read_process` shows: the last message, or an unknown outcome where none will follow it. -/
def report : Snapshot :=
  if supervisor.phase = .aborted ∧ supervisor.status.completion = .running then
    { supervisor.status with completion := .unknown }
  else supervisor.status

end Supervisor

/-! ## The session -/

structure ExecRequest where
  (command cwd : String)
  timeoutMs : Nat
deriving DecidableEq, Repr

def validExec (request : ExecRequest) : Bool :=
  !Text.isBlank request.command && request.command.utf8ByteSize ≤ 16 * 1024 &&
    !request.command.toList.contains '\x00' &&
    !request.cwd.isEmpty && request.cwd.utf8ByteSize ≤ 4096 && 0 < request.timeoutMs

structure Session where
  (sessionId backend : String)
  limits : Limits
  (charged attempts : Nat)
  closed : Bool
  processes : List Supervisor
deriving DecidableEq, Repr

/-- The errors that starting a command can end in. -/
inductive ToolError where
  | invalidArguments | denied | failed | interrupted | outputLimit
deriving DecidableEq

namespace Session

/-- `Commands::new`. -/
def new (sessionId backend : String) (limits : Limits) : Session := ⟨sessionId, backend, limits, 0, 0, false, []⟩

variable (session : Session)

def potentiallyActiveWriters : Nat := (session.processes.filter (·.status.potentiallyWriting)).length

/-- `exec`; `spawned` says whether the spool files and the process could be created. -/
def exec (request : ExecRequest) (cancelled spawned : Bool) : Session × Except ToolError Snapshot :=
  if !validExec request then (session, .error .invalidArguments)
  else if session.closed || cancelled then (session, .error .interrupted)
  else if session.limits.processes ≤ session.attempts ||
    session.limits.concurrent ≤ session.potentiallyActiveWriters then
    (session, .error .denied)
  else
    match Commands.reserve session.charged session.limits.totalBytes stateBytes with
    | none => (session, .error .outputLimit)
    | some charged =>
        let attempts := session.attempts + 1
        let id := session.sessionId ++ "-p" ++ attempts.repr
        let running : Snapshot :=
          ⟨id, session.backend, .running, ⟨⟨id ++ "-stdout", 0⟩, ⟨id ++ "-stderr", 0⟩⟩, false, "unknown"⟩
        if spawned then
          ({ session with charged, attempts, processes := session.processes ++ [.start running] }, .ok running)
        else ({ session with charged, attempts }, .error .failed)

end Session

inductive CommandEvent where
  | exec (request : ExecRequest) (cancelled spawned : Bool)
  | shutdown
  | process (index : Nat) (event : SupervisorEvent)
deriving DecidableEq, Repr

namespace Session

def step (session : Session) : CommandEvent → Session
  | .exec request cancelled spawned => (session.exec request cancelled spawned).1
  | .shutdown => { session with closed := true }
  | .process index event =>
      match session.processes[index]? with
      | none => session
      | some supervisor =>
          let (next, charged) := supervisor.step session.limits session.charged event
          { session with charged, processes := session.processes.set index next }

end Session

end Ferrus.Nano.Commands

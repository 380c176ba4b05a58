import Ferrus.Model.Tools.Consultations

/-! # Which consultation a response answers

If no call is overtaken by the next consultation between its own steps, every response that is handed out
was written while its consultation was open, by a responder that had seen this consultation. A responder
that is overtaken writes an answer of an earlier consultation into the file of a later one.
-/

namespace Ferrus.Tools

open Ferrus.Runtime Ferrus.Machine Ferrus.Text Consultations

/-- The response was given to this consultation, and written while it was open. -/
structure Response.Answers (response : Response) (consultation : Nat) : Prop where
  checked : response.checkedIn = consultation
  written : response.writtenIn = consultation
  wasOpen : response.whileOpen = true

instance (response : Response) (consultation : Nat) : Decidable (response.Answers consultation) :=
  decidable_of_iff (response.checkedIn = consultation ∧ response.writtenIn = consultation ∧ response.whileOpen = true)
    ⟨fun ⟨checked, written, wasOpen⟩ => ⟨checked, written, wasOpen⟩,
      fun answers => ⟨answers.checked, answers.written, answers.wasOpen⟩⟩

/-- Every response handed out answers the consultation it is handed out for. -/
def AnswersMatch (state : Consultations) : Prop :=
  ∀ delivery ∈ state.delivered, delivery.response.Answers delivery.consultation

instance (state : Consultations) : Decidable (AnswersMatch state) :=
  inferInstanceAs (Decidable (∀ _ ∈ _, _))

/-- The consultation that must still be the latest one when the call takes the action, and whether it
must then be open. A question is recorded, and the response before it is cleared, with no consultation
since its first read; a response is written while the consultation that the responder saw is open; a
waiting executor reads the file before a next consultation. -/
def ConsultCall.due? : ConsultCall → ConsultAction → Option (Nat × Option Bool)
  | .consulting _ _ seen _, .clearResponse | .consulting _ _ seen _, .recordConsultation =>
      some (seen, some false)
  | .responding _ seen _, .writeResponse => some (seen, some true)
  | .waiting seen _, .pollResponse => some (seen, none)
  | _, _ => none

/-- The call is not overtaken by another consultation. -/
def InTime (state : Consultations) (call : ConsultCall) (action : ConsultAction) : Prop :=
  ∀ due ∈ call.due? action, state.latest = due.1 ∧ ∀ isOpen ∈ due.2, state.isOpen = isOpen

instance (state : Consultations) (call : ConsultCall) (action : ConsultAction) : Decidable (InTime state call action) :=
  inferInstanceAs (Decidable (∀ _ ∈ _, _))

/-! ## The invariant -/

/-- The file holds nothing, or an answer to the latest consultation. -/
structure Consultations.Sound (state : Consultations) : Prop where
  numbered : state.isOpen = true → 1 ≤ state.latest
  response : 1 ≤ state.latest → isBlank state.response.text = true ∨ state.response.Answers state.latest
  delivered : AnswersMatch state

/-- What holds of each call. A question that is about to be recorded has left the file empty, and nobody
can write to it, because no consultation is open. -/
def CallSound (state : Consultations) (id : Nat) : ConsultCall → Prop
  | .consulting _ _ seen .cleared => seen ≤ state.latest ∧
      (state.latest = seen → state.isOpen = false ∧ isBlank state.response.text = true)
  | .consulting _ _ seen _ => seen ≤ state.latest
  | .responding _ _ _ => True
  | .waiting seen phase => 1 ≤ seen ∧
      match phase with
      | .answered response | .restored response | .cleared response => response.Answers seen
      | _ => True
  | .asking _ _ => state.locked = some id ∧ state.isOpen = false ∧ isBlank state.response.text = true

variable {state next : Consultations} {id other : Nat} {call : ConsultCall}

/-! ## Steps that open no consultation -/

/-- The change opens no consultation, and while none is open it leaves an empty file empty. -/
structure Consultations.Quiet (state next : Consultations) : Prop where
  latest : next.latest = state.latest
  closed : state.isOpen = false → next.isOpen = false
  blank : state.isOpen = false → isBlank state.response.text = true → isBlank next.response.text = true

namespace Consultations

variable {state next : Consultations}

/-- A change of anything but the row, the response and the number. -/
theorem Quiet.of_same (row : next.row = state.row) (response : next.response = state.response)
    (latest : next.latest = state.latest) : state.Quiet next where
  latest := latest
  closed := by
    intro closed
    rw [isOpen, row]
    exact closed
  blank := by
    intro _ isEmpty
    rw [response]
    exact isEmpty

theorem Quiet.clearResponse (state : Consultations) : state.Quiet state.clearResponse :=
  ⟨rfl, id, fun _ _ => rfl⟩

theorem Quiet.release (state : Consultations) (id : Nat) : state.Quiet (state.release id) := by
  unfold Consultations.release
  split <;> exact .of_same rfl rfl rfl

/-- Restoring a task that is in no consultation changes nothing. -/
theorem Quiet.restore (state : Consultations) : state.Quiet state.restore := by
  refine ⟨rfl, fun closed => ?_, fun _ isEmpty => isEmpty⟩
  have away : state.row.status ≠ .consultation := by
    intro paused
    simp [isOpen, paused] at closed
  rw [Consultations.restore, TaskRow.restoreConsultation, if_neg away]
  exact closed

theorem Quiet.of_open (latest : next.latest = state.latest) (wasOpen : state.isOpen = true) : state.Quiet next := by
  refine ⟨latest, fun closed => ?_, fun closed => ?_⟩
  · rw [wasOpen] at closed
    cases closed
  · rw [wasOpen] at closed
    cases closed

/-- A human answer returns to a consultation only if it was open during the question. -/
theorem Quiet.restoreHuman (state : Consultations) : state.Quiet { state with row := state.row.restoreHuman } := by
  refine ⟨rfl, fun closed => ?_, fun _ isEmpty => isEmpty⟩
  by_cases asked : state.row.status = .awaitingHuman
  · have away : state.row.resumeStatus ≠ .consultation := by
      intro resumes
      simp [isOpen, asked, resumes] at closed
    have resumed : state.row.restoreHuman.resumeStatus = .executing := by
      rw [TaskRow.restoreHuman, if_pos asked, if_neg away]
      rfl
    have status : state.row.restoreHuman.status = state.row.resumeStatus := by
      rw [TaskRow.restoreHuman, if_pos asked]
    simp [isOpen, resumed, status, away]
  · rw [TaskRow.restoreHuman, if_neg asked]
    exact closed

theorem Quiet.askHuman (working : state.row.status.isExecutorWorking = true) (agent : AgentId) (questionOrder : Nat) :
    state.Quiet { state with
      row := state.row.humanQuestion state.row.status (some state.row.status) agent questionOrder } := by
  refine ⟨rfl, fun _ => ?_, fun _ isEmpty => isEmpty⟩
  have away : state.row.status ≠ .consultation := by
    intro paused
    rw [paused] at working
    cases working
  simp [isOpen, TaskRow.humanQuestion, TaskRow.resumeStatus, away]

theorem isOpen_of_consultation (paused : state.row.status = .consultation) : state.isOpen = true := by
  simp [isOpen, paused]

theorem closed_of_working (working : state.row.status.isExecutorWorking = true) : state.isOpen = false := by
  cases status : state.row.status <;> simp_all [isOpen, TaskStatus.isExecutorWorking]

/-- A quiet change keeps the state sound if it keeps the response or empties the file. -/
theorem Sound.of_quiet (sound : state.Sound) (quiet : state.Quiet next)
    (kept : next.response = state.response ∨ isBlank next.response.text = true)
    (delivered : AnswersMatch next) : next.Sound where
  numbered := by
    intro isOpen
    rw [quiet.latest]
    apply sound.numbered
    by_contra closed
    rw [quiet.closed (Bool.eq_false_of_not_eq_true closed)] at isOpen
    cases isOpen
  response := by
    intro numbered
    rw [quiet.latest] at numbered ⊢
    rcases kept with same | isEmpty
    · rw [same]
      exact sound.response numbered
    · exact .inl isEmpty
  delivered := delivered

/-- A new consultation starts with an empty file. -/
theorem Sound.pause (sound : state.Sound) (isEmpty : isBlank state.response.text = true)
    (status : TaskStatus) : (state.pause status).Sound where
  numbered := fun _ => Nat.le_add_left 1 state.latest
  response := fun _ => .inl isEmpty
  delivered := sound.delivered

/-- A response that is written in time. -/
theorem Sound.publish (sound : state.Sound) (text : String) (isOpen : state.isOpen = true) :
    (state.publish text state.latest).Sound where
  numbered := sound.numbered
  response := fun _ => .inr ⟨rfl, rfl, isOpen⟩
  delivered := sound.delivered

theorem Sound.deliver (sound : state.Sound) {response : Response} {consultation : Nat}
    (answers : response.Answers consultation) : (state.deliver response consultation).Sound where
  numbered := sound.numbered
  response := sound.response
  delivered := List.forall_mem_cons.mpr ⟨answers, sound.delivered⟩

end Consultations

/-! ## Steps of the calls -/

/-- A quiet change keeps what is said of a call, as long as an open transaction stays its own. -/
theorem CallSound.of_quiet (sound : CallSound state other call) (quiet : state.Quiet next)
    (locked : state.locked = some other → next.locked = some other) : CallSound next other call := by
  cases call with
  | consulting question status seen phase =>
    cases phase with
    | cleared =>
      obtain ⟨seen, unrecorded⟩ := sound
      refine ⟨quiet.latest ▸ seen, fun current => ?_⟩
      obtain ⟨closed, isEmpty⟩ := unrecorded (quiet.latest ▸ current)
      exact ⟨quiet.closed closed, quiet.blank closed isEmpty⟩
    | guarded | leased | requested =>
      have bound : seen ≤ state.latest := sound
      exact (quiet.latest ▸ bound : seen ≤ next.latest)
  | responding => trivial
  | waiting => exact sound
  | asking =>
    obtain ⟨own, closed, isEmpty⟩ := sound
    exact ⟨locked own, quiet.closed closed, quiet.blank closed isEmpty⟩

/-- A consultation that another call records. -/
theorem CallSound.pause (sound : CallSound state other call) (unlocked : state.locked ≠ some other)
    (latest : next.latest = state.latest + 1) : CallSound next other call := by
  cases call with
  | consulting question status seen phase =>
    cases phase with
    | cleared =>
      have bound : seen ≤ state.latest := sound.1
      exact ⟨by omega, fun current => by omega⟩
    | guarded | leased | requested =>
      have bound : seen ≤ state.latest := sound
      exact (by omega : seen ≤ next.latest)
  | responding => trivial
  | waiting => exact sound
  | asking => exact absurd sound.1 unlocked

private theorem stable_of_quiet {own : Option Nat} (quiet : state.Quiet next) (locked : next.locked = state.locked) :
    Calls.Stable CallSound state next own :=
  fun _ _ _ sound => sound.of_quiet quiet fun held => locked.trans held

/-- Releasing the database concerns only the call that held it. -/
private theorem stable_release (state : Consultations) (id : Nat) :
    Calls.Stable CallSound state (state.release id) (some id) := by
  intro other call different sound
  refine sound.of_quiet (.release state id) fun held => ?_
  have others : state.locked ≠ some id := fun own => different (held.symm.trans own)
  rw [release, if_neg others]
  exact held

/-- The guard of each call establishes what is said of it. -/
private theorem enterConsultation_sound {request : ConsultRequest} (sound : state.Sound)
    (entered : enterConsultation state id request = some (next, call)) :
    next.Sound ∧ CallSound next id call ∧ Calls.Stable CallSound state next (some id) := by
  cases request with
  | consult question =>
    simp only [enterConsultation, Option.ite_none_right_eq_some] at entered
    obtain ⟨_, same⟩ := entered
    cases same
    exact ⟨sound, le_refl _, .refl _ _ _⟩
  | respond response | respondNative response =>
    simp only [enterConsultation, Option.ite_none_right_eq_some] at entered
    obtain ⟨_, same⟩ := entered
    cases same
    exact ⟨sound, trivial, .refl _ _ _⟩
  | waitForConsult =>
    simp only [enterConsultation, Option.ite_none_right_eq_some] at entered
    obtain ⟨paused, same⟩ := entered
    cases same
    exact ⟨sound, ⟨sound.numbered (isOpen_of_consultation paused), trivial⟩, .refl _ _ _⟩
  | askNative question =>
    simp only [enterConsultation, Option.ite_none_right_eq_some] at entered
    obtain ⟨⟨unlocked, working, _⟩, same⟩ := entered
    cases same
    refine ⟨⟨sound.numbered, fun _ => .inl rfl, sound.delivered⟩, ?_, ?_⟩
    · exact ⟨rfl, closed_of_working working, rfl⟩
    · intro other entry _ held
      refine held.of_quiet ⟨rfl, fun closed => closed, fun _ _ => rfl⟩ fun own => ?_
      rw [unlocked] at own
      cases own

/-- One action of a call that is in time. -/
private theorem actConsultation_sound {action : ConsultAction} {left : Option ConsultCall} (sound : state.Sound)
    (callSound : CallSound state id call) (inTime : InTime state call action)
    (moved : actConsultation state id call action = some (next, left)) :
    next.Sound ∧ (∀ call ∈ left, CallSound next id call) ∧ Calls.Stable CallSound state next (some id) := by
  unfold actConsultation at moved
  split at moved
  · -- the lease of a question
    cases moved
    refine ⟨sound, ?_, .refl _ _ _⟩
    split
    · rintro _ ⟨⟩
      exact callSound
    · rintro _ ⟨⟩
  · split at moved
    · cases moved
      refine ⟨{ sound with }, ?_, stable_of_quiet (.of_same rfl rfl rfl) rfl⟩
      rintro _ ⟨⟩
      exact callSound
    · cases moved
      exact ⟨sound, by rintro _ ⟨⟩, .refl _ _ _⟩
  · -- the question clears the response before it is recorded
    cases moved
    have quiet := Consultations.Quiet.clearResponse state
    refine ⟨sound.of_quiet quiet (.inr rfl) sound.delivered, ?_, stable_of_quiet quiet rfl⟩
    rintro _ ⟨⟩
    exact ⟨callSound, fun _ => ⟨(inTime _ rfl).2 _ rfl, rfl⟩⟩
  · split at moved
    · next unlocked =>
      cases moved
      refine ⟨sound.pause (callSound.2 (inTime _ rfl).1).2 _, by rintro _ ⟨⟩, ?_⟩
      intro other entry _ held
      exact held.pause (unlocked ▸ (Option.some_ne_none other).symm) rfl
    · cases moved
  · -- a native responder looks at the file
    cases moved
    refine ⟨sound, ?_, .refl _ _ _⟩
    split
    · rintro _ ⟨⟩
      trivial
    · rintro _ ⟨⟩
  · cases moved
    obtain ⟨rfl, mustBe⟩ := inTime _ rfl
    have isOpen := mustBe _ rfl
    exact ⟨sound.publish _ isOpen, by rintro _ ⟨⟩, stable_of_quiet (.of_open rfl isOpen) rfl⟩
  · -- the lease of a waiting executor
    cases moved
    refine ⟨sound, ?_, .refl _ _ _⟩
    split
    · rintro _ ⟨⟩
      exact callSound
    · rintro _ ⟨⟩
  · split at moved
    · cases moved
    · next found =>
      cases moved
      refine ⟨sound, ?_, .refl _ _ _⟩
      rintro _ ⟨⟩
      obtain ⟨rfl, _⟩ := inTime _ rfl
      exact ⟨callSound.1, (sound.response callSound.1).resolve_left found⟩
  · split at moved
    · cases moved
      refine ⟨sound.of_quiet (.restore state) (.inl rfl) sound.delivered, ?_, stable_of_quiet (.restore state) rfl⟩
      rintro _ ⟨⟩
      exact callSound
    · cases moved
  · cases moved
    have quiet := Consultations.Quiet.clearResponse state
    refine ⟨sound.of_quiet quiet (.inr rfl) sound.delivered, ?_, stable_of_quiet quiet rfl⟩
    rintro _ ⟨⟩
    exact callSound
  · cases moved
    exact ⟨sound.deliver callSound.2, by rintro _ ⟨⟩, stable_of_quiet (.of_same rfl rfl rfl) rfl⟩
  · -- the commit of a native question, whose transaction has kept the task out of any consultation
    next question status =>
    cases moved
    obtain ⟨own, _, isEmpty⟩ := callSound
    have released : ({ state with request := question }.pause status).release id =
        { { state with request := question }.pause status with locked := none } := if_pos own
    rw [released]
    have paused := sound.pause isEmpty status
    refine ⟨{ paused with }, by rintro _ ⟨⟩, ?_⟩
    intro other entry different held
    exact held.pause (fun others => different (others.symm.trans own)) rfl
  · cases moved
    refine ⟨sound.of_quiet (.release state id) (.inl ?_) ?_, by rintro _ ⟨⟩, stable_release state id⟩
    · unfold release
      split <;> rfl
    · unfold release
      split <;> exact sound.delivered
  · cases moved

/-- One transaction without a call. -/
private theorem consultationStep_sound (event : ConsultStep) (sound : state.Sound) :
    (consultationStep state event).Sound ∧ Calls.Stable CallSound state (consultationStep state event) none := by
  cases event with
  | pollAnswer accepted =>
    dsimp only [consultationStep]
    split
    · next delivers =>
      obtain ⟨_, paused, found, _⟩ := delivers
      have numbered := sound.numbered (isOpen_of_consultation paused)
      have answers := (sound.response numbered).resolve_left (by simp [found])
      have restored := sound.of_quiet (.restore state) (.inl rfl) sound.delivered
      exact ⟨restored.deliver answers, stable_of_quiet (.of_open rfl (isOpen_of_consultation paused)) rfl⟩
    · exact ⟨sound, .refl _ _ _⟩
  | askHuman agent questionOrder =>
    dsimp only [consultationStep]
    split
    · next working =>
      have quiet := Consultations.Quiet.askHuman working.2 agent questionOrder
      exact ⟨sound.of_quiet quiet (.inl rfl) sound.delivered, stable_of_quiet quiet rfl⟩
    · exact ⟨sound, .refl _ _ _⟩
  | consultantAsks agent questionOrder =>
    dsimp only [consultationStep]
    split
    · next paused =>
      have isOpen := isOpen_of_consultation paused.2
      exact ⟨⟨fun _ => sound.numbered isOpen, sound.response, sound.delivered⟩,
        stable_of_quiet (.of_open rfl isOpen) rfl⟩
    · exact ⟨sound, .refl _ _ _⟩
  | answerHuman =>
    dsimp only [consultationStep]
    split
    · exact ⟨sound.of_quiet (.restoreHuman state) (.inl rfl) sound.delivered, stable_of_quiet (.restoreHuman state) rfl⟩
    · exact ⟨sound, .refl _ _ _⟩

private theorem consultations_keeps : consultations.Keeps InTime Consultations.Sound CallSound where
  enter := enterConsultation_sound
  act := actConsultation_sound
  env := consultationStep_sound

/-! ## Runs -/

/-- A task that is in no consultation, with whatever files an earlier one has left. -/
def Consultations.start (row : TaskRow) (request response : String) : Consultations :=
  ⟨row, request, ⟨response, 0, 0, false⟩, 0, none, []⟩

/-- If no call is overtaken, every response handed to a waiting executor was written while the
consultation it is handed out for was open, as an answer to this consultation. -/
theorem responses_answer_their_consultation (row : TaskRow) (request response : String)
    (closed : (Consultations.start row request response).isOpen = false)
    (events : List (CallEvent ConsultRequest ConsultAction ConsultStep))
    (inTime : EveryStep consultations.step (Calls.Permitted InTime) (Calls.idle (.start row request response)) events) :
    AnswersMatch (run consultations.step (Calls.idle (.start row request response)) events).shared := by
  have sound : (start row request response).Sound := by
    refine ⟨fun isOpen => ?_, fun numbered => absurd numbered (Nat.not_succ_le_zero 0), ?_⟩
    · rw [closed] at isOpen
      cases isOpen
    · intro delivery member
      cases member
  exact (consultations_keeps.run (.idle sound) inTime).shared.delivered

/-! ## A responder that is overtaken -/

def consultQuestion : String := "## Problem\n## What I tried\n## Options (if any)\n## Question\n"

def executingRow : TaskRow := { path := ".ferrus/tasks/t-001.md", status := .executing }

/-- The steps of a whole `consult` call. -/
def consultSteps (call : Nat) : List (CallEvent ConsultRequest ConsultAction ConsultStep) :=
  [.enter call (.consult consultQuestion), .act call (.resolveLease true), .act call .writeRequest,
    .act call .clearResponse, .act call .recordConsultation]

/-- The steps of a whole `wait_for_consult` call that finds a response. -/
def waitSteps (call : Nat) : List (CallEvent ConsultRequest ConsultAction ConsultStep) :=
  [.enter call .waitForConsult, .act call (.resolveLease true), .act call .pollResponse,
    .act call .restoreTask, .act call .clearResponse, .act call .clearRequest]

/-- Two consultations one after the other, each with its own response. -/
def promptEvents : List (CallEvent ConsultRequest ConsultAction ConsultStep) :=
  consultSteps 1 ++ [.enter 2 (.respond "first"), .act 2 .writeResponse] ++ waitSteps 3 ++
    consultSteps 4 ++ [.enter 5 (.respond "second"), .act 5 .writeResponse] ++ waitSteps 6

/-- Two supervisors answer the first consultation. One of them writes only after the second question has
cleared the file, and before it is recorded. -/
def overtakenEvents : List (CallEvent ConsultRequest ConsultAction ConsultStep) :=
  consultSteps 1 ++ [.enter 2 (.respond "late"), .enter 3 (.respond "first"), .act 3 .writeResponse] ++
    waitSteps 4 ++ (consultSteps 5).take 4 ++ [.act 2 .writeResponse] ++ (consultSteps 5).drop 4 ++
    waitSteps 6

theorem responses_answer_their_consultation_prompt : EveryStep consultations.step (Calls.Permitted InTime)
        (Calls.idle (.start executingRow "" "")) promptEvents ∧
      AnswersMatch (run consultations.step (Calls.idle (.start executingRow "" "")) promptEvents).shared := by
  refine ⟨?inTime, responses_answer_their_consultation executingRow "" "" (by decide) promptEvents ?inTime⟩
  decide +kernel

/-- The second executor is handed the late response, which was written for the first consultation and
while none was open. -/
theorem not_answersMatch_overtaken :
    ¬ AnswersMatch (run consultations.step (Calls.idle (.start executingRow "" "")) overtakenEvents).shared := by
  decide +kernel

end Ferrus.Tools

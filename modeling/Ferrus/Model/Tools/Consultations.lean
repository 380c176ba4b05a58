import Ferrus.Machine.Core.Calls
import Ferrus.Model.Runtime.Waits
import Ferrus.Model.Text
import Mathlib.Data.List.Infix

/-! # Consultations between an executor and a supervisor

The response to a consultation travels through `CONSULT_RESPONSE.md`. The tools check the task status in
one step and write, read or clear the file in another, so their steps interleave. The native tools work
inside of a transaction, which excludes other writers of the database but not writers of the files. The
response is published in one step.

A call of any agent whose runtime context is the task reads a copy of its row. Resolving the lease either
ends the call or changes only lease columns.
-/

namespace Ferrus.Tools

open Ferrus.Runtime Ferrus.Machine Ferrus.Text

def requiredSections : List String :=
  ["## Problem", "## What I tried", "## Options (if any)", "## Question"]

def validateConsultRequest (question : String) : Except String Unit :=
  if isBlank question then
    .error "Consultation request cannot be empty. Read ferrus://consult_template and follow it exactly."
  else
    match requiredSections.find? (fun required => ¬ required.toList <:+: question.toList) with
    | some required =>
        .error ("Consultation request must follow ferrus://consult_template exactly. " ++
          s!"Missing section: {required}")
    | none => .ok ()

/-- The content of `CONSULT_RESPONSE.md`. No step reads its history: the consultation whose status check
the responder passed, the latest consultation at the write, and whether it was open then. -/
structure Response where
  text : String
  (checkedIn writtenIn : Nat)
  whileOpen : Bool
deriving DecidableEq, Repr

/-- A response handed to a waiting executor, with the consultation it is handed out for. -/
structure Delivery where
  response : Response
  consultation : Nat
deriving DecidableEq, Repr

/-- The row of the task and the files of its run directory. Consultations are numbered as they are
recorded; `latest` is the number of the last one. `locked` is the call whose transaction is open. -/
structure Consultations where
  row : TaskRow
  request : String
  response : Response
  latest : Nat
  locked : Option Nat
  delivered : List Delivery
deriving DecidableEq

namespace Consultations

variable (state : Consultations)

/-- The latest consultation has not been answered; its supervisor may be asking the human. -/
def isOpen : Bool :=
  state.row.status = .consultation ||
    (state.row.status = .awaitingHuman && state.row.resumeStatus = .consultation)

def clearResponse : Consultations :=
  { state with response := { state.response with text := "" } }

/-- The write of `task_consultation_in_transaction`. -/
def pause (pausedStatus : TaskStatus) : Consultations :=
  { state with row := state.row.consultation pausedStatus, latest := state.latest + 1 }

def restore : Consultations :=
  { state with row := state.row.restoreConsultation }

def publish (text : String) (checkedIn : Nat) : Consultations :=
  { state with response := ⟨text, checkedIn, state.latest, state.isOpen⟩ }

def deliver (response : Response) (consultation : Nat) : Consultations :=
  { state with request := "", delivered := ⟨response, consultation⟩ :: state.delivered }

end Consultations

/-! ## Calls -/

inductive ConsultPhase where
  | guarded | leased | requested | cleared
deriving DecidableEq, Repr

inductive WaitPhase where
  | guarded | polling
  | answered (response : Response)
  | restored (response : Response)
  | cleared (response : Response)
deriving DecidableEq, Repr

/-- A call under way. `seen` is the latest consultation at its first read. -/
inductive ConsultCall where
  | consulting (question : String) (status : TaskStatus) (seen : Nat) (phase : ConsultPhase)
  | responding (response : String) (seen : Nat) (inspected : Bool)
  | waiting (seen : Nat) (phase : WaitPhase)
  /-- A native question, after its transaction has cleared the response. -/
  | asking (question : String) (status : TaskStatus)
deriving DecidableEq, Repr

inductive ConsultRequest where
  | consult (question : String)
  | respond (response : String)
  | respondNative (response : String)
  | waitForConsult
  | askNative (question : String)
deriving DecidableEq, Repr

inductive ConsultAction where
  | resolveLease (granted : Bool)
  | writeRequest
  | clearResponse
  | recordConsultation
  | inspectResponse
  | writeResponse
  | pollResponse
  | restoreTask
  | clearRequest
  | commit
  /-- The call fails, is cancelled, or its process dies. -/
  | abort
deriving DecidableEq, Repr

/-- The transactions that are one step. -/
inductive ConsultStep where
  /-- `poll_answer_checked`; the journal may refuse the delivery. -/
  | pollAnswer (accepted : Bool)
  | askHuman (agent : AgentId) (questionOrder : Nat)
  /-- A native consultant asks the human. -/
  | consultantAsks (agent : AgentId) (questionOrder : Nat)
  | answerHuman
deriving DecidableEq, Repr

section

variable (state : Consultations)

/-- The first read of a call and its guard. -/
def enterConsultation (id : Nat) : ConsultRequest → Option (Consultations × ConsultCall)
  | .consult question =>
      if state.row.status = .executing ∨ state.row.status = .addressing then
        some (state, .consulting question state.row.status state.latest .guarded)
      else none
  | .respond response =>
      if isBlank response = false ∧ state.row.status = .consultation then
        some (state, .responding response state.latest true)
      else none
  | .respondNative response =>
      if isBlank response = false ∧ state.row.status = .consultation then
        some (state, .responding response state.latest false)
      else none
  | .waitForConsult =>
      if state.row.status = .consultation then some (state, .waiting state.latest .guarded) else none
  | .askNative question =>
      if state.locked = none ∧ state.row.status.isExecutorWorking ∧
          (validateConsultRequest question).isOk then
        some ({ state.clearResponse with locked := some id }, .asking question state.row.status)
      else none

/-- A call that ends in its transaction releases the database. -/
def Consultations.release (id : Nat) : Consultations :=
  if state.locked = some id then { state with locked := none } else state

def actConsultation (id : Nat) (call : ConsultCall) (action : ConsultAction) :
    Option (Consultations × Option ConsultCall) :=
  match call, action with
  | .consulting question status seen .guarded, .resolveLease granted =>
      some (state, if granted then some (.consulting question status seen .leased) else none)
  | .consulting question status seen .leased, .writeRequest =>
      if (validateConsultRequest question).isOk then
        some ({ state with request := question }, some (.consulting question status seen .requested))
      else some (state, none)
  | .consulting question status seen .requested, .clearResponse =>
      some (state.clearResponse, some (.consulting question status seen .cleared))
  | .consulting _ status _ .cleared, .recordConsultation =>
      if state.locked = none then some (state.pause status, none) else none
  | .responding response seen false, .inspectResponse =>
      some (state, if isBlank state.response.text then some (.responding response seen true) else none)
  | .responding response seen true, .writeResponse => some (state.publish response seen, none)
  | .waiting seen .guarded, .resolveLease granted =>
      some (state, if granted then some (.waiting seen .polling) else none)
  | .waiting seen .polling, .pollResponse =>
      if isBlank state.response.text then none
      else some (state, some (.waiting seen (.answered state.response)))
  | .waiting seen (.answered response), .restoreTask =>
      if state.locked = none then some (state.restore, some (.waiting seen (.restored response))) else none
  | .waiting seen (.restored response), .clearResponse =>
      some (state.clearResponse, some (.waiting seen (.cleared response)))
  | .waiting seen (.cleared response), .clearRequest => some (state.deliver response seen, none)
  | .asking question status, .commit =>
      some (({ state with request := question }.pause status).release id, none)
  | _, .abort => some (state.release id, none)
  | _, _ => none

def consultationStep : ConsultStep → Consultations
  | .pollAnswer accepted =>
      if state.locked = none ∧ state.row.status = .consultation ∧ isBlank state.response.text = false ∧
          accepted then
        state.restore.deliver state.response state.latest
      else state
  | .askHuman agent questionOrder =>
      if state.locked = none ∧ state.row.status.isExecutorWorking then
        { state with
          row := state.row.humanQuestion state.row.status (some state.row.status) agent questionOrder }
      else state
  | .consultantAsks agent questionOrder =>
      if state.locked = none ∧ state.row.status = .consultation then
        { state with
          row := state.row.humanQuestion .consultation state.row.pausedStatus agent questionOrder }
      else state
  | .answerHuman =>
      if state.locked = none then { state with row := state.row.restoreHuman } else state

end

/-- The consultations of one task. -/
def consultations : CallSystem Consultations ConsultCall ConsultRequest ConsultAction ConsultStep where
  enter := enterConsultation
  act := actConsultation
  env := consultationStep

end Ferrus.Tools

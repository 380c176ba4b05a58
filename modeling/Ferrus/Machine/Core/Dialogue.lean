import Mathlib.Tactic.Common

/-! # Programs in dialogue with their environment

A program with a state asks its environment one query after the other; what it does next depends on the
answers. `Dialogue` is the tree of all its behaviours, each query shown with the state in which it is asked. A
program may end early with a reason, and a loop that runs out of fuel is stopped.

`Ensures` says that a program ends, and how, whatever answers it gets of those that are allowed. It has one
rule for each way to build a program. `result` follows one environment.
-/

namespace Ferrus.Machine

variable {κ : Type} {Answer : κ → Type} {σ ρ α β : Type}

inductive Dialogue {κ : Type} (Answer : κ → Type) (σ ρ α : Type) where
  | done (value : α) (state : σ)
  | ended (reason : ρ) (state : σ)
  | stopped
  | ask (query : κ) (state : σ) (next : Answer query → Dialogue Answer σ ρ α)

/-- A program is the dialogue that it has from each state. -/
def Program {κ : Type} (Answer : κ → Type) (σ ρ α : Type) : Type := σ → Dialogue Answer σ ρ α

def Dialogue.bind (next : α → Program Answer σ ρ β) : Dialogue Answer σ ρ α → Dialogue Answer σ ρ β
  | .done value state => next value state
  | .ended reason state => .ended reason state
  | .stopped => .stopped
  | .ask query state rest => .ask query state fun answer => (rest answer).bind next

instance : Monad (Program Answer σ ρ) where
  pure value := fun state => .done value state
  bind program next := fun state => (program state).bind next

namespace Program

def ask (query : κ) : Program Answer σ ρ (Answer query) :=
  fun state => .ask query state fun answer => .done answer state

/-- End early. -/
def fail (reason : ρ) : Program Answer σ ρ α := fun state => .ended reason state

def current : Program Answer σ ρ σ := fun state => .done state state

def update (change : σ → σ) : Program Answer σ ρ Unit := fun state => .done () (change state)

/-- End early unless the condition holds. -/
def require (condition : Prop) [Decidable condition] (reason : ρ) : Program Answer σ ρ Unit :=
  if condition then pure () else fail reason

def when (condition : Prop) [Decidable condition] (program : Program Answer σ ρ Unit) : Program Answer σ ρ Unit :=
  if condition then program else pure ()

/-- An early end of the dialogue as a value. -/
def attempted : Dialogue Answer σ ρ α → Dialogue Answer σ ρ (Except ρ α)
  | .done value state => .done (.ok value) state
  | .ended reason state => .done (.error reason) state
  | .stopped => .stopped
  | .ask query state next => .ask query state fun answer => attempted (next answer)

def attempt (program : Program Answer σ ρ α) : Program Answer σ ρ (Except ρ α) := fun state => attempted (program state)

end Program

/-! ## Every behaviour -/

/-- Whatever the answers are, among those that are allowed, the dialogue comes to an end, and ends as stated. -/
def Dialogue.Ensures (allows : (query : κ) → Answer query → Prop) (Done : α → σ → Prop) (Ended : ρ → σ → Prop) :
    Dialogue Answer σ ρ α → Prop
  | .done value state => Done value state
  | .ended reason state => Ended reason state
  | .stopped => False
  | .ask query _ next => ∀ answer, allows query answer → (next answer).Ensures allows Done Ended

variable {dialogue : Dialogue Answer σ ρ α} {next : α → Program Answer σ ρ β} {program : Program Answer σ ρ α}
  {condition : Prop} {allows : (query : κ) → Answer query → Prop} {Done Done' : α → σ → Prop}
  {Ended Ended' : ρ → σ → Prop}

theorem Dialogue.Ensures.imp (ensures : dialogue.Ensures allows Done Ended)
    (done : ∀ value state, Done value state → Done' value state)
    (ended : ∀ reason state, Ended reason state → Ended' reason state) : dialogue.Ensures allows Done' Ended' := by
  induction dialogue with
  | done value state => exact done value state ensures
  | ended reason state => exact ended reason state ensures
  | stopped => exact ensures
  | ask query state next ih => exact fun answer allowed => ih answer (ensures answer allowed)

theorem Dialogue.ensures_bind {Done : β → σ → Prop} : (dialogue.bind next).Ensures allows Done Ended ↔
      dialogue.Ensures allows (fun value state => (next value state).Ensures allows Done Ended) Ended := by
  induction dialogue with
  | done | ended | stopped => rfl
  | ask query state next ih => exact forall_congr' fun answer => imp_congr_right fun _ => ih answer

namespace Program

variable {state : σ}

@[simp] theorem ensures_pure {value : α} :
    ((pure value : Program Answer σ ρ α) state).Ensures allows Done Ended ↔ Done value state :=
  Iff.rfl

@[simp] theorem ensures_bind {Done : β → σ → Prop} : ((program >>= next) state).Ensures allows Done Ended ↔
      (program state).Ensures allows (fun value state => (next value state).Ensures allows Done Ended) Ended :=
  Dialogue.ensures_bind

@[simp] theorem ensures_ask {query : κ} {Done : Answer query → σ → Prop} :
    ((ask query : Program Answer σ ρ _) state).Ensures allows Done Ended ↔
      ∀ answer, allows query answer → Done answer state :=
  Iff.rfl

@[simp] theorem ensures_current {Done : σ → σ → Prop} :
    ((current : Program Answer σ ρ σ) state).Ensures allows Done Ended ↔ Done state state :=
  Iff.rfl

@[simp] theorem ensures_require [Decidable condition] {reason : ρ} {Done : Unit → σ → Prop} :
    ((require condition reason : Program Answer σ ρ Unit) state).Ensures allows Done Ended ↔
      (condition → Done () state) ∧ (¬ condition → Ended reason state) := by
  unfold require
  split_ifs with holds
  · exact ⟨fun done => ⟨fun _ => done, fun fails => absurd holds fails⟩, fun both => both.1 holds⟩
  · exact ⟨fun ended => ⟨fun fulfilled => absurd fulfilled holds, fun _ => ended⟩, fun both => both.2 holds⟩

@[simp] theorem ensures_when [Decidable condition] {program : Program Answer σ ρ Unit} {Done : Unit → σ → Prop} :
    (when condition program state).Ensures allows Done Ended ↔
      (condition → (program state).Ensures allows Done Ended) ∧ (¬ condition → Done () state) := by
  unfold when
  split_ifs with holds
  · exact ⟨fun ensures => ⟨fun _ => ensures, fun fails => absurd holds fails⟩, fun both => both.1 holds⟩
  · exact ⟨fun done => ⟨fun fulfilled => absurd fulfilled holds, fun _ => done⟩, fun both => both.2 holds⟩

@[simp] theorem ensures_attempt {Done : Except ρ α → σ → Prop} : (attempt program state).Ensures allows Done Ended ↔
      (program state).Ensures allows (fun value => Done (.ok value)) (fun reason => Done (.error reason)) := by
  unfold attempt
  induction program state with
  | done | ended | stopped => rfl
  | ask query state next ih => exact forall_congr' fun answer => imp_congr_right fun _ => ih answer

end Program

/-! ## One environment -/

/-- The answer to the n-th query. -/
abbrev Environment {κ : Type} (Answer : κ → Type) := Nat → (query : κ) → Answer query

inductive Outcome (σ ρ α : Type) where
  | done (value : α) (state : σ)
  | ended (reason : ρ) (state : σ)
  | stopped

/-- The program has returned, well or with a reason, in a state with the property. -/
def Outcome.EndsIn (P : σ → Prop) : Outcome σ ρ α → Prop
  | .done _ state | .ended _ state => P state
  | .stopped => False

instance Outcome.decidableEndsIn {P : σ → Prop} [DecidablePred P] :
    (outcome : Outcome σ ρ α) → Decidable (outcome.EndsIn P)
  | .done _ state | .ended _ state => inferInstanceAs (Decidable (P state))
  | .stopped => inferInstanceAs (Decidable False)

namespace Dialogue

variable (env : Environment Answer)

def result : Nat → Dialogue Answer σ ρ α → Outcome σ ρ α
  | _, .done value state => .done value state
  | _, .ended reason state => .ended reason state
  | _, .stopped => .stopped
  | count, .ask query _ next => (next (env count query)).result (count + 1)

variable {env}

/-- An environment that answers as allowed. -/
theorem Ensures.result (ensures : dialogue.Ensures allows Done Ended)
    (allowed : ∀ count query, allows query (env count query)) (count : Nat) :
    match dialogue.result env count with
    | .done value state => Done value state
    | .ended reason state => Ended reason state
    | .stopped => False := by
  induction dialogue generalizing count with
  | done | ended | stopped => exact ensures
  | ask query state next ih => exact ih _ (ensures _ (allowed count query)) (count + 1)

end Dialogue

end Ferrus.Machine

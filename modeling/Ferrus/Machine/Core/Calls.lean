import Ferrus.Machine.Core.Run
import Ferrus.ToMathlib.KeyedTable

/-! # Calls that interleave on a shared state

Any number of calls work on one shared state. A call enters with a request, takes its steps in any order
with those of the other calls, and leaves. The environment changes the shared state without a call.

An invariant says one thing of the shared state and one thing of every call under way. A step of a call
has to keep the first, to establish the second for that call, and to leave it true of the others.
-/

namespace Ferrus.Machine

variable {σ κ β α γ : Type*}

/-- The shared state and the calls under way. -/
structure Calls (σ κ : Type*) where
  shared : σ
  calls : Table ℕ κ

namespace Calls

/-- No call is under way. -/
def idle (shared : σ) : Calls σ κ := ⟨shared, .empty⟩

/-- A call that has left takes no further step. -/
def settle (shared : σ) (calls : Table ℕ κ) (id : ℕ) : Option κ → Calls σ κ
  | some call => ⟨shared, calls.put id call⟩
  | none => ⟨shared, calls.deleteWhere fun other _ => other = id⟩

end Calls

inductive CallEvent (β α γ : Type*) where
  | enter (call : ℕ) (request : β)
  | act (call : ℕ) (action : α)
  | env (event : γ)
deriving DecidableEq, Repr

/-- What a request, an action of a call, and the environment do. A request or action that is refused
changes nothing. -/
structure CallSystem (σ κ β α γ : Type*) where
  enter : σ → ℕ → β → Option (σ × κ)
  act : σ → ℕ → κ → α → Option (σ × Option κ)
  env : σ → γ → σ

namespace CallSystem

def step (system : CallSystem σ κ β α γ) (state : Calls σ κ) : CallEvent β α γ → Calls σ κ
  | .enter id request =>
      match state.calls.get? id with
      | some _ => state
      | none => (system.enter state.shared id request).elim state
          (fun entered => .settle entered.1 state.calls id (some entered.2))
  | .act id action =>
      match state.calls.get? id with
      | none => state
      | some call => (system.act state.shared id call action).elim state
          (fun moved => .settle moved.1 state.calls id moved.2)
  | .env event => { state with shared := system.env state.shared event }

end CallSystem

variable {state : Calls σ κ}

namespace Calls

/-- What holds of the shared state, and of every call under way. -/
structure Invariant (S : σ → Prop) (C : σ → ℕ → κ → Prop) (state : Calls σ κ) : Prop where
  shared : S state.shared
  calls : ∀ id call, state.calls.get? id = some call → C state.shared id call

/-- The change of the shared state leaves what is said of the calls, except the given one. -/
def Stable (C : σ → ℕ → κ → Prop) (shared next : σ) (own : Option ℕ) : Prop :=
  ∀ other call, some other ≠ own → C shared other call → C next other call

theorem Stable.refl (C : σ → ℕ → κ → Prop) (shared : σ) (own : Option ℕ) : Stable C shared shared own :=
  fun _ _ _ held => held

/-- Every action of a call is taken where `permits` allows it. -/
def Permitted (permits : σ → κ → α → Prop) (state : Calls σ κ) (event : CallEvent β α γ) (_ : Calls σ κ) : Prop :=
  match event with
  | .act id action => ∀ call, state.calls.get? id = some call → permits state.shared call action
  | _ => True

instance decidablePermitted {permits : σ → κ → α → Prop}
    [∀ shared call action, Decidable (permits shared call action)] (state : Calls σ κ)
    (event : CallEvent β α γ) (target : Calls σ κ) : Decidable (state.Permitted permits event target) :=
  match event with
  | .act id action =>
      inferInstanceAs (Decidable (∀ call ∈ state.calls.get? id, permits state.shared call action))
  | .enter _ _ | .env _ => .isTrue True.intro

variable {S : σ → Prop} {C : σ → ℕ → κ → Prop}

theorem Invariant.idle {shared : σ} (start : S shared) : Invariant S C (Calls.idle shared) where
  shared := start
  calls := by
    intro id call found
    cases found

theorem shared_settle (next : σ) (calls : Table ℕ κ) (id : ℕ) (left : Option κ) :
    (Calls.settle next calls id left).shared = next := by
  cases left <;> rfl

theorem get?_settle (next : σ) (calls : Table ℕ κ) (id other : ℕ) (left : Option κ) :
    (Calls.settle next calls id left).calls.get? other = if other = id then left else calls.get? other := by
  cases left with
  | some call => exact Table.get?_put ..
  | none => simp [Calls.settle, Table.get?_deleteWhere_key]

theorem Invariant.settle (inv : state.Invariant S C) {next : σ} {id : ℕ} {left : Option κ} (kept : S next)
    (own : ∀ call ∈ left, C next id call) (stable : Stable C state.shared next (some id)) :
    (Calls.settle next state.calls id left).Invariant S C := by
  refine ⟨by rwa [shared_settle], fun other call stored => ?_⟩
  rw [shared_settle]
  rw [get?_settle] at stored
  split_ifs at stored with same
  · exact same ▸ own call stored
  · exact stable other call (fun own => same (Option.some.inj own)) (inv.calls other call stored)

end Calls

namespace CallSystem

variable (system : CallSystem σ κ β α γ)

/-- The rules that make an invariant of a system, where actions are taken as `permits` allows. -/
structure Keeps (permits : σ → κ → α → Prop) (S : σ → Prop) (C : σ → ℕ → κ → Prop) : Prop where
  enter : ∀ {shared id request next call}, S shared →
    system.enter shared id request = some (next, call) →
      S next ∧ C next id call ∧ Calls.Stable C shared next (some id)
  act : ∀ {shared id call action next left}, S shared → C shared id call → permits shared call action →
    system.act shared id call action = some (next, left) →
      S next ∧ (∀ call ∈ left, C next id call) ∧ Calls.Stable C shared next (some id)
  env : ∀ {shared} event, S shared →
    S (system.env shared event) ∧ Calls.Stable C shared (system.env shared event) none

variable {system} {permits : σ → κ → α → Prop} {S : σ → Prop} {C : σ → ℕ → κ → Prop}

/-- What a step can do. -/
@[elab_as_elim]
theorem step_cases {P : Calls σ κ → Prop} (event : CallEvent β α γ) (same : P state)
    (entered : ∀ id request next call, event = .enter id request →
      system.enter state.shared id request = some (next, call) → P (.settle next state.calls id (some call)))
    (moved : ∀ id action call next left, event = .act id action → state.calls.get? id = some call →
      system.act state.shared id call action = some (next, left) → P (.settle next state.calls id left))
    (changed : ∀ external, event = .env external → P { state with shared := system.env state.shared external }) :
    P (system.step state event) := by
  cases event with
  | enter id request =>
    unfold CallSystem.step
    dsimp only
    split
    · exact same
    · cases enters : system.enter state.shared id request with
      | none => exact same
      | some result => exact entered id request _ _ rfl enters
  | act id action =>
    unfold CallSystem.step
    dsimp only
    split
    · exact same
    · next call found =>
      cases moves : system.act state.shared id call action with
      | none => exact same
      | some result => exact moved id action call _ _ rfl found moves
  | env external => exact changed external rfl

section

variable (keeps : system.Keeps permits S C)

include keeps

theorem Keeps.step (event : CallEvent β α γ) (inv : state.Invariant S C)
    (permitted : state.Permitted permits event (system.step state event)) :
    (system.step state event).Invariant S C := by
  refine step_cases event inv ?_ ?_ ?_
  · rintro id request next call - enters
    obtain ⟨kept, own, stable⟩ := keeps.enter inv.shared enters
    exact inv.settle kept (by rintro _ ⟨⟩; exact own) stable
  · rintro id action call next left rfl found moves
    obtain ⟨kept, own, stable⟩ := keeps.act inv.shared (inv.calls id call found) (permitted call found) moves
    exact inv.settle kept own stable
  · rintro external -
    obtain ⟨kept, stable⟩ := keeps.env external inv.shared
    exact ⟨kept, fun id call found => stable id call (Option.some_ne_none id) (inv.calls id call found)⟩

/-- The invariant holds at the end of every permitted run. -/
theorem Keeps.run {events : List (CallEvent β α γ)} (inv : state.Invariant S C)
    (permitted : EveryStep system.step (Calls.Permitted permits) state events) :
    (Machine.run system.step state events).Invariant S C :=
  permitted.run_invariant _ inv fun _ event here allowed => keeps.step event here allowed

end

/-- Without a condition on the actions, at the end of every run. -/
theorem Keeps.run_always (keeps : system.Keeps (fun _ _ _ => True) S C) (inv : state.Invariant S C)
    (events : List (CallEvent β α γ)) : (Machine.run system.step state events).Invariant S C := by
  refine Machine.run_invariant _ inv (fun state event here => keeps.step event here ?_) events
  cases event with
  | enter | env => exact True.intro
  | act id action => exact fun _ _ => True.intro

end CallSystem

end Ferrus.Machine

import Mathlib.Data.List.Basic
import Mathlib.Tactic.TypeStar

/-! # Finite runs of a total step function

A refused event leaves the state as it is, so every list of events is a run. `EveryStep` states a
property of each step of a run, with the state before it, the event and the state after it. It is
used both for the condition a run is assumed to meet and for what the run is proved to do.
-/

namespace Ferrus.Machine

variable {σ ε : Type*} (step : σ → ε → σ) {source : σ}

/-- The state a run ends in. -/
def run (source : σ) (events : List ε) : σ := events.foldl step source

@[simp] theorem run_nil (source : σ) : run step source [] = source := rfl

@[simp] theorem run_cons (source : σ) (event : ε) (rest : List ε) :
    run step source (event :: rest) = run step (step source event) rest := rfl

theorem run_append (source : σ) (first second : List ε) :
    run step source (first ++ second) = run step (run step source first) second :=
  List.foldl_append

/-- An invariant of every step holds at the end of each run. -/
theorem run_invariant {step} (Inv : σ → Prop) (start : Inv source)
    (kept : ∀ source event, Inv source → Inv (step source event)) (events : List ε) : Inv (run step source events) := by
  induction events generalizing source with
  | nil => exact start
  | cons event rest ih => exact ih (kept _ _ start)

/-- Every step of the run from `source` meets `P`. -/
def EveryStep (P : σ → ε → σ → Prop) : σ → List ε → Prop
  | _, [] => True
  | source, event :: rest =>
      P source event (step source event) ∧ EveryStep P (step source event) rest

namespace EveryStep

variable {step} {P Q : σ → ε → σ → Prop} {events : List ε}

instance decidable [∀ source event target, Decidable (P source event target)] :
    ∀ (source : σ) (events : List ε), Decidable (EveryStep step P source events)
  | _, [] => .isTrue True.intro
  | source, event :: rest =>
      have := decidable (step source event) rest
      inferInstanceAs (Decidable (P source event (step source event) ∧ EveryStep step P (step source event) rest))

@[simp] theorem nil (source : σ) : EveryStep step P source [] := True.intro

@[simp] theorem cons_iff {event : ε} {rest : List ε} : EveryStep step P source (event :: rest) ↔
      P source event (step source event) ∧ EveryStep step P (step source event) rest :=
  Iff.rfl

theorem append_iff {first second : List ε} : EveryStep step P source (first ++ second) ↔
      EveryStep step P source first ∧ EveryStep step P (run step source first) second := by
  induction first generalizing source with
  | nil => simp
  | cons event rest ih => simp only [List.cons_append, cons_iff, ih, run_cons, and_assoc]

theorem and (first : EveryStep step P source events) (second : EveryStep step Q source events) :
    EveryStep step (fun source event target => P source event target ∧ Q source event target)
      source events := by
  induction events generalizing source with
  | nil => exact nil source
  | cons event rest ih => exact ⟨⟨first.1, second.1⟩, ih first.2 second.2⟩

/-- A property that each step meeting `Q` has. -/
theorem mono (every : EveryStep step Q source events)
    (holds : ∀ source event, Q source event (step source event) → P source event (step source event)) :
    EveryStep step P source events := by
  induction events generalizing source with
  | nil => exact nil source
  | cons event rest ih => exact ⟨holds _ _ every.1, ih every.2⟩

/-- The property holds at each cut of the run. -/
theorem at_cut {before after : List ε} {event : ε} (every : EveryStep step P source (before ++ event :: after)) :
    P (run step source before) event (step (run step source before) event) :=
  (append_iff.mp every).2.1

/-- A property of every step may use an invariant that the steps meeting `Q` preserve. -/
theorem of_invariant {Inv : σ → Prop} (every : EveryStep step Q source events) (start : Inv source)
    (kept : ∀ source event, Inv source → Q source event (step source event) → Inv (step source event))
    (holds : ∀ source event, Inv source → Q source event (step source event) → P source event (step source event)) :
    EveryStep step P source events := by
  induction events generalizing source with
  | nil => exact nil source
  | cons event rest ih =>
    obtain ⟨here, later⟩ := every
    exact ⟨holds _ _ start here, ih later (kept _ _ start here)⟩

/-- An invariant that the steps meeting `Q` preserve holds at the end of the run. -/
theorem run_invariant (Inv : σ → Prop) (every : EveryStep step Q source events) (start : Inv source)
    (kept : ∀ source event, Inv source → Q source event (step source event) → Inv (step source event)) :
    Inv (run step source events) := by
  induction events generalizing source with
  | nil => exact start
  | cons event rest ih => exact ih every.2 (kept _ _ start every.1)

/-- A property that every step has from an invariant that every step preserves. -/
theorem of_preserved {Inv : σ → Prop} (start : Inv source) (kept : ∀ source event, Inv source → Inv (step source event))
    (holds : ∀ source event, Inv source → P source event (step source event)) (events : List ε) :
    EveryStep step P source events := by
  induction events generalizing source with
  | nil => exact nil source
  | cons event rest ih => exact ⟨holds _ _ start, ih (kept _ _ start)⟩

/-- A property that a step has from every state. -/
theorem of_forall (holds : ∀ source event, P source event (step source event)) (source : σ) (events : List ε) :
    EveryStep step P source events := by
  induction events generalizing source with
  | nil => exact nil source
  | cons event rest ih => exact ⟨holds _ _, ih _⟩

/-- A property that every event of the list has from every state. -/
theorem of_mem (holds : ∀ event ∈ events, ∀ source, P source event (step source event)) (source : σ) :
    EveryStep step P source events := by
  induction events generalizing source with
  | nil => exact nil source
  | cons event rest ih =>
    obtain ⟨here, later⟩ := List.forall_mem_cons.mp holds
    exact ⟨here source, ih later _⟩

end EveryStep

end Ferrus.Machine

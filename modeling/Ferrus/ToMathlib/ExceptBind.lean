import Mathlib.Tactic.Common

/-! # Peeling a successful computation apart

A `do` block over `Except` succeeds exactly when each of its steps does. These additions belong
beside the monad lemmas of `Option`.
-/

namespace Except

open List

variable {ε α β γ : Type} {first : Except ε α} {result start : β} {failure : ε} {next : β → α → Except ε β}
  {items : List α}

theorem bind_eq_ok_iff {next : α → Except ε β} :
    first >>= next = .ok result ↔ ∃ value, first = .ok value ∧ next value = .ok result := by
  cases first with
  | error failure =>
    constructor
    · intro success
      cases success
    · rintro ⟨value, failed, _⟩
      cases failed
  | ok value =>
    constructor
    · intro success
      exact ⟨value, rfl, success⟩
    · rintro ⟨other, same, success⟩
      cases same
      exact success

theorem bind_eq_error_iff {next : α → Except ε β} :
    first >>= next = .error failure ↔ first = .error failure ∨ ∃ value, first = .ok value ∧
      next value = .error failure := by
  cases first with
  | error earlier =>
    constructor
    · intro failed
      cases failed
      exact .inl rfl
    · rintro (same | ⟨value, success, _⟩)
      · cases same
        rfl
      · cases success
  | ok value =>
    constructor
    · intro failed
      exact .inr ⟨value, rfl, failed⟩
    · rintro (same | ⟨other, same, failed⟩)
      · cases same
      · cases same
        exact failed

theorem guard_eq_ok_iff {condition : Bool} {next : Except ε α} {result : α} :
    (if !condition then .error failure else next) = .ok result ↔ condition = true ∧ next = .ok result := by
  cases condition <;> simp

theorem reject_eq_ok_iff {rejected : Prop} [Decidable rejected] {next : Except ε α} {result : α} :
    (if rejected then .error failure else next) = .ok result ↔ ¬ rejected ∧ next = .ok result := by
  split_ifs with isRejected <;> simp [isRejected]

theorem ite_ok_bind {condition : Prop} [Decidable condition] {value : α} {error : ε} {next : α → Except ε β} :
    ((if condition then .ok value else .error error) >>= next) = if condition then next value else .error error := by
  split_ifs <;> rfl

theorem map_eq_ok_iff {change : α → β} :
    first.map change = .ok result ↔ ∃ value, first = .ok value ∧ change value = result := by
  cases first with
  | error failure => simp [Except.map]
  | ok value => simp [Except.map]

theorem map_eq_error_iff {change : α → β} : first.map change = .error failure ↔ first = .error failure := by
  cases first <;> simp [Except.map]

/-- A successful fold keeps what each of its steps keeps. -/
theorem foldlM_invariant (Inv : β → Prop) (holds : Inv start)
    (kept : ∀ source item target, Inv source → next source item = .ok target → Inv target)
    (folded : items.foldlM next start = .ok result) : Inv result := by
  induction items generalizing start with
  | nil =>
    cases folded
    exact holds
  | cons item rest ih =>
    obtain ⟨middle, stepped, folded⟩ := bind_eq_ok_iff.mp folded
    exact ih (kept _ _ _ holds stepped) folded

/-- A property of the items folded so far and of the state, carried to the end of a successful fold. -/
theorem foldlM_reads (Inv : List α → β → Prop) {done : List α}
    (kept : ∀ done source item target, Inv done source → next source item = .ok target → Inv (done ++ [item]) target)
    (holds : Inv done start) (folded : items.foldlM next start = .ok result) : Inv (done ++ items) result := by
  induction items generalizing done start with
  | nil =>
    cases folded
    rw [append_nil]
    exact holds
  | cons item rest ih =>
    obtain ⟨middle, stepped, folded⟩ := bind_eq_ok_iff.mp folded
    have after := ih (kept _ _ _ _ holds stepped) folded
    rw [append_assoc] at after
    exact after

/-- A fold that is seen through `view` is the fold of the steps as they are seen. -/
theorem foldlM_simulates {step : β → α → Except ε β} {next : γ → α → Except ε γ} (view : β → γ) (Inv : β → Prop)
    (holds : Inv start)
    (kept : ∀ source, ∀ item ∈ items, ∀ target, Inv source → step source item = .ok target → Inv target)
    (same : ∀ source, ∀ item ∈ items, Inv source → (step source item).map view = next (view source) item) :
    (items.foldlM step start).map view = items.foldlM next (view start) := by
  induction items generalizing start with
  | nil => rfl
  | cons item rest ih =>
    have first := same start item mem_cons_self holds
    rw [foldlM_cons, foldlM_cons, ← first]
    cases stepped : step start item with
    | error failure => rfl
    | ok middle =>
      exact ih (kept start item mem_cons_self middle holds stepped)
        (fun source other member => kept source other (mem_cons_of_mem _ member))
        (fun source other member => same source other (mem_cons_of_mem _ member))

end Except

import Mathlib.Tactic.TypeStar

/-! # Comparisons that are no equality

A comparison is symmetric and transitive, but a value need not compare equal to itself, and two values that compare
equal need not be identical. Records with floating-point numbers are compared in this way.
-/

namespace Ferrus

class PartialEq (α : Type*) where
  eq : α → α → Bool
  symm : ∀ {first second : α}, eq first second = true → eq second first = true
  trans : ∀ {first second third : α}, eq first second = true → eq second third = true → eq first third = true

namespace PartialEq

variable {α β : Type*}

/-- Only identical values are equal. -/
@[reducible] def exact (α : Type*) [DecidableEq α] : PartialEq α where
  eq first second := first = second
  symm same := by simpa [eq_comm] using same
  trans same again := by simp_all

theorem exact_refl [DecidableEq α] (value : α) : (exact α).eq value value = true := decide_eq_true rfl

/-- The comparison of a part or a view of the values. -/
@[reducible] def comap (compare : PartialEq β) (view : α → β) : PartialEq α where
  eq first second := compare.eq (view first) (view second)
  symm := compare.symm
  trans := compare.trans

/-- Both comparisons, as for the fields of a record. -/
@[reducible] def and (left right : PartialEq α) : PartialEq α where
  eq first second := left.eq first second && right.eq first second
  symm same := by
    rw [Bool.and_eq_true] at same ⊢
    exact same.imp left.symm right.symm
  trans same again := by
    rw [Bool.and_eq_true] at same again ⊢
    exact ⟨left.trans same.1 again.1, right.trans same.2 again.2⟩

/-- Lists are compared member by member. -/
def eqList (compare : PartialEq α) : List α → List α → Bool
  | [], [] => true
  | first :: rest, second :: others => compare.eq first second && eqList compare rest others
  | _, _ => false

@[reducible] def list (compare : PartialEq α) : PartialEq (List α) where
  eq := eqList compare
  symm {first second} same := by
    induction first generalizing second with
    | nil => cases second <;> simp_all [eqList]
    | cons member rest ih =>
      cases second with
      | nil => exact same
      | cons other others =>
        rw [eqList, Bool.and_eq_true] at same ⊢
        exact same.imp compare.symm ih
  trans {first second third} same again := by
    induction first generalizing second third with
    | nil => cases second <;> simp_all [eqList]
    | cons member rest ih =>
      cases second with
      | nil => cases same
      | cons middle others =>
        cases third with
        | nil => cases again
        | cons last =>
          rw [eqList, Bool.and_eq_true] at same again ⊢
          exact ⟨compare.trans same.1 again.1, ih same.2 again.2⟩

end PartialEq

end Ferrus

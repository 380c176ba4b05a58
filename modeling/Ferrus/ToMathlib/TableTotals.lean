import Ferrus.ToMathlib.KeyedTable
import Mathlib.Algebra.GroupWithZero.Nat
import Mathlib.Algebra.Order.BigOperators.Group.List
import Mathlib.Algebra.Order.Group.Nat

/-! # Sums over a part of a table

A quota bounds a count or a sum of lengths over the rows of some keys. A new row adds its weight, a
deletion adds nothing.
-/

namespace Ferrus.Table

variable {κ ρ : Type*} [LinearOrder κ] {table : Table κ ρ}

/-- The sum of a weight over the rows of some keys. -/
def total (table : Table κ ρ) (chosen : κ → Bool) (weight : ρ → Nat) : Nat :=
  ((table.select (fun key _ => chosen key)).map (fun row => weight row.2)).sum

/-- The number of the rows is a total. -/
theorem length_select (table : Table κ ρ) (chosen : κ → Bool) :
    (table.select (fun key _ => chosen key)).length = table.total chosen (fun _ => 1) := by
  simp [total]

theorem insertRow_perm {key : κ} (row : ρ) {rows : List (κ × ρ)} (fresh : ∀ entry ∈ rows, entry.1 ≠ key) :
    (insertRow key row rows).Perm ((key, row) :: rows) := by
  induction rows with
  | nil => exact .refl _
  | cons entry rest ih =>
    obtain ⟨differs, later⟩ := List.forall_mem_cons.mp fresh
    simp only [insertRow]
    split_ifs with first same
    · exact .refl _
    · exact absurd same.symm differs
    · exact ((ih later).cons entry).trans (.swap _ _ _)

theorem total_insertNew (chosen : κ → Bool) (weight : ρ → Nat) {key : κ} (absent : table.get? key = none) (row : ρ) :
    (table.insertNew key row).total chosen weight =
      table.total chosen weight + if chosen key then weight row else 0 := by
  have fresh : ∀ entry ∈ table.rows, entry.1 ≠ key := by
    rintro ⟨taken, value⟩ member rfl
    exact Option.some_ne_none value ((table.get?_eq_some_iff.mpr member).symm.trans absent)
  have moved := (((insertRow_perm row fresh).filter (fun entry => chosen entry.1)).map
    (fun entry => weight entry.2)).sum_eq
  refine moved.trans ?_
  rw [List.filter_cons]
  split_ifs
  · rw [List.map_cons, List.sum_cons, Nat.add_comm]
    rfl
  · rfl

theorem total_deleteWhere_le (table : Table κ ρ) (selected : κ → ρ → Bool) (chosen : κ → Bool) (weight : ρ → Nat) :
    (table.deleteWhere selected).total chosen weight ≤ table.total chosen weight := by
  refine List.Sublist.sum_le_sum (List.Sublist.map _ ?_) fun _ _ => Nat.zero_le _
  exact List.filter_sublist.filter _

end Ferrus.Table

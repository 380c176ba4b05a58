import Mathlib.Data.List.Basic
import Mathlib.Data.List.Infix
import Mathlib.Tactic.TypeStar

/-! # A stream that several writers share

Each writer has a list of its own and puts the items in order. A slot that is filled is compared, the next
free slot takes the item. So what a writer has put is always a prefix of the stream, and the stream is a
prefix of some writer's list. When the last item of each list, and no other, is marked, a writer that has put
its whole list finds the stream equal to it.
-/

namespace Ferrus.Machine.SharedStream

open List

variable {α : Type*}

/-- An item is accepted: its slot holds the same item, or it is the next free one. -/
inductive Puts (stored : List α) (index : ℕ) (item : α) : List α → Prop
  | same (found : stored[index]? = some item) : Puts stored index item stored
  | next (free : stored.length ≤ index) : Puts stored index item (stored ++ [item])

section Writer

variable {stored after mine : List α} {index : ℕ} {item : α} (puts : Puts stored index item after)

include puts

theorem Puts.grows : stored <+: after := by
  cases puts with
  | same => exact prefix_rfl
  | next => exact prefix_append _ _

theorem Puts.mem {other : α} (member : other ∈ after) : other ∈ stored ∨ other = item := by
  cases puts with
  | same => exact .inl member
  | next => exact (mem_append.mp member).imp_right mem_singleton.mp

/-- The writer has put one item more. -/
theorem Puts.covers (own : mine[index]? = some item) (before : mine.take index <+: stored) :
    mine.take (index + 1) <+: after := by
  rw [take_add_one, own, Option.toList_some]
  cases puts with
  | same found =>
    have count : (mine.take index).length = index :=
      List.length_take_of_le (List.getElem?_eq_some_iff.mp own).choose.le
    obtain ⟨rest, rfl⟩ := before
    rw [getElem?_append_right count.le, count, Nat.sub_self] at found
    obtain ⟨others, rfl⟩ := head?_eq_some_iff.mp (head?_eq_getElem? (l := rest) ▸ found)
    exact ⟨others, by simp⟩
  | next free =>
    have count : (mine.take index).length = index :=
      List.length_take_of_le (List.getElem?_eq_some_iff.mp own).choose.le
    have full : mine.take index = stored := before.eq_of_length_le (free.trans count.ge)
    rw [full]

/-- The stream is unchanged, or is a prefix of the writer's list. -/
theorem Puts.source (own : mine[index]? = some item) (before : mine.take index <+: stored) :
    after = stored ∨ after <+: mine := by
  have covers := puts.covers own before
  cases puts with
  | same => exact .inl rfl
  | next free =>
    refine .inr ?_
    have count : (mine.take (index + 1)).length = index + 1 :=
      List.length_take_of_le (List.getElem?_eq_some_iff.mp own).choose
    have full : mine.take (index + 1) = stored ++ [item] := by
      refine covers.eq_of_length_le ?_
      rw [length_append, length_singleton, count]
      omega
    rw [← full]
    exact take_prefix _ _

end Writer

theorem getElem?_of_isPrefix {first second : List α} (before : first <+: second) {index : ℕ} {item : α}
    (found : first[index]? = some item) : second[index]? = some item := by
  obtain ⟨inside, rfl⟩ := List.getElem?_eq_some_iff.mp found
  exact prefix_iff_getElem?.mp before index inside

/-- The last item, and no other, is marked. -/
def Marked (isLast : α → Bool) (items : List α) : Prop :=
  ∀ index item, items[index]? = some item → isLast item = (index + 1 == items.length)

theorem Marked.eq_of_isPrefix {isLast : α → Bool} {first second : List α} (markedFirst : Marked isLast first)
    (markedSecond : Marked isLast second) (before : first <+: second) (nonempty : first ≠ []) : first = second := by
  have positive : 0 < first.length := length_pos_iff.mpr nonempty
  have found : first[first.length - 1]? = some first[first.length - 1] := getElem?_eq_getElem (by omega)
  have ends : (first.length - 1 + 1 == first.length) = (first.length - 1 + 1 == second.length) :=
    (markedFirst _ _ found).symm.trans (markedSecond _ _ (getElem?_of_isPrefix before found))
  refine before.eq_of_length_le ?_
  rw [Nat.sub_add_cancel positive, beq_self_eq_true, eq_comm, beq_iff_eq] at ends
  exact ends.ge

end Ferrus.Machine.SharedStream

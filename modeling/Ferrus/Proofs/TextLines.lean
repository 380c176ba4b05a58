import Ferrus.Model.ProjectMemory.Documents

/-! # Texts as lines

A text is cut after each of its newlines. What follows a newline is cut by itself.
-/

namespace Ferrus.ProjectMemory

open List

/-- Nothing follows the last newline. -/
def endsLine (text : List Char) : Bool := text.getLast?.all (· = '\n')

variable {first second text : List Char}

theorem splitInclusive_line (oneLine : '\n' ∉ text) (current rest : List Char) :
    splitInclusive current (text ++ '\n' :: rest) =
      (current.reverse ++ (text ++ ['\n'])) :: splitInclusive [] rest := by
  induction text generalizing current with
  | nil => simp [splitInclusive]
  | cons char text ih =>
    rw [mem_cons, not_or] at oneLine
    rw [cons_append, splitInclusive.eq_3 _ _ _ (fun same => oneLine.1 same.symm), ih oneLine.2]
    simp

theorem flatten_splitInclusive (current content : List Char) :
    (splitInclusive current content).flatten = current.reverse ++ content := by
  fun_induction splitInclusive current content with
  | case1 => simp_all
  | case2 => simp_all
  | case3 current rest ih => simp [ih]
  | case4 current char rest differs ih => simp [ih]

theorem endsLine_right (closed : endsLine (first ++ second) = true) : endsLine second = true := by
  unfold endsLine at closed ⊢
  rw [getLast?_append] at closed
  cases last : second.getLast? with
  | none => rfl
  | some char =>
    rw [last] at closed
    exact closed

theorem endsLine_append (firstClosed : endsLine first = true) (secondClosed : endsLine second = true) :
    endsLine (first ++ second) = true := by
  unfold endsLine at firstClosed secondClosed ⊢
  rw [getLast?_append]
  cases last : second.getLast? with
  | none => exact firstClosed
  | some char =>
    rw [last] at secondClosed
    exact secondClosed

private theorem newline_mem (closed : endsLine text = true) (nonempty : text ≠ []) : '\n' ∈ text := by
  have last := getLast?_eq_some_getLast nonempty
  rw [endsLine, last, Option.all_some, decide_eq_true_eq] at closed
  exact closed ▸ getLast_mem nonempty

/-- A text whose last line is ended has a first line, and what follows it is such a text. -/
@[elab_as_elim]
private theorem endsLine_induction {P : List Char → Prop} (nil : P [])
    (line : ∀ head rest, '\n' ∉ head → P rest → P (head ++ '\n' :: rest)) (closed : endsLine text = true) : P text := by
  induction size : text.length using Nat.strong_induction_on generalizing text with
  | _ length ih =>
    by_cases isNil : text = []
    · exact isNil ▸ nil
    · obtain ⟨head, rest, rfl, fresh⟩ := eq_append_cons_of_mem (newline_mem closed isNil)
      have shorter : rest.length < length := by
        rw [← size, length_append, length_cons]
        omega
      rw [append_cons] at closed
      exact line head rest fresh (ih _ shorter (endsLine_right closed) rfl)

theorem splitInclusive_append (closed : endsLine first = true) (second : List Char) :
    splitInclusive [] (first ++ second) = splitInclusive [] first ++ splitInclusive [] second := by
  refine endsLine_induction ?_ ?_ closed
  · rfl
  · intro head rest fresh ih
    rw [append_assoc, cons_append, splitInclusive_line fresh, splitInclusive_line fresh, ih]
    rfl

theorem splitInclusive_ne_nil (nonempty : text ≠ []) : splitInclusive [] text ≠ [] := by
  intro isNil
  have same := flatten_splitInclusive [] text
  rw [isNil] at same
  exact nonempty same.symm

theorem ne_nil_of_mem_splitInclusive {current line : List Char} (member : line ∈ splitInclusive current text) :
    line ≠ [] := by
  fun_induction splitInclusive current text with
  | case1 => cases member
  | case2 current nonempty => simp_all
  | case3 current rest ih =>
    obtain rfl | later := mem_cons.mp member
    · simp
    · exact ih later
  | case4 current char rest differs ih => exact ih member

/-- A line that another one follows has its newline. -/
theorem splitInclusive_pairwise (current text : List Char) :
    (splitInclusive current text).Pairwise fun line _ => endsLine line = true := by
  fun_induction splitInclusive current text with
  | case1 => exact .nil
  | case2 => exact pairwise_singleton _ _
  | case3 current rest ih => exact .cons (fun _ _ => by simp [endsLine]) ih
  | case4 current char rest differs ih => exact ih

theorem endsLine_flatten {lines : List (List Char)} (closed : ∀ line ∈ lines, endsLine line = true) :
    endsLine lines.flatten = true := by
  induction lines with
  | nil => rfl
  | cons line lines ih =>
    rw [forall_mem_cons] at closed
    exact endsLine_append closed.1 (ih closed.2)

theorem length_splitInclusive (closed : endsLine text = true) : (splitInclusive [] text).length = text.count '\n' := by
  refine endsLine_induction ?_ ?_ closed
  · rfl
  · intro head rest fresh ih
    rw [splitInclusive_line fresh, length_cons, ih, count_append, count_cons_self, count_eq_zero.mpr fresh]
    omega

end Ferrus.ProjectMemory

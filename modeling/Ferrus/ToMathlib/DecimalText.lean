import Mathlib.Data.String.Basic
import Mathlib.Tactic.Linarith

/-! # Decimal texts

Texts of digits of one width stand in the order of their numbers. Texts of different widths do not.
-/

namespace Ferrus

variable {first second : List Char} {char : Char}

private theorem toNat_of_isDigit (digit : char.isDigit = true) : '0'.toNat ≤ char.toNat ∧ char.toNat ≤ '9'.toNat := by
  simp only [Char.isDigit, Bool.and_eq_true, decide_eq_true_eq] at digit
  exact digit

theorem ofDigitChars_lt_pow (digits : ∀ char ∈ first, char.isDigit = true) :
    Nat.ofDigitChars 10 first 0 < 10 ^ first.length := by
  induction first with
  | nil => decide
  | cons char rest ih =>
    have small : char.toNat - '0'.toNat ≤ 9 := Nat.sub_le_of_le_add (toNat_of_isDigit (digits char (by simp))).2
    have bounded := ih fun other member => digits other (by simp [member])
    rw [Nat.ofDigitChars_cons, Nat.ofDigitChars_eq_ofDigitChars_zero, List.length_cons, Nat.pow_succ]
    nlinarith

theorem lt_of_ofDigitChars_lt (sameWidth : first.length = second.length)
    (firstDigits : ∀ char ∈ first, char.isDigit = true) (secondDigits : ∀ char ∈ second, char.isDigit = true)
    (less : Nat.ofDigitChars 10 first 0 < Nat.ofDigitChars 10 second 0) : first < second := by
  induction first generalizing second with
  | nil =>
    rw [List.length_eq_zero_iff.mp sameWidth.symm] at less
    exact absurd less (lt_irrefl _)
  | cons left firstRest ih =>
    obtain ⟨right, secondRest, rfl⟩ := List.exists_cons_of_length_eq_add_one sameWidth.symm
    have restWidth : firstRest.length = secondRest.length := Nat.succ.inj sameWidth
    rw [Nat.ofDigitChars_cons, Nat.ofDigitChars_cons, Nat.ofDigitChars_eq_ofDigitChars_zero (l := firstRest),
      Nat.ofDigitChars_eq_ofDigitChars_zero (l := secondRest), restWidth] at less
    rw [List.cons_lt_cons_iff]
    rcases lt_trichotomy left right with below | rfl | above
    · exact .inl below
    · refine .inr ⟨rfl, ih restWidth (fun other member => firstDigits other (by simp [member]))
        (fun other member => secondDigits other (by simp [member])) ?_⟩
      omega
    · -- the larger leading digit outweighs whatever follows the smaller one
      have lower := (toNat_of_isDigit (secondDigits right (by simp))).1
      have bounded := ofDigitChars_lt_pow fun other member => secondDigits other (List.mem_cons_of_mem _ member)
      have larger : right.toNat < left.toNat := above
      obtain ⟨gap, leading⟩ := Nat.exists_eq_add_of_le (show right.toNat - '0'.toNat + 1 ≤
        left.toNat - '0'.toNat by omega)
      rw [leading] at less
      nlinarith

end Ferrus

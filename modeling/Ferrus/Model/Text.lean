import Mathlib.Data.List.DropRight

/-! # Text as the code reads it

The standard library's notion of white space is that of Unicode. Texts are read as lists of characters.
-/

namespace Ferrus.Text

/-- `char::is_whitespace`. -/
def isWhitespace (char : Char) : Bool :=
  (9 ≤ char.toNat && char.toNat ≤ 13) || (0x2000 ≤ char.toNat && char.toNat ≤ 0x200a) ||
    char.toNat ∈ [0x20, 0x85, 0xa0, 0x1680, 0x2028, 0x2029, 0x202f, 0x205f, 0x3000]

variable (text : List Char)

def trimStart : List Char := text.dropWhile isWhitespace

def trim : List Char := (trimStart (trimStart text).reverse).reverse

theorem trim_trim : trim (trim text) = trim text := by
  have stays : trimStart (trim text) = trim text := by
    obtain ⟨rest, joined⟩ : trim text <+: trimStart text := List.rdropWhile_prefix isWhitespace _
    have first := List.head?_dropWhile_not isWhitespace text
    rw [← trimStart, ← joined] at first
    cases kept : trim text with
    | nil => rfl
    | cons char chars =>
      rw [kept] at first
      exact List.dropWhile_cons_of_neg (Bool.not_eq_true _ ▸ first)
  rw [trim, stays]
  exact List.rdropWhile_idempotent isWhitespace (trimStart text)

/-- `text.trim().is_empty()`. -/
def isBlank (text : String) : Bool := text.toList.all isWhitespace

/-- The text after the head, if it starts with it. -/
def dropHead? (head text : List Char) : Option (List Char) :=
  if head.isPrefixOf text then some (text.drop head.length) else none

end Ferrus.Text

import Ferrus.Model.ProjectMemory.Documents

/-! # Patches of workspace files

An update of a file replaces ranges of its lines. It has been read when its hunks are applied. Offsets count the
characters of a text where the source counts its bytes; the limits are about bytes.
-/

namespace Ferrus.Nano

open Ferrus.ProjectMemory (byteLen)

structure Hunk where
  startLine : Nat
  (oldText newText : List Char)
deriving DecidableEq, Repr

inductive Code where
  | invalidPatch | fileTooLarge | binary
deriving DecidableEq, Repr

structure Failure where
  code : Code
  path : String
deriving DecidableEq, Repr

/-- The places after the newlines of a text that starts at `index`. -/
def newlineOffsets (index : Nat) : List Char → List Nat
  | [] => []
  | char :: rest =>
      if char = '\n' then (index + 1) :: newlineOffsets (index + 1) rest else newlineOffsets (index + 1) rest

/-- The places where lines start. -/
def offsets (before : List Char) : List Nat := 0 :: newlineOffsets 0 before

/-- The variables of the loop over the hunks. -/
structure HunkState where
  output : List Char
  consumed : Nat
  previousStart : Option Nat
deriving DecidableEq, Repr

section Hunks

variable (path : String) (before : List Char) (limit : Nat)

def applyHunk (state : HunkState) (hunk : Hunk) : Except Failure HunkState :=
  match if hunk.startLine = 0 then none else (offsets before)[hunk.startLine - 1]? with
  | none => .error ⟨.invalidPatch, path⟩
  | some start =>
      let stop := start + hunk.oldText.length
      if before.length < stop then .error ⟨.invalidPatch, path⟩
      else if start < state.consumed || state.previousStart.any (start ≤ ·) ||
          !hunk.oldText.isPrefixOf (before.drop start) ||
          (stop < before.length && !hunk.oldText.isEmpty && hunk.oldText.getLast? ≠ some '\n') ||
          (stop < before.length && !hunk.newText.isEmpty && hunk.newText.getLast? ≠ some '\n') then
        .error ⟨.invalidPatch, path⟩
      else
        let kept := (before.take start).drop state.consumed
        if limit < byteLen state.output + byteLen kept + byteLen hunk.newText then .error ⟨.fileTooLarge, path⟩
        else .ok ⟨state.output ++ kept ++ hunk.newText, stop, some start⟩

def applyHunks (hunks : List Hunk) : Except Failure (List Char) := do
  if hunks.isEmpty || 128 < hunks.length then .error ⟨.invalidPatch, path⟩
  else
    let state ← hunks.foldlM (applyHunk path before limit) ⟨[], 0, none⟩
    if limit < byteLen state.output + byteLen (before.drop state.consumed) then .error ⟨.fileTooLarge, path⟩
    else .ok (state.output ++ before.drop state.consumed)

def checkText (text : List Char) : Except Failure Unit :=
  if limit < byteLen text then .error ⟨.fileTooLarge, path⟩
  else if '\x00' ∈ text then .error ⟨.binary, path⟩
  else .ok ()

/-- The update of `prepare`, for a file with the text `before`. -/
def prepareUpdate (hunks : List Hunk) : Except Failure (List Char) := do
  let after ← applyHunks path before limit hunks
  checkText path limit after
  return after

end Hunks

end Ferrus.Nano

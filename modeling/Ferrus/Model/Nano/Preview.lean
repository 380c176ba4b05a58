import Ferrus.Model.ProjectMemory.Documents

/-! # The streamed preview of a model turn

`Preview::update` adds the text deltas of a turn up to a number of bytes and then puts a notice at the end. Times
are in milliseconds; only the frames that it publishes depend on them.
-/

namespace Ferrus.Nano

open Ferrus.ProjectMemory (byteLen)

/-- The text up to the last character boundary that is not after a byte offset. -/
def floorChars : Nat → List Char → List Char
  | _, [] => []
  | bytes, char :: rest =>
      if char.utf8Size ≤ bytes then char :: floorChars (bytes - char.utf8Size) rest else []

structure Preview where
  turn : Nat := 0
  text : List Char := []
  published : Option Nat := none
deriving DecidableEq, Repr

namespace Preview

def previewBytes : Nat := 256 * 1024

def notice : List Char := "\n[Streaming display limit reached; full response appears when complete]".toList

/-- What the text becomes with a delta. -/
def append (shown delta : List Char) : List Char :=
  let added := floorChars (min (byteLen delta) (previewBytes - byteLen shown)) delta
  if byteLen added < byteLen delta then
    floorChars (previewBytes - byteLen notice) (shown ++ added) ++ notice
  else shown ++ added

/-- The preview after a delta, and the turn and text of the frame if one is published. -/
def update (preview : Preview) (turn : Nat) (delta : List Char) (now : Nat) : Preview × Option (Nat × List Char) :=
  let current := if preview.turn = turn then preview else ⟨turn, [], none⟩
  let text := append current.text delta
  if current.published.any (now - · < 100) then (⟨turn, text, current.published⟩, none)
  else (⟨turn, text, some now⟩, some (turn, text))

end Preview

end Ferrus.Nano

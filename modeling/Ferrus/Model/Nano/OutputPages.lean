import Ferrus.Model.Nano.Commands

/-! # Pages of output

`read_output` shows a range of the bytes of an output as text. The range is decoded by itself, and what is no character
is shown as replacement characters, one for each start of a character that does not go on.
-/

namespace Ferrus.Nano.Commands

/-! ## Lossy decoding -/

def replacement : Char := Char.ofNat 0xFFFD

/-- A character that has begun: its bits so far, the range of its next byte and the number of bytes after that one. -/
structure Begun where
  (bits low high more : Nat)
deriving DecidableEq, Repr

/-- The character of several bytes that begins with the byte. -/
def begun? (byte : Nat) : Option Begun :=
  if 0xC2 ≤ byte ∧ byte ≤ 0xDF then some ⟨byte - 0xC0, 0x80, 0xBF, 0⟩
  else if byte = 0xE0 then some ⟨0, 0xA0, 0xBF, 1⟩
  else if byte = 0xED then some ⟨0xD, 0x80, 0x9F, 1⟩
  else if 0xE1 ≤ byte ∧ byte ≤ 0xEF then some ⟨byte - 0xE0, 0x80, 0xBF, 1⟩
  else if byte = 0xF0 then some ⟨0, 0x90, 0xBF, 2⟩
  else if 0xF1 ≤ byte ∧ byte ≤ 0xF3 then some ⟨byte - 0xF0, 0x80, 0xBF, 2⟩
  else if byte = 0xF4 then some ⟨4, 0x80, 0x8F, 2⟩
  else none

def Begun.goesOn (begun : Begun) (byte : Nat) : Bool := begun.low ≤ byte && byte ≤ begun.high

def decodeFirst (byte : Nat) : List Char × Option Begun :=
  if byte < 0x80 then ([Char.ofNat byte], none)
  else
    match begun? byte with
    | some begun => ([], some begun)
    | none => ([replacement], none)

/-- What one more byte shows, and the character it leaves begun. -/
def decodeByte (begun : Option Begun) (byte : Nat) : List Char × Option Begun :=
  match begun with
  | none => decodeFirst byte
  | some begun =>
      let bits := begun.bits * 64 + byte % 64
      if !begun.goesOn byte then (replacement :: (decodeFirst byte).1, (decodeFirst byte).2)
      else if begun.more = 0 then ([Char.ofNat bits], none)
      else ([], some ⟨bits, 0x80, 0xBF, begun.more - 1⟩)

def decodeFrom (begun : Option Begun) : List UInt8 → List Char
  | [] => if begun.isSome then [replacement] else []
  | byte :: rest => (decodeByte begun byte.toNat).1 ++ decodeFrom (decodeByte begun byte.toNat).2 rest

/-- `String::from_utf8_lossy`. -/
def fromUtf8Lossy (bytes : List UInt8) : List Char := decodeFrom none bytes

/-! ## Pages -/

def maxPage : Nat := 2048

structure OutputPage where
  handle : String
  (offset nextOffset availableBytes : Nat)
  text : List Char
  (complete truncated : Bool)
deriving DecidableEq, Repr

def page (file : List UInt8) (handle : String) (offset maxBytes available : Nat) (state : Snapshot) :
    Except ToolError OutputPage :=
  if available < offset then .error .invalidArguments
  else
    let count := min (available - offset) maxBytes
    let bytes := (file.drop offset).take count
    let next := offset + count
    -- `read_exact` wants all of them
    if bytes.length < count then .error .failed
    else .ok ⟨handle, offset, next, available, fromUtf8Lossy bytes, state.outputComplete && next = available,
      next < available || !state.outputComplete⟩

namespace Session

variable (session : Session) (handle : String)

/-- The output with the handle: its file, the number of its bytes and the state of its process. -/
def output? : Option (List UInt8 × Nat × Snapshot) :=
  session.processes.findSome? fun process =>
    let state := process.status
    if state.outputs.stdout.handle = handle then some (process.spools.stdout, state.outputs.stdout.bytes, state)
    else if state.outputs.stderr.handle = handle then some (process.spools.stderr, state.outputs.stderr.bytes, state)
    else none

def readOutput (offset maxBytes : Nat) : Except ToolError OutputPage :=
  if maxBytes = 0 then .error .invalidArguments
  else
    match session.output? handle with
    | some (file, available, state) => page file handle offset (min maxBytes maxPage) available state
    | none => .error .invalidArguments

/-- Read pages of the given sizes, each from where the one before it ends, up to the end of the output. -/
def readPages (offset : Nat) : List Nat → Except ToolError (List OutputPage)
  | [] => .ok []
  | maxBytes :: sizes => do
      let page ← session.readOutput handle offset maxBytes
      if page.nextOffset = page.availableBytes then return [page]
      else return page :: (← readPages page.nextOffset sizes)

end Session

end Ferrus.Nano.Commands

import Mathlib.Algebra.GroupWithZero.Nat
import Mathlib.Data.List.Sort

/-! # The stamp of a workspace without Git

A submission without Git is fenced by a digest over the files of its workspace. The walk keeps a stack of paths, opens
each from the root and hashes every file with its permissions, its path and its content.
-/

namespace Ferrus.Nano.SourceStamp

/-- A name in a directory, as its UTF-8 bytes. -/
abbrev Name := { bytes : List UInt8 // bytes ≠ [] ∧ 0x2F ∉ bytes }

abbrev Path := List Name

/-- The path as it is hashed. -/
def Path.bytes (path : Path) : List UInt8 := [0x2F].intercalate (path.map Subtype.val)

/-- A file has the bits of its mode and its content. `other` is what `open` or `regular` refuses: a link, a file with
several names or a special file. -/
inductive Node where
  | file (mode : UInt32) (bytes : List UInt8)
  | directory (unsupportedName : Bool) (entries : List (Name × Node))
  | other

/-- `Root::open`. -/
def Node.open? : Node → Path → Option Node
  | node, [] => some node
  | .directory _ entries, name :: rest => (entries.find? (·.1 = name)).bind (·.2.open? rest)
  | .file .., _ :: _ | .other, _ :: _ => none

structure Workspace where
  entries : List (Name × Node)
  unsupportedName : Bool
  /-- The length of a path is a `u64`. -/
  short : ∀ path node, (Node.directory unsupportedName entries).open? path = some node → path.bytes.length < 2 ^ 64

def Workspace.root (workspace : Workspace) : Node := .directory workspace.unsupportedName workspace.entries

/-- The little-endian bytes of a number. -/
def leBytes : Nat → Nat → List UInt8
  | 0, _ => []
  | width + 1, number => .ofNat number :: leBytes width (number / 256)

/-- What is hashed of a file. -/
@[ext]
structure FileRecord where
  mode : UInt32
  (path bytes : List UInt8)
deriving DecidableEq, Repr

def FileRecord.encode (record : FileRecord) : List UInt8 :=
  [if record.mode &&& 0o222 = 0 then 1 else 0] ++ leBytes 4 record.mode.toNat ++ leBytes 8 record.path.length ++
    record.path ++ leBytes 8 record.bytes.length ++ record.bytes

inductive StampError where
  | entryLimit | filenames | byteLimit | unsafeFile
deriving DecidableEq, Repr

def maxEntries : Nat := 10000

def maxBytes : Nat := 64 * 1024 * 1024

/-- `.git` and `.ferrus` in the root are left out. -/
def hidden : List (List UInt8) := [".git", ".ferrus"].map fun name => name.toList.map fun char => .ofNat char.toNat

/-- The paths of a directory's entries, in the order of their names. -/
def childPaths (path : Path) (entries : List (Name × Node)) : List Path :=
  ((entries.map Prod.fst).insertionSort (·.val ≤ ·.val)).filterMap fun name =>
    if path = [] ∧ name.val ∈ hidden then none else some (path ++ [name])

/-- The loop, with the number of entries and of bytes that are left. -/
def scan (root : Node) : Nat → Nat → List Path → Except StampError (List FileRecord)
  | _, _, [] => .ok []
  | 0, _, _ :: _ => .error .entryLimit
  | left + 1, remaining, path :: paths =>
      match root.open? path with
      | some (.directory unsupportedName entries) =>
          if unsupportedName ∨ maxEntries < entries.length then .error .filenames
          else scan root left remaining (childPaths path entries ++ paths)
      | some (.file mode bytes) =>
          if remaining < bytes.length then .error .byteLimit
          else (scan root left (remaining - bytes.length) paths).map (⟨mode, path.bytes, bytes⟩ :: ·)
      | some .other | none => .error .unsafeFile

def sourceStamp {Digest : Type} (sha256 : List UInt8 → Digest) (workspace : Workspace) : Except StampError Digest :=
  (scan workspace.root maxEntries maxBytes [[]]).map fun records => sha256 (records.flatMap FileRecord.encode)

end Ferrus.Nano.SourceStamp

import Ferrus.Machine.Core.Dialogue
import Ferrus.Model.Tools.Approval

/-! # Restoring the Git index

`restore_index_file` puts the captured contents of the canonical Git index back, or its absence. It holds
`<index>.lock` while it works, writes the contents there and renames the lock file into place. The file system
answers each of its operations. A write that fails has written a part of the contents; any other operation that
fails has changed nothing.
-/

namespace Ferrus.Tools

open Ferrus.Machine Program

/-- The file at the index path and the lock file beside it. -/
structure IndexFiles where
  (index lock : Option (List UInt8))
deriving DecidableEq, Repr

/-- The file operations of `restore_index_file`. -/
inductive IndexFileStep where
  | createLock | writeLock | syncLock | statIndex | removeIndex | publishLock | removeLock | cleanUpLock
deriving DecidableEq, Repr

inductive FileReply where
  | success
  /-- With the number of bytes that a write has written before. -/
  | failure (written : ℕ)
deriving DecidableEq, Repr

abbrev IndexM := Program (fun _ : IndexFileStep => FileReply) IndexFiles String

namespace IndexM

/-- An operation that has its effect, or fails with its context. -/
def perform (step : IndexFileStep) (context : String) (effect : IndexFiles → IndexFiles) : IndexM Unit := do
  match ← ask step with
  | .success => update effect
  | .failure _ => fail context

variable (path : String)

/-- `create_new`. -/
def createLock : IndexM Unit := do
  let files ← current
  require (files.lock = none) s!"Failed to lock Git index {path}"
  perform .createLock s!"Failed to lock Git index {path}" (fun files => { files with lock := some [] })

def writeLock (contents : List UInt8) : IndexM Unit := do
  match ← ask .writeLock with
  | .success => update fun files => { files with lock := some contents }
  | .failure written => do
      update fun files => { files with lock := some (contents.take written) }
      fail s!"Failed to restore Git index {path}"

/-- `path.exists()`, which takes an error for absence. -/
def indexExists : IndexM Bool := do
  let files ← current
  match ← ask .statIndex with
  | .success => pure files.index.isSome
  | .failure _ => pure false

def removeIndex (context : String) : IndexM Unit := do
  let present ← indexExists
  when (present = true) (perform .removeIndex context fun files => { files with index := none })

/-- `rename`, which also replaces a file. -/
def publishLock : IndexM Unit :=
  perform .publishLock s!"Failed to publish restored Git index {path}"
    (fun files => { index := files.lock, lock := none })

/-- The closure of `restore_index_file`. -/
def restoreLocked : Option (List UInt8) → IndexM Unit
  | some contents => do
      writeLock path contents
      perform .syncLock s!"Failed to sync Git index {path}" id
      removeIndex s!"Failed to replace Git index {path}"
      publishLock path
  | none => do
      removeIndex s!"Failed to remove Git index {path}"
      perform .removeLock s!"Failed to remove temporary Git index lock {path}.lock"
        (fun files => { files with lock := none })

/-- The removal after an error, whose own error is ignored. -/
def cleanUpLock : IndexM Unit := do
  match ← ask .cleanUpLock with
  | .success => update fun files => { files with lock := none }
  | .failure _ => pure ()

end IndexM

def restoreIndexFile (path : String) (contents : Option (List UInt8)) : IndexM Unit := do
  IndexM.createLock path
  match ← attempt (IndexM.restoreLocked path contents) with
  | .ok () => pure ()
  | .error error => do
      IndexM.cleanUpLock
      fail error

end Ferrus.Tools

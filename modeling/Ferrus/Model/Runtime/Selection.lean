import Ferrus.Model.Text

/-! # The selected specification

The project row holds the selected specification and the last one. An earlier layout kept them in
`runtime_metadata`, a table that nothing deletes: every opening of the database imports from it what the row
does not have. A missing row reads like an empty one.
-/

namespace Ferrus.Runtime

open Ferrus.Text

/-- `normalized_metadata_value`, and `normalize_optional_db_string` for what is read back. -/
def normalizedMetadataValue (value : Option (List Char)) : Option (List Char) := (value.map trim).filter (· ≠ [])

structure SpecPaths where
  (selectedSpec lastSpecPath : Option (List Char))
deriving DecidableEq

structure SelectionStore where
  row : SpecPaths
  /-- `runtime_metadata`, where it exists. -/
  legacy : Option SpecPaths

namespace SelectionStore

variable (store : SelectionStore)

def readProjectSelection : Option (List Char) := normalizedMetadataValue store.row.selectedSpec

def readLastSpecPath : Option (List Char) := normalizedMetadataValue store.row.lastSpecPath

def legacyRuntimeMetadataImport : Option SpecPaths := do
  let legacy ← store.legacy
  let current : SpecPaths := ⟨store.readProjectSelection, store.readLastSpecPath⟩
  let paths : SpecPaths := ⟨current.selectedSpec <|> normalizedMetadataValue legacy.selectedSpec,
    current.lastSpecPath <|> normalizedMetadataValue legacy.lastSpecPath⟩
  if paths = current then none else some paths

/-- Opening the database imports; opening it to read does so when an import is pending. -/
def openRuntimeDatabase : SelectionStore :=
  match store.legacyRuntimeMetadataImport with
  | none => store
  | some paths => { store with row := paths }

def writeProjectSelection (selection : Option (List Char)) : SelectionStore :=
  let store := store.openRuntimeDatabase
  { store with row := { store.row with selectedSpec := normalizedMetadataValue selection } }

def writeLastSpecPath (path : Option (List Char)) : SelectionStore :=
  let store := store.openRuntimeDatabase
  { store with row := { store.row with lastSpecPath := normalizedMetadataValue path } }

end SelectionStore

end Ferrus.Runtime

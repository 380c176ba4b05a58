import Ferrus.Machine.Core.Run
import Ferrus.Model.Runtime.Selection

/-! # The selection after it is written

The import of the old table leaves a selection alone, but takes a cleared one for one that was never imported.
-/

namespace Ferrus.Runtime

open Ferrus.Text Ferrus.Machine SelectionStore

/-- What happens to the database between two writes of the selection. -/
inductive SelectionEvent where
  | reopen
  | read
  | writeLastSpecPath (path : Option (List Char))

namespace SelectionStore

def step (store : SelectionStore) : SelectionEvent → SelectionStore
  | .reopen | .read => store.openRuntimeDatabase
  | .writeLastSpecPath path => store.writeLastSpecPath path

/-- The database reads as the value, and the old table has nothing to put in the place of a cleared one. -/
structure Selects (value : Option (List Char)) (store : SelectionStore) : Prop where
  reads : store.readProjectSelection = value
  keeps : value ≠ none ∨ ∀ legacy ∈ store.legacy, normalizedMetadataValue legacy.selectedSpec = none

theorem normalizedMetadataValue_idem (value : Option (List Char)) :
    normalizedMetadataValue (normalizedMetadataValue value) = normalizedMetadataValue value := by
  cases value with
  | none => rfl
  | some text =>
    by_cases blank : trim text = [] <;> simp [normalizedMetadataValue, Option.filter, blank, trim_trim]

variable {store : SelectionStore} {value : Option (List Char)}

@[simp] theorem openRuntimeDatabase_legacy : store.openRuntimeDatabase.legacy = store.legacy := by
  unfold openRuntimeDatabase
  split <;> rfl

/-- An open database reads as before, or as the old table where it had no selection. -/
theorem readProjectSelection_open (store : SelectionStore) :
    store.openRuntimeDatabase.readProjectSelection = (store.readProjectSelection <|>
      store.legacy.bind (fun legacy => normalizedMetadataValue legacy.selectedSpec)) := by
  unfold openRuntimeDatabase legacyRuntimeMetadataImport
  cases store.legacy with
  | none =>
    change store.readProjectSelection = _
    cases store.readProjectSelection <;> rfl
  | some legacy =>
    dsimp only [Option.bind_eq_bind, Option.bind_some]
    split_ifs with same
    · exact (congrArg SpecPaths.selectedSpec same).symm
    · cases selected : store.readProjectSelection with
      | none => exact normalizedMetadataValue_idem legacy.selectedSpec
      | some text =>
        change normalizedMetadataValue (some text) = some text
        rw [← selected]
        exact normalizedMetadataValue_idem store.row.selectedSpec

theorem Selects.open (selects : store.Selects value) : store.openRuntimeDatabase.Selects value := by
  refine ⟨?_, by simpa using selects.keeps⟩
  rw [readProjectSelection_open, selects.reads]
  cases value with
  | some text => rfl
  | none =>
    have nothing := selects.keeps.resolve_left fun cleared => cleared rfl
    cases isLegacy : store.legacy with
    | none => rfl
    | some legacy => exact nothing legacy isLegacy

theorem Selects.step (selects : store.Selects value) (event : SelectionEvent) : (store.step event).Selects value := by
  cases event with
  | reopen | read => exact selects.open
  | writeLastSpecPath path => exact ⟨selects.open.reads, selects.open.keeps⟩

end SelectionStore

/-- A written selection is read back until the next one is written, if it is not cleared while the old table
holds one. -/
theorem selection_read_back (store : SelectionStore) (selection : Option (List Char))
    (stays : normalizedMetadataValue selection ≠ none ∨
      ∀ legacy ∈ store.legacy, normalizedMetadataValue legacy.selectedSpec = none) (events : List SelectionEvent) :
    (run step (store.writeProjectSelection selection) (events ++ [.read])).readProjectSelection =
      normalizedMetadataValue selection := by
  have written : (store.writeProjectSelection selection).Selects (normalizedMetadataValue selection) :=
    ⟨normalizedMetadataValue_idem selection, by simpa [writeProjectSelection] using stays⟩
  exact (run_invariant _ written (fun store event selects => selects.step event) _).reads

/-- A database of the earlier layout. -/
def earlierLayout : SelectionStore := ⟨⟨none, none⟩, some ⟨some "legacy.md".toList, none⟩⟩

theorem selection_read_back_normalized : normalizedMetadataValue (some " spec.md\n".toList) = some "spec.md".toList ∧
    (run step (earlierLayout.writeProjectSelection (some " spec.md\n".toList))
        ([.reopen, .writeLastSpecPath none] ++ [.read])).readProjectSelection =
      normalizedMetadataValue (some " spec.md\n".toList) :=
  ⟨by decide, selection_read_back earlierLayout _ (.inl (by decide)) _⟩

/-- A cleared selection comes back from the old table. -/
theorem cleared_selection_returns :
    (run step (earlierLayout.writeProjectSelection none) [.read]).readProjectSelection =
      some "legacy.md".toList := by
  decide

end Ferrus.Runtime

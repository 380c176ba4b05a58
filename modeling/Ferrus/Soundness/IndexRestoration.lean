import Ferrus.Model.Tools.IndexRestore
import Ferrus.Soundness.ApprovalRollback

/-! # The Git index after a restore

What is at the index path after `restore_index_file`, whichever of its file operations fail; a call makes each of
them at most once. Up to the removal of the index the path is as before; then only the rename is left, which puts the
contents there. A rename that fails after the removal loses the index, and the cleanup also removes the lock file that
holds the contents.
-/

namespace Ferrus.Tools

open Ferrus.Machine Program ApprovalWorld

namespace IndexM

variable {allows : IndexFileStep → FileReply → Prop} {Done : Unit → IndexFiles → Prop}
  {Ended : String → IndexFiles → Prop} {files : IndexFiles} {path context : String}

/-- A file operation keeps the files or has its effect. -/
theorem perform_ensures {step : IndexFileStep} {effect : IndexFiles → IndexFiles}
    (done : allows step .success → Done () (effect files))
    (failed : ∀ written, allows step (.failure written) → Ended context files) :
    (perform step context effect files).Ensures allows Done Ended := by
  intro answer allowed
  cases answer with
  | success => exact done allowed
  | failure written => exact failed written allowed

/-- The index is removed, or kept: when it is taken to be absent, or when the removal fails. -/
theorem removeIndex_ensures
    (removed : allows .statIndex .success → allows .removeIndex .success → Done () { files with index := none })
    (kept : files.index = none ∨ (∃ written, allows .statIndex (.failure written)) → Done () files)
    (failed : Ended context files) : (removeIndex context files).Ensures allows Done Ended := by
  simp only [removeIndex, indexExists, ensures_bind, ensures_current, ensures_ask, ensures_when]
  intro answer allowed
  cases answer with
  | success =>
    refine ensures_pure.mpr ⟨fun _ => ?_, fun absent => kept (.inl (by simpa using absent))⟩
    exact perform_ensures (removed allowed) fun _ _ => failed
  | failure written =>
    exact ensures_pure.mpr ⟨fun present => Bool.noConfusion present, fun _ => kept (.inr ⟨written, allowed⟩)⟩

theorem writeLock_ensures {contents : List UInt8}
    (done : allows .writeLock .success → Done () { files with lock := some contents })
    (failed : ∀ written context, Ended context { files with lock := some written }) :
    (writeLock path contents files).Ensures allows Done Ended := by
  intro answer allowed
  cases answer with
  | success => exact done allowed
  | failure written => exact failed _ _

/-- A failed restore removes its lock file if it can. -/
theorem restoreIndexFile_ensures {contents : Option (List UInt8)} {Restored Left : IndexFiles → Prop}
    (start : Left files) (unlocked : ∀ files, Left files → Left { files with lock := none })
    (locked : files.lock = none → allows .createLock .success →
      (restoreLocked path contents { files with lock := some [] }).Ensures allows (fun _ => Restored) (fun _ => Left)) :
    (restoreIndexFile path contents files).Ensures allows (fun _ => Restored) (fun _ => Left) := by
  simp only [restoreIndexFile, createLock, ensures_bind, ensures_current, ensures_require, ensures_attempt]
  refine ⟨fun free => ?_, fun _ => start⟩
  refine perform_ensures (fun created => ?_) fun _ _ => start
  refine (locked free created).imp (fun _ _ restored => restored) fun error after left => ?_
  intro answer _
  cases answer with
  | success => exact unlocked after left
  | failure written => exact left

/-- The operations that come before the rename of the lock file when there is an index. -/
def beforeRename : List IndexFileStep := [.createLock, .writeLock, .syncLock, .statIndex, .removeIndex]

/-- The index path holds its original or the restored contents, and is not left empty while both exist. -/
def KeepsIndex (original contents : Option (List UInt8)) (after : IndexFiles) : Prop :=
  (after.index = original ∨ after.index = contents) ∧ (after.index = none → original = none ∨ contents = none)

instance (original contents : Option (List UInt8)) : DecidablePred (KeepsIndex original contents) :=
  fun _ => inferInstanceAs (Decidable (_ ∧ (_ → _)))

theorem KeepsIndex.of_eq {original contents : Option (List UInt8)}
    (settled : files.index = original ∨ files.index = contents) : KeepsIndex original contents files :=
  ⟨settled, fun gone => settled.imp (·.symm.trans gone) (·.symm.trans gone)⟩

variable {original : Option (List UInt8)}

/-- The index is lost only where the rename of the lock file fails once the index is removed. -/
theorem restoreLocked_keeps (path : String) (contents : Option (List UInt8)) (start : files.index = original)
    (renames : ∀ written, allows .writeLock .success → allows .syncLock .success → allows .statIndex .success →
      allows .removeIndex .success → allows .publishLock (.failure written) → original = none ∨ contents = none) :
    (restoreLocked path contents files).Ensures allows (fun _ => KeepsIndex original contents)
      (fun _ => KeepsIndex original contents) := by
  have kept : ∀ {files : IndexFiles}, files.index = original → KeepsIndex original contents files :=
    fun same => .of_eq (.inl same)
  cases contents with
  | some contents =>
    simp only [restoreLocked, ensures_bind]
    refine writeLock_ensures (fun wrote => ?_) fun _ _ => kept start
    refine perform_ensures (fun synced => ?_) fun _ _ => kept start
    refine removeIndex_ensures (fun found removed => ?_) (fun _ => ?_) (kept start)
    · refine perform_ensures (fun _ => .of_eq (.inr rfl)) fun written failed => ?_
      -- the index is gone, and with the cleanup the contents will be
      obtain absent | absent := renames written wrote synced found removed failed
      · exact kept absent.symm
      · cases absent
    · exact perform_ensures (fun _ => .of_eq (.inr rfl)) fun _ _ => kept start
  | none =>
    simp only [restoreLocked, ensures_bind]
    have unlocked : ∀ files : IndexFiles, KeepsIndex original none files →
        (perform .removeLock s!"Failed to remove temporary Git index lock {path}.lock"
          (fun files => { files with lock := none }) files).Ensures allows
          (fun _ => KeepsIndex original none) (fun _ => KeepsIndex original none) :=
      fun files settled => perform_ensures (fun _ => settled) fun _ _ => settled
    exact removeIndex_ensures (fun _ _ => unlocked _ (.of_eq (.inr rfl))) (fun _ => unlocked _ (kept start))
      (kept start)

/-- A rename that fails after every other operation has succeeded loses the index. -/
theorem restoreIndexFile_loses (path : String) (contents : List UInt8) {fileSystem : IndexFileStep → FileReply}
    (free : files.lock = none) (succeed : ∀ step ∈ beforeRename, fileSystem step = .success)
    (failed : fileSystem .publishLock ≠ .success) :
    ((restoreIndexFile path (some contents) files).result (fun _ => fileSystem) 0).EndsIn (·.index = none) := by
  obtain ⟨index, lock⟩ := files
  obtain rfl : lock = none := free
  simp only [beforeRename, List.forall_mem_cons] at succeed
  obtain ⟨created, wrote, synced, stated, removed, -⟩ := succeed
  cases renamed : fileSystem .publishLock with
  | success => exact absurd renamed failed
  | failure written =>
    cases cleaned : fileSystem .cleanUpLock <;> cases index <;>
      simp [restoreIndexFile, createLock, perform, restoreLocked, writeLock, removeIndex, indexExists, publishLock,
        cleanUpLock, created, wrote, synced, stated, removed, renamed, cleaned, Program.current, Program.require,
        Program.when, Program.ask, Program.update, Program.attempt, Program.attempted, Program.fail, bind, pure,
        Dialogue.bind, Dialogue.result, Outcome.EndsIn]

/-! ## What approval assumes of a restore -/

/-- The file system finds out whether the index exists. -/
def stats (step : IndexFileStep) (reply : FileReply) : Prop := step = .statIndex → reply = .success

/-- A failed restore has left the index or removed it. -/
def LeftOrLost (original : Option (List UInt8)) (files : IndexFiles) : Prop :=
  files.index = original ∨ files.index = none

theorem removeIndex_stats (removed : Done () { files with index := none })
    (failed : Ended context files) : (removeIndex context files).Ensures stats Done Ended := by
  refine removeIndex_ensures (fun _ _ => removed) ?_ failed
  rintro (absent | ⟨written, found⟩)
  · obtain ⟨index, lock⟩ := files
    obtain rfl : index = none := absent
    exact removed
  · cases found rfl

theorem restoreLocked_stats (path : String) (contents original : Option (List UInt8)) (start : files.index = original) :
    (restoreLocked path contents files).Ensures stats (fun _ after => after.index = contents)
      (fun _ => LeftOrLost original) := by
  cases contents with
  | some contents =>
    simp only [restoreLocked, ensures_bind]
    refine writeLock_ensures (fun _ => ?_) fun _ _ => .inl start
    refine perform_ensures (fun _ => ?_) fun _ _ => .inl start
    refine removeIndex_stats ?_ (.inl start)
    exact perform_ensures (fun _ => rfl) fun _ _ => .inr rfl
  | none =>
    simp only [restoreLocked, ensures_bind]
    refine removeIndex_stats ?_ (.inl start)
    exact perform_ensures (fun _ => rfl) fun _ _ => .inr rfl

end IndexM

open IndexM

/-- The index after a restore is the one that `ApprovalWorld.restoredIndex` gives for the outcome. -/
theorem restoredIndex_of_restoreIndexFile (world : ApprovalWorld) (step : ApprovalStep) (encode : String → List UInt8)
    (path : String) (contents current : Option String) (files : IndexFiles) (start : files.index = current.map encode)
    (fileSystem : Environment fun _ : IndexFileStep => FileReply)
    (found : ∀ count, fileSystem count .statIndex = .success) :
    match (restoreIndexFile path (contents.map encode) files).result fileSystem 0 with
    | .done _ after => world.fails step = false → after.index = (world.restoredIndex step contents current).map encode
    | .ended _ after => world.fails step = true → world.indexLost = after.index.isNone →
        after.index = (world.restoredIndex step contents current).map encode
    | .stopped => False := by
  have ends := (restoreIndexFile_ensures (.inl rfl) (fun _ => id) fun _ _ => restoreLocked_stats path
    (contents.map encode) files.index rfl).result (fun count step same => by rw [same]; exact found count) 0
  revert ends
  cases (restoreIndexFile path (contents.map encode) files).result fileSystem 0 with
  | done value after =>
    intro restored succeeds
    simpa [restoredIndex, succeeds] using restored
  | ended reason after =>
    rintro (left | lost) fails known
    · rw [restoredIndex, if_pos fails, known, left, start]
      cases current <;> rfl
    · simp [restoredIndex, fails, known, lost]
  | stopped => exact id

theorem restoredIndex_of_restoreIndexFile_removed :
    ((restoreIndexFile "index" none ⟨some [1], none⟩).result (fun _ _ => .success) 0).EndsIn fun after =>
      after.index = ((plainWorld []).restoredIndex .restoreIndex none (some "a")).map fun _ => [1] :=
  restoredIndex_of_restoreIndexFile (plainWorld []) .restoreIndex (fun _ => [1]) "index" none (some "a")
    ⟨some [1], none⟩
    rfl (fun _ _ => .success) (fun _ => rfl) rfl

/-! ## Every call -/

/-- Every call returns and keeps the index, exactly if there is no index to replace by contents, or if the rename of the
lock file does not fail after every operation before it has succeeded. -/
theorem index_after_restore (path : String) (contents : Option (List UInt8)) (files : IndexFiles)
    (fileSystem : IndexFileStep → FileReply) :
    ((restoreIndexFile path contents files).result (fun _ => fileSystem) 0).EndsIn (KeepsIndex files.index contents) ↔
      files.index = none ∨ contents = none ∨ files.lock ≠ none ∨
        (∃ step ∈ beforeRename, fileSystem step ≠ .success) ∨ fileSystem .publishLock = .success := by
  constructor
  · intro ends
    by_contra lost
    simp only [not_or, not_not, not_exists, not_and] at lost
    obtain ⟨found, given, free, succeed, failed⟩ := lost
    obtain ⟨contents, rfl⟩ := Option.ne_none_iff_exists'.mp given
    have gone := restoreIndexFile_loses path contents free succeed failed
    revert ends gone
    cases (restoreIndexFile path (some contents) files).result (fun _ => fileSystem) 0 with
    | done value after | ended reason after => exact fun kept gone => (kept.2 gone).elim found given
    | stopped => exact fun ends _ => ends
  · intro condition
    have kept : (restoreIndexFile path contents files).Ensures (fun step reply => reply = fileSystem step)
        (fun _ => KeepsIndex files.index contents) (fun _ => KeepsIndex files.index contents) := by
      refine restoreIndexFile_ensures (.of_eq (.inl rfl)) (fun _ => id) fun free created => ?_
      refine restoreLocked_keeps path contents rfl fun written wrote synced stated removed failed => ?_
      obtain absent | absent | locked | ⟨step, before, fails⟩ | renamed := condition
      · exact .inl absent
      · exact .inr absent
      · exact absurd free locked
      · have succeeds : ∀ step ∈ beforeRename, .success = fileSystem step := by
          simp only [beforeRename, List.forall_mem_cons]
          exact ⟨created, wrote, synced, stated, removed, by simp⟩
        exact absurd (succeeds step before).symm fails
      · cases failed.trans renamed
    have ends := kept.result (fun _ _ => rfl) 0
    revert ends
    cases (restoreIndexFile path contents files).result (fun _ => fileSystem) 0 <;> exact id

/-- The rename fails after the removal of the index: neither the original nor the restored contents are left,
and the lock file is gone as well. -/
theorem not_index_after_restore_renameFails :
    ((restoreIndexFile "index" (some [2]) ⟨some [1], none⟩).result
        (fun _ step => if step = .publishLock then .failure 0 else .success) 0).EndsIn
      (fun after => after = ⟨none, none⟩) ∧
    ¬ ((restoreIndexFile "index" (some [2]) ⟨some [1], none⟩).result
        (fun _ step => if step = .publishLock then .failure 0 else .success) 0).EndsIn
      (KeepsIndex (some [1]) (some [2])) := by
  constructor
  · decide
  · decide

end Ferrus.Tools

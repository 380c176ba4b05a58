import Ferrus.Model.Tools.PatchPaths
import Ferrus.Proofs.TextLines

/-! # Patches under the path of their file

Each line of a patch is looked at by itself, so a hunk is kept as it is unless one of its lines looks like a
line that names a file.
-/

namespace Ferrus.Tools

open List

open Ferrus.ProjectMemory (splitInclusive splitInclusive_line)

/-! ### Lines -/

private theorem splitInclusive_print {lines : List (List Char)} (oneLine : ∀ line ∈ lines, '\n' ∉ line) :
    splitInclusive [] (lines.flatMap (· ++ ['\n'])) = lines.map (· ++ ['\n']) := by
  induction lines with
  | nil => rfl
  | cons line rest ih =>
    obtain ⟨first, others⟩ := forall_mem_cons.mp oneLine
    rw [flatMap_cons, append_assoc, singleton_append, splitInclusive_line first, ih others]
    rfl

/-! ### Rewriting -/

section Rewriting

variable (path : List Char) (oldNull newNull : Bool)

private theorem rewriteLine_line {text : List Char} (oneLine : '\n' ∉ text) :
    rewriteLine path oldNull newNull (text ++ ['\n']) =
      (if diffGit.isPrefixOf text then diffGit ++ gitPaths path
        else if oldFile.isPrefixOf text then oldFile ++ sidePath "a/".toList path oldNull
        else if newFile.isPrefixOf text then newFile ++ sidePath "b/".toList path newNull else text) ++ ['\n'] := by
  have isText : (text ++ ['\n']).rdropWhile (· = '\n') = text := by
    rw [rdropWhile_concat_pos _ _ _ (by simp), rdropWhile_eq_self_iff]
    intro nonempty last
    exact oneLine (of_decide_eq_true last ▸ getLast_mem nonempty)
  rw [rewriteLine, isText, getLast?_concat, if_pos rfl]
  split_ifs <;> rfl

private theorem rewriteLine_plain {text : List Char} (oneLine : '\n' ∉ text) (plain : namesFiles text = false) :
    rewriteLine path oldNull newNull (text ++ ['\n']) = text ++ ['\n'] := by
  simp only [namesFiles, Bool.or_eq_false_iff] at plain
  simp [rewriteLine_line path oldNull newNull oneLine, plain]

/-- The line is not printed like one that names a file, or it is what such a line becomes. -/
def HunkLine.isKept (hunkLine : HunkLine) : Bool :=
  let text := hunkLine.line.rdropWhile (· = '\n')
  match hunkLine.kind with
  | .context => true
  | .added => !"++ ".toList.isPrefixOf text || text = "++ ".toList ++ sidePath "b/".toList path newNull
  | .removed => !"-- ".toList.isPrefixOf text || text = "-- ".toList ++ sidePath "a/".toList path oldNull

theorem HunkLine.isKept_iff {hunkLine : HunkLine} (oneLine : ∀ line ∈ hunkLine.lines, '\n' ∉ line) :
    hunkLine.isKept path oldNull newNull = true ↔
      ∀ line ∈ hunkLine.lines, rewriteLine path oldNull newNull (line ++ ['\n']) = line ++ ['\n'] := by
  obtain ⟨kind, content⟩ := hunkLine
  obtain ⟨first, marker⟩ := forall_mem_cons.mp oneLine
  have kept : ∀ line ∈ (if content.getLast? = some '\n' then [] else ["\\ No newline at end of file".toList]),
      rewriteLine path oldNull newNull (line ++ ['\n']) = line ++ ['\n'] := by
    intro line member
    refine rewriteLine_plain path oldNull newNull (marker line member) ?_
    split_ifs at member
    · cases member
    · rw [mem_singleton.mp member]
      rfl
  rw [lines, forall_mem_cons, and_iff_left kept, rewriteLine_line path oldNull newNull first, append_left_inj]
  have alike (mark : Char) (head side text : List Char) : (!head.isPrefixOf text || text = head ++ side) = true ↔
      (if head.isPrefixOf text then mark :: (head ++ side) else mark :: text) = mark :: text := by
    cases head.isPrefixOf text <;> simp [eq_comm]
  cases kind with
  | context => exact iff_of_true rfl rfl
  | added | removed => exact alike ..

/-- The patch with the path in the lines that name files. -/
def PatchParts.rename (parts : PatchParts) : PatchParts :=
  { parts with
    names := gitPaths path
    files := parts.files.map (fun _ => (sidePath "a/".toList path oldNull, sidePath "b/".toList path newNull)) }

variable {path} {oldNull newNull}

theorem PatchParts.rewrite_print {parts : PatchParts} (oneLine : ∀ line ∈ parts.lines, '\n' ∉ line)
    (plain : ∀ line ∈ parts.extended, namesFiles line = false)
    (kept : ∀ hunk ∈ parts.hunks, ∀ line ∈ hunk.lines,
      rewriteLine path oldNull newNull (line ++ ['\n']) = line ++ ['\n']) :
    rewriteNoIndexPatchPaths parts.print path oldNull newNull = (parts.rename path oldNull newNull).print := by
  rw [rewriteNoIndexPatchPaths, print, splitInclusive_print oneLine, flatMap_map]
  simp only [lines, forall_mem_cons, forall_mem_append] at oneLine
  obtain ⟨names, extended, files, hunks⟩ := oneLine
  simp only [print, lines, flatMap_cons, flatMap_append, rename]
  congr 1
  · rw [rewriteLine_line _ _ _ names, if_pos ( isPrefixOf_iff_prefix.mpr (prefix_append ..))]
  congr 1
  · exact flatMap_congr fun line member => rewriteLine_plain _ _ _ (extended line member) (plain line member)
  congr 1
  · cases isFiles : parts.files with
    | none => rfl
    | some both =>
      simp only [isFiles, Option.elim_some, forall_mem_cons] at files
      simp only [Option.map_some, Option.elim_some, flatMap_cons, rewriteLine_line _ _ _ files.1,
        rewriteLine_line _ _ _ files.2.1]
      rfl
  · refine flatMap_congr fun line member => ?_
    obtain ⟨hunk, isHunk, printed⟩ := mem_flatMap.mp member
    exact kept hunk isHunk line printed

end Rewriting

/-- Every line of a hunk is kept, and the patch of a new file creates it. -/
structure KeepsHunks {Content : Type} (git : GitApply Content) (patch : NoIndexPatch) (path : List Char)
    (oldNull newNull : Bool) : Prop where
  lines : ∀ hunk ∈ patch.hunks, ∀ line ∈ hunk.lines,
    rewriteLine path oldNull newNull (line ++ ['\n']) = line ++ ['\n']
  creates : oldNull = true → newNull = false → ∀ content, git.content? patch.toPatchParts = some content →
    git.creates (rewriteNoIndexPatchPaths patch.print path oldNull newNull) path content

private theorem lines_kept_iff {patch : NoIndexPatch} {path : List Char} {oldNull newNull : Bool} :
    (∀ hunk ∈ patch.hunks, ∀ line ∈ hunk.lines, rewriteLine path oldNull newNull (line ++ ['\n']) = line ++ ['\n']) ↔
      ∀ hunk ∈ patch.hunks, ∀ line ∈ hunk.body, line.isKept path oldNull newNull = true := by
  refine forall₂_congr fun hunk isHunk => ?_
  have oneLine : ∀ line ∈ hunk.lines, '\n' ∉ line := fun line member => patch.oneLine line
    (mem_cons_of_mem _ (mem_append_right _ (mem_append_right _ (mem_flatMap_of_mem isHunk member))))
  obtain ⟨head, body⟩ := forall_mem_cons.mp oneLine
  rw [Hunk.lines, forall_mem_cons, and_iff_right (rewriteLine_plain _ _ _ head rfl), forall_mem_flatMap]
  refine forall₂_congr fun hunkLine isLine => ?_
  exact (HunkLine.isKept_iff _ _ _ fun line member => body line (mem_flatMap_of_mem isLine member)).symm

/-- The patch of a new file with one line that has no newline at its end. -/
private def newFileParts (line : String) : PatchParts :=
  ⟨"a/f b/f".toList, ["new file mode 100644".toList], some ("/dev/null".toList, "b/f".toList),
    [⟨"-0,0 +1 @@".toList, [⟨.added, line.toList⟩]⟩]⟩

private def newFilePatch : NoIndexPatch where
  toPatchParts := newFileParts "++x"
  oneLine := by decide
  extendedPlain := by decide

/-- The added lines are the content, and names are read up to a tab or the end of their line. -/
private def plainApply : GitApply (List Char) where
  content? parts := some ((parts.hunks.flatMap Hunk.body).flatMap HunkLine.line)
  content?_header _ _ _ := rfl
  readsUnquoted path _ := '\t' ∉ path ∧ '\n' ∉ path
  creates patch path content := ('\t' ∉ path ∧ '\n' ∉ path) ∧ ∃ parts : PatchParts, parts.print = patch ∧
    parts.names = gitPaths path ∧ (parts.hunks.flatMap Hunk.body).flatMap HunkLine.line = content
  creates_iff parts _ _ isContent isNames _ :=
    and_iff_left ⟨parts, rfl, isNames, Option.some.inj isContent⟩

private def headerLikePatch : NoIndexPatch where
  toPatchParts := newFileParts "++ x"
  oneLine := by decide
  extendedPlain := by decide

/-- A batch has a path, and only a single path exceeds the budget. -/
def IsBatch (batch : List String) : Prop :=
  batch ≠ [] ∧ (pathspecArgvBudget < (batch.map pathCost).sum → ∃ path, batch = [path])

/-- The loop between two paths: those of the batches before it are cut off, and the next batch is begun. -/
private theorem batchesFrom_splits (before begun rest : List String) (some : begun ++ rest ≠ [])
    (isBatch : begun ≠ [] → IsBatch begun) :
    ∃ batches, batchesFrom (before ++ begun ++ rest) before.length (begun.map pathCost).sum
        (before.length + begun.length) rest = batches ∧
      batches.flatten = begun ++ rest ∧ ∀ batch ∈ batches, IsBatch batch := by
  induction rest generalizing before begun with
  | nil =>
    rw [append_nil] at some
    refine ⟨[begun], ?_, by simp, by simpa using isBatch some⟩
    simp [batchesFrom]
  | cons path rest ih =>
    rw [batchesFrom]
    split_ifs with full
    · have nonempty : begun ≠ [] := by
        rintro rfl
        simp at full
      have single : IsBatch [path] := ⟨cons_ne_nil _ _, fun _ => ⟨path, rfl⟩⟩
      obtain ⟨batches, splits, joined, areBatches⟩ := ih (before ++ begun) [path] (by simp) fun _ => single
      refine ⟨begun :: batches, ?_, by simp [joined], ?_⟩
      · simp [← splits, extract_eq_take_drop]
      · exact forall_mem_cons.mpr ⟨isBatch nonempty, areBatches⟩
    · have grown : IsBatch (begun ++ [path]) := by
        refine ⟨by simp, fun exceeds => ?_⟩
        cases begun with
        | nil => exact ⟨path, rfl⟩
        | cons first others =>
          simp only [map_append, map_cons, map_nil, sum_append, sum_cons, sum_nil,
            length_cons] at exceeds full
          omega
      obtain ⟨batches, splits, joined, areBatches⟩ := ih before (begun ++ [path]) (by simp) fun _ => grown
      refine ⟨batches, ?_, by simpa using joined, areBatches⟩
      simpa [Nat.add_assoc] using splits

/-- The batches are the paths in their order, none is empty, and none but a single path exceeds the budget. -/
theorem trackedPathspecBatches_splits (tracked : List String) (nonempty : tracked ≠ []) :
    (trackedPathspecBatches tracked).flatten = tracked ∧
      ∀ batch ∈ trackedPathspecBatches tracked, IsBatch batch := by
  obtain ⟨batches, rfl, splits⟩ := batchesFrom_splits [] [] tracked nonempty (absurd rfl)
  exact splits

private def longPath (bytes : Nat) : String := .ofList (replicate bytes 'a')

private theorem pathCost_longPath (bytes : Nat) : pathCost (longPath bytes) = bytes + 1 := by
  induction bytes with
  | zero => rfl
  | succ bytes ih =>
    have size : longPath (bytes + 1) = "a" ++ longPath bytes := by
      rw [longPath, replicate_succ, ← singleton_append, String.ofList_append]
      rfl
    rw [pathCost] at ih ⊢
    rw [size, String.utf8ByteSize_append, show "a".utf8ByteSize = 1 from rfl]
    omega

/-- Two paths fill a batch, and the one that exceeds the budget has a batch of its own. -/
theorem trackedPathspecBatches_splits_long :
    trackedPathspecBatches [longPath 11999, longPath 11999, longPath 30000, longPath 5] =
      [[longPath 11999, longPath 11999], [longPath 30000], [longPath 5]] ∧
    ∀ batch ∈ trackedPathspecBatches [longPath 11999, longPath 11999, longPath 30000, longPath 5], IsBatch batch := by
  refine ⟨?_, (trackedPathspecBatches_splits _ (cons_ne_nil _ _)).2⟩
  simp [trackedPathspecBatches, batchesFrom, pathCost_longPath, pathspecArgvBudget, extract_eq_take_drop]

end Ferrus.Tools

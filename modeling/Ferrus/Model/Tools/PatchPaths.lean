import Ferrus.Model.ProjectMemory.Documents

/-! # The paths of a patch

Git prints the patch of an untracked file under the paths of the two files that it has compared. A submission
puts the path of the file into the lines that name them.
-/

namespace Ferrus.Tools

open Ferrus.ProjectMemory (splitInclusive)

/-! ### What Git prints -/

def diffGit : List Char := "diff --git ".toList

def oldFile : List Char := "--- ".toList

def newFile : List Char := "+++ ".toList

inductive LineKind where
  | context | added | removed
deriving DecidableEq, Repr

def LineKind.mark : LineKind → Char
  | .context => ' '
  | .added => '+'
  | .removed => '-'

/-- A line of one of the files, with its newline if it has one. -/
structure HunkLine where
  kind : LineKind
  line : List Char
deriving DecidableEq, Repr

def HunkLine.lines (hunkLine : HunkLine) : List (List Char) :=
  (hunkLine.kind.mark :: hunkLine.line.rdropWhile (· = '\n')) ::
    if hunkLine.line.getLast? = some '\n' then [] else ["\\ No newline at end of file".toList]

structure Hunk where
  range : List Char
  body : List HunkLine
deriving DecidableEq, Repr

def Hunk.lines (hunk : Hunk) : List (List Char) := ("@@ ".toList ++ hunk.range) :: hunk.body.flatMap HunkLine.lines

/-- Mode, index and binary data are `extended` lines; a patch without hunks names no `files`. -/
structure PatchParts where
  names : List Char
  extended : List (List Char)
  files : Option (List Char × List Char)
  hunks : List Hunk
deriving DecidableEq, Repr

namespace PatchParts

variable (parts : PatchParts)

def lines : List (List Char) :=
  (diffGit ++ parts.names) :: (parts.extended ++
    (parts.files.elim [] (fun files => [oldFile ++ files.1, newFile ++ files.2]) ++ parts.hunks.flatMap Hunk.lines))

def print : List Char := parts.lines.flatMap (· ++ ['\n'])

end PatchParts

/-- The line starts like one that names files. -/
def namesFiles (line : List Char) : Bool :=
  diffGit.isPrefixOf line || oldFile.isPrefixOf line || newFile.isPrefixOf line

structure NoIndexPatch extends PatchParts where
  oneLine : ∀ line ∈ toPatchParts.lines, '\n' ∉ line
  extendedPlain : ∀ line ∈ extended, namesFiles line = false

/-! ### What a submission makes of it -/

/-- The path of one of the files, under its side of the comparison. -/
def sidePath (side path : List Char) (isNull : Bool) : List Char :=
  if isNull then "/dev/null".toList else side ++ path

def gitPaths (path : List Char) : List Char := "a/".toList ++ path ++ (" b/".toList ++ path)

def rewriteLine (path : List Char) (oldNull newNull : Bool) (line : List Char) : List Char :=
  let text := line.rdropWhile (· = '\n')
  let newline := if line.getLast? = some '\n' then ['\n'] else []
  if diffGit.isPrefixOf text then diffGit ++ gitPaths path ++ newline
  else if oldFile.isPrefixOf text then oldFile ++ sidePath "a/".toList path oldNull ++ newline
  else if newFile.isPrefixOf text then newFile ++ sidePath "b/".toList path newNull ++ newline
  else line

def rewriteNoIndexPatchPaths (patch path : List Char) (oldNull newNull : Bool) : List Char :=
  (splitInclusive [] patch).flatMap (rewriteLine path oldNull newNull)

/-- What is relied on of `git apply` where a patch creates a file. The content of the file is in the hunks and in the
binary data. The path is in the header; Git prints one with a tab, a newline, a quote or a backslash in quotes, and
which paths `git apply` reads where they stand unquoted is left open. -/
structure GitApply (Content : Type) where
  content? : PatchParts → Option Content
  content?_header : ∀ parts names files, content? { parts with names, files } = content? parts
  readsUnquoted : (path : List Char) → (hasFiles : Bool) → Prop
  creates : (patch path : List Char) → Content → Prop
  creates_iff : ∀ (parts : PatchParts) (path : List Char) (content : Content), content? parts = some content →
    parts.names = gitPaths path →
    (∀ files ∈ parts.files, files = (sidePath "a/".toList path true, sidePath "b/".toList path false)) →
    (creates parts.print path content ↔ readsUnquoted path parts.files.isSome)

/-! ### Batches of tracked paths -/

def pathspecArgvBudget : Nat := 24000

/-- The bytes of a path as an argument, with the NUL at its end. -/
def pathCost (path : String) : Nat := path.utf8ByteSize + 1

/-- The loop of `tracked_pathspec_batches`, before the path with the index. -/
def batchesFrom (tracked : List String) (start used index : Nat) : List String → List (List String)
  | [] => [tracked.drop start]
  | path :: rest =>
      if start < index ∧ pathspecArgvBudget < used + pathCost path then
        tracked.extract start index :: batchesFrom tracked index (pathCost path) (index + 1) rest
      else batchesFrom tracked start (used + pathCost path) (index + 1) rest

def trackedPathspecBatches (tracked : List String) : List (List String) := batchesFrom tracked 0 0 0 tracked

end Ferrus.Tools

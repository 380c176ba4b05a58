import Ferrus.Model.RepositoryGraph.Domain
import Ferrus.Model.Text
import Mathlib.Algebra.GroupWithZero.Nat

/-! # Documents of project memory

What memory reads of a specification is its title, the heads of its milestones and its Outcome section, each with
the span it stands at. Archives and runtime records come as documents that discovery has made of them. Offsets
and columns count bytes, and a line keeps its terminator in `raw`.
-/

namespace Ferrus.ProjectMemory

open Ferrus.Text
open Ferrus.RepositoryGraph (RepoPath SnapshotId SourcePosition SourceSpan)

/-! ## The documents -/

structure ArchiveSourceDocument where
  archiveId : String
  specPath : RepoPath
  archivedAt : String
  (taskCount runCount : Nat)
  (taskIds milestoneIds : List String)
deriving DecidableEq, Repr

structure RuntimeTaskDocument where
  id : String
  milestoneId : Option String
  status : String
  (baselineSnapshotId repositorySnapshotId : Option SnapshotId)
deriving DecidableEq, Repr

structure RuntimeRunDocument where
  (id taskId status : String)
  checkIds : List String
  (baselineSnapshotId repositorySnapshotId : Option SnapshotId)
deriving DecidableEq, Repr

structure RuntimeCheckDocument where
  (id taskId : String)
  runId : Option String
  status : String
deriving DecidableEq, Repr

structure RuntimeSourceDocument where
  tasks : List RuntimeTaskDocument
  runs : List RuntimeRunDocument
  checks : List RuntimeCheckDocument
deriving DecidableEq, Repr

structure SpecMilestoneDocument where
  (id title : List Char)
  completed : Bool
  span : SourceSpan
deriving DecidableEq, Repr

structure SpecStructureDocument where
  title : Option (List Char)
  titleSpan : Option SourceSpan
  milestones : List SpecMilestoneDocument
deriving DecidableEq, Repr

inductive OutcomeSectionKind where
  | decision | deviation | validation | followUp
deriving DecidableEq, Repr

structure OutcomeSection where
  kind : OutcomeSectionKind
  text : List Char
  span : SourceSpan
deriving DecidableEq, Repr

structure SpecOutcomeDocument where
  text : List Char
  span : SourceSpan
  sections : List OutcomeSection
deriving DecidableEq, Repr

structure ParsedSpecMemory where
  layout : SpecStructureDocument
  outcome : Option SpecOutcomeDocument
deriving DecidableEq, Repr

/-! ## Lines -/

structure Line where
  (raw text : List Char)
  (start stop number : Nat)
deriving DecidableEq, Repr

/-- The length of a text in UTF-8. -/
def byteLen (text : List Char) : Nat := (text.map Char.utf8Size).sum

/-- `u32::try_from(value).unwrap_or(u32::MAX)`. -/
def saturate32 (value : Nat) : Nat := min value 4294967295

/-- `split_inclusive('\n')`; `current` is the reversed start of the piece being read. -/
def splitInclusive (current : List Char) : List Char → List (List Char)
  | [] => if current.isEmpty then [] else [current.reverse]
  | '\n' :: rest => ('\n' :: current).reverse :: splitInclusive [] rest
  | char :: rest => splitInclusive (char :: current) rest

def numberedLines (start number : Nat) : List (List Char) → List Line
  | [] => []
  | raw :: rest =>
      let text := (raw.reverse.dropWhile (fun char => char = '\n' || char = '\r')).reverse
      ⟨raw, text, start, start + byteLen raw, saturate32 number⟩ ::
        numberedLines (start + byteLen raw) (number + 1) rest

def lines (content : List Char) : List Line :=
  if content.isEmpty then [⟨[], [], 0, 0, 1⟩] else numberedLines 0 1 (splitInclusive [] content)

def textForLines (lines : List Line) : List Char := lines.flatMap (·.raw)

def spanForLines (first last : Line) : SourceSpan :=
  ⟨⟨first.start, some first.number, some 1⟩, ⟨last.stop, some last.number, some (saturate32 (byteLen last.text + 1))⟩⟩

/-- The span of the lines that follow a head. -/
def spanBelow (head : Line) (body : List Line) : SourceSpan :=
  spanForLines (body.head?.getD head) (body.getLast?.getD head)

/-! ## Structure -/

/-- The box and the title of a milestone's head. -/
def milestoneHeader (line : List Char) : Option (Bool × List Char) := do
  let rest ← dropHead? "- [".toList (trim line)
  let (completed, rest) ←
    match rest with
    | 'x' :: rest | 'X' :: rest => some (true, rest)
    | ' ' :: rest => some (false, rest)
    | _ => none
  let header := trim (← dropHead? "]".toList rest)
  let marker := header.takeWhile (!isWhitespace ·)
  let title := trim (header.dropWhile (!isWhitespace ·))
  if 1 < byteLen marker && marker.head? = some '#' && !title.isEmpty then some (completed, title) else none

def childField (field line : List Char) : Option (List Char) := do
  let trimmed := trim line
  let rest ← dropHead? field ((dropHead? "- ".toList trimmed).getD trimmed)
  let value ← dropHead? ":".toList rest
  return trim value

/-- The milestones with an id. The id stands below the head and above the next one. -/
def milestonesOf : List Line → List SpecMilestoneDocument
  | [] => []
  | line :: rest =>
      let later := milestonesOf rest
      match milestoneHeader line.text with
      | none => later
      | some (completed, title) =>
          let children := rest.takeWhile fun child => (milestoneHeader child.text).isNone
          match children.findSome? (fun child => childField "ID".toList child.text) with
          | some id => if id.isEmpty then later else ⟨id, title, completed, spanForLines line line⟩ :: later
          | none => later

/-- `trim_start_matches("# ")`. -/
def dropTitleMarks : List Char → List Char
  | '#' :: ' ' :: rest => dropTitleMarks rest
  | text => text

def startsWith (head text : List Char) : Bool := (dropHead? head text).isSome

def titleLine? (lines : List Line) : Option Line := lines.find? fun line => startsWith "# ".toList (trimStart line.text)

def titleOf (line : Line) : List Char := trim (dropTitleMarks (trim line.text))

def structureOf (lines : List Line) : SpecStructureDocument where
  title := ((titleLine? lines).map titleOf).filter (!·.isEmpty)
  titleSpan := (titleLine? lines).map fun line => spanForLines line line
  milestones := milestonesOf lines

/-! ## Outcome -/

/-- The words of a text; `current` is the reversed start of the word being read. -/
def splitWhitespace (current : List Char) : List Char → List (List Char)
  | [] => if current.isEmpty then [] else [current.reverse]
  | char :: rest =>
      if isWhitespace char then
        if current.isEmpty then splitWhitespace [] rest else current.reverse :: splitWhitespace [] rest
      else splitWhitespace (char :: current) rest

def sectionKind (title : List Char) : Option OutcomeSectionKind :=
  let spaced := title.map fun char => if char = '-' || char = '_' then ' ' else char.toLower
  let normalized := ((splitWhitespace [] spaced).intersperse [' ']).flatten
  if normalized ∈ ["decision".toList, "decisions".toList] then some .decision
  else if normalized ∈ ["deviation".toList, "deviations".toList] then some .deviation
  else if normalized ∈ ["validation".toList, "validation evidence".toList, "verification".toList] then some .validation
  else if normalized ∈ ["follow up".toList, "follow up work".toList, "remaining work".toList] then some .followUp
  else none

def sectionHeading (line : Line) : Option OutcomeSectionKind := do
  let title ← dropHead? "### ".toList (trim line.text)
  sectionKind (trim title)

/-- The sections of an Outcome whose text is not blank. -/
def sectionsOf : List Line → List OutcomeSection
  | [] => []
  | line :: rest =>
      let later := sectionsOf rest
      match sectionHeading line with
      | none => later
      | some kind =>
          let body := rest.takeWhile fun other => (sectionHeading other).isNone
          let text := trim (textForLines body)
          if text.isEmpty then later else ⟨kind, text, spanBelow line body⟩ :: later

def isOutcomeHeading (line : Line) : Bool := (trimStart line.text.reverse).reverse = "## Outcome".toList

def parseOutcome (heading : Line) (below : List Line) : Option SpecOutcomeDocument :=
  let body := below.takeWhile fun line => !startsWith "## ".toList (trimStart line.text)
  let text := trim (textForLines body)
  if text.isEmpty then none else some ⟨text, spanBelow heading body, sectionsOf body⟩

/-- Only the first heading counts, even if nothing stands below it. -/
def outcomeOf (lines : List Line) : Option SpecOutcomeDocument :=
  match lines.dropWhile (!isOutcomeHeading ·) with
  | [] => none
  | heading :: below => parseOutcome heading below

def parseSpecMemory (content : List Char) : ParsedSpecMemory where
  layout := structureOf (lines content)
  outcome := outcomeOf (lines content)

end Ferrus.ProjectMemory

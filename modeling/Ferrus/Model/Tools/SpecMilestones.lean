import Ferrus.Model.Text

/-! # Milestones of a specification

A specification is a text with checkbox lines. A line such as `- [ ] #1 Parser` heads a milestone, and the
lines below it, up to the next head, may give its id. Completing a milestone checks the box of its head.
-/

namespace Ferrus.Specs

open Ferrus.Text

def parseMilestoneHeader (line : List Char) : Option (Bool × List Char × List Char) := do
  let rest ← dropHead? "- [".toList (trimStart line)
  let (completed, rest) ←
    match rest with
    | ' ' :: ']' :: ' ' :: rest => some (false, rest)
    | 'x' :: ']' :: ' ' :: rest | 'X' :: ']' :: ' ' :: rest => some (true, rest)
    | _ => none
  let rest := trim rest
  let marker := rest.takeWhile (!isWhitespace ·)
  let title := trim (rest.dropWhile (!isWhitespace ·))
  if rest.head? ≠ some '#' || marker.length ≤ 1 || title.isEmpty then none
  else some (completed, marker, title)

def parseChildField (field line : List Char) : Option (List Char) := do
  let trimmed := trim line
  let rest ← dropHead? field ((dropHead? "- ".toList trimmed).getD trimmed)
  let value ← dropHead? ":".toList rest
  return trim value

/-- The lines of a text; `current` is the reversed start of the line being read. -/
def linesFrom (current : List Char) : List Char → List (List Char)
  | [] => if current.isEmpty then [] else [current.reverse]
  | '\n' :: rest => current.reverse :: linesFrom [] rest
  | char :: rest => linesFrom (char :: current) rest

structure Milestone where
  (id title : List Char)
  completed : Bool
  lineIndex : ℕ
deriving DecidableEq, Repr

/-- The milestones of the lines from `index` on. -/
def milestonesFrom (index : ℕ) : List (List Char) → List Milestone
  | [] => []
  | line :: rest =>
      let later := milestonesFrom (index + 1) rest
      match parseMilestoneHeader line with
      | none => later
      | some (completed, _, title) =>
          let children := rest.takeWhile fun child => (parseMilestoneHeader child).isNone
          match (children.filterMap (parseChildField "ID".toList)).getLast? with
          | some id => if id.isEmpty then later else ⟨id, title, completed, index⟩ :: later
          | none => later

def markLineCompleted : List Char → List Char
  | [] => []
  | char :: rest =>
      match dropHead? "- [ ]".toList (char :: rest) with
      | some after => "- [x]".toList ++ after
      | none => char :: markLineCompleted rest

/-- The text that `write_spec_lines` writes. -/
def specText (lines : List (List Char)) : List Char :=
  let content := (lines.intersperse ['\n']).flatten
  if content.getLast? = some '\n' then content else content ++ ['\n']

/-- The new text of the specification, if the milestone is there and not completed yet. -/
def completedText? (content milestoneId : String) : Option String :=
  let lines := linesFrom [] content.toList
  match (milestonesFrom 0 lines).find? (·.id = milestoneId.toList) with
  | some milestone =>
      if milestone.completed then none
      else some (String.ofList (specText (lines.modify milestone.lineIndex markLineCompleted)))
  | none => none

end Ferrus.Specs

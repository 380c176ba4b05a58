import Ferrus.Model.Text
import Mathlib.Data.Finset.Dedup

/-! # Which files a repository source admits

A policy excludes a path by its components or by the patterns of the configuration. A walk of the file system
asks it about each directory before it goes down, and a listing of Git only about files. Paths are the lists
of their components.
-/

namespace Ferrus.RepositoryGraph

open Ferrus.Text

/-! ## Patterns -/

abbrev SourcePath := List (List Char)

section Search

variable {α β : Type} (spans : α → Bool) (accepts : α → β → Bool)

/-- The search for the end of both lists; an item that spans stands for any number of places. -/
def searchMatches : List α → List β → Bool
  | [], rest => rest.isEmpty
  | item :: pattern, rest =>
      if spans item then rest.tails.any (searchMatches pattern)
      else match rest with
        | [] => false
        | first :: rest => accepts item first && searchMatches pattern rest

/-- The search for the end of the second list while items are left. -/
def searchReaches : List α → List β → Bool
  | [], _ => false
  | _ :: _, [] => true
  | item :: pattern, first :: rest => spans item || accepts item first && searchReaches pattern rest

end Search

def componentMatches : List Char → List Char → Bool :=
  searchMatches (· = '*') fun item char => item = '?' || item = char

def componentsMatch : List (List Char) → List (List Char) → Bool := searchMatches (· = "**".toList) componentMatches

variable (pattern : List Char)

def globMatches (path : SourcePath) : Bool :=
  match pattern.splitOn '/' with
  | [component] => path.any (componentMatches component)
  | components => componentsMatch components path

def globMayMatchDescendant (directory : SourcePath) : Bool :=
  match pattern.splitOn '/' with
  | [_] => true
  | components => searchReaches (· = "**".toList) componentMatches components directory

def toAsciiLowercase (text : List Char) : List Char := text.map Char.toLower

def sensitiveGlobMatches (path : SourcePath) : Bool :=
  globMatches (toAsciiLowercase pattern) (path.map toAsciiLowercase)

/-- A component has one of the names, in any case. -/
def hasComponent (names : List String) (path : SourcePath) : Bool :=
  path.any fun component => names.any fun name => toAsciiLowercase component = toAsciiLowercase name.toList

def hardExcluded : SourcePath → Bool := hasComponent [".git", ".ferrus"]

def isVendor : SourcePath → Bool := hasComponent ["vendor", "node_modules", "third_party"]

def isGenerated : SourcePath → Bool :=
  hasComponent ["target", "dist", "build", "out", "coverage", ".next", "generated"]

/-! ## Policies -/

/-- The settings of a source, with its sets of patterns and its rules as they are written or read. -/
structure SourceSettings (π ρ : Type) where
  includes : π
  rules : List ρ
  sensitive : π
  (includeUntracked includeGenerated includeVendor : Bool)
deriving DecidableEq

/-- A rule is negated or not, and has a pattern. -/
abbrev SourcePolicy := SourceSettings (List (List Char)) (Bool × List Char)

namespace SourcePolicy

variable (policy : SourcePolicy)

def hasNegatedRules : Bool := policy.rules.any (·.1)

variable (path : SourcePath)

/-- What excludes files and directories alike. -/
def pathExclusion : Option String :=
  if hardExcluded path then some "runtime_path_excluded"
  else if policy.sensitive.any (sensitiveGlobMatches · path) then some "sensitive_path_excluded"
  else if !policy.includeVendor && isVendor path then some "vendor_path_excluded"
  else if !policy.includeGenerated && isGenerated path then some "generated_path_excluded"
  else none

/-- The last rule that matches decides. -/
def ruleExcludes : Bool :=
  policy.rules.foldl (fun excluded rule => if globMatches rule.2 path then !rule.1 else excluded) false

def exclusionForFile : Option String :=
  (policy.pathExclusion path).or
    (if !policy.includes.any (globMatches · path) then some "path_not_included"
      else if policy.ruleExcludes path then some "source_rule_excluded" else none)

def exclusionForDirectory : Option String :=
  (policy.pathExclusion path).or
    (if !policy.includes.any (globMayMatchDescendant · path) then some "path_not_included"
      else if policy.hasNegatedRules then none
      else (policy.rules.reverse.find? (fun rule => globMatches rule.2 path)).bind fun rule =>
        if rule.1 then none else some "source_rule_excluded")

def maxDirectoryDepth : Nat := 256

/-- `collect_directory` on the way to one file: the entries below `directory` that lead to it. -/
def collects (directory : SourcePath) : SourcePath → Bool
  | [] => false
  | [_] => true
  | name :: rest =>
      (policy.exclusionForDirectory (directory ++ [name])).isNone && (directory ++ [name]).length < maxDirectoryDepth &&
        collects (directory ++ [name]) rest

/-- A walk of the file system admits the file. -/
def walkAdmits : Bool := policy.collects [] path && (policy.exclusionForFile path).isNone

/-- A listing of Git admits the file. -/
def gitAdmits : Bool := (policy.exclusionForFile path).isNone

end SourcePolicy

/-! ## Configurations -/

abbrev SourceConfig := SourceSettings (List (List Char)) (List Char)

inductive RepositoryGraphConfigError where
  | emptyPattern
  | nonRelativePattern (pattern : List Char)
  | negatedSensitivePattern (pattern : List Char)
  | negatedIncludePattern (pattern : List Char)
deriving DecidableEq, Repr

open RepositoryGraphConfigError

/-- The second byte is a colon. -/
def hasDrive : List Char → Bool
  | first :: ':' :: _ => first.utf8Size = 1
  | _ => false

def canonicalPatternBody : Except RepositoryGraphConfigError (List Char) :=
  let slashed := (trim pattern).map fun char => if char = '\\' then '/' else char
  let body := ((dropHead? "./".toList slashed).getD slashed).rdropWhile (· = '/')
  if body.isEmpty || body.head? = some '/' || hasDrive body ||
      (body.splitOn '/').any (fun component => ["", ".", ".."].any (component = ·.toList)) then
    .error (nonRelativePattern pattern)
  else .ok body

def normalizePattern : Except RepositoryGraphConfigError (List Char) :=
  match trim pattern with
  | [] => .error emptyPattern
  | '!' :: body => (canonicalPatternBody body).map ('!' :: ·)
  | body => canonicalPatternBody body

/-- A pattern that may not be negated. -/
def normalizePlain (negated : List Char → RepositoryGraphConfigError) (pattern : List Char) :
    Except RepositoryGraphConfigError (List Char) := do
  let normalized ← normalizePattern pattern
  if normalized.head? = some '!' then .error (negated pattern) else .ok normalized

/-- A rule as the policy reads it. -/
def parseRule : Except RepositoryGraphConfigError (Bool × List Char) :=
  match trim pattern with
  | '!' :: body => (canonicalPatternBody body).map (true, ·)
  | _ => (canonicalPatternBody pattern).map (false, ·)

variable (config : SourceConfig)

def SourcePolicy.new : Except RepositoryGraphConfigError SourcePolicy := do
  let includes ← config.includes.mapM canonicalPatternBody
  let rules ← config.rules.mapM parseRule
  let sensitive ← config.sensitive.mapM canonicalPatternBody
  .ok { config with includes, rules, sensitive }

/-- What the digest of a source policy tells about the source. -/
abbrev EffectiveSourceConfig := SourceSettings (Finset (List Char)) (List Char)

def effectiveSourceConfig : Except RepositoryGraphConfigError EffectiveSourceConfig := do
  let includes ← config.includes.mapM (normalizePlain negatedIncludePattern)
  let rules ← config.rules.mapM normalizePattern
  let sensitive ← config.sensitive.mapM (normalizePlain negatedSensitivePattern)
  .ok { config with includes := includes.toFinset, rules, sensitive := (sensitive.map toAsciiLowercase).toFinset }

/-- The digest and the policy of `SourceDiscoveryContext::from_config`. -/
def fromConfig : Except RepositoryGraphConfigError (EffectiveSourceConfig × SourcePolicy) := do
  let digest ← effectiveSourceConfig config
  let policy ← SourcePolicy.new config
  .ok (digest, policy)

end Ferrus.RepositoryGraph

import Ferrus.Model.RepositoryGraph.SourcePolicy
import Ferrus.ToMathlib.ExceptBind
import Mathlib.Data.List.Infix

/-! # What source policies select

A directory is left out only for a reason that its files share, as long as the patterns of the policy reach
below the directories they match. The digest of a configuration tells its rules apart unless one names a path
that starts like a negation.
-/

namespace Ferrus.RepositoryGraph

open List SourcePolicy Bool

/-! ### Patterns below a directory -/

section Search

variable {α β : Type} {spans : α → Bool} {accepts : α → β → Bool}

/-- A pattern that matches below a directory reaches the directory with items left. -/
private theorem searchReaches_of_below {pattern : List α} {directory below : List β} (nonempty : below ≠ [])
    (found : searchMatches spans accepts pattern (directory ++ below) = true) :
    searchReaches spans accepts pattern directory = true := by
  induction pattern generalizing directory with
  | nil => simp_all [searchMatches]
  | cons item pattern ih =>
    cases directory with
    | nil => rfl
    | cons first directory =>
      rw [searchReaches, or_eq_true, and_eq_true]
      unfold searchMatches at found
      split_ifs at found with spanned
      · exact .inl spanned
      · obtain ⟨accepted, rest⟩ := and_eq_true_iff.mp found
        exact .inr ⟨accepted, ih rest⟩

/-- A pattern whose last item spans matches whatever is below a match. -/
private theorem searchMatches_below {pattern : List α} (last : pattern.getLast?.any spans = true) {directory : List β}
    (below : List β) (found : searchMatches spans accepts pattern directory = true) :
    searchMatches spans accepts pattern (directory ++ below) = true := by
  induction pattern generalizing directory with
  | nil => cases last
  | cons item pattern ih =>
    unfold searchMatches at found ⊢
    split_ifs at found ⊢ with spanned
    · obtain ⟨rest, isRest, matched⟩ := any_eq_true.mp found
      refine any_eq_true.mpr ?_
      cases pattern with
      | nil => exact ⟨[], (mem_tails _ _).mpr (nil_suffix ..), rfl⟩
      | cons other pattern =>
        obtain ⟨before, rfl⟩ := (mem_tails _ _).mp isRest
        exact ⟨rest ++ below, (mem_tails _ _).mpr ⟨before, by rw [append_assoc]⟩, ih last matched⟩
    · cases pattern with
      | nil => exact absurd last spanned
      | cons other pattern =>
        cases directory with
        | nil => cases found
        | cons first directory =>
          obtain ⟨accepted, rest⟩ := and_eq_true_iff.mp found
          exact and_eq_true_iff.mpr ⟨accepted, ih last rest⟩

end Search

/-- The pattern has one component, or its last component matches any number of them. -/
def reachesBelow (pattern : List Char) : Bool :=
  (pattern.splitOn '/').length = 1 || (pattern.splitOn '/').getLast?.any (· = "**".toList)

private theorem globMayMatchDescendant_of_below {pattern : List Char} {directory below : SourcePath}
    (nonempty : below ≠ [])
    (found : globMatches pattern (directory ++ below) = true) : globMayMatchDescendant pattern directory = true := by
  unfold globMatches at found
  unfold globMayMatchDescendant
  split
  · rfl
  · next several =>
    split at found
    · next component single => exact absurd single (several component)
    · exact searchReaches_of_below nonempty found

private theorem globMatches_below {pattern : List Char} (reaches : reachesBelow pattern = true) {directory : SourcePath}
    (below : SourcePath) (found : globMatches pattern directory = true) :
    globMatches pattern (directory ++ below) = true := by
  unfold globMatches at found ⊢
  split at found
  · rw [any_append, found, Bool.true_or]
  · next several =>
    have last : (pattern.splitOn '/').getLast?.any (· = "**".toList) = true := by
      refine (or_eq_true_iff.mp reaches).resolve_left fun single => ?_
      obtain ⟨component, isSingle⟩ := length_eq_one_iff.mp (of_decide_eq_true single)
      exact several component isSingle
    exact searchMatches_below last below found

private theorem hasComponent_below {names : List String} {directory : SourcePath} (below : SourcePath)
    (found : hasComponent names directory = true) : hasComponent names (directory ++ below) = true := by
  rw [hasComponent, any_append]
  exact or_eq_true_iff.mpr (.inl found)

namespace SourcePolicy

variable {policy : SourcePolicy}

/-- Each sensitive pattern that matches the directory, and each rule if none is negated, reaches below it. -/
def reachesBelow (policy : SourcePolicy) (directory : SourcePath) : Bool :=
  policy.sensitive.all (fun pattern =>
      !sensitiveGlobMatches pattern directory || RepositoryGraph.reachesBelow (toAsciiLowercase pattern)) &&
    (policy.hasNegatedRules ||
      policy.rules.all fun rule => !globMatches rule.2 directory || RepositoryGraph.reachesBelow rule.2)

/-- So it is for the directories on the way to a file, none of which lies too deep. -/
def reachesAlong (policy : SourcePolicy) (path : SourcePath) : Bool :=
  path.inits.all fun directory =>
    directory = [] || directory = path || (policy.reachesBelow directory && directory.length < maxDirectoryDepth)

theorem isSome_pathExclusion (policy : SourcePolicy) (path : SourcePath) :
    (policy.pathExclusion path).isSome = (hardExcluded path || policy.sensitive.any (sensitiveGlobMatches · path) ||
      (!policy.includeVendor && isVendor path) || (!policy.includeGenerated && isGenerated path)) := by
  unfold pathExclusion
  split_ifs <;> simp_all

theorem pathExclusion_below {directory : SourcePath} (reaches : policy.reachesBelow directory = true)
    (below : SourcePath) (excluded : (policy.pathExclusion directory).isSome = true) :
    (policy.pathExclusion (directory ++ below)).isSome = true := by
  have sensitive := all_eq_true.mp (and_eq_true_iff.mp reaches).1
  simp only [isSome_pathExclusion, or_eq_true, and_eq_true] at excluded ⊢
  obtain ((hard | matched) | vendor) | generated := excluded
  · exact .inl (.inl (.inl (hasComponent_below below hard)))
  · obtain ⟨pattern, member, found⟩ := any_eq_true.mp matched
    refine .inl (.inl (.inr (any_eq_true.mpr ⟨pattern, member, ?_⟩)))
    rw [sensitiveGlobMatches, map_append]
    have reached := sensitive pattern member
    rw [found] at reached
    exact globMatches_below reached _ found
  · exact .inl (.inr ⟨vendor.1, hasComponent_below below vendor.2⟩)
  · exact .inr ⟨generated.1, hasComponent_below below generated.2⟩

/-- The last rule that matches a path. -/
def lastMatch? (policy : SourcePolicy) (path : SourcePath) : Option (Bool × List Char) :=
  policy.rules.reverse.find? fun rule => globMatches rule.2 path

theorem ruleExcludes_eq (policy : SourcePolicy) (path : SourcePath) :
    policy.ruleExcludes path = (policy.lastMatch? path).any (!·.1) := by
  unfold ruleExcludes lastMatch?
  induction policy.rules using reverseRecOn with
  | nil => rfl
  | append_singleton rules rule ih =>
    rw [foldl_append, reverse_append, ih]
    cases matched : globMatches rule.2 path <;> simp [matched]

theorem plain_of_mem (unnegated : policy.hasNegatedRules = false) {rule : Bool × List Char}
    (member : rule ∈ policy.rules) : rule.1 = false := by
  simpa using any_eq_false.mp unnegated rule member

/-- Without negated rules one match excludes. -/
theorem ruleExcludes_of_match (unnegated : policy.hasNegatedRules = false) {path : SourcePath} {rule : Bool × List Char}
    (member : rule ∈ policy.rules) (found : globMatches rule.2 path = true) : policy.ruleExcludes path = true := by
  rw [ruleExcludes_eq]
  cases latest : policy.lastMatch? path with
  | none => exact absurd found (find?_eq_none.mp latest rule (mem_reverse.mpr member))
  | some last => simp [plain_of_mem unnegated (mem_reverse.mp (mem_of_find?_eq_some latest))]

theorem exclusionForFile_below {directory below : SourcePath} (reaches : policy.reachesBelow directory = true)
    (nonempty : below ≠ []) (excluded : (policy.exclusionForDirectory directory).isSome = true) :
    (policy.exclusionForFile (directory ++ below)).isSome = true := by
  rw [exclusionForDirectory, Option.isSome_or, or_eq_true] at excluded
  rw [exclusionForFile, Option.isSome_or, or_eq_true]
  refine excluded.imp (pathExclusion_below reaches below) fun other => ?_
  split_ifs at other with outside negated
  · have unmatched : (!policy.includes.any (globMatches · (directory ++ below))) = true := by
      rw [not_eq_true', any_eq_false] at outside ⊢
      exact fun pattern member found => outside pattern member (globMayMatchDescendant_of_below nonempty found)
    rw [if_pos unmatched]
    rfl
  · cases other
  · obtain ⟨_, isCode⟩ := Option.isSome_iff_exists.mp other
    obtain ⟨rule, latest, -⟩ := Option.bind_eq_some_iff.mp isCode
    have member := mem_reverse.mp (mem_of_find?_eq_some latest)
    have unnegated := eq_false_iff.mpr negated
    have matched : globMatches rule.2 directory = true := by simpa using find?_some latest
    have rules := (or_eq_true_iff.mp (and_eq_true_iff.mp reaches).2).resolve_left negated
    have reached := all_eq_true.mp rules rule member
    rw [matched] at reached
    have below := globMatches_below reached below matched
    rw [ruleExcludes_of_match unnegated member below, if_pos rfl]
    split_ifs <;> rfl

/-- What matches a directory without reaching below it excludes it. -/
theorem reachesBelow_of_admitted {directory : SourcePath} (admitted : policy.exclusionForDirectory directory = none) :
    policy.reachesBelow directory = true := by
  obtain ⟨byPath, byRule⟩ := Option.or_eq_none_iff.mp admitted
  have insensitive : policy.sensitive.any (sensitiveGlobMatches · directory) = false := by
    have none := policy.isSome_pathExclusion directory
    rw [byPath] at none
    simp only [Option.isSome_none, eq_comm (a := false), or_eq_false_iff] at none
    exact none.1.1.2
  rw [reachesBelow, and_eq_true, or_eq_true]
  refine ⟨all_eq_true.mpr fun pattern member => ?_, ?_⟩
  · rw [eq_false_iff.mpr (any_eq_false.mp insensitive pattern member)]
    rfl
  · split_ifs at byRule with outside negated
    · exact .inl negated
    · refine .inr (all_eq_true.mpr fun rule member => ?_)
      have unmatched : policy.rules.reverse.find? (fun rule => globMatches rule.2 directory) = none := by
        by_contra latest
        obtain ⟨last, isLast⟩ := Option.ne_none_iff_exists'.mp latest
        have plain := plain_of_mem (eq_false_iff.mpr negated) (mem_reverse.mp (mem_of_find?_eq_some isLast))
        simp [isLast, plain] at byRule
      have different := find?_eq_none.mp unmatched rule (mem_reverse.mpr member)
      rw [eq_false_iff.mpr different]
      rfl

theorem collects_iff {directory rest : SourcePath} (nonempty : rest ≠ []) : policy.collects directory rest = true ↔
    ∀ before after, rest = before ++ after → before ≠ [] → after ≠ [] →
      policy.exclusionForDirectory (directory ++ before) = none ∧ (directory ++ before).length < maxDirectoryDepth := by
  fun_induction policy.collects directory rest with
  | case1 => exact absurd rfl nonempty
  | case2 directory name =>
    refine ⟨fun _ before after split beforeNe afterNe => ?_, fun _ => rfl⟩
    have size := congrArg length split
    have := length_pos_iff.mpr beforeNe
    have := length_pos_iff.mpr afterNe
    simp only [length_singleton, length_append] at size
    omega
  | case3 directory name rest several ih =>
    rw [and_eq_true, and_eq_true, Option.isNone_iff_eq_none, decide_eq_true_eq, ih several]
    constructor
    · rintro ⟨here, later⟩ (_ | ⟨first, before⟩) after split beforeNe afterNe
      · exact absurd rfl beforeNe
      · cases split
        cases before with
        | nil => exact here
        | cons second before =>
          rw [append_cons]
          exact later (second :: before) after rfl (cons_ne_nil _ _) afterNe
    · intro each
      refine ⟨each [name] rest rfl (cons_ne_nil _ _) several, fun before after split _ afterNe => ?_⟩
      rw [append_assoc]
      exact each (name :: before) after (congrArg (name :: ·) split) (cons_ne_nil _ _) afterNe

theorem reachesAlong_iff {path : SourcePath} : policy.reachesAlong path = true ↔
    ∀ before after, path = before ++ after → before ≠ [] → after ≠ [] →
      policy.reachesBelow before = true ∧ before.length < maxDirectoryDepth := by
  simp only [reachesAlong, all_eq_true, mem_inits, or_eq_true, and_eq_true, decide_eq_true_eq]
  constructor
  · rintro each before after rfl beforeNe afterNe
    refine (each before (prefix_append ..)).resolve_left ?_
    rintro (isNil | isPath)
    · exact beforeNe isNil
    · exact afterNe (self_eq_append_right.mp isPath)
  · rintro each before ⟨after, rfl⟩
    by_cases beforeNe : before = []
    · exact .inl (.inl beforeNe)
    · by_cases afterNe : after = []
      · exact .inl (.inr (by rw [afterNe, append_nil]))
      · exact .inr (each before after rfl beforeNe afterNe)

/-- A walk admits what a listing admits, unless a directory on the way is left out for itself. -/
theorem walkAdmits_eq_iff {path : SourcePath} (nonempty : path ≠ []) :
    policy.walkAdmits path = policy.gitAdmits path ↔
      (policy.gitAdmits path = true → policy.reachesAlong path = true) := by
  have collected (admitted : policy.gitAdmits path = true) :
      policy.collects [] path = true ↔ policy.reachesAlong path = true := by
    rw [collects_iff nonempty, reachesAlong_iff]
    refine forall₂_congr fun before after => forall₃_congr fun split _ below => and_congr_left fun _ => ?_
    refine ⟨reachesBelow_of_admitted, fun reaches => ?_⟩
    by_contra excluded
    rw [split, gitAdmits, Option.isNone_iff_eq_none] at admitted
    have outside := exclusionForFile_below reaches below (Option.isSome_iff_ne_none.mpr excluded)
    rw [admitted] at outside
    cases outside
  change (policy.collects [] path && policy.gitAdmits path) = policy.gitAdmits path ↔ _
  cases admitted : policy.gitAdmits path with
  | false => simp
  | true => simpa using collected admitted

/-- The policy with a negated rule between its rules. -/
def withNegated (policy : SourcePolicy) (before after : List (Bool × List Char)) (pattern : List Char) : SourcePolicy :=
  { policy with rules := before ++ (true, pattern) :: after }

/-- A policy leaves a directory out only with all its files, a walk and a listing admit the same files, and a negated
rule that matches no file changes nothing: all this exactly where the patterns that match a directory, above a file that
is admitted, reach below it. -/
theorem pruning_is_sound (policy : SourcePolicy) :
    (∀ directory below, below ≠ [] →
      (((policy.exclusionForDirectory directory).isSome = true →
          (policy.exclusionForFile (directory ++ below)).isSome = true) ↔
        (policy.gitAdmits (directory ++ below) = true → policy.reachesBelow directory = true))) ∧
    ∀ path : SourcePath, path ≠ [] →
      ((policy.walkAdmits path = policy.gitAdmits path ∧
        ∀ before after pattern, policy.rules = before ++ after → globMatches pattern path = false →
          (policy.withNegated before after pattern).walkAdmits path = policy.walkAdmits path) ↔
        (policy.gitAdmits path = true → policy.reachesAlong path = true)) := by
  constructor
  · intro directory below nonempty
    rw [gitAdmits, Option.isNone_iff_eq_none]
    constructor
    · intro sound admitted
      refine reachesBelow_of_admitted (Option.not_isSome_iff_eq_none.mp fun excluded => ?_)
      rw [admitted] at sound
      cases sound excluded
    · intro reaches excluded
      by_contra admitted
      have isNone := Option.not_isSome_iff_eq_none.mp admitted
      exact admitted (exclusionForFile_below (reaches isNone) nonempty excluded)
  · intro path nonempty
    rw [walkAdmits_eq_iff nonempty]
    refine ⟨And.left, fun reaches => ⟨reaches, fun before after pattern isSplit unmatched => ?_⟩⟩
    have same : (policy.withNegated before after pattern).gitAdmits path = policy.gitAdmits path := by
      have sameRules : (policy.withNegated before after pattern).ruleExcludes path = policy.ruleExcludes path := by
        simp [ruleExcludes, withNegated, isSplit, unmatched]
      rw [gitAdmits, gitAdmits, exclusionForFile, exclusionForFile, sameRules]
      rfl
    rw [(walkAdmits_eq_iff nonempty).mpr reaches, ← same]
    refine (walkAdmits_eq_iff nonempty).mpr fun admitted => ?_
    rw [same] at admitted
    -- with a negated rule only the sensitive patterns are left
    refine reachesAlong_iff.mpr fun start rest split startNe restNe => ?_
    obtain ⟨reached, shallow⟩ := reachesAlong_iff.mp (reaches admitted) start rest split startNe restNe
    refine ⟨and_eq_true_iff.mpr ⟨(and_eq_true_iff.mp reached).1, ?_⟩, shallow⟩
    simp [withNegated, hasNegatedRules]

/-- A policy with one rule that excludes. -/
private def rulePolicy (rule : String) : SourcePolicy := ⟨["**".toList], [(false, rule.toList)], [], true, true, true⟩

private def nestedPath : SourcePath := ["docs".toList, "a".toList, "b".toList]

/-- A rule for everything below `docs`, and one for its entries that is not looked at for directories because another
one is negated. -/
theorem pruning_is_sound_spanning : ((rulePolicy "docs/**").exclusionForFile nestedPath).isSome = true ∧
      ((rulePolicy "docs/*").withNegated (rulePolicy "docs/*").rules [] "x".toList).walkAdmits nestedPath =
        ((rulePolicy "docs/*").withNegated (rulePolicy "docs/*").rules [] "x".toList).gitAdmits nestedPath :=
  ⟨((pruning_is_sound (rulePolicy "docs/**")).1 ["docs".toList, "a".toList] ["b".toList] nofun).mpr (by decide)
    (by decide), (((pruning_is_sound _).2 nestedPath nofun).mpr (by decide)).1⟩

/-- The rule excludes the entries of `docs`, so a walk leaves its directories out, with files that the rule does not
match. A negated rule brings them back. -/
theorem pruning_is_unsound : ((rulePolicy "docs/*").exclusionForDirectory ["docs".toList, "a".toList]).isSome = true ∧
      (rulePolicy "docs/*").gitAdmits nestedPath = true ∧ (rulePolicy "docs/*").walkAdmits nestedPath = false ∧
      ((rulePolicy "docs/*").withNegated (rulePolicy "docs/*").rules [] "x".toList).walkAdmits nestedPath = true := by
  decide

end SourcePolicy

/-! ### Digests -/

section Digests

open Text

/-- A rule as the digest spells it. -/
def readRule : List Char → Bool × List Char
  | '!' :: body => (true, body)
  | body => (false, body)

/-- The rule is spelled like a negation only if it is one. -/
def plainRule (pattern : List Char) : Bool :=
  match parseRule pattern with
  | .ok (false, body) => body.head? ≠ some '!'
  | _ => true

private theorem normalizePattern_cases {pattern normalized : List Char}
    (normal : normalizePattern pattern = .ok normalized) :
    (∃ body, parseRule pattern = .ok (true, body) ∧ normalized = '!' :: body) ∨
      parseRule pattern = .ok (false, normalized) ∧ canonicalPatternBody pattern = .ok normalized := by
  unfold normalizePattern at normal
  unfold parseRule
  split at normal
  · cases normal
  · next body isBody =>
    obtain ⟨canonical, isCanonical, rfl⟩ := Except.map_eq_ok_iff.mp normal
    rw [isBody]
    exact .inl ⟨canonical, Except.map_eq_ok_iff.mpr ⟨canonical, isCanonical, rfl⟩, rfl⟩
  · next plain =>
    have canonical : canonicalPatternBody pattern = .ok normalized := by
      unfold canonicalPatternBody at normal ⊢
      rw [trim_trim] at normal
      dsimp only at normal ⊢
      split_ifs at normal ⊢
      exact normal
    split
    · next body isBody => exact absurd isBody (plain body)
    · exact .inr ⟨Except.map_eq_ok_iff.mpr ⟨normalized, canonical, rfl⟩, canonical⟩

private theorem parseRule_of_plain {pattern normalized : List Char} (plain : plainRule pattern = true)
    (normal : normalizePattern pattern = .ok normalized) : parseRule pattern = .ok (readRule normalized) := by
  obtain ⟨body, parsed, rfl⟩ | ⟨parsed, -⟩ := normalizePattern_cases normal
  · exact parsed
  · rw [plainRule, parsed] at plain
    rw [parsed]
    unfold readRule
    split
    · simp at plain
    · rfl

private theorem canonical_of_plain {negated : List Char → RepositoryGraphConfigError} {pattern normalized : List Char}
    (normal : normalizePlain negated pattern = .ok normalized) : canonicalPatternBody pattern = .ok normalized := by
  obtain ⟨_, isNormal, checked⟩ := Except.bind_eq_ok_iff.mp normal
  split_ifs at checked with marked
  cases checked
  obtain ⟨body, -, rfl⟩ | ⟨-, canonical⟩ := normalizePattern_cases isNormal
  · exact absurd rfl marked
  · exact canonical

/-- Two readings that agree on each pattern agree on the list. -/
private theorem mapM_eq_ok_map {α β γ ε : Type} {f : α → Except ε β} {g : α → Except ε γ} {items : List α}
    {values : List β} (change : β → γ)
    (each : ∀ item ∈ items, ∀ value, f item = .ok value → g item = .ok (change value))
    (mapped : items.mapM f = .ok values) : items.mapM g = .ok (values.map change) := by
  induction items generalizing values with
  | nil =>
    cases mapped
    rfl
  | cons item rest ih =>
    simp only [mapM_cons, Except.bind_eq_ok_iff] at mapped ⊢
    obtain ⟨value, isValue, others, areOthers, ⟨⟩⟩ := mapped
    have rest := ih (fun item member => each item (mem_cons_of_mem _ member)) areOthers
    exact ⟨change value, each item mem_cons_self value isValue, others.map change, rest, rfl⟩

/-- The digest of a configuration determines its policy up to the order of its sets, and its rules if they are plain. -/
private theorem fromConfig_policy {config : SourceConfig} {digest : EffectiveSourceConfig} {policy : SourcePolicy}
    (accepted : fromConfig config = .ok (digest, policy)) :
    policy.includes.toFinset = digest.includes ∧ (policy.sensitive.map toAsciiLowercase).toFinset = digest.sensitive ∧
      policy.includeGenerated = digest.includeGenerated ∧ policy.includeVendor = digest.includeVendor ∧
      (config.rules.all plainRule = true → policy.rules = digest.rules.map readRule) := by
  simp only [fromConfig, effectiveSourceConfig, new, Except.bind_eq_ok_iff] at accepted
  obtain ⟨_, ⟨includes, areIncludes, rules, areRules, sensitive, areSensitive, ⟨⟩⟩, _,
    ⟨_, sameIncludes, _, sameRules, _, sameSensitive, ⟨⟩⟩, ⟨⟩⟩ := accepted
  have readIncludes := mapM_eq_ok_map id (fun _ _ _ normal => canonical_of_plain normal) areIncludes
  have readSensitive := mapM_eq_ok_map id (fun _ _ _ normal => canonical_of_plain normal) areSensitive
  rw [map_id] at readIncludes readSensitive
  cases readIncludes.symm.trans sameIncludes
  cases readSensitive.symm.trans sameSensitive
  refine ⟨rfl, rfl, rfl, rfl, fun plain => ?_⟩
  have readRules := mapM_eq_ok_map readRule (fun pattern member _ normal =>
    parseRule_of_plain (all_eq_true.mp plain pattern member) normal) areRules
  exact Except.ok.inj (sameRules.symm.trans readRules)

private theorem any_of_toFinset {first second : List (List Char)} (same : first.toFinset = second.toFinset)
    (test : List Char → Bool) : first.any test = second.any test := by
  refine eq_iff_iff.mpr ?_
  simp only [any_eq_true, ← mem_toFinset, same]

namespace SourcePolicy

/-- No rule matches the file, or the last one that does is negated. -/
def sparesFile (policy : SourcePolicy) (path : SourcePath) : Bool := (policy.lastMatch? path).all (·.1)

/-- No rule matches the directory, or the rules are not looked at because one is negated. -/
def sparesDirectory (policy : SourcePolicy) (path : SourcePath) : Bool :=
  policy.hasNegatedRules || (policy.lastMatch? path).isNone

/-- The rules of two policies agree on a path that nothing else leaves out. -/
def AgreesOn (policy other : SourcePolicy) (path : SourcePath) : Prop :=
  policy.pathExclusion path = none →
    (policy.includes.any (globMatches · path) = true → policy.sparesFile path = other.sparesFile path) ∧
    (policy.includes.any (globMayMatchDescendant · path) = true →
      policy.sparesDirectory path = other.sparesDirectory path)

instance (policy other : SourcePolicy) : DecidablePred (policy.AgreesOn other) :=
  fun _ => inferInstanceAs (Decidable (_ → _ ∧ _))

theorem exclusionForFile_eq (policy : SourcePolicy) (path : SourcePath) : policy.exclusionForFile path =
    (policy.pathExclusion path).or (if !policy.includes.any (globMatches · path) then some "path_not_included"
      else if policy.sparesFile path then none else some "source_rule_excluded") := by
  rw [exclusionForFile, ruleExcludes_eq, sparesFile]
  cases policy.lastMatch? path with
  | none => rfl
  | some rule => cases negated : rule.1 <;> simp [negated]

theorem exclusionForDirectory_eq (policy : SourcePolicy) (path : SourcePath) : policy.exclusionForDirectory path =
    (policy.pathExclusion path).or
      (if !policy.includes.any (globMayMatchDescendant · path) then some "path_not_included"
      else if policy.sparesDirectory path then none else some "source_rule_excluded") := by
  rw [exclusionForDirectory, sparesDirectory, ← lastMatch?]
  cases unnegated : policy.hasNegatedRules with
  | true => rfl
  | false =>
    cases latest : policy.lastMatch? path with
    | none => rfl
    | some rule => simp [plain_of_mem unnegated (mem_reverse.mp (mem_of_find?_eq_some latest))]

end SourcePolicy

private theorem or_ite_eq_iff {reason : Option String} {included spared other : Bool} {outside excluded : String} :
    (reason.or (if !included then some outside else if spared then none else some excluded) =
        reason.or (if !included then some outside else if other then none else some excluded)) ↔
      (reason = none → included = true → spared = other) := by
  cases reason <;> cases included <;> cases spared <;> cases other <;> simp

private def ruleConfig (rules : List String) : SourceConfig :=
  ⟨["**".toList], rules.map String.toList, [], true, true, true⟩

end Digests

end Ferrus.RepositoryGraph

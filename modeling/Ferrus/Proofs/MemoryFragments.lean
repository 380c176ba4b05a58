import Ferrus.Model.ProjectMemory.Index
import Ferrus.ToMathlib.MergedTable

/-! # What a run gathers

The facts of a source are those of one draft, which its fingerprint determines. A fragment in the cache is such a
draft with the time of the run that made it. So a run gathers the same facts whatever it takes from the cache, apart
from their times: the times differ from source to source, but every fact names its source, and facts of one source
have one time.
-/

namespace Ferrus.ProjectMemory

open MemoryExtractionContext List IndexRun MemoryFacts Except

/-! ## Drafts -/

variable {extractor : MemoryExtractor} {source : CanonicalSource} {content : MemorySourceContent}

section Drafts

variable (ids : Identities) (project : ProjectRef)

/-- The draft that the document under the fingerprint gives. -/
def documentDraft (source : CanonicalSource) : Option FragmentDraft :=
  match source.category, source.fingerprint with
  | .specificationStructure, .layout document => extractStructure ids project source.locator document
  | .approvedOutcome, .outcome document => extractOutcome ids project source.locator document
  | .archiveManifest, .archive document => (extractArchive ids project document).toOption
  | .runtimeProvenance, .runtime document => (extractRuntime ids project document).toOption
  | _, _ => none

/-- The draft that a run takes, if it is within the limits. -/
def sourceDraft (source : CanonicalSource) : Option FragmentDraft :=
  (documentDraft ids project source).filter (·.withinLimits)

/-- The identity of the extractor that a category has. -/
def categoryExtractor (version : String) (category : MemorySourceCategory) : MemoryExtractorIdentity :=
  ((extractorFor category).getD .specification).identity version

private theorem toOption_orFail {α : Type} (code : MemoryDiagnosticCode) (value : Option α) :
    (orFail code value).toOption = value := by
  cases value <;> rfl

/-- What is read under a fingerprint gives the draft of the fingerprint. -/
theorem toOption_extract (selected : extractorFor source.category = some extractor)
    (verified : content.fingerprint source.category = some source.fingerprint) :
    (extractor.extract ids project source content).toOption = documentDraft ids project source := by
  obtain ⟨category, locator, fingerprint⟩ := source
  cases category <;> cases selected <;> cases content
  case specificationStructure.refl.file text =>
    obtain _ | content := text
    · cases verified
    · cases verified
      exact toOption_orFail ..
  case approvedOutcome.refl.file text =>
    obtain _ | content := text
    · cases verified
    · obtain ⟨document, parsed, same⟩ := Option.map_eq_some_iff.mp verified
      cases same
      refine (toOption_orFail ..).trans ?_
      rw [parsed]
      rfl
  case archiveManifest.refl.file text => cases text <;> cases verified
  case runtimeProvenance.refl.file text => cases text <;> cases verified
  all_goals
    cases verified
    rfl

end Drafts

/-! ## Discovered sources -/

/-- A discovered source reads as its fingerprint says, or it is a file that is not UTF-8. -/
structure Discovered (material : SourceMaterial) : Prop where
  supported : (extractorFor material.descriptor.category).isSome = true
  verified : material.content.fingerprint material.descriptor.category = some material.descriptor.fingerprint ∨
    material.descriptor.category = .specificationStructure ∧
      material.descriptor.fingerprint = .layout (parseSpecMemory []).layout

variable {ids : Identities} {project : ProjectRef}

private theorem discovered_of_mem {policy : MemoryPolicy} {sources : ProjectSources} {material : SourceMaterial}
    (member : material ∈ discover project policy sources ids) : Discovered material := by
  rw [discover, mem_insertionSort, mem_append, mem_append, mem_flatMap] at member
  rcases member with (⟨spec, -, isSpec⟩ | isArchive) | isRuntime
  · rcases mem_append.mp isSpec with isLayout | isOutcome
    · split_ifs at isLayout
      · cases mem_singleton.mp isLayout
        refine ⟨rfl, ?_⟩
        cases spec.file with
        | none => exact .inr ⟨rfl, rfl⟩
        | some content => exact .inl rfl
      · cases isLayout
    · split at isOutcome
      · next outcome parsed =>
        split_ifs at isOutcome
        · cases mem_singleton.mp isOutcome
          refine ⟨rfl, .inl ?_⟩
          cases read : spec.file with
          | none =>
            rw [read] at parsed
            cases parsed
          | some content =>
            rw [read] at parsed
            exact Option.map_eq_some_iff.mpr ⟨outcome, parsed, rfl⟩
        · cases isOutcome
      · cases isOutcome
  · unfold archiveMaterials at isArchive
    split_ifs at isArchive
    · obtain ⟨archive, -, rfl⟩ := mem_map.mp isArchive
      exact ⟨rfl, .inl rfl⟩
    · cases isArchive
  · unfold runtimeMaterials at isRuntime
    split_ifs at isRuntime
    · obtain ⟨document, -, rfl⟩ := mem_map.mp isRuntime
      exact ⟨rfl, .inl rfl⟩
    · cases isRuntime

section Runs

variable {ids : Identities} {run : IndexRun} {source : AuthorizedSourceDescriptor}

section

variable (listed : source ∈ run.manifest ids)

include listed

/-- The material that a read of a listed source finds. -/
private theorem find?_materials :
    ∃ material ∈ run.materials ids, material.descriptor = source ∧
      (run.materials ids).find? (·.descriptor = source) = some material := by
  obtain ⟨listedMaterial, isListed, rfl⟩ := mem_map.mp listed
  have isFound : ((run.materials ids).find? (·.descriptor = listedMaterial.descriptor)).isSome = true :=
    find?_isSome.mpr ⟨listedMaterial, isListed, decide_eq_true rfl⟩
  obtain ⟨material, found⟩ := Option.isSome_iff_exists.mp isFound
  have same := find?_some found
  exact ⟨material, mem_of_find?_eq_some found, by simpa using same, found⟩

private theorem supported_of_listed : ∃ extractor, extractorFor source.category = some extractor := by
  obtain ⟨material, member, rfl, -⟩ := find?_materials listed
  exact Option.isSome_iff_exists.mp (discovered_of_mem member).supported

/-- A listed source that cannot be read has no draft, so it is never in the cache. -/
private theorem documentDraft_of_unreadable (unreadable : readVerified (run.materials ids) source = none)
    (project : ProjectRef) :
    documentDraft ids project source.toCanonicalSource = none := by
  obtain ⟨material, member, rfl, found⟩ := find?_materials listed
  rcases (discovered_of_mem member).verified with verified | ⟨isLayout, unread⟩
  · have reads : readVerified (run.materials ids) material.descriptor = some material.content := by
      unfold readVerified
      rw [found]
      exact if_pos verified
    rw [reads] at unreadable
    cases unreadable
  · obtain ⟨⟨⟨category, locator, fingerprint⟩, _⟩, _⟩ := material
    cases isLayout
    cases unread
    -- there is no draft without a title
    rfl

end

theorem fingerprint_of_readVerified {materials : List SourceMaterial}
    (reads : readVerified materials source = some content) :
    content.fingerprint source.category = some source.fingerprint := by
  obtain ⟨material, found, reads⟩ := Option.bind_eq_some_iff.mp reads
  split_ifs at reads with verified
  cases reads
  exact verified

end Runs

/-! ## The cache -/

/-- Every cached fragment is the draft of its source, as some run has completed it. -/
def CacheSound (ids : Identities) (cache : MemoryFragmentCacheKey → Option MemoryFragment) : Prop :=
  ∀ key fragment, cache key = some fragment → ∃ draft context, sourceDraft ids key.project key.source = some draft ∧
    fragment = MemoryExtractionContext.fragment context key.source key.extractor draft

variable {times : CanonicalSource → Nat}

section Gathering

variable (ids : Identities) (run : IndexRun)

/-- The facts of a source as a run at `time` completes them. -/
def completedFragment (time : Nat) (source : CanonicalSource) (draft : FragmentDraft) : MemoryFragment :=
  MemoryExtractionContext.fragment ⟨run.revision ids, time⟩ source (categoryExtractor run.version source.category) draft

/-- One source, where `times` says which time its facts get. -/
def factsStep (times : CanonicalSource → Nat) (facts : MemoryFacts) (source : AuthorizedSourceDescriptor) :
    Except MemoryIndexError MemoryFacts :=
  match readVerified (run.materials ids) source with
  | none => .error .source
  | some _ =>
      match sourceDraft ids run.project source.toCanonicalSource with
      | none => .ok facts
      | some draft => mergeFragment facts
          (completedFragment ids run (times source.toCanonicalSource) source.toCanonicalSource draft)

/-- A cached fragment has the draft of its source and some time; what is extracted has the time of the run. -/
def HasTime (sidecar : MemorySidecar) (source : CanonicalSource) (time : Nat) : Prop :=
  ∀ extractor, extractorFor source.category = some extractor →
    match run.cachedFragment sidecar extractor source with
    | some fragment => ∃ draft, sourceDraft ids run.project source = some draft ∧
        rebaseFragment (run.revision ids) fragment = completedFragment ids run time source draft
    | none => time = run.indexedAt

variable {ids run} {sidecar : MemorySidecar} {source : AuthorizedSourceDescriptor}

private theorem categoryExtractor_of_extractorFor {category : MemorySourceCategory}
    (selected : extractorFor category = some extractor) (version : String) :
    categoryExtractor version category = extractor.identity version := by
  rw [categoryExtractor, selected]
  rfl

private theorem exists_time (sound : CacheSound ids sidecar.cache) (source : CanonicalSource) :
    ∃ time, HasTime ids run sidecar source time := by
  cases selected : extractorFor source.category with
  | none =>
    refine ⟨0, fun extractor found => ?_⟩
    rw [selected] at found
    cases found
  | some extractor =>
    cases cached : run.cachedFragment sidecar extractor source with
    | none =>
      refine ⟨run.indexedAt, fun other found => ?_⟩
      cases selected.symm.trans found
      rw [cached]
    | some fragment =>
      have stored : sidecar.cache (run.cacheKey extractor source) = some fragment := by
        unfold cachedFragment at cached
        split_ifs at cached
        exact cached
      obtain ⟨draft, context, isDraft, rfl⟩ := sound _ _ stored
      refine ⟨context.indexedAt, fun other found => ?_⟩
      cases selected.symm.trans found
      rw [cached]
      refine ⟨draft, isDraft, ?_⟩
      simp [rebaseFragment, fragment, entity, relationship, provenance, completedFragment, cacheKey,
        categoryExtractor_of_extractorFor selected]

private theorem facts_bind {complete : MemoryFacts → Gathered} (merged : Except MemoryIndexError MemoryFacts)
    (same : ∀ facts, (complete facts).facts = facts) :
    (merged >>= fun facts => pure (complete facts)).map (·.facts) = merged := by
  cases merged with
  | error failure => rfl
  | ok facts => exact congrArg ok (same facts)

/-- What a fresh extraction merges. -/
private theorem extractSource_facts (selected : extractorFor source.category = some extractor)
    (isTime : times source.toCanonicalSource = run.indexedAt) (gathered : Gathered) :
    (run.extractSource ids extractor source gathered).map (·.facts) =
      factsStep ids run times gathered.facts source := by
  unfold extractSource factsStep
  cases reads : readVerified (run.materials ids) source with
  | none => rfl
  | some content =>
    have extracted := toOption_extract ids run.project selected (fingerprint_of_readVerified reads)
    simp only [sourceDraft, ← extracted]
    cases extractor.extract ids run.project source.toCanonicalSource content with
    | error code => rfl
    | ok draft =>
      simp only [Except.toOption, Option.filter_some]
      cases draft.withinLimits with
      | false => rfl
      | true =>
        simp only [completedFragment, categoryExtractor_of_extractorFor selected, isTime, ↓reduceIte]
        exact facts_bind _ fun _ => rfl

section

variable (hasTimes : ∀ source, HasTime ids run sidecar source (times source))

include hasTimes

/-- One source of the manifest. -/
private theorem gatherSource_facts
    (gathered : Gathered) (listed : source ∈ run.manifest ids) :
    (run.gatherSource ids sidecar gathered source).map (·.facts) = factsStep ids run times gathered.facts source := by
  obtain ⟨extractor, selected⟩ := supported_of_listed listed
  have hasTime := hasTimes source.toCanonicalSource extractor selected
  cases cached : run.cachedFragment sidecar extractor source.toCanonicalSource with
  | none =>
    rw [cached] at hasTime
    simp only [gatherSource, selected, cached]
    exact extractSource_facts selected hasTime gathered
  | some fragment =>
    rw [cached] at hasTime
    obtain ⟨draft, isDraft, completed⟩ := hasTime
    cases reads : readVerified (run.materials ids) source with
    | none =>
      rw [sourceDraft, documentDraft_of_unreadable listed reads] at isDraft
      cases isDraft
    | some content =>
      simp only [gatherSource, selected, cached, factsStep, reads, isDraft, completed]
      exact facts_bind _ fun _ => rfl

private theorem gather_facts :
    (run.gather ids sidecar).map (·.facts) = (run.manifest ids).foldlM (factsStep ids run times) .empty :=
  foldlM_simulates (·.facts) (fun _ => True) True.intro (fun _ _ _ _ _ _ => True.intro)
    (fun gathered _ listed _ => gatherSource_facts hasTimes gathered listed)

end

end Gathering

/-! ## Facts apart from their times -/

def MemoryFacts.timeless (facts : MemoryFacts) : MemoryFacts :=
  ⟨facts.entities.mapRows (·.timeless), facts.relationships.mapRows (·.timeless)⟩

def MemoryFragment.timeless (fragment : MemoryFragment) : MemoryFragment :=
  ⟨fragment.entities.map (·.timeless), fragment.relationships.map (·.timeless)⟩

/-- The time is the one that the source has. -/
def MemoryProvenance.DatedBy (times : CanonicalSource → Nat) (provenance : MemoryProvenance) : Prop :=
  provenance.timestamps = ⟨times provenance.source, times provenance.source⟩

section Dated

variable {times : CanonicalSource → Nat}

/-- A dated fact is known from the rest of it. -/
theorem MemoryEntity.eq_at {entity : MemoryEntity} (dated : entity.provenance.DatedBy times) :
    entity = entity.timeless.at ⟨times entity.timeless.provenance.source, times entity.timeless.provenance.source⟩ := by
  obtain ⟨_, _, _, _, ⟨source, _, _, _, _, timestamps⟩⟩ := entity
  have isTime : timestamps = ⟨times source, times source⟩ := dated
  subst isTime
  rfl

theorem MemoryEntity.eq_of_timeless {first second : MemoryEntity} (firstDated : first.provenance.DatedBy times)
    (secondDated : second.provenance.DatedBy times) (same : first.timeless = second.timeless) : first = second := by
  rw [MemoryEntity.eq_at firstDated, MemoryEntity.eq_at secondDated, same]

theorem MemoryRelationship.eq_at {relationship : MemoryRelationship} (dated : relationship.provenance.DatedBy times) :
    relationship = relationship.timeless.at
      ⟨times relationship.timeless.provenance.source, times relationship.timeless.provenance.source⟩ := by
  obtain ⟨_, _, _, _, _, _, ⟨source, _, _, _, _, timestamps⟩⟩ := relationship
  have isTime : timestamps = ⟨times source, times source⟩ := dated
  subst isTime
  rfl

theorem MemoryRelationship.eq_of_timeless {first second : MemoryRelationship}
    (firstDated : first.provenance.DatedBy times) (secondDated : second.provenance.DatedBy times)
    (same : first.timeless = second.timeless) : first = second := by
  rw [MemoryRelationship.eq_at firstDated, MemoryRelationship.eq_at secondDated, same]

end Dated

section Inserting

variable {α : Type} [DecidableEq α] {id : α → String} {Holds : α → Prop} {facts next : Table String α} {fact : α}

/-- Every row stands under its id and has the property. -/
def EveryRow (id : α → String) (Holds : α → Prop) (facts : Table String α) : Prop :=
  ∀ key row, facts.get? key = some row → id row = key ∧ Holds row

omit [DecidableEq α] in
theorem EveryRow.empty : EveryRow id Holds (Table.empty : Table String α) := by
  intro key row found
  cases found

private theorem insertFact_everyRow (every : EveryRow id Holds facts) (holds : Holds fact)
    (inserts : insertFact id facts fact = .ok next) : EveryRow id Holds next := by
  unfold insertFact at inserts
  split at inserts
  · split_ifs at inserts
    cases inserts
    exact every
  · cases inserts
    intro key row found
    rw [Table.get?_insertNew] at found
    split_ifs at found with isKey
    · next free =>
      rw [free] at found
      cases found
      exact ⟨isKey.symm, holds⟩
    · exact every key row found

variable {items : List α}

private theorem foldlM_insertFact_everyRow (every : EveryRow id Holds facts) (holds : ∀ item ∈ items, Holds item)
    (inserts : items.foldlM (insertFact id) facts = .ok next) : EveryRow id Holds next := by
  induction items generalizing facts with
  | nil =>
    cases inserts
    exact every
  | cons item rest ih =>
    obtain ⟨middle, first, later⟩ := bind_eq_ok_iff.mp inserts
    obtain ⟨isHeld, areHeld⟩ := forall_mem_cons.mp holds
    exact ih (insertFact_everyRow every isHeld first) areHeld later

variable (id) (change : α → α)

/-- A change that keeps ids and tells the facts apart does not change what is merged. -/
private theorem insertFact_mapRows (keepsId : ∀ fact, id (change fact) = id fact)
    (injective : ∀ first second, Holds first → Holds second → change first = change second → first = second)
    (every : EveryRow id Holds facts) (holds : Holds fact) :
    (insertFact id facts fact).map (·.mapRows change) = insertFact id (facts.mapRows change) (change fact) := by
  unfold insertFact
  rw [keepsId, Table.get?_mapRows]
  cases stored : facts.get? (id fact) with
  | none => exact congrArg ok (Table.mapRows_insertNew ..)
  | some existing =>
    have isHeld := (every _ _ stored).2
    by_cases same : existing = fact
    · subst same
      simp [Except.map]
    · have differ : change existing ≠ change fact := fun changed => same (injective _ _ isHeld holds changed)
      simp [same, differ, Except.map]

private theorem foldlM_insertFact_mapRows (keepsId : ∀ fact, id (change fact) = id fact)
    (injective : ∀ first second, Holds first → Holds second → change first = change second → first = second)
    (every : EveryRow id Holds facts) (holds : ∀ item ∈ items, Holds item) :
    (items.foldlM (insertFact id) facts).map (·.mapRows change) =
      (items.map change).foldlM (insertFact id) (facts.mapRows change) := by
  rw [foldlM_map]
  exact foldlM_simulates _ (EveryRow id Holds) every
    (fun _ item member _ every inserts => insertFact_everyRow every (holds item member) inserts)
    (fun _ item member every => insertFact_mapRows id change keepsId injective every (holds item member))

end Inserting

section Merging

variable {onEntity : MemoryEntity → Prop} {onRelationship : MemoryRelationship → Prop} {facts next : MemoryFacts}
  {fragment : MemoryFragment}

/-- Every fact has the property of its kind. -/
structure MemoryFacts.Every (onEntity : MemoryEntity → Prop) (onRelationship : MemoryRelationship → Prop)
    (facts : MemoryFacts) : Prop where
  entities : EveryRow MemoryEntity.id onEntity facts.entities
  relationships : EveryRow MemoryRelationship.id onRelationship facts.relationships

structure MemoryFragment.Every (onEntity : MemoryEntity → Prop) (onRelationship : MemoryRelationship → Prop)
    (fragment : MemoryFragment) : Prop where
  entities : ∀ entity ∈ fragment.entities, onEntity entity
  relationships : ∀ relationship ∈ fragment.relationships, onRelationship relationship

theorem MemoryFacts.every_empty : MemoryFacts.empty.Every onEntity onRelationship := ⟨.empty, .empty⟩

private theorem mergeFragment_every (every : facts.Every onEntity onRelationship)
    (added : fragment.Every onEntity onRelationship)
    (merges : mergeFragment facts fragment = .ok next) : next.Every onEntity onRelationship := by
  obtain ⟨entities, first, merges⟩ := bind_eq_ok_iff.mp merges
  obtain ⟨relationships, second, merges⟩ := bind_eq_ok_iff.mp merges
  cases merges
  exact ⟨foldlM_insertFact_everyRow every.entities added.entities first,
    foldlM_insertFact_everyRow every.relationships added.relationships second⟩

/-- Facts that all have the time of their source. -/
abbrev MemoryFacts.DatedBy (times : CanonicalSource → Nat) : MemoryFacts → Prop :=
  MemoryFacts.Every (·.provenance.DatedBy times) (·.provenance.DatedBy times)

abbrev MemoryFragment.DatedBy (times : CanonicalSource → Nat) : MemoryFragment → Prop :=
  MemoryFragment.Every (·.provenance.DatedBy times) (·.provenance.DatedBy times)

private theorem mergeFragment_timeless (dated : facts.DatedBy times) (isDated : fragment.DatedBy times) :
    (mergeFragment facts fragment).map (·.timeless) = mergeFragment facts.timeless fragment.timeless := by
  have entities := foldlM_insertFact_mapRows MemoryEntity.id MemoryEntity.timeless (fun _ => rfl)
    (fun _ _ => MemoryEntity.eq_of_timeless) dated.entities isDated.entities
  have relationships := foldlM_insertFact_mapRows MemoryRelationship.id MemoryRelationship.timeless (fun _ => rfl)
    (fun _ _ => MemoryRelationship.eq_of_timeless) dated.relationships isDated.relationships
  simp only [mergeFragment, timeless, MemoryFragment.timeless, ← entities, ← relationships]
  cases fragment.entities.foldlM (insertFact (·.id)) facts.entities with
  | error failure => rfl
  | ok merged =>
    cases fragment.relationships.foldlM (insertFact (·.id)) facts.relationships with
    | error failure => rfl
    | ok others => rfl

end Merging

/-! ## The facts of a run -/

section Reference

variable (ids : Identities) (run : IndexRun)

/-- The facts that the sources give, all at time zero and without a cache. -/
def referenceFacts : Except MemoryIndexError MemoryFacts :=
  (run.manifest ids).foldlM (factsStep ids run (fun _ => 0)) .empty

variable {ids run} {sidecar : MemorySidecar} {onEntity : MemoryEntity → Prop}
  {onRelationship : MemoryRelationship → Prop}
  {times : CanonicalSource → Nat} {facts next : MemoryFacts} {source : AuthorizedSourceDescriptor}

private theorem factsStep_every (every : facts.Every onEntity onRelationship)
    (added : ∀ draft, sourceDraft ids run.project source.toCanonicalSource = some draft →
      (completedFragment ids run (times source.toCanonicalSource) source.toCanonicalSource draft).Every
        onEntity onRelationship)
    (steps : factsStep ids run times facts source = .ok next) : next.Every onEntity onRelationship := by
  unfold factsStep at steps
  split at steps
  · cases steps
  · split at steps
    · cases steps
      exact every
    · next draft isDraft => exact mergeFragment_every every (added draft isDraft) steps

/-- A property of the facts that every draft gives holds of all that is gathered. -/
theorem gather_every {gathered : Gathered} (sound : CacheSound ids sidecar.cache)
    (added : ∀ time source draft, sourceDraft ids run.project source = some draft →
      (completedFragment ids run time source draft).Every onEntity onRelationship)
    (gathers : run.gather ids sidecar = .ok gathered) : gathered.facts.Every onEntity onRelationship := by
  have hasTime : ∀ source, ∃ time, HasTime ids run sidecar source time := exists_time sound
  choose times hasTimes using hasTime
  have folded : (run.manifest ids).foldlM (factsStep ids run times) .empty = .ok gathered.facts := by
    rw [← gather_facts hasTimes, gathers]
    rfl
  exact foldlM_invariant (MemoryFacts.Every onEntity onRelationship) every_empty
    (fun _ _ _ every steps => factsStep_every every (added _ _) steps) folded

private theorem completedFragment_datedBy (times : CanonicalSource → Nat) (source : CanonicalSource)
    (draft : FragmentDraft) : (completedFragment ids run (times source) source draft).DatedBy times := by
  constructor
  · intro entity member
    obtain ⟨entityDraft, -, rfl⟩ := mem_map.mp member
    rfl
  · intro relationship member
    obtain ⟨relationshipDraft, -, rfl⟩ := mem_map.mp member
    rfl

private theorem factsStep_timeless (dated : facts.DatedBy times) :
    (factsStep ids run times facts source).map (·.timeless) = factsStep ids run (fun _ => 0) facts.timeless source := by
  unfold factsStep
  cases readVerified (run.materials ids) source with
  | none => rfl
  | some content =>
    cases sourceDraft ids run.project source.toCanonicalSource with
    | none => rfl
    | some draft =>
      rw [mergeFragment_timeless dated (completedFragment_datedBy ..)]
      simp only [completedFragment, MemoryFragment.timeless, fragment, map_map]
      rfl

/-- Whatever the cache has, a run gathers the facts of its sources, apart from their times. -/
theorem gather_timeless (sound : CacheSound ids sidecar.cache) :
    (run.gather ids sidecar).map (·.facts.timeless) = referenceFacts ids run := by
  have hasTime : ∀ source, ∃ time, HasTime ids run sidecar source time := exists_time sound
  choose times hasTimes using hasTime
  have timeless : ((run.manifest ids).foldlM (factsStep ids run times) .empty).map (·.timeless) =
      referenceFacts ids run :=
    foldlM_simulates (·.timeless) (MemoryFacts.DatedBy times) every_empty
      (fun _ _ _ _ dated steps => factsStep_every dated (fun _ _ => completedFragment_datedBy ..) steps)
      (fun _ _ _ dated => factsStep_timeless dated)
  rw [← timeless, ← gather_facts hasTimes]
  cases run.gather ids sidecar <;> rfl

/-! ## The facts of a revision -/

/-- One source of a revision, where all of them can be read. -/
def revisionStep (ids : Identities) (version : String) (revision : MemoryRevisionId) (facts : MemoryFacts)
    (source : CanonicalSource) : Except MemoryIndexError MemoryFacts :=
  match sourceDraft ids revision.project source with
  | none => .ok facts
  | some draft => mergeFragment facts
      (MemoryExtractionContext.fragment ⟨revision, 0⟩ source (categoryExtractor version source.category) draft)

private theorem revisionFacts_of_reference (reference : referenceFacts ids run = .ok facts) :
    (run.revision ids).sources.foldlM (revisionStep ids run.version (run.revision ids)) .empty = .ok facts := by
  suffices folds : ∀ (items : List AuthorizedSourceDescriptor) (start : MemoryFacts),
      items.foldlM (factsStep ids run (fun _ => 0)) start = .ok facts →
      (items.map (·.toCanonicalSource)).foldlM (revisionStep ids run.version (run.revision ids)) start = .ok facts from
    folds _ _ reference
  intro items
  induction items with
  | nil => exact fun _ folded => folded
  | cons item rest ih =>
    intro start folded
    obtain ⟨middle, first, later⟩ := bind_eq_ok_iff.mp folded
    refine bind_eq_ok_iff.mpr ⟨middle, ?_, ih middle later⟩
    unfold factsStep at first
    split at first
    · cases first
    · exact first

private theorem builtInExtractorSet_injective {first second : String}
    (same : builtInExtractorSet first = builtInExtractorSet second) : first = second := by
  simpa [builtInExtractorSet, builtInExtractors, MemoryExtractor.identity, extractorIdentity] using same

/-- Two runs with one revision have the same facts. -/
theorem referenceFacts_unique {other : IndexRun} (same : run.revision ids = other.revision ids)
    (first : referenceFacts ids run = .ok facts) (second : referenceFacts ids other = .ok next) : facts = next := by
  have versions : run.version = other.version :=
    builtInExtractorSet_injective (congrArg MemoryRevisionId.extractorSet same)
  have folded := revisionFacts_of_reference first
  rw [same, versions, revisionFacts_of_reference second] at folded
  cases folded
  rfl

end Reference

end Ferrus.ProjectMemory

import Ferrus.Proofs.MemoryFragments
import Ferrus.Proofs.MemoryLinks

/-! # What a build stores

One lemma says what a run that completes does to the sidecar. The rest follows from it: what a sound sidecar holds,
that every run keeps it sound, and that the checks of the transaction never refuse a build.
-/

namespace Ferrus.ProjectMemory

open MemorySidecar Except Option Function List

/-! ## Semantic relationships -/

section Semantic

variable (ids : Identities) (project : ProjectRef)

/-- A relationship between records of memory, with an id that no link has. -/
structure Semantic (id : MemoryRelationshipId) (target : MemoryRelationshipTarget) : Prop where
  target : target.isRepository = false
  named : ∃ key, id = ids.relationshipId project key ∧
    ∀ source kind reference, key ≠ .repositoryLink source kind reference

def FragmentDraft.Semantic (draft : FragmentDraft) : Prop :=
  ∀ relationship ∈ draft.relationships, ProjectMemory.Semantic ids project relationship.id relationship.target

end Semantic

section Extraction

variable {α β ε : Type} {ids : Identities} {project : ProjectRef} {locator : MemorySourceLocator}
  {draft : FragmentDraft} {record : RecordDraft} {relationship : RelationshipDraft}
  {document : RuntimeSourceDocument}

variable {items : List α} {results : List β} {result : β}

private theorem exists_of_mem_mapM_some {next : α → Option β} (maps : items.mapM next = some results)
    (member : result ∈ results) : ∃ item, next item = some result := by
  induction items generalizing results with
  | nil =>
    cases maps
    cases member
  | cons item rest ih =>
    rw [mapM_cons] at maps
    obtain ⟨first, isFirst, maps⟩ := bind_eq_some_iff.mp maps
    obtain ⟨others, areOthers, maps⟩ := bind_eq_some_iff.mp maps
    cases maps
    rcases mem_cons.mp member with rfl | later
    · exact ⟨item, isFirst⟩
    · exact ih areOthers later

private theorem exists_of_mem_mapM_ok {next : α → Except ε β} (maps : items.mapM next = .ok results)
    (member : result ∈ results) : ∃ item, next item = .ok result := by
  induction items generalizing results with
  | nil =>
    cases maps
    cases member
  | cons item rest ih =>
    rw [mapM_cons] at maps
    obtain ⟨first, isFirst, maps⟩ := bind_eq_ok_iff.mp maps
    obtain ⟨others, areOthers, maps⟩ := bind_eq_ok_iff.mp maps
    cases maps
    rcases mem_cons.mp member with rfl | later
    · exact ⟨item, isFirst⟩
    · exact ih areOthers later

private theorem extractStructure_semantic {document : SpecStructureDocument}
    (extracts : extractStructure ids project locator document = some draft) : draft.Semantic ids project := by
  obtain ⟨title, -, extracts⟩ := bind_eq_some_iff.mp extracts
  obtain ⟨titleSpan, -, extracts⟩ := bind_eq_some_iff.mp extracts
  obtain ⟨title, -, extracts⟩ := bind_eq_some_iff.mp extracts
  obtain ⟨milestones, mapped, extracts⟩ := bind_eq_some_iff.mp extracts
  cases extracts
  intro relationship member
  obtain ⟨pair, isPair, rfl⟩ := mem_map.mp member
  obtain ⟨milestone, drafts⟩ := exists_of_mem_mapM_some mapped isPair
  obtain ⟨milestoneId, -, drafts⟩ := bind_eq_some_iff.mp drafts
  obtain ⟨title, -, drafts⟩ := bind_eq_some_iff.mp drafts
  cases drafts
  exact ⟨rfl, _, rfl, by simp⟩

private theorem sectionDrafts_semantic {earlier sections : List OutcomeSection} {pairs : List DraftPair}
    (drafts : sectionDrafts ids project locator earlier sections = some pairs) :
    ∀ pair ∈ pairs, Semantic ids project pair.2.id pair.2.target := by
  induction sections generalizing earlier pairs with
  | nil =>
    cases drafts
    simp
  | cons part rest ih =>
    obtain ⟨text, -, drafts⟩ := bind_eq_some_iff.mp drafts
    obtain ⟨later, isLater, drafts⟩ := bind_eq_some_iff.mp drafts
    cases drafts
    rintro pair (_ | ⟨_, isLaterPair⟩)
    · exact ⟨rfl, _, rfl, by simp⟩
    · exact ih isLater pair isLaterPair

private theorem extractOutcome_semantic {document : SpecOutcomeDocument}
    (extracts : extractOutcome ids project locator document = some draft) : draft.Semantic ids project := by
  obtain ⟨text, -, extracts⟩ := bind_eq_some_iff.mp extracts
  obtain ⟨sections, drafts, extracts⟩ := bind_eq_some_iff.mp extracts
  cases extracts
  rintro relationship (_ | ⟨_, member⟩)
  · exact ⟨rfl, _, rfl, by simp⟩
  · obtain ⟨pair, isPair, rfl⟩ := mem_map.mp member
    exact sectionDrafts_semantic drafts pair isPair

private theorem extractArchive_semantic {document : ArchiveSourceDocument}
    (extracts : extractArchive ids project document = .ok draft) : draft.Semantic ids project := by
  obtain ⟨archiveId, -, extracts⟩ := bind_eq_ok_iff.mp extracts
  obtain ⟨archivedAt, -, extracts⟩ := bind_eq_ok_iff.mp extracts
  obtain ⟨tasks, taskDrafts, extracts⟩ := bind_eq_ok_iff.mp extracts
  obtain ⟨milestones, milestoneDrafts, extracts⟩ := bind_eq_ok_iff.mp extracts
  cases extracts
  intro relationship member
  rcases mem_append.mp member with isTask | isMilestone
  · obtain ⟨task, drafts⟩ := exists_of_mem_mapM_ok taskDrafts isTask
    obtain ⟨taskId, -, drafts⟩ := bind_eq_ok_iff.mp drafts
    cases drafts
    exact ⟨rfl, _, rfl, by simp⟩
  · obtain ⟨milestone, drafts⟩ := exists_of_mem_mapM_ok milestoneDrafts isMilestone
    obtain ⟨milestoneId, -, drafts⟩ := bind_eq_ok_iff.mp drafts
    cases drafts
    exact ⟨rfl, _, rfl, by simp⟩

private theorem taskDraft_semantic {task : RuntimeTaskDocument} (drafts : taskDraft ids project task = .ok record)
    (isDraft : record.2 = some relationship) : Semantic ids project relationship.id relationship.target := by
  obtain ⟨taskId, -, drafts⟩ := bind_eq_ok_iff.mp drafts
  obtain ⟨milestoneId, -, drafts⟩ := bind_eq_ok_iff.mp drafts
  obtain ⟨status, -, drafts⟩ := bind_eq_ok_iff.mp drafts
  cases drafts
  obtain ⟨milestone, -, rfl⟩ := map_eq_some_iff.mp isDraft
  exact ⟨rfl, _, rfl, by simp⟩

private theorem runDraft_semantic {run : RuntimeRunDocument} (drafts : runDraft ids project document run = .ok record)
    (isDraft : record.2 = some relationship) : Semantic ids project relationship.id relationship.target := by
  obtain ⟨runId, -, drafts⟩ := bind_eq_ok_iff.mp drafts
  obtain ⟨taskId, -, drafts⟩ := bind_eq_ok_iff.mp drafts
  obtain ⟨checkIds, -, drafts⟩ := bind_eq_ok_iff.mp drafts
  obtain ⟨status, -, drafts⟩ := bind_eq_ok_iff.mp drafts
  cases drafts
  split_ifs at isDraft
  cases isDraft
  exact ⟨rfl, _, rfl, by simp⟩

private theorem checkDraft_semantic {check : RuntimeCheckDocument}
    (drafts : checkDraft ids project document check = .ok record) (isDraft : record.2 = some relationship) :
    Semantic ids project relationship.id relationship.target := by
  obtain ⟨checkId, -, drafts⟩ := bind_eq_ok_iff.mp drafts
  obtain ⟨status, -, drafts⟩ := bind_eq_ok_iff.mp drafts
  cases drafts
  obtain ⟨target, -, rfl⟩ := map_eq_some_iff.mp isDraft
  exact ⟨rfl, _, rfl, by simp⟩

private theorem extractRuntime_semantic (extracts : extractRuntime ids project document = .ok draft) :
    draft.Semantic ids project := by
  obtain ⟨tasks, taskDrafts, extracts⟩ := bind_eq_ok_iff.mp extracts
  obtain ⟨runs, runDrafts, extracts⟩ := bind_eq_ok_iff.mp extracts
  obtain ⟨checks, checkDrafts, extracts⟩ := bind_eq_ok_iff.mp extracts
  cases extracts
  intro relationship member
  obtain ⟨record, isRecord, isDraft⟩ := mem_filterMap.mp member
  rcases mem_append.mp isRecord with isRecord | isCheck
  · rcases mem_append.mp isRecord with isTask | isRun
    · obtain ⟨task, drafts⟩ := exists_of_mem_mapM_ok taskDrafts isTask
      exact taskDraft_semantic drafts isDraft
    · obtain ⟨run, drafts⟩ := exists_of_mem_mapM_ok runDrafts isRun
      exact runDraft_semantic drafts isDraft
  · obtain ⟨check, drafts⟩ := exists_of_mem_mapM_ok checkDrafts isCheck
    exact checkDraft_semantic drafts isDraft

private theorem toOption_eq_some {result : Except ε α} {value : α} (isSome : result.toOption = some value) :
    result = .ok value := by
  cases result with
  | error failure => cases isSome
  | ok found =>
    cases isSome
    rfl

/-- What is extracted stays within memory. -/
private theorem sourceDraft_semantic {source : CanonicalSource}
    (isDraft : sourceDraft ids project source = some draft) : draft.Semantic ids project := by
  have isDocument := (filter_eq_some_iff.mp isDraft).1
  unfold documentDraft at isDocument
  split at isDocument
  · exact extractStructure_semantic isDocument
  · exact extractOutcome_semantic isDocument
  · exact extractArchive_semantic (toOption_eq_some isDocument)
  · exact extractRuntime_semantic (toOption_eq_some isDocument)
  · cases isDocument

end Extraction

/-! ## Sound sidecars -/

/-- What every sidecar holds that runs have written. -/
structure SidecarSound (ids : Identities) (sidecar : MemorySidecar) : Prop where
  cache : CacheSound ids sidecar.cache
  revisions : ∀ revision facts, sidecar.revisions revision = some facts →
    ∃ run : IndexRun, run.revision ids = revision ∧ referenceFacts ids run = .ok facts.timeless
  semantic : ∀ revision facts, sidecar.revisions revision = some facts →
    EveryRow MemoryRelationship.id (fun relationship =>
      Semantic ids revision.project relationship.id relationship.target)
      facts.relationships
  linkSets : ∀ set ∈ sidecar.linkSets, LinkSetSound ids set

theorem SidecarSound.empty (ids : Identities) : SidecarSound ids .empty where
  cache _ _ found := (some_ne_none _ found.symm).elim
  revisions _ _ found := (some_ne_none _ found.symm).elim
  semantic _ _ found := (some_ne_none _ found.symm).elim
  linkSets _ member := (not_mem_nil member).elim

/-- A fact of the revision. -/
def BelongsTo (revision : MemoryRevisionId) (project : ProjectRef) (id : MemoryRevisionId) : Prop :=
  project = revision.project ∧ id = revision

section Completion

variable {ids : Identities} {run : IndexRun} {sidecar : MemorySidecar} {gathered : Gathered} {commit : MemoryCommit}

private theorem gather_belongs (sound : CacheSound ids sidecar.cache)
    (gathers : run.gather ids sidecar = .ok gathered) :
    MemorySidecar.belongs (run.revision ids) gathered.facts = true := by
  have every : gathered.facts.Every (fun entity => BelongsTo (run.revision ids) entity.project entity.memoryRevisionId)
      (fun relationship => BelongsTo (run.revision ids) relationship.project relationship.memoryRevisionId) := by
    refine gather_every sound (fun time source draft _ => ⟨?_, ?_⟩) gathers
    · intro entity member
      obtain ⟨entityDraft, -, rfl⟩ := mem_map.mp member
      exact ⟨rfl, rfl⟩
    · intro relationship member
      obtain ⟨relationshipDraft, -, rfl⟩ := mem_map.mp member
      exact ⟨rfl, rfl⟩
  unfold belongs
  simp only [Bool.and_eq_true, List.all_eq_true, decide_eq_true_eq]
  constructor
  · intro entity member
    obtain ⟨key, found⟩ := gathered.facts.entities.mem_values_iff.mp member
    exact (every.entities key entity found).2
  · intro relationship member
    obtain ⟨key, found⟩ := gathered.facts.relationships.mem_values_iff.mp member
    exact (every.relationships key relationship found).2

private theorem gather_semantic (sound : CacheSound ids sidecar.cache)
    (gathers : run.gather ids sidecar = .ok gathered) :
    EveryRow MemoryRelationship.id (fun relationship => Semantic ids run.project relationship.id relationship.target)
      gathered.facts.relationships := by
  have every : gathered.facts.Every (fun _ => True)
      (fun relationship => Semantic ids run.project relationship.id relationship.target) := by
    refine gather_every sound (fun time source draft isDraft => ⟨fun _ _ => True.intro, ?_⟩) gathers
    intro relationship member
    obtain ⟨relationshipDraft, isMember, rfl⟩ := mem_map.mp member
    exact sourceDraft_semantic isDraft relationshipDraft isMember
  exact every.relationships

/-! ## Fragments to cache -/

/-- Every fragment to cache is the draft of its source. -/
def WritesSound (ids : Identities) (writes : List (MemoryFragmentCacheKey × MemoryFragment)) : Prop :=
  ∀ write ∈ writes, ∃ draft context, sourceDraft ids write.1.project write.1.source = some draft ∧
    write.2 = MemoryExtractionContext.fragment context write.1.source write.1.extractor draft

variable {source : AuthorizedSourceDescriptor} {before after : Gathered}

private theorem extractSource_writes {extractor : MemoryExtractor}
    (selected : extractorFor source.category = some extractor) (sound : WritesSound ids before.cacheWrites)
    (extracts : run.extractSource ids extractor source before = .ok after) : WritesSound ids after.cacheWrites := by
  unfold IndexRun.extractSource at extracts
  split at extracts
  · cases extracts
  · next content reads =>
    split at extracts
    · cases extracts
      exact sound
    · next draft isDraft =>
      split_ifs at extracts with within
      · obtain ⟨facts, -, extracts⟩ := bind_eq_ok_iff.mp extracts
        cases extracts
        intro write member
        rcases mem_append.mp member with earlier | isNew
        · exact sound write earlier
        · cases mem_singleton.mp isNew
          have extracted := toOption_extract ids run.project selected (fingerprint_of_readVerified reads)
          rw [isDraft] at extracted
          exact ⟨draft, _, filter_eq_some_iff.mpr ⟨extracted.symm, within⟩, rfl⟩
      · cases extracts
        exact sound

private theorem gatherSource_writes (sound : WritesSound ids before.cacheWrites)
    (gathers : run.gatherSource ids sidecar before source = .ok after) : WritesSound ids after.cacheWrites := by
  unfold IndexRun.gatherSource at gathers
  split at gathers
  · cases gathers
    exact sound
  · next extractor selected =>
    split at gathers
    · obtain ⟨facts, -, gathers⟩ := bind_eq_ok_iff.mp gathers
      cases gathers
      exact sound
    · exact extractSource_writes selected sound gathers

private theorem gather_writes (gathers : run.gather ids sidecar = .ok gathered) :
    WritesSound ids gathered.cacheWrites :=
  foldlM_invariant (fun gathered => WritesSound ids gathered.cacheWrites)
    (fun _ none => (not_mem_nil none).elim) (fun _ _ _ sound gathers => gatherSource_writes sound gathers) gathers

theorem CacheSound.write {cache : MemoryFragmentCacheKey → Option MemoryFragment} (sound : CacheSound ids cache)
    {writes : List (MemoryFragmentCacheKey × MemoryFragment)} (areSound : WritesSound ids writes) :
    CacheSound ids (writes.foldl MemorySidecar.writeFragment cache) := by
  induction writes generalizing cache with
  | nil => exact sound
  | cons write rest ih =>
    obtain ⟨isSound, areSound⟩ := forall_mem_cons.mp areSound
    refine ih ?_ areSound
    intro key fragment found
    unfold writeFragment at found
    by_cases same : key = write.1
    · subst same
      rw [update_self] at found
      cases found
      exact isSound
    · rw [update_of_ne same] at found
      exact sound key fragment found

/-! ## Completed runs -/

/-- What a run that completes has gathered, and what the sidecar holds after it. -/
structure Completes (ids : Identities) (sidecar : MemorySidecar) (run : IndexRun) (commit : MemoryCommit)
    (after : MemorySidecar) : Prop where
  revision : commit.revision = run.revision ids
  gathers : run.gather ids sidecar = .ok ⟨commit.facts, commit.cacheWrites⟩
  revalidates : run.revalidates ids = true
  resolves : run.resolveLinks ids sidecar commit.facts.entities.values = some commit.repositoryLinks
  revisions : after.revisions =
    Function.update sidecar.revisions commit.revision (some ((sidecar.revisions commit.revision).getD commit.facts))
  cache : after.cache = commit.cacheWrites.foldl MemorySidecar.writeFragment sidecar.cache
  linkSets : after.linkSets = sidecar.linkSets ++
    if (sidecar.repositoryLinkSet commit.repositoryLinks.linkSet).isSome then [] else [commit.repositoryLinks]

private theorem prepareCommit_eq_ok_iff : run.prepareCommit ids sidecar = .ok commit ↔
    run.gather ids sidecar = .ok ⟨commit.facts, commit.cacheWrites⟩ ∧ run.revalidates ids = true ∧
      run.resolveLinks ids sidecar commit.facts.entities.values = some commit.repositoryLinks ∧
      commit.revision = run.revision ids := by
  constructor
  · intro prepares
    obtain ⟨gathered, gathers, prepares⟩ := bind_eq_ok_iff.mp prepares
    split_ifs at prepares with valid
    split at prepares
    · next links resolves =>
      cases prepares
      exact ⟨gathers, valid, resolves, rfl⟩
    · cases prepares
  · rintro ⟨gathers, valid, resolves, isRevision⟩
    obtain ⟨revision, facts, cacheWrites, links⟩ := commit
    subst isRevision
    unfold IndexRun.prepareCommit
    rw [gathers]
    change (if run.revalidates ids then _ else _) = _
    rw [if_pos valid, resolves]

private theorem insertRevision_ok (sound : SidecarSound ids sidecar) (gathers : run.gather ids sidecar = .ok gathered) :
    sidecar.insertRevision (run.revision ids) gathered.facts = .ok ⟨update sidecar.revisions (run.revision ids)
      (some ((sidecar.revisions (run.revision ids)).getD gathered.facts)), sidecar.cache, sidecar.linkSets⟩ := by
  unfold insertRevision
  cases found : sidecar.revisions (run.revision ids) with
  | none => exact if_pos (gather_belongs sound.cache gathers)
  | some facts =>
    have same : update sidecar.revisions (run.revision ids) (some facts) = sidecar.revisions := by
      rw [← found, update_eq_self]
    rw [getD_some, same]

/-- The checks of the transaction pass. -/
private theorem insertRepositoryLinkCommit_ok (sound : ∀ set ∈ sidecar.linkSets, LinkSetSound ids set)
    {entities : List MemoryEntity} {links : MemoryRepositoryLinkCommit}
    (resolves : run.resolveLinks ids sidecar entities = some links)
    (revisions : MemoryRevisionId → Option MemoryFacts) :
    MemorySidecar.insertRepositoryLinkCommit ⟨revisions, sidecar.cache, sidecar.linkSets⟩ (run.revision ids) links =
      .ok ⟨revisions, sidecar.cache, sidecar.linkSets ++
        if (sidecar.repositoryLinkSet links.linkSet).isSome then [] else [links]⟩ := by
  obtain ⟨isId, found⟩ := resolveLinks_cases resolves
  have isSound : LinkSetSound ids links := by
    rcases found with isStored | fresh
    · exact sound links (mem_of_find?_eq_some isStored)
    · exact fresh.sound isId sound
  have isRevision : links.linkSet.revision = run.revision ids := congrArg MemoryRepositoryLinkSetId.revision isId
  have passes : (links.linkSet.revision ≠ run.revision ids || links.relationships.any (fun link =>
      link.project ≠ (run.revision ids).project || link.memoryRevisionId ≠ run.revision ids)) = false := by
    simp only [isRevision, ne_eq, not_true_eq_false, decide_false, Bool.false_or, List.any_eq_false, Bool.or_eq_true,
      decide_eq_true_eq, not_or, not_not]
    intro link member
    rw [← isRevision]
    exact isSound.belongs link member
  unfold insertRepositoryLinkCommit
  have sameSets : repositoryLinkSet ⟨revisions, sidecar.cache, sidecar.linkSets⟩ links.linkSet =
    sidecar.repositoryLinkSet links.linkSet := rfl
  rw [passes, sameSets]
  rcases found with isStored | fresh
  · rw [isStored]
    simp
  · rw [fresh.unstored]
    rfl

theorem index_of_prepared (sound : SidecarSound ids sidecar) (prepares : run.prepareCommit ids sidecar = .ok commit) :
    ∃ after, index ids sidecar run = (.ok commit, after) ∧ Completes ids sidecar run commit after := by
  obtain ⟨gathers, valid, resolves, isRevision⟩ := prepareCommit_eq_ok_iff.mp prepares
  have completes : sidecar.completeBuild commit = .ok ⟨update sidecar.revisions commit.revision
      (some ((sidecar.revisions commit.revision).getD commit.facts)),
      commit.cacheWrites.foldl writeFragment sidecar.cache, sidecar.linkSets ++
        if (sidecar.repositoryLinkSet commit.repositoryLinks.linkSet).isSome then []
          else [commit.repositoryLinks]⟩ := by
    unfold completeBuild
    rw [isRevision, insertRevision_ok sound gathers]
    change (insertRepositoryLinkCommit _ (run.revision ids) commit.repositoryLinks >>= _) = _
    rw [insertRepositoryLinkCommit_ok sound.linkSets resolves]
    rfl
  simp only [index, prepares, completes]
  exact ⟨_, rfl, isRevision, gathers, valid, resolves, rfl, rfl, rfl⟩

/-- A run completes, or it leaves the sidecar as it is. -/
theorem index_cases (sound : SidecarSound ids sidecar) (run : IndexRun) :
    (∃ commit after, index ids sidecar run = (.ok commit, after) ∧ Completes ids sidecar run commit after) ∨
      ∃ error, run.prepareCommit ids sidecar = .error error ∧ index ids sidecar run = (.error error, sidecar) := by
  cases prepares : run.prepareCommit ids sidecar with
  | ok commit =>
    obtain ⟨after, indexes, completes⟩ := index_of_prepared sound prepares
    exact .inl ⟨commit, after, indexes, completes⟩
  | error error =>
    refine .inr ⟨error, rfl, ?_⟩
    unfold index
    rw [prepares]

/-- A revision that is stored after a completed run was there before, or it is the run's own. -/
theorem Completes.found {after : MemorySidecar} {revision : MemoryRevisionId} {facts : MemoryFacts}
    (completes : Completes ids sidecar run commit after) (found : after.revisions revision = some facts) :
    sidecar.revisions revision = some facts ∨ run.revision ids = revision ∧ commit.facts = facts := by
  rw [completes.revisions] at found
  by_cases same : revision = commit.revision
  · subst same
    cases stored : sidecar.revisions commit.revision with
    | none => exact .inr ⟨completes.revision.symm, by simpa [stored] using found⟩
    | some existing => exact .inl (by simpa [stored] using found)
  · rw [update_of_ne same] at found
    exact .inl found

theorem Completes.sound {after : MemorySidecar} (sound : SidecarSound ids sidecar)
    (completes : Completes ids sidecar run commit after) : SidecarSound ids after := by
  have reference : referenceFacts ids run = .ok commit.facts.timeless := by
    rw [← gather_timeless sound.cache, completes.gathers]
    rfl
  constructor
  · rw [completes.cache]
    exact sound.cache.write (gather_writes completes.gathers)
  · intro revision facts found
    obtain stored | ⟨isRevision, rfl⟩ := completes.found found
    · exact sound.revisions revision facts stored
    · exact ⟨run, isRevision, reference⟩
  · intro revision facts found
    obtain stored | ⟨rfl, rfl⟩ := completes.found found
    · exact sound.semantic revision facts stored
    · exact gather_semantic sound.cache completes.gathers
  · intro set member
    rw [completes.linkSets] at member
    rcases mem_append.mp member with earlier | isNew
    · exact sound.linkSets set earlier
    · split_ifs at isNew
      · cases isNew
      · cases mem_singleton.mp isNew
        obtain ⟨isId, found⟩ := resolveLinks_cases completes.resolves
        rcases found with isStored | fresh
        · exact sound.linkSets _ (mem_of_find?_eq_some isStored)
        · exact fresh.sound isId sound.linkSets

theorem SidecarSound.step (sound : SidecarSound ids sidecar) (run : IndexRun) :
    SidecarSound ids (indexStep ids sidecar run) := by
  unfold indexStep
  rcases index_cases sound run with ⟨commit, after, indexes, completes⟩ | ⟨error, -, indexes⟩
  · rw [indexes]
    exact completes.sound sound
  · rw [indexes]
    exact sound

end Completion

end Ferrus.ProjectMemory

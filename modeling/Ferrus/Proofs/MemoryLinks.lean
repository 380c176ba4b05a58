import Ferrus.Model.ProjectMemory.Index

/-! # Link sets

A candidate has the id of its reference, so a set names each reference once. A run takes the set that is stored under
its id, and else makes one from its candidates and from the set before it.
-/

namespace Ferrus.ProjectMemory

open LocalRepositoryLinkResolver List Option MemorySidecar

/-! ## Candidates -/

section Candidates

variable {ids : Identities} {project : ProjectRef} {candidates : LinkCandidates}

/-- The id that a reference has. -/
def ReferenceEvidence.linkId (ids : Identities) (project : ProjectRef) (evidence : ReferenceEvidence) :
    MemoryRelationshipId :=
  ids.relationshipId project (.repositoryLink evidence.source evidence.kind evidence.reference)

/-- Every candidate stands under the id of its reference. -/
def Named (ids : Identities) (project : ProjectRef) (candidates : LinkCandidates) : Prop :=
  ∀ key candidate, candidates.get? key = some candidate →
    candidate.id = key ∧ candidate.id = candidate.toReferenceEvidence.linkId ids project

theorem Named.insertCandidate (named : Named ids project candidates) (evidence : ReferenceEvidence) :
    Named ids project (insertCandidate ids project candidates evidence) := by
  unfold ProjectMemory.insertCandidate
  split_ifs
  · exact named
  · intro key candidate found
    rw [Table.get?_insertNew] at found
    split_ifs at found with same
    · subst same
      cases stored : candidates.get? (evidence.linkId ids project) with
      | none =>
        simp only [ReferenceEvidence.linkId] at stored
        rw [stored] at found
        cases found
        exact ⟨rfl, rfl⟩
      | some existing =>
        have isNamed := named _ _ stored
        simp only [ReferenceEvidence.linkId] at stored
        rw [stored] at found
        cases found
        exact isNamed
    · exact named key candidate found

private theorem named_foldl (evidence : List ReferenceEvidence) (named : Named ids project candidates) :
    Named ids project (evidence.foldl (insertCandidate ids project) candidates) := by
  induction evidence generalizing candidates with
  | nil => exact named
  | cons first rest ih => exact ih (named.insertCandidate first)

variable {resolver : LocalRepositoryLinkResolver} {entities : List MemoryEntity}

private theorem named_candidates (derives : resolver.candidates ids project entities = some candidates) :
    Named ids project candidates := by
  obtain ⟨evidence, -, derives⟩ := bind_eq_some_iff.mp derives
  cases derives
  refine named_foldl evidence ?_
  intro key candidate found
  cases found

/-- The candidates that become links, in the order of their ids. -/
structure Linked (ids : Identities) (project : ProjectRef) (linked : List LinkCandidate) : Prop where
  ordered : linked.Pairwise fun first second => first.id < second.id
  named : ∀ candidate ∈ linked, candidate.id = candidate.toReferenceEvidence.linkId ids project

theorem linked_of_linkedCandidates {linked : List LinkCandidate}
    (derives : resolver.linkedCandidates ids project entities = some linked) : Linked ids project linked := by
  obtain ⟨candidates, isTable, rfl⟩ := map_eq_some_iff.mp derives
  have named := named_candidates isTable
  have underId : ∀ row ∈ candidates.rows, row.2.id = row.1 := by
    rintro ⟨key, candidate⟩ member
    exact (named key candidate (candidates.get?_eq_some_iff.mpr member)).1
  constructor
  · refine List.Pairwise.sublist (take_sublist ..) ?_
    refine pairwise_map.mpr (List.Pairwise.imp_of_mem ?_ candidates.sorted)
    intro first second isFirst isSecond before
    rw [underId first isFirst, underId second isSecond]
    exact before
  · intro candidate member
    obtain ⟨key, found⟩ := candidates.mem_values_iff.mp (mem_of_mem_take member)
    exact (named key candidate found).2

end Candidates

/-! ## Resolution -/

variable {link : MemoryRelationship}

section Resolution

variable {resolver : LocalRepositoryLinkResolver} {version : String} {now : Nat} {revision : MemoryRevisionId}
  {previous : Option MemoryRelationship} {candidate : LinkCandidate}

open LocalRepositoryLinkResolver in
private theorem isRepository_carryOver {missing : MemoryRelationshipTarget} (isRepository : missing.isRepository = true)
    (before : ∀ link, previous = some link → link.target.isRepository = true) :
    (carryOver previous missing).1.isRepository = true := by
  unfold carryOver
  split
  · next link matched => exact before link (filter_eq_some_iff.mp matched).1
  · exact isRepository

private theorem isRepository_resolveCandidate
    (before : ∀ link, previous = some link → link.target.isRepository = true) :
    (resolver.resolveCandidate version now revision previous candidate).target.isRepository = true := by
  change (resolver.resolveReference candidate.reference candidate.originSnapshotId previous).1.isRepository = true
  unfold resolveReference
  split
  · unfold resolvePath
    split
    · rfl
    · split
      · rfl
      · exact isRepository_carryOver rfl before
  · unfold resolveSymbol
    dsimp only
    split
    · rfl
    · rfl
    all_goals
      split
      · rfl
      · exact isRepository_carryOver rfl before

end Resolution

/-! ## Sets -/

/-- The links of a set stand in the order of their ids, and each is the link of one reference of the revision. -/
structure LinkSetSound (ids : Identities) (set : MemoryRepositoryLinkCommit) : Prop where
  ordered : set.relationships.Pairwise fun first second => first.id < second.id
  belongs : ∀ link ∈ set.relationships,
    link.project = set.linkSet.revision.project ∧ link.memoryRevisionId = set.linkSet.revision
  repository : ∀ link ∈ set.relationships, link.target.isRepository = true
  named : ∀ link ∈ set.relationships, ∃ reference,
    link.id = ids.relationshipId set.linkSet.revision.project (.repositoryLink link.source link.kind reference)
  ofProject : set.linkSet.repository = (LocalRepositoryLinkResolver.new set.linkSet.revision.project none).repository

namespace LinkSetSound

variable {ids : Identities} {set : MemoryRepositoryLinkCommit}

/-- A link is found under its id. -/
theorem find?_eq_some (sound : LinkSetSound ids set) (member : link ∈ set.relationships) :
    set.relationships.find? (·.id = link.id) = some link := by
  obtain ⟨before, after, split⟩ := append_of_mem member
  have ordered := sound.ordered
  rw [split] at ordered ⊢
  rw [find?_append, find?_eq_none.mpr, none_or, find?_cons_of_pos (by simp)]
  intro other isOther same
  have less := (pairwise_append.mp ordered).2.2 other isOther link mem_cons_self
  exact absurd (of_decide_eq_true same) less.ne

end LinkSetSound

section Runs

variable {ids : Identities} {run : IndexRun} {sidecar : MemorySidecar} {entities : List MemoryEntity}
  {commit : MemoryRepositoryLinkCommit}

/-- The set that a run makes when none is stored under its id. -/
structure FreshSet (ids : Identities) (run : IndexRun) (sidecar : MemorySidecar) (entities : List MemoryEntity)
    (commit : MemoryRepositoryLinkCommit) : Prop where
  unstored : sidecar.repositoryLinkSet commit.linkSet = none
  links : ∃ linked, run.resolver.linkedCandidates ids run.project entities = some linked ∧
    commit.relationships = linked.map fun candidate => run.resolver.resolveCandidate run.version run.resolvedAt
      (run.revision ids) ((run.resolver.previousLinks (sidecar.previousLinkSet commit.linkSet)).find?
        (·.id = candidate.id)) candidate

theorem mem_linkSets_of_latestLinkSet {selected : MemoryRepositoryLinkSetId → Bool}
    (latest : sidecar.latestLinkSet selected = some commit) :
    commit ∈ sidecar.linkSets ∧ selected commit.linkSet = true := by
  have member := mem_of_getLast? latest
  exact mem_filter.mp member

private theorem mem_linkSets_of_previousLinkSet {id : MemoryRepositoryLinkSetId}
    (isPrevious : sidecar.previousLinkSet id = some commit) : commit ∈ sidecar.linkSets := by
  rcases or_eq_some_iff.mp isPrevious with stored | ⟨-, later⟩
  · exact mem_of_find?_eq_some stored
  · rcases or_eq_some_iff.mp later with latest | ⟨-, compatible⟩
    · exact (mem_linkSets_of_latestLinkSet latest).1
    · exact (mem_linkSets_of_latestLinkSet compatible).1

/-- A run takes the stored set, or makes a new one. -/
theorem resolveLinks_cases (resolves : run.resolveLinks ids sidecar entities = some commit) :
    commit.linkSet = run.linkSetId ids entities ∧
      (sidecar.repositoryLinkSet commit.linkSet = some commit ∨ FreshSet ids run sidecar entities commit) := by
  have resolved := resolves
  unfold IndexRun.resolveLinks resolve at resolved
  dsimp only at resolved
  split at resolved
  · next stored isStored =>
    cases resolved
    obtain ⟨isPrevious, same⟩ := filter_eq_some_iff.mp isStored
    have sameId : commit.linkSet = run.linkSetId ids entities := of_decide_eq_true same
    refine ⟨sameId, .inl ?_⟩
    cases found : sidecar.repositoryLinkSet commit.linkSet with
    | some existing =>
      unfold previousLinkSet at isPrevious
      rw [← sameId, found, some_or] at isPrevious
      exact isPrevious
    | none =>
      have absent := find?_eq_none.mp found commit (mem_linkSets_of_previousLinkSet isPrevious)
      simp at absent
  · next unused =>
    change (sidecar.previousLinkSet (run.linkSetId ids entities)).filter (·.linkSet = run.linkSetId ids entities) =
      none at unused
    obtain ⟨linked, isLinked, made⟩ := bind_eq_some_iff.mp resolved
    cases made
    refine ⟨rfl, .inr ⟨?_, linked, isLinked, rfl⟩⟩
    cases found : sidecar.repositoryLinkSet (run.linkSetId ids entities) with
    | none => exact found
    | some existing =>
      have isPrevious : sidecar.previousLinkSet (run.linkSetId ids entities) = some existing := by
        unfold previousLinkSet
        rw [found, some_or]
      have same := find?_some found
      rw [isPrevious, filter_some, if_pos same] at unused
      cases unused

/-- A new set is sound if those before it are. -/
theorem FreshSet.sound (fresh : FreshSet ids run sidecar entities commit)
    (isId : commit.linkSet = run.linkSetId ids entities)
    (sound : ∀ set ∈ sidecar.linkSets, LinkSetSound ids set) : LinkSetSound ids commit := by
  obtain ⟨linked, isLinked, made⟩ := fresh.links
  have areLinked := linked_of_linkedCandidates isLinked
  have isRevision : commit.linkSet.revision = run.revision ids := congrArg MemoryRepositoryLinkSetId.revision isId
  have before :
      ∀ id link, (run.resolver.previousLinks (sidecar.previousLinkSet commit.linkSet)).find? (·.id = id) = some link →
      link.target.isRepository = true := by
    intro id link found
    have member := mem_of_find?_eq_some found
    unfold previousLinks at member
    split_ifs at member
    · cases isPrevious : sidecar.previousLinkSet commit.linkSet with
      | none =>
        rw [isPrevious] at member
        cases member
      | some previous =>
        rw [isPrevious] at member
        exact (sound previous (mem_linkSets_of_previousLinkSet isPrevious)).repository link member
    · cases member
  have each : ∀ link ∈ commit.relationships, ∃ candidate ∈ linked, link = run.resolver.resolveCandidate run.version
      run.resolvedAt (run.revision ids) ((run.resolver.previousLinks (sidecar.previousLinkSet commit.linkSet)).find?
        (·.id = candidate.id)) candidate := by
    intro link member
    rw [made] at member
    obtain ⟨candidate, isCandidate, rfl⟩ := mem_map.mp member
    exact ⟨candidate, isCandidate, rfl⟩
  constructor
  · rw [made]
    exact pairwise_map.mpr areLinked.ordered
  · intro link member
    obtain ⟨candidate, -, rfl⟩ := each link member
    rw [isRevision]
    exact ⟨rfl, rfl⟩
  · intro link member
    obtain ⟨candidate, -, rfl⟩ := each link member
    exact isRepository_resolveCandidate (before candidate.id)
  · intro link member
    obtain ⟨candidate, isCandidate, rfl⟩ := each link member
    rw [isRevision]
    exact ⟨candidate.reference, areLinked.named candidate isCandidate⟩
  · rw [isId]
    rfl

end Runs

end Ferrus.ProjectMemory

import Ferrus.Machine.Core.Run
import Ferrus.Model.ProjectMemory.SpelledIdentities
import Ferrus.Proofs.MemoryBuilds

/-! # Paths that have matched once

A set of links carries a path reference over from the set before it. The chain breaks at a run that finds no graph,
which looks at no earlier set and stores every path as unresolved, and at a run that has no candidate for the path.
-/

namespace Ferrus.ProjectMemory

open Machine List Option MemorySidecar LocalRepositoryLinkResolver

/-- The link is that of a path reference. -/
def MemoryRelationship.IsPathOf (ids : Identities) (project : ProjectRef) (link : MemoryRelationship) : Prop :=
  ∃ source kind path, link.id = ids.relationshipId project (.repositoryLink source kind (.path path))

/-- Every path that the earlier set has as resolved is resolved or stale in the later one. -/
def Carries (ids : Identities) (earlier later : MemoryRepositoryLinkCommit) : Prop :=
  ∀ link ∈ earlier.relationships, link.IsPathOf ids earlier.linkSet.revision.project →
    link.provenance.resolution = .resolved →
    ∃ other ∈ later.relationships, other.id = link.id ∧ other.provenance.resolution ≠ .unresolved

/-- Sets of one revision carry their paths on. -/
def CarriesOn (ids : Identities) (earlier later : MemoryRepositoryLinkCommit) : Prop :=
  earlier.linkSet.revision = later.linkSet.revision → Carries ids earlier later

/-- A run that builds a set finds a graph and has a candidate for every path that a set of its revision has resolved. -/
def KeepsPaths (ids : Identities) (sidecar : MemorySidecar) (run : IndexRun) : Prop :=
  ∀ gathered linked, run.gather ids sidecar = .ok gathered →
    run.resolver.linkedCandidates ids run.project gathered.facts.entities.values = some linked →
    sidecar.repositoryLinkSet (run.linkSetId ids gathered.facts.entities.values) = none →
    ∀ set ∈ sidecar.linkSets, set.linkSet.revision = run.revision ids →
      ∀ link ∈ set.relationships, link.IsPathOf ids run.project → link.provenance.resolution = .resolved →
        run.graph.isSome = true ∧ ∃ candidate ∈ linked, candidate.id = link.id

section Sets

variable {ids : Identities} {sidecar : MemorySidecar} {set : MemoryRepositoryLinkCommit}
  {R : MemoryRepositoryLinkCommit → MemoryRepositoryLinkCommit → Prop}

/-- The latest selected set comes after the others. -/
private theorem exists_latestLinkSet (selected : MemoryRepositoryLinkSetId → Bool)
    (ordered : sidecar.linkSets.Pairwise R) (member : set ∈ sidecar.linkSets) (chosen : selected set.linkSet = true) :
    ∃ latest, sidecar.latestLinkSet selected = some latest ∧ (set = latest ∨ R set latest) := by
  have isSelected : set ∈ sidecar.linkSets.filter (fun set => selected set.linkSet) := mem_filter.mpr ⟨member, chosen⟩
  have stillOrdered := ordered.filter fun set => selected set.linkSet
  rcases eq_nil_or_concat' (sidecar.linkSets.filter (fun set => selected set.linkSet)) with
    none | ⟨earlier, latest, split⟩
  · rw [none] at isSelected
    cases isSelected
  · refine ⟨latest, ?_, ?_⟩
    · unfold latestLinkSet
      rw [split, getLast?_concat]
    · rw [split] at isSelected stillOrdered
      rcases mem_append.mp isSelected with isEarlier | isLast
      · exact .inr ((pairwise_append.mp stillOrdered).2.2 set isEarlier latest mem_cons_self)
      · exact .inl (mem_singleton.mp isLast)

/-- The set that a new one builds on comes after all sets of the revision. -/
private theorem exists_previousLinkSet (sound : SidecarSound ids sidecar) (ordered : sidecar.linkSets.Pairwise R)
    {id : MemoryRepositoryLinkSetId} (unstored : sidecar.repositoryLinkSet id = none)
    (ofProject : id.repository = (LocalRepositoryLinkResolver.new id.revision.project none).repository)
    (member : set ∈ sidecar.linkSets) (ofRevision : set.linkSet.revision = id.revision) :
    ∃ latest ∈ sidecar.linkSets, sidecar.previousLinkSet id = some latest ∧ latest.linkSet.revision = id.revision ∧
      (set = latest ∨ R set latest) := by
  have sameRepository : set.linkSet.repository = id.repository := by
    rw [(sound.linkSets set member).ofProject, ofRevision, ofProject]
  obtain ⟨latest, isLatest, after⟩ := exists_latestLinkSet
    (fun set => set.revision = id.revision && set.repository = id.repository) ordered member
    (by simp [ofRevision, sameRepository])
  obtain ⟨isStored, chosen⟩ := mem_linkSets_of_latestLinkSet isLatest
  refine ⟨latest, isStored, ?_, ?_, after⟩
  · unfold previousLinkSet latestRepositoryLinkSet
    rw [unstored, isLatest, none_or, some_or]
  · exact of_decide_eq_true (Bool.and_eq_true_iff.mp chosen).1

end Sets

variable {link : MemoryRelationship}

section Runs

variable {ids : Identities} {sidecar after : MemorySidecar} {run : IndexRun} {commit : MemoryCommit}

/-- A candidate under the id of a path is that path. -/
private theorem resolution_resolveCandidate_ne {resolver : LocalRepositoryLinkResolver} {version : String} {now : Nat}
    {revision : MemoryRevisionId} {project : ProjectRef} {candidate : LinkCandidate}
    {previous : Option MemoryRelationship} (isNamed : candidate.id = candidate.toReferenceEvidence.linkId ids project)
    (isPath : link.IsPathOf ids project) (same : candidate.id = link.id) (isPrevious : previous = some link)
    (matched : link.provenance.resolution ≠ .unresolved) :
    (resolver.resolveCandidate version now revision previous candidate).provenance.resolution ≠ .unresolved := by
  obtain ⟨source, kind, path, isId⟩ := isPath
  have sameKey := (ids.relationshipId_injective (isNamed.symm.trans (same.trans isId))).2
  have isReference : candidate.reference = .path path := (RelationshipKey.repositoryLink.inj sameKey).2.2
  have carried : matchedBefore previous = some link :=
    filter_eq_some_iff.mpr ⟨isPrevious, decide_eq_true matched⟩
  change (resolver.resolveReference candidate.reference candidate.originSnapshotId previous).2 ≠ .unresolved
  rw [isReference]
  change (resolver.resolvePath path candidate.originSnapshotId previous).2 ≠ .unresolved
  unfold LocalRepositoryLinkResolver.resolvePath
  split
  · simp
  · split
    · simp
    · simp [carryOver, carried]

/-- A new set carries the paths of the set that it builds on. -/
theorem FreshSet.carries {entities : List MemoryEntity} {links latest : MemoryRepositoryLinkCommit}
    (fresh : FreshSet ids run sidecar entities links)
    (isPrevious : sidecar.previousLinkSet links.linkSet = some latest) (latestSound : LinkSetSound ids latest)
    (member : link ∈ latest.relationships) (isPath : link.IsPathOf ids run.project)
    (matched : link.provenance.resolution ≠ .unresolved) (hasGraph : run.graph.isSome = true)
    (isCandidate : ∀ linked, run.resolver.linkedCandidates ids run.project entities = some linked →
      ∃ candidate ∈ linked, candidate.id = link.id) :
    ∃ other ∈ links.relationships, other.id = link.id ∧ other.provenance.resolution ≠ .unresolved := by
  obtain ⟨linked, isLinked, made⟩ := fresh.links
  obtain ⟨candidate, isMember, same⟩ := isCandidate linked isLinked
  have hasSnapshot : run.resolver.repositorySnapshotId.isSome = true := by
    unfold repositorySnapshotId
    rw [isSome_map]
    exact hasGraph
  rw [made]
  refine ⟨_, mem_map.mpr ⟨candidate, isMember, rfl⟩, same, ?_⟩
  refine resolution_resolveCandidate_ne
    ((linked_of_linkedCandidates isLinked).named candidate isMember) isPath same ?_ matched
  unfold previousLinks
  rw [if_pos hasSnapshot, isPrevious, same]
  exact latestSound.find?_eq_some member

theorem Completes.carriesOn (sound : SidecarSound ids sidecar) (ordered : sidecar.linkSets.Pairwise (CarriesOn ids))
    (keeps : KeepsPaths ids sidecar run) (completes : Completes ids sidecar run commit after) :
    after.linkSets.Pairwise (CarriesOn ids) := by
  obtain ⟨isId, stored | fresh⟩ := resolveLinks_cases completes.resolves
  · rw [completes.linkSets, stored, isSome_some, if_pos rfl, append_nil]
    exact ordered
  rw [completes.linkSets, fresh.unstored, isSome_none, if_neg Bool.false_ne_true, pairwise_append]
  refine ⟨ordered, pairwise_singleton .., ?_⟩
  intro set member links isLast
  rw [mem_singleton] at isLast
  subst isLast
  intro ofRevision link isLink isPath resolved
  have isRevision : commit.repositoryLinks.linkSet.revision = run.revision ids :=
    congrArg MemoryRepositoryLinkSetId.revision isId
  have isProject : set.linkSet.revision.project = run.project := by
    rw [ofRevision, isRevision]
    rfl
  rw [isProject] at isPath
  obtain ⟨linked, isLinked, -⟩ := fresh.links
  obtain ⟨hasGraph, isCandidate⟩ := keeps _ linked completes.gathers isLinked (isId ▸ fresh.unstored) set member
    (ofRevision.trans isRevision) link isLink isPath resolved
  have candidates : ∀ found, run.resolver.linkedCandidates ids run.project commit.facts.entities.values = some found →
      ∃ candidate ∈ found, candidate.id = link.id := by
    intro found isFound
    rw [isLinked] at isFound
    cases isFound
    exact isCandidate
  obtain ⟨latest, isStored, isPrevious, latestRevision, rfl | carries⟩ :=
    exists_previousLinkSet sound ordered fresh.unstored (by rw [isId]; rfl) member ofRevision
  · exact fresh.carries isPrevious (sound.linkSets set member) isLink isPath
      (by rw [resolved]; decide) hasGraph candidates
  · obtain ⟨carried, isCarried, same, matched⟩ :=
      carries (ofRevision.trans latestRevision.symm) link isLink (isProject ▸ isPath) resolved
    unfold MemoryRelationship.IsPathOf at isPath
    rw [← same] at isPath candidates ⊢
    exact fresh.carries isPrevious (sound.linkSets latest isStored) isCarried isPath matched hasGraph candidates

/-- Once a path reference has been stored as resolved, the later sets of the revision have it as resolved or stale. -/
theorem resolved_path_carried (ids : Identities) (runs : List IndexRun)
    (keeps : EveryStep (indexStep ids) (fun sidecar run _ => KeepsPaths ids sidecar run) .empty runs) :
    (Machine.run (indexStep ids) .empty runs).linkSets.Pairwise (CarriesOn ids) := by
  have reached : SidecarSound ids (Machine.run (indexStep ids) .empty runs) ∧
      (Machine.run (indexStep ids) .empty runs).linkSets.Pairwise (CarriesOn ids) := by
    refine keeps.run_invariant (fun sidecar => SidecarSound ids sidecar ∧ sidecar.linkSets.Pairwise (CarriesOn ids))
      ⟨.empty ids, List.Pairwise.nil⟩ ?_
    rintro sidecar run ⟨sound, ordered⟩ keepsPaths
    refine ⟨sound.step run, ?_⟩
    unfold indexStep
    rcases index_cases sound run with ⟨commit, after, indexes, completes⟩ | ⟨error, -, indexes⟩
    · rw [indexes]
      exact completes.carriesOn sound ordered keepsPaths
    · rw [indexes]
      exact ordered
  exact reached.2

end Runs

/-! ## Runs over one specification -/

/-- A graph whose current snapshot has the given files. -/
def graphAt (snapshot : String) (paths : List String) : LinkGraph :=
  ⟨snapshot, Table.empty.insertNew snapshot ⟨⟨"local:p", "root"⟩, paths.foldl
    (fun files path => files.insertNew path Runtime.firstTree) .empty, []⟩⟩

/-- A run over one specification that finds the given graph. -/
def specRun (graph : Option LinkGraph) : IndexRun where
  project := ⟨"local", "p"⟩
  version := "1"
  policy := ⟨1, [(.specificationStructure, ⟨true, .curated, .structureOnly⟩)]⟩
  sources := ⟨[⟨"spec.md", some "# T".toList, 3⟩], [], [], none⟩
  sourcesAfter := ⟨[⟨"spec.md", some "# T".toList, 3⟩], [], [], none⟩
  full := false
  graph := graph
  indexedAt := 1
  resolvedAt := 1

def specPathId : MemoryRelationshipId :=
  spelledIdentities.relationshipId ⟨"local", "p"⟩ (.repositoryLink
    (spelledIdentities.entityId ⟨"local", "p"⟩ (.specification (.trackedFile "spec.md"))) .concerns (.path "spec.md"))

/-- The specification is moved away after a run that found no graph. -/
def lostGraphRuns : List IndexRun :=
  [specRun (some (graphAt "a" ["spec.md"])), specRun none, specRun (some (graphAt "b" []))]

/-- Each set of the runs with its revision and the resolution of its links. -/
private theorem lostGraphRuns_sets :
    (Machine.run (indexStep spelledIdentities) .empty lostGraphRuns).linkSets.map (fun set =>
    (set.linkSet.revision, set.relationships.map (fun link => (link.id, link.provenance.resolution)))) =
      [MemoryResolutionState.resolved, .unresolved, .unresolved].map
        (fun resolution => ((specRun none).revision spelledIdentities, [(specPathId, resolution)])) := by
  decide +kernel

variable {set : MemoryRepositoryLinkCommit}

/-- The only link of a set, if that is what its links come to. -/
private theorem exists_single_link {id : MemoryRelationshipId} {resolution : MemoryResolutionState}
    (only : set.relationships.map (fun link => (link.id, link.provenance.resolution)) = [(id, resolution)]) :
    ∃ link, set.relationships = [link] ∧ link.id = id ∧ link.provenance.resolution = resolution := by
  obtain ⟨link, isOnly, found⟩ := map_eq_singleton_iff.mp only
  exact ⟨link, isOnly, (Prod.mk.inj found).1, (Prod.mk.inj found).2⟩

/-- A run without the graph loses the path that the run before it has resolved. -/
theorem resolved_path_not_carried :
    ¬ (Machine.run (indexStep spelledIdentities) .empty lostGraphRuns).linkSets.Pairwise
      (CarriesOn spelledIdentities) := by
  obtain ⟨first, rest, isStored, isFirst, sets⟩ := map_eq_cons_iff.mp lostGraphRuns_sets
  obtain ⟨second, others, rfl, isSecond, -⟩ := map_eq_cons_iff.mp sets
  obtain ⟨resolvedLink, areFirst, firstId, resolved⟩ := exists_single_link (Prod.mk.inj isFirst).2
  obtain ⟨lost, areSecond, -, unresolved⟩ := exists_single_link (Prod.mk.inj isSecond).2
  intro carried
  rw [isStored] at carried
  have carries := (pairwise_cons.mp carried).1 second mem_cons_self
    ((Prod.mk.inj isFirst).1.trans (Prod.mk.inj isSecond).1.symm)
  obtain ⟨other, isOther, -, matched⟩ := carries resolvedLink (by simp [areFirst])
    ⟨_, _, _, by rw [firstId, (Prod.mk.inj isFirst).1]; rfl⟩ resolved
  rw [areSecond, mem_singleton] at isOther
  exact matched (isOther ▸ unresolved)

/-- The run finds a graph and has a candidate for every link that is stored. -/
def coversLinks (ids : Identities) (sidecar : MemorySidecar) (run : IndexRun) : Bool :=
  run.graph.isSome && (run.gather ids sidecar).toOption.any fun gathered =>
    (run.resolver.linkedCandidates ids run.project gathered.facts.entities.values).any fun linked =>
      sidecar.linkSets.all fun set => set.relationships.all fun link => linked.any (·.id = link.id)

variable {ids : Identities} {sidecar : MemorySidecar} {run : IndexRun}

theorem candidate_of_coversLinks (covers : coversLinks ids sidecar run = true) {gathered : Gathered}
    (gathers : run.gather ids sidecar = .ok gathered) {linked : List LinkCandidate}
    (isLinked : run.resolver.linkedCandidates ids run.project gathered.facts.entities.values = some linked)
    (member : set ∈ sidecar.linkSets) (isLink : link ∈ set.relationships) :
    ∃ candidate ∈ linked, candidate.id = link.id := by
  have covered := (Bool.and_eq_true_iff.mp covers).2
  rw [gathers, Except.toOption, any_some, isLinked, any_some] at covered
  have found := all_eq_true.mp (all_eq_true.mp covered set member) link isLink
  obtain ⟨candidate, isCandidate, same⟩ := any_eq_true.mp found
  exact ⟨candidate, isCandidate, of_decide_eq_true same⟩

theorem KeepsPaths.of_coversLinks (covers : coversLinks ids sidecar run = true) : KeepsPaths ids sidecar run := by
  intro gathered linked gathers isLinked _ set member _ link isLink _ _
  exact ⟨(Bool.and_eq_true_iff.mp covers).1, candidate_of_coversLinks covers gathers isLinked member isLink⟩

def movedSpecRuns : List IndexRun := [specRun (some (graphAt "a" ["spec.md"])), specRun (some (graphAt "b" []))]

theorem resolved_path_carried_moved :
    EveryStep (indexStep spelledIdentities) (fun sidecar run _ => KeepsPaths spelledIdentities sidecar run) .empty
        movedSpecRuns ∧
      (Machine.run (indexStep spelledIdentities) .empty movedSpecRuns).linkSets.Pairwise
        (CarriesOn spelledIdentities) := by
  have covers : EveryStep (indexStep spelledIdentities)
      (fun sidecar run _ => coversLinks spelledIdentities sidecar run = true) .empty movedSpecRuns := by
    decide +kernel
  have keeps := covers.mono (P := fun sidecar run _ => KeepsPaths spelledIdentities sidecar run)
    (fun _ _ covers => .of_coversLinks covers)
  exact ⟨keeps, resolved_path_carried _ _ keeps⟩

end Ferrus.ProjectMemory

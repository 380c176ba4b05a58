import Ferrus.Soundness.LinkHistory

/-! # The links that a query shows

A query merges the link sets of a revision, the newest first. That is the set of the latest run as long as every run
adds a set that covers those before it. A run that takes an older set again, or that drops candidates, is shown with
links that it did not determine.
-/

namespace Ferrus.ProjectMemory

open Machine Option MemorySidecar Function

/-- The sidecar, with the links that the latest run for each revision has determined. -/
structure LinkedSidecar where
  sidecar : MemorySidecar
  linked : MemoryRevisionId → Option MemoryRepositoryLinkCommit

open LinkedSidecar

namespace LinkedSidecar

def empty : LinkedSidecar := ⟨.empty, fun _ => none⟩

def step (ids : Identities) (state : LinkedSidecar) (run : IndexRun) : LinkedSidecar :=
  match index ids state.sidecar run with
  | (.ok commit, after) => ⟨after, Function.update state.linked commit.revision (some commit.repositoryLinks)⟩
  | (.error _, after) => { state with sidecar := after }

end LinkedSidecar

/-- The query of the revision shows the links of the set and no other. -/
def Shows (sidecar : MemorySidecar) (revision : MemoryRevisionId) (set : MemoryRepositoryLinkCommit) : Prop :=
  ∀ link, link ∈ (sidecar.relationships revision).values ∧ link.target.isRepository = true ↔ link ∈ set.relationships

/-- The sets of a revision, with the newest last. -/
def MemorySidecar.setsOf (sidecar : MemorySidecar) (revision : MemoryRevisionId) : List MemoryRepositoryLinkCommit :=
  sidecar.linkSets.filter (·.linkSet.revision = revision)

/-- A run takes the newest set of its revision, or makes one with candidates for every link that is stored for it. -/
def KeepsLinks (ids : Identities) (sidecar : MemorySidecar) (run : IndexRun) : Prop :=
  ∀ gathered, run.gather ids sidecar = .ok gathered →
    let id := run.linkSetId ids gathered.facts.entities.values
    match sidecar.repositoryLinkSet id with
    | some set => (sidecar.setsOf id.revision).getLast? = some set
    | none => ∀ linked, run.resolver.linkedCandidates ids run.project gathered.facts.entities.values = some linked →
        ∀ set ∈ sidecar.linkSets, set.linkSet.revision = id.revision →
          ∀ link ∈ set.relationships, ∃ candidate ∈ linked, candidate.id = link.id

/-- The newest set of a revision has a link for every id in the earlier ones. -/
def Covers (sets : List MemoryRepositoryLinkCommit) (newest : MemoryRepositoryLinkCommit) : Prop :=
  ∀ set ∈ sets, ∀ link ∈ set.relationships, ∃ other ∈ newest.relationships, other.id = link.id

section Queries

variable {ids : Identities} {sidecar : MemorySidecar} {revision : MemoryRevisionId}
  {newest : MemoryRepositoryLinkCommit}

/-- The relationships of the revision that are not links. -/
def MemorySidecar.semanticRelationships (sidecar : MemorySidecar) (revision : MemoryRevisionId) :
    Table MemoryRelationshipId MemoryRelationship :=
  ((sidecar.revisions revision).map (·.relationships)).getD .empty

/-- What a query finds under an id: a relationship of the revision, or else the newest link. -/
private theorem get?_relationships (id : MemoryRelationshipId) : (sidecar.relationships revision).get? id =
      ((sidecar.semanticRelationships revision).get? id).or ((sidecar.linkRows revision).find? (·.id = id)) :=
  Table.get?_foldl_insertNew MemoryRelationship.id _ _ _

/-- The newest set comes first and covers the others. -/
private theorem find?_linkRows (isNewest : (sidecar.setsOf revision).getLast? = some newest)
    (covers : Covers (sidecar.setsOf revision) newest) (id : MemoryRelationshipId) :
    (sidecar.linkRows revision).find? (·.id = id) = newest.relationships.find? (·.id = id) := by
  obtain ⟨earlier, split⟩ := List.getLast?_eq_some_iff.mp isNewest
  have rows : sidecar.linkRows revision =
      newest.relationships ++ earlier.reverse.flatMap (·.relationships) := by
    change (sidecar.setsOf revision).reverse.flatMap (·.relationships) = _
    rw [split, List.reverse_append, List.reverse_singleton, List.singleton_append, List.flatMap_cons]
  rw [rows, List.find?_append]
  cases found : newest.relationships.find? (·.id = id) with
  | some link => rfl
  | none =>
    rw [none_or, List.find?_eq_none]
    intro link member same
    obtain ⟨set, isSet, isLink⟩ := List.mem_flatMap.mp member
    have isStored : set ∈ sidecar.setsOf revision := by
      rw [split]
      exact List.mem_append_left _ (List.mem_reverse.mp isSet)
    obtain ⟨other, isOther, sameId⟩ := covers set isStored link isLink
    exact List.find?_eq_none.mp found other isOther (sameId ▸ same)

section

variable (sound : SidecarSound ids sidecar)

include sound

private theorem semantic_of_get? {id : MemoryRelationshipId} {relationship : MemoryRelationship}
    (found : (sidecar.semanticRelationships revision).get? id = some relationship) :
    relationship.id = id ∧ Semantic ids revision.project relationship.id relationship.target := by
  unfold semanticRelationships at found
  cases stored : sidecar.revisions revision with
  | none =>
    rw [stored] at found
    cases found
  | some facts =>
    rw [stored] at found
    exact sound.semantic revision facts stored id relationship found

private theorem shows_newest (isNewest : (sidecar.setsOf revision).getLast? = some newest)
    (covers : Covers (sidecar.setsOf revision) newest) : Shows sidecar revision newest := by
  obtain ⟨isStored, -⟩ := List.mem_filter.mp (List.mem_of_getLast? isNewest)
  have newestSound := sound.linkSets newest isStored
  intro link
  constructor
  · rintro ⟨shown, isRepository⟩
    obtain ⟨id, found⟩ := (Table.mem_values_iff _).mp shown
    rw [get?_relationships] at found
    rcases or_eq_some_iff.mp found with isSemantic | ⟨-, isLink⟩
    · obtain ⟨-, isMemory, -⟩ := semantic_of_get? sound isSemantic
      rw [isMemory] at isRepository
      cases isRepository
    · rw [find?_linkRows isNewest covers] at isLink
      exact List.mem_of_find?_eq_some isLink
  · intro member
    -- A relationship of the revision has not the id of a link.
    have noSemantic : (sidecar.semanticRelationships revision).get? link.id = none := by
      by_contra some
      obtain ⟨relationship, found⟩ := Option.ne_none_iff_exists'.mp some
      obtain ⟨isId, -, key, isKey, isSemantic⟩ := semantic_of_get? sound found
      obtain ⟨reference, isLink⟩ := newestSound.named link member
      exact isSemantic _ _ _ (ids.relationshipId_injective (isKey.symm.trans (isId.trans isLink))).2
    have found : (sidecar.relationships revision).get? link.id = some link := by
      rw [get?_relationships, noSemantic, none_or, find?_linkRows isNewest covers]
      exact newestSound.find?_eq_some member
    exact ⟨List.mem_map.mpr ⟨(link.id, link), (Table.get?_eq_some_iff _).mp found, rfl⟩,
      newestSound.repository link member⟩

end

end Queries

/-! ## Runs -/

/-- The newest set of each revision is that of its latest run, and covers the others. -/
structure LinkedSidecar.Newest (ids : Identities) (state : LinkedSidecar) : Prop where
  sound : SidecarSound ids state.sidecar
  newest : ∀ revision, (state.sidecar.setsOf revision).getLast? = state.linked revision
  covers : ∀ revision set, state.linked revision = some set → Covers (state.sidecar.setsOf revision) set

section Runs

variable {ids : Identities} {state : LinkedSidecar} {run : IndexRun} {commit : MemoryCommit} {after : MemorySidecar}

theorem LinkedSidecar.Newest.empty (ids : Identities) : Newest ids .empty where
  sound := .empty ids
  newest _ := rfl
  covers _ _ none := (some_ne_none _ none.symm).elim

theorem FreshSet.covers {entities : List MemoryEntity} {sidecar : MemorySidecar} {links : MemoryRepositoryLinkCommit}
    (fresh : FreshSet ids run sidecar entities links) {sets : List MemoryRepositoryLinkCommit}
    (covered : ∀ linked, run.resolver.linkedCandidates ids run.project entities = some linked →
      ∀ set ∈ sets, ∀ link ∈ set.relationships, ∃ candidate ∈ linked, candidate.id = link.id) :
    Covers (sets ++ [links]) links := by
  obtain ⟨linked, isLinked, made⟩ := fresh.links
  intro set member link isLink
  rcases List.mem_append.mp member with earlier | isLast
  · obtain ⟨candidate, isCandidate, same⟩ := covered linked isLinked set earlier link isLink
    exact ⟨_, made ▸ List.mem_map.mpr ⟨candidate, isCandidate, rfl⟩, same⟩
  · rw [List.mem_singleton.mp isLast] at isLink
    exact ⟨link, isLink, rfl⟩

theorem LinkedSidecar.Newest.complete (inv : state.Newest ids) (keeps : KeepsLinks ids state.sidecar run)
    (completes : Completes ids state.sidecar run commit after) :
    Newest ids ⟨after, update state.linked commit.revision (some commit.repositoryLinks)⟩ := by
  obtain ⟨isId, found⟩ := resolveLinks_cases completes.resolves
  have isRevision : commit.repositoryLinks.linkSet.revision = commit.revision := by
    rw [completes.revision]
    exact congrArg MemoryRepositoryLinkSetId.revision isId
  have kept := keeps _ completes.gathers
  dsimp only at kept
  rw [← isId, isRevision] at kept
  rcases found with stored | fresh
  · rw [stored] at kept
    have sameSets : after.linkSets = state.sidecar.linkSets := by
      rw [completes.linkSets, stored, isSome_some, if_pos rfl, List.append_nil]
    have sameLinked : update state.linked commit.revision (some commit.repositoryLinks) = state.linked := by
      rw [← kept, inv.newest, update_eq_self]
    refine ⟨completes.sound inv.sound, ?_, ?_⟩
    all_goals
      unfold setsOf
      rw [sameSets, sameLinked]
    · exact inv.newest
    · exact inv.covers
  · rw [fresh.unstored] at kept
    have newSets : ∀ revision, after.setsOf revision = state.sidecar.setsOf revision ++
        if commit.revision = revision then [commit.repositoryLinks] else [] := by
      intro revision
      unfold setsOf
      rw [completes.linkSets, fresh.unstored, isSome_none, if_neg Bool.false_ne_true, List.filter_append,
        List.filter_singleton, isRevision]
      by_cases same : commit.revision = revision <;> simp [same]
    refine ⟨completes.sound inv.sound, ?_, ?_⟩
    · intro revision
      dsimp only
      rw [newSets]
      by_cases same : commit.revision = revision
      · subst same
        rw [if_pos rfl, List.getLast?_concat, update_self]
      · rw [if_neg same, List.append_nil, update_of_ne (Ne.symm same)]
        exact inv.newest revision
    · intro revision set isLinked
      dsimp only at isLinked ⊢
      rw [newSets]
      by_cases same : commit.revision = revision
      · subst same
        rw [update_self] at isLinked
        cases isLinked
        rw [if_pos rfl]
        refine fresh.covers fun linked areLinked set member => ?_
        obtain ⟨isStored, ofRevision⟩ := List.mem_filter.mp member
        exact kept linked areLinked set isStored (of_decide_eq_true ofRevision)
      · rw [update_of_ne (Ne.symm same)] at isLinked
        rw [if_neg same, List.append_nil]
        exact inv.covers revision set isLinked

theorem LinkedSidecar.Newest.step (inv : state.Newest ids) (keeps : KeepsLinks ids state.sidecar run) :
    (state.step ids run).Newest ids := by
  unfold LinkedSidecar.step
  rcases index_cases inv.sound run with ⟨commit, after, indexes, completes⟩ | ⟨error, -, indexes⟩
  · rw [indexes]
    exact inv.complete keeps completes
  · rw [indexes]
    exact inv

/-- A query shows the links that the latest run for the revision has determined. -/
theorem query_shows_latest_links (ids : Identities) (runs : List IndexRun)
    (keeps : EveryStep (step ids) (fun state run _ => KeepsLinks ids state.sidecar run) .empty runs)
    (revision : MemoryRevisionId) (set : MemoryRepositoryLinkCommit)
    (isLatest : (Machine.run (step ids) .empty runs).linked revision = some set) :
    Shows (Machine.run (step ids) .empty runs).sidecar revision set := by
  have inv := keeps.run_invariant (LinkedSidecar.Newest ids) (.empty ids) fun _ _ inv kept => inv.step kept
  exact shows_newest inv.sound ((inv.newest revision).trans isLatest) (inv.covers revision set isLatest)

end Runs

/-! ## A snapshot that comes back -/

/-- The specification is moved away, and then back. -/
def movedBackRuns : List IndexRun := movedSpecRuns ++ [specRun (some (graphAt "a" ["spec.md"]))]

/-- The links of the latest run and those that the query shows. -/
private theorem movedBackRuns_links :
    let state := Machine.run (step spelledIdentities) .empty movedBackRuns
    let revision := (specRun none).revision spelledIdentities
    (state.linked revision).map (·.relationships.map (·.provenance.resolution)) = some [.resolved] ∧
      (state.sidecar.relationships revision).values.map (·.provenance.resolution) = [.stale] := by
  decide +kernel

/-- The latest run has resolved the link, and the query still shows the stale one of the run before it. -/
theorem query_shows_earlier_links :
    let state := Machine.run (step spelledIdentities) .empty movedBackRuns
    let revision := (specRun none).revision spelledIdentities
    ∃ set, state.linked revision = some set ∧ ¬ Shows state.sidecar revision set := by
  obtain ⟨latest, shown⟩ := movedBackRuns_links
  obtain ⟨set, isLatest, links⟩ := map_eq_some_iff.mp latest
  refine ⟨set, isLatest, fun shows => ?_⟩
  obtain ⟨link, areLinks, resolved⟩ := List.map_eq_singleton_iff.mp links
  have isShown := ((shows link).mpr (by simp [areLinks])).1
  have isStale := List.mem_map_of_mem isShown (f := fun link : MemoryRelationship => link.provenance.resolution)
  rw [shown, List.mem_singleton, resolved] at isStale
  cases isStale

/-- The run makes a new set that covers all links that are stored. -/
def buildsCovering (ids : Identities) (sidecar : MemorySidecar) (run : IndexRun) : Bool :=
  coversLinks ids sidecar run && (run.gather ids sidecar).toOption.all fun gathered =>
    (sidecar.repositoryLinkSet (run.linkSetId ids gathered.facts.entities.values)).isNone

theorem KeepsLinks.of_buildsCovering {ids : Identities} {sidecar : MemorySidecar} {run : IndexRun}
    (builds : buildsCovering ids sidecar run = true) : KeepsLinks ids sidecar run := by
  obtain ⟨covers, unstored⟩ := Bool.and_eq_true_iff.mp builds
  intro gathered gathers
  dsimp only
  rw [gathers, Except.toOption, all_some, isNone_iff_eq_none] at unstored
  rw [unstored]
  intro linked isLinked set member _ link isLink
  exact candidate_of_coversLinks covers gathers isLinked member isLink

theorem query_shows_latest_links_moved :
    EveryStep (step spelledIdentities) (fun state run _ => KeepsLinks spelledIdentities state.sidecar run) .empty
        movedSpecRuns ∧
      ∃ set, (Machine.run (step spelledIdentities) .empty movedSpecRuns).linked
          ((specRun none).revision spelledIdentities) = some set ∧
        Shows (Machine.run (step spelledIdentities) .empty movedSpecRuns).sidecar
          ((specRun none).revision spelledIdentities) set := by
  have builds : EveryStep (step spelledIdentities)
      (fun state run _ => buildsCovering spelledIdentities state.sidecar run = true) .empty movedSpecRuns := by
    decide +kernel
  have keeps := builds.mono (P := fun state run _ => KeepsLinks spelledIdentities state.sidecar run)
    (fun _ _ builds => .of_buildsCovering builds)
  have linked : ((Machine.run (step spelledIdentities) .empty movedSpecRuns).linked
      ((specRun none).revision spelledIdentities)).isSome = true := by
    decide +kernel
  obtain ⟨set, isLatest⟩ := isSome_iff_exists.mp linked
  exact ⟨keeps, set, isLatest, query_shows_latest_links _ _ keeps _ _ isLatest⟩

end Ferrus.ProjectMemory

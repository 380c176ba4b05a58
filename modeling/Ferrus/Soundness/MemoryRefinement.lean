import Ferrus.Machine.Core.Run
import Ferrus.Proofs.MemoryBuilds

/-! # Incremental indexing of memory refines full indexing

Whatever fragments earlier runs have cached and whatever revisions they have stored, a run that reuses them ends with
the facts of a full run of the same sources in an empty sidecar, apart from timestamps. Both fail for the same reason,
except that the links of a run also depend on the graph it finds and on the sets before it.
-/

namespace Ferrus.ProjectMemory

open Machine

section Outcomes

variable {ids : Identities} {run : IndexRun} {sidecar : MemorySidecar}

/-- The run has gathered its facts from sources that did not change; only its links can still fail. -/
def Reaches (result : Except MemoryIndexError MemoryCommit) : Prop :=
  (∃ commit, result = .ok commit) ∨ result = .error .links

/-- How a run of given sources ends, apart from its links. -/
inductive Ends (ids : Identities) (run : IndexRun) (result : Except MemoryIndexError MemoryCommit) : Prop
  | failed (error : MemoryIndexError) (fails : referenceFacts ids run = .error error) (isError : result = .error error)
  | changed (facts : MemoryFacts) (gathers : referenceFacts ids run = .ok facts) (changes : run.revalidates ids = false)
      (isError : result = .error .source)
  | reached (facts : MemoryFacts) (gathers : referenceFacts ids run = .ok facts) (valid : run.revalidates ids = true)
      (reaches : Reaches result)

private theorem ends_prepareCommit (sound : CacheSound ids sidecar.cache) :
    Ends ids run (run.prepareCommit ids sidecar) := by
  have reference : (run.gather ids sidecar).map (·.facts.timeless) = referenceFacts ids run := gather_timeless sound
  cases gathers : run.gather ids sidecar with
  | error error =>
    rw [gathers] at reference
    refine .failed error reference.symm ?_
    unfold IndexRun.prepareCommit
    rw [gathers]
    rfl
  | ok gathered =>
    rw [gathers] at reference
    simp only [IndexRun.prepareCommit, gathers, bind, Except.bind]
    cases valid : run.revalidates ids with
    | false => exact .changed _ reference.symm valid rfl
    | true =>
      refine .reached _ reference.symm valid ?_
      cases run.resolveLinks ids sidecar gathered.facts.entities.values with
      | some links => exact .inl ⟨_, rfl⟩
      | none => exact .inr rfl

private theorem index_of_failed {error : MemoryIndexError} (fails : run.prepareCommit ids sidecar = .error error) :
    index ids sidecar run = (.error error, sidecar) := by
  unfold index
  rw [fails]

private theorem ends_index (sound : SidecarSound ids sidecar) : Ends ids run (index ids sidecar run).1 := by
  have ends : Ends ids run (run.prepareCommit ids sidecar) := ends_prepareCommit sound.cache
  cases prepares : run.prepareCommit ids sidecar with
  | error error =>
    rw [index_of_failed prepares]
    rw [prepares] at ends
    exact ends
  | ok commit =>
    obtain ⟨after, indexes, -⟩ := index_of_prepared sound prepares
    rw [indexes]
    rw [prepares] at ends
    exact ends

/-- The facts that the sidecar holds for the revision of a run that completes. -/
private theorem stored_of_index (sound : SidecarSound ids sidecar) {commit : MemoryCommit}
    (indexes : (index ids sidecar run).1 = .ok commit) : commit.revision = run.revision ids ∧
      ∃ stored, (index ids sidecar run).2.revisions commit.revision = some stored ∧
        referenceFacts ids run = .ok stored.timeless := by
  rcases index_cases sound run with ⟨found, after, isIndex, completes⟩ | ⟨error, -, isIndex⟩
  · rw [isIndex] at indexes ⊢
    cases indexes
    refine ⟨completes.revision, _, by rw [completes.revisions, Function.update_self], ?_⟩
    have reference : referenceFacts ids run = .ok commit.facts.timeless := by
      rw [← gather_timeless sound.cache, completes.gathers]
      rfl
    cases stored : sidecar.revisions commit.revision with
    | none => exact reference
    | some facts =>
      obtain ⟨other, sameRevision, otherFacts⟩ := sound.revisions _ _ stored
      rw [Option.getD_some,
        ← referenceFacts_unique (completes.revision.symm.trans sameRevision.symm) reference otherFacts]
      exact reference
  · rw [isIndex] at indexes
    cases indexes

end Outcomes

/-- A full run of the same sources, at other times and with any graph. -/
def IndexRun.rebuild (run : IndexRun) (graph : Option LinkGraph) (indexedAt resolvedAt : Nat) : IndexRun :=
  { run with full := true, graph, indexedAt, resolvedAt }

/-- A run ends as a full run does, with the same facts. The links of the two may differ. -/
structure RefinesFull (incremental full : Except MemoryIndexError MemoryCommit × MemorySidecar) : Prop where
  collision : incremental.1 = .error .factCollision ↔ full.1 = .error .factCollision
  outcome : incremental.1 = full.1 ∨ Reaches incremental.1 ∧ Reaches full.1
  facts : ∀ commit rebuild, incremental.1 = .ok commit → full.1 = .ok rebuild → commit.revision = rebuild.revision ∧
    ∃ stored rebuilt, incremental.2.revisions commit.revision = some stored ∧
      full.2.revisions rebuild.revision = some rebuilt ∧ stored.timeless = rebuilt.timeless

section Comparison

variable {ids : Identities} {sidecar fresh : MemorySidecar} {run other : IndexRun}

theorem Reaches.ne_factCollision {result : Except MemoryIndexError MemoryCommit} (reaches : Reaches result) :
    result ≠ .error .factCollision := by
  rcases reaches with ⟨commit, rfl⟩ | rfl <;> simp

theorem Ends.agree {result otherResult : Except MemoryIndexError MemoryCommit}
    (sameFacts : referenceFacts ids run = referenceFacts ids other)
    (sameSources : run.revalidates ids = other.revalidates ids) (ends : Ends ids run result)
    (otherEnds : Ends ids other otherResult) : result = otherResult ∨ Reaches result ∧ Reaches otherResult := by
  cases ends <;> cases otherEnds <;> simp_all

/-- Two runs with the same facts to gather and the same sources to revalidate. -/
theorem RefinesFull.of_sameSources (sound : SidecarSound ids sidecar) (freshSound : SidecarSound ids fresh)
    (sameRevision : run.revision ids = other.revision ids)
    (sameFacts : referenceFacts ids run = referenceFacts ids other)
    (sameSources : run.revalidates ids = other.revalidates ids) :
    RefinesFull (index ids sidecar run) (index ids fresh other) where
  outcome := (ends_index sound).agree sameFacts sameSources (ends_index freshSound)
  collision := by
    rcases (ends_index sound).agree sameFacts sameSources (ends_index freshSound) with same | ⟨reaches, otherReaches⟩
    · rw [same]
    · exact iff_of_false reaches.ne_factCollision otherReaches.ne_factCollision
  facts := by
    intro commit rebuild completes alsoCompletes
    obtain ⟨revision, stored, isStored, reference⟩ := stored_of_index sound completes
    obtain ⟨otherRevision, rebuilt, isRebuilt, otherReference⟩ := stored_of_index freshSound alsoCompletes
    refine ⟨by rw [revision, otherRevision, sameRevision], stored, rebuilt, isStored, isRebuilt, ?_⟩
    rw [sameFacts, otherReference] at reference
    exact (Except.ok.inj reference).symm

end Comparison

/-- After any history, an incremental run agrees with a full one that starts without stored facts. -/
theorem incremental_refines_full (ids : Identities) (history : List IndexRun) (run : IndexRun)
    (graph : Option LinkGraph) (indexedAt resolvedAt : Nat) :
    RefinesFull (index ids (Machine.run (indexStep ids) .empty history) { run with full := false })
      (index ids .empty (run.rebuild graph indexedAt resolvedAt)) := by
  have sound : SidecarSound ids (Machine.run (indexStep ids) .empty history) :=
    run_invariant (SidecarSound ids) (SidecarSound.empty ids) (fun _ run sound => sound.step run) history
  exact .of_sameSources sound (.empty ids) rfl rfl rfl

end Ferrus.ProjectMemory

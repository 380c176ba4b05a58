import Ferrus.Soundness.FactSets

/-! # Conflicting facts of a stream

Two facts of one kind with one id and different contents should make the preparation of a publication fail, wherever
they stand in the stream. They do if they are merged in one table and do not compare equal. Relationships into a
repository are merged in a table of their own, so one of them may share its id with another relationship.
-/

namespace Ferrus.Distributed

open List

/-- Two facts with one id and different contents. -/
def Conflicts {α : Type} (id : α → String) (facts : List α) : Prop :=
  ∃ first ∈ facts, ∃ second ∈ facts, id first = id second ∧ first ≠ second

/-- All relationships of a stream. -/
def allRelationshipsIn (batches : List FactBatch) : List MemoryRelationship := batches.flatMap (·.payload.relationships)

variable {codec : PublicationCodec} {batches : List FactBatch} {maxFacts : Nat}

/-- The stream is valid, and two of its facts in one table have one id and do not compare equal, before any batch that
does not fit, or all batches fit and an end is missing. -/
def Clashes (codec : PublicationCodec) (job : IndexJobRef) (asks : FactTarget → Bool) (Agree : List FactBatch → Prop)
    (ends : Bool) (batches : List FactBatch) : Prop :=
  validateBatchStream codec.toBatchCodec job batches = true ∧ (¬ Agree (fitting asks batches) ∨
    (∀ batch ∈ batches, fits asks (sourceOf batches) batch = true) ∧ ends = false)

/-- A conflict is found while the stream is read or when its ends are looked up. -/
theorem StreamLaw.clashes_iff {σ α : Type} {add : σ → FactBatch → Except RemoteStoreError σ} {asks : FactTarget → Bool}
    {Agree : List FactBatch → Prop} [DecidablePred Agree] {read : List FactBatch → σ} {job : IndexJobRef} {ends : Bool}
    {answer : σ → Except RemoteStoreError α} (law : StreamLaw add asks Agree read)
    (answers : Agree batches → (answer (read batches) = .error .factConflict ↔ ends = false))
    (valid : validateBatchStream codec.toBatchCodec job batches = true) :
    (batches.foldlM add (read []) >>= answer) = .error .factConflict ↔ Clashes codec job asks Agree ends batches := by
  rw [law.foldlM_conflict_iff, Clashes, and_iff_right valid]
  by_cases agree : Agree batches
  · rw [answers agree, and_iff_right agree]
  · refine or_congr_right' fun agreed => ?_
    have unfit : ¬ ∀ batch ∈ batches, fits asks (sourceOf batches) batch = true := fun every =>
      agree (takeWhile_eq_self_iff.mpr every ▸ not_not.mp agreed)
    simp [agree, unfit]

private theorem prepareGraph_conflict_iff {request : PublishGraphRequest} :
    prepareGraph codec request batches maxFacts = .error .factConflict ↔
      Clashes codec request.job request.asksFor (GraphIdsAgree codec)
        ((edgesIn batches).all (hasEnds batches)) batches := by
  by_cases valid : validateBatchStream codec.toBatchCodec request.job batches = true
  · rw [← Except.map_eq_error_iff, prepareGraph_map maxFacts valid]
    refine (GraphFacts.streamLaw codec request).clashes_iff (fun agree => ?_) valid
    rw [GraphFacts.answer, GraphFacts.all_holdsEnds agree]
    split_ifs <;> simp_all
  · simp [prepareGraph, Clashes, valid]

private theorem prepareMemory_conflict_iff {request : PublishMemoryRequest} :
    prepareMemory codec request batches maxFacts = .error .factConflict ↔
      Clashes codec request.job request.asksFor (MemoryIdsAgree codec)
        ((relationshipsIn batches false).all (hasEntities batches) &&
          (relationshipsIn batches true).all (hasLink batches ((sourceOf batches).bind (·.1.links?)))) batches := by
  by_cases valid : validateBatchStream codec.toBatchCodec request.job batches = true
  · rw [← Except.map_eq_error_iff, prepareMemory_map maxFacts valid]
    refine (MemoryFacts.streamLaw codec request).clashes_iff (fun agree => ?_) valid
    rw [MemoryFacts.answer, MemoryFacts.all_holdsEnds agree, MemoryFacts.holdsLinks_read agree,
      show (MemoryFacts.read codec batches).links? = (sourceOf batches).bind (·.1.links?) from rfl]
    split_ifs <;> simp_all
  · simp [prepareMemory, Clashes, valid]

/-- A stream with two nodes, edges, entities or relationships of one id and different contents is refused with a
conflict exactly if facts of one table clash in it, so that two relationships of one id are not seen if only one of them
leads into the repository. -/
theorem conflicting_facts_refused (codec : PublicationCodec) :
    (∀ (request : PublishGraphRequest) (batches : List FactBatch) (maxFacts : Nat),
      (Conflicts (·.id) (nodesIn batches) ∨ Conflicts (·.id) (edgesIn batches) →
        prepareGraph codec request batches maxFacts = .error .factConflict) ↔
      (Conflicts (·.id) (nodesIn batches) ∨ Conflicts (·.id) (edgesIn batches) →
        Clashes codec request.job request.asksFor (GraphIdsAgree codec) ((edgesIn batches).all (hasEnds batches))
          batches)) ∧
    (∀ (request : PublishMemoryRequest) (batches : List FactBatch) (maxFacts : Nat),
      (Conflicts (·.id) (entitiesIn batches) ∨ Conflicts (·.id) (allRelationshipsIn batches) →
        prepareMemory codec request batches maxFacts = .error .factConflict) ↔
      (Conflicts (·.id) (entitiesIn batches) ∨ Conflicts (·.id) (allRelationshipsIn batches) →
        Clashes codec request.job request.asksFor (MemoryIdsAgree codec)
          ((relationshipsIn batches false).all (hasEntities batches) &&
            (relationshipsIn batches true).all (hasLink batches ((sourceOf batches).bind (·.1.links?)))) batches)) :=
  ⟨fun _ _ _ => imp_congr_right fun _ => prepareGraph_conflict_iff,
    fun _ _ _ => imp_congr_right fun _ => prepareMemory_conflict_iff⟩

/-! ### A stream with one id twice -/

def exampleProvenance (resolution : MemoryResolutionState) : MemoryProvenance := ⟨"source", resolution, 0, 0⟩

def exampleEntity (content : String) : MemoryEntity :=
  ⟨"identity-a", "revision-a", "entity-a", content, exampleProvenance .resolved⟩

def exampleLinks : RemoteMemoryLinkSetTarget :=
  ⟨⟨exampleRepository, "snapshot-a"⟩, [], ⟨"links-a", "identity-a", "revision-a", "repository", some "snapshot-a",
    "resolver"⟩⟩

def memoryBatch (sequence : Nat) (finalBatch : Bool) (entities : List MemoryEntity)
    (relationships : List MemoryRelationship) : FactBatch :=
  .identified exampleCodec.toBatchCodec { exampleJob with kind := .projectMemory }
    (.projectMemory ⟨exampleProject, "revision-a"⟩ "identity-a" "build-a" (some exampleLinks)) "memory-all" sequence
    "extractors-1" finalBatch (.projectMemory entities relationships [])

def exampleMemoryRequest : PublishMemoryRequest :=
  ⟨controlProtocolVersion, { exampleJob with kind := .projectMemory }, "worker-1", 1, exampleProject, "main",
    "revision-a", none⟩

def entityRelationship : MemoryRelationship :=
  ⟨"identity-a", "revision-a", "relationship-a", "entity-a", .memoryEntity "entity-a", "", exampleProvenance .resolved⟩

def repositoryRelationship : MemoryRelationship :=
  ⟨"identity-a", "revision-a", "relationship-a", "entity-a", .repositoryPath "repository" "src/a" (some "snapshot-a"),
    "", exampleProvenance .resolved⟩

/-- One id for a relationship between entities and one into the repository. -/
def twoRelationships : List FactBatch :=
  [memoryBatch 0 true [exampleEntity "before"] [entityRelationship, repositoryRelationship]]

/-- The stream is prepared, with both relationships. -/
theorem not_conflicting_facts_refused_routed : Conflicts (·.id) (allRelationshipsIn twoRelationships) ∧
    (prepareMemory exampleCodec.toPublicationCodec exampleMemoryRequest twoRelationships 10).isOk = true :=
  ⟨⟨entityRelationship, by decide, repositoryRelationship, by decide, rfl, by decide⟩, by decide⟩

end Ferrus.Distributed

import Ferrus.Proofs.WorkerBatches
import Ferrus.Soundness.PublicationSwap

/-! # What is prepared depends on the set of facts

Two valid streams for one target that carry the same facts are prepared to the same list, counts and digest,
however the facts are split, ordered and repeated, unless two nodes or edges of one id compare equal and are not
identical: then the later one is kept. A stream that is accepted has both ends of its edges and relationships.
-/

namespace Ferrus.Distributed

open List Table

/-- A valid stream for the target. -/
structure StreamFor (codec : BatchCodec) (job : IndexJobRef) (target : FactTarget) (batches : List FactBatch) :
    Prop where
  valid : validateBatchStream codec job batches = true
  target : ∀ batch ∈ batches, batch.header.target = target

/-- All batches name one extractor set. -/
def OneExtractorSet (batches : List FactBatch) : Prop :=
  ∃ digest, ∀ batch ∈ batches, batch.header.extractorSetDigest = digest

/-- The fact list, the counts and the digest of a revision. -/
def PreparedRevision.content (revision : PreparedRevision) : List PlainFact × RemoteFactCounts × Digest :=
  (revision.facts, revision.counts, revision.factSetDigest)

/-- The content of a memory revision and that of its link set. -/
def PreparedMemory.content (prepared : PreparedMemory) : (List PlainFact × RemoteFactCounts × Digest) ×
      Option (List MemoryRelationship × List PlainFact × RemoteFactCounts × Digest) :=
  (prepared.revision.content, prepared.repositoryLinks.map fun links => (links.relationships, links.revision.content))

namespace StreamFor

variable {codec : BatchCodec} {job : IndexJobRef} {target : FactTarget} {batches : List FactBatch}

theorem nonempty (stream : StreamFor codec job target batches) : batches ≠ [] :=
  (validateBatchStream_iff.mp stream.valid).1

theorem kinds (stream : StreamFor codec job target batches) (batch : FactBatch) (member : batch ∈ batches) :
    batch.header.target.kind = batch.payload.kind := by
  obtain ⟨nonempty, each⟩ := validateBatchStream_iff.mp stream.valid
  obtain ⟨index, found⟩ := mem_iff_getElem?.mp member
  have isFirst : batches[0]? = some _ := getElem?_eq_getElem (length_pos_iff.mpr nonempty)
  have valid := (each index batch _ found isFirst).1
  simp only [FactBatch.validate, Bool.and_eq_true, decide_eq_true_eq] at valid
  exact valid.1.1.1.1.1.2.symm.trans valid.1.1.1.1.2

/-- Streams with the same facts get the same answer, if the answer depends on what is read of them. -/
theorem answers_alike {σ α : Type} {add again : σ → FactBatch → Except RemoteStoreError σ}
    {asks asksAgain : FactTarget → Bool} {Agree : List FactBatch → Prop} [DecidablePred Agree]
    {read : List FactBatch → σ}
    (law : StreamLaw add asks Agree read) (lawAgain : StreamLaw again asksAgain Agree read) {jobAgain : IndexJobRef}
    {first second : List FactBatch} (firstStream : StreamFor codec job target first)
    (secondStream : StreamFor codec jobAgain target second) (oneSet : OneExtractorSet first)
    (otherSet : OneExtractorSet second) (sameAsks : asks target = asksAgain target)
    (sameAgree : Agree first ↔ Agree second)
    {answer : σ → Except RemoteStoreError α} (alike : Agree first → answer (read first) = answer (read second)) :
    (first.foldlM add (read []) >>= answer) = (second.foldlM again (read []) >>= answer) := by
  obtain ⟨digest, isDigest⟩ := oneSet
  obtain ⟨otherDigest, isOther⟩ := otherSet
  rw [law.foldlM_uniform firstStream.nonempty (fun batch member =>
    ⟨firstStream.target batch member, isDigest batch member⟩) firstStream.kinds,
    lawAgain.foldlM_uniform secondStream.nonempty
      (fun batch member => ⟨secondStream.target batch member, isOther batch member⟩) secondStream.kinds, sameAsks]
  cases asksAgain target with
  | false => rfl
  | true =>
    by_cases agree : Agree first
    · rw [if_pos agree, if_pos (sameAgree.mp agree)]
      exact alike agree
    · rw [if_neg agree, if_neg (mt sameAgree.mpr agree)]

end StreamFor

variable {first second batches : List FactBatch} {codec : PublicationCodec} {maxFacts : Nat}

/-! ## Graphs -/

/-- Nodes with one id that compare equal are identical, and so are edges: no two differ only in the sign of a zero. -/
structure GraphToldApart (batches : List FactBatch) : Prop where
  nodes : ToldApart (·.id) (nodesIn batches)
  edges : ToldApart (·.id) (edgesIn batches)

/-- Every node and every edge compares equal to itself: none of them has a NaN. -/
structure GraphReflexive (batches : List FactBatch) : Prop where
  nodes : ∀ node ∈ nodesIn batches, PartialEq.eq node node = true
  edges : ∀ edge ∈ edgesIn batches, PartialEq.eq edge edge = true

/-- Both ends of an edge are nodes of the stream, unless it leaves the repository. -/
def hasEnds (batches : List FactBatch) (edge : GraphEdge) : Bool :=
  (nodesIn batches).any (·.id = edge.source) &&
    match edge.target with
    | .node id => (nodesIn batches).any (·.id = id)
    | .external _ | .unresolved _ => true

private theorem hasEnds_congr {edge other : GraphEdge} (equal : PartialEq.eq edge other = true) :
    hasEnds batches edge = hasEnds batches other := by
  have same : ({ edge with properties := .empty } : GraphEdge) = { other with properties := .empty } :=
    of_decide_eq_true (Bool.and_eq_true_iff.mp equal).1
  rw [hasEnds, hasEnds, show edge.source = other.source from congrArg (·.source) same,
    show edge.target = other.target from congrArg (·.target) same]

private theorem graphIdsAgree_congr (told : GraphToldApart first) (reflexive : GraphReflexive first)
    (same : factsOf first = factsOf second) : GraphIdsAgree codec first ↔ GraphIdsAgree codec second := by
  refine and_congr (keysAgree_congr told.nodes reflexive.nodes fun _ => ?_)
    (and_congr (keysAgree_congr told.edges reflexive.edges fun _ => ?_)
      (keysAgree_congr (toldApart_exact _ _) (fun _ _ => PartialEq.exact_refl _) fun _ => ?_))
  · rw [mem_nodesIn, mem_nodesIn, same]
  · rw [mem_edgesIn, mem_edgesIn, same]
  · rw [mem_graphDiagnosticsIn, mem_graphDiagnosticsIn, same]

namespace GraphFacts

def content (codec : PublicationCodec) (facts : GraphFacts) : List PlainFact × RemoteFactCounts × Digest :=
  (plainFacts .node facts.nodes ++ plainFacts .edge facts.edges ++ plainFacts .graphDiagnostic facts.diagnostics,
    facts.counts, codec.factSetDigest (.graph facts.nodes.values facts.edges.values facts.diagnostics.values))

/-- The answer to a stream whose facts are read. -/
def answer (codec : PublicationCodec) (maxFacts : Nat) (facts : GraphFacts) :
    Except RemoteStoreError (List PlainFact × RemoteFactCounts × Digest) :=
  if !facts.edges.values.all facts.holdsEnds then .error .factConflict
  else if maxFacts < facts.counts.total then .error .quotaExceeded
  else .ok (facts.content codec)

theorem holdsEnds_read (edge : GraphEdge) : (read codec batches).holdsEnds edge = hasEnds batches edge := by
  rw [holdsEnds, hasEnds]
  cases edge.target <;> simp only [read, isSome_get?_ofRows]

theorem all_holdsEnds (agree : GraphIdsAgree codec batches) :
    (read codec batches).edges.values.all (read codec batches).holdsEnds = (edgesIn batches).all (hasEnds batches) := by
  rw [show (read codec batches).holdsEnds = hasEnds batches from funext holdsEnds_read]
  exact agree.2.1.all_values fun _ _ => hasEnds_congr

theorem read_congr (agree : GraphIdsAgree codec first) (told : GraphToldApart first)
    (same : factsOf first = factsOf second) :
    read codec first = { read codec second with source := sourceOf first } := by
  have nodes : ofRows (·.id) (nodesIn first) = ofRows (·.id) (nodesIn second) :=
    ofRows_congr (agree.1.injOn told.nodes) fun _ => by rw [mem_nodesIn, mem_nodesIn, same]
  have edges : ofRows (·.id) (edgesIn first) = ofRows (·.id) (edgesIn second) :=
    ofRows_congr (agree.2.1.injOn told.edges) fun _ => by rw [mem_edgesIn, mem_edgesIn, same]
  have diagnostics : ofRows codec.graphDiagnosticId (graphDiagnosticsIn first) =
      ofRows codec.graphDiagnosticId (graphDiagnosticsIn second) :=
    ofRows_congr (agree.2.2.injOn (toldApart_exact _ _)) fun _ => by
      rw [mem_graphDiagnosticsIn, mem_graphDiagnosticsIn, same]
  rw [read, read, nodes, edges, diagnostics]

end GraphFacts

section Graphs

variable {asked : PublishGraphRequest}

/-- What a valid stream is prepared to, by the facts that are read from it. -/
theorem prepareGraph_map (maxFacts : Nat) (valid : validateBatchStream codec.toBatchCodec asked.job batches = true) :
    (prepareGraph codec asked batches maxFacts).map (·.revision.content) =
      (batches.foldlM (GraphFacts.add codec asked) (GraphFacts.read codec []) >>=
        GraphFacts.answer codec maxFacts) := by
  unfold prepareGraph
  rw [valid, Bool.not_true, if_neg Bool.false_ne_true]
  change Except.map _ (batches.foldlM _ (GraphFacts.read codec []) >>= _) = _
  cases reads : batches.foldlM (GraphFacts.add codec asked) (GraphFacts.read codec []) with
  | error error => rfl
  | ok facts =>
    obtain ⟨fit, _, rfl⟩ := (GraphFacts.streamLaw codec asked).foldlM_eq_ok_iff.mp reads
    obtain ⟨batch, rest, rfl⟩ := exists_cons_of_ne_nil (validateBatchStream_iff.mp valid).1
    obtain ⟨snapshot, identity, buildId, isTarget, _⟩ := asked.asksFor_iff.mp (asks_of_fits (fit batch mem_cons_self))
    have source : (GraphFacts.read codec (batch :: rest)).source =
        some (.repositoryGraph snapshot identity buildId, batch.header.extractorSetDigest) := by
      rw [← isTarget]
      rfl
    change Except.map _ (if _ then _ else _) = GraphFacts.answer codec maxFacts _
    unfold GraphFacts.answer
    split_ifs
    · rfl
    · rfl
    · simp only [source]
      rfl

variable {prepared : PreparedGraph}

private theorem prepareGraph_content (accepted : prepareGraph codec asked batches maxFacts = .ok prepared) :
    GraphIdsAgree codec batches ∧ (edgesIn batches).all (hasEnds batches) = true ∧
      prepared.revision.content = (GraphFacts.read codec batches).content codec := by
  have valid : validateBatchStream codec.toBatchCodec asked.job batches = true := by
    unfold prepareGraph at accepted
    split_ifs at accepted with invalid
    simpa using invalid
  have answered := prepareGraph_map maxFacts valid
  rw [accepted] at answered
  obtain ⟨facts, reads, answers⟩ := Except.bind_eq_ok_iff.mp answered.symm
  obtain ⟨_, agree, rfl⟩ := (GraphFacts.streamLaw codec asked).foldlM_eq_ok_iff.mp reads
  rw [GraphFacts.answer, GraphFacts.all_holdsEnds agree] at answers
  split_ifs at answers with ends
  exact ⟨agree, by simpa using ends, (Except.ok.inj answers).symm⟩

end Graphs

/-! ## Memory -/

/-- The link set that a memory target names. -/
def FactTarget.links? : FactTarget → Option RemoteMemoryLinkSetTarget
  | .projectMemory _ _ _ links => links
  | .repositoryGraph .. => none

/-- Both ends of a relationship are entities of the stream, unless it leaves the memory. -/
def hasEntities (batches : List FactBatch) (relationship : MemoryRelationship) : Bool :=
  (entitiesIn batches).any (·.id = relationship.source) &&
    match relationship.target with
    | .memoryEntity entityId => (entitiesIn batches).any (·.id = entityId)
    | _ => true

/-- The relationship starts at an entity of the stream and belongs to the link set. -/
def hasLink (batches : List FactBatch) (links : Option RemoteMemoryLinkSetTarget) (relationship : MemoryRelationship) :
    Bool :=
  (entitiesIn batches).any (·.id = relationship.source) && links.any (relationship.matchesLinkSet ·)

private theorem memoryIdsAgree_congr (same : factsOf first = factsOf second) :
    MemoryIdsAgree codec first ↔ MemoryIdsAgree codec second := by
  have told {α : Type} [DecidableEq α] {id : α → String} {rows others : List α} :=
    @keysAgree_congr String α id rows others (.exact α) (toldApart_exact _ _) fun _ _ => PartialEq.exact_refl _
  refine and_congr (told fun _ => ?_) (and_congr (told fun _ => ?_) (and_congr (told fun _ => ?_) (told fun _ => ?_)))
  · rw [mem_entitiesIn, mem_entitiesIn, same]
  · rw [mem_relationshipsIn, mem_relationshipsIn, same]
  · rw [mem_relationshipsIn, mem_relationshipsIn, same]
  · rw [mem_memoryDiagnosticsIn, mem_memoryDiagnosticsIn, same]

namespace MemoryFacts

/-- The link set of the target that is read. -/
def links? (facts : MemoryFacts) : Option RemoteMemoryLinkSetTarget := facts.source.bind (·.1.links?)

def content (codec : PublicationCodec) (facts : MemoryFacts) :
    (List PlainFact × RemoteFactCounts × Digest) ×
      Option (List MemoryRelationship × List PlainFact × RemoteFactCounts × Digest) :=
  ((plainFacts .entity facts.entities ++ plainFacts .relationship facts.relationships ++
      plainFacts .memoryDiagnostic facts.semanticDiagnostics,
    ⟨facts.entities.rows.length, facts.relationships.rows.length, facts.semanticDiagnostics.rows.length⟩,
    codec.factSetDigest facts.semanticSet),
    facts.links?.map fun target => (facts.repositoryRelationships.values,
      plainFacts .relationship facts.repositoryRelationships ++
        plainFacts .memoryDiagnostic facts.repositoryDiagnostics,
      ⟨0, facts.repositoryRelationships.rows.length, facts.repositoryDiagnostics.rows.length⟩,
      codec.factSetDigest (.links target facts.repositoryRelationships.values facts.repositoryDiagnostics.values)))

/-- The answer to a stream whose facts are read. -/
def answer (codec : PublicationCodec) (maxFacts : Nat) (facts : MemoryFacts) :
    Except RemoteStoreError ((List PlainFact × RemoteFactCounts × Digest) ×
      Option (List MemoryRelationship × List PlainFact × RemoteFactCounts × Digest)) :=
  if !facts.relationships.values.all facts.holdsEnds then .error .factConflict
  else if !facts.holdsLinks facts.links? then .error .factConflict
  else if maxFacts < facts.total then .error .quotaExceeded
  else .ok (facts.content codec)

theorem holdsEnds_read (relationship : MemoryRelationship) :
    (read codec batches).holdsEnds relationship = hasEntities batches relationship := by
  rw [holdsEnds, hasEntities]
  cases relationship.target <;> simp only [read, isSome_get?_ofRows]

theorem all_holdsEnds (agree : MemoryIdsAgree codec batches) :
    (read codec batches).relationships.values.all (read codec batches).holdsEnds =
      (relationshipsIn batches false).all (hasEntities batches) := by
  rw [show (read codec batches).holdsEnds = hasEntities batches from funext holdsEnds_read]
  exact agree.2.1.all_values fun _ _ equal => congrArg _ (of_decide_eq_true equal)

theorem holdsLinks_read (agree : MemoryIdsAgree codec batches) (links : Option RemoteMemoryLinkSetTarget) :
    (read codec batches).holdsLinks links = (relationshipsIn batches true).all (hasLink batches links) := by
  simp only [holdsLinks, read, isSome_get?_ofRows]
  exact agree.2.2.1.all_values fun _ _ equal => congrArg (hasLink batches links) (of_decide_eq_true equal)

theorem read_congr (agree : MemoryIdsAgree codec first) (same : factsOf first = factsOf second) :
    read codec first = { read codec second with source := sourceOf first } := by
  have entities : ofRows (·.id) (entitiesIn first) = ofRows (·.id) (entitiesIn second) :=
    ofRows_congr (agree.1.injOn (toldApart_exact _ _)) fun _ => by rw [mem_entitiesIn, mem_entitiesIn, same]
  have relationships (repository : Bool) (agree : KeysAgree (·.id) (relationshipsIn first repository)) :
      ofRows (·.id) (relationshipsIn first repository) = ofRows (·.id) (relationshipsIn second repository) :=
    ofRows_congr (agree.injOn (toldApart_exact _ _)) fun _ => by rw [mem_relationshipsIn, mem_relationshipsIn, same]
  have diagnostics : ofRows codec.memoryDiagnosticId (memoryDiagnosticsIn first) =
      ofRows codec.memoryDiagnosticId (memoryDiagnosticsIn second) :=
    ofRows_congr (agree.2.2.2.injOn (toldApart_exact _ _)) fun _ => by
      rw [mem_memoryDiagnosticsIn, mem_memoryDiagnosticsIn, same]
  rw [read, read, entities, relationships false agree.2.1, relationships true agree.2.2.1, diagnostics]

/-- The link set is that of the target of the stream. -/
theorem links?_read {target : FactTarget} (nonempty : batches ≠ [])
    (isTarget : ∀ batch ∈ batches, batch.header.target = target) : (read codec batches).links? = target.links? := by
  obtain ⟨batch, rest, rfl⟩ := exists_cons_of_ne_nil nonempty
  rw [← isTarget batch mem_cons_self]
  rfl

theorem read_congr_links (agree : MemoryIdsAgree codec first) (same : factsOf first = factsOf second)
    (sameLinks : (read codec first).links? = (read codec second).links?) (maxFacts : Nat) :
    (read codec first).content codec = (read codec second).content codec ∧
      (read codec first).answer codec maxFacts = (read codec second).answer codec maxFacts := by
  have tables := read_congr agree same
  generalize read codec second = other at *
  rw [tables] at sameLinks ⊢
  constructor
  · simp only [content, sameLinks]
    rfl
  · simp only [answer, content, sameLinks]
    rfl

end MemoryFacts

section Memory

variable {asked : PublishMemoryRequest}

open MemoryFacts

theorem prepareMemory_map (maxFacts : Nat) (valid : validateBatchStream codec.toBatchCodec asked.job batches = true) :
    (prepareMemory codec asked batches maxFacts).map PreparedMemory.content =
      (batches.foldlM (add codec asked) (read codec []) >>= answer codec maxFacts) := by
  unfold prepareMemory
  rw [valid, Bool.not_true, if_neg Bool.false_ne_true]
  change Except.map _ (batches.foldlM _ (read codec []) >>= _) = _
  cases reads : batches.foldlM (add codec asked) (read codec []) with
  | error error => rfl
  | ok facts =>
    obtain ⟨fit, _, rfl⟩ := (streamLaw codec asked).foldlM_eq_ok_iff.mp reads
    obtain ⟨batch, rest, rfl⟩ := exists_cons_of_ne_nil (validateBatchStream_iff.mp valid).1
    obtain ⟨revision, identity, buildId, links, isTarget, _⟩ :=
      asked.asksFor_iff.mp (asks_of_fits (fit batch mem_cons_self))
    have source : (read codec (batch :: rest)).source =
        some (.projectMemory revision identity buildId links, batch.header.extractorSetDigest) := by
      rw [← isTarget]
      rfl
    have isLinks : (read codec (batch :: rest)).links? = links := by
      rw [links?, source]
      rfl
    change Except.map _ (if _ then _ else _) = answer codec maxFacts _
    unfold answer
    simp only [source, isLinks, content]
    split_ifs
    · rfl
    · rfl
    · rfl
    · cases links <;> rfl

variable {prepared : PreparedMemory}

private theorem prepareMemory_content (accepted : prepareMemory codec asked batches maxFacts = .ok prepared) :
    MemoryIdsAgree codec batches ∧ (relationshipsIn batches false).all (hasEntities batches) = true ∧
      (relationshipsIn batches true).all (hasLink batches (read codec batches).links?) = true ∧
      prepared.content = (read codec batches).content codec := by
  have valid : validateBatchStream codec.toBatchCodec asked.job batches = true := by
    unfold prepareMemory at accepted
    split_ifs at accepted with invalid
    simpa using invalid
  have answered := prepareMemory_map maxFacts valid
  rw [accepted] at answered
  obtain ⟨facts, reads, answers⟩ := Except.bind_eq_ok_iff.mp answered.symm
  obtain ⟨_, agree, rfl⟩ := (streamLaw codec asked).foldlM_eq_ok_iff.mp reads
  rw [answer, all_holdsEnds agree, holdsLinks_read agree] at answers
  split_ifs at answers with ends links
  exact ⟨agree, by simpa using ends, by simpa using links, (Except.ok.inj answers).symm⟩

/-- Every relationship of an accepted stream starts at one of its entities, and so does every target among them. -/
private theorem ends_of_prepareMemory (accepted : prepareMemory codec asked batches maxFacts = .ok prepared)
    {relationship : MemoryRelationship} (member : .relationship relationship ∈ factsOf batches) :
    hasEntities batches relationship = true := by
  obtain ⟨_, ends, links, _⟩ := prepareMemory_content accepted
  cases isRepository : relationship.isRepositoryRelationship with
  | false => exact all_eq_true.mp ends relationship (mem_relationshipsIn.mpr ⟨member, isRepository⟩)
  | true =>
    have holds := all_eq_true.mp links relationship (mem_relationshipsIn.mpr ⟨member, isRepository⟩)
    rw [hasEntities, (Bool.and_eq_true_iff.mp holds).1, Bool.true_and]
    rw [MemoryRelationship.isRepositoryRelationship] at isRepository
    split
    · next isEntity =>
      rw [isEntity] at isRepository
      cases isRepository
    · rfl

end Memory

/-- Valid streams for one target that carry the same facts are prepared to the same fact list, counts and digest, and if
each of them names one extractor set, the second is refused when and as the first is. For graphs this needs that facts
of one id that compare equal are identical. In an accepted stream every edge and every relationship starts at a fact of
the stream, and so does every target within it. -/
theorem prepared_of_factsOf (codec : PublicationCodec) :
    (∀ (asked again : PublishGraphRequest) (target : FactTarget) (first second : List FactBatch),
      StreamFor codec.toBatchCodec asked.job target first → StreamFor codec.toBatchCodec again.job target second →
      factsOf first = factsOf second → GraphToldApart first →
      (∀ maxFacts otherMax prepared other, prepareGraph codec asked first maxFacts = .ok prepared →
        prepareGraph codec again second otherMax = .ok other → prepared.revision.content = other.revision.content) ∧
      (OneExtractorSet first → OneExtractorSet second → GraphReflexive first →
        asked.asksFor target = again.asksFor target → ∀ maxFacts,
        (prepareGraph codec asked first maxFacts).map (·.revision.content) =
          (prepareGraph codec again second maxFacts).map (·.revision.content))) ∧
    (∀ (asked again : PublishMemoryRequest) (target : FactTarget) (first second : List FactBatch),
      StreamFor codec.toBatchCodec asked.job target first → StreamFor codec.toBatchCodec again.job target second →
      factsOf first = factsOf second →
      (∀ maxFacts otherMax prepared other, prepareMemory codec asked first maxFacts = .ok prepared →
        prepareMemory codec again second otherMax = .ok other → prepared.content = other.content) ∧
      (OneExtractorSet first → OneExtractorSet second → asked.asksFor target = again.asksFor target → ∀ maxFacts,
        (prepareMemory codec asked first maxFacts).map PreparedMemory.content =
          (prepareMemory codec again second maxFacts).map PreparedMemory.content)) ∧
    (∀ request batches maxFacts prepared, prepareGraph codec request batches maxFacts = .ok prepared →
      ∀ edge, .edge edge ∈ factsOf batches → hasEnds batches edge = true) ∧
    (∀ request batches maxFacts prepared, prepareMemory codec request batches maxFacts = .ok prepared →
      ∀ relationship, .relationship relationship ∈ factsOf batches → hasEntities batches relationship = true) := by
  refine ⟨?_, ?_, fun _ _ _ _ accepted edge member =>
    all_eq_true.mp (prepareGraph_content accepted).2.1 edge (mem_edgesIn.mpr member),
    fun _ _ _ _ accepted relationship member => ends_of_prepareMemory accepted member⟩
  · intro asked again target first second firstStream secondStream same told
    constructor
    · intro maxFacts otherMax prepared other accepted otherAccepted
      obtain ⟨agree, _, isContent⟩ := prepareGraph_content accepted
      obtain ⟨_, _, isOther⟩ := prepareGraph_content otherAccepted
      rw [isContent, isOther, GraphFacts.read_congr agree told same]
      rfl
    · intro oneSet otherSet reflexive asks maxFacts
      rw [prepareGraph_map _ firstStream.valid, prepareGraph_map _ secondStream.valid]
      refine firstStream.answers_alike (GraphFacts.streamLaw codec asked)
        (GraphFacts.streamLaw codec again) secondStream
        oneSet otherSet asks (graphIdsAgree_congr told reflexive same) fun agree => ?_
      rw [GraphFacts.read_congr agree told same]
      rfl
  · intro asked again target first second firstStream secondStream same
    have sameLinks : (MemoryFacts.read codec first).links? = (MemoryFacts.read codec second).links? := by
      rw [MemoryFacts.links?_read firstStream.nonempty firstStream.target,
        MemoryFacts.links?_read secondStream.nonempty secondStream.target]
    constructor
    · intro maxFacts otherMax prepared other accepted otherAccepted
      obtain ⟨agree, _, _, isContent⟩ := prepareMemory_content accepted
      obtain ⟨_, _, _, isOther⟩ := prepareMemory_content otherAccepted
      rw [isContent, isOther]
      exact (MemoryFacts.read_congr_links agree same sameLinks maxFacts).1
    · intro oneSet otherSet asks maxFacts
      rw [prepareMemory_map _ firstStream.valid, prepareMemory_map _ secondStream.valid]
      exact firstStream.answers_alike (MemoryFacts.streamLaw codec asked)
        (MemoryFacts.streamLaw codec again) secondStream
        oneSet otherSet asks (memoryIdsAgree_congr same) fun agree =>
          (MemoryFacts.read_congr_links agree same sameLinks maxFacts).2

def exampleNode (id : String) : GraphNode := ⟨"snapshot-a", id, none, none, "", .empty⟩

/-- A node with a number. -/
def weighedNode (id : String) (bits : UInt64) : GraphNode :=
  { exampleNode id with properties := Table.empty.put "weight" (.float ⟨bits⟩) }

def exampleEdge : GraphEdge := ⟨"snapshot-a", "edge-a", "node-a", .node "node-b", "", .empty⟩

def exampleTarget : FactTarget := .repositoryGraph ⟨exampleRepository, "snapshot-a"⟩ "identity-a" "build-a"

def graphBatch (sequence : Nat) (finalBatch : Bool) (nodes : List GraphNode) (edges : List GraphEdge) : FactBatch :=
  .identified exampleCodec.toBatchCodec exampleJob exampleTarget "repository-all" sequence "extractors-1" finalBatch
    (.repositoryGraph nodes edges [])

/-- Two nodes, one of them with the number one, and an edge between them. -/
def wholeStream : List FactBatch :=
  [graphBatch 0 true [exampleNode "node-a", weighedNode "node-b" 4607182418800017408] [exampleEdge]]

/-- The same facts, in another order and one of them twice. -/
def splitStream : List FactBatch :=
  [graphBatch 0 false [weighedNode "node-b" 4607182418800017408] [exampleEdge],
    graphBatch 1 true [weighedNode "node-b" 4607182418800017408, exampleNode "node-a"] []]

def exampleGraphRequest : PublishGraphRequest :=
  ⟨controlProtocolVersion, exampleJob, "worker-1", 1, exampleRepository, "main", "snapshot-a", none⟩

/-- Both streams are accepted, with one content. -/
theorem prepared_of_splitStream :
    (prepareGraph exampleCodec.toPublicationCodec exampleGraphRequest splitStream 10).map (·.revision.content) =
      .ok ([⟨"node-a", .node (exampleNode "node-a")⟩, ⟨"node-b", .node (weighedNode "node-b" 4607182418800017408)⟩,
        ⟨"edge-a", .edge exampleEdge⟩], ⟨2, 1, 0⟩, "facts") := by
  have same : factsOf wholeStream = factsOf splitStream := by
    ext fact
    simp only [factsOf, wholeStream, splitStream, graphBatch, FactBatch.identified, FactBatchPayload.facts, mem_cons,
      not_mem_nil, or_false, exists_eq_left, exists_eq_or_imp, map_cons, map_nil, append_nil,
      cons_append, nil_append, Set.mem_ofPred_eq, ↓existsAndEq, true_and]
    tauto
  obtain ⟨graphs, _⟩ := prepared_of_factsOf exampleCodec.toPublicationCodec
  have alike := (graphs exampleGraphRequest exampleGraphRequest exampleTarget wholeStream splitStream
    ⟨by decide, by decide⟩ ⟨by decide, by decide⟩ same ⟨by decide, by decide⟩).2 ⟨"extractors-1", by decide⟩
    ⟨"extractors-1", by decide⟩ ⟨by decide, by decide⟩ rfl 10
  rw [← alike]
  decide

/-- A node with the number zero and the same node with its negative, in either order. -/
def zeroStream (first second : UInt64) : List FactBatch :=
  [graphBatch 0 true [weighedNode "node-a" first, weighedNode "node-a" second] []]

/-- Both orders are accepted, and the later zero is kept. -/
theorem not_prepared_of_factsOf_zeros :
    StreamFor exampleCodec.toBatchCodec exampleGraphRequest.job exampleTarget (zeroStream 0 9223372036854775808) ∧
    StreamFor exampleCodec.toBatchCodec exampleGraphRequest.job exampleTarget (zeroStream 9223372036854775808 0) ∧
    factsOf (zeroStream 0 9223372036854775808) = factsOf (zeroStream 9223372036854775808 0) ∧
    ∃ prepared other,
      prepareGraph exampleCodec.toPublicationCodec exampleGraphRequest (zeroStream 0 9223372036854775808) 10 =
        .ok prepared ∧
      prepareGraph exampleCodec.toPublicationCodec exampleGraphRequest (zeroStream 9223372036854775808 0) 10 =
        .ok other ∧ prepared.revision.facts ≠ other.revision.facts := by
  refine ⟨⟨by decide, by decide⟩, ⟨by decide, by decide⟩, ?_, _, _, rfl, rfl, by decide⟩
  ext fact
  simp only [factsOf, zeroStream, graphBatch, FactBatch.identified, FactBatchPayload.facts, mem_cons, not_mem_nil,
    or_false, exists_eq_left, map_cons, map_nil, append_nil, Set.mem_ofPred_eq]
  exact or_comm

end Ferrus.Distributed

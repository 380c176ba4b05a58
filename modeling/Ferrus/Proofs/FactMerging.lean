import Ferrus.Model.Distributed.PublicationPrepare
import Ferrus.ToMathlib.ExceptBind
import Ferrus.ToMathlib.MergedTable
import Mathlib.Data.List.TakeWhile

/-! # What a publication reads from a stream

The merged tables hold the last fact of each id. A stream is read up to the first batch that does not fit, and the merge
is refused as soon as two facts of one id do not compare equal.
-/

namespace Ferrus.Distributed

open FactBatchPayload Except List Table

/-- All facts of a payload. -/
def FactBatchPayload.facts : FactBatchPayload → List Fact
  | repositoryGraph nodes edges diagnostics =>
      nodes.map .node ++ edges.map .edge ++ diagnostics.map .graphDiagnostic
  | projectMemory entities relationships diagnostics =>
      entities.map .entity ++ relationships.map .relationship ++ diagnostics.map .memoryDiagnostic

/-- The set of facts that a stream carries. -/
def factsOf (batches : List FactBatch) : Set Fact := {fact | ∃ batch ∈ batches, fact ∈ batch.payload.facts}

section Lists

variable (batches : List FactBatch)

def nodesIn : List GraphNode := batches.flatMap (·.payload.nodes)

def edgesIn : List GraphEdge := batches.flatMap (·.payload.edges)

def graphDiagnosticsIn : List GraphDiagnostic := batches.flatMap (·.payload.graphDiagnostics)

def entitiesIn : List MemoryEntity := batches.flatMap (·.payload.entities)

/-- The relationships that lead into a repository, or those that do not. -/
def relationshipsIn (repository : Bool) : List MemoryRelationship :=
  batches.flatMap (·.payload.relationships.filter (·.isRepositoryRelationship == repository))

def memoryDiagnosticsIn : List MemoryDiagnostic := batches.flatMap (·.payload.memoryDiagnostics)

end Lists

section Members

variable {batches : List FactBatch}

private theorem mem_flatMap_payload {α : Type} {select : FactBatchPayload → List α} {toFact : α → Fact} {member : α}
    (selects : ∀ payload, member ∈ select payload ↔ toFact member ∈ payload.facts) :
    member ∈ batches.flatMap (select ·.payload) ↔ toFact member ∈ factsOf batches := by
  rw [mem_flatMap]
  exact exists_congr fun batch => and_congr_right fun _ => selects batch.payload

theorem mem_nodesIn {node : GraphNode} : node ∈ nodesIn batches ↔ .node node ∈ factsOf batches :=
  mem_flatMap_payload fun payload => by cases payload <;> simp [facts, nodes]

theorem mem_edgesIn {edge : GraphEdge} : edge ∈ edgesIn batches ↔ .edge edge ∈ factsOf batches :=
  mem_flatMap_payload fun payload => by cases payload <;> simp [facts, edges]

theorem mem_graphDiagnosticsIn {diagnostic : GraphDiagnostic} :
    diagnostic ∈ graphDiagnosticsIn batches ↔ .graphDiagnostic diagnostic ∈ factsOf batches :=
  mem_flatMap_payload fun payload => by cases payload <;> simp [facts, graphDiagnostics]

theorem mem_entitiesIn {entity : MemoryEntity} : entity ∈ entitiesIn batches ↔ .entity entity ∈ factsOf batches :=
  mem_flatMap_payload fun payload => by cases payload <;> simp [facts, entities]

theorem mem_relationshipsIn {repository : Bool} {relationship : MemoryRelationship} :
    relationship ∈ relationshipsIn batches repository ↔
      .relationship relationship ∈ factsOf batches ∧ relationship.isRepositoryRelationship = repository := by
  have member :
      relationship ∈ batches.flatMap (·.payload.relationships) ↔ .relationship relationship ∈ factsOf batches :=
    mem_flatMap_payload fun payload => by cases payload <;> simp [facts, relationships]
  rw [relationshipsIn, ← filter_flatMap, mem_filter, member, beq_iff_eq]

theorem mem_memoryDiagnosticsIn {diagnostic : MemoryDiagnostic} :
    diagnostic ∈ memoryDiagnosticsIn batches ↔ .memoryDiagnostic diagnostic ∈ factsOf batches :=
  mem_flatMap_payload fun payload => by cases payload <;> simp [facts, memoryDiagnostics]

end Members

/-! ## Merging lists -/

section Merge

variable {α : Type} [PartialEq α] {id : α → String} {rows incoming : List α}

/-- Lists are merged as long as facts of one id compare equal. -/
private theorem mergeFacts_eq (agree : KeysAgree id rows) : mergeFacts id (ofRows id rows) incoming =
    if KeysAgree id (rows ++ incoming) then .ok (ofRows id (rows ++ incoming)) else .error .factConflict := by
  induction incoming generalizing rows with
  | nil =>
    rw [append_nil, if_pos agree]
    rfl
  | cons fact rest ih =>
    have merged : mergeFact id (ofRows id rows) fact =
        if KeysAgree id (rows ++ [fact]) then .ok (ofRows id (rows ++ [fact])) else .error .factConflict := by
      rw [mergeFact, ofRows_concat]
      simp only [keysAgree_concat, agree, true_and]
    rw [mergeFacts, foldlM_cons, merged, append_cons rows fact rest]
    by_cases joined : KeysAgree id (rows ++ [fact])
    · rw [if_pos joined]
      exact ih joined
    · rw [if_neg joined, if_neg fun all => joined all.earlier]
      rfl

end Merge

/-! ## Streams of one source -/

/-- The target and the extractor set that the first batch names. -/
def sourceOf (batches : List FactBatch) : Option (FactTarget × Digest) :=
  batches.head?.map fun batch => (batch.header.target, batch.header.extractorSetDigest)

/-- The batch has the requested target, facts of its kind and the source of the earlier ones. -/
def fits (asks : FactTarget → Bool) (source : Option (FactTarget × Digest)) (batch : FactBatch) : Bool :=
  asks batch.header.target && batch.header.target.kind = batch.payload.kind &&
    source.all (· = (batch.header.target, batch.header.extractorSetDigest))

/-- The batches before the first one that does not fit. -/
def fitting (asks : FactTarget → Bool) (batches : List FactBatch) : List FactBatch :=
  batches.takeWhile (fits asks (sourceOf batches))

section Fold

variable {asks : FactTarget → Bool} {done rest batches : List FactBatch} {batch : FactBatch}

/-- The source is that of the whole stream once a batch is read, and before that every source fits. -/
private theorem fits_sourceOf (rest : List FactBatch) :
    fits asks (sourceOf done) batch = fits asks (sourceOf (done ++ batch :: rest)) batch := by
  cases done with
  | nil => simp [fits, sourceOf]
  | cons => rfl

theorem asks_of_fits {source : Option (FactTarget × Digest)} (isFit : fits asks source batch = true) :
    asks batch.header.target = true := by
  simp only [fits, Bool.and_eq_true] at isFit
  exact isFit.1.1

private theorem sourceOf_concat (isFit : fits asks (sourceOf done) batch = true) :
    sourceOf (done ++ [batch]) = some (batch.header.target, batch.header.extractorSetDigest) := by
  cases done with
  | nil => rfl
  | cons first others =>
    simp only [fits, Bool.and_eq_true, sourceOf, head?_cons, Option.map_some, Option.all_some,
      decide_eq_true_eq] at isFit
    exact congrArg some isFit.2

/-- In a stream of one source and one kind the request decides which batches fit. -/
private theorem fits_of_uniform {target : FactTarget} {digest : Digest}
    (uniform : ∀ batch ∈ batches, batch.header.target = target ∧ batch.header.extractorSetDigest = digest)
    (kinds : ∀ batch ∈ batches, batch.header.target.kind = batch.payload.kind) (member : batch ∈ batches) :
    fits asks (sourceOf batches) batch = asks target := by
  obtain ⟨rfl, rfl⟩ := uniform batch member
  have source : sourceOf batches = some (batch.header.target, batch.header.extractorSetDigest) := by
    cases batches with
    | nil => exact absurd member not_mem_nil
    | cons first others =>
      obtain ⟨target, digest⟩ := uniform first mem_cons_self
      simp [sourceOf, target, digest]
  simp [fits, source, kinds batch member]

variable {σ : Type} {add : σ → FactBatch → Except RemoteStoreError σ} {Agree : List FactBatch → Prop}
  [DecidablePred Agree] {read : List FactBatch → σ} {facts : σ}

/-- What the reader of a stream does with one batch, where `read` is what it has read so far. -/
structure StreamLaw (add : σ → FactBatch → Except RemoteStoreError σ) (asks : FactTarget → Bool)
    (Agree : List FactBatch → Prop) [DecidablePred Agree] (read : List FactBatch → σ) : Prop where
  empty : Agree []
  earlier : ∀ {done rest}, Agree (done ++ rest) → Agree done
  step : ∀ {done batch}, Agree done → add (read done) batch =
    if fits asks (sourceOf done) batch then
      if Agree (done ++ [batch]) then .ok (read (done ++ [batch])) else .error .factConflict
    else .error .invalidInput

namespace StreamLaw

variable (law : StreamLaw add asks Agree read)

include law

theorem foldlM_from (agree : Agree done) : rest.foldlM add (read done) =
    if Agree (done ++ rest.takeWhile (fits asks (sourceOf (done ++ rest)))) then
      if rest.all (fits asks (sourceOf (done ++ rest))) then .ok (read (done ++ rest)) else .error .invalidInput
    else .error .factConflict := by
  induction rest generalizing done with
  | nil => simp [agree, pure, Except.pure]
  | cons batch rest ih =>
    rw [foldlM_cons, law.step agree, fits_sourceOf rest, takeWhile_cons, all_cons]
    cases fits asks (sourceOf (done ++ batch :: rest)) batch with
    | false =>
      simp only [Bool.false_eq_true, if_false, append_nil, if_pos agree, Bool.false_and]
      rfl
    | true =>
      rw [if_pos rfl, if_pos rfl, Bool.true_and]
      by_cases joined : Agree (done ++ [batch])
      · have next := ih joined
        simp only [append_assoc, singleton_append] at next
        rw [if_pos joined]
        exact next
      · have refused (more : List FactBatch) : ¬ Agree (done ++ batch :: more) := fun all =>
          joined (law.earlier (append_cons done batch more ▸ all))
        rw [if_neg joined, if_neg (refused _)]
        rfl

/-- A stream is refused with a conflict if two facts do not agree before the first batch that does not fit. -/
theorem foldlM_eq : batches.foldlM add (read []) =
    if Agree (fitting asks batches) then
      if batches.all (fits asks (sourceOf batches)) then .ok (read batches) else .error .invalidInput
    else .error .factConflict :=
  law.foldlM_from law.empty

theorem foldlM_eq_ok_iff : batches.foldlM add (read []) = .ok facts ↔
    (∀ batch ∈ batches, fits asks (sourceOf batches) batch = true) ∧ Agree batches ∧ read batches = facts := by
  rw [law.foldlM_eq]
  by_cases every : batches.all (fits asks (sourceOf batches)) = true
  · have all : fitting asks batches = batches := takeWhile_eq_self_iff.mpr (all_eq_true.mp every)
    rw [all, if_pos every, ← all_eq_true]
    simp [every, ite_eq_iff]
  · rw [if_neg every, ← all_eq_true]
    split_ifs <;> simp [every]

/-- A conflict is seen while the batches fit, or in what is read from all of them. -/
theorem foldlM_conflict_iff {α : Type} {answer : σ → Except RemoteStoreError α} :
    (batches.foldlM add (read []) >>= answer) = .error .factConflict ↔ ¬ Agree (fitting asks batches) ∨
      (∀ batch ∈ batches, fits asks (sourceOf batches) batch = true) ∧ Agree batches ∧
        answer (read batches) = .error .factConflict := by
  have refused : batches.foldlM add (read []) = .error .factConflict ↔ ¬ Agree (fitting asks batches) := by
    rw [law.foldlM_eq]
    split_ifs <;> simp_all
  rw [bind_eq_error_iff, refused]
  refine or_congr_right ⟨?_, ?_⟩
  · rintro ⟨facts, reads, fails⟩
    obtain ⟨fit, agree, rfl⟩ := law.foldlM_eq_ok_iff.mp reads
    exact ⟨fit, agree, fails⟩
  · rintro ⟨fit, agree, fails⟩
    exact ⟨read batches, law.foldlM_eq_ok_iff.mpr ⟨fit, agree, rfl⟩, fails⟩

/-- A stream of one source is refused because of its target, or because of two facts with one id. -/
theorem foldlM_uniform {target : FactTarget} {digest : Digest} (nonempty : batches ≠ [])
    (uniform : ∀ batch ∈ batches, batch.header.target = target ∧ batch.header.extractorSetDigest = digest)
    (kinds : ∀ batch ∈ batches, batch.header.target.kind = batch.payload.kind) :
    batches.foldlM add (read []) = if asks target then
      if Agree batches then .ok (read batches) else .error .factConflict
    else .error .invalidInput := by
  have same {batch : FactBatch} (member : batch ∈ batches) : fits asks (sourceOf batches) batch = asks target :=
    fits_of_uniform uniform kinds member
  rw [law.foldlM_eq]
  cases asked : asks target with
  | true =>
    have every : ∀ batch ∈ batches, fits asks (sourceOf batches) batch = true :=
      fun _ member => (same member).trans asked
    rw [fitting, takeWhile_eq_self_iff.mpr every, all_eq_true.mpr every]
    rfl
  | false =>
    obtain ⟨first, others, rfl⟩ := exists_cons_of_ne_nil nonempty
    have isOther := (same mem_cons_self).trans asked
    rw [fitting, takeWhile_cons_of_neg (by rw [isOther]; exact Bool.false_ne_true), all_cons, isOther, if_pos law.empty]
    rfl

end StreamLaw

end Fold

/-! ## Graphs -/

/-- The target is the requested snapshot. -/
def PublishGraphRequest.asksFor (request : PublishGraphRequest) : FactTarget → Bool
  | .repositoryGraph snapshot _ _ => snapshot = ⟨request.repository, request.snapshotId⟩
  | .projectMemory .. => false

variable {target : FactTarget}

theorem PublishGraphRequest.asksFor_iff (request : PublishGraphRequest) :
    request.asksFor target = true ↔ ∃ snapshot identity buildId,
      target = .repositoryGraph snapshot identity buildId ∧ snapshot = ⟨request.repository, request.snapshotId⟩ := by
  cases target with
  | repositoryGraph | projectMemory => simp [asksFor]

variable {codec : PublicationCodec} {batches done : List FactBatch} {batch : FactBatch}

/-- Facts of a graph with one id compare equal. -/
def GraphIdsAgree (codec : PublicationCodec) (batches : List FactBatch) : Prop :=
  KeysAgree (·.id) (nodesIn batches) ∧ KeysAgree (·.id) (edgesIn batches) ∧
    KeysAgree codec.graphDiagnosticId (graphDiagnosticsIn batches)

instance : DecidablePred (GraphIdsAgree codec) := fun _ => inferInstanceAs (Decidable (_ ∧ _))

namespace GraphFacts

variable {request : PublishGraphRequest}

/-- What is read from a stream: of the facts with one id the last one. -/
def read (codec : PublicationCodec) (batches : List FactBatch) : GraphFacts :=
  ⟨sourceOf batches, ofRows (·.id) (nodesIn batches), ofRows (·.id) (edgesIn batches),
    ofRows codec.graphDiagnosticId (graphDiagnosticsIn batches)⟩

variable (codec) in
/-- The tables with the facts of one more batch. -/
def merge (facts : GraphFacts) (batch : FactBatch) : Except RemoteStoreError GraphFacts := do
  let nodes ← mergeFacts (·.id) facts.nodes batch.payload.nodes
  let edges ← mergeFacts (·.id) facts.edges batch.payload.edges
  let diagnostics ← mergeFacts codec.graphDiagnosticId facts.diagnostics batch.payload.graphDiagnostics
  return ⟨some (batch.header.target, batch.header.extractorSetDigest), nodes, edges, diagnostics⟩

theorem add_eq (facts : GraphFacts) (batch : FactBatch) : facts.add codec request batch =
    if fits request.asksFor facts.source batch then facts.merge codec batch else .error .invalidInput := by
  obtain ⟨header, payload⟩ := batch
  cases isTarget : header.target <;> cases payload <;>
    simp [add, merge, fits, isTarget, PublishGraphRequest.asksFor, FactTarget.kind, kind, FactBatchPayload.nodes,
      FactBatchPayload.edges, graphDiagnostics]

theorem merge_read (agree : GraphIdsAgree codec done)
    (source : sourceOf (done ++ [batch]) = some (batch.header.target, batch.header.extractorSetDigest)) :
    (read codec done).merge codec batch =
      if GraphIdsAgree codec (done ++ [batch]) then .ok (read codec (done ++ [batch])) else .error .factConflict := by
  obtain ⟨nodesAgree, edgesAgree, diagnosticsAgree⟩ := agree
  simp only [merge, read, mergeFacts_eq nodesAgree, mergeFacts_eq edgesAgree, mergeFacts_eq diagnosticsAgree,
    ite_ok_bind]
  simp only [GraphIdsAgree, source, nodesIn, edgesIn, graphDiagnosticsIn, flatMap_append, flatMap_singleton, ite_and]
  rfl

variable (codec request) in
theorem streamLaw :
    StreamLaw (GraphFacts.add codec request) request.asksFor (GraphIdsAgree codec) (read codec) where
  empty := ⟨.nil, .nil, .nil⟩
  earlier {done rest} agree := by
    simp only [GraphIdsAgree, nodesIn, edgesIn, graphDiagnosticsIn, flatMap_append] at agree ⊢
    exact agree.imp (·.earlier) (.imp (·.earlier) (·.earlier))
  step agree := by
    rw [add_eq]
    refine ite_congr rfl (fun isFit => merge_read agree (sourceOf_concat isFit)) fun _ => rfl

end GraphFacts

/-! ## Memory -/

/-- The target is the requested revision. -/
def PublishMemoryRequest.asksFor (request : PublishMemoryRequest) : FactTarget → Bool
  | .projectMemory revision _ _ _ => revision = ⟨request.project, request.revisionId⟩
  | .repositoryGraph .. => false

theorem PublishMemoryRequest.asksFor_iff (request : PublishMemoryRequest) :
    request.asksFor target = true ↔ ∃ revision identity buildId links,
      target = .projectMemory revision identity buildId links ∧ revision = ⟨request.project, request.revisionId⟩ := by
  cases target with
  | repositoryGraph | projectMemory => simp [asksFor]

/-- Facts of a memory with one id compare equal; the relationships into a repository have ids of their own. -/
def MemoryIdsAgree (codec : PublicationCodec) (batches : List FactBatch) : Prop :=
  KeysAgree (·.id) (entitiesIn batches) ∧ KeysAgree (·.id) (relationshipsIn batches false) ∧
    KeysAgree (·.id) (relationshipsIn batches true) ∧ KeysAgree codec.memoryDiagnosticId (memoryDiagnosticsIn batches)

instance : DecidablePred (MemoryIdsAgree codec) := fun _ => inferInstanceAs (Decidable (_ ∧ _))

namespace MemoryFacts

variable {request : PublishMemoryRequest}

def read (codec : PublicationCodec) (batches : List FactBatch) : MemoryFacts :=
  ⟨sourceOf batches, ofRows (·.id) (entitiesIn batches), ofRows (·.id) (relationshipsIn batches false),
    ofRows (·.id) (relationshipsIn batches true), ofRows codec.memoryDiagnosticId (memoryDiagnosticsIn batches)⟩

variable (codec) in
def merge (facts : MemoryFacts) (batch : FactBatch) : Except RemoteStoreError MemoryFacts := do
  let entities ← mergeFacts (·.id) facts.entities batch.payload.entities
  let semantic ← mergeFacts (·.id) facts.relationships
    (batch.payload.relationships.filter (·.isRepositoryRelationship == false))
  let repository ← mergeFacts (·.id) facts.repositoryRelationships
    (batch.payload.relationships.filter (·.isRepositoryRelationship == true))
  let diagnostics ← mergeFacts codec.memoryDiagnosticId facts.diagnostics batch.payload.memoryDiagnostics
  return ⟨some (batch.header.target, batch.header.extractorSetDigest), entities, semantic, repository, diagnostics⟩

theorem add_eq (facts : MemoryFacts) (batch : FactBatch) : facts.add codec request batch =
    if fits request.asksFor facts.source batch then facts.merge codec batch else .error .invalidInput := by
  obtain ⟨header, payload⟩ := batch
  cases isTarget : header.target <;> cases payload <;>
    simp [add, merge, fits, isTarget, PublishMemoryRequest.asksFor, FactTarget.kind, kind, FactBatchPayload.entities,
      FactBatchPayload.relationships, memoryDiagnostics]

theorem merge_read (agree : MemoryIdsAgree codec done)
    (source : sourceOf (done ++ [batch]) = some (batch.header.target, batch.header.extractorSetDigest)) :
    (read codec done).merge codec batch =
      if MemoryIdsAgree codec (done ++ [batch]) then .ok (read codec (done ++ [batch])) else .error .factConflict := by
  obtain ⟨entitiesAgree, relationshipsAgree, repositoryAgree, diagnosticsAgree⟩ := agree
  simp only [merge, read, mergeFacts_eq entitiesAgree, mergeFacts_eq relationshipsAgree, mergeFacts_eq repositoryAgree,
    mergeFacts_eq diagnosticsAgree, ite_ok_bind]
  simp only [MemoryIdsAgree, source, entitiesIn, relationshipsIn, memoryDiagnosticsIn, flatMap_append,
    flatMap_singleton, ite_and]
  rfl

variable (codec request) in
theorem streamLaw :
    StreamLaw (MemoryFacts.add codec request) request.asksFor (MemoryIdsAgree codec) (read codec) where
  empty := ⟨.nil, .nil, .nil, .nil⟩
  earlier {done rest} agree := by
    simp only [MemoryIdsAgree, entitiesIn, relationshipsIn, memoryDiagnosticsIn, flatMap_append] at agree ⊢
    exact agree.imp (·.earlier) (.imp (·.earlier) (.imp (·.earlier) (·.earlier)))
  step agree := by
    rw [add_eq]
    refine ite_congr rfl (fun isFit => merge_read agree (sourceOf_concat isFit)) fun _ => rfl

end MemoryFacts

end Ferrus.Distributed

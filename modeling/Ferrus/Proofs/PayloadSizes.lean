import Ferrus.Proofs.FactMerging
import Ferrus.Proofs.PayloadCuts

/-! # Sizing payloads

The loop that sizes payloads decides about one payload at a time, when the number of its batch is known and
whether it is the last one is not: a later payload may still be split. What the loop keeps is one invariant of
the sized and the pending payloads together.
-/

namespace Ferrus.Distributed

open FactBatchPayload List

variable {payload part : FactBatchPayload}

namespace FactBatchPayload

variable (codec : WorkerCodec)

/-- The facts in the order in which a worker cuts them. -/
def sorted : FactBatchPayload → FactBatchPayload
  | repositoryGraph nodes edges diagnostics =>
      repositoryGraph (nodes.insertionSort fun first second => first.id ≤ second.id)
        (edges.insertionSort fun first second => first.id ≤ second.id)
        (diagnostics.insertionSort fun first second =>
          codec.graphDiagnosticJson first ≤ codec.graphDiagnosticJson second)
  | projectMemory entities relationships diagnostics =>
      projectMemory (entities.insertionSort fun first second => first.id ≤ second.id)
        (relationships.insertionSort fun first second => first.id ≤ second.id)
        (diagnostics.insertionSort fun first second =>
          codec.memoryDiagnosticJson first ≤ codec.memoryDiagnosticJson second)

theorem payloads_eq_cutAll (maxFacts : Nat) (facts : FactBatchPayload) :
    facts.payloads codec maxFacts = (facts.sorted codec).cutAll maxFacts := by
  cases facts <;> rfl

/-- The part has facts of the whole only, and is of its kind. -/
def Within (part whole : FactBatchPayload) : Prop := part.kind = whole.kind ∧ part.facts ⊆ whole.facts

theorem Within.refl (payload : FactBatchPayload) : payload.Within payload := ⟨rfl, List.Subset.refl _⟩

theorem Within.trans {first second third : FactBatchPayload} (inner : first.Within second)
    (outer : second.Within third) : first.Within third :=
  ⟨inner.1.trans outer.1, fun _ member => outer.2 (inner.2 member)⟩

theorem perm_sorted (facts : FactBatchPayload) : (facts.sorted codec).facts.Perm facts.facts := by
  cases facts with
  | repositoryGraph | projectMemory =>
    exact (((perm_insertionSort _ _).map _).append ((perm_insertionSort _ _).map _)).append
      ((perm_insertionSort _ _).map _)

theorem within_sorted (facts : FactBatchPayload) :
    (facts.sorted codec).Within facts ∧ facts.Within (facts.sorted codec) := by
  have kinds : (facts.sorted codec).kind = facts.kind := by cases facts <;> rfl
  have perm := perm_sorted codec facts
  exact ⟨⟨kinds, perm.subset⟩, ⟨kinds.symm, perm.symm.subset⟩⟩

theorem length_facts (payload : FactBatchPayload) : payload.facts.length = payload.factCount := by
  cases payload <;> simp [facts, factCount, Nat.add_assoc]

theorem factCount_sorted (facts : FactBatchPayload) : (facts.sorted codec).factCount = facts.factCount := by
  rw [← length_facts, ← length_facts, (perm_sorted codec facts).length_eq]

theorem within_takeFacts (limit : Nat) (payload : FactBatchPayload) :
    (payload.takeFacts limit).1.Within payload ∧ (payload.takeFacts limit).2.Within payload := by
  cases payload with
  | repositoryGraph | projectMemory =>
    refine ⟨⟨rfl, fun fact member => ?_⟩, rfl, fun fact member => ?_⟩
    · simp only [takeFacts, takePrefix, facts, map_take, mem_append] at member ⊢
      exact member.imp (Or.imp mem_of_mem_take mem_of_mem_take) mem_of_mem_take
    · simp only [takeFacts, takePrefix, facts, map_drop, mem_append] at member ⊢
      exact member.imp (Or.imp mem_of_mem_drop mem_of_mem_drop) mem_of_mem_drop

/-- What holds of every payload that is cut off a whole with facts. -/
structure CutOff (limit : Nat) (whole part : FactBatchPayload) : Prop where
  within : part.Within whole
  positive : 0 < part.factCount
  bounded : part.factCount ≤ limit

theorem cutOff_of_mem_cut {limit : Nat} (positive : 0 < limit) (rounds : Nat)
    (member : part ∈ payload.cut limit rounds) : CutOff limit payload part := by
  induction rounds generalizing payload with
  | zero => cases member
  | succ rounds ih =>
    simp only [cut] at member
    split_ifs at member with none
    · cases member
    obtain ⟨inFirst, inRest⟩ := within_takeFacts limit payload
    rcases mem_cons.mp member with rfl | later
    · have count := (factCount_takeFacts limit payload).1
      exact ⟨inFirst, by omega, by omega⟩
    · obtain ⟨within, some, bounded⟩ := ih later
      exact ⟨within.trans inRest, some, bounded⟩

/-- A payload without facts is the only one. -/
theorem mem_cutAll {limit : Nat} (positive : 0 < limit) (member : part ∈ payload.cutAll limit) :
    CutOff limit payload part ∨ part = payload ∧ payload.factCount = 0 ∧ payload.cutAll limit = [payload] := by
  unfold cutAll at member ⊢
  split at member
  · next none =>
    refine .inr ⟨mem_singleton.mp member, ?_, rfl⟩
    have units := flatMap_cut divides_units positive _ payload le_rfl
    rw [none, flatMap_nil, eq_comm, replicate_eq_nil_iff] at units
    exact units
  · next cuts =>
    rw [← cuts] at member
    exact .inl (cutOff_of_mem_cut positive _ member)

end FactBatchPayload

namespace FactTarget

/-- The links of a memory target are valid. -/
def hasValidLinks : FactTarget → Bool
  | repositoryGraph .. => true
  | projectMemory revision projectIdentity _ links => links.all (·.isValidFor revision projectIdentity)

/-- A fact of the target. -/
def owns : FactTarget → Fact → Bool
  | repositoryGraph snapshot _ _, .node node => node.snapshotId = snapshot.snapshotId
  | repositoryGraph snapshot _ _, .edge edge => edge.snapshotId = snapshot.snapshotId
  | repositoryGraph snapshot _ buildId, .graphDiagnostic diagnostic =>
      diagnostic.buildId = buildId && diagnostic.snapshotId.all (· = snapshot.snapshotId)
  | projectMemory revision projectIdentity _ _, .entity entity =>
      entity.project = projectIdentity && entity.memoryRevisionId = revision.revisionId
  | projectMemory revision projectIdentity _ links, .relationship relationship =>
      relationship.project = projectIdentity && relationship.memoryRevisionId = revision.revisionId &&
        relationship.matchesLinkTarget links
  | projectMemory revision _ buildId _, .memoryDiagnostic diagnostic =>
      diagnostic.buildId = buildId && diagnostic.revisionId = revision.revisionId
  | _, _ => false

end FactTarget

private theorem factTargetsMatch_iff {target : FactTarget} :
    factTargetsMatch target payload = true ↔ target.kind = payload.kind ∧ target.hasValidLinks = true ∧
      ∀ fact ∈ payload.facts, target.owns fact = true := by
  cases target <;> cases payload <;>
    simp [factTargetsMatch, FactTarget.kind, kind, FactTarget.hasValidLinks, facts,
      FactTarget.owns, or_imp, forall_and, and_assoc]

namespace ExecuteIndexJobRequest

open FactBatchPayload

variable {request : ExecuteIndexJobRequest} {codec : BatchCodec} {target : FactTarget} {maxBatchBytes : Nat}

theorem batch?_isSome_iff {sequence : Nat} {finalBatch : Bool} :
    (request.batch? codec target sequence finalBatch payload).isSome = true ↔
      request.job.kind = target.kind ∧ request.job.kind = payload.kind ∧ request.job.project = target.project ∧
        factTargetsMatch target payload = true := by
  unfold batch? FactBatch.new? FactBatch.validate FactBatch.identified
  simp [and_assoc]

/-- Whether a batch can be built depends on the facts only, and a part of valid facts is valid. -/
theorem batch?_isSome_of_within (sequence : Nat) (finalBatch : Bool) {first : Nat} {last : Bool}
    {whole : FactBatchPayload} (within : part.Within whole)
    (builds : (request.batch? codec target first last whole).isSome = true) :
    (request.batch? codec target sequence finalBatch part).isSome = true := by
  obtain ⟨targetKind, kind, project, belongs⟩ := batch?_isSome_iff.mp builds
  obtain ⟨kinds, links, owns⟩ := factTargetsMatch_iff.mp belongs
  refine batch?_isSome_iff.mpr ⟨targetKind, kind.trans within.1.symm, project, factTargetsMatch_iff.mpr ?_⟩
  exact ⟨kinds.trans within.1.symm, links, fun fact member => owns fact (within.2 member)⟩

/-- The payload has a batch of its number that is not too large. -/
def Fits (request : ExecuteIndexJobRequest) (codec : BatchCodec) (target : FactTarget) (maxBatchBytes sequence : Nat)
    (finalBatch : Bool) (payload : FactBatchPayload) : Prop :=
  sequence < 2 ^ 32 ∧ ∃ batch, request.batch? codec target sequence finalBatch payload = some batch ∧
    codec.byteLen batch ≤ maxBatchBytes

/-- Why the loop gives up at a payload. -/
inductive Refuses (request : ExecuteIndexJobRequest) (codec : BatchCodec) (target : FactTarget)
    (maxBatchBytes sequence : Nat) (finalBatch : Bool) (payload : FactBatchPayload) : WorkerError → Prop
  | numbers (many : 2 ^ 32 ≤ sequence) :
    Refuses request codec target maxBatchBytes sequence finalBatch payload .outputLimitExceeded
  | invalid (none : request.batch? codec target sequence finalBatch payload = none) :
      Refuses request codec target maxBatchBytes sequence finalBatch payload .factConflict
  | tooLarge (batch : FactBatch) (builds : request.batch? codec target sequence finalBatch payload = some batch)
      (large : maxBatchBytes < codec.byteLen batch) (small : payload.factCount < 2) :
      Refuses request codec target maxBatchBytes sequence finalBatch payload .outputLimitExceeded

/-- What the loop does with one payload. -/
theorem sizeBeforeDeadline_cons (checks : Nat) (payload : FactBatchPayload) (pending sized : List FactBatchPayload) :
    (request.Fits codec target maxBatchBytes sized.length pending.isEmpty payload ∧
      request.sizeBeforeDeadline codec target maxBatchBytes (checks + 1) (payload :: pending) sized =
        request.sizeBeforeDeadline codec target maxBatchBytes checks pending (sized ++ [payload])) ∨
    (∃ first second, payload.split = .ok (first, second) ∧
      request.sizeBeforeDeadline codec target maxBatchBytes (checks + 1) (payload :: pending) sized =
        request.sizeBeforeDeadline codec target maxBatchBytes checks (first :: second :: pending) sized) ∨
    (∃ error, request.Refuses codec target maxBatchBytes sized.length pending.isEmpty payload error ∧
      request.sizeBeforeDeadline codec target maxBatchBytes (checks + 1) (payload :: pending) sized =
        .error error) := by
  simp only [sizeBeforeDeadline]
  split_ifs with many
  · exact .inr (.inr ⟨_, .numbers many, rfl⟩)
  cases builds : request.batch? codec target sized.length pending.isEmpty payload with
  | none => exact .inr (.inr ⟨_, .invalid builds, rfl⟩)
  | some batch =>
    dsimp only
    split_ifs with within
    · exact .inl ⟨⟨not_le.mp many, batch, builds, within⟩, rfl⟩
    cases splits : payload.split with
    | ok parts => exact .inr (.inl ⟨parts.1, parts.2, rfl, rfl⟩)
    | error error =>
      refine .inr (.inr ⟨error, ?_, rfl⟩)
      unfold split at splits
      split_ifs at splits with small
      cases splits
      exact .tooLarge batch builds (not_le.mp within) small

/-- The rule of the loop: an invariant that taking and splitting a payload keep holds at its end, and at the
payload at which it gives up. -/
theorem sizeBeforeDeadline_invariant (Inv : Nat → List FactBatchPayload → List FactBatchPayload → Prop)
    (takes : ∀ checks payload pending sized, Inv (checks + 1) (payload :: pending) sized →
      request.Fits codec target maxBatchBytes sized.length pending.isEmpty payload →
        Inv checks pending (sized ++ [payload]))
    (splits : ∀ checks payload first second pending sized, Inv (checks + 1) (payload :: pending) sized →
      payload.split = .ok (first, second) → Inv checks (first :: second :: pending) sized)
    (checks : Nat) (pending sized : List FactBatchPayload) (holds : Inv checks pending sized) :
    (∀ result, request.sizeBeforeDeadline codec target maxBatchBytes checks pending sized = .ok result →
      ∃ left, Inv left [] result) ∧
    (∀ error, request.sizeBeforeDeadline codec target maxBatchBytes checks pending sized = .error error →
      (error = .deadlineExceeded ∧ ∃ payload pending sized, Inv 0 (payload :: pending) sized) ∨
      ∃ left payload pending sized, Inv left (payload :: pending) sized ∧
        request.Refuses codec target maxBatchBytes sized.length pending.isEmpty payload error) := by
  induction checks generalizing pending sized with
  | zero =>
    cases pending with
    | nil =>
      exact ⟨fun result same => ⟨0, Except.ok.inj same ▸ holds⟩, fun error same => by cases same⟩
    | cons payload pending =>
      refine ⟨fun result same => (by cases same), fun error same => .inl ⟨(Except.error.inj same).symm, _, _, _, holds⟩⟩
  | succ checks ih =>
    cases pending with
    | nil =>
      exact ⟨fun result same => ⟨_, Except.ok.inj same ▸ holds⟩, fun error same => by cases same⟩
    | cons payload pending =>
      obtain ⟨fits, goes⟩ | ⟨first, second, parts, goes⟩ | ⟨refusal, refuses, stops⟩ :=
        sizeBeforeDeadline_cons checks payload pending sized
      · rw [goes]
        exact ih _ _ (takes checks payload pending sized holds fits)
      · rw [goes]
        exact ih _ _ (splits checks payload first second pending sized holds parts)
      · rw [stops]
        refine ⟨fun result same => (by cases same), fun error same => .inr ⟨_, _, _, _, holds, ?_⟩⟩
        exact Except.error.inj same ▸ refuses

/-- There is always a batch to put: a payload is taken or split, and never dropped. -/
theorem payloads_ne_nil {codec : WorkerCodec} {limits : WorkerLimits} {facts : FactBatchPayload}
    {sized : List FactBatchPayload} (cuts : request.payloads codec limits target facts = .ok sized) : sized ≠ [] := by
  obtain ⟨found, sizes, within⟩ := Except.bind_eq_ok_iff.mp cuts
  split_ifs at within
  cases within
  obtain ⟨_, kept⟩ := (sizeBeforeDeadline_invariant (fun _ pending sized => sized ++ pending ≠ []) (by simp) (by simp)
    _ _ [] (facts.payloads_ne_nil codec limits.maxFactsPerBatch)).1 _ sizes
  simpa using kept

end ExecuteIndexJobRequest

end Ferrus.Distributed

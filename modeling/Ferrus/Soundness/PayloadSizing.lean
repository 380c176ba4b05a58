import Ferrus.Proofs.PayloadSizes
import Ferrus.Soundness.FactSets
import Mathlib.Algebra.Group.Action.Defs
import Mathlib.Algebra.Order.BigOperators.Group.List

/-! # Sized payloads

Whatever the limits of a worker, the payloads that it has sized hold the sorted facts one after the other, none of
them has too many facts, and the batches that it builds of them later are the ones whose size it has checked: a
payload was measured with the last batch's flag only if nothing came after it.
-/

namespace Ferrus.Distributed

open FactBatchPayload List ExecuteIndexJobRequest

/-- The payloads hold the facts of the whole in its order, each of them once. -/
structure Concatenates (payloads : List FactBatchPayload) (whole : FactBatchPayload) : Prop where
  nodes : payloads.flatMap (·.nodes) = whole.nodes
  edges : payloads.flatMap (·.edges) = whole.edges
  graphDiagnostics : payloads.flatMap (·.graphDiagnostics) = whole.graphDiagnostics
  entities : payloads.flatMap (·.entities) = whole.entities
  relationships : payloads.flatMap (·.relationships) = whole.relationships
  memoryDiagnostics : payloads.flatMap (·.memoryDiagnostics) = whole.memoryDiagnostics

namespace ExecuteIndexJobRequest

/-- Why the payloads of some facts could not be sized. -/
inductive SizingFailure (request : ExecuteIndexJobRequest) (codec : WorkerCodec) (limits : WorkerLimits)
    (target : FactTarget) (facts : FactBatchPayload) (checks : Nat) : WorkerError → Prop
  | deadline (few : checks < rounds (facts.payloads codec limits.maxFactsPerBatch)) :
      SizingFailure request codec limits target facts checks .deadlineExceeded
  /-- A batch with one fact is too large, or the one without facts where there are none. -/
  | tooLarge (part : FactBatchPayload) (sequence : Nat) (finalBatch : Bool) (batch : FactBatch)
      (within : part.Within facts) (small : part.factCount = min facts.factCount 1)
      (builds : request.batch? codec.toBatchCodec target sequence finalBatch part = some batch)
      (large : limits.maxBatchBytes < codec.byteLen batch) :
      SizingFailure request codec limits target facts checks .outputLimitExceeded
  /-- The facts are not all of the job and its target. -/
  | invalid (none : request.batch? codec.toBatchCodec target 0 true facts = none) :
      SizingFailure request codec limits target facts checks .factConflict
  /-- There are more facts than numbers of batches. -/
  | numbers (many : 2 ^ 32 < facts.factCount) :
    SizingFailure request codec limits target facts checks .outputLimitExceeded

/-- The invariant of the loop: `initial` checks of the deadline were left when it began. -/
structure Sizing (request : ExecuteIndexJobRequest) (codec : BatchCodec) (target : FactTarget)
    (maxBatchBytes maxFacts initial : Nat) (whole : FactBatchPayload) (checks : Nat)
    (pending sized : List FactBatchPayload) : Prop where
  concatenates : ∀ {α : Type} {facts : FactBatchPayload → List α}, Divides facts →
    (sized ++ pending).flatMap facts = facts whole
  within : ∀ payload ∈ sized ++ pending, payload.Within whole
  bounded : ∀ payload ∈ sized ++ pending, payload.factCount ≤ maxFacts
  positive : ∀ payload ∈ sized ++ pending, payload.factCount = 0 → (sized ++ pending).length = 1
  fits : ∀ index payload, sized[index]? = some payload →
    request.Fits codec target maxBatchBytes index (index + 1 == sized.length && pending.isEmpty) payload
  checked : rounds pending + initial ≤ rounds (whole.cutAll maxFacts) + checks

variable {request : ExecuteIndexJobRequest} {codec : BatchCodec} {target : FactTarget}
  {maxBatchBytes maxFacts initial checks : Nat} {whole payload first second : FactBatchPayload}
  {pending sized : List FactBatchPayload}

theorem sizing_cutAll (positive : 0 < maxFacts) :
    Sizing request codec target maxBatchBytes maxFacts initial whole initial (whole.cutAll maxFacts) [] where
  concatenates divides := flatMap_cutAll divides positive whole
  within payload member := by
    rcases mem_cutAll positive member with cut | ⟨rfl, _⟩
    · exact cut.within
    · exact .refl _
  bounded payload member := by
    rcases mem_cutAll positive member with cut | ⟨rfl, none, _⟩
    · exact cut.bounded
    · omega
  positive payload member none := by
    rcases mem_cutAll positive member with cut | ⟨rfl, _, alone⟩
    · have := cut.positive
      omega
    · rw [nil_append, alone, length_singleton]
  fits index payload found := by cases found
  checked := le_rfl

section

variable
  (sizing : Sizing request codec target maxBatchBytes maxFacts initial whole (checks + 1) (payload :: pending) sized)

include sizing

/-- The payload that is taken was measured with the number and the flag that its batch gets; of the others no
one was the last. -/
theorem Sizing.take
    (fits : request.Fits codec target maxBatchBytes sized.length pending.isEmpty payload) :
    Sizing request codec target maxBatchBytes maxFacts initial whole checks pending (sized ++ [payload]) := by
  have same : sized ++ [payload] ++ pending = sized ++ payload :: pending := by simp
  refine ⟨same ▸ sizing.concatenates, same ▸ sizing.within, same ▸ sizing.bounded, same ▸ sizing.positive, ?_, ?_⟩
  · intro index earlier found
    by_cases old : index < sized.length
    · rw [getElem?_append_left old] at found
      have flag : (index + 1 == (sized ++ [payload]).length) = false := by
        rw [length_append, length_singleton, beq_eq_false_iff_ne]
        omega
      have before := sizing.fits index earlier found
      rw [isEmpty_cons, Bool.and_false] at before
      rwa [flag, Bool.false_and]
    · rw [getElem?_append_right (not_lt.mp old), getElem?_singleton] at found
      split_ifs at found with place
      obtain rfl := Option.some.inj found
      obtain rfl : index = sized.length := by omega
      simpa using fits
  · have count := rounds_cons payload pending
    have held := sizing.checked
    omega

theorem Sizing.split
    (splits : payload.split = .ok (first, second)) :
    Sizing request codec target maxBatchBytes maxFacts initial whole checks (first :: second :: pending) sized := by
  obtain ⟨large, parts⟩ := split_eq_ok_iff.mp splits
  obtain ⟨countFirst, countSecond⟩ := factCount_takeFacts (payload.factCount / 2) payload
  obtain ⟨inFirst, inSecond⟩ := within_takeFacts (payload.factCount / 2) payload
  rw [parts] at countFirst countSecond inFirst inSecond
  dsimp only at countFirst countSecond inFirst inSecond
  have member : payload ∈ sized ++ payload :: pending := mem_append_right _ mem_cons_self
  -- A payload of the new lists is one of the parts, or it was there before.
  have origin {part : FactBatchPayload} (isPart : part ∈ sized ++ first :: second :: pending) :
      (part = first ∨ part = second) ∨ part ∈ sized ++ payload :: pending := by
    simp only [mem_append, mem_cons] at isPart ⊢
    tauto
  refine ⟨?_, ?_, ?_, ?_, ?_, ?_⟩
  · intro α facts divides
    have cut := divides.cut (payload.factCount / 2) payload
    rw [parts] at cut
    rw [← sizing.concatenates divides]
    simp [← cut]
  · intro part isPart
    rcases origin isPart with (rfl | rfl) | old
    · exact inFirst.trans (sizing.within payload member)
    · exact inSecond.trans (sizing.within payload member)
    · exact sizing.within part old
  · intro part isPart
    have bounded := sizing.bounded payload member
    rcases origin isPart with (rfl | rfl) | old
    · omega
    · omega
    · exact sizing.bounded part old
  · intro part isPart none
    rcases origin isPart with (rfl | rfl) | old
    · omega
    · omega
    · -- Where a payload without facts is, it is alone; but here is one with two facts.
      have alone := sizing.positive part old none
      obtain ⟨only, single⟩ := length_eq_one_iff.mp alone
      rw [single, mem_singleton] at member old
      rw [old, ← member] at none
      omega
  · intro index earlier found
    have before := sizing.fits index earlier found
    rwa [isEmpty_cons] at before ⊢
  · have fewer := rounds_split pending splits
    have held := sizing.checked
    omega

end

section

variable (sizing : Sizing request codec target maxBatchBytes maxFacts initial whole checks pending sized)

include sizing

/-- The number of facts of the whole. -/
theorem Sizing.factCount : ((sized ++ pending).map (·.factCount)).sum = whole.factCount := by
  have units := congrArg length (sizing.concatenates divides_units)
  simpa using units

theorem Sizing.factCount_le : whole.factCount ≤ (sized ++ pending).length * maxFacts := by
  have bounded : ∀ count ∈ (sized ++ pending).map (·.factCount), count ≤ maxFacts := by
    intro count member
    obtain ⟨payload, isPayload, rfl⟩ := mem_map.mp member
    exact sizing.bounded payload isPayload
  have total := sum_le_card_nsmul _ _ bounded
  rwa [sizing.factCount, length_map, smul_eq_mul] at total

/-- Several payloads have a fact each. -/
theorem Sizing.length_le (several : (sized ++ pending).length ≠ 1) : (sized ++ pending).length ≤ whole.factCount := by
  have each : ∀ count ∈ (sized ++ pending).map (·.factCount), 1 ≤ count := by
    intro count member
    obtain ⟨payload, isPayload, rfl⟩ := mem_map.mp member
    exact Nat.pos_of_ne_zero fun none => several (sizing.positive payload isPayload none)
  have total := card_nsmul_le_sum _ _ each
  rwa [sizing.factCount, length_map, smul_eq_mul, mul_one] at total

end

theorem Sizing.concatenation
    (sizing : Sizing request codec target maxBatchBytes maxFacts initial whole checks [] sized) :
    Concatenates sized whole := by
  have all {α : Type} {facts : FactBatchPayload → List α} (divides : Divides facts) :
      sized.flatMap facts = facts whole := by
    have := sizing.concatenates divides
    rwa [append_nil] at this
  exact ⟨all divides_nodes, all divides_edges, all divides_graphDiagnostics, all divides_entities,
    all divides_relationships, all divides_memoryDiagnostics⟩

/-- The loop on the payloads of some facts. -/
theorem sizing_of_payloads (request : ExecuteIndexJobRequest) (codec : WorkerCodec) (limits : WorkerLimits)
    (target : FactTarget) (facts : FactBatchPayload) (checks : Nat) :
    (∀ sized, request.sizeBeforeDeadline codec.toBatchCodec target limits.maxBatchBytes checks
        (facts.payloads codec limits.maxFactsPerBatch) [] = .ok sized →
      ∃ left, Sizing request codec.toBatchCodec target limits.maxBatchBytes limits.maxFactsPerBatch checks
        (facts.sorted codec) left [] sized) ∧
    (∀ error, request.sizeBeforeDeadline codec.toBatchCodec target limits.maxBatchBytes checks
        (facts.payloads codec limits.maxFactsPerBatch) [] = .error error →
      SizingFailure request codec limits target facts checks error) := by
  have initially : Sizing request codec.toBatchCodec target limits.maxBatchBytes limits.maxFactsPerBatch checks
      (facts.sorted codec) checks (facts.payloads codec limits.maxFactsPerBatch) [] := by
    rw [payloads_eq_cutAll]
    exact sizing_cutAll limits.facts_pos
  obtain ⟨succeeds, fails⟩ := sizeBeforeDeadline_invariant
    (Sizing request codec.toBatchCodec target limits.maxBatchBytes
    limits.maxFactsPerBatch checks (facts.sorted codec)) (fun _ _ _ _ => Sizing.take)
    (fun _ _ _ _ _ _ => Sizing.split) checks _ _ initially
  refine ⟨succeeds, fun error failed => ?_⟩
  rcases fails error failed with ⟨rfl, payload, pending, sized, sizing⟩ |
    ⟨left, payload, pending, sized, sizing, refuses⟩
  · have held := sizing.checked
    have positive := rounds_cons payload pending
    rw [← payloads_eq_cutAll] at held
    exact .deadline (by omega)
  have member : payload ∈ sized ++ payload :: pending := mem_append_right _ mem_cons_self
  have within : payload.Within facts := (sizing.within payload member).trans (within_sorted codec facts).1
  have count := factCount_sorted codec facts
  cases refuses with
  | numbers many =>
    have longer : 2 ^ 32 < (sized ++ payload :: pending).length := by
      rw [length_append, length_cons]
      omega
    have length := sizing.length_le (by omega)
    exact .numbers (by omega)
  | invalid none =>
    refine .invalid ?_
    by_contra builds
    have valid := batch?_isSome_of_within sized.length pending.isEmpty within
      (Option.isSome_iff_ne_none.mpr builds)
    rw [none] at valid
    cases valid
  | tooLarge batch builds large small =>
    refine .tooLarge payload _ _ batch within ?_ builds large
    have total := sizing.factCount
    by_cases none : payload.factCount = 0
    · -- The payload without facts is alone, so there are no facts.
      obtain ⟨only, single⟩ := length_eq_one_iff.mp (sizing.positive payload member none)
      rw [single, mem_singleton] at member
      rw [single, ← member, map_singleton, sum_singleton] at total
      omega
    · have least := single_le_sum (fun _ _ => Nat.zero_le _) payload.factCount
        (mem_map_of_mem (f := (·.factCount)) member)
      omega

/-- More facts than all batches of a shard can hold are never sized. -/
theorem error_of_many (request : ExecuteIndexJobRequest) (codec : WorkerCodec) (limits : WorkerLimits)
    (target : FactTarget) (facts : FactBatchPayload) (checks : Nat)
    (many : 2 ^ 32 * limits.maxFactsPerBatch < facts.factCount)
    (enough : rounds (facts.payloads codec limits.maxFactsPerBatch) ≤ checks) :
    ∃ error ≠ WorkerError.deadlineExceeded, request.sizeBeforeDeadline codec.toBatchCodec target limits.maxBatchBytes
      checks (facts.payloads codec limits.maxFactsPerBatch) [] = .error error := by
  obtain ⟨succeeds, fails⟩ := sizing_of_payloads request codec limits target facts checks
  cases sizes : request.sizeBeforeDeadline codec.toBatchCodec target limits.maxBatchBytes checks
      (facts.payloads codec limits.maxFactsPerBatch) [] with
  | error error =>
    refine ⟨error, ?_, rfl⟩
    rintro rfl
    cases fails _ sizes with
    | deadline few => omega
  | ok sized =>
    obtain ⟨left, sizing⟩ := succeeds sized sizes
    have total := sizing.factCount_le
    rw [factCount_sorted, append_nil] at total
    have longer : 2 ^ 32 < sized.length := Nat.lt_of_mul_lt_mul_right (many.trans_le total)
    have number := (sizing.fits (2 ^ 32) _ (getElem?_eq_getElem longer)).1
    exact absurd number (lt_irrefl _)

end ExecuteIndexJobRequest

/-- Whatever the facts, the limits and the moment at which the deadline passes: sized payloads concatenate to the
sorted facts, respect the limit of facts, and their batches respect the limit of bytes when they are put. Sizing
fails only for one of the reasons of `SizingFailure`. -/
theorem payloads_sized (codec : WorkerCodec) (request : ExecuteIndexJobRequest) (limits : WorkerLimits)
    (target : FactTarget) (facts : FactBatchPayload) (checks : Nat) :
    (∀ sized, request.sizeBeforeDeadline codec.toBatchCodec target limits.maxBatchBytes checks
        (facts.payloads codec limits.maxFactsPerBatch) [] = .ok sized →
      Concatenates sized (facts.sorted codec) ∧ (∀ payload ∈ sized, payload.factCount ≤ limits.maxFactsPerBatch) ∧
      ∀ process : WorkerProcess, process.request = request → process.target = target → process.payloads = sized →
        ∀ index < sized.length, index < 2 ^ 32 ∧ ∃ batch, process.batch? codec.toBatchCodec index = some batch ∧
          codec.byteLen batch ≤ limits.maxBatchBytes) ∧
    (∀ error, request.sizeBeforeDeadline codec.toBatchCodec target limits.maxBatchBytes checks
        (facts.payloads codec limits.maxFactsPerBatch) [] = .error error →
      request.SizingFailure codec limits target facts checks error) := by
  obtain ⟨succeeds, fails⟩ := sizing_of_payloads request codec limits target facts checks
  refine ⟨fun sized sizes => ?_, fails⟩
  obtain ⟨left, sizing⟩ := succeeds sized sizes
  refine ⟨sizing.concatenation, fun payload member => sizing.bounded payload (mem_append_left _ member), ?_⟩
  rintro process rfl rfl rfl index bound
  have found : process.payloads[index]? = some process.payloads[index] := getElem?_eq_getElem bound
  obtain ⟨number, batch, builds, small⟩ := sizing.fits index _ found
  rw [isEmpty_nil, Bool.and_true] at builds
  refine ⟨number, batch, ?_, small⟩
  rw [WorkerProcess.batch?, found, Option.bind_some]
  exact builds

/-! ### Facts of one graph -/

/-- A batch has ten bytes and one for each fact. -/
def countingCodec : WorkerCodec where
  payloadDigest _ := "payload"
  batchId _ _ shardId sequence _ _ := shardId ++ sequence.repr
  byteLen batch := 10 + batch.payload.factCount
  graphDiagnosticJson diagnostic := diagnostic.content
  memoryDiagnosticJson diagnostic := diagnostic.content

def limitsOf (maxBatchBytes : Nat) : WorkerLimits := ⟨2, 100, maxBatchBytes, 1000, Nat.two_pos⟩

def exampleExecution : ExecuteIndexJobRequest := ⟨exampleJob, exampleSpec, "worker-1", 1⟩

def graphFacts (nodes : List GraphNode) : FactBatchPayload := .repositoryGraph nodes [] []

private theorem factCount_graphFacts (nodes : List GraphNode) : (graphFacts nodes).factCount = nodes.length := rfl

/-- Two nodes that fit into two batches only. -/
theorem payloads_sized_two : ∃ sized, exampleExecution.sizeBeforeDeadline countingCodec.toBatchCodec exampleTarget 11 10
        ((graphFacts [exampleNode "node-b", exampleNode "node-a"]).payloads countingCodec 2) [] = .ok sized ∧
      Concatenates sized ((graphFacts [exampleNode "node-b", exampleNode "node-a"]).sorted countingCodec) ∧
      sized.length = 2 := by
  obtain ⟨succeeds, _⟩ := payloads_sized countingCodec exampleExecution (limitsOf 11) exampleTarget
    (graphFacts [exampleNode "node-b", exampleNode "node-a"]) 10
  have sizes : exampleExecution.sizeBeforeDeadline countingCodec.toBatchCodec exampleTarget 11 10
      ((graphFacts [exampleNode "node-b", exampleNode "node-a"]).payloads countingCodec 2) [] =
        .ok [graphFacts [exampleNode "node-a"], graphFacts [exampleNode "node-b"]] := by rfl
  exact ⟨_, sizes, (succeeds _ sizes).1, rfl⟩

/-- Three failures without a batch of one fact that is too large: without facts there is no such batch, a fact
of another snapshot is refused, and the numbers of the batches run out. -/
theorem not_payloads_sized_oneFact :
    (exampleExecution.sizeBeforeDeadline countingCodec.toBatchCodec exampleTarget 9 10
        ((graphFacts []).payloads countingCodec 2) [] = .error .outputLimitExceeded ∧
      ∀ part : FactBatchPayload, part.Within (graphFacts []) → part.factCount ≠ 1) ∧
    (∀ batch, batch.payload.factCount = 1 → countingCodec.byteLen batch ≤ 11) ∧
    exampleExecution.sizeBeforeDeadline countingCodec.toBatchCodec exampleTarget 11 10
        ((graphFacts [{ exampleNode "node-a" with snapshotId := "snapshot-b" }]).payloads countingCodec 2) [] =
      .error .factConflict ∧
    ∃ (facts : FactBatchPayload) (checks : Nat) (error : WorkerError), error ≠ .deadlineExceeded ∧
      exampleExecution.sizeBeforeDeadline countingCodec.toBatchCodec exampleTarget 11 checks
        (facts.payloads countingCodec 2) [] = .error error := by
  refine ⟨⟨rfl, ?_⟩, ?_, rfl, ?_⟩
  · intro part within one
    have subset := within.2
    rw [show (graphFacts []).facts = [] from rfl, subset_nil] at subset
    rw [← FactBatchPayload.length_facts, subset] at one
    cases one
  · intro batch one
    simp only [countingCodec, one]
    decide
  · obtain ⟨facts, many⟩ : ∃ facts : FactBatchPayload, 2 ^ 32 * 2 < facts.factCount :=
      ⟨graphFacts (replicate (2 ^ 32 * 2 + 1) (exampleNode "node-a")), by
        rw [factCount_graphFacts, length_replicate]
        exact Nat.lt_add_one _⟩
    obtain ⟨error, other, fails⟩ :=
      error_of_many exampleExecution countingCodec (limitsOf 11) exampleTarget facts _ many le_rfl
    exact ⟨facts, _, error, other, fails⟩

end Ferrus.Distributed

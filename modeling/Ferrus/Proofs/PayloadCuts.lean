import Ferrus.Model.Distributed.Worker
import Ferrus.ToMathlib.ExceptBind

/-! # Cutting facts into payloads

However a worker's limits cut the extracted facts, the payloads hold the same facts in the same order. The
bounded recursions of the model never run out: a round of `cut` takes a fact, and a split has two parts with
fewer facts.
-/

namespace Ferrus.Distributed

open List

namespace FactBatchPayload

variable (limit : Nat) (payload : FactBatchPayload)

theorem factCount_takeFacts : (payload.takeFacts limit).1.factCount = min limit payload.factCount ∧
    (payload.takeFacts limit).2.factCount = payload.factCount - limit := by
  cases payload with
  | repositoryGraph | projectMemory =>
    simp only [takeFacts, takePrefix, factCount, length_take, length_drop]
    omega

/-- A list of facts that a cut divides in two. -/
structure Divides {α : Type} (facts : FactBatchPayload → List α) : Prop where
  cut : ∀ limit payload, facts (payload.takeFacts limit).1 ++ facts (payload.takeFacts limit).2 = facts payload
  empty : ∀ payload, payload.factCount = 0 → facts payload = []

theorem eq_nil_of_factCount (none : payload.factCount = 0) : payload.nodes = [] ∧ payload.edges = [] ∧
    payload.graphDiagnostics = [] ∧ payload.entities = [] ∧ payload.relationships = [] ∧
    payload.memoryDiagnostics = [] := by
  cases payload with
  | repositoryGraph | projectMemory =>
    simp only [factCount, Nat.add_eq_zero_iff, length_eq_zero_iff] at none
    simp [nodes, edges, graphDiagnostics, entities, relationships, memoryDiagnostics, none]

theorem divides_nodes : Divides nodes where
  cut limit payload := by cases payload <;> simp [takeFacts, takePrefix, nodes]
  empty payload none := (eq_nil_of_factCount payload none).1

theorem divides_edges : Divides edges where
  cut limit payload := by cases payload <;> simp [takeFacts, takePrefix, edges]
  empty payload none := (eq_nil_of_factCount payload none).2.1

theorem divides_graphDiagnostics : Divides graphDiagnostics where
  cut limit payload := by cases payload <;> simp [takeFacts, takePrefix, graphDiagnostics]
  empty payload none := (eq_nil_of_factCount payload none).2.2.1

theorem divides_entities : Divides entities where
  cut limit payload := by cases payload <;> simp [takeFacts, takePrefix, entities]
  empty payload none := (eq_nil_of_factCount payload none).2.2.2.1

theorem divides_relationships : Divides relationships where
  cut limit payload := by cases payload <;> simp [takeFacts, takePrefix, relationships]
  empty payload none := (eq_nil_of_factCount payload none).2.2.2.2.1

theorem divides_memoryDiagnostics : Divides memoryDiagnostics where
  cut limit payload := by cases payload <;> simp [takeFacts, takePrefix, memoryDiagnostics]
  empty payload none := (eq_nil_of_factCount payload none).2.2.2.2.2

/-- One unit for each fact, of whatever kind it is. -/
theorem divides_units : Divides (fun payload => List.replicate payload.factCount ()) where
  cut limit payload := by
    obtain ⟨first, second⟩ := factCount_takeFacts limit payload
    rw [first, second, replicate_append_replicate]
    congr 1
    omega
  empty payload none := by rw [none, replicate_zero]

variable {limit payload} {α : Type} {facts : FactBatchPayload → List α}

/-- As many rounds as there are facts cut all of them. -/
theorem flatMap_cut (divides : Divides facts) (positive : 0 < limit) (rounds : Nat) (payload : FactBatchPayload)
    (enough : payload.factCount ≤ rounds) : (payload.cut limit rounds).flatMap facts = facts payload := by
  induction rounds generalizing payload with
  | zero => exact (divides.empty payload (by omega)).symm
  | succ rounds ih =>
    simp only [cut]
    split_ifs with none
    · exact (divides.empty payload none).symm
    · have fewer := (factCount_takeFacts limit payload).2
      rw [flatMap_cons, ih _ (by omega), divides.cut]

theorem flatMap_cutAll (divides : Divides facts) (positive : 0 < limit) (payload : FactBatchPayload) :
    (payload.cutAll limit).flatMap facts = facts payload := by
  rw [← flatMap_cut divides positive _ payload le_rfl]
  unfold cutAll
  split
  · next none =>
    -- Nothing is cut off a payload without facts only.
    have isEmpty : facts payload = [] := by
      rw [← flatMap_cut divides positive _ payload le_rfl, none]
      rfl
    rw [none, flatMap_singleton, isEmpty]
    rfl
  · next cuts => rw [cuts]

theorem cutAll_ne_nil (limit : Nat) (payload : FactBatchPayload) : payload.cutAll limit ≠ [] := by
  unfold cutAll
  split
  · exact cons_ne_nil _ _
  · exact cons_ne_nil _ _

theorem payloads_ne_nil (codec : WorkerCodec) (maxFacts : Nat) (payload : FactBatchPayload) :
    payload.payloads codec maxFacts ≠ [] := by
  cases payload with
  | repositoryGraph | projectMemory => exact cutAll_ne_nil _ _

end FactBatchPayload

namespace ExecuteIndexJobRequest

variable {payload first second : FactBatchPayload}

theorem split_eq_ok_iff : payload.split = .ok (first, second) ↔
      2 ≤ payload.factCount ∧ payload.takeFacts (payload.factCount / 2) = (first, second) := by
  unfold FactBatchPayload.split
  split_ifs with small
  · simp only [false_iff]
    omega
  · rw [Except.ok.injEq]
    exact (and_iff_right (not_lt.mp small)).symm

theorem rounds_cons (payload : FactBatchPayload) (pending : List FactBatchPayload) :
    rounds (payload :: pending) = 2 * max payload.factCount 1 - 1 + rounds pending := by
  simp only [rounds, map_cons, sum_cons]

/-- The two parts of a payload need one round less than the payload. -/
theorem rounds_split (pending : List FactBatchPayload) (splits : payload.split = .ok (first, second)) :
    rounds (first :: second :: pending) + 1 = rounds (payload :: pending) := by
  obtain ⟨large, cuts⟩ := split_eq_ok_iff.mp splits
  obtain ⟨countFirst, countSecond⟩ := FactBatchPayload.factCount_takeFacts (payload.factCount / 2) payload
  rw [cuts] at countFirst countSecond
  simp only [rounds_cons, countFirst, countSecond]
  omega

end ExecuteIndexJobRequest

end Ferrus.Distributed

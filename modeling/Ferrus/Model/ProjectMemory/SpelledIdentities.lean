import Ferrus.Model.ProjectMemory.Domain
import Mathlib.Data.String.Basic

/-! # Identities that spell out their keys

The program digests the keys of facts. An id that spells out its key instead is an instance of the same laws that
can be computed: the parts of the key are written one after the other, with every character marked.
-/

namespace Ferrus.ProjectMemory

open List

def spellPart (part : List Char) : List Char := part.flatMap (['.', ·]) ++ ['|']

def spell (parts : List (List Char)) : String := String.ofList (parts.flatMap spellPart)

private theorem spellPart_append_inj {first second rest other : List Char}
    (same : spellPart first ++ rest = spellPart second ++ other) : first = second ∧ rest = other := by
  induction first generalizing second with
  | nil =>
    cases second with
    | nil => exact ⟨rfl, by simpa [spellPart] using same⟩
    | cons => simp [spellPart] at same
  | cons char first ih =>
    cases second with
    | nil => simp [spellPart] at same
    | cons mark second =>
      simp only [spellPart, flatMap_cons, cons_append, nil_append, append_assoc, cons.injEq,
        true_and] at same
      obtain ⟨rfl, same⟩ := same
      obtain ⟨rfl, rfl⟩ := ih (by simpa [spellPart] using same)
      exact ⟨rfl, rfl⟩

private theorem spell_injective : Function.Injective spell := by
  intro first second same
  replace same := String.ofList_injective same
  induction first generalizing second with
  | nil =>
    cases second with
    | nil => rfl
    | cons => simp [spellPart] at same
  | cons part first ih =>
    cases second with
    | nil => simp [spellPart] at same
    | cons other second =>
      rw [flatMap_cons, flatMap_cons] at same
      obtain ⟨rfl, sameRest⟩ := spellPart_append_inj same
      rw [ih sameRest]

def MemorySourceLocator.parts : MemorySourceLocator → List (List Char)
  | trackedFile path => [['f'], path.toList]
  | archiveManifest archiveId => [['a'], archiveId.toList]
  | runtimeRecords recordType => [['r'], recordType.toList]

theorem MemorySourceLocator.parts_injective : Function.Injective parts := by
  intro first second same
  cases first <;> cases second <;> simp_all [parts, String.toList_inj]

theorem MemorySourceLocator.length_parts (locator : MemorySourceLocator) : locator.parts.length = 2 := by
  cases locator <;> rfl

def OutcomeSectionKind.part : OutcomeSectionKind → List Char
  | decision => ['d']
  | deviation => ['v']
  | validation => ['t']
  | followUp => ['f']

theorem OutcomeSectionKind.part_injective : Function.Injective part := by
  intro first second same
  cases first <;> cases second <;> simp_all [part]

/-- The occurrence is spelled out as that many empty parts. -/
def EntityKey.parts : EntityKey → List (List Char)
  | specification locator => ['s'] :: locator.parts
  | milestone locator id => ['m'] :: id :: locator.parts
  | outcome locator => ['o'] :: locator.parts
  | outcomeSection locator kind text occurrence =>
      ['p'] :: kind.part :: text :: (locator.parts ++ List.replicate occurrence [])
  | archive id => [['a'], id.toList]
  | task id => [['t'], id.toList]
  | run id => [['r'], id.toList]
  | check id => [['c'], id.toList]

private theorem append_replicate_inj {locator other : MemorySourceLocator} {count otherCount : Nat}
    (same : locator.parts ++ replicate count [] = other.parts ++ replicate otherCount []) :
    locator = other ∧ count = otherCount := by
  obtain ⟨sameParts, sameCount⟩ := append_inj same (by rw [locator.length_parts, other.length_parts])
  exact ⟨MemorySourceLocator.parts_injective sameParts, by simpa using congrArg length sameCount⟩

theorem EntityKey.parts_injective : Function.Injective parts := by
  intro first second same
  cases first <;> cases second <;>
    simp_all [parts, String.toList_inj, MemorySourceLocator.parts_injective.eq_iff,
      OutcomeSectionKind.part_injective.eq_iff]
  exact append_replicate_inj same.2.2

def MemoryRelationshipKind.part : MemoryRelationshipKind → List Char
  | contains => ['c']
  | implements => ['i']
  | validates => ['v']
  | supersedes => ['s']
  | concerns => ['n']
  | touches => ['t']
  | followsUp => ['f']

theorem MemoryRelationshipKind.part_injective : Function.Injective part := by
  intro first second same
  cases first <;> cases second <;> simp_all [part]

def RepositoryReference.parts : RepositoryReference → List (List Char)
  | path name => [['p'], name.toList]
  | symbol semanticKey => [['s'], semanticKey.toList]

theorem RepositoryReference.parts_injective : Function.Injective parts := by
  intro first second same
  cases first <;> cases second <;> simp_all [parts, String.toList_inj]

def RelationshipKey.parts : RelationshipKey → List (List Char)
  | contains source target => [['c'], source.toList, target.toList]
  | concerns source target => [['n'], source.toList, target.toList]
  | archiveTask archive task => [['a'], archive.toList, task.toList]
  | archiveMilestone archive milestone => [['m'], archive.toList, milestone.toList]
  | implements task milestone => [['i'], task.toList, milestone.toList]
  | taskRun task run => [['r'], task.toList, run.toList]
  | validates check target => [['v'], check.toList, target.toList]
  | repositoryLink source kind reference => ['l'] :: source.toList :: kind.part :: reference.parts

theorem RelationshipKey.parts_injective : Function.Injective parts := by
  intro first second same
  cases first <;> cases second <;>
    simp_all [parts, String.toList_inj, MemoryRelationshipKind.part_injective.eq_iff,
      RepositoryReference.parts_injective.eq_iff]

/-- A project and the parts of a key as one id. -/
def spellKey (project : ProjectRef) (parts : List (List Char)) : String :=
  spell (project.projectNamespace.toList :: project.projectId.toList :: parts)

private theorem spellKey_injective : Function.Injective2 spellKey := by
  intro project other parts otherParts same
  obtain ⟨name, id⟩ := project
  obtain ⟨otherName, otherId⟩ := other
  simpa [String.toList_inj, and_assoc] using spell_injective same

private theorem spelledEntityId_injective :
    Function.Injective2 (fun project (key : EntityKey) => spellKey project key.parts) := by
  intro project other key otherKey same
  obtain ⟨sameProject, sameParts⟩ := spellKey_injective same
  exact ⟨sameProject, EntityKey.parts_injective sameParts⟩

private theorem spelledRelationshipId_injective :
    Function.Injective2 (fun project (key : RelationshipKey) => spellKey project key.parts) := by
  intro project other key otherKey same
  obtain ⟨sameProject, sameParts⟩ := spellKey_injective same
  exact ⟨sameProject, RelationshipKey.parts_injective sameParts⟩

def spelledIdentities : Identities where
  entityId project key := spellKey project key.parts
  relationshipId project key := spellKey project key.parts
  descriptorKey _ := ""
  entityId_injective := spelledEntityId_injective
  relationshipId_injective := spelledRelationshipId_injective

end Ferrus.ProjectMemory

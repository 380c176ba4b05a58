import Mathlib.Order.Lattice
import Mathlib.Data.List.Basic
import Mathlib.Tactic.TypeStar

/-! # Tables ordered by a primary key

Rows stand in strictly increasing key order, so a key names at most one row and a scan visits the
rows in key order. The statements are those of a relational table: select, insert unless the key
exists, update or delete the selected rows. Every statement has one lemma saying what each key
reads afterwards, and proofs about a table use only these.
-/

namespace Ferrus

open List

/-- A table with a primary key; the order of its rows is the order of their keys. -/
structure Table (κ ρ : Type*) [LinearOrder κ] where
  rows : List (κ × ρ)
  sorted : rows.Pairwise fun first second => first.1 < second.1

namespace Table

variable {κ ρ : Type*} [LinearOrder κ] {rows : List (κ × ρ)} {key : κ} {row : ρ} {selected : κ → ρ → Bool}

instance [DecidableEq ρ] : DecidableEq (Table κ ρ) := fun first second =>
  decidable_of_iff (first.rows = second.rows)
    ⟨fun same => by cases first; cases second; cases same; rfl, fun same => same ▸ rfl⟩

/-- The table without rows. -/
def empty : Table κ ρ := ⟨[], .nil⟩

instance : Inhabited (Table κ ρ) := ⟨empty⟩

instance [Repr κ] [Repr ρ] : Repr (Table κ ρ) := ⟨fun table => reprPrec table.rows⟩

/-- The row of a key. -/
def get? (table : Table κ ρ) (key : κ) : Option ρ :=
  (table.rows.find? (fun row => row.1 = key)).map Prod.snd

@[simp] theorem get?_empty (key : κ) : (empty : Table κ ρ).get? key = none := rfl

private theorem find?_eq_some_iff (sorted : rows.Pairwise (fun first second => first.1 < second.1)) (key : κ)
    (row : ρ) : (rows.find? (fun entry => entry.1 = key)).map Prod.snd = some row ↔ (key, row) ∈ rows := by
  induction rows with
  | nil => simp
  | cons entry rest ih =>
    obtain ⟨below, tail⟩ := pairwise_cons.mp sorted
    by_cases same : entry.1 = key
    · subst same
      have fresh : (entry.1, row) ∉ rest :=
        fun member => lt_irrefl entry.1 (below (entry.1, row) member)
      simp only [find?_cons_of_pos, decide_true, Option.map_some, Option.some.injEq, mem_cons, fresh, or_false]
      exact ⟨fun eq => by rw [← eq], fun eq => by rw [← eq]⟩
    · have other : (key, row) ≠ entry := fun eq => same (by rw [← eq])
      simp only [find?_cons, same, decide_false, ih tail, mem_cons, other, false_or]

variable (table : Table κ ρ)

theorem get?_eq_some_iff : table.get? key = some row ↔ (key, row) ∈ table.rows :=
  find?_eq_some_iff table.sorted key row

/-- The rows without their keys, in key order. -/
def values (table : Table κ ρ) : List ρ := table.rows.map Prod.snd

theorem mem_values_iff : row ∈ table.values ↔ ∃ key, table.get? key = some row := by
  simp only [values, mem_map, Prod.exists, exists_eq_right, get?_eq_some_iff]

theorem any_values_iff {table : Table κ ρ} {holds : ρ → Bool} :
    table.values.any holds = true ↔ ∃ key row, table.get? key = some row ∧ holds row = true := by
  simp only [any_eq_true, mem_values_iff]
  exact ⟨fun ⟨row, ⟨key, found⟩, chosen⟩ => ⟨key, row, found, chosen⟩,
    fun ⟨key, row, found, chosen⟩ => ⟨row, ⟨key, found⟩, chosen⟩⟩

/-- The rows a condition selects, in key order. -/
def select (table : Table κ ρ) (selected : κ → ρ → Bool) : List (κ × ρ) :=
  table.rows.filter fun row => selected row.1 row.2

theorem mem_select : (key, row) ∈ table.select selected ↔ table.get? key = some row ∧ selected key row = true := by
  rw [select, mem_filter, get?_eq_some_iff]

/-- A scan stops at the least key it accepts. -/
theorem le_of_find?_select {accepts : κ × ρ → Bool} {first other : κ × ρ}
    (found : (table.select selected).find? accepts = some first) (member : other ∈ table.select selected)
    (accepted : accepts other = true) : first.1 ≤ other.1 := by
  obtain ⟨-, before, after, split, skipped⟩ := find?_eq_some_iff_append.mp found
  have ordered := table.sorted.filter fun row => selected row.1 row.2
  change (table.select selected).Pairwise _ at ordered
  rw [split] at ordered member
  rcases mem_append.mp member with early | late
  · have refused := skipped other early
    rw [accepted] at refused
    cases refused
  · rcases mem_cons.mp late with rfl | later
    · exact le_rfl
    · exact ((pairwise_cons.mp (pairwise_append.mp ordered).2.1).1 other later).le

/-- Change every selected row. -/
def updateWhere (table : Table κ ρ) (selected : κ → ρ → Bool) (change : ρ → ρ) : Table κ ρ where
  rows := table.rows.map fun row => (row.1, if selected row.1 row.2 then change row.2 else row.2)
  sorted := List.pairwise_map.mpr table.sorted

theorem get?_updateWhere (selected : κ → ρ → Bool) (change : ρ → ρ) (key : κ) :
    (table.updateWhere selected change).get? key =
      (table.get? key).map (fun row => if selected key row then change row else row) := by
  apply Option.ext
  intro row
  simp only [get?_eq_some_iff, updateWhere, mem_map, Option.map_eq_some_iff, Prod.exists, Prod.mk.injEq]
  constructor
  · rintro ⟨key', row', member, rfl, changed⟩
    exact ⟨row', member, changed⟩
  · rintro ⟨row', member, changed⟩
    exact ⟨key, row', member, rfl, changed⟩

/-- Change the row of one key, if it exists. -/
def modify (table : Table κ ρ) (key : κ) (change : ρ → ρ) : Table κ ρ :=
  table.updateWhere (fun other _ => other = key) change

theorem get?_modify (key other : κ) (change : ρ → ρ) : (table.modify key change).get? other =
      if other = key then (table.get? other).map change else table.get? other := by
  rw [modify, get?_updateWhere]
  by_cases same : other = key <;> simp [same]

@[simp] theorem get?_modify_self (key : κ) (change : ρ → ρ) :
    (table.modify key change).get? key = (table.get? key).map change := by
  rw [get?_modify, if_pos rfl]

/-- Change the rows of some keys, if a second change does nothing. -/
theorem get?_foldl_modify {change : κ → ρ → ρ} (idem : ∀ key row, change key (change key row) = change key row)
    (keys : List κ) (table : Table κ ρ) (key : κ) :
    (keys.foldl (fun table key => table.modify key (change key)) table).get? key =
      if key ∈ keys then (table.get? key).map (change key) else table.get? key := by
  induction keys generalizing table with
  | nil => rfl
  | cons first rest ih =>
    rw [foldl_cons, ih, get?_modify]
    by_cases here : key = first
    · subst here
      cases table.get? key <;> simp [idem]
    · simp [here]

/-- Delete every selected row. -/
def deleteWhere (table : Table κ ρ) (selected : κ → ρ → Bool) : Table κ ρ where
  rows := table.rows.filter fun row => !selected row.1 row.2
  sorted := table.sorted.filter _

theorem get?_deleteWhere (selected : κ → ρ → Bool) (key : κ) :
    (table.deleteWhere selected).get? key = (table.get? key).filter (fun row => !selected key row) := by
  apply Option.ext
  intro row
  rw [Option.filter_eq_some_iff, get?_eq_some_iff, get?_eq_some_iff]
  exact mem_filter

theorem get?_of_deleteWhere {table : Table κ ρ} (found : (table.deleteWhere selected).get? key = some row) :
    table.get? key = some row := by
  rw [get?_deleteWhere, Option.filter_eq_some_iff] at found
  exact found.1

/-- A condition on the key alone. -/
theorem get?_deleteWhere_key (selected : κ → Bool) (key : κ) :
    (table.deleteWhere (fun other _ => selected other)).get? key = if selected key then none else table.get? key := by
  rw [get?_deleteWhere]
  cases table.get? key <;> cases selected key <;> rfl

/-- Rows of which all or none are deleted. -/
theorem select_deleteWhere {chosen : κ → Bool} (gone : Bool)
    (same : ∀ key row, chosen key = true → selected key row = gone) :
    (table.deleteWhere selected).select (fun key _ => chosen key) =
      if gone then [] else table.select (fun key _ => chosen key) := by
  simp only [select, deleteWhere, filter_filter]
  cases gone with
  | true =>
    refine filter_eq_nil_iff.mpr ?_
    rintro ⟨key, row⟩ _ both
    simp only [Bool.and_eq_true] at both
    simp [same key row both.1] at both
  | false =>
    refine filter_congr ?_
    rintro ⟨key, row⟩ _
    cases isChosen : chosen key with
    | true => simp [same key row isChosen]
    | false => simp

/-- Insert a row in key order; a row that already has the key stays. -/
def insertRow (key : κ) (row : ρ) : List (κ × ρ) → List (κ × ρ)
  | [] => [(key, row)]
  | entry :: rest =>
      if key < entry.1 then (key, row) :: entry :: rest
      else if key = entry.1 then entry :: rest
      else entry :: insertRow key row rest

private theorem mem_insertRow_iff {entry : κ × ρ} (sorted : rows.Pairwise (fun first second => first.1 < second.1)) :
    entry ∈ insertRow key row rows ↔
      entry ∈ rows ∨ entry = (key, row) ∧ ∀ other ∈ rows, other.1 ≠ key := by
  induction rows with
  | nil => simp [insertRow]
  | cons first rest ih =>
    obtain ⟨below, tail⟩ := pairwise_cons.mp sorted
    simp only [insertRow]
    split_ifs with early same
    · have fresh : ∀ other ∈ first :: rest, other.1 ≠ key := by
        intro other member
        rcases mem_cons.mp member with rfl | later
        · exact ne_of_gt early
        · exact ne_of_gt (lt_trans early (below other later))
      rw [mem_cons, or_comm]
      exact or_congr_right (iff_self_and.mpr fun _ => fresh)
    · have taken : ¬ ∀ other ∈ first :: rest, other.1 ≠ key :=
        fun fresh => fresh first mem_cons_self same.symm
      simp only [taken, and_false, or_false]
    · rw [mem_cons, ih tail, mem_cons, or_assoc, forall_mem_cons]
      exact or_congr_right (or_congr_right (and_congr_right fun _ => (and_iff_right (Ne.symm same)).symm))

private theorem insertRow_sorted (key : κ) (row : ρ) (sorted : rows.Pairwise (fun first second => first.1 < second.1)) :
    (insertRow key row rows).Pairwise (fun first second => first.1 < second.1) := by
  induction rows with
  | nil => exact pairwise_singleton _ _
  | cons entry rest ih =>
    obtain ⟨below, tail⟩ := pairwise_cons.mp sorted
    simp only [insertRow]
    split_ifs with first same
    · refine pairwise_cons.mpr ⟨?_, sorted⟩
      intro other member
      rcases mem_cons.mp member with rfl | later
      · exact first
      · exact lt_trans first (below other later)
    · exact sorted
    · refine pairwise_cons.mpr ⟨?_, ih tail⟩
      intro other member
      rcases (mem_insertRow_iff tail).mp member with later | ⟨rfl, _⟩
      · exact below other later
      · exact lt_of_le_of_ne (not_lt.mp first) (Ne.symm same)

/-- Insert a row unless its key exists. -/
def insertNew (table : Table κ ρ) (key : κ) (row : ρ) : Table κ ρ where
  rows := insertRow key row table.rows
  sorted := insertRow_sorted key row table.sorted

theorem get?_insertNew (key other : κ) (row : ρ) : (table.insertNew key row).get? other =
      if other = key then some ((table.get? key).getD row) else table.get? other := by
  apply Option.ext
  intro found
  rw [get?_eq_some_iff]
  change (other, found) ∈ insertRow key row table.rows ↔ _
  rw [mem_insertRow_iff table.sorted, ← get?_eq_some_iff]
  split_ifs with same
  · subst same
    cases stored : table.get? other with
    | none =>
      have fresh : ∀ entry ∈ table.rows, entry.1 ≠ other := by
        rintro ⟨taken, value⟩ member rfl
        exact Option.some_ne_none value ((table.get?_eq_some_iff.mpr member).symm.trans stored)
      rw [and_iff_left fresh]
      simp [eq_comm]
    | some value =>
      have taken : ¬ ∀ entry ∈ table.rows, entry.1 ≠ other :=
        fun fresh => fresh (other, value) (table.get?_eq_some_iff.mp stored) rfl
      rw [or_iff_left fun added => taken added.2]
      rfl
  · simp [same]

/-- A row that is not selected. -/
theorem select_insertNew_other (chosen : κ → Bool) (row : ρ) (other : chosen key = false) :
    (table.insertNew key row).select (fun key _ => chosen key) = table.select (fun key _ => chosen key) := by
  suffices kept : ∀ rows : List (κ × ρ), (insertRow key row rows).filter (fun entry => chosen entry.1) =
      rows.filter (fun entry => chosen entry.1) from kept table.rows
  intro rows
  induction rows with
  | nil => simp [insertRow, other]
  | cons entry rest ih =>
    simp only [insertRow]
    split_ifs
    · rw [filter_cons_of_neg (by simp [other])]
    · rfl
    · rw [filter_cons, filter_cons, ih]

/-- A selected row whose key comes after the selected ones. -/
theorem select_insertNew_last (chosen : κ → Bool) (row : ρ) (isChosen : chosen key = true)
    (last : ∀ entry ∈ table.select (fun key _ => chosen key), entry.1 < key) :
    (table.insertNew key row).select (fun key _ => chosen key) =
      table.select (fun key _ => chosen key) ++ [(key, row)] := by
  suffices appended : ∀ rows : List (κ × ρ), rows.Pairwise (fun first second => first.1 < second.1) →
      (∀ entry ∈ rows.filter (fun entry => chosen entry.1), entry.1 < key) →
      (insertRow key row rows).filter (fun entry => chosen entry.1) =
        rows.filter (fun entry => chosen entry.1) ++ [(key, row)] from appended table.rows table.sorted last
  intro rows sorted last
  induction rows with
  | nil => simp [insertRow, isChosen]
  | cons entry rest ih =>
    obtain ⟨below, tail⟩ := pairwise_cons.mp sorted
    simp only [insertRow]
    split_ifs with first same
    · -- Every row from here on comes after the key, so none of them is selected.
      have none : (entry :: rest).filter (fun entry => chosen entry.1) = [] := by
        refine filter_eq_nil_iff.mpr ?_
        intro found member isSelected
        have before := last found (mem_filter.mpr ⟨member, isSelected⟩)
        rcases mem_cons.mp member with rfl | later
        · exact lt_asymm first before
        · exact lt_asymm (first.trans (below found later)) before
      rw [filter_cons_of_pos (by simpa using isChosen), none]
      rfl
    · subst same
      exact absurd (last entry (mem_filter.mpr ⟨mem_cons_self, by simpa using isChosen⟩)) (lt_irrefl _)
    · have later : ∀ found ∈ rest.filter (fun entry => chosen entry.1), found.1 < key := by
        intro found member
        obtain ⟨isRest, isSelected⟩ := mem_filter.mp member
        exact last found (mem_filter.mpr ⟨mem_cons_of_mem _ isRest, isSelected⟩)
      rw [filter_cons, filter_cons, ih tail later]
      split_ifs <;> rfl

/-- Insert a row, or change the stored one when the key exists. -/
def upsert (table : Table κ ρ) (key : κ) (fresh : ρ) (change : ρ → ρ) : Table κ ρ :=
  match table.get? key with
  | some _ => table.modify key change
  | none => table.insertNew key fresh

theorem get?_upsert (key other : κ) (fresh : ρ) (change : ρ → ρ) : (table.upsert key fresh change).get? other =
      if other = key then some ((table.get? key).elim fresh change) else table.get? other := by
  unfold upsert
  split <;> rename_i stored
  · rw [get?_modify]
    split_ifs with same
    · rw [same, stored]
      rfl
    · rfl
  · rw [get?_insertNew, stored]
    rfl

/-- Store a row under its key, whatever was there. -/
def put (table : Table κ ρ) (key : κ) (row : ρ) : Table κ ρ := table.upsert key row fun _ => row

theorem get?_put (key other : κ) (row : ρ) :
    (table.put key row).get? other = if other = key then some row else table.get? other := by
  rw [put, get?_upsert]
  cases table.get? key <;> rfl

/-- Rows in key order that are put into a table are read back, and elsewhere the table is as before. -/
theorem get?_foldl_put (sorted : rows.Pairwise (fun first second => first.1 < second.1)) (table : Table κ ρ) (key : κ) :
    (rows.foldl (fun table row => table.put row.1 row.2) table).get? key =
      ((rows.find? (fun row => row.1 = key)).map Prod.snd).or (table.get? key) := by
  induction rows generalizing table with
  | nil => rfl
  | cons row rest ih =>
    obtain ⟨first, later⟩ := pairwise_cons.mp sorted
    rw [foldl_cons, ih later, get?_put, find?_cons]
    by_cases isRow : row.1 = key
    · have absent : rest.find? (fun other => other.1 = key) = none := by
        refine find?_eq_none.mpr fun other member same => ?_
        exact absurd (isRow.trans (of_decide_eq_true same).symm) (first other member).ne
      rw [absent, if_pos isRow.symm, decide_eq_true isRow]
      rfl
    · rw [if_neg (Ne.symm isRow), decide_eq_false isRow]

/-! ## Growth -/

/-- Every stored row stays as it is. -/
def Extends (old new : Table κ ρ) : Prop := ∀ key row, old.get? key = some row → new.get? key = some row

namespace Extends

theorem refl : table.Extends table := fun _ _ stored => stored

theorem trans {first middle last : Table κ ρ} (left : first.Extends middle) (right : middle.Extends last) :
    first.Extends last :=
  fun key row stored => right key row (left key row stored)

theorem insertNew (key : κ) (row : ρ) : table.Extends (table.insertNew key row) := by
  intro other found stored
  rw [get?_insertNew]
  split_ifs with same
  · rw [same] at stored
    rw [stored, Option.getD_some]
  · exact stored

theorem isSome {old new : Table κ ρ} (grows : old.Extends new) (stored : (old.get? key).isSome = true) :
    (new.get? key).isSome = true := by
  obtain ⟨row, found⟩ := Option.isSome_iff_exists.mp stored
  rw [grows key row found]
  rfl

end Extends

/-! ## Parts of a table -/

/-- The rows of some keys are the same in both tables. -/
def AgreesOn (among : κ → Prop) (old new : Table κ ρ) : Prop := ∀ key, among key → new.get? key = old.get? key

/-- None of some keys has a row. -/
def EmptyOn (among : κ → Prop) (table : Table κ ρ) : Prop := ∀ key, among key → table.get? key = none

variable {among : κ → Prop} {table : Table κ ρ}

namespace AgreesOn

theorem refl (table : Table κ ρ) : AgreesOn among table table := fun _ _ => rfl

theorem trans {first middle last : Table κ ρ} (left : AgreesOn among first middle)
    (right : AgreesOn among middle last) : AgreesOn among first last :=
  fun key isAmong => (right key isAmong).trans (left key isAmong)

theorem insertNew (row : ρ) (other : ¬ among key) : AgreesOn among table (table.insertNew key row) := by
  intro found isAmong
  rw [get?_insertNew, if_neg]
  rintro rfl
  exact other isAmong

theorem put (row : ρ) (other : ¬ among key) : AgreesOn among table (table.put key row) := by
  intro found isAmong
  rw [get?_put, if_neg]
  rintro rfl
  exact other isAmong

theorem updateWhere (change : ρ → ρ) (spared : ∀ key row, among key → selected key row = false) :
    AgreesOn among table (table.updateWhere selected change) := by
  intro key isAmong
  rw [get?_updateWhere]
  cases table.get? key <;> simp [spared key _ isAmong]

theorem deleteWhere (spared : ∀ key row, among key → table.get? key = some row → selected key row = false) :
    AgreesOn among table (table.deleteWhere selected) := by
  intro key isAmong
  rw [get?_deleteWhere]
  cases stored : table.get? key with
  | none => rfl
  | some row => simp [spared key row isAmong stored]

end AgreesOn

namespace EmptyOn

theorem agrees {new : Table κ ρ} (isEmpty : EmptyOn among table) (same : AgreesOn among table new) :
    EmptyOn among new :=
  fun key isAmong => (same key isAmong).trans (isEmpty key isAmong)

theorem deleteWhere (isEmpty : EmptyOn among table) (selected : κ → ρ → Bool) :
    EmptyOn among (table.deleteWhere selected) := by
  intro key isAmong
  rw [get?_deleteWhere, isEmpty key isAmong]
  rfl

theorem of_deleteWhere (table : Table κ ρ)
    (chosen : ∀ key row, among key → table.get? key = some row → selected key row = true) :
    EmptyOn among (table.deleteWhere selected) := by
  intro key isAmong
  rw [get?_deleteWhere, Option.filter_eq_none_iff]
  intro row stored
  simp [chosen key row isAmong stored]

end EmptyOn

end Table

end Ferrus

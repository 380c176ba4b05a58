import Ferrus.ToMathlib.KeyedTable
import Ferrus.ToMathlib.PartialEq
import Mathlib.Data.List.Induction
import Mathlib.Data.List.Pairwise
import Mathlib.Data.List.Sort
import Mathlib.Data.Set.Function
import Mathlib.Data.Set.Insert

/-! # Tables that are filled row by row

Of the rows with one key the last one is kept. Rows with distinct keys have exactly one table, so a table that is
filled row by row does not depend on their order. Rows of one key that only compare equal do not have this property.
-/

namespace Ferrus.Table

open Option

variable {κ α : Type*} [LinearOrder κ]

theorem ext_get? {first second : Table κ α} (same : ∀ key, first.get? key = second.get? key) : first = second := by
  obtain ⟨rows, sorted⟩ := first
  obtain ⟨others, otherSorted⟩ := second
  have irrefl : Std.Irrefl (fun first second : κ × α => first.1 < second.1) := ⟨fun _ => lt_irrefl _⟩
  have antisymm : Std.Antisymm (fun first second : κ × α => first.1 < second.1) :=
    ⟨fun _ _ less more => absurd more (lt_asymm less)⟩
  have rowsEq : rows = others := by
    refine sorted.eq_of_mem_iff otherSorted ?_
    rintro ⟨key, row⟩
    have here := same key
    rw [← get?_eq_some_iff ⟨rows, sorted⟩, ← get?_eq_some_iff ⟨others, otherSorted⟩, here]
  subst rowsEq
  rfl

variable (change : α → α)

/-- Change every row. -/
def mapRows (table : Table κ α) : Table κ α := table.updateWhere (fun _ _ => true) change

@[simp] theorem get?_mapRows (table : Table κ α) (key : κ) :
    (table.mapRows change).get? key = (table.get? key).map change := by
  rw [mapRows, get?_updateWhere]
  rfl

theorem mapRows_insertNew (table : Table κ α) (key : κ) (row : α) :
    (table.insertNew key row).mapRows change = (table.mapRows change).insertNew key (change row) := by
  refine ext_get? fun other => ?_
  rw [get?_mapRows, get?_insertNew, get?_insertNew, get?_mapRows, get?_mapRows]
  split_ifs
  · cases table.get? key <;> rfl
  · rfl

/-- Of the rows that are inserted under one key, the first is read back, unless the table has one already. -/
theorem get?_foldl_insertNew (id : α → κ) (rows : List α) (table : Table κ α) (key : κ) :
    (rows.foldl (fun table row => table.insertNew (id row) row) table).get? key =
      (table.get? key).or (rows.find? (fun row => id row = key)) := by
  induction rows generalizing table with
  | nil => rw [List.foldl_nil, List.find?_nil, or_none]
  | cons row rest ih =>
    rw [List.foldl_cons, ih, get?_insertNew, List.find?_cons]
    by_cases isRow : id row = key
    · rw [if_pos isRow.symm, isRow, decide_eq_true rfl]
      cases table.get? key <;> rfl
    · rw [if_neg (Ne.symm isRow), decide_eq_false isRow]

/-! ### The last row of each key -/

section OfRows

variable {id : α → κ} {rows others : List α} {row : α}

/-- The rows under their keys; of those with one key the last one is kept. -/
def ofRows (id : α → κ) (rows : List α) : Table κ α := rows.foldl (fun table row => table.put (id row) row) empty

theorem ofRows_concat (id : α → κ) (rows : List α) (row : α) :
    ofRows id (rows ++ [row]) = (ofRows id rows).put (id row) row :=
  List.foldl_concat ..

theorem get?_ofRows (id : α → κ) (rows : List α) (key : κ) :
    (ofRows id rows).get? key = rows.reverse.find? (fun row => id row = key) := by
  induction rows using List.reverseRecOn with
  | nil => rfl
  | append_singleton rest row ih =>
    rw [ofRows_concat, get?_put, List.reverse_append, List.reverse_singleton, List.singleton_append,
      List.find?_cons, ih]
    by_cases here : id row = key
    · rw [if_pos here.symm, decide_eq_true here]
    · rw [if_neg (Ne.symm here), decide_eq_false here]

theorem mem_of_get?_ofRows {key : κ} (found : (ofRows id rows).get? key = some row) : row ∈ rows ∧ id row = key := by
  rw [get?_ofRows] at found
  exact ⟨List.mem_reverse.mp (List.mem_of_find?_eq_some found), by simpa using List.find?_some found⟩

theorem isSome_get?_ofRows {key : κ} :
    ((ofRows id rows).get? key).isSome = rows.any fun row => id row = key := by
  rw [get?_ofRows, Bool.eq_iff_iff, List.find?_isSome]
  simp

/-- Rows with distinct keys have one table, in whatever order and however often they come. -/
theorem ofRows_congr (injective : Set.InjOn id {row | row ∈ rows}) (same : ∀ row, row ∈ rows ↔ row ∈ others) :
    ofRows id rows = ofRows id others := by
  have kept {rows others : List α} (injective : Set.InjOn id {row | row ∈ rows})
    (same : ∀ row, row ∈ rows ↔ row ∈ others)
      {key : κ} {row : α} (found : (ofRows id rows).get? key = some row) : (ofRows id others).get? key = some row := by
    obtain ⟨member, rfl⟩ := mem_of_get?_ofRows found
    have stored : ((ofRows id others).get? (id row)).isSome = true := by
      rw [isSome_get?_ofRows, List.any_eq_true]
      exact ⟨row, (same row).mp member, decide_eq_true rfl⟩
    obtain ⟨other, isOther⟩ := isSome_iff_exists.mp stored
    obtain ⟨isMember, sameKey⟩ := mem_of_get?_ofRows isOther
    rw [isOther, injective ((same other).mpr isMember) member sameKey]
  have otherInjective : Set.InjOn id {row | row ∈ others} := fun first isFirst second isSecond =>
    injective ((same first).mpr isFirst) ((same second).mpr isSecond)
  refine ext_get? fun key => ext fun row => ⟨kept injective same, kept otherInjective fun row => (same row).symm⟩

variable [PartialEq α]

/-- Rows with one key compare equal. -/
def KeysAgree (id : α → κ) (rows : List α) : Prop :=
  rows.Pairwise fun first second => id first = id second → PartialEq.eq first second = true

instance (id : α → κ) (rows : List α) : Decidable (KeysAgree id rows) :=
  inferInstanceAs (Decidable (rows.Pairwise _))

omit [LinearOrder κ] in
theorem KeysAgree.earlier (agree : KeysAgree id (rows ++ others)) :
    KeysAgree id rows := (List.pairwise_append.mp agree).1

/-- A row is the last one of its key or compares equal to it. -/
theorem KeysAgree.eq_last {last : α} (agree : KeysAgree id rows) (member : row ∈ rows)
    (found : (ofRows id rows).get? (id row) = some last) : row = last ∨ PartialEq.eq row last = true := by
  induction rows using List.reverseRecOn with
  | nil => exact absurd member List.not_mem_nil
  | append_singleton rest new ih =>
    obtain ⟨earlier, -, before⟩ := List.pairwise_append.mp agree
    rw [ofRows_concat, get?_put] at found
    split_ifs at found with here
    · cases found
      rcases List.mem_append.mp member with isEarlier | isNew
      · exact .inr (before row isEarlier _ List.mem_cons_self here)
      · exact .inl (List.mem_singleton.mp isNew)
    · refine ih earlier ((List.mem_append.mp member).resolve_right fun isNew => here ?_) found
      rw [List.mem_singleton.mp isNew]

theorem keysAgree_concat : KeysAgree id (rows ++ [row]) ↔
    KeysAgree id rows ∧ ((ofRows id rows).get? (id row)).all (PartialEq.eq · row) = true := by
  unfold KeysAgree
  rw [List.pairwise_append]
  constructor
  · rintro ⟨earlier, -, before⟩
    refine ⟨earlier, ?_⟩
    rw [Option.all_eq_true]
    intro last found
    obtain ⟨member, same⟩ := mem_of_get?_ofRows found
    exact before last member row List.mem_cons_self same
  · rintro ⟨earlier, agrees⟩
    refine ⟨earlier, List.pairwise_singleton _ _, fun other member new isNew same => ?_⟩
    cases List.mem_singleton.mp isNew
    have stored : ((ofRows id rows).get? (id other)).isSome = true := by
      rw [isSome_get?_ofRows, List.any_eq_true]
      exact ⟨other, member, decide_eq_true rfl⟩
    obtain ⟨last, found⟩ := isSome_iff_exists.mp stored
    have equal : PartialEq.eq last row = true := by
      rw [← same, found] at agrees
      exact agrees
    exact (KeysAgree.eq_last earlier member found).elim (· ▸ equal) (PartialEq.trans · equal)

/-- What the comparison respects holds of every row if it holds of the last row of each key. -/
theorem KeysAgree.all_values (agree : KeysAgree id rows) {holds : α → Bool}
    (respects : ∀ first second, PartialEq.eq first second = true → holds first = holds second) :
    (ofRows id rows).values.all holds = rows.all holds := by
  rw [Bool.eq_iff_iff, List.all_eq_true, List.all_eq_true]
  constructor
  · intro every row member
    have stored : ((ofRows id rows).get? (id row)).isSome = true := by
      rw [isSome_get?_ofRows, List.any_eq_true]
      exact ⟨row, member, decide_eq_true rfl⟩
    obtain ⟨last, found⟩ := isSome_iff_exists.mp stored
    have isLast := every last ((ofRows id rows).mem_values_iff.mpr ⟨_, found⟩)
    exact (agree.eq_last member found).elim (· ▸ isLast) fun equal => (respects row last equal).trans isLast
  · intro every row isValue
    obtain ⟨key, found⟩ := (ofRows id rows).mem_values_iff.mp isValue
    exact every row (mem_of_get?_ofRows found).1

/-- Rows with one key that compare equal are identical. -/
def ToldApart (id : α → κ) (rows : List α) : Prop :=
  ∀ first ∈ rows, ∀ second ∈ rows, id first = id second → PartialEq.eq first second = true → first = second

instance [DecidableEq κ] [DecidableEq α] (id : α → κ) (rows : List α) : Decidable (ToldApart id rows) :=
  inferInstanceAs (Decidable (∀ first ∈ rows, _))

omit [LinearOrder κ] [PartialEq α] in
theorem toldApart_exact [DecidableEq α] (id : α → κ) (rows : List α) :
    @ToldApart κ α (.exact α) id rows := fun _ _ _ _ _ equal => of_decide_eq_true equal

omit [LinearOrder κ] in
theorem KeysAgree.injOn (agree : KeysAgree id rows) (told : ToldApart id rows) : Set.InjOn id {row | row ∈ rows} := by
  intro first isFirst second isSecond same
  have symmetric : Std.Symm fun first second : α => id first = id second → PartialEq.eq first second = true :=
    ⟨fun _ _ equal sameKey => PartialEq.symm (equal sameKey.symm)⟩
  by_contra different
  exact different (told first isFirst second isSecond same (List.Pairwise.forall agree isFirst isSecond different same))

omit [LinearOrder κ] in
/-- If equal rows are identical and every row is equal to itself, the set of the rows decides whether they agree. -/
theorem keysAgree_congr (told : ToldApart id rows) (reflexive : ∀ row ∈ rows, PartialEq.eq row row = true)
    (same : ∀ row, row ∈ rows ↔ row ∈ others) : KeysAgree id rows ↔ KeysAgree id others := by
  have agree_iff {rows : List α} (told : ToldApart id rows) (reflexive : ∀ row ∈ rows, PartialEq.eq row row = true) :
      KeysAgree id rows ↔ Set.InjOn id {row | row ∈ rows} := by
    refine ⟨fun agree => agree.injOn told, fun injective => ?_⟩
    refine List.pairwise_of_forall_mem_list fun first isFirst second isSecond sameKey => ?_
    rw [← injective isFirst isSecond sameKey]
    exact reflexive first isFirst
  have members : {row | row ∈ rows} = {row | row ∈ others} := Set.ext same
  rw [agree_iff told reflexive, members, agree_iff]
  · exact fun first isFirst second isSecond => told first ((same first).mpr isFirst) second ((same second).mpr isSecond)
  · exact fun row member => reflexive row ((same row).mpr member)

end OfRows

end Ferrus.Table

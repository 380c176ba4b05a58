import Ferrus.Model.Nano.Patch
import Ferrus.Proofs.TextLines

/-! # Lines that an update replaces

A hunk starts where a line starts and ends where one ends, so an update exchanges whole lines of a file. Its
replacements stay lines of their own unless one that reaches the end of the file has no newline and another one that
is not empty follows it.
-/

namespace Ferrus.Nano

open Ferrus.ProjectMemory Except List

/-- The lines up to the end of the last hunk, before and after the hunks: each comes after the one before it,
starts at its line and replaces its old lines by its new ones. -/
inductive Replaces : List (List Char) → List (List Char) → List Hunk → Prop
  | nil : Replaces [] [] []
  | hunk {before after hunks} {hunk : Hunk} (kept : List (List Char)) (done : Replaces before after hunks)
      (start : hunk.startLine = before.length + kept.length + 1) :
      Replaces (before ++ kept ++ splitInclusive [] hunk.oldText) (after ++ kept ++ splitInclusive [] hunk.newText)
        (hunks ++ [hunk])

theorem Replaces.new_mem {before after : List (List Char)} {hunks : List Hunk}
    (replaces : Replaces before after hunks) : ∀ hunk ∈ hunks, splitInclusive [] hunk.newText ⊆ after := by
  induction replaces with
  | nil => simp
  | hunk kept _ _ ih =>
    intro other member
    obtain earlier | isNew := mem_append.mp member
    · exact fun line isLine => mem_append_left _ (mem_append_left _ (ih other earlier isLine))
    · cases mem_singleton.mp isNew
      exact subset_append_right ..

/-- A replacement without a newline at its end is followed by empty ones only. -/
def KeepsLines (hunks : List Hunk) : Prop :=
  hunks.Pairwise fun hunk later => endsLine hunk.newText = true ∨ later.newText = []

instance (hunks : List Hunk) : Decidable (KeepsLines hunks) :=
  inferInstanceAs (Decidable (hunks.Pairwise _))

/-- Where every line that is followed has its newline, the replacements have kept to lines of their own. -/
theorem Replaces.keepsLines {before after : List (List Char)} {hunks : List Hunk}
    (replaces : Replaces before after hunks)
    (closed : after.Pairwise fun line _ => endsLine line = true) : KeepsLines hunks := by
  induction replaces with
  | nil => exact .nil
  | @hunk before after hunks hunk kept done start ih =>
    rw [append_assoc] at closed
    obtain ⟨earlierClosed, -, followed⟩ := pairwise_append.mp closed
    refine pairwise_append.mpr ⟨ih earlierClosed, pairwise_singleton _ _, fun earlier isEarlier later isLater => ?_⟩
    cases mem_singleton.mp isLater
    by_cases isNil : hunk.newText = []
    · exact .inr isNil
    · obtain ⟨line, isLine⟩ := exists_mem_of_ne_nil _ (splitInclusive_ne_nil isNil)
      have ended := endsLine_flatten fun earlierLine isEarlierLine =>
        followed earlierLine (done.new_mem earlier isEarlier isEarlierLine) line (mem_append_right _ isLine)
      rw [flatten_splitInclusive] at ended
      exact .inl ended

/-! ### Offsets -/

private theorem newlineOffsets_some {text : List Char} {base index start : Nat}
    (found : (newlineOffsets base text)[index]? = some start) :
    ∃ head rest, text = head ++ '\n' :: rest ∧ start = base + head.length + 1 ∧ head.count '\n' = index := by
  induction text generalizing base index with
  | nil => simp [newlineOffsets] at found
  | cons char text ih =>
    unfold newlineOffsets at found
    split_ifs at found with isNewline
    · subst isNewline
      cases index with
      | zero =>
        cases found
        exact ⟨[], text, rfl, rfl, rfl⟩
      | succ index =>
        obtain ⟨head, rest, rfl, rfl, rfl⟩ := ih found
        exact ⟨'\n' :: head, rest, rfl, by simp; omega, by simp⟩
    · obtain ⟨head, rest, rfl, rfl, rfl⟩ := ih found
      exact ⟨char :: head, rest, rfl, by simp; omega, by simp [isNewline]⟩

/-- A line starts after the newlines of the lines before it. -/
private theorem offsets_some {before : List Char} {index start : Nat} (found : (offsets before)[index]? = some start) :
    endsLine (before.take start) = true ∧ (before.take start).count '\n' = index := by
  cases index with
  | zero =>
    cases found
    exact ⟨rfl, rfl⟩
  | succ index =>
    obtain ⟨head, rest, rfl, rfl, rfl⟩ := newlineOffsets_some found
    have cut : (head ++ '\n' :: rest).take (0 + head.length + 1) = head ++ ['\n'] := by
      rw [append_cons]
      exact take_left' (by simp)
    rw [cut]
    simp [endsLine]

/-! ### The loop -/

/-- What the loop has made of the hunks that it has read. -/
structure Applied (before : List Char) (done : List Hunk) (state : HunkState) : Prop where
  bound : state.consumed ≤ before.length
  closed : state.consumed < before.length →
    endsLine (before.take state.consumed) = true ∧ ∀ hunk ∈ done, endsLine hunk.newText = true
  output : (∀ hunk ∈ done, endsLine hunk.newText = true) → endsLine state.output = true
  replaced : ∃ lines, Replaces (splitInclusive [] (before.take state.consumed)) lines done ∧
    lines.flatten = state.output ∧ (KeepsLines done → splitInclusive [] state.output = lines)

private theorem endsLine_of_checks {stop size : Nat} {text : List Char}
    (checked : (stop < size && !text.isEmpty && text.getLast? ≠ some '\n') = false) (inside : stop < size) :
    endsLine text = true := by
  unfold endsLine
  cases last : text.getLast? with
  | none => rfl
  | some char =>
    have nonempty : text ≠ [] := by
      rintro rfl
      cases last
    simpa [inside, nonempty, last] using checked

theorem Applied.step {path : String} {before : List Char} {limit : Nat} {done : List Hunk} {state next : HunkState}
    {hunk : Hunk} (applied : Applied before done state)
    (applies : applyHunk path before limit state hunk = .ok next) : Applied before (done ++ [hunk]) next := by
  unfold applyHunk at applies
  split at applies
  · cases applies
  next start found =>
  split_ifs at found with positive
  obtain ⟨startClosed, number⟩ := offsets_some found
  simp only [reject_eq_ok_iff, Bool.not_eq_true, Bool.or_eq_false_iff, decide_eq_false_iff_not, not_lt] at applies
  obtain ⟨within, ⟨⟨⟨⟨inOrder, -⟩, matched⟩, oldChecked⟩, newChecked⟩, _, ⟨⟩⟩ := applies
  obtain ⟨rest, isOld⟩ : hunk.oldText <+: before.drop start := by simpa using matched
  have stopCut : before.take (start + hunk.oldText.length) = before.take start ++ hunk.oldText := by
    rw [take_add, ← isOld, take_left]
  -- The text up to the hunk is what has been consumed and what is kept.
  obtain ⟨kept, isKept, keptCut⟩ : ∃ kept, (before.take start).drop state.consumed = kept ∧
      before.take start = before.take state.consumed ++ kept := by
    refine ⟨_, rfl, ?_⟩
    conv_lhs => rw [← take_append_drop state.consumed (before.take start), take_take, min_eq_left inOrder]
  have consumedClosed : endsLine (before.take state.consumed) = true := by
    rcases Nat.lt_or_ge state.consumed before.length with inside | ended
    · exact (applied.closed inside).1
    · rwa [take_of_length_le ended, ← take_of_length_le (ended.trans inOrder)]
  have startLines := splitInclusive_append consumedClosed kept
  rw [← keptCut] at startLines
  have keptClosed : endsLine kept = true := endsLine_right (keptCut ▸ startClosed)
  rw [isKept]
  obtain ⟨lines, replaces, isOutput, areLines⟩ := applied.replaced
  refine ⟨within, fun inside => ⟨?_, ?_⟩, ?_, ?_⟩
  · rw [stopCut]
    exact endsLine_append startClosed (endsLine_of_checks oldChecked inside)
  · change start + hunk.oldText.length < before.length at inside
    have earlier := (applied.closed (by omega)).2
    exact forall_mem_append.mpr ⟨earlier, forall_mem_singleton.mpr (endsLine_of_checks newChecked inside)⟩
  · intro closed
    obtain ⟨earlier, isNew⟩ := forall_mem_append.mp closed
    exact endsLine_append (endsLine_append (applied.output earlier) keptClosed) (isNew hunk mem_cons_self)
  · refine ⟨lines ++ splitInclusive [] kept ++ splitInclusive [] hunk.newText, ?_,
      by simp [isOutput, flatten_splitInclusive], ?_⟩
    · rw [stopCut, splitInclusive_append startClosed, startLines]
      refine .hunk _ replaces ?_
      rw [← length_append, ← startLines, length_splitInclusive startClosed, number]
      omega
    · intro keeps
      obtain ⟨earlier, -, later⟩ := pairwise_append.mp keeps
      rw [← areLines earlier]
      by_cases closed : ∀ other ∈ done, endsLine other.newText = true
      · have outputClosed := applied.output closed
        rw [splitInclusive_append (endsLine_append outputClosed keptClosed), splitInclusive_append outputClosed]
      · -- a replacement without its newline has reached the end of the file
        obtain ⟨other, isOther, unfinished⟩ : ∃ other ∈ done, endsLine other.newText ≠ true := by simpa using closed
        have ended : before.length ≤ state.consumed := by
          by_contra inside
          exact unfinished ((applied.closed (not_le.mp inside)).2 other isOther)
        have keptNil : kept = [] := by
          rw [← isKept, take_of_length_le (ended.trans inOrder), drop_of_length_le ended]
        have newNil := (later other isOther hunk mem_cons_self).resolve_left unfinished
        simp [keptNil, newNil, splitInclusive]

/-- An update that is accepted replaces the lines of its hunks, which follow each other and match the file, and
leaves the other lines. The lines of the result are those of the replacements and of the file exactly if a replacement
that lacks its newline is followed by empty ones only. -/
theorem hunks_replace_lines (path : String) (before : List Char) (limit : Nat) (hunks : List Hunk) {after : List Char}
    (accepted : prepareUpdate path before limit hunks = .ok after) :
    ∃ replaced lines rest, Replaces replaced lines hunks ∧ splitInclusive [] before = replaced ++ rest ∧
      after = (lines ++ rest).flatten ∧
      (splitInclusive [] after = lines ++ rest ↔ KeepsLines hunks) := by
  simp only [prepareUpdate, applyHunks, bind_eq_ok_iff, reject_eq_ok_iff] at accepted
  obtain ⟨_, ⟨_, state, folded, _, ⟨⟩⟩, _, _, ⟨⟩⟩ := accepted
  have start : Applied before [] ⟨[], 0, none⟩ :=
    ⟨Nat.zero_le _, fun _ => ⟨rfl, by simp⟩, fun _ => rfl, [], .nil, rfl, fun _ => rfl⟩
  have applied := foldlM_reads (Applied before) (fun _ _ _ _ applied applies => applied.step applies) start folded
  obtain ⟨lines, replaces, isOutput, areLines⟩ := applied.replaced
  refine ⟨_, lines, splitInclusive [] (before.drop state.consumed), replaces, ?_, ?_, fun split => ?_, fun keeps => ?_⟩
  · rcases Nat.lt_or_ge state.consumed before.length with inside | ended
    · rw [← splitInclusive_append (applied.closed inside).1, take_append_drop]
    · rw [drop_eq_nil_of_le ended, take_of_length_le ended]
      exact (append_nil _).symm
  · rw [flatten_append, isOutput, flatten_splitInclusive]
    rfl
  · have closed := splitInclusive_pairwise [] (state.output ++ before.drop state.consumed)
    rw [split] at closed
    exact replaces.keepsLines (pairwise_append.mp closed).1
  · rcases Nat.lt_or_ge state.consumed before.length with inside | ended
    · rw [splitInclusive_append (applied.output (applied.closed inside).2), areLines keeps]
    · rw [drop_eq_nil_of_le ended, append_nil, areLines keeps]
      exact (append_nil _).symm

/-- The first line is replaced, and one without a newline is added. -/
private def twoHunks (first : String) (line : Nat) : List Hunk :=
  [⟨1, "a\n".toList, first.toList⟩, ⟨line, [], "y".toList⟩]

/-- Only the last replacement has no newline. -/
theorem hunks_replace_lines_added : ∃ replaced lines rest, Replaces replaced lines (twoHunks "x\n" 3) ∧
    splitInclusive [] "x\nb\ny".toList = lines ++ rest := by
  have accepted : prepareUpdate "f" "a\nb\n".toList 64 (twoHunks "x\n" 3) = .ok "x\nb\ny".toList := by decide
  obtain ⟨replaced, lines, rest, replaces, -, -, split⟩ := hunks_replace_lines "f" _ 64 _ accepted
  exact ⟨replaced, lines, rest, replaces, split.mpr (by decide)⟩

/-- The first replacement reaches the end of the file, and the second is joined to it. -/
theorem not_hunks_replace_lines_joined : prepareUpdate "f" "a\n".toList 64 (twoHunks "x" 2) = .ok "xy".toList ∧
      ¬ ∃ replaced lines rest, Replaces replaced lines (twoHunks "x" 2) ∧
        splitInclusive [] "xy".toList = lines ++ rest := by
  refine ⟨by decide, ?_⟩
  rintro ⟨replaced, lines, rest, replaces, split⟩
  have isLine : "y".toList ∈ lines := replaces.new_mem ⟨2, [], "y".toList⟩ (by decide) (by decide)
  have joined : "y".toList ∈ splitInclusive [] "xy".toList := split ▸ mem_append_left _ isLine
  revert joined
  decide

end Ferrus.Nano

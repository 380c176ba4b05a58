import Ferrus.Model.ProjectMemory.Documents
import Ferrus.Model.Tools.SpecMilestones
import Ferrus.Proofs.TextLines

/-! # Two parsers of a specification

The workflow and project memory read the milestones of a specification with parsers of their own. The workflow's wants a
space after the box of a head and takes the last id below it, the one of memory takes the first. Both find the same
milestones on the same lines exactly where these differences do not show below any head.
-/

namespace Ferrus.Specs

open Ferrus.ProjectMemory Ferrus.Text List

/-! ## Trimmed lines -/

private theorem trim_append {tail : List Char} (blank : ∀ char ∈ tail, isWhitespace char = true) (text : List Char) :
    trim (text ++ tail) = trim text := by
  unfold trim trimStart
  rw [dropWhile_append]
  split_ifs with empty
  · rw [dropWhile_eq_nil_iff.mpr blank, isEmpty_iff.mp empty]
  · rw [reverse_append, dropWhile_append_of_pos fun char member => blank char (mem_reverse.mp member)]

private theorem trim_rdropWhile {removed : Char → Bool} (blank : ∀ char, removed char = true → isWhitespace char = true)
    (text : List Char) : trim (text.rdropWhile removed) = trim text := by
  rw [← trim_append (fun char member => blank char (mem_rtakeWhile_imp member)), rdropWhile_append_rtakeWhile]

private theorem map_trim_numberedLines (start number : ℕ) (pieces : List (List Char)) :
    (numberedLines start number pieces).map (trim ·.text) = pieces.map trim := by
  induction pieces generalizing start number with
  | nil => rfl
  | cons raw rest ih =>
    rw [numberedLines, map_cons, map_cons, ih]
    refine congrArg (· :: _) (trim_rdropWhile (fun char ends => ?_) raw)
    rcases Bool.or_eq_true_iff.mp ends with isEnd | isEnd <;> rw [of_decide_eq_true isEnd] <;> rfl

private theorem byteLen_pos {text : List Char} (nonempty : text ≠ []) : 0 < byteLen text := by
  cases text with
  | nil => exact absurd rfl nonempty
  | cons char text => exact Nat.add_pos_left char.utf8Size_pos _

/-- Every line starts after the one before it. -/
private theorem numberedLines_increasing {pieces : List (List Char)} (nonempty : ∀ raw ∈ pieces, raw ≠ [])
    (start number : ℕ) : (numberedLines start number pieces).Pairwise (·.start < ·.start) ∧
      ∀ line ∈ numberedLines start number pieces, start ≤ line.start := by
  induction pieces generalizing start number with
  | nil => exact ⟨.nil, by simp [numberedLines]⟩
  | cons raw rest ih =>
    obtain ⟨rawNonempty, nonempty⟩ := forall_mem_cons.mp nonempty
    obtain ⟨increasing, after⟩ := ih nonempty (start + byteLen raw) (number + 1)
    have positive := byteLen_pos rawNonempty
    refine ⟨.cons (fun line isLater => ?_) increasing, forall_mem_cons.mpr ⟨le_rfl, fun line isLater => ?_⟩⟩
    · exact (Nat.lt_add_of_pos_right positive).trans_le (after line isLater)
    · exact (Nat.le_add_right ..).trans (after line isLater)

private theorem map_trim_splitInclusive (current content : List Char) :
    (splitInclusive current content).map trim = (linesFrom current content).map trim := by
  fun_induction linesFrom current content with
  | case1 | case2 => simp_all [splitInclusive]
  | case3 current rest ih =>
    rw [splitInclusive, map_cons, map_cons, ih, reverse_cons, trim_append (forall_mem_singleton.mpr rfl)]
  | case4 current char rest differs ih => rw [← ih, splitInclusive.eq_3 _ _ _ differs]

/-! ## Heads -/

/-- A text that starts with a box. -/
def Boxed (text : List Char) (mark : Char) (rest : List Char) : Prop := text = '-' :: ' ' :: '[' :: mark :: ']' :: rest

/-- What a box and the text after it say of a milestone. -/
def readHead (mark : Char) (rest : List Char) : Option (Bool × List Char) :=
  let marker := (trim rest).takeWhile (!isWhitespace ·)
  let title := trim ((trim rest).dropWhile (!isWhitespace ·))
  if (mark = ' ' || mark = 'x' || mark = 'X') && (1 < byteLen marker && marker.head? = some '#' && !title.isEmpty) then
    some (mark ≠ ' ', title)
  else none

variable {line rest : List Char} {mark : Char}

private theorem dropHead?_eq_some_iff {head text : List Char} :
    dropHead? head text = some rest ↔ text = head ++ rest := by
  unfold dropHead?
  split_ifs with starts
  · obtain ⟨tail, rfl⟩ := isPrefixOf_iff_prefix.mp starts
    simp [eq_comm]
  · simp only [false_iff]
    rintro rfl
    exact starts <| isPrefixOf_iff_prefix.mpr (prefix_append head rest)

private theorem milestoneHeader_of_boxed (boxed : Boxed (trim line) mark rest) :
    milestoneHeader line = readHead mark rest := by
  have starts : dropHead? "- [".toList (trim line) = some (mark :: ']' :: rest) := dropHead?_eq_some_iff.mpr boxed
  have closes : dropHead? "]".toList (']' :: rest) = some rest := rfl
  simp only [milestoneHeader, readHead, starts, Option.bind_eq_bind, Option.bind_some]
  split <;> simp_all

/-- Both parsers ask the same of what follows a box. -/
private theorem ite_marked {α : Type} (header title : List Char) (found : α) :
    (if header.head? ≠ some '#' || (header.takeWhile (!isWhitespace ·)).length ≤ 1 || title.isEmpty then none
      else some found) =
      if 1 < byteLen (header.takeWhile (!isWhitespace ·)) && (header.takeWhile (!isWhitespace ·)).head? = some '#' &&
        !title.isEmpty then some found else none := by
  cases header with
  | nil => rfl
  | cons char rest =>
    by_cases isMark : char = '#'
    · subst isMark
      have more : byteLen ('#' :: rest.takeWhile (!isWhitespace ·)) = 1 + byteLen (rest.takeWhile (!isWhitespace ·)) :=
        rfl
      rw [takeWhile_cons_of_pos (by decide), more]
      cases rest.takeWhile (!isWhitespace ·) with
      | nil => rfl
      | cons next others =>
        have positive := byteLen_pos (cons_ne_nil next others)
        simp [positive]
    · cases blank : isWhitespace char <;> simp [blank, isMark]

private theorem parseMilestoneHeader_of_boxed (boxed : Boxed (trimStart line) mark (' ' :: rest)) :
    (parseMilestoneHeader line).map (fun head => (head.1, head.2.2)) = readHead mark rest := by
  have starts : dropHead? "- [".toList (trimStart line) = some (mark :: ']' :: ' ' :: rest) :=
    dropHead?_eq_some_iff.mpr boxed
  simp only [parseMilestoneHeader, readHead, starts, Option.bind_eq_bind, Option.bind_some, ite_marked]
  split <;> simp_all [apply_ite]

theorem Boxed.trim (boxed : Boxed (trimStart line) mark rest) :
    Boxed (trim line) mark (rest.rdropWhile isWhitespace) := by
  have reversed : (trimStart line).reverse = rest.reverse ++ [']', mark, '[', ' ', '-'] := by
    rw [boxed]
    simp
  rw [Boxed, Text.trim, reversed, trimStart, dropWhile_append, dropWhile_cons_of_neg (by decide)]
  split_ifs with blank
  · simp [rdropWhile, isEmpty_iff.mp blank]
  · simp [rdropWhile]

private theorem boxed_of_milestoneHeader {head : Bool × List Char} (isHead : milestoneHeader line = some head) :
    ∃ mark rest, Boxed (trim line) mark rest := by
  simp only [milestoneHeader, Option.bind_eq_bind, Option.bind_eq_some_iff] at isHead
  obtain ⟨rest, starts, isHead⟩ := isHead
  replace starts := dropHead?_eq_some_iff.mp starts
  split at isHead <;> simp only [Option.bind_some, Option.bind_eq_some_iff, Option.bind_none, reduceCtorEq] at isHead
  all_goals
    obtain ⟨below, closes, -⟩ := isHead
    exact ⟨_, below, dropHead?_eq_some_iff.mp closes ▸ starts⟩

private theorem boxed_of_parseMilestoneHeader {head : Bool × List Char × List Char}
    (isHead : parseMilestoneHeader line = some head) : ∃ mark rest, Boxed (trimStart line) mark (' ' :: rest) := by
  simp only [parseMilestoneHeader, Option.bind_eq_bind, Option.bind_eq_some_iff] at isHead
  obtain ⟨rest, starts, isHead⟩ := isHead
  replace starts := dropHead?_eq_some_iff.mp starts
  split at isHead
  case _ | _ | _ => exact ⟨_, _, starts⟩
  · cases isHead

/-- A space follows the box. -/
def isSpaced (line : List Char) : Bool := (trim line)[5]? = some ' '

/-- The workflow takes those heads of memory in which a space follows the box. -/
private theorem parseMilestoneHeader_eq (line : List Char) :
    (parseMilestoneHeader line).map (fun head => (head.1, head.2.2)) =
    (milestoneHeader line).filter fun _ => isSpaced line := by
  by_cases boxed : ∃ mark rest, Boxed (trimStart line) mark (' ' :: rest)
  · obtain ⟨mark, rest, boxed⟩ := boxed
    have same : Text.trim ((' ' :: rest).rdropWhile isWhitespace) = Text.trim rest :=
      trim_rdropWhile (fun _ blank => blank) (' ' :: rest)
    have agrees : milestoneHeader line = readHead mark rest := by
      rw [milestoneHeader_of_boxed boxed.trim, readHead, readHead, same]
    rw [parseMilestoneHeader_of_boxed boxed, ← agrees]
    cases isHead : milestoneHeader line with
    | none => rfl
    | some head =>
    rw [Option.filter_some, if_pos]
    -- without the space nothing would be left for a title
    obtain ⟨tail, joined⟩ := rdropWhile_prefix isWhitespace (' ' :: rest)
    rw [isSpaced, boxed.trim]
    cases left : (' ' :: rest).rdropWhile isWhitespace with
    | nil =>
      rw [left] at same
      rw [agrees, readHead, ← same] at isHead
      simp [Text.trim, trimStart, byteLen] at isHead
    | cons char others =>
      rw [left] at joined
      cases joined
      rfl
  · have unread : parseMilestoneHeader line = none :=
      Option.eq_none_iff_forall_ne_some.mpr fun _ isHead => boxed (boxed_of_parseMilestoneHeader isHead)
    rw [unread, eq_comm, Option.map_none, Option.filter_eq_none_iff]
    intro head isHead spaced
    obtain ⟨mark, rest, isBoxed⟩ := boxed_of_milestoneHeader isHead
    obtain ⟨tail, joined⟩ : Text.trim line <+: trimStart line := rdropWhile_prefix isWhitespace _
    rw [isSpaced, isBoxed] at spaced
    obtain ⟨below, rfl⟩ : ∃ below, rest = ' ' :: below := by
      cases rest <;> simp_all
    exact boxed ⟨mark, below ++ tail, by rw [Boxed, ← joined, isBoxed]; rfl⟩

/-! ## Milestones -/

def isHead (line : List Char) : Bool := (milestoneHeader line).isSome

/-- The ids of the lines up to the next head of a kind. -/
def idsBelow (ends : List Char → Bool) (lines : List (List Char)) : List (List Char) :=
  (lines.takeWhile (!ends ·)).filterMap (childField "ID".toList)

/-- The id that a milestone is given; an empty one does not count. -/
def given (id : Option (List Char)) : Option (List Char) := id.filter (!·.isEmpty)

/-- Below a head with its space, the first id up to the next head and the last one up to the next head with a space are
one. A head without a space is given no id. -/
def isClear : List (List Char) → Bool
  | [] => true
  | line :: rest =>
      (!isHead line || given (idsBelow isHead rest).head? =
        if isSpaced line then given (idsBelow (fun line => isHead line && isSpaced line) rest).getLast? else none) &&
          isClear rest

/-- A milestone by the line of its head, its id, its title and its box. -/
abbrev Entry := Option RepositoryGraph.SourceSpan × List Char × List Char × Bool

def Milestone.entry (lines : List Line) (milestone : Milestone) : Entry :=
  (lines[milestone.lineIndex]?.map (fun line => spanForLines line line), milestone.id, milestone.title,
    milestone.completed)

def entryOf (milestone : SpecMilestoneDocument) : Entry :=
  (some milestone.span, milestone.id, milestone.title, milestone.completed)

private theorem milestoneHeader_trim : milestoneHeader (trim line) = milestoneHeader line := by
  rw [milestoneHeader, trim_trim]
  rfl

private theorem childField_trim (field : List Char) : childField field (trim line) = childField field line := by
  rw [childField, trim_trim]
  rfl

/-- What a head and an id give. -/
def headed (span : Option RepositoryGraph.SourceSpan) (head : Option (Bool × List Char)) (id : Option (List Char)) :
    Option Entry := head.bind fun head => (given id).map fun id => (span, id, head.2, head.1)

variable {texts : List (List Char)} {all rest : List Line} {line : Line} {text : List Char} {index : ℕ}

private theorem entries_milestonesFrom : (milestonesFrom index (text :: texts)).map (·.entry all) =
    (headed (all[index]?.map fun line => spanForLines line line) ((milestoneHeader text).filter fun _ => isSpaced text)
      (idsBelow (fun line => isHead line && isSpaced line) texts).getLast?).toList ++
      (milestonesFrom (index + 1) texts).map (·.entry all) := by
  have ids : (texts.takeWhile fun line => (parseMilestoneHeader line).isNone).filterMap (parseChildField "ID".toList) =
      idsBelow (fun line => isHead line && isSpaced line) texts := by
    have ends (line : List Char) : (parseMilestoneHeader line).isNone = !(isHead line && isSpaced line) := by
      rw [← Option.isNone_map, parseMilestoneHeader_eq, isHead]
      cases milestoneHeader line <;> cases isSpaced line <;> rfl
    simp only [idsBelow, ends]
    rfl
  rw [milestonesFrom, ← parseMilestoneHeader_eq]
  dsimp only
  rw [ids]
  cases parseMilestoneHeader text with
  | none => rfl
  | some head =>
    cases (idsBelow (fun line => isHead line && isSpaced line) texts).getLast? with
    | none => rfl
    | some id => cases id <;> rfl

private theorem entries_milestonesOf (sameText : trim line.text = trim text)
    (sameRest : rest.map (trim ·.text) = texts.map trim) :
    (milestonesOf (line :: rest)).map entryOf = (headed (some (spanForLines line line)) (milestoneHeader text)
      (idsBelow isHead texts).head?).toList ++ (milestonesOf rest).map entryOf := by
  have sameHead : milestoneHeader line.text = milestoneHeader text := by
    rw [← milestoneHeader_trim, sameText, milestoneHeader_trim]
  have ids : (rest.takeWhile (fun child => (milestoneHeader child.text).isNone)).findSome?
      (fun child => childField "ID".toList child.text) = (idsBelow isHead texts).head? := by
    have ids {α : Type} (text : α → List Char) (lines : List α) : idsBelow isHead (lines.map (trim <| text ·)) =
        (lines.takeWhile (fun line => (milestoneHeader (text line)).isNone)).filterMap
          (childField "ID".toList <| text ·) := by
      simp [idsBelow, isHead, takeWhile_map, filterMap_map, Function.comp_def, milestoneHeader_trim, childField_trim]
    rw [← head?_filterMap, ← ids, sameRest, ids fun line => line]
    simp [idsBelow, isHead]
  rw [milestonesOf, sameHead]
  dsimp only
  rw [ids]
  cases milestoneHeader text with
  | none => rfl
  | some head =>
    cases (idsBelow isHead texts).head? with
    | none => rfl
    | some id => cases id <;> rfl

private theorem span_of_headed {span : Option RepositoryGraph.SourceSpan} {head : Option (Bool × List Char)}
    {id : Option (List Char)} : ∀ entry ∈ headed span head id, entry.1 = span := by
  intro entry isEntry
  obtain ⟨head, -, isEntry⟩ := Option.bind_eq_some_iff.mp isEntry
  obtain ⟨id, -, rfl⟩ := Option.map_eq_some_iff.mp isEntry
  rfl

private theorem headed_eq_iff {span : Option RepositoryGraph.SourceSpan} {first last : Option (List Char)} :
    headed span ((milestoneHeader text).filter fun _ => isSpaced text) last = headed span (milestoneHeader text) first ↔
      (!isHead text || given first = if isSpaced text then given last else none) = true := by
  rw [isHead]
  cases milestoneHeader text with
  | none => simp [headed]
  | some head =>
    have inj : Function.Injective fun id => ((span, id, head.2, head.1) : Entry) :=
      fun _ _ same => (Prod.mk.inj (Prod.mk.inj same).2).1
    cases isSpaced text with
    | true => simpa [headed, Option.filter_some] using (Option.map_injective inj).eq_iff.trans eq_comm
    | false => simp [headed, Option.filter_some, eq_comm (a := none)]

private theorem le_lineIndex {milestone : Milestone} (member : milestone ∈ milestonesFrom index texts) :
    index ≤ milestone.lineIndex := by
  induction texts generalizing index with
  | nil => cases member
  | cons text texts ih =>
    have later (isLater : milestone ∈ milestonesFrom (index + 1) texts) : index ≤ milestone.lineIndex :=
      (Nat.le_succ index).trans (ih isLater)
    unfold milestonesFrom at member
    grind

private theorem exists_line {milestone : SpecMilestoneDocument} (member : milestone ∈ milestonesOf rest) :
    ∃ line ∈ rest, milestone.span = spanForLines line line := by
  induction rest with
  | nil => cases member
  | cons line rest ih =>
    unfold milestonesOf at member
    grind

/-- Entries of later lines are not that of this one. -/
private theorem toList_append_inj {span : Option RepositoryGraph.SourceSpan} {first second : Option Entry}
    {later others : List Entry}
    (firstHere : ∀ entry ∈ first, entry.1 = span) (secondHere : ∀ entry ∈ second, entry.1 = span)
    (laterApart : ∀ entry ∈ later, entry.1 ≠ span) (othersApart : ∀ entry ∈ others, entry.1 ≠ span) :
    first.toList ++ later = second.toList ++ others ↔ first = second ∧ later = others := by
  cases first with
  | none =>
    cases second with
    | none => simp
    | some entry =>
      simp only [Option.toList_none, Option.toList_some, nil_append, cons_append, reduceCtorEq, false_and, iff_false]
      rintro rfl
      exact laterApart entry mem_cons_self (secondHere entry rfl)
  | some entry =>
    cases second with
    | none =>
      simp only [Option.toList_none, Option.toList_some, nil_append, cons_append, reduceCtorEq, false_and, iff_false]
      rintro rfl
      exact othersApart entry mem_cons_self (firstHere entry rfl)
    | some other => simp

private theorem milestones_agree_iff (cut : all.drop index = rest) (increasing : rest.Pairwise (·.start < ·.start))
    (same : rest.map (trim ·.text) = texts.map trim) :
    (milestonesFrom index texts).map (·.entry all) = (milestonesOf rest).map entryOf ↔ isClear texts = true := by
  induction texts generalizing rest index with
  | nil =>
    rw [map_eq_nil_iff.mp same]
    simp [milestonesFrom, milestonesOf, isClear]
  | cons text texts ih =>
    obtain ⟨line, rest, rfl, sameText, sameRest⟩ := map_eq_cons_iff.mp same
    obtain ⟨after, increasing⟩ := pairwise_cons.mp increasing
    have here : all[index]? = some line := by
      rw [← head?_drop, cut]
      rfl
    have cutRest : all.drop (index + 1) = rest := by
      rw [← tail_drop, cut]
      rfl
    have apart (later : Line) (isLater : later ∈ rest) : spanForLines later later ≠ spanForLines line line := by
      intro sameSpan
      exact (after later isLater).ne' (congrArg (·.start.byteOffset) sameSpan)
    rw [entries_milestonesFrom, entries_milestonesOf sameText sameRest, here, Option.map_some,
      toList_append_inj span_of_headed span_of_headed, headed_eq_iff, ih cutRest increasing sameRest, isClear,
        Bool.and_eq_true]
    · intro entry member
      obtain ⟨milestone, isLater, rfl⟩ := mem_map.mp member
      intro sameSpan
      obtain ⟨later, found, isSpan⟩ := Option.map_eq_some_iff.mp sameSpan
      obtain ⟨offset, isIndex⟩ := Nat.exists_eq_add_of_le (le_lineIndex isLater)
      rw [isIndex, ← getElem?_drop, cutRest] at found
      exact apart later (mem_of_getElem? found) isSpan
    · intro entry member
      obtain ⟨milestone, isLater, rfl⟩ := mem_map.mp member
      obtain ⟨later, isLine, isSpan⟩ := exists_line isLater
      exact fun sameSpan => apart later isLine (isSpan.symm.trans (Option.some.inj sameSpan))

/-- Both parsers find the same milestones, each with its id, title and box at the same line, exactly in the texts that
are clear. -/
theorem parsers_agree (content : List Char) :
    (milestonesFrom 0 (linesFrom [] content)).map (·.entry (lines content)) =
      (parseSpecMemory content).layout.milestones.map entryOf ↔ isClear (linesFrom [] content) = true := by
  change _ = (milestonesOf (lines content)).map _ ↔ _
  unfold lines
  split_ifs with empty
  · rw [isEmpty_iff.mp empty]
    decide +kernel
  · exact milestones_agree_iff rfl (numberedLines_increasing (fun _ => ne_nil_of_mem_splitInclusive) 0 1).1
      ((map_trim_numberedLines 0 1 _).trans (map_trim_splitInclusive [] content))

/-- A box without its space is a head to memory only, and of two ids the workflow takes the second. -/
theorem not_parsers_agree : (milestonesFrom 0 (linesFrom [] "- [x]#1 Done\nID: one".toList) = [] ∧
      (parseSpecMemory "- [x]#1 Done\nID: one".toList).layout.milestones.map (·.id) = ["one".toList]) ∧
    (milestonesFrom 0 (linesFrom [] "- [x] #1 Done\nID: one\nID: two".toList)).map (·.id) = ["two".toList] ∧
      (parseSpecMemory "- [x] #1 Done\nID: one\nID: two".toList).layout.milestones.map (·.id) = ["one".toList] := by
  decide +kernel

end Ferrus.Specs

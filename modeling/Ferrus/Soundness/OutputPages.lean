import Ferrus.Model.Nano.OutputPages
import Ferrus.Soundness.CommandOutput

/-! # Reading an output page by page

Whoever follows the offsets of the pages sees every byte of the output once. The pages are decoded one by one, so their
texts are that of the whole output only where no page ends inside a character.
-/

namespace Ferrus.Nano.Commands

open List

/-! ## Decoding in parts -/

variable (begun : Option Begun)

/-- The character that the bytes leave begun. -/
def begunAfter (bytes : List UInt8) : Option Begun :=
  bytes.foldl (fun begun byte => (decodeByte begun byte.toNat).2) begun

/-- The bytes go on with the character. -/
def continues (bytes : List UInt8) : Bool :=
  begun.any fun begun => bytes.head?.any (begun.goesOn ·.toNat)

theorem decodeFrom_append (first second : List UInt8) (ends : continues (begunAfter begun first) second = false) :
    decodeFrom begun (first ++ second) = decodeFrom begun first ++ fromUtf8Lossy second := by
  induction first generalizing begun with
  | nil =>
    obtain _ | begun := begun
    · rfl
    · cases second with
      | nil => rfl
      | cons byte rest =>
        -- the byte begins anew, so the open character is shown as a replacement
        have stops : begun.goesOn byte.toNat = false := ends
        simp [decodeFrom, decodeByte, fromUtf8Lossy, stops]
  | cons byte rest ih => rw [cons_append, decodeFrom, decodeFrom, ih _ ends, append_assoc]

/-! ## Pages -/

namespace OutputPage

variable (page : OutputPage) (bytes : List UInt8)

def range : List UInt8 := (bytes.drop page.offset).take (page.nextOffset - page.offset)

/-- The page ends inside a character. -/
def splits : Bool := continues (begunAfter none (page.range bytes)) (bytes.drop page.nextOffset)

end OutputPage

/-- The pages show the bytes from an offset to the end, one page after the other, and the last one says whether the
output is complete. -/
inductive Covers (bytes : List UInt8) (complete : Bool) : Nat → List OutputPage → Prop
  | last {page : OutputPage} (text : page.text = fromUtf8Lossy (bytes.drop page.offset))
      (ends : page.nextOffset = bytes.length) (marked : page.complete = complete) :
      Covers bytes complete page.offset [page]
  | more {page : OutputPage} {rest : List OutputPage} (text : page.text = fromUtf8Lossy (page.range bytes))
      (forward : page.offset < page.nextOffset) (unmarked : page.complete = false)
      (covers : Covers bytes complete page.nextOffset rest) : Covers bytes complete page.offset (page :: rest)

variable {bytes uncounted : List UInt8} {state : Snapshot} {session : Session} {handle : String} {sizes : List Nat}
  {offset : Nat}

theorem Covers.joined {complete : Bool} {pages : List OutputPage} (covers : Covers bytes complete offset pages)
    (whole : ∀ page ∈ pages, page.splits bytes = false) :
    pages.flatMap (·.text) = fromUtf8Lossy (bytes.drop offset) := by
  induction covers with
  | last text => rw [flatMap_singleton, text]
  | @more page rest text forward _ _ ih =>
    obtain ⟨here, later⟩ := forall_mem_cons.mp whole
    have next : (bytes.drop page.offset).drop (page.nextOffset - page.offset) = bytes.drop page.nextOffset := by
      rw [drop_drop, Nat.add_sub_cancel' forward.le]
    rw [flatMap_cons, ih later, text, fromUtf8Lossy, ← decodeFrom_append none _ _ here, ← next, OutputPage.range,
      take_append_drop]
    rfl

/-- A page of a finished output, which was asked for with a size. -/
structure PageOf (bytes : List UInt8) (complete : Bool) (size : Nat) (page : OutputPage) : Prop where
  available : page.availableBytes = bytes.length
  text : page.text = fromUtf8Lossy (page.range bytes)
  marked : page.complete = (complete && page.nextOffset = bytes.length)
  forward : page.nextOffset ≠ bytes.length →
    page.nextOffset = page.offset + min size maxPage ∧ page.nextOffset < bytes.length

variable (isOutput : session.output? handle = some (bytes ++ uncounted, bytes.length, state))

include isOutput

theorem readOutput_page {size : Nat} (positive : 0 < size) (inside : offset ≤ bytes.length) :
    ∃ page, session.readOutput handle offset size = .ok page ∧ page.offset = offset ∧
      PageOf bytes state.outputComplete size page := by
  simp only [Session.readOutput, if_neg positive.ne', isOutput, page, if_neg (Nat.not_lt.mpr inside)]
  rw [drop_append_of_le_length inside, take_append_of_le_length (by rw [length_drop]; omega),
    if_neg (by rw [length_take, length_drop]; omega)]
  refine ⟨_, rfl, rfl, rfl, ?_, rfl, fun before => ?_⟩
  · rw [OutputPage.range, Nat.add_sub_cancel_left]
  · dsimp only at before ⊢
    omega

theorem readPages_covers (nonempty : sizes ≠ []) (positive : ∀ size ∈ sizes, 0 < size) (inside : offset ≤ bytes.length)
    (enough : bytes.length ≤ offset + (sizes.map (min · maxPage)).sum) :
    ∃ pages, session.readPages handle offset sizes = .ok pages ∧ Covers bytes state.outputComplete offset pages := by
  induction sizes generalizing offset with
  | nil => exact absurd rfl nonempty
  | cons size sizes ih =>
    obtain ⟨here, later⟩ := forall_mem_cons.mp positive
    obtain ⟨page, reads, rfl, isPage⟩ := readOutput_page isOutput here inside
    rw [Session.readPages, reads]
    by_cases ends : page.nextOffset = bytes.length
    · refine ⟨[page], if_pos (ends.trans isPage.available.symm), .last ?_ ends (by simp [isPage.marked, ends])⟩
      rw [isPage.text, OutputPage.range, ends, take_of_length_le (by rw [length_drop])]
    · obtain ⟨forward, before⟩ := isPage.forward ends
      have counted : 0 < min size maxPage := Nat.lt_min.mpr ⟨here, by decide⟩
      rw [map_cons, sum_cons] at enough
      have more : sizes ≠ [] := by
        rintro rfl
        rw [map_nil, sum_nil] at enough
        omega
      obtain ⟨pages, readsOn, covers⟩ := ih more later before.le (by omega)
      refine ⟨page :: pages, ?_, .more isPage.text (by omega) (by simp [isPage.marked, ends]) covers⟩
      refine (if_neg (isPage.available ▸ ends)).trans ?_
      rw [readsOn]
      rfl

omit isOutput

/-- The pages of an output, whatever their sizes are, show each of its bytes once and in order as soon as their sizes
reach its end, and the last page is marked complete if the output is. If no page ends inside a character, their texts
are that of the whole output. -/
theorem pages_cover_output (session : Session) (handle : String) (bytes uncounted : List UInt8) (state : Snapshot)
    (isOutput : session.output? handle = some (bytes ++ uncounted, bytes.length, state)) (sizes : List Nat)
    (nonempty : sizes ≠ []) (positive : ∀ size ∈ sizes, 0 < size)
    (enough : bytes.length ≤ (sizes.map (min · maxPage)).sum) :
    ∃ pages, session.readPages handle 0 sizes = .ok pages ∧ Covers bytes state.outputComplete 0 pages ∧
      ((∀ page ∈ pages, page.splits bytes = false) → pages.flatMap (·.text) = fromUtf8Lossy bytes) := by
  obtain ⟨pages, reads, covers⟩ := readPages_covers isOutput nonempty positive (Nat.zero_le _) (by omega)
  exact ⟨pages, reads, covers, covers.joined⟩

/-- A command that has printed a character of three bytes and one of a single byte. -/
def printedEuro : Session :=
  let state : Snapshot := ⟨"p", "trusted_local", .exited (some 0) true, ⟨⟨"out", 4⟩, ⟨"err", 0⟩⟩, true, "unknown"⟩
  { Session.new "s" "trusted_local" exampleLimits with
    processes := [{ Supervisor.start state with spools := ⟨[0xE2, 0x82, 0xAC, 0x41], []⟩ }] }

/-- The first page ends where the first character does. -/
theorem pages_cover_printedEuro :
    ∃ pages, printedEuro.readPages "out" 0 [3, 1] = .ok pages ∧ pages.flatMap (·.text) = ['€', 'A'] := by
  obtain ⟨pages, reads, _, joined⟩ := pages_cover_output printedEuro "out" [0xE2, 0x82, 0xAC, 0x41] [] _ rfl
    [3, 1] (by decide) (by decide) (by decide)
  refine ⟨pages, reads, (joined ?_).trans (by decide +kernel)⟩
  obtain rfl := Except.ok.inj (reads.symm.trans rfl)
  decide +kernel

/-- A page that ends inside the first character. -/
theorem not_pages_joined_printedEuro : (printedEuro.readPages "out" 0 [2, 2]).map (·.flatMap (·.text)) =
        .ok [replacement, replacement, 'A'] ∧
      fromUtf8Lossy [0xE2, 0x82, 0xAC, 0x41] = ['€', 'A'] := by
  decide +kernel

end Ferrus.Nano.Commands

import Mathlib.Data.List.Induction
import Mathlib.Tactic.TypeStar

/-! # The latest entry of a log

A log only grows at its end, so the position of its latest selected entry is a version of the
selected part: the version read from an earlier log is still current exactly when no selected entry
was appended since.
-/

namespace Ferrus

open List

variable {α : Type*} (selected : α → Bool)

/-- The position of the latest selected entry, counted from one; zero if there is none. -/
def latestEntry (log : List α) : Nat := log.length - log.reverse.findIdx selected

theorem latestEntry_concat (log : List α) (entry : α) : latestEntry selected (log ++ [entry]) =
      if selected entry then log.length + 1 else latestEntry selected log := by
  unfold latestEntry
  rw [reverse_append, reverse_singleton, singleton_append, findIdx_cons, length_append, length_singleton]
  cases selected entry with
  | true => rfl
  | false =>
    simp only [cond_false, Bool.false_eq_true, ↓reduceIte]
    omega

theorem latestEntry_le (log : List α) : latestEntry selected log ≤ log.length := Nat.sub_le ..

variable {selected}

/-- A selected entry appended later has a later position. -/
theorem length_lt_latestEntry_append {earlier later : List α} {entry : α} (member : entry ∈ later)
    (chosen : selected entry = true) : earlier.length < latestEntry selected (earlier ++ later) := by
  induction later using reverseRecOn with
  | nil => cases member
  | append_singleton later last ih =>
    rw [← append_assoc, latestEntry_concat]
    by_cases isLast : selected last = true
    · rw [if_pos isLast, length_append]
      omega
    · rw [if_neg isLast]
      apply ih
      rcases mem_append.mp member with found | found
      · exact found
      · rw [mem_singleton.mp found] at chosen
        exact absurd chosen isLast

/-- A position read from an earlier log is current exactly when nothing selected came after it. -/
theorem latestEntry_append_eq_iff {earlier later : List α} :
    latestEntry selected (earlier ++ later) = latestEntry selected earlier ↔
      ∀ entry ∈ later, selected entry = false := by
  constructor
  · intro same entry member
    by_contra chosen
    have past : earlier.length < latestEntry selected (earlier ++ later) :=
      length_lt_latestEntry_append member (eq_true_of_ne_false chosen)
    have bound := latestEntry_le selected earlier
    omega
  · intro none
    induction later using reverseRecOn with
    | nil => rw [append_nil]
    | append_singleton later entry ih =>
      have last : selected entry = false := none entry (by simp)
      have before := ih fun other member => none other (mem_append_left _ member)
      rw [← append_assoc, latestEntry_concat, last]
      exact before

variable (selected) in
/-- The position was read when the log had `moment` entries. -/
structure ReadAt (log : List α) (moment position : Nat) : Prop where
  past : moment ≤ log.length
  read : latestEntry selected (log.take moment) = position

namespace ReadAt

variable {log : List α} {moment position : Nat}

variable (selected) in
theorem now (log : List α) : ReadAt selected log log.length (latestEntry selected log) :=
  ⟨Nat.le_refl _, by rw [take_length]⟩

/-- What was read stays read while the log grows. -/
theorem append (reading : ReadAt selected log moment position) (more : List α) :
    ReadAt selected (log ++ more) moment position := by
  constructor
  · rw [length_append]
    exact Nat.le_add_right_of_le reading.past
  · rw [take_append_of_le_length reading.past]
    exact reading.read

theorem current_iff (reading : ReadAt selected log moment position) :
    latestEntry selected log = position ↔ ∀ entry ∈ log.drop moment, selected entry = false := by
  rw [← reading.read, ← latestEntry_append_eq_iff, take_append_drop]

end ReadAt

end Ferrus

import Ferrus.Machine.Core.Run
import Ferrus.Model.Nano.Preview

/-! # The text of a streamed preview

While the deltas of a turn fit, the preview is their text. The delta that does not fit cuts the text at a character
boundary to make room for the notice. The preview then stays as it is if that boundary is at the very byte where the
notice belongs. If it is before that byte, a few bytes are left, and later deltas are written behind the notice or
move it.
-/

namespace Ferrus.Nano

open Ferrus.Machine Ferrus.ProjectMemory List Nat

/-! ## Character boundaries -/

@[simp] theorem byteLen_append (first second : List Char) :
    byteLen (first ++ second) = byteLen first + byteLen second := by
  simp [byteLen]

private theorem byteLen_cons (char : Char) (text : List Char) :
    byteLen (char :: text) = char.utf8Size + byteLen text := by
  simp [byteLen]

private theorem floorChars_prefix (bytes : Nat) (text : List Char) : floorChars bytes text <+: text := by
  fun_induction floorChars bytes text with
  | case1 => exact prefix_rfl
  | case2 bytes char rest fits ih => exact prefix_cons_inj _ |>.mpr ih
  | case3 => exact nil_prefix

private theorem byteLen_floorChars_le (bytes : Nat) (text : List Char) : byteLen (floorChars bytes text) ≤ bytes := by
  fun_induction floorChars bytes text with
  | case1 | case3 => exact zero_le _
  | case2 bytes char rest fits ih =>
    rw [byteLen_cons]
    omega

/-- A text that fits is not cut. -/
private theorem floorChars_of_le {bytes : Nat} {text : List Char} (fits : byteLen text ≤ bytes) :
    floorChars bytes text = text := by
  induction text generalizing bytes with
  | nil => rfl
  | cons char rest ih =>
    rw [byteLen_cons] at fits
    rw [floorChars, if_pos (by omega), ih (by omega)]

/-- Text behind the offset does not matter. -/
private theorem floorChars_append {bytes : Nat} {text : List Char} (reaches : bytes ≤ byteLen text) (rest : List Char) :
    floorChars bytes (text ++ rest) = floorChars bytes text := by
  induction text generalizing bytes with
  | nil =>
    obtain rfl : bytes = 0 := le_zero.mp reaches
    cases rest with
    | nil => rfl
    | cons char rest => exact if_neg (not_le.mpr char.utf8Size_pos)
  | cons char text ih =>
    rw [byteLen_cons] at reaches
    rw [cons_append, floorChars, floorChars]
    split_ifs with fits
    · rw [ih (by omega)]
    · rfl

/-- A character has at most four bytes. -/
private theorem le_byteLen_floorChars {bytes : Nat} {text : List Char} (reaches : bytes ≤ byteLen text) :
    bytes ≤ byteLen (floorChars bytes text) + 3 := by
  induction text generalizing bytes with
  | nil => exact le_trans reaches (le_add_right _ _)
  | cons char rest ih =>
    rw [byteLen_cons] at reaches
    rw [floorChars]
    split_ifs with fits
    · have restReaches : bytes - char.utf8Size ≤ byteLen rest := by omega
      have more := ih restReaches
      rw [byteLen_cons]
      omega
    · have size := char.utf8Size_le_four
      omega

namespace Preview

variable {whole shown delta : List Char}

/-! ## One delta -/

/-- The byte where the notice belongs. -/
def noticeStart : Nat := previewBytes - byteLen notice

theorem previewBytes_eq : previewBytes = noticeStart + 71 := by decide

theorem byteLen_notice : byteLen notice = 71 := by decide

/-- A text that fits goes on, or is cut for the notice. -/
theorem append_of_fits (fits : byteLen whole ≤ previewBytes) : append whole delta =
      if byteLen (whole ++ delta) ≤ previewBytes then whole ++ delta
      else floorChars noticeStart (whole ++ delta) ++ notice := by
  dsimp only [append]
  by_cases both : byteLen (whole ++ delta) ≤ previewBytes
  · have added : floorChars (min (byteLen delta) (previewBytes - byteLen whole)) delta = delta := by
      rw [byteLen_append] at both
      exact floorChars_of_le (by omega)
    rw [if_pos both, added, if_neg (lt_irrefl _)]
  · rw [if_neg both]
    rw [byteLen_append] at both
    have short := byteLen_floorChars_le (min (byteLen delta) (previewBytes - byteLen whole)) delta
    have long : min (byteLen delta) (previewBytes - byteLen whole) ≤ byteLen delta := min_le_left _ _
    have added := le_byteLen_floorChars long
    obtain ⟨rest, isDelta⟩ := floorChars_prefix (min (byteLen delta) (previewBytes - byteLen whole)) delta
    have cap := previewBytes_eq
    have reaches : noticeStart ≤
        byteLen (whole ++ floorChars (min (byteLen delta) (previewBytes - byteLen whole)) delta) := by
      rw [byteLen_append]
      omega
    rw [if_pos (by omega)]
    refine congrArg (· ++ notice) ((floorChars_append reaches rest).symm.trans ?_)
    rw [append_assoc, isDelta]

/-- A notice that ends at the limit stays. -/
theorem append_of_notice (atNotice : byteLen shown = noticeStart) :
    append (shown ++ notice) delta = shown ++ notice := by
  have full : previewBytes - byteLen (shown ++ notice) = 0 := by
    rw [byteLen_append, atNotice, byteLen_notice, previewBytes_eq, Nat.sub_self]
  have added : floorChars 0 delta = [] := by
    have nothing : 0 ≤ byteLen [] := le_refl 0
    exact floorChars_append nothing delta
  have kept : floorChars (previewBytes - byteLen notice) (shown ++ notice) = shown := by
    have reaches : noticeStart ≤ byteLen shown := le_of_eq atNotice.symm
    have fits : byteLen shown ≤ noticeStart := Nat.le_of_eq atNotice
    exact (floorChars_append reaches notice).trans (floorChars_of_le fits)
  simp only [append, full, Nat.min_zero, added, append_nil, kept, ite_self]

/-- What the preview shows of a text. -/
def view (whole : List Char) : List Char :=
  if byteLen whole ≤ previewBytes then whole else floorChars noticeStart whole ++ notice

theorem byteLen_view_le (whole : List Char) : byteLen (view whole) ≤ previewBytes := by
  unfold view
  split_ifs with fits
  · exact fits
  · have kept := byteLen_floorChars_le noticeStart whole
    have cap := previewBytes_eq
    rw [byteLen_append, byteLen_notice]
    omega

theorem view_nil : view [] = [] := if_pos (zero_le previewBytes)

/-- The text reaches over the place of the notice only at a character boundary. -/
def Aligned (whole : List Char) : Prop :=
  previewBytes < byteLen whole → byteLen (floorChars noticeStart whole) = noticeStart

theorem floorChars_of_long (long : previewBytes < byteLen whole) (delta : List Char) :
    floorChars noticeStart (whole ++ delta) = floorChars noticeStart whole := by
  refine floorChars_append ?_ delta
  have cap := previewBytes_eq
  omega

theorem append_view (aligned : Aligned (whole ++ delta)) : append (view whole) delta = view (whole ++ delta) := by
  by_cases fits : byteLen whole ≤ previewBytes
  · rw [view, if_pos fits, append_of_fits fits]
    rfl
  · have long : previewBytes < byteLen whole := Nat.lt_of_not_le fits
    have longer : previewBytes < byteLen (whole ++ delta) := by
      rw [byteLen_append]
      omega
    have atNotice := aligned longer
    rw [floorChars_of_long long] at atNotice
    rw [view, if_neg fits, append_of_notice atNotice, view, if_neg (not_le.mpr longer), floorChars_of_long long]

/-! ## The deltas of a turn -/

/-- The preview after the deltas of a turn, each with the time at which it comes. -/
def after (preview : Preview) (turn : Nat) (deltas : List (List Char × Nat)) : Preview :=
  run (fun preview delta => (preview.update turn delta.1 delta.2).1) preview deltas

def content (deltas : List (List Char × Nat)) : List Char := (deltas.map Prod.fst).flatten

theorem update_text (preview : Preview) (turn : Nat) (delta : List Char) (now : Nat) :
    (preview.update turn delta now).1.turn = turn ∧
      (preview.update turn delta now).1.text = append (if preview.turn = turn then preview.text else []) delta := by
  dsimp only [update]
  split_ifs <;> exact ⟨rfl, rfl⟩

theorem aligned_of_append {later : List Char} (aligned : Aligned (whole ++ later)) : Aligned whole := by
  intro long
  rw [← floorChars_of_long long later]
  refine aligned ?_
  rw [byteLen_append]
  omega

theorem after_text {preview : Preview} {turn : Nat} {deltas : List (List Char × Nat)} (same : preview.turn = turn)
    (isView : preview.text = view whole) (aligned : Aligned (whole ++ content deltas)) :
    (after preview turn deltas).text = view (whole ++ content deltas) := by
  induction deltas generalizing preview whole with
  | nil =>
    have nothing : whole ++ content [] = whole := append_nil _
    rw [nothing]
    exact isView
  | cons delta rest ih =>
    obtain ⟨isTurn, text⟩ := update_text preview turn delta.1 delta.2
    have together : whole ++ content (delta :: rest) = whole ++ delta.1 ++ content rest := by
      simp [content]
    rw [together] at aligned ⊢
    refine ih isTurn ?_ aligned
    rw [text, if_pos same, isView]
    exact append_view (aligned_of_append aligned)

/-- The first delta of a turn starts with an empty text. -/
theorem update_fresh {preview : Preview} {turn : Nat} (fresh : preview.turn ≠ turn ∨ preview.text = [])
    (delta : List Char) (now : Nat) : (preview.update turn delta now).1.text = append [] delta := by
  rw [(update_text preview turn delta now).2]
  split_ifs with same
  · rw [fresh.resolve_left fun differs => differs same]
  · rfl

theorem after_fresh {preview : Preview} {turn : Nat} (fresh : preview.turn ≠ turn ∨ preview.text = [])
    {deltas : List (List Char × Nat)} (started : deltas ≠ []) (aligned : Aligned (content deltas)) :
    (preview.after turn deltas).text = view (content deltas) := by
  obtain ⟨delta, rest, rfl⟩ := exists_cons_of_ne_nil started
  refine after_text (update_text preview turn delta.1 delta.2).1 ?_ aligned
  have first : Aligned ([] ++ delta.1) := aligned_of_append aligned
  have step := append_view first
  rwa [view_nil, nil_append, ← update_fresh fresh delta.1 delta.2] at step

/-- After every delta of a turn the preview is the text so far, or a start of it with the notice, within its limit.
With the notice it stays as it is. The text must have a character boundary where the notice belongs. -/
theorem preview_keeps_prefix (preview : Preview) (turn : Nat) (fresh : preview.turn ≠ turn ∨ preview.text = [])
    (sent later : List (List Char × Nat)) (started : sent ≠ []) (aligned : Aligned (content (sent ++ later))) :
    (byteLen (content sent) ≤ previewBytes ∧ (preview.after turn sent).text = content sent ∨
      previewBytes < byteLen (content sent) ∧
        ∃ kept, kept <+: content sent ∧ (preview.after turn sent).text = kept ++ notice) ∧
    byteLen (preview.after turn sent).text ≤ previewBytes ∧ (previewBytes < byteLen (content sent) →
      (preview.after turn (sent ++ later)).text = (preview.after turn sent).text) := by
  have split : content (sent ++ later) = content sent ++ content later := by simp [content]
  rw [after_fresh fresh started (aligned_of_append (split ▸ aligned)),
    after_fresh fresh (List.append_ne_nil_of_left_ne_nil started later) aligned, split]
  refine ⟨?_, byteLen_view_le _, fun long => ?_⟩
  · by_cases fits : byteLen (content sent) ≤ previewBytes
    · exact .inl ⟨fits, if_pos fits⟩
    · exact .inr ⟨Nat.lt_of_not_le fits, floorChars noticeStart (content sent), floorChars_prefix _ _, if_neg fits⟩
  · have longer : previewBytes < byteLen (content sent ++ content later) := by
      rw [byteLen_append]
      omega
    rw [view, view, if_neg (not_le.mpr long), if_neg (not_le.mpr longer), floorChars_of_long long]

/-! ### Texts of one character -/

theorem floorChars_replicate (char : Char) (bytes count : Nat) : floorChars bytes (replicate count char) =
    replicate (min count (bytes / char.utf8Size)) char := by
  induction count generalizing bytes with
  | zero => simp [floorChars]
  | succ count ih =>
    rw [replicate_succ, floorChars, ih]
    split_ifs with fits
    · rw [div_eq_sub_div char.utf8Size_pos fits, ← replicate_succ, Nat.add_min_add_right]
    · rw [div_eq_of_lt (not_le.mp fits), Nat.min_zero, replicate_zero]

theorem byteLen_replicate (char : Char) (count : Nat) : byteLen (replicate count char) = count * char.utf8Size := by
  simp [byteLen]

/-- A delta with one character too many, and one that comes after the notice. -/
theorem preview_keeps_prefix_ascii : ∃ kept : List Char, kept <+: List.replicate (previewBytes + 1) 'a' ∧
    (({} : Preview).after 1 [(List.replicate (previewBytes + 1) 'a', 0)]).text = kept ++ notice ∧
    (({} : Preview).after 1 [(List.replicate (previewBytes + 1) 'a', 0), (['b'], 5)]).text = kept ++ notice := by
  have isContent (delta : List Char) (time : Nat) : content [(delta, time)] = delta := by simp [content]
  have long : previewBytes < byteLen (List.replicate (previewBytes + 1) 'a') := by
    rw [byteLen_replicate]
    exact Nat.lt_succ_self _
  have aligned : Aligned (content ([(List.replicate (previewBytes + 1) 'a', 0)] ++ [(['b'], 5)])) := by
    have together : content ([(List.replicate (previewBytes + 1) 'a', 0)] ++ [(['b'], 5)]) =
        List.replicate (previewBytes + 1) 'a' ++ ['b'] := by simp [content]
    rw [together]
    intro _
    rw [floorChars_of_long long, floorChars_replicate, byteLen_replicate]
    decide
  obtain ⟨⟨fits, _⟩ | ⟨_, kept, isPrefix, text⟩, _, stays⟩ := preview_keeps_prefix {} 1 (.inr rfl)
    [(List.replicate (previewBytes + 1) 'a', 0)] [(['b'], 5)] (cons_ne_nil _ _) aligned
  · rw [isContent] at fits
    exact absurd long (not_lt.mpr fits)
  · rw [isContent] at isPrefix stays
    exact ⟨kept, isPrefix, text, (stays long).trans text⟩

theorem append_behind {kept : List Char} (before : byteLen kept + 1 = noticeStart) :
    append (kept ++ notice) ['a'] = kept ++ notice ++ ['a'] := by
  have cap := previewBytes_eq
  have one : byteLen ['a'] = 1 := rfl
  have fits : byteLen (kept ++ notice) ≤ previewBytes := by
    rw [byteLen_append, byteLen_notice]
    omega
  have still : byteLen (kept ++ notice ++ ['a']) ≤ previewBytes := by
    rw [byteLen_append, byteLen_append, byteLen_notice]
    omega
  rw [append_of_fits fits, if_pos still]

/-- The notice is put after an even number of bytes, one byte before its place. The next delta is written behind it. -/
theorem not_preview_keeps_prefix_behind :
    ∃ first kept : List Char, kept <+: first ∧ (({} : Preview).after 1 [(first, 0)]).text = kept ++ notice ∧
      (({} : Preview).after 1 [(first, 0), (['a'], 0)]).text = kept ++ notice ++ ['a'] := by
  have long : ¬ byteLen (List.replicate 131073 'é') ≤ previewBytes := by
    rw [byteLen_replicate]
    decide
  have first :
      (({} : Preview).after 1 [(List.replicate 131073 'é', 0)]).text = List.replicate 131036 'é' ++ notice := by
    refine (update_fresh (.inr rfl) _ _).trans ?_
    rw [append_of_fits (zero_le _), List.nil_append, if_neg long, floorChars_replicate]
    have kept : min 131073 (noticeStart / 'é'.utf8Size) = 131036 := by decide
    rw [kept]
  refine ⟨List.replicate 131073 'é', List.replicate 131036 'é', ⟨List.replicate 37 'é', ?_⟩, first, ?_⟩
  · rw [List.replicate_append_replicate]
  · refine (update_text _ 1 ['a'] 0).2.trans ?_
    rw [if_pos (update_text _ _ _ _).1]
    refine (congrArg (append · ['a']) first).trans (append_behind ?_)
    rw [byteLen_replicate]
    decide

end Preview

end Ferrus.Nano

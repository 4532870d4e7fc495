import Ratatoskr.Rte.Replay

/-!
# Rte.Typing

The format of typed text. Undo groups merge consecutive insertions, and redo then applies a merged
group without the normalization that came between them, so an insertion may find other runs than it
found the first time.

* `insertFormat_typed` : text typed where the last text ended has that text's format.
* `insertFormat_typed_normalized` : the same after normalization, so both insertions agree.
-/

namespace Ratatoskr.Rte

open List

variable {rs : List StyledRun} {A B : List (Grapheme × Format)} {c : Grapheme × Format}

/-- `insertTextIntoRuns` without the held-back run. -/
def insertRuns (text : Text) : Nat → List StyledRun → List StyledRun
  | _, [] => []
  | offset, r :: rs =>
    if offset = 0 then
      if r.link.isSome then ⟨text, r.style, none⟩ :: r :: rs
      else { r with text := text ++ r.text } :: rs
    else if offset < r.text.length then
      { r with text := r.text.take offset ++ text ++ r.text.drop offset } :: rs
    else if offset = r.text.length then
      if r.link.isSome then r :: ⟨text, r.style, none⟩ :: rs
      else { r with text := r.text ++ text } :: rs
    else if rs.isEmpty then [{ r with text := r.text ++ text }]
    else r :: insertRuns text (offset - r.text.length) rs

theorem insertTextLoop_eq (offset : Nat) (text : Text) (p : StyledRun) (pos : Nat)
    (rs : List StyledRun) (h : pos < offset) : insertTextLoop offset text (some p) pos rs =
      if rs.isEmpty then [{ p with text := p.text ++ text }]
      else p :: insertRuns text (offset - pos) rs := by
  induction rs generalizing p pos with
  | nil => rfl
  | cons r rs ih =>
    have hne : offset ≠ pos := by omega
    have hne' : offset - pos ≠ 0 := by omega
    simp only [insertTextLoop, insertRuns, if_neg hne, if_neg hne', charLen_eq,
      Option.toList_some, isEmpty_cons, Bool.false_eq_true, if_false, singleton_append]
    by_cases h1 : offset < pos + r.text.length
    · rw [if_pos h1, if_pos (show offset - pos < r.text.length by omega)]
    rw [if_neg h1, if_neg (show ¬ offset - pos < r.text.length by omega)]
    by_cases h2 : offset = pos + r.text.length
    · rw [if_pos h2, if_pos (show offset - pos = r.text.length by omega)]
      split <;> rfl
    · rw [if_neg h2, if_neg (show ¬ offset - pos = r.text.length by omega),
        ih r (pos + r.text.length) (by omega), Nat.sub_sub]

theorem insertTextIntoRuns_eq (rs : List StyledRun) (offset : Nat) (text : Text) :
    insertTextIntoRuns rs offset text = insertRuns text offset rs := by
  cases rs with
  | nil => rfl
  | cons r rs =>
    simp only [insertTextIntoRuns, insertTextLoop, insertRuns, charLen_eq, Option.toList_none,
      nil_append, Nat.zero_add]
    by_cases h0 : offset = 0
    · subst h0
      simp only [if_true]
      split
      · rfl
      split
      · simp
      · have hnil : r.text = [] := length_eq_zero_iff.1 (by omega)
        simp [*]
    · rw [if_neg h0]
      split
      · rfl
      · split
        · split <;> rfl
        · rw [insertTextLoop_eq offset text r _ rs (by omega)]

theorem insertRuns_isEmpty (h : rs.isEmpty = false) (offset : Nat) (text : Text) :
    (insertRuns text offset rs).isEmpty = false := by
  have hne := insertTextIntoRuns_ne_nil (isEmpty_eq_false_iff.1 h) offset text
  rw [insertTextIntoRuns_eq] at hne
  exact isEmpty_eq_false_iff.2 hne

theorem insertFormat_typed (hne : rs ≠ []) (offset : Nat) (text : Text) :
    insertFormat (offset + textLen text) (insertTextIntoRuns rs offset text) = insertFormat offset rs := by
  rw [insertTextIntoRuns_eq]
  induction rs generalizing offset with
  | nil => exact absurd rfl hne
  | cons r rs ih =>
    simp only [textLen] at ih ⊢
    by_cases h0 : offset = 0
    · subst h0
      cases hlink : r.link with
      | some href =>
        -- a link at the start is not extended to the left
        simp [insertRuns, insertFormat, hlink]
      | none =>
        by_cases htext : text = []
        · simp [insertRuns, insertFormat, hlink, htext]
        by_cases hrun : r.text = []
        · simp [insertRuns, insertFormat, hlink, hrun]
        · have hpos : 0 < r.text.length := length_pos_iff.2 hrun
          simp [insertRuns, insertFormat, hlink, hpos, StyledRun.format]
    · by_cases h1 : offset < r.text.length
      · have hlt : offset + text.length <
            (r.text.take offset ++ text ++ r.text.drop offset).length := by
          simp only [length_append, length_take, length_drop]
          omega
        have hne0 : offset + text.length ≠ 0 := by omega
        simp only [insertRuns, insertFormat, if_neg h0, if_pos h1, if_neg hne0, if_pos hlt]
        rfl
      · have hne0 : offset + text.length ≠ 0 := by omega
        by_cases h2 : offset = r.text.length
        · have hrun : r.text ≠ [] := by
            intro hnil
            rw [hnil] at h2
            exact h0 h2
          cases hlink : r.link with
          | some href =>
            -- a link is not extended to the right
            by_cases htext : text = []
            · simp [insertRuns, insertFormat, h2, hlink, hrun]
            · simp [insertRuns, insertFormat, h2, hlink, hrun]
          | none =>
            have hlen : (r.text ++ text).length = offset + text.length := by
              rw [length_append, h2]
            simp [insertRuns, insertFormat, if_neg h0, if_neg h1, if_pos h2, hlink]
        · have h3 : ¬ offset + text.length < r.text.length := by omega
          have h4 : ¬ offset + text.length = r.text.length := by omega
          cases hempty : rs.isEmpty with
          | true =>
            have h5 : ¬ offset + text.length < (r.text ++ text).length := by
              rw [length_append]
              omega
            have h6 : ¬ offset + text.length = (r.text ++ text).length := by
              rw [length_append]
              omega
            simp only [insertRuns, insertFormat, if_neg h0, if_neg h1, if_neg h2, hempty, if_true,
              if_neg hne0, if_neg h5, if_neg h6]
            rfl
          | false =>
            have hrest := ih (isEmpty_eq_false_iff.1 hempty) (offset - r.text.length)
            have hsub : offset + text.length - r.text.length =
                offset - r.text.length + text.length := by omega
            simp only [insertRuns, insertFormat, if_neg h0, if_neg h1, if_neg h2, hempty,
              Bool.false_eq_true, if_false, if_neg hne0, if_neg h3, if_neg h4,
              insertRuns_isEmpty hempty, hsub]
            exact hrest

/-! ## After normalization -/

/-- Where the character before an insertion is: in the first run or in the rest. -/
theorem chars_cons_split {r : StyledRun} (h : chars id (r :: rs) = A ++ c :: B) :
    (A.length < r.text.length ∧ c.2 = r.format ∧ (A.length + 1 = r.text.length → chars id rs = B)) ∨
      (r.text.length ≤ A.length ∧ chars id rs = A.drop r.text.length ++ c :: B) := by
  rw [chars_cons] at h
  by_cases hlt : A.length < r.text.length
  · refine .inl ⟨hlt, ?_, ?_⟩
    · have hget := congrArg (·[A.length]?) h
      simp only [getElem?_append_left (show A.length < (r.text.map (·, id r.format)).length by
        rw [length_map]; exact hlt), getElem?_map, getElem?_append_right (Nat.le_refl A.length),
        Nat.sub_self] at hget
      obtain ⟨g, -, rfl⟩ := Option.map_eq_some_iff.1 hget
      rfl
    · intro hend
      have hdrop := congrArg (List.drop r.text.length) h
      have happ : A ++ c :: B = (A ++ [c]) ++ B := by simp
      have hlen : (A ++ [c]).length = r.text.length := by simpa using hend
      have hlen' : (r.text.map (·, id r.format)).length = r.text.length := length_map _
      rw [happ] at hdrop
      nth_rewrite 1 [← hlen'] at hdrop
      rw [drop_left, ← hlen, drop_left] at hdrop
      exact hdrop
  · have hle : r.text.length ≤ A.length := Nat.le_of_not_lt hlt
    refine .inr ⟨hle, ?_⟩
    have hdrop := congrArg (List.drop r.text.length) h
    have hlen' : (r.text.map (·, id r.format)).length = r.text.length := length_map _
    nth_rewrite 1 [← hlen'] at hdrop
    rw [drop_left, drop_append_of_le_length hle] at hdrop
    exact hdrop

theorem insertFormat_after_plain (h : chars id rs = A ++ c :: B) (hlink : c.2.2 = none) :
    insertFormat (A.length + 1) rs = c.2 := by
  induction rs generalizing A with
  | nil => simp at h
  | cons r rs ih =>
    have h0 : A.length + 1 ≠ 0 := by omega
    rcases chars_cons_split h with ⟨hlt, hformat, -⟩ | ⟨hle, hrest⟩
    · by_cases hlt' : A.length + 1 < r.text.length
      · simp [insertFormat, if_pos hlt', hformat]
      · have heq : A.length + 1 = r.text.length := by omega
        simp only [insertFormat, if_neg h0, if_neg hlt', if_pos heq, hformat]
        rw [hformat] at hlink
        rw [StyledRun.format] at hlink ⊢
        rw [← hlink]
    · have h1 : ¬ A.length + 1 < r.text.length := by omega
      have h2 : ¬ A.length + 1 = r.text.length := by omega
      have hne : rs.isEmpty = false := by
        cases rs with
        | nil => simp at hrest
        | cons => rfl
      have hstep := ih hrest
      rw [length_drop, show A.length - r.text.length + 1 = A.length + 1 - r.text.length by
        omega] at hstep
      simp only [insertFormat, if_neg h1, if_neg h2, hne]
      exact hstep

theorem Clean.canonical (h : Clean rs) : Lib.Canonical (rs.map fun r => (r.text, id r.format)) := by
  refine ⟨?_, ?_⟩
  · intro x hx
    obtain ⟨r, hr, rfl⟩ := mem_map.1 hx
    exact h.1 r hr
  · rw [map_map]
    exact h.2

theorem insertFormat_between {c' : Grapheme × Format} (hclean : Clean rs)
    (h : chars id rs = A ++ c :: c' :: B) (hformat : c'.2 = c.2) : insertFormat (A.length + 1) rs = c.2 := by
  induction rs generalizing A with
  | nil => simp at h
  | cons r rs ih =>
    have h0 : A.length + 1 ≠ 0 := by omega
    rcases chars_cons_split h with ⟨hlt, hrun, hend⟩ | ⟨hle, hrest⟩
    · by_cases hlt' : A.length + 1 < r.text.length
      · simp [insertFormat, if_pos hlt', hrun]
      · -- the next run would have the format of this one
        have hhead := hclean.canonical.expand_head c' (by
          have hchars : chars id rs = c' :: B := hend (by omega)
          rw [chars] at hchars
          rw [hchars]
          rfl)
        exact absurd (hformat.trans hrun) hhead
    · have h1 : ¬ A.length + 1 < r.text.length := by omega
      have h2 : ¬ A.length + 1 = r.text.length := by omega
      have hne : rs.isEmpty = false := by
        cases rs with
        | nil => simp at hrest
        | cons => rfl
      have hstep := ih hclean.tail hrest
      rw [length_drop, show A.length - r.text.length + 1 = A.length + 1 - r.text.length by
        omega] at hstep
      simp only [insertFormat, if_neg h1, if_neg h2, hne]
      exact hstep

theorem insertFormat_link {offset : Nat} (hle : offset ≤ Block.runsLen rs)
    (hlink : (insertFormat offset rs).2 ≠ none) :
    ∃ c B, (chars id rs).drop offset = c :: B ∧ c.2 = insertFormat offset rs := by
  induction rs generalizing offset with
  | nil => exact absurd rfl hlink
  | cons r rs ih =>
    rw [runsLen_cons] at hle
    by_cases h0 : offset = 0
    · simp [insertFormat, h0] at hlink
    by_cases h1 : offset < r.text.length
    · simp only [insertFormat, if_neg h0, if_pos h1]
      rw [chars_cons, drop_append_of_le_length (by rw [length_map]; omega),
        ← map_drop, drop_eq_getElem_cons h1]
      exact ⟨_, _, rfl, rfl⟩
    · by_cases h2 : offset = r.text.length
      · simp [insertFormat, h2] at hlink
      · cases hempty : rs.isEmpty with
        | true =>
          rw [List.isEmpty_iff] at hempty
          simp only [hempty, Block.runsLen, map_nil, sum_nil] at hle
          omega
        | false =>
          simp only [insertFormat, if_neg h0, if_neg h1, if_neg h2, hempty] at hlink ⊢
          obtain ⟨c, B, hdrop, hc⟩ := ih (by omega) hlink
          refine ⟨c, B, ?_, hc⟩
          rw [chars_cons, drop_append_long _ (by rw [length_map]; omega), length_map]
          exact hdrop

/-- Insertions that follow one another agree on the format, normalized in between or not. -/
theorem insertFormat_typed_normalized (hne : rs ≠ []) {offset : Nat}
    (hle : offset ≤ Block.runsLen rs) (text : Text)
    (hsame : insertFormat offset (normalizeRuns rs) = insertFormat offset rs) :
    insertFormat (offset + textLen text) (normalizeRuns (insertTextIntoRuns rs offset text)) =
      insertFormat (offset + textLen text) (insertTextIntoRuns rs offset text) := by
  rw [insertFormat_typed hne]
  have hchars := chars_insertTextIntoRuns id offset text hne
  have hlen : ((chars id rs).take offset).length = offset := by
    rw [length_take, chars_length]
    omega
  rcases eq_nil_or_concat' text with rfl | ⟨init, last, rfl⟩
  · -- nothing typed: the same characters, so the same normal form
    have hnorm : normalizeRuns (insertTextIntoRuns rs offset []) = normalizeRuns rs := by
      apply normalizeRuns_eq_of_chars
      rw [hchars]
      simp
    rw [hnorm]
    exact hsame
  · have hsplit : chars id (normalizeRuns (insertTextIntoRuns rs offset (init ++ [last]))) =
        ((chars id rs).take offset ++ init.map (·, insertFormat offset rs)) ++
          (last, insertFormat offset rs) :: (chars id rs).drop offset := by
      rw [chars_id_normalizeRuns, hchars]
      simp
    have hpos : offset + textLen (init ++ [last]) =
        ((chars id rs).take offset ++ init.map (·, insertFormat offset rs)).length + 1 := by
      simp only [textLen, length_append, length_map, length_cons, length_nil]
      omega
    rw [hpos]
    by_cases hlink : (insertFormat offset rs).2 = none
    · exact insertFormat_after_plain hsplit hlink
    obtain ⟨c, B, hdrop, hc⟩ := insertFormat_link hle hlink
    rw [hdrop] at hsplit
    have hclean : Clean (normalizeRuns (insertTextIntoRuns rs offset (init ++ [last]))) := by
      have hnormal : runsNormal anyAnchor
          (normalizeRuns (insertTextIntoRuns rs offset (init ++ [last]))) = true :=
        normalizeRuns_normal rfl _
      rcases runsNormal_iff.1 hnormal with ⟨r, hr, hnil, -⟩ | ⟨-, hclean⟩
      · rw [hr] at hsplit
        simp [hnil] at hsplit
      · exact hclean
    exact insertFormat_between hclean hsplit hc

end Ratatoskr.Rte

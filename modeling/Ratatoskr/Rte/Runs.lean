import Ratatoskr.Lib.RunLength
import Ratatoskr.Rte.EditorState

/-!
# Rte.Runs

What the run utilities do to the formatted text of a run list. The text is seen through a
projection `view` of a run's formatting, so that the same lemmas serve the exact text (`view` is
the identity) and its bare shape (`view` is constant).

* `chars` : the formatted characters of a run list, as a `Lib.expand`.
* One lemma per utility: extraction, truncation, splitting and isolation are `take` and `drop` on
  `chars`; insertion puts the text in at its offset.
* `normalizeRuns_eq_of_chars` : normalization depends on the formatted characters only.
-/

namespace Ratatoskr.Rte

open List

abbrev Format := InlineStyle × Option Text

def StyledRun.format (r : StyledRun) : Format := (r.style, r.link)

section Chars

variable {φ : Type} (view : Format → φ)

def chars (runs : List StyledRun) : List (Grapheme × φ) :=
  Lib.expand (runs.map fun r => (r.text, view r.format))

@[simp] theorem chars_nil : chars view [] = [] := rfl

@[simp] theorem chars_cons (r : StyledRun) (rs : List StyledRun) :
    chars view (r :: rs) = r.text.map (·, view r.format) ++ chars view rs := by
  simp [chars]

@[simp] theorem chars_append (rs ss : List StyledRun) :
    chars view (rs ++ ss) = chars view rs ++ chars view ss := by
  simp [chars]

@[simp] theorem chars_length (rs : List StyledRun) : (chars view rs).length = Block.runsLen rs := by
  induction rs with
  | nil => rfl
  | cons r rs ih => simp [ih, Block.runsLen, StyledRun.charLen, textLen]

@[simp] theorem runsLen_cons (r : StyledRun) (rs : List StyledRun) :
    Block.runsLen (r :: rs) = r.text.length + Block.runsLen rs := by
  simp [Block.runsLen, StyledRun.charLen, textLen]

@[simp] theorem chars_ensureRun (rs : List StyledRun) : chars view (ensureRun rs) = chars view rs := by
  unfold ensureRun
  split
  · rename_i h
    simp [List.isEmpty_iff.1 h, StyledRun.plain]
  · rfl

theorem chars_eq_nil_iff (rs : List StyledRun) : chars view rs = [] ↔ rs.all StyledRun.isEmpty = true := by
  induction rs with
  | nil => simp
  | cons r rs ih => simp [ih, StyledRun.isEmpty]

theorem charLen_eq (r : StyledRun) : r.charLen = r.text.length := by
  rw [StyledRun.charLen, textLen]

theorem take_append_long {α : Type} {l : List α} {n : Nat} (cs : List α) (h : l.length ≤ n) :
    (l ++ cs).take n = l ++ cs.take (n - l.length) := by
  rw [take_append, take_of_length_le h]

theorem drop_append_long {α : Type} {l : List α} {n : Nat} (cs : List α) (h : l.length ≤ n) :
    (l ++ cs).drop n = cs.drop (n - l.length) := by
  rw [drop_append, drop_eq_nil_of_le h, nil_append]

theorem chars_extractRunsUpToLoop (offset pos : Nat) (rs : List StyledRun) :
    chars view (extractRunsUpToLoop offset pos rs) = (chars view rs).take (offset - pos) := by
  induction rs generalizing pos with
  | nil => simp [extractRunsUpToLoop]
  | cons r rs ih =>
    simp only [extractRunsUpToLoop, charLen_eq, StyledRun.splitAt, StyledRun.isEmpty]
    by_cases hpos : pos ≥ offset
    · simp [hpos]
    by_cases hend : pos + r.text.length ≤ offset
    · rw [if_neg hpos, if_pos hend, chars_cons, ih, chars_cons,
        take_append_long _ (by simp; omega), length_map, Nat.sub_sub]
    -- the run that contains the offset
    have hz : offset - (pos + r.text.length) = 0 := by omega
    have hne : (r.text.take (offset - pos)).isEmpty = false := by
      rw [isEmpty_eq_false_iff, ne_eq, take_eq_nil_iff]
      rintro (h | h)
      · omega
      · simp [h] at hend
        omega
    rw [if_neg hpos, if_neg hend, if_neg (by simp [hne]), chars_cons, ih, hz, chars_cons,
      take_append_of_le_length (by simp; omega)]
    simp [StyledRun.format]

theorem chars_extractRunsUpTo (rs : List StyledRun) (offset : Nat) :
    chars view (extractRunsUpTo rs offset) = (chars view rs).take offset :=
  chars_extractRunsUpToLoop view offset 0 rs

theorem chars_extractRunsFromOffsetLoop (offset pos : Nat) (rs : List StyledRun) :
    chars view (extractRunsFromOffsetLoop offset pos rs) = (chars view rs).drop (offset - pos) := by
  induction rs generalizing pos with
  | nil => simp [extractRunsFromOffsetLoop]
  | cons r rs ih =>
    simp only [extractRunsFromOffsetLoop, charLen_eq, StyledRun.splitAt, StyledRun.isEmpty]
    by_cases hend : pos + r.text.length ≤ offset
    · rw [if_pos hend, ih, chars_cons, drop_append_long _ (by simp; omega), length_map,
        Nat.sub_sub]
    have hz : offset - (pos + r.text.length) = 0 := by omega
    by_cases hpos : pos ≥ offset
    · rw [if_neg hend, if_pos hpos, chars_cons, ih, hz, Nat.sub_eq_zero_of_le hpos]
      simp
    have hne : (r.text.drop (offset - pos)).isEmpty = false := by
      rw [isEmpty_eq_false_iff, ne_eq, drop_eq_nil_iff]
      omega
    rw [if_neg hend, if_neg hpos, if_neg (by simp [hne]), chars_cons, ih, hz, chars_cons,
      drop_append_of_le_length (by simp; omega)]
    simp [StyledRun.format]

theorem chars_extractRunsFromOffset (rs : List StyledRun) (offset : Nat) :
    chars view (extractRunsFromOffset rs offset) = (chars view rs).drop offset :=
  chars_extractRunsFromOffsetLoop view offset 0 rs

theorem chars_truncateRunsLoop (offset pos : Nat) (rs : List StyledRun) :
    chars view (truncateRunsLoop offset pos rs) = (chars view rs).take (offset - pos) := by
  induction rs generalizing pos with
  | nil => simp [truncateRunsLoop]
  | cons r rs ih =>
    simp only [truncateRunsLoop, charLen_eq, StyledRun.splitAt]
    by_cases hend : pos + r.text.length ≤ offset
    · rw [if_pos hend, chars_cons, ih, chars_cons, take_append_long _ (by simp; omega),
        length_map, Nat.sub_sub]
    · by_cases hpos : pos ≥ offset
      · simp [if_neg hend, hpos]
      · rw [if_neg hend, if_neg hpos, chars_cons, chars_cons, take_append_of_le_length (by simp; omega)]
        simp [StyledRun.format]

theorem chars_truncateRuns (rs : List StyledRun) (offset : Nat) :
    chars view (truncateRuns rs offset) = (chars view rs).take offset :=
  chars_truncateRunsLoop view offset 0 rs

theorem chars_extractRunsLoop (lo hi pos : Nat) (rs : List StyledRun) :
    chars view (extractRunsLoop lo hi pos rs) = ((chars view rs).take (hi - pos)).drop (lo - pos) := by
  induction rs generalizing pos with
  | nil => simp [extractRunsLoop]
  | cons r rs ih =>
    simp only [extractRunsLoop, charLen_eq]
    by_cases hhi : pos ≥ hi
    · -- nothing of the range is left
      have hnil : (chars view (r :: rs)).take (hi - pos) = [] := by
        rw [Nat.sub_eq_zero_of_le hhi, take_zero]
      by_cases hlo : pos + r.text.length ≤ lo
      · rw [if_pos hlo, ih, hnil, show hi - (pos + r.text.length) = 0 by omega]
        simp
      · rw [if_neg hlo, if_pos hhi, hnil]
        simp
    · by_cases hin : pos + r.text.length ≤ hi
      · rw [chars_cons, take_append_long _ (by simp; omega), length_map, Nat.sub_sub]
        by_cases hlo : pos + r.text.length ≤ lo
        · rw [if_pos hlo, ih, drop_append_long _ (by simp; omega), length_map, Nat.sub_sub]
        rw [if_neg hlo, if_neg hhi, chars_cons, ih,
          show lo - (pos + r.text.length) = 0 by omega,
          drop_append_of_le_length (by simp; omega),
          show min hi (pos + r.text.length) - pos = r.text.length by omega, take_length,
          show max lo pos - pos = lo - pos by omega, map_drop]
        rfl
      · rw [chars_cons, take_append_of_le_length (by simp; omega)]
        by_cases hlo : pos + r.text.length ≤ lo
        · rw [if_pos hlo, ih, show hi - (pos + r.text.length) = 0 by omega, take_zero,
            drop_nil, drop_eq_nil_of_le (by simp; omega)]
        · rw [if_neg hlo, if_neg hhi, chars_cons, ih,
            show hi - (pos + r.text.length) = 0 by omega,
            show min hi (pos + r.text.length) - pos = hi - pos by omega,
            show max lo pos - pos = lo - pos by omega, map_drop]
          simp [StyledRun.format]

theorem chars_extractRuns (rs : List StyledRun) (lo hi : Nat) :
    chars view (extractRuns rs lo hi) = ((chars view rs).take hi).drop lo := by
  unfold extractRuns
  split
  · rw [drop_eq_nil_of_le (by simp; omega)]
    simp [StyledRun.plain]
  have hloop := chars_extractRunsLoop view lo hi 0 rs
  simp only [Nat.sub_zero] at hloop
  simp only
  split
  · rename_i hempty
    rw [List.isEmpty_iff.1 hempty] at hloop
    rw [← hloop]
    simp [StyledRun.plain]
  · exact hloop

/-! ## Splitting and isolation -/

theorem chars_splitRunsLoop (offset pos : Nat) (rs : List StyledRun) :
    chars view (splitRunsLoop offset pos rs).1 = (chars view rs).take (offset - pos) ∧
      chars view (splitRunsLoop offset pos rs).2 = (chars view rs).drop (offset - pos) := by
  induction rs generalizing pos with
  | nil => simp [splitRunsLoop]
  | cons r rs ih =>
    simp only [splitRunsLoop, charLen_eq, StyledRun.splitAt]
    by_cases hend : pos + r.text.length ≤ offset
    · obtain ⟨h1, h2⟩ := ih (pos + r.text.length)
      simp only [if_pos hend, chars_cons, h1, h2]
      rw [take_append_long _ (by simp; omega), drop_append_long _ (by simp; omega),
        length_map, Nat.sub_sub]
      exact ⟨rfl, rfl⟩
    · by_cases hpos : pos ≥ offset
      · simp [if_neg hend, hpos]
      · simp only [if_neg hend, if_neg hpos, chars_cons]
        rw [take_append_of_le_length (by simp; omega),
          drop_append_of_le_length (by simp; omega)]
        simp [StyledRun.format]

theorem chars_splitRunsAtOffset (rs : List StyledRun) (offset : Nat) :
    chars view (splitRunsAtOffset rs offset).1 = (chars view rs).take offset ∧
      chars view (splitRunsAtOffset rs offset).2 = (chars view rs).drop offset := by
  have h := chars_splitRunsLoop view offset 0 rs
  simpa [splitRunsAtOffset] using h

theorem splitRunsAtLoop_spec (offset pos : Nat) (rs : List StyledRun) (h : pos ≤ offset) :
    ∃ A B, splitRunsAtLoop offset pos rs = (A ++ B, A.length) ∧
      chars view A = (chars view rs).take (offset - pos) ∧
      chars view B = (chars view rs).drop (offset - pos) := by
  induction rs generalizing pos with
  | nil => exact ⟨[], [], by simp [splitRunsAtLoop]⟩
  | cons r rs ih =>
    simp only [splitRunsAtLoop, charLen_eq, StyledRun.splitAt]
    by_cases hpos : pos = offset
    · exact ⟨[], r :: rs, by simp [hpos]⟩
    by_cases hend : pos + r.text.length > offset
    · refine ⟨[{ r with text := r.text.take (offset - pos) }],
        { r with text := r.text.drop (offset - pos) } :: rs, by simp [hpos, hend], ?_, ?_⟩
      · rw [chars_cons, chars_cons, take_append_of_le_length (by simp; omega)]
        simp [StyledRun.format]
      · rw [chars_cons, chars_cons, drop_append_of_le_length (by simp; omega)]
        simp [StyledRun.format]
    · obtain ⟨A, B, heq, hA, hB⟩ := ih (pos + r.text.length) (by omega)
      refine ⟨r :: A, B, by simp [hpos, hend, heq], ?_, ?_⟩
      · rw [chars_cons, chars_cons, hA, take_append_long _ (by simp; omega), length_map,
          Nat.sub_sub]
      · rw [chars_cons, hB, drop_append_long _ (by simp; omega), length_map, Nat.sub_sub]

theorem splitRunsAt_spec (rs : List StyledRun) (offset : Nat) :
    ∃ A B, splitRunsAt rs offset = (A ++ B, A.length) ∧ chars view A = (chars view rs).take offset ∧
      chars view B = (chars view rs).drop offset :=
  splitRunsAtLoop_spec view offset 0 rs (Nat.zero_le _)

theorem splitRunsAtLoop_append (offset pos : Nat) (A B : List StyledRun)
    (h : pos + Block.runsLen A < offset) : splitRunsAtLoop offset pos (A ++ B) =
      (A ++ (splitRunsAtLoop offset (pos + Block.runsLen A) B).1,
        A.length + (splitRunsAtLoop offset (pos + Block.runsLen A) B).2) := by
  induction A generalizing pos with
  | nil => simp [Block.runsLen]
  | cons r A ih =>
    simp only [runsLen_cons] at h ⊢
    rw [cons_append, splitRunsAtLoop, charLen_eq, if_neg (by omega), if_neg (by omega),
      ih (pos + r.text.length) (by omega), Nat.add_assoc]
    simp only [cons_append, length_cons, Prod.mk.injEq, true_and]
    omega

theorem isolateRuns_spec {rs : List StyledRun} {start stop : Nat} (hne : rs ≠ []) (h : start < stop) :
    ∃ A M C, isolateRuns rs start stop = .ok (A ++ M ++ C, A.length, A.length + M.length) ∧
      chars view A = (chars view rs).take start ∧ chars view M = ((chars view rs).take stop).drop start ∧
      chars view C = (chars view rs).drop stop := by
  obtain ⟨A, B, hAB, hA, hB⟩ := splitRunsAt_spec view rs start
  have hlen : Block.runsLen A = min start (Block.runsLen rs) := by
    rw [← chars_length view A, hA, length_take, chars_length]
  obtain ⟨M, C, hMC, hM, hC⟩ := splitRunsAtLoop_spec view stop (Block.runsLen A) B (by omega)
  refine ⟨A, M, C, ?_, hA, ?_, ?_⟩
  · have happ := splitRunsAtLoop_append stop 0 A B (by omega)
    rw [Nat.zero_add, hMC] at happ
    simp only [isolateRuns, if_pos (Nat.le_of_lt h)]
    rw [if_neg (by simp [hne]; omega), hAB, splitRunsAt, happ]
    simp
  · rw [hM, hB, drop_take]
    by_cases hs : start ≤ Block.runsLen rs
    · rw [hlen, Nat.min_eq_left hs]
    · rw [drop_eq_nil_of_le (by simp; omega)]
      simp
  · rw [hC, hB, drop_drop]
    by_cases hs : start ≤ Block.runsLen rs
    · rw [hlen, Nat.min_eq_left hs, show start + (stop - start) = stop by omega]
    · rw [drop_eq_nil_of_le (by simp; omega), drop_eq_nil_of_le (by simp; omega)]

/-- The formatting text inserted at `offset` gets: that of the character to its left, without the
link at a run boundary. -/
def insertFormat : Nat → List StyledRun → Format
  | _, [] => (InlineStyle.empty, none)
  | offset, r :: rs =>
    if offset = 0 then (r.style, none)
    else if offset < r.text.length then r.format
    else if offset = r.text.length then (r.style, none)
    else if rs.isEmpty then r.format
    else insertFormat (offset - r.text.length) rs

theorem chars_insertTextLoop (offset : Nat) (text : Text) (p : StyledRun) (pos : Nat)
    (rs : List StyledRun) (h : pos < offset) : chars view (insertTextLoop offset text (some p) pos rs) =
      chars view [p] ++ (chars view rs).take (offset - pos) ++
        text.map (·, view (if rs.isEmpty then p.format else insertFormat (offset - pos) rs)) ++
        (chars view rs).drop (offset - pos) := by
  induction rs generalizing p pos with
  | nil => simp [insertTextLoop, StyledRun.format]
  | cons r rs ih =>
    rw [insertTextLoop]
    simp only [charLen_eq, if_neg (show ¬ offset = pos by omega), insertFormat,
      if_neg (show ¬ offset - pos = 0 by omega)]
    by_cases hin : offset < pos + r.text.length
    · rw [if_pos hin, if_pos (show offset - pos < r.text.length by omega), chars_cons view r,
        take_append_of_le_length (by simp; omega),
        drop_append_of_le_length (by simp; omega)]
      simp [StyledRun.format]
    · rw [if_neg hin, if_neg (show ¬ offset - pos < r.text.length by omega), chars_cons view r,
        take_append_long _ (by simp; omega), drop_append_long _ (by simp; omega),
        length_map, Nat.sub_sub]
      by_cases hend : offset = pos + r.text.length
      · rw [if_pos hend, if_pos (show offset - pos = r.text.length by omega),
          Nat.sub_eq_zero_of_le (by omega)]
        split
        · simp [StyledRun.format]
        · rename_i hlink
          have hnone : r.link = none := by simpa using hlink
          simp [StyledRun.format, hnone]
      · rw [if_neg hend, if_neg (show ¬ offset - pos = r.text.length by omega), chars_append,
          ih r (pos + r.text.length) (by omega)]
        simp

/-- Insertion puts the text in at its offset, in the formatting `insertFormat` gives. -/
theorem chars_insertTextIntoRuns {rs : List StyledRun} (offset : Nat) (text : Text) (hne : rs ≠ []) :
    chars view (insertTextIntoRuns rs offset text) =
      (chars view rs).take offset ++ text.map (·, view (insertFormat offset rs)) ++
        (chars view rs).drop offset := by
  obtain ⟨r, rs, rfl⟩ := exists_cons_of_ne_nil hne
  rw [insertTextIntoRuns, insertTextLoop]
  simp only [charLen_eq, insertFormat, Nat.zero_add]
  by_cases hzero : offset = 0
  · subst hzero
    by_cases hlink : r.link.isSome
    · simp [hlink, StyledRun.format]
    · have hnone : r.link = none := by simpa using hlink
      cases htext : r.text <;> simp [hnone, htext, StyledRun.format]
  · simp only [if_neg hzero]
    by_cases hin : offset < r.text.length
    · rw [if_pos hin, if_pos hin, chars_cons, take_append_of_le_length (by simp; omega),
        drop_append_of_le_length (by simp; omega)]
      simp [StyledRun.format]
    rw [if_neg hin, if_neg hin, chars_cons, take_append_long _ (by simp; omega),
      drop_append_long _ (by simp; omega), length_map]
    by_cases hend : offset = r.text.length
    · rw [if_pos hend, hend]
      split
      · simp [StyledRun.format]
      · rename_i hlink
        have hnone : r.link = none := by simpa using hlink
        simp [StyledRun.format, hnone]
    · rw [if_neg hend, if_neg hend, chars_append, chars_insertTextLoop view offset text r _ rs (by omega)]
      simp

theorem insertTextIntoRuns_nil (offset : Nat) (text : Text) : insertTextIntoRuns [] offset text = [] := rfl

/-! ## Normalization -/

theorem mergeRunsLoop_map (last : StyledRun) (rs : List StyledRun) :
    (mergeRunsLoop last rs).map (fun r => (r.text, r.format)) =
      Lib.coalesce (last.text, last.format) (rs.map fun r => (r.text, r.format)) := by
  induction rs generalizing last with
  | nil => rfl
  | cons r rs ih =>
    have hsame : last.sameFormatting r = true ↔ last.format = r.format := by
      simp [StyledRun.sameFormatting, StyledRun.format]
    simp only [mergeRunsLoop, map_cons, Lib.coalesce, hsame]
    split
    · exact ih _
    · rw [map_cons, ih]

theorem runs_ext {rs ss : List StyledRun}
    (h : rs.map (fun r => (r.text, r.format)) = ss.map fun r => (r.text, r.format)) : rs = ss := by
  refine map_injective_iff.2 ?_ h
  rintro ⟨t, s, l⟩ ⟨t', s', l'⟩ heq
  simp_all [StyledRun.format]

theorem filter_map_runs (rs : List StyledRun) : (rs.filter (!·.isEmpty)).map (fun r => (r.text, r.format)) =
      (rs.map fun r => (r.text, r.format)).filter (!·.1.isEmpty) := by
  induction rs with
  | nil => rfl
  | cons r rs ih =>
    simp only [StyledRun.isEmpty] at ih ⊢
    by_cases h : r.text = [] <;> simp [h, ih]

theorem normalizeRuns_cases (rs : List StyledRun) :
    (chars id rs = [] ∧ normalizeRuns rs = [StyledRun.plain []]) ∨
      (chars id rs ≠ [] ∧ normalizeRuns rs ≠ [] ∧
        Lib.Canonical ((normalizeRuns rs).map fun r => (r.text, r.format)) ∧
        chars id (normalizeRuns rs) = chars id rs) := by
  have hfilter : chars id (rs.filter (!·.isEmpty)) = chars id rs := by
    simp only [chars, id]
    rw [filter_map_runs, Lib.expand_filter]
  unfold normalizeRuns
  cases hf : rs.filter (!·.isEmpty) with
  | nil =>
    rw [hf] at hfilter
    exact .inl ⟨hfilter.symm, rfl⟩
  | cons r rest =>
    right
    have hne : ∀ s ∈ r :: rest, s.text ≠ [] := by
      intro s hs
      have : s ∈ rs.filter (!·.isEmpty) := by rw [hf]; exact hs
      simpa [StyledRun.isEmpty] using (mem_filter.1 this).2
    have hmerge : chars id (mergeRunsLoop r rest) = chars id (r :: rest) := by
      simp only [chars, id]
      rw [mergeRunsLoop_map, Lib.expand_coalesce]
      rfl
    rw [hf] at hfilter
    refine ⟨?_, ?_, ?_, hmerge.trans hfilter⟩
    · rw [← hfilter, ne_eq]
      simp [hne r (by simp)]
    · have := hmerge
      intro hnil
      simp only [hnil] at this
      have h2 := (chars_eq_nil_iff id (r :: rest)).1 this.symm
      simp [StyledRun.isEmpty, hne r (by simp)] at h2
    · simp only [mergeRunsLoop_map]
      apply Lib.coalesce_canonical
      intro s hs
      rw [← map_cons (f := fun t : StyledRun => (t.text, t.format))] at hs
      obtain ⟨t, ht, rfl⟩ := mem_map.1 hs
      exact hne t ht

theorem chars_id_normalizeRuns (rs : List StyledRun) : chars id (normalizeRuns rs) = chars id rs := by
  rcases normalizeRuns_cases rs with ⟨h, hn⟩ | ⟨-, -, -, h⟩
  · rw [hn, h]
    rfl
  · exact h

theorem chars_eq_map (rs : List StyledRun) : chars view rs = (chars id rs).map fun c => (c.1, view c.2) := by
  induction rs with
  | nil => rfl
  | cons r rs ih => simp [ih]

theorem chars_normalizeRuns (rs : List StyledRun) : chars view (normalizeRuns rs) = chars view rs := by
  rw [chars_eq_map, chars_id_normalizeRuns, ← chars_eq_map]

theorem normalizeRuns_eq_of_chars {rs ss : List StyledRun} (h : chars id rs = chars id ss) :
    normalizeRuns rs = normalizeRuns ss := by
  rcases normalizeRuns_cases rs with ⟨hr, hn⟩ | ⟨hr, -, hcr, her⟩
  · rcases normalizeRuns_cases ss with ⟨-, hm⟩ | ⟨hs, -⟩
    · rw [hn, hm]
    · exact absurd (h.symm.trans hr) hs
  · rcases normalizeRuns_cases ss with ⟨hs, -⟩ | ⟨-, -, hcs, hes⟩
    · exact absurd (h.trans hs) hr
    · exact runs_ext (hcr.ext hcs (her.trans (h.trans hes.symm)))

end Chars

end Ratatoskr.Rte

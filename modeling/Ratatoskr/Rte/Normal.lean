import Ratatoskr.Rte.Selection
import Ratatoskr.Rte.OpSpecs

/-!
# Rte.Normal

Normalized run lists, blocks and documents, and which of the run utilities keep them so.

* `runsNormal anchor` : one empty run admitted by `anchor`, or runs with text whose neighbours
  differ in formatting. Any anchor gives the invariant of the source's `Document`; the anchor that
  admits the plain empty run alone gives the fixed points of `normalize`.
* `normalizeBlocks_normal_iff` : a pass over dirty blocks normalizes the document exactly when the
  other blocks are normalized already.
* `toggledRuns_normal_iff` : when restyling a prefix of a block leaves its runs normalized.
-/

namespace Ratatoskr.Rte

open List

variable {r : StyledRun} {rs : List StyledRun} {anchor : StyledRun → Bool} {n : Nat}

def distinctSeams : List StyledRun → Bool
  | r :: s :: rest => !r.sameFormatting s && distinctSeams (s :: rest)
  | _ => true

/-- At least one run, no empty run unless it is the only one (then `anchor` must admit it), and no
two adjacent runs of equal formatting. -/
def runsNormal (anchor : StyledRun → Bool) : List StyledRun → Bool
  | [] => false
  | [r] => !r.isEmpty || anchor r
  | runs => runs.all (!·.isEmpty) && distinctSeams runs

mutual
def blockNormal (anchor : StyledRun → Bool) : Block → Bool
  | .paragraph runs | .heading _ runs | .listItem _ _ runs => runsNormal anchor runs
  | .blockQuote [] => false
  | .blockQuote (b :: bs) => blockNormal anchor b && childrenNormal anchor bs
  | .horizontalRule | .image .. => true

def childrenNormal (anchor : StyledRun → Bool) : List Block → Bool
  | [] => true
  | b :: bs => blockNormal anchor b && childrenNormal anchor bs
end

/-- The document invariant: at least one block, every block normalized. -/
def docNormal (anchor : StyledRun → Bool) (d : Document) : Bool :=
  !d.blocks.isEmpty && d.blocks.all (blockNormal anchor)

def anyAnchor : StyledRun → Bool := fun _ => true

/-- Only the plain empty run, as `normalize` leaves it. -/
def plainAnchor : StyledRun → Bool := fun r => r == StyledRun.plain []

/-- Runs with text whose neighbours differ in formatting. -/
def Clean (rs : List StyledRun) : Prop :=
  (∀ r ∈ rs, r.text ≠ []) ∧ List.IsChain (· ≠ ·) (rs.map StyledRun.format)

theorem clean_nil : Clean [] := ⟨by simp, by simp⟩

theorem clean_cons : Clean (r :: rs) ↔ r.text ≠ [] ∧ (∀ s ∈ rs.head?, r.format ≠ s.format) ∧ Clean rs := by
  simp only [Clean, mem_cons, map_cons, isChain_cons, head?_map, Option.mem_map]
  constructor
  · rintro ⟨hall, hhead, hchain⟩
    exact ⟨hall r (.inl rfl), fun s hs => hhead _ ⟨s, hs, rfl⟩, fun s hs => hall s (.inr hs), hchain⟩
  · rintro ⟨hr, hhead, hall, hchain⟩
    refine ⟨?_, ?_, hchain⟩
    · rintro s (rfl | hs)
      · exact hr
      · exact hall s hs
    · rintro f ⟨s, hs, rfl⟩
      exact hhead s hs

theorem Clean.tail (h : Clean (r :: rs)) : Clean rs :=
  (clean_cons.1 h).2.2

theorem Clean.replaceHead {r' : StyledRun} (h : Clean (r :: rs)) (hf : r'.format = r.format)
    (ht : r'.text ≠ []) : Clean (r' :: rs) := by
  obtain ⟨-, hhead, htail⟩ := clean_cons.1 h
  exact clean_cons.2 ⟨ht, fun s hs => hf ▸ hhead s hs, htail⟩

theorem sameFormatting_iff {s : StyledRun} : r.sameFormatting s = true ↔ r.format = s.format := by
  simp [StyledRun.sameFormatting, StyledRun.format]

theorem clean_iff (rs : List StyledRun) :
    Clean rs ↔ rs.all (!·.isEmpty) = true ∧ distinctSeams rs = true := by
  induction rs with
  | nil => simp [clean_nil, distinctSeams]
  | cons r rs ih =>
    rw [clean_cons, ih]
    cases rs with
    | nil => simp [distinctSeams, StyledRun.isEmpty]
    | cons s rest =>
      have hsame : r.sameFormatting s = false ↔ r.format ≠ s.format := by
        rw [← Bool.not_eq_true, sameFormatting_iff]
      simp only [distinctSeams, all_cons, head?_cons, Option.mem_def, Option.some.injEq,
        forall_eq', Bool.and_eq_true, Bool.not_eq_true', StyledRun.isEmpty, isEmpty_eq_false_iff]
      tauto

theorem runsNormal_iff : runsNormal anchor rs = true ↔
      (∃ r, rs = [r] ∧ r.text = [] ∧ anchor r = true) ∨ (rs ≠ [] ∧ Clean rs) := by
  rw [clean_iff]
  match rs with
  | [] => simp [runsNormal]
  | [r] =>
    simp only [runsNormal, StyledRun.isEmpty, distinctSeams]
    by_cases h : r.text = [] <;> simp [h]
  | r :: s :: rest => simp [runsNormal]

theorem blockNormal_of_runs {b : Block} (h : b.runs = some rs) :
    blockNormal anchor b = runsNormal anchor rs := by
  cases b <;> simp_all [Block.runs, blockNormal]

theorem blockNormal_setRuns {b : Block} (h : b.isInlineBlock = true) :
    blockNormal anchor (b.setRuns rs) = runsNormal anchor rs := by
  cases b <;> simp_all [Block.isInlineBlock, Block.setRuns, blockNormal]

theorem docNormal_iff {d : Document} :
    docNormal anchor d = true ↔ d.blocks ≠ [] ∧ ∀ b ∈ d.blocks, blockNormal anchor b = true := by
  simp [docNormal]

theorem normalizeRuns_normal (hanchor : anchor (StyledRun.plain []) = true) (rs : List StyledRun) :
    runsNormal anchor (normalizeRuns rs) = true := by
  rw [runsNormal_iff]
  rcases normalizeRuns_cases rs with ⟨-, h⟩ | ⟨-, hne, hcan, -⟩
  · exact .inl ⟨_, h, rfl, hanchor⟩
  refine .inr ⟨hne, ?_, ?_⟩
  · intro r hr
    exact hcan.1 (r.text, r.format) (mem_map_of_mem hr)
  · have := hcan.2
    rwa [map_map] at this

mutual
theorem normalizeBlock_normal {anchor : StyledRun → Bool} (hanchor : anchor (StyledRun.plain []) = true) :
    (b : Block) → blockNormal anchor (normalizeBlock b) = true
  | .paragraph rs => normalizeRuns_normal hanchor rs
  | .heading _ rs => normalizeRuns_normal hanchor rs
  | .listItem _ _ rs => normalizeRuns_normal hanchor rs
  | .blockQuote [] => by
    simp [normalizeBlock, blockNormal, childrenNormal, normalizeRuns_normal hanchor]
  | .blockQuote (b :: bs) => by
    simp [normalizeBlock, blockNormal, normalizeBlock_normal hanchor b,
      normalizeChildBlocks_normal hanchor bs]
  | .horizontalRule => rfl
  | .image .. => rfl

theorem normalizeChildBlocks_normal {anchor : StyledRun → Bool}
    (hanchor : anchor (StyledRun.plain []) = true) :
    (bs : List Block) → childrenNormal anchor (normalizeChildBlocks bs) = true
  | [] => rfl
  | b :: bs => by
    simp [normalizeChildBlocks, childrenNormal, normalizeBlock_normal hanchor b,
      normalizeChildBlocks_normal hanchor bs]
end

section Anchor

variable {anchor : StyledRun → Bool} (hanchor : anchor (StyledRun.plain []) = true)

include hanchor

theorem emptyParagraph_normal : blockNormal anchor Block.emptyParagraph = true := by
  simp [Block.emptyParagraph, blockNormal, runsNormal, hanchor]

theorem ensureBlock_normal {blocks : List Block} (h : ∀ b ∈ blocks, blockNormal anchor b = true) :
    ∀ b ∈ ensureBlock blocks, blockNormal anchor b = true := by
  unfold ensureBlock
  split
  · simp [emptyParagraph_normal hanchor]
  · exact h

/-- A pass over dirty blocks normalizes the document exactly when the others are normalized. -/
theorem normalizeBlocks_normal_iff (d : Document) (dirty : List Nat) :
    docNormal anchor (normalizeBlocks d dirty) = true ↔
      ∀ i b, d.blocks[i]? = some b → i ∉ dirty → blockNormal anchor b = true := by
  by_cases hd : d.blocks = []
  · -- the pass starts from the empty paragraph it adds
    have hrhs : ∀ i b, d.blocks[i]? = some b → i ∉ dirty → blockNormal anchor b = true := by
      simp [hd]
    refine iff_of_true ?_ hrhs
    have heq : normalizeBlocks d dirty = normalizeBlocks ⟨[Block.emptyParagraph]⟩ dirty := by
      simp [normalizeBlocks, hd, ensureBlock]
    rw [heq, docNormal_iff]
    refine ⟨ensureBlock_ne_nil _, ?_⟩
    intro b hb
    obtain ⟨i, hi⟩ := getElem?_of_mem hb
    rw [normalizeBlocks_getElem? (by simp)] at hi
    split at hi
    · obtain ⟨c, -, rfl⟩ := Option.map_eq_some_iff.1 hi
      exact normalizeBlock_normal hanchor c
    · have := mem_of_getElem? hi
      simp only [mem_singleton] at this
      rw [this]
      exact emptyParagraph_normal hanchor
  · rw [docNormal_iff]
    constructor
    · rintro ⟨-, hall⟩ i b hb hi
      refine hall b (mem_of_getElem? (i := i) ?_)
      rw [normalizeBlocks_getElem? hd, if_neg hi, hb]
    · intro h
      refine ⟨normalizeBlocks_ne_nil d dirty, ?_⟩
      intro b hb
      obtain ⟨i, hi⟩ := getElem?_of_mem hb
      rw [normalizeBlocks_getElem? hd] at hi
      split at hi
      · obtain ⟨c, -, rfl⟩ := Option.map_eq_some_iff.1 hi
        exact normalizeBlock_normal hanchor c
      · rename_i hnot
        exact h i b hi hnot

theorem normalize_normal (d : Document) : docNormal anchor (normalize d) = true := by
  rw [docNormal_iff]
  refine ⟨normalize_ne_nil d, ?_⟩
  intro b hb
  have heq : normalize d = normalize ⟨ensureBlock d.blocks⟩ := by
    simp [normalize, ensureBlock_of_ne_nil (ensureBlock_ne_nil d.blocks)]
  have hne : (Document.mk (ensureBlock d.blocks)).blocks ≠ [] := ensureBlock_ne_nil d.blocks
  rw [heq, normalize_blocks hne] at hb
  obtain ⟨c, -, rfl⟩ := mem_map.1 hb
  exact normalizeBlock_normal hanchor c

end Anchor

/-! ## Parts of normalized run lists -/

theorem extractRunsFromOffsetLoop_clean (h : Clean rs) (offset pos : Nat) :
    Clean (extractRunsFromOffsetLoop offset pos rs) := by
  induction rs generalizing pos with
  | nil => exact clean_nil
  | cons r rs ih =>
    obtain ⟨hr, hhead, htail⟩ := clean_cons.1 h
    simp only [extractRunsFromOffsetLoop, charLen_eq, StyledRun.isEmpty]
    by_cases hend : pos + r.text.length ≤ offset
    · rw [if_pos hend]
      exact ih htail _
    -- from here on the loop copies the rest of the list
    have hcopy : ∀ pos, offset ≤ pos → extractRunsFromOffsetLoop offset pos rs = rs := by
      clear ih h hhead hend
      induction rs with
      | nil => intros; rfl
      | cons s rs ih =>
        intro pos hpos
        have hs := (clean_cons.1 htail).1
        have := length_pos_iff.2 hs
        simp only [extractRunsFromOffsetLoop, charLen_eq]
        rw [if_neg (by omega), if_pos (by omega), ih htail.tail _ (by omega)]
    rw [if_neg hend, hcopy _ (by omega)]
    split
    · exact h
    split
    · exact htail
    · rename_i hne
      exact h.replaceHead rfl (by simpa using hne)

theorem splitRunsLoop_clean (h : Clean rs) (offset pos : Nat) : Clean (splitRunsLoop offset pos rs).2 := by
  induction rs generalizing pos with
  | nil => exact clean_nil
  | cons r rs ih =>
    simp only [splitRunsLoop, charLen_eq, StyledRun.splitAt]
    by_cases hend : pos + r.text.length ≤ offset
    · rw [if_pos hend]
      exact ih h.tail _
    rw [if_neg hend]
    split
    · exact h
    · refine h.replaceHead rfl ?_
      simp only [ne_eq, drop_eq_nil_iff]
      omega

theorem splitRunsLoop_append (offset pos : Nat) (A B : List StyledRun) (h : pos + Block.runsLen A ≤ offset) :
    (splitRunsLoop offset pos (A ++ B)).2 = (splitRunsLoop offset (pos + Block.runsLen A) B).2 := by
  induction A generalizing pos with
  | nil => simp [Block.runsLen]
  | cons r A ih =>
    simp only [runsLen_cons] at h ⊢
    rw [cons_append, splitRunsLoop, charLen_eq, if_pos (by omega), ← Nat.add_assoc]
    exact ih (pos + r.text.length) (by omega)

theorem splitRunsAtLoop_drop_clean (h : Clean rs) (offset pos : Nat) (hle : pos ≤ offset) :
    Clean ((splitRunsAtLoop offset pos rs).1.drop (splitRunsAtLoop offset pos rs).2) := by
  induction rs generalizing pos with
  | nil => exact clean_nil
  | cons r rs ih =>
    simp only [splitRunsAtLoop, charLen_eq, StyledRun.splitAt]
    by_cases hpos : pos = offset
    · rw [if_pos hpos]
      exact h
    rw [if_neg hpos]
    split
    · refine h.replaceHead rfl ?_
      simp only [ne_eq, drop_eq_nil_iff]
      omega
    · exact ih h.tail _ (by omega)

/-- Restyling the first `n` characters of normalized runs keeps them normalized: no two runs of
the restyled part become equal, the last of them does not become equal to the run after it, and a
run that is cut in two really changes its style. -/
def toggleSeams (set : InlineStyle → InlineStyle) : Nat → List StyledRun → Bool
  | _, [] => true
  | n, r :: rest =>
    if n = 0 then true
    else if n < r.text.length then set r.style != r.style
    else
      match rest with
      | [] => true
      | s :: _ =>
        (if n = r.text.length then (set r.style, r.link) != s.format
          else (set r.style, r.link) != (set s.style, s.link)) &&
          toggleSeams set (n - r.text.length) rest

/-- The run list with the runs before the cut at `offset` restyled. -/
def restylePrefix (set : InlineStyle → InlineStyle) (offset pos : Nat) (rs : List StyledRun) :
    List StyledRun :=
  let cut := splitRunsAtLoop offset pos rs
  (cut.1.take cut.2).map (fun r => { r with style := set r.style }) ++ cut.1.drop cut.2

theorem restylePrefix_cons (set : InlineStyle → InlineStyle) (offset pos : Nat) (r : StyledRun)
    (rs : List StyledRun) : restylePrefix set offset pos (r :: rs) =
      if pos = offset then r :: rs
      else if pos + r.text.length > offset then
        { r with text := r.text.take (offset - pos), style := set r.style } ::
          { r with text := r.text.drop (offset - pos) } :: rs
      else { r with style := set r.style } :: restylePrefix set offset (pos + r.text.length) rs := by
  simp only [restylePrefix, splitRunsAtLoop, charLen_eq, StyledRun.splitAt]
  by_cases hpos : pos = offset
  · simp [hpos]
  · by_cases hend : pos + r.text.length > offset
    · simp [hpos, hend]
    · simp [hpos, hend]

/-- The first run of a restyled list has the restyled formatting of the original first run. -/
theorem restylePrefix_head (set : InlineStyle → InlineStyle) {offset pos : Nat} (r : StyledRun)
    (rs : List StyledRun) (h : pos < offset) : ∃ r' rs', restylePrefix set offset pos (r :: rs) = r' :: rs' ∧
      r'.format = (set r.style, r.link) := by
  rw [restylePrefix_cons, if_neg (by omega)]
  split
  · exact ⟨_, _, rfl, rfl⟩
  · exact ⟨_, _, rfl, rfl⟩

theorem restylePrefix_clean_iff (set : InlineStyle → InlineStyle) (h : Clean rs)
    {offset pos : Nat} (hle : pos ≤ offset) :
    Clean (restylePrefix set offset pos rs) ↔ toggleSeams set (offset - pos) rs = true := by
  induction rs generalizing pos with
  | nil => simp [restylePrefix, splitRunsAtLoop, toggleSeams, clean_nil]
  | cons r rs ih =>
    obtain ⟨hr, hhead, htail⟩ := clean_cons.1 h
    rw [restylePrefix_cons]
    by_cases hpos : pos = offset
    · simp [hpos, h, toggleSeams]
    by_cases hend : pos + r.text.length > offset
    · -- the run is cut in two
      have hn : offset - pos ≠ 0 ∧ offset - pos < r.text.length := by omega
      have hdrop : r.text.drop (offset - pos) ≠ [] := by
        simp only [ne_eq, drop_eq_nil_iff]
        omega
      have htake : r.text.take (offset - pos) ≠ [] := by
        simp only [ne_eq, take_eq_nil_iff, not_or]
        exact ⟨hn.1, hr⟩
      have hright : Clean ({ r with text := r.text.drop (offset - pos) } :: rs) :=
        h.replaceHead rfl hdrop
      rw [if_neg hpos, if_pos hend, clean_cons]
      simp only [toggleSeams, if_neg hn.1, if_pos hn.2, htake, ne_eq, hright, StyledRun.format]
      simp
    · have hn : offset - pos ≠ 0 ∧ ¬ offset - pos < r.text.length := by omega
      rw [if_neg hpos, if_neg hend, clean_cons, ih htail (by omega)]
      simp only [toggleSeams, if_neg hn.1, if_neg hn.2, ne_eq, hr]
      cases rs with
      | nil => simp [restylePrefix, splitRunsAtLoop, toggleSeams]
      | cons s rs =>
        rw [Nat.sub_sub]
        simp only
        by_cases hlast : pos + r.text.length = offset
        · -- the next run keeps its style
          rw [restylePrefix_cons, if_pos hlast, if_pos (by omega)]
          simp [StyledRun.format]
        · obtain ⟨s', rs', heq, hs'⟩ := restylePrefix_head set s rs
            (show pos + r.text.length < offset by omega)
          rw [heq, if_neg (by omega)]
          simp only [head?_cons, Option.mem_def, Option.some.injEq, forall_eq', hs']
          simp [StyledRun.format]

theorem toggleRuns_zero (hne : rs ≠ []) (shouldRemove : Bool) (styleBit : InlineStyle) (hn : 0 < n) :
    toggleRuns shouldRemove styleBit 0 n rs = restylePrefix (toggledStyle shouldRemove styleBit) n 0 rs := by
  obtain ⟨r, rs, rfl⟩ := exists_cons_of_ne_nil hne
  have hstart : splitRunsAt (r :: rs) 0 = (r :: rs, 0) := by
    simp [splitRunsAt, splitRunsAtLoop]
  rw [toggleRuns, isolateRuns, if_pos (Nat.zero_le _), if_neg (by simp; omega), hstart]
  simp [restyleRuns, restylePrefix, splitRunsAt]

/-- When restyling the first `n` characters of runs with text leaves them normalized. -/
theorem toggledRuns_clean_iff (hclean : Clean rs) (hne : rs ≠ []) (shouldRemove : Bool)
    (styleBit : InlineStyle) (hn : 0 < n) :
    runsNormal anchor (toggleRuns shouldRemove styleBit 0 n rs) = true ↔
      toggleSeams (toggledStyle shouldRemove styleBit) n rs = true := by
  have hiff := restylePrefix_clean_iff (toggledStyle shouldRemove styleBit) hclean (Nat.zero_le n)
  rw [Nat.sub_zero] at hiff
  rw [toggleRuns_zero hne _ _ hn, ← hiff, runsNormal_iff]
  obtain ⟨r, rs, rfl⟩ := exists_cons_of_ne_nil hne
  obtain ⟨r', rs', heq, -⟩ := restylePrefix_head (toggledStyle shouldRemove styleBit) r rs hn
  constructor
  · rintro (⟨q, hq, htext, -⟩ | ⟨-, hc⟩)
    · -- the restyled first run still has the text of the original
      exfalso
      rw [restylePrefix_cons, if_neg (by omega)] at hq
      have hrt := (clean_cons.1 hclean).1
      split at hq
      · simp at hq
      · simp only [List.cons.injEq] at hq
        rw [← hq.1] at htext
        exact hrt htext
    · exact hc
  · intro hc
    exact .inr ⟨by rw [heq]; simp, hc⟩

/-- When restyling the first `n` characters of a normalized block leaves it normalized. -/
theorem toggledRuns_normal_iff (h : runsNormal anyAnchor rs = true) (shouldRemove : Bool)
    (styleBit : InlineStyle) (hn : 0 < n) :
    runsNormal anyAnchor (toggleRuns shouldRemove styleBit 0 n rs) = true ↔
      toggleSeams (toggledStyle shouldRemove styleBit) n rs = true := by
  rcases runsNormal_iff.1 h with ⟨r, rfl, hr, -⟩ | ⟨hne, hclean⟩
  · -- a block without text: the one empty run is restyled as a whole
    rw [toggleRuns_zero (by simp) _ _ hn, restylePrefix_cons]
    simp [hr, show ¬ 0 = n by omega, toggleSeams, restylePrefix, splitRunsAtLoop, runsNormal,
      anyAnchor]
  · exact toggledRuns_clean_iff hclean hne shouldRemove styleBit hn

end Ratatoskr.Rte

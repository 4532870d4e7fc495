import Ratatoskr.Rte.Resolve

/-!
# Rte.NormalSteps

Normalization as an invariant of `EditorState.perform`. An edit normalizes only the blocks its
position maps report, so each batch must leave every other block normalized. A deletion followed
by a split does, because the split falls on the seam the deletion left; a style toggle over several
blocks does not in general, because its position map reports its first block alone.

* `applyAction_normal` : every edit but a toggle over a selection keeps the document normalized.
* `perform_normal_iff` : one step from a normalized document leads to a normalized document exactly
  when it meets `KeepsNormal`.
-/

namespace Ratatoskr.Rte

open List
open EditorState

variable {d : Document} {start stop : DocPosition} {style : InlineStyle} {anchor : StyledRun → Bool}

section Anchor

variable {anchor : StyledRun → Bool}
variable {d d' : Document} {pre post blocks : List Block} {b : Block} {rs : List StyledRun}
  {o s e i : Nat} {pm : PosMap} {dirty : List Nat} {ops : List EditOp}
  {sel sel' selection : DocSelection} {p : DocPosition} {pending : InlineStyle}

/-- Every block but the one at index `i` is normalized. -/
def NormalBut (anchor : StyledRun → Bool) (i : Nat) (d : Document) : Prop :=
  ∀ j b, d.blocks[j]? = some b → j ≠ i → blockNormal anchor b = true

theorem NormalBut.of_docNormal (h : docNormal anchor d = true) (i : Nat) : NormalBut anchor i d :=
  fun _ _ hb _ => (docNormal_iff.1 h).2 _ (mem_of_getElem? hb)

theorem NormalBut.of_parts (hpre : ∀ c ∈ pre, blockNormal anchor c = true)
    (hpost : ∀ c ∈ post, blockNormal anchor c = true) : NormalBut anchor pre.length ⟨pre ++ b :: post⟩ := by
  intro j c hc hj
  rw [getElem?_append] at hc
  split at hc
  · exact hpre c (mem_of_getElem? hc)
  · rw [getElem?_cons, if_neg (by omega)] at hc
    exact hpost c (mem_of_getElem? hc)

theorem NormalBut.of_all (h : ∀ c ∈ blocks, blockNormal anchor c = true) (i : Nat) :
    NormalBut anchor i ⟨blocks⟩ :=
  fun _ c hc _ => h c (mem_of_getElem? hc)

/-- The second half of `b`, split at `o`, is normalized. -/
def SecondNormal (anchor : StyledRun → Bool) (b : Block) (o : Nat) : Prop :=
  blockNormal anchor (splitBlockAt b o).2 = true

theorem ensureRun_normal (hanchor : anchor (StyledRun.plain []) = true) (h : Clean rs) :
    runsNormal anchor (ensureRun rs) = true := by
  unfold ensureRun
  split
  · simp [runsNormal, hanchor]
  · rename_i hne
    exact runsNormal_iff.2 (.inr ⟨by simpa using hne, h⟩)

theorem SecondNormal.of_runs (hanchor : anchor (StyledRun.plain []) = true) (h : b.runs = some rs)
    (hc : Clean (splitRunsLoop o 0 rs).2) : SecondNormal anchor b o := by
  rw [SecondNormal, splitBlockAt, h]
  rw [blockNormal_setRuns (isInline_of_runs h)]
  exact ensureRun_normal hanchor hc

theorem SecondNormal.of_normal (hanchor : anchor (StyledRun.plain []) = true)
    (h : blockNormal anchor b = true) (o : Nat) : SecondNormal anchor b o := by
  cases hruns : b.runs with
  | none =>
    rw [SecondNormal, splitBlockAt, hruns]
    exact emptyParagraph_normal hanchor
  | some rs =>
    rw [blockNormal_of_runs hruns, runsNormal_iff] at h
    refine SecondNormal.of_runs hanchor hruns ?_
    rcases h with ⟨r, rfl, hr, -⟩ | ⟨-, hclean⟩
    · simp [splitRunsLoop, charLen_eq, hr, clean_nil]
    · exact splitRunsLoop_clean hclean o 0

theorem SecondNormal.of_seam (hanchor : anchor (StyledRun.plain []) = true) {A C : List StyledRun}
    (h : b.runs = some (ensureRun (A ++ C))) (hA : Block.runsLen A ≤ o) (hC : Clean C) :
    SecondNormal anchor b o := by
  refine SecondNormal.of_runs hanchor h ?_
  unfold ensureRun
  split
  · simp [splitRunsLoop, StyledRun.plain, charLen_eq, clean_nil]
  · rw [splitRunsLoop_append o 0 A C (by omega)]
    exact splitRunsLoop_clean hC o _

theorem extractRunsFromOffset_clean (h : runsNormal anchor rs = true) (o : Nat) :
    Clean (extractRunsFromOffset rs o) := by
  rcases runsNormal_iff.1 h with ⟨r, rfl, hr, -⟩ | ⟨-, hclean⟩
  · simp [extractRunsFromOffset, extractRunsFromOffsetLoop, charLen_eq, hr, clean_nil]
  · exact extractRunsFromOffsetLoop_clean hclean o 0

/-- What a deletion within a block leaves is a part before the seam and a clean part after it. -/
theorem deleteRuns_seam (h : Clean rs) (hne : rs ≠ []) (hlt : s < e) :
    ∃ A C, deleteRuns rs s e = A ++ C ∧ Block.runsLen A ≤ s ∧ Clean C := by
  obtain ⟨A, B, hAB, hA, -⟩ := splitRunsAt_spec id rs s
  have hlen : Block.runsLen A ≤ s := by
    rw [← chars_length id A, hA, length_take]
    exact Nat.min_le_left _ _
  have hB : Clean B := by
    have := splitRunsAtLoop_drop_clean h s 0 (Nat.zero_le _)
    rw [splitRunsAt] at hAB
    rw [hAB] at this
    simpa using this
  have happ := splitRunsAtLoop_append e 0 A B (by omega)
  rw [Nat.zero_add] at happ
  have hC := splitRunsAtLoop_drop_clean hB e (Block.runsLen A) (by omega)
  obtain ⟨M, C, hMC, -⟩ := splitRunsAtLoop_spec id e (Block.runsLen A) B (by omega)
  rw [hMC] at happ hC
  simp only [drop_left] at hC
  refine ⟨A, C, ?_, hlen, hC⟩
  simp only [deleteRuns, isolateRuns, if_pos (Nat.le_of_lt hlt)]
  rw [if_neg (by simp [hne]; omega), hAB]
  simp only [splitRunsAt, happ]
  by_cases hM : M = []
  · simp [hM]
  · have : 0 < M.length := length_pos_iff.2 hM
    rw [if_pos (by omega), take_left, ← append_assoc, ← length_append,
      drop_left]

/-- What a deletion leaves: every block but the one at `start` is normalized, and that one is fit
to be split there. -/
def FitForSplit (anchor : StyledRun → Bool) (start : DocPosition) (d : Document) : Prop :=
  NormalBut anchor start.blockIndex d ∧
    ∀ b, d.blocks[start.blockIndex]? = some b → SecondNormal anchor b start.offset

theorem FitForSplit.of_all (hanchor : anchor (StyledRun.plain []) = true)
    (h : ∀ c ∈ blocks, blockNormal anchor c = true) (start : DocPosition) :
    FitForSplit anchor start ⟨blocks⟩ :=
  ⟨.of_all h _, fun _ hb => .of_normal hanchor (h _ (mem_of_getElem? hb)) _⟩

theorem FitForSplit.of_parts (hpre : ∀ c ∈ pre, blockNormal anchor c = true)
    (hpost : ∀ c ∈ post, blockNormal anchor c = true) (hb : SecondNormal anchor b o) :
    FitForSplit anchor ⟨pre.length, o⟩ ⟨pre ++ b :: post⟩ := by
  refine ⟨.of_parts hpre hpost, ?_⟩
  intro c hc
  have hcb : c = b := by simpa using hc.symm
  exact hcb ▸ hb

theorem deleteRuns_empty (hanchor : anchor (StyledRun.plain []) = true) {r : StyledRun}
    (hr : r.text = []) (hra : anchor r = true) (hlt : s < e) :
    runsNormal anchor (ensureRun (deleteRuns [r] s e)) = true := by
  have hcases : deleteRuns [r] s e = [] ∨ deleteRuns [r] s e = [r] := by
    simp only [deleteRuns, isolateRuns, if_pos (Nat.le_of_lt hlt)]
    rw [if_neg (by simp; omega)]
    by_cases hs : s = 0
    · simp [splitRunsAt, splitRunsAtLoop, hs, charLen_eq, hr, show ¬ 0 = e by omega]
    · simp [splitRunsAt, splitRunsAtLoop, charLen_eq, hr, show ¬ 0 = e by omega,
        show ¬ 0 = s by omega]
  rcases hcases with heq | heq
  · simp [heq, ensureRun, runsNormal, hanchor]
  · simp [heq, ensureRun, runsNormal, hra]

theorem applySingleBlockDelete_fit (hanchor : anchor (StyledRun.plain []) = true)
    (hd : docNormal anchor d = true) (hlt : s < e)
    (h : applySingleBlockDelete d ⟨i, s⟩ ⟨i, e⟩ = .ok (d', pm)) :
    pm.blockIndex = i ∧ FitForSplit anchor ⟨i, s⟩ d' := by
  obtain ⟨-, hall⟩ := docNormal_iff.1 hd
  cases hb : d.blocks[i]? with
  | none =>
    simp [applySingleBlockDelete, Document.expectBlock, Document.block, hb, bind, Except.bind] at h
  | some b =>
    obtain ⟨pre, post, rfl, rfl⟩ := exists_mid hb
    have hpre : ∀ c ∈ pre, blockNormal anchor c = true := fun c hc => hall c (by simp [hc])
    have hpost : ∀ c ∈ post, blockNormal anchor c = true := fun c hc => hall c (by simp [hc])
    have hbn : blockNormal anchor b = true := hall b (by simp)
    cases hruns : b.runs with
    | none =>
      have hatomic : b.isInlineBlock = false := by rw [← runs_isSome, hruns]; rfl
      obtain ⟨pm', heq, hpm, -⟩ := applySingleBlockDelete_atomic pre post hatomic s e
      rw [heq] at h
      cases h
      refine ⟨hpm, ?_⟩
      split
      · refine .of_all hanchor (ensureBlock_normal hanchor ?_) _
        intro c hc
        exact (mem_append.1 hc).elim (hpre c) (hpost c)
      · exact .of_all hanchor hall _
    | some rs =>
      rw [applySingleBlockDelete_inline hruns (Nat.le_of_lt hlt)] at h
      cases h
      have hcr := runs_setRuns (isInline_of_runs hruns) (ensureRun (deleteRuns rs s e))
      refine ⟨rfl, .of_parts hpre hpost ?_⟩
      rw [blockNormal_of_runs hruns, runsNormal_iff] at hbn
      rcases hbn with ⟨r, rfl, hr, hra⟩ | ⟨hne, hclean⟩
      · refine .of_normal hanchor ?_ _
        rw [blockNormal_of_runs hcr]
        exact deleteRuns_empty hanchor hr hra hlt
      · obtain ⟨A, C, heq, hA, hC⟩ := deleteRuns_seam hclean hne hlt
        exact .of_seam hanchor (by rw [hcr, heq]) hA hC

theorem survivors_normal {eb : Block} (heb : blockNormal anchor eb = true)
    (hpost : ∀ c ∈ post, blockNormal anchor c = true) :
    ∀ c ∈ survivors eb e post, blockNormal anchor c = true := by
  unfold survivors
  split
  · exact hpost
  intro c hc
  rcases mem_cons.1 hc with rfl | hc
  · exact heb
  · exact hpost c hc

/-- The block that replaces the start block of a cross-block deletion is fit to be split. -/
theorem buildCrossDeleteReplacement_fit (hanchor : anchor (StyledRun.plain []) = true)
    {sb eb nb : Block} (heb : blockNormal anchor eb = true)
    (h : buildCrossDeleteReplacement sb s eb e = some nb) : SecondNormal anchor nb s := by
  have htail : ∀ ers, eb.runs = some ers → Clean (extractRunsFromOffset ers e) := by
    intro ers hers
    rw [blockNormal_of_runs hers] at heb
    exact extractRunsFromOffset_clean heb e
  unfold buildCrossDeleteReplacement at h
  cases hsr : sb.runs with
  | some rs =>
    have hlen : Block.runsLen (truncateRuns rs s) ≤ s := by
      rw [← chars_length id, chars_truncateRuns, length_take]
      exact Nat.min_le_left _ _
    simp only [hsr, Option.some.injEq] at h
    subst h
    refine .of_seam hanchor (runs_setRuns (isInline_of_runs hsr) _) hlen ?_
    cases her : eb.runs with
    | some ers => exact htail ers her
    | none => exact clean_nil
  | none =>
    simp only [hsr] at h
    cases her : eb.runs with
    | none => simp [her] at h
    | some ers =>
      simp only [her] at h
      split at h
      · cases h
      rename_i hne
      cases h
      have hcr : (blockWithRunsLike eb (extractRunsFromOffset ers e)).runs =
          some (extractRunsFromOffset ers e) := by
        cases eb <;> rfl
      refine .of_normal hanchor ?_ _
      rw [blockNormal_of_runs hcr, runsNormal_iff]
      exact .inr ⟨by simpa using hne, htail ers her⟩

theorem applyCrossBlockDelete_fit (hanchor : anchor (StyledRun.plain []) = true) {j : Nat}
    (hd : docNormal anchor d = true) (hlt : i < j)
    (h : applyCrossBlockDelete d ⟨i, s⟩ ⟨j, e⟩ = .ok (d', pm)) :
    pm.blockIndex = i ∧ FitForSplit anchor ⟨i, s⟩ d' := by
  obtain ⟨-, hall⟩ := docNormal_iff.1 hd
  cases heb : d.blocks[j]? with
  | none =>
    simp [applyCrossBlockDelete, Document.expectBlock, Document.block, heb, bind, Except.bind] at h
  | some eb =>
    obtain ⟨sb, hsb⟩ : ∃ sb, d.blocks[i]? = some sb :=
      ⟨_, getElem?_eq_getElem (Nat.lt_trans hlt (List.getElem?_eq_some_iff.1 heb).1)⟩
    obtain ⟨pre, mid, post, rfl, rfl, rfl⟩ := exists_mid_two hsb heb hlt
    obtain ⟨pm', heq, hpm, -⟩ := applyCrossBlockDelete_mid pre mid post sb eb s e
    rw [heq] at h
    have hpre : ∀ c ∈ pre, blockNormal anchor c = true := fun c hc => hall c (by simp [hc])
    have hebn : blockNormal anchor eb = true := hall eb (by simp)
    have hsurv : ∀ c ∈ survivors eb e post, blockNormal anchor c = true :=
      survivors_normal hebn fun c hc => hall c (by simp [hc])
    cases hrep : buildCrossDeleteReplacement sb s eb e with
    | some nb =>
      rw [hrep] at h
      cases h
      exact ⟨hpm, .of_parts hpre hsurv (buildCrossDeleteReplacement_fit hanchor hebn hrep)⟩
    | none =>
      rw [hrep] at h
      cases h
      refine ⟨hpm, .of_all hanchor (ensureBlock_normal hanchor ?_) _⟩
      intro c hc
      exact (mem_append.1 hc).elim (hpre c) (hsurv c)

/-- A deletion touches the block it starts in only, and leaves it fit to be split there. -/
theorem applyDeleteRange_fit (hanchor : anchor (StyledRun.plain []) = true)
    {start stop : DocPosition} {deleted : DeletedContent} (hd : docNormal anchor d = true)
    (hlt : start < stop) (h : applyDeleteRange d start stop deleted = .ok (d', pm)) :
    pm.blockIndex = start.blockIndex ∧ FitForSplit anchor start d' := by
  obtain ⟨i, s⟩ := start
  obtain ⟨j, e⟩ := stop
  simp only [DocPosition.lt_iff] at hlt
  by_cases hij : i = j
  · subst hij
    have hse : s < e := by omega
    rw [applyDeleteRange_single d i deleted hse] at h
    exact applySingleBlockDelete_fit hanchor hd hse h
  · have hlt' : i < j := by omega
    rw [applyDeleteRange_cross d s e deleted hlt'] at h
    exact applyCrossBlockDelete_fit hanchor hd hlt' h

/-! ## Batches -/

def Covered (anchor : StyledRun → Bool) (d : Document) (dirty : List Nat) : Prop :=
  ∀ i b, d.blocks[i]? = some b → i ∉ dirty → blockNormal anchor b = true

theorem Covered.of_normalBut (h : NormalBut anchor i d) (hi : i ∈ dirty) : Covered anchor d dirty :=
  fun j b hb hj => h j b hb fun heq => hj (heq ▸ hi)

theorem commitOps_normal_iff (hanchor : anchor (StyledRun.plain []) = true) {s s' : EditorState}
    (h : s.commitOps ops = .ok s') :
    ∃ d sel dirty, applyOpsTracked ops s.document s.selection = .ok (d, sel, dirty) ∧
      (docNormal anchor s'.document = true ↔ Covered anchor d dirty) := by
  obtain ⟨d, sel, dirty, htr, -, hdoc, -⟩ := commitOps_ok h
  refine ⟨d, sel, dirty, htr, ?_⟩
  rw [hdoc, normalizeBlocks_normal_iff hanchor]
  simp [Covered, mem_sortDedup]

/-- An op that can only change the block at index `i`, and reports it. -/
def LocalAt (i : Nat) (op : EditOp) : Prop :=
  ∀ d d' pm, op.apply d = .ok (d', pm) →
    pm.blockIndex = i ∧ ∀ j, j ≠ i → d'.blocks[j]? = d.blocks[j]?

theorem localAt_replace (d : Document) (i : Nat) (c : Block) :
    ∀ j, j ≠ i → (d.replaceBlock i c).blocks[j]? = d.blocks[j]? :=
  fun _ hj => getElem?_set_ne (Ne.symm hj)

theorem localAt_insertText (p : DocPosition) (text : Text) : LocalAt p.blockIndex (.insertText p text) := by
  intro d d' pm h
  obtain ⟨i, o⟩ := p
  simp only [EditOp.apply] at h
  cases hb : d.blocks[i]? with
  | none => simp [applyInsertText, Document.expectBlock, Document.block, hb, bind, Except.bind] at h
  | some b =>
    obtain ⟨pre, post, rfl, rfl⟩ := exists_mid hb
    cases hruns : b.runs with
    | none =>
      rw [applyInsertText_atomic hruns] at h
      cases h
      exact ⟨rfl, fun _ _ => rfl⟩
    | some rs =>
      rw [applyInsertText_inline hruns] at h
      cases h
      refine ⟨rfl, ?_⟩
      rw [← replaceBlock_mid pre post b]
      exact localAt_replace _ _ _

theorem localAt_toggle (start stop : DocPosition) (h : start.blockIndex = stop.blockIndex)
    (bit : InlineStyle) : LocalAt start.blockIndex (.toggleInlineStyle start stop bit) := by
  intro d d' pm hop
  simp only [EditOp.apply] at hop
  by_cases hlt : start < stop
  · obtain ⟨d1, heq, hblocks⟩ := applyToggleInlineStyle_eq hlt bit d
    rw [heq] at hop
    cases hop
    refine ⟨rfl, ?_⟩
    intro j hj
    rw [hblocks j, if_neg (by omega)]
  · simp [applyToggleInlineStyle, hlt] at hop

theorem localAt_setBlockType (i : Nat) (old new : BlockKind) : LocalAt i (.setBlockType i old new) := by
  intro d d' pm h
  simp only [EditOp.apply] at h
  cases hb : d.blocks[i]? with
  | none =>
    simp [applySetBlockType, Document.expectBlock, Document.block, hb] at h
  | some b =>
    obtain ⟨pre, post, rfl, rfl⟩ := exists_mid hb
    rw [applySetBlockType_mid] at h
    cases h
    refine ⟨rfl, ?_⟩
    rw [← replaceBlock_mid pre post b]
    exact localAt_replace _ _ _

theorem applyOpsTracked_localAt (hops : ∀ op ∈ ops, LocalAt i op)
    (h : applyOpsTracked ops d sel = .ok (d', sel', dirty)) :
    (∀ j, j ≠ i → d'.blocks[j]? = d.blocks[j]?) ∧ (ops ≠ [] → i ∈ dirty) := by
  induction ops generalizing d sel dirty with
  | nil =>
    obtain ⟨rfl, -, -⟩ := applyOpsTracked_nil h
    exact ⟨fun _ _ => rfl, fun hne => absurd rfl hne⟩
  | cons op ops ih =>
    obtain ⟨d1, pm, sel1, rest, hop, hrest, rfl⟩ := applyOpsTracked_cons h
    obtain ⟨hpm, hfix⟩ := hops op (by simp) d d1 pm hop
    obtain ⟨hfix', -⟩ := ih (fun o ho => hops o (by simp [ho])) hrest
    exact ⟨fun j hj => (hfix' j hj).trans (hfix j hj), fun _ => by simp [hpm]⟩

theorem applyOpsTracked_delete (hanchor : anchor (StyledRun.plain []) = true)
    (hd : docNormal anchor d = true) (target : DocSelection)
    (h : applyOpsTracked (buildDeleteSelection d target) d sel = .ok (d', sel', dirty)) :
    FitForSplit anchor (postDeletePosition d target) d' ∧
      ((dirty = [] ∧ d' = d) ∨ (postDeletePosition d target).blockIndex ∈ dirty) := by
  unfold buildDeleteSelection at h
  simp only at h
  split at h
  · obtain ⟨rfl, -, rfl⟩ := applyOpsTracked_nil h
    exact ⟨.of_all hanchor (docNormal_iff.1 hd).2 _, .inl ⟨rfl, rfl⟩⟩
  rename_i hlt
  have hlt' : postDeletePosition d target < target.endPos := by
    simp only [DocPosition.lt_iff, DocPosition.le_iff] at hlt ⊢
    omega
  obtain ⟨d1, pm, sel1, rest, hop, hrest, rfl⟩ := applyOpsTracked_cons h
  obtain ⟨rfl, -, rfl⟩ := applyOpsTracked_nil hrest
  obtain ⟨hpm, hfit⟩ := applyDeleteRange_fit hanchor hd hlt' hop
  exact ⟨hfit, .inr (by simp [hpm])⟩

theorem covered_of_local (hbut : NormalBut anchor i d)
    (hfix : ∀ j, j ≠ i → d'.blocks[j]? = d.blocks[j]?) (hi : i ∈ dirty) : Covered anchor d' dirty := by
  refine .of_normalBut (i := i) ?_ hi
  intro j b hb hj
  rw [hfix j hj] at hb
  exact hbut j b hb hj

theorem insertOps_localAt (target : Document) (p : DocPosition) (style : InlineStyle)
    (text : Text) : ∀ op ∈ insertOps target p style text, LocalAt p.blockIndex op := by
  intro op hop
  simp only [insertOps, mem_cons] at hop
  rcases hop with rfl | hop
  · exact localAt_insertText p text
  split at hop
  · simp at hop
  · obtain ⟨bit, -, rfl⟩ := mem_map.1 hop
    exact localAt_toggle p ⟨p.blockIndex, p.offset + textLen text⟩ rfl bit

/-- After the deletion of a batch, splitting at its position covers every block. -/
theorem applySplitBlock_covered (hfit : FitForSplit anchor p d) (h : applySplitBlock d p = .ok (d', pm)) :
    pm.blockIndex = p.blockIndex ∧ NormalBut anchor p.blockIndex d' := by
  obtain ⟨i, o⟩ := p
  obtain ⟨hbut, hsecond⟩ := hfit
  cases hb : d.blocks[i]? with
  | none => simp [applySplitBlock, Document.expectBlock, Document.block, hb, bind, Except.bind] at h
  | some b =>
    obtain ⟨pre, post, rfl, rfl⟩ := exists_mid hb
    rw [applySplitBlock_mid] at h
    cases h
    refine ⟨rfl, .of_parts ?_ ?_⟩
    · intro c hc
      obtain ⟨j, hj⟩ := getElem?_of_mem hc
      have hlt := (List.getElem?_eq_some_iff.1 hj).1
      exact hbut j c (by rw [getElem?_append_left hlt, hj]) (by simp only; omega)
    · intro c hc
      rcases mem_cons.1 hc with rfl | hc
      · exact hsecond b hb
      obtain ⟨j, hj⟩ := getElem?_of_mem hc
      refine hbut (pre.length + 1 + j) c ?_ (by simp only; omega)
      rw [getElem?_append_right (by omega), getElem?_cons, if_neg (by omega), ← hj]
      congr 1
      omega

/-! ## Actions -/

theorem applyInsertBlock_ok (h : applyInsertBlock d i b = .ok (d', pm)) :
    d' = ⟨d.blocks.insertIdx i b⟩ ∧ pm.blockIndex = i := by
  by_cases hle : i ≤ d.blocks.length
  · simp only [applyInsertBlock, Document.insertBlock, vecInsert, if_pos hle] at h
    cases h
    exact ⟨rfl, rfl⟩
  · simp only [applyInsertBlock, Document.insertBlock, vecInsert, if_neg hle] at h
    cases h

theorem NormalBut.insertIdx (hbut : NormalBut anchor i ⟨blocks⟩)
    (hb : blockNormal anchor b = true) : NormalBut anchor i ⟨blocks.insertIdx (i + 1) b⟩ := by
  intro j c hc hj
  rw [getElem?_insertIdx] at hc
  split at hc
  · exact hbut j c hc hj
  split at hc
  · split at hc
    · cases hc
      exact hb
    · cases hc
  · exact hbut (j - 1) c hc (by omega)

theorem resolveInsert_covered (hanchor : anchor (StyledRun.plain []) = true) {text : Text}
    (hd : docNormal anchor d = true) (hops : resolveInsert d selection text pending = .ok ops)
    (h : applyOpsTracked ops d sel = .ok (d', sel', dirty)) : Covered anchor d' dirty := by
  have hinsert : ∀ target p style, insertOps target p style text ≠ [] := by simp [insertOps]
  rcases resolveInsert_cases hops with ⟨-, style, rfl⟩ | ⟨-, scratch, style, -, rfl⟩
  · obtain ⟨hfix, hmem⟩ := applyOpsTracked_localAt (insertOps_localAt _ _ _ _) h
    exact covered_of_local (.of_docNormal hd _) hfix (hmem (hinsert _ _ _))
  · obtain ⟨d1, sel1, dirty1, dirty2, h1, h2, rfl⟩ := applyOpsTracked_append h
    obtain ⟨hfit, -⟩ := applyOpsTracked_delete hanchor hd selection h1
    obtain ⟨hfix, hmem⟩ := applyOpsTracked_localAt (insertOps_localAt _ _ _ _) h2
    exact covered_of_local hfit.1 hfix (mem_append_right _ (hmem (hinsert _ _ _)))

theorem splitOps_covered (hanchor : anchor (StyledRun.plain []) = true) {block : Block}
    {dirty1 : List Nat} (hfit : FitForSplit anchor p d) (hdirty : Covered anchor d dirty1)
    (h : applyOpsTracked (splitOps block p) d sel = .ok (d', sel', dirty)) :
    Covered anchor d' (dirty1 ++ dirty) := by
  have split1 : ∀ {dirty}, applyOpsTracked [.splitBlock p] d sel = .ok (d', sel', dirty) →
      Covered anchor d' (dirty1 ++ dirty) := by
    intro dirty h
    obtain ⟨d1, pm, sel1, rest, hop, hrest, rfl⟩ := applyOpsTracked_cons h
    obtain ⟨rfl, -, rfl⟩ := applyOpsTracked_nil hrest
    obtain ⟨hpm, hbut⟩ := applySplitBlock_covered hfit hop
    exact .of_normalBut hbut (by simp [hpm])
  unfold splitOps at h
  split at h
  · -- Enter on an image inserts a paragraph after it
    obtain ⟨d1, pm, sel1, rest, hop, hrest, rfl⟩ := applyOpsTracked_cons h
    obtain ⟨rfl, -, rfl⟩ := applyOpsTracked_nil hrest
    obtain ⟨rfl, -⟩ := applyInsertBlock_ok hop
    have hbut := hfit.1.insertIdx (emptyParagraph_normal hanchor)
    intro j b hb hj
    by_cases hji : j = p.blockIndex
    · -- the block before the new paragraph is the one the batch started from
      subst hji
      refine hdirty p.blockIndex b ?_ (fun hm => hj (by simp [hm]))
      rwa [getElem?_insertIdx, if_pos (by omega)] at hb
    · exact hbut j b hb hji
  · split at h
    · obtain ⟨hfix, hmem⟩ := applyOpsTracked_localAt
        (by simpa using localAt_setBlockType p.blockIndex _ _) h
      exact covered_of_local hfit.1 hfix (mem_append_right _ (hmem (by simp)))
    · exact split1 h
  · split at h
    · -- the second half of a heading becomes a paragraph, and is reported
      obtain ⟨d1, pm, sel1, rest, hop, hrest, rfl⟩ := applyOpsTracked_cons h
      obtain ⟨hpm, hbut⟩ := applySplitBlock_covered hfit hop
      obtain ⟨d2, pm2, sel2, rest2, hop2, hrest2, rfl⟩ := applyOpsTracked_cons hrest
      obtain ⟨rfl, -, rfl⟩ := applyOpsTracked_nil hrest2
      obtain ⟨hpm2, hfix⟩ := localAt_setBlockType _ _ _ _ _ _ hop2
      intro j b hb hj
      simp only [mem_append, mem_cons, hpm, hpm2, not_mem_nil, or_false, not_or] at hj
      rw [hfix j hj.2.2] at hb
      exact hbut j b hb hj.2.1
    · exact split1 h
  · exact split1 h

theorem Covered.of_docNormal (h : docNormal anchor d = true) (dirty : List Nat) : Covered anchor d dirty :=
  fun _ _ hb _ => (docNormal_iff.1 h).2 _ (mem_of_getElem? hb)

theorem buildDeleteSelection_covered (hanchor : anchor (StyledRun.plain []) = true)
    (hd : docNormal anchor d = true)
    (h : applyOpsTracked (buildDeleteSelection d selection) d sel = .ok (d', sel', dirty)) :
    FitForSplit anchor (postDeletePosition d selection) d' ∧ Covered anchor d' dirty := by
  obtain ⟨hfit, hcase⟩ := applyOpsTracked_delete hanchor hd selection h
  refine ⟨hfit, ?_⟩
  rcases hcase with ⟨rfl, rfl⟩ | hmem
  · exact .of_docNormal hd _
  · exact .of_normalBut hfit.1 hmem

theorem resolveSplitBlock_covered (hanchor : anchor (StyledRun.plain []) = true)
    (hd : docNormal anchor d = true)
    (h : applyOpsTracked (resolveSplitBlock d selection) d sel = .ok (d', sel', dirty)) :
    Covered anchor d' dirty := by
  unfold resolveSplitBlock at h
  by_cases hcol : selection.isCollapsed = true
  · simp only [hcol] at h
    split at h
    · obtain ⟨rfl, -, rfl⟩ := applyOpsTracked_nil h
      exact .of_docNormal hd _
    · have hfit := FitForSplit.of_all hanchor (docNormal_iff.1 hd).2 selection.focus
      exact splitOps_covered hanchor hfit (.of_docNormal hd []) h
  · simp only [hcol, Bool.false_eq_true, if_false] at h
    split at h
    · exact (buildDeleteSelection_covered hanchor hd h).2
    · obtain ⟨d1, sel1, dirty1, dirty2, h1, h2, rfl⟩ := applyOpsTracked_append h
      obtain ⟨hfit, hcov⟩ := buildDeleteSelection_covered hanchor hd h1
      exact splitOps_covered hanchor hfit hcov h2

theorem covered_single {op : EditOp}
    (hop : ∀ d1 pm, op.apply d = .ok (d1, pm) → NormalBut anchor pm.blockIndex d1)
    (h : applyOpsTracked [op] d sel = .ok (d', sel', dirty)) : Covered anchor d' dirty := by
  obtain ⟨d1, pm, sel1, rest, hap, hrest, rfl⟩ := applyOpsTracked_cons h
  obtain ⟨rfl, -, rfl⟩ := applyOpsTracked_nil hrest
  exact .of_normalBut (hop _ _ hap) (by simp)

theorem LocalAt.normalBut {op : EditOp} (hlocal : LocalAt i op) (hd : docNormal anchor d = true)
    (h : op.apply d = .ok (d', pm)) : NormalBut anchor pm.blockIndex d' := by
  obtain ⟨hpm, hfix⟩ := hlocal d d' pm h
  rw [hpm]
  intro j b hb hj
  rw [hfix j hj] at hb
  exact NormalBut.of_docNormal hd i j b hb hj

theorem localAt_replaceBlock (i : Nat) (old new : Block) : LocalAt i (.replaceBlock i old new) := by
  intro d d' pm h
  simp only [EditOp.apply] at h
  cases hb : d.blocks[i]? with
  | none =>
    simp [applyReplaceBlock, Document.expectBlock, Document.block, hb] at h
  | some b =>
    obtain ⟨pre, post, rfl, rfl⟩ := exists_mid hb
    rw [applyReplaceBlock_mid] at h
    cases h
    refine ⟨rfl, ?_⟩
    rw [← replaceBlock_mid pre post b]
    exact localAt_replace _ _ _

theorem applyRemoveBlock_normal (hd : docNormal anchor d = true)
    (h : applyRemoveBlock d i = .ok (d', pm)) : ∀ b ∈ d'.blocks, blockNormal anchor b = true := by
  obtain ⟨-, hall⟩ := docNormal_iff.1 hd
  cases hi : d.blocks[i]? with
  | none =>
    have hlen := List.getElem?_eq_none_iff.1 hi
    rw [applyRemoveBlock, if_neg (by simpa [Document.blockCount] using hlen)] at h
    cases h
    exact hall
  | some c =>
    obtain ⟨pre, post, rfl, rfl⟩ := exists_mid hi
    by_cases hne : pre ++ post = []
    · simp only [append_eq_nil_iff] at hne
      obtain ⟨rfl, rfl⟩ := hne
      cases h
      exact hall
    · rw [applyRemoveBlock_mid _ hne] at h
      cases h
      intro b hb
      refine hall b ?_
      simp only [mem_append, mem_cons] at hb ⊢
      exact hb.imp_right .inr

theorem applyMergeBlocks_normalBut {a c : Block} (hd : docNormal anchor d = true)
    (ha : d.blocks[i]? = some a) (hc : d.blocks[i + 1]? = some c)
    (h : applyMergeBlocks d (i + 1) = .ok (d', pm)) : NormalBut anchor pm.blockIndex d' := by
  obtain ⟨-, hall⟩ := docNormal_iff.1 hd
  obtain ⟨pre, mid, post, rfl, rfl, hmid⟩ := exists_mid_two ha hc (Nat.lt_succ_self i)
  obtain rfl : mid = [] := length_eq_zero_iff.1 (by omega)
  obtain ⟨pm', heq, hpm, -⟩ := applyMergeBlocks_mid pre post a c
  rw [nil_append, heq] at h
  cases h
  rw [hpm]
  exact .of_parts (fun b hb => hall b (by simp [hb])) (fun b hb => hall b (by simp [hb]))

theorem deletionOps_covered (hanchor : anchor (StyledRun.plain []) = true)
    (hd : docNormal anchor d = true) (hops : DeletionOps d selection ops)
    (h : applyOpsTracked ops d sel = .ok (d', sel', dirty)) : Covered anchor d' dirty := by
  cases hops with
  | nothing =>
    obtain ⟨rfl, -, -⟩ := applyOpsTracked_nil h
    exact .of_docNormal hd _
  | selection _ => exact (buildDeleteSelection_covered hanchor hd h).2
  | remove hb _ _ =>
    refine covered_single (fun _ _ hop => ?_) h
    exact .of_all (applyRemoveBlock_normal hd hop) _
  | clear _ =>
    exact covered_single (fun _ _ hop => (localAt_replaceBlock _ _ _).normalBut hd hop) h
  | merge ha hc _ _ =>
    refine covered_single (fun _ _ hop => ?_) h
    exact applyMergeBlocks_normalBut hd ha hc hop
  | @char i o _ _ _ _ _ =>
    refine covered_single (fun d1 pm hop => ?_) h
    have hlt : (⟨i, o⟩ : DocPosition) < ⟨i, o + 1⟩ := .inr ⟨rfl, Nat.lt_succ_self o⟩
    obtain ⟨hpm, hfit⟩ := applyDeleteRange_fit hanchor hd hlt hop
    rw [hpm]
    exact hfit.1

/-- An edit other than a toggle over a selection covers every block it leaves unnormalized. -/
theorem resolve_covered (hanchor : anchor (StyledRun.plain []) = true) {action : EditAction}
    (hd : docNormal anchor d = true) (hops : resolve d selection action pending = .ok ops)
    (htoggle : ∀ style, action = .toggleInlineStyle style → selection.isCollapsed = true)
    (h : applyOpsTracked ops d sel = .ok (d', sel', dirty)) : Covered anchor d' dirty := by
  cases action with
  | insertText text => exact resolveInsert_covered hanchor hd hops h
  | deleteBackward =>
    cases hops
    exact deletionOps_covered hanchor hd resolveDeleteBackward_ops h
  | deleteForward =>
    cases hops
    exact deletionOps_covered hanchor hd resolveDeleteForward_ops h
  | deleteSelection =>
    cases hops
    exact deletionOps_covered hanchor hd resolveDeleteSelection_ops h
  | splitBlock =>
    cases hops
    exact resolveSplitBlock_covered hanchor hd h
  | toggleInlineStyle style =>
    rcases resolveToggleStyle_cases hops with rfl | ⟨-, start, stop, hfound, rfl⟩ | ⟨hcol, -⟩
    · obtain ⟨rfl, -, -⟩ := applyOpsTracked_nil h
      exact .of_docNormal hd _
    · obtain ⟨hs, he⟩ := findLinkBoundaries_block hfound
      refine covered_single (fun _ _ hop => ?_) h
      exact (localAt_toggle start stop (hs.trans he.symm) style).normalBut hd hop
    · rw [htoggle style rfl] at hcol
      cases hcol
  | setBlockType kind =>
    cases hops
    rcases resolveSetBlockType_cases d selection kind with heq | ⟨b, new, -, -, -, -, -, -, -, heq⟩
    · rw [heq] at h
      obtain ⟨rfl, -, -⟩ := applyOpsTracked_nil h
      exact .of_docNormal hd _
    · rw [heq] at h
      exact covered_single (fun _ _ hop => (localAt_setBlockType _ _ _).normalBut hd hop) h

end Anchor

/-! ## Toggles over a selection -/

/-- Every block after the first that a toggle over `[start, stop)` reaches is normalized after
it. -/
def toggleKeepsNormal (d : Document) (start stop : DocPosition) (style : InlineStyle) : Bool :=
  (List.range' (start.blockIndex + 1) (stop.blockIndex - start.blockIndex)).all fun i =>
    match d.block i with
    | none => true
    | some b =>
      match b.runs with
      | none => true
      | some rs =>
        toggleSeams (toggledStyle (allTextHasStyle d start stop style) style)
          (blockRange start stop i b).2 rs

theorem toggleKeepsNormal_iff : toggleKeepsNormal d start stop style = true ↔
      ∀ i b rs, start.blockIndex < i → i ≤ stop.blockIndex → d.blocks[i]? = some b → b.runs = some rs →
        toggleSeams (toggledStyle (allTextHasStyle d start stop style) style)
          (blockRange start stop i b).2 rs = true := by
  simp only [toggleKeepsNormal, all_eq_true, mem_range'_1]
  constructor
  · intro h i b rs hlo hhi hb hruns
    have := h i (by omega)
    simpa only [Document.block, hb, hruns] using this
  · intro h i hi
    split
    · rfl
    rename_i b hb
    split
    · rfl
    · rename_i rs hruns
      exact h i b rs (by omega) (by omega) hb hruns

/-- A block after the first that a toggle reaches stays normalized exactly when the seams of its
restyled prefix do. -/
theorem toggledBlock_normal_iff {i : Nat} {b : Block} {rs : List StyledRun}
    (hb : blockNormal anchor b = true) (hruns : b.runs = some rs) (hi : start.blockIndex < i)
    (hanchor : anchor = anyAnchor ∨ (blockRange start stop i b).2 ≤ b.charLen)
    (shouldRemove : Bool) (style : InlineStyle) :
    blockNormal anchor (toggledBlock start stop shouldRemove style i b) = true ↔
      toggleSeams (toggledStyle shouldRemove style) (blockRange start stop i b).2 rs = true := by
  have hfirst : (blockRange start stop i b).1 = 0 := if_neg (by omega)
  have hrs : runsNormal anchor rs = true := by rwa [blockNormal_of_runs hruns] at hb
  have hlen : b.charLen = Block.runsLen rs := by simp [Block.charLen, hruns]
  simp only [toggledBlock, hruns, hfirst, Nat.le_zero_eq]
  by_cases hn : (blockRange start stop i b).2 = 0
  · rw [hn]
    refine iff_of_true hb ?_
    cases rs <;> simp [toggleSeams]
  · rw [if_neg hn, blockNormal_setRuns (isInline_of_runs hruns)]
    rcases hanchor with rfl | hle
    · exact toggledRuns_normal_iff hrs shouldRemove style (Nat.pos_of_ne_zero hn)
    rcases runsNormal_iff.1 hrs with ⟨r, rfl, hr, -⟩ | ⟨hne, hclean⟩
    · -- the range of a block without text is empty
      have hzero : Block.runsLen [r] = 0 := by simp [Block.runsLen, charLen_eq, hr]
      omega
    · exact toggledRuns_clean_iff hclean hne shouldRemove style (Nat.pos_of_ne_zero hn)

/-- A toggle over a selection reports its first block alone, so the others decide. -/
theorem toggle_covered_iff {d' : Document} {sel sel' : DocSelection} {dirty : List Nat}
    (hd : docNormal anchor d = true) (hlt : start < stop)
    (hanchor : anchor = anyAnchor ∨ d.isValidPosition stop = true)
    (h : applyOpsTracked [.toggleInlineStyle start stop style] d sel = .ok (d', sel', dirty)) :
    Covered anchor d' dirty ↔ toggleKeepsNormal d start stop style = true := by
  obtain ⟨-, hall⟩ := docNormal_iff.1 hd
  obtain ⟨d1, pm, sel1, rest, hop, hrest, rfl⟩ := applyOpsTracked_cons h
  obtain ⟨rfl, -, rfl⟩ := applyOpsTracked_nil hrest
  obtain ⟨d2, heq, hblocks⟩ := applyToggleInlineStyle_eq hlt style d
  simp only [EditOp.apply, heq] at hop
  cases hop
  have hrange : ∀ i b, d.blocks[i]? = some b →
      anchor = anyAnchor ∨ (blockRange start stop i b).2 ≤ b.charLen := by
    intro i b hb
    refine hanchor.imp_right fun hv => ?_
    obtain ⟨c, hc, hle⟩ := isValidPosition_iff.1 hv
    by_cases hi : i = stop.blockIndex
    · subst hi
      rw [hb] at hc
      cases hc
      simpa [blockRange] using hle
    · simp [blockRange, hi]
  rw [toggleKeepsNormal_iff]
  constructor
  · intro hcov i b rs hlo hhi hb hruns
    have hbn := hall b (mem_of_getElem? hb)
    refine (toggledBlock_normal_iff hbn hruns hlo (hrange i b hb) _ _).1 ?_
    refine hcov i _ ?_ (by simp; omega)
    rw [hblocks i, if_pos (by omega), hb]
    rfl
  · intro hkeep i b' hb' hi
    simp only [mem_singleton] at hi
    rw [hblocks i] at hb'
    split at hb'
    · obtain ⟨b, hb, rfl⟩ := Option.map_eq_some_iff.1 hb'
      have hbn := hall b (mem_of_getElem? hb)
      cases hruns : b.runs with
      | none => simpa only [toggledBlock, hruns] using hbn
      | some rs =>
        have hlo : start.blockIndex < i := by omega
        exact (toggledBlock_normal_iff hbn hruns hlo (hrange i b hb) _ _).2
          (hkeep i b rs hlo (by omega) hb hruns)
    · exact hall b' (mem_of_getElem? hb')

/-- The step is no style toggle over a selection, or one that leaves the seams of every block
after the first distinct. -/
def KeepsNormal (s : EditorState) : Action → Prop
  | .edit (.toggleInlineStyle style) =>
    s.selection.isCollapsed = true ∨
      toggleKeepsNormal s.document s.selection.start s.selection.endPos style = true
  | _ => True

section Steps

variable {anchor : StyledRun → Bool}
variable {s s' : EditorState}

theorem applyAction_normal_iff (hanchor : anchor (StyledRun.plain []) = true)
    {action : EditAction} (hd : docNormal anchor s.document = true)
    (hvalid : anchor = anyAnchor ∨ SelectionValid s.document s.selection)
    (h : s.applyAction action = .ok s') :
    docNormal anchor s'.document = true ↔ KeepsNormal s (.edit action) := by
  obtain ⟨ops, hops, ⟨hne, hcommit⟩ | ⟨rfl, hdoc, -⟩⟩ := applyAction_ok h
  · obtain ⟨d, sel, dirty, htr, hiff⟩ := commitOps_normal_iff hanchor hcommit
    rw [hiff]
    by_cases htoggle : ∀ style, action = .toggleInlineStyle style → s.selection.isCollapsed = true
    · refine iff_of_true (resolve_covered hanchor hd hops htoggle htr) ?_
      cases action with
      | toggleInlineStyle style => exact .inl (htoggle style rfl)
      | _ => trivial
    · push Not at htoggle
      obtain ⟨style, rfl, hcol⟩ := htoggle
      have hcol' : s.selection.isCollapsed = false := by simpa using hcol
      rcases resolveToggleStyle_cases hops with rfl | ⟨hcol2, -⟩ | ⟨-, rfl⟩
      · exact absurd rfl hne
      · exact absurd hcol2 hcol
      · have hlt := DocSelection.start_lt_endPos hcol'
        have hstop := hvalid.imp_right fun hv => hv.endPos
        simp [toggle_covered_iff hd hlt hstop htr, KeepsNormal, hcol']
  · rw [hdoc]
    refine iff_of_true hd ?_
    -- an empty batch for a toggle means that the selection is a caret
    cases action with
    | toggleInlineStyle style =>
      by_cases hcol : s.selection.isCollapsed = true
      · exact .inl hcol
      have hlt := DocSelection.start_lt_endPos (by simpa using hcol)
      have hse : s.selection.start ≠ s.selection.endPos := by
        intro heq
        rw [heq, DocPosition.lt_iff] at hlt
        omega
      simp only [resolve, resolveToggleStyle, hcol, if_neg hse] at hops
      cases hops
    | _ => trivial

theorem pasteSlice_normal (hanchor : anchor (StyledRun.plain []) = true) {slice : DocSlice}
    (hd : docNormal anchor s.document = true) (h : s.pasteSlice slice = .ok s') :
    docNormal anchor s'.document = true := by
  unfold EditorState.pasteSlice at h
  split at h
  · cases h
    exact hd
  simp only [bind, Except.bind] at h
  split at h
  · cases h
  split at h
  · cases h
  · cases h
    exact normalize_normal hanchor _

theorem paste_normal (hanchor : anchor (StyledRun.plain []) = true) {text : Text}
    (hd : docNormal anchor s.document = true)
    (hvalid : anchor = anyAnchor ∨ SelectionValid s.document s.selection)
    (h : s.paste text = .ok s') : docNormal anchor s'.document = true := by
  have hplain : s.pastePlainText text = .ok s' → docNormal anchor s'.document = true := by
    intro hp
    unfold EditorState.pastePlainText at hp
    split at hp
    · exact (applyAction_normal_iff hanchor hd hvalid hp).2 trivial
    · exact pasteSlice_normal hanchor hd hp
  unfold EditorState.paste at h
  split at h
  · split at h
    · exact pasteSlice_normal hanchor hd h
    · exact hplain h
  · exact hplain h

theorem undo_normal (hanchor : anchor (StyledRun.plain []) = true)
    (hd : docNormal anchor s.document = true) (h : s.undo = .ok s') :
    docNormal anchor s'.document = true := by
  unfold EditorState.undo at h
  split at h
  · cases h
    exact hd
  · simp only [bind, Except.bind] at h
    split at h
    · cases h
    · cases h
      exact normalize_normal hanchor _

theorem redo_normal (hanchor : anchor (StyledRun.plain []) = true)
    (hd : docNormal anchor s.document = true) (h : s.redo = .ok s') :
    docNormal anchor s'.document = true := by
  unfold EditorState.redo at h
  split at h
  · cases h
    exact hd
  · simp only [bind, Except.bind] at h
    split at h
    · cases h
    · cases h
      exact normalize_normal hanchor _

theorem cut_normal (hanchor : anchor (StyledRun.plain []) = true) (hd : docNormal anchor s.document = true)
    (hvalid : anchor = anyAnchor ∨ SelectionValid s.document s.selection) (h : s.cut = .ok s') :
    docNormal anchor s'.document = true := by
  have hcopy : docNormal anchor s.copy.document = true := by rwa [copy_document]
  unfold EditorState.cut at h
  split at h
  · cases h
    exact hcopy
  · refine (applyAction_normal_iff hanchor hcopy ?_ h).2 trivial
    rwa [copy_document, copy_selection]

end Steps

/-- One step from a normalized document leads to a normalized document exactly when it meets
`KeepsNormal`. -/
theorem perform_normal_iff (alnum : Char → Bool) {s s' : EditorState} {a : Action}
    (hd : docNormal anyAnchor s.document = true) (h : s.perform alnum a = .ok s') :
    docNormal anyAnchor s'.document = true ↔ KeepsNormal s a := by
  have hany : anyAnchor (StyledRun.plain []) = true := rfl
  cases a with
  | edit action => exact applyAction_normal_iff hany hd (.inl rfl) h
  | undo => exact iff_of_true (undo_normal hany hd h) trivial
  | redo => exact iff_of_true (redo_normal hany hd h) trivial
  | cut => exact iff_of_true (cut_normal hany hd (.inl rfl) h) trivial
  | paste text => exact iff_of_true (paste_normal hany hd (.inl rfl) h) trivial
  | copy =>
    cases h
    exact iff_of_true (by rwa [copy_document]) trivial
  | drag pos =>
    cases h
    refine iff_of_true ?_ trivial
    unfold EditorState.handleDrag
    split <;> exact hd
  | move | select | selectAll | click | doubleClick | tripleClick | linkClicked | focus | blur =>
    cases h
    exact iff_of_true hd trivial

def selectedPair (first second : List StyledRun) : EditorState :=
  { EditorState.fromDocument ⟨[.paragraph first, .paragraph second]⟩ with
    selection := ⟨⟨0, 0⟩, ⟨1, Block.runsLen second⟩⟩ }

theorem perform_normal_iff_bold_pair :
    ∃ s', (selectedPair [.plain ['a']] [.plain ['b', 'c']]).perform Char.isAlphanum
        (.edit (.toggleInlineStyle InlineStyle.bold)) = .ok s' ∧ docNormal anyAnchor s'.document = true := by
  refine ⟨_, rfl, (perform_normal_iff Char.isAlphanum
    (s := selectedPair [.plain ['a']] [.plain ['b', 'c']])
    (a := .edit (.toggleInlineStyle InlineStyle.bold)) (by decide) rfl).2 ?_⟩
  exact Or.inr (by decide)

/-- Making a selection bold whose second paragraph is half bold already leaves two equal adjacent
runs there. -/
theorem toggle_leaves_equal_neighbours : docNormal anyAnchor
        (selectedPair [.plain ['a']] [.plain ['b'], ⟨['c'], InlineStyle.bold, none⟩]).document = true ∧
    ∃ s', (selectedPair [.plain ['a']] [.plain ['b'], ⟨['c'], InlineStyle.bold, none⟩]).perform
        Char.isAlphanum (.edit (.toggleInlineStyle InlineStyle.bold)) = .ok s' ∧
      docNormal anyAnchor s'.document = false :=
  ⟨by decide, _, rfl, by decide⟩

end Ratatoskr.Rte

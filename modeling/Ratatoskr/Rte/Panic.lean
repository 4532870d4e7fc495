import Ratatoskr.Rte.Paste
import Ratatoskr.Rte.History

/-!
# Rte.Panic

Which actions panic, read off the state before them.

* `wouldPanic` : the action needs a block that the deletion of the selection takes away, or it styles
  an empty range.
* `applyAction_isOk_iff`, `paste_isOk_iff`, `cut_isOk` : an edit, a paste or a cut is performed exactly
  when it would not panic.
-/

namespace Ratatoskr.Rte

open List
open EditorState

variable {i k : Nat} {rs : List StyledRun} {b : Block} {start stop p : DocPosition} {d : Document}
  {t : InlineStyle} {sel : DocSelection} {s : EditorState} {action : EditAction}

theorem resolveOffsetLoop_lt {remaining o : Nat}
    (h : Block.resolveOffsetLoop i remaining rs = some (k, o)) : i ≤ k ∧ k < i + rs.length := by
  induction rs generalizing i remaining with
  | nil => cases h
  | cons r rs ih =>
    rw [Block.resolveOffsetLoop] at h
    split at h
    · cases h
      simp
    · have := ih h
      simp only [length_cons]
      omega

theorem resolveOffset_lt {offset o : Nat} (hruns : b.runs = some rs)
    (h : b.resolveOffset offset = some (k, o)) : k < rs.length := by
  rw [Block.resolveOffset, hruns] at h
  simpa using (resolveOffsetLoop_lt h).2

theorem vecGet_of_lt {α : Type} {v : List α} (h : i < v.length) : vecGet v i = .ok (v.get ⟨i, h⟩) := by
  simp [vecGet, h]

theorem resolveStyleAt_isOk (d : Document) (p : DocPosition) : ∃ style, resolveStyleAt d p = .ok style := by
  unfold resolveStyleAt
  split
  · exact ⟨_, rfl⟩
  split
  · exact ⟨_, rfl⟩
  rename_i rs hruns
  split
  · exact ⟨_, rfl⟩
  split
  · exact ⟨_, rfl⟩
  rename_i k o hres
  have hk := resolveOffset_lt hruns hres
  simp only [vecGet_of_lt hk]
  split
  · rw [vecGet_of_lt (show k - 1 < rs.length by omega)]
    exact ⟨_, rfl⟩
  · exact ⟨_, rfl⟩

theorem linkSpanStart_le (rs : List StyledRun) (href : Text) (i : Nat) : linkSpanStart rs href i ≤ i := by
  induction i with
  | zero => exact Nat.le_refl 0
  | succ i ih =>
    rw [linkSpanStart]
    split
    · omega
    · exact Nat.le_refl _

theorem linkSpanEnd_bounds (rs : List StyledRun) (href : Text) (fuel : Nat) (h : i < rs.length) :
    i ≤ linkSpanEnd rs href fuel i ∧ linkSpanEnd rs href fuel i < rs.length := by
  induction fuel generalizing i with
  | zero => exact ⟨Nat.le_refl i, h⟩
  | succ fuel ih =>
    rw [linkSpanEnd]
    split
    · rename_i hnext
      have := ih hnext.1
      omega
    · exact ⟨Nat.le_refl i, h⟩

theorem linkAnchor_isOk (o : Nat) (hk : k < rs.length) :
    ∃ found, linkAnchor rs k o = .ok found ∧ ∀ anchor ∈ found, anchor.1 < rs.length := by
  unfold linkAnchor
  simp only [vecGet_of_lt hk, bind, Except.bind]
  split
  · exact ⟨_, rfl, by simpa using hk⟩
  split
  · rw [vecGet_of_lt (show k - 1 < rs.length by omega)]
    refine ⟨_, rfl, ?_⟩
    intro anchor hanchor
    obtain ⟨href, -, rfl⟩ := Option.map_eq_some_iff.1 hanchor
    omega
  · exact ⟨none, rfl, by simp⟩

theorem findLinkBoundaries_isOk (d : Document) (p : DocPosition) :
    ∃ range, findLinkBoundaries d p = .ok range := by
  unfold findLinkBoundaries
  split
  · exact ⟨_, rfl⟩
  split
  · exact ⟨_, rfl⟩
  rename_i rs hruns
  split
  · exact ⟨_, rfl⟩
  split
  · exact ⟨_, rfl⟩
  rename_i k o hres
  obtain ⟨found, hfound, hlt⟩ := linkAnchor_isOk o (resolveOffset_lt hruns hres)
  simp only [hfound, bind, Except.bind]
  split
  · exact ⟨_, rfl⟩
  rename_i i href
  have hi : i < rs.length := hlt (i, href) rfl
  have hstart := linkSpanStart_le rs href i
  have hend := linkSpanEnd_bounds rs href rs.length hi
  have hrange : vecRange rs (linkSpanStart rs href i)
      (linkSpanEnd rs href rs.length i + 1) = .ok () :=
    if_pos ⟨by omega, by omega⟩
  simp only [hrange]
  exact ⟨_, rfl⟩

def typedStyle (d : Document) (sel : DocSelection) (pending : InlineStyle) : InlineStyle :=
  if InlineStyle.isEmpty pending then
    if sel.isCollapsed then
      match resolveStyleAt d sel.focus with
      | .ok style => style
      | .error _ => InlineStyle.empty
    else styleAtPosition d (postDeletePosition d sel)
  else pending

/-- The style that text typed into a run list takes over. -/
def inheritedStyle (runs : List StyledRun) (offset : Nat) : InlineStyle :=
  if runs.isEmpty then InlineStyle.empty else (runStyleLoop offset 0 runs).getD (lastStyle runs)

theorem runStyleAt_eq (d : Document) (p : DocPosition) : runStyleAt d p =
      inheritedStyle (((d.blocks[p.blockIndex]?).bind Block.runs).getD []) p.offset := by
  unfold runStyleAt Document.block
  cases (d.blocks[p.blockIndex]?).bind Block.runs with
  | none => rfl
  | some rs => rfl

/-- Typing panics without a block to type into, and when an empty text is to be styled. -/
def typingPanics (d : Document) (sel : DocSelection) (pending : InlineStyle) (text : Text) : Bool :=
  (landingBlock d sel).isNone ||
    (text.isEmpty && typedStyle d sel pending !=
      inheritedStyle (remainingRuns d sel) (caretTarget d sel).offset)

theorem run_toggle_isOk (d : Document) (h : start < stop) (m : InlineStyle) :
    ∃ d', EditOp.run (.toggleInlineStyle start stop m) d = .ok d' := by
  obtain ⟨d', hd', -⟩ := applyToggleInlineStyle_eq h m d
  exact ⟨d', run_ok hd'⟩

theorem toggles_isOk (h : start < stop) (bits : List InlineStyle) (d : Document) :
    ∃ d', applyOps (bits.map (.toggleInlineStyle start stop ·)) d = .ok d' := by
  induction bits generalizing d with
  | nil => exact ⟨d, rfl⟩
  | cons m bits ih =>
    obtain ⟨d1, hd1⟩ := run_toggle_isOk d h m
    obtain ⟨d2, hd2⟩ := ih d1
    refine ⟨d2, ?_⟩
    rw [map_cons, applyOps_cons, hd1]
    exact hd2

theorem run_insertText_isOk (hb : d.blocks[p.blockIndex]? = some b) (text : Text) :
    ∃ d', EditOp.run (.insertText p text) d = .ok d' := by
  obtain ⟨pre, post, rfl, hlen⟩ := exists_mid hb
  obtain ⟨i, o⟩ := p
  obtain rfl : pre.length = i := hlen
  cases hruns : b.runs with
  | some rs =>
    have hap : EditOp.apply (.insertText ⟨pre.length, o⟩ text) ⟨pre ++ b :: post⟩ = _ :=
      applyInsertText_inline hruns o text
    exact ⟨_, run_ok hap⟩
  | none =>
    have hap : EditOp.apply (.insertText ⟨pre.length, o⟩ text) ⟨pre ++ b :: post⟩ = _ :=
      applyInsertText_atomic hruns o text
    exact ⟨_, run_ok hap⟩

theorem iter_symmetricDifference {s : InlineStyle}
    (h : InlineStyle.isEmpty (InlineStyle.symmetricDifference s t) = false) :
    InlineStyle.iter (InlineStyle.symmetricDifference s t) ≠ [] := by
  revert s t
  decide

theorem symmetricDifference_isEmpty {s : InlineStyle} :
    InlineStyle.isEmpty (InlineStyle.symmetricDifference s t) = true ↔ s = t := by
  revert s t
  decide

theorem insertOps_isOk_iff (target d : Document) (p : DocPosition) (style : InlineStyle) (text : Text) :
    (∃ d', applyOps (insertOps target p style text) d = .ok d') ↔
      (∃ b, d.blocks[p.blockIndex]? = some b) ∧ (text ≠ [] ∨ style = runStyleAt target p) := by
  constructor
  · rintro ⟨d', h⟩
    obtain ⟨bits, hops, hpos⟩ := insertOps_ok h
    obtain ⟨d1, hrun, -⟩ := applyOps_cons_ok h
    refine ⟨run_insertText_block hrun, ?_⟩
    by_contra hno
    simp only [not_or, not_not] at hno
    have hdiff : InlineStyle.isEmpty
        (InlineStyle.symmetricDifference style (runStyleAt target p)) = false := by
      rw [Bool.eq_false_iff]
      exact fun hempty => hno.2 (symmetricDifference_isEmpty.1 hempty)
    have hbits : bits ≠ [] := by
      rintro rfl
      simp [insertOps, hdiff, iter_symmetricDifference hdiff] at hops
    have := hpos hbits
    rw [hno.1] at this
    exact Nat.lt_irrefl 0 this
  · rintro ⟨⟨b, hb⟩, htext⟩
    obtain ⟨d1, hd1⟩ := run_insertText_isOk hb text
    unfold insertOps
    rw [applyOps_cons, hd1]
    split
    · exact ⟨d1, rfl⟩
    rename_i hdiff
    rw [symmetricDifference_isEmpty] at hdiff
    refine toggles_isOk ?_ _ d1
    have hpos : 0 < textLen text :=
      length_pos_iff.2 (htext.resolve_right hdiff)
    exact .inr ⟨rfl, by simp only; omega⟩

theorem resolveInsert_eq (hv : SelectionValid d sel) (text : Text) (pending : InlineStyle) :
    ∃ target, resolveInsert d sel text pending =
        .ok (selectionOps d sel ++ insertOps target (caretTarget d sel) (typedStyle d sel pending) text) ∧
      runStyleAt target (caretTarget d sel) =
        inheritedStyle (remainingRuns d sel) (caretTarget d sel).offset := by
  obtain ⟨d1, hd1, -, hruns⟩ := selectionOps_remains hv
  refine ⟨d1, ?_, by rw [runStyleAt_eq, hruns]⟩
  cases hcol : sel.isCollapsed with
  | true =>
    simp only [selectionOps, hcol] at hd1
    cases hd1
    obtain ⟨style, hstyle⟩ := resolveStyleAt_isOk d sel.focus
    simp only [resolveInsert, hcol, if_true, typedStyle, selectionOps, caretTarget, hstyle]
    split <;> rfl
  | false =>
    simp only [selectionOps, hcol, Bool.false_eq_true, if_false] at hd1
    simp only [resolveInsert, hcol, hd1, typedStyle, selectionOps, caretTarget]
    rfl

theorem typing_isOk_iff (hv : SelectionValid d sel) (text : Text) (pending : InlineStyle) :
    (∃ ops d', resolveInsert d sel text pending = .ok ops ∧ applyOps ops d = .ok d') ↔
      typingPanics d sel pending text = false := by
  obtain ⟨target, hops, hstyle⟩ := resolveInsert_eq hv text pending
  obtain ⟨d1, hd1, -, -⟩ := selectionOps_remains hv
  have hl : Landed id d sel d1 := selectionOps_landed id hv hd1
  have hinsert := insertOps_isOk_iff target d1 (caretTarget d sel) (typedStyle d sel pending) text
  rw [hstyle, ← hl.isSome_iff] at hinsert
  have hfine : typingPanics d sel pending text = false ↔
      (landingBlock d sel).isSome = true ∧ (text ≠ [] ∨ typedStyle d sel pending =
        inheritedStyle (remainingRuns d sel) (caretTarget d sel).offset) := by
    simp only [typingPanics, Bool.or_eq_false_iff, Bool.and_eq_false_iff, bne_eq_false_iff_eq,
      isEmpty_eq_false_iff, Option.isNone_eq_false_iff]
  rw [hfine, ← hinsert]
  constructor
  · rintro ⟨ops, d', hops', happ⟩
    rw [hops] at hops'
    cases hops'
    obtain ⟨d1', hd1', hrest⟩ := applyOps_append_ok happ
    rw [hd1] at hd1'
    cases hd1'
    exact ⟨d', hrest⟩
  · rintro ⟨d', hd'⟩
    refine ⟨_, d', hops, ?_⟩
    rw [applyOps_append, hd1]
    exact hd'

/-! ## The other edits -/

/-- The style toggle covers no text: the caret is in a link without text. -/
def togglePanics (d : Document) (sel : DocSelection) : Bool :=
  match toggleRange d sel with
  | some (start, stop) => !decide (start < stop)
  | none => false

/-- The action panics. -/
def editPanics (d : Document) (sel : DocSelection) (pending : InlineStyle) : EditAction → Bool
  | .insertText text => typingPanics d sel pending text
  | .splitBlock => (landingBlock d sel).isNone
  | .toggleInlineStyle _ => togglePanics d sel
  | .deleteBackward | .deleteForward | .deleteSelection | .setBlockType _ => false

theorem applyOps_single_isOk {op : EditOp} (h : ∃ d', op.run d = .ok d') :
    ∃ d', applyOps [op] d = .ok d' := by
  obtain ⟨d', hd'⟩ := h
  refine ⟨d', ?_⟩
  rw [applyOps_cons, hd']
  rfl

theorem deletion_isOk {ops : List EditOp} (hv : SelectionValid d sel)
    (hops : DeletionOps d sel ops) : ∃ d', applyOps ops d = .ok d' := by
  cases hops with
  | nothing => exact ⟨d, rfl⟩
  | selection hcol =>
    obtain ⟨d1, hd1, -, -⟩ := selectionOps_remains hv
    simp only [selectionOps, hcol] at hd1
    exact ⟨d1, hd1⟩
  | remove hb hatomic hlen =>
    have hlen := hlen hv
    obtain ⟨pre, post, rfl, rfl⟩ := exists_mid hb
    have hne : pre ++ post ≠ [] := by
      intro hnil
      have := congrArg List.length hnil
      simp only [length_append, length_cons, length_nil] at this hlen
      omega
    exact ⟨_, run_ok (applyRemoveBlock_mid _ hne)⟩
  | clear hb =>
    apply applyOps_single_isOk
    obtain ⟨blocks⟩ := d
    obtain rfl : blocks = [_] := hb
    exact ⟨_, run_ok (applyReplaceBlock_mid [] [] _ Block.emptyParagraph)⟩
  | merge ha hc hia hic =>
    obtain ⟨pre, mid, post, rfl, rfl, hmid⟩ := exists_mid_two ha hc (Nat.lt_succ_self _)
    obtain rfl : mid = [] := length_eq_zero_iff.1 (by omega)
    obtain ⟨pm, heq, -⟩ := applyMergeBlocks_mid pre post _ _
    exact ⟨_, run_ok heq⟩
  | char hb hruns ho =>
    refine ⟨_, run_delete_blocks hb hb ?_ ?_ _⟩
    · exact DocPosition.lt_iff.2 (.inr ⟨rfl, Nat.lt_succ_self _⟩)
    · intro hatomic
      rw [isInline_of_runs hruns] at hatomic
      cases hatomic

theorem run_splitBlock_isOk (hb : d.blocks[p.blockIndex]? = some b) :
    ∃ d', EditOp.run (.splitBlock p) d = .ok d' ∧ d'.blocks.length = d.blocks.length + 1 := by
  obtain ⟨pre, post, rfl, hlen⟩ := exists_mid hb
  obtain ⟨i, o⟩ := p
  obtain rfl : pre.length = i := hlen
  refine ⟨_, run_ok (applySplitBlock_mid pre post b o), ?_⟩
  simp
  omega

theorem run_setBlockType_isOk (hb : d.blocks[i]? = some b) (old new : BlockKind) :
    ∃ d', EditOp.run (.setBlockType i old new) d = .ok d' := by
  obtain ⟨pre, post, rfl, rfl⟩ := exists_mid hb
  exact ⟨_, run_ok (applySetBlockType_mid pre post b new)⟩

theorem run_insertBlock_isOk_iff (d : Document) (i : Nat) (b : Block) :
    (∃ d', EditOp.run (.insertBlock i b) d = .ok d') ↔ i ≤ d.blocks.length := by
  by_cases hi : i ≤ d.blocks.length
  · simp [EditOp.run, EditOp.apply, applyInsertBlock, Document.insertBlock, vecInsert, hi, bind,
      Except.bind, Except.map, pure, Except.pure]
  · simp [EditOp.run, EditOp.apply, applyInsertBlock, Document.insertBlock, vecInsert, hi, Except.map]

theorem splitOps_isOk_iff (block : Block) (d : Document) (p : DocPosition) :
    (∃ d', applyOps (splitOps block p) d = .ok d') ↔ ∃ b, d.blocks[p.blockIndex]? = some b := by
  have hsplit : (∃ d', applyOps [.splitBlock p] d = .ok d') ↔
      ∃ b, d.blocks[p.blockIndex]? = some b := by
    constructor
    · rintro ⟨d', h⟩
      exact run_splitBlock_block (applyOps_singleton h)
    · rintro ⟨b, hb⟩
      obtain ⟨d', hd', -⟩ := run_splitBlock_isOk hb
      exact applyOps_single_isOk ⟨d', hd'⟩
  cases block with
  | image =>
    have hiff : (∃ b, d.blocks[p.blockIndex]? = some b) ↔ p.blockIndex + 1 ≤ d.blocks.length := by
      constructor
      · rintro ⟨b, hb⟩
        exact (List.getElem?_eq_some_iff.1 hb).1
      · intro hlt
        exact ⟨_, getElem?_eq_getElem hlt⟩
    rw [hiff, ← run_insertBlock_isOk_iff d (p.blockIndex + 1) Block.emptyParagraph]
    constructor
    · rintro ⟨d', h⟩
      exact ⟨d', applyOps_singleton h⟩
    · exact applyOps_single_isOk
  | listItem ordered indentLevel runs =>
    simp only [splitOps]
    split
    · constructor
      · rintro ⟨d', h⟩
        have hrun := applyOps_singleton h
        cases hb : d.blocks[p.blockIndex]? with
        | some b => exact ⟨b, rfl⟩
        | none =>
          simp [EditOp.run, EditOp.apply, applySetBlockType, Document.expectBlock, Document.block,
            hb, Except.map] at hrun
      · rintro ⟨b, hb⟩
        exact applyOps_single_isOk (run_setBlockType_isOk hb _ _)
    · exact hsplit
  | heading level runs =>
    simp only [splitOps]
    split
    · constructor
      · rintro ⟨d', h⟩
        obtain ⟨d1, hd1, -⟩ := applyOps_cons_ok h
        exact run_splitBlock_block hd1
      · rintro ⟨b, hb⟩
        obtain ⟨d1, hd1, hlen⟩ := run_splitBlock_isOk hb
        have hlt := (List.getElem?_eq_some_iff.1 hb).1
        obtain ⟨d2, hd2⟩ := applyOps_single_isOk (run_setBlockType_isOk
          (getElem?_eq_getElem (show p.blockIndex + 1 < d1.blocks.length by omega))
          (.heading level) .paragraph)
        refine ⟨d2, ?_⟩
        rw [applyOps_cons, hd1]
        exact hd2
    · exact hsplit
  | paragraph | blockQuote | horizontalRule => exact hsplit

theorem split_isOk_iff (hv : SelectionValid d sel) : (∃ d', applyOps (resolveSplitBlock d sel) d = .ok d') ↔
      (landingBlock d sel).isNone = false := by
  obtain ⟨b, hb, -⟩ := isValidPosition_iff.1 (caretTarget_valid hv)
  obtain ⟨d1, hd1, -, -⟩ := selectionOps_remains hv
  have hl : Landed id d sel d1 := selectionOps_landed id hv hd1
  rw [resolveSplitBlock_eq hb, Option.isNone_eq_false_iff, hl.isSome_iff,
    ← splitOps_isOk_iff b d1 (caretTarget d sel), applyOps_append, hd1]
  rfl

theorem toggle_isOk_iff (style : InlineStyle) :
    (∃ ops d', resolveToggleStyle d sel style = .ok ops ∧ applyOps ops d = .ok d') ↔
      togglePanics d sel = false := by
  have hsingle : ∀ start stop, (∃ d', applyOps [.toggleInlineStyle start stop style] d = .ok d') ↔
      start < stop := by
    intro start stop
    constructor
    · rintro ⟨d', h⟩
      exact run_toggle_lt (applyOps_singleton h)
    · intro hlt
      exact applyOps_single_isOk (run_toggle_isOk d hlt style)
  cases hcol : sel.isCollapsed with
  | true =>
    obtain ⟨range, hrange⟩ := findLinkBoundaries_isOk d sel.focus
    simp only [resolveToggleStyle, togglePanics, toggleRange, hcol, if_true, hrange, bind, Except.bind]
    cases range with
    | none => simp [pure, Except.pure, applyOps]
    | some range =>
      obtain ⟨start, stop⟩ := range
      simp only [pure, Except.pure, Except.ok.injEq, exists_eq_left', Bool.not_eq_false',
        decide_eq_true_eq, exists_and_left]
      exact hsingle start stop
  | false =>
    have hlt := DocSelection.start_lt_endPos hcol
    have hne : sel.start ≠ sel.endPos := by
      intro heq
      rw [heq, DocPosition.lt_iff] at hlt
      omega
    simp only [resolveToggleStyle, togglePanics, toggleRange, hcol, Bool.false_eq_true, if_false,
      hne, Except.ok.injEq, exists_and_left, exists_eq_left', Bool.not_eq_false', decide_eq_true_eq]
    exact hsingle _ _

theorem setBlockType_isOk (d : Document) (sel : DocSelection) (kind : BlockKind) :
    ∃ d', applyOps (resolveSetBlockType d sel kind) d = .ok d' := by
  rcases resolveSetBlockType_cases d sel kind with hops | ⟨b, new, hb, -, -, -, -, -, -, hops⟩
  · rw [hops]
    exact ⟨d, rfl⟩
  · rw [hops]
    exact applyOps_single_isOk (run_setBlockType_isOk hb _ _)

/-! ## Actions -/

theorem applyAction_isOk_iff_ops : (∃ s', s.applyAction action = .ok s') ↔
      ∃ ops d', resolve s.document s.selection action s.pendingStyle = .ok ops ∧
        applyOps ops s.document = .ok d' := by
  constructor
  · rintro ⟨s', h⟩
    obtain ⟨ops, hops, ⟨-, hcommit⟩ | ⟨hnil, -⟩⟩ := applyAction_ok h
    · obtain ⟨d, -, -, -, happ, -⟩ := commitOps_ok hcommit
      exact ⟨ops, d, hops, happ⟩
    · subst hnil
      exact ⟨[], s.document, hops, rfl⟩
  · rintro ⟨ops, d', hops, happ⟩
    simp only [applyAction, hops, bind, Except.bind]
    split
    · split
      · split <;> exact ⟨_, rfl⟩
      · exact ⟨s, rfl⟩
    · exact commitOps_isOk happ

theorem applyAction_isOk_iff (hv : SelectionValid s.document s.selection) :
    (∃ s', s.applyAction action = .ok s') ↔
      editPanics s.document s.selection s.pendingStyle action = false := by
  rw [applyAction_isOk_iff_ops]
  have hdel : ∀ ops, DeletionOps s.document s.selection ops →
      ((∃ ops' d', (Except.ok ops : Except String (List EditOp)) = .ok ops' ∧
        applyOps ops' s.document = .ok d') ↔ false = false) := by
    intro ops hops
    obtain ⟨d', hd'⟩ := deletion_isOk hv hops
    exact iff_of_true ⟨ops, d', rfl, hd'⟩ rfl
  cases action with
  | insertText text => exact typing_isOk_iff hv text s.pendingStyle
  | deleteBackward => exact hdel _ resolveDeleteBackward_ops
  | deleteForward => exact hdel _ resolveDeleteForward_ops
  | deleteSelection => exact hdel _ resolveDeleteSelection_ops
  | splitBlock =>
    simp only [resolve, Except.ok.injEq, exists_and_left, exists_eq_left']
    exact split_isOk_iff hv
  | toggleInlineStyle style => exact toggle_isOk_iff style
  | setBlockType kind =>
    obtain ⟨d', hd'⟩ := setBlockType_isOk s.document s.selection kind
    exact iff_of_true ⟨_, d', rfl, hd'⟩ rfl

theorem cut_isOk (hv : SelectionValid s.document s.selection) : ∃ s', s.cut = .ok s' := by
  unfold cut
  split
  · exact ⟨_, rfl⟩
  · rw [applyAction_isOk_iff (by rw [copy_document, copy_selection]; exact hv)]
    rfl

/-- The slice a pasted text stands for; a single line is typed instead. -/
def pastedSlice (s : EditorState) (text : Text) : Option DocSlice :=
  let plain := if !text.contains '\n' && !text.contains '\r' then none
    else some (plainTextSlice text)
  match s.internalClipboard with
  | some clip => if clip.plainText = text then some clip.slice else plain
  | none => plain

theorem paste_eq (s : EditorState) (text : Text) : s.paste text =
      match pastedSlice s text with
      | some slice => s.pasteSlice slice | none => s.applyAction (.insertText text) := by
  unfold paste pastedSlice pastePlainText
  cases s.internalClipboard with
  | none =>
    simp only
    split <;> rfl
  | some clip =>
    simp only
    split
    · rfl
    · split <;> rfl

/-- The action panics; undo and redo never do along a run that meets `Recorded`. -/
def wouldPanic (s : EditorState) : Action → Bool
  | .edit action => editPanics s.document s.selection s.pendingStyle action
  | .paste text =>
    match pastedSlice s text with
    | some slice => pastePanics s.document s.selection slice
    | none => typingPanics s.document s.selection s.pendingStyle text
  | _ => false

theorem paste_isOk_iff (text : Text) (hd : s.document.blocks ≠ [])
    (hv : SelectionValid s.document s.selection) :
    (∃ s', s.paste text = .ok s') ↔ wouldPanic s (.paste text) = false := by
  rw [paste_eq]
  simp only [wouldPanic]
  split
  · exact pasteSlice_isOk_iff _ hd hv
  · exact applyAction_isOk_iff hv

end Ratatoskr.Rte

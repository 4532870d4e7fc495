import Ratatoskr.Rte.Commit

/-!
# Rte.Resolve

What the rules engine can answer. Each action resolves to one of a few batches, listed here with
the facts about the document that the rules have checked; later proofs split on these cases and
never unfold a rule.

* `DeletionOps` : the batches of the three delete actions.
* `resolveInsert_cases`, `resolveToggleStyle_cases`, `resolveSetBlockType_cases`.
-/

namespace Ratatoskr.Rte

inductive DeletionOps (d : Document) (sel : DocSelection) : List EditOp → Prop
  | nothing : DeletionOps d sel []
  | selection (h : sel.isCollapsed = false) : DeletionOps d sel (buildDeleteSelection d sel)
  | remove {i : Nat} {b : Block} (hb : d.blocks[i]? = some b) (hatomic : b.isInlineBlock = false)
      (hlen : SelectionValid d sel → 1 < d.blocks.length) : DeletionOps d sel [.removeBlock i b]
  | clear {b : Block} (hb : d.blocks = [b]) :
      DeletionOps d sel [.replaceBlock 0 b Block.emptyParagraph]
  | merge {i : Nat} {a c : Block} (ha : d.blocks[i]? = some a) (hc : d.blocks[i + 1]? = some c)
      (hia : a.isInlineBlock = true) (hic : c.isInlineBlock = true) :
      DeletionOps d sel [.mergeBlocks (i + 1) c a.charLen]
  | char {i o : Nat} {b : Block} {rs : List StyledRun} (hb : d.blocks[i]? = some b)
      (hruns : b.runs = some rs) (ho : o < b.charLen) :
      DeletionOps d sel [.deleteRange ⟨i, o⟩ ⟨i, o + 1⟩
        ⟨[blockWithRunsLike b (extractDeletedRuns rs o (o + 1))], none⟩]

section Deletion

variable {d : Document} {sel : DocSelection}

theorem isAtomicBlock_eq_true {b : Block} : b.isAtomicBlock = true ↔ b.isInlineBlock = false := by
  simp [Block.isAtomicBlock]

theorem resolveMergeBackward_ops (i : Nat) : DeletionOps d sel (resolveMergeBackward d i) := by
  unfold resolveMergeBackward
  cases i with
  | zero => exact .nothing
  | succ i =>
    rw [if_neg (Nat.succ_ne_zero i)]
    split
    · rename_i c a hc ha
      split
      · exact .nothing
      · rename_i hinl
        simp only [Bool.or_eq_true, Bool.not_eq_true', not_or, Bool.not_eq_false] at hinl
        exact .merge ha hc hinl.2 hinl.1
    · exact .nothing

theorem resolveMergeForward_ops (i : Nat) : DeletionOps d sel (resolveMergeForward d i) := by
  unfold resolveMergeForward
  simp only
  split
  · exact .nothing
  split
  · rename_i c a hc ha
    split
    · exact .nothing
    · rename_i hinl
      simp only [Bool.or_eq_true, Bool.not_eq_true', not_or, Bool.not_eq_false] at hinl
      exact .merge ha hc hinl.2 hinl.1
  · exact .nothing

theorem removeOrClearBlock_ops {i : Nat} (h : blockIsAtomicAt d i = true) :
    DeletionOps d sel [removeOrClearBlock d i] := by
  obtain ⟨b, hb, hatomic⟩ : ∃ b, d.blocks[i]? = some b ∧ b.isInlineBlock = false := by
    unfold blockIsAtomicAt Document.block at h
    cases hb : d.blocks[i]? with
    | none => simp [hb] at h
    | some b => exact ⟨b, rfl, isAtomicBlock_eq_true.1 (by simpa [hb] using h)⟩
  have hlt := (List.getElem?_eq_some_iff.1 hb).1
  simp only [removeOrClearBlock, Document.block, hb, Document.blockCount]
  split
  · have hi : i = 0 := by omega
    subst hi
    refine .clear ?_
    obtain ⟨c, hc⟩ := List.length_eq_one_iff.1 (show d.blocks.length = 1 by omega)
    rw [hc] at hb ⊢
    simpa using hb
  · exact .remove hb hatomic fun _ => by omega

theorem resolveDeleteBackward_ops : DeletionOps d sel (resolveDeleteBackward d sel) := by
  unfold resolveDeleteBackward
  by_cases hcol : sel.isCollapsed = true
  · simp only [hcol, Bool.not_true, Bool.false_eq_true, if_false]
    split
    · exact .nothing
    rename_i hne
    split
    · rename_i hoff
      split
      · rename_i prev hprev
        split
        · rename_i hatomic
          refine .remove hprev (isAtomicBlock_eq_true.1 hatomic) ?_
          -- the caret is in the block after the one removed
          intro hv
          have hi := (valid_iff_blockLen.1 hv.2).1
          omega
        · exact resolveMergeBackward_ops _
      · exact resolveMergeBackward_ops _
    · rename_i hoff
      split
      · rename_i hatomic
        exact removeOrClearBlock_ops hatomic
      unfold resolveDeleteCharBackward
      split
      · exact .nothing
      rename_i b hb
      split
      · exact .nothing
      rename_i rs hruns
      simp only
      split
      · exact .nothing
      rename_i ho
      obtain ⟨o, ho'⟩ := Nat.exists_eq_succ_of_ne_zero hoff
      have hfocus : sel.focus = ⟨sel.focus.blockIndex, o + 1⟩ := by
        rw [DocPosition.eq_iff]
        exact ⟨rfl, ho'⟩
      rw [hfocus] at hb ho ⊢
      exact .char hb hruns (by simpa using ho)
  · simp only [hcol]
    exact .selection (by simpa using hcol)

theorem resolveDeleteForward_ops : DeletionOps d sel (resolveDeleteForward d sel) := by
  unfold resolveDeleteForward
  by_cases hcol : sel.isCollapsed = true
  · simp only [hcol, Bool.not_true, Bool.false_eq_true, if_false]
    split
    · exact .nothing
    rename_i b hb
    split
    · exact .nothing
    split
    · split
      · rename_i next hnext
        split
        · rename_i hatomic
          refine .remove hnext (isAtomicBlock_eq_true.1 hatomic) fun _ => ?_
          have := (List.getElem?_eq_some_iff.1 hnext).1
          omega
        · exact resolveMergeForward_ops _
      · exact resolveMergeForward_ops _
    · rename_i ho
      split
      · rename_i hatomic
        exact removeOrClearBlock_ops hatomic.1
      simp only [resolveDeleteCharForward, hb]
      split
      · exact .nothing
      · rename_i rs hruns
        rw [if_neg ho]
        exact .char hb hruns (by simpa using ho)
  · simp only [hcol]
    exact .selection (by simpa using hcol)

theorem resolveDeleteSelection_ops : DeletionOps d sel (resolveDeleteSelection d sel) := by
  unfold resolveDeleteSelection
  split
  · exact .nothing
  · rename_i hcol
    exact .selection (by simpa using hcol)

end Deletion

/-! ## The other actions -/

/-- Typing: the deletion of the selection, if there is one, then the insertion. -/
theorem resolveInsert_cases {d : Document} {sel : DocSelection} {text : Text}
    {pending : InlineStyle} {ops : List EditOp} (h : resolveInsert d sel text pending = .ok ops) :
    (sel.isCollapsed = true ∧ ∃ style, ops = insertOps d sel.focus style text) ∨
      (sel.isCollapsed = false ∧ ∃ scratch style,
        applyOps (buildDeleteSelection d sel) d = .ok scratch ∧ ops = buildDeleteSelection d sel ++
          insertOps scratch (postDeletePosition d sel) style text) := by
  unfold resolveInsert at h
  split at h
  · rename_i hcol
    refine .inl ⟨hcol, ?_⟩
    simp only [bind, Except.bind] at h
    split at h
    · split at h
      · cases h
      · cases h
        exact ⟨_, rfl⟩
    · cases h
      exact ⟨_, rfl⟩
  · rename_i hcol
    refine .inr ⟨by simpa using hcol, ?_⟩
    simp only [bind, Except.bind] at h
    split at h
    · cases h
    · rename_i scratch hscratch
      cases h
      exact ⟨scratch, _, hscratch, rfl⟩

theorem findLinkBoundaries_block {d : Document} {p start stop : DocPosition}
    (h : findLinkBoundaries d p = .ok (some (start, stop))) :
    start.blockIndex = p.blockIndex ∧ stop.blockIndex = p.blockIndex := by
  unfold findLinkBoundaries at h
  split at h
  · cases h
  split at h
  · cases h
  split at h
  · cases h
  split at h
  · cases h
  simp only [bind, Except.bind] at h
  split at h
  · cases h
  split at h
  · cases h
  split at h
  · cases h
  · cases h
    exact ⟨rfl, rfl⟩

theorem resolveToggleStyle_cases {d : Document} {sel : DocSelection} {style : InlineStyle}
    {ops : List EditOp} (h : resolveToggleStyle d sel style = .ok ops) : ops = [] ∨
      (sel.isCollapsed = true ∧ ∃ start stop,
        findLinkBoundaries d sel.focus = .ok (some (start, stop)) ∧
        ops = [.toggleInlineStyle start stop style]) ∨
      (sel.isCollapsed = false ∧ ops = [.toggleInlineStyle sel.start sel.endPos style]) := by
  unfold resolveToggleStyle at h
  split at h
  · rename_i hcol
    simp only [bind, Except.bind] at h
    split at h
    · cases h
    rename_i found hfound
    split at h
    · cases h
      exact .inr (.inl ⟨hcol, _, _, hfound, rfl⟩)
    · cases h
      exact .inl rfl
  · rename_i hcol
    simp only at h
    split at h
    · cases h
      exact .inl rfl
    · cases h
      exact .inr (.inr ⟨by simpa using hcol, rfl⟩)

theorem resolveSetBlockType_cases (d : Document) (sel : DocSelection) (kind : BlockKind) :
    resolveSetBlockType d sel kind = [] ∨ ∃ b new, d.blocks[sel.focus.blockIndex]? = some b ∧ b.kind ≠ new ∧
        b.kind ≠ .horizontalRule ∧ b.kind ≠ .image ∧
        new ≠ .horizontalRule ∧ new ≠ .image ∧ new ≠ .blockQuote ∧
        resolveSetBlockType d sel kind = [.setBlockType sel.focus.blockIndex b.kind new] := by
  unfold resolveSetBlockType
  simp only
  split
  · exact .inl rfl
  rename_i b hb
  generalize (if b.kind = kind then BlockKind.paragraph else kind) = new
  split
  · exact .inl rfl
  rename_i hne
  split
  · exact .inl rfl
  rename_i hold
  split
  · exact .inl rfl
  · rename_i hnew
    simp only [not_or] at hold hnew
    exact .inr ⟨b, _, hb, hne, hold.1, hold.2, hnew.1, hnew.2.1, hnew.2.2, rfl⟩

end Ratatoskr.Rte

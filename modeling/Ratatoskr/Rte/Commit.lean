import Ratatoskr.Rte.Normal

/-!
# Rte.Commit

How a resolved batch of operations reaches the state: no operation empties a document,
`applyOpsTracked` in parts, and what `commitOps` leaves in each field.
-/

namespace Ratatoskr.Rte

open List
open EditorState

variable {i : Nat} {l dirty : List Nat} {v w : List Block} {d d' : Document}
  {deleted : DeletedContent} {pm : PosMap} {ops : List EditOp} {sel sel' : DocSelection}
  {s s' : EditorState}

theorem mem_dedupSorted : i ∈ dedupSorted l ↔ i ∈ l := by
  induction l using dedupSorted.induct with
  | case1 a rest ih =>
    rw [dedupSorted, if_pos rfl, ih]
    simp
  | case2 a b rest hne ih =>
    rw [dedupSorted, if_neg hne, mem_cons, ih]
    simp
  | case3 l h => cases l <;> simp_all [dedupSorted]

theorem mem_sortDedup : i ∈ sortDedup l ↔ i ∈ l := by
  rw [sortDedup, mem_dedupSorted, mem_insertionSort]

theorem vecInsert_ne_nil {α : Type} {v w : List α} {x : α} (h : vecInsert v i x = .ok w) : w ≠ [] := by
  unfold vecInsert at h
  split at h
  · rename_i hle
    cases h
    rw [← length_pos_iff, length_insertIdx, if_pos hle]
    omega
  · cases h

theorem insertRepeatedly_ne_nil {new : List Block} (hnew : new ≠ [] ∨ v ≠ [])
    (h : insertRepeatedly i new v = .ok w) : w ≠ [] := by
  induction new generalizing i v with
  | nil =>
    cases h
    simpa using hnew
  | cons b new ih =>
    simp only [insertRepeatedly, bind, Except.bind] at h
    split at h
    · cases h
    · rename_i v' hv'
      exact ih (.inr (vecInsert_ne_nil hv')) h

theorem removeRepeatedly_ne_nil {n : Nat} (hv : v ≠ []) (h : removeRepeatedly (i + 1) n v = .ok w) :
    w ≠ [] := by
  induction n generalizing v with
  | zero =>
    cases h
    exact hv
  | succ n ih =>
    simp only [removeRepeatedly, bind, Except.bind] at h
    split at h
    · cases h
    rename_i v' hv'
    refine ih ?_ h
    unfold vecRemove at hv'
    split at hv'
    · rename_i hlt
      cases hv'
      rw [← length_pos_iff, length_eraseIdx, if_pos hlt]
      omega
    · cases hv'

theorem replaceBlock_ne_nil (hd : d.blocks ≠ []) (i : Nat) (b : Block) :
    (d.replaceBlock i b).blocks ≠ [] := by
  simpa [Document.replaceBlock] using hd

theorem applyRestoreDeleted_ne_nil {p : DocPosition} (hd : d.blocks ≠ [])
    (h : applyRestoreDeleted d p deleted = .ok (d', pm)) : d'.blocks ≠ [] := by
  unfold applyRestoreDeleted at h
  split at h
  · cases h
  · unfold applyRestoreDeletedSingle at h
    simp only [bind, Except.bind] at h
    split at h
    · split at h
      · cases h
      · cases h
        exact replaceBlock_ne_nil hd _ _
    · split at h
      · cases h
        exact replaceBlock_ne_nil hd _ _
      · split at h
        · cases h
        · rename_i blocks hins
          cases h
          exact vecInsert_ne_nil hins
  · split at h
    · simp only [applyRestoreDeletedCross, bind, Except.bind] at h
      split at h
      · cases h
      split at h
      · cases h
      split at h
      · cases h
      · rename_i blocks hins
        cases h
        exact insertRepeatedly_ne_nil (.inl (by simp)) hins
    · simp only [applyRestoreDeletedFromAtomicStart, bind, Except.bind, pure, Except.pure] at h
      cases htail : deleted.endTail with
      | some tail =>
        simp only [htail] at h
        split at h
        · split at h
          · cases h
          · split at h
            · cases h
            · rename_i blocks hins
              cases h
              exact insertRepeatedly_ne_nil (.inl (by simp)) hins
        · split at h
          · cases h
          · rename_i blocks hins
            cases h
            exact insertRepeatedly_ne_nil (.inl (by simp)) hins
      | none =>
        simp only [htail, Bool.false_eq_true, false_and, if_false] at h
        split at h
        · cases h
        · rename_i blocks hins
          cases h
          exact insertRepeatedly_ne_nil (.inl (by simp)) hins

theorem applyDeleteRange_ne_nil {start stop : DocPosition} (hd : d.blocks ≠ [])
    (h : applyDeleteRange d start stop deleted = .ok (d', pm)) : d'.blocks ≠ [] := by
  unfold applyDeleteRange at h
  split at h
  · split at h
    · exact applyRestoreDeleted_ne_nil hd h
    · split at h
      · cases hb : d.blocks[start.blockIndex]? with
        | none =>
          simp [applySingleBlockDelete, Document.expectBlock, Document.block, hb, bind, Except.bind] at h
        | some b =>
          rename_i hle _ heq
          obtain ⟨i, s⟩ := start
          obtain ⟨j, e⟩ := stop
          subst heq
          obtain ⟨pre, post, rfl, rfl⟩ := exists_mid hb
          cases hruns : b.runs with
          | none =>
            have hatomic : b.isInlineBlock = false := by rw [← runs_isSome, hruns]; rfl
            obtain ⟨pm', heq, -⟩ := applySingleBlockDelete_atomic pre post hatomic s e
            rw [heq] at h
            cases h
            split
            · exact ensureBlock_ne_nil _
            · simp
          | some rs =>
            simp only [DocPosition.le_iff] at hle
            rw [applySingleBlockDelete_inline hruns (by omega)] at h
            cases h
            simp
      · simp only [applyCrossBlockDelete, bind, Except.bind] at h
        split at h
        · cases h
        split at h
        · cases h
        split at h
        · split at h
          · cases h
          · rename_i blocks hrem
            cases h
            exact removeRepeatedly_ne_nil (replaceBlock_ne_nil hd _ _) hrem
        · split at h
          · cases h
          · cases h
            exact ensureBlock_ne_nil _
  · cases h

theorem apply_ne_nil {op : EditOp} (hd : d.blocks ≠ []) (h : op.apply d = .ok (d', pm)) : d'.blocks ≠ [] := by
  cases op with
  | deleteRange start stop deleted => exact applyDeleteRange_ne_nil hd h
  | insertText p text =>
    simp only [EditOp.apply, applyInsertText, bind, Except.bind] at h
    split at h
    · cases h
    split at h
    · cases h
      exact hd
    · cases h
      exact replaceBlock_ne_nil hd _ _
  | splitBlock p =>
    simp only [EditOp.apply, applySplitBlock, bind, Except.bind] at h
    split at h
    · cases h
    split at h
    · cases h
    · rename_i blocks hins
      cases h
      exact vecInsert_ne_nil hins
  | mergeBlocks i saved o =>
    simp only [EditOp.apply, applyMergeBlocks] at h
    split at h
    · cases h
    split at h
    · cases h
    simp only [bind, Except.bind] at h
    split at h
    · cases h
    split at h
    · cases h
    split at h
    · cases h
    rename_i blocks hrem
    cases h
    unfold vecRemove at hrem
    split at hrem
    · rename_i hlt'
      cases hrem
      rw [← length_pos_iff, length_eraseIdx, if_pos hlt']
      omega
    · cases hrem
  | toggleInlineStyle start stop m =>
    simp only [EditOp.apply] at h
    by_cases hlt : start < stop
    · obtain ⟨d2, heq, hblocks⟩ := applyToggleInlineStyle_eq hlt m d
      rw [heq] at h
      cases h
      obtain ⟨b, hb⟩ : ∃ b, d.blocks[0]? = some b :=
        ⟨_, getElem?_eq_getElem (length_pos_iff.2 hd)⟩
      have h0 := hblocks 0
      intro hnil
      rw [hnil, hb] at h0
      split at h0 <;> simp at h0
    · simp [applyToggleInlineStyle, hlt] at h
  | setBlockType i old new =>
    simp only [EditOp.apply, applySetBlockType, bind, Except.bind] at h
    split at h
    · cases h
    · cases h
      exact replaceBlock_ne_nil hd _ _
  | setBlockAttrs i old new =>
    simp only [EditOp.apply, applySetBlockAttrs, bind, Except.bind] at h
    split at h
    · cases h
    cases h
    split
    · exact replaceBlock_ne_nil hd _ _
    · exact hd
  | insertBlock i b =>
    simp only [EditOp.apply, applyInsertBlock, Document.insertBlock, bind, Except.bind] at h
    split at h
    · cases h
    rename_i v hv
    cases h
    split at hv
    · cases hv
    · rename_i blocks hins
      cases hv
      exact vecInsert_ne_nil hins
  | removeBlock i saved =>
    cases hb : d.blocks[i]? with
    | none =>
      have hlen := List.getElem?_eq_none_iff.1 hb
      rw [EditOp.apply, applyRemoveBlock, if_neg (by simpa [Document.blockCount] using hlen)] at h
      cases h
      exact hd
    | some b =>
      obtain ⟨pre, post, rfl, rfl⟩ := exists_mid hb
      by_cases hne : pre ++ post = []
      · obtain ⟨rfl, rfl⟩ := append_eq_nil_iff.1 hne
        cases h
        exact hd
      · rw [EditOp.apply, applyRemoveBlock_mid _ hne] at h
        cases h
        exact hne
  | replaceBlock i old new =>
    simp only [EditOp.apply, applyReplaceBlock, bind, Except.bind] at h
    split at h
    · cases h
    · cases h
      exact replaceBlock_ne_nil hd _ _
  | restoreMergedBlock i saved o =>
    simp only [EditOp.apply, applyRestoreMergedBlock, bind, Except.bind] at h
    split at h
    · cases h
    split at h
    · cases h
    · rename_i blocks hins
      cases h
      exact vecInsert_ne_nil hins

theorem applyOps_ne_nil (hd : d.blocks ≠ []) (h : applyOps ops d = .ok d') : d'.blocks ≠ [] := by
  induction ops generalizing d with
  | nil =>
    cases h
    exact hd
  | cons op ops ih =>
    simp only [applyOps, bind, Except.bind] at h
    split at h
    · cases h
    · rename_i v hv
      exact ih (apply_ne_nil hd hv) h

/-! ## Applying a batch -/

theorem applyOpsTracked_nil (h : applyOpsTracked [] d sel = .ok (d', sel', dirty)) :
    d' = d ∧ sel' = sel ∧ dirty = [] := by
  cases h
  exact ⟨rfl, rfl, rfl⟩

theorem applyOpsTracked_cons {op : EditOp} (h : applyOpsTracked (op :: ops) d sel = .ok (d', sel', dirty)) :
    ∃ d1 pm sel1 rest, op.apply d = .ok (d1, pm) ∧
      applyOpsTracked ops d1 sel1 = .ok (d', sel', rest) ∧ dirty = pm.blockIndex :: rest := by
  simp only [applyOpsTracked, bind, Except.bind] at h
  split at h
  · cases h
  rename_i v hv
  obtain ⟨d1, pm⟩ := v
  split at h
  · cases h
  rename_i w hw
  obtain ⟨d2, sel2, rest⟩ := w
  cases h
  exact ⟨d1, pm, _, rest, hv, hw, rfl⟩

theorem applyOpsTracked_append {ops' : List EditOp}
    (h : applyOpsTracked (ops ++ ops') d sel = .ok (d', sel', dirty)) :
    ∃ d1 sel1 dirty1 dirty2, applyOpsTracked ops d sel = .ok (d1, sel1, dirty1) ∧
      applyOpsTracked ops' d1 sel1 = .ok (d', sel', dirty2) ∧ dirty = dirty1 ++ dirty2 := by
  induction ops generalizing d sel dirty with
  | nil => exact ⟨d, sel, [], dirty, rfl, h, rfl⟩
  | cons op ops ih =>
    simp only [cons_append, applyOpsTracked, bind, Except.bind] at h
    split at h
    · cases h
    rename_i v hv
    split at h
    · cases h
    rename_i w hw
    cases h
    obtain ⟨d1, sel1, dirty1, dirty2, h1, h2, heq⟩ := ih hw
    refine ⟨d1, sel1, v.2.blockIndex :: dirty1, dirty2, ?_, h2, by simp [heq]⟩
    simp only [applyOpsTracked, bind, Except.bind, hv, h1]
    rfl

theorem applyOpsTracked_fst (ops : List EditOp) (d : Document) (sel : DocSelection) :
    (applyOpsTracked ops d sel).map (·.1) = applyOps ops d := by
  induction ops generalizing d sel with
  | nil => rfl
  | cons op ops ih =>
    simp only [applyOpsTracked, applyOps, bind, Except.bind]
    cases hop : op.apply d with
    | error e => rfl
    | ok v =>
      obtain ⟨d1, pm⟩ := v
      simp only [← ih d1 ⟨pm.map sel.anchor, pm.map sel.focus⟩]
      cases applyOpsTracked ops d1 ⟨pm.map sel.anchor, pm.map sel.focus⟩ <;> rfl

theorem commitOps_ok (h : s.commitOps ops = .ok s') :
    ∃ d sel dirty, applyOpsTracked ops s.document s.selection = .ok (d, sel, dirty) ∧
      applyOps ops s.document = .ok d ∧ s'.document = normalizeBlocks d (sortDedup dirty) ∧
      s'.undoStack = s.undoStack.push ops s.selection s'.selection ∧
      s'.internalClipboard = s.internalClipboard := by
  simp only [EditorState.commitOps, bind, Except.bind] at h
  split at h
  · cases h
  rename_i v hv
  obtain ⟨d, sel, dirty⟩ := v
  cases h
  have hplain := applyOpsTracked_fst ops s.document s.selection
  rw [hv] at hplain
  exact ⟨d, sel, dirty, hv, hplain.symm, rfl, rfl, rfl⟩

theorem commitOps_isOk (h : applyOps ops s.document = .ok d) : ∃ s', s.commitOps ops = .ok s' := by
  have hplain := applyOpsTracked_fst ops s.document s.selection
  rw [h] at hplain
  cases htr : applyOpsTracked ops s.document s.selection with
  | error e => simp [htr, Except.map] at hplain
  | ok v => exact ⟨_, by simp only [EditorState.commitOps, htr]; rfl⟩

/-- An action that resolves to ops commits them; one that resolves to none changes neither the
document nor the selection. -/
theorem applyAction_ok {action : EditAction} (h : s.applyAction action = .ok s') :
    ∃ ops, resolve s.document s.selection action s.pendingStyle = .ok ops ∧
      ((ops ≠ [] ∧ s.commitOps ops = .ok s') ∨
        (ops = [] ∧ s'.document = s.document ∧ s'.selection = s.selection ∧
          s'.undoStack.undo = s.undoStack.undo ∧ s'.undoStack.redo = s.undoStack.redo ∧
          s'.undoStack.maxEntries = s.undoStack.maxEntries)) := by
  simp only [EditorState.applyAction, bind, Except.bind] at h
  split at h
  · cases h
  rename_i ops hops
  refine ⟨ops, hops, ?_⟩
  by_cases hnil : ops = []
  · subst hnil
    simp only [isEmpty_nil, if_true] at h
    split at h
    · split at h <;> cases h <;> simp [UndoStack.breakGroup]
    · cases h
      simp
  · left
    rw [if_neg (by simpa using hnil)] at h
    exact ⟨hnil, h⟩

end Ratatoskr.Rte

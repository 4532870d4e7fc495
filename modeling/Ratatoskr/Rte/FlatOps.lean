import Ratatoskr.Rte.Resolve

/-!
# Rte.FlatOps

Operations and their inverses on what a document says. Each lemma is a `Lib.Maps` triple between
two flat documents, so it holds whatever run structure the document has at the time: an inverse is
replayed on a normalized document, not on the one its operation left.

* `maps_*` : an operation, block by block.
* `maps_undo_*` : the inverse the undo stack replays for it.
* `maps_undo_insertText`, `triple_undo_toggle_within` : typing is undone whatever was styled since.
-/

namespace Ratatoskr.Rte

open List
open Lib (Maps Triple)
open EditorState

/-- An operation as a document transformer; the position map is dropped. -/
def EditOp.run (op : EditOp) (d : Document) : Except String Document := (op.apply d).map (·.1)

/-- The inverse of an operation, as the undo stack replays it. -/
def EditOp.rewind (op : EditOp) (d : Document) : Except String Document :=
  ((op.invertWithDoc d).apply d).map (·.1)

theorem run_ok {op : EditOp} {d d' : Document} {pm : PosMap} (h : op.apply d = .ok (d', pm)) :
    op.run d = .ok d' := by
  simp [EditOp.run, h, Except.map]

theorem rewind_ok {op : EditOp} {d d' : Document} {pm : PosMap}
    (h : (op.invertWithDoc d).apply d = .ok (d', pm)) : op.rewind d = .ok d' := by
  simp [EditOp.rewind, h, Except.map]

theorem applyOps_cons (op : EditOp) (ops : List EditOp) (d : Document) :
    applyOps (op :: ops) d = op.run d >>= applyOps ops := by
  simp only [applyOps, EditOp.run]
  cases op.apply d <;> rfl

theorem applyOps_append (ops ops' : List EditOp) (d : Document) :
    applyOps (ops ++ ops') d = applyOps ops d >>= applyOps ops' := by
  induction ops generalizing d with
  | nil => rfl
  | cons op ops ih =>
    rw [cons_append, applyOps_cons, applyOps_cons]
    cases op.run d with
    | error e => rfl
    | ok d1 => exact ih d1

theorem undoOpsLoop_append (ops ops' : List EditOp) (d : Document) :
    undoOpsLoop (ops ++ ops') d = undoOpsLoop ops d >>= undoOpsLoop ops' := by
  induction ops generalizing d with
  | nil => rfl
  | cons op ops ih =>
    simp only [cons_append, undoOpsLoop]
    cases (op.invertWithDoc d).apply d with
    | error e => rfl
    | ok v => exact ih v.1

theorem undoOps_append (ops ops' : List EditOp) (d : Document) :
    undoOps (ops ++ ops') d = undoOps ops' d >>= undoOps ops := by
  rw [undoOps, reverse_append, undoOpsLoop_append]
  rfl

theorem undoOps_singleton (op : EditOp) (d : Document) : undoOps [op] d = op.rewind d := by
  cases (op.invertWithDoc d).apply d <;> rfl

theorem undoOps_cons (op : EditOp) (ops : List EditOp) (d : Document) :
    undoOps (op :: ops) d = undoOps ops d >>= op.rewind := by
  rw [← singleton_append, undoOps_append, show undoOps [op] = op.rewind from
    funext fun d => undoOps_singleton op d]

section View

variable {φ : Type} (view : Format → φ)

theorem exists_flat_mid {d : Document} {P Q : List (FlatBlock φ)} {x : FlatBlock φ}
    (h : flat view d = P ++ x :: Q) :
    ∃ pre b post, d = ⟨pre ++ b :: post⟩ ∧ pre.map (flatBlock view) = P ∧ flatBlock view b = x ∧
      post.map (flatBlock view) = Q := by
  obtain ⟨pre, rest, hblocks, hpre, hrest⟩ := map_eq_append_iff.1 h
  obtain ⟨b, post, rfl, hb, hpost⟩ := map_eq_cons_iff.1 hrest
  exact ⟨pre, b, post, by cases d; simp_all, hpre, hb, hpost⟩

theorem exists_flat_append {d : Document} {P Q : List (FlatBlock φ)} (h : flat view d = P ++ Q) :
    ∃ pre post, d = ⟨pre ++ post⟩ ∧ pre.map (flatBlock view) = P ∧ post.map (flatBlock view) = Q := by
  obtain ⟨pre, post, hblocks, hpre, hpost⟩ := map_eq_append_iff.1 h
  exact ⟨pre, post, by cases d; simp_all, hpre, hpost⟩

theorem flat_mid (pre post : List Block) (b : Block) : flat view ⟨pre ++ b :: post⟩ =
      pre.map (flatBlock view) ++ flatBlock view b :: post.map (flatBlock view) := by
  simp [flat]

theorem flat_append (pre post : List Block) :
    flat view ⟨pre ++ post⟩ = pre.map (flatBlock view) ++ post.map (flatBlock view) := by
  simp [flat]

theorem flatBlock_splitBlockAt {b : Block} {k : InlineKind} {cs : List (Grapheme × φ)}
    (h : flatBlock view b = .text k cs) (o : Nat) :
    flatBlock view (splitBlockAt b o).1 = .text k (cs.take o) ∧
      flatBlock view (splitBlockAt b o).2 = .text k (cs.drop o) := by
  obtain ⟨hinl, rs, hruns, hcs⟩ := of_flatBlock_text view h
  simp only [splitBlockAt, hruns]
  obtain ⟨h1, h2⟩ := chars_splitRunsAtOffset view rs o
  rw [flatBlock_setRuns view _ hinl, flatBlock_setRuns view _ hinl, h, h1, h2, hcs]
  exact ⟨rfl, rfl⟩

theorem maps_splitBlock (P Q : List (FlatBlock φ)) (k : InlineKind) (cs : List (Grapheme × φ)) (o : Nat) :
    Maps (flat view) (P ++ .text k cs :: Q) (EditOp.run (.splitBlock ⟨P.length, o⟩))
      (P ++ .text k (cs.take o) :: .text k (cs.drop o) :: Q) := by
  intro d hd
  obtain ⟨pre, b, post, rfl, rfl, hb, rfl⟩ := exists_flat_mid view hd
  obtain ⟨h1, h2⟩ := flatBlock_splitBlockAt view hb o
  rw [length_map]
  refine ⟨_, run_ok (applySplitBlock_mid pre post b o), ?_⟩
  rw [flat_mid, map_cons, h1, h2]

theorem maps_mergeBlocks (P Q : List (FlatBlock φ)) (k k' : InlineKind)
    (cs ds : List (Grapheme × φ)) (saved : Block) (o : Nat) :
    Maps (flat view) (P ++ .text k cs :: .text k' ds :: Q)
      (EditOp.run (.mergeBlocks (P.length + 1) saved o)) (P ++ .text k (cs ++ ds) :: Q) := by
  intro d hd
  obtain ⟨pre, a, rest, rfl, rfl, ha, hrest⟩ := exists_flat_mid view hd
  obtain ⟨b, post, rfl, hb, rfl⟩ := map_eq_cons_iff.1 hrest
  obtain ⟨-, rs, hrs, hcs⟩ := of_flatBlock_text view ha
  obtain ⟨-, ss, hss, hds⟩ := of_flatBlock_text view hb
  rw [length_map]
  obtain ⟨pm, heq, -⟩ := applyMergeBlocks_mid pre post a b
  refine ⟨_, run_ok heq, ?_⟩
  rw [flat_mid, mergeTwoBlocks, flatBlock_blockWithRunsLike, ha, hrs, hss]
  simp [hcs, hds]

theorem maps_undo_splitBlock (P Q : List (FlatBlock φ)) (k k' : InlineKind)
    (cs ds : List (Grapheme × φ)) (o : Nat) : Maps (flat view) (P ++ .text k cs :: .text k' ds :: Q)
      (EditOp.rewind (.splitBlock ⟨P.length, o⟩)) (P ++ .text k (cs ++ ds) :: Q) :=
  maps_mergeBlocks view P Q k k' cs ds Block.emptyParagraph o

theorem maps_undo_mergeBlocks (P Q : List (FlatBlock φ)) (k : InlineKind)
    (cs : List (Grapheme × φ)) (saved : Block) (o : Nat) :
    Maps (flat view) (P ++ .text k cs :: Q) (EditOp.rewind (.mergeBlocks (P.length + 1) saved o))
      (P ++ .text k (cs.take o) :: flatBlock view saved :: Q) := by
  intro d hd
  obtain ⟨pre, a, post, rfl, rfl, ha, rfl⟩ := exists_flat_mid view hd
  obtain ⟨-, rs, hrs, hcs⟩ := of_flatBlock_text view ha
  rw [length_map]
  obtain ⟨pm, heq⟩ := applyRestoreMergedBlock_mid pre post a saved o
  refine ⟨_, rewind_ok heq, ?_⟩
  rw [flat_mid, flatBlock_blockWithRunsLike, ha, hrs]
  simp [chars_extractRunsUpTo, hcs]

/-! ## Whole blocks -/

theorem maps_setBlockType (P Q : List (FlatBlock φ)) (x : FlatBlock φ) (old new : BlockKind)
    (h : new ≠ .horizontalRule ∧ new ≠ .image) :
    Maps (flat view) (P ++ x :: Q) (EditOp.run (.setBlockType P.length old new))
      (P ++ x.convert new :: Q) := by
  intro d hd
  obtain ⟨pre, b, post, rfl, rfl, rfl, rfl⟩ := exists_flat_mid view hd
  rw [length_map]
  refine ⟨_, run_ok (applySetBlockType_mid pre post b new), ?_⟩
  rw [flat_mid, flatBlock_convertBlock view b new h]

theorem maps_undo_setBlockType (P Q : List (FlatBlock φ)) (x : FlatBlock φ) (old new : BlockKind)
    (h : old ≠ .horizontalRule ∧ old ≠ .image) :
    Maps (flat view) (P ++ x :: Q) (EditOp.rewind (.setBlockType P.length old new))
      (P ++ x.convert old :: Q) :=
  maps_setBlockType view P Q x new old h

theorem maps_insertBlock (P Q : List (FlatBlock φ)) (b : Block) :
    Maps (flat view) (P ++ Q) (EditOp.run (.insertBlock P.length b)) (P ++ flatBlock view b :: Q) := by
  intro d hd
  obtain ⟨pre, post, rfl, rfl, rfl⟩ := exists_flat_append view hd
  rw [length_map]
  exact ⟨_, run_ok (applyInsertBlock_mid pre post b), flat_mid view pre post b⟩

theorem maps_removeBlock (P Q : List (FlatBlock φ)) (x : FlatBlock φ) (saved : Block) (h : P ++ Q ≠ []) :
    Maps (flat view) (P ++ x :: Q) (EditOp.run (.removeBlock P.length saved)) (P ++ Q) := by
  intro d hd
  obtain ⟨pre, b, post, rfl, rfl, rfl, rfl⟩ := exists_flat_mid view hd
  have hne : pre ++ post ≠ [] := by
    intro hnil
    simp only [append_eq_nil_iff] at hnil
    simp [hnil.1, hnil.2] at h
  rw [length_map]
  exact ⟨_, run_ok (applyRemoveBlock_mid b hne), flat_append view pre post⟩

theorem maps_undo_insertBlock (P Q : List (FlatBlock φ)) (x : FlatBlock φ) (b : Block) (h : P ++ Q ≠ []) :
    Maps (flat view) (P ++ x :: Q) (EditOp.rewind (.insertBlock P.length b)) (P ++ Q) :=
  maps_removeBlock view P Q x b h

theorem maps_undo_removeBlock (P Q : List (FlatBlock φ)) (saved : Block) :
    Maps (flat view) (P ++ Q) (EditOp.rewind (.removeBlock P.length saved))
      (P ++ flatBlock view saved :: Q) :=
  maps_insertBlock view P Q saved

theorem maps_replaceBlock (P Q : List (FlatBlock φ)) (x : FlatBlock φ) (old new : Block) :
    Maps (flat view) (P ++ x :: Q) (EditOp.run (.replaceBlock P.length old new))
      (P ++ flatBlock view new :: Q) := by
  intro d hd
  obtain ⟨pre, b, post, rfl, rfl, -, rfl⟩ := exists_flat_mid view hd
  rw [length_map]
  exact ⟨_, run_ok (applyReplaceBlock_mid pre post b new), flat_mid view pre post new⟩

theorem maps_undo_replaceBlock (P Q : List (FlatBlock φ)) (x : FlatBlock φ) (old new : Block) :
    Maps (flat view) (P ++ x :: Q) (EditOp.rewind (.replaceBlock P.length old new))
      (P ++ flatBlock view old :: Q) :=
  maps_replaceBlock view P Q x new old

theorem maps_undo_insertText (P Q : List (FlatBlock φ)) (k : InlineKind)
    (cs : List (Grapheme × φ)) (o : Nat) (text : Text) :
    Maps (flat view) (P ++ .text k cs :: Q) (EditOp.rewind (.insertText ⟨P.length, o⟩ text))
      (P ++ .text k (cs.take o ++ cs.drop (o + textLen text)) :: Q) := by
  intro d hd
  obtain ⟨pre, b, post, rfl, rfl, hb, rfl⟩ := exists_flat_mid view hd
  obtain ⟨hinl, rs, hruns, hcs⟩ := of_flatBlock_text view hb
  rw [length_map]
  have hinv : EditOp.invertWithDoc (.insertText ⟨pre.length, o⟩ text) ⟨pre ++ b :: post⟩ =
      .deleteRange ⟨pre.length, o⟩ ⟨pre.length, o + textLen text⟩
        ⟨[.paragraph (extractRunsFromRange rs o (o + textLen text))], none⟩ := by
    simp [EditOp.invertWithDoc, EditOp.invertInner, block_mid, hruns]
  by_cases htext : textLen text = 0
  · -- nothing was typed: the empty range restores an empty fragment
    obtain ⟨pm, heq⟩ := applyRestoreDeletedSingle_inline pre post b
      (show (Block.paragraph (extractRunsFromRange rs o (o + textLen text))).isInlineBlock = true
        from rfl) o
    have happ : (EditOp.invertWithDoc (.insertText ⟨pre.length, o⟩ text) ⟨pre ++ b :: post⟩).apply
        ⟨pre ++ b :: post⟩ = .ok (⟨pre ++ b.setRuns (respliceRuns rs o
          (extractRunsFromRange rs o (o + textLen text))) :: post⟩, pm) := by
      rw [hruns] at heq
      rw [hinv, EditOp.apply, htext, Nat.add_zero, applyDeleteRange_restore _ _ (by simp)]
      rw [htext] at heq
      exact heq
    refine ⟨_, rewind_ok happ, ?_⟩
    rw [flat_mid, flatBlock_setRuns view _ hinl, hb, chars_respliceRuns]
    simp [extractRunsFromRange, chars_extractRuns, hcs, htext]
  · have happ : (EditOp.invertWithDoc (.insertText ⟨pre.length, o⟩ text) ⟨pre ++ b :: post⟩).apply
        ⟨pre ++ b :: post⟩ =
        .ok (⟨pre ++ b.setRuns (ensureRun (deleteRuns rs o (o + textLen text))) :: post⟩,
          ⟨pre.length, [⟨o, o + textLen text - o, 0⟩], none⟩) := by
      rw [hinv, EditOp.apply, applyDeleteRange_single _ _ _ (by omega)]
      exact applySingleBlockDelete_inline hruns (Nat.le_add_right _ _)
    refine ⟨_, rewind_ok happ, ?_⟩
    rw [flat_mid, flatBlock_setRuns view _ hinl, hb, chars_ensureRun,
      chars_deleteRuns view rs (Nat.le_add_right _ _), hcs]
    rfl

/-- Typing past the start of an atomic block does nothing, and neither does undoing it; at its
start the inverse would take the block away. -/
theorem maps_undo_insertText_atomic (P Q : List (FlatBlock φ)) (x : FlatBlock φ) (o : Nat)
    (text : Text) (hx : x.isText = false) (h : o ≠ 0 ∨ text = []) :
    Maps (flat view) (P ++ x :: Q) (EditOp.rewind (.insertText ⟨P.length, o⟩ text)) (P ++ x :: Q) := by
  intro d hd
  obtain ⟨pre, b, post, rfl, rfl, hb, rfl⟩ := exists_flat_mid view hd
  have hatomic : b.isInlineBlock = false := by rw [← isText_flatBlock view b, hb, hx]
  have hruns := runs_eq_none hatomic
  rw [length_map]
  have hinv : EditOp.invertWithDoc (.insertText ⟨pre.length, o⟩ text) ⟨pre ++ b :: post⟩ =
      .deleteRange ⟨pre.length, o⟩ ⟨pre.length, o + textLen text⟩
        ⟨[.paragraph [StyledRun.plain text]], none⟩ := by
    simp [EditOp.invertWithDoc, EditOp.invertInner, block_mid, hruns]
  have happ : ∃ pm, (EditOp.invertWithDoc (.insertText ⟨pre.length, o⟩ text)
      ⟨pre ++ b :: post⟩).apply ⟨pre ++ b :: post⟩ = .ok (⟨pre ++ b :: post⟩, pm) := by
    rw [hinv]
    simp only [EditOp.apply]
    by_cases htext : textLen text = 0
    · rw [htext, Nat.add_zero, applyDeleteRange_restore _ _ (by simp)]
      obtain ⟨pm, heq⟩ := applyRestoreDeletedSingle_inline pre post b
        (show (Block.paragraph [StyledRun.plain text]).isInlineBlock = true from rfl) o
      rw [hruns] at heq
      exact ⟨pm, heq⟩
    · have ho : o ≠ 0 := h.resolve_right fun htext' => htext (by simp [htext', textLen])
      rw [applyDeleteRange_single _ _ _ (by omega)]
      obtain ⟨pm, heq, -⟩ := applySingleBlockDelete_atomic pre post hatomic o (o + textLen text)
      rw [if_neg (fun hs => ho hs.1)] at heq
      exact ⟨pm, heq⟩
  obtain ⟨pm, heq⟩ := happ
  refine ⟨_, rewind_ok heq, ?_⟩
  rw [flat_mid, hb]

end View

end Ratatoskr.Rte

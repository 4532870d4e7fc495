import Ratatoskr.Lib.History
import Ratatoskr.Rte.Exact

/-!
# Rte.Paste

The batch a paste builds while it applies it. Apart from a split of the block at the caret the ops
insert and remove whole blocks, so each can be taken back.

* `Extends` : a paste in progress, with the ops recorded since.
* `pasteBlocks_ok` : a paste fails only where it splits a block that is not there, and is taken back
  exactly when the block it splits holds inline text.
-/

namespace Ratatoskr.Rte

open List
open Lib (Maps Triple Chain)
open EditorState

variable {s : EditorState} {slice : DocSlice} {d1 d : Document} {φ : Type} {sel : DocSelection}
  {t : Document × List EditOp} {caret : Option DocPosition}

section View

variable {φ : Type} (view : Format → φ)
variable {ops : List EditOp} {F G : List (FlatBlock φ)} {s : Document × List EditOp} {op : EditOp}
  {d d' : Document} {i : Nat} {b : Block} {pos : DocPosition} {slice : DocSlice}

/-- The op leads from `F` to `G`, and its inverse back. -/
def ReversibleOp (op : EditOp) (F G : List (FlatBlock φ)) : Prop :=
  Maps (flat view) F op.run G ∧ Maps (flat view) G op.rewind F

theorem chain_applyOps (h : Chain (ReversibleOp view) ops F G) : Maps (flat view) F (applyOps ops) G := by
  induction ops generalizing F with
  | nil =>
    cases h
    exact Triple.skip
  | cons op ops ih =>
    obtain ⟨H, hop, hops⟩ := h
    rw [applyOps_cons_fun]
    exact Triple.seq hop.1 (ih hops)

theorem chain_undoOps (h : Chain (ReversibleOp view) ops F G) : Maps (flat view) G (undoOps ops) F := by
  induction ops generalizing F with
  | nil =>
    cases h
    exact Triple.skip
  | cons op ops ih =>
    obtain ⟨H, hop, hops⟩ := h
    rw [undoOps_cons_fun]
    exact Triple.seq (ih hops) hop.2

/-- `t` is the paste `s` after further ops, none of them typing, each of which can be taken
back. -/
def Extends (s t : Document × List EditOp) : Prop :=
  ∃ new, t.2 = s.2 ++ new ∧ applyOps new s.1 = .ok t.1 ∧
    (∀ op ∈ new, op.isInsertText = false) ∧
    Chain (ReversibleOp view) new (flat view s.1) (flat view t.1)

theorem Extends.refl (s : Document × List EditOp) : Extends view s s :=
  ⟨[], by simp, rfl, by simp, rfl⟩

theorem Extends.trans {t u : Document × List EditOp} (h : Extends view s t)
    (h' : Extends view t u) : Extends view s u := by
  obtain ⟨new, hops, happ, hkind, hchain⟩ := h
  obtain ⟨new', hops', happ', hkind', hchain'⟩ := h'
  refine ⟨new ++ new', by rw [hops', hops, append_assoc], ?_, ?_,
    Lib.chain_append.2 ⟨_, hchain, hchain'⟩⟩
  · rw [applyOps_append, happ]
    exact happ'
  · intro op hop
    exact (mem_append.1 hop).elim (hkind op) (hkind' op)

theorem extends_op (ops : List EditOp) (hkind : op.isInsertText = false)
    (hrun : op.run d = .ok d') (hrev : ReversibleOp view op (flat view d) (flat view d')) :
    Extends view (d, ops) (d', ops ++ [op]) := by
  refine ⟨[op], rfl, ?_, by simpa using hkind, ?_⟩
  · rw [applyOps_cons, hrun]
    rfl
  · exact ⟨_, hrev, rfl⟩

theorem applyAndPush_eq (ops : List EditOp) (hrun : op.run d = .ok d') :
    applyAndPush op (d, ops) = .ok (d', ops ++ [op]) := by
  simp only [EditOp.run, Except.map] at hrun
  cases happ : op.apply d with
  | error e => simp [happ] at hrun
  | ok r =>
    rw [happ] at hrun
    cases hrun
    simp [applyAndPush, happ, bind, Except.bind, pure, Except.pure]

theorem applyAndPush_error (ops : List EditOp) {e : String} (hrun : op.run d = .error e) :
    applyAndPush op (d, ops) = .error e := by
  simp only [EditOp.run, Except.map] at hrun
  cases happ : op.apply d with
  | error e' =>
    rw [happ] at hrun
    cases hrun
    simp [applyAndPush, happ]
  | ok r => simp [happ] at hrun

theorem extends_insertBlock (pre post : List Block) (b : Block) (ops : List EditOp) (hne : pre ++ post ≠ []) :
    ∃ t, applyAndPush (.insertBlock pre.length b) (⟨pre ++ post⟩, ops) = .ok t ∧
      t.1 = ⟨pre ++ b :: post⟩ ∧ Extends view (⟨pre ++ post⟩, ops) t := by
  have hrun : EditOp.run (.insertBlock pre.length b) ⟨pre ++ post⟩ = .ok ⟨pre ++ b :: post⟩ :=
    run_ok (applyInsertBlock_mid pre post b)
  refine ⟨_, applyAndPush_eq ops hrun, rfl, extends_op view ops rfl hrun ?_⟩
  have hne' : pre.map (flatBlock view) ++ post.map (flatBlock view) ≠ [] := by
    simpa using hne
  rw [flat_append, flat_mid]
  have hforth := maps_insertBlock view (pre.map (flatBlock view)) (post.map (flatBlock view)) b
  have hback := maps_undo_insertBlock view _ _ (flatBlock view b) b hne'
  rw [length_map] at hforth hback
  exact ⟨hforth, hback⟩

theorem extends_removeBlock (pre post : List Block) (b : Block) (ops : List EditOp) (hne : pre ++ post ≠ []) :
    ∃ t, applyAndPush (.removeBlock pre.length b) (⟨pre ++ b :: post⟩, ops) = .ok t ∧
      t.1 = ⟨pre ++ post⟩ ∧ Extends view (⟨pre ++ b :: post⟩, ops) t := by
  have hrun : EditOp.run (.removeBlock pre.length b) ⟨pre ++ b :: post⟩ = .ok ⟨pre ++ post⟩ :=
    run_ok (applyRemoveBlock_mid b hne)
  refine ⟨_, applyAndPush_eq ops hrun, rfl, extends_op view ops rfl hrun ?_⟩
  have hne' : pre.map (flatBlock view) ++ post.map (flatBlock view) ≠ [] := by
    simpa using hne
  rw [flat_mid, flat_append]
  have hforth := maps_removeBlock view _ _ (flatBlock view b) b hne'
  have hback := maps_undo_removeBlock view (pre.map (flatBlock view)) (post.map (flatBlock view)) b
  rw [length_map] at hforth hback
  exact ⟨hforth, hback⟩

theorem extends_splitBlock (pre post : List Block) (b : Block) (o : Nat) (ops : List EditOp) :
    ∃ t, applyAndPush (.splitBlock ⟨pre.length, o⟩) (⟨pre ++ b :: post⟩, ops) = .ok t ∧
      t.1 = ⟨pre ++ (splitBlockAt b o).1 :: (splitBlockAt b o).2 :: post⟩ ∧
      (b.isInlineBlock = true → Extends view (⟨pre ++ b :: post⟩, ops) t) := by
  have hrun : EditOp.run (.splitBlock ⟨pre.length, o⟩) ⟨pre ++ b :: post⟩ = .ok _ :=
    run_ok (applySplitBlock_mid pre post b o)
  refine ⟨_, applyAndPush_eq ops hrun, rfl, ?_⟩
  intro hinl
  refine extends_op view ops rfl hrun ?_
  have htext : (flatBlock view b).isText = true := by rw [isText_flatBlock]; exact hinl
  obtain ⟨k, cs, hb⟩ := FlatBlock.eq_text_of_isText htext
  obtain ⟨h1, h2⟩ := flatBlock_splitBlockAt view hb o
  rw [flat_mid, flat_mid, map_cons, hb, h1, h2]
  have hforth := maps_splitBlock view (pre.map (flatBlock view)) (post.map (flatBlock view)) k cs o
  have hback := maps_undo_splitBlock view (pre.map (flatBlock view)) (post.map (flatBlock view))
    k k (cs.take o) (cs.drop o) o
  rw [length_map] at hforth hback
  rw [take_append_drop] at hback
  exact ⟨hforth, hback⟩

theorem spliceRunsIntoBlock_swap (hb : d.block i = some b) (o : Nat) (runs : List StyledRun)
    (ops : List EditOp) : ∃ nb, spliceRunsIntoBlock i o runs (d, ops) =
      if d.blockCount ≤ 1 then
        (do
          let s ← applyAndPush (.insertBlock i nb) (d, ops)
          if s.1.blockCount > 1 then
            applyAndPush (.removeBlock (i + 1) ((s.1.block (i + 1)).getD Block.emptyParagraph)) s
          else return s)
      else applyAndPush (.removeBlock i b) (d, ops) >>= applyAndPush (.insertBlock i nb) := by
  simp only [spliceRunsIntoBlock, hb]
  exact ⟨_, rfl⟩

theorem extends_splice (i o : Nat) (runs : List StyledRun) (s : Document × List EditOp) :
    ∃ t, spliceRunsIntoBlock i o runs s = .ok t ∧ t.1.blocks.length = s.1.blocks.length ∧
      Extends view s t := by
  obtain ⟨d, ops⟩ := s
  cases hb : d.blocks[i]? with
  | none =>
    refine ⟨_, ?_, rfl, .refl view _⟩
    simp [spliceRunsIntoBlock, Document.block, hb]
  | some b =>
    obtain ⟨pre, post, rfl, rfl⟩ := exists_mid hb
    obtain ⟨nb, heq⟩ := spliceRunsIntoBlock_swap (block_mid pre post b) o runs ops
    rw [heq]
    split
    · rename_i hcount
      obtain ⟨rfl, rfl⟩ : pre = [] ∧ post = [] := by
        simp only [Document.blockCount, length_append, length_cons] at hcount
        exact ⟨length_eq_zero_iff.1 (by omega), length_eq_zero_iff.1 (by omega)⟩
      obtain ⟨⟨d1, ops1⟩, hins, hd1, hext⟩ := extends_insertBlock view [] [b] nb ops (by simp)
      obtain rfl : d1 = ⟨[nb, b]⟩ := hd1
      obtain ⟨⟨d2, ops2⟩, hrem, hd2, hext'⟩ := extends_removeBlock view [nb] [] b ops1 (by simp)
      obtain rfl : d2 = ⟨[nb]⟩ := hd2
      refine ⟨_, ?_, ?_, hext.trans view hext'⟩
      · simp only [length_nil, nil_append] at hins
        simp only [length_nil, nil_append, hins]
        exact hrem
      · rfl
    · have hne : pre ++ post ≠ [] := by
        intro hnil
        have hlen := congrArg List.length hnil
        simp only [Document.blockCount, length_append, length_cons, length_nil] at *
        omega
      obtain ⟨⟨d1, ops1⟩, hrem, hd1, hext⟩ := extends_removeBlock view pre post b ops hne
      obtain rfl : d1 = ⟨pre ++ post⟩ := hd1
      obtain ⟨⟨d2, ops2⟩, hins, hd2, hext'⟩ := extends_insertBlock view pre post nb ops1 hne
      obtain rfl : d2 = ⟨pre ++ nb :: post⟩ := hd2
      refine ⟨_, ?_, ?_, hext.trans view hext'⟩
      · simp only [hrem]
        exact hins
      · simp

theorem extends_appendRuns (i : Nat) (runs : List StyledRun) (s : Document × List EditOp) :
    ∃ t, appendRunsToBlock i runs s = .ok t ∧ t.1.blocks.length = s.1.blocks.length ∧ Extends view s t := by
  unfold appendRunsToBlock
  split
  · exact ⟨s, rfl, rfl, .refl view s⟩
  · exact extends_splice view i _ _ s

theorem extends_prependRuns (i : Nat) (runs : List StyledRun) (s : Document × List EditOp) :
    ∃ t, prependRunsToBlock i runs s = .ok t ∧ t.1.blocks.length = s.1.blocks.length ∧ Extends view s t := by
  unfold prependRunsToBlock
  split
  · exact ⟨s, rfl, rfl, .refl view s⟩
  · exact extends_splice view i _ _ s

theorem extends_insertAt (b : Block) (hne : s.1.blocks ≠ []) (hi : i ≤ s.1.blocks.length) :
    ∃ t, applyAndPush (.insertBlock i b) s = .ok t ∧
      t.1.blocks.length = s.1.blocks.length + 1 ∧ Extends view s t := by
  obtain ⟨d, ops⟩ := s
  have hd : d = ⟨d.blocks.take i ++ d.blocks.drop i⟩ := by rw [take_append_drop]
  have hlen : (d.blocks.take i).length = i := by
    simp
    omega
  have happ : d.blocks.take i ++ d.blocks.drop i ≠ [] := by
    rw [take_append_drop]
    exact hne
  obtain ⟨t, ht, hdoc, hext⟩ :=
    extends_insertBlock view (d.blocks.take i) (d.blocks.drop i) b ops happ
  rw [← hd, hlen] at ht
  rw [← hd] at hext
  refine ⟨t, ht, ?_, hext⟩
  rw [hdoc, length_append, length_cons, ← Nat.add_assoc, ← length_append, take_append_drop]

theorem extends_insertBlocksAt (bs : List Block) (hne : s.1.blocks ≠ []) (hi : i ≤ s.1.blocks.length) :
    ∃ t, insertBlocksAt i bs s = .ok t ∧
      t.1.blocks.length = s.1.blocks.length + bs.length ∧ Extends view s t := by
  induction bs generalizing i s with
  | nil => exact ⟨s, rfl, rfl, .refl view s⟩
  | cons b bs ih =>
    obtain ⟨t, ht, hlen, hext⟩ := extends_insertAt view b hne hi
    have hne' : t.1.blocks ≠ [] := by
      rw [← length_pos_iff]
      omega
    obtain ⟨u, hu, hlen', hext'⟩ := ih hne' (show i + 1 ≤ t.1.blocks.length by omega)
    refine ⟨u, ?_, ?_, hext.trans view hext'⟩
    · simp only [insertBlocksAt, ht]
      exact hu
    · rw [hlen', length_cons]
      omega

theorem extends_splitAt {p : DocPosition} (hb : s.1.blocks[p.blockIndex]? = some b) :
    ∃ t, applyAndPush (.splitBlock p) s = .ok t ∧
      t.1.blocks.length = s.1.blocks.length + 1 ∧ (b.isInlineBlock = true → Extends view s t) := by
  obtain ⟨d, ops⟩ := s
  obtain ⟨pre, post, rfl, hlen⟩ := exists_mid hb
  obtain ⟨i, o⟩ := p
  obtain rfl : pre.length = i := hlen
  obtain ⟨t, ht, hdoc, hext⟩ := extends_splitBlock view pre post b o ops
  refine ⟨t, ht, ?_, hext⟩
  rw [hdoc]
  simp
  omega

/-! ## The paste strategies -/

/-- Whether pasting the slice at `pos` splits the block there. -/
def pasteSplits (pos : DocPosition) (slice : DocSlice) : Bool :=
  if slice.blocks.length = 1 ∧ slice.openStart ∧ slice.openEnd then false
  else if slice.blocks.length = 1 ∧ !slice.openStart ∧ !slice.openEnd then decide (pos.offset > 0)
  else if slice.blocks.all (!·.isInlineBlock) then decide (pos.offset > 0)
  else true

/-- What a paste at a block `b`, if there is one, comes to. -/
def PasteOk (s : Document × List EditOp) (exact : Prop)
    (r : Except String ((Document × List EditOp) × Option DocPosition)) : Prop :=
  ∃ t caret, r = .ok (t, caret) ∧ (exact → Extends view s t)

theorem pasteInlineRuns_ok (pos : DocPosition) (b : Block) (s : Document × List EditOp) :
    PasteOk view s True (pasteInlineRuns pos b s) := by
  unfold pasteInlineRuns
  split
  · exact ⟨s, none, rfl, fun _ => .refl view s⟩
  simp only
  split
  · exact ⟨s, none, rfl, fun _ => .refl view s⟩
  rename_i rs _ _
  obtain ⟨t, ht, -, hext⟩ := extends_splice view pos.blockIndex pos.offset (nonEmptyRuns rs) s
  simp only [ht]
  exact ⟨t, _, rfl, fun _ => hext⟩

theorem pasteCompleteBlocks_ok (blocks : List Block) (hne : s.1.blocks ≠ [])
    (hi : pos.blockIndex ≤ s.1.blocks.length)
    (hblock : pos.offset > 0 → ∃ b, s.1.blocks[pos.blockIndex]? = some b) :
    PasteOk view s (pos.offset > 0 → ∀ b, s.1.blocks[pos.blockIndex]? = some b →
      b.isInlineBlock = true) (pasteCompleteBlocks pos blocks s) := by
  unfold pasteCompleteBlocks
  by_cases hoff : pos.offset > 0
  · obtain ⟨b, hb⟩ := hblock hoff
    obtain ⟨t, ht, hlen, hext⟩ := extends_splitAt view hb
    obtain ⟨u, hu, -, hext'⟩ := extends_insertBlocksAt view (i := pos.blockIndex + 1) blocks
      (show t.1.blocks ≠ [] by rw [← length_pos_iff]; omega) (by omega)
    simp only [if_pos hoff, ht, hu, bind, Except.bind]
    exact ⟨u, _, rfl, fun hinl => (hext (hinl hoff b hb)).trans view hext'⟩
  · obtain ⟨u, hu, -, hext'⟩ := extends_insertBlocksAt view blocks hne hi
    simp only [if_neg hoff, hu, bind, Except.bind, pure, Except.pure]
    exact ⟨u, _, rfl, fun _ => hext'⟩

theorem pasteRest_ok (leftIdx : Nat) {insertIdx : Nat} (slice : DocSlice)
    (hi : insertIdx < s.1.blocks.length) :
    PasteOk view s True (do
      let s ← insertBlocksAt insertIdx (slice.blocks.dropLast.drop 1) s
      let rightIdx := insertIdx + (slice.blocks.dropLast.drop 1).length
      if slice.blocks.length > 1 then
        let last := slice.blocks.getLastD Block.emptyParagraph
        match last.runs with
        | some runs =>
          let s ← prependRunsToBlock rightIdx runs s
          return (s, some ⟨rightIdx, Block.runsLen runs⟩)
        | none =>
          let s ← applyAndPush (.insertBlock rightIdx last) s
          return (s, some ⟨rightIdx + 1, 0⟩)
      else return (s, some ⟨leftIdx, s.1.blockLen leftIdx⟩)) := by
  have hne : s.1.blocks ≠ [] := by
    rw [← length_pos_iff]
    omega
  obtain ⟨t, ht, hlen, hext⟩ := extends_insertBlocksAt view
    (slice.blocks.dropLast.drop 1) hne (Nat.le_of_lt hi)
  simp only [ht, bind, Except.bind]
  split
  · split
    · rename_i runs _
      obtain ⟨u, hu, -, hext'⟩ := extends_prependRuns view
        (insertIdx + (slice.blocks.dropLast.drop 1).length) runs t
      simp only [hu]
      exact ⟨u, _, rfl, fun _ => hext.trans view hext'⟩
    · have hne' : t.1.blocks ≠ [] := by
        rw [← length_pos_iff]
        omega
      obtain ⟨u, hu, -, hext'⟩ := extends_insertAt view
        (i := insertIdx + (slice.blocks.dropLast.drop 1).length)
        (slice.blocks.getLastD Block.emptyParagraph) hne' (by omega)
      simp only [hu]
      exact ⟨u, _, rfl, fun _ => hext.trans view hext'⟩
  · exact ⟨t, _, rfl, fun _ => hext⟩

theorem pasteMultiBlock_ok (slice : DocSlice) (hb : s.1.blocks[pos.blockIndex]? = some b) :
    PasteOk view s (b.isInlineBlock = true) (pasteMultiBlock pos slice s) := by
  obtain ⟨s1, hs1, hlen1, hext1⟩ := extends_splitAt view hb
  have hlt := (List.getElem?_eq_some_iff.1 hb).1
  have hne1 : s1.1.blocks ≠ [] := by
    rw [← length_pos_iff]
    omega
  simp only [pasteMultiBlock, hs1, bind, Except.bind]
  cases hruns : (slice.blocks.headD Block.emptyParagraph).runs with
  | some runs =>
    obtain ⟨s2, hs2, hlen2, hext2⟩ := extends_appendRuns view pos.blockIndex runs s1
    obtain ⟨t, caret, ht, hext⟩ := pasteRest_ok view pos.blockIndex slice
      (show pos.blockIndex + 1 < s2.1.blocks.length by omega)
    simp only [hs2, isInline_of_runs hruns]
    exact ⟨t, caret, ht, fun hinl => ((hext1 hinl).trans view hext2).trans view (hext trivial)⟩
  | none =>
    have hatomic : (slice.blocks.headD Block.emptyParagraph).isInlineBlock = false := by
      rw [← runs_isSome, hruns]
      rfl
    obtain ⟨s2, hs2, hlen2, hext2⟩ := extends_insertAt view (i := pos.blockIndex + 1)
      (slice.blocks.headD Block.emptyParagraph) hne1 (by omega)
    obtain ⟨t, caret, ht, hext⟩ := pasteRest_ok view pos.blockIndex slice
      (show pos.blockIndex + 2 < s2.1.blocks.length by omega)
    simp only [hs2, hatomic]
    exact ⟨t, caret, ht, fun hinl => ((hext1 hinl).trans view hext2).trans view (hext trivial)⟩

theorem pasteBlocks_ok (hne : s.1.blocks ≠ []) (hi : pos.blockIndex ≤ s.1.blocks.length)
    (hblock : pasteSplits pos slice = true → ∃ b, s.1.blocks[pos.blockIndex]? = some b) :
    PasteOk view s (pasteSplits pos slice = true → ∀ b, s.1.blocks[pos.blockIndex]? = some b →
      b.isInlineBlock = true) (pasteBlocks pos slice s) := by
  unfold pasteSplits at hblock ⊢
  unfold pasteBlocks
  split
  · obtain ⟨t, caret, ht, hext⟩ :=
      pasteInlineRuns_ok view pos (slice.blocks.headD Block.emptyParagraph) s
    exact ⟨t, caret, ht, fun _ => hext trivial⟩
  rename_i hopen
  rw [if_neg hopen] at hblock
  split
  · rename_i hclosed
    simp only [if_pos hclosed, decide_eq_true_eq] at hblock ⊢
    exact pasteCompleteBlocks_ok view slice.blocks hne hi hblock
  rename_i hclosed
  rw [if_neg hclosed] at hblock
  split
  · rename_i hatomic
    simp only [if_pos hatomic, decide_eq_true_eq] at hblock ⊢
    exact pasteCompleteBlocks_ok view slice.blocks hne hi hblock
  · rename_i hatomic
    rw [if_neg hatomic] at hblock
    obtain ⟨b, hb⟩ := hblock rfl
    obtain ⟨t, caret, ht, hext⟩ := pasteMultiBlock_ok view slice hb
    exact ⟨t, caret, ht, fun hinl => hext (hinl rfl b hb)⟩

theorem pasteBlocks_error (hsplit : pasteSplits pos slice = true)
    (hnone : s.1.blocks[pos.blockIndex]? = none) : ∃ e, pasteBlocks pos slice s = .error e := by
  have herr : applyAndPush (.splitBlock pos) s = .error "SplitBlock: block out of bounds" := by
    apply applyAndPush_error
    simp [EditOp.run, EditOp.apply, applySplitBlock, Document.expectBlock, Document.block, hnone,
      bind, Except.bind, Except.map]
  unfold pasteSplits at hsplit
  unfold pasteBlocks
  split
  · rename_i hopen
    simp [hopen] at hsplit
  rename_i hopen
  rw [if_neg hopen] at hsplit
  split
  · rename_i hclosed
    simp only [if_pos hclosed, decide_eq_true_eq] at hsplit
    simp only [pasteCompleteBlocks, if_pos hsplit, herr]
    exact ⟨_, rfl⟩
  · rename_i hclosed
    rw [if_neg hclosed] at hsplit
    split
    · rename_i hatomic
      simp only [if_pos hatomic, decide_eq_true_eq] at hsplit
      simp only [pasteCompleteBlocks, if_pos hsplit, herr]
      exact ⟨_, rfl⟩
    · simp only [pasteMultiBlock, herr]
      exact ⟨_, rfl⟩

end View

/-! ## Pasting a slice -/

/-- The paste has to split a block that the deletion of the selection took away. -/
def pastePanics (d : Document) (sel : DocSelection) (slice : DocSlice) : Bool :=
  !slice.blocks.isEmpty && pasteSplits (caretTarget d sel) slice && (landingBlock d sel).isNone

/-- The paste is undone exactly: merging the halves of a block needs inline text. -/
def pasteExact (d : Document) (sel : DocSelection) (slice : DocSlice) : Bool :=
  slice.blocks.isEmpty || (selectionExact d sel &&
    (!pasteSplits (caretTarget d sel) slice || (landingBlock d sel).all Block.isInlineBlock))

/-- A paste deletes the selection, pastes at the caret, and normalizes everything. -/
theorem pasteSlice_ok {s' : EditorState} (hne : slice.blocks ≠ []) (h : s.pasteSlice slice = .ok s') :
    ∃ d1 t caret, applyOps (selectionOps s.document s.selection) s.document = .ok d1 ∧
      pasteBlocks (caretTarget s.document s.selection) slice
        (d1, selectionOps s.document s.selection) = .ok (t, caret) ∧ s'.document = normalize t.1 ∧
      s'.undoStack =
        if t.2.isEmpty then s.undoStack else s.undoStack.push t.2 s.selection s'.selection := by
  unfold pasteSlice at h
  rw [if_neg (by simpa using hne)] at h
  have hops : resolveDeleteSelection s.document s.selection =
      selectionOps s.document s.selection := rfl
  have hpos : (if s.selection.isCollapsed then s.selection.focus
      else postDeletePosition s.document s.selection) = caretTarget s.document s.selection := rfl
  simp only [hops, hpos, bind, Except.bind] at h
  cases hd1 : applyOps (selectionOps s.document s.selection) s.document with
  | error e => simp [hd1] at h
  | ok d1 =>
    simp only [hd1] at h
    cases hp : pasteBlocks (caretTarget s.document s.selection) slice
        (d1, selectionOps s.document s.selection) with
    | error e => simp [hp] at h
    | ok r =>
      obtain ⟨t, caret⟩ := r
      simp only [hp] at h
      cases h
      exact ⟨d1, t, caret, rfl, hp, rfl, rfl⟩

theorem pasteSlice_isOk {r : (Document × List EditOp) × Option DocPosition}
    (hd1 : applyOps (selectionOps s.document s.selection) s.document = .ok d1)
    (hp : pasteBlocks (caretTarget s.document s.selection) slice
      (d1, selectionOps s.document s.selection) = .ok r) : ∃ s', s.pasteSlice slice = .ok s' := by
  unfold pasteSlice
  split
  · exact ⟨s, rfl⟩
  have hops : resolveDeleteSelection s.document s.selection =
      selectionOps s.document s.selection := rfl
  have hpos : (if s.selection.isCollapsed then s.selection.focus
      else postDeletePosition s.document s.selection) = caretTarget s.document s.selection := rfl
  simp only [hops, hpos, hd1, hp, bind, Except.bind]
  exact ⟨_, rfl⟩

variable {view : Format → φ}

/-- The block at the caret after the deletion is there when there is a landing block, and inline
when that one is. -/
theorem Landed.all_inline (h : Landed view d sel d1)
    (hall : (landingBlock d sel).all Block.isInlineBlock = true) :
    ∀ b, d1.blocks[(caretTarget d sel).blockIndex]? = some b → b.isInlineBlock = true := by
  intro b hb
  have hmap := h.block
  rw [hb] at hmap
  cases hland : landingBlock d sel with
  | none => simp [hland] at hmap
  | some c =>
    rw [hland] at hmap hall
    simp only [Option.map_some, Option.some.injEq] at hmap
    rw [hmap]
    simpa using hall

theorem Landed.isSome_iff (h : Landed view d sel d1) : (landingBlock d sel).isSome = true ↔
      ∃ b, d1.blocks[(caretTarget d sel).blockIndex]? = some b := by
  have hmap := congrArg Option.isSome h.block
  simp only [Option.isSome_map] at hmap
  rw [← hmap, Option.isSome_iff_exists]

theorem pasteSlice_isOk_iff (slice : DocSlice) (hd : s.document.blocks ≠ [])
    (hv : SelectionValid s.document s.selection) :
    (∃ s', s.pasteSlice slice = .ok s') ↔ pastePanics s.document s.selection slice = false := by
  by_cases hempty : slice.blocks.isEmpty = true
  · simp [pasteSlice, pastePanics, hempty]
  obtain ⟨d1, hd1, hlen, -⟩ := selectionOps_remains hv
  have hl : Landed id s.document s.selection d1 := selectionOps_landed id hv hd1
  have hne : slice.blocks ≠ [] := by simpa using hempty
  have hne1 := applyOps_ne_nil hd hd1
  constructor
  · rintro ⟨s', hs'⟩
    by_contra hpanic
    simp only [pastePanics, Bool.not_eq_false, Bool.and_eq_true] at hpanic
    obtain ⟨d1', t, caret, hd1', hp, -⟩ := pasteSlice_ok hne hs'
    rw [hd1] at hd1'
    cases hd1'
    have hnone : d1.blocks[(caretTarget s.document s.selection).blockIndex]? = none := by
      cases hb : d1.blocks[(caretTarget s.document s.selection).blockIndex]? with
      | none => rfl
      | some b =>
        have := hl.isSome_iff.2 ⟨b, hb⟩
        simp [Option.isNone_iff_eq_none.1 hpanic.2] at this
    obtain ⟨e, he⟩ := pasteBlocks_error (s := (d1, selectionOps s.document s.selection))
      hpanic.1.2 hnone
    rw [hp] at he
    cases he
  · intro hfine
    have hblock : pasteSplits (caretTarget s.document s.selection) slice = true →
        ∃ b, d1.blocks[(caretTarget s.document s.selection).blockIndex]? = some b := by
      intro hsplit
      apply hl.isSome_iff.1
      simpa [pastePanics, hempty, hsplit] using hfine
    obtain ⟨t, caret, hp, -⟩ := pasteBlocks_ok id
      (s := (d1, selectionOps s.document s.selection)) hne1 hlen hblock
    exact pasteSlice_isOk hd1 hp

/-- A paste that meets `pasteExact` is a deletion and a chain of ops that are each taken back. -/
theorem pasteSlice_extends (view : Format → φ) (hd : s.document.blocks ≠ [])
    (hv : SelectionValid s.document s.selection)
    (hd1 : applyOps (selectionOps s.document s.selection) s.document = .ok d1)
    (hne : slice.blocks ≠ []) (hexact : pasteExact s.document s.selection slice = true)
    (hp : pasteBlocks (caretTarget s.document s.selection) slice
      (d1, selectionOps s.document s.selection) = .ok (t, caret)) :
    Extends view (d1, selectionOps s.document s.selection) t := by
  have hl : Landed view s.document s.selection d1 := selectionOps_landed view hv hd1
  obtain ⟨d1', hd1', hlen, -⟩ := selectionOps_remains hv
  rw [hd1] at hd1'
  cases hd1'
  have hsplits : pasteSplits (caretTarget s.document s.selection) slice = true →
      (landingBlock s.document s.selection).all Block.isInlineBlock = true := by
    intro hsplit
    simp only [pasteExact, Bool.or_eq_true, Bool.and_eq_true, hsplit, Bool.not_true,
      Bool.false_eq_true, false_or, List.isEmpty_iff, hne] at hexact
    exact hexact.2
  have hblock : pasteSplits (caretTarget s.document s.selection) slice = true →
      ∃ b, d1.blocks[(caretTarget s.document s.selection).blockIndex]? = some b := by
    intro hsplit
    by_contra hno
    have hnone : d1.blocks[(caretTarget s.document s.selection).blockIndex]? = none := by
      rw [Option.eq_none_iff_forall_not_mem]
      intro b hb
      exact hno ⟨b, hb⟩
    obtain ⟨e, he⟩ := pasteBlocks_error (s := (d1, selectionOps s.document s.selection))
      hsplit hnone
    rw [hp] at he
    cases he
  obtain ⟨t', caret', hp', hext⟩ := pasteBlocks_ok view
    (s := (d1, selectionOps s.document s.selection)) (applyOps_ne_nil hd hd1) hlen hblock
  rw [hp] at hp'
  cases hp'
  exact hext fun hsplit => hl.all_inline (hsplits hsplit)

theorem rewinds_paste (view : Format → φ) (hd : s.document.blocks ≠ [])
    (hv : SelectionValid s.document s.selection)
    (hd1 : applyOps (selectionOps s.document s.selection) s.document = .ok d1)
    (hne : slice.blocks ≠ []) (hexact : pasteExact s.document s.selection slice = true)
    (hp : pasteBlocks (caretTarget s.document s.selection) slice
      (d1, selectionOps s.document s.selection) = .ok (t, caret)) : applyOps t.2 s.document = .ok t.1 ∧
      Maps (flat view) (flat view t.1) (undoOps t.2) (flat view s.document) := by
  obtain ⟨new, hops, happ, -, hchain⟩ := pasteSlice_extends view hd hv hd1 hne hexact hp
  have hsel : selectionExact s.document s.selection = true := by
    simp only [pasteExact, Bool.or_eq_true, Bool.and_eq_true, List.isEmpty_iff, hne, false_or] at hexact
    exact hexact.1
  rw [hops]
  constructor
  · rw [applyOps_append, hd1]
    exact happ
  · exact maps_undoOps_append view _ _ (chain_undoOps view hchain)
      (rewinds_selectionOps view hv hsel hd1)

end Ratatoskr.Rte

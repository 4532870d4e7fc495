import Ratatoskr.Rte.Canonical
import Ratatoskr.Rte.Cut

/-!
# Rte.Pasted

The text after a paste of several lines (`crates/rte/src/widget/editor_state.rs`). The paste splits
the block at the caret, puts the first line behind the left half and the last one before the right
half, and inserts a paragraph for each line in between.

* `splice_doc`, `pasteMultiBlock_doc` : the blocks a splice and a paste leave.
* `flattenedLines_normalize` : normalizing changes no text.
* `paste_lines` : the text, the caret and the undo of such a paste.
-/

namespace Ratatoskr.Rte

open List
open Lib (Maps Triple)
open EditorState

variable {d : Document} {p : DocPosition} {b : Block} {s : EditorState} {slice : DocSlice}

/-- The text up to a position: the lines before its block and the block up to its offset. -/
def Document.textBefore (d : Document) (p : DocPosition) : Text :=
  linesBefore (d.blocks.take p.blockIndex) ++
    (((d.block p.blockIndex).map Block.flattenedText).getD []).take p.offset

def Document.textAfter (d : Document) (p : DocPosition) : Text :=
  (((d.block p.blockIndex).map Block.flattenedText).getD []).drop p.offset ++
    linesAfter (d.blocks.drop (p.blockIndex + 1))

theorem textBefore_mid (pre post : List Block) (b : Block) (o : Nat) :
    Document.textBefore ⟨pre ++ b :: post⟩ ⟨pre.length, o⟩ = linesBefore pre ++ b.flattenedText.take o := by
  rw [Document.textBefore, block_mid, take_left]
  rfl

theorem textAfter_mid (pre post : List Block) (b : Block) (o : Nat) :
    Document.textAfter ⟨pre ++ b :: post⟩ ⟨pre.length, o⟩ = b.flattenedText.drop o ++ linesAfter post := by
  have hdrop : (pre ++ b :: post).drop (pre.length + 1) = post := by
    rw [append_cons, drop_left' (by rw [length_append]; rfl)]
  rw [Document.textAfter, block_mid, hdrop]
  rfl

theorem flattenedText_cut (h : d.block p.blockIndex = some b) :
    d.flattenedText = d.textBefore p ++ d.textAfter p := by
  obtain ⟨pre, post, rfl, hlen⟩ := exists_mid h
  obtain ⟨i, o⟩ := p
  obtain rfl : pre.length = i := hlen
  rw [textBefore_mid, textAfter_mid, Document.flattenedText, flattenedLines_mid]
  simp only [append_assoc]
  rw [← append_assoc (b.flattenedText.take o), take_append_drop]

theorem runsText_normalizeRuns (runs : List StyledRun) :
    Block.runsText (normalizeRuns runs) = Block.runsText runs := by
  rw [runsText_eq, chars_normalizeRuns, runsText_eq]

mutual
theorem flattenedText_normalizeBlock : (b : Block) → (normalizeBlock b).flattenedText = b.flattenedText
  | .paragraph runs => runsText_normalizeRuns runs
  | .heading _ runs => runsText_normalizeRuns runs
  | .listItem _ _ runs => runsText_normalizeRuns runs
  | .blockQuote [] => rfl
  | .blockQuote (b :: bs) => by
    rw [normalizeBlock, Block.flattenedText, Block.flattenedText, flattenedLines_cons,
      flattenedLines_cons, flattenedText_normalizeBlock b, linesAfter_normalize bs]
  | .horizontalRule => rfl
  | .image .. => rfl

theorem linesAfter_normalize : (bs : List Block) → linesAfter (normalizeChildBlocks bs) = linesAfter bs
  | [] => rfl
  | b :: bs => by
    rw [normalizeChildBlocks, linesAfter_cons, linesAfter_cons, flattenedText_normalizeBlock b,
      linesAfter_normalize bs]
end

theorem linesAfter_map_normalize (bs : List Block) : linesAfter (bs.map normalizeBlock) = linesAfter bs := by
  rw [← normalizeChildBlocks_eq_map, linesAfter_normalize]

theorem linesBefore_map_normalize (bs : List Block) :
    linesBefore (bs.map normalizeBlock) = linesBefore bs := by
  induction bs with
  | nil => rfl
  | cons b bs ih => rw [map_cons, linesBefore_cons, linesBefore_cons, ih, flattenedText_normalizeBlock]

theorem runsText_append (rs ss : List StyledRun) :
    Block.runsText (rs ++ ss) = Block.runsText rs ++ Block.runsText ss :=
  flatMap_append

theorem runsText_splice (existing runs : List StyledRun) (o : Nat) :
    Block.runsText ((splitRunsAt existing o).1.take (splitRunsAt existing o).2 ++ runs ++
        (splitRunsAt existing o).1.drop (splitRunsAt existing o).2) =
      (Block.runsText existing).take o ++ Block.runsText runs ++ (Block.runsText existing).drop o := by
  obtain ⟨A, B, hsplit, hA, hB⟩ := splitRunsAt_spec id existing o
  rw [hsplit, take_left, drop_left, runsText_append, runsText_append, runsText_eq A, hA,
    runsText_eq B, hB, map_take, map_drop, ← runsText_eq existing]

theorem splice_doc (pre post : List Block) (hb : b.isInlineBlock = true) (o : Nat)
    (runs : List StyledRun) (ops : List EditOp) :
    ∃ nb ops', spliceRunsIntoBlock pre.length o runs (⟨pre ++ b :: post⟩, ops) =
        .ok (⟨pre ++ nb :: post⟩, ops') ∧ nb.isInlineBlock = true ∧
      nb.flattenedText = b.flattenedText.take o ++ Block.runsText runs ++ b.flattenedText.drop o := by
  obtain ⟨existing, hruns⟩ := Option.isSome_iff_exists.mp (by rw [runs_isSome]; exact hb : b.runs.isSome)
  let nb := b.setRuns ((splitRunsAt existing o).1.take (splitRunsAt existing o).2 ++ runs ++
    (splitRunsAt existing o).1.drop (splitRunsAt existing o).2)
  have hinline : nb.isInlineBlock = true := isInline_of_runs (runs_setRuns hb _)
  have htext : nb.flattenedText =
      b.flattenedText.take o ++ Block.runsText runs ++ b.flattenedText.drop o := by
    rw [flattenedText_setRuns hb, runsText_splice, flattenedText_of_runs hruns]
  have hops : ∃ ops', spliceRunsIntoBlock pre.length o runs (⟨pre ++ b :: post⟩, ops) =
      .ok (⟨pre ++ nb :: post⟩, ops') := by
    simp only [spliceRunsIntoBlock, block_mid, hruns]
    split
    · rename_i hcount
      obtain ⟨rfl, rfl⟩ : pre = [] ∧ post = [] := by
        simp only [Document.blockCount, length_append, length_cons] at hcount
        exact ⟨length_eq_zero_iff.1 (by omega), length_eq_zero_iff.1 (by omega)⟩
      obtain ⟨⟨d1, ops1⟩, hins, hd1, -⟩ := extends_insertBlock id [] [b] nb ops (by simp)
      obtain rfl : d1 = ⟨[nb, b]⟩ := hd1
      obtain ⟨⟨d2, ops2⟩, hrem, hd2, -⟩ := extends_removeBlock id [nb] [] b ops1 (by simp)
      obtain rfl : d2 = ⟨[nb]⟩ := hd2
      refine ⟨ops2, ?_⟩
      simp only [length_nil, nil_append] at hins
      simp only [length_nil, nil_append]
      rw [hins]
      exact hrem
    · have hne : pre ++ post ≠ [] := by
        intro hnil
        have hlen := congrArg List.length hnil
        simp only [Document.blockCount, length_append, length_cons, length_nil] at *
        omega
      obtain ⟨⟨d1, ops1⟩, hrem, hd1, -⟩ := extends_removeBlock id pre post b ops hne
      obtain rfl : d1 = ⟨pre ++ post⟩ := hd1
      obtain ⟨⟨d2, ops2⟩, hins, hd2, -⟩ := extends_insertBlock id pre post nb ops1 hne
      obtain rfl : d2 = ⟨pre ++ nb :: post⟩ := hd2
      refine ⟨ops2, ?_⟩
      rw [hrem]
      exact hins
  obtain ⟨ops', hrun⟩ := hops
  exact ⟨nb, ops', hrun, hinline, htext⟩

def lineBlock (line : Text) : Block := .paragraph [StyledRun.plain line]

theorem flattenedText_lineBlock (line : Text) : (lineBlock line).flattenedText = line := by
  simp [lineBlock, Block.flattenedText, Block.runsText, StyledRun.plain]

theorem nonEmptyRuns_plain (line : Text) :
    nonEmptyRuns [StyledRun.plain line] = if line = [] then [] else [StyledRun.plain line] := by
  cases line <;> rfl

theorem runsText_plain (line : Text) : Block.runsText [StyledRun.plain line] = line := by
  simp [Block.runsText, StyledRun.plain]

theorem blockLen_mid (pre post : List Block) (b : Block) :
    Document.blockLen ⟨pre ++ b :: post⟩ pre.length = b.charLen := by
  rw [Document.blockLen, block_mid]
  rfl

theorem appendRuns_doc (pre post : List Block) (hb : b.isInlineBlock = true) (line : Text)
    (ops : List EditOp) :
    ∃ nb ops', appendRunsToBlock pre.length [StyledRun.plain line] (⟨pre ++ b :: post⟩, ops) =
        .ok (⟨pre ++ nb :: post⟩, ops') ∧ nb.isInlineBlock = true ∧
      nb.flattenedText = b.flattenedText ++ line := by
  rw [appendRunsToBlock, nonEmptyRuns_plain]
  by_cases hline : line = []
  · refine ⟨b, ops, ?_, hb, by rw [hline, append_nil]⟩
    rw [if_pos hline]
    rfl
  · obtain ⟨nb, ops', hrun, hinline, htext⟩ :=
      splice_doc pre post hb b.charLen [StyledRun.plain line] ops
    refine ⟨nb, ops', ?_, hinline, ?_⟩
    · rw [if_neg hline]
      rw [blockLen_mid]
      exact hrun
    · rw [htext, ← inline_flattenedText_length hb, take_length, drop_length, runsText_plain, append_nil]

theorem prependRuns_doc (pre post : List Block) (hb : b.isInlineBlock = true) (line : Text)
    (ops : List EditOp) :
    ∃ nb ops', prependRunsToBlock pre.length [StyledRun.plain line] (⟨pre ++ b :: post⟩, ops) =
        .ok (⟨pre ++ nb :: post⟩, ops') ∧ nb.isInlineBlock = true ∧
      nb.flattenedText = line ++ b.flattenedText := by
  rw [prependRunsToBlock, nonEmptyRuns_plain]
  by_cases hline : line = []
  · refine ⟨b, ops, ?_, hb, by rw [hline, nil_append]⟩
    rw [if_pos hline]
    rfl
  · obtain ⟨nb, ops', hrun, hinline, htext⟩ := splice_doc pre post hb 0 [StyledRun.plain line] ops
    refine ⟨nb, ops', ?_, hinline, ?_⟩
    · rw [if_neg hline]
      exact hrun
    · rw [htext, take_zero, drop_zero, runsText_plain, nil_append]

theorem insertBlocksAt_doc (pre post bs : List Block) (hne : pre ++ post ≠ []) (ops : List EditOp) :
    ∃ ops', insertBlocksAt pre.length bs (⟨pre ++ post⟩, ops) = .ok (⟨pre ++ (bs ++ post)⟩, ops') := by
  induction bs generalizing pre ops with
  | nil => exact ⟨ops, rfl⟩
  | cons b bs ih =>
    obtain ⟨⟨d, ops1⟩, hins, hd, -⟩ := extends_insertBlock id pre post b ops hne
    obtain rfl : d = ⟨pre ++ b :: post⟩ := hd
    have hmove : pre ++ b :: post = (pre ++ [b]) ++ post := append_cons ..
    have hlen : (pre ++ [b]).length = pre.length + 1 := by rw [length_append]; rfl
    obtain ⟨ops2, hrest⟩ := ih (pre ++ [b]) (by simp) ops1
    refine ⟨ops2, ?_⟩
    rw [insertBlocksAt, hins]
    simp only [bind, Except.bind]
    rw [hmove, ← hlen, hrest, append_assoc]
    rfl

def linesSlice (lines : List Text) : DocSlice := ⟨lines.map lineBlock, false, false⟩

/-- Both halves of the split block take an edge of the slice; the other lines stand in between. -/
theorem pasteMultiBlock_doc (pre post : List Block) (hb : b.isInlineBlock = true) (o : Nat)
    (first last : Text) (middle : List Text) (ops : List EditOp) :
    ∃ left right ops', pasteMultiBlock ⟨pre.length, o⟩ (linesSlice (first :: (middle ++ [last])))
        (⟨pre ++ b :: post⟩, ops) =
          .ok ((⟨pre ++ left :: (middle.map lineBlock ++ right :: post)⟩, ops'),
            some ⟨pre.length + 1 + middle.length, last.length⟩) ∧
      left.flattenedText = b.flattenedText.take o ++ first ∧ right.isInlineBlock = true ∧
      right.flattenedText = last ++ b.flattenedText.drop o := by
  obtain ⟨existing, hruns⟩ := Option.isSome_iff_exists.mp (by rw [runs_isSome]; exact hb : b.runs.isSome)
  obtain ⟨h1, h2⟩ := chars_splitRunsAtOffset id existing o
  have hleft : (splitBlockAt b o).1.isInlineBlock = true ∧
      (splitBlockAt b o).1.flattenedText = b.flattenedText.take o := by
    rw [splitBlockAt, hruns]
    refine ⟨isInline_of_runs (runs_setRuns hb _), ?_⟩
    rw [flattenedText_setRuns hb, runsText_eq, h1, map_take, ← runsText_eq, flattenedText_of_runs hruns]
  have hright : (splitBlockAt b o).2.isInlineBlock = true ∧
      (splitBlockAt b o).2.flattenedText = b.flattenedText.drop o := by
    rw [splitBlockAt, hruns]
    refine ⟨isInline_of_runs (runs_setRuns hb _), ?_⟩
    rw [flattenedText_setRuns hb, runsText_eq, h2, map_drop, ← runsText_eq, flattenedText_of_runs hruns]
  obtain ⟨⟨d1, ops1⟩, hsplit, hd1, -⟩ := extends_splitBlock id pre post b o ops
  obtain rfl : d1 = ⟨pre ++ (splitBlockAt b o).1 :: (splitBlockAt b o).2 :: post⟩ := hd1
  obtain ⟨left, ops2, happend, -, hltext⟩ :=
    appendRuns_doc pre ((splitBlockAt b o).2 :: post) hleft.1 first ops1
  have hmove : pre ++ left :: (splitBlockAt b o).2 :: post =
      (pre ++ [left]) ++ (splitBlockAt b o).2 :: post := append_cons ..
  have hlen : (pre ++ [left]).length = pre.length + 1 := by rw [length_append]; rfl
  obtain ⟨ops3, hinsert⟩ := insertBlocksAt_doc (pre ++ [left]) ((splitBlockAt b o).2 :: post)
    (middle.map lineBlock) (by simp) ops2
  have hmove' : (pre ++ [left]) ++ (middle.map lineBlock ++ (splitBlockAt b o).2 :: post) =
      (pre ++ [left] ++ middle.map lineBlock) ++ (splitBlockAt b o).2 :: post :=
    (append_assoc ..).symm
  have hlen' : (pre ++ [left] ++ middle.map lineBlock).length = pre.length + 1 + middle.length := by
    rw [length_append, hlen, length_map]
  obtain ⟨right, ops4, hprepend, hrinline, hrtext⟩ :=
    prependRuns_doc (pre ++ [left] ++ middle.map lineBlock) post hright.1 last ops3
  refine ⟨left, right, ops4, ?_, by rw [hltext, hleft.2], hrinline, by rw [hrtext, hright.2]⟩
  have hdropLast : (linesSlice (first :: (middle ++ [last]))).blocks.dropLast =
      lineBlock first :: middle.map lineBlock := by
    rw [linesSlice, map_cons, map_append, map_cons, map_nil, ← cons_append, dropLast_concat]
  have hlast : (linesSlice (first :: (middle ++ [last]))).blocks.getLastD Block.emptyParagraph =
      lineBlock last := by
    rw [linesSlice, map_cons, map_append, map_cons, map_nil, ← cons_append, getLastD_concat]
  have hmany : (linesSlice (first :: (middle ++ [last]))).blocks.length > 1 := by
    simp [linesSlice]
  have hhead : (linesSlice (first :: (middle ++ [last]))).blocks.headD Block.emptyParagraph =
      lineBlock first := rfl
  have hrunsLine : ∀ line, (lineBlock line).runs = some [StyledRun.plain line] := fun _ => rfl
  have hinlineLine : (lineBlock first).isInlineBlock = true := rfl
  simp only [pasteMultiBlock, hsplit, bind, Except.bind, hhead, hrunsLine, happend, hdropLast, hlast,
    if_pos hmany, hinlineLine, if_true]
  rw [hmove, ← hlen]
  simp only [drop_succ_cons, drop_zero, hinsert]
  rw [hmove', length_map, hlen, ← hlen', hprepend]
  simp only [append_assoc]
  have hlineLen : Block.runsLen [StyledRun.plain last] = last.length := by
    simp [Block.runsLen, StyledRun.charLen, StyledRun.plain, textLen]
  rfl

/-! ## The lines of a text -/

def lfText (text : Text) : Text := (replaceCrLf text).map fun c => if c = '\r' then '\n' else c

/-- The lines after the first one, each behind its newline. -/
def joinRest (lines : List Text) : Text := lines.flatMap fun line => '\n' :: line

theorem mem_lfText {text : Text} (h : '\n' ∈ text ∨ '\r' ∈ text) : '\n' ∈ lfText text := by
  induction text using replaceCrLf.induct with
  | case1 rest ih =>
    exact mem_cons_self ..
  | case2 c rest hnot ih =>
    rw [lfText, replaceCrLf, map_cons]
    · by_cases hr : c = '\r'
      · rw [if_pos hr]
        exact mem_cons_self ..
      · by_cases hn : c = '\n'
        · rw [hn]
          exact mem_cons_self ..
        · refine mem_cons_of_mem _ (ih ?_)
          rcases h with h | h
          · exact .inl ((mem_cons.mp h).resolve_left (Ne.symm hn))
          · exact .inr ((mem_cons.mp h).resolve_left (Ne.symm hr))
    · exact hnot
  | case3 => exact absurd h (by simp)

theorem intercalate_lines (first : Text) (rest : List Text) :
    ['\n'].intercalate (first :: rest) = first ++ joinRest rest := by
  induction rest generalizing first with
  | nil => simp [joinRest]
  | cons line rest ih =>
    have hstep : ['\n'].intercalate (first :: line :: rest) =
        first ++ '\n' :: ['\n'].intercalate (line :: rest) := by
      simp [List.intercalate]
    rw [hstep, ih]
    rfl

/-- A text with a line break has a first line, a last line, and those in between. -/
theorem lines_of_break {text : Text} (h : '\n' ∈ text) :
    ∃ first middle last, text.splitOn '\n' = first :: (middle ++ [last]) ∧
      text = first ++ joinRest (middle ++ [last]) := by
  obtain ⟨before, after, rfl⟩ := append_of_mem h
  have hsplit : (before ++ '\n' :: after).splitOn '\n' =
      before.splitOn '\n' ++ after.splitOn '\n' :=
    splitOnP_append_cons before after (by simp)
  have hjoin : ['\n'].intercalate ((before ++ '\n' :: after).splitOn '\n') =
      before ++ '\n' :: after := intercalate_splitOn '\n'
  rw [hsplit] at hjoin ⊢
  have hne : after.splitOn '\n' ≠ [] := splitOnP_ne_nil _ after
  have hlast := (dropLast_append_getLast hne).symm
  cases hbefore : before.splitOn '\n' with
  | nil => exact absurd hbefore (splitOnP_ne_nil _ before)
  | cons first rest =>
    have hlines : first :: rest ++ after.splitOn '\n' =
        first :: ((rest ++ (after.splitOn '\n').dropLast) ++ [(after.splitOn '\n').getLast hne]) := by
      conv_lhs => rw [hlast]
      simp
    rw [hbefore, hlines, intercalate_lines] at hjoin
    exact ⟨first, _, _, hlines, hjoin.symm⟩

theorem plainTextSlice_eq (text : Text) : plainTextSlice text = linesSlice ((lfText text).splitOn '\n') := rfl

theorem pasteBlocks_lines (pos : DocPosition) (first last : Text) (middle : List Text)
    (s : Document × List EditOp) : pasteSplits pos (linesSlice (first :: (middle ++ [last]))) = true ∧
      pasteBlocks pos (linesSlice (first :: (middle ++ [last]))) s =
        pasteMultiBlock pos (linesSlice (first :: (middle ++ [last]))) s := by
  have hmany : (linesSlice (first :: (middle ++ [last]))).blocks.length ≠ 1 := by
    simp [linesSlice]
  have hinline : (linesSlice (first :: (middle ++ [last]))).blocks.all (!·.isInlineBlock) = false := by
    simp [linesSlice, lineBlock, Block.isInlineBlock]
  constructor
  · rw [pasteSplits, if_neg (fun h => hmany h.1), if_neg (fun h => hmany h.1)]
    rfl
  · rw [pasteBlocks, if_neg (fun h => hmany h.1), if_neg (fun h => hmany h.1)]
    rfl

theorem flattenedText_normalize (hd : d.blocks ≠ []) : (normalize d).flattenedText = d.flattenedText := by
  rw [Document.flattenedText, Document.flattenedText, normalize_blocks hd]
  obtain ⟨b, bs, hblocks⟩ := exists_cons_of_ne_nil hd
  rw [hblocks, map_cons, flattenedLines_cons, flattenedLines_cons, flattenedText_normalizeBlock,
    linesAfter_map_normalize]

theorem textBefore_normalize (hd : d.blocks ≠ []) (p : DocPosition) :
    (normalize d).textBefore p = d.textBefore p := by
  have hblock : ((normalize d).block p.blockIndex).map Block.flattenedText =
      (d.block p.blockIndex).map Block.flattenedText := by
    rw [Document.block, normalize_blocks hd, getElem?_map, Option.map_map]
    exact congrArg (fun f => (d.blocks[p.blockIndex]?).map f) (funext flattenedText_normalizeBlock)
  rw [Document.textBefore, Document.textBefore, hblock, normalize_blocks hd, ← map_take,
    linesBefore_map_normalize]

theorem newline_linesBefore (bs : List Block) : '\n' :: linesBefore bs = linesAfter bs ++ ['\n'] := by
  induction bs with
  | nil => rfl
  | cons b bs ih => rw [linesBefore_cons, ih, linesAfter_cons, cons_append, append_assoc]

theorem linesBefore_append (as bs : List Block) : linesBefore (as ++ bs) = linesBefore as ++ linesBefore bs :=
  flatMap_append

theorem linesAfter_lines (lines : List Text) : linesAfter (lines.map lineBlock) = joinRest lines := by
  induction lines with
  | nil => rfl
  | cons line lines ih =>
    rw [map_cons, linesAfter_cons, ih, flattenedText_lineBlock]
    rfl

theorem joinRest_concat (lines : List Text) (last : Text) :
    joinRest (lines ++ [last]) = joinRest lines ++ '\n' :: last := by
  rw [joinRest, flatMap_append]
  exact congrArg _ (append_nil _)

theorem clampPosition_of_valid (h : d.isValidPosition p = true) : d.clampPosition p = p := by
  obtain ⟨b, hb, hoffset⟩ := isValidPosition_iff.mp h
  have hlt := (List.getElem?_eq_some_iff.mp hb).1
  have hindex : min p.blockIndex (d.blocks.length - 1) = p.blockIndex := by omega
  have hlen : d.blockLen p.blockIndex = b.charLen := by
    rw [Document.blockLen, Document.block, hb]
    rfl
  rw [Document.clampPosition, hindex, hlen, Nat.min_eq_left hoffset]

theorem pasted_text (pre post : List Block) {left right : Block} {o : Nat} {first last : Text}
    {middle : List Text} (hleft : left.flattenedText = b.flattenedText.take o ++ first)
    (hright : right.flattenedText = last ++ b.flattenedText.drop o) :
    Document.flattenedText ⟨pre ++ left :: (middle.map lineBlock ++ right :: post)⟩ =
        linesBefore pre ++ b.flattenedText.take o ++ (first ++ joinRest (middle ++ [last])) ++
          (b.flattenedText.drop o ++ linesAfter post) ∧
      Document.textBefore ⟨pre ++ left :: (middle.map lineBlock ++ right :: post)⟩
          ⟨pre.length + 1 + middle.length, last.length⟩ =
        linesBefore pre ++ b.flattenedText.take o ++ (first ++ joinRest (middle ++ [last])) := by
  constructor
  · rw [Document.flattenedText, flattenedLines_mid, linesAfter_append, linesAfter_cons, hleft, hright,
      linesAfter_lines, joinRest_concat]
    simp
  · have hblocks : pre ++ left :: (middle.map lineBlock ++ right :: post) =
        (pre ++ left :: middle.map lineBlock) ++ right :: post := by
      rw [append_assoc, cons_append]
    have hlen : pre.length + 1 + middle.length = (pre ++ left :: middle.map lineBlock).length := by
      rw [length_append, length_cons, length_map]
      omega
    rw [hblocks, hlen, textBefore_mid, hright, linesBefore_append, linesBefore_cons,
      newline_linesBefore, hleft, linesAfter_lines, joinRest_concat]
    simp

theorem pasted_caret (pre post : List Block) (left : Block) {right : Block} {last : Text} {rest : Text}
    (middle : List Text) (hinline : right.isInlineBlock = true)
    (hright : right.flattenedText = last ++ rest) :
    (normalize ⟨pre ++ left :: (middle.map lineBlock ++ right :: post)⟩).isValidPosition
      ⟨pre.length + 1 + middle.length, last.length⟩ = true := by
  refine isValidPosition_iff.mpr ⟨normalizeBlock right, ?_, ?_⟩
  · rw [normalize_blocks (by simp), getElem?_map]
    have hblocks : pre ++ left :: (middle.map lineBlock ++ right :: post) =
        (pre ++ left :: middle.map lineBlock) ++ right :: post := by
      rw [append_assoc, cons_append]
    have hlen : pre.length + 1 + middle.length = (pre ++ left :: middle.map lineBlock).length := by
      rw [length_append, length_cons, length_map]
      omega
    rw [hblocks, hlen, getElem?_append_right (Nat.le_refl _), Nat.sub_self]
    rfl
  · have hinline' : (normalizeBlock right).isInlineBlock = true := by
      rw [← isText_flatBlock id, flatBlock_normalizeBlock, isText_flatBlock]
      exact hinline
    rw [← inline_flattenedText_length hinline', flattenedText_normalizeBlock, hright, length_append]
    exact Nat.le_add_right ..

theorem push_newest {stack : UndoStack} {ops : List EditOp} (before after : DocSelection)
    (hne : ops ≠ []) (hkind : allInsertText ops = false) (hmax : 0 < stack.maxEntries) :
    ∃ gs, (stack.push ops before after).undo = gs ++ [⟨ops, before, after⟩] := by
  obtain ⟨-, -, hcases⟩ := push_cases stack before after hne
  rcases hcases with ⟨gs, last, -, hmerge, -⟩ | hpush
  · simp [canMerge, hkind] at hmerge
  · exact ⟨_, hpush.trans (drop_append_of_le_length (by omega))⟩

theorem pasteSlice_caret {q : DocPosition} {t : Document × List EditOp}
    (hcaret : s.selection = .caret p) (hne : slice.blocks ≠ [])
    (hp : pasteBlocks p slice (s.document, []) = .ok (t, some q))
    (hq : (normalize t.1).isValidPosition q = true) :
    s.pasteSlice slice = .ok { s with
      document := normalize t.1
      selection := .caret q
      undoStack := if t.2.isEmpty then s.undoStack else s.undoStack.push t.2 s.selection (.caret q)
      pendingStyle := InlineStyle.empty
      cursor := { s.cursor with targetColumn := none } } := by
  have hcol : s.selection.isCollapsed = true := by
    rw [hcaret]
    simp [DocSelection.isCollapsed, DocSelection.caret]
  have hfocus : s.selection.focus = p := by
    rw [hcaret]
    rfl
  have hdelete : resolveDeleteSelection s.document s.selection = [] := if_pos hcol
  have hclamp : clampSelection (normalize t.1) (.caret q) = .caret q := by
    rw [clampSelection, DocSelection.caret, clampPosition_of_valid hq]
  rw [pasteSlice, if_neg (by simpa using hne)]
  simp only [hcol, if_true, hfocus, hdelete, applyOps, bind, Except.bind, hp, hclamp]
  rfl

/-- A caret in an inline block stays in it, so whatever is pasted there is taken back. -/
theorem pasteExact_caret (hblock : d.block p.blockIndex = some b)
    (hinline : b.isInlineBlock = true) (slice : DocSlice) : pasteExact d (.caret p) slice = true := by
  have hcol : (DocSelection.caret p).isCollapsed = true := by
    simp [DocSelection.isCollapsed, DocSelection.caret]
  have htarget : caretTarget d (.caret p) = p := if_pos hcol
  have hend : (DocSelection.caret p).endPos = p := by
    rw [DocSelection.endPos, DocSelection.caret, ite_self]
  have hland : landingBlock d (.caret p) = some b := by
    rw [landingBlock, htarget, hend, landing, if_pos (DocPosition.le_iff.mpr (.inr ⟨rfl, Nat.le_refl _⟩))]
    exact hblock
  rw [pasteExact, selectionExact, hcol, hland, Option.all_some, hinline]
  simp

theorem pasteSlice_undo {s' : EditorState} (hcaret : s.selection = .caret p)
    (hblock : s.document.block p.blockIndex = some b) (hinline : b.isInlineBlock = true)
    (hoffset : p.offset ≤ b.charLen) (hmax : 0 < s.undoStack.maxEntries) (hne : slice.blocks ≠ [])
    (hcount : s'.document.blocks.length ≠ s.document.blocks.length) (h : s.pasteSlice slice = .ok s') :
    ∃ s'', s'.undo = .ok s'' ∧ s''.document = normalize s.document := by
  have hd : s.document.blocks ≠ [] := by
    intro hnil
    rw [Document.block, hnil] at hblock
    cases hblock
  have hv : SelectionValid s.document s.selection := by
    rw [hcaret]
    exact .caret (isValidPosition_iff.mpr ⟨b, hblock, hoffset⟩)
  have hexact : pasteExact s.document s.selection slice = true := by
    rw [hcaret]
    exact pasteExact_caret hblock hinline slice
  obtain ⟨d1, t, caret, hd1, hp, hdoc, hstack⟩ := pasteSlice_ok hne h
  obtain ⟨happ, hback⟩ := rewinds_paste id hd hv hd1 hne hexact hp
  have ht : t.1.blocks ≠ [] := applyOps_ne_nil hd happ
  have hsome : t.2 ≠ [] := by
    intro hnil
    rw [hnil] at happ
    have hsame : s.document = t.1 := Except.ok.inj happ
    rw [hdoc, normalize_blocks ht, ← hsame, length_map] at hcount
    exact hcount rfl
  have hkind := extends_not_typing (pasteSlice_extends id hd hv hd1 hne hexact hp) hsome
  obtain ⟨gs, hgs⟩ := push_newest s.selection s'.selection hsome hkind hmax
  rw [if_neg (by simpa using hsome)] at hstack
  rw [← hstack] at hgs
  obtain ⟨d0, hundo, hd0⟩ := hback s'.document (by rw [hdoc]; exact flat_normalize id ht)
  exact ⟨_, undo_eq hgs hundo, (normalize_eq_of_flat hd hd0.symm).symm⟩

variable (alnum : Char → Bool)

/-- A pasted text with a line break stands at the caret, the caret behind it, and one undo takes it
back, up to the normal form of the runs. -/
theorem paste_lines (s : EditorState) (text : Text) (p : DocPosition) (b : Block)
    (hbreak : '\n' ∈ text ∨ '\r' ∈ text)
    (hclip : ∀ clip, s.internalClipboard = some clip → clip.plainText ≠ text)
    (hcaret : s.selection = .caret p) (hblock : s.document.block p.blockIndex = some b)
    (hinline : b.isInlineBlock = true) (hoffset : p.offset ≤ b.charLen) (hmax : 0 < s.undoStack.maxEntries) :
    s.document.flattenedText = s.document.textBefore p ++ s.document.textAfter p ∧
    ∃ s' q s'', s.perform alnum (.paste text) = .ok s' ∧ s'.document.flattenedText =
        s.document.textBefore p ++ lfText text ++ s.document.textAfter p ∧
      s'.selection = .caret q ∧ s'.document.isValidPosition q = true ∧
      s'.document.textBefore q = s.document.textBefore p ++ lfText text ∧
      s'.undo = .ok s'' ∧ s''.document = normalize s.document := by
  refine ⟨flattenedText_cut hblock, ?_⟩
  obtain ⟨first, middle, last, hlines, htext⟩ := lines_of_break (mem_lfText hbreak)
  obtain ⟨pre, post, hdoc, hlen⟩ := exists_mid hblock
  have hslice : plainTextSlice text = linesSlice (first :: (middle ++ [last])) := by
    rw [plainTextSlice_eq, hlines]
  have hne : (linesSlice (first :: (middle ++ [last]))).blocks ≠ [] := by simp [linesSlice]
  -- the paste takes the path of a plain text of several lines
  have hperform : s.perform alnum (.paste text) = s.pasteSlice (linesSlice (first :: (middle ++ [last]))) := by
    have hplain : s.pastePlainText text = s.pasteSlice (plainTextSlice text) := by
      rw [pastePlainText, if_neg]
      intro hnone
      simp only [Bool.and_eq_true, Bool.not_eq_true', ← Bool.not_eq_true, contains_iff_mem] at hnone
      exact hbreak.elim hnone.1 hnone.2
    rw [← hslice, ← hplain, perform, paste]
    cases hclipboard : s.internalClipboard with
    | none => rfl
    | some clip => exact if_neg (hclip clip hclipboard)
  obtain ⟨hsplits, hblocks⟩ := pasteBlocks_lines p first last middle (s.document, [])
  obtain ⟨i, o⟩ := p
  obtain rfl : pre.length = i := hlen
  obtain ⟨left, right, ops, hpaste, hleft, hrinline, hright⟩ :=
    pasteMultiBlock_doc pre post hinline o first last middle []
  rw [← hdoc, ← hblocks] at hpaste
  have hnormal : (⟨pre ++ left :: (middle.map lineBlock ++ right :: post)⟩ : Document).blocks ≠ [] := by
    simp
  obtain ⟨htextAll, htextBefore⟩ := pasted_text pre post hleft hright
  have hq := pasted_caret pre post left middle hrinline hright
  have hrun := pasteSlice_caret hcaret hne hpaste hq
  have hcount : (normalize ⟨pre ++ left :: (middle.map lineBlock ++ right :: post)⟩).blocks.length ≠
      s.document.blocks.length := by
    rw [normalize_blocks hnormal, congrArg (fun d => d.blocks.length) hdoc]
    simp only [length_append, length_cons, length_map]
    omega
  obtain ⟨s'', hundo, hback⟩ := pasteSlice_undo hcaret hblock hinline hoffset hmax hne hcount hrun
  refine ⟨_, ⟨pre.length + 1 + middle.length, last.length⟩, s'', hperform.trans hrun, ?_, rfl, hq, ?_,
    hundo, hback⟩
  · rw [htext, congrArg (fun d => d.textBefore ⟨pre.length, o⟩) hdoc,
      congrArg (fun d => d.textAfter ⟨pre.length, o⟩) hdoc, textBefore_mid, textAfter_mid]
    exact (flattenedText_normalize hnormal).trans htextAll
  · rw [htext, congrArg (fun d => d.textBefore ⟨pre.length, o⟩) hdoc, textBefore_mid]
    exact (textBefore_normalize hnormal _).trans htextBefore

/-- A caret within a heading: the first line ends it, the last one starts what was behind the caret. -/
theorem paste_lines_heading : (⟨[.heading .h1 [.plain ['a', 'b']]]⟩ : Document).flattenedText = ['a', 'b'] ∧
    ∃ s' q s'', ({ fromDocument ⟨[.heading .h1 [.plain ['a', 'b']]]⟩ with
        selection := .caret ⟨0, 1⟩ } : EditorState).perform Char.isAlphanum
          (.paste ['x', '\r', '\n', '\n', 'y']) = .ok s' ∧
      s'.document.flattenedText = ['a', 'x', '\n', '\n', 'y', 'b'] ∧
      s'.selection = .caret q ∧ s'.document.isValidPosition q = true ∧
      s'.document.textBefore q = ['a', 'x', '\n', '\n', 'y'] ∧
      s'.undo = .ok s'' ∧ s''.document = ⟨[.heading .h1 [.plain ['a', 'b']]]⟩ := by
  obtain ⟨-, s', q, s'', hrun, htext, hsel, hvalid, hbefore, hundo, hback⟩ :=
    paste_lines Char.isAlphanum
      { fromDocument ⟨[.heading .h1 [.plain ['a', 'b']]]⟩ with selection := .caret ⟨0, 1⟩ }
      ['x', '\r', '\n', '\n', 'y'] ⟨0, 1⟩ (.heading .h1 [.plain ['a', 'b']]) (by decide)
      (fun clip h => by cases h) rfl rfl rfl (by decide) (by decide)
  exact ⟨by decide, s', q, s'', hrun, htext.trans (by decide), hsel, hvalid,
    hbefore.trans (by decide), hundo, hback.trans (by decide)⟩

theorem paste_undo_merges :
    ∃ s' s'', (fromDocument ⟨[.paragraph [.plain ['a'], .plain ['b']]]⟩).perform Char.isAlphanum
        (.paste ['x', '\n', 'y']) = .ok s' ∧ s'.undo = .ok s'' ∧
      s''.document = ⟨[.paragraph [.plain ['a', 'b']]]⟩ ∧
      s''.document ≠ ⟨[.paragraph [.plain ['a'], .plain ['b']]]⟩ :=
  ⟨_, _, rfl, rfl, by decide, by decide⟩

end Ratatoskr.Rte

import Ratatoskr.Rte.Operations

/-!
# Rte.Rules

The rules engine (`crates/rte/src/rules.rs`): a user action and the selection are resolved into
the list of `EditOp`s that the editor then applies.

Later ops of a batch (the insertion, the split) are computed from the document before the
deletion the batch starts with; only `resolveInsert` looks at a scratch copy it has already
deleted from.
-/

namespace Ratatoskr.Rte

/-- A high-level user editing action (before rule resolution). -/
inductive EditAction where
  | insertText (text : Text)
  | deleteBackward
  | deleteForward
  | deleteSelection
  | splitBlock
  | toggleInlineStyle (style : InlineStyle)
  | setBlockType (kind : BlockKind)
  deriving DecidableEq

/-- `v[i]`. -/
def vecGet {α : Type} (v : List α) (i : Nat) : Except String α :=
  match v[i]? with
  | some x => .ok x
  | none => .error "index out of bounds"

def blockIsAtomicAt (d : Document) (blockIndex : Nat) : Bool :=
  ((d.block blockIndex).map Block.isAtomicBlock).getD false

def runsAreEffectivelyEmpty (runs : List StyledRun) : Bool := runs.all StyledRun.isEmpty

/-- Extract runs covering `[startOffset, endOffset)`; at least one run for a valid
`DeletedContent`. -/
def extractDeletedRuns (runs : List StyledRun) (startOffset endOffset : Nat) : List StyledRun :=
  extractRuns runs startOffset endOffset

def lastStyle (runs : List StyledRun) : InlineStyle :=
  (runs.getLast?.map StyledRun.style).getD InlineStyle.empty

/-- The inline style at a cursor position: the run to the left wins at a boundary, unless it is
a link. -/
def resolveStyleAt (d : Document) (pos : DocPosition) : Except String InlineStyle :=
  match d.block pos.blockIndex with
  | none => .ok InlineStyle.empty
  | some block =>
    match block.runs with
    | none => .ok InlineStyle.empty
    | some runs =>
      if runs.isEmpty then .ok InlineStyle.empty
      else
        match block.resolveOffset pos.offset with
        | none => .ok (lastStyle runs)
        | some (runIdx, offsetInRun) => do
          let run ← vecGet runs runIdx
          if offsetInRun = 0 ∧ runIdx > 0 then
            let prevRun ← vecGet runs (runIdx - 1)
            return if prevRun.link.isSome then run.style else prevRun.style
          else return run.style

def styleAtLoop (offset : Nat) : Nat → List StyledRun → Option InlineStyle
  | _, [] => none
  | charPos, run :: rest =>
    if offset < charPos + run.charLen then some run.style
    else styleAtLoop offset (charPos + run.charLen) rest

/-- Style of the character at `pos` (right affinity). -/
def styleAtPosition (d : Document) (pos : DocPosition) : InlineStyle :=
  match (d.block pos.blockIndex).bind Block.runs with
  | none => InlineStyle.empty
  | some runs => (styleAtLoop pos.offset 0 runs).getD (lastStyle runs)

def runStyleLoop (offset : Nat) : Nat → List StyledRun → Option InlineStyle
  | _, [] => none
  | charPos, run :: rest =>
    if offset ≥ charPos ∧ offset ≤ charPos + run.charLen then some run.style
    else runStyleLoop offset (charPos + run.charLen) rest

/-- The style that `insertText` will inherit when inserting at this offset. -/
def runStyleAt (d : Document) (pos : DocPosition) : InlineStyle :=
  match (d.block pos.blockIndex).bind Block.runs with
  | none => InlineStyle.empty
  | some runs =>
    if runs.isEmpty then InlineStyle.empty
    else (runStyleLoop pos.offset 0 runs).getD (lastStyle runs)

/-- The caret position after deleting `selection`: the next block's start when the selection
starts at the trailing edge of an atomic block. -/
def postDeletePosition (d : Document) (selection : DocSelection) : DocPosition :=
  let start := selection.start
  if start.offset > 0 ∧ start.blockIndex + 1 < d.blockCount ∧
      blockIsAtomicAt d start.blockIndex then ⟨start.blockIndex + 1, 0⟩
  else start

/-- The captured tail of the start block of a cross-block deletion. -/
def deletedStart (d : Document) (start : DocPosition) : List Block :=
  match d.block start.blockIndex with
  | none => []
  | some block =>
    match block.runs with
    | some runs => [blockWithRunsLike block (extractDeletedRuns runs start.offset block.charLen)]
    | none => if start.offset = 0 then [block] else []

/-- The captured head of the end block, and the tail of it that survives. -/
def deletedEnd (d : Document) (stop : DocPosition) : List Block × Option Block :=
  match d.block stop.blockIndex with
  | none => ([], none)
  | some block =>
    match block.runs with
    | some runs =>
      let tailRuns := extractDeletedRuns runs stop.offset block.charLen
      ([blockWithRunsLike block (extractDeletedRuns runs 0 stop.offset)],
        if runsAreEffectivelyEmpty tailRuns then none
        else some (blockWithRunsLike block tailRuns))
    | none => (if stop.offset > 0 then [block] else [], none)

/-- Build `DeletedContent` capturing the content in `[start, stop)`. -/
def buildDeletedContent (d : Document) (start stop : DocPosition) : DeletedContent :=
  if start.blockIndex = stop.blockIndex then
    match d.block start.blockIndex with
    | none => ⟨[Block.emptyParagraph], none⟩
    | some block =>
      match block.runs with
      | some runs =>
        ⟨[blockWithRunsLike block (extractDeletedRuns runs start.offset stop.offset)], none⟩
      | none =>
        if start.offset = 0 ∧ stop.offset ≥ block.charLen then ⟨[block], none⟩
        else ⟨[Block.emptyParagraph], none⟩
  else
    let middle := (d.blocks.take stop.blockIndex).drop (start.blockIndex + 1)
    let tail := deletedEnd d stop
    let blocks := deletedStart d start ++ middle ++ tail.1
    ⟨if blocks.isEmpty then [Block.emptyParagraph] else blocks, tail.2⟩

/-- Build the `EditOp`s to delete a non-collapsed selection. -/
def buildDeleteSelection (d : Document) (selection : DocSelection) : List EditOp :=
  let start := postDeletePosition d selection
  let stop := selection.endPos
  if stop ≤ start then [] else [.deleteRange start stop (buildDeletedContent d start stop)]

def resolveDeleteSelection (d : Document) (selection : DocSelection) : List EditOp :=
  if selection.isCollapsed then [] else buildDeleteSelection d selection

/-- Apply ops one after the other; the position maps are dropped. -/
def applyOps : List EditOp → Document → Except String Document
  | [], d => .ok d
  | op :: ops, d => do applyOps ops (← op.apply d).1

/-- The insertion, followed by a toggle over the inserted range for each style bit in which the
desired style differs from the inherited one. -/
def insertOps (targetDoc : Document) (insertPos : DocPosition) (style : InlineStyle) (text : Text) :
    List EditOp :=
  let diff := InlineStyle.symmetricDifference style (runStyleAt targetDoc insertPos)
  let insertEnd : DocPosition := ⟨insertPos.blockIndex, insertPos.offset + textLen text⟩
  .insertText insertPos text ::
    if InlineStyle.isEmpty diff then []
    else (InlineStyle.iter diff).map (.toggleInlineStyle insertPos insertEnd ·)

def resolveInsert (d : Document) (selection : DocSelection) (text : Text)
    (pendingStyle : InlineStyle) : Except String (List EditOp) :=
  if selection.isCollapsed then do
    let pos := selection.focus
    let style ← if InlineStyle.isEmpty pendingStyle then resolveStyleAt d pos else pure pendingStyle
    return insertOps d pos style text
  else do
    let pos := postDeletePosition d selection
    let style := if InlineStyle.isEmpty pendingStyle then styleAtPosition d pos else pendingStyle
    let deleteOps := buildDeleteSelection d selection
    let scratch ← applyOps deleteOps d
    return deleteOps ++ insertOps scratch pos style text

/-! ## Delete backward and forward -/

/-- Merge the block at `blockIndex` into the previous block. -/
def resolveMergeBackward (d : Document) (blockIndex : Nat) : List EditOp :=
  if blockIndex = 0 then []
  else
    match d.block blockIndex, d.block (blockIndex - 1) with
    | some currentBlock, some prevBlock =>
      if !currentBlock.isInlineBlock || !prevBlock.isInlineBlock then []
      else [.mergeBlocks blockIndex currentBlock prevBlock.charLen]
    | _, _ => []

/-- Merge the next block into the block at `blockIndex`. -/
def resolveMergeForward (d : Document) (blockIndex : Nat) : List EditOp :=
  let nextIndex := blockIndex + 1
  if nextIndex ≥ d.blockCount then []
  else
    match d.block nextIndex, d.block blockIndex with
    | some nextBlock, some currentBlock =>
      if !nextBlock.isInlineBlock || !currentBlock.isInlineBlock then []
      else [.mergeBlocks nextIndex nextBlock currentBlock.charLen]
    | _, _ => []

/-- Delete a single character before the cursor (within the same block). -/
def resolveDeleteCharBackward (d : Document) (pos : DocPosition) : List EditOp :=
  match d.block pos.blockIndex with
  | none => []
  | some block =>
    match block.runs with
    | none => []
    | some runs =>
      let charBeforeOffset := pos.offset - 1
      if charBeforeOffset ≥ block.charLen then []
      else
        let deletedRuns := extractDeletedRuns runs charBeforeOffset pos.offset
        [.deleteRange ⟨pos.blockIndex, charBeforeOffset⟩ pos ⟨[blockWithRunsLike block deletedRuns], none⟩]

/-- Delete a single character after the cursor (within the same block). -/
def resolveDeleteCharForward (d : Document) (pos : DocPosition) : List EditOp :=
  match d.block pos.blockIndex with
  | none => []
  | some block =>
    match block.runs with
    | none => []
    | some runs =>
      if pos.offset ≥ block.charLen then []
      else
        let endOffset := pos.offset + 1
        let deletedRuns := extractDeletedRuns runs pos.offset endOffset
        [.deleteRange pos ⟨pos.blockIndex, endOffset⟩ ⟨[blockWithRunsLike block deletedRuns], none⟩]

def removeOrClearBlock (d : Document) (blockIndex : Nat) : EditOp :=
  let block := (d.block blockIndex).getD Block.emptyParagraph
  if d.blockCount ≤ 1 then .replaceBlock blockIndex block Block.emptyParagraph
  else .removeBlock blockIndex block

def resolveDeleteBackward (d : Document) (selection : DocSelection) : List EditOp :=
  if !selection.isCollapsed then buildDeleteSelection d selection
  else
    let pos := selection.focus
    if pos.blockIndex = 0 ∧ pos.offset = 0 then []
    else if pos.offset = 0 then
      match d.block (pos.blockIndex - 1) with
      | some prev =>
        if prev.isAtomicBlock then [.removeBlock (pos.blockIndex - 1) prev]
        else resolveMergeBackward d pos.blockIndex
      | none => resolveMergeBackward d pos.blockIndex
    else if blockIsAtomicAt d pos.blockIndex then [removeOrClearBlock d pos.blockIndex]
    else resolveDeleteCharBackward d pos

def resolveDeleteForward (d : Document) (selection : DocSelection) : List EditOp :=
  if !selection.isCollapsed then buildDeleteSelection d selection
  else
    let pos := selection.focus
    match d.block pos.blockIndex with
    | none => []
    | some block =>
      let atBlockEnd := pos.offset ≥ block.charLen
      let isLastBlock := pos.blockIndex ≥ d.blockCount - 1
      if atBlockEnd ∧ isLastBlock then []
      else if atBlockEnd then
        let nextIdx := pos.blockIndex + 1
        match d.block nextIdx with
        | some next =>
          if next.isAtomicBlock then [.removeBlock nextIdx next]
          else resolveMergeForward d pos.blockIndex
        | none => resolveMergeForward d pos.blockIndex
      else if blockIsAtomicAt d pos.blockIndex ∧ pos.offset = 0 then
        [removeOrClearBlock d pos.blockIndex]
      else resolveDeleteCharForward d pos

/-- `text.trim().is_empty()` for every run. -/
def runsAreBlank (runs : List StyledRun) : Bool := runs.all fun r => r.text.all isWhitespace

/-- The ops after the deletion, decided by the block at the split position before it. -/
def splitOps (block : Block) (splitPos : DocPosition) : List EditOp :=
  match block with
  | .image .. => [.insertBlock (splitPos.blockIndex + 1) Block.emptyParagraph]
  | .listItem ordered _ runs =>
    if runsAreBlank runs then
      [.setBlockType splitPos.blockIndex (.listItem ordered) .paragraph]
    else [.splitBlock splitPos]
  | .heading level runs =>
    if splitPos.offset ≥ Block.runsLen runs then
      [.splitBlock splitPos, .setBlockType (splitPos.blockIndex + 1) (.heading level) .paragraph]
    else [.splitBlock splitPos]
  | _ => [.splitBlock splitPos]

def resolveSplitBlock (d : Document) (selection : DocSelection) : List EditOp :=
  let splitPos :=
    if selection.isCollapsed then selection.focus else postDeletePosition d selection
  let deleteOps := if selection.isCollapsed then [] else buildDeleteSelection d selection
  match d.block splitPos.blockIndex with
  | none => deleteOps
  | some block => deleteOps ++ splitOps block splitPos

/-- Walk backward to the first run with the same link href. -/
def linkSpanStart (runs : List StyledRun) (href : Text) : Nat → Nat
  | 0 => 0
  | i + 1 =>
    if (runs[i]?).bind StyledRun.link = some href then linkSpanStart runs href i else i + 1

/-- Walk forward to the last run with the same link href, for at most `fuel` runs. -/
def linkSpanEnd (runs : List StyledRun) (href : Text) : Nat → Nat → Nat
  | 0, i => i
  | fuel + 1, i =>
    if i + 1 < runs.length ∧ (runs[i + 1]?).bind StyledRun.link = some href then
      linkSpanEnd runs href fuel (i + 1)
    else i

/-- The run index and href of the link the caret is in or at the end of. -/
def linkAnchor (runs : List StyledRun) (runIdx offsetInRun : Nat) :
    Except String (Option (Nat × Text)) := do
  let run ← vecGet runs runIdx
  match run.link with
  | some href => return some (runIdx, href)
  | none =>
    if offsetInRun = 0 ∧ runIdx > 0 then
      let prev ← vecGet runs (runIdx - 1)
      return prev.link.map fun href => (runIdx - 1, href)
    else return none

/-- The boundaries of the contiguous link span containing `pos`. -/
def findLinkBoundaries (d : Document) (pos : DocPosition) :
    Except String (Option (DocPosition × DocPosition)) :=
  match d.block pos.blockIndex with
  | none => .ok none
  | some block =>
    match block.runs with
    | none => .ok none
    | some runs =>
      if runs.isEmpty then .ok none
      else
        match block.resolveOffset pos.offset with
        | none => .ok none
        | some (runIdx, offsetInRun) => do
          match ← linkAnchor runs runIdx offsetInRun with
          | none => return none
          | some (anchorRunIdx, href) =>
            let startRunIdx := linkSpanStart runs href anchorRunIdx
            let endRunIdx := linkSpanEnd runs href runs.length anchorRunIdx
            vecRange runs startRunIdx (endRunIdx + 1)
            let startOffset := Block.runsLen (runs.take startRunIdx)
            let endOffset :=
              startOffset + Block.runsLen ((runs.take (endRunIdx + 1)).drop startRunIdx)
            return some (⟨pos.blockIndex, startOffset⟩, ⟨pos.blockIndex, endOffset⟩)

/-- Resolve a toggle-style action; an empty list signals "toggle pending style". -/
def resolveToggleStyle (d : Document) (selection : DocSelection) (style : InlineStyle) :
    Except String (List EditOp) :=
  if selection.isCollapsed then do
    match ← findLinkBoundaries d selection.focus with
    | some (linkStart, linkEnd) => return [.toggleInlineStyle linkStart linkEnd style]
    | none => return []
  else
    let start := selection.start
    let stop := selection.endPos
    if start = stop then .ok [] else .ok [.toggleInlineStyle start stop style]

/-! ## Set block type (toolbar) -/

/-- Resolve a `SetBlockType` action from the toolbar. -/
def resolveSetBlockType (d : Document) (selection : DocSelection) (kind : BlockKind) : List EditOp :=
  let blockIndex := selection.focus.blockIndex
  match d.block blockIndex with
  | none => []
  | some block =>
    let currentKind := block.kind
    let newKind := if currentKind = kind then .paragraph else kind
    if currentKind = newKind then []
    else if currentKind = .horizontalRule ∨ currentKind = .image then []
    else if newKind = .horizontalRule ∨ newKind = .image ∨ newKind = .blockQuote then []
    else [.setBlockType blockIndex currentKind newKind]

/-- Resolve a high-level user action into concrete `EditOp`s using the rules chain. -/
def resolve (d : Document) (selection : DocSelection) (action : EditAction)
    (pendingStyle : InlineStyle) : Except String (List EditOp) :=
  match action with
  | .insertText text => resolveInsert d selection text pendingStyle
  | .deleteBackward => .ok (resolveDeleteBackward d selection)
  | .deleteForward => .ok (resolveDeleteForward d selection)
  | .deleteSelection => .ok (resolveDeleteSelection d selection)
  | .splitBlock => .ok (resolveSplitBlock d selection)
  | .toggleInlineStyle style => resolveToggleStyle d selection style
  | .setBlockType kind => .ok (resolveSetBlockType d selection kind)

end Ratatoskr.Rte

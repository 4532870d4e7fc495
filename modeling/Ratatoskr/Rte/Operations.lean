import Ratatoskr.Rte.Normalize

/-!
# Rte.Operations

The editing operations (`crates/rte/src/operations.rs`): position maps, `EditOp` with its
application and inversion, and the run surgery behind them.

* `EditOp.apply` returns the new document and the position map; `.error` is a panic.
* `EditOp.invertInner` computes the inverse without the pre-edit document; only the inverse of
  `insertText` looks at a document at all.
* A `deleteRange` with `start = stop` and captured content is the sentinel for "reconstruct".
-/

namespace Ratatoskr.Rte

/-- At `oldOffset`, `oldLen` characters were replaced by `newLen` characters. -/
structure PosMapEntry where
  oldOffset : Nat
  oldLen : Nat
  newLen : Nat
  deriving DecidableEq

inductive StructuralChange where
  | split (blockIndex splitOffset : Nat)
  | merge (blockIndex mergeOffset : Nat)
  | insert (blockIndex count : Nat)
  | remove (blockIndex : Nat)
  | removeRange (blockIndex count : Nat)
  | crossBlockDelete (startBlock removedCount startOffset : Nat)
  deriving DecidableEq

/-- Describes what shifted, so that cursors and selections can be mapped through edits. -/
structure PosMap where
  blockIndex : Nat
  entries : List PosMapEntry
  structural : Option StructuralChange
  deriving DecidableEq

namespace PosMap

def mapStructural (m : PosMap) (pos : DocPosition) : DocPosition :=
  match m.structural with
  | none => pos
  | some (.split blockIndex splitOffset) =>
    if pos.blockIndex = blockIndex ∧ pos.offset > splitOffset then
      ⟨blockIndex + 1, pos.offset - splitOffset⟩
    else if pos.blockIndex > blockIndex then ⟨pos.blockIndex + 1, pos.offset⟩
    else pos
  | some (.merge blockIndex mergeOffset) =>
    if pos.blockIndex = blockIndex then ⟨blockIndex - 1, pos.offset + mergeOffset⟩
    else if pos.blockIndex > blockIndex then ⟨pos.blockIndex - 1, pos.offset⟩
    else pos
  | some (.insert blockIndex count) =>
    if pos.blockIndex ≥ blockIndex then ⟨pos.blockIndex + count, pos.offset⟩ else pos
  | some (.remove blockIndex) =>
    if pos.blockIndex = blockIndex then ⟨blockIndex, 0⟩
    else if pos.blockIndex > blockIndex then ⟨pos.blockIndex - 1, pos.offset⟩
    else pos
  | some (.removeRange blockIndex count) =>
    let endBlock := blockIndex + count
    if pos.blockIndex ≥ blockIndex ∧ pos.blockIndex < endBlock then ⟨blockIndex, 0⟩
    else if pos.blockIndex ≥ endBlock then ⟨pos.blockIndex - count, pos.offset⟩
    else pos
  | some (.crossBlockDelete startBlock removedCount startOffset) =>
    let endBlock := startBlock + removedCount
    if pos.blockIndex > startBlock ∧ pos.blockIndex ≤ endBlock then ⟨startBlock, startOffset⟩
    else if pos.blockIndex > endBlock then ⟨pos.blockIndex - removedCount, pos.offset⟩
    else pos

def mapOffset : List PosMapEntry → Nat → Nat
  | [], offset => offset
  | entry :: rest, offset =>
    if offset ≤ entry.oldOffset then offset
    else if offset < entry.oldOffset + entry.oldLen then entry.oldOffset + entry.newLen
    else if entry.newLen ≥ entry.oldLen then
      mapOffset rest (offset + (entry.newLen - entry.oldLen))
    else mapOffset rest (offset - (entry.oldLen - entry.newLen))

def mapEntries (m : PosMap) (pos : DocPosition) : DocPosition :=
  if pos.blockIndex ≠ m.blockIndex then pos else ⟨pos.blockIndex, mapOffset m.entries pos.offset⟩

/-- Map a `DocPosition` through this edit. -/
def map (m : PosMap) (pos : DocPosition) : DocPosition := m.mapEntries (m.mapStructural pos)

end PosMap

/-- Content captured during a delete operation, sufficient to reconstruct the original structure
on undo. -/
structure DeletedContent where
  blocks : List Block
  endTail : Option Block
  deriving DecidableEq

/-- An editing operation. Each variant carries enough data to apply and invert. -/
inductive EditOp where
  | insertText (position : DocPosition) (text : Text)
  | deleteRange (start stop : DocPosition) (deleted : DeletedContent)
  | splitBlock (position : DocPosition)
  | mergeBlocks (blockIndex : Nat) (saved : Block) (mergeOffset : Nat)
  | toggleInlineStyle (start stop : DocPosition) (styleBit : InlineStyle)
  | setBlockType (blockIndex : Nat) (old new : BlockKind)
  | setBlockAttrs (blockIndex : Nat) (old new : BlockAttrs)
  | insertBlock (index : Nat) (block : Block)
  | removeBlock (index : Nat) (saved : Block)
  | replaceBlock (index : Nat) (old new : Block)
  | restoreMergedBlock (blockIndex : Nat) (saved : Block) (mergeOffset : Nat)
  deriving DecidableEq

/-- Extract styled runs covering `[startOffset, endOffset)`; at least one, possibly empty, run. -/
def extractRunsFromRange (runs : List StyledRun) (startOffset endOffset : Nat) : List StyledRun :=
  extractRuns runs startOffset endOffset

def extractRunsFromOffsetLoop (offset : Nat) : Nat → List StyledRun → List StyledRun
  | _, [] => []
  | pos, run :: rest =>
    let runEnd := pos + run.charLen
    if runEnd ≤ offset then extractRunsFromOffsetLoop offset runEnd rest
    else if pos ≥ offset then run :: extractRunsFromOffsetLoop offset runEnd rest
    else
      let right := (run.splitAt (offset - pos)).2
      if right.isEmpty then extractRunsFromOffsetLoop offset runEnd rest
      else right :: extractRunsFromOffsetLoop offset runEnd rest

/-- Extract runs from `offset` to end of the run list. -/
def extractRunsFromOffset (runs : List StyledRun) (offset : Nat) : List StyledRun :=
  extractRunsFromOffsetLoop offset 0 runs

def extractRunsUpToLoop (offset : Nat) : Nat → List StyledRun → List StyledRun
  | _, [] => []
  | pos, run :: rest =>
    if pos ≥ offset then []
    else if pos + run.charLen ≤ offset then
      run :: extractRunsUpToLoop offset (pos + run.charLen) rest
    else
      let left := (run.splitAt (offset - pos)).1
      if left.isEmpty then extractRunsUpToLoop offset (pos + run.charLen) rest
      else left :: extractRunsUpToLoop offset (pos + run.charLen) rest

/-- Extract runs from start up to (not including) `offset`. -/
def extractRunsUpTo (runs : List StyledRun) (offset : Nat) : List StyledRun :=
  extractRunsUpToLoop offset 0 runs

def truncateRunsLoop (offset : Nat) : Nat → List StyledRun → List StyledRun
  | _, [] => []
  | pos, run :: rest =>
    if pos + run.charLen ≤ offset then run :: truncateRunsLoop offset (pos + run.charLen) rest
    else if pos ≥ offset then []
    else [(run.splitAt (offset - pos)).1]

/-- Truncate a run list, keeping only `[0, offset)`. -/
def truncateRuns (runs : List StyledRun) (offset : Nat) : List StyledRun :=
  truncateRunsLoop offset 0 runs

/-- The run list, with an empty plain run if it is empty. -/
def ensureRun (runs : List StyledRun) : List StyledRun :=
  if runs.isEmpty then [StyledRun.plain []] else runs

/-- The block at an index that must exist; the panic carries the caller's message. -/
def Document.expectBlock (d : Document) (index : Nat) (msg : String) : Except String Block :=
  match d.block index with
  | some b => .ok b
  | none => .error msg

/-! ## Apply: InsertText -/

/-- The loop of `insert_text_into_runs`: `prev` is the run before the list, held back because an
insertion at a run boundary may still extend it. -/
def insertTextLoop (offset : Nat) (text : Text) : Option StyledRun → Nat → List StyledRun → List StyledRun
  | none, _, [] => []
  | some last, _, [] => [{ last with text := last.text ++ text }]
  | prev, pos, run :: rest =>
    -- the part of the loop body after the `offset == pos` cases
    let within :=
      if offset < pos + run.charLen then
        let byteOffset := offset - pos
        prev.toList ++
          { run with text := run.text.take byteOffset ++ text ++ run.text.drop byteOffset } :: rest
      else if offset = pos + run.charLen then
        if run.link.isSome then prev.toList ++ run :: ⟨text, run.style, none⟩ :: rest
        else prev.toList ++ { run with text := run.text ++ text } :: rest
      else prev.toList ++ insertTextLoop offset text (some run) (pos + run.charLen) rest
    if offset = pos then
      match prev with
      | none => if run.link.isSome then ⟨text, run.style, none⟩ :: run :: rest else within
      | some p =>
        if p.link.isSome ∨ run.link.isSome then p :: ⟨text, p.style, none⟩ :: run :: rest
        else { p with text := p.text ++ text } :: run :: rest
    else within

/-- Insert `text` into a run list at the given flattened char offset. -/
def insertTextIntoRuns (runs : List StyledRun) (offset : Nat) (text : Text) : List StyledRun :=
  insertTextLoop offset text none 0 runs

def applyInsertText (d : Document) (position : DocPosition) (text : Text) :
    Except String (Document × PosMap) := do
  let block ← d.expectBlock position.blockIndex "InsertText: block_index out of bounds"
  match block.runs with
  | none => return (d, ⟨position.blockIndex, [], none⟩)
  | some runs =>
    let block := block.setRuns (insertTextIntoRuns runs position.offset text)
    return (d.replaceBlock position.blockIndex block,
      ⟨position.blockIndex, [⟨position.offset, 0, textLen text⟩], none⟩)

def applySingleBlockDelete (d : Document) (start stop : DocPosition) :
    Except String (Document × PosMap) := do
  let block ← d.expectBlock start.blockIndex "DeleteRange: block_index out of bounds"
  match block.runs with
  | none =>
    if start.offset = 0 ∧ stop.offset ≥ block.charLen then
      if d.blockCount = 1 then
        return (d.replaceBlock start.blockIndex Block.emptyParagraph, ⟨start.blockIndex, [], none⟩)
      else
        let blocks ← vecRemove d.blocks start.blockIndex
        return (⟨blocks⟩, ⟨start.blockIndex, [], some (.remove start.blockIndex)⟩)
    else return (d, ⟨start.blockIndex, [], none⟩)
  | some runs =>
    let (runs, lo, hi) ← isolateRuns runs start.offset stop.offset
    let runs ←
      if lo < hi then do
        vecRange runs lo hi
        pure (runs.take lo ++ runs.drop hi)
      else pure runs
    return (d.replaceBlock start.blockIndex (block.setRuns (ensureRun runs)),
      ⟨start.blockIndex, [⟨start.offset, stop.offset - start.offset, 0⟩], none⟩)

def buildCrossDeleteReplacement (startBlock : Block) (startOffset : Nat) (endBlock : Block)
    (endOffset : Nat) : Option Block :=
  match startBlock.runs with
  | some runs =>
    let tail :=
      match endBlock.runs with
      | some endRuns => extractRunsFromOffset endRuns endOffset
      | none => []
    some (startBlock.setRuns (ensureRun (truncateRuns runs startOffset ++ tail)))
  | none =>
    match endBlock.runs with
    | none => none
    | some endRuns =>
      let tail := extractRunsFromOffset endRuns endOffset
      if tail.isEmpty then none else some (blockWithRunsLike endBlock tail)

/-- `for _ in 0..count { blocks.remove(index) }`. -/
def removeRepeatedly (index : Nat) : Nat → List Block → Except String (List Block)
  | 0, blocks => .ok blocks
  | count + 1, blocks => do removeRepeatedly index count (← vecRemove blocks index)

/-- The last block index a cross-block delete takes out: an atomic end block the range only
touches at offset 0 stays. -/
def lastRemoved (endBlock : Block) (stop : DocPosition) : Nat :=
  if endBlock.isInlineBlock ∨ stop.offset > 0 then stop.blockIndex else stop.blockIndex - 1

def applyCrossBlockDelete (d : Document) (start stop : DocPosition) :
    Except String (Document × PosMap) := do
  let endBlock ← d.expectBlock stop.blockIndex "DeleteRange: end block out of bounds"
  let startBlock ← d.expectBlock start.blockIndex "DeleteRange: start block out of bounds"
  let last := lastRemoved endBlock stop
  match buildCrossDeleteReplacement startBlock start.offset endBlock stop.offset with
  | some newBlock =>
    let d := d.replaceBlock start.blockIndex newBlock
    let blocksToRemove := last - start.blockIndex
    let blocks ← removeRepeatedly (start.blockIndex + 1) blocksToRemove d.blocks
    return (⟨blocks⟩, ⟨start.blockIndex, [⟨start.offset, 0, 0⟩],
      if blocksToRemove > 0 then
        some (.crossBlockDelete start.blockIndex blocksToRemove start.offset)
      else none⟩)
  | none =>
    let blocksToRemove := last - start.blockIndex + 1
    let blocks ← removeRepeatedly start.blockIndex blocksToRemove d.blocks
    return (⟨ensureBlock blocks⟩,
      ⟨start.blockIndex, [], some (.removeRange start.blockIndex blocksToRemove)⟩)

/-- `matches!(doc.block(0), Some(Paragraph { runs }) if runs.iter().all(is_empty))`, in a
one-block document. -/
def isPlaceholderDoc (d : Document) : Bool :=
  d.blockCount == 1 &&
    match d.block 0 with
    | some (.paragraph runs) => runs.all StyledRun.isEmpty
    | _ => false

/-- `for (i, block) in new.enumerate() { blocks.insert(index + i, block) }`. -/
def insertRepeatedly : Nat → List Block → List Block → Except String (List Block)
  | _, [], blocks => .ok blocks
  | index, b :: bs, blocks => do insertRepeatedly (index + 1) bs (← vecInsert blocks index b)

def applyRestoreDeletedFromAtomicStart (d : Document) (position : DocPosition)
    (deleted : DeletedContent) : Except String (Document × PosMap) := do
  let insertIndex := min position.blockIndex d.blockCount
  let lastDeleted := deleted.blocks.getLastD Block.emptyParagraph
  let firsts := deleted.blocks.dropLast
  let (restored, consumedCurrent) :=
    match deleted.endTail with
    | some endTail =>
      let endRuns := lastDeleted.runs.getD [] ++ endTail.runs.getD []
      (firsts ++ [blockWithRunsLike lastDeleted endRuns], true)
    | none => (firsts ++ [lastDeleted], false)
  let blocks ←
    if consumedCurrent ∧ insertIndex < d.blockCount then vecRemove d.blocks insertIndex
    else pure d.blocks
  let blocks := if isPlaceholderDoc ⟨blocks⟩ ∧ insertIndex = 0 then [] else blocks
  let blocks ← insertRepeatedly insertIndex restored blocks
  return (⟨blocks⟩, ⟨insertIndex, [], some (.insert insertIndex deleted.blocks.length)⟩)

/-- Splice one deleted inline fragment, or one deleted atomic block, back in. -/
def applyRestoreDeletedSingle (d : Document) (position : DocPosition) (saved : Block) :
    Except String (Document × PosMap) := do
  if saved.isInlineBlock then
    let deletedRuns := saved.runs.getD []
    let block ← d.expectBlock position.blockIndex "RestoreDeleted: block out of bounds"
    let block :=
      match block.runs with
      | some runs =>
        block.setRuns (ensureRun (extractRunsUpTo runs position.offset ++ deletedRuns ++
          extractRunsFromOffset runs position.offset))
      | none => block
    return (d.replaceBlock position.blockIndex block,
      ⟨position.blockIndex, [⟨position.offset, 0, Block.runsLen deletedRuns⟩], none⟩)
  else
    let insertIndex := min position.blockIndex d.blockCount
    if isPlaceholderDoc d ∧ insertIndex = 0 then
      return (d.replaceBlock 0 saved, ⟨0, [], none⟩)
    else
      let blocks ← vecInsert d.blocks insertIndex saved
      return (⟨blocks⟩, ⟨insertIndex, [], some (.insert insertIndex 1)⟩)

/-- Rebuild start, middle and end blocks of a cross-block delete that began in an inline block. -/
def applyRestoreDeletedCross (d : Document) (position : DocPosition) (first : Block)
    (deleted : DeletedContent) : Except String (Document × PosMap) := do
  let mergedBlock ← d.expectBlock position.blockIndex "RestoreDeleted: block out of bounds"
  let headRuns := extractRunsUpTo (mergedBlock.runs.getD []) position.offset
  let tailRuns := (deleted.endTail.bind Block.runs).getD []
  let startBlock := blockWithRunsLike first (ensureRun (headRuns ++ first.runs.getD []))
  let middle := deleted.blocks.dropLast.drop 1
  let lastDeleted := deleted.blocks.getLastD Block.emptyParagraph
  let endRuns := ensureRun (lastDeleted.runs.getD [] ++ tailRuns)
  let endBlock :=
    if lastDeleted.isInlineBlock then blockWithRunsLike lastDeleted endRuns else lastDeleted
  let blocks ← vecRemove d.blocks position.blockIndex
  let blocks ← insertRepeatedly position.blockIndex (startBlock :: middle ++ [endBlock]) blocks
  return (⟨blocks⟩,
    ⟨position.blockIndex, [], some (.insert position.blockIndex deleted.blocks.length)⟩)

def applyRestoreDeleted (d : Document) (position : DocPosition) (deleted : DeletedContent) :
    Except String (Document × PosMap) :=
  match deleted.blocks with
  | [] => .error "index out of bounds"
  | [saved] => applyRestoreDeletedSingle d position saved
  | first :: _ :: _ =>
    if first.isInlineBlock then applyRestoreDeletedCross d position first deleted
    else applyRestoreDeletedFromAtomicStart d position deleted

def applyDeleteRange (d : Document) (start stop : DocPosition) (deleted : DeletedContent) :
    Except String (Document × PosMap) :=
  if start ≤ stop then
    if start = stop ∧ deleted.blocks ≠ [] then applyRestoreDeleted d start deleted
    else if start.blockIndex = stop.blockIndex then applySingleBlockDelete d start stop
    else applyCrossBlockDelete d start stop
  else .error "DeleteRange: start > end"

/-! ## Apply: SplitBlock -/

def splitRunsLoop (offset : Nat) : Nat → List StyledRun → List StyledRun × List StyledRun
  | _, [] => ([], [])
  | pos, run :: rest =>
    if pos + run.charLen ≤ offset then
      let halves := splitRunsLoop offset (pos + run.charLen) rest
      (run :: halves.1, halves.2)
    else if pos ≥ offset then ([], run :: rest)
    else
      let halves := run.splitAt (offset - pos)
      ([halves.1], halves.2 :: rest)

/-- Split a run list at a char offset; both sides have at least one run. -/
def splitRunsAtOffset (runs : List StyledRun) (offset : Nat) : List StyledRun × List StyledRun :=
  let halves := splitRunsLoop offset 0 runs
  (ensureRun halves.1, ensureRun halves.2)

/-- Split a block into two at a char offset. Both halves inherit the block's type. -/
def splitBlockAt (block : Block) (offset : Nat) : Block × Block :=
  match block.runs with
  | some runs =>
    let halves := splitRunsAtOffset runs offset
    (block.setRuns halves.1, block.setRuns halves.2)
  | none => (block, Block.emptyParagraph)

def applySplitBlock (d : Document) (position : DocPosition) : Except String (Document × PosMap) := do
  let block ← d.expectBlock position.blockIndex "SplitBlock: block out of bounds"
  let halves := splitBlockAt block position.offset
  let d := d.replaceBlock position.blockIndex halves.1
  let blocks ← vecInsert d.blocks (position.blockIndex + 1) halves.2
  return (⟨blocks⟩,
    ⟨position.blockIndex, [], some (.split position.blockIndex position.offset)⟩)

/-- Merge two inline blocks. The result keeps the first block's type. -/
def mergeTwoBlocks (first second : Block) : Block :=
  blockWithRunsLike first (ensureRun (first.runs.getD [] ++ second.runs.getD []))

def applyMergeBlocks (d : Document) (blockIndex : Nat) : Except String (Document × PosMap) :=
  if blockIndex = 0 then .error "MergeBlocks: cannot merge block 0 (no previous block)"
  else if blockIndex ≥ d.blockCount then .error "MergeBlocks: block_index out of bounds"
  else do
    let prevBlock ← d.expectBlock (blockIndex - 1) "MergeBlocks: prev block out of bounds"
    let currentBlock ← d.expectBlock blockIndex "MergeBlocks: block out of bounds"
    let prevCharLen := prevBlock.charLen
    let d := d.replaceBlock (blockIndex - 1) (mergeTwoBlocks prevBlock currentBlock)
    let blocks ← vecRemove d.blocks blockIndex
    return (⟨blocks⟩,
      ⟨blockIndex - 1, [⟨prevCharLen, 0, 0⟩], some (.merge blockIndex prevCharLen)⟩)

def applyRestoreMergedBlock (d : Document) (blockIndex : Nat) (saved : Block) (mergeOffset : Nat) :
    Except String (Document × PosMap) := do
  let mergedIndex := blockIndex - 1
  let mergedBlock ← d.expectBlock mergedIndex "RestoreMergedBlock: merged block out of bounds"
  let leftRuns := extractRunsUpTo (mergedBlock.runs.getD []) mergeOffset
  let d := d.replaceBlock mergedIndex (blockWithRunsLike mergedBlock leftRuns)
  let blocks ← vecInsert d.blocks blockIndex saved
  return (⟨blocks⟩, ⟨mergedIndex, [], some (.insert blockIndex 1)⟩)

/-- The char range a style toggle over `[start, stop)` covers in block `bi`. -/
def blockRange (start stop : DocPosition) (bi : Nat) (block : Block) : Nat × Nat :=
  (if bi = start.blockIndex then start.offset else 0,
    if bi = stop.blockIndex then stop.offset else block.charLen)

def runsHaveStyle (blockStart blockEnd : Nat) (styleBit : InlineStyle) : Nat → List StyledRun → Bool
  | _, [] => true
  | pos, run :: rest =>
    let runEnd := pos + run.charLen
    if runEnd ≤ blockStart then runsHaveStyle blockStart blockEnd styleBit runEnd rest
    else if pos ≥ blockEnd then true
    else if run.charLen > 0 ∧ ¬ InlineStyle.contains run.style styleBit then false
    else runsHaveStyle blockStart blockEnd styleBit runEnd rest

/-- Check whether all non-empty text in `[start, stop)` already has `styleBit`. -/
def allTextHasStyle (d : Document) (start stop : DocPosition) (styleBit : InlineStyle) : Bool :=
  (List.range' start.blockIndex (stop.blockIndex + 1 - start.blockIndex)).all fun bi =>
    match d.block bi with
    | none => true
    | some block =>
      match block.runs with
      | none => true
      | some runs =>
        let range := blockRange start stop bi block
        runsHaveStyle range.1 range.2 styleBit 0 runs

def toggledStyle (shouldRemove : Bool) (styleBit style : InlineStyle) : InlineStyle :=
  if shouldRemove then InlineStyle.remove style styleBit else InlineStyle.insert style styleBit

def restyleRuns (shouldRemove : Bool) (styleBit : InlineStyle) (runs : List StyledRun)
    (lo hi : Nat) : List StyledRun :=
  runs.take lo ++
    ((runs.take hi).drop lo).map
      (fun run => { run with style := toggledStyle shouldRemove styleBit run.style }) ++
    runs.drop hi

def toggleBlock (start stop : DocPosition) (shouldRemove : Bool) (styleBit : InlineStyle)
    (bi : Nat) (d : Document) : Except String Document := do
  match d.block bi with
  | none => return d
  | some block =>
    match block.runs with
    | none => return d
    | some runs =>
      let range := blockRange start stop bi block
      if range.1 ≥ range.2 then return d
      else
        let (runs, lo, hi) ← isolateRuns runs range.1 range.2
        vecRange runs lo hi
        return d.replaceBlock bi (block.setRuns (restyleRuns shouldRemove styleBit runs lo hi))

def toggleBlocks (start stop : DocPosition) (shouldRemove : Bool) (styleBit : InlineStyle) :
    List Nat → Document → Except String Document
  | [], d => .ok d
  | bi :: rest, d => do
    toggleBlocks start stop shouldRemove styleBit rest (← toggleBlock start stop shouldRemove styleBit bi d)

def applyToggleInlineStyle (d : Document) (start stop : DocPosition) (styleBit : InlineStyle) :
    Except String (Document × PosMap) :=
  if start < stop then do
    let shouldRemove := allTextHasStyle d start stop styleBit
    let indices := List.range' start.blockIndex (stop.blockIndex + 1 - start.blockIndex)
    let d ← toggleBlocks start stop shouldRemove styleBit indices d
    return (d, ⟨start.blockIndex, [], none⟩)
  else .error "ToggleInlineStyle: empty range"

/-- The runs a block keeps when its type changes; a quote hands over its first child's. -/
def conversionRuns : Block → List StyledRun
  | .blockQuote blocks => (blocks.head?.bind Block.runs).getD []
  | b => b.runs.getD []

def convertBlock (block : Block) (new : BlockKind) : Block :=
  let newRuns := ensureRun (conversionRuns block)
  match new with
  | .paragraph => .paragraph newRuns
  | .heading level => .heading level newRuns
  | .listItem ordered => .listItem ordered 0 newRuns
  | .blockQuote => .blockQuote [.paragraph newRuns]
  | .horizontalRule => .horizontalRule
  | .image => .image [] block.flattenedText none none

def applySetBlockType (d : Document) (blockIndex : Nat) (new : BlockKind) :
    Except String (Document × PosMap) := do
  let block ← d.expectBlock blockIndex "SetBlockType: block out of bounds"
  return (d.replaceBlock blockIndex (convertBlock block new), ⟨blockIndex, [], none⟩)

def applySetBlockAttrs (d : Document) (blockIndex : Nat) (new : BlockAttrs) :
    Except String (Document × PosMap) := do
  let block ← d.expectBlock blockIndex "SetBlockAttrs: block out of bounds"
  let d :=
    match block.withAttrs new with
    | some newBlock => d.replaceBlock blockIndex newBlock
    | none => d
  return (d, ⟨blockIndex, [], none⟩)

/-! ## Apply: InsertBlock, RemoveBlock, ReplaceBlock -/

def applyInsertBlock (d : Document) (index : Nat) (block : Block) :
    Except String (Document × PosMap) := do
  return (← d.insertBlock index block, ⟨index, [], some (.insert index 1)⟩)

def applyRemoveBlock (d : Document) (index : Nat) : Except String (Document × PosMap) := do
  if index < d.blockCount then
    match ← d.removeBlock index with
    | some d' => return (d', ⟨index, [], some (.remove index)⟩)
    | none => return (d, ⟨index, [], none⟩)
  else return (d, ⟨index, [], none⟩)

def applyReplaceBlock (d : Document) (index : Nat) (block : Block) :
    Except String (Document × PosMap) := do
  let _ ← d.expectBlock index "ReplaceBlock: block out of bounds"
  return (d.replaceBlock index block, ⟨index, [], none⟩)

namespace EditOp

/-- Apply this operation to a document, returning the position map. -/
def apply (op : EditOp) (d : Document) : Except String (Document × PosMap) :=
  match op with
  | .insertText position text => applyInsertText d position text
  | .deleteRange start stop deleted => applyDeleteRange d start stop deleted
  | .splitBlock position => applySplitBlock d position
  | .mergeBlocks blockIndex _ _ => applyMergeBlocks d blockIndex
  | .toggleInlineStyle start stop styleBit => applyToggleInlineStyle d start stop styleBit
  | .setBlockType blockIndex _ new => applySetBlockType d blockIndex new
  | .setBlockAttrs blockIndex _ new => applySetBlockAttrs d blockIndex new
  | .insertBlock index block => applyInsertBlock d index block
  | .removeBlock index _ => applyRemoveBlock d index
  | .replaceBlock index _ new => applyReplaceBlock d index new
  | .restoreMergedBlock blockIndex saved mergeOffset =>
    applyRestoreMergedBlock d blockIndex saved mergeOffset

def invertInner (op : EditOp) (doc : Option Document) : EditOp :=
  match op with
  | .insertText position text =>
    let stop : DocPosition := ⟨position.blockIndex, position.offset + textLen text⟩
    let deletedRuns :=
      match (doc.bind (·.block position.blockIndex)).bind Block.runs with
      | some runs => extractRunsFromRange runs position.offset stop.offset
      | none => [StyledRun.plain text]
    .deleteRange position stop ⟨[.paragraph deletedRuns], none⟩
  | .deleteRange start _ deleted => .deleteRange start start deleted
  | .splitBlock position =>
    .mergeBlocks (position.blockIndex + 1) Block.emptyParagraph position.offset
  | .mergeBlocks blockIndex saved mergeOffset => .restoreMergedBlock blockIndex saved mergeOffset
  | .toggleInlineStyle start stop styleBit => .toggleInlineStyle start stop styleBit
  | .setBlockType blockIndex old new => .setBlockType blockIndex new old
  | .setBlockAttrs blockIndex old new => .setBlockAttrs blockIndex new old
  | .insertBlock index block => .removeBlock index block
  | .removeBlock index saved => .insertBlock index saved
  | .replaceBlock index old new => .replaceBlock index new old
  | .restoreMergedBlock blockIndex saved mergeOffset => .mergeBlocks blockIndex saved mergeOffset

def invert (op : EditOp) : EditOp := op.invertInner none

/-- Return the inverse operation, using the document to capture styled runs when inverting
`insertText`. -/
def invertWithDoc (op : EditOp) (doc : Document) : EditOp := op.invertInner (some doc)

end EditOp

end Ratatoskr.Rte

import Ratatoskr.Rte.Undo
import Ratatoskr.Rte.Input
import Mathlib.Data.List.Sort

/-!
# Rte.EditorState

The editor state machine (`crates/rte/src/widget/editor_state.rs`): every `Action` the widget can
emit, performed on the document, the selection and the undo history.

* `EditorState.perform` is the transition function; `.error` is a panic.
* `EditorState.applyAction` normalizes only the blocks the position maps report, the paste, undo
  and redo paths normalize the whole document.
* The renderer's saved x coordinate and the blink cycle carry no state here.
-/

namespace Ratatoskr.Rte

/-- An action emitted by the rich text editor widget to the application. -/
inductive Action where
  | edit (action : EditAction)
  | move (motion : MoveAction)
  | select (motion : MoveAction)
  | selectAll
  | undo
  | redo
  | copy
  | cut
  | paste (text : Text)
  | click (pos : DocPosition)
  | doubleClick (pos : DocPosition)
  | tripleClick (pos : DocPosition)
  | drag (pos : DocPosition)
  | linkClicked (href : Text)
  | focus
  | blur

/-- Logical focus and the saved column for vertical movement. -/
structure CursorState where
  focused : Bool
  targetColumn : Option Nat

structure DragState where
  anchor : DocPosition
  active : Bool

/-- A structured clipboard entry captured from an internal copy/cut operation. -/
structure InternalClipboard where
  slice : DocSlice
  plainText : Text

structure EditorState where
  document : Document
  selection : DocSelection
  undoStack : UndoStack
  pendingStyle : InlineStyle
  cursor : CursorState
  drag : Option DragState
  internalClipboard : Option InternalClipboard

def applyAndPush (op : EditOp) (s : Document × List EditOp) :
    Except String (Document × List EditOp) := do
  return ((← op.apply s.1).1, s.2 ++ [op])

/-- Splice styled runs into a block at `offset` by swapping the block. -/
def spliceRunsIntoBlock (blockIdx offset : Nat) (runs : List StyledRun)
    (s : Document × List EditOp) : Except String (Document × List EditOp) :=
  match s.1.block blockIdx with
  | none => .ok s
  | some original =>
    let newBlock :=
      match original.runs with
      | some existing =>
        let split := splitRunsAt existing offset
        original.setRuns (split.1.take split.2 ++ runs ++ split.1.drop split.2)
      | none => original
    -- `RemoveBlock` won't remove the last block, so the order is reversed there
    if s.1.blockCount ≤ 1 then do
      let s ← applyAndPush (.insertBlock blockIdx newBlock) s
      if s.1.blockCount > 1 then
        let saved := (s.1.block (blockIdx + 1)).getD Block.emptyParagraph
        applyAndPush (.removeBlock (blockIdx + 1) saved) s
      else return s
    else do
      let s ← applyAndPush (.removeBlock blockIdx original) s
      applyAndPush (.insertBlock blockIdx newBlock) s

def nonEmptyRuns (runs : List StyledRun) : List StyledRun := runs.filter (!·.isEmpty)

def appendRunsToBlock (blockIdx : Nat) (runs : List StyledRun) (s : Document × List EditOp) :
    Except String (Document × List EditOp) :=
  if (nonEmptyRuns runs).isEmpty then .ok s
  else spliceRunsIntoBlock blockIdx (s.1.blockLen blockIdx) (nonEmptyRuns runs) s

def prependRunsToBlock (blockIdx : Nat) (runs : List StyledRun) (s : Document × List EditOp) :
    Except String (Document × List EditOp) :=
  if (nonEmptyRuns runs).isEmpty then .ok s
  else spliceRunsIntoBlock blockIdx 0 (nonEmptyRuns runs) s

/-- Insert blocks one after the other from `index` on. -/
def insertBlocksAt : Nat → List Block → Document × List EditOp → Except String (Document × List EditOp)
  | _, [], s => .ok s
  | index, b :: bs, s => do
    insertBlocksAt (index + 1) bs (← applyAndPush (.insertBlock index b) s)

/-- Paste an inline fragment at `pos`; the new caret, unless there is nothing to paste. -/
def pasteInlineRuns (pos : DocPosition) (sourceBlock : Block) (s : Document × List EditOp) :
    Except String ((Document × List EditOp) × Option DocPosition) :=
  match sourceBlock.runs with
  | none => .ok (s, none)
  | some sourceRuns =>
    let pasteRuns := nonEmptyRuns sourceRuns
    if pasteRuns.isEmpty then .ok (s, none)
    else do
      let s ← spliceRunsIntoBlock pos.blockIndex pos.offset pasteRuns s
      return (s, some ⟨pos.blockIndex, pos.offset + Block.runsLen pasteRuns⟩)

/-- Insert complete blocks at `pos`, splitting the block first when `pos` is mid-block. -/
def pasteCompleteBlocks (pos : DocPosition) (blocks : List Block) (s : Document × List EditOp) :
    Except String ((Document × List EditOp) × Option DocPosition) := do
  let s ← if pos.offset > 0 then applyAndPush (.splitBlock pos) s else pure s
  let insertIdx := if pos.offset > 0 then pos.blockIndex + 1 else pos.blockIndex
  let s ← insertBlocksAt insertIdx blocks s
  return (s, some ⟨min (insertIdx + blocks.length) (s.1.blockCount - 1), 0⟩)

/-- Paste a multi-block slice at `pos`, merging edges and inserting middles. -/
def pasteMultiBlock (pos : DocPosition) (slice : DocSlice) (s : Document × List EditOp) :
    Except String ((Document × List EditOp) × Option DocPosition) := do
  let first := slice.blocks.headD Block.emptyParagraph
  let s ← applyAndPush (.splitBlock pos) s
  let leftIdx := pos.blockIndex
  let s ←
    match first.runs with
    | some runs => appendRunsToBlock leftIdx runs s
    | none => applyAndPush (.insertBlock (leftIdx + 1) first) s
  let insertIdx := if first.isInlineBlock then leftIdx + 1 else leftIdx + 2
  let middle := slice.blocks.dropLast.drop 1
  let s ← insertBlocksAt insertIdx middle s
  let rightIdx := insertIdx + middle.length
  if slice.blocks.length > 1 then
    let last := slice.blocks.getLastD Block.emptyParagraph
    match last.runs with
    | some runs =>
      let s ← prependRunsToBlock rightIdx runs s
      return (s, some ⟨rightIdx, Block.runsLen runs⟩)
    | none =>
      let s ← applyAndPush (.insertBlock rightIdx last) s
      return (s, some ⟨rightIdx + 1, 0⟩)
  else return (s, some ⟨leftIdx, s.1.blockLen leftIdx⟩)

/-- The paste strategy, decided by the shape of the slice. -/
def pasteBlocks (pos : DocPosition) (slice : DocSlice) (s : Document × List EditOp) :
    Except String ((Document × List EditOp) × Option DocPosition) :=
  if slice.blocks.length = 1 ∧ slice.openStart ∧ slice.openEnd then
    pasteInlineRuns pos (slice.blocks.headD Block.emptyParagraph) s
  else if slice.blocks.length = 1 ∧ !slice.openStart ∧ !slice.openEnd then
    pasteCompleteBlocks pos slice.blocks s
  else if slice.blocks.all (!·.isInlineBlock) then pasteCompleteBlocks pos slice.blocks s
  else pasteMultiBlock pos slice s

/-- `text.replace("\r\n", "\n")`. -/
def replaceCrLf : Text → Text
  | '\r' :: '\n' :: rest => '\n' :: replaceCrLf rest
  | c :: rest => c :: replaceCrLf rest
  | [] => []

/-- The slice of plain paragraphs a multi-line plain text pastes as. -/
def plainTextSlice (text : Text) : DocSlice :=
  let normalized := (replaceCrLf text).map fun c => if c = '\r' then '\n' else c
  ⟨(normalized.splitOn '\n').map fun line => .paragraph [StyledRun.plain line], false, false⟩

/-- `sort_unstable(); dedup()` on the dirty indices. -/
def dedupSorted : List Nat → List Nat
  | a :: b :: rest => if a = b then dedupSorted (b :: rest) else a :: dedupSorted (b :: rest)
  | l => l

def sortDedup (dirty : List Nat) : List Nat := dedupSorted (dirty.insertionSort (· ≤ ·))

namespace EditorState

def fromDocument (doc : Document) : EditorState :=
  { document := doc
    selection := .caret .zero
    undoStack := .default
    pendingStyle := InlineStyle.empty
    cursor := ⟨false, none⟩
    drag := none
    internalClipboard := none }

def selectionText (s : EditorState) : Text :=
  if s.selection.isCollapsed then []
  else
    match s.document.slice s.selection.start s.selection.endPos with
    | none => []
    | some slice => Block.flattenedLines slice.blocks

def setSelection (s : EditorState) (sel : DocSelection) : EditorState :=
  { s with selection := sel, cursor := { s.cursor with targetColumn := none } }

def clampSelection (d : Document) (sel : DocSelection) : DocSelection :=
  ⟨d.clampPosition sel.anchor, d.clampPosition sel.focus⟩

/-- The caret the last cursor-determining op of a batch asks for. -/
def cursorAfterOps (ops : List EditOp) : Option DocPosition :=
  ops.reverse.findSome? fun
    | .insertText position text => some ⟨position.blockIndex, position.offset + textLen text⟩
    | .deleteRange start _ _ => some start
    | .splitBlock position => some ⟨position.blockIndex + 1, 0⟩
    | .mergeBlocks blockIndex _ mergeOffset => some ⟨blockIndex - 1, mergeOffset⟩
    | _ => none

/-- Apply ops one after the other, mapping the selection through each and collecting the dirty
block indices. -/
def applyOpsTracked : List EditOp → Document → DocSelection →
    Except String (Document × DocSelection × List Nat)
  | [], d, sel => .ok (d, sel, [])
  | op :: ops, d, sel => do
    let (d, posMap) ← op.apply d
    let (d, sel, dirty) ← applyOpsTracked ops d ⟨posMap.map sel.anchor, posMap.map sel.focus⟩
    return (d, sel, posMap.blockIndex :: dirty)

/-- Apply a non-empty list of resolved ops and record it in the history. -/
def commitOps (s : EditorState) (ops : List EditOp) : Except String EditorState := do
  let (d, sel, dirty) ← applyOpsTracked ops s.document s.selection
  let sel :=
    match cursorAfterOps ops with
    | some pos => .caret pos
    | none => sel
  let d := normalizeBlocks d (sortDedup dirty)
  let sel := clampSelection d sel
  return { s with
    document := d
    selection := sel
    undoStack := s.undoStack.push ops s.selection sel
    pendingStyle := InlineStyle.empty
    cursor := { s.cursor with targetColumn := none } }

/-- Apply a high-level edit action through the rules engine. -/
def applyAction (s : EditorState) (action : EditAction) : Except String EditorState := do
  let ops ← resolve s.document s.selection action s.pendingStyle
  if ops.isEmpty then
    match action with
    | .toggleInlineStyle style =>
      if s.selection.isCollapsed then
        return { s with
          pendingStyle := InlineStyle.toggle s.pendingStyle style
          undoStack := s.undoStack.breakGroup }
      else return s
    | _ => return s
  else s.commitOps ops

/-- Paste a structured `DocSlice`, preserving block structure and inline formatting. -/
def pasteSlice (s : EditorState) (slice : DocSlice) : Except String EditorState :=
  if slice.blocks.isEmpty then .ok s
  else do
    let collapsed := s.selection.isCollapsed
    let insertPos :=
      if collapsed then s.selection.focus else postDeletePosition s.document s.selection
    let deleteOps := resolveDeleteSelection s.document s.selection
    let d ← applyOps deleteOps s.document
    let ((d, allOps), caret) ← pasteBlocks insertPos slice (d, deleteOps)
    let sel :=
      match caret with
      | some pos => .caret pos
      | none => if collapsed then s.selection else .caret insertPos
    let d := normalize d
    let sel := clampSelection d sel
    return { s with
      document := d
      selection := sel
      undoStack := if allOps.isEmpty then s.undoStack else s.undoStack.push allOps s.selection sel
      pendingStyle := InlineStyle.empty
      cursor := { s.cursor with targetColumn := none } }

def pastePlainText (s : EditorState) (text : Text) : Except String EditorState :=
  if !text.contains '\n' && !text.contains '\r' then s.applyAction (.insertText text)
  else s.pasteSlice (plainTextSlice text)

/-- `Action::Paste`: the internal clipboard wins while its plain text still matches. -/
def paste (s : EditorState) (text : Text) : Except String EditorState :=
  match s.internalClipboard with
  | some clip => if clip.plainText = text then s.pasteSlice clip.slice else s.pastePlainText text
  | none => s.pastePlainText text

/-- Capture the structured slice of the selection into the internal clipboard. -/
def copy (s : EditorState) : EditorState :=
  if s.selection.isCollapsed then s
  else
    match s.document.slice s.selection.start s.selection.endPos with
    | some slice => { s with internalClipboard := some ⟨slice, s.selectionText⟩ }
    | none => s

def cut (s : EditorState) : Except String EditorState :=
  if s.copy.selection.isCollapsed then .ok s.copy else s.copy.applyAction .deleteSelection

/-- Apply the inverses of a group's ops in reverse order (`ops` is already reversed). -/
def undoOpsLoop : List EditOp → Document → Except String Document
  | [], d => .ok d
  | op :: ops, d => do undoOpsLoop ops (← (op.invertWithDoc d).apply d).1

def undoOps (ops : List EditOp) (d : Document) : Except String Document :=
  undoOpsLoop ops.reverse d

def undo (s : EditorState) : Except String EditorState :=
  match s.undoStack.popUndo with
  | none => .ok s
  | some (group, stack) => do
    let d := normalize (← undoOps group.ops s.document)
    return { s with
      document := d, selection := clampSelection d group.cursorBefore, undoStack := stack }

def redo (s : EditorState) : Except String EditorState :=
  match s.undoStack.popRedo with
  | none => .ok s
  | some (group, stack) => do
    let d := normalize (← applyOps group.ops s.document)
    return { s with
      document := d, selection := clampSelection d group.cursorAfter, undoStack := stack }

/-! ## Movement and the mouse -/

section Motion

variable (alnum : Char → Bool)

def moveTarget (s : EditorState) (motion : MoveAction) (extendSelection : Bool) : DocPosition :=
  let doc := s.document
  let focus := s.selection.focus
  let desiredOffset := s.cursor.targetColumn.getD focus.offset
  match motion with
  | .left =>
    if !extendSelection && !s.selection.isCollapsed then s.selection.start else moveLeft doc focus
  | .right =>
    if !extendSelection && !s.selection.isCollapsed then s.selection.endPos
    else moveRight doc focus
  | .wordLeft => wordLeft alnum doc focus
  | .wordRight => wordRight alnum doc focus
  | .home => home focus
  | .endKey => endOfBlock doc focus
  | .documentStart => .zero
  | .documentEnd => doc.endPosition
  | .up =>
    if focus.blockIndex > 0 then
      ⟨focus.blockIndex - 1, min (doc.blockLen (focus.blockIndex - 1)) desiredOffset⟩
    else ⟨0, 0⟩
  | .down =>
    if focus.blockIndex + 1 < doc.blockCount then
      ⟨focus.blockIndex + 1, min (doc.blockLen (focus.blockIndex + 1)) desiredOffset⟩
    else doc.endPosition

/-- Apply a cursor movement; vertical movement keeps the column it started from. -/
def applyMove (s : EditorState) (motion : MoveAction) (extendSelection : Bool) : EditorState :=
  let newFocus := s.moveTarget alnum motion extendSelection
  let targetColumn :=
    if motion = .up ∨ motion = .down then
      some (s.cursor.targetColumn.getD s.selection.focus.offset)
    else none
  { s with
    selection := if extendSelection then ⟨s.selection.anchor, newFocus⟩ else .caret newFocus
    cursor := { s.cursor with targetColumn := targetColumn } }

def handleClick (s : EditorState) (pos : DocPosition) : EditorState :=
  let pos := s.document.clampPosition pos
  { s with
    selection := .caret pos
    drag := some ⟨pos, true⟩
    pendingStyle := InlineStyle.empty
    cursor := { s.cursor with focused := true } }

def handleDoubleClick (s : EditorState) (pos : DocPosition) : EditorState :=
  let word := wordAt alnum s.document (s.document.clampPosition pos)
  { s with
    selection := ⟨word.1, word.2⟩
    drag := none
    pendingStyle := InlineStyle.empty
    cursor := { s.cursor with focused := true } }

def handleTripleClick (s : EditorState) (pos : DocPosition) : EditorState :=
  let block := selectBlock s.document (s.document.clampPosition pos)
  { s with
    selection := ⟨block.1, block.2⟩
    drag := none
    pendingStyle := InlineStyle.empty
    cursor := { s.cursor with focused := true } }

def handleDrag (s : EditorState) (pos : DocPosition) : EditorState :=
  match s.drag with
  | some drag => { s with selection := ⟨drag.anchor, s.document.clampPosition pos⟩ }
  | none => s

/-- Perform an action (called by the app in its `update` method). -/
def perform (s : EditorState) (action : Action) : Except String EditorState :=
  match action with
  | .edit editAction => s.applyAction editAction
  | .move motion => .ok (s.applyMove alnum motion false)
  | .select motion => .ok (s.applyMove alnum motion true)
  | .selectAll => .ok { s with selection := ⟨.zero, s.document.endPosition⟩ }
  | .undo => s.undo
  | .redo => s.redo
  | .copy => .ok s.copy
  | .cut => s.cut
  | .paste text => s.paste text
  | .click pos => .ok (s.handleClick pos)
  | .doubleClick pos => .ok (s.handleDoubleClick alnum pos)
  | .tripleClick pos => .ok (s.handleTripleClick pos)
  | .drag pos => .ok (s.handleDrag pos)
  | .linkClicked _ => .ok s
  | .focus => .ok { s with cursor := { s.cursor with focused := true } }
  | .blur => .ok { s with cursor := { s.cursor with focused := false }, drag := none }

end Motion

end EditorState

end Ratatoskr.Rte

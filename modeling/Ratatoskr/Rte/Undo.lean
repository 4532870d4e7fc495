import Ratatoskr.Rte.Rules

/-!
# Rte.Undo

The undo/redo stack (`crates/rte/src/undo.rs`). Both stacks are lists with the most recent group
last, as the source's vectors.

* `push` merges consecutive insertions into one group, clears the redo stack and evicts the
  oldest groups past `maxEntries`.
* `undo` and `redo` move one group between the stacks.
-/

namespace Ratatoskr.Rte

/-- A group of operations forming one undoable user action. -/
structure UndoGroup where
  ops : List EditOp
  cursorBefore : DocSelection
  cursorAfter : DocSelection

structure UndoStack where
  undo : List UndoGroup
  redo : List UndoGroup
  maxEntries : Nat
  forceNewGroup : Bool

def EditOp.isInsertText : EditOp → Bool
  | .insertText .. => true
  | _ => false

def allInsertText (ops : List EditOp) : Bool := ops.all EditOp.isInsertText

/-- The position just after the last `insertText` in a list of ops. -/
def lastInsertEnd (ops : List EditOp) : Option DocPosition :=
  ops.reverse.findSome? fun
    | .insertText position text => some ⟨position.blockIndex, position.offset + textLen text⟩
    | _ => none

/-- The position of the first `insertText` in a list of ops. -/
def firstInsertPosition (ops : List EditOp) : Option DocPosition :=
  ops.findSome? fun
    | .insertText position _ => some position
    | _ => none

/-- Whether `newOps` should merge into `lastGroup` rather than start a new undo group. -/
def canMerge (lastGroup : UndoGroup) (newOps : List EditOp) (cursorBefore : DocSelection) : Bool :=
  allInsertText lastGroup.ops && allInsertText newOps && cursorBefore == lastGroup.cursorAfter &&
    match lastInsertEnd lastGroup.ops, firstInsertPosition newOps with
    | some lastEnd, some newStart => lastEnd == newStart
    | _, _ => false

namespace UndoStack

def new (maxEntries : Nat) : UndoStack := ⟨[], [], maxEntries, false⟩

def default : UndoStack := new 100

/-- Push a batch of operations, merging with the last group or starting a new one. -/
def push (s : UndoStack) (ops : List EditOp) (cursorBefore cursorAfter : DocSelection) : UndoStack :=
  if ops.isEmpty then s
  else
    let fresh : UndoStack :=
      let undo := s.undo ++ [⟨ops, cursorBefore, cursorAfter⟩]
      { s with redo := [], forceNewGroup := false, undo := undo.drop (undo.length - s.maxEntries) }
    match s.undo.getLast? with
    | some last =>
      if !s.forceNewGroup && canMerge last ops cursorBefore then
        { s with
          redo := []
          undo := s.undo.dropLast ++
            [{ last with ops := last.ops ++ ops, cursorAfter := cursorAfter }] }
      else fresh
    | none => fresh

/-- Pop the most recent undo group and move it to the redo stack. -/
def popUndo (s : UndoStack) : Option (UndoGroup × UndoStack) :=
  s.undo.getLast?.map fun group =>
    (group, { s with undo := s.undo.dropLast, redo := s.redo ++ [group] })

/-- Pop the most recent redo group and move it back to the undo stack. -/
def popRedo (s : UndoStack) : Option (UndoGroup × UndoStack) :=
  s.redo.getLast?.map fun group =>
    (group, { s with redo := s.redo.dropLast, undo := s.undo ++ [group] })

/-- Force the next `push` to start a new group. -/
def breakGroup (s : UndoStack) : UndoStack := { s with forceNewGroup := true }

end UndoStack

end Ratatoskr.Rte

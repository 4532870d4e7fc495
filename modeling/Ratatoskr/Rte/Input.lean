import Ratatoskr.Rte.Document

/-!
# Rte.Input

Cursor movement over the document model (`crates/rte/src/widget/input.rs`). The Unicode
`Alphabetic`/`Numeric` tables behind `char::is_alphanumeric` are the parameter `alnum`.

Word motion walks the flattened text of a block, whose length differs from `Block.charLen` on
images and quotes.
-/

namespace Ratatoskr.Rte

inductive MoveAction where
  | left | right | up | down | home | endKey | wordLeft | wordRight | documentStart | documentEnd
  deriving DecidableEq

inductive CharClass where
  | word | whitespace | other
  deriving DecidableEq

section Motion

variable (alnum : Char → Bool)

def classify (ch : Char) : CharClass :=
  if alnum ch || ch == '_' then .word else if isWhitespace ch then .whitespace else .other

def moveLeft (d : Document) (pos : DocPosition) : DocPosition :=
  if pos.offset > 0 then ⟨pos.blockIndex, pos.offset - 1⟩
  else if pos.blockIndex > 0 then ⟨pos.blockIndex - 1, d.blockLen (pos.blockIndex - 1)⟩
  else pos

def moveRight (d : Document) (pos : DocPosition) : DocPosition :=
  if pos.offset < d.blockLen pos.blockIndex then ⟨pos.blockIndex, pos.offset + 1⟩
  else if pos.blockIndex + 1 < d.blockCount then ⟨pos.blockIndex + 1, 0⟩
  else pos

/-- The flattened text of a block, empty if the index is invalid. -/
def blockText (d : Document) (blockIndex : Nat) : Text :=
  ((d.block blockIndex).map Block.flattenedText).getD []

/-- `while idx > 0 && class(graphemes[idx - 1]) == class { idx -= 1 }`. -/
def skipLeft (graphemes : Text) (cls : CharClass) : Nat → Nat
  | 0 => 0
  | idx + 1 =>
    if (graphemes[idx]?).map (classify alnum) = some cls then skipLeft graphemes cls idx
    else idx + 1

/-- `while idx < len && class(graphemes[idx]) == class { idx += 1 }`, on the graphemes from
`idx` on. -/
def skipRight (cls : CharClass) : Text → Nat → Nat
  | [], idx => idx
  | g :: rest, idx => if classify alnum g = cls then skipRight cls rest (idx + 1) else idx

def wordLeft (d : Document) (pos : DocPosition) : DocPosition :=
  let graphemes := blockText d pos.blockIndex
  if pos.offset = 0 then
    if pos.blockIndex > 0 then ⟨pos.blockIndex - 1, d.blockLen (pos.blockIndex - 1)⟩ else pos
  else
    let idx := skipLeft alnum graphemes .whitespace (min pos.offset graphemes.length)
    match idx, graphemes[idx - 1]? with
    | idx + 1, some g => ⟨pos.blockIndex, skipLeft alnum graphemes (classify alnum g) (idx + 1)⟩
    | _, _ => ⟨pos.blockIndex, 0⟩

/-- Move cursor right by one word: the current class, then the whitespace after it. -/
def wordRight (d : Document) (pos : DocPosition) : DocPosition :=
  let graphemes := blockText d pos.blockIndex
  match graphemes.drop pos.offset with
  | [] => if pos.blockIndex + 1 < d.blockCount then ⟨pos.blockIndex + 1, 0⟩ else pos
  | g :: rest =>
    let idx := skipRight alnum (classify alnum g) (g :: rest) pos.offset
    ⟨pos.blockIndex, skipRight alnum .whitespace (graphemes.drop idx) idx⟩

def home (pos : DocPosition) : DocPosition := ⟨pos.blockIndex, 0⟩

def endOfBlock (d : Document) (pos : DocPosition) : DocPosition :=
  ⟨pos.blockIndex, d.blockLen pos.blockIndex⟩

/-- The word boundaries around a position (left affinity between two classes). -/
def wordAt (d : Document) (pos : DocPosition) : DocPosition × DocPosition :=
  let graphemes := blockText d pos.blockIndex
  let len := graphemes.length
  let anchorIdx :=
    if pos.offset > 0 ∧ pos.offset ≤ len then pos.offset - 1
    else if pos.offset < len then pos.offset
    else len - 1
  match graphemes.drop anchorIdx with
  | [] => (⟨pos.blockIndex, 0⟩, ⟨pos.blockIndex, 0⟩)
  | g :: rest =>
    let targetClass := classify alnum g
    let start := skipLeft alnum graphemes targetClass anchorIdx
    let stop := skipRight alnum targetClass rest (anchorIdx + 1)
    (⟨pos.blockIndex, start⟩, ⟨pos.blockIndex, min stop (d.blockLen pos.blockIndex)⟩)

def selectBlock (d : Document) (pos : DocPosition) : DocPosition × DocPosition :=
  (⟨pos.blockIndex, 0⟩, ⟨pos.blockIndex, d.blockLen pos.blockIndex⟩)

end Motion

end Ratatoskr.Rte

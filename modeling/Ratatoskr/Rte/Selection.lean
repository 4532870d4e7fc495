import Ratatoskr.Lib.Run
import Ratatoskr.Rte.EditorState

/-!
# Rte.Selection

The selection along runs of `EditorState.perform`. Edits, undo, redo and paste clamp it to the
document they leave; clicks clamp; most motions stay inside the block they are in. Two paths do
neither: word motion to the right measures the flattened text of an image or quote, and a drag
reuses the anchor stored by an earlier click.

* `perform_selection_valid_iff` : from a valid selection, exactly the steps meeting
  `KeepsSelection` lead to a valid selection.
* `reaches_selection_valid` : along runs of such steps the selection always stays inside the
  document.
-/

namespace Ratatoskr.Rte

open List
open Lib (Reaches)

variable {d : Document} {p : DocPosition} {sel : DocSelection} {s s' : EditorState}

theorem isValidPosition_iff : d.isValidPosition p = true ↔
      ∃ b, d.blocks[p.blockIndex]? = some b ∧ p.offset ≤ b.charLen := by
  unfold Document.isValidPosition Document.block
  split <;> rename_i h <;> simp [h]

theorem blockLen_eq {i : Nat} {b : Block} (h : d.blocks[i]? = some b) : d.blockLen i = b.charLen := by
  simp [Document.blockLen, Document.block, h]

/-- A position is valid when its block exists and the offset is within the block's length. -/
theorem valid_of_le_blockLen {i o : Nat} (hi : i < d.blocks.length) (ho : o ≤ d.blockLen i) :
    d.isValidPosition ⟨i, o⟩ = true := by
  obtain ⟨b, hb⟩ : ∃ b, d.blocks[i]? = some b := ⟨_, getElem?_eq_getElem hi⟩
  exact isValidPosition_iff.2 ⟨b, hb, by rwa [blockLen_eq hb] at ho⟩

theorem valid_iff_blockLen : d.isValidPosition p = true ↔
      p.blockIndex < d.blocks.length ∧ p.offset ≤ d.blockLen p.blockIndex := by
  constructor
  · intro h
    obtain ⟨b, hb, ho⟩ := isValidPosition_iff.1 h
    exact ⟨(List.getElem?_eq_some_iff.1 hb).1, by rwa [blockLen_eq hb]⟩
  · rintro ⟨hi, ho⟩
    exact valid_of_le_blockLen hi ho

theorem clampPosition_valid (hd : d.blocks ≠ []) (p : DocPosition) :
    d.isValidPosition (d.clampPosition p) = true := by
  have hlen : 0 < d.blocks.length := length_pos_iff.2 hd
  exact valid_of_le_blockLen (by omega) (Nat.min_le_right _ _)

theorem zero_valid (hd : d.blocks ≠ []) : d.isValidPosition .zero = true :=
  valid_of_le_blockLen (length_pos_iff.2 hd) (Nat.zero_le _)

theorem endPosition_valid (hd : d.blocks ≠ []) : d.isValidPosition d.endPosition = true := by
  have hlen : 0 < d.blocks.length := length_pos_iff.2 hd
  exact valid_of_le_blockLen (by omega) (Nat.le_refl _)

def SelectionValid (d : Document) (sel : DocSelection) : Prop :=
  d.isValidPosition sel.anchor = true ∧ d.isValidPosition sel.focus = true

instance (d : Document) (sel : DocSelection) : Decidable (SelectionValid d sel) :=
  inferInstanceAs (Decidable (_ ∧ _))

theorem SelectionValid.caret (h : d.isValidPosition p = true) : SelectionValid d (.caret p) := ⟨h, h⟩

theorem SelectionValid.start (h : SelectionValid d sel) : d.isValidPosition sel.start = true := by
  unfold DocSelection.start
  split
  · exact h.1
  · exact h.2

theorem SelectionValid.endPos (h : SelectionValid d sel) : d.isValidPosition sel.endPos = true := by
  unfold DocSelection.endPos
  split
  · exact h.2
  · exact h.1

theorem clampSelection_valid (hd : d.blocks ≠ []) (sel : DocSelection) :
    SelectionValid d (EditorState.clampSelection d sel) :=
  ⟨clampPosition_valid hd _, clampPosition_valid hd _⟩

theorem ensureBlock_ne_nil (blocks : List Block) : ensureBlock blocks ≠ [] := by
  unfold ensureBlock
  split
  · simp
  · rename_i h
    simpa using h

theorem normalizeBlocks_ne_nil (d : Document) (dirty : List Nat) :
    (normalizeBlocks d dirty).blocks ≠ [] := ensureBlock_ne_nil _

theorem normalize_ne_nil (d : Document) : (normalize d).blocks ≠ [] := normalizeBlocks_ne_nil _ _

/-- What the editing paths leave behind: a non-empty document with the selection clamped to it,
or the document and selection they started from. -/
def Settled (s s' : EditorState) : Prop :=
  (s'.document = s.document ∧ s'.selection = s.selection) ∨
    (s'.document.blocks ≠ [] ∧ SelectionValid s'.document s'.selection)

theorem commitOps_settled {ops : List EditOp} (h : s.commitOps ops = .ok s') : Settled s s' := by
  simp only [EditorState.commitOps, bind, Except.bind] at h
  split at h
  · cases h
  · cases h
    exact .inr ⟨normalizeBlocks_ne_nil _ _, clampSelection_valid (normalizeBlocks_ne_nil _ _) _⟩

theorem applyAction_settled {action : EditAction} (h : s.applyAction action = .ok s') : Settled s s' := by
  simp only [EditorState.applyAction, bind, Except.bind] at h
  split at h
  · cases h
  split at h
  · split at h
    · split at h <;> cases h <;> exact .inl ⟨rfl, rfl⟩
    · cases h
      exact .inl ⟨rfl, rfl⟩
  · exact commitOps_settled h

theorem pasteSlice_settled {slice : DocSlice} (h : s.pasteSlice slice = .ok s') : Settled s s' := by
  unfold EditorState.pasteSlice at h
  split at h
  · cases h
    exact .inl ⟨rfl, rfl⟩
  simp only [bind, Except.bind] at h
  split at h
  · cases h
  split at h
  · cases h
  · cases h
    exact .inr ⟨normalize_ne_nil _, clampSelection_valid (normalize_ne_nil _) _⟩

theorem paste_settled {text : Text} (h : s.paste text = .ok s') : Settled s s' := by
  have hplain : s.pastePlainText text = .ok s' → Settled s s' := by
    intro hp
    unfold EditorState.pastePlainText at hp
    split at hp
    · exact applyAction_settled hp
    · exact pasteSlice_settled hp
  unfold EditorState.paste at h
  split at h
  · split at h
    · exact pasteSlice_settled h
    · exact hplain h
  · exact hplain h

theorem copy_document (s : EditorState) : s.copy.document = s.document := by
  unfold EditorState.copy
  split
  · rfl
  · split <;> rfl

theorem copy_selection (s : EditorState) : s.copy.selection = s.selection := by
  unfold EditorState.copy
  split
  · rfl
  · split <;> rfl

theorem cut_settled (h : s.cut = .ok s') : Settled s s' := by
  unfold EditorState.cut at h
  split at h
  · cases h
    exact .inl ⟨copy_document s, copy_selection s⟩
  · have hs := applyAction_settled h
    unfold Settled at hs ⊢
    rwa [copy_document, copy_selection] at hs

theorem undo_settled (h : s.undo = .ok s') : Settled s s' := by
  unfold EditorState.undo at h
  split at h
  · cases h
    exact .inl ⟨rfl, rfl⟩
  · simp only [bind, Except.bind] at h
    split at h
    · cases h
    · cases h
      exact .inr ⟨normalize_ne_nil _, clampSelection_valid (normalize_ne_nil _) _⟩

theorem redo_settled (h : s.redo = .ok s') : Settled s s' := by
  unfold EditorState.redo at h
  split at h
  · cases h
    exact .inl ⟨rfl, rfl⟩
  · simp only [bind, Except.bind] at h
    split at h
    · cases h
    · cases h
      exact .inr ⟨normalize_ne_nil _, clampSelection_valid (normalize_ne_nil _) _⟩

theorem Settled.valid (h : Settled s s') (hv : SelectionValid s.document s.selection) :
    SelectionValid s'.document s'.selection := by
  rcases h with ⟨hd, hs⟩ | ⟨-, hv'⟩
  · rwa [hd, hs]
  · exact hv'

theorem Settled.ne_nil (h : Settled s s') (hd : s.document.blocks ≠ []) : s'.document.blocks ≠ [] := by
  rcases h with ⟨hd', -⟩ | ⟨hd', -⟩
  · rwa [hd']
  · exact hd'

/-! ## Motions -/

section Motion

variable (alnum : Char → Bool)
variable {d : Document} {p : DocPosition} {b : Block} {s s' : EditorState}

theorem skipLeft_le (graphemes : Text) (cls : CharClass) (idx : Nat) :
    skipLeft alnum graphemes cls idx ≤ idx := by
  induction idx with
  | zero => exact Nat.le_refl _
  | succ idx ih =>
    unfold skipLeft
    split
    · exact Nat.le_succ_of_le ih
    · exact Nat.le_refl _

theorem le_skipRight (cls : CharClass) (graphemes : Text) (idx : Nat) :
    idx ≤ skipRight alnum cls graphemes idx := by
  induction graphemes generalizing idx with
  | nil => exact Nat.le_refl _
  | cons g rest ih =>
    unfold skipRight
    split
    · exact Nat.le_trans (Nat.le_succ _) (ih (idx + 1))
    · exact Nat.le_refl _

theorem skipRight_le (cls : CharClass) (graphemes : Text) (idx : Nat) :
    skipRight alnum cls graphemes idx ≤ idx + graphemes.length := by
  induction graphemes generalizing idx with
  | nil => exact Nat.le_refl _
  | cons g rest ih =>
    unfold skipRight
    have := ih (idx + 1)
    split <;> simp only [length_cons] <;> omega

theorem moveLeft_valid (h : d.isValidPosition p = true) : d.isValidPosition (moveLeft d p) = true := by
  obtain ⟨hi, ho⟩ := valid_iff_blockLen.1 h
  unfold moveLeft
  split
  · exact valid_of_le_blockLen hi (by omega)
  · split
    · exact valid_of_le_blockLen (by omega) (Nat.le_refl _)
    · exact h

theorem moveRight_valid (h : d.isValidPosition p = true) : d.isValidPosition (moveRight d p) = true := by
  obtain ⟨hi, ho⟩ := valid_iff_blockLen.1 h
  unfold moveRight
  split
  · exact valid_of_le_blockLen hi (by omega)
  split
  · rename_i hn
    exact valid_of_le_blockLen hn (Nat.zero_le _)
  · exact h

theorem wordLeft_valid (h : d.isValidPosition p = true) : d.isValidPosition (wordLeft alnum d p) = true := by
  obtain ⟨hi, ho⟩ := valid_iff_blockLen.1 h
  unfold wordLeft
  simp only
  split
  · split
    · exact valid_of_le_blockLen (by omega) (Nat.le_refl _)
    · exact h
  split
  · -- two leftward skips from at most the current offset
    rename_i heq _
    refine valid_of_le_blockLen hi ?_
    have h1 := skipLeft_le alnum (blockText d p.blockIndex) .whitespace
      (min p.offset (blockText d p.blockIndex).length)
    rename_i g _
    have h2 := skipLeft_le alnum (blockText d p.blockIndex) (classify alnum g)
    exact Nat.le_trans (h2 _) (by omega)
  · exact valid_of_le_blockLen hi (Nat.zero_le _)

theorem wordAt_valid (h : d.isValidPosition p = true) :
    SelectionValid d ⟨(wordAt alnum d p).1, (wordAt alnum d p).2⟩ := by
  obtain ⟨hi, ho⟩ := valid_iff_blockLen.1 h
  unfold wordAt
  simp only
  split
  · exact ⟨valid_of_le_blockLen hi (Nat.zero_le _), valid_of_le_blockLen hi (Nat.zero_le _)⟩
  refine ⟨valid_of_le_blockLen hi ?_, valid_of_le_blockLen hi (Nat.min_le_right _ _)⟩
  refine Nat.le_trans (skipLeft_le _ _ _ _) ?_
  split
  · omega
  · split <;> omega

theorem runsText_length (runs : List StyledRun) : (Block.runsText runs).length = Block.runsLen runs := by
  induction runs with
  | nil => rfl
  | cons r rs ih =>
    simp only [Block.runsText, Block.runsLen, flatMap_cons, length_append, map_cons,
      sum_cons, StyledRun.charLen, textLen] at ih ⊢
    omega

theorem inline_flattenedText_length (h : b.isInlineBlock = true) : b.flattenedText.length = b.charLen := by
  cases b <;> simp_all [Block.isInlineBlock, Block.flattenedText, Block.charLen, Block.runs, runsText_length]

theorem atomic_charLen (h : b.isInlineBlock = false) : b.charLen = 1 := by
  cases b <;> simp_all [Block.isInlineBlock, Block.charLen, Block.runs]

/-- Word motion to the right from the start of `text` crosses exactly one grapheme. -/
def firstGraphemeAlone (alnum : Char → Bool) : Text → Bool
  | g :: h :: _ => classify alnum h ≠ classify alnum g && classify alnum h ≠ .whitespace
  | _ => true

/-- Word motion to the right from `p` stays inside its block: the block holds inline text, or
its flattened text ends before the caret, or only the first grapheme of it is crossed. -/
def WordRightStays (alnum : Char → Bool) (d : Document) (p : DocPosition) : Prop :=
  ∀ b, d.block p.blockIndex = some b →
    b.isInlineBlock = true ∨ b.flattenedText.length ≤ p.offset ∨
      (p.offset = 0 ∧ firstGraphemeAlone alnum b.flattenedText = true)

theorem blockText_eq {i : Nat} (h : d.blocks[i]? = some b) : blockText d i = b.flattenedText := by
  simp [blockText, Document.block, h]

/-- The offset word motion to the right lands on, when it stays in the block. -/
def wordRightOffset (alnum : Char → Bool) (graphemes : Text) (g : Char) (rest : Text) (offset : Nat) : Nat :=
  skipRight alnum .whitespace
    (graphemes.drop (skipRight alnum (classify alnum g) (g :: rest) offset))
    (skipRight alnum (classify alnum g) (g :: rest) offset)

theorem wordRightOffset_le {graphemes : Text} {g : Char} {rest : Text} {offset : Nat}
    (h : graphemes.drop offset = g :: rest) :
    wordRightOffset alnum graphemes g rest offset ≤ graphemes.length := by
  have hlen : (graphemes.drop offset).length = rest.length + 1 := by rw [h]; rfl
  simp only [length_drop] at hlen
  have h1 := skipRight_le alnum (classify alnum g) (g :: rest) offset
  have h2 := skipRight_le alnum .whitespace
    (graphemes.drop (skipRight alnum (classify alnum g) (g :: rest) offset))
    (skipRight alnum (classify alnum g) (g :: rest) offset)
  simp only [length_cons, length_drop] at h1 h2
  unfold wordRightOffset
  omega

theorem lt_wordRightOffset (graphemes : Text) (g : Char) (rest : Text) (offset : Nat) :
    offset < wordRightOffset alnum graphemes g rest offset := by
  have h1 := le_skipRight alnum (classify alnum g) rest (offset + 1)
  have h2 := le_skipRight alnum .whitespace
    (graphemes.drop (skipRight alnum (classify alnum g) rest (offset + 1)))
    (skipRight alnum (classify alnum g) rest (offset + 1))
  simp only [wordRightOffset, skipRight, if_true]
  omega

/-- From the start of a text, word motion lands on offset 1 exactly when its first grapheme
stands alone. -/
theorem wordRightOffset_zero_le_one (g : Char) (rest : Text) :
    wordRightOffset alnum (g :: rest) g rest 0 ≤ 1 ↔ firstGraphemeAlone alnum (g :: rest) = true := by
  cases rest with
  | nil => simp [wordRightOffset, skipRight, firstGraphemeAlone]
  | cons h t =>
    simp only [wordRightOffset, skipRight, if_true, firstGraphemeAlone, decide_not,
      Bool.and_eq_true, Bool.not_eq_true', decide_eq_false_iff_not]
    by_cases hc : classify alnum h = classify alnum g
    · have h1 := le_skipRight alnum (classify alnum g) t (0 + 1 + 1)
      have h2 := le_skipRight alnum .whitespace
        ((g :: h :: t).drop (skipRight alnum (classify alnum g) t (0 + 1 + 1)))
        (skipRight alnum (classify alnum g) t (0 + 1 + 1))
      simp only [hc, if_true, not_true_eq_false, false_and, iff_false]
      omega
    · by_cases hw : classify alnum h = .whitespace
      · have h1 := le_skipRight alnum .whitespace t (1 + 1)
        simp only [if_neg hc, Nat.zero_add, drop_succ_cons, drop_zero, skipRight]
        simp only [hw, if_true, not_true_eq_false, and_false, iff_false]
        omega
      · simp [hc, hw, skipRight]

theorem wordRight_valid_iff (h : d.isValidPosition p = true) :
    d.isValidPosition (wordRight alnum d p) = true ↔ WordRightStays alnum d p := by
  obtain ⟨b, hb, ho⟩ := isValidPosition_iff.1 h
  obtain ⟨hi, -⟩ := valid_iff_blockLen.1 h
  have hstays : WordRightStays alnum d p ↔
      (b.isInlineBlock = true ∨ b.flattenedText.length ≤ p.offset ∨
        (p.offset = 0 ∧ firstGraphemeAlone alnum b.flattenedText = true)) := by
    simp [WordRightStays, Document.block, hb]
  rw [hstays]
  unfold wordRight
  simp only [blockText_eq hb]
  split
  · -- at the end of the flattened text: the next block, or no move
    rename_i hdrop
    have hlen : b.flattenedText.length ≤ p.offset := by simpa using hdrop
    have hvalid : d.isValidPosition
        (if p.blockIndex + 1 < d.blockCount then ⟨p.blockIndex + 1, 0⟩ else p) = true := by
      split
      · rename_i hn
        exact valid_of_le_blockLen hn (Nat.zero_le _)
      · exact h
    simp [hvalid, hlen]
  · rename_i g rest hdrop
    have hle := wordRightOffset_le alnum hdrop
    have hgt := lt_wordRightOffset alnum b.flattenedText g rest p.offset
    change d.isValidPosition ⟨p.blockIndex, wordRightOffset alnum b.flattenedText g rest p.offset⟩
      = true ↔ _
    rw [valid_iff_blockLen, blockLen_eq hb]
    cases hinl : b.isInlineBlock with
    | true =>
      rw [inline_flattenedText_length hinl] at hle
      simp [hi, hle]
    | false =>
      rw [atomic_charLen hinl] at ho ⊢
      have hnot : ¬ b.flattenedText.length ≤ p.offset := by omega
      by_cases hz : p.offset = 0
      · have htext : b.flattenedText = g :: rest := by simpa [hz] using hdrop
        have := wordRightOffset_zero_le_one alnum g rest
        simp only [hz, htext] at this ⊢
        simp [hi, this]
      · simp only [hz, hnot, false_and, or_false, Bool.false_eq_true, iff_false]
        omega

theorem moveTarget_valid_iff (motion : MoveAction) (ext : Bool) (hd : s.document.blocks ≠ [])
    (h : SelectionValid s.document s.selection) :
    s.document.isValidPosition (s.moveTarget alnum motion ext) = true ↔
      (motion = .wordRight → WordRightStays alnum s.document s.selection.focus) := by
  obtain ⟨hi, ho⟩ := valid_iff_blockLen.1 h.2
  by_cases hm : motion = .wordRight
  · subst hm
    simpa [EditorState.moveTarget] using wordRight_valid_iff alnum h.2
  simp only [hm, false_implies, iff_true]
  cases motion with
  | wordRight => exact absurd rfl hm
  | left =>
    simp only [EditorState.moveTarget]
    split
    · exact h.start
    · exact moveLeft_valid h.2
  | right =>
    simp only [EditorState.moveTarget]
    split
    · exact h.endPos
    · exact moveRight_valid h.2
  | wordLeft => exact wordLeft_valid alnum h.2
  | home => exact valid_of_le_blockLen hi (Nat.zero_le _)
  | endKey => exact valid_of_le_blockLen hi (Nat.le_refl _)
  | documentStart => exact zero_valid hd
  | documentEnd => exact endPosition_valid hd
  | up =>
    simp only [EditorState.moveTarget]
    split
    · exact valid_of_le_blockLen (by omega) (Nat.min_le_left _ _)
    · exact zero_valid hd
  | down =>
    simp only [EditorState.moveTarget]
    split
    · rename_i hn
      exact valid_of_le_blockLen hn (Nat.min_le_left _ _)
    · exact endPosition_valid hd

/-! ## Steps and runs -/

/-- The steps that keep a valid selection valid: word motion to the right stays in its block, and
a drag starts from an anchor the document still has. -/
def KeepsSelection (alnum : Char → Bool) (s : EditorState) : Action → Prop
  | .move motion | .select motion =>
    motion = .wordRight → WordRightStays alnum s.document s.selection.focus
  | .drag _ => ∀ drag, s.drag = some drag → s.document.isValidPosition drag.anchor = true
  | _ => True

theorem perform_ne_nil {a : Action} (hd : s.document.blocks ≠ []) (h : s.perform alnum a = .ok s') :
    s'.document.blocks ≠ [] := by
  cases a with
  | edit action => exact (applyAction_settled h).ne_nil hd
  | undo => exact (undo_settled h).ne_nil hd
  | redo => exact (redo_settled h).ne_nil hd
  | cut => exact (cut_settled h).ne_nil hd
  | paste text => exact (paste_settled h).ne_nil hd
  | copy =>
    cases h
    rwa [copy_document]
  | drag pos =>
    cases h
    unfold EditorState.handleDrag
    split <;> exact hd
  | move | select | selectAll | click | doubleClick | tripleClick | linkClicked | focus | blur =>
    cases h
    exact hd

/-- One step from a valid selection leads to a valid selection exactly when it meets
`KeepsSelection`. -/
theorem perform_selection_valid_iff {a : Action} (hd : s.document.blocks ≠ [])
    (hv : SelectionValid s.document s.selection) (h : s.perform alnum a = .ok s') :
    SelectionValid s'.document s'.selection ↔ KeepsSelection alnum s a := by
  have settled : Settled s s' → (SelectionValid s'.document s'.selection ↔ True) := fun hs =>
    iff_of_true (hs.valid hv) trivial
  cases a with
  | edit action => exact settled (applyAction_settled h)
  | undo => exact settled (undo_settled h)
  | redo => exact settled (redo_settled h)
  | cut => exact settled (cut_settled h)
  | paste text => exact settled (paste_settled h)
  | copy =>
    cases h
    exact settled (.inl ⟨copy_document s, copy_selection s⟩)
  | move motion =>
    cases h
    have := moveTarget_valid_iff alnum motion false hd hv
    simpa [EditorState.applyMove, SelectionValid, DocSelection.caret, KeepsSelection] using this
  | select motion =>
    cases h
    have := moveTarget_valid_iff alnum motion true hd hv
    simpa [EditorState.applyMove, SelectionValid, KeepsSelection, hv.1] using this
  | selectAll =>
    cases h
    exact iff_of_true ⟨zero_valid hd, endPosition_valid hd⟩ trivial
  | click pos =>
    cases h
    exact iff_of_true (.caret (clampPosition_valid hd pos)) trivial
  | doubleClick pos =>
    cases h
    exact iff_of_true (wordAt_valid alnum (clampPosition_valid hd pos)) trivial
  | tripleClick pos =>
    cases h
    obtain ⟨hi, -⟩ := valid_iff_blockLen.1 (clampPosition_valid hd pos)
    exact iff_of_true ⟨valid_of_le_blockLen hi (Nat.zero_le _),
      valid_of_le_blockLen hi (Nat.le_refl _)⟩ trivial
  | drag pos =>
    cases h
    simp only [KeepsSelection, EditorState.handleDrag]
    split
    · rename_i dr hdr
      simp [SelectionValid, hdr, clampPosition_valid hd]
    · rename_i hdr
      simp [hdr, hv]
  | linkClicked | focus | blur =>
    cases h
    exact iff_of_true hv trivial

/-- Along every run of steps meeting `KeepsSelection` the selection stays inside the document,
and the first step that does not meet it leaves the selection outside. -/
theorem reaches_selection_valid (doc : Document) (hdoc : doc.blocks ≠ []) (s : EditorState)
    (h : Reaches (EditorState.perform alnum) (KeepsSelection alnum) (.fromDocument doc) s) :
    SelectionValid s.document s.selection ∧ ∀ a s', s.perform alnum a = .ok s' →
        (SelectionValid s'.document s'.selection ↔ KeepsSelection alnum s a) := by
  have hinv : s.document.blocks ≠ [] ∧ SelectionValid s.document s.selection := by
    apply h.invariant (I := fun s => s.document.blocks ≠ [] ∧ SelectionValid s.document s.selection)
    · exact ⟨hdoc, .caret (zero_valid hdoc)⟩
    · rintro u a v ⟨hd, hv⟩ ha hstep
      exact ⟨perform_ne_nil alnum hd hstep, (perform_selection_valid_iff alnum hd hv hstep).2 ha⟩
  exact ⟨hinv.2, fun a s' hs => perform_selection_valid_iff alnum hinv.1 hinv.2 hs⟩

theorem reaches_selection_valid_typing :
    ∃ s, (EditorState.fromDocument .new).perform Char.isAlphanum (.edit (.insertText ['a'])) = .ok s ∧
      SelectionValid s.document s.selection ∧ s.selection.focus = ⟨0, 1⟩ :=
  ⟨_, rfl, (reaches_selection_valid Char.isAlphanum .new (by decide) _
    ((Reaches.refl _).tail (a := .edit (.insertText ['a'])) trivial rfl)).1, by decide⟩

/-- Word motion over an image walks its alt text, and a drag after an edit reuses the anchor of
the click before it. -/
theorem selection_leaves_document :
    (∃ s, (EditorState.fromDocument ⟨[.image [] ['a', 'b'] none none]⟩).perform Char.isAlphanum
        (.move .wordRight) = .ok s ∧ ¬ SelectionValid s.document s.selection) ∧
    (∃ s, (do
        let s ← (EditorState.fromDocument ⟨[.paragraph [.plain ['a', 'b']]]⟩).perform
          Char.isAlphanum (.click ⟨0, 2⟩)
        let s ← s.perform Char.isAlphanum (.edit .deleteBackward)
        s.perform Char.isAlphanum (.drag ⟨0, 0⟩)) = .ok s ∧ ¬ SelectionValid s.document s.selection) :=
  ⟨⟨_, rfl, by decide⟩, ⟨_, rfl, by decide⟩⟩

end Motion

end Ratatoskr.Rte

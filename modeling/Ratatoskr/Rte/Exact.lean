import Ratatoskr.Rte.FlatDelete
import Ratatoskr.Rte.FlatToggle

/-!
# Rte.Exact

Which edits are undone exactly. A batch starts with the deletion of the selection, if there is one;
the block that is then at the caret, the landing block, decides what the rest of the batch does.
All conditions are on the document before the edit.

* `landing` : the block the caret is in after the deletion.
* `shapeExact` : the edit is undone up to formatting, whatever the view.
* `run_delete_blocks`, `selectionOps_remains` : a deletion never panics; what it leaves, block by block.
* `rewinds_of_shapeExact` : the inverses of its batch give back what the document said.
-/

namespace Ratatoskr.Rte

open List
open Lib (Maps Triple)
open EditorState

def caretTarget (d : Document) (sel : DocSelection) : DocPosition :=
  if sel.isCollapsed then sel.focus else postDeletePosition d sel

def selectionOps (d : Document) (sel : DocSelection) : List EditOp :=
  if sel.isCollapsed then [] else buildDeleteSelection d sel

/-- The block at the caret after the deletion of `[p, stop)`: the start block if it holds text, what
is left of an inline end block, the first block after the range, or the placeholder of an emptied
document. -/
def landing (d : Document) (p stop : DocPosition) : Option Block :=
  if stop ≤ p then d.block p.blockIndex
  else
    match d.block p.blockIndex, d.block stop.blockIndex with
    | some sb, some eb =>
      if sb.isInlineBlock then some sb
      else if (extractRunsFromOffset (eb.runs.getD []) stop.offset).isEmpty then
        match survivors eb stop.offset (d.blocks.drop (stop.blockIndex + 1)) with
        | b :: _ => some b
        | [] => if p.blockIndex = 0 then some Block.emptyParagraph else none
      else some eb
    | _, _ => none

def landingBlock (d : Document) (sel : DocSelection) : Option Block :=
  landing d (caretTarget d sel) sel.endPos

def selectionExact (d : Document) (sel : DocSelection) : Bool :=
  sel.isCollapsed || decide (sel.endPos ≤ postDeletePosition d sel) ||
    deleteExact d (postDeletePosition d sel) sel.endPos

section Selection

variable {d : Document} {sel : DocSelection}

theorem endPos_collapsed (h : sel.isCollapsed = true) : sel.endPos = sel.focus := by
  have heq : sel.anchor = sel.focus := by simpa [DocSelection.isCollapsed] using h
  unfold DocSelection.endPos
  rw [heq]
  simp

/-- The deletion of a selection starts at a valid position, and at the start of an atomic block. -/
theorem postDeletePosition_spec (hv : SelectionValid d sel) (hcol : sel.isCollapsed = false) :
    d.isValidPosition (postDeletePosition d sel) = true ∧
      ∀ b, d.blocks[(postDeletePosition d sel).blockIndex]? = some b → b.isInlineBlock = false →
        (postDeletePosition d sel).offset = 0 := by
  have hlt := DocSelection.start_lt_endPos hcol
  obtain ⟨sb, hsb, hso⟩ := isValidPosition_iff.1 hv.start
  obtain ⟨eb, heb, heo⟩ := isValidPosition_iff.1 hv.endPos
  have hi := (List.getElem?_eq_some_iff.1 heb).1
  unfold postDeletePosition
  simp only
  split
  · rename_i h
    exact ⟨valid_of_le_blockLen h.2.1 (Nat.zero_le _), fun _ _ _ => rfl⟩
  rename_i h
  refine ⟨hv.start, ?_⟩
  intro b hb hatomic
  rw [hb] at hsb
  by_contra hne
  -- the caret would be past the only offset of the last block
  have hat : blockIsAtomicAt d sel.start.blockIndex = true := by
    simp [blockIsAtomicAt, Document.block, hb, Block.isAtomicBlock, hatomic]
  have hlast : ¬ sel.start.blockIndex + 1 < d.blockCount := fun hlt' =>
    h ⟨Nat.pos_of_ne_zero hne, hlt', hat⟩
  rw [DocPosition.lt_iff] at hlt
  simp only [Document.blockCount] at hlast
  have heq : sel.start.blockIndex = sel.endPos.blockIndex := by omega
  rw [← heq, hb] at heb
  cases heb
  have := atomic_charLen hatomic
  omega

theorem buildDeleteSelection_cases (d : Document) (sel : DocSelection) :
    (sel.endPos ≤ postDeletePosition d sel ∧ buildDeleteSelection d sel = []) ∨
      (postDeletePosition d sel < sel.endPos ∧
        buildDeleteSelection d sel =
          [.deleteRange (postDeletePosition d sel) sel.endPos
            (buildDeletedContent d (postDeletePosition d sel) sel.endPos)]) := by
  unfold buildDeleteSelection
  simp only
  split
  · rename_i h
    exact .inl ⟨h, rfl⟩
  · rename_i h
    refine .inr ⟨?_, rfl⟩
    simp only [DocPosition.le_iff, DocPosition.lt_iff] at h ⊢
    omega

end Selection

theorem getElem?_mid_ensure (pre rest : List Block) : (ensureBlock (pre ++ rest))[pre.length]? =
      match rest with
      | b :: _ => some b | [] => if pre.length = 0 then some Block.emptyParagraph else none := by
  cases rest with
  | cons b rest =>
    rw [ensureBlock_of_ne_nil (by simp)]
    simp
  | nil =>
    cases pre with
    | nil => rfl
    | cons c pre => simp [ensureBlock]

/-- The blocks from the caret on after the deletion of `[p, stop)`. -/
def remainder (d : Document) (p stop : DocPosition) : List Block :=
  let post := d.blocks.drop (stop.blockIndex + 1)
  match d.block p.blockIndex, d.block stop.blockIndex with
  | some sb, some eb =>
    if p.blockIndex = stop.blockIndex ∧ sb.isInlineBlock = true then
      sb.setRuns (ensureRun (deleteRuns (sb.runs.getD []) p.offset stop.offset)) :: post
    else
      match buildCrossDeleteReplacement sb p.offset eb stop.offset with
      | some nb => nb :: survivors eb stop.offset post
      | none => survivors eb stop.offset post
  | _, _ => d.blocks.drop p.blockIndex

theorem run_delete_blocks {d : Document} {p stop : DocPosition} {sb eb : Block}
    (hsb : d.blocks[p.blockIndex]? = some sb) (heb : d.blocks[stop.blockIndex]? = some eb)
    (hlt : p < stop) (hoff : sb.isInlineBlock = false → p.offset = 0) (deleted : DeletedContent) :
    EditOp.run (.deleteRange p stop deleted) d =
      .ok ⟨ensureBlock (d.blocks.take p.blockIndex ++ remainder d p stop)⟩ := by
  obtain ⟨i, s⟩ := p
  obtain ⟨j, e⟩ := stop
  simp only [DocPosition.lt_iff] at hlt hsb heb hoff
  simp only [remainder, Document.block, hsb, heb]
  by_cases hij : i = j
  · subst hij
    rw [hsb] at heb
    cases heb
    obtain ⟨pre, post, rfl, rfl⟩ := exists_mid hsb
    have hse : s < e := by omega
    rw [drop_mid, List.take_left]
    cases hinl : sb.isInlineBlock with
    | true =>
      obtain ⟨rs, hruns⟩ := exists_runs hinl
      have hap : EditOp.apply (.deleteRange ⟨pre.length, s⟩ ⟨pre.length, e⟩ deleted)
          ⟨pre ++ sb :: post⟩ = _ :=
        (applyDeleteRange_single _ _ deleted hse).trans
          (applySingleBlockDelete_inline hruns (Nat.le_of_lt hse))
      rw [run_ok hap, if_pos ⟨rfl, rfl⟩, hruns, Option.getD_some, ensureBlock_of_ne_nil (by simp)]
    | false =>
      obtain rfl := hoff hinl
      obtain ⟨pm, heq, -⟩ := applySingleBlockDelete_atomic pre post hinl 0 e
      rw [if_pos ⟨rfl, hse⟩] at heq
      have hap : EditOp.apply (.deleteRange ⟨pre.length, 0⟩ ⟨pre.length, e⟩ deleted)
          ⟨pre ++ sb :: post⟩ = _ := (applyDeleteRange_single _ _ deleted hse).trans heq
      have hsurv : survivors sb e post = post := if_pos (.inr hse)
      rw [run_ok hap, hsurv]
      simp [buildCrossDeleteReplacement, runs_eq_none hinl]
  · have hij' : i < j := by omega
    obtain ⟨pre, mid, post, rfl, rfl, rfl⟩ := exists_mid_two hsb heb hij'
    obtain ⟨pm, heq, -⟩ := applyCrossBlockDelete_mid pre mid post sb eb s e
    have hap : EditOp.apply (.deleteRange ⟨pre.length, s⟩ ⟨pre.length + 1 + mid.length, e⟩ deleted)
        ⟨pre ++ sb :: (mid ++ eb :: post)⟩ = _ :=
      (applyDeleteRange_cross _ s e deleted hij').trans heq
    rw [run_ok hap, if_neg (fun h => hij h.1), drop_mid_two, List.take_left]
    cases buildCrossDeleteReplacement sb s eb e with
    | some nb =>
      simp only
      rw [ensureBlock_of_ne_nil (by simp)]
    | none => rfl

/-- Where the deletion leaves the caret. -/
theorem run_delete_landing {d d' : Document} {p stop : DocPosition} {sb eb : Block}
    {deleted : DeletedContent} (hsb : d.blocks[p.blockIndex]? = some sb)
    (heb : d.blocks[stop.blockIndex]? = some eb) (hlt : p < stop)
    (hoff : sb.isInlineBlock = false → p.offset = 0)
    (h : EditOp.run (.deleteRange p stop deleted) d = .ok d') :
    (d'.blocks[p.blockIndex]?).map Block.isInlineBlock = (landing d p stop).map Block.isInlineBlock := by
  rw [run_delete_blocks hsb heb hlt hoff] at h
  cases h
  have hnle : ¬ stop ≤ p := by
    simp only [DocPosition.lt_iff, DocPosition.le_iff] at hlt ⊢
    omega
  have hlen : (d.blocks.take p.blockIndex).length = p.blockIndex :=
    length_take_of_le (Nat.le_of_lt (List.getElem?_eq_some_iff.1 hsb).1)
  have hmid := getElem?_mid_ensure (d.blocks.take p.blockIndex) (remainder d p stop)
  rw [hlen] at hmid
  rw [hmid, landing, if_neg hnle]
  simp only [remainder, Document.block, hsb, heb]
  cases hsr : sb.runs with
  | some rs =>
    have hinl := isInline_of_runs hsr
    by_cases hij : p.blockIndex = stop.blockIndex <;> simp [buildCrossDeleteReplacement, hsr, hinl, hij]
  | none =>
    have hatomic : sb.isInlineBlock = false := by rw [← runs_isSome, hsr]; rfl
    simp only [buildCrossDeleteReplacement, hsr, hatomic]
    cases her : eb.runs with
    | none => simp [extractRunsFromOffset, extractRunsFromOffsetLoop]
    | some ers =>
      by_cases hnil : (extractRunsFromOffset ers stop.offset).isEmpty = true
      · simp [hnil]
      · simp [hnil, isInline_of_runs her]

/-! ## After the deletion -/

section View

variable {φ : Type} (view : Format → φ)
variable {F G : List (FlatBlock φ)} {d d1 : Document} {sel : DocSelection}

theorem flatDelete_kind {p stop : DocPosition} {k : InlineKind} {cs : List (Grapheme × φ)}
    {y : FlatBlock φ} (hx : F[p.blockIndex]? = some (.text k cs))
    (hy : F[stop.blockIndex]? = some y) (hp : p.offset ≤ cs.length) :
    ∃ ds, (flatDelete F p stop)[p.blockIndex]? = some (.text k ds) ∧ p.offset ≤ ds.length := by
  have hlen : (F.take p.blockIndex).length = p.blockIndex := by
    have := (List.getElem?_eq_some_iff.1 hx).1
    simp
    omega
  have hmid : ∀ (c : FlatBlock φ) rest,
      (F.take p.blockIndex ++ c :: rest)[p.blockIndex]? = some c := by
    intro c rest
    rw [getElem?_append_right (by omega), hlen]
    simp
  simp only [flatDelete, hx, hy]
  split
  · exact ⟨_, hmid _ _, by simp; omega⟩
  simp only [FlatBlock.crossDelete]
  rw [ensureFlat_of_ne_nil (by simp)]
  exact ⟨_, hmid _ _, by simp; omega⟩

/-- What the deletion of the selection leaves at the caret. -/
structure Landed (d : Document) (sel : DocSelection) (d1 : Document) : Prop where
  block : (d1.blocks[(caretTarget d sel).blockIndex]?).map Block.isInlineBlock =
    (landingBlock d sel).map Block.isInlineBlock
  within : ∀ b, d1.blocks[(caretTarget d sel).blockIndex]? = some b →
    (caretTarget d sel).offset ≤ b.charLen
  kind : ∀ b k cs, d.blocks[(caretTarget d sel).blockIndex]? = some b →
    flatBlock view b = .text k cs →
    ∃ b1 ds, d1.blocks[(caretTarget d sel).blockIndex]? = some b1 ∧ flatBlock view b1 = .text k ds

theorem Landed.refl (hp : d.isValidPosition (caretTarget d sel) = true)
    (hstop : sel.endPos ≤ caretTarget d sel) : Landed view d sel d where
  block := by
    rw [landingBlock, landing, if_pos hstop]
    rfl
  within := by
    intro b hb
    obtain ⟨c, hc, hle⟩ := isValidPosition_iff.1 hp
    rw [hb] at hc
    cases hc
    exact hle
  kind := fun b _ cs hb hk => ⟨b, cs, hb, hk⟩

theorem applyOps_singleton {op : EditOp} {d' : Document} (h : applyOps [op] d = .ok d') :
    op.run d = .ok d' := by
  rw [applyOps_cons] at h
  cases hrun : op.run d with
  | error e => simp [hrun, bind, Except.bind] at h
  | ok d1 =>
    simp only [hrun] at h
    exact h

theorem selectionOps_landed (hv : SelectionValid d sel)
    (h : applyOps (selectionOps d sel) d = .ok d1) : Landed view d sel d1 := by
  cases hcol : sel.isCollapsed with
  | true =>
    have htarget : caretTarget d sel = sel.focus := by simp [caretTarget, hcol]
    simp only [selectionOps, hcol] at h
    cases h
    refine .refl view (by rw [htarget]; exact hv.2) ?_
    rw [htarget, endPos_collapsed hcol]
    exact DocPosition.le_iff.2 (.inr ⟨rfl, Nat.le_refl _⟩)
  | false =>
    have htarget : caretTarget d sel = postDeletePosition d sel := by simp [caretTarget, hcol]
    obtain ⟨hp, hatomic⟩ := postDeletePosition_spec hv hcol
    simp only [selectionOps, hcol] at h
    rcases buildDeleteSelection_cases d sel with ⟨hle, hops⟩ | ⟨hlt, hops⟩
    · rw [hops] at h
      cases h
      exact .refl view (by rw [htarget]; exact hp) (by rw [htarget]; exact hle)
    rw [hops] at h
    have hrun := applyOps_singleton h
    obtain ⟨sb, hsb, hso⟩ := isValidPosition_iff.1 hp
    obtain ⟨eb, heb, -⟩ := isValidPosition_iff.1 hv.endPos
    have hland := run_delete_landing hsb heb hlt (hatomic sb hsb) hrun
    have hkind : ∀ k cs, flatBlock view sb = .text k cs →
        ∃ b1 ds, d1.blocks[(postDeletePosition d sel).blockIndex]? = some b1 ∧
          flatBlock view b1 = .text k ds ∧ (postDeletePosition d sel).offset ≤ ds.length := by
      intro k cs hk
      have hinl : sb.isInlineBlock = true := by rw [← isText_flatBlock view, hk]; rfl
      obtain ⟨d', hd', hflat⟩ := run_delete_flat view hsb heb hlt (hatomic sb hsb)
        (fun hf => by rw [hinl] at hf; cases hf)
        (buildDeletedContent d (postDeletePosition d sel) sel.endPos)
      rw [hrun] at hd'
      cases hd'
      have hx : (flat view d)[(postDeletePosition d sel).blockIndex]? = some (.text k cs) := by
        rw [flat_getElem?, hsb, Option.map_some, hk]
      have hy : (flat view d)[sel.endPos.blockIndex]? = some (flatBlock view eb) := by
        rw [flat_getElem?, heb]
        rfl
      have hlen : (postDeletePosition d sel).offset ≤ cs.length := by
        have := len_flatBlock view sb
        rw [hk] at this
        simp only [FlatBlock.len] at this
        omega
      obtain ⟨ds, hds, hle⟩ := flatDelete_kind hx hy hlen
      rw [← hflat, flat_getElem?] at hds
      obtain ⟨b1, hb1, hk1⟩ := Option.map_eq_some_iff.1 hds
      exact ⟨b1, ds, hb1, hk1, hle⟩
    constructor
    · rw [landingBlock, htarget]
      exact hland
    · rw [htarget]
      intro b hb
      cases hinl : sb.isInlineBlock with
      | true =>
        obtain ⟨k, cs, hk, -⟩ := exists_text view hinl
        obtain ⟨b1, ds, hb1, hk1, hle⟩ := hkind k cs hk
        rw [hb] at hb1
        cases hb1
        have := len_flatBlock view b
        rw [hk1] at this
        simp only [FlatBlock.len] at this
        omega
      | false =>
        rw [hatomic sb hsb hinl]
        exact Nat.zero_le _
    · rw [htarget]
      intro b k cs hb hk
      rw [hsb] at hb
      cases hb
      obtain ⟨b1, ds, hb1, hk1, -⟩ := hkind k cs hk
      exact ⟨b1, ds, hb1, hk1⟩

theorem rewinds_selectionOps (hv : SelectionValid d sel) (hexact : selectionExact d sel = true)
    (h : applyOps (selectionOps d sel) d = .ok d1) :
    Maps (flat view) (flat view d1) (undoOps (selectionOps d sel)) (flat view d) := by
  cases hcol : sel.isCollapsed with
  | true =>
    simp only [selectionOps, hcol] at h ⊢
    cases h
    exact Triple.skip
  | false =>
    obtain ⟨hp, hatomic⟩ := postDeletePosition_spec hv hcol
    simp only [selectionOps, hcol, Bool.false_eq_true, if_false] at h ⊢
    rcases buildDeleteSelection_cases d sel with ⟨hle, hops⟩ | ⟨hlt, hops⟩
    · rw [hops] at h ⊢
      cases h
      exact Triple.skip
    rw [hops] at h ⊢
    have hnle : ¬ sel.endPos ≤ postDeletePosition d sel := by
      simp only [DocPosition.lt_iff, DocPosition.le_iff] at hlt ⊢
      omega
    have hdel : deleteExact d (postDeletePosition d sel) sel.endPos = true := by
      simpa [selectionExact, hcol, hnle] using hexact
    have hrun := applyOps_singleton h
    obtain ⟨sb, hsb, hso⟩ := isValidPosition_iff.1 hp
    obtain ⟨eb, heb, heo⟩ := isValidPosition_iff.1 hv.endPos
    have htail : sb.isInlineBlock = false → tailExact eb sel.endPos.offset = true := by
      intro hinl
      simp only [deleteExact, Document.block, hsb, heb, hinl, Bool.false_or, Bool.and_eq_true] at hdel
      exact hdel.1
    obtain ⟨d', hd', hflat⟩ := run_delete_flat view hsb heb hlt (hatomic sb hsb) htail
      (buildDeletedContent d (postDeletePosition d sel) sel.endPos)
    rw [hrun] at hd'
    cases hd'
    rw [hflat]
    have hmaps := maps_undo_delete view hsb heb hlt hso
      (fun hf => ⟨hatomic sb hsb hf, heo⟩) hdel
    exact hmaps

theorem maps_undoOps_append (ops ops' : List EditOp) {H : List (FlatBlock φ)}
    (h' : Maps (flat view) H (undoOps ops') G) (h : Maps (flat view) G (undoOps ops) F) :
    Maps (flat view) H (undoOps (ops ++ ops')) F := by
  rw [show undoOps (ops ++ ops') = fun d => undoOps ops' d >>= undoOps ops from
    funext fun d => undoOps_append ops ops' d]
  exact Triple.seq h' h

theorem maps_undoOps_singleton {op : EditOp} (h : Maps (flat view) G op.rewind F) :
    Maps (flat view) G (undoOps [op]) F := by
  exact h

end View

/-! ## Actions -/

/-- Typing is undone exactly: it lands in inline text, or past the start of an atomic block, where
it does nothing. At the start of an atomic block it does nothing either, but its inverse deletes
the block. -/
def insertExact (d : Document) (sel : DocSelection) (text : Text) : Bool :=
  selectionExact d sel && (text.isEmpty || (caretTarget d sel).offset != 0 ||
    (landingBlock d sel).all Block.isInlineBlock)

/-- Enter is undone exactly: merging two halves needs inline text, and a list item that turns into
a paragraph comes back without its indent. -/
def splitExact (d : Document) (sel : DocSelection) : Bool :=
  selectionExact d sel &&
    match d.block (caretTarget d sel).blockIndex with
    | some (.listItem _ indentLevel runs) => !runsAreBlank runs || indentLevel == 0
    | some (.blockQuote _) | some .horizontalRule =>
      (landingBlock d sel).all Block.isInlineBlock
    | _ => true

/-- A change of type that the kind of the block is enough to undo. -/
def convertExact : Block → Bool
  | .listItem _ indentLevel _ => indentLevel == 0
  | .blockQuote [] | .blockQuote [.paragraph _] => true
  | .blockQuote _ => false
  | _ => true

def setTypeExact (d : Document) (sel : DocSelection) (kind : BlockKind) : Bool :=
  (resolveSetBlockType d sel kind).isEmpty || (d.block sel.focus.blockIndex).all convertExact

def shapeExact (d : Document) (sel : DocSelection) : EditAction → Bool
  | .insertText text => insertExact d sel text
  | .deleteBackward | .deleteForward | .deleteSelection => selectionExact d sel
  | .splitBlock => splitExact d sel
  | .toggleInlineStyle _ => true
  | .setBlockType kind => setTypeExact d sel kind

section Actions

variable {φ : Type} (view : Format → φ)
variable {ops : List EditOp} {d d' d1 : Document} {b : Block} {p : DocPosition} {text : Text}
  {sel : DocSelection}

theorem applyOps_append_ok {ops' : List EditOp} (h : applyOps (ops ++ ops') d = .ok d') :
    ∃ d1, applyOps ops d = .ok d1 ∧ applyOps ops' d1 = .ok d' := by
  rw [applyOps_append] at h
  cases h1 : applyOps ops d with
  | error e => simp [h1, bind, Except.bind] at h
  | ok d1 =>
    simp only [h1] at h
    exact ⟨d1, rfl, h⟩

theorem applyOps_cons_ok {op : EditOp} (h : applyOps (op :: ops) d = .ok d') :
    ∃ d1, op.run d = .ok d1 ∧ applyOps ops d1 = .ok d' := by
  rw [applyOps_cons] at h
  cases h1 : op.run d with
  | error e => simp [h1, bind, Except.bind] at h
  | ok d1 =>
    simp only [h1] at h
    exact ⟨d1, rfl, h⟩

theorem flat_split {i : Nat} (h : d.blocks[i]? = some b) :
    ∃ P Q, flat view d = P ++ flatBlock view b :: Q ∧ P.length = i := by
  obtain ⟨pre, post, rfl, rfl⟩ := exists_mid h
  exact ⟨pre.map (flatBlock view), post.map (flatBlock view), flat_mid view pre post b, by simp⟩

theorem run_insertText_block (h : EditOp.run (.insertText p text) d = .ok d') :
    ∃ b, d.blocks[p.blockIndex]? = some b := by
  cases hb : d.blocks[p.blockIndex]? with
  | some b => exact ⟨b, rfl⟩
  | none =>
    simp [EditOp.run, EditOp.apply, applyInsertText, Document.expectBlock, Document.block, hb, bind,
      Except.bind, Except.map] at h

theorem run_splitBlock_block (h : EditOp.run (.splitBlock p) d = .ok d') :
    ∃ b, d.blocks[p.blockIndex]? = some b := by
  cases hb : d.blocks[p.blockIndex]? with
  | some b => exact ⟨b, rfl⟩
  | none =>
    simp [EditOp.run, EditOp.apply, applySplitBlock, Document.expectBlock, Document.block, hb, bind,
      Except.bind, Except.map] at h

theorem rewinds_typing {b1 : Block} (hok : InsertOpsOk ops p text)
    (hb1 : d1.blocks[p.blockIndex]? = some b1) (hwithin : p.offset ≤ b1.charLen)
    (hexact : text = [] ∨ p.offset ≠ 0 ∨ b1.isInlineBlock = true) (h : applyOps ops d1 = .ok d') :
    Maps (flat view) (flat view d') (undoOps ops) (flat view d1) := by
  obtain ⟨P, Q, hflat, hlen⟩ := flat_split view hb1
  have hp : p = ⟨P.length, p.offset⟩ := by
    rw [DocPosition.eq_iff]
    exact ⟨hlen.symm, rfl⟩
  rw [hp] at hok
  cases hinl : b1.isInlineBlock with
  | true =>
    obtain ⟨k, cs, hk, hlen'⟩ := exists_text view hinl
    have hcs : p.offset ≤ cs.length := by omega
    rw [hk] at hflat
    obtain ⟨d2, hd2, htyped⟩ := triple_applyOps_typing view P Q k cs hcs hok d1 hflat
    rw [h] at hd2
    cases hd2
    rw [hflat]
    intro e he
    exact triple_undoOps_typing view P Q k cs hok e (by rw [he]; exact htyped)
  | false =>
    have hx : (flatBlock view b1).isText = false := by rwa [isText_flatBlock]
    have hexact' : p.offset ≠ 0 ∨ text = [] := by
      rcases hexact with htext | hoff | hinl'
      · exact .inr htext
      · exact .inl hoff
      · rw [hinl] at hinl'
        cases hinl'
    obtain ⟨d2, hd2, hflat2⟩ := maps_applyOps_typing_atomic view P Q hx hok d1 hflat
    rw [h] at hd2
    cases hd2
    rw [hflat2, hflat]
    exact maps_undoOps_typing_atomic view P Q hx hok hexact'

theorem rewinds_insert (target : Document) (style : InlineStyle) (hv : SelectionValid d sel)
    (hexact : insertExact d sel text = true)
    (h : applyOps (selectionOps d sel ++ insertOps target (caretTarget d sel) style text) d = .ok d') :
    Maps (flat view) (flat view d')
      (undoOps (selectionOps d sel ++ insertOps target (caretTarget d sel) style text)) (flat view d) := by
  simp only [insertExact, Bool.and_eq_true, Bool.or_eq_true, List.isEmpty_iff, bne_iff_ne] at hexact
  obtain ⟨hsel, hland⟩ := hexact
  obtain ⟨d1, h1, h2⟩ := applyOps_append_ok h
  have hl := selectionOps_landed view hv h1
  have hok := insertOps_ok h2
  obtain ⟨b1, hb1⟩ : ∃ b, d1.blocks[(caretTarget d sel).blockIndex]? = some b := by
    obtain ⟨bits, hops, -⟩ := hok
    obtain ⟨d2, hrun, -⟩ := applyOps_cons_ok h2
    exact run_insertText_block hrun
  refine maps_undoOps_append view _ _ (rewinds_typing view hok hb1 (hl.within b1 hb1) ?_ h2)
    (rewinds_selectionOps view hv hsel h1)
  rcases hland with (htext | hoff) | hinl
  · exact .inl htext
  · exact .inr (.inl hoff)
  have hblock := hl.block
  rw [hb1] at hblock
  obtain ⟨b, hb, heq⟩ := Option.map_eq_some_iff.1 hblock.symm
  rw [hb] at hinl
  exact .inr (.inr (heq ▸ hinl))

theorem rewinds_split_text {b1 : Block} (hb1 : d1.blocks[p.blockIndex]? = some b1)
    (hinl : b1.isInlineBlock = true) (h : EditOp.run (.splitBlock p) d1 = .ok d') :
    Maps (flat view) (flat view d') (EditOp.rewind (.splitBlock p)) (flat view d1) ∧
      ∃ P k cs ds Q, flat view d' = P ++ .text k cs :: .text k ds :: Q ∧ P.length = p.blockIndex := by
  obtain ⟨P, Q, hflat, hlen⟩ := flat_split view hb1
  obtain ⟨k, cs, hk, -⟩ := exists_text view hinl
  rw [hk] at hflat
  have hp : p = ⟨P.length, p.offset⟩ := by
    rw [DocPosition.eq_iff]
    exact ⟨hlen.symm, rfl⟩
  rw [hp] at h ⊢
  obtain ⟨d2, hd2, hflat2⟩ := maps_splitBlock view P Q k cs p.offset d1 hflat
  rw [h] at hd2
  cases hd2
  refine ⟨?_, P, k, _, _, Q, hflat2, rfl⟩
  rw [hflat2, hflat]
  have := maps_undo_splitBlock view P Q k k (cs.take p.offset) (cs.drop p.offset) p.offset
  rwa [take_append_drop] at this

theorem rewinds_splitOps (hb : d.blocks[(caretTarget d sel).blockIndex]? = some b)
    (hl : Landed view d sel d1) (hexact : splitExact d sel = true)
    (h : applyOps (splitOps b (caretTarget d sel)) d1 = .ok d') :
    Maps (flat view) (flat view d') (undoOps (splitOps b (caretTarget d sel))) (flat view d1) := by
  generalize hpeq : caretTarget d sel = p at *
  simp only [splitExact, hpeq, Document.block, hb, Bool.and_eq_true] at hexact
  obtain ⟨hsel, hexact⟩ := hexact
  -- a split lands on inline text
  have hsplit : ∀ b1, d1.blocks[p.blockIndex]? = some b1 → b1.isInlineBlock = true →
      applyOps [.splitBlock p] d1 = .ok d' →
      Maps (flat view) (flat view d') (undoOps [.splitBlock p]) (flat view d1) := by
    intro b1 hb1 hinl hap
    exact maps_undoOps_singleton view (rewinds_split_text view hb1 hinl (applyOps_singleton hap)).1
  have htext : ∀ k cs, flatBlock view b = .text k cs →
      ∃ b1 ds, d1.blocks[p.blockIndex]? = some b1 ∧ flatBlock view b1 = .text k ds := by
    intro k cs hk
    have := hl.kind b k cs (by rw [hpeq]; exact hb) hk
    rwa [hpeq] at this
  have hatomic : (landingBlock d sel).all Block.isInlineBlock = true →
      applyOps [.splitBlock p] d1 = .ok d' →
      Maps (flat view) (flat view d') (undoOps [.splitBlock p]) (flat view d1) := by
    intro hland hap
    obtain ⟨b1, hb1⟩ := run_splitBlock_block (applyOps_singleton hap)
    have hblock := hl.block
    rw [hpeq, hb1] at hblock
    obtain ⟨c, hc, heq⟩ := Option.map_eq_some_iff.1 hblock.symm
    rw [hc] at hland
    exact hsplit b1 hb1 (heq ▸ hland) hap
  have hinline : ∀ k cs, flatBlock view b = .text k cs →
      applyOps [.splitBlock p] d1 = .ok d' →
      Maps (flat view) (flat view d') (undoOps [.splitBlock p]) (flat view d1) := by
    intro k cs hk hap
    obtain ⟨b1, ds, hb1, hk1⟩ := htext k cs hk
    have hinl : b1.isInlineBlock = true := by rw [← isText_flatBlock view, hk1]; rfl
    exact hsplit b1 hb1 hinl hap
  cases b with
  | paragraph rs => exact hinline _ _ rfl h
  | blockQuote bs => exact hatomic hexact h
  | horizontalRule => exact hatomic hexact h
  | image src alt w ht =>
    -- a paragraph inserted after the block at the caret
    simp only [splitOps] at h ⊢
    have hrun := applyOps_singleton h
    obtain ⟨hlt, hd'⟩ : p.blockIndex + 1 ≤ d1.blocks.length ∧
        d' = ⟨d1.blocks.insertIdx (p.blockIndex + 1) Block.emptyParagraph⟩ := by
      by_cases hle : p.blockIndex + 1 ≤ d1.blocks.length
      · simp only [EditOp.run, EditOp.apply, applyInsertBlock, Document.insertBlock, vecInsert,
          if_pos hle] at hrun
        cases hrun
        exact ⟨hle, rfl⟩
      · simp only [EditOp.run, EditOp.apply, applyInsertBlock, Document.insertBlock, vecInsert,
          if_neg hle] at hrun
        cases hrun
    obtain ⟨P, Q, hflat, hlen⟩ : ∃ P Q, flat view d1 = P ++ Q ∧ P.length = p.blockIndex + 1 := by
      refine ⟨(flat view d1).take (p.blockIndex + 1), (flat view d1).drop (p.blockIndex + 1),
        (take_append_drop _ _).symm, ?_⟩
      simp [flat]
      omega
    rw [← hlen] at hrun ⊢
    obtain ⟨d2, hd2, hflat2⟩ := maps_insertBlock view P Q Block.emptyParagraph d1 hflat
    rw [hrun] at hd2
    cases hd2
    rw [hflat2, hflat]
    refine maps_undoOps_singleton view (maps_undo_insertBlock view P Q _ _ ?_)
    intro hnil
    obtain ⟨rfl, -⟩ := append_eq_nil_iff.1 hnil
    simp at hlen
  | listItem ordered indent rs =>
    simp only [splitOps] at h ⊢
    split at h
    · rename_i hblank
      rw [if_pos hblank]
      have hindent : indent = 0 := by simpa [hblank] using hexact
      subst hindent
      have hrun := applyOps_singleton h
      obtain ⟨b1, ds, hb1, hk1⟩ := htext _ _ rfl
      obtain ⟨P, Q, hflat, hlen⟩ := flat_split view hb1
      rw [← hlen] at hrun ⊢
      obtain ⟨d2, hd2, hflat2⟩ := maps_setBlockType view P Q (flatBlock view b1) (.listItem ordered)
        .paragraph (by simp) d1 hflat
      rw [hrun] at hd2
      cases hd2
      rw [hflat2, hflat, hk1]
      exact maps_undoOps_singleton view (maps_undo_setBlockType view P Q _ _ _ (by simp))
    · rename_i hblank
      rw [if_neg hblank]
      exact hinline _ _ rfl h
  | heading level rs =>
    simp only [splitOps] at h ⊢
    split at h
    · rename_i hend
      rw [if_pos hend]
      obtain ⟨d2, hrun, hrest⟩ := applyOps_cons_ok h
      have hset := applyOps_singleton hrest
      obtain ⟨b1, ds, hb1, hk1⟩ := htext _ _ rfl
      have hinl : b1.isInlineBlock = true := by rw [← isText_flatBlock view, hk1]; rfl
      obtain ⟨hback, P, k, cs, es, Q, hflat, hlen⟩ := rewinds_split_text view hb1 hinl hrun
      have hP : (P ++ [FlatBlock.text k cs]).length = p.blockIndex + 1 := by simp [hlen]
      have hflat' : flat view d2 = (P ++ [.text k cs]) ++ .text k es :: Q := by simp [hflat]
      rw [← hP] at hset ⊢
      obtain ⟨d3, hd3, hflat3⟩ := maps_setBlockType view _ Q _ (.heading level) .paragraph (by simp)
        d2 hflat'
      rw [hset] at hd3
      cases hd3
      have hundo := maps_undo_setBlockType view (P ++ [.text k cs]) Q
        (FlatBlock.convert (.text k es) .paragraph) (.heading level) .paragraph (by simp)
      rw [hflat3]
      refine maps_undoOps_append view [.splitBlock p] _ (maps_undoOps_singleton view hundo) ?_
      -- merging gives the first half's kind, whatever the second half's is
      refine maps_undoOps_singleton view ?_
      have hp : p = ⟨P.length, p.offset⟩ := by
        rw [DocPosition.eq_iff]
        exact ⟨hlen.symm, rfl⟩
      have hmerge := maps_undo_splitBlock view P Q k k cs es p.offset
      have hmerge' := maps_undo_splitBlock view P Q k (.heading level) cs es p.offset
      rw [← hp] at hmerge hmerge'
      rw [hflat] at hback
      have hsame : P ++ .text k (cs ++ es) :: Q = flat view d1 := by
        obtain ⟨e1, he1, hfe1⟩ := hmerge d2 hflat
        obtain ⟨e2, he2, hfe2⟩ := hback d2 hflat
        rw [he1] at he2
        cases he2
        rw [← hfe1, hfe2]
      rw [← hsame]
      simpa [FlatBlock.convert, FlatBlock.conversionChars] using hmerge'
    · rename_i hend
      rw [if_neg hend]
      exact hinline _ _ rfl h

theorem resolveSplitBlock_eq (hb : d.blocks[(caretTarget d sel).blockIndex]? = some b) :
    resolveSplitBlock d sel = selectionOps d sel ++ splitOps b (caretTarget d sel) := by
  have hb' : d.block (caretTarget d sel).blockIndex = some b := hb
  unfold caretTarget at hb'
  simp [resolveSplitBlock, hb', selectionOps, caretTarget]

theorem caretTarget_valid (hv : SelectionValid d sel) : d.isValidPosition (caretTarget d sel) = true := by
  unfold caretTarget
  split
  · exact hv.2
  · rename_i hcol
    exact (postDeletePosition_spec hv (by simpa using hcol)).1

theorem rewinds_split (hv : SelectionValid d sel) (hexact : splitExact d sel = true)
    (h : applyOps (resolveSplitBlock d sel) d = .ok d') :
    Maps (flat view) (flat view d') (undoOps (resolveSplitBlock d sel)) (flat view d) := by
  obtain ⟨b, hb, -⟩ := isValidPosition_iff.1 (caretTarget_valid hv)
  rw [resolveSplitBlock_eq hb] at h ⊢
  obtain ⟨d1, h1, h2⟩ := applyOps_append_ok h
  have hsel : selectionExact d sel = true := by
    simp only [splitExact, Bool.and_eq_true] at hexact
    exact hexact.1
  exact maps_undoOps_append view _ _
    (rewinds_splitOps view hb (selectionOps_landed view hv h1) hexact h2)
    (rewinds_selectionOps view hv hsel h1)

theorem rewinds_deletionOps (hv : SelectionValid d sel) (hexact : selectionExact d sel = true)
    (hops : DeletionOps d sel ops) (h : applyOps ops d = .ok d') :
    Maps (flat view) (flat view d') (undoOps ops) (flat view d) := by
  cases hops with
  | nothing =>
    cases h
    exact Triple.skip
  | selection hcol =>
    have hsel : buildDeleteSelection d sel = selectionOps d sel := by simp [selectionOps, hcol]
    rw [hsel] at h ⊢
    exact rewinds_selectionOps view hv hexact h
  | @remove i b hb hatomic hlen =>
    obtain ⟨pre, post, rfl, rfl⟩ := exists_mid hb
    have hne : pre ++ post ≠ [] := by
      intro hnil
      have := hlen hv
      obtain ⟨rfl, rfl⟩ := append_eq_nil_iff.1 hnil
      simp at this
    have hap : EditOp.apply (.removeBlock pre.length b) ⟨pre ++ b :: post⟩ = _ :=
      applyRemoveBlock_mid b hne
    have hrun := applyOps_singleton h
    rw [run_ok hap] at hrun
    cases hrun
    rw [flat_append, flat_mid]
    have := maps_undo_removeBlock view (pre.map (flatBlock view)) (post.map (flatBlock view)) b
    rw [length_map] at this
    exact maps_undoOps_singleton view this
  | @clear b hb =>
    obtain ⟨blocks⟩ := d
    subst hb
    have hap : EditOp.apply (.replaceBlock 0 b Block.emptyParagraph) ⟨[b]⟩ = _ :=
      applyReplaceBlock_mid [] [] b Block.emptyParagraph
    have hrun := applyOps_singleton h
    cases hrun
    exact maps_undoOps_singleton view (maps_undo_replaceBlock view [] [] _ _ _)
  | @merge i a c ha hc hia hic =>
    obtain ⟨pre, mid, post, rfl, rfl, hmid⟩ := exists_mid_two ha hc (Nat.lt_succ_self i)
    obtain rfl : mid = [] := length_eq_zero_iff.1 (by omega)
    obtain ⟨k, cs, hk, hlen⟩ := exists_text view hia
    obtain ⟨k', ds, hk', -⟩ := exists_text view hic
    have hflat : flat view ⟨pre ++ a :: ([] ++ c :: post)⟩ =
        pre.map (flatBlock view) ++ .text k cs :: .text k' ds :: post.map (flatBlock view) := by
      simp [flat, hk, hk']
    have hrun := applyOps_singleton h
    have hP : pre.length = (pre.map (flatBlock view)).length := by simp
    rw [hP] at hrun ⊢
    obtain ⟨d2, hd2, hflat2⟩ := maps_mergeBlocks view (pre.map (flatBlock view))
      (post.map (flatBlock view)) k k' cs ds c a.charLen _ hflat
    rw [hrun] at hd2
    cases hd2
    rw [hflat2, hflat]
    have := maps_undo_mergeBlocks view (pre.map (flatBlock view)) (post.map (flatBlock view)) k
      (cs ++ ds) c a.charLen
    rwa [hlen, take_left, hk', ← hlen] at this
  | @char i o b rs hb hruns ho =>
    obtain ⟨pre, post, rfl, rfl⟩ := exists_mid hb
    obtain ⟨k, cs, hk, hcs⟩ := exists_text_of_runs view hruns
    have hrun := applyOps_singleton h
    obtain ⟨d2, hd2, hflat2⟩ := run_delete_inline view pre post hk
      ⟨[blockWithRunsLike b (extractDeletedRuns rs o (o + 1))], none⟩ (Nat.lt_succ_self o)
    rw [hrun] at hd2
    cases hd2
    have := maps_undo_delete_inline view pre post hruns (Nat.le_succ o) (Nat.le_of_lt ho)
      ⟨pre.length, o + 1⟩
    rw [hk, hcs] at this
    rw [hflat2]
    exact maps_undoOps_singleton view this

theorem convert_congr {x y : FlatBlock φ} (h : x.conversionChars = y.conversionChars)
    (kind : BlockKind) : x.convert kind = y.convert kind := by
  cases kind <;> simp [FlatBlock.convert, h]

/-- The kind of a block that `convertExact` admits is all that a change of type loses. -/
theorem convert_convert {new : BlockKind} (hexact : convertExact b = true)
    (hb : b.kind ≠ .horizontalRule ∧ b.kind ≠ .image)
    (hnew : new ≠ .horizontalRule ∧ new ≠ .image ∧ new ≠ .blockQuote) :
    ((flatBlock view b).convert new).convert b.kind = flatBlock view b := by
  have hchars : ((flatBlock view b).convert new).conversionChars =
      (flatBlock view b).conversionChars := by
    cases new with
    | blockQuote => exact absurd rfl hnew.2.2
    | _ => rfl
  rw [convert_congr hchars]
  cases b with
  | paragraph rs => rfl
  | heading level rs => rfl
  | listItem ordered indent rs =>
    have hindent : indent = 0 := by simpa [convertExact] using hexact
    subst hindent
    rfl
  | blockQuote bs =>
    match bs with
    | [] => rfl
    | [.paragraph rs] => rfl
    | [.heading _ _] | [.listItem _ _ _] | [.blockQuote _] | [.horizontalRule] | [.image _ _ _ _] |
      _ :: _ :: _ => simp [convertExact] at hexact
  | horizontalRule => simp [Block.kind] at hb
  | image src alt w h => simp [Block.kind] at hb

theorem rewinds_setBlockType {kind : BlockKind} (hexact : setTypeExact d sel kind = true)
    (h : applyOps (resolveSetBlockType d sel kind) d = .ok d') :
    Maps (flat view) (flat view d') (undoOps (resolveSetBlockType d sel kind)) (flat view d) := by
  rcases resolveSetBlockType_cases d sel kind with
    heq | ⟨b, new, hb, -, hk1, hk2, hn1, hn2, hn3, heq⟩
  · rw [heq] at h ⊢
    cases h
    exact Triple.skip
  · have hconv : convertExact b = true := by
      simp only [setTypeExact, heq, Document.block, hb] at hexact
      exact hexact
    rw [heq] at h ⊢
    have hrun := applyOps_singleton h
    obtain ⟨P, Q, hflat, hlen⟩ := flat_split view hb
    rw [← hlen] at hrun ⊢
    obtain ⟨d2, hd2, hflat2⟩ := maps_setBlockType view P Q (flatBlock view b) b.kind new
      ⟨hn1, hn2⟩ d hflat
    rw [hrun] at hd2
    cases hd2
    have hundo := maps_undo_setBlockType view P Q ((flatBlock view b).convert new) b.kind new
      ⟨hk1, hk2⟩
    rw [convert_convert view hconv ⟨hk1, hk2⟩ ⟨hn1, hn2, hn3⟩] at hundo
    rw [hflat2, hflat]
    exact maps_undoOps_singleton view hundo

theorem rewinds_of_shapeExact {action : EditAction} {pending : InlineStyle}
    (hv : SelectionValid d sel) (hexact : shapeExact d sel action = true)
    (htoggle : ∀ m, action ≠ .toggleInlineStyle m) (hops : resolve d sel action pending = .ok ops)
    (h : applyOps ops d = .ok d') : Maps (flat view) (flat view d') (undoOps ops) (flat view d) := by
  cases action with
  | insertText text =>
    rcases resolveInsert_cases hops with ⟨hcol, style, rfl⟩ | ⟨hcol, scratch, style, -, rfl⟩
    · have hbatch : insertOps d sel.focus style text =
          selectionOps d sel ++ insertOps d (caretTarget d sel) style text := by
        simp [selectionOps, caretTarget, hcol]
      rw [hbatch] at h ⊢
      exact rewinds_insert view d style hv hexact h
    · have hbatch : buildDeleteSelection d sel ++
          insertOps scratch (postDeletePosition d sel) style text =
          selectionOps d sel ++ insertOps scratch (caretTarget d sel) style text := by
        simp [selectionOps, caretTarget, hcol]
      rw [hbatch] at h ⊢
      exact rewinds_insert view scratch style hv hexact h
  | deleteBackward =>
    cases hops
    exact rewinds_deletionOps view hv hexact resolveDeleteBackward_ops h
  | deleteForward =>
    cases hops
    exact rewinds_deletionOps view hv hexact resolveDeleteForward_ops h
  | deleteSelection =>
    cases hops
    exact rewinds_deletionOps view hv hexact resolveDeleteSelection_ops h
  | splitBlock =>
    cases hops
    exact rewinds_split view hv hexact h
  | toggleInlineStyle m => exact absurd rfl (htoggle m)
  | setBlockType kind =>
    cases hops
    exact rewinds_setBlockType view hexact h

end Actions

/-- The runs of the block at the caret once the selection is gone. -/
def remainingRuns (d : Document) (sel : DocSelection) : List StyledRun :=
  let p := caretTarget d sel
  let blocks :=
    if sel.endPos ≤ p then d.blocks
    else ensureBlock (d.blocks.take p.blockIndex ++ remainder d p sel.endPos)
  ((blocks[p.blockIndex]?).bind Block.runs).getD []

/-- The deletion of a selection never panics; the caret is at most one block past its end. -/
theorem selectionOps_remains {d : Document} {sel : DocSelection} (hv : SelectionValid d sel) :
    ∃ d1, applyOps (selectionOps d sel) d = .ok d1 ∧ (caretTarget d sel).blockIndex ≤ d1.blocks.length ∧
      ((d1.blocks[(caretTarget d sel).blockIndex]?).bind Block.runs).getD [] = remainingRuns d sel := by
  obtain ⟨b, hb, hle⟩ := isValidPosition_iff.1 (caretTarget_valid hv)
  have hlen := (List.getElem?_eq_some_iff.1 hb).1
  have hkeep : sel.endPos ≤ caretTarget d sel → selectionOps d sel = [] →
      ∃ d1, applyOps (selectionOps d sel) d = .ok d1 ∧
        (caretTarget d sel).blockIndex ≤ d1.blocks.length ∧
        ((d1.blocks[(caretTarget d sel).blockIndex]?).bind Block.runs).getD [] =
          remainingRuns d sel := by
    intro hstop hops
    rw [hops]
    refine ⟨d, rfl, Nat.le_of_lt hlen, ?_⟩
    simp [remainingRuns, if_pos hstop]
  cases hcol : sel.isCollapsed with
  | true =>
    apply hkeep
    · rw [endPos_collapsed hcol, caretTarget, if_pos hcol]
      exact DocPosition.le_iff.2 (.inr ⟨rfl, Nat.le_refl _⟩)
    · rw [selectionOps, if_pos hcol]
  | false =>
    have htarget : caretTarget d sel = postDeletePosition d sel := by simp [caretTarget, hcol]
    have hsel : selectionOps d sel = buildDeleteSelection d sel := by simp [selectionOps, hcol]
    rcases buildDeleteSelection_cases d sel with ⟨hstop, hops⟩ | ⟨hlt, hops⟩
    · exact hkeep (by rw [htarget]; exact hstop) (by rw [hsel, hops])
    obtain ⟨hp, hatomic⟩ := postDeletePosition_spec hv hcol
    obtain ⟨eb, heb, -⟩ := isValidPosition_iff.1 hv.endPos
    rw [← htarget] at hlt hops hatomic
    have hrun := run_delete_blocks hb heb hlt (hatomic b hb)
      (buildDeletedContent d (caretTarget d sel) sel.endPos)
    refine ⟨_, by rw [hsel, hops, applyOps_cons, hrun]; rfl, ?_, ?_⟩
    · have htake : (d.blocks.take (caretTarget d sel).blockIndex).length =
          (caretTarget d sel).blockIndex := by
        simp
        omega
      have hens : ∀ l : List Block, l.length ≤ (ensureBlock l).length := by
        intro l
        cases l <;> simp [ensureBlock]
      refine Nat.le_trans ?_ (hens _)
      rw [List.length_append, htake]
      exact Nat.le_add_right _ _
    · have hnle : ¬ sel.endPos ≤ caretTarget d sel := by
        simp only [DocPosition.lt_iff, DocPosition.le_iff] at hlt ⊢
        omega
      simp [remainingRuns, if_neg hnle]

end Ratatoskr.Rte

import Ratatoskr.Rte.NormalSteps
import Ratatoskr.Rte.Panic

/-!
# Rte.Replay

Redoing an edit. A recorded batch is replayed on the document that undo left, which says the same as
the document the batch was made for but may have other runs.

* `Replays` : the batch does the same to every normalized document that says the same.
* `replays_of_exact` : an edit that meets `replayExact` is replayed, formatting aside.
-/

namespace Ratatoskr.Rte

open List
open Lib (Maps Triple Chain)
open EditorState

variable {anchor : StyledRun → Bool} {d d' : Document} {b : Block} {rs : List StyledRun}
  {text : Text} {sel : DocSelection}

def HasRuns (d : Document) : Prop := ∀ b ∈ d.blocks, b.runs ≠ some []

theorem hasRuns_of_normal (h : docNormal anchor d = true) : HasRuns d := by
  intro b hb hruns
  have hnormal := (docNormal_iff.1 h).2 b hb
  rw [blockNormal_of_runs hruns] at hnormal
  cases hnormal

theorem tailExact_of_normal (h : blockNormal anchor b = true) (e : Nat) : tailExact b e = true := by
  rw [tailExact_iff]
  intro rs hruns hempty
  rw [blockNormal_of_runs hruns] at h
  have hclean := extractRunsFromOffset_clean h e
  rw [eq_nil_iff_forall_not_mem]
  intro r hr
  have hnil : r.isEmpty = true := all_eq_true.1 hempty r hr
  exact hclean.1 r hr (by simpa [StyledRun.isEmpty] using hnil)

theorem ensureRun_ne_nil (rs : List StyledRun) : ensureRun rs ≠ [] := by
  unfold ensureRun
  split
  · simp
  · rename_i h
    simpa using h

theorem runs_setRuns_ne_nil (h : rs ≠ []) : (b.setRuns rs).runs ≠ some [] := by
  cases b <;> simp [Block.setRuns, Block.runs, h]

theorem survivors_subset (eb : Block) (e : Nat) (post : List Block) (h : b ∈ survivors eb e post) :
    b ∈ eb :: post := by
  unfold survivors at h
  split at h
  · exact mem_cons_of_mem _ h
  · exact h

theorem crossReplacement_hasRuns {sb eb nb : Block} {s e : Nat}
    (h : buildCrossDeleteReplacement sb s eb e = some nb) : nb.runs ≠ some [] := by
  unfold buildCrossDeleteReplacement at h
  split at h
  · cases h
    exact runs_setRuns_ne_nil (ensureRun_ne_nil _)
  split at h
  · cases h
  simp only at h
  split at h
  · cases h
  · rename_i rs _ hne
    cases h
    cases eb <;> simpa [blockWithRunsLike, Block.runs] using hne

theorem remainder_hasRuns (hd : HasRuns d) (p stop : DocPosition) :
    ∀ b ∈ remainder d p stop, b.runs ≠ some [] := by
  have hdrop : ∀ n, ∀ b ∈ d.blocks.drop n, b.runs ≠ some [] := fun n b hb =>
    hd b (mem_of_mem_drop hb)
  have hsurv : ∀ eb, d.block stop.blockIndex = some eb →
      ∀ b ∈ survivors eb stop.offset (d.blocks.drop (stop.blockIndex + 1)), b.runs ≠ some [] := by
    intro eb heb b hb
    rcases mem_cons.1 (survivors_subset eb _ _ hb) with rfl | hmem
    · exact hd b (mem_of_getElem? heb)
    · exact hdrop _ b hmem
  unfold remainder
  split
  · rename_i sb eb hsb heb
    split
    · intro b hb
      rcases mem_cons.1 hb with rfl | hmem
      · exact runs_setRuns_ne_nil (ensureRun_ne_nil _)
      · exact hdrop _ b hmem
    · split
      · rename_i nb hnb
        intro b hb
        rcases mem_cons.1 hb with rfl | hmem
        · exact crossReplacement_hasRuns hnb
        · exact hsurv eb heb b hmem
      · exact hsurv eb heb
  · exact hdrop _

theorem ensureBlock_hasRuns {blocks : List Block} (h : ∀ b ∈ blocks, b.runs ≠ some []) :
    HasRuns ⟨ensureBlock blocks⟩ := by
  intro b hb
  simp only [ensureBlock] at hb
  split at hb
  · obtain rfl : b = Block.emptyParagraph := by simpa using hb
    simp [Block.emptyParagraph, Block.runs]
  · exact h b hb

theorem insertTextLoop_ne_nil (o : Nat) (text : Text) (p : StyledRun) (pos : Nat)
    (rs : List StyledRun) : insertTextLoop o text (some p) pos rs ≠ [] := by
  cases rs with
  | nil => simp [insertTextLoop]
  | cons r rs =>
    simp only [insertTextLoop]
    repeat' split
    all_goals simp

theorem insertTextIntoRuns_ne_nil (h : rs ≠ []) (o : Nat) (text : Text) :
    insertTextIntoRuns rs o text ≠ [] := by
  obtain ⟨r, rs, rfl⟩ := exists_cons_of_ne_nil h
  simp only [insertTextIntoRuns, insertTextLoop]
  repeat' split
  all_goals first
    | exact insertTextLoop_ne_nil _ _ _ _ _
    | simp

theorem run_insertText_hasRuns {p : DocPosition} (hd : HasRuns d)
    (h : EditOp.run (.insertText p text) d = .ok d') : HasRuns d' := by
  obtain ⟨b, hb⟩ := run_insertText_block h
  obtain ⟨pre, post, rfl, hlen⟩ := exists_mid hb
  obtain ⟨i, o⟩ := p
  obtain rfl : pre.length = i := hlen
  cases hruns : b.runs with
  | none =>
    have hap : EditOp.apply (.insertText ⟨pre.length, o⟩ text) ⟨pre ++ b :: post⟩ = _ :=
      applyInsertText_atomic hruns o text
    rw [run_ok hap] at h
    cases h
    exact hd
  | some rs =>
    have hne : rs ≠ [] := by
      rintro rfl
      exact hd b (by simp) hruns
    have hap : EditOp.apply (.insertText ⟨pre.length, o⟩ text) ⟨pre ++ b :: post⟩ = _ :=
      applyInsertText_inline hruns o text
    rw [run_ok hap] at h
    cases h
    intro c hc
    simp only [mem_append, mem_cons] at hc
    rcases hc with hc | rfl | hc
    · exact hd c (by simp [hc])
    · exact runs_setRuns_ne_nil (insertTextIntoRuns_ne_nil hne o text)
    · exact hd c (by simp [hc])

/-! ## Replaying -/

section View

variable {φ : Type} (view : Format → φ)
variable {ops : List EditOp} {F G : List (FlatBlock φ)} {d d' d1 : Document} {sel : DocSelection}

/-- The batch leads from every normalized document that says `F` to one that says `G`. -/
def Replays (ops : List EditOp) (F G : List (FlatBlock φ)) : Prop :=
  ∀ e, docNormal anyAnchor e = true → flat view e = F →
    ∃ e', applyOps ops e = .ok e' ∧ flat view e' = G

theorem Replays.of_maps (h : Maps (flat view) F (applyOps ops) G) : Replays view ops F G := fun e _ he => h e he

theorem maps_of_run {f : Document → Except String Document}
    (h : Maps (flat view) (flat view d) f G) (hrun : f d = .ok d') :
    Maps (flat view) (flat view d) f (flat view d') := by
  rw [h.view_eq rfl hrun]
  exact h

theorem maps_applyOps_single {op : EditOp} (h : Maps (flat view) F op.run G) :
    Maps (flat view) F (applyOps [op]) G := by
  rw [applyOps_cons_fun]
  exact Triple.seq h Triple.skip

/-- The deletion of the selection is replayed, and leaves every inline block with a run. -/
theorem replays_selectionOps {e : Document} (hv : SelectionValid d sel)
    (hexact : selectionExact d sel = true) (h : applyOps (selectionOps d sel) d = .ok d1)
    (he : docNormal anyAnchor e = true) (hflat : flat view e = flat view d) :
    ∃ e1, applyOps (selectionOps d sel) e = .ok e1 ∧ flat view e1 = flat view d1 ∧ HasRuns e1 := by
  have hkeep : selectionOps d sel = [] →
      ∃ e1, applyOps (selectionOps d sel) e = .ok e1 ∧ flat view e1 = flat view d1 ∧
        HasRuns e1 := by
    intro hops
    rw [hops] at h ⊢
    cases h
    exact ⟨e, rfl, hflat, hasRuns_of_normal he⟩
  cases hcol : sel.isCollapsed with
  | true => exact hkeep (by rw [selectionOps, if_pos hcol])
  | false =>
    have hsel : selectionOps d sel = buildDeleteSelection d sel := by simp [selectionOps, hcol]
    rcases buildDeleteSelection_cases d sel with ⟨hstop, hops⟩ | ⟨hlt, hops⟩
    · exact hkeep (by rw [hsel, hops])
    obtain ⟨hp, hatomic⟩ := postDeletePosition_spec hv hcol
    obtain ⟨sb, hsb, -⟩ := isValidPosition_iff.1 hp
    obtain ⟨eb, heb, -⟩ := isValidPosition_iff.1 hv.endPos
    have hblock : ∀ (i : Nat) b, d.blocks[i]? = some b →
        ∃ c, e.blocks[i]? = some c ∧ flatBlock view c = flatBlock view b := by
      intro i b hb
      have hget := congrArg (·[i]?) hflat
      simp only [flat_getElem?, hb] at hget
      exact Option.map_eq_some_iff.1 hget
    obtain ⟨sc, hsc, hsflat⟩ := hblock _ _ hsb
    obtain ⟨ec, hec, -⟩ := hblock _ _ heb
    have hinl : sc.isInlineBlock = sb.isInlineBlock := by
      rw [← isText_flatBlock view, hsflat, isText_flatBlock]
    have hdelete : deleteExact d (postDeletePosition d sel) sel.endPos = true := by
      have hnle : ¬ sel.endPos ≤ postDeletePosition d sel := by
        simp only [DocPosition.lt_iff, DocPosition.le_iff] at hlt ⊢
        omega
      simpa [selectionExact, hcol, hnle] using hexact
    have htail : sb.isInlineBlock = false → tailExact eb sel.endPos.offset = true := by
      intro hf
      simp only [deleteExact, Document.block, hsb, heb, hf, Bool.false_or, Bool.and_eq_true] at hdelete
      exact hdelete.1
    obtain ⟨d1', hd1', hflat1⟩ := run_delete_flat view hsb heb hlt (hatomic sb hsb) htail
      (buildDeletedContent d (postDeletePosition d sel) sel.endPos)
    have hoff : sc.isInlineBlock = false → (postDeletePosition d sel).offset = 0 := by
      rw [hinl]
      exact hatomic sb hsb
    obtain ⟨e1, he1, hflat1'⟩ := run_delete_flat view hsc hec hlt hoff
      (fun _ => tailExact_of_normal ((docNormal_iff.1 he).2 ec (mem_of_getElem? hec)) _)
      (buildDeletedContent d (postDeletePosition d sel) sel.endPos)
    rw [hsel, hops] at h ⊢
    have hrun := applyOps_singleton h
    rw [hd1'] at hrun
    cases hrun
    refine ⟨e1, ?_, by rw [hflat1', hflat, hflat1], ?_⟩
    · rw [applyOps_cons, he1]
      rfl
    · rw [run_delete_blocks hsc hec hlt hoff] at he1
      cases he1
      apply ensureBlock_hasRuns
      intro b hb
      rcases mem_append.1 hb with hb | hb
      · exact hasRuns_of_normal he b (mem_of_mem_take hb)
      · exact remainder_hasRuns (hasRuns_of_normal he) _ _ b hb

theorem replays_after_selection (hv : SelectionValid d sel) (hexact : selectionExact d sel = true)
    (h1 : applyOps (selectionOps d sel) d = .ok d1)
    (h : Maps (flat view) (flat view d1) (applyOps ops) (flat view d')) :
    Replays view (selectionOps d sel ++ ops) (flat view d) (flat view d') := by
  intro e he hflat
  obtain ⟨e1, he1, hflat1, -⟩ := replays_selectionOps view hv hexact h1 he hflat
  obtain ⟨e', he', hflat'⟩ := h e1 hflat1
  refine ⟨e', ?_, hflat'⟩
  rw [applyOps_append, he1]
  exact he'

end View

def noFormat (_ : Format) : Unit := ()

theorem eq_of_map_fst {cs ds : List (Grapheme × Unit)} (h : ds.map Prod.fst = cs.map Prod.fst) : ds = cs := by
  have hfst : Function.Injective (Prod.fst : Grapheme × Unit → Grapheme) := by
    rintro ⟨a, u⟩ ⟨b, v⟩ hab
    exact Prod.ext hab rfl
  exact hfst.list_map h

theorem flatBlock_noFormat_toggledBlock (start stop : DocPosition) (remove : Bool)
    (m : InlineStyle) (i : Nat) (b : Block) :
    flatBlock noFormat (toggledBlock start stop remove m i b) = flatBlock noFormat b := by
  cases hinl : b.isInlineBlock with
  | true =>
    have htext : (flatBlock noFormat b).isText = true := by rw [isText_flatBlock]; exact hinl
    obtain ⟨k, cs, hb⟩ := FlatBlock.eq_text_of_isText htext
    obtain ⟨ds, hds, hfst, -⟩ := flatBlock_toggledBlock noFormat hb start stop remove m i
    rw [hds, hb, eq_of_map_fst hfst]
  | false => simp [toggledBlock, runs_eq_none hinl]

theorem maps_toggle_noFormat (F : List (FlatBlock Unit)) {start stop : DocPosition}
    (h : start < stop) (m : InlineStyle) :
    Maps (flat noFormat) F (EditOp.run (.toggleInlineStyle start stop m)) F := by
  rintro d rfl
  obtain ⟨d', hd', hblocks⟩ := applyToggleInlineStyle_eq h m d
  refine ⟨d', run_ok hd', ?_⟩
  apply ext_getElem?
  intro i
  rw [flat_getElem?, flat_getElem?, hblocks i]
  split
  · rw [Option.map_map]
    congr 1
    funext b
    exact flatBlock_noFormat_toggledBlock start stop _ m i b
  · rfl

namespace FlatBlock

/-- The block with `text` typed into it at offset `o`. -/
def typed (o : Nat) (text : Text) : FlatBlock Unit → FlatBlock Unit
  | .text k cs => .text k (cs.take o ++ text.map (·, ()) ++ cs.drop o)
  | x => x

end FlatBlock

theorem typing_noFormat {ops : List EditOp} {P Q : List (FlatBlock Unit)} {x : FlatBlock Unit}
    {o : Nat} (hok : InsertOpsOk ops ⟨P.length, o⟩ text) (hd : flat noFormat d = P ++ x :: Q)
    (hruns : text = [] ∨ ∀ b, d.blocks[P.length]? = some b → b.runs ≠ some []) :
    ∃ d', applyOps ops d = .ok d' ∧ flat noFormat d' = P ++ x.typed o text :: Q := by
  cases hx : x.isText with
  | false =>
    have htyped : x.typed o text = x := by
      cases x with
      | text => cases hx
      | quote | rule | image => rfl
    rw [htyped]
    exact maps_applyOps_typing_atomic noFormat P Q hx hok d hd
  | true =>
    obtain ⟨k, cs, rfl⟩ := FlatBlock.eq_text_of_isText hx
    obtain ⟨bits, rfl, hpos⟩ := hok
    obtain ⟨pre, b, post, rfl, rfl, hb, rfl⟩ := exists_flat_mid noFormat hd
    rw [length_map] at *
    obtain ⟨hinl, rs, hrs, hcs⟩ := of_flatBlock_text noFormat hb
    have hap : EditOp.apply (.insertText ⟨pre.length, o⟩ text) ⟨pre ++ b :: post⟩ = _ :=
      applyInsertText_inline hrs o text
    have hchars : chars noFormat (insertTextIntoRuns rs o text) =
        cs.take o ++ text.map (·, ()) ++ cs.drop o := by
      by_cases hne : rs = []
      · subst hne
        have htext : text = [] := by
          refine hruns.resolve_right fun hall => hall b ?_ hrs
          simp
        rw [insertTextIntoRuns_nil, htext, ← hcs]
        simp
      · rw [chars_insertTextIntoRuns noFormat o text hne, hcs]
    have hflat : flat noFormat ⟨pre ++ b.setRuns (insertTextIntoRuns rs o text) :: post⟩ =
        pre.map (flatBlock noFormat) ++ (FlatBlock.text k cs).typed o text ::
          post.map (flatBlock noFormat) := by
      rw [flat_mid, flatBlock_setRuns noFormat _ hinl, hb, hchars]
      rfl
    rw [applyOps_cons, run_ok hap]
    by_cases hbits : bits = []
    · subst hbits
      exact ⟨_, rfl, hflat⟩
    · have hlt : (⟨pre.length, o⟩ : DocPosition) < ⟨pre.length, o + textLen text⟩ := by
        have := hpos hbits
        exact .inr ⟨rfl, by simp only; omega⟩
      exact triple_applyOps_toggles noFormat (fun m => maps_toggle_noFormat _ hlt m) bits _ hflat

def textLands (d : Document) (sel : DocSelection) (text : Text) : Bool :=
  text.isEmpty || !(remainingRuns d sel).isEmpty || (landingBlock d sel).all Block.isAtomicBlock

theorem textLands_runs {d1 : Document} (hv : SelectionValid d sel)
    (h1 : applyOps (selectionOps d sel) d = .ok d1) (h : textLands d sel text = true) :
    text = [] ∨ ∀ b, d1.blocks[(caretTarget d sel).blockIndex]? = some b → b.runs ≠ some [] := by
  have hl : Landed noFormat d sel d1 := selectionOps_landed noFormat hv h1
  obtain ⟨d1', h1', -, hruns⟩ := selectionOps_remains hv
  rw [h1] at h1'
  cases h1'
  simp only [textLands, Bool.or_eq_true, List.isEmpty_iff] at h
  rcases h with (h | h) | h
  · exact .inl h
  · refine .inr fun b hb hnil => ?_
    rw [hb, Option.bind_some, hnil] at hruns
    rw [← hruns] at h
    cases h
  · refine .inr fun b hb hnil => ?_
    have hmap := hl.block
    rw [hb, Option.map_some, isInline_of_runs hnil] at hmap
    obtain ⟨c, hc, hinl⟩ := Option.map_eq_some_iff.1 hmap.symm
    rw [hc] at h
    simp [Block.isAtomicBlock, hinl] at h

/-! ## Replaying an edit -/

theorem replays_insert (target : Document) (style : InlineStyle) (hv : SelectionValid d sel)
    (hexact : selectionExact d sel = true) (hlands : textLands d sel text = true)
    (h : applyOps (selectionOps d sel ++ insertOps target (caretTarget d sel) style text) d = .ok d') :
    Replays noFormat (selectionOps d sel ++ insertOps target (caretTarget d sel) style text)
      (flat noFormat d) (flat noFormat d') := by
  obtain ⟨d1, h1, h2⟩ := applyOps_append_ok h
  have hok := insertOps_ok h2
  obtain ⟨b1, hb1⟩ : ∃ b1, d1.blocks[(caretTarget d sel).blockIndex]? = some b1 := by
    obtain ⟨bits, hops, -⟩ := hok
    obtain ⟨d2, hrun, -⟩ := applyOps_cons_ok h2
    exact run_insertText_block hrun
  obtain ⟨P, Q, hflat1, hlen⟩ := flat_split noFormat hb1
  have hruns := textLands_runs hv h1 hlands
  rw [← hlen] at hruns
  have hok' : InsertOpsOk (insertOps target (caretTarget d sel) style text)
      ⟨P.length, (caretTarget d sel).offset⟩ text := by
    rw [hlen]
    exact hok
  obtain ⟨d2, h2', hflat2⟩ := typing_noFormat hok' hflat1 hruns
  rw [h2] at h2'
  cases h2'
  intro e he hflat
  obtain ⟨e1, he1, hflate, hhas⟩ := replays_selectionOps noFormat hv hexact h1 he hflat
  obtain ⟨e', he', hflate'⟩ := typing_noFormat hok' (hflate.trans hflat1)
    (.inr fun b hb => hhas b (mem_of_getElem? hb))
  refine ⟨e', ?_, by rw [hflate', hflat2]⟩
  rw [applyOps_append, he1]
  exact he'

section View

variable {φ : Type} (view : Format → φ)
variable {d1 d' d : Document} {sel : DocSelection}

theorem maps_split_text {p : DocPosition} {b1 : Block} (hb1 : d1.blocks[p.blockIndex]? = some b1)
    (hinl : b1.isInlineBlock = true) (h : EditOp.run (.splitBlock p) d1 = .ok d') :
    Maps (flat view) (flat view d1) (EditOp.run (.splitBlock p)) (flat view d') := by
  obtain ⟨P, Q, hflat, hlen⟩ := flat_split view hb1
  have htext : (flatBlock view b1).isText = true := by rw [isText_flatBlock]; exact hinl
  obtain ⟨k, cs, hk⟩ := FlatBlock.eq_text_of_isText htext
  have hmaps := maps_splitBlock view P Q k cs p.offset
  rw [hlen, ← hk, ← hflat] at hmaps
  exact maps_of_run view hmaps h

theorem maps_setBlockType_run {i : Nat} {b1 : Block} {old new : BlockKind}
    (hb1 : d1.blocks[i]? = some b1) (hnew : new ≠ .horizontalRule ∧ new ≠ .image)
    (h : EditOp.run (.setBlockType i old new) d1 = .ok d') :
    Maps (flat view) (flat view d1) (EditOp.run (.setBlockType i old new)) (flat view d') := by
  obtain ⟨P, Q, hflat, hlen⟩ := flat_split view hb1
  have hmaps := maps_setBlockType view P Q (flatBlock view b1) old new hnew
  rw [hlen, ← hflat] at hmaps
  exact maps_of_run view hmaps h

theorem maps_splitOps {b : Block} (hb : d.blocks[(caretTarget d sel).blockIndex]? = some b)
    (hl : Landed view d sel d1) (hexact : splitExact d sel = true)
    (h : applyOps (splitOps b (caretTarget d sel)) d1 = .ok d') :
    Maps (flat view) (flat view d1) (applyOps (splitOps b (caretTarget d sel))) (flat view d') := by
  simp only [splitExact, Document.block, hb, Bool.and_eq_true] at hexact
  obtain ⟨b1, hb1⟩ := (splitOps_isOk_iff b d1 (caretTarget d sel)).1 ⟨d', h⟩
  -- a block that holds text keeps its place, so there is text to split
  have hkeep : b.isInlineBlock = true → b1.isInlineBlock = true := by
    intro hinl
    have htext : (flatBlock view b).isText = true := by rw [isText_flatBlock]; exact hinl
    obtain ⟨k, cs, hk⟩ := FlatBlock.eq_text_of_isText htext
    obtain ⟨c, ds, hc, hds⟩ := hl.kind b k cs hb hk
    rw [hb1] at hc
    cases hc
    rw [← isText_flatBlock view, hds]
    rfl
  have hsplit : b1.isInlineBlock = true →
      applyOps [.splitBlock (caretTarget d sel)] d1 = .ok d' →
      Maps (flat view) (flat view d1) (applyOps [.splitBlock (caretTarget d sel)])
        (flat view d') := by
    intro hinl h
    exact maps_applyOps_single view (maps_split_text view hb1 hinl (applyOps_singleton h))
  cases b with
  | paragraph rs => exact hsplit (hkeep rfl) h
  | blockQuote bs => exact hsplit (hl.all_inline hexact.2 b1 hb1) h
  | horizontalRule => exact hsplit (hl.all_inline hexact.2 b1 hb1) h
  | image src alt width height =>
    obtain ⟨P, Q, hflat, hlen⟩ := flat_split view hb1
    have hmaps := maps_insertBlock view (P ++ [flatBlock view b1]) Q Block.emptyParagraph
    rw [append_assoc, singleton_append, ← hflat, length_append, hlen] at hmaps
    exact maps_of_run view (maps_applyOps_single view hmaps) h
  | listItem ordered indentLevel rs =>
    simp only [splitOps] at h ⊢
    split at h
    · rename_i hblank
      rw [if_pos hblank]
      exact maps_applyOps_single view
        (maps_setBlockType_run view hb1 (by simp) (applyOps_singleton h))
    · rename_i hblank
      rw [if_neg hblank]
      exact hsplit (hkeep rfl) h
  | heading level rs =>
    simp only [splitOps] at h ⊢
    split at h
    · rename_i hend
      rw [if_pos hend]
      obtain ⟨d2, h1, h2⟩ := applyOps_cons_ok h
      obtain ⟨d2', h1', hlen⟩ := run_splitBlock_isOk hb1
      rw [h1] at h1'
      cases h1'
      have hlt := (List.getElem?_eq_some_iff.1 hb1).1
      have hb2 := getElem?_eq_getElem
        (show (caretTarget d sel).blockIndex + 1 < d2.blocks.length by omega)
      rw [applyOps_cons_fun]
      exact Triple.seq (maps_split_text view hb1 (hkeep rfl) h1) (maps_applyOps_single view
        (maps_setBlockType_run view hb2 (by simp) (applyOps_singleton h2)))
    · rename_i hend
      rw [if_neg hend]
      exact hsplit (hkeep rfl) h

theorem replays_split (hv : SelectionValid d sel) (hexact : splitExact d sel = true)
    (h : applyOps (resolveSplitBlock d sel) d = .ok d') :
    Replays view (resolveSplitBlock d sel) (flat view d) (flat view d') := by
  obtain ⟨b, hb, -⟩ := isValidPosition_iff.1 (caretTarget_valid hv)
  rw [resolveSplitBlock_eq hb] at h ⊢
  obtain ⟨d1, h1, h2⟩ := applyOps_append_ok h
  have hl := selectionOps_landed view hv h1
  have hsel : selectionExact d sel = true := by
    simp only [splitExact, Bool.and_eq_true] at hexact
    exact hexact.1
  exact replays_after_selection view hv hsel h1 (maps_splitOps view hb hl hexact h2)

theorem replays_deletionOps {ops : List EditOp} (hv : SelectionValid d sel)
    (hexact : selectionExact d sel = true) (hops : DeletionOps d sel ops)
    (h : applyOps ops d = .ok d') : Replays view ops (flat view d) (flat view d') := by
  have hsingle : ∀ {op : EditOp} {G}, Maps (flat view) (flat view d) op.run G →
      applyOps [op] d = .ok d' → Replays view [op] (flat view d) (flat view d') := by
    intro op G hmaps h
    exact .of_maps view (maps_applyOps_single view (maps_of_run view hmaps (applyOps_singleton h)))
  cases hops with
  | nothing =>
    cases h
    exact .of_maps view Triple.skip
  | selection hcol =>
    have hsel : buildDeleteSelection d sel = selectionOps d sel := by simp [selectionOps, hcol]
    rw [hsel] at h ⊢
    have hskip : Maps (flat view) (flat view d') (applyOps []) (flat view d') := Triple.skip
    have hreplay := replays_after_selection view hv hexact h hskip
    rwa [append_nil] at hreplay
  | @remove i b hb hatomic hlen =>
    obtain ⟨P, Q, hflat, hi⟩ := flat_split view hb
    have hlt := hlen hv
    have hne : P ++ Q ≠ [] := by
      intro hnil
      have hcount := congrArg List.length hflat
      have hzero := congrArg List.length hnil
      simp only [flat, length_map, length_append, length_cons, length_nil] at hcount hzero
      omega
    have hmaps := maps_removeBlock view P Q (flatBlock view b) b hne
    rw [hi, ← hflat] at hmaps
    exact hsingle hmaps h
  | @clear b hb =>
    have hflat : flat view d = [] ++ flatBlock view b :: [] := by simp [flat, hb]
    have hmaps := maps_replaceBlock view [] [] (flatBlock view b) b Block.emptyParagraph
    rw [← hflat] at hmaps
    exact hsingle hmaps h
  | @merge i a c ha hc hia hic =>
    obtain ⟨pre, mid, post, rfl, rfl, hmid⟩ := exists_mid_two ha hc (Nat.lt_succ_self _)
    obtain rfl : mid = [] := length_eq_zero_iff.1 (by omega)
    have ht : (flatBlock view a).isText = true := by rw [isText_flatBlock]; exact hia
    have ht' : (flatBlock view c).isText = true := by rw [isText_flatBlock]; exact hic
    obtain ⟨k, cs, hk⟩ := FlatBlock.eq_text_of_isText ht
    obtain ⟨k', ds, hk'⟩ := FlatBlock.eq_text_of_isText ht'
    have hmaps := maps_mergeBlocks view (pre.map (flatBlock view)) (post.map (flatBlock view))
      k k' cs ds c a.charLen
    have hflat : flat view ⟨pre ++ a :: ([] ++ c :: post)⟩ =
        pre.map (flatBlock view) ++ .text k cs :: .text k' ds :: post.map (flatBlock view) := by
      rw [nil_append, flat_mid, map_cons, hk, hk']
    rw [← hflat, length_map] at hmaps
    exact hsingle hmaps h
  | @char i o b rs hb hruns ho =>
    obtain ⟨pre, post, rfl, rfl⟩ := exists_mid hb
    have hinl := isInline_of_runs hruns
    have ht : (flatBlock view b).isText = true := by rw [isText_flatBlock]; exact hinl
    obtain ⟨k, cs, hk⟩ := FlatBlock.eq_text_of_isText ht
    refine hsingle (G := pre.map (flatBlock view) ++ .text k (cs.take o ++ cs.drop (o + 1)) ::
      post.map (flatBlock view)) ?_ h
    intro e he
    rw [flat_mid, hk] at he
    obtain ⟨pre', b', post', rfl, hpre, hk'', hpost⟩ := exists_flat_mid view he
    have hlen : pre.length = pre'.length := by
      have := congrArg List.length hpre
      simpa using this.symm
    obtain ⟨e', he', hflat'⟩ := run_delete_inline view pre' post' hk''
      ⟨[blockWithRunsLike b (extractDeletedRuns rs o (o + 1))], none⟩ (Nat.lt_succ_self o)
    rw [hlen]
    exact ⟨e', he', by rw [hflat', hpre, hpost]⟩

theorem replays_setBlockType {kind : BlockKind} (h : applyOps (resolveSetBlockType d sel kind) d = .ok d') :
    Replays view (resolveSetBlockType d sel kind) (flat view d) (flat view d') := by
  rcases resolveSetBlockType_cases d sel kind with
    hops | ⟨b, new, hb, -, -, -, hrule, himage, -, hops⟩
  · rw [hops] at h ⊢
    cases h
    exact .of_maps view Triple.skip
  · rw [hops] at h ⊢
    exact .of_maps view (maps_applyOps_single view
      (maps_setBlockType_run view hb ⟨hrule, himage⟩ (applyOps_singleton h)))

end View

end Ratatoskr.Rte

import Ratatoskr.Rte.Redo

/-!
# Rte.Restored

The deletion of a selection and its inverse, between normalized documents. The restore takes an empty
paragraph for the placeholder of an emptied document and drops it; that is wrong when the paragraph
stood after the selection.

* `maps_undo_delete_dropped` : what comes back when the empty paragraph is dropped.
* `delete_invert_restores` : the deletion is inverted exactly unless this happens.
-/

namespace Ratatoskr.Rte

open List
open Lib (Maps)

def EditOp.undone (op : EditOp) (d : Document) : Except String Document := do
  let (d1, _) ← op.apply d
  let (d2, _) ← op.invert.apply d1
  return normalize d2

theorem undone_deleteRange {d d1 d2 : Document} {p stop : DocPosition} {deleted : DeletedContent}
    (hrun : EditOp.run (.deleteRange p stop deleted) d = .ok d1)
    (hrewind : EditOp.rewind (.deleteRange p stop deleted) d1 = .ok d2) :
    EditOp.undone (.deleteRange p stop deleted) d = .ok (normalize d2) := by
  simp only [EditOp.run, Except.map] at hrun
  cases hap : EditOp.apply (.deleteRange p stop deleted) d with
  | error e => simp [hap] at hrun
  | ok r =>
    obtain ⟨e1, pm⟩ := r
    simp only [hap, Except.ok.injEq] at hrun
    subst hrun
    have hinv : EditOp.rewind (.deleteRange p stop deleted) e1 =
        ((EditOp.invert (.deleteRange p stop deleted)).apply e1).map (·.1) := rfl
    rw [hinv] at hrewind
    simp only [Except.map] at hrewind
    cases hap2 : (EditOp.invert (.deleteRange p stop deleted)).apply e1 with
    | error e => simp [hap2] at hrewind
    | ok r2 =>
      simp only [hap2, Except.ok.injEq] at hrewind
      simp only [EditOp.undone, hap, bind, Except.bind, hap2, hrewind]
      rfl

section Dropped

variable {φ : Type} (view : Format → φ)

/-- The empty paragraph after a range that starts the document on an atomic block is dropped. -/
theorem maps_undo_delete_dropped {d : Document} {p stop : DocPosition} {sb eb : Block}
    (hsb : d.blocks[p.blockIndex]? = some sb) (heb : d.blocks[stop.blockIndex]? = some eb)
    (hlt : p < stop) (hatomic : sb.isInlineBlock = false) (hp : p = ⟨0, 0⟩) (hle : stop.offset ≤ eb.charLen)
    (hph : isPlaceholderDoc ⟨survivors eb stop.offset (d.blocks.drop (stop.blockIndex + 1))⟩ = true) :
    ∃ x G, flat view d = x :: G ++ [.blank] ∧ Maps (flat view) (flatDelete (flat view d) p stop)
        (EditOp.rewind (.deleteRange p stop (buildDeletedContent d p stop))) (x :: G) := by
  subst hp
  obtain ⟨j, e⟩ := stop
  simp only [DocPosition.lt_iff] at hlt hsb heb hle hph
  have htext : (flatBlock view sb).isText = false := by rwa [isText_flatBlock]
  rw [isPlaceholderDoc_iff view] at hph
  by_cases hj : j = 0
  · subst hj
    rw [hsb] at heb
    cases heb
    obtain ⟨pre, post, rfl, hpre⟩ := exists_mid hsb
    obtain rfl : pre = [] := eq_nil_of_length_eq_zero hpre
    have he : 0 < e := by omega
    have hlen1 : sb.charLen = 1 := atomic_charLen hatomic
    have hcontent : buildDeletedContent ⟨[] ++ sb :: post⟩ ⟨0, 0⟩ ⟨0, e⟩ = ⟨[sb], none⟩ := by
      have hge : e ≥ sb.charLen := by omega
      simp [buildDeletedContent, Document.block, runs_eq_none hatomic, hge]
    have hpost : post.map (flatBlock view) = [.blank] := by
      have hsurv : survivors sb e post = post := if_pos (.inr he)
      simpa [hsurv] using hph
    refine ⟨flatBlock view sb, [], by simp [flat, hpost], ?_⟩
    have hF : flatDelete (flat view ⟨[] ++ sb :: post⟩) ⟨0, 0⟩ ⟨0, e⟩ = ensureFlat ([] ++ [.blank]) := by
      rw [flat_mid, hpost]
      exact flatDelete_atomic [] [.blank] htext 0 he
    rw [hcontent, hF]
    exact maps_restore_whole view [] [.blank] [] 0 ⟨0, e⟩ [] hatomic (.inl ⟨⟨rfl, rfl⟩, rfl⟩)
  · obtain ⟨pre, mid, post, rfl, hpre, hmid⟩ := exists_mid_two hsb heb (Nat.pos_of_ne_zero hj)
    obtain rfl : pre = [] := eq_nil_of_length_eq_zero hpre
    subst hmid
    have hdrop : ([] ++ sb :: (mid ++ eb :: post)).drop (([] : List Block).length + 1 + mid.length + 1) =
        post := drop_mid_two [] mid post sb eb
    rw [hdrop, map_survivors] at hph
    have hflat : flat view ⟨[] ++ sb :: (mid ++ eb :: post)⟩ =
        flatBlock view sb :: (mid.map (flatBlock view) ++ (flatBlock view eb).consumed e) ++ [.blank] := by
      have hparts := consumed_survivors (flatBlock view eb) e (post.map (flatBlock view))
      rw [hph] at hparts
      simp [flat, ← hparts]
    refine ⟨_, _, hflat, ?_⟩
    have hF : flatDelete (flat view ⟨[] ++ sb :: (mid ++ eb :: post)⟩) ⟨0, 0⟩
        ⟨([] : List Block).length + 1 + mid.length, e⟩ =
        ensureFlat ((flatBlock view sb).crossDelete (flatBlock view eb) 0 e
          (post.map (flatBlock view))) := by
      have hcross := flatDelete_cross [] (mid.map (flatBlock view)) (post.map (flatBlock view))
        (flatBlock view sb) (flatBlock view eb) 0 e
      simpa [flat] using hcross
    have hcontent := buildDeletedContent_cross [] mid post sb eb 0 e (fun _ => rfl)
    rw [capturedStart_atomic hatomic] at hcontent
    have hmaps := maps_undo_delete_from_atomic view [] mid post hatomic e
      ⟨([] : List Block).length + 1 + mid.length, e⟩ [] (.inl ⟨⟨rfl, hph⟩, rfl⟩)
    rw [hF]
    rw [show (⟨0, 0⟩ : DocPosition) = ⟨([] : List Block).length, 0⟩ from rfl, hcontent]
    simpa using hmaps

end Dropped

section Selection

variable {d : Document} {sel : DocSelection}

/-- The selection starts the document on an atomic block and leaves nothing after it but an empty
paragraph. -/
def leavesParagraph (d : Document) (sel : DocSelection) : Bool :=
  sel.start == ⟨0, 0⟩ && blockIsAtomicAt d 0 &&
    (!blockIsAtomicAt d sel.endPos.blockIndex || decide (0 < sel.endPos.offset)) &&
    isPlaceholderDoc ⟨d.blocks.drop (sel.endPos.blockIndex + 1)⟩

theorem blockIsAtomicAt_of {i : Nat} {b : Block} (h : d.blocks[i]? = some b) :
    blockIsAtomicAt d i = !b.isInlineBlock := by
  simp [blockIsAtomicAt, Document.block, h, Block.isAtomicBlock]

theorem isCollapsed_of_lt (h : postDeletePosition d sel < sel.endPos) : sel.isCollapsed = false := by
  by_contra hcol
  have heq : sel.anchor = sel.focus := by simpa [DocSelection.isCollapsed] using hcol
  have hstart : sel.start = sel.endPos := by simp [DocSelection.start, DocSelection.endPos, heq]
  rw [← hstart] at h
  unfold postDeletePosition at h
  simp only at h
  split at h <;>
  · simp only [DocPosition.lt_iff] at h
    omega

theorem survivors_isPlaceholder (eb : Block) (e : Nat) (post : List Block) :
    isPlaceholderDoc ⟨survivors eb e post⟩ = true ↔
      (eb.isInlineBlock = true ∨ 0 < e) ∧ isPlaceholderDoc ⟨post⟩ = true := by
  unfold survivors
  split
  · rename_i h
    exact (and_iff_right h).symm
  rename_i h
  simp only [h, false_and, iff_false]
  intro hph
  rw [isPlaceholderDoc_iff (fun _ => ()), map_cons, List.cons.injEq] at hph
  have htext := isText_flatBlock (fun _ => ()) eb
  rw [hph.1] at htext
  exact h (.inl htext.symm)

theorem deleteExact_iff (hd : normalize d = d) (hv : SelectionValid d sel)
    (hlt : postDeletePosition d sel < sel.endPos) :
    deleteExact d (postDeletePosition d sel) sel.endPos = true ↔ leavesParagraph d sel = false := by
  have hcol := isCollapsed_of_lt hlt
  obtain ⟨hp, hatomic⟩ := postDeletePosition_spec hv hcol
  obtain ⟨sb, hsb, -⟩ := isValidPosition_iff.1 hp
  obtain ⟨eb, heb, -⟩ := isValidPosition_iff.1 hv.endPos
  have htail : tailExact eb sel.endPos.offset = true :=
    tailExact_of_normal ((docNormal_iff.1 (normalize_eq_self_iff.1 hd)).2 eb
      (mem_of_getElem? heb)) _
  have hsurv := survivors_isPlaceholder eb sel.endPos.offset
    (d.blocks.drop (sel.endPos.blockIndex + 1))
  have hend : (!blockIsAtomicAt d sel.endPos.blockIndex || decide (0 < sel.endPos.offset)) = true ↔
      eb.isInlineBlock = true ∨ 0 < sel.endPos.offset := by
    simp [blockIsAtomicAt_of heb]
  have hstart : (sel.start == ⟨0, 0⟩ && blockIsAtomicAt d 0) = true ↔
      sb.isInlineBlock = false ∧ (postDeletePosition d sel).blockIndex = 0 := by
    rw [Bool.and_eq_true, beq_iff_eq]
    constructor
    · rintro ⟨h0, hat⟩
      have hpos : postDeletePosition d sel = ⟨0, 0⟩ := by
        simp [postDeletePosition, h0]
      rw [hpos] at hsb
      rw [blockIsAtomicAt_of hsb, Bool.not_eq_true'] at hat
      exact ⟨hat, by rw [hpos]⟩
    · rintro ⟨hinl, h0⟩
      have hoff := hatomic sb hsb hinl
      have hpos : postDeletePosition d sel = ⟨0, 0⟩ := DocPosition.eq_iff.2 ⟨h0, hoff⟩
      rw [h0] at hsb
      refine ⟨?_, by simp [blockIsAtomicAt_of hsb, hinl]⟩
      rw [← hpos]
      unfold postDeletePosition at h0 ⊢
      simp only at h0 ⊢
      split
      · rename_i h
        rw [if_pos h] at h0
        cases h0
      · rfl
  simp only [deleteExact, Document.block, hsb, heb, htail, Bool.true_and]
  rw [← Bool.not_eq_true (leavesParagraph d sel), leavesParagraph, Bool.and_eq_true, Bool.and_eq_true,
    hstart, hend]
  cases hinl : sb.isInlineBlock with
  | true => simp
  | false =>
    rw [Bool.false_or, Bool.not_eq_true', ← Bool.not_eq_true, Bool.and_eq_true, beq_iff_eq,
      hsurv, and_iff_right rfl, and_assoc]

/-- Inverting the deletion of a selection gives a normalized document back exactly if the restore finds
no paragraph of the document that it takes for a placeholder. -/
theorem delete_invert_restores (d : Document) (sel : DocSelection) (p stop : DocPosition)
    (deleted : DeletedContent) (hd : normalize d = d) (hv : SelectionValid d sel)
    (hop : buildDeleteSelection d sel = [.deleteRange p stop deleted]) :
    EditOp.undone (.deleteRange p stop deleted) d = .ok d ↔ leavesParagraph d sel = false := by
  rcases buildDeleteSelection_cases d sel with ⟨-, hnil⟩ | ⟨hlt, hone⟩
  · rw [hnil] at hop
    cases hop
  rw [hone] at hop
  cases hop
  rw [← deleteExact_iff hd hv hlt]
  have hcol := isCollapsed_of_lt hlt
  obtain ⟨hp, hatomic⟩ := postDeletePosition_spec hv hcol
  obtain ⟨sb, hsb, hso⟩ := isValidPosition_iff.1 hp
  obtain ⟨eb, heb, heo⟩ := isValidPosition_iff.1 hv.endPos
  have hnormal := normalize_eq_self_iff.1 hd
  have hne : d.blocks ≠ [] := ne_nil_of_mem (mem_of_getElem? hsb)
  have htail : sb.isInlineBlock = false → tailExact eb sel.endPos.offset = true := fun _ =>
    tailExact_of_normal ((docNormal_iff.1 hnormal).2 eb (mem_of_getElem? heb)) _
  obtain ⟨d1, hd1, hflat⟩ := run_delete_flat id hsb heb hlt (hatomic sb hsb) htail
    (buildDeletedContent d (postDeletePosition d sel) sel.endPos)
  cases hexact : deleteExact d (postDeletePosition d sel) sel.endPos with
  | true =>
    obtain ⟨d2, hd2, hback⟩ := maps_undo_delete id hsb heb hlt hso
      (fun hf => ⟨hatomic sb hsb hf, heo⟩) hexact d1 hflat
    rw [undone_deleteRange hd1 hd2, ← normalize_eq_of_flat hne hback.symm, hd]
    simp
  | false =>
    have hshort := hexact
    simp only [deleteExact, Document.block, hsb, heb, Bool.or_eq_false_iff,
      Bool.and_eq_false_iff, Bool.not_eq_false', Bool.and_eq_true, beq_iff_eq] at hshort
    obtain ⟨hinl, hshort⟩ := hshort
    rw [htail hinl] at hshort
    obtain ⟨h0, hph⟩ := hshort.resolve_left (by simp)
    have hpos : postDeletePosition d sel = ⟨0, 0⟩ := DocPosition.eq_iff.2 ⟨h0, hatomic sb hsb hinl⟩
    obtain ⟨x, G, hG, hmaps⟩ := maps_undo_delete_dropped id hsb heb hlt hinl hpos heo hph
    obtain ⟨d2, hd2, hback⟩ := hmaps d1 hflat
    rw [undone_deleteRange hd1 hd2]
    have hne2 : d2.blocks ≠ [] := by
      intro hnil
      simp [flat, hnil] at hback
    simp only [Except.ok.injEq, Bool.false_eq_true, iff_false]
    intro heq
    -- the paragraph is missing
    have hsame : flat id d2 = flat id d := by rw [← flat_normalize id hne2, heq]
    rw [hback, hG] at hsame
    have hlen := congrArg List.length hsame
    simp at hlen

end Selection

def framedRule : Document := ⟨[.emptyParagraph, .horizontalRule, .emptyParagraph]⟩

theorem framedRule_restored :
    EditOp.undone (.deleteRange ⟨1, 0⟩ ⟨1, 1⟩ ⟨[.horizontalRule], none⟩) framedRule = .ok framedRule ↔
      leavesParagraph framedRule ⟨⟨1, 0⟩, ⟨1, 1⟩⟩ = false :=
  delete_invert_restores framedRule ⟨⟨1, 0⟩, ⟨1, 1⟩⟩ ⟨1, 0⟩ ⟨1, 1⟩ ⟨[.horizontalRule], none⟩ (by decide)
    (by decide) (by decide)

/-- A rule that starts the document, and the empty paragraph under it. -/
def leadingRule : Document := ⟨[.horizontalRule, .emptyParagraph]⟩

/-- The paragraph under the rule is lost: the restore takes it for the placeholder. -/
theorem paragraph_dropped :
    normalize leadingRule = leadingRule ∧ SelectionValid leadingRule ⟨⟨0, 0⟩, ⟨0, 1⟩⟩ ∧
      buildDeleteSelection leadingRule ⟨⟨0, 0⟩, ⟨0, 1⟩⟩ =
        [.deleteRange ⟨0, 0⟩ ⟨0, 1⟩ ⟨[.horizontalRule], none⟩] ∧
      EditOp.undone (.deleteRange ⟨0, 0⟩ ⟨0, 1⟩ ⟨[.horizontalRule], none⟩) leadingRule =
        .ok ⟨[.horizontalRule]⟩ ∧
      EditOp.undone (.deleteRange ⟨0, 0⟩ ⟨0, 1⟩ ⟨[.horizontalRule], none⟩) leadingRule ≠ .ok leadingRule := by
  decide

end Ratatoskr.Rte

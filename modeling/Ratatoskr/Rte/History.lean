import Ratatoskr.Lib.History
import Ratatoskr.Rte.Exact

/-!
# Rte.History

The undo stack along runs of edits. Every group on it takes the document back from what it said
after the group to what it said before, and the groups chain up to the document the run started
from.

* `exactUndo` : an edit that is undone exactly, formatting included.
* `undoAll_restores` : after a run of such edits, undoing until the stack is empty gives the
  normalized initial document.
-/

namespace Ratatoskr.Rte

open List
open Lib (Maps Triple Chain Reaches)
open EditorState

variable {ops : List EditOp} {d d' : Document} {start stop : DocPosition} {action : EditAction}
  {s s' s0 : EditorState}

inductive HistoryStep where
  | edit (action : EditAction)
  | paste (text : Text)
  | copy
  | undo
  | redo
  | select (sel : DocSelection)

namespace EditorState

def history (s : EditorState) : HistoryStep → Except String EditorState
  | .edit action => s.applyAction action
  | .paste text => s.paste text
  | .copy => .ok s.copy
  | .undo => s.undo
  | .redo => s.redo
  | .select sel => .ok (s.setSelection sel)

/-- Undo `n` times. -/
def undoAll : Nat → EditorState → Except String EditorState
  | 0, s => .ok s
  | n + 1, s => do undoAll n (← s.undo)

end EditorState

/-- A push merges the batch into the newest group or adds a group, and evicts the oldest ones. -/
theorem push_cases (stack : UndoStack) (before after : DocSelection) (hne : ops ≠ []) :
    (stack.push ops before after).redo = [] ∧ (stack.push ops before after).maxEntries = stack.maxEntries ∧
      ((∃ gs last, stack.undo = gs ++ [last] ∧ canMerge last ops before = true ∧
          (stack.push ops before after).undo =
            gs ++ [{ last with ops := last.ops ++ ops, cursorAfter := after }]) ∨
        (stack.push ops before after).undo =
          (stack.undo ++ [(⟨ops, before, after⟩ : UndoGroup)]).drop
            (stack.undo.length + 1 - stack.maxEntries)) := by
  unfold UndoStack.push
  rw [if_neg (by simpa using hne)]
  split
  · rename_i last hlast
    split
    · rename_i hmerge
      simp only [Bool.and_eq_true] at hmerge
      refine ⟨rfl, rfl, .inl ⟨stack.undo.dropLast, last, ?_, hmerge.2, rfl⟩⟩
      exact (dropLast_append_getLast? _ hlast).symm
    · exact ⟨rfl, rfl, .inr (by simp)⟩
  · exact ⟨rfl, rfl, .inr (by simp)⟩

def toggleRange (d : Document) (sel : DocSelection) : Option (DocPosition × DocPosition) :=
  if sel.isCollapsed then
    match findLinkBoundaries d sel.focus with
    | .ok range => range
    | .error _ => none
  else some (sel.start, sel.endPos)

def toggleExact (d : Document) (sel : DocSelection) (style : InlineStyle) : Bool :=
  match toggleRange d sel with
  | some (start, stop) => uniformStyle d start stop style
  | none => true

def exactUndo (d : Document) (sel : DocSelection) : EditAction → Bool
  | .toggleInlineStyle style => toggleExact d sel style
  | action => shapeExact d sel action

/-- The runs before an index and those up to a later one are no longer than all of them. -/
theorem runsLen_span_le (rs : List StyledRun) (i j : Nat) :
    Block.runsLen (rs.take i) + Block.runsLen ((rs.take j).drop i) ≤ Block.runsLen rs := by
  have happend : ∀ as bs : List StyledRun,
      Block.runsLen (as ++ bs) = Block.runsLen as + Block.runsLen bs := by
    intro as bs
    simp [Block.runsLen]
  have hall := happend (rs.take i) (rs.drop i)
  rw [take_append_drop] at hall
  have hrest := happend ((rs.drop i).take (j - i)) ((rs.drop i).drop (j - i))
  rw [take_append_drop] at hrest
  rw [drop_take]
  omega

theorem findLinkBoundaries_within {p : DocPosition} (h : findLinkBoundaries d p = .ok (some (start, stop))) :
    ∃ b, d.blocks[p.blockIndex]? = some b ∧ start.blockIndex = p.blockIndex ∧
      stop.blockIndex = p.blockIndex ∧ stop.offset ≤ b.charLen := by
  unfold findLinkBoundaries at h
  split at h
  · cases h
  rename_i b hb
  split at h
  · cases h
  rename_i rs hruns
  split at h
  · cases h
  split at h
  · cases h
  simp only [bind, Except.bind] at h
  split at h
  · cases h
  split at h
  · cases h
  split at h
  · cases h
  cases h
  refine ⟨b, hb, rfl, rfl, ?_⟩
  simp only [Block.charLen, hruns]
  exact runsLen_span_le rs _ _

theorem rangeWithin_of_block {b : Block} (hb : d.blocks[start.blockIndex]? = some b)
    (hblock : stop.blockIndex = start.blockIndex) (hlt : start < stop)
    (hle : stop.offset ≤ b.charLen) : RangeWithin (flat id d) start stop := by
  have hx : (flat id d)[start.blockIndex]? = some (flatBlock id b) := by
    rw [flat_getElem?, hb]
    rfl
  have hoff : start.offset < stop.offset := by
    rw [DocPosition.lt_iff] at hlt
    omega
  refine ⟨hlt, ?_, ?_⟩
  · intro x hx'
    rw [hx] at hx'
    cases hx'
    rw [len_flatBlock]
    omega
  · intro x hx'
    rw [hblock, hx] at hx'
    cases hx'
    rw [len_flatBlock]
    exact hle

theorem rangeWithin_of_valid (hlt : start < stop) (hstart : d.isValidPosition start = true)
    (hstop : d.isValidPosition stop = true) : RangeWithin (flat id d) start stop := by
  refine ⟨hlt, ?_, ?_⟩
  · intro x hx
    obtain ⟨b, hb, hle⟩ := isValidPosition_iff.1 hstart
    rw [flat_getElem?, hb] at hx
    cases hx
    rwa [len_flatBlock]
  · intro x hx
    obtain ⟨b, hb, hle⟩ := isValidPosition_iff.1 hstop
    rw [flat_getElem?, hb] at hx
    cases hx
    rwa [len_flatBlock]

theorem run_toggle_lt {m : InlineStyle}
    (h : EditOp.run (.toggleInlineStyle start stop m) d = .ok d') : start < stop := by
  by_contra hlt
  simp [EditOp.run, EditOp.apply, applyToggleInlineStyle, hlt, Except.map] at h

theorem rewinds_of_exactUndo {sel : DocSelection} {pending : InlineStyle}
    (hv : SelectionValid d sel) (hexact : exactUndo d sel action = true)
    (hops : resolve d sel action pending = .ok ops) (h : applyOps ops d = .ok d') :
    Maps (flat id) (flat id d') (undoOps ops) (flat id d) := by
  cases action with
  | toggleInlineStyle m =>
    rcases resolveToggleStyle_cases hops with rfl | ⟨hcol, start, stop, hfound, rfl⟩ | ⟨hcol, rfl⟩
    · cases h
      exact Triple.skip
    · have hrun := applyOps_singleton h
      obtain ⟨b, hb, hstart, hstop, hle⟩ := findLinkBoundaries_within hfound
      have huniform : uniformStyle d start stop m = true := by
        simpa [exactUndo, toggleExact, toggleRange, hcol, hfound] using hexact
      have hrange := rangeWithin_of_block (by rw [hstart]; exact hb) (hstop.trans hstart.symm)
        (run_toggle_lt hrun) hle
      exact maps_undoOps_singleton id (maps_undo_toggle hrange huniform hrun)
    · have hrun := applyOps_singleton h
      have huniform : uniformStyle d sel.start sel.endPos m = true := by
        simpa [exactUndo, toggleExact, toggleRange, hcol] using hexact
      have hrange := rangeWithin_of_valid (run_toggle_lt hrun) hv.start hv.endPos
      exact maps_undoOps_singleton id (maps_undo_toggle hrange huniform hrun)
  | insertText | deleteBackward | deleteForward | deleteSelection | splitBlock | setBlockType =>
    refine rewinds_of_shapeExact id hv ?_ (by simp) hops h
    exact hexact

/-! ## The chain of groups -/

section Chain

variable {ω : Type} {R : List EditOp → ω → ω → Prop}
variable {stack : UndoStack} {ops : List EditOp}

theorem push_chain (before after : DocSelection) {F0 F G : ω} (hne : ops ≠ []) (hops : R ops F G)
    (hmerge : ∀ last H, canMerge last ops before = true → R last.ops H F → R (last.ops ++ ops) H G)
    (hchain : Chain (fun g : UndoGroup => R g.ops) stack.undo F0 F) :
    ∃ F1, Chain (fun g : UndoGroup => R g.ops) (stack.push ops before after).undo F1 G ∧
      ((stack.push ops before after).undo.length < stack.maxEntries → F1 = F0) := by
  obtain ⟨-, -, hcases⟩ := push_cases stack before after hne
  rcases hcases with ⟨gs, last, hundo, hcan, hpush⟩ | hpush
  · rw [hundo, Lib.chain_concat] at hchain
    obtain ⟨H, hgs, hlast⟩ := hchain
    refine ⟨F0, ?_, fun _ => rfl⟩
    rw [hpush, Lib.chain_concat]
    exact ⟨H, hgs, hmerge last H hcan hlast⟩
  · have hfull : Chain (fun g : UndoGroup => R g.ops)
        (stack.undo ++ [(⟨ops, before, after⟩ : UndoGroup)]) F0 G :=
      Lib.chain_concat.2 ⟨F, hchain, hops⟩
    by_cases hevict : stack.undo.length + 1 ≤ stack.maxEntries
    · refine ⟨F0, ?_, fun _ => rfl⟩
      rwa [hpush, Nat.sub_eq_zero_of_le hevict]
    obtain ⟨F1, hF1⟩ := hfull.drop (stack.undo.length + 1 - stack.maxEntries)
    refine ⟨F1, by rwa [hpush], ?_⟩
    intro hlt
    rw [hpush] at hlt
    simp only [length_drop, length_append, length_cons] at hlt
    omega

theorem push_length (before after : DocSelection) (hne : ops ≠ [])
    (h : (stack.push ops before after).undo.length < stack.maxEntries) :
    stack.undo.length < stack.maxEntries ∧ (stack.push ops before after).undo ≠ [] := by
  obtain ⟨-, -, hcases⟩ := push_cases stack before after hne
  rcases hcases with ⟨gs, last, hundo, -, hpush⟩ | hpush
  · rw [hpush] at h ⊢
    rw [hundo]
    simpa using h
  · rw [hpush] at h ⊢
    simp only [length_drop, length_append, length_cons] at h
    rw [← length_pos_iff, length_drop, length_append]
    simp only [length_cons]
    omega

end Chain

namespace EditorState

variable {s : EditorState} {gs : List UndoGroup} {g : UndoGroup} {d : Document}

/-- The state after undoing the group `g` at the end of the undo stack to the document `d`. -/
def undone (s : EditorState) (gs : List UndoGroup) (g : UndoGroup) (d : Document) : EditorState :=
  { s with
    document := normalize d
    selection := clampSelection (normalize d) g.cursorBefore
    undoStack := { s.undoStack with undo := gs, redo := s.undoStack.redo ++ [g] } }

/-- The state after redoing the group `g` at the end of the redo stack to the document `d`. -/
def redone (s : EditorState) (gs : List UndoGroup) (g : UndoGroup) (d : Document) : EditorState :=
  { s with
    document := normalize d
    selection := clampSelection (normalize d) g.cursorAfter
    undoStack := { s.undoStack with undo := s.undoStack.undo ++ [g], redo := gs } }

theorem undo_eq (hgs : s.undoStack.undo = gs ++ [g]) (hd : undoOps g.ops s.document = .ok d) :
    s.undo = .ok (s.undone gs g d) := by
  have hpop : s.undoStack.popUndo =
      some (g, { s.undoStack with undo := gs, redo := s.undoStack.redo ++ [g] }) := by
    simp [UndoStack.popUndo, hgs]
  simp only [EditorState.undo, hpop, hd]
  rfl

theorem redo_eq (hgs : s.undoStack.redo = gs ++ [g]) (hd : applyOps g.ops s.document = .ok d) :
    s.redo = .ok (s.redone gs g d) := by
  have hpop : s.undoStack.popRedo =
      some (g, { s.undoStack with undo := s.undoStack.undo ++ [g], redo := gs }) := by
    simp [UndoStack.popRedo, hgs]
  simp only [EditorState.redo, hpop, hd]
  rfl

theorem undo_nil (h : s.undoStack.undo = []) : s.undo = .ok s := by
  simp [EditorState.undo, UndoStack.popUndo, h]

theorem redo_nil (h : s.undoStack.redo = []) : s.redo = .ok s := by
  simp [EditorState.redo, UndoStack.popRedo, h]

end EditorState

theorem flat_ne_nil {φ : Type} (view : Format → φ) : flat view d ≠ [] ↔ d.blocks ≠ [] := by
  simp [flat]

/-- The ops take the document back from saying `G` to saying `F`. -/
def TakesBack (ops : List EditOp) (F G : List (FlatBlock Format)) : Prop :=
  F ≠ [] ∧ Maps (flat id) G (undoOps ops) F

theorem TakesBack.append {ops' : List EditOp} {F G H : List (FlatBlock Format)}
    (h : TakesBack ops F G) (h' : TakesBack ops' G H) : TakesBack (ops ++ ops') F H :=
  ⟨h.1, maps_undoOps_append id ops ops' h'.2 h.2⟩

/-- The run so far is a sequence of groups that lead from the document `s0` started with to the
current one, as long as none was evicted. -/
structure Rewindable (s0 s : EditorState) : Prop where
  nonempty : s.document.blocks ≠ []
  valid : SelectionValid s.document s.selection
  chain : s.undoStack.undo.length < s.undoStack.maxEntries →
    Chain (fun g : UndoGroup => TakesBack g.ops) s.undoStack.undo (flat id s0.document)
      (flat id s.document)
  untouched : s.undoStack.undo = [] → 0 < s.undoStack.maxEntries → s.document = s0.document

theorem commitOps_flat {φ : Type} (view : Format → φ) (hd : s.document.blocks ≠ [])
    (h : s.commitOps ops = .ok s') :
    ∃ d, applyOps ops s.document = .ok d ∧ flat view s'.document = flat view d ∧
      s'.undoStack = s.undoStack.push ops s.selection s'.selection := by
  obtain ⟨d, sel, dirty, -, happ, hdoc, hundo, -⟩ := commitOps_ok h
  refine ⟨d, happ, ?_, hundo⟩
  rw [hdoc, flat_normalizeBlocks view (applyOps_ne_nil hd happ)]

/-- The edits and selections of a run whose edits are all undone exactly. -/
def ExactEdit (s : EditorState) : HistoryStep → Prop
  | .edit action => exactUndo s.document s.selection action = true
  | .select sel => SelectionValid s.document sel
  | _ => False

instance (s : EditorState) : (a : HistoryStep) → Decidable (ExactEdit s a)
  | .edit action => inferInstanceAs (Decidable (exactUndo s.document s.selection action = true))
  | .select sel => inferInstanceAs (Decidable (SelectionValid s.document sel))
  | .paste _ | .copy | .undo | .redo => inferInstanceAs (Decidable False)

theorem rewindable_edit (hs : Rewindable s0 s)
    (hexact : exactUndo s.document s.selection action = true) (h : s.applyAction action = .ok s') :
    Rewindable s0 s' := by
  have hsettled := applyAction_settled h
  have hne' := hsettled.ne_nil hs.nonempty
  have hv' := hsettled.valid hs.valid
  obtain ⟨ops, hops, ⟨hne, hcommit⟩ | ⟨-, hdoc, hsel, hundo, -, hmax⟩⟩ := applyAction_ok h
  · obtain ⟨d, happ, hflat, hstack⟩ := commitOps_flat id hs.nonempty hcommit
    have hmaps := rewinds_of_exactUndo hs.valid hexact hops happ
    rw [← hflat] at hmaps
    have htakes : TakesBack ops (flat id s.document) (flat id s'.document) :=
      ⟨(flat_ne_nil id).2 hs.nonempty, hmaps⟩
    have hmax := (push_cases s.undoStack s.selection s'.selection hne).2.1
    refine ⟨hne', hv', ?_, ?_⟩
    · intro hlt
      rw [hstack, hmax] at hlt
      have hchain := hs.chain (push_length _ _ hne hlt).1
      obtain ⟨F1, hF1, hF0⟩ := push_chain s.selection s'.selection hne htakes
        (fun last H _ hlast => hlast.append htakes) hchain
      rw [hstack, ← hF0 hlt]
      exact hF1
    · intro hnil hpos
      rw [hstack] at hnil hpos
      rw [hmax] at hpos
      have hlt : (s.undoStack.push ops s.selection s'.selection).undo.length <
          s.undoStack.maxEntries := by
        rw [hnil]
        exact hpos
      exact absurd hnil (push_length _ _ hne hlt).2
  · refine ⟨hne', hv', ?_, ?_⟩
    · rw [hundo, hmax, hdoc]
      exact hs.chain
    · rw [hundo, hmax, hdoc]
      exact hs.untouched

theorem rewindable_step {step : HistoryStep} (hs : Rewindable s0 s) (hexact : ExactEdit s step)
    (h : s.history step = .ok s') : Rewindable s0 s' := by
  cases step with
  | edit action => exact rewindable_edit hs hexact h
  | select sel =>
    cases h
    exact ⟨hs.nonempty, hexact, hs.chain, hs.untouched⟩
  | paste | copy | undo | redo => exact hexact.elim

theorem undoAll_chain {gs : List UndoGroup} {F0 : List (FlatBlock Format)}
    (hgs : s.undoStack.undo = gs) (hd : s.document.blocks ≠ [])
    (hchain : Chain (fun g : UndoGroup => TakesBack g.ops) gs F0 (flat id s.document)) :
    ∃ t, undoAll gs.length s = .ok t ∧ t.undoStack.undo = [] ∧ flat id t.document = F0 ∧
      t.document.blocks ≠ [] ∧ (gs ≠ [] → normalize t.document = t.document) := by
  induction gs using List.reverseRecOn generalizing s with
  | nil => exact ⟨s, rfl, hgs, hchain.symm, hd, fun h => absurd rfl h⟩
  | append_singleton gs g ih =>
    obtain ⟨H, hchain', hne, hmaps⟩ := Lib.chain_concat.1 hchain
    obtain ⟨d, hundo, hflat⟩ := hmaps s.document rfl
    have hdne : d.blocks ≠ [] := by
      rw [← flat_ne_nil id, hflat]
      exact hne
    have hstep := undo_eq hgs hundo
    have hflat1 : flat id (s.undone gs g d).document = H := (flat_normalize id hdne).trans hflat
    obtain ⟨t, ht, hnil, hF0, htne, hnorm⟩ := ih (s := s.undone gs g d) rfl (normalize_ne_nil d)
      (by rw [hflat1]; exact hchain')
    refine ⟨t, ?_, hnil, hF0, htne, ?_⟩
    · simp only [length_append, length_cons, undoAll, hstep]
      exact ht
    · intro _
      by_cases hgs' : gs = []
      · subst hgs'
        have hts : s.undone [] g d = t := Except.ok.inj ht
        rw [← hts]
        exact normalize_eq_of_flat (normalize_ne_nil d) (flat_normalize id hdne)
      · exact hnorm hgs'

/-- After a run of edits that are each undone exactly, undoing until the stack is empty gives back
the document the run started from. -/
theorem undoAll_restores (s0 s : EditorState) (hnorm : normalize s0.document = s0.document)
    (hvalid : SelectionValid s0.document s0.selection) (hempty : s0.undoStack.undo = [])
    (hrun : Reaches EditorState.history ExactEdit s0 s)
    (hkept : s.undoStack.undo.length < s.undoStack.maxEntries) :
    ∃ t, undoAll s.undoStack.undo.length s = .ok t ∧ t.undoStack.undo = [] ∧
      t.document = normalize s0.document := by
  have hne0 : s0.document.blocks ≠ [] := by
    rw [← hnorm]
    exact normalize_ne_nil _
  have hinv : Rewindable s0 s := by
    apply hrun.invariant (I := Rewindable s0)
    · refine ⟨hne0, hvalid, ?_, fun _ _ => rfl⟩
      intro _
      rw [hempty]
      rfl
    · intro u a v hu ha hstep
      exact rewindable_step hu ha hstep
  obtain ⟨t, ht, hnil, hflat, htne, hfix⟩ := undoAll_chain rfl hinv.nonempty (hinv.chain hkept)
  refine ⟨t, ht, hnil, ?_⟩
  by_cases hgs : s.undoStack.undo = []
  · rw [hgs] at ht
    cases ht
    rw [hinv.untouched hgs (by omega), hnorm]
  · rw [← hfix hgs]
    exact normalize_eq_of_flat htne hflat

theorem undoAll_restores_typed_split :
    ∃ s t, (do
        let s ← (fromDocument ⟨[.paragraph [.plain ['a', 'b']]]⟩).history (.edit (.insertText ['x']))
        s.history (.edit .splitBlock)) = .ok s ∧ undoAll s.undoStack.undo.length s = .ok t ∧
      t.document = normalize ⟨[.paragraph [.plain ['a', 'b']]]⟩ := by
  have hempty : Reaches EditorState.history ExactEdit
      (fromDocument ⟨[.paragraph [.plain ['a', 'b']]]⟩) _ := .refl _
  have htyped := hempty.tail (a := .edit (.insertText ['x'])) (by decide) rfl
  have hsplit := htyped.tail (a := .edit .splitBlock) (by decide) rfl
  obtain ⟨t, ht, -, hdoc⟩ := undoAll_restores _ _ (by decide) (by decide) rfl hsplit (by decide)
  exact ⟨_, t, rfl, ht, hdoc⟩

/-- Undo is not exact: typing at the start of a rule, changing the type of an indented list item
and making a half bold text bold are each undone to another document. -/
theorem undo_changes_document :
    (∃ s t, (fromDocument ⟨[.horizontalRule]⟩).applyAction (.insertText ['x']) = .ok s ∧
      undoAll s.undoStack.undo.length s = .ok t ∧ t.document ≠ normalize ⟨[.horizontalRule]⟩) ∧
    (∃ s t, (fromDocument ⟨[.listItem true 2 [.plain ['a']]]⟩).applyAction
        (.setBlockType (.heading .h1)) = .ok s ∧ undoAll s.undoStack.undo.length s = .ok t ∧
      t.document ≠ normalize ⟨[.listItem true 2 [.plain ['a']]]⟩) ∧
    (∃ s t, ((fromDocument ⟨[.paragraph [.plain ['a'], ⟨['b'], InlineStyle.bold, none⟩]]⟩).setSelection
        ⟨⟨0, 0⟩, ⟨0, 2⟩⟩).applyAction (.toggleInlineStyle InlineStyle.bold) = .ok s ∧
      undoAll s.undoStack.undo.length s = .ok t ∧
      t.document ≠ normalize ⟨[.paragraph [.plain ['a'], ⟨['b'], InlineStyle.bold, none⟩]]⟩) :=
  ⟨⟨_, _, rfl, rfl, by decide⟩, ⟨_, _, rfl, rfl, by decide⟩, ⟨_, _, rfl, rfl, by decide⟩⟩

end Ratatoskr.Rte

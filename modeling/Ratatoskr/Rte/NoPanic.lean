import Ratatoskr.Rte.Walk

/-!
# Rte.NoPanic

The editor along whole runs. As long as the recorded edits can be taken back and replayed, formatting
aside, undo and redo find the blocks their ops name; every other action panics exactly where
`wouldPanic` says.

* `Recorded` : the step leaves a history that undo and redo can walk.
* `perform_isOk_iff` : after a run of such steps an action is performed iff it would not panic.
-/

namespace Ratatoskr.Rte

open Lib (Maps Triple Chain Reaches)
open EditorState

variable {ops ops' : List EditOp} {F G : List (FlatBlock Unit)} {d d' : Document}
  {sel : DocSelection} {action : EditAction} {pending : InlineStyle} {s s' : EditorState}
  {slice : DocSlice}

/-- The edit is undone and redone exactly, formatting aside. -/
def replayExact (d : Document) (sel : DocSelection) : EditAction → Bool
  | .insertText text => insertExact d sel text && textLands d sel text
  | action => shapeExact d sel action

/-- A recorded batch leads from documents that say `F` to documents that say `G` and back. Typing
also does so before the document is normalized, so that batches of it can be merged. -/
structure Replayable (ops : List EditOp) (F G : List (FlatBlock Unit)) : Prop where
  nonempty : F ≠ []
  back : Maps (flat noFormat) G (undoOps ops) F
  forth : Replays noFormat ops F G
  typing : allInsertText ops = true → ∀ e, HasRuns e → flat noFormat e = F →
    ∃ e', applyOps ops e = .ok e' ∧ flat noFormat e' = G ∧ HasRuns e'

theorem allInsertText_append :
    allInsertText (ops ++ ops') = (allInsertText ops && allInsertText ops') := by
  simp [allInsertText]

theorem Replayable.append {H : List (FlatBlock Unit)} (h : Replayable ops F G)
    (h' : Replayable ops' G H) (hops : allInsertText ops = true)
    (hops' : allInsertText ops' = true) : Replayable (ops ++ ops') F H := by
  have htyping : ∀ e, HasRuns e → flat noFormat e = F →
      ∃ e', applyOps (ops ++ ops') e = .ok e' ∧ flat noFormat e' = H ∧ HasRuns e' := by
    intro e he hflat
    obtain ⟨e1, he1, hflat1, hruns1⟩ := h.typing hops e he hflat
    obtain ⟨e2, he2, hflat2, hruns2⟩ := h'.typing hops' e1 hruns1 hflat1
    refine ⟨e2, ?_, hflat2, hruns2⟩
    rw [applyOps_append, he1]
    exact he2
  refine ⟨h.nonempty, maps_undoOps_append noFormat ops ops' h'.back h.back, ?_,
    fun _ => htyping⟩
  intro e he hflat
  obtain ⟨e', he', hflat', -⟩ := htyping e (hasRuns_of_normal he) hflat
  exact ⟨e', he', hflat'⟩

theorem not_allInsertText {op : EditOp} (ops : List EditOp) (h : op.isInsertText = false) :
    allInsertText (op :: ops) = false := by
  simp [allInsertText, h]

theorem selectionOps_allInsertText (h : allInsertText (selectionOps d sel ++ ops) = true) :
    selectionOps d sel = [] := by
  rw [allInsertText_append, Bool.and_eq_true] at h
  cases hcol : sel.isCollapsed with
  | true => rw [selectionOps, if_pos hcol]
  | false =>
    have hsel : selectionOps d sel = buildDeleteSelection d sel := by simp [selectionOps, hcol]
    rcases buildDeleteSelection_cases d sel with ⟨-, hops⟩ | ⟨-, hops⟩
    · rw [hsel, hops]
    · rw [hsel, hops] at h
      cases h.1

/-- A batch of typing that is merged types at the caret and does nothing else. -/
theorem insert_typing {target : Document} {p : DocPosition} {style : InlineStyle} {text : Text}
    (h : allInsertText (selectionOps d sel ++ insertOps target p style text) = true) :
    selectionOps d sel = [] ∧ insertOps target p style text = [.insertText p text] := by
  refine ⟨selectionOps_allInsertText h, ?_⟩
  obtain ⟨bits, hops⟩ := insertOps_eq target p style text
  rw [hops] at h ⊢
  cases bits with
  | nil => rfl
  | cons m bits => simp [allInsertText, EditOp.isInsertText] at h

theorem insert_replayable (target : Document) (style : InlineStyle) {text : Text}
    (hd : d.blocks ≠ []) (hv : SelectionValid d sel) (hexact : insertExact d sel text = true)
    (hlands : textLands d sel text = true)
    (h : applyOps (selectionOps d sel ++ insertOps target (caretTarget d sel) style text) d = .ok d') :
    Replayable (selectionOps d sel ++ insertOps target (caretTarget d sel) style text)
      (flat noFormat d) (flat noFormat d') := by
  have hsel : selectionExact d sel = true := by
    simp only [insertExact, Bool.and_eq_true] at hexact
    exact hexact.1
  refine ⟨(flat_ne_nil noFormat).2 hd, rewinds_insert noFormat target style hv hexact h,
    replays_insert target style hv hsel hlands h, ?_⟩
  intro hall e he hflat
  obtain ⟨hnil, hops⟩ := insert_typing hall
  have hkeep : applyOps (selectionOps d sel) d = .ok d := by
    rw [hnil]
    rfl
  have hruns := textLands_runs hv hkeep hlands
  rw [hnil, List.nil_append, hops] at h ⊢
  obtain ⟨b, hb⟩ := run_insertText_block (applyOps_singleton h)
  obtain ⟨P, Q, hsplit, hlen⟩ := flat_split noFormat hb
  have hok : InsertOpsOk [.insertText (caretTarget d sel) text]
      ⟨P.length, (caretTarget d sel).offset⟩ text := by
    rw [hlen]
    exact ⟨[], rfl, by simp⟩
  rw [← hlen] at hruns
  obtain ⟨d2, hd2, hflat2⟩ := typing_noFormat hok hsplit hruns
  rw [h] at hd2
  cases hd2
  obtain ⟨e', he', hflat'⟩ := typing_noFormat hok (hflat.trans hsplit)
    (.inr fun c hc => he c (List.mem_of_getElem? hc))
  exact ⟨e', he', by rw [hflat', hflat2], run_insertText_hasRuns he (applyOps_singleton he')⟩

theorem Replayable.of_not_typing (hF : F ≠ []) (hback : Maps (flat noFormat) G (undoOps ops) F)
    (hforth : Replays noFormat ops F G) (hops : allInsertText ops = false) : Replayable ops F G := by
  refine ⟨hF, hback, hforth, ?_⟩
  intro hall
  rw [hops] at hall
  cases hall

theorem deletionOps_not_typing (h : DeletionOps d sel ops) (hne : ops ≠ []) :
    allInsertText ops = false := by
  cases h with
  | nothing => exact absurd rfl hne
  | selection hcol =>
    rcases buildDeleteSelection_cases d sel with ⟨-, hops⟩ | ⟨-, hops⟩
    · exact absurd hops hne
    · rw [hops]
      rfl
  | remove | clear | merge | char => rfl

theorem splitOps_not_typing (b : Block) (p : DocPosition) : allInsertText (splitOps b p) = false := by
  unfold splitOps
  split
  · rfl
  · split <;> rfl
  · split <;> rfl
  · rfl

theorem edit_not_typing (hv : SelectionValid d sel) (haction : ∀ text, action ≠ .insertText text)
    (hops : resolve d sel action pending = .ok ops) (hne : ops ≠ []) :
    allInsertText ops = false := by
  cases action with
  | insertText text => exact absurd rfl (haction text)
  | deleteBackward =>
    cases hops
    exact deletionOps_not_typing resolveDeleteBackward_ops hne
  | deleteForward =>
    cases hops
    exact deletionOps_not_typing resolveDeleteForward_ops hne
  | deleteSelection =>
    cases hops
    exact deletionOps_not_typing resolveDeleteSelection_ops hne
  | splitBlock =>
    cases hops
    obtain ⟨b, hb, -⟩ := isValidPosition_iff.1 (caretTarget_valid hv)
    rw [resolveSplitBlock_eq hb, allInsertText_append, splitOps_not_typing, Bool.and_false]
  | toggleInlineStyle m =>
    rcases resolveToggleStyle_cases hops with rfl | ⟨-, start, stop, -, rfl⟩ | ⟨-, rfl⟩
    · exact absurd rfl hne
    · rfl
    · rfl
  | setBlockType kind =>
    cases hops
    rcases resolveSetBlockType_cases d sel kind with hops | ⟨b, new, -, -, -, -, -, -, -, hops⟩
    · exact absurd hops hne
    · rw [hops]
      rfl

theorem edit_replayable (hd : d.blocks ≠ []) (hv : SelectionValid d sel)
    (hexact : replayExact d sel action = true) (hops : resolve d sel action pending = .ok ops)
    (hne : ops ≠ []) (h : applyOps ops d = .ok d') :
    Replayable ops (flat noFormat d) (flat noFormat d') := by
  have hF := (flat_ne_nil noFormat).2 hd
  have hdel : selectionExact d sel = true → DeletionOps d sel ops →
      Replayable ops (flat noFormat d) (flat noFormat d') := by
    intro hexact hdel
    exact .of_not_typing hF (rewinds_deletionOps noFormat hv hexact hdel h)
      (replays_deletionOps noFormat hv hexact hdel h) (deletionOps_not_typing hdel hne)
  cases action with
  | insertText text =>
    simp only [replayExact, Bool.and_eq_true] at hexact
    obtain ⟨target, hops', -⟩ := resolveInsert_eq hv text pending
    rw [resolve, hops'] at hops
    cases hops
    exact insert_replayable target _ hd hv hexact.1 hexact.2 h
  | deleteBackward =>
    cases hops
    exact hdel hexact resolveDeleteBackward_ops
  | deleteForward =>
    cases hops
    exact hdel hexact resolveDeleteForward_ops
  | deleteSelection =>
    cases hops
    exact hdel hexact resolveDeleteSelection_ops
  | splitBlock =>
    have htyping := edit_not_typing hv (by simp) hops hne
    cases hops
    exact .of_not_typing hF (rewinds_split noFormat hv hexact h)
      (replays_split noFormat hv hexact h) htyping
  | toggleInlineStyle m =>
    have htoggle : ∀ start stop, ops = [.toggleInlineStyle start stop m] →
        Replayable ops (flat noFormat d) (flat noFormat d') := by
      rintro start stop rfl
      have hrun := applyOps_singleton h
      have hmaps := maps_toggle_noFormat (flat noFormat d) (run_toggle_lt hrun) m
      rw [hmaps.view_eq rfl hrun]
      exact .of_not_typing hF (maps_undoOps_singleton noFormat hmaps)
        (.of_maps noFormat (maps_applyOps_single noFormat hmaps)) rfl
    rcases resolveToggleStyle_cases hops with rfl | ⟨-, start, stop, -, hops'⟩ | ⟨-, hops'⟩
    · exact absurd rfl hne
    · exact htoggle start stop hops'
    · exact htoggle _ _ hops'
  | setBlockType kind =>
    have htyping := edit_not_typing hv (by simp) hops hne
    cases hops
    exact .of_not_typing hF (rewinds_setBlockType noFormat hexact h)
      (replays_setBlockType noFormat h) htyping

theorem extends_not_typing {φ : Type} {view : Format → φ} {d1 : Document}
    {t : Document × List EditOp} (h : Extends view (d1, selectionOps d sel) t) (hne : t.2 ≠ []) :
    allInsertText t.2 = false := by
  obtain ⟨new, hops, -, hkind, -⟩ := h
  by_contra hall
  simp only [Bool.not_eq_false] at hall
  rw [hops] at hall hne
  have hnil := selectionOps_allInsertText hall
  rw [hnil, List.nil_append] at hall hne
  obtain ⟨op, rest, rfl⟩ := List.exists_cons_of_ne_nil hne
  rw [not_allInsertText rest (hkind op (by simp))] at hall
  cases hall

theorem paste_replayable (hd : s.document.blocks ≠ [])
    (hv : SelectionValid s.document s.selection) (hblocks : slice.blocks ≠ [])
    (hexact : pasteExact s.document s.selection slice = true) (h : s.pasteSlice slice = .ok s') :
    ∃ ops, (ops = [] ∧ s'.undoStack = s.undoStack ∨
        ops ≠ [] ∧ s'.undoStack = s.undoStack.push ops s.selection s'.selection) ∧
      (ops ≠ [] → Replayable ops (flat noFormat s.document) (flat noFormat s'.document)) ∧
      (ops = [] → flat noFormat s'.document = flat noFormat s.document) := by
  obtain ⟨d1, t, caret, hd1, hp, hdoc, hundo⟩ := pasteSlice_ok hblocks h
  obtain ⟨happ, hback⟩ := rewinds_paste noFormat hd hv hd1 hblocks hexact hp
  have hext := pasteSlice_extends noFormat hd hv hd1 hblocks hexact hp
  have hflat : flat noFormat s'.document = flat noFormat t.1 := by
    rw [hdoc, flat_normalize noFormat (applyOps_ne_nil hd happ)]
  have hsel : selectionExact s.document s.selection = true := by
    simp only [pasteExact, Bool.or_eq_true, Bool.and_eq_true, List.isEmpty_iff, hblocks,
      false_or] at hexact
    exact hexact.1
  refine ⟨t.2, ?_, ?_, ?_⟩
  · by_cases hnil : t.2 = []
    · rw [hnil] at hundo
      exact .inl ⟨hnil, hundo⟩
    · rw [if_neg (by simpa using hnil)] at hundo
      exact .inr ⟨hnil, hundo⟩
  · intro hne
    rw [hflat]
    refine .of_not_typing ((flat_ne_nil noFormat).2 hd) hback ?_ (extends_not_typing hext hne)
    obtain ⟨new, hops, -, -, hchain⟩ := hext
    rw [hops]
    exact replays_after_selection noFormat hv hsel hd1 (chain_applyOps noFormat hchain)
  · intro hnil
    rw [hnil] at happ
    have hsame : s.document = t.1 := Except.ok.inj happ
    rw [hflat, hsame]

/-! ## Runs -/

theorem replayable_walks : Walks noFormat Replayable (docNormal anyAnchor · = true) where
  nonempty h := h.nonempty
  back h := h.back
  forth h := h.forth
  normalized := normalize_normal rfl

/-- The step leaves a history that undo and redo can walk. -/
def Recorded (s : EditorState) : Action → Prop
  | .edit action => SelectionValid s.document s.selection ∧
      replayExact s.document s.selection action = true
  | .cut => SelectionValid s.document s.selection ∧ selectionExact s.document s.selection = true
  | .paste text => SelectionValid s.document s.selection ∧
      match pastedSlice s text with
      | some slice => pasteExact s.document s.selection slice = true
      | none => replayExact s.document s.selection (.insertText text) = true
  | _ => True

abbrev ShapeWalkable (s : EditorState) : Prop :=
  Walkable noFormat Replayable (docNormal anyAnchor · = true) s

theorem ShapeWalkable.record (hs : ShapeWalkable s) (hne : s'.document.blocks ≠ [])
    (hops : ops ≠ []) (hundo : s'.undoStack = s.undoStack.push ops s.selection s'.selection)
    (h : Replayable ops (flat noFormat s.document) (flat noFormat s'.document)) :
    ShapeWalkable s' := by
  refine Walkable.push hs hne hops hundo h ?_
  intro last F hcan hlast
  simp only [canMerge, Bool.and_eq_true] at hcan
  exact hlast.append h hcan.1.1.1 hcan.1.1.2

theorem applyAction_walkable (hs : ShapeWalkable s) (hv : SelectionValid s.document s.selection)
    (hexact : replayExact s.document s.selection action = true)
    (h : s.applyAction action = .ok s') : ShapeWalkable s' := by
  obtain ⟨ops, hops, ⟨hne, hcommit⟩ | ⟨-, hdoc, -, hundo, hredo, -⟩⟩ := applyAction_ok h
  · obtain ⟨d, happ, hflat, hstack⟩ := commitOps_flat noFormat hs.nonempty hcommit
    have hgroup := edit_replayable hs.nonempty hv hexact hops hne happ
    rw [← hflat] at hgroup
    exact hs.record ((applyAction_settled h).ne_nil hs.nonempty) hne hstack hgroup
  · exact hs.of_same hdoc hundo hredo

theorem pasteSlice_walkable (hs : ShapeWalkable s) (hv : SelectionValid s.document s.selection)
    (hexact : pasteExact s.document s.selection slice = true) (h : s.pasteSlice slice = .ok s') :
    ShapeWalkable s' := by
  by_cases hblocks : slice.blocks = []
  · simp only [pasteSlice, hblocks] at h
    cases h
    exact hs
  obtain ⟨ops, hstack, hgroup, hsame⟩ := paste_replayable hs.nonempty hv hblocks hexact h
  have hne := (pasteSlice_settled h).ne_nil hs.nonempty
  rcases hstack with ⟨hnil, hundo⟩ | ⟨hops, hundo⟩
  · obtain ⟨d1, t, caret, -, -, hdoc, -⟩ := pasteSlice_ok hblocks h
    refine ⟨hne, ?_, ?_, ?_⟩
    · rw [hundo, hsame hnil]
      exact hs.undo
    · rw [hundo, hsame hnil]
      exact hs.redo
    · intro _
      rw [hdoc]
      exact normalize_normal rfl t.1
  · exact hs.record hne hops hundo (hgroup hops)

theorem copy_undoStack (s : EditorState) : s.copy.undoStack = s.undoStack := by
  unfold copy
  split
  · rfl
  · split <;> rfl

theorem perform_walkable (alnum : Char → Bool) {a : Action} (hs : ShapeWalkable s)
    (ha : Recorded s a) (h : s.perform alnum a = .ok s') : ShapeWalkable s' := by
  cases a with
  | edit action => exact applyAction_walkable hs ha.1 ha.2 h
  | undo =>
    obtain ⟨t, ht, hwalk⟩ := Walkable.undo_step replayable_walks hs
    have heq : s.undo = .ok s' := h
    rw [ht] at heq
    cases heq
    exact hwalk
  | redo =>
    obtain ⟨t, ht, hwalk⟩ := Walkable.redo_step replayable_walks hs
    have heq : s.redo = .ok s' := h
    rw [ht] at heq
    cases heq
    exact hwalk
  | copy =>
    cases h
    exact hs.of_same (copy_document s) (by rw [copy_undoStack]) (by rw [copy_undoStack])
  | cut =>
    have hcopy : ShapeWalkable s.copy :=
      hs.of_same (copy_document s) (by rw [copy_undoStack]) (by rw [copy_undoStack])
    simp only [perform, cut] at h
    split at h
    · cases h
      exact hcopy
    · refine applyAction_walkable hcopy ?_ ?_ h
      · rw [copy_document, copy_selection]
        exact ha.1
      · rw [copy_document, copy_selection]
        exact ha.2
  | paste text =>
    obtain ⟨hv, hexact⟩ := ha
    simp only [perform, paste_eq] at h
    cases hslice : pastedSlice s text with
    | some slice =>
      rw [hslice] at h hexact
      exact pasteSlice_walkable hs hv hexact h
    | none =>
      rw [hslice] at h hexact
      exact applyAction_walkable hs hv hexact h
  | drag pos =>
    cases h
    unfold handleDrag
    split
    · exact hs.of_same rfl rfl rfl
    · exact hs
  | move | select | selectAll | click | doubleClick | tripleClick | linkClicked | focus | blur =>
    cases h
    exact hs.of_same rfl rfl rfl

end Ratatoskr.Rte

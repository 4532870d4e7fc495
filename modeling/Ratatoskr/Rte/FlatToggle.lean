import Ratatoskr.Rte.FlatOps

/-!
# Rte.FlatToggle

Style toggles on what a document says. A toggle is its own inverse only where the covered text is
uniform: all of it has the style, or none of it has any bit of it. The toggles that follow a typed
text stay inside it, so undoing the typing takes them along.

* `maps_undo_toggle` : over uniform text the toggle undoes itself.
* `triple_undo_insertOps` : typing with its toggles is undone exactly.
-/

namespace Ratatoskr.Rte

open List
open Lib (Maps Triple)
open EditorState

variable {lo hi : Nat} {start stop : DocPosition} {d : Document}
  {set set' : InlineStyle → InlineStyle}

theorem insert_remove : ∀ s m : InlineStyle, InlineStyle.contains s m = true →
    InlineStyle.insert (InlineStyle.remove s m) m = s := by
  decide

theorem remove_insert : ∀ s m : InlineStyle, s &&& m = 0 →
    InlineStyle.remove (InlineStyle.insert s m) m = s := by
  decide

theorem contains_insert : ∀ s m : InlineStyle, InlineStyle.contains (InlineStyle.insert s m) m = true := by
  decide

theorem not_contains_remove : ∀ s m : InlineStyle, m ≠ 0 →
    InlineStyle.contains (InlineStyle.remove s m) m = false := by
  decide

theorem toggledStyle_zero : ∀ (remove : Bool) (s : InlineStyle), toggledStyle remove 0 s = s := by
  decide

theorem run_toggle_local (pre post : List Block) (b : Block) (h : lo < hi) (m : InlineStyle) :
    ∃ remove, EditOp.run (.toggleInlineStyle ⟨pre.length, lo⟩ ⟨pre.length, hi⟩ m) ⟨pre ++ b :: post⟩ =
      .ok ⟨pre ++ toggledBlock ⟨pre.length, lo⟩ ⟨pre.length, hi⟩ remove m pre.length b :: post⟩ := by
  have hlt : (⟨pre.length, lo⟩ : DocPosition) < ⟨pre.length, hi⟩ := .inr ⟨rfl, h⟩
  obtain ⟨d', heq, hblocks⟩ := applyToggleInlineStyle_eq hlt m ⟨pre ++ b :: post⟩
  have hd' : d' = ⟨pre ++ toggledBlock ⟨pre.length, lo⟩ ⟨pre.length, hi⟩
      (allTextHasStyle ⟨pre ++ b :: post⟩ ⟨pre.length, lo⟩ ⟨pre.length, hi⟩ m) m pre.length b ::
        post⟩ := by
    cases d' with
    | mk blocks =>
      simp only [Document.mk.injEq]
      apply ext_getElem?
      intro i
      rw [hblocks i]
      by_cases hi' : i = pre.length
      · subst hi'
        simp
      · rw [if_neg (by simp only; omega)]
        by_cases hlt' : i < pre.length
        · rw [getElem?_append_left hlt', getElem?_append_left hlt']
        · rw [getElem?_append_right (by omega), getElem?_append_right (by omega),
            getElem?_cons, getElem?_cons, if_neg (by omega), if_neg (by omega)]
  rw [hd'] at heq
  have hap : EditOp.apply (.toggleInlineStyle ⟨pre.length, lo⟩ ⟨pre.length, hi⟩ m)
      ⟨pre ++ b :: post⟩ = _ := heq
  exact ⟨_, run_ok hap⟩

section View

variable {φ : Type} (view : Format → φ)
variable {x : FlatBlock φ} {o : Nat} {A : List (FlatBlock φ) → Prop} {p stop : DocPosition}
  {text : Text} {ops : List EditOp}

theorem flatBlock_toggledBlock {b : Block} {k : InlineKind} {cs : List (Grapheme × φ)}
    (h : flatBlock view b = .text k cs) (start stop : DocPosition) (remove : Bool)
    (m : InlineStyle) (i : Nat) : ∃ ds, flatBlock view (toggledBlock start stop remove m i b) = .text k ds ∧
      ds.map Prod.fst = cs.map Prod.fst ∧ ds.take (blockRange start stop i b).1 =
        cs.take (blockRange start stop i b).1 ∧
      ds.drop (blockRange start stop i b).2 = cs.drop (blockRange start stop i b).2 := by
  obtain ⟨hinl, rs, hruns, hcs⟩ := of_flatBlock_text view h
  simp only [toggledBlock, hruns]
  split
  · exact ⟨cs, h, rfl, rfl, rfl⟩
  rename_i hlt
  simp only [Nat.not_le] at hlt
  generalize (blockRange start stop i b).1 = lo at hlt ⊢
  generalize (blockRange start stop i b).2 = hi at hlt ⊢
  rw [flatBlock_setRuns view _ hinl, h]
  refine ⟨_, rfl, ?_⟩
  by_cases hne : rs = []
  · subst hne
    have hnil : toggleRuns remove m lo hi [] = [] := by
      rw [toggleRuns, isolateRuns_trivial (Nat.le_of_lt hlt) (.inl rfl)]
      rfl
    rw [hnil]
    simp [← hcs]
  · obtain ⟨A, M, C, heq, -, hA, hM, hC⟩ := toggleRuns_spec view remove m hne hlt
    have htext : ∀ L : List StyledRun, (chars view (L.map fun r =>
        { r with style := toggledStyle remove m r.style })).map Prod.fst =
        (chars view L).map Prod.fst := by
      intro L
      induction L with
      | nil => rfl
      | cons r L ih =>
        rw [map_cons, chars_cons, chars_cons, map_append, map_append, ih, map_map, map_map]
        rfl
    rw [heq, chars_append, chars_append, hA, hC, hcs]
    have hMtext := htext M
    rw [hM, hcs] at hMtext
    have hMlen := congrArg List.length hMtext
    simp only [length_map, length_drop, length_take] at hMlen
    refine ⟨?_, ?_, ?_⟩
    · rw [map_append, map_append, hMtext, ← map_append, ← map_append]
      congr 1
      have hle : min lo hi = lo := by omega
      calc cs.take lo ++ (cs.take hi).drop lo ++ cs.drop hi
          = (cs.take hi).take lo ++ (cs.take hi).drop lo ++ cs.drop hi := by
            rw [take_take, hle]
        _ = cs := by rw [take_append_drop, take_append_drop]
    · by_cases hlo : lo ≤ cs.length
      · rw [append_assoc, take_append_of_le_length (by simp; omega), take_take,
          Nat.min_self]
      · -- the range starts past the end, so nothing was restyled
        have hM0 : (chars view (M.map fun r =>
            { r with style := toggledStyle remove m r.style })) = [] := by
          rw [← length_eq_zero_iff]
          omega
        rw [hM0, append_nil, drop_eq_nil_of_le (by omega), append_nil,
          take_take, Nat.min_self]
    · by_cases hhi : hi ≤ cs.length
      · have hpre : (cs.take lo ++ chars view (M.map fun r =>
            { r with style := toggledStyle remove m r.style })).length = hi := by
          simp only [length_append, length_take]
          omega
        rw [drop_append_long _ (Nat.le_of_eq hpre), hpre, Nat.sub_self, drop_zero]
      · rw [drop_eq_nil_of_le (show cs.length ≤ hi by omega), append_nil]
        apply drop_eq_nil_of_le
        simp only [length_append, length_take]
        omega

/-- The block at index `P.length` holds `cs` around `n` further characters at offset `o`. -/
def Typed (P Q : List (FlatBlock φ)) (k : InlineKind) (cs : List (Grapheme × φ)) (o n : Nat)
    (F : List (FlatBlock φ)) : Prop :=
  ∃ ds, F = P ++ .text k ds :: Q ∧ ds.take o ++ ds.drop (o + n) = cs

theorem triple_toggle_typed (P Q : List (FlatBlock φ)) (k : InlineKind) (cs : List (Grapheme × φ))
    (o : Nat) {n : Nat} (hn : 0 < n) (m : InlineStyle) : Triple (flat view) (Typed P Q k cs o n)
      (EditOp.run (.toggleInlineStyle ⟨P.length, o⟩ ⟨P.length, o + n⟩ m)) (Typed P Q k cs o n) := by
  rintro d ⟨ds, hd, hds⟩
  obtain ⟨pre, b, post, rfl, rfl, hb, rfl⟩ := exists_flat_mid view hd
  rw [length_map]
  obtain ⟨remove, heq⟩ := run_toggle_local pre post b (show o < o + n by omega) m
  refine ⟨_, heq, ?_⟩
  obtain ⟨es, hes, -, htake, hdrop⟩ := flatBlock_toggledBlock view hb ⟨pre.length, o⟩
    ⟨pre.length, o + n⟩ remove m pre.length
  simp only [blockRange, if_true] at htake hdrop
  refine ⟨es, ?_, by rw [htake, hdrop, hds]⟩
  rw [flat_mid, hes]

theorem maps_toggle_atomic (P Q : List (FlatBlock φ)) (hx : x.isText = false) {lo hi : Nat}
    (h : lo < hi) (m : InlineStyle) : Maps (flat view) (P ++ x :: Q)
      (EditOp.run (.toggleInlineStyle ⟨P.length, lo⟩ ⟨P.length, hi⟩ m)) (P ++ x :: Q) := by
  intro d hd
  obtain ⟨pre, b, post, rfl, rfl, rfl, rfl⟩ := exists_flat_mid view hd
  rw [length_map]
  obtain ⟨remove, heq⟩ := run_toggle_local pre post b h m
  rw [isText_flatBlock] at hx
  refine ⟨_, heq, ?_⟩
  rw [flat_mid]
  simp [toggledBlock, runs_eq_none hx]

/-! ## Typing -/

theorem insertOps_eq (target : Document) (p : DocPosition) (style : InlineStyle) (text : Text) :
    ∃ bits : List InlineStyle, insertOps target p style text = .insertText p text ::
        bits.map (.toggleInlineStyle p ⟨p.blockIndex, p.offset + textLen text⟩ ·) := by
  unfold insertOps
  simp only
  split
  · exact ⟨[], rfl⟩
  · exact ⟨_, rfl⟩

theorem triple_insertText (P Q : List (FlatBlock φ)) (k : InlineKind) (cs : List (Grapheme × φ))
    (ho : o ≤ cs.length) (text : Text) :
    Triple (flat view) (· = P ++ .text k cs :: Q) (EditOp.run (.insertText ⟨P.length, o⟩ text))
      (Typed P Q k cs o (textLen text)) := by
  intro d hd
  obtain ⟨pre, b, post, rfl, rfl, hb, rfl⟩ := exists_flat_mid view hd
  obtain ⟨hinl, rs, hruns, hcs⟩ := of_flatBlock_text view hb
  rw [length_map]
  have hap : EditOp.apply (.insertText ⟨pre.length, o⟩ text) ⟨pre ++ b :: post⟩ = _ :=
    applyInsertText_inline hruns o text
  refine ⟨_, run_ok hap, chars view (insertTextIntoRuns rs o text), ?_, ?_⟩
  · rw [flat_mid, flatBlock_setRuns view _ hinl, hb]
    rfl
  · by_cases hne : rs = []
    · subst hne
      rw [insertTextIntoRuns_nil]
      simp [← hcs]
    · rw [chars_insertTextIntoRuns view o text hne, hcs]
      have htake : (cs.take o).length = o := by simp; omega
      have hpre : (cs.take o ++ text.map (·, view (insertFormat o rs))).length =
          o + textLen text := by
        simp [textLen, htake]
      have h1 : (cs.take o ++ text.map (·, view (insertFormat o rs)) ++ cs.drop o).take o =
          cs.take o := by
        rw [append_assoc, take_append_of_le_length (by omega), take_take,
          Nat.min_self]
      have h2 : (cs.take o ++ text.map (·, view (insertFormat o rs)) ++ cs.drop o).drop
          (o + textLen text) = cs.drop o := by
        rw [drop_append_long _ (by omega), hpre, Nat.sub_self, drop_zero]
      rw [h1, h2, take_append_drop]

theorem maps_insertText_atomic (P Q : List (FlatBlock φ)) (hx : x.isText = false) (o : Nat) (text : Text) :
    Maps (flat view) (P ++ x :: Q) (EditOp.run (.insertText ⟨P.length, o⟩ text)) (P ++ x :: Q) := by
  intro d hd
  obtain ⟨pre, b, post, rfl, rfl, rfl, rfl⟩ := exists_flat_mid view hd
  rw [isText_flatBlock] at hx
  rw [length_map]
  have hap : EditOp.apply (.insertText ⟨pre.length, o⟩ text) ⟨pre ++ b :: post⟩ = _ :=
    applyInsertText_atomic (runs_eq_none hx) o text
  exact ⟨_, run_ok hap, flat_mid view pre post b⟩

theorem applyOps_cons_fun (op : EditOp) (ops : List EditOp) :
    applyOps (op :: ops) = fun d => op.run d >>= applyOps ops :=
  funext fun d => applyOps_cons op ops d

theorem undoOps_cons_fun (op : EditOp) (ops : List EditOp) :
    undoOps (op :: ops) = fun d => undoOps ops d >>= op.rewind :=
  funext fun d => undoOps_cons op ops d

theorem triple_applyOps_toggles (h : ∀ m, Triple (flat view) A (EditOp.run (.toggleInlineStyle p stop m)) A)
    (bits : List InlineStyle) :
    Triple (flat view) A (applyOps (bits.map (.toggleInlineStyle p stop ·))) A := by
  induction bits with
  | nil => exact Triple.skip
  | cons m bits ih =>
    rw [map_cons, applyOps_cons_fun]
    exact (h m).seq ih

theorem triple_undoOps_toggles (h : ∀ m, Triple (flat view) A (EditOp.run (.toggleInlineStyle p stop m)) A)
    (bits : List InlineStyle) :
    Triple (flat view) A (undoOps (bits.map (.toggleInlineStyle p stop ·))) A := by
  induction bits with
  | nil => exact Triple.skip
  | cons m bits ih =>
    rw [map_cons, undoOps_cons_fun]
    exact ih.seq (h m)

/-- The batch of a typed text: with nothing typed there is nothing to style. -/
def InsertOpsOk (ops : List EditOp) (p : DocPosition) (text : Text) : Prop :=
  ∃ bits : List InlineStyle, ops = .insertText p text ::
      bits.map (.toggleInlineStyle p ⟨p.blockIndex, p.offset + textLen text⟩ ·) ∧
    (bits ≠ [] → 0 < textLen text)

theorem insertOps_ok {target d d' : Document} {style : InlineStyle}
    (h : applyOps (insertOps target p style text) d = .ok d') :
    InsertOpsOk (insertOps target p style text) p text := by
  obtain ⟨bits, hops⟩ := insertOps_eq target p style text
  refine ⟨bits, hops, ?_⟩
  intro hne
  obtain ⟨m, bits, rfl⟩ := exists_cons_of_ne_nil hne
  rw [hops, applyOps_cons] at h
  cases hrun : EditOp.run (.insertText p text) d with
  | error e => simp [hrun, bind, Except.bind] at h
  | ok d1 =>
    simp only [hrun, bind, Except.bind, map_cons, applyOps_cons] at h
    rw [Nat.pos_iff_ne_zero]
    intro hzero
    -- the first toggle would panic
    have hempty : ¬ p < (⟨p.blockIndex, p.offset + textLen text⟩ : DocPosition) := by
      simp only [DocPosition.lt_iff]
      omega
    simp [EditOp.run, EditOp.apply, applyToggleInlineStyle, hempty, Except.map] at h

theorem triple_applyOps_typing (P Q : List (FlatBlock φ)) (k : InlineKind)
    (cs : List (Grapheme × φ)) (ho : o ≤ cs.length) (h : InsertOpsOk ops ⟨P.length, o⟩ text) :
    Triple (flat view) (· = P ++ .text k cs :: Q) (applyOps ops) (Typed P Q k cs o (textLen text)) := by
  obtain ⟨bits, rfl, hpos⟩ := h
  rw [applyOps_cons_fun]
  refine (triple_insertText view P Q k cs ho text).seq ?_
  by_cases hbits : bits = []
  · subst hbits
    exact Triple.skip
  · exact triple_applyOps_toggles view
      (fun m => triple_toggle_typed view P Q k cs o (hpos hbits) m) bits

theorem triple_undoOps_typing (P Q : List (FlatBlock φ)) (k : InlineKind)
    (cs : List (Grapheme × φ)) (h : InsertOpsOk ops ⟨P.length, o⟩ text) :
    Triple (flat view) (Typed P Q k cs o (textLen text)) (undoOps ops) (· = P ++ .text k cs :: Q) := by
  obtain ⟨bits, rfl, hpos⟩ := h
  rw [undoOps_cons_fun]
  have htoggles : Triple (flat view) (Typed P Q k cs o (textLen text))
      (undoOps (bits.map (.toggleInlineStyle ⟨P.length, o⟩ ⟨P.length, o + textLen text⟩ ·)))
      (Typed P Q k cs o (textLen text)) := by
    by_cases hbits : bits = []
    · subst hbits
      exact Triple.skip
    · exact triple_undoOps_toggles view
        (fun m => triple_toggle_typed view P Q k cs o (hpos hbits) m) bits
  refine htoggles.seq ?_
  rintro d ⟨ds, hd, hds⟩
  obtain ⟨d', hd', hflat⟩ := maps_undo_insertText view P Q k ds o text d hd
  exact ⟨d', hd', by rw [hflat, hds]⟩

theorem maps_applyOps_typing_atomic (P Q : List (FlatBlock φ)) (hx : x.isText = false)
    (h : InsertOpsOk ops ⟨P.length, o⟩ text) :
    Maps (flat view) (P ++ x :: Q) (applyOps ops) (P ++ x :: Q) := by
  obtain ⟨bits, rfl, hpos⟩ := h
  rw [applyOps_cons_fun]
  refine Triple.seq (maps_insertText_atomic view P Q hx o text) ?_
  by_cases hbits : bits = []
  · subst hbits
    exact Triple.skip
  · have hlt : o < o + textLen text := by
      have := hpos hbits
      omega
    exact triple_applyOps_toggles view (fun m => maps_toggle_atomic view P Q hx hlt m) bits

theorem maps_undoOps_typing_atomic (P Q : List (FlatBlock φ)) (hx : x.isText = false)
    (h : InsertOpsOk ops ⟨P.length, o⟩ text) (hexact : o ≠ 0 ∨ text = []) :
    Maps (flat view) (P ++ x :: Q) (undoOps ops) (P ++ x :: Q) := by
  obtain ⟨bits, rfl, hpos⟩ := h
  rw [undoOps_cons_fun]
  have htoggles : Maps (flat view) (P ++ x :: Q)
      (undoOps (bits.map (.toggleInlineStyle ⟨P.length, o⟩ ⟨P.length, o + textLen text⟩ ·)))
      (P ++ x :: Q) := by
    by_cases hbits : bits = []
    · subst hbits
      exact Triple.skip
    · have hlt : o < o + textLen text := by
        have := hpos hbits
        omega
      exact triple_undoOps_toggles view (fun m => maps_toggle_atomic view P Q hx hlt m) bits
  exact Triple.seq htoggles (maps_undo_insertText_atomic view P Q x o text hx hexact)

end View

/-! ## Over a selection -/

/-- The range a toggle over `[start, stop)` covers in block `i` of length `len`. -/
def rangeIn (start stop : DocPosition) (i len : Nat) : Nat × Nat :=
  (if i = start.blockIndex then start.offset else 0,
    if i = stop.blockIndex then stop.offset else len)

/-- The formatted characters of a block that `[start, stop)` covers. -/
def FlatBlock.span (x : FlatBlock Format) (start stop : DocPosition) (i : Nat) : List (Grapheme × Format) :=
  (x.chars.take (rangeIn start stop i x.len).2).drop (rangeIn start stop i x.len).1

/-- The formatted characters of a document that `[start, stop)` covers. -/
def selectedChars (F : List (FlatBlock Format)) (start stop : DocPosition) : List (Grapheme × Format) :=
  (List.range' start.blockIndex (stop.blockIndex + 1 - start.blockIndex)).flatMap fun i =>
    match F[i]? with
    | none => []
    | some x => x.span start stop i

/-- All covered characters have the style, or none has a bit of it. -/
def uniformStyle (d : Document) (start stop : DocPosition) (m : InlineStyle) : Bool :=
  let cs := selectedChars (flat id d) start stop
  cs.all (fun c => InlineStyle.contains c.2.1 m) || cs.all (fun c => c.2.1 &&& m == 0)

/-- Both ends of the range are inside the blocks they are in. -/
def RangeWithin (F : List (FlatBlock Format)) (start stop : DocPosition) : Prop :=
  start < stop ∧ (∀ x, F[start.blockIndex]? = some x → start.offset ≤ x.len) ∧
    ∀ x, F[stop.blockIndex]? = some x → stop.offset ≤ x.len

theorem mem_selectedChars {F : List (FlatBlock Format)} {c : Grapheme × Format} :
    c ∈ selectedChars F start stop ↔ ∃ i x, start.blockIndex ≤ i ∧ i ≤ stop.blockIndex ∧ F[i]? = some x ∧
        c ∈ x.span start stop i := by
  simp only [selectedChars, mem_flatMap, mem_range'_1]
  constructor
  · rintro ⟨i, hi, hc⟩
    cases hx : F[i]? with
    | none => simp [hx] at hc
    | some x => exact ⟨i, x, by omega, by omega, hx, by simpa [hx] using hc⟩
  · rintro ⟨i, x, hlo, hhi, hx, hc⟩
    exact ⟨i, by omega, by simpa [hx] using hc⟩

theorem runsHaveStyle_iff (m : InlineStyle) (pos : Nat) (rs : List StyledRun) (h : lo < hi) :
    runsHaveStyle lo hi m pos rs = true ↔ ∀ c ∈ ((chars id rs).take (hi - pos)).drop (lo - pos),
        InlineStyle.contains c.2.1 m = true := by
  induction rs generalizing pos with
  | nil => simp [runsHaveStyle]
  | cons r rs ih =>
    simp only [runsHaveStyle, charLen_eq, chars_cons]
    by_cases hend : pos + r.text.length ≤ lo
    · rw [if_pos hend, ih, take_append_long _ (by simp; omega),
        drop_append_long _ (by simp; omega), length_map, Nat.sub_sub, Nat.sub_sub]
    rw [if_neg hend]
    by_cases hpos : pos ≥ hi
    · simp [hpos]
    rw [if_neg hpos]
    by_cases hbad : r.text.length > 0 ∧ ¬ InlineStyle.contains r.style m = true
    · -- a character of the run lies in the range
      rw [if_pos hbad]
      simp only [Bool.false_eq_true, false_iff, not_forall]
      have hidx : max lo pos - pos < r.text.length := by omega
      refine ⟨(r.text[max lo pos - pos], r.format), ?_, hbad.2⟩
      rw [mem_iff_getElem?]
      refine ⟨max lo pos - pos - (lo - pos), ?_⟩
      rw [getElem?_drop, getElem?_take_of_lt (by omega),
        getElem?_append_left (by simpa using hidx)]
      simp [hidx]
    · rw [if_neg hbad, ih]
      have hz : lo - (pos + r.text.length) = 0 := by omega
      rw [hz]
      have hrun : ∀ c ∈ (r.text.map (·, r.format)).take (hi - pos),
          InlineStyle.contains c.2.1 m = true := by
        intro c hc
        obtain ⟨g, hg, rfl⟩ := mem_map.1 (mem_of_mem_take hc)
        have := length_pos_of_mem hg
        simp only [not_and, not_not] at hbad
        exact hbad this
      rw [take_append, length_map, Nat.sub_sub, drop_append_of_le_length (by simp; omega)]
      constructor
      · intro hall c hc
        rcases mem_append.1 hc with hc | hc
        · exact hrun c (mem_of_mem_drop hc)
        · exact hall c hc
      · intro hall c hc
        exact hall c (mem_append_right _ hc)

theorem runsHaveStyle_empty (m : InlineStyle) (pos : Nat) (rs : List StyledRun)
    (h : hi = 0 ∨ pos + Block.runsLen rs ≤ lo) : runsHaveStyle lo hi m pos rs = true := by
  induction rs generalizing pos with
  | nil => rfl
  | cons r rs ih =>
    simp only [runsLen_cons] at h
    simp only [runsHaveStyle, charLen_eq]
    by_cases hend : pos + r.text.length ≤ lo
    · rw [if_pos hend]
      exact ih _ (by omega)
    · rw [if_neg hend, if_pos (by omega)]

theorem flat_getElem? {φ : Type} (view : Format → φ) (d : Document) (i : Nat) :
    (flat view d)[i]? = (d.blocks[i]?).map (flatBlock view) := by
  simp [flat]

theorem blockRange_eq (start stop : DocPosition) (i : Nat) (b : Block) :
    blockRange start stop i b = rangeIn start stop i (flatBlock id b).len := by
  rw [len_flatBlock]
  rfl

theorem allTextHasStyle_iff (m : InlineStyle) (h : RangeWithin (flat id d) start stop) :
    allTextHasStyle d start stop m = true ↔
      ∀ c ∈ selectedChars (flat id d) start stop, InlineStyle.contains c.2.1 m = true := by
  obtain ⟨hlt, hstart, hstop⟩ := h
  rw [DocPosition.lt_iff] at hlt
  have hblock : ∀ i b rs, start.blockIndex ≤ i → i ≤ stop.blockIndex → d.blocks[i]? = some b →
      b.runs = some rs →
      (runsHaveStyle (blockRange start stop i b).1 (blockRange start stop i b).2 m 0 rs = true ↔
        ∀ c ∈ (flatBlock id b).span start stop i, InlineStyle.contains c.2.1 m = true) := by
    intro i b rs hlo hhi hb hruns
    have hchars : (flatBlock id b).chars = chars id rs := by rw [chars_flatBlock, hruns]; rfl
    have hlen : (flatBlock id b).len = Block.runsLen rs := by
      simp [Block.charLen, hruns]
    rw [blockRange_eq, FlatBlock.span, hchars]
    by_cases hrange : (rangeIn start stop i (flatBlock id b).len).1 <
        (rangeIn start stop i (flatBlock id b).len).2
    · rw [runsHaveStyle_iff m 0 rs hrange, Nat.sub_zero, Nat.sub_zero]
    · have hempty : (rangeIn start stop i (flatBlock id b).len).2 = 0 ∨
          0 + Block.runsLen rs ≤ (rangeIn start stop i (flatBlock id b).len).1 := by
        unfold rangeIn at hrange ⊢
        by_cases hi1 : i = start.blockIndex
        · subst hi1
          by_cases hi2 : start.blockIndex = stop.blockIndex
          · simp only [hi2, if_true] at hrange ⊢
            omega
          · simp only [if_neg hi2] at hrange ⊢
            omega
        · by_cases hi2 : i = stop.blockIndex
          · simp only [if_neg hi1] at hrange ⊢
            omega
          · simp only [if_neg hi2] at hrange ⊢
            omega
      refine iff_of_true (runsHaveStyle_empty m 0 rs hempty) ?_
      intro c hc
      rw [drop_eq_nil_of_le (by rw [length_take]; omega)] at hc
      cases hc
  simp only [allTextHasStyle, all_eq_true, mem_range'_1]
  constructor
  · intro hall c hc
    obtain ⟨i, x, hlo, hhi, hx, hcx⟩ := mem_selectedChars.1 hc
    rw [flat_getElem?] at hx
    obtain ⟨b, hb, rfl⟩ := Option.map_eq_some_iff.1 hx
    have hi := hall i (by omega)
    simp only [Document.block, hb] at hi
    cases hruns : b.runs with
    | none =>
      rw [FlatBlock.span, chars_flatBlock, hruns] at hcx
      simp at hcx
    | some rs =>
      rw [hruns] at hi
      exact (hblock i b rs hlo hhi hb hruns).1 hi c hcx
  · intro hall i hi
    split
    · rfl
    rename_i b hb
    split
    · rfl
    rename_i rs hruns
    refine (hblock i b rs (by omega) (by omega) hb hruns).2 ?_
    intro c hc
    refine hall c (mem_selectedChars.2 ⟨i, flatBlock id b, by omega, by omega, ?_, hc⟩)
    rw [flat_getElem?]
    have hb' : d.blocks[i]? = some b := hb
    rw [hb']
    rfl

def restyle (set : InlineStyle → InlineStyle) (c : Grapheme × Format) : Grapheme × Format :=
  (c.1, (set c.2.1, c.2.2))

/-- The characters in `[lo, hi)` restyled. -/
def restyleSpan (set : InlineStyle → InlineStyle) (lo hi : Nat) (cs : List (Grapheme × Format)) :
    List (Grapheme × Format) :=
  if lo < hi then cs.take lo ++ ((cs.take hi).drop lo).map (restyle set) ++ cs.drop hi else cs

/-- A block after a toggle over `[start, stop)`. -/
def FlatBlock.restyled (set : InlineStyle → InlineStyle) (start stop : DocPosition) (i : Nat) :
    FlatBlock Format → FlatBlock Format
  | .text k cs =>
    .text k (restyleSpan set (rangeIn start stop i cs.length).1
      (rangeIn start stop i cs.length).2 cs)
  | x => x

theorem chars_map_restyle (set : InlineStyle → InlineStyle) (rs : List StyledRun) :
    chars id (rs.map fun r => { r with style := set r.style }) =
      (chars id rs).map (restyle set) := by
  induction rs with
  | nil => rfl
  | cons r rs ih =>
    rw [map_cons, chars_cons, chars_cons, map_append, ih, map_map]
    rfl

theorem flatBlock_id_toggledBlock (start stop : DocPosition) (remove : Bool) (m : InlineStyle)
    (i : Nat) (b : Block) : flatBlock id (toggledBlock start stop remove m i b) =
      (flatBlock id b).restyled (toggledStyle remove m) start stop i := by
  cases hruns : b.runs with
  | none =>
    have hatomic : (flatBlock id b).isText = false := by
      rw [isText_flatBlock, ← runs_isSome, hruns]
      rfl
    simp only [toggledBlock, hruns]
    cases hx : flatBlock id b with
    | text k cs => simp [hx] at hatomic
    | _ => rfl
  | some rs =>
    have hinl := isInline_of_runs hruns
    obtain ⟨k, cs, hk, hcs⟩ := exists_text_of_runs id hruns
    have hlen : (flatBlock id b).len = cs.length := by rw [hk]; rfl
    simp only [toggledBlock, hruns, blockRange_eq, hlen]
    rw [hk, FlatBlock.restyled, restyleSpan]
    generalize (rangeIn start stop i cs.length).1 = lo
    generalize (rangeIn start stop i cs.length).2 = hi
    by_cases hlt : lo < hi
    · rw [if_neg (by omega), if_pos hlt, flatBlock_setRuns id _ hinl, hk]
      by_cases hne : rs = []
      · subst hne
        rw [toggleRuns, isolateRuns_trivial (Nat.le_of_lt hlt) (.inl rfl)]
        simp [restyleRuns, ← hcs]
      · obtain ⟨A, M, C, heq, -, hA, hM, hC⟩ := toggleRuns_spec id remove m hne hlt
        rw [heq, chars_append, chars_append, chars_map_restyle, hA, hM, hC, hcs]
        rfl
    · rw [if_pos (by omega), if_neg hlt, hk]

theorem run_toggle_flat (d : Document) (h : start < stop) (m : InlineStyle) :
    ∃ d', EditOp.run (.toggleInlineStyle start stop m) d = .ok d' ∧ ∀ i, (flat id d')[i]? =
        if start.blockIndex ≤ i ∧ i ≤ stop.blockIndex then
          ((flat id d)[i]?).map (.restyled (toggledStyle (allTextHasStyle d start stop m) m) start stop i)
        else (flat id d)[i]? := by
  obtain ⟨d', heq, hblocks⟩ := applyToggleInlineStyle_eq h m d
  have hap : EditOp.apply (.toggleInlineStyle start stop m) d = _ := heq
  refine ⟨d', run_ok hap, ?_⟩
  intro i
  rw [flat_getElem?, flat_getElem?, hblocks i]
  split
  · cases d.blocks[i]? with
    | none => rfl
    | some b => simp [flatBlock_id_toggledBlock]
  · rfl

theorem length_restyleSpan (set : InlineStyle → InlineStyle) (lo hi : Nat)
    (cs : List (Grapheme × Format)) : (restyleSpan set lo hi cs).length = cs.length := by
  unfold restyleSpan
  split
  · simp only [length_append, length_map, length_take, length_drop]
    omega
  · rfl

theorem span_restyleSpan (set : InlineStyle → InlineStyle) (lo hi : Nat) (cs : List (Grapheme × Format)) :
    ((restyleSpan set lo hi cs).take hi).drop lo = ((cs.take hi).drop lo).map (restyle set) := by
  unfold restyleSpan
  split
  · by_cases hlo : lo ≤ cs.length
    · have h1 : (cs.take lo).length = lo := by simp; omega
      rw [append_assoc, drop_take, drop_append_long _ (Nat.le_of_eq h1), h1, Nat.sub_self, drop_zero]
      by_cases hhi : hi ≤ cs.length
      · rw [take_append_of_le_length (by simp; omega), take_of_length_le (by simp; omega)]
      · rw [drop_eq_nil_of_le (show cs.length ≤ hi by omega), append_nil,
          take_of_length_le (by simp; omega)]
    · have hnil : (cs.take hi).drop lo = [] := drop_eq_nil_of_le (by simp; omega)
      rw [hnil, map_nil, drop_eq_nil_of_le (by simp; omega)]
  · rw [drop_eq_nil_of_le (by rw [length_take]; omega)]
    rfl

/-- Restyling twice gives the characters back when it does so for each of them. -/
theorem restyleSpan_restyleSpan {cs : List (Grapheme × Format)}
    (h : ∀ c ∈ (cs.take hi).drop lo, set' (set c.2.1) = c.2.1) :
    restyleSpan set' lo hi (restyleSpan set lo hi cs) = cs := by
  have hspan := span_restyleSpan set lo hi cs
  have hmap : (((cs.take hi).drop lo).map (restyle set)).map (restyle set') =
      (cs.take hi).drop lo := by
    rw [map_map]
    conv_rhs => rw [← map_id ((cs.take hi).drop lo)]
    apply map_congr_left
    intro c hc
    obtain ⟨g, style, link⟩ := c
    simp only [Function.comp, restyle, id, Prod.mk.injEq, and_true, true_and]
    exact h _ hc
  by_cases hlt : lo < hi
  · rw [restyleSpan, if_pos hlt, hspan, hmap]
    have htake : (restyleSpan set lo hi cs).take lo = cs.take lo := by
      rw [restyleSpan, if_pos hlt, append_assoc]
      by_cases hlo : lo ≤ cs.length
      · rw [take_append_of_le_length (by simp; omega), take_take, Nat.min_self]
      · have hnil : (cs.take hi).drop lo = [] := drop_eq_nil_of_le (by simp; omega)
        rw [hnil, map_nil, nil_append, drop_eq_nil_of_le (show cs.length ≤ hi by omega),
          append_nil, take_take, Nat.min_self]
    have hdrop : (restyleSpan set lo hi cs).drop hi = cs.drop hi := by
      rw [restyleSpan, if_pos hlt]
      by_cases hhi : hi ≤ cs.length
      · have hlen : (cs.take lo ++ ((cs.take hi).drop lo).map (restyle set)).length = hi := by
          simp
          omega
        rw [drop_append_long _ (Nat.le_of_eq hlen), hlen, Nat.sub_self, drop_zero]
      · rw [drop_eq_nil_of_le (show cs.length ≤ hi by omega)]
        simp
        omega
    rw [htake, hdrop]
    calc cs.take lo ++ (cs.take hi).drop lo ++ cs.drop hi
        = (cs.take hi).take lo ++ (cs.take hi).drop lo ++ cs.drop hi := by
          rw [take_take, Nat.min_eq_left (Nat.le_of_lt hlt)]
      _ = cs := by rw [take_append_drop, take_append_drop]
  · simp [restyleSpan, hlt]

theorem len_restyled (set : InlineStyle → InlineStyle) (start stop : DocPosition) (i : Nat)
    (x : FlatBlock Format) : (x.restyled set start stop i).len = x.len := by
  cases x with
  | text k cs => simp [FlatBlock.restyled, FlatBlock.len, length_restyleSpan]
  | _ => rfl

theorem span_restyled (set : InlineStyle → InlineStyle) (start stop : DocPosition) (i : Nat)
    (x : FlatBlock Format) :
    (x.restyled set start stop i).span start stop i = (x.span start stop i).map (restyle set) := by
  rw [FlatBlock.span, len_restyled, FlatBlock.span]
  cases x with
  | text k cs => exact span_restyleSpan set _ _ cs
  | _ => simp [FlatBlock.restyled, FlatBlock.chars]

theorem restyled_restyled {i : Nat} {x : FlatBlock Format}
    (h : ∀ c ∈ x.span start stop i, set' (set c.2.1) = c.2.1) :
    (x.restyled set start stop i).restyled set' start stop i = x := by
  cases x with
  | text k cs =>
    have hcs : ∀ c ∈ (cs.take (rangeIn start stop i cs.length).2).drop
        (rangeIn start stop i cs.length).1, set' (set c.2.1) = c.2.1 := h
    simp only [FlatBlock.restyled, length_restyleSpan]
    rw [restyleSpan_restyleSpan hcs]
  | _ => rfl

theorem maps_undo_toggle {d' : Document} {m : InlineStyle}
    (hrange : RangeWithin (flat id d) start stop) (huniform : uniformStyle d start stop m = true)
    (hrun : EditOp.run (.toggleInlineStyle start stop m) d = .ok d') :
    Maps (flat id) (flat id d') (EditOp.rewind (.toggleInlineStyle start stop m)) (flat id d) := by
  intro e he
  obtain ⟨d1, hd1, hblocks⟩ := run_toggle_flat d hrange.1 m
  rw [hrun] at hd1
  cases hd1
  obtain ⟨e', he', hblocks'⟩ := run_toggle_flat e hrange.1 m
  refine ⟨e', he', ?_⟩
  -- what the second toggle covers is what the first one left
  have hselected : ∀ i x, start.blockIndex ≤ i → i ≤ stop.blockIndex → (flat id d)[i]? = some x →
      (flat id e)[i]? =
        some (x.restyled (toggledStyle (allTextHasStyle d start stop m) m) start stop i) := by
    intro i x hlo hhi hx
    rw [he, hblocks i, if_pos ⟨hlo, hhi⟩, hx]
    rfl
  have hrange' : RangeWithin (flat id e) start stop := by
    have hpull : ∀ i x, start.blockIndex ≤ i → i ≤ stop.blockIndex → (flat id e)[i]? = some x →
        ∃ y, (flat id d)[i]? = some y ∧ y.len = x.len := by
      intro i x hlo hhi hx
      rw [he, hblocks i, if_pos ⟨hlo, hhi⟩] at hx
      obtain ⟨y, hy, rfl⟩ := Option.map_eq_some_iff.1 hx
      exact ⟨y, hy, (len_restyled _ _ _ _ y).symm⟩
    have hle := hrange.1
    rw [DocPosition.lt_iff] at hle
    refine ⟨hrange.1, ?_, ?_⟩
    · intro x hx
      obtain ⟨y, hy, hlen⟩ := hpull _ x (Nat.le_refl _) (by omega) hx
      rw [← hlen]
      exact hrange.2.1 y hy
    · intro x hx
      obtain ⟨y, hy, hlen⟩ := hpull _ x (by omega) (Nat.le_refl _) hx
      rw [← hlen]
      exact hrange.2.2 y hy
  have hback : ∀ c ∈ selectedChars (flat id d) start stop,
      toggledStyle (allTextHasStyle e start stop m) m
        (toggledStyle (allTextHasStyle d start stop m) m c.2.1) = c.2.1 := by
    intro c hc
    have hmem : restyle (toggledStyle (allTextHasStyle d start stop m) m) c ∈
        selectedChars (flat id e) start stop := by
      obtain ⟨i, x, hlo, hhi, hx, hcx⟩ := mem_selectedChars.1 hc
      refine mem_selectedChars.2 ⟨i, _, hlo, hhi, hselected i x hlo hhi hx, ?_⟩
      rw [span_restyled]
      exact mem_map_of_mem hcx
    cases hall : allTextHasStyle d start stop m with
    | true =>
      have hcontains := (allTextHasStyle_iff m hrange).1 hall c hc
      by_cases hm : m = 0
      · subst hm
        rw [toggledStyle_zero, toggledStyle_zero]
      -- the style was taken from every covered character, so it is put back
      have hnot : allTextHasStyle e start stop m = false := by
        rw [Bool.eq_false_iff]
        intro hall'
        have := (allTextHasStyle_iff m hrange').1 hall' _ hmem
        rw [hall] at this
        simp [restyle, toggledStyle, not_contains_remove _ _ hm] at this
      rw [hnot]
      exact insert_remove _ _ hcontains
    | false =>
      have hall' : allTextHasStyle e start stop m = true := by
        refine (allTextHasStyle_iff m hrange').2 ?_
        intro c' hc'
        obtain ⟨i, x', hlo, hhi, hx', hcx'⟩ := mem_selectedChars.1 hc'
        rw [he, hblocks i, if_pos ⟨hlo, hhi⟩] at hx'
        obtain ⟨x, hx, rfl⟩ := Option.map_eq_some_iff.1 hx'
        rw [span_restyled] at hcx'
        obtain ⟨c0, -, rfl⟩ := mem_map.1 hcx'
        rw [hall]
        exact contains_insert _ _
      have hlacks : c.2.1 &&& m = 0 := by
        simp only [uniformStyle, Bool.or_eq_true, all_eq_true, beq_iff_eq] at huniform
        rcases huniform with hhas | hlacks
        · rw [(allTextHasStyle_iff m hrange).2 hhas] at hall
          cases hall
        · exact hlacks c hc
      rw [hall']
      exact remove_insert _ _ hlacks
  apply ext_getElem?
  intro i
  rw [hblocks' i]
  by_cases hi : start.blockIndex ≤ i ∧ i ≤ stop.blockIndex
  · rw [if_pos hi]
    cases hx : (flat id d)[i]? with
    | none => rw [he, hblocks i, if_pos hi, hx]; rfl
    | some x =>
      rw [hselected i x hi.1 hi.2 hx, Option.map_some, restyled_restyled]
      intro c hc
      exact hback c (mem_selectedChars.2 ⟨i, x, hi.1, hi.2, hx, hc⟩)
  · rw [if_neg hi, he, hblocks i, if_neg hi]

end Ratatoskr.Rte

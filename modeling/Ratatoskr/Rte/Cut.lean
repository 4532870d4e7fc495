import Ratatoskr.Rte.FlatDelete

/-!
# Rte.Cut

Copying and deleting a selection, on the text of the document. The text is cut at two offsets: what is
between them is the text of the slice, and what is left around it is the text after the deletion.

* `flattenedLines_mid` : the text of blocks around one of them.
* `slice_delete_text` : slice and deletion cut an inline document at the same places.
-/

namespace Ratatoskr.Rte

open List

variable {b : Block} {runs endRuns : List StyledRun} {d : Document} {start stop : DocPosition}

def Document.flattenedText (d : Document) : Text := Block.flattenedLines d.blocks

def linesBefore (bs : List Block) : Text := bs.flatMap fun b => b.flattenedText ++ ['\n']

def linesAfter (bs : List Block) : Text := bs.flatMap fun b => '\n' :: b.flattenedText

@[simp] theorem linesBefore_cons (b : Block) (bs : List Block) :
    linesBefore (b :: bs) = b.flattenedText ++ '\n' :: linesBefore bs := by
  simp [linesBefore]

@[simp] theorem linesAfter_cons (b : Block) (bs : List Block) :
    linesAfter (b :: bs) = '\n' :: (b.flattenedText ++ linesAfter bs) := by
  simp [linesAfter]

@[simp] theorem linesAfter_append (as bs : List Block) :
    linesAfter (as ++ bs) = linesAfter as ++ linesAfter bs := by
  simp [linesAfter]

theorem flattenedLines_cons (b : Block) (bs : List Block) :
    Block.flattenedLines (b :: bs) = b.flattenedText ++ linesAfter bs := by
  induction bs generalizing b with
  | nil => simp [Block.flattenedLines, linesAfter]
  | cons c bs ih =>
    rw [linesAfter_cons, ← ih]
    rfl

theorem flattenedLines_mid (pre post : List Block) (b : Block) :
    Block.flattenedLines (pre ++ b :: post) = linesBefore pre ++ b.flattenedText ++ linesAfter post := by
  induction pre with
  | nil => exact flattenedLines_cons b post
  | cons c pre ih =>
    have hcons : Block.flattenedLines (c :: (pre ++ b :: post)) =
        c.flattenedText ++ '\n' :: Block.flattenedLines (pre ++ b :: post) := by
      cases pre <;> rfl
    rw [cons_append, hcons, ih]
    simp

theorem runsText_eq (runs : List StyledRun) : Block.runsText runs = (chars id runs).map Prod.fst := by
  induction runs with
  | nil => rfl
  | cons r rs ih =>
    rw [chars_cons, map_append, ← ih]
    simp [Block.runsText, Function.comp_def]

theorem flattenedText_of_runs (h : b.runs = some runs) : b.flattenedText = Block.runsText runs := by
  cases b <;> simp_all [Block.runs, Block.flattenedText]

theorem flattenedText_setRuns (h : b.isInlineBlock = true) (runs : List StyledRun) :
    (b.setRuns runs).flattenedText = Block.runsText runs :=
  flattenedText_of_runs (runs_setRuns h runs)

theorem flattenedText_like (b : Block) (runs : List StyledRun) :
    (blockWithRunsLike b runs).flattenedText = Block.runsText runs := by
  cases b <;> rfl

theorem runsText_extractRuns (runs : List StyledRun) (lo hi : Nat) :
    Block.runsText (extractRuns runs lo hi) = ((Block.runsText runs).take hi).drop lo := by
  rw [runsText_eq, chars_extractRuns, runsText_eq, map_drop, map_take]

theorem runsText_deleteRuns (runs : List StyledRun) {lo hi : Nat} (h : lo ≤ hi) :
    Block.runsText (ensureRun (deleteRuns runs lo hi)) =
      (Block.runsText runs).take lo ++ (Block.runsText runs).drop hi := by
  rw [runsText_eq, chars_ensureRun, chars_deleteRuns id runs h, runsText_eq, map_append, map_take, map_drop]

theorem runsText_joined (runs endRuns : List StyledRun) (lo hi : Nat) :
    Block.runsText (ensureRun (truncateRuns runs lo ++ extractRunsFromOffset endRuns hi)) =
      (Block.runsText runs).take lo ++ (Block.runsText endRuns).drop hi := by
  rw [runsText_eq, chars_ensureRun, chars_append, chars_truncateRuns, chars_extractRunsFromOffset,
    runsText_eq, runsText_eq, map_append, map_take, map_drop]

theorem charLen_of_runs (h : b.runs = some runs) : b.charLen = (Block.runsText runs).length := by
  rw [Block.charLen, h, runsText_length]

theorem slice_single (pre post : List Block) (hb : b.runs = some runs) {lo hi : Nat}
    (hlt : lo < hi) (hhi : hi ≤ b.charLen) :
    ∃ s, (Document.mk (pre ++ b :: post)).slice ⟨pre.length, lo⟩ ⟨pre.length, hi⟩ = some s ∧
      Block.flattenedLines s.blocks = ((Block.runsText runs).take hi).drop lo := by
  have hle : ¬ (⟨pre.length, hi⟩ : DocPosition) ≤ ⟨pre.length, lo⟩ := by
    simp only [DocPosition.le_iff]
    omega
  simp only [Document.slice, if_neg hle, Document.block,
    getElem?_append_right (Nat.le_refl _), Nat.sub_self, getElem?_cons_zero, Option.bind_some, if_true]
  split
  · rename_i hall
    refine ⟨_, rfl, ?_⟩
    have hlen := charLen_of_runs hb
    rw [hall.1, take_of_length_le (by omega)]
    exact flattenedText_of_runs hb
  · rw [hb]
    refine ⟨_, rfl, ?_⟩
    exact (flattenedText_like b _).trans (runsText_extractRuns runs lo hi)

theorem slice_cross (pre mid post : List Block) {sb eb : Block} (hs : sb.runs = some runs)
    (he : eb.runs = some endRuns) (lo hi : Nat) :
    ∃ s, (Document.mk (pre ++ sb :: (mid ++ eb :: post))).slice ⟨pre.length, lo⟩
        ⟨pre.length + 1 + mid.length, hi⟩ = some s ∧ Block.flattenedLines s.blocks =
        (Block.runsText runs).drop lo ++ linesAfter mid ++ '\n' :: (Block.runsText endRuns).take hi := by
  have hle : ¬ (⟨pre.length + 1 + mid.length, hi⟩ : DocPosition) ≤ ⟨pre.length, lo⟩ := by
    simp only [DocPosition.le_iff]
    omega
  have hstart : (pre ++ sb :: (mid ++ eb :: post))[pre.length]? = some sb := by simp
  have hend : (pre ++ sb :: (mid ++ eb :: post))[pre.length + 1 + mid.length]? = some eb := by
    rw [getElem?_append_right (by omega), show pre.length + 1 + mid.length - pre.length =
      mid.length + 1 by omega, getElem?_cons_succ]
    simp
  have hmid : ((pre ++ sb :: (mid ++ eb :: post)).take (pre.length + 1 + mid.length)).drop
      (pre.length + 1) = mid := by
    have happend : pre ++ sb :: (mid ++ eb :: post) = (pre ++ [sb]) ++ (mid ++ eb :: post) := by simp
    have hlen : (pre ++ [sb]).length = pre.length + 1 := by simp
    rw [happend, take_append, drop_append]
    simp
  have hne : ¬ pre.length = pre.length + 1 + mid.length := by omega
  simp only [Document.slice, if_neg hle, Document.block, hstart, hend, Option.bind_some, if_neg hne, hs, he,
    hmid]
  refine ⟨_, rfl, ?_⟩
  rw [singleton_append, cons_append, flattenedLines_cons, linesAfter_append, linesAfter_cons,
    flattenedText_like, flattenedText_like, runsText_extractRuns, runsText_extractRuns, charLen_of_runs hs]
  simp [linesAfter]

theorem replacement_of_runs {sb eb : Block} (hs : sb.runs = some runs)
    (he : eb.runs = some endRuns) (lo hi : Nat) : buildCrossDeleteReplacement sb lo eb hi =
      some (sb.setRuns (ensureRun (truncateRuns runs lo ++ extractRunsFromOffset endRuns hi))) := by
  simp [buildCrossDeleteReplacement, hs, he]

theorem buildDeleteSelection_inline (hinline : ∀ b ∈ d.blocks, b.isInlineBlock = true)
    (sel : DocSelection) (hlt : sel.start < sel.endPos) : buildDeleteSelection d sel =
      [.deleteRange sel.start sel.endPos (buildDeletedContent d sel.start sel.endPos)] := by
  have hpos : postDeletePosition d sel = sel.start := by
    have hatomic : blockIsAtomicAt d sel.start.blockIndex = false := by
      unfold blockIsAtomicAt
      cases hb : d.block sel.start.blockIndex with
      | none => rfl
      | some b => simp [Block.isAtomicBlock, hinline b (mem_of_getElem? hb)]
    simp only [postDeletePosition, hatomic]
    exact if_neg (fun h => by cases h.2.2)
  have hle : ¬ sel.endPos ≤ sel.start := by
    simp only [DocPosition.le_iff, DocPosition.lt_iff] at hlt ⊢
    omega
  rw [buildDeleteSelection, hpos, if_neg hle]

theorem selection_of_lt (hlt : start < stop) :
    (DocSelection.mk start stop).start = start ∧ (DocSelection.mk start stop).endPos = stop ∧
      (DocSelection.mk stop start).start = start ∧ (DocSelection.mk stop start).endPos = stop := by
  have hle : start ≤ stop := by
    simp only [DocPosition.le_iff, DocPosition.lt_iff] at hlt ⊢
    omega
  have hnot : ¬ stop ≤ start := by
    simp only [DocPosition.le_iff, DocPosition.lt_iff] at hlt ⊢
    omega
  exact ⟨if_pos hle, if_pos hle, if_neg hnot, if_neg hnot⟩

theorem slice_delete_text (hinline : ∀ b ∈ d.blocks, b.isInlineBlock = true) (hlt : start < stop)
    (hstart : d.isValidPosition start = true) (hstop : d.isValidPosition stop = true)
    (deleted : DeletedContent) : ∃ s d' m A B, d.slice start stop = some s ∧
      (EditOp.deleteRange start stop deleted).apply d = .ok (d', m) ∧
      d.flattenedText = A ++ Block.flattenedLines s.blocks ++ B ∧ d'.flattenedText = A ++ B := by
  obtain ⟨i, lo⟩ := start
  obtain ⟨j, hi⟩ := stop
  simp only [Document.isValidPosition, Document.block] at hstart hstop
  cases hsb : d.blocks[i]? with
  | none => simp [hsb] at hstart
  | some sb =>
    cases heb : d.blocks[j]? with
    | none => simp [heb] at hstop
    | some eb =>
      simp only [heb, decide_eq_true_eq] at hstart hstop
      obtain ⟨runs, hruns⟩ := exists_runs (hinline sb (mem_of_getElem? hsb))
      obtain ⟨endRuns, hendRuns⟩ := exists_runs (hinline eb (mem_of_getElem? heb))
      rcases DocPosition.lt_iff.1 hlt with hij | ⟨rfl, hoff⟩
      · obtain ⟨pre, mid, post, rfl, rfl, rfl⟩ := exists_mid_two hsb heb hij
        obtain ⟨s, hslice, htext⟩ := slice_cross pre mid post hruns hendRuns lo hi
        obtain ⟨m, happly, -⟩ := applyCrossBlockDelete_mid pre mid post sb eb lo hi
        rw [replacement_of_runs hruns hendRuns] at happly
        refine ⟨s, _, m, linesBefore pre ++ (Block.runsText runs).take lo,
          (Block.runsText endRuns).drop hi ++ linesAfter post, hslice,
          (applyDeleteRange_cross _ lo hi deleted hij).trans happly, ?_, ?_⟩
        · have hhead := take_append_drop lo (Block.runsText runs)
          have htail := take_append_drop hi (Block.runsText endRuns)
          rw [Document.flattenedText, flattenedLines_mid, htext, linesAfter_append, linesAfter_cons,
            flattenedText_of_runs hruns, flattenedText_of_runs hendRuns]
          conv_lhs => rw [← hhead, ← htail]
          simp only [append_assoc, cons_append]
        · simp only [Document.flattenedText]
          rw [flattenedLines_mid, flattenedText_setRuns (isInline_of_runs hruns), runsText_joined, survivors,
            if_pos (.inl (isInline_of_runs hendRuns))]
          simp
      · obtain rfl : sb = eb := Option.some.inj (hsb.symm.trans heb)
        obtain ⟨pre, post, rfl, rfl⟩ := exists_mid hsb
        obtain ⟨s, hslice, htext⟩ := slice_single pre post hruns hoff hstop
        have happly : applySingleBlockDelete ⟨pre ++ sb :: post⟩ ⟨pre.length, lo⟩ ⟨pre.length, hi⟩ = _ :=
          applySingleBlockDelete_inline hruns (Nat.le_of_lt hoff)
        refine ⟨s, _, _, linesBefore pre ++ (Block.runsText runs).take lo,
          (Block.runsText runs).drop hi ++ linesAfter post, hslice,
          (applyDeleteRange_single _ _ deleted hoff).trans happly, ?_, ?_⟩
        · have hcut : (Block.runsText runs).take lo ++ ((Block.runsText runs).take hi).drop lo ++
              (Block.runsText runs).drop hi = Block.runsText runs := by
            rw [drop_take, ← take_add, Nat.add_sub_cancel' (Nat.le_of_lt hoff), take_append_drop]
          rw [Document.flattenedText, flattenedLines_mid, htext, flattenedText_of_runs hruns]
          conv_lhs => rw [← hcut]
          simp
        · simp only [Document.flattenedText]
          rw [flattenedLines_mid, flattenedText_setRuns (isInline_of_runs hruns),
            runsText_deleteRuns runs (Nat.le_of_lt hoff)]
          simp

/-- Cutting a selection of an inline document, made in either direction, takes out exactly what is copied. -/
theorem cut_exact (d : Document) (start stop : DocPosition) (hinline : ∀ b ∈ d.blocks, b.isInlineBlock = true)
    (hlt : start < stop) (hstart : d.isValidPosition start = true) (hstop : d.isValidPosition stop = true) :
    ∃ op s d' m A B, buildDeleteSelection d ⟨start, stop⟩ = [op] ∧ buildDeleteSelection d ⟨stop, start⟩ = [op] ∧
      d.slice start stop = some s ∧ op.apply d = .ok (d', m) ∧
      d.flattenedText = A ++ Block.flattenedLines s.blocks ++ B ∧ d'.flattenedText = A ++ B := by
  obtain ⟨hs, he, hs', he'⟩ := selection_of_lt hlt
  have hforward := buildDeleteSelection_inline hinline ⟨start, stop⟩ (by rw [hs, he]; exact hlt)
  have hbackward := buildDeleteSelection_inline hinline ⟨stop, start⟩ (by rw [hs', he']; exact hlt)
  rw [hs, he] at hforward
  rw [hs', he'] at hbackward
  obtain ⟨s, d', m, A, B, hslice, happly, htext, hleft⟩ :=
    slice_delete_text hinline hlt hstart hstop (buildDeletedContent d start stop)
  exact ⟨_, s, d', m, A, B, hforward, hbackward, hslice, happly, htext, hleft⟩

def headingAndItem : Document :=
  ⟨[.heading .h1 [StyledRun.plain "ab".toList], .listItem true 0 [StyledRun.plain "cd".toList]]⟩

/-- From the middle of a heading to the middle of a list item. -/
theorem headingAndItem_cut : ∃ op s d' m A B, buildDeleteSelection headingAndItem ⟨⟨0, 1⟩, ⟨1, 1⟩⟩ = [op] ∧
      headingAndItem.slice ⟨0, 1⟩ ⟨1, 1⟩ = some s ∧ op.apply headingAndItem = .ok (d', m) ∧
      "ab\ncd".toList = A ++ Block.flattenedLines s.blocks ++ B ∧ d'.flattenedText = A ++ B := by
  obtain ⟨op, s, d', m, A, B, hop, -, hslice, happly, htext, hleft⟩ :=
    cut_exact headingAndItem ⟨0, 1⟩ ⟨1, 1⟩ (by simp [headingAndItem, Block.isInlineBlock]) (by decide)
      (by decide) (by decide)
  exact ⟨op, s, d', m, A, B, hop, hslice, happly, htext, hleft⟩

end Ratatoskr.Rte

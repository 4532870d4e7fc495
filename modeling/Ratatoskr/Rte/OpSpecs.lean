import Ratatoskr.Rte.Flat

/-!
# Rte.OpSpecs

One specification per operation: the document around the blocks an operation touches is written
`pre ++ … ++ post`, and the operation replaces the part in the middle. Everything later proofs
need about `EditOp.apply` is read from these equations.
-/

namespace Ratatoskr.Rte

open List

variable {d : Document} {i : Nat} {b : Block} {pre post : List Block} {rs : List StyledRun}
  {φ : Type}

section Parts

variable {α : Type}

theorem vecRemove_mid (pre post : List α) (x : α) :
    vecRemove (pre ++ x :: post) pre.length = .ok (pre ++ post) := by
  have hlt : pre.length < (pre ++ x :: post).length := by simp
  rw [vecRemove, eraseIdx_append_of_length_le (Nat.le_refl _)]
  simp

theorem vecInsert_mid (pre post : List α) (x : α) :
    vecInsert (pre ++ post) pre.length x = .ok (pre ++ x :: post) := by
  have hle : pre.length ≤ (pre ++ post).length := by simp
  have hins : (pre ++ post).insertIdx pre.length x = pre ++ x :: post := by
    induction pre with
    | nil => simp
    | cons y pre ih => simp [ih]
  rw [vecInsert, if_pos hle, hins]

end Parts

theorem removeRepeatedly_mid (pre mid post : List Block) :
    removeRepeatedly pre.length mid.length (pre ++ (mid ++ post)) = .ok (pre ++ post) := by
  induction mid with
  | nil => rfl
  | cons b mid ih =>
    rw [length_cons, removeRepeatedly, cons_append, vecRemove_mid]
    exact ih

theorem insertRepeatedly_mid (pre new post : List Block) :
    insertRepeatedly pre.length new (pre ++ post) = .ok (pre ++ (new ++ post)) := by
  induction new generalizing pre with
  | nil => rfl
  | cons b new ih =>
    rw [insertRepeatedly, vecInsert_mid]
    have := ih (pre ++ [b])
    simp only [length_append, append_assoc] at this
    exact this

theorem block_mid (pre post : List Block) (b : Block) :
    (Document.mk (pre ++ b :: post)).block pre.length = some b := by
  simp [Document.block]

theorem replaceBlock_mid (pre post : List Block) (b c : Block) :
    (Document.mk (pre ++ b :: post)).replaceBlock pre.length c = ⟨pre ++ c :: post⟩ := by
  simp [Document.replaceBlock]

theorem expectBlock_mid (pre post : List Block) (b : Block) (msg : String) :
    (Document.mk (pre ++ b :: post)).expectBlock pre.length msg = .ok b := by
  simp [Document.expectBlock, block_mid]

theorem exists_mid (h : d.blocks[i]? = some b) : ∃ pre post, d = ⟨pre ++ b :: post⟩ ∧ pre.length = i := by
  obtain ⟨hlt, hb⟩ := List.getElem?_eq_some_iff.1 h
  refine ⟨d.blocks.take i, d.blocks.drop (i + 1), ?_, by simp; omega⟩
  cases d
  rw [← hb, getElem_cons_drop, take_append_drop]

theorem exists_mid_two {j : Nat} {c : Block} (hb : d.blocks[i]? = some b)
    (hc : d.blocks[j]? = some c) (hij : i < j) :
    ∃ pre mid post, d = ⟨pre ++ b :: (mid ++ c :: post)⟩ ∧ pre.length = i ∧
      pre.length + 1 + mid.length = j := by
  obtain ⟨pre, rest, rfl, rfl⟩ := exists_mid hb
  have hc' : rest[j - (pre.length + 1)]? = some c := by
    simp only [getElem?_append_right (Nat.le_of_lt hij)] at hc
    rw [getElem?_cons, if_neg (by omega)] at hc
    congr 1
  obtain ⟨mid, post, hrest, hlen⟩ := exists_mid (d := ⟨rest⟩) hc'
  simp only [Document.mk.injEq] at hrest
  exact ⟨pre, mid, post, by rw [hrest], rfl, by omega⟩

theorem applyInsertText_inline (h : b.runs = some rs) (o : Nat) (text : Text) :
    applyInsertText ⟨pre ++ b :: post⟩ ⟨pre.length, o⟩ text =
      .ok (⟨pre ++ b.setRuns (insertTextIntoRuns rs o text) :: post⟩,
        ⟨pre.length, [⟨o, 0, textLen text⟩], none⟩) := by
  simp only [applyInsertText, expectBlock_mid, bind, Except.bind, h, replaceBlock_mid]
  rfl

theorem applyInsertText_atomic (h : b.runs = none) (o : Nat) (text : Text) :
    applyInsertText ⟨pre ++ b :: post⟩ ⟨pre.length, o⟩ text =
      .ok (⟨pre ++ b :: post⟩, ⟨pre.length, [], none⟩) := by
  simp only [applyInsertText, expectBlock_mid, bind, Except.bind, h]
  rfl

/-- What is left of a run list after the characters in `[start, stop)` are deleted. -/
def deleteRuns (rs : List StyledRun) (start stop : Nat) : List StyledRun :=
  match isolateRuns rs start stop with
  | .ok (runs, lo, hi) => if lo < hi then runs.take lo ++ runs.drop hi else runs
  | .error _ => rs

theorem isolateRuns_trivial {start stop : Nat} (hle : start ≤ stop) (h : rs = [] ∨ start = stop) :
    isolateRuns rs start stop = .ok (rs, 0, 0) := by
  rw [isolateRuns, if_pos hle, if_pos (by simpa using h)]

theorem chars_deleteRuns (view : Format → φ) (rs : List StyledRun) {start stop : Nat} (hle : start ≤ stop) :
    chars view (deleteRuns rs start stop) = (chars view rs).take start ++ (chars view rs).drop stop := by
  unfold deleteRuns
  by_cases htriv : rs = [] ∨ start = stop
  · rw [isolateRuns_trivial hle htriv]
    rcases htriv with rfl | rfl <;> simp
  simp only [not_or] at htriv
  obtain ⟨A, M, C, heq, hA, hM, hC⟩ := isolateRuns_spec view htriv.1
    (Nat.lt_of_le_of_ne hle htriv.2)
  rw [heq]
  have hdel : (if A.length < A.length + M.length then
      (A ++ M ++ C).take A.length ++ (A ++ M ++ C).drop (A.length + M.length)
      else A ++ M ++ C) = A ++ C := by
    rw [← length_append, drop_left, append_assoc, take_left]
    split
    · rfl
    rename_i hlen
    have : M = [] := by
      rw [← length_eq_zero_iff]
      simp only [length_append] at hlen
      omega
    simp [this]
  simp only [hdel, chars_append, hA, hC]

theorem applySingleBlockDelete_inline (h : b.runs = some rs) {s e : Nat} (hle : s ≤ e) :
    applySingleBlockDelete ⟨pre ++ b :: post⟩ ⟨pre.length, s⟩ ⟨pre.length, e⟩ =
      .ok (⟨pre ++ b.setRuns (ensureRun (deleteRuns rs s e)) :: post⟩,
        ⟨pre.length, [⟨s, e - s, 0⟩], none⟩) := by
  simp only [applySingleBlockDelete, expectBlock_mid, bind, Except.bind, h, deleteRuns]
  by_cases htriv : rs = [] ∨ s = e
  · rw [isolateRuns_trivial hle htriv]
    simp [pure, Except.pure, replaceBlock_mid]
  simp only [not_or] at htriv
  obtain ⟨A, M, C, heq, -⟩ := isolateRuns_spec id htriv.1 (Nat.lt_of_le_of_ne hle htriv.2)
  rw [heq]
  simp only
  split
  · have hrange : vecRange (A ++ M ++ C) A.length (A.length + M.length) = .ok () := by
      rw [vecRange, if_pos (by simp)]
    simp only [hrange, pure, Except.pure, replaceBlock_mid]
  · simp [pure, Except.pure, replaceBlock_mid]

/-- Deleting a whole atomic block removes it, or clears it when it is the only one. -/
theorem applySingleBlockDelete_atomic (pre post : List Block) (h : b.isInlineBlock = false) (s e : Nat) :
    ∃ pm, applySingleBlockDelete ⟨pre ++ b :: post⟩ ⟨pre.length, s⟩ ⟨pre.length, e⟩ =
      .ok (if s = 0 ∧ 1 ≤ e then ⟨ensureBlock (pre ++ post)⟩ else ⟨pre ++ b :: post⟩, pm) ∧
      pm.blockIndex = pre.length ∧ pm.entries = [] ∧ pm.structural =
        if (s = 0 ∧ 1 ≤ e) ∧ pre ++ post ≠ [] then some (.remove pre.length) else none := by
  have hlen : b.charLen = 1 := by simp [Block.charLen, runs_eq_none h]
  simp only [applySingleBlockDelete, expectBlock_mid, bind, Except.bind, runs_eq_none h, hlen]
  by_cases hs : s = 0 ∧ 1 ≤ e
  · rw [if_pos hs, if_pos hs]
    by_cases hone : (Document.mk (pre ++ b :: post)).blockCount = 1
    · have hpre : pre = [] ∧ post = [] := by
        simp only [Document.blockCount, length_append, length_cons] at hone
        exact ⟨length_eq_zero_iff.1 (by omega), length_eq_zero_iff.1 (by omega)⟩
      obtain ⟨rfl, rfl⟩ := hpre
      refine ⟨⟨0, [], none⟩, ?_, rfl, rfl, (if_neg (by simp)).symm⟩
      rfl
    · have hne : pre ++ post ≠ [] := by
        intro hnil
        simp only [append_eq_nil_iff] at hnil
        exact hone (by simp [Document.blockCount, hnil.1, hnil.2])
      exact ⟨⟨pre.length, [], some (.remove pre.length)⟩, by
        simp [hone, pure, Except.pure, vecRemove_mid, ensureBlock, hne], rfl, rfl,
        (if_pos ⟨hs, hne⟩).symm⟩
  · rw [if_neg hs, if_neg hs]
    exact ⟨_, rfl, rfl, rfl, (if_neg fun h => hs h.1).symm⟩

/-! ## Deletion across blocks -/

/-- The blocks after a cross-block deletion: an atomic end block that the range only touches at
offset 0 stays. -/
def survivors (endBlock : Block) (e : Nat) (post : List Block) : List Block :=
  if endBlock.isInlineBlock ∨ e > 0 then post else endBlock :: post

/-- The number of blocks after the start block that a cross-block deletion takes out. -/
def removedCount (endBlock : Block) (e : Nat) (mid : List Block) : Nat :=
  if endBlock.isInlineBlock ∨ e > 0 then mid.length + 1 else mid.length

theorem applyCrossBlockDelete_mid (pre mid post : List Block) (sb eb : Block) (s e : Nat) :
    ∃ pm, applyCrossBlockDelete ⟨pre ++ sb :: (mid ++ eb :: post)⟩ ⟨pre.length, s⟩
        ⟨pre.length + 1 + mid.length, e⟩ =
      .ok (match buildCrossDeleteReplacement sb s eb e with
        | some nb => ⟨pre ++ nb :: survivors eb e post⟩
        | none => ⟨ensureBlock (pre ++ survivors eb e post)⟩, pm) ∧ pm.blockIndex = pre.length ∧
      (buildCrossDeleteReplacement sb s eb e ≠ none →
        pm = ⟨pre.length, [⟨s, 0, 0⟩],
          if removedCount eb e mid > 0 then
            some (.crossBlockDelete pre.length (removedCount eb e mid) s)
          else none⟩) ∧
      (buildCrossDeleteReplacement sb s eb e = none →
        pm = ⟨pre.length, [], some (.removeRange pre.length (removedCount eb e mid + 1))⟩) := by
  have hend : (Document.mk (pre ++ sb :: (mid ++ eb :: post))).expectBlock
      (pre.length + 1 + mid.length) "DeleteRange: end block out of bounds" = .ok eb := by
    have := expectBlock_mid (pre ++ sb :: mid) post eb "DeleteRange: end block out of bounds"
    rw [← this]
    congr 1
    · simp
    · simp
      omega
  simp only [applyCrossBlockDelete, hend, expectBlock_mid, bind, Except.bind]
  -- the removed blocks after the start block, and what follows them
  obtain ⟨gone, hgone, hlen, hcount⟩ : ∃ gone, mid ++ eb :: post = gone ++ survivors eb e post ∧
      gone.length = lastRemoved eb ⟨pre.length + 1 + mid.length, e⟩ - pre.length ∧
      gone.length = removedCount eb e mid := by
    unfold survivors lastRemoved removedCount
    split
    · exact ⟨mid ++ [eb], by simp, by simp; omega, by simp⟩
    · exact ⟨mid, rfl, by simp, rfl⟩
  cases hrep : buildCrossDeleteReplacement sb s eb e with
  | some nb =>
    simp only [replaceBlock_mid]
    have hrem := removeRepeatedly_mid (pre ++ [nb]) gone (survivors eb e post)
    simp only [length_append, length_cons, length_nil, append_assoc, cons_append, nil_append] at hrem
    rw [hgone, ← hlen, hrem, ← hcount]
    exact ⟨_, rfl, rfl, fun _ => rfl, fun h => by cases h⟩
  | none =>
    have hrem := removeRepeatedly_mid pre (sb :: gone) (survivors eb e post)
    simp only [length_cons, cons_append] at hrem
    rw [hgone, ← hlen, hrem, ← hcount]
    exact ⟨_, rfl, rfl, fun h => absurd rfl h, fun _ => rfl⟩

/-- The runs of an inline block with a deleted fragment spliced back in. -/
def respliceRuns (rs : List StyledRun) (o : Nat) (saved : List StyledRun) : List StyledRun :=
  ensureRun (extractRunsUpTo rs o ++ saved ++ extractRunsFromOffset rs o)

theorem chars_respliceRuns (view : Format → φ) (rs : List StyledRun) (o : Nat) (saved : List StyledRun) :
    chars view (respliceRuns rs o saved) =
      (chars view rs).take o ++ chars view saved ++ (chars view rs).drop o := by
  simp [respliceRuns, chars_extractRunsUpTo, chars_extractRunsFromOffset]

theorem applyRestoreDeletedSingle_inline (pre post : List Block) (b : Block) {saved : Block}
    (h : saved.isInlineBlock = true) (o : Nat) :
    ∃ pm, applyRestoreDeletedSingle ⟨pre ++ b :: post⟩ ⟨pre.length, o⟩ saved =
      .ok (⟨pre ++ (match b.runs with
        | some rs => b.setRuns (respliceRuns rs o (saved.runs.getD []))
        | none => b) :: post⟩, pm) := by
  simp only [applyRestoreDeletedSingle, if_pos h, expectBlock_mid, replaceBlock_mid]
  exact ⟨_, rfl⟩

/-- A deleted atomic block comes back in its place, except into a document that holds nothing but
an empty paragraph, which it replaces. -/
theorem applyRestoreDeletedSingle_atomic (pre post : List Block) {saved : Block}
    (h : saved.isInlineBlock = false) (o : Nat) :
    ∃ pm, applyRestoreDeletedSingle ⟨pre ++ post⟩ ⟨pre.length, o⟩ saved =
      .ok (if isPlaceholderDoc ⟨pre ++ post⟩ = true ∧ pre = [] then ⟨[saved]⟩
        else ⟨pre ++ saved :: post⟩, pm) := by
  have hmin : min pre.length (Document.mk (pre ++ post)).blockCount = pre.length := by
    simp [Document.blockCount]
  simp only [applyRestoreDeletedSingle, h, hmin, length_eq_zero_iff]
  by_cases hp : isPlaceholderDoc ⟨pre ++ post⟩ = true ∧ pre = []
  · rw [if_pos hp, if_pos hp]
    obtain ⟨hd, rfl⟩ := hp
    obtain ⟨b, rfl⟩ : ∃ b, post = [b] := by
      simp only [isPlaceholderDoc, Bool.and_eq_true, beq_iff_eq] at hd
      exact length_eq_one_iff.1 hd.1
    exact ⟨_, rfl⟩
  · rw [if_neg hp, if_neg hp, vecInsert_mid]
    exact ⟨_, rfl⟩

/-- The blocks a cross-block deletion from an inline block is undone to. -/
def restoredBlocks (merged first : Block) (middle : List Block) (last : Block)
    (endTail : Option Block) (o : Nat) : List Block :=
  blockWithRunsLike first
      (ensureRun (extractRunsUpTo (merged.runs.getD []) o ++ first.runs.getD [])) ::
    (middle ++
      [if last.isInlineBlock then
        blockWithRunsLike last (ensureRun (last.runs.getD [] ++ (endTail.bind Block.runs).getD []))
      else last])

theorem applyRestoreDeleted_cross (pre post middle : List Block) (merged last : Block)
    (endTail : Option Block) {first : Block} (h : first.isInlineBlock = true) (o : Nat) :
    ∃ pm, applyRestoreDeleted ⟨pre ++ merged :: post⟩ ⟨pre.length, o⟩ ⟨first :: (middle ++ [last]), endTail⟩ =
      .ok (⟨pre ++ (restoredBlocks merged first middle last endTail o ++ post)⟩, pm) := by
  obtain ⟨x, xs, hx⟩ : ∃ x xs, middle ++ [last] = x :: xs :=
    exists_cons_of_ne_nil (by simp)
  have hlast : (first :: (middle ++ [last])).getLastD Block.emptyParagraph = last := by
    simp [getLast?_cons]
  have hmiddle : ((first :: (middle ++ [last])).dropLast).drop 1 = middle := by
    rw [dropLast_cons_of_ne_nil (by simp)]
    simp
  simp only [applyRestoreDeleted, hx, if_pos h]
  simp only [applyRestoreDeletedCross, expectBlock_mid, bind, Except.bind, vecRemove_mid, ← hx,
    hlast, hmiddle]
  rw [insertRepeatedly_mid]
  exact ⟨_, rfl⟩

/-- The blocks a cross-block deletion from an atomic block is undone to. -/
def restoredAtomicBlocks (first : Block) (middle : List Block) (last : Block)
    (endTail : Option Block) : List Block :=
  first :: (middle ++
    [match endTail with
      | some tail => blockWithRunsLike last (last.runs.getD [] ++ tail.runs.getD []) | none => last])

def restoreBase (pre post : List Block) (endTail : Option Block) : List Block :=
  let post := if endTail.isSome then post.drop 1 else post
  if isPlaceholderDoc ⟨pre ++ post⟩ = true ∧ pre = [] then [] else post

theorem applyRestoreDeleted_atomic (pre post middle : List Block) (last : Block)
    (endTail : Option Block) {first : Block} (h : first.isInlineBlock = false) (o : Nat) :
    ∃ pm, applyRestoreDeleted ⟨pre ++ post⟩ ⟨pre.length, o⟩ ⟨first :: (middle ++ [last]), endTail⟩ =
      .ok (⟨pre ++ (restoredAtomicBlocks first middle last endTail ++
        restoreBase pre post endTail)⟩, pm) := by
  obtain ⟨x, xs, hx⟩ : ∃ x xs, middle ++ [last] = x :: xs :=
    exists_cons_of_ne_nil (by simp)
  have hlast : (first :: (middle ++ [last])).getLastD Block.emptyParagraph = last := by
    simp [getLast?_cons]
  have hfirsts : (first :: (middle ++ [last])).dropLast = first :: middle := by
    rw [dropLast_cons_of_ne_nil (by simp)]
    simp
  have hmin : min pre.length (Document.mk (pre ++ post)).blockCount = pre.length := by
    simp [Document.blockCount]
  simp only [applyRestoreDeleted, hx, h]
  simp only [applyRestoreDeletedFromAtomicStart, hmin, ← hx, hlast, hfirsts]
  have hbase : ∀ rest : List Block, ∀ new : List Block,
      insertRepeatedly pre.length new
        (if isPlaceholderDoc ⟨pre ++ rest⟩ = true ∧ pre.length = 0 then [] else pre ++ rest) =
      .ok (pre ++ (new ++ if isPlaceholderDoc ⟨pre ++ rest⟩ = true ∧ pre = [] then [] else rest)) := by
    intro rest new
    simp only [length_eq_zero_iff]
    split
    · rename_i hp
      have := insertRepeatedly_mid [] new []
      simpa [hp.2] using this
    · exact insertRepeatedly_mid pre new rest
  cases endTail with
  | none =>
    simp only [bind, Except.bind, pure, Except.pure]
    rw [hbase post]
    exact ⟨_, rfl⟩
  | some tail =>
    simp only [restoreBase, Option.isSome_some, if_true, cons_append]
    cases post with
    | nil =>
      simp only [bind, Except.bind, pure, Except.pure, Document.blockCount,
        append_nil, Nat.lt_irrefl]
      have := hbase [] (first :: (middle ++
        [blockWithRunsLike last (last.runs.getD [] ++ tail.runs.getD [])]))
      rw [append_nil] at this
      rw [this]
      simp only [drop_nil, append_nil]
      exact ⟨_, rfl⟩
    | cons b post =>
      have hlt : pre.length < (Document.mk (pre ++ b :: post)).blockCount := by
        simp [Document.blockCount]
      simp only [bind, Except.bind, true_and, if_pos hlt, vecRemove_mid,
        hbase post]
      exact ⟨_, rfl⟩

/-! ## The three readings of a delete -/

theorem applyDeleteRange_restore (d : Document) (p : DocPosition) {deleted : DeletedContent}
    (h : deleted.blocks ≠ []) : applyDeleteRange d p p deleted = applyRestoreDeleted d p deleted := by
  have hle : p ≤ p := DocPosition.le_iff.2 (.inr ⟨rfl, Nat.le_refl _⟩)
  rw [applyDeleteRange, if_pos hle, if_pos ⟨rfl, h⟩]

theorem applyDeleteRange_single (d : Document) (i : Nat) {s e : Nat} (deleted : DeletedContent) (h : s < e) :
    applyDeleteRange d ⟨i, s⟩ ⟨i, e⟩ deleted = applySingleBlockDelete d ⟨i, s⟩ ⟨i, e⟩ := by
  have hle : (⟨i, s⟩ : DocPosition) ≤ ⟨i, e⟩ := DocPosition.le_iff.2 (.inr ⟨rfl, Nat.le_of_lt h⟩)
  have hne : ¬ ((⟨i, s⟩ : DocPosition) = ⟨i, e⟩ ∧ deleted.blocks ≠ []) := by
    simp only [DocPosition.mk.injEq]
    omega
  rw [applyDeleteRange, if_pos hle, if_neg hne, if_pos rfl]

theorem applyDeleteRange_cross (d : Document) {j : Nat} (s e : Nat) (deleted : DeletedContent) (h : i < j) :
    applyDeleteRange d ⟨i, s⟩ ⟨j, e⟩ deleted = applyCrossBlockDelete d ⟨i, s⟩ ⟨j, e⟩ := by
  have hle : (⟨i, s⟩ : DocPosition) ≤ ⟨j, e⟩ := DocPosition.le_iff.2 (.inl h)
  have hne : ¬ ((⟨i, s⟩ : DocPosition) = ⟨j, e⟩ ∧ deleted.blocks ≠ []) := by
    simp only [DocPosition.mk.injEq]
    omega
  have hij : ¬ i = j := by omega
  rw [applyDeleteRange, if_pos hle, if_neg hne, if_neg hij]

theorem applySplitBlock_mid (pre post : List Block) (b : Block) (o : Nat) :
    applySplitBlock ⟨pre ++ b :: post⟩ ⟨pre.length, o⟩ =
      .ok (⟨pre ++ (splitBlockAt b o).1 :: (splitBlockAt b o).2 :: post⟩,
        ⟨pre.length, [], some (.split pre.length o)⟩) := by
  simp only [applySplitBlock, expectBlock_mid, bind, Except.bind, replaceBlock_mid]
  have := vecInsert_mid (pre ++ [(splitBlockAt b o).1]) post (splitBlockAt b o).2
  simp only [length_append, length_cons, length_nil, append_assoc, cons_append, nil_append] at this
  rw [this]
  rfl

theorem applyMergeBlocks_mid (pre post : List Block) (a b : Block) :
    ∃ pm, applyMergeBlocks ⟨pre ++ a :: b :: post⟩ (pre.length + 1) =
      .ok (⟨pre ++ mergeTwoBlocks a b :: post⟩, pm) ∧ pm.blockIndex = pre.length ∧
      pm = ⟨pre.length, [⟨a.charLen, 0, 0⟩], some (.merge (pre.length + 1) a.charLen)⟩ := by
  have hb : (Document.mk (pre ++ a :: b :: post)).expectBlock (pre.length + 1)
      "MergeBlocks: block out of bounds" = .ok b := by
    have := expectBlock_mid (pre ++ [a]) post b "MergeBlocks: block out of bounds"
    simpa using this
  have hrem := vecRemove_mid (pre ++ [mergeTwoBlocks a b]) post b
  simp only [length_append, length_cons, length_nil, append_assoc, cons_append, nil_append] at hrem
  refine ⟨⟨pre.length, [⟨a.charLen, 0, 0⟩], some (.merge (pre.length + 1) a.charLen)⟩, ?_, rfl, rfl⟩
  rw [applyMergeBlocks, if_neg (by omega), if_neg (by simp [Document.blockCount])]
  simp only [Nat.add_sub_cancel, expectBlock_mid, hb, bind, Except.bind, replaceBlock_mid, hrem]
  rfl

theorem applyRestoreMergedBlock_mid (pre post : List Block) (a saved : Block) (o : Nat) :
    ∃ pm, applyRestoreMergedBlock ⟨pre ++ a :: post⟩ (pre.length + 1) saved o =
      .ok (⟨pre ++ blockWithRunsLike a (extractRunsUpTo (a.runs.getD []) o) :: saved :: post⟩, pm) := by
  simp only [applyRestoreMergedBlock, Nat.add_sub_cancel, expectBlock_mid, bind, Except.bind,
    replaceBlock_mid]
  have := vecInsert_mid (pre ++ [blockWithRunsLike a (extractRunsUpTo (a.runs.getD []) o)]) post
    saved
  simp only [length_append, length_cons, length_nil, append_assoc, cons_append, nil_append] at this
  rw [this]
  exact ⟨_, rfl⟩

theorem applySetBlockType_mid (pre post : List Block) (b : Block) (new : BlockKind) :
    applySetBlockType ⟨pre ++ b :: post⟩ pre.length new =
      .ok (⟨pre ++ convertBlock b new :: post⟩, ⟨pre.length, [], none⟩) := by
  simp only [applySetBlockType, expectBlock_mid, replaceBlock_mid]
  rfl

theorem applyInsertBlock_mid (pre post : List Block) (b : Block) :
    applyInsertBlock ⟨pre ++ post⟩ pre.length b =
      .ok (⟨pre ++ b :: post⟩, ⟨pre.length, [], some (.insert pre.length 1)⟩) := by
  simp only [applyInsertBlock, Document.insertBlock, vecInsert_mid]
  rfl

theorem applyRemoveBlock_mid (b : Block) (h : pre ++ post ≠ []) :
    applyRemoveBlock ⟨pre ++ b :: post⟩ pre.length =
      .ok (⟨pre ++ post⟩, ⟨pre.length, [], some (.remove pre.length)⟩) := by
  have hlen : ¬ (pre ++ b :: post).length ≤ 1 := by
    have := length_pos_iff.2 h
    simp only [length_append, length_cons] at this ⊢
    omega
  simp only [applyRemoveBlock, Document.blockCount, Document.removeBlock, if_neg hlen,
    vecRemove_mid, bind, Except.bind, pure, Except.pure]
  rw [if_pos (by simp)]

theorem applyReplaceBlock_mid (pre post : List Block) (b new : Block) :
    applyReplaceBlock ⟨pre ++ b :: post⟩ pre.length new =
      .ok (⟨pre ++ new :: post⟩, ⟨pre.length, [], none⟩) := by
  simp only [applyReplaceBlock, expectBlock_mid, replaceBlock_mid]
  rfl

/-- The runs of a block after the characters in `[lo, hi)` are restyled. -/
def toggleRuns (shouldRemove : Bool) (styleBit : InlineStyle) (lo hi : Nat) (rs : List StyledRun) :
    List StyledRun :=
  match isolateRuns rs lo hi with
  | .ok (runs, i, j) => restyleRuns shouldRemove styleBit runs i j
  | .error _ => rs

/-- What a toggle over `[start, stop)` does to the block at index `bi`. -/
def toggledBlock (start stop : DocPosition) (shouldRemove : Bool) (styleBit : InlineStyle)
    (bi : Nat) (b : Block) : Block :=
  match b.runs with
  | none => b
  | some rs =>
    let range := blockRange start stop bi b
    if range.1 ≥ range.2 then b
    else b.setRuns (toggleRuns shouldRemove styleBit range.1 range.2 rs)

theorem toggleRuns_spec (view : Format → φ) (shouldRemove : Bool) (styleBit : InlineStyle)
    {lo hi : Nat} (hne : rs ≠ []) (h : lo < hi) : ∃ A M C, toggleRuns shouldRemove styleBit lo hi rs =
        A ++ M.map (fun r => { r with style := toggledStyle shouldRemove styleBit r.style }) ++ C ∧
      isolateRuns rs lo hi = .ok (A ++ M ++ C, A.length, A.length + M.length) ∧
      chars view A = (chars view rs).take lo ∧
      chars view M = ((chars view rs).take hi).drop lo ∧
      chars view C = (chars view rs).drop hi := by
  obtain ⟨A, M, C, heq, hA, hM, hC⟩ := isolateRuns_spec view hne h
  refine ⟨A, M, C, ?_, heq, hA, hM, hC⟩
  rw [toggleRuns, heq]
  simp only [restyleRuns]
  rw [← length_append, drop_left, take_left, drop_left, append_assoc A, take_left]

theorem toggleBlock_eq (start stop : DocPosition) (shouldRemove : Bool) (styleBit : InlineStyle)
    (bi : Nat) (d : Document) : toggleBlock start stop shouldRemove styleBit bi d =
      .ok (match d.block bi with
        | some b => d.replaceBlock bi (toggledBlock start stop shouldRemove styleBit bi b) | none => d) := by
  unfold toggleBlock
  cases hb : d.block bi with
  | none => rfl
  | some b =>
    have hsame : d.replaceBlock bi b = d := by
      obtain ⟨pre, post, rfl, rfl⟩ := exists_mid hb
      exact replaceBlock_mid pre post b b
    simp only [toggledBlock]
    cases hruns : b.runs with
    | none => simp [hsame, pure, Except.pure]
    | some rs =>
      simp only
      split
      · simp [hsame, pure, Except.pure]
      rename_i hlt
      simp only [Nat.not_le] at hlt
      by_cases hne : rs = []
      · rw [toggleRuns, isolateRuns_trivial (Nat.le_of_lt hlt) (.inl hne)]
        simp [vecRange, bind, Except.bind, pure, Except.pure]
      · obtain ⟨A, M, C, -, heq, -⟩ := toggleRuns_spec id shouldRemove styleBit hne hlt
        have hrange : vecRange (A ++ M ++ C) A.length (A.length + M.length) = .ok () := by
          rw [vecRange, if_pos (by simp)]
        rw [toggleRuns, heq]
        simp only [hrange, bind, Except.bind, pure, Except.pure]

theorem toggleBlocks_eq (start stop : DocPosition) (shouldRemove : Bool) (styleBit : InlineStyle)
    (indices : List Nat) (hnodup : indices.Nodup) (d : Document) :
    ∃ d', toggleBlocks start stop shouldRemove styleBit indices d = .ok d' ∧ ∀ i, d'.blocks[i]? =
        if i ∈ indices then
          (d.blocks[i]?).map (toggledBlock start stop shouldRemove styleBit i)
        else d.blocks[i]? := by
  induction indices generalizing d with
  | nil => exact ⟨d, rfl, by simp⟩
  | cons bi rest ih =>
    obtain ⟨hbi, hrest⟩ := nodup_cons.1 hnodup
    simp only [toggleBlocks, toggleBlock_eq]
    obtain ⟨d', heq, hblocks⟩ := ih hrest (match d.block bi with
      | some b => d.replaceBlock bi (toggledBlock start stop shouldRemove styleBit bi b)
      | none => d)
    refine ⟨d', heq, ?_⟩
    intro i
    rw [hblocks i]
    cases hb : d.block bi with
    | none =>
      by_cases hi : i = bi
      · subst hi
        have hnone : d.blocks[i]? = none := hb
        simp [hnone]
      · simp [hi]
    | some b =>
      obtain ⟨hlt, hget⟩ := List.getElem?_eq_some_iff.1 hb
      by_cases hi : i = bi
      · subst hi
        simp [hbi, Document.replaceBlock, hlt, hget]
      · simp [hi, Document.replaceBlock, getElem?_set_ne (Ne.symm hi)]

theorem applyToggleInlineStyle_eq {start stop : DocPosition} (h : start < stop)
    (styleBit : InlineStyle) (d : Document) :
    ∃ d', applyToggleInlineStyle d start stop styleBit = .ok (d', ⟨start.blockIndex, [], none⟩) ∧
      ∀ i, d'.blocks[i]? =
        if start.blockIndex ≤ i ∧ i ≤ stop.blockIndex then
          (d.blocks[i]?).map (toggledBlock start stop (allTextHasStyle d start stop styleBit) styleBit i)
        else d.blocks[i]? := by
  obtain ⟨d', heq, hblocks⟩ := toggleBlocks_eq start stop (allTextHasStyle d start stop styleBit)
    styleBit (List.range' start.blockIndex (stop.blockIndex + 1 - start.blockIndex))
    nodup_range' d
  refine ⟨d', ?_, ?_⟩
  · simp only [applyToggleInlineStyle, if_pos h, heq]
    rfl
  · intro i
    rw [hblocks i]
    have hmem : i ∈ List.range' start.blockIndex (stop.blockIndex + 1 - start.blockIndex) ↔
        start.blockIndex ≤ i ∧ i ≤ stop.blockIndex := by
      rw [mem_range'_1]
      omega
    simp [hmem]

end Ratatoskr.Rte

import Ratatoskr.Rte.FlatOps

/-!
# Rte.FlatDelete

Deletions and their inverses on what a document says. A deletion that starts in inline text is
undone exactly. One that starts on an atomic block is undone by inserting what was captured before
whatever is at its index, and by dropping that first if it looks like the placeholder of an emptied
document; `DeleteExact` says when that drops nothing it should keep.

* `run_delete_flat` : what a deletion leaves.
* `maps_undo_delete` : the inverse gives the document back.
-/

namespace Ratatoskr.Rte

open List
open Lib (Maps Triple)

/-- The document, with an empty paragraph if it has no block. -/
def ensureFlat {φ : Type} (F : List (FlatBlock φ)) : List (FlatBlock φ) :=
  if F.isEmpty then [.blank] else F

namespace FlatBlock

variable {φ : Type}

/-- The blocks after a deletion that ends at offset `e` of the block. -/
def survivors (x : FlatBlock φ) (e : Nat) (Q : List (FlatBlock φ)) : List (FlatBlock φ) :=
  if x.isText = true ∨ e > 0 then Q else x :: Q

/-- The end block, if a deletion that ends at offset `e` of it takes any of it. -/
def consumed (x : FlatBlock φ) (e : Nat) : List (FlatBlock φ) :=
  if x.isText = true ∨ e > 0 then [x] else []

/-- What a deletion from offset `s` of `x` to offset `e` of `y` leaves of the two blocks, of those
between them and of the blocks `Q` after them. -/
def crossDelete (x y : FlatBlock φ) (s e : Nat) (Q : List (FlatBlock φ)) : List (FlatBlock φ) :=
  if x.isText then x.like (x.chars.take s ++ y.chars.drop e) :: y.survivors e Q
  else if (y.chars.drop e).isEmpty then y.survivors e Q
  else y.like (y.chars.drop e) :: Q

/-- The last block a restore inserts: the captured part and the tail it was cut from. -/
def rejoin (x : FlatBlock φ) (tail : List (Grapheme × φ)) : FlatBlock φ :=
  if x.isText then x.like (x.chars ++ tail) else x

end FlatBlock

section View

variable {φ : Type} (view : Format → φ)
variable {b sb eb saved first : Block} {e s : Nat} {k : InlineKind} {cs : List (Grapheme × φ)}
  {x y : FlatBlock φ}

theorem map_ensureBlock (blocks : List Block) :
    (ensureBlock blocks).map (flatBlock view) = ensureFlat (blocks.map (flatBlock view)) := by
  unfold ensureBlock ensureFlat
  cases blocks <;> simp

theorem map_survivors (b : Block) (e : Nat) (post : List Block) : (survivors b e post).map (flatBlock view) =
      (flatBlock view b).survivors e (post.map (flatBlock view)) := by
  unfold survivors FlatBlock.survivors
  rw [isText_flatBlock]
  split <;> simp

theorem isPlaceholderDoc_iff (blocks : List Block) :
    isPlaceholderDoc ⟨blocks⟩ = true ↔ blocks.map (flatBlock view) = [.blank] := by
  match blocks with
  | [] => simp [isPlaceholderDoc, Document.blockCount]
  | [b] =>
    cases b with
    | paragraph rs =>
      simp [isPlaceholderDoc, Document.blockCount, Document.block, flatBlock, FlatBlock.blank,
        chars_eq_nil_iff]
    | blockQuote bs =>
      cases bs <;>
        simp [isPlaceholderDoc, Document.block, flatBlock, FlatBlock.blank]
    | _ => simp [isPlaceholderDoc, Document.block, flatBlock, FlatBlock.blank]
  | _ :: _ :: _ => simp [isPlaceholderDoc, Document.blockCount]

/-- No run is left of the end block when no text is left of it. A normalized block has no run
without text beside others, so this holds of it. -/
def tailExact (b : Block) (e : Nat) : Bool :=
  match b.runs with
  | none => true
  | some rs =>
    !runsAreEffectivelyEmpty (extractRunsFromOffset rs e) || (extractRunsFromOffset rs e).isEmpty

theorem tailExact_iff : tailExact b e = true ↔
      ∀ rs, b.runs = some rs → runsAreEffectivelyEmpty (extractRunsFromOffset rs e) = true →
        extractRunsFromOffset rs e = [] := by
  unfold tailExact
  cases b.runs with
  | none => simp
  | some rs =>
    simp only [Bool.or_eq_true, Bool.not_eq_true', List.isEmpty_iff, Option.some.injEq, forall_eq']
    rw [Bool.eq_false_iff, ← imp_iff_not_or]

theorem flatBlock_crossReplacement {nb : Block} (post : List Block)
    (h : buildCrossDeleteReplacement sb s eb e = some nb)
    (htail : sb.isInlineBlock = false → tailExact eb e = true) :
    flatBlock view nb :: (survivors eb e post).map (flatBlock view) =
      (flatBlock view sb).crossDelete (flatBlock view eb) s e (post.map (flatBlock view)) := by
  unfold buildCrossDeleteReplacement at h
  unfold FlatBlock.crossDelete
  cases hsr : sb.runs with
  | some rs =>
    have hinl := isInline_of_runs hsr
    simp only [hsr, Option.some.injEq] at h
    subst h
    rw [isText_flatBlock, if_pos hinl, map_survivors, flatBlock_setRuns view _ hinl,
      chars_ensureRun, chars_append, chars_truncateRuns, chars_flatBlock, hsr, chars_flatBlock]
    cases her : eb.runs with
    | none => simp
    | some ers => simp [chars_extractRunsFromOffset]
  | none =>
    have hatomic : sb.isInlineBlock = false := by rw [← runs_isSome, hsr]; rfl
    simp only [hsr] at h
    rw [isText_flatBlock, hatomic]
    cases her : eb.runs with
    | none => simp [her] at h
    | some ers =>
      simp only [her] at h
      split at h
      · cases h
      rename_i hne
      cases h
      have hchars : chars view (extractRunsFromOffset ers e) ≠ [] := by
        intro hnil
        rw [chars_eq_nil_iff] at hnil
        exact hne (by simp [tailExact_iff.1 (htail hatomic) ers her hnil])
      rw [chars_extractRunsFromOffset] at hchars
      rw [flatBlock_blockWithRunsLike, chars_extractRunsFromOffset, survivors,
        if_pos (.inl (isInline_of_runs her))]
      simp [her, hchars]

theorem crossReplacement_none (post : List Block) (h : buildCrossDeleteReplacement sb s eb e = none) :
    (survivors eb e post).map (flatBlock view) =
      (flatBlock view sb).crossDelete (flatBlock view eb) s e (post.map (flatBlock view)) := by
  unfold buildCrossDeleteReplacement at h
  cases hsr : sb.runs with
  | some rs => simp [hsr] at h
  | none =>
    have hatomic : sb.isInlineBlock = false := by rw [← runs_isSome, hsr]; rfl
    have hempty : ((flatBlock view eb).chars.drop e).isEmpty = true := by
      simp only [hsr] at h
      rw [chars_flatBlock]
      cases her : eb.runs with
      | none => simp
      | some ers =>
        simp only [her] at h
        split at h
        · rename_i hnil
          rw [Option.getD_some, ← chars_extractRunsFromOffset, List.isEmpty_iff.1 hnil]
          rfl
        · cases h
    rw [map_survivors, FlatBlock.crossDelete, isText_flatBlock, hatomic, if_neg (by simp),
      if_pos hempty]

theorem run_delete_cross (pre mid post : List Block) (sb eb : Block) (s e : Nat)
    (deleted : DeletedContent) (htail : sb.isInlineBlock = false → tailExact eb e = true) :
    ∃ d', EditOp.run (.deleteRange ⟨pre.length, s⟩ ⟨pre.length + 1 + mid.length, e⟩ deleted)
        ⟨pre ++ sb :: (mid ++ eb :: post)⟩ = .ok d' ∧
      flat view d' = ensureFlat (pre.map (flatBlock view) ++
        (flatBlock view sb).crossDelete (flatBlock view eb) s e (post.map (flatBlock view))) := by
  obtain ⟨pm, heq, -⟩ := applyCrossBlockDelete_mid pre mid post sb eb s e
  have hap : EditOp.apply (.deleteRange ⟨pre.length, s⟩ ⟨pre.length + 1 + mid.length, e⟩ deleted)
      ⟨pre ++ sb :: (mid ++ eb :: post)⟩ = _ :=
    (applyDeleteRange_cross _ s e deleted (by omega)).trans heq
  refine ⟨_, run_ok hap, ?_⟩
  cases hrep : buildCrossDeleteReplacement sb s eb e with
  | some nb =>
    rw [flat_mid, flatBlock_crossReplacement view post hrep htail]
    have hne : pre.map (flatBlock view) ++ (flatBlock view sb).crossDelete (flatBlock view eb) s e
        (post.map (flatBlock view)) ≠ [] := by
      rw [← flatBlock_crossReplacement view post hrep htail]
      simp
    simp [ensureFlat, hne]
  | none =>
    rw [flat, map_ensureBlock, map_append, crossReplacement_none view post hrep]

/-- A deletion of a whole atomic block leaves what a deletion across blocks would. -/
theorem run_delete_atomic (pre post : List Block) (h : b.isInlineBlock = false)
    (deleted : DeletedContent) (he : 0 < e) :
    ∃ d', EditOp.run (.deleteRange ⟨pre.length, 0⟩ ⟨pre.length, e⟩ deleted) ⟨pre ++ b :: post⟩ = .ok d' ∧
      flat view d' = ensureFlat (pre.map (flatBlock view) ++ post.map (flatBlock view)) := by
  obtain ⟨pm, heq, -⟩ := applySingleBlockDelete_atomic pre post h 0 e
  rw [if_pos ⟨rfl, he⟩] at heq
  have hap : EditOp.apply (.deleteRange ⟨pre.length, 0⟩ ⟨pre.length, e⟩ deleted)
      ⟨pre ++ b :: post⟩ = _ := (applyDeleteRange_single _ _ deleted he).trans heq
  refine ⟨_, run_ok hap, ?_⟩
  rw [flat, map_ensureBlock, map_append]

theorem run_delete_inline (pre post : List Block) (h : flatBlock view b = .text k cs)
    (deleted : DeletedContent) (hlt : s < e) :
    ∃ d', EditOp.run (.deleteRange ⟨pre.length, s⟩ ⟨pre.length, e⟩ deleted) ⟨pre ++ b :: post⟩ = .ok d' ∧
      flat view d' = pre.map (flatBlock view) ++ .text k (cs.take s ++ cs.drop e) ::
        post.map (flatBlock view) := by
  obtain ⟨hinl, rs, hruns, hcs⟩ := of_flatBlock_text view h
  have hap : EditOp.apply (.deleteRange ⟨pre.length, s⟩ ⟨pre.length, e⟩ deleted)
      ⟨pre ++ b :: post⟩ = _ :=
    (applyDeleteRange_single _ _ deleted hlt).trans
      (applySingleBlockDelete_inline hruns (Nat.le_of_lt hlt))
  refine ⟨_, run_ok hap, ?_⟩
  rw [flat_mid, flatBlock_setRuns view _ hinl, h, chars_ensureRun,
    chars_deleteRuns view rs (Nat.le_of_lt hlt), hcs]
  rfl

/-! ## Restoring -/

theorem maps_restore_fragment (P Q : List (FlatBlock φ)) (k : InlineKind)
    (cs : List (Grapheme × φ)) (o : Nat) (stop : DocPosition) (h : saved.isInlineBlock = true)
    (endTail : Option Block) : Maps (flat view) (P ++ .text k cs :: Q)
      (EditOp.rewind (.deleteRange ⟨P.length, o⟩ stop ⟨[saved], endTail⟩))
      (P ++ .text k (cs.take o ++ (flatBlock view saved).chars ++ cs.drop o) :: Q) := by
  intro d hd
  obtain ⟨pre, b, post, rfl, rfl, hb, rfl⟩ := exists_flat_mid view hd
  obtain ⟨hinl, rs, hruns, hcs⟩ := of_flatBlock_text view hb
  rw [length_map]
  obtain ⟨pm, heq⟩ := applyRestoreDeletedSingle_inline pre post b h o
  rw [hruns] at heq
  have hap : (EditOp.invertWithDoc (.deleteRange ⟨pre.length, o⟩ stop ⟨[saved], endTail⟩)
      ⟨pre ++ b :: post⟩).apply ⟨pre ++ b :: post⟩ = _ :=
    (applyDeleteRange_restore _ _ (by simp)).trans heq
  refine ⟨_, rewind_ok hap, ?_⟩
  rw [flat_mid, flatBlock_setRuns view _ hinl, hb, chars_respliceRuns, hcs, chars_flatBlock]
  rfl

/-- The placeholder of an emptied document makes way for what is restored. -/
def withoutPlaceholder (P R : List (FlatBlock φ)) : Prop := P = [] ∧ R = [.blank]

theorem isPlaceholderDoc_append (pre post : List Block) : (isPlaceholderDoc ⟨pre ++ post⟩ = true ∧ pre = []) ↔
      withoutPlaceholder (pre.map (flatBlock view)) (post.map (flatBlock view)) := by
  simp only [withoutPlaceholder, map_eq_nil_iff]
  constructor
  · rintro ⟨h, rfl⟩
    exact ⟨rfl, (isPlaceholderDoc_iff view _).1 h⟩
  · rintro ⟨rfl, h⟩
    exact ⟨(isPlaceholderDoc_iff view _).2 h, rfl⟩

theorem maps_restore_atomic (P R : List (FlatBlock φ)) (o : Nat) (stop : DocPosition)
    (h : saved.isInlineBlock = false) (endTail : Option Block) (hexact : withoutPlaceholder P R → False) :
    Maps (flat view) (P ++ R) (EditOp.rewind (.deleteRange ⟨P.length, o⟩ stop ⟨[saved], endTail⟩))
      (P ++ flatBlock view saved :: R) := by
  intro d hd
  obtain ⟨pre, post, rfl, rfl, rfl⟩ := exists_flat_append view hd
  rw [length_map]
  obtain ⟨pm, heq⟩ := applyRestoreDeletedSingle_atomic pre post h o
  rw [if_neg (fun hp => hexact ((isPlaceholderDoc_append view pre post).1 hp))] at heq
  have hap : (EditOp.invertWithDoc (.deleteRange ⟨pre.length, o⟩ stop ⟨[saved], endTail⟩)
      ⟨pre ++ post⟩).apply ⟨pre ++ post⟩ = _ :=
    (applyDeleteRange_restore _ _ (by simp)).trans heq
  exact ⟨_, rewind_ok hap, flat_mid view pre post saved⟩

theorem maps_restore_emptied (o : Nat) (stop : DocPosition) (h : saved.isInlineBlock = false)
    (endTail : Option Block) :
    Maps (flat view) [.blank] (EditOp.rewind (.deleteRange ⟨0, o⟩ stop ⟨[saved], endTail⟩))
      [flatBlock view saved] := by
  intro d hd
  obtain ⟨pre, post, rfl, hpre, hpost⟩ := exists_flat_append view (P := []) hd
  obtain rfl : pre = [] := map_eq_nil_iff.1 hpre
  obtain ⟨pm, heq⟩ := applyRestoreDeletedSingle_atomic [] post h o
  have hph : isPlaceholderDoc ⟨[] ++ post⟩ = true ∧ ([] : List Block) = [] :=
    (isPlaceholderDoc_append view [] post).2 ⟨rfl, hpost⟩
  rw [if_pos hph] at heq
  have hap : (EditOp.invertWithDoc (.deleteRange ⟨0, o⟩ stop ⟨[saved], endTail⟩)
      ⟨[] ++ post⟩).apply ⟨[] ++ post⟩ = _ := (applyDeleteRange_restore _ _ (by simp)).trans heq
  exact ⟨_, rewind_ok hap, rfl⟩

/-- The formatted characters of the tail a deletion left standing. -/
def tailChars (endTail : Option Block) : List (Grapheme × φ) :=
  chars view ((endTail.bind Block.runs).getD [])

theorem map_restoredBlocks (merged first : Block) (middle : List Block) (last : Block)
    (endTail : Option Block) (o : Nat) :
    (restoredBlocks merged first middle last endTail o).map (flatBlock view) =
      (flatBlock view first).like ((flatBlock view merged).chars.take o ++ (flatBlock view first).chars) ::
        (middle.map (flatBlock view) ++ [(flatBlock view last).rejoin (tailChars view endTail)]) := by
  have hlast : flatBlock view (if last.isInlineBlock then blockWithRunsLike last
      (ensureRun (last.runs.getD [] ++ (endTail.bind Block.runs).getD [])) else last) =
      (flatBlock view last).rejoin (tailChars view endTail) := by
    unfold FlatBlock.rejoin
    rw [isText_flatBlock]
    split
    · simp [tailChars]
    · rfl
  simp [restoredBlocks, hlast, chars_extractRunsUpTo]

theorem maps_restore_cross (P Q : List (FlatBlock φ)) (x : FlatBlock φ) (o : Nat)
    (stop : DocPosition) (last : Block) (middle : List Block) (endTail : Option Block)
    (h : first.isInlineBlock = true) : Maps (flat view) (P ++ x :: Q)
      (EditOp.rewind (.deleteRange ⟨P.length, o⟩ stop ⟨first :: (middle ++ [last]), endTail⟩))
      (P ++ (flatBlock view first).like (x.chars.take o ++ (flatBlock view first).chars) ::
        (middle.map (flatBlock view) ++ (flatBlock view last).rejoin (tailChars view endTail) :: Q)) := by
  intro d hd
  obtain ⟨pre, b, post, rfl, rfl, rfl, rfl⟩ := exists_flat_mid view hd
  rw [length_map]
  obtain ⟨pm, heq⟩ := applyRestoreDeleted_cross pre post middle b last endTail h o
  have hap : (EditOp.invertWithDoc (.deleteRange ⟨pre.length, o⟩ stop
      ⟨first :: (middle ++ [last]), endTail⟩) ⟨pre ++ b :: post⟩).apply ⟨pre ++ b :: post⟩ = _ :=
    (applyDeleteRange_restore _ _ (by simp)).trans heq
  refine ⟨_, rewind_ok hap, ?_⟩
  rw [flat_append, map_append, map_restoredBlocks]
  simp

/-- Restoring whole blocks: they come back before what is at their index, unless that is the
placeholder of an emptied document. -/
theorem maps_restore_blocks (P R base : List (FlatBlock φ)) (o : Nat) (stop : DocPosition)
    (rest : List Block) (h : first.isInlineBlock = false)
    (hbase : (withoutPlaceholder P R ∧ base = []) ∨ (¬ withoutPlaceholder P R ∧ base = R)) :
    Maps (flat view) (P ++ R) (EditOp.rewind (.deleteRange ⟨P.length, o⟩ stop ⟨first :: rest, none⟩))
      (P ++ flatBlock view first :: (rest.map (flatBlock view) ++ base)) := by
  rcases eq_nil_or_concat rest with rfl | ⟨middle, last, rfl⟩
  · rcases hbase with ⟨⟨rfl, rfl⟩, rfl⟩ | ⟨hexact, rfl⟩
    · exact maps_restore_emptied view o stop h none
    · exact maps_restore_atomic view P base o stop h none hexact
  rw [concat_eq_append]
  intro d hd
  obtain ⟨pre, post, rfl, rfl, rfl⟩ := exists_flat_append view hd
  rw [length_map]
  obtain ⟨pm, heq⟩ := applyRestoreDeleted_atomic pre post middle last none h o
  have hap : (EditOp.invertWithDoc (.deleteRange ⟨pre.length, o⟩ stop
      ⟨first :: (middle ++ [last]), none⟩) ⟨pre ++ post⟩).apply ⟨pre ++ post⟩ = _ :=
    (applyDeleteRange_restore _ _ (by simp)).trans heq
  refine ⟨_, rewind_ok hap, ?_⟩
  have hpost : (restoreBase pre post none).map (flatBlock view) = base := by
    simp only [restoreBase, Option.isSome_none, Bool.false_eq_true, if_false]
    rcases hbase with ⟨hph, rfl⟩ | ⟨hph, rfl⟩
    · rw [if_pos ((isPlaceholderDoc_append view pre post).2 hph)]
      rfl
    · rw [if_neg fun hp => hph ((isPlaceholderDoc_append view pre post).1 hp)]
  simp [flat, restoredAtomicBlocks, hpost]

/-- Restoring whole blocks after a deletion that may have left nothing at all. -/
theorem maps_restore_whole (P R base : List (FlatBlock φ)) (o : Nat) (stop : DocPosition)
    (rest : List Block) (h : first.isInlineBlock = false)
    (hbase : (withoutPlaceholder P R ∧ base = []) ∨ (¬ withoutPlaceholder P R ∧ base = R)) :
    Maps (flat view) (ensureFlat (P ++ R))
      (EditOp.rewind (.deleteRange ⟨P.length, o⟩ stop ⟨first :: rest, none⟩))
      (P ++ flatBlock view first :: (rest.map (flatBlock view) ++ base)) := by
  by_cases hne : P ++ R = []
  · obtain ⟨rfl, rfl⟩ := append_eq_nil_iff.1 hne
    have hnil : base = [] := by
      rcases hbase with ⟨-, rfl⟩ | ⟨-, rfl⟩ <;> rfl
    subst hnil
    exact maps_restore_blocks view [] [.blank] [] o stop rest h (.inl ⟨⟨rfl, rfl⟩, rfl⟩)
  · have hensure : ensureFlat (P ++ R) = P ++ R := by simp [ensureFlat, hne]
    rw [hensure]
    exact maps_restore_blocks view P R base o stop rest h hbase

/-- Restoring whole blocks and the head of an inline block whose tail was left standing. -/
theorem maps_restore_joined (P Q base : List (FlatBlock φ)) (x : FlatBlock φ) (o : Nat)
    (stop : DocPosition) (last tail : Block) (middle : List Block) (h : first.isInlineBlock = false)
    (hbase : (withoutPlaceholder P Q ∧ base = []) ∨ (¬ withoutPlaceholder P Q ∧ base = Q)) :
    Maps (flat view) (P ++ x :: Q)
      (EditOp.rewind (.deleteRange ⟨P.length, o⟩ stop ⟨first :: (middle ++ [last]), some tail⟩))
      (P ++ flatBlock view first :: (middle.map (flatBlock view) ++
        (flatBlock view last).like ((flatBlock view last).chars ++ (flatBlock view tail).chars) ::
          base)) := by
  intro d hd
  obtain ⟨pre, b, post, rfl, rfl, -, rfl⟩ := exists_flat_mid view hd
  rw [length_map]
  obtain ⟨pm, heq⟩ := applyRestoreDeleted_atomic pre (b :: post) middle last (some tail) h o
  have hap : (EditOp.invertWithDoc (.deleteRange ⟨pre.length, o⟩ stop
      ⟨first :: (middle ++ [last]), some tail⟩) ⟨pre ++ b :: post⟩).apply ⟨pre ++ b :: post⟩ = _ :=
    (applyDeleteRange_restore _ _ (by simp)).trans heq
  refine ⟨_, rewind_ok hap, ?_⟩
  have hpost : (restoreBase pre (b :: post) (some tail)).map (flatBlock view) = base := by
    simp only [restoreBase, Option.isSome_some, if_true, drop_succ_cons, drop_zero]
    rcases hbase with ⟨hph, rfl⟩ | ⟨hph, rfl⟩
    · rw [if_pos ((isPlaceholderDoc_append view pre post).2 hph)]
      rfl
    · rw [if_neg fun hp => hph ((isPlaceholderDoc_append view pre post).1 hp)]
  simp [flat, restoredAtomicBlocks, hpost]

/-! ## What a deletion captures -/

def capturedStart (b : Block) (s : Nat) : Block :=
  match b.runs with
  | some rs => blockWithRunsLike b (extractDeletedRuns rs s b.charLen)
  | none => b

/-- The captured part of the end block, and the tail of it that survives. -/
def capturedEnd (b : Block) (e : Nat) : List Block × Option Block :=
  match b.runs with
  | some rs =>
    ([blockWithRunsLike b (extractDeletedRuns rs 0 e)],
      if runsAreEffectivelyEmpty (extractDeletedRuns rs e b.charLen) then none
      else some (blockWithRunsLike b (extractDeletedRuns rs e b.charLen)))
  | none => (if e > 0 then [b] else [], none)

theorem buildDeletedContent_cross (pre mid post : List Block) (sb eb : Block) (s e : Nat)
    (hs : sb.isInlineBlock = false → s = 0) :
    buildDeletedContent ⟨pre ++ sb :: (mid ++ eb :: post)⟩ ⟨pre.length, s⟩ ⟨pre.length + 1 + mid.length, e⟩ =
      ⟨capturedStart sb s :: (mid ++ (capturedEnd eb e).1), (capturedEnd eb e).2⟩ := by
  have hne : ¬ pre.length = pre.length + 1 + mid.length := by omega
  have hend : (Document.mk (pre ++ sb :: (mid ++ eb :: post))).block (pre.length + 1 + mid.length) =
      some eb := by
    have hlen : pre.length + 1 + mid.length = (pre ++ sb :: mid).length := by simp; omega
    have happ : pre ++ sb :: (mid ++ eb :: post) = (pre ++ sb :: mid) ++ eb :: post := by simp
    rw [hlen, happ, block_mid]
  have hmid : ((pre ++ sb :: (mid ++ eb :: post)).take (pre.length + 1 + mid.length)).drop
      (pre.length + 1) = mid := by
    have happ : pre ++ sb :: (mid ++ eb :: post) = (pre ++ [sb]) ++ (mid ++ eb :: post) := by simp
    have hlen : pre.length + 1 = (pre ++ [sb]).length := by simp
    rw [happ, hlen, take_length_add_append, drop_left, take_left]
  have hstart : deletedStart ⟨pre ++ sb :: (mid ++ eb :: post)⟩ ⟨pre.length, s⟩ =
      [capturedStart sb s] := by
    simp only [deletedStart, block_mid, capturedStart]
    cases hr : sb.runs with
    | some rs => rfl
    | none =>
      have hatomic : sb.isInlineBlock = false := by rw [← runs_isSome, hr]; rfl
      simp [hs hatomic]
  have hcap : deletedEnd ⟨pre ++ sb :: (mid ++ eb :: post)⟩ ⟨pre.length + 1 + mid.length, e⟩ =
      capturedEnd eb e := by
    cases hr : eb.runs with
    | some rs => simp [deletedEnd, capturedEnd, hend, hr]
    | none => simp [deletedEnd, capturedEnd, hend, hr]
  simp only [buildDeletedContent, if_neg hne, hstart, hmid, hcap]
  simp

theorem flatBlock_capturedStart (h : flatBlock view b = .text k cs) (s : Nat) :
    flatBlock view (capturedStart b s) = .text k (cs.drop s) := by
  obtain ⟨-, rs, hruns, hcs⟩ := of_flatBlock_text view h
  have hlen : b.charLen = cs.length := by
    rw [← hcs]
    simp [Block.charLen, hruns]
  simp only [capturedStart, hruns]
  rw [flatBlock_blockWithRunsLike, h, extractDeletedRuns, chars_extractRuns, hcs, hlen, take_length]
  rfl

/-- The captured head of an inline end block, and its surviving tail if it has any text. -/
theorem capturedEnd_text (h : flatBlock view b = .text k cs) (e : Nat) :
    ∃ last, (capturedEnd b e).1 = [last] ∧ flatBlock view last = .text k (cs.take e) ∧
      ((cs.drop e = [] ∧ (capturedEnd b e).2 = none) ∨
        (cs.drop e ≠ [] ∧ ∃ tail, (capturedEnd b e).2 = some tail ∧
          flatBlock view tail = .text k (cs.drop e))) := by
  obtain ⟨-, rs, hruns, hcs⟩ := of_flatBlock_text view h
  have hlen : b.charLen = cs.length := by
    rw [← hcs]
    simp [Block.charLen, hruns]
  have htail : chars view (extractDeletedRuns rs e b.charLen) = cs.drop e := by
    rw [extractDeletedRuns, chars_extractRuns, hcs, hlen, take_length]
  simp only [capturedEnd, hruns]
  refine ⟨_, rfl, ?_, ?_⟩
  · rw [flatBlock_blockWithRunsLike, h, extractDeletedRuns, chars_extractRuns, hcs]
    rfl
  · by_cases hnil : cs.drop e = []
    · left
      rw [hnil] at htail
      exact ⟨hnil, if_pos ((chars_eq_nil_iff view _).1 htail)⟩
    · right
      have hne : ¬ runsAreEffectivelyEmpty (extractDeletedRuns rs e b.charLen) = true := by
        intro hempty
        rw [(chars_eq_nil_iff view _).2 hempty] at htail
        exact hnil htail.symm
      refine ⟨hnil, _, if_neg hne, ?_⟩
      rw [flatBlock_blockWithRunsLike, h, htail]
      rfl

theorem capturedEnd_atomic (h : b.isInlineBlock = false) (e : Nat) :
    capturedEnd b e = (if e > 0 then [b] else [], none) := by
  simp [capturedEnd, runs_eq_none h]

theorem capturedStart_atomic (h : b.isInlineBlock = false) (s : Nat) : capturedStart b s = b := by
  simp [capturedStart, runs_eq_none h]

theorem ensureFlat_of_ne_nil {F : List (FlatBlock φ)} (h : F ≠ []) : ensureFlat F = F := by
  simp [ensureFlat, h]

theorem rejoin_nil (x : FlatBlock φ) : x.rejoin [] = x := by
  cases x <;> simp [FlatBlock.rejoin, FlatBlock.isText]

theorem survivors_atomic (h : x.isText = false) (e : Nat) (Q : List (FlatBlock φ)) :
    x.survivors e Q = if e > 0 then Q else x :: Q := by
  simp [FlatBlock.survivors, h]

theorem consumed_survivors (x : FlatBlock φ) (e : Nat) (Q : List (FlatBlock φ)) :
    x.consumed e ++ x.survivors e Q = x :: Q := by
  unfold FlatBlock.consumed FlatBlock.survivors
  split <;> rfl

theorem crossDelete_of_nil (s : Nat) (Q : List (FlatBlock φ)) (hx : x.isText = false)
    (h : y.chars.drop e = []) : x.crossDelete y s e Q = y.survivors e Q := by
  simp [FlatBlock.crossDelete, hx, h]

theorem crossDelete_of_tail (s : Nat) (Q : List (FlatBlock φ)) (hx : x.isText = false)
    (h : y.chars.drop e ≠ []) : x.crossDelete y s e Q = y.like (y.chars.drop e) :: Q := by
  simp [FlatBlock.crossDelete, hx, h]

theorem maps_undo_delete_from_text (pre mid post : List Block) (eb : Block)
    (hsb : flatBlock view sb = .text k cs) (e : Nat) (hs : s ≤ cs.length) (stop : DocPosition) :
    Maps (flat view) (pre.map (flatBlock view) ++
        (flatBlock view sb).crossDelete (flatBlock view eb) s e (post.map (flatBlock view)))
      (EditOp.rewind (.deleteRange ⟨pre.length, s⟩ stop
        ⟨capturedStart sb s :: (mid ++ (capturedEnd eb e).1), (capturedEnd eb e).2⟩))
      (flat view ⟨pre ++ sb :: (mid ++ eb :: post)⟩) := by
  have hfirst := flatBlock_capturedStart view hsb s
  have hinl : (capturedStart sb s).isInlineBlock = true := by
    rw [← isText_flatBlock view, hfirst]
    rfl
  have hlen : pre.length = (pre.map (flatBlock view)).length := by simp
  have htake : ∀ tail : List (Grapheme × φ), (cs.take s ++ tail).take s ++ cs.drop s = cs := by
    intro tail
    rw [take_append_of_le_length (by simp; omega), take_take, Nat.min_self,
      take_append_drop]
  rw [hlen, flat_mid, map_append, map_cons, hsb, FlatBlock.crossDelete]
  cases heb : (flatBlock view eb).isText with
  | true =>
    obtain ⟨k', ds, hds⟩ := FlatBlock.eq_text_of_isText heb
    obtain ⟨last, hl1, hlast, htail⟩ := capturedEnd_text view hds e
    have hrejoin : (flatBlock view last).rejoin (tailChars view (capturedEnd eb e).2) =
        flatBlock view eb := by
      rw [hlast, hds]
      rcases htail with ⟨hnil, h2⟩ | ⟨-, tail, h2, htl⟩
      · have hds' : ds.take e = ds := by
          rw [← append_nil (ds.take e), ← hnil, take_append_drop]
        simp [h2, FlatBlock.rejoin, tailChars, hds']
      · obtain ⟨-, ts, hts, hcs⟩ := of_flatBlock_text view htl
        rw [h2]
        simp [FlatBlock.rejoin, tailChars, hts, hcs]
    have hsurv : (flatBlock view eb).survivors e (post.map (flatBlock view)) =
        post.map (flatBlock view) := if_pos (.inl heb)
    have hmaps := maps_restore_cross view (pre.map (flatBlock view)) (post.map (flatBlock view))
      (.text k (cs.take s ++ ds.drop e)) s stop last mid (capturedEnd eb e).2 hinl
    rw [hrejoin, hfirst] at hmaps
    simp only [FlatBlock.chars_text, htake] at hmaps
    rw [hl1, hds]
    rw [hds] at hmaps
    exact hmaps
  | false =>
    have hatomic : eb.isInlineBlock = false := by rwa [isText_flatBlock] at heb
    rw [capturedEnd_atomic hatomic, survivors_atomic heb, FlatBlock.chars_of_not_isText heb]
    by_cases he : e > 0
    · have hmaps := maps_restore_cross view (pre.map (flatBlock view)) (post.map (flatBlock view))
        (.text k (cs.take s ++ [].drop e)) s stop eb mid none hinl
      rw [hfirst] at hmaps
      simp only [FlatBlock.chars_text, htake] at hmaps
      simpa [he, tailChars, rejoin_nil] using hmaps
    · -- the end block stays; the captured blocks end with the last one before it
      simp only [he]
      rcases eq_nil_or_concat mid with rfl | ⟨middle, last, rfl⟩
      · have hmaps := maps_restore_fragment view (pre.map (flatBlock view))
          (flatBlock view eb :: post.map (flatBlock view)) k (cs.take s ++ [].drop e) s stop hinl none
        rw [hfirst] at hmaps
        have hcs := htake []
        rw [append_nil] at hcs
        simpa [hcs] using hmaps
      · have hmaps := maps_restore_cross view (pre.map (flatBlock view))
          (flatBlock view eb :: post.map (flatBlock view)) (.text k (cs.take s ++ [].drop e)) s stop
          last middle none hinl
        rw [hfirst] at hmaps
        simp only [FlatBlock.chars_text, htake] at hmaps
        simpa [tailChars, rejoin_nil] using hmaps

/-- A deletion that starts on an atomic block is undone up to `base`: what the restore keeps of the
blocks after the range. -/
theorem maps_undo_delete_from_atomic (pre mid post : List Block) (hsb : sb.isInlineBlock = false)
    (e : Nat) (stop : DocPosition) (base : List (FlatBlock φ))
    (hbase : (withoutPlaceholder (pre.map (flatBlock view))
          ((flatBlock view eb).survivors e (post.map (flatBlock view))) ∧ base = []) ∨
      (¬ withoutPlaceholder (pre.map (flatBlock view))
          ((flatBlock view eb).survivors e (post.map (flatBlock view))) ∧
        base = (flatBlock view eb).survivors e (post.map (flatBlock view)))) :
    Maps (flat view) (ensureFlat (pre.map (flatBlock view) ++
        (flatBlock view sb).crossDelete (flatBlock view eb) 0 e (post.map (flatBlock view))))
      (EditOp.rewind (.deleteRange ⟨pre.length, 0⟩ stop
        ⟨sb :: (mid ++ (capturedEnd eb e).1), (capturedEnd eb e).2⟩))
      (pre.map (flatBlock view) ++ flatBlock view sb :: (mid.map (flatBlock view) ++
        ((flatBlock view eb).consumed e ++ base))) := by
  have hlen : pre.length = (pre.map (flatBlock view)).length := by simp
  have htext : (flatBlock view sb).isText = false := by rwa [isText_flatBlock]
  cases heb : (flatBlock view eb).isText with
  | true =>
    have hsurv : (flatBlock view eb).survivors e (post.map (flatBlock view)) =
        post.map (flatBlock view) := if_pos (.inl heb)
    have hcons : (flatBlock view eb).consumed e = [flatBlock view eb] := if_pos (.inl heb)
    rw [hsurv] at hbase
    obtain ⟨k', ds, hds⟩ := FlatBlock.eq_text_of_isText heb
    obtain ⟨last, hl1, hlast, htail⟩ := capturedEnd_text view hds e
    have hchars : (flatBlock view eb).chars = ds := by rw [hds, FlatBlock.chars_text]
    rw [hl1, hcons]
    rcases htail with ⟨hnil, h2⟩ | ⟨hne, tail, h2, htl⟩
    · have hds' : ds.take e = ds := by
        rw [← append_nil (ds.take e), ← hnil, take_append_drop]
      rw [h2, crossDelete_of_nil 0 _ htext (by rw [hchars, hnil]), hsurv, hds]
      have := maps_restore_whole view (pre.map (flatBlock view)) (post.map (flatBlock view)) base 0
        stop (mid ++ [last]) hsb hbase
      rw [hds'] at hlast
      simpa [hlast] using this
    · rw [h2, crossDelete_of_tail 0 _ htext (by rwa [hchars]), ensureFlat_of_ne_nil (by simp), hds]
      have := maps_restore_joined view (pre.map (flatBlock view)) (post.map (flatBlock view)) base
        (.text k' (ds.drop e)) 0 stop last tail mid hsb hbase
      rw [hlast, htl] at this
      simpa using this
  | false =>
    have hatomic : eb.isInlineBlock = false := by rwa [isText_flatBlock] at heb
    have hchars : (flatBlock view eb).chars.drop e = [] := by
      rw [FlatBlock.chars_of_not_isText heb, drop_nil]
    rw [capturedEnd_atomic hatomic, crossDelete_of_nil 0 _ htext hchars]
    by_cases he : e > 0
    · have hcons : (flatBlock view eb).consumed e = [flatBlock view eb] := if_pos (.inr he)
      have := maps_restore_whole view (pre.map (flatBlock view)) _ base 0 stop (mid ++ [eb]) hsb hbase
      simpa [he, hcons] using this
    · have hcons : (flatBlock view eb).consumed e = [] := if_neg (by simp [heb, he])
      have := maps_restore_whole view (pre.map (flatBlock view)) _ base 0 stop mid hsb hbase
      simpa [he, hcons] using this

end View

/-- Undoing the deletion of `[p, stop)` gives back what was there: it starts in inline text, or the
restore finds no empty run or paragraph that it takes for a leftover of the deletion. -/
def deleteExact (d : Document) (p stop : DocPosition) : Bool :=
  match d.block p.blockIndex, d.block stop.blockIndex with
  | some sb, some eb =>
    sb.isInlineBlock ||
      (tailExact eb stop.offset &&
        !(p.blockIndex == 0 &&
          isPlaceholderDoc ⟨survivors eb stop.offset (d.blocks.drop (stop.blockIndex + 1))⟩))
  | _, _ => true

section Delete

variable {φ : Type} (view : Format → φ)
variable {d : Document} {p stop : DocPosition} {rs : List StyledRun}

/-- What a deletion of `[p, stop)` leaves of a document. -/
def flatDelete (F : List (FlatBlock φ)) (p stop : DocPosition) : List (FlatBlock φ) :=
  match F[p.blockIndex]?, F[stop.blockIndex]? with
  | some x, some y =>
    if p.blockIndex = stop.blockIndex ∧ x.isText = true then
      F.take p.blockIndex ++ x.like (x.chars.take p.offset ++ x.chars.drop stop.offset) ::
        F.drop (stop.blockIndex + 1)
    else
      ensureFlat (F.take p.blockIndex ++
        x.crossDelete y p.offset stop.offset (F.drop (stop.blockIndex + 1)))
  | _, _ => F

theorem drop_mid {α : Type} (A C : List α) (x : α) : (A ++ x :: C).drop (A.length + 1) = C := by
  simp

theorem drop_mid_two {α : Type} (A B C : List α) (x y : α) :
    (A ++ x :: (B ++ y :: C)).drop (A.length + 1 + B.length + 1) = C := by
  have happ : A ++ x :: (B ++ y :: C) = (A ++ x :: B) ++ y :: C := by simp
  have hlen : A.length + 1 + B.length = (A ++ x :: B).length := by
    simp
    omega
  rw [happ, hlen, drop_mid]

theorem flatDelete_inline (P Q : List (FlatBlock φ)) (k : InlineKind) (cs : List (Grapheme × φ)) (s e : Nat) :
    flatDelete (P ++ .text k cs :: Q) ⟨P.length, s⟩ ⟨P.length, e⟩ =
      P ++ .text k (cs.take s ++ cs.drop e) :: Q := by
  simp [flatDelete]

theorem flatDelete_atomic (P Q : List (FlatBlock φ)) {x : FlatBlock φ} (hx : x.isText = false)
    (s : Nat) {e : Nat} (he : 0 < e) :
    flatDelete (P ++ x :: Q) ⟨P.length, s⟩ ⟨P.length, e⟩ = ensureFlat (P ++ Q) := by
  have hnil : x.chars.drop e = [] := by rw [FlatBlock.chars_of_not_isText hx, drop_nil]
  have hsurv : x.survivors e Q = Q := if_pos (.inr he)
  simp [flatDelete, hx, crossDelete_of_nil s Q hx hnil, hsurv]

theorem flatDelete_cross (P M Q : List (FlatBlock φ)) (x y : FlatBlock φ) (s e : Nat) :
    flatDelete (P ++ x :: (M ++ y :: Q)) ⟨P.length, s⟩ ⟨P.length + 1 + M.length, e⟩ =
      ensureFlat (P ++ x.crossDelete y s e Q) := by
  have happ : P ++ x :: (M ++ y :: Q) = (P ++ x :: M) ++ y :: Q := by simp
  have hlen : P.length + 1 + M.length = (P ++ x :: M).length := by simp; omega
  have hy : (P ++ x :: (M ++ y :: Q))[P.length + 1 + M.length]? = some y := by
    rw [hlen]
    simp
  have hQ : (P ++ x :: (M ++ y :: Q)).drop (P.length + 1 + M.length + 1) = Q := by
    rw [happ, hlen, drop_mid]
  have hne : ¬ P.length = P.length + 1 + M.length := by omega
  simp [flatDelete, hy, hQ, hne]

theorem run_delete_flat {sb eb : Block} (hsb : d.blocks[p.blockIndex]? = some sb)
    (heb : d.blocks[stop.blockIndex]? = some eb) (hlt : p < stop)
    (hoff : sb.isInlineBlock = false → p.offset = 0)
    (htail : sb.isInlineBlock = false → tailExact eb stop.offset = true) (deleted : DeletedContent) :
    ∃ d', EditOp.run (.deleteRange p stop deleted) d = .ok d' ∧
      flat view d' = flatDelete (flat view d) p stop := by
  obtain ⟨i, s⟩ := p
  obtain ⟨j, e⟩ := stop
  simp only [DocPosition.lt_iff] at hlt hsb heb hoff htail
  by_cases hij : i = j
  · subst hij
    rw [hsb] at heb
    obtain ⟨pre, post, rfl, rfl⟩ := exists_mid hsb
    have hse : s < e := by omega
    have hlen : pre.length = (pre.map (flatBlock view)).length := by simp
    cases hinl : sb.isInlineBlock with
    | true =>
      obtain ⟨k, cs, hk, -⟩ := exists_text view hinl
      obtain ⟨d', hd', hflat⟩ := run_delete_inline view pre post hk deleted hse
      refine ⟨d', hd', ?_⟩
      rw [hflat, flat_mid, hk, hlen, flatDelete_inline]
    | false =>
      obtain rfl := hoff hinl
      obtain ⟨d', hd', hflat⟩ := run_delete_atomic view pre post hinl deleted hse
      refine ⟨d', hd', ?_⟩
      rw [hflat, flat_mid, hlen, flatDelete_atomic _ _ (by rwa [isText_flatBlock]) 0 hse]
  · have hij' : i < j := by omega
    obtain ⟨pre, mid, post, rfl, rfl, rfl⟩ := exists_mid_two hsb heb hij'
    obtain ⟨d', hd', hflat⟩ := run_delete_cross view pre mid post sb eb s e deleted htail
    refine ⟨d', hd', ?_⟩
    have hlen : pre.length = (pre.map (flatBlock view)).length := by simp
    have hmid : mid.length = (mid.map (flatBlock view)).length := by simp
    rw [hflat, flat_mid, map_append, map_cons, hlen, hmid, flatDelete_cross]

theorem buildDeletedContent_inline {pre post : List Block} {b : Block} (h : b.runs = some rs) (s e : Nat) :
    buildDeletedContent ⟨pre ++ b :: post⟩ ⟨pre.length, s⟩ ⟨pre.length, e⟩ =
      ⟨[blockWithRunsLike b (extractDeletedRuns rs s e)], none⟩ := by
  simp [buildDeletedContent, block_mid, h]

/-- A deletion inside one inline block is undone by splicing the captured characters back. -/
theorem maps_undo_delete_inline (pre post : List Block) {b : Block} (hruns : b.runs = some rs)
    {s e : Nat} (hse : s ≤ e) (hs : s ≤ b.charLen) (stop : DocPosition) : Maps (flat view)
      (pre.map (flatBlock view) ++ (flatBlock view b).like
        ((chars view rs).take s ++ (chars view rs).drop e) :: post.map (flatBlock view))
      (EditOp.rewind (.deleteRange ⟨pre.length, s⟩ stop
        ⟨[blockWithRunsLike b (extractDeletedRuns rs s e)], none⟩)) (flat view ⟨pre ++ b :: post⟩) := by
  obtain ⟨k, cs, hk, hcs⟩ := exists_text_of_runs view hruns
  have hlen : s ≤ cs.length := by
    rw [← hcs]
    simpa [Block.charLen, hruns] using hs
  have hsaved := isInlineBlock_blockWithRunsLike b (extractDeletedRuns rs s e)
  have hcap : (flatBlock view (blockWithRunsLike b (extractDeletedRuns rs s e))).chars =
      (cs.take e).drop s := by
    rw [flatBlock_blockWithRunsLike, hk, extractDeletedRuns, chars_extractRuns, hcs]
    rfl
  have hmaps := maps_restore_fragment view (pre.map (flatBlock view)) (post.map (flatBlock view)) k
    (cs.take s ++ cs.drop e) s stop hsaved none
  have hchars : (cs.take s ++ cs.drop e).take s ++ (cs.take e).drop s ++
      (cs.take s ++ cs.drop e).drop s = cs := by
    have hlen' : (cs.take s).length = s := by simp; omega
    calc (cs.take s ++ cs.drop e).take s ++ (cs.take e).drop s ++ (cs.take s ++ cs.drop e).drop s
        = cs.take s ++ (cs.take e).drop s ++ cs.drop e := by
          rw [take_append_of_le_length (by omega), take_take, Nat.min_self,
            drop_append_long _ (Nat.le_of_eq hlen'), hlen', Nat.sub_self, drop_zero]
      _ = (cs.take e).take s ++ (cs.take e).drop s ++ cs.drop e := by
          rw [take_take, Nat.min_eq_left hse]
      _ = cs := by rw [take_append_drop, take_append_drop]
  rw [hcap, hchars, length_map] at hmaps
  rw [flat_mid, hk, hcs]
  exact hmaps

theorem maps_undo_delete {sb eb : Block} (hsb : d.blocks[p.blockIndex]? = some sb)
    (heb : d.blocks[stop.blockIndex]? = some eb) (hlt : p < stop) (hp : p.offset ≤ sb.charLen)
    (hoff : sb.isInlineBlock = false → p.offset = 0 ∧ stop.offset ≤ eb.charLen)
    (hexact : deleteExact d p stop = true) : Maps (flat view) (flatDelete (flat view d) p stop)
      (EditOp.rewind (.deleteRange p stop (buildDeletedContent d p stop))) (flat view d) := by
  obtain ⟨i, s⟩ := p
  obtain ⟨j, e⟩ := stop
  simp only [DocPosition.lt_iff] at hlt hsb heb hoff hp
  simp only [deleteExact, Document.block, hsb, heb] at hexact
  by_cases hij : i = j
  · subst hij
    rw [hsb] at heb
    cases heb
    obtain ⟨pre, post, rfl, rfl⟩ := exists_mid hsb
    have hse : s < e := by omega
    have hlen : pre.length = (pre.map (flatBlock view)).length := by simp
    cases hinl : sb.isInlineBlock with
    | true =>
      obtain ⟨rs, hruns⟩ := exists_runs hinl
      have hmaps := maps_undo_delete_inline view pre post hruns (Nat.le_of_lt hse) hp
        ⟨pre.length, e⟩
      obtain ⟨k, cs, hk, hcs⟩ := exists_text_of_runs view hruns
      rw [buildDeletedContent_inline hruns]
      have hF : flatDelete (flat view ⟨pre ++ sb :: post⟩) ⟨pre.length, s⟩ ⟨pre.length, e⟩ =
          pre.map (flatBlock view) ++ (flatBlock view sb).like
            ((chars view rs).take s ++ (chars view rs).drop e) :: post.map (flatBlock view) := by
        rw [flat_mid, hk, hlen, flatDelete_inline, hcs]
        rfl
      rw [hF]
      exact hmaps
    | false =>
      obtain ⟨rfl, he⟩ := hoff hinl
      have hcontent : buildDeletedContent ⟨pre ++ sb :: post⟩ ⟨pre.length, 0⟩ ⟨pre.length, e⟩ =
          ⟨[sb], none⟩ := by
        have hlen1 : sb.charLen = 1 := atomic_charLen hinl
        have hge : e ≥ sb.charLen := by omega
        simp [buildDeletedContent, block_mid, runs_eq_none hinl, hge]
      have hdrop : (pre ++ sb :: post).drop (pre.length + 1) = post := drop_mid pre post sb
      have hsurv : survivors sb e post = post := if_pos (.inr hse)
      have hph : ¬ withoutPlaceholder (pre.map (flatBlock view)) (post.map (flatBlock view)) := by
        intro hph
        obtain ⟨hdoc, rfl⟩ := (isPlaceholderDoc_append view pre post).2 hph
        rw [nil_append] at hdoc
        rw [hdrop, hsurv, hdoc, hinl] at hexact
        simp at hexact
      rw [hcontent, flat_mid, hlen, flatDelete_atomic _ _ (by rwa [isText_flatBlock]) 0 hse]
      by_cases hne : pre.map (flatBlock view) ++ post.map (flatBlock view) = []
      · obtain ⟨hP, hQ⟩ := append_eq_nil_iff.1 hne
        rw [hP, hQ]
        exact maps_restore_emptied view 0 ⟨0, e⟩ hinl none
      · rw [ensureFlat_of_ne_nil hne]
        exact maps_restore_atomic view _ _ 0 ⟨_, e⟩ hinl none hph
  · have hij' : i < j := by omega
    obtain ⟨pre, mid, post, rfl, rfl, rfl⟩ := exists_mid_two hsb heb hij'
    have hlen : pre.length = (pre.map (flatBlock view)).length := by simp
    have hmid : mid.length = (mid.map (flatBlock view)).length := by simp
    have hF : flatDelete (flat view ⟨pre ++ sb :: (mid ++ eb :: post)⟩) ⟨pre.length, s⟩
        ⟨pre.length + 1 + mid.length, e⟩ = ensureFlat (pre.map (flatBlock view) ++
          (flatBlock view sb).crossDelete (flatBlock view eb) s e (post.map (flatBlock view))) := by
      rw [flat_mid, map_append, map_cons, hlen, hmid, flatDelete_cross]
    rw [hF, buildDeletedContent_cross pre mid post sb eb s e (fun h => (hoff h).1)]
    cases hinl : sb.isInlineBlock with
    | true =>
      obtain ⟨k, cs, hk, hlen'⟩ := exists_text view hinl
      have hs : s ≤ cs.length := by omega
      have hne : pre.map (flatBlock view) ++ (flatBlock view sb).crossDelete (flatBlock view eb) s e
          (post.map (flatBlock view)) ≠ [] := by
        simp [hk, FlatBlock.crossDelete]
      rw [ensureFlat_of_ne_nil hne]
      exact maps_undo_delete_from_text view pre mid post eb hk e hs _
    | false =>
      obtain ⟨rfl, -⟩ := hoff hinl
      have hdrop : (pre ++ sb :: (mid ++ eb :: post)).drop (pre.length + 1 + mid.length + 1) =
          post := by
        have happ : pre ++ sb :: (mid ++ eb :: post) = (pre ++ sb :: mid) ++ eb :: post := by simp
        have hl : pre.length + 1 + mid.length = (pre ++ sb :: mid).length := by simp; omega
        rw [happ, hl, drop_mid]
      have hph : ¬ withoutPlaceholder (pre.map (flatBlock view))
          ((flatBlock view eb).survivors e (post.map (flatBlock view))) := by
        rw [← map_survivors]
        intro hph
        obtain ⟨hdoc, rfl⟩ := (isPlaceholderDoc_append view pre _).2 hph
        rw [nil_append] at hdoc
        rw [hdrop, hdoc, hinl] at hexact
        simp at hexact
      have hmaps := maps_undo_delete_from_atomic view pre mid post hinl e
        ⟨pre.length + 1 + mid.length, e⟩ _ (.inr ⟨hph, rfl⟩)
      rw [consumed_survivors] at hmaps
      rw [capturedStart_atomic hinl]
      simpa [flat] using hmaps

end Delete

end Ratatoskr.Rte

import Ratatoskr.Rte.Panic

/-!
# Rte.Tracking

What the position map of an operation promises, and which operations keep the promise.

* `PosMap.Tracks` : the map sends valid positions to valid positions in order, leaves those before the
  edit alone and collapses what is deleted to the deletion point.
* `EditOp.tracksExact` : when an operation the rules emit has such a map.
-/

namespace Ratatoskr.Rte

open List

variable {pre post mid : List Block} {b sb eb : Block} {p position start stop : DocPosition}
  {rs : List StyledRun} {d d' : Document} {pm : PosMap} {s e m index : Nat} {op : EditOp}
  {deleted : DeletedContent} {new : BlockKind} {ops : List EditOp}

/-- Where an operation starts to edit; what it deletes collapses to this position. -/
def EditOp.editStart : EditOp → DocPosition
  | .insertText position _ => position
  | .deleteRange start _ _ => start
  | .splitBlock position => position
  | .mergeBlocks blockIndex _ mergeOffset => ⟨blockIndex - 1, mergeOffset⟩
  | .toggleInlineStyle start _ _ => start
  | .setBlockType blockIndex _ _ => ⟨blockIndex, 0⟩
  | .setBlockAttrs blockIndex _ _ => ⟨blockIndex, 0⟩
  | .insertBlock index _ => ⟨index, 0⟩
  | .removeBlock index _ => ⟨index, 0⟩
  | .replaceBlock index _ _ => ⟨index, 0⟩
  | .restoreMergedBlock blockIndex _ mergeOffset => ⟨blockIndex - 1, mergeOffset⟩

def EditOp.Deletes : EditOp → DocPosition → Prop
  | .deleteRange start stop _, p => start ≤ p ∧ p < stop
  | .removeBlock index _, p => p.blockIndex = index
  | _, _ => False

/-- The position map follows the content through the operation. -/
structure PosMap.Tracks (pm : PosMap) (op : EditOp) (d d' : Document) : Prop where
  valid : ∀ p, d.isValidPosition p = true → d'.isValidPosition (pm.map p) = true
  mono : ∀ p q, d.isValidPosition p = true → d.isValidPosition q = true → p ≤ q → pm.map p ≤ pm.map q
  before : ∀ p, d.isValidPosition p = true → p < op.editStart → pm.map p = p
  inside : ∀ p, d.isValidPosition p = true → op.Deletes p → pm.map p = op.editStart

theorem valid_mid : (Document.mk (pre ++ b :: post)).isValidPosition p = true ↔
      (p.blockIndex < pre.length ∧ (Document.mk pre).isValidPosition p = true) ∨
      (p.blockIndex = pre.length ∧ p.offset ≤ b.charLen) ∨
      (pre.length < p.blockIndex ∧
        (Document.mk post).isValidPosition ⟨p.blockIndex - (pre.length + 1), p.offset⟩ = true) := by
  rw [isValidPosition_iff, isValidPosition_iff, isValidPosition_iff]
  simp only [getElem?_append, getElem?_cons]
  grind

namespace PosMap

theorem mapEntries_nil (m : PosMap) (h : m.entries = []) (p : DocPosition) : m.mapEntries p = p := by
  simp [mapEntries, h, mapOffset]

theorem map_plain (i : Nat) (p : DocPosition) : (PosMap.mk i [] none).map p = p :=
  mapEntries_nil _ rfl _

theorem map_structural (i : Nat) (c : StructuralChange) (p : DocPosition) :
    (PosMap.mk i [] (some c)).map p = (PosMap.mk i [] (some c)).mapStructural p :=
  mapEntries_nil _ rfl _

theorem map_anchored (i o : Nat) (st : Option StructuralChange) (p : DocPosition) :
    (PosMap.mk i [⟨o, 0, 0⟩] st).map p = (PosMap.mk i [] st).map p := by
  have hkeep : ∀ q : DocPosition, (PosMap.mk i [⟨o, 0, 0⟩] st).mapEntries q = q := by
    rintro ⟨j, u⟩
    simp only [mapEntries, mapOffset]
    grind
  exact (hkeep _).trans (mapEntries_nil _ rfl _).symm

theorem map_typed (i o k : Nat) (p : DocPosition) : (PosMap.mk i [⟨o, 0, k⟩] none).map p =
      if p.blockIndex = i then ⟨i, if o < p.offset then p.offset + k else p.offset⟩ else p := by
  simp only [map, mapStructural, mapEntries, mapOffset]
  grind

theorem map_deleted (i s n : Nat) (p : DocPosition) : (PosMap.mk i [⟨s, n, 0⟩] none).map p =
      if p.blockIndex = i then ⟨i, if s < p.offset then max s (p.offset - n) else p.offset⟩ else p := by
  simp only [map, mapStructural, mapEntries, mapOffset]
  grind

end PosMap

section Kinds

variable {pre post : List Block} {op : EditOp} {pm : PosMap}
variable {b c : Block} {d d' : Document} {gone : List Block}

theorem tracks_within (f : Nat → Nat)
    (hmap : ∀ p, pm.map p = if p.blockIndex = pre.length then ⟨pre.length, f p.offset⟩ else p)
    (hlen : ∀ u ≤ b.charLen, f u ≤ c.charLen) (hmono : ∀ u v, u ≤ v → f u ≤ f v)
    (hstart : op.editStart.blockIndex = pre.length) (hbefore : ∀ u < op.editStart.offset, f u = u)
    (hinside : ∀ p, op.Deletes p → p.blockIndex = pre.length ∧ f p.offset = op.editStart.offset) :
    pm.Tracks op ⟨pre ++ b :: post⟩ ⟨pre ++ c :: post⟩ where
  valid := by
    intro p hp
    rw [hmap]
    rw [valid_mid] at hp
    split
    · rcases hp with ⟨h, -⟩ | ⟨-, h⟩ | ⟨h, -⟩
      · omega
      · exact valid_mid.2 (.inr (.inl ⟨rfl, hlen _ h⟩))
      · omega
    · rename_i hi
      exact valid_mid.2 (hp.imp_right (Or.imp_left fun h => absurd h.1 hi))
  mono := by
    intro p q _ _ hle
    rw [hmap]
    rw [DocPosition.le_iff] at hle ⊢
    grind
  before := by
    intro p _ hlt
    rw [hmap]
    rw [DocPosition.lt_iff] at hlt
    split
    · rename_i hi
      rw [DocPosition.eq_iff]
      exact ⟨hi.symm, hbefore _ (by omega)⟩
    · rfl
  inside := by
    intro p _ hdel
    obtain ⟨hi, ho⟩ := hinside p hdel
    rw [hmap, if_pos hi, DocPosition.eq_iff]
    exact ⟨hstart.symm, ho⟩

/-- A map that moves nothing fits an edit that shortens no block and deletes nothing. -/
theorem tracks_plain {i : Nat} (hvalid : ∀ p, d.isValidPosition p = true → d'.isValidPosition p = true)
    (hdel : ∀ p, ¬ op.Deletes p) : (PosMap.mk i [] none).Tracks op d d' where
  valid := by
    intro p hp
    rw [PosMap.map_plain]
    exact hvalid p hp
  mono := by
    intro p q _ _ hle
    rwa [PosMap.map_plain, PosMap.map_plain]
  before := fun p _ _ => PosMap.map_plain i p
  inside := fun p _ h => absurd h (hdel p)

theorem tracks_emptied (hmap : ∀ p, d.isValidPosition p = true → pm.map p = ⟨0, 0⟩)
    (hstart : op.editStart = ⟨0, 0⟩) (hd' : d'.isValidPosition ⟨0, 0⟩ = true) : pm.Tracks op d d' where
  valid := by
    intro p hp
    rwa [hmap p hp]
  mono := by
    intro p q hp hq _
    rw [hmap p hp, hmap q hq]
    exact DocPosition.le_iff.2 (.inr ⟨rfl, Nat.le_refl _⟩)
  before := by
    intro p _ hlt
    simp only [hstart, DocPosition.lt_iff] at hlt
    omega
  inside := by
    intro p hp _
    rw [hmap p hp, hstart]

theorem tracks_split {e : Block} {o : Nat} (hb : ∀ u ≤ b.charLen, u ≤ o → u ≤ c.charLen)
    (hc : ∀ u ≤ b.charLen, o < u → u - o ≤ e.charLen) :
    (PosMap.mk pre.length [] (some (.split pre.length o))).Tracks (.splitBlock ⟨pre.length, o⟩)
      ⟨pre ++ b :: post⟩ ⟨pre ++ c :: e :: post⟩ := by
  have hmap : ∀ p, (PosMap.mk pre.length [] (some (.split pre.length o))).map p =
      if p.blockIndex = pre.length ∧ p.offset > o then ⟨pre.length + 1, p.offset - o⟩
      else if p.blockIndex > pre.length then ⟨p.blockIndex + 1, p.offset⟩ else p :=
    PosMap.map_structural _ _
  constructor
  · intro p hp
    obtain ⟨x, hx, ho⟩ := isValidPosition_iff.1 hp
    rw [isValidPosition_iff, hmap]
    simp only [getElem?_append, getElem?_cons] at hx ⊢
    grind
  · intro p q _ _ hle
    rw [hmap, hmap]
    rw [DocPosition.le_iff] at hle ⊢
    grind
  · intro p _ hlt
    simp only [DocPosition.lt_iff, EditOp.editStart] at hlt
    grind
  · intro p _ hdel
    exact hdel.elim

theorem tracks_merge {a e : Block} {off : Nat} (hc : a.charLen + b.charLen ≤ c.charLen) :
    (PosMap.mk pre.length [⟨a.charLen, 0, 0⟩] (some (.merge (pre.length + 1) a.charLen))).Tracks
      (.mergeBlocks (pre.length + 1) e off) ⟨pre ++ a :: b :: post⟩ ⟨pre ++ c :: post⟩ := by
  have hmap : ∀ p, (PosMap.mk pre.length [⟨a.charLen, 0, 0⟩]
      (some (.merge (pre.length + 1) a.charLen))).map p =
        if p.blockIndex = pre.length + 1 then ⟨pre.length, p.offset + a.charLen⟩
        else if p.blockIndex > pre.length + 1 then ⟨p.blockIndex - 1, p.offset⟩ else p := by
    intro p
    rw [PosMap.map_anchored, PosMap.map_structural]
    rfl
  constructor
  · intro p hp
    obtain ⟨x, hx, ho⟩ := isValidPosition_iff.1 hp
    rw [isValidPosition_iff, hmap]
    simp only [getElem?_append, getElem?_cons] at hx ⊢
    grind
  · intro p q hp _ hle
    obtain ⟨x, hx, ho⟩ := isValidPosition_iff.1 hp
    rw [hmap]
    rw [DocPosition.le_iff] at hle ⊢
    grind
  · intro p _ hlt
    simp only [DocPosition.lt_iff, EditOp.editStart] at hlt
    grind
  · intro p _ hdel
    exact hdel.elim

theorem tracks_insert (pre post : List Block) (b : Block) :
    (PosMap.mk pre.length [] (some (.insert pre.length 1))).Tracks (.insertBlock pre.length b)
      ⟨pre ++ post⟩ ⟨pre ++ b :: post⟩ := by
  have hmap : ∀ p, (PosMap.mk pre.length [] (some (.insert pre.length 1))).map p =
      if p.blockIndex ≥ pre.length then ⟨p.blockIndex + 1, p.offset⟩ else p :=
    PosMap.map_structural _ _
  constructor
  · intro p hp
    obtain ⟨x, hx, ho⟩ := isValidPosition_iff.1 hp
    rw [isValidPosition_iff]
    simp only [getElem?_append] at hx ⊢
    grind
  · intro p q _ _ hle
    rw [hmap]
    rw [DocPosition.le_iff] at hle ⊢
    grind
  · intro p _ hlt
    simp only [DocPosition.lt_iff, EditOp.editStart] at hlt
    grind
  · intro p _ hdel
    exact hdel.elim

theorem tracks_removed {c : StructuralChange} (hland : post ≠ [])
    (hmap : ∀ p, (PosMap.mk pre.length [] (some c)).map p =
      if p.blockIndex ≥ pre.length ∧ p.blockIndex < pre.length + gone.length then ⟨pre.length, 0⟩
      else if p.blockIndex ≥ pre.length + gone.length then ⟨p.blockIndex - gone.length, p.offset⟩
      else p)
    (hstart : op.editStart = ⟨pre.length, 0⟩)
    (hinside : ∀ p, op.Deletes p → p.blockIndex ≥ pre.length ∧ p.blockIndex < pre.length + gone.length) :
    (PosMap.mk pre.length [] (some c)).Tracks op ⟨pre ++ (gone ++ post)⟩ ⟨pre ++ post⟩ := by
  constructor
  · intro p hp
    obtain ⟨x, hx, ho⟩ := isValidPosition_iff.1 hp
    rw [isValidPosition_iff]
    obtain ⟨y, ys, rfl⟩ := exists_cons_of_ne_nil hland
    simp only [getElem?_append, getElem?_cons] at hx ⊢
    grind
  · intro p q _ _ hle
    rw [DocPosition.le_iff] at hle ⊢
    grind
  · intro p _ hlt
    simp only [DocPosition.lt_iff] at hlt
    grind
  · intro p _ hdel
    rw [hmap, if_pos (hinside p hdel), hstart]

/-- The removal of consecutive blocks after the place where the deletion starts. -/
theorem tracks_cut {s : Nat} {st : Option StructuralChange} (hb : b.charLen = s) (hc : s ≤ c.charLen)
    (hmap : ∀ p, (PosMap.mk pre.length [⟨s, 0, 0⟩] st).map p =
      if p.blockIndex > pre.length ∧ p.blockIndex ≤ pre.length + gone.length then ⟨pre.length, s⟩
      else if p.blockIndex > pre.length + gone.length then ⟨p.blockIndex - gone.length, p.offset⟩
      else p)
    (hstart : op.editStart = ⟨pre.length, s⟩)
    (hinside : ∀ p, op.Deletes p → ⟨pre.length, s⟩ ≤ p ∧ p.blockIndex ≤ pre.length + gone.length) :
    (PosMap.mk pre.length [⟨s, 0, 0⟩] st).Tracks op ⟨pre ++ b :: (gone ++ post)⟩ ⟨pre ++ c :: post⟩ := by
  constructor
  · intro p hp
    obtain ⟨x, hx, ho⟩ := isValidPosition_iff.1 hp
    rw [isValidPosition_iff]
    simp only [getElem?_append, getElem?_cons] at hx ⊢
    grind
  · intro p q hp _ hle
    obtain ⟨x, hx, ho⟩ := isValidPosition_iff.1 hp
    rw [hmap, hmap]
    rw [DocPosition.le_iff] at hle ⊢
    grind
  · intro p _ hlt
    simp only [DocPosition.lt_iff] at hlt
    grind
  · intro p hp hdel
    obtain ⟨x, hx, ho⟩ := isValidPosition_iff.1 hp
    obtain ⟨hle, hge⟩ := hinside p hdel
    rw [hmap, hstart, DocPosition.eq_iff]
    rw [DocPosition.le_iff] at hle
    grind

end Kinds

/-! ## Text within a block -/

theorem charLen_of_runs_eq (h : b.runs = some rs) : b.charLen = (chars id rs).length := by
  rw [Block.charLen, h, chars_length]

theorem charLen_setRuns (h : b.isInlineBlock = true) (rs : List StyledRun) :
    (b.setRuns rs).charLen = (chars id rs).length :=
  charLen_of_runs_eq (runs_setRuns h rs)

theorem tracks_insertText {text : Text} (h : EditOp.apply (.insertText position text) d = .ok (d', pm)) :
    pm.Tracks (.insertText position text) d d' := by
  obtain ⟨b, hb⟩ := run_insertText_block (run_ok h)
  obtain ⟨i, o⟩ := position
  obtain ⟨pre, post, rfl, rfl⟩ := exists_mid hb
  simp only [EditOp.apply] at h
  cases hruns : b.runs with
  | none =>
    rw [applyInsertText_atomic hruns] at h
    cases h
    exact tracks_plain (fun _ hp => hp) fun _ hp => hp
  | some rs =>
    rw [applyInsertText_inline hruns] at h
    cases h
    have hinl := isInline_of_runs hruns
    refine tracks_within (fun u => if o < u then u + textLen text else u)
      (PosMap.map_typed _ _ _) ?_ ?_ rfl ?_ (fun _ hp => hp.elim)
    · intro u hu
      rw [charLen_of_runs_eq hruns] at hu
      rw [charLen_setRuns hinl]
      by_cases hne : rs = []
      · subst hne
        have hu0 : u = 0 := by simpa using hu
        simp [hu0]
      · rw [chars_insertTextIntoRuns id o text hne]
        simp only [length_append, length_take, length_map, length_drop, textLen]
        split <;> omega
    · intro u v huv
      grind
    · intro u hu
      exact if_neg (Nat.not_lt.2 (Nat.le_of_lt hu))

theorem tracks_deleteRange_inline (hruns : b.runs = some rs) (hse : s < e) (deleted : DeletedContent)
    (h : EditOp.apply (.deleteRange ⟨pre.length, s⟩ ⟨pre.length, e⟩ deleted)
      ⟨pre ++ b :: post⟩ = .ok (d', pm)) :
    pm.Tracks (.deleteRange ⟨pre.length, s⟩ ⟨pre.length, e⟩ deleted) ⟨pre ++ b :: post⟩ d' := by
  simp only [EditOp.apply] at h
  rw [applyDeleteRange_single _ _ deleted hse, applySingleBlockDelete_inline hruns (Nat.le_of_lt hse)] at h
  cases h
  have hinl := isInline_of_runs hruns
  refine tracks_within (fun u => if s < u then max s (u - (e - s)) else u)
    (PosMap.map_deleted _ _ _) ?_ ?_ rfl ?_ ?_
  · intro u hu
    rw [charLen_of_runs_eq hruns] at hu
    rw [charLen_setRuns hinl, chars_ensureRun, chars_deleteRuns id rs (Nat.le_of_lt hse)]
    simp only [length_append, length_take, length_drop]
    split <;> omega
  · intro u v huv
    grind
  · intro u hu
    exact if_neg (Nat.not_lt.2 (Nat.le_of_lt hu))
  · rintro p ⟨hle, hlt⟩
    simp only [DocPosition.le_iff, DocPosition.lt_iff, EditOp.editStart] at hle hlt ⊢
    grind

theorem not_tracks_last (hd : d.isValidPosition ⟨pre.length, 0⟩ = true)
    (hmap : pm.map ⟨pre.length, 0⟩ = ⟨pre.length, 0⟩) : ¬ pm.Tracks op d ⟨pre⟩ := by
  intro h
  have hvalid := h.valid _ hd
  rw [hmap, isValidPosition_iff] at hvalid
  obtain ⟨b, hb, -⟩ := hvalid
  simp at hb

theorem tracks_remove_iff (hd' : post ≠ [] → d' = ⟨pre ++ post⟩) (hlast : post = [] → d' = ⟨pre⟩)
    (hstart : op.editStart = ⟨pre.length, 0⟩) (hinside : ∀ p, op.Deletes p → p.blockIndex = pre.length) :
    (PosMap.mk pre.length [] (some (.remove pre.length))).Tracks op ⟨pre ++ b :: post⟩ d' ↔ post ≠ [] := by
  have hmap : ∀ p, (PosMap.mk pre.length [] (some (.remove pre.length))).map p =
      if p.blockIndex = pre.length then ⟨pre.length, 0⟩
      else if p.blockIndex > pre.length then ⟨p.blockIndex - 1, p.offset⟩ else p :=
    PosMap.map_structural _ _
  constructor
  · intro h hnil
    subst hnil
    rw [hlast rfl] at h
    refine not_tracks_last ?_ ?_ h
    · exact valid_mid.2 (.inr (.inl ⟨rfl, Nat.zero_le _⟩))
    · rw [hmap, if_pos rfl]
  · intro hland
    rw [hd' hland]
    have happ : pre ++ b :: post = pre ++ ([b] ++ post) := rfl
    rw [happ]
    refine tracks_removed hland ?_ hstart ?_
    · intro p
      grind
    · intro p hp
      have := hinside p hp
      simp only [length_singleton]
      omega

theorem tracks_replaced_iff {c : Block} {i : Nat} (hdel : ∀ p, ¬ op.Deletes p) :
    (PosMap.mk i [] none).Tracks op ⟨pre ++ b :: post⟩ ⟨pre ++ c :: post⟩ ↔ b.charLen ≤ c.charLen := by
  constructor
  · intro h
    have hvalid := h.valid ⟨pre.length, b.charLen⟩ (valid_mid.2 (.inr (.inl ⟨rfl, Nat.le_refl _⟩)))
    rw [PosMap.map_plain, valid_mid] at hvalid
    rcases hvalid with ⟨hlt, -⟩ | ⟨-, hle⟩ | ⟨hlt, -⟩
    · exact absurd hlt (Nat.lt_irrefl _)
    · exact hle
    · exact absurd hlt (Nat.lt_irrefl _)
  · intro hle
    refine tracks_plain ?_ hdel
    intro p hp
    rw [valid_mid] at hp ⊢
    exact hp.imp_right (Or.imp_left fun h => ⟨h.1, Nat.le_trans h.2 hle⟩)

theorem tracks_deleteRange_atomic (hatomic : b.isInlineBlock = false) (he : 0 < e) (deleted : DeletedContent)
    (h : EditOp.apply (.deleteRange ⟨pre.length, 0⟩ ⟨pre.length, e⟩ deleted) ⟨pre ++ b :: post⟩ =
      .ok (d', pm)) : pm.Tracks (.deleteRange ⟨pre.length, 0⟩ ⟨pre.length, e⟩ deleted) ⟨pre ++ b :: post⟩ d' ↔
      post ≠ [] := by
  obtain ⟨pm', heq, hblock, hentries, hstruct⟩ := applySingleBlockDelete_atomic pre post hatomic 0 e
  simp only [EditOp.apply] at h
  rw [applyDeleteRange_single _ _ deleted he, heq, if_pos ⟨rfl, he⟩] at h
  obtain ⟨bi, entries, structural⟩ := pm'
  obtain rfl : bi = pre.length := hblock
  obtain rfl : entries = [] := hentries
  have hinside : ∀ p, EditOp.Deletes (.deleteRange ⟨pre.length, 0⟩ ⟨pre.length, e⟩ deleted) p →
      p.blockIndex = pre.length := by
    rintro p ⟨hle, hlt⟩
    simp only [DocPosition.le_iff, DocPosition.lt_iff] at hle hlt
    omega
  obtain rfl : structural = _ := hstruct
  cases h
  by_cases hne : pre ++ post = []
  · obtain ⟨rfl, rfl⟩ := append_eq_nil_iff.1 hne
    simp only [ne_eq, not_true_eq_false, iff_false]
    intro htracks
    have hvalid := htracks.valid ⟨0, 1⟩ (isValidPosition_iff.2
      ⟨b, rfl, Nat.le_of_eq (atomic_charLen hatomic).symm⟩)
    simp [PosMap.map, PosMap.mapStructural, PosMap.mapEntries, PosMap.mapOffset, isValidPosition_iff,
      ensureBlock, Block.charLen, Block.emptyParagraph, Block.runs, Block.runsLen, StyledRun.charLen,
      StyledRun.plain, textLen] at hvalid
  · rw [if_pos ⟨⟨rfl, he⟩, hne⟩]
    refine tracks_remove_iff (fun _ => ?_) (fun hnil => ?_) rfl hinside
    · rw [ensureBlock_of_ne_nil hne]
    · subst hnil
      rw [ensureBlock_of_ne_nil hne, append_nil]

/-! ## Deletions across blocks -/

theorem exists_gone (mid post : List Block) (eb : Block) (e : Nat) :
    ∃ gone, mid ++ eb :: post = gone ++ survivors eb e post ∧ gone.length = removedCount eb e mid := by
  unfold survivors removedCount
  split
  · exact ⟨mid ++ [eb], by simp, by simp⟩
  · exact ⟨mid, rfl, rfl⟩

theorem deletes_cross {i : Nat} (eb : Block) (hm : m = i + 1 + mid.length)
    (h : EditOp.Deletes (.deleteRange ⟨i, s⟩ ⟨m, e⟩ deleted) p) :
    ⟨i, s⟩ ≤ p ∧ p.blockIndex ≤ i + removedCount eb e mid := by
  obtain ⟨hle, hlt⟩ := h
  refine ⟨hle, ?_⟩
  simp only [DocPosition.lt_iff] at hlt
  unfold removedCount
  split <;> omega

/-- Where the start block stays, what is cut off it does not move to the deletion point. -/
theorem tracks_cross_kept (hm : m = pre.length + 1 + mid.length) (hs : s ≤ sb.charLen)
    {nb : Block} (hrep : buildCrossDeleteReplacement sb s eb e = some nb)
    (deleted : DeletedContent) (hinl : s = sb.charLen → sb.isInlineBlock = true) :
    (PosMap.mk pre.length [⟨s, 0, 0⟩]
        (if removedCount eb e mid > 0 then
          some (.crossBlockDelete pre.length (removedCount eb e mid) s) else none)).Tracks
        (.deleteRange ⟨pre.length, s⟩ ⟨m, e⟩ deleted) ⟨pre ++ sb :: (mid ++ eb :: post)⟩
        ⟨pre ++ nb :: survivors eb e post⟩ ↔ s = sb.charLen := by
  have hmap : ∀ p, (PosMap.mk pre.length [⟨s, 0, 0⟩]
      (if removedCount eb e mid > 0 then
        some (.crossBlockDelete pre.length (removedCount eb e mid) s) else none)).map p =
      if p.blockIndex > pre.length ∧ p.blockIndex ≤ pre.length + removedCount eb e mid then
        ⟨pre.length, s⟩
      else if p.blockIndex > pre.length + removedCount eb e mid then
        ⟨p.blockIndex - removedCount eb e mid, p.offset⟩
      else p := by
    intro p
    rw [PosMap.map_anchored]
    by_cases hpos : removedCount eb e mid > 0
    · rw [if_pos hpos, PosMap.map_structural]
      rfl
    · obtain ⟨j, u⟩ := p
      rw [if_neg hpos, PosMap.map_plain]
      grind
  constructor
  · intro h
    have hvalid := h.inside ⟨pre.length, sb.charLen⟩
      (valid_mid.2 (.inr (.inl ⟨rfl, Nat.le_refl _⟩)))
      ⟨DocPosition.le_iff.2 (.inr ⟨rfl, hs⟩), DocPosition.lt_iff.2 (.inl (by simp only; omega))⟩
    rw [hmap, if_neg (by simp), if_neg (by simp)] at hvalid
    exact (DocPosition.eq_iff.1 hvalid).2.symm
  · intro heq
    have hinline := hinl heq
    obtain ⟨rs, hruns⟩ := exists_runs hinline
    have hlen : s ≤ nb.charLen := by
      simp only [buildCrossDeleteReplacement, hruns, Option.some.injEq] at hrep
      subst hrep
      rw [charLen_of_runs_eq hruns] at heq
      rw [charLen_setRuns hinline, chars_ensureRun, chars_append, chars_truncateRuns, heq]
      simp
    obtain ⟨gone, hgone, hcount⟩ := exists_gone mid post eb e
    rw [hgone]
    refine tracks_cut heq.symm hlen ?_ rfl ?_
    · rw [hcount]
      exact hmap
    · intro p hp
      rw [hcount]
      exact deletes_cross eb hm hp

/-- Where the start block goes, its index is the deletion point; there must be a block at it. -/
theorem tracks_cross_removed (hm : m = pre.length + 1 + mid.length) (deleted : DeletedContent) :
    (PosMap.mk pre.length [] (some (.removeRange pre.length (removedCount eb e mid + 1)))).Tracks
        (.deleteRange ⟨pre.length, 0⟩ ⟨m, e⟩ deleted) ⟨pre ++ sb :: (mid ++ eb :: post)⟩
        ⟨ensureBlock (pre ++ survivors eb e post)⟩ ↔ pre = [] ∨ survivors eb e post ≠ [] := by
  obtain ⟨gone, hgone, hcount⟩ := exists_gone mid post eb e
  have happ : pre ++ sb :: (mid ++ eb :: post) = pre ++ ((sb :: gone) ++ survivors eb e post) := by
    rw [hgone]
    rfl
  have hlen : (sb :: gone).length = removedCount eb e mid + 1 := by simp [hcount]
  have hmap : ∀ p, (PosMap.mk pre.length []
      (some (.removeRange pre.length (removedCount eb e mid + 1)))).map p =
      if p.blockIndex ≥ pre.length ∧ p.blockIndex < pre.length + (sb :: gone).length then
        ⟨pre.length, 0⟩
      else if p.blockIndex ≥ pre.length + (sb :: gone).length then
        ⟨p.blockIndex - (sb :: gone).length, p.offset⟩
      else p := by
    intro p
    rw [PosMap.map_structural, hlen]
    rfl
  have hinside : ∀ p, EditOp.Deletes (.deleteRange ⟨pre.length, 0⟩ ⟨m, e⟩ deleted) p →
      p.blockIndex ≥ pre.length ∧ p.blockIndex < pre.length + (sb :: gone).length := by
    intro p hp
    obtain ⟨hle, hlt⟩ := deletes_cross eb hm hp
    simp only [DocPosition.le_iff] at hle
    omega
  rw [happ]
  by_cases hland : survivors eb e post = []
  · rw [hland]
    by_cases hpre : pre = []
    · subst hpre
      simp only [true_or, iff_true]
      refine tracks_emptied ?_ rfl (zero_valid (ensureBlock_ne_nil ([] ++ [])))
      intro p hp
      obtain ⟨x, hx, -⟩ := isValidPosition_iff.1 hp
      have hlt := (List.getElem?_eq_some_iff.1 hx).1
      rw [append_nil] at hlt
      rw [hmap, if_pos ⟨Nat.zero_le _, by rwa [length_nil, Nat.zero_add]⟩]
      rfl
    · simp only [hpre, ne_eq, not_true_eq_false, or_self, iff_false]
      rw [append_nil, append_nil, ensureBlock_of_ne_nil hpre]
      refine not_tracks_last ?_ ?_
      · exact valid_mid.2 (.inr (.inl ⟨rfl, Nat.zero_le _⟩))
      · rw [hmap, if_pos (by simp)]
  · simp only [hland, ne_eq, not_false_eq_true, or_true, iff_true]
    rw [ensureBlock_of_ne_nil (by simp [hland])]
    exact tracks_removed hland hmap rfl hinside

theorem crossReplacement_eq_none_iff : buildCrossDeleteReplacement sb s eb e = none ↔
      sb.isInlineBlock = false ∧ (extractRunsFromOffset (eb.runs.getD []) e).isEmpty = true := by
  rw [← runs_isSome]
  unfold buildCrossDeleteReplacement
  cases sb.runs with
  | some rs => simp
  | none =>
    cases eb.runs with
    | none => simp [extractRunsFromOffset, extractRunsFromOffsetLoop]
    | some ers => simp

theorem survivors_ne_nil_iff : survivors eb e post ≠ [] ↔ post ≠ [] ∨ (eb.isInlineBlock = false ∧ e = 0) := by
  unfold survivors
  split
  · rename_i h
    have hnot : ¬ (eb.isInlineBlock = false ∧ e = 0) := by
      rintro ⟨hinl, rfl⟩
      simp [hinl] at h
    rw [or_iff_left hnot]
  · rename_i h
    simp only [not_or, Nat.not_lt, Nat.le_zero] at h
    simp [h]

/-- The operation's map tracks the content: no block it shortens or removes has a position that the map
leaves where it was, and there is a block behind those it removes. -/
def EditOp.tracksExact (d : Document) : EditOp → Bool
  | .deleteRange start stop _ =>
    match d.block start.blockIndex, d.block stop.blockIndex with
    | some sb, some eb =>
      if start.blockIndex = stop.blockIndex then
        sb.isInlineBlock || decide (start.blockIndex + 1 < d.blockCount)
      else if sb.isInlineBlock then start.offset == sb.charLen
      else
        (extractRunsFromOffset (eb.runs.getD []) stop.offset).isEmpty &&
          (start.blockIndex == 0 || decide (stop.blockIndex + 1 < d.blockCount) ||
            (!eb.isInlineBlock && stop.offset == 0))
    | _, _ => true
  | .splitBlock position =>
    match d.block position.blockIndex with
    | some b => b.isInlineBlock || decide (0 < position.offset)
    | none => true
  | .setBlockType blockIndex _ _ =>
    match d.block blockIndex with
    | some b => b.isInlineBlock || !runsAreEffectivelyEmpty (conversionRuns b)
    | none => true
  | .removeBlock index _ => decide (index + 1 < d.blockCount)
  | .replaceBlock index _ new =>
    match d.block index with
    | some b => decide (b.charLen ≤ new.charLen)
    | none => true
  | _ => true

/-- What the rules have checked of an operation they emit. -/
def EditOp.Placed (d : Document) : EditOp → Prop
  | .deleteRange start stop _ =>
    start < stop ∧ ∃ sb eb, d.blocks[start.blockIndex]? = some sb ∧ start.offset ≤ sb.charLen ∧
      d.blocks[stop.blockIndex]? = some eb ∧ (sb.isInlineBlock = false → start.offset = 0)
  | .mergeBlocks blockIndex _ _ =>
    ∃ i a b, blockIndex = i + 1 ∧ d.blocks[i]? = some a ∧ d.blocks[i + 1]? = some b ∧
      a.isInlineBlock = true ∧ b.isInlineBlock = true
  | .setBlockType _ _ new => new ≠ .horizontalRule ∧ new ≠ .image ∧ new ≠ .blockQuote
  | .removeBlock index _ => index < d.blocks.length ∧ 1 < d.blocks.length
  | .setBlockAttrs .. | .restoreMergedBlock .. => False
  | _ => True

theorem tracks_deleteRange_iff (hplaced : (EditOp.deleteRange start stop deleted).Placed d)
    (h : EditOp.apply (.deleteRange start stop deleted) d = .ok (d', pm)) :
    pm.Tracks (.deleteRange start stop deleted) d d' ↔
      EditOp.tracksExact d (.deleteRange start stop deleted) = true := by
  obtain ⟨hlt, sb, eb, hsb, hs, heb, hoff⟩ := hplaced
  obtain ⟨i, s⟩ := start
  obtain ⟨j, e⟩ := stop
  simp only [DocPosition.lt_iff] at hlt hsb heb hs hoff
  simp only [EditOp.tracksExact, Document.block, hsb, heb]
  by_cases hij : i = j
  · subst hij
    rw [hsb] at heb
    obtain ⟨pre, post, rfl, rfl⟩ := exists_mid hsb
    have hse : s < e := by omega
    rw [if_pos rfl]
    cases hinl : sb.isInlineBlock with
    | true =>
      obtain ⟨rs, hruns⟩ := exists_runs hinl
      simp only [Bool.true_or, iff_true]
      exact tracks_deleteRange_inline hruns hse deleted h
    | false =>
      obtain rfl := hoff hinl
      rw [tracks_deleteRange_atomic hinl hse deleted h]
      simp [Document.blockCount, length_pos_iff]
  · have hlt' : i < j := by omega
    obtain ⟨pre, mid, post, rfl, rfl, rfl⟩ := exists_mid_two hsb heb hlt'
    obtain ⟨pm', heq, -, hkept, hremoved⟩ := applyCrossBlockDelete_mid pre mid post sb eb s e
    simp only [EditOp.apply] at h
    rw [applyDeleteRange_cross _ s e deleted hlt', heq] at h
    rw [if_neg hij]
    cases hrep : buildCrossDeleteReplacement sb s eb e with
    | some nb =>
      have hpm := hkept (by simp [hrep])
      subst hpm
      rw [hrep] at h
      cases h
      have hinl : s = sb.charLen → sb.isInlineBlock = true := by
        intro heq
        by_contra hatomic
        rw [Bool.not_eq_true] at hatomic
        rw [hoff hatomic, atomic_charLen hatomic] at heq
        cases heq
      rw [tracks_cross_kept rfl hs hrep deleted hinl]
      cases hsbi : sb.isInlineBlock with
      | true => simp
      | false =>
        have hne : ¬ s = sb.charLen := fun heq => by
          rw [hinl heq] at hsbi
          cases hsbi
        have htail : (extractRunsFromOffset (eb.runs.getD []) e).isEmpty = false := by
          rw [← Bool.not_eq_true]
          intro hempty
          rw [crossReplacement_eq_none_iff.2 ⟨hsbi, hempty⟩] at hrep
          cases hrep
        simp [hne, htail]
    | none =>
      have hpm := hremoved hrep
      subst hpm
      rw [hrep] at h
      cases h
      obtain ⟨hsbi, hempty⟩ := crossReplacement_eq_none_iff.1 hrep
      obtain rfl := hoff hsbi
      rw [tracks_cross_removed rfl deleted, survivors_ne_nil_iff]
      simp only [hsbi, Bool.false_eq_true, if_false, hempty, Bool.true_and, Bool.or_eq_true,
        beq_iff_eq, decide_eq_true_eq, Bool.and_eq_true, Bool.not_eq_true', Document.blockCount,
        length_append, length_cons, length_eq_zero_iff, or_assoc]
      refine or_congr Iff.rfl (or_congr ?_ Iff.rfl)
      rw [← length_pos_iff]
      omega

theorem tracks_splitBlock_iff (h : EditOp.apply (.splitBlock position) d = .ok (d', pm)) :
    pm.Tracks (.splitBlock position) d d' ↔ EditOp.tracksExact d (.splitBlock position) = true := by
  obtain ⟨b, hb⟩ := run_splitBlock_block (run_ok h)
  obtain ⟨i, o⟩ := position
  simp only [EditOp.tracksExact, Document.block, hb]
  obtain ⟨pre, post, rfl, rfl⟩ := exists_mid hb
  simp only [EditOp.apply] at h
  rw [applySplitBlock_mid] at h
  cases h
  cases hinl : b.isInlineBlock with
  | true =>
    obtain ⟨rs, hruns⟩ := exists_runs hinl
    obtain ⟨hleft, hright⟩ := chars_splitRunsAtOffset id rs o
    simp only [Bool.true_or, iff_true, splitBlockAt, hruns]
    refine tracks_split ?_ ?_
    · intro u hu huo
      rw [charLen_of_runs_eq hruns] at hu
      rw [charLen_setRuns hinl, hleft, length_take]
      omega
    · intro u hu hou
      rw [charLen_of_runs_eq hruns] at hu
      rw [charLen_setRuns hinl, hright, length_drop]
      omega
  | false =>
    have hlen := atomic_charLen hinl
    simp only [Bool.false_or, decide_eq_true_eq, splitBlockAt, runs_eq_none hinl]
    constructor
    · intro htracks
      by_contra hzero
      obtain rfl : o = 0 := by omega
      have hvalid := htracks.valid ⟨pre.length, 1⟩
        (valid_mid.2 (.inr (.inl ⟨rfl, Nat.le_of_eq hlen.symm⟩)))
      rw [PosMap.map_structural] at hvalid
      simp [PosMap.mapStructural, isValidPosition_iff, Block.charLen, Block.emptyParagraph, Block.runs,
        Block.runsLen, StyledRun.charLen, StyledRun.plain, textLen] at hvalid
    · intro hpos
      exact tracks_split (fun u hu _ => hu) (fun u hu hou => by omega)

theorem tracks_mergeBlocks {blockIndex off : Nat} {saved : Block}
    (hplaced : (EditOp.mergeBlocks blockIndex saved off).Placed d)
    (h : EditOp.apply (.mergeBlocks blockIndex saved off) d = .ok (d', pm)) :
    pm.Tracks (.mergeBlocks blockIndex saved off) d d' := by
  obtain ⟨i, a, b, rfl, ha, hb, hia, hib⟩ := hplaced
  obtain ⟨pre, mid, post, rfl, rfl, hmid⟩ := exists_mid_two ha hb (Nat.lt_succ_self i)
  obtain rfl : mid = [] := length_eq_zero_iff.1 (by omega)
  obtain ⟨pm', heq, -, rfl⟩ := applyMergeBlocks_mid pre post a b
  simp only [EditOp.apply, nil_append] at h
  rw [heq] at h
  cases h
  obtain ⟨ra, hra⟩ := exists_runs hia
  obtain ⟨rb, hrb⟩ := exists_runs hib
  refine tracks_merge (Nat.le_of_eq ?_)
  have hc : (mergeTwoBlocks a b).runs = some (ensureRun (ra ++ rb)) := by
    simp only [mergeTwoBlocks, hra, hrb]
    cases a <;> rfl
  rw [charLen_of_runs_eq hra, charLen_of_runs_eq hrb, charLen_of_runs_eq hc, chars_ensureRun,
    chars_append, length_append]

theorem charLen_toggledBlock (start stop : DocPosition) (shouldRemove : Bool) (styleBit : InlineStyle)
    (bi : Nat) (b : Block) : (toggledBlock start stop shouldRemove styleBit bi b).charLen = b.charLen := by
  rw [← len_flatBlock id, ← len_flatBlock id, flatBlock_id_toggledBlock, len_restyled]

theorem tracks_toggleInlineStyle {styleBit : InlineStyle}
    (h : EditOp.apply (.toggleInlineStyle start stop styleBit) d = .ok (d', pm)) :
    pm.Tracks (.toggleInlineStyle start stop styleBit) d d' := by
  simp only [EditOp.apply] at h
  by_cases hlt : start < stop
  · obtain ⟨e, heq, hblocks⟩ := applyToggleInlineStyle_eq hlt styleBit d
    rw [heq] at h
    cases h
    refine tracks_plain ?_ fun _ hp => hp
    intro p hp
    obtain ⟨b, hb, ho⟩ := isValidPosition_iff.1 hp
    rw [isValidPosition_iff, hblocks, hb]
    split
    · exact ⟨_, rfl, by rwa [charLen_toggledBlock]⟩
    · exact ⟨b, rfl, ho⟩
  · rw [applyToggleInlineStyle, if_neg hlt] at h
    cases h

/-- A block that becomes a text block keeps its length, unless it was an atom without text to hand
over. -/
theorem charLen_le_convertBlock_iff (hnew : new ≠ .horizontalRule ∧ new ≠ .image ∧ new ≠ .blockQuote) :
    b.charLen ≤ (convertBlock b new).charLen ↔
      (b.isInlineBlock || !runsAreEffectivelyEmpty (conversionRuns b)) = true := by
  have hlen : (convertBlock b new).charLen = (chars id (conversionRuns b)).length := by
    have hruns : (convertBlock b new).runs = some (ensureRun (conversionRuns b)) := by
      cases new with
      | paragraph => rfl
      | heading level => rfl
      | listItem ordered => rfl
      | blockQuote => exact absurd rfl hnew.2.2
      | horizontalRule => exact absurd rfl hnew.1
      | image => exact absurd rfl hnew.2.1
    rw [charLen_of_runs_eq hruns, chars_ensureRun]
  rw [hlen]
  cases hinl : b.isInlineBlock with
  | true =>
    obtain ⟨rs, hruns⟩ := exists_runs hinl
    have hconv : conversionRuns b = rs := by
      cases b <;> simp_all [conversionRuns, Block.isInlineBlock]
    simp [charLen_of_runs_eq hruns, hconv]
  | false =>
    have hempty : runsAreEffectivelyEmpty (conversionRuns b) = true ↔ chars id (conversionRuns b) = [] :=
      (chars_eq_nil_iff id _).symm
    rw [atomic_charLen hinl, Bool.false_or, Bool.not_eq_true', ← Bool.not_eq_true, hempty,
      ← ne_eq, ← length_pos_iff]
    rfl

theorem tracks_setBlockType_iff {blockIndex : Nat} {old : BlockKind}
    (hplaced : (EditOp.setBlockType blockIndex old new).Placed d)
    (h : EditOp.apply (.setBlockType blockIndex old new) d = .ok (d', pm)) :
    pm.Tracks (.setBlockType blockIndex old new) d d' ↔
      EditOp.tracksExact d (.setBlockType blockIndex old new) = true := by
  cases hb : d.blocks[blockIndex]? with
  | none =>
    simp [EditOp.apply, applySetBlockType, Document.expectBlock, Document.block, hb] at h
  | some b =>
    simp only [EditOp.tracksExact, Document.block, hb]
    obtain ⟨pre, post, rfl, rfl⟩ := exists_mid hb
    simp only [EditOp.apply] at h
    rw [applySetBlockType_mid] at h
    cases h
    have hdel : ∀ p, ¬ EditOp.Deletes (.setBlockType pre.length old new) p := fun _ hp => hp
    rw [tracks_replaced_iff hdel]
    exact charLen_le_convertBlock_iff hplaced

theorem tracks_insertBlock (h : EditOp.apply (.insertBlock index b) d = .ok (d', pm)) :
    pm.Tracks (.insertBlock index b) d d' := by
  have hle := (run_insertBlock_isOk_iff d index b).1 ⟨d', run_ok h⟩
  obtain ⟨blocks⟩ := d
  have hsplit : blocks = blocks.take index ++ blocks.drop index := (take_append_drop _ _).symm
  have hlen : (blocks.take index).length = index := length_take_of_le hle
  have heq := applyInsertBlock_mid (blocks.take index) (blocks.drop index) b
  have htracks := tracks_insert (blocks.take index) (blocks.drop index) b
  rw [← hsplit, hlen] at heq htracks
  simp only [EditOp.apply] at h
  rw [heq] at h
  cases h
  exact htracks

theorem tracks_removeBlock_iff {saved : Block} (hplaced : (EditOp.removeBlock index saved).Placed d)
    (h : EditOp.apply (.removeBlock index saved) d = .ok (d', pm)) :
    pm.Tracks (.removeBlock index saved) d d' ↔ EditOp.tracksExact d (.removeBlock index saved) = true := by
  obtain ⟨hlt, hlen⟩ := hplaced
  obtain ⟨b, hb⟩ : ∃ b, d.blocks[index]? = some b := ⟨_, getElem?_eq_getElem hlt⟩
  obtain ⟨pre, post, rfl, rfl⟩ := exists_mid hb
  have hne : pre ++ post ≠ [] := by
    intro hnil
    have := congrArg List.length hnil
    simp only [length_append, length_cons, length_nil] at this hlen
    omega
  simp only [EditOp.apply] at h
  rw [applyRemoveBlock_mid _ hne] at h
  cases h
  have hinside : ∀ p, EditOp.Deletes (.removeBlock pre.length saved) p → p.blockIndex = pre.length :=
    fun _ hp => hp
  rw [tracks_remove_iff (fun _ => rfl) (fun hnil => by rw [hnil, append_nil]) rfl hinside]
  simp [EditOp.tracksExact, Document.blockCount, length_pos_iff]

theorem tracks_replaceBlock_iff {old new : Block}
    (h : EditOp.apply (.replaceBlock index old new) d = .ok (d', pm)) :
    pm.Tracks (.replaceBlock index old new) d d' ↔
      EditOp.tracksExact d (.replaceBlock index old new) = true := by
  cases hb : d.blocks[index]? with
  | none =>
    simp [EditOp.apply, applyReplaceBlock, Document.expectBlock, Document.block, hb] at h
  | some b =>
    simp only [EditOp.tracksExact, Document.block, hb, decide_eq_true_eq]
    obtain ⟨pre, post, rfl, rfl⟩ := exists_mid hb
    simp only [EditOp.apply] at h
    rw [applyReplaceBlock_mid] at h
    cases h
    exact tracks_replaced_iff fun _ hp => hp

theorem tracks_iff (hplaced : op.Placed d) (h : op.apply d = .ok (d', pm)) :
    pm.Tracks op d d' ↔ op.tracksExact d = true := by
  cases op with
  | insertText position text => simp [EditOp.tracksExact, tracks_insertText h]
  | deleteRange start stop deleted => exact tracks_deleteRange_iff hplaced h
  | splitBlock position => exact tracks_splitBlock_iff h
  | mergeBlocks blockIndex saved off => simp [EditOp.tracksExact, tracks_mergeBlocks hplaced h]
  | toggleInlineStyle start stop styleBit => simp [EditOp.tracksExact, tracks_toggleInlineStyle h]
  | setBlockType blockIndex old new => exact tracks_setBlockType_iff hplaced h
  | setBlockAttrs blockIndex old new => exact hplaced.elim
  | insertBlock index b => simp [EditOp.tracksExact, tracks_insertBlock h]
  | removeBlock index saved => exact tracks_removeBlock_iff hplaced h
  | replaceBlock index old new => exact tracks_replaceBlock_iff h
  | restoreMergedBlock blockIndex saved off => exact hplaced.elim

/-! ## What the rules emit -/

/-- The operation is placed wherever a batch has brought the document. -/
def EditOp.PlacedAnywhere (op : EditOp) : Prop := ∀ d, op.Placed d

/-- The first operation of a batch is placed in the document, and so are the later ones wherever they
are applied. -/
def BatchPlaced (d : Document) (ops : List EditOp) : Prop :=
  (∀ op ∈ ops.head?, op.Placed d) ∧ ∀ op ∈ ops.tail, op.PlacedAnywhere

theorem BatchPlaced.placed {d1 : Document} {before after : List EditOp} (h : BatchPlaced d ops)
    (hops : ops = before ++ op :: after) (hrun : applyOps before d = .ok d1) : op.Placed d1 := by
  subst hops
  cases before with
  | nil =>
    cases hrun
    exact h.1 op rfl
  | cons first rest => exact h.2 op (by simp) d1

theorem BatchPlaced.of_anywhere (h : ∀ op ∈ ops, op.PlacedAnywhere) : BatchPlaced d ops :=
  ⟨fun op hop => h op (mem_of_mem_head? hop) d, fun op hop => h op (mem_of_mem_tail hop)⟩

theorem BatchPlaced.append {ops' : List EditOp} (h : BatchPlaced d ops)
    (h' : ∀ op ∈ ops', op.PlacedAnywhere) : BatchPlaced d (ops ++ ops') := by
  cases ops with
  | nil => exact .of_anywhere h'
  | cons first rest =>
    refine ⟨h.1, ?_⟩
    intro op hop
    rw [cons_append, tail_cons, mem_append] at hop
    exact hop.elim (h.2 op) (h' op)

theorem BatchPlaced.single (h : op.Placed d) : BatchPlaced d [op] :=
  ⟨by simpa using h, by simp⟩

section Rules

variable {d : Document} {sel : DocSelection}
variable {ops : List EditOp}

theorem buildDeleteSelection_placed (hv : SelectionValid d sel) (hcol : sel.isCollapsed = false) :
    BatchPlaced d (buildDeleteSelection d sel) := by
  rcases buildDeleteSelection_cases d sel with ⟨-, hnil⟩ | ⟨hlt, hone⟩
  · rw [hnil]
    exact .of_anywhere (by simp)
  · rw [hone]
    obtain ⟨hp, hatomic⟩ := postDeletePosition_spec hv hcol
    obtain ⟨sb, hsb, hso⟩ := isValidPosition_iff.1 hp
    obtain ⟨eb, heb, -⟩ := isValidPosition_iff.1 hv.endPos
    exact .single ⟨hlt, sb, eb, hsb, hso, heb, hatomic sb hsb⟩

theorem deletionOps_placed (hv : SelectionValid d sel) (h : DeletionOps d sel ops) : BatchPlaced d ops := by
  cases h with
  | nothing => exact .of_anywhere (by simp)
  | selection hcol => exact buildDeleteSelection_placed hv hcol
  | remove hb hatomic hlen =>
    exact .single ⟨(List.getElem?_eq_some_iff.1 hb).1, hlen hv⟩
  | clear hb => exact .single trivial
  | merge ha hc hia hic => exact .single ⟨_, _, _, rfl, ha, hc, hia, hic⟩
  | @char i o b rs hb hruns ho =>
    refine .single ⟨DocPosition.lt_iff.2 (.inr ⟨rfl, Nat.lt_succ_self o⟩), b, b, hb, Nat.le_of_lt ho, hb, ?_⟩
    intro hatomic
    rw [isInline_of_runs hruns] at hatomic
    cases hatomic

theorem insertOps_placed (target : Document) (p : DocPosition) (style : InlineStyle) (text : Text) :
    ∀ op ∈ insertOps target p style text, op.PlacedAnywhere := by
  intro op hop e
  simp only [insertOps, mem_cons] at hop
  rcases hop with rfl | hop
  · trivial
  split at hop
  · cases hop
  · obtain ⟨bit, -, rfl⟩ := mem_map.1 hop
    trivial

theorem splitOps_placed (b : Block) (p : DocPosition) : ∀ op ∈ splitOps b p, op.PlacedAnywhere := by
  intro op hop e
  have htype : ∀ i old, EditOp.Placed e (.setBlockType i old .paragraph) := fun _ _ =>
    ⟨by simp, by simp, by simp⟩
  unfold splitOps at hop
  split at hop
  · obtain rfl := mem_singleton.1 hop
    trivial
  · split at hop
    · obtain rfl := mem_singleton.1 hop
      exact htype _ _
    · obtain rfl := mem_singleton.1 hop
      trivial
  · split at hop
    · rcases mem_cons.1 hop with rfl | hop
      · trivial
      · obtain rfl := mem_singleton.1 hop
        exact htype _ _
    · obtain rfl := mem_singleton.1 hop
      trivial
  · obtain rfl := mem_singleton.1 hop
    trivial

theorem resolve_placed {action : EditAction} {pending : InlineStyle} (hv : SelectionValid d sel)
    (h : resolve d sel action pending = .ok ops) : BatchPlaced d ops := by
  cases action with
  | insertText text =>
    rcases resolveInsert_cases h with ⟨-, style, rfl⟩ | ⟨hcol, scratch, style, -, rfl⟩
    · exact .of_anywhere (insertOps_placed _ _ _ _)
    · exact (buildDeleteSelection_placed hv hcol).append (insertOps_placed _ _ _ _)
  | deleteBackward =>
    cases h
    exact deletionOps_placed hv resolveDeleteBackward_ops
  | deleteForward =>
    cases h
    exact deletionOps_placed hv resolveDeleteForward_ops
  | deleteSelection =>
    cases h
    exact deletionOps_placed hv resolveDeleteSelection_ops
  | splitBlock =>
    cases h
    unfold resolveSplitBlock
    have hdel : BatchPlaced d (if sel.isCollapsed then [] else buildDeleteSelection d sel) := by
      split
      · exact .of_anywhere (by simp)
      · rename_i hcol
        exact buildDeleteSelection_placed hv (by simpa using hcol)
    simp only
    split
    · exact hdel
    · exact hdel.append (splitOps_placed _ _)
  | toggleInlineStyle style =>
    rcases resolveToggleStyle_cases h with rfl | ⟨-, start, stop, -, rfl⟩ | ⟨-, rfl⟩
    · exact .of_anywhere (by simp)
    · exact .single trivial
    · exact .single trivial
  | setBlockType kind =>
    cases h
    rcases resolveSetBlockType_cases d sel kind with hnil | ⟨b, new, -, -, -, -, h1, h2, h3, hone⟩
    · rw [hnil]
      exact .of_anywhere (by simp)
    · rw [hone]
      exact .single ⟨h1, h2, h3⟩

end Rules

def twoLines : Document :=
  ⟨[.paragraph [.plain ['a', 'b', 'c']], .paragraph [.plain ['d', 'e', 'f']]]⟩

end Ratatoskr.Rte

import Ratatoskr.Rte.Redo
import Mathlib.Data.List.SplitBy

/-!
# Rte.Canonical

`normalize` as a normal form: what it keeps at every depth, what it establishes, and which documents the
fast path may be used on.

* `clusters` : the styled grapheme clusters of a run list, for texts that are read as code points. A
  cluster may reach over the seam of two runs of one formatting, so each stretch of one formatting is
  segmented as a whole.
* `blockAt_normalize` : an inline block keeps its place, its kind and its formatted characters.
* `normalizeBlocks_eq_iff` : the fast path gives the normal form exactly when the blocks it leaves out are
  in normal form.
-/

namespace Ratatoskr.Rte

open List

def stretches (cs : List (Grapheme × Format)) : List (List (Grapheme × Format)) :=
  cs.splitBy fun a b => a.2 == b.2

def stretchClusters (segment : Text → List Text) (g : List (Grapheme × Format)) : List (Text × Format) :=
  match g with
  | [] => []
  | c :: cs => (segment ((c :: cs).map Prod.fst)).map (·, c.2)

/-- The styled clusters of a run list; `segment` is `UnicodeSegmentation::graphemes`. -/
def clusters (segment : Text → List Text) (runs : List StyledRun) : List (Text × Format) :=
  (stretches (chars id runs)).flatMap (stretchClusters segment)

section Clusters

variable {segment : Text → List Text}

theorem clusters_congr {rs ss : List StyledRun} (h : chars id rs = chars id ss) :
    clusters segment rs = clusters segment ss := by
  rw [clusters, clusters, h]

theorem map_fst_of_stretch {c : Grapheme × Format} {cs : List (Grapheme × Format)}
    (h : List.IsChain (fun a b => (a.2 == b.2) = true) (c :: cs)) :
    ((c :: cs).map Prod.fst).map (·, c.2) = c :: cs := by
  induction cs generalizing c with
  | nil => rfl
  | cons d ds ih =>
    obtain ⟨hcd, hrest⟩ := isChain_cons_cons.1 h
    have hcd : c.2 = d.2 := by simpa using hcd
    rw [map_cons, map_cons, hcd, ih hrest, ← hcd]

theorem expand_stretchClusters (hsegment : ∀ t, (segment t).flatten = t) {g : List (Grapheme × Format)}
    (h : List.IsChain (fun a b => (a.2 == b.2) = true) g) :
    Lib.expand (stretchClusters segment g) = g := by
  cases g with
  | nil => rfl
  | cons c cs =>
    have hmap : ∀ ts : List Text, Lib.expand (ts.map (·, c.2)) = ts.flatten.map (·, c.2) := by
      intro ts
      induction ts with
      | nil => rfl
      | cons t ts ih => rw [map_cons, Lib.expand_cons, ih, flatten_cons, map_append]
    rw [stretchClusters, hmap, hsegment]
    exact map_fst_of_stretch h

theorem expand_clusters (hsegment : ∀ t, (segment t).flatten = t) (rs : List StyledRun) :
    Lib.expand (clusters segment rs) = chars id rs := by
  have hflat : ∀ gs : List (List (Grapheme × Format)),
      (∀ g ∈ gs, List.IsChain (fun a b => (a.2 == b.2) = true) g) →
        Lib.expand (gs.flatMap (stretchClusters segment)) = gs.flatten := by
    intro gs hgs
    induction gs with
    | nil => rfl
    | cons g gs ih =>
      rw [flatMap_cons, Lib.expand_append, flatten_cons,
        expand_stretchClusters hsegment (hgs g mem_cons_self), ih (fun x hx => hgs x (mem_cons_of_mem _ hx))]
  rw [clusters, stretches, hflat _ (fun g hg => isChain_of_mem_splitBy hg)]
  exact flatten_splitBy _ _

theorem normalizeRuns_eq_of_clusters (hsegment : ∀ t, (segment t).flatten = t) {rs ss : List StyledRun}
    (h : clusters segment rs = clusters segment ss) : normalizeRuns rs = normalizeRuns ss := by
  have hchars := congrArg Lib.expand h
  rw [expand_clusters hsegment, expand_clusters hsegment] at hchars
  exact normalizeRuns_eq_of_chars hchars

end Clusters

/-- The block at a path: an index into the blocks, then one into each quote on the way. -/
def blockAt : List Block → List Nat → Option Block
  | _, [] => none
  | blocks, [i] => blocks[i]?
  | blocks, i :: j :: path =>
    match blocks[i]? with
    | some (.blockQuote children) => blockAt children (j :: path)
    | _ => none

theorem normalizeChildBlocks_eq_map (bs : List Block) : normalizeChildBlocks bs = bs.map normalizeBlock := by
  induction bs with
  | nil => rfl
  | cons b bs ih => rw [normalizeChildBlocks, ih, map_cons]

theorem normalizeBlock_quote {bs : List Block} (h : bs ≠ []) :
    normalizeBlock (.blockQuote bs) = .blockQuote (bs.map normalizeBlock) := by
  cases bs with
  | nil => exact absurd rfl h
  | cons b bs => rw [normalizeBlock, normalizeChildBlocks_eq_map, map_cons]

theorem blockAt_map {path : List Nat} {blocks : List Block} {b : Block} (h : blockAt blocks path = some b) :
    blockAt (blocks.map normalizeBlock) path = some (normalizeBlock b) := by
  induction path generalizing blocks with
  | nil => cases h
  | cons i path ih =>
    cases path with
    | nil =>
      rw [blockAt] at h ⊢
      rw [getElem?_map, h, Option.map_some]
    | cons j path =>
      cases hi : blocks[i]? with
      | none => simp [blockAt, hi] at h
      | some c =>
        cases c with
        | blockQuote children =>
          simp only [blockAt, hi] at h
          have hne : children ≠ [] := by
            rintro rfl
            cases path <;> simp [blockAt] at h
          rw [blockAt, getElem?_map, hi, Option.map_some, normalizeBlock_quote hne]
          exact ih h
        | _ => simp [blockAt, hi] at h

theorem normalizeBlock_of_runs {b : Block} {runs : List StyledRun} (h : b.runs = some runs) :
    normalizeBlock b = b.setRuns (normalizeRuns runs) := by
  cases b <;> simp_all [Block.runs, Block.setRuns, normalizeBlock]

/-- An inline block keeps its place, its kind and its attributes, and its runs are normalized. -/
theorem blockAt_normalize {d : Document} {path : List Nat} {b : Block} {runs : List StyledRun}
    (h : blockAt d.blocks path = some b) (hruns : b.runs = some runs) :
    blockAt (normalize d).blocks path = some (b.setRuns (normalizeRuns runs)) := by
  have hd : d.blocks ≠ [] := by
    intro hnil
    rw [hnil] at h
    cases path with
    | nil => cases h
    | cons i path => cases path <;> simp [blockAt] at h
  rw [normalize_blocks hd, blockAt_map h, normalizeBlock_of_runs hruns]

/-- The fast path agrees with the full pass exactly when the blocks it leaves out are normalized. -/
theorem normalizeBlocks_eq_iff (d : Document) (dirty : List Nat) : normalizeBlocks d dirty = normalize d ↔
      ∀ i b, d.blocks[i]? = some b → i ∉ dirty → blockNormal plainAnchor b = true := by
  constructor
  · intro h
    refine (normalizeBlocks_normal_iff rfl d dirty).1 ?_
    rw [h]
    exact normalize_normal rfl d
  · intro h
    have hfixed := normalize_eq_self_iff.2 ((normalizeBlocks_normal_iff rfl d dirty).2 h)
    rw [← hfixed]
    by_cases hd : d.blocks = []
    · -- both passes start from the empty paragraph they add
      obtain ⟨blocks⟩ := d
      obtain rfl : blocks = [] := hd
      have hone : flat id (normalizeBlocks ⟨[Block.emptyParagraph]⟩ dirty) =
          flat id ⟨[Block.emptyParagraph]⟩ := flat_normalizeBlocks id (by simp) dirty
      show normalize (normalizeBlocks ⟨[Block.emptyParagraph]⟩ dirty) = normalize ⟨[Block.emptyParagraph]⟩
      exact normalize_eq_of_flat (normalizeBlocks_ne_nil _ _) hone
    · exact normalize_eq_of_flat (normalizeBlocks_ne_nil _ _) (flat_normalizeBlocks id hd dirty)

/-- `normalize` computes a normal form, and the fast path computes the same one. -/
theorem normalize_canonical (d : Document) :
    (∀ path b runs, blockAt d.blocks path = some b → b.runs = some runs →
      ∃ runs', blockAt (normalize d).blocks path = some (b.setRuns runs') ∧
        chars id runs' = chars id runs ∧ ∀ segment, clusters segment runs' = clusters segment runs) ∧
    docNormal plainAnchor (normalize d) = true ∧ normalize (normalize d) = normalize d ∧
    (∀ rs ss : List StyledRun, chars id rs = chars id ss → normalizeRuns rs = normalizeRuns ss) ∧
    (∀ segment, (∀ t, (segment t).flatten = t) → ∀ rs ss : List StyledRun,
      clusters segment rs = clusters segment ss → normalizeRuns rs = normalizeRuns ss) ∧ ∀ dirty : List Nat,
      (∀ i b, d.blocks[i]? = some b → i ∉ dirty → blockNormal plainAnchor b = true) →
        normalizeBlocks d dirty = normalize d := by
  refine ⟨?_, normalize_normal rfl d, normalize_eq_self_iff.2 (normalize_normal rfl d), ?_, ?_, ?_⟩
  · intro path b runs hb hruns
    have hchars := chars_id_normalizeRuns runs
    exact ⟨normalizeRuns runs, blockAt_normalize hb hruns, hchars, fun _ => clusters_congr hchars⟩
  · intro rs ss h
    exact normalizeRuns_eq_of_chars h
  · intro segment hsegment rs ss h
    exact normalizeRuns_eq_of_clusters hsegment h
  · intro dirty h
    exact (normalizeBlocks_eq_iff d dirty).2 h

/-- A quote with a cut-up list item in it, and a paragraph in normal form. -/
def cutUp : Document :=
  ⟨[.blockQuote [.listItem true 1
      [⟨['a'], InlineStyle.bold, none⟩, StyledRun.plain [], ⟨['b'], InlineStyle.bold, none⟩]],
    .paragraph [StyledRun.plain ['c']]]⟩

/-- The list item keeps its place and its characters, and the fast path over the quote alone, named twice
beside an index out of range, is the full pass. -/
theorem cutUp_canonical :
    (∃ runs', blockAt (normalize cutUp).blocks [0, 0] = some (.listItem true 1 runs') ∧
      chars id runs' = [('a', (InlineStyle.bold, none)), ('b', (InlineStyle.bold, none))]) ∧
    normalizeBlocks cutUp [0, 7, 0] = normalize cutUp := by
  obtain ⟨hkeep, -, -, -, -, hfast⟩ := normalize_canonical cutUp
  constructor
  · obtain ⟨runs', hat, hchars, -⟩ := hkeep [0, 0] _ _ rfl rfl
    exact ⟨runs', hat, hchars.trans rfl⟩
  · apply hfast
    intro i b hb hi
    match i, hb with
    | 0, _ => exact absurd (mem_cons_self) hi
    | 1, hb =>
      cases hb
      rfl
    | n + 2, hb => simp [cutUp] at hb

end Ratatoskr.Rte

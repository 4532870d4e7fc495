import Ratatoskr.Rte.Replay

/-!
# Rte.Walk

Histories that undo and redo can walk. What a group guarantees is a relation between what the
document said before it and after it; undo and redo need only that the relation can be followed both
ways, so the argument is made once for every such relation.

* `Walks` : the relation can be followed backwards, and forwards from normalized documents.
* `Walkable` : the groups on both stacks lead from and to what the document says.
* `Walkable.undo_step`, `Walkable.redo_step`, `Walkable.push` : it stays so.
-/

namespace Ratatoskr.Rte

open List
open Lib (Maps Chain)
open EditorState

section Walk

variable {φ : Type} (view : Format → φ)
  (R : List EditOp → List (FlatBlock φ) → List (FlatBlock φ) → Prop) (norm : Document → Prop)

/-- A group related to `F` and `G` takes documents from `G` back to `F`, and normalized ones from
`F` to `G`. -/
structure Walks : Prop where
  nonempty {ops : List EditOp} {F G : List (FlatBlock φ)} : R ops F G → F ≠ []
  back {ops : List EditOp} {F G : List (FlatBlock φ)} :
    R ops F G → Maps (flat view) G (undoOps ops) F
  forth {ops : List EditOp} {F G : List (FlatBlock φ)} : R ops F G →
    ∀ d, norm d → flat view d = F → ∃ d', applyOps ops d = .ok d' ∧ flat view d' = G
  normalized (d : Document) : norm (normalize d)

/-- Undo and redo find documents that say what their groups expect, and redo finds a normalized
one. -/
structure Walkable (s : EditorState) : Prop where
  nonempty : s.document.blocks ≠ []
  undo : ∃ F, Chain (fun g : UndoGroup => R g.ops) s.undoStack.undo F (flat view s.document)
  redo : ∃ G, Chain (fun g : UndoGroup => R g.ops) s.undoStack.redo.reverse
    (flat view s.document) G
  normal : s.undoStack.redo ≠ [] → norm s.document

variable {view R norm} {s s' : EditorState}

theorem Walkable.init (hne : s.document.blocks ≠ []) (hundo : s.undoStack.undo = [])
    (hredo : s.undoStack.redo = []) : Walkable view R norm s :=
  ⟨hne, ⟨_, by rw [hundo]; rfl⟩, ⟨_, by rw [hredo]; rfl⟩, fun h => absurd hredo h⟩

theorem Walkable.of_same (hs : Walkable view R norm s) (hdoc : s'.document = s.document)
    (hundo : s'.undoStack.undo = s.undoStack.undo)
    (hredo : s'.undoStack.redo = s.undoStack.redo) : Walkable view R norm s' := by
  refine ⟨by rw [hdoc]; exact hs.nonempty, ?_, ?_, ?_⟩
  · rw [hdoc, hundo]
    exact hs.undo
  · rw [hdoc, hredo]
    exact hs.redo
  · rw [hdoc, hredo]
    exact hs.normal

theorem Walkable.push {ops : List EditOp} (hs : Walkable view R norm s)
    (hne : s'.document.blocks ≠ []) (hops : ops ≠ [])
    (hundo : s'.undoStack = s.undoStack.push ops s.selection s'.selection)
    (h : R ops (flat view s.document) (flat view s'.document))
    (hmerge : ∀ last F, canMerge last ops s.selection = true →
      R last.ops F (flat view s.document) → R (last.ops ++ ops) F (flat view s'.document)) :
    Walkable view R norm s' := by
  obtain ⟨hredo, -, -⟩ := push_cases s.undoStack s.selection s'.selection hops
  obtain ⟨F, hF⟩ := hs.undo
  obtain ⟨F1, hF1, -⟩ := push_chain s.selection s'.selection hops h hmerge hF
  refine ⟨hne, ⟨F1, by rw [hundo]; exact hF1⟩, ?_, ?_⟩
  · rw [hundo, hredo]
    exact ⟨_, rfl⟩
  · rw [hundo, hredo]
    exact fun h => absurd rfl h

variable (hR : Walks view R norm)

include hR

theorem Walkable.undo_group (hs : Walkable view R norm s) {gs : List UndoGroup} {g : UndoGroup}
    (hgs : s.undoStack.undo = gs ++ [g]) : ∃ d, undoOps g.ops s.document = .ok d ∧
      R g.ops (flat view (normalize d)) (flat view s.document) ∧ Walkable view R norm (s.undone gs g d) := by
  obtain ⟨F, hF⟩ := hs.undo
  rw [hgs, Lib.chain_concat] at hF
  obtain ⟨H, hrest, hgroup⟩ := hF
  obtain ⟨d, hd, hflat⟩ := hR.back hgroup s.document rfl
  have hdne : d.blocks ≠ [] := by
    rw [← flat_ne_nil view, hflat]
    exact hR.nonempty hgroup
  have hflat' : flat view (normalize d) = H := (flat_normalize view hdne).trans hflat
  rw [← hflat'] at hrest hgroup
  refine ⟨d, hd, hgroup, normalize_ne_nil d, ⟨F, hrest⟩, ?_, fun _ => hR.normalized d⟩
  obtain ⟨G, hG⟩ := hs.redo
  refine ⟨G, ?_⟩
  simp only [undone, reverse_append]
  exact ⟨_, hgroup, hG⟩

theorem Walkable.redo_group (hs : Walkable view R norm s) {gs : List UndoGroup} {g : UndoGroup}
    (hgs : s.undoStack.redo = gs ++ [g]) : ∃ d, applyOps g.ops s.document = .ok d ∧
      R g.ops (flat view s.document) (flat view (normalize d)) ∧ Walkable view R norm (s.redone gs g d) := by
  have hne : s.undoStack.redo ≠ [] := by
    rw [hgs]
    simp
  obtain ⟨G, hG⟩ := hs.redo
  rw [hgs, reverse_append, reverse_singleton] at hG
  obtain ⟨H, hgroup, hrest⟩ := hG
  obtain ⟨d, hd, hflat⟩ := hR.forth hgroup s.document (hs.normal hne) rfl
  have hflat' : flat view (normalize d) = H :=
    (flat_normalize view (applyOps_ne_nil hs.nonempty hd)).trans hflat
  rw [← hflat'] at hrest hgroup
  refine ⟨d, hd, hgroup, normalize_ne_nil d, ?_, ⟨G, hrest⟩, fun _ => hR.normalized d⟩
  obtain ⟨F, hF⟩ := hs.undo
  exact ⟨F, Lib.chain_concat.2 ⟨_, hF, hgroup⟩⟩

theorem Walkable.undo_step (hs : Walkable view R norm s) :
    ∃ s', s.undo = .ok s' ∧ Walkable view R norm s' := by
  rcases eq_nil_or_concat' s.undoStack.undo with hnil | ⟨gs, g, hgs⟩
  · exact ⟨s, undo_nil hnil, hs⟩
  · obtain ⟨d, hd, -, hwalk⟩ := hs.undo_group hR hgs
    exact ⟨_, undo_eq hgs hd, hwalk⟩

theorem Walkable.redo_step (hs : Walkable view R norm s) :
    ∃ s', s.redo = .ok s' ∧ Walkable view R norm s' := by
  rcases eq_nil_or_concat' s.undoStack.redo with hnil | ⟨gs, g, hgs⟩
  · exact ⟨s, redo_nil hnil, hs⟩
  · obtain ⟨d, hd, -, hwalk⟩ := hs.redo_group hR hgs
    exact ⟨_, redo_eq hgs hd, hwalk⟩

end Walk

end Ratatoskr.Rte

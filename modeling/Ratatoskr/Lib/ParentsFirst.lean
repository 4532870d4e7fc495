import Mathlib.Data.Fintype.EquivFin
import Mathlib.Data.Fintype.Sets

/-!
# Lib.ParentsFirst

Rows that name a parent by its key, sorted in passes so that parents come first: a pass places each row whose
parent is outside the input or placed already, and the rows it leaves wait for the next.

* `sort_spec` : what comes out is a permutation, parents first.
* `sort_isSome_iff` : something comes out exactly where no row is its own ancestor.
-/

namespace Ratatoskr.Lib.ParentsFirst

open List
open Relation (TransGen)

variable {ρ κ : Type} [DecidableEq κ] (key : ρ → κ) (parent : ρ → Option κ) (inputKeys : List κ)

def ready (placed : List κ) (row : ρ) : Bool := (parent row).all fun p => p ∉ inputKeys || p ∈ placed

/-- One pass: the rows that are placed, and those that wait. -/
def round : List ρ → List κ → List ρ × List ρ
  | [], _ => ([], [])
  | row :: rows, placed =>
    if ready parent inputKeys placed row then
      let (now, later) := round rows (key row :: placed)
      (row :: now, later)
    else
      let (now, later) := round rows placed
      (now, row :: later)

theorem round_perm (rows : List ρ) (placed : List κ) :
    ((round key parent inputKeys rows placed).1 ++ (round key parent inputKeys rows placed).2).Perm rows := by
  induction rows generalizing placed with
  | nil => exact .refl _
  | cons row rows ih =>
    rw [round]
    split
    · exact (ih (key row :: placed)).cons row
    · exact perm_middle.trans ((ih placed).cons row)

def loop (remaining sorted : List ρ) : Option (List ρ) :=
  if remaining = [] then some sorted
  else
    match _hround : round key parent inputKeys remaining (sorted.map key) with
    | ([], _) => none
    | (row :: now, later) => loop later (sorted ++ row :: now)
termination_by remaining.length
decreasing_by
  have hlength := (round_perm key parent inputKeys remaining (sorted.map key)).length_eq
  rw [_hround, length_append, length_cons] at hlength
  dsimp only at hlength
  omega

def sort (rows : List ρ) : Option (List ρ) := loop key parent (rows.map key) rows []

variable {key parent inputKeys} {rows remaining sorted all : List ρ} {placed : List κ}

theorem sort_nil : sort key parent [] = some [] := by
  rw [sort, loop, if_pos rfl]

theorem sort_singleton {row : ρ} (h : parent row = none) : sort key parent [row] = some [row] := by
  have hround : round key parent [key row] [row] [] = ([row], []) := by simp [round, ready, h]
  rw [sort, loop, if_neg (cons_ne_nil _ _)]
  split
  · next heq => cases hround.symm.trans heq
  · next heq =>
    cases hround.symm.trans heq
    rw [loop, if_pos rfl, nil_append]

/-- The parent of every row is outside the input or before it. -/
def Before (key : ρ → κ) (parent : ρ → Option κ) (inputKeys : List κ) (sorted : List ρ) : Prop :=
  ∀ before row after, sorted = before ++ row :: after → ∀ p, parent row = some p → p ∈ inputKeys →
    p ∈ before.map key

theorem ready_iff {row : ρ} :
    ready parent inputKeys placed row = true ↔ ∀ p, parent row = some p → p ∈ inputKeys → p ∈ placed := by
  rw [ready]
  cases parent row with
  | none => simp
  | some p => simp [or_iff_not_imp_left]

omit [DecidableEq κ] in
theorem Before.concat (h : Before key parent inputKeys sorted) {row : ρ}
    (hrow : ∀ p, parent row = some p → p ∈ inputKeys → p ∈ sorted.map key) :
    Before key parent inputKeys (sorted ++ [row]) := by
  intro before row' after heq
  rcases eq_nil_or_concat after with rfl | ⟨after, last, rfl⟩
  · obtain ⟨rfl, hlast⟩ := append_inj' heq rfl
    cases hlast
    exact hrow
  · rw [concat_eq_append, ← cons_append, ← append_assoc] at heq
    exact h before row' after (append_inj' heq rfl).1

theorem Before.round (h : Before key parent inputKeys sorted) (hplaced : ∀ k, k ∈ placed ↔ k ∈ sorted.map key) :
    Before key parent inputKeys (sorted ++ (round key parent inputKeys rows placed).1) := by
  induction rows generalizing sorted placed with
  | nil => rwa [ParentsFirst.round, append_nil]
  | cons row rows ih =>
    rw [ParentsFirst.round]
    split
    · next hready =>
      rw [ready_iff] at hready
      rw [append_cons]
      exact ih (h.concat fun p hp hin => (hplaced p).mp (hready p hp hin)) (by simp [hplaced, or_comm])
    · exact ih h hplaced

/-- A pass that places nothing finds no row ready. -/
theorem waiting_of_round (h : (round key parent inputKeys rows placed).1 = []) :
    ∀ row ∈ rows, ¬ ready parent inputKeys placed row = true := by
  induction rows with
  | nil => exact fun row hrow => absurd hrow not_mem_nil
  | cons row rows ih =>
    rw [round] at h
    split at h
    · cases h
    · next hnot => exact forall_mem_cons.mpr ⟨hnot, ih h⟩

theorem loop_spec (h : loop key parent inputKeys remaining sorted = some all)
    (hbefore : Before key parent inputKeys sorted) :
    all.Perm (sorted ++ remaining) ∧ Before key parent inputKeys all := by
  fun_induction loop key parent inputKeys remaining sorted with
  | case1 sorted =>
    cases h
    exact ⟨by rw [append_nil], hbefore⟩
  | case2 => cases h
  | case3 remaining sorted _ row now later hround ih =>
    have hnext := @Before.round _ _ _ key parent inputKeys remaining sorted _ hbefore fun _ => .rfl
    have hperm := round_perm key parent inputKeys remaining (sorted.map key)
    rw [hround] at hnext hperm
    obtain ⟨hall, hlast⟩ := ih h hnext
    refine ⟨hall.trans ?_, hlast⟩
    rw [append_assoc]
    exact hperm.append_left sorted

theorem sort_spec (h : sort key parent rows = some all) :
    all.Perm rows ∧ Before key parent (rows.map key) all :=
  loop_spec h fun before row after heq => by simp at heq

/-- A row of the batch and the key of its parent, where that is in the batch as well. -/
def Edge (key : ρ → κ) (parent : ρ → Option κ) (rows : List ρ) (k p : κ) : Prop :=
  ∃ row ∈ rows, key row = k ∧ parent row = some p ∧ p ∈ rows.map key

theorem irrefl_of_sort (h : sort key parent rows = some all) (hnodup : (rows.map key).Nodup) (k : κ) :
    ¬ TransGen (Edge key parent rows) k k := by
  obtain ⟨hperm, hbefore⟩ := sort_spec h
  have hkeys := (hperm.map key).nodup_iff.mpr hnodup
  have hrank : ∀ a b, Edge key parent rows a b → (all.map key).idxOf b < (all.map key).idxOf a := by
    rintro a b ⟨row, hrow, rfl, hp, hin⟩
    obtain ⟨before, after, rfl⟩ := append_of_mem (hperm.mem_iff.mpr hrow)
    have hb := hbefore before row after rfl b hp hin
    rw [map_append] at hkeys ⊢
    have ha : key row ∉ before.map key := fun hmem =>
      (nodup_append.mp hkeys).2.2 _ hmem _ mem_cons_self rfl
    rw [idxOf_append_of_mem hb, idxOf_append_of_notMem ha]
    exact Nat.lt_of_lt_of_le (idxOf_lt_length_iff.mpr hb) (Nat.le_add_right ..)
  intro hcycle
  have hlt : ∀ {a b}, TransGen (Edge key parent rows) a b → (all.map key).idxOf b < (all.map key).idxOf a := by
    intro a b hab
    induction hab with
    | single hedge => exact hrank _ _ hedge
    | tail _ hedge ih => exact (hrank _ _ hedge).trans ih
  exact Nat.lt_irrefl _ (hlt hcycle)

/-- Rows none of which can be placed wait for one another. -/
theorem exists_cycle (hne : remaining ≠ []) (hnext : ∀ row ∈ remaining, ∃ p, parent row = some p ∧
      p ∈ remaining.map key) : ∃ k, TransGen (Edge key parent remaining) k k := by
  by_contra hnone
  let r : {k // k ∈ remaining.map key} → {k // k ∈ remaining.map key} → Prop :=
    fun p k => TransGen (Edge key parent remaining) k p
  have : Std.Irrefl r := ⟨fun k hk => hnone ⟨k, hk⟩⟩
  obtain ⟨first, hfirst⟩ := exists_mem_of_ne_nil remaining hne
  refine (Finite.wellFounded_of_trans_of_irrefl r).induction (C := fun _ => False)
    ⟨key first, mem_map_of_mem hfirst⟩ fun ⟨k, hk⟩ ih => ?_
  obtain ⟨row, hrow, rfl⟩ := mem_map.mp hk
  obtain ⟨p, hp, hin⟩ := hnext row hrow
  exact ih ⟨p, hin⟩ (.single ⟨row, hrow, rfl, hp, hin⟩)

theorem loop_isSome (hperm : (sorted ++ remaining).Perm rows)
    (hnone : ∀ k, ¬ TransGen (Edge key parent rows) k k) :
    (loop key parent (rows.map key) remaining sorted).isSome = true := by
  fun_induction loop key parent (rows.map key) remaining sorted with
  | case1 => rfl
  | case2 remaining sorted hne waiting hround =>
    have hwait := waiting_of_round (congrArg Prod.fst hround)
    obtain ⟨k, hk⟩ : ∃ k, TransGen (Edge key parent remaining) k k := by
      refine exists_cycle hne fun row hrow => ?_
      have hnot := hwait row hrow
      rw [ready_iff] at hnot
      push Not at hnot
      obtain ⟨p, hp, hin, hplaced⟩ := hnot
      have hmem := (hperm.map key).mem_iff.mpr hin
      rw [map_append, mem_append] at hmem
      exact ⟨p, hp, hmem.resolve_left hplaced⟩
    refine absurd (TransGen.mono ?_ k k hk) (hnone k)
    rintro a b ⟨row, hrow, rfl, hp, hin⟩
    have hsub : ∀ {row}, row ∈ remaining → row ∈ rows := fun h => hperm.mem_iff.mp (mem_append_right _ h)
    obtain ⟨row', hrow', rfl⟩ := mem_map.mp hin
    exact ⟨row, hsub hrow, rfl, hp, mem_map_of_mem (hsub hrow')⟩
  | case3 remaining sorted _ row now later hround ih =>
    have hround' := round_perm key parent (rows.map key) remaining (sorted.map key)
    rw [hround] at hround'
    refine ih (Perm.trans ?_ hperm)
    rw [append_assoc]
    exact hround'.append_left sorted

theorem sort_isSome_iff (hnodup : (rows.map key).Nodup) :
    (∃ all, sort key parent rows = some all) ↔ ∀ k, ¬ TransGen (Edge key parent rows) k k :=
  ⟨fun ⟨_, h⟩ => irrefl_of_sort h hnodup, fun h => Option.isSome_iff_exists.mp (loop_isSome (.refl _) h)⟩

end Ratatoskr.Lib.ParentsFirst

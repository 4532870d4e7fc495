import Mathlib.Data.List.MinMax
import Mathlib.Data.List.Nodup
import Mathlib.Data.List.Sort

/-!
# Lib.Best

The best element of a list under a key (Mathlib's `argmax`, the first of the largest), and lists in which a
key occurs once.

* `argmax_map` : a map that keeps the key takes the best element to the best element.
* `argmax_filter` : a best element that passes a filter is the best of what passes.
* `head_insertionSort` : the first element of a sorted list is before all of them.
* `countP_of_nodup` : what can only hold under one key holds at most once.
-/

namespace Ratatoskr.Lib

open List

variable {α β κ : Type}

section Argmax

variable [LinearOrder κ]

theorem argmax_map {key : β → κ} {key' : α → κ} {f : α → β} (hkey : ∀ a, key (f a) = key' a) (l : List α) :
    (l.map f).argmax key = (l.argmax key').map f := by
  induction l using List.reverseRecOn with
  | nil => rfl
  | append_singleton l a ih =>
    rw [map_append, map_singleton, argmax_concat, argmax_concat, ih]
    cases l.argmax key' with
    | none => rfl
    | some c =>
      simp only [Option.map_some, hkey]
      split
      · rfl
      · rfl

theorem argmax_filter {key : α → κ} {p : α → Bool} {l : List α} {b : α} (h : l.argmax key = some b)
    (hp : p b = true) : (l.filter p).argmax key = some b := by
  induction l using List.reverseRecOn generalizing b with
  | nil => cases h
  | append_singleton l a ih =>
    rw [argmax_concat] at h
    rw [filter_append]
    cases hl : l.argmax key with
    | none =>
      rw [hl] at h
      cases h
      rw [argmax_eq_none.mp hl, filter_nil, filter_cons_of_pos hp]
      rfl
    | some c =>
      rw [hl] at h
      dsimp only at h
      split at h
      · rename_i hlt
        cases h
        rw [filter_cons_of_pos hp, filter_nil, argmax_concat]
        cases hrest : (l.filter p).argmax key with
        | none => rfl
        | some d =>
          have hd := mem_of_mem_filter (argmax_mem hrest)
          exact if_pos (lt_of_le_of_lt (le_of_mem_argmax hd hl) hlt)
      · rename_i hlt
        cases h
        by_cases ha : p a = true
        · rw [filter_cons_of_pos ha, filter_nil, argmax_concat, ih hl hp]
          exact if_neg hlt
        · rw [filter_cons_of_neg ha, filter_nil, append_nil]
          exact ih hl hp

end Argmax

theorem head_insertionSort {r : α → α → Prop} [DecidableRel r] [Std.Total r] [IsTrans α r] {l : List α}
    (hne : l ≠ []) : ∃ a ∈ l, (l.insertionSort r).head? = some a ∧ ∀ b ∈ l, r a b := by
  have hperm := perm_insertionSort r l
  have hpairwise := pairwise_insertionSort r l
  cases hsorted : l.insertionSort r with
  | nil =>
    rw [hsorted] at hperm
    exact absurd (nil_perm.mp hperm) hne
  | cons a rest =>
    rw [hsorted] at hperm hpairwise
    refine ⟨a, hperm.subset (mem_cons_self ..), rfl, fun b hb => ?_⟩
    rcases mem_cons.mp (hperm.mem_iff.mpr hb) with rfl | hrest
    · exact (total_of r b b).elim id id
    · exact rel_of_pairwise_cons hpairwise hrest

theorem countP_of_nodup [DecidableEq κ] {key : α → κ} {p : α → Bool} {k : κ} {l : List α}
    (hnodup : (l.map key).Nodup) (hp : ∀ a, p a = true → key a = k) :
    l.countP p = if ∃ a ∈ l, p a = true then 1 else 0 := by
  induction l with
  | nil => rfl
  | cons a l ih =>
    rw [map_cons, nodup_cons] at hnodup
    rw [countP_cons, ih hnodup.2]
    by_cases ha : p a = true
    · have hrest : ¬∃ b ∈ l, p b = true := by
        rintro ⟨b, hb, hpb⟩
        exact hnodup.1 (mem_map.mpr ⟨b, hb, (hp b hpb).trans (hp a ha).symm⟩)
      rw [if_neg hrest, if_pos ha, if_pos ⟨a, mem_cons_self .., ha⟩]
    · simp [ha]

end Ratatoskr.Lib

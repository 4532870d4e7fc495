import Mathlib.Order.Lattice
import Mathlib.Data.List.Perm.Basic
import Mathlib.Order.Basic

/-!
# Lib.Groups

Values gathered under their keys, the keys in order: an ordered map whose values are lists that entries
are pushed to.

* `ungroup_group` : the groups hold the entries, each as often as it was there.
* `group_ascending` : no key has two groups.
-/

namespace Ratatoskr.Lib

open List

variable {κ α : Type} [LinearOrder κ]

/-- Push `a` to the list under `k`. -/
def push (k : κ) (a : α) : List (κ × List α) → List (κ × List α)
  | [] => [(k, [a])]
  | (k', held) :: rest =>
    if k < k' then (k, [a]) :: (k', held) :: rest
    else if k = k' then (k', held ++ [a]) :: rest
    else (k', held) :: push k a rest

def group (entries : List (κ × α)) : List (κ × List α) :=
  entries.foldl (fun groups e => push e.1 e.2 groups) []

def ungroup (groups : List (κ × List α)) : List (κ × α) :=
  groups.flatMap fun g => g.2.map fun a => (g.1, a)

omit [LinearOrder κ] in
theorem ungroup_cons (g : κ × List α) (groups : List (κ × List α)) :
    ungroup (g :: groups) = g.2.map (fun a => (g.1, a)) ++ ungroup groups := rfl

theorem ungroup_push (k : κ) (a : α) (groups : List (κ × List α)) :
    (ungroup (push k a groups)).Perm ((k, a) :: ungroup groups) := by
  induction groups with
  | nil => exact List.Perm.refl _
  | cons g groups ih =>
    rw [push]
    split
    · exact List.Perm.refl _
    split
    · next heq =>
      subst heq
      rw [ungroup_cons, map_append]
      exact (perm_append_singleton _ _).append_right _
    · exact (ih.append_left _).trans perm_middle

variable {groups : List (κ × List α)}

theorem mem_push_fst {k x : κ} {a : α}
    (h : x ∈ (push k a groups).map Prod.fst) : x = k ∨ x ∈ groups.map Prod.fst := by
  induction groups with
  | nil => exact .inl (mem_singleton.mp h)
  | cons g groups ih =>
    rw [push] at h
    split at h
    · exact (mem_cons.mp h)
    split at h
    · exact .inr h
    · rcases mem_cons.mp h with rfl | hin
      · exact .inr (mem_cons_self ..)
      · exact (ih hin).imp_right (mem_cons_of_mem _)

theorem push_ascending {k : κ} {a : α} (h : (groups.map Prod.fst).Pairwise (· < ·)) :
    ((push k a groups).map Prod.fst).Pairwise (· < ·) := by
  induction groups with
  | nil => exact pairwise_singleton _ _
  | cons g groups ih =>
    obtain ⟨hfirst, hrest⟩ := pairwise_cons.mp h
    rw [push]
    split
    · next hlt =>
      refine pairwise_cons.mpr ⟨fun x hx => ?_, h⟩
      rcases mem_cons.mp hx with rfl | hin
      · exact hlt
      · exact hlt.trans (hfirst x hin)
    · next hge =>
      split
      · exact h
      next hne =>
      refine pairwise_cons.mpr ⟨fun x hx => ?_, ih hrest⟩
      rcases mem_push_fst hx with rfl | hin
      · exact lt_of_le_of_ne (not_lt.mp hge) (Ne.symm hne)
      · exact hfirst x hin

theorem push_nonempty {k : κ} {a : α} (h : ∀ g ∈ groups, g.2 ≠ []) : ∀ g ∈ push k a groups, g.2 ≠ [] := by
  induction groups with
  | nil =>
    intro g hg
    obtain rfl := mem_singleton.mp hg
    exact cons_ne_nil _ _
  | cons first groups ih =>
    obtain ⟨hfirst, hrest⟩ := forall_mem_cons.mp h
    rw [push]
    split
    · exact forall_mem_cons.mpr ⟨cons_ne_nil _ _, h⟩
    · split
      · exact forall_mem_cons.mpr ⟨append_ne_nil_of_right_ne_nil _ (cons_ne_nil _ _), hrest⟩
      · exact forall_mem_cons.mpr ⟨hfirst, ih hrest⟩

theorem ungroup_foldl (entries : List (κ × α)) (groups : List (κ × List α)) :
    (ungroup (entries.foldl (fun groups e => push e.1 e.2 groups) groups)).Perm
      (entries ++ ungroup groups) := by
  induction entries generalizing groups with
  | nil => exact List.Perm.refl _
  | cons e entries ih =>
    exact (ih _).trans (((ungroup_push e.1 e.2 groups).append_left entries).trans perm_middle)

theorem ungroup_group (entries : List (κ × α)) : (ungroup (group entries)).Perm entries := by
  have h := ungroup_foldl entries []
  rwa [show ungroup ([] : List (κ × List α)) = [] from rfl, append_nil] at h

theorem foldl_push_kept {P : List (κ × List α) → Prop} (hpush : ∀ k a groups, P groups → P (push k a groups))
    (entries : List (κ × α)) (h : P groups) :
    P (entries.foldl (fun groups e => push e.1 e.2 groups) groups) := by
  induction entries generalizing groups with
  | nil => exact h
  | cons e entries ih => exact ih (hpush e.1 e.2 groups h)

theorem group_ascending (entries : List (κ × α)) : ((group entries).map Prod.fst).Pairwise (· < ·) :=
  foldl_push_kept (P := fun groups => (groups.map Prod.fst).Pairwise (· < ·))
    (fun _ _ _ h => push_ascending h) entries List.Pairwise.nil

theorem group_keys_nodup (entries : List (κ × α)) : ((group entries).map Prod.fst).Nodup :=
  (group_ascending entries).imp fun h => h.ne

theorem group_nonempty (entries : List (κ × α)) : ∀ g ∈ group entries, g.2 ≠ [] :=
  foldl_push_kept (P := fun groups => ∀ g ∈ groups, g.2 ≠ []) (fun _ _ _ h => push_nonempty h) entries
    fun _ h => absurd h not_mem_nil

end Ratatoskr.Lib

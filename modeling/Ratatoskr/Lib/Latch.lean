import Mathlib.Tactic.Common

/-!
# Lib.Latch

A bit that each round of a list may set or reset, and that keeps its value through the other rounds.
Whether it is set at the end can be read off the rounds: from the last one that sets it, or from which
resets are followed by a set.

* `latched_foldl` : the bit after a run of rounds.
* `latched_iff_followed` : if some round sets it, it is set at the end iff every reset is followed by a
  set.
* `not_latched_iff_followed` : it is not set by the rounds iff every set is followed by a reset.
-/

namespace Ratatoskr.Lib

open List

section Latch

variable {δ σ : Type} {sets resets : δ → Prop}

def Latched (sets resets : δ → Prop) : List δ → Prop
  | [] => False
  | d :: ds => (sets d ∧ ∀ d' ∈ ds, ¬ resets d') ∨ Latched sets resets ds

/-- Every round with `p` has a later one with `q`. -/
def Followed (p q : δ → Prop) : List δ → Prop
  | [] => True
  | d :: ds => (p d → ∃ d' ∈ ds, q d') ∧ Followed p q ds

variable {ds : List δ}

theorem latched_foldl (bit : σ → Prop) {run : σ → δ → σ}
    (hrun : ∀ d ∈ ds, ∀ s, bit (run s d) ↔ sets d ∨ (bit s ∧ ¬ resets d)) (s : σ) :
    bit (ds.foldl run s) ↔ (bit s ∧ ∀ d ∈ ds, ¬ resets d) ∨ Latched sets resets ds := by
  induction ds generalizing s with
  | nil => simp [Latched]
  | cons d ds ih =>
    rw [foldl_cons, ih fun d' hd' => hrun d' (mem_cons_of_mem _ hd'),
      hrun d (mem_cons_self ..), Latched, forall_mem_cons]
    tauto

theorem not_latched_iff_followed (ds : List δ) : ¬ Latched sets resets ds ↔ Followed sets resets ds := by
  induction ds with
  | nil => simp [Latched, Followed]
  | cons d ds ih =>
    rw [Latched, Followed, not_or, ih]
    simp

theorem Latched.exists_sets (h : Latched sets resets ds) : ∃ d ∈ ds, sets d := by
  induction ds with
  | nil => exact h.elim
  | cons d ds ih =>
    rcases h with ⟨hset, -⟩ | hrest
    · exact ⟨d, mem_cons_self .., hset⟩
    · obtain ⟨d', hd', hset⟩ := ih hrest
      exact ⟨d', mem_cons_of_mem _ hd', hset⟩

theorem followed_of_forall_not {p q : δ → Prop} (h : ∀ d ∈ ds, ¬ p d) : Followed p q ds := by
  induction ds with
  | nil => trivial
  | cons d ds ih =>
    exact ⟨fun hp => absurd hp (h d (mem_cons_self ..)),
      ih fun d' hd' => h d' (mem_cons_of_mem _ hd')⟩

theorem Followed.forall_not {p q : δ → Prop} (h : Followed p q ds)
    (hq : ¬ ∃ d ∈ ds, q d) : ∀ d ∈ ds, ¬ p d := by
  induction ds with
  | nil => exact fun d hd => absurd hd not_mem_nil
  | cons d ds ih =>
    have hq' : ¬ ∃ d' ∈ ds, q d' := fun ⟨d', hd', hqd⟩ => hq ⟨d', mem_cons_of_mem _ hd', hqd⟩
    rw [forall_mem_cons]
    exact ⟨fun hp => hq' (h.1 hp), ih h.2 hq'⟩

theorem latched_iff_followed (hexcl : ∀ d, sets d → ¬ resets d) (hsome : ∃ d ∈ ds, sets d) :
    Latched sets resets ds ↔ Followed resets sets ds := by
  induction ds with
  | nil =>
    obtain ⟨d, hd, -⟩ := hsome
    cases hd
  | cons d ds ih =>
    rw [Latched]
    by_cases hrest : ∃ d' ∈ ds, sets d'
    -- a later round sets it: this one does not count
    · rw [ih hrest]
      constructor
      · rintro (⟨-, hnone⟩ | hfol)
        · exact ⟨fun _ => hrest, followed_of_forall_not hnone⟩
        · exact ⟨fun _ => hrest, hfol⟩
      · exact fun hfol => .inr hfol.2
    -- this one is the last to set it
    · have hset : sets d := by
        obtain ⟨d', hd', hset⟩ := hsome
        rcases mem_cons.mp hd' with rfl | hd'
        · exact hset
        · exact absurd ⟨d', hd', hset⟩ hrest
      constructor
      · rintro (⟨-, hnone⟩ | hlatched)
        · exact ⟨fun hreset => absurd hreset (hexcl d hset), followed_of_forall_not hnone⟩
        · exact absurd hlatched.exists_sets hrest
      · exact fun hfol => .inl ⟨hset, hfol.2.forall_not hrest⟩

end Latch

end Ratatoskr.Lib

import Mathlib.Data.List.Perm.Basic
import Mathlib.Data.List.Perm.Subperm
import Mathlib.Data.List.Nodup

/-!
# Lib.Commute

Partial steps `σ → Option (σ × List ρ)` on a state, each with the results it puts out. Two runs agree
when both fail, or both end in related states with the same results in some order. Steps that commute in
this sense may be run in another order.

* `agree_of_perm` : any order, where every two steps commute.
* `agree_move_last` : a step that commutes with all behind it may run last.
* `agree_partition`, `agree_grouped` : steps of one group may run before those of another.
-/

namespace Ratatoskr.Lib

open List

abbrev Step (σ ρ : Type) : Type := σ → Option (σ × List ρ)

section Commute

variable {σ ρ ι κ : Type}
variable {fs gs hs : List (Step σ ρ)} {x y : Option (σ × List ρ)} {f g : Step σ ρ} {s t : σ}
  {l : List ι}

def runSteps : List (Step σ ρ) → Step σ ρ
  | [], s => some (s, [])
  | f :: fs, s =>
    match f s with
    | none => none
    | some (t, results) => (runSteps fs t).map (fun r => (r.1, results ++ r.2))

attribute [local simp] runSteps

theorem runSteps_singleton (f : Step σ ρ) (s : σ) : runSteps [f] s = f s := by
  cases hf : f s with
  | none => simp [hf]
  | some r => simp [hf]

def emit (results : List ρ) : Step σ ρ := fun s => some (s, results)

theorem runSteps_emit (results : List ρ) (fs : List (Step σ ρ)) (s : σ) :
    runSteps (emit results :: fs) s = (runSteps fs s).map (fun r => (r.1, results ++ r.2)) := rfl

theorem runSteps_isSome (hfs : ∀ f ∈ fs, ∀ s, (f s).isSome) (s : σ) : (runSteps fs s).isSome := by
  induction fs generalizing s with
  | nil => rfl
  | cons f fs ih =>
    obtain ⟨r, hr⟩ := Option.isSome_iff_exists.mp (hfs f (mem_cons_self ..) s)
    rw [runSteps, hr]
    simp only [Option.isSome_map]
    exact ih (fun g hg => hfs g (mem_cons_of_mem _ hg)) r.1

theorem runSteps_append (fs gs : List (Step σ ρ)) (s : σ) : runSteps (fs ++ gs) s =
      match runSteps fs s with
      | none => none | some (t, results) => (runSteps gs t).map (fun r => (r.1, results ++ r.2)) := by
  induction fs generalizing s with
  | nil => cases h : runSteps gs s <;> simp [h]
  | cons f fs ih =>
    rw [cons_append, runSteps, runSteps]
    cases hf : f s with
    | none => rfl
    | some r =>
      simp only [ih]
      cases hfs : runSteps fs r.1 with
      | none => rfl
      | some q =>
        simp only [Option.map_some]
        cases hgs : runSteps gs q.1 <;> simp

variable {R : σ → σ → Prop}

/-- Both fail, or both end in related states with the same results in some order. -/
inductive Agree (R : σ → σ → Prop) : Option (σ × List ρ) → Option (σ × List ρ) → Prop
  | fail : Agree R none none
  | done {s t : σ} {q r : List ρ} (hs : R s t) (hr : q.Perm r) : Agree R (some (s, q)) (some (t, r))

def Respects (R : σ → σ → Prop) (f : Step σ ρ) : Prop := ∀ s t, R s t → Agree R (f s) (f t)

def Commutes (R : σ → σ → Prop) (f g : Step σ ρ) : Prop :=
  ∀ s, Agree R (runSteps [f, g] s) (runSteps [g, f] s)

theorem Agree.symm (hR : Equivalence R) (h : Agree R x y) : Agree R y x := by
  cases h with
  | fail => exact .fail
  | done hs hr => exact .done (hR.symm hs) hr.symm

theorem Agree.refl (hR : Equivalence R) (x : Option (σ × List ρ)) : Agree R x x := by
  cases x with
  | none => exact .fail
  | some r => exact .done (hR.refl _) (.refl _)

theorem Agree.trans (hR : Equivalence R) {z : Option (σ × List ρ)} (h : Agree R x y)
    (h' : Agree R y z) : Agree R x z := by
  cases h with
  | fail => exact h'
  | done hs hr =>
    cases h' with
    | done hs' hr' => exact .done (hR.trans hs hs') (hr.trans hr')

theorem Commutes.symm (hR : Equivalence R) (h : Commutes R f g) : Commutes R g f :=
  fun s => (h s).symm hR

theorem Agree.prepend (h : Agree R x y) {q r : List ρ} (hqr : q.Perm r) :
    Agree R (x.map (fun z => (z.1, q ++ z.2))) (y.map (fun z => (z.1, r ++ z.2))) := by
  cases h with
  | fail => exact .fail
  | done hs hr => exact .done hs (hqr.append hr)

/-- A step that puts out one result, against a run that has it in front of its own. -/
theorem agree_emit {s' : σ} {a : ρ} {results : List ρ} (hf : f s = some (s', [a]))
    (h : Agree R (runSteps fs s') (runSteps (emit results :: gs) t)) :
    Agree R (runSteps (f :: fs) s) (runSteps (emit (a :: results) :: gs) t) := by
  have hfront : runSteps (emit (a :: results) :: gs) t =
      (runSteps (emit results :: gs) t).map (fun r => (r.1, [a] ++ r.2)) := by
    rw [runSteps_emit, runSteps_emit, Option.map_map]
    rfl
  rw [runSteps, hf, hfront]
  exact h.prepend (.refl _)

theorem agree_step (hfg : Agree R (f s) (g t))
    (htail : ∀ s t, R s t → Agree R (runSteps fs s) (runSteps gs t)) :
    Agree R (runSteps (f :: fs) s) (runSteps (g :: gs) t) := by
  rw [runSteps, runSteps]
  cases hs : f s with
  | none =>
    rw [hs] at hfg
    cases ht : g t with
    | none => exact .fail
    | some r => rw [ht] at hfg; cases hfg
  | some q =>
    cases ht : g t with
    | none => rw [hs, ht] at hfg; cases hfg
    | some r =>
      rw [hs, ht] at hfg
      cases hfg with
      | done hst hqr => exact (htail _ _ hst).prepend hqr

theorem agree_map {f g : ι → Step σ ρ} (hfg : ∀ i ∈ l, ∀ s t, R s t → Agree R (f i s) (g i t))
    (h : R s t) : Agree R (runSteps (l.map f) s) (runSteps (l.map g) t) := by
  induction l generalizing s t with
  | nil => exact .done h (.refl _)
  | cons i l ih =>
    refine agree_step (hfg i (mem_cons_self ..) s t h) fun s t hst => ?_
    exact ih (fun j hj => hfg j (mem_cons_of_mem _ hj)) hst

theorem agree_runSteps_of_related (hfs : ∀ f ∈ fs, Respects R f) (h : R s t) :
    Agree R (runSteps fs s) (runSteps fs t) := by
  have hmap := agree_map (f := id) (g := id) hfs h
  rwa [map_id] at hmap

theorem Agree.append (hrespects : ∀ h ∈ hs, Respects R h) (h : Agree R (runSteps fs s) (runSteps gs t)) :
    Agree R (runSteps (fs ++ hs) s) (runSteps (gs ++ hs) t) := by
  rw [runSteps_append, runSteps_append]
  cases hx : runSteps fs s with
  | none =>
    rw [hx] at h
    cases hy : runSteps gs t with
    | none => exact .fail
    | some r => rw [hy] at h; cases h
  | some q =>
    cases hy : runSteps gs t with
    | none => rw [hx, hy] at h; cases h
    | some r =>
      rw [hx, hy] at h
      cases h with
      | done hst hqr => exact (agree_runSteps_of_related hrespects hst).prepend hqr

/-- A computation that agrees with a run, and one behind it that agrees with another. -/
theorem Agree.andThen (hR : Equivalence R) {k : Step σ ρ} (hgs : ∀ g ∈ gs, Respects R g)
    (h : Agree R x (runSteps fs s))
    (hk : ∀ t results, x = some (t, results) → Agree R (k t) (runSteps gs t)) :
    Agree R (match x with
      | none => none
      | some (t, results) => (k t).map (fun r => (r.1, results ++ r.2))) (runSteps (fs ++ gs) s) := by
  rw [runSteps_append]
  cases x with
  | none =>
    cases hy : runSteps fs s with
    | none => exact .fail
    | some r => rw [hy] at h; cases h
  | some q =>
    cases hy : runSteps fs s with
    | none => rw [hy] at h; cases h
    | some r =>
      rw [hy] at h
      cases h with
      | done hst hqr =>
        exact ((hk _ _ rfl).trans hR (agree_runSteps_of_related hgs hst)).prepend hqr

theorem agree_cons (h : ∀ t, Agree R (runSteps fs t) (runSteps gs t)) (s : σ) :
    Agree R (runSteps (f :: fs) s) (runSteps (f :: gs) s) := by
  rw [runSteps, runSteps]
  cases hf : f s with
  | none => exact .fail
  | some r => exact (h r.1).prepend (.refl _)

theorem agree_append_left (h : ∀ t, Agree R (runSteps gs t) (runSteps hs t)) (s : σ) :
    Agree R (runSteps (fs ++ gs) s) (runSteps (fs ++ hs) s) := by
  induction fs generalizing s with
  | nil => exact h s
  | cons f fs ih => exact agree_cons ih s

theorem agree_swap (hfs : ∀ h ∈ fs, Respects R h) (hfg : Commutes R f g) (s : σ) :
    Agree R (runSteps (f :: g :: fs) s) (runSteps (g :: f :: fs) s) := by
  have hpair : Agree R (runSteps [f, g] s) (runSteps [g, f] s) := hfg s
  exact hpair.append hfs

theorem agree_move_behind (hR : Equivalence R) (hfs : ∀ h ∈ fs, Respects R h)
    (hgs : ∀ h ∈ gs, Respects R h) (hcomm : ∀ h ∈ fs, Commutes R f h) (s : σ) :
    Agree R (runSteps (f :: (fs ++ gs)) s) (runSteps (fs ++ f :: gs) s) := by
  induction fs generalizing s with
  | nil => exact .refl hR _
  | cons h fs ih =>
    have hrest : ∀ k ∈ fs ++ gs, Respects R k := by
      intro k hk
      rcases mem_append.mp hk with hk | hk
      · exact hfs k (mem_cons_of_mem _ hk)
      · exact hgs k hk
    have hswap := agree_swap hrest (hcomm h (mem_cons_self ..)) s
    refine hswap.trans hR (agree_cons (fun t => ?_) s)
    exact ih (fun k hk => hfs k (mem_cons_of_mem _ hk))
      (fun k hk => hcomm k (mem_cons_of_mem _ hk)) t

theorem agree_move_last (hR : Equivalence R) (hfs : ∀ h ∈ fs, Respects R h)
    (hcomm : ∀ h ∈ fs, Commutes R f h) (s : σ) : Agree R (runSteps (f :: fs) s) (runSteps (fs ++ [f]) s) := by
  have hnil : ∀ h ∈ ([] : List (Step σ ρ)), Respects R h := fun _ h => absurd h not_mem_nil
  have h := agree_move_behind hR hfs hnil hcomm s
  rwa [append_nil] at h

theorem agree_of_perm (hR : Equivalence R) {step : ι → Step σ ρ} {l' : List ι} (hperm : l.Perm l')
    (hrespects : ∀ i ∈ l, Respects R (step i))
    (hcomm : l.Pairwise (fun i j => Commutes R (step i) (step j))) (s : σ) :
    Agree R (runSteps (l.map step) s) (runSteps (l'.map step) s) := by
  induction hperm generalizing s with
  | nil => exact .refl hR _
  | cons i _ ih =>
    exact agree_cons (ih (fun j hj => hrespects j (mem_cons_of_mem _ hj))
      (pairwise_cons.mp hcomm).2) s
  | swap i j l =>
    have hji := (pairwise_cons.mp hcomm).1 i (mem_cons_self ..)
    refine agree_swap ?_ hji s
    intro h hh
    obtain ⟨k, hk, rfl⟩ := mem_map.mp hh
    exact hrespects k (mem_cons_of_mem _ (mem_cons_of_mem _ hk))
  | trans h₁ _ ih₁ ih₂ =>
    have hcomm' := (h₁.pairwise_iff (fun {_ _} h => Commutes.symm hR h)).mp hcomm
    exact (ih₁ hrespects hcomm s).trans hR
      (ih₂ (fun i hi => hrespects i (h₁.mem_iff.mpr hi)) hcomm' s)

theorem agree_partition (hR : Equivalence R) (step : ι → Step σ ρ) (p : ι → Bool)
    (hrespects : ∀ i ∈ l, Respects R (step i))
    (hcomm : ∀ i ∈ l, ∀ j ∈ l, p i = false → p j = true → Commutes R (step i) (step j)) (s : σ) :
    Agree R (runSteps (l.map step) s)
      (runSteps ((l.filter p).map step ++ (l.filter (fun i => !p i)).map step) s) := by
  induction l generalizing s with
  | nil => exact .refl hR _
  | cons i l ih =>
    have htail := ih (fun j hj => hrespects j (mem_cons_of_mem _ hj))
      (fun j hj k hk => hcomm j (mem_cons_of_mem _ hj) k (mem_cons_of_mem _ hk))
    cases hp : p i with
    | true =>
      rw [filter_cons_of_pos hp, filter_cons_of_neg (by simp [hp])]
      exact agree_cons htail s
    | false =>
      rw [filter_cons_of_neg (by simp [hp]), filter_cons_of_pos (by simp [hp])]
      have hmem : ∀ (q : ι → Bool), ∀ h ∈ (l.filter q).map step, Respects R h := by
        intro q h hh
        obtain ⟨k, hk, rfl⟩ := mem_map.mp hh
        exact hrespects k (mem_cons_of_mem _ (mem_of_mem_filter hk))
      refine (agree_cons htail s).trans hR ?_
      refine agree_move_behind hR (hmem p) (hmem _) ?_ s
      intro h hh
      obtain ⟨k, hk, rfl⟩ := mem_map.mp hh
      have hkp := mem_filter.mp hk
      exact hcomm i (mem_cons_self ..) k (mem_cons_of_mem _ hkp.1) hp hkp.2

/-- Steps that commute across groups may run group by group, in any order of the groups. -/
theorem agree_grouped [DecidableEq κ] (hR : Equivalence R) (step : ι → Step σ ρ) (group : ι → κ)
    {keys : List κ} (hkeys : keys.Nodup) (hcover : ∀ i ∈ l, group i ∈ keys)
    (hrespects : ∀ i ∈ l, Respects R (step i))
    (hcomm : ∀ i ∈ l, ∀ j ∈ l, group i ≠ group j → Commutes R (step i) (step j)) (s : σ) :
    Agree R (runSteps (l.map step) s)
      (runSteps ((keys.flatMap (fun k => l.filter (fun i => group i = k))).map step) s) := by
  induction keys generalizing l s with
  | nil =>
    cases l with
    | nil => exact .refl hR _
    | cons i l => exact absurd (hcover i (mem_cons_self ..)) not_mem_nil
  | cons k keys ih =>
    obtain ⟨hk, hnodup⟩ := nodup_cons.mp hkeys
    have hsplit := agree_partition hR step (fun i => decide (group i = k)) hrespects
      (fun i hi j hj hpi hpj => hcomm i hi j hj (by
        simp only [decide_eq_false_iff_not, decide_eq_true_eq] at hpi hpj
        rw [hpj]
        exact hpi)) s
    refine hsplit.trans hR ?_
    rw [flatMap_cons, map_append]
    refine agree_append_left (fun t => ?_) s
    have hrest : keys.flatMap (fun k' => l.filter (fun i => group i = k')) =
        keys.flatMap (fun k' => (l.filter (fun i => !decide (group i = k))).filter
          (fun i => group i = k')) := by
      refine flatMap_congr fun k' hk' => ?_
      rw [filter_filter]
      refine filter_congr fun i _ => ?_
      have hne : k' ≠ k := fun h => hk (h ▸ hk')
      by_cases h : group i = k'
      · simp [h, hne]
      · simp [h]
    rw [hrest]
    refine ih hnodup ?_ ?_ ?_ t
    · intro i hi
      obtain ⟨hi, hne⟩ := mem_filter.mp hi
      have hmem := hcover i hi
      simp only [Bool.not_eq_true', decide_eq_false_iff_not] at hne
      exact (mem_cons.mp hmem).resolve_left hne
    · intro i hi
      exact hrespects i (mem_of_mem_filter hi)
    · intro i hi j hj
      exact hcomm i (mem_of_mem_filter hi) j (mem_of_mem_filter hj)

end Commute

end Ratatoskr.Lib

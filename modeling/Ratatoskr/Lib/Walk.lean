import Mathlib.Data.Finset.Card
import Mathlib.Logic.Relation

/-!
# Lib.Walk

A depth-first walk that enters every node once. The row of a node is another node or a value; the values are
handed to `visit` as they come.

* `walk_spec` : what a call adds to the nodes that were seen before it.
* `walk_reaches` : from a clean start the values are those of the nodes that can be reached.
-/

namespace Ratatoskr.Lib

open List

variable {κ α σ : Type} [DecidableEq κ]

/-- The first argument bounds the depth of the recursion. -/
def walk (rows : κ → List (κ ⊕ α)) (visit : σ → α → σ) : Nat → κ → Finset κ × σ → Option (Finset κ × σ)
  | 0, _, _ => none
  | n + 1, k, st =>
    if k ∈ st.1 then some st
    else (rows k).foldlM (fun st row =>
      match row with
      | .inl next => walk rows visit n next st
      | .inr a => some (st.1, visit st.2 a)) (insert k st.1, st.2)

/-- The nodes `seen'` and the values that come of starting at `start` and taking the values `own`. -/
structure Walked (rows : κ → List (κ ⊕ α)) (start : κ → Prop) (own : α → Prop) (seen seen' : Finset κ)
    (values : List α) : Prop where
  subset : seen ⊆ seen'
  starts : ∀ k, start k → k ∈ seen'
  reached : ∀ x ∈ seen', x ∈ seen ∨ ∃ k, start k ∧ Relation.ReflTransGen (fun x y => .inl y ∈ rows x) k x
  closed : ∀ x ∈ seen', x ∉ seen → ∀ y, .inl y ∈ rows x → y ∈ seen'
  values : ∀ a, a ∈ values ↔ own a ∨ ∃ x ∈ seen', x ∉ seen ∧ .inr a ∈ rows x

variable {rows : κ → List (κ ⊕ α)} {start start' : κ → Prop} {own own' : α → Prop}
  {seen seen₁ seen₂ U : Finset κ} {values values' : List α} {k : κ} {n : Nat}

omit [DecidableEq κ] in
theorem Walked.refl (hstart : ∀ k, start k → k ∈ seen) (hown : ∀ a, a ∈ values ↔ own a) :
    Walked rows start own seen seen values :=
  ⟨Finset.Subset.refl _, hstart, fun _ => .inl, fun _ hx hnot => absurd hx hnot, fun a =>
    (hown a).trans (or_iff_left fun ⟨_, hx, hnot, _⟩ => hnot hx).symm⟩

theorem Walked.trans (h : Walked rows start own seen seen₁ values)
    (h' : Walked rows start' own' seen₁ seen₂ values') :
    Walked rows (fun k => start k ∨ start' k) (fun a => own a ∨ own' a) seen seen₂ (values ++ values') where
  subset := h.subset.trans h'.subset
  starts := fun k hk => hk.elim (fun hk => h'.subset (h.starts k hk)) (h'.starts k)
  reached := by
    intro x hx
    rcases h'.reached x hx with hx | ⟨k, hk, hreach⟩
    · exact (h.reached x hx).imp_right fun ⟨k, hk, hreach⟩ => ⟨k, .inl hk, hreach⟩
    · exact .inr ⟨k, .inr hk, hreach⟩
  closed := by
    intro x hx hnot y hy
    by_cases hmem : x ∈ seen₁
    · exact h'.subset (h.closed x hmem hnot y hy)
    · exact h'.closed x hx hmem y hy
  values := by
    intro a
    rw [mem_append, h.values, h'.values]
    constructor
    · rintro ((hown | ⟨x, hx, hnot, ha⟩) | hown | ⟨x, hx, hnot, ha⟩)
      · exact .inl (.inl hown)
      · exact .inr ⟨x, h'.subset hx, hnot, ha⟩
      · exact .inl (.inr hown)
      · exact .inr ⟨x, hx, fun hseen => hnot (h.subset hseen), ha⟩
    · rintro ((hown | hown) | ⟨x, hx, hnot, ha⟩)
      · exact .inl (.inl hown)
      · exact .inr (.inl hown)
      · by_cases hmem : x ∈ seen₁
        · exact .inl (.inr ⟨x, hmem, hnot, ha⟩)
        · exact .inr (.inr ⟨x, hx, hmem, ha⟩)

/-- The rows of a node make the node. -/
theorem Walked.node (h : Walked rows (fun y => .inl y ∈ rows k) (fun a => .inr a ∈ rows k)
    (insert k seen) seen₁ values)
    (hk : k ∉ seen) : Walked rows (· = k) (fun _ => False) seen seen₁ values where
  subset := (Finset.subset_insert k seen).trans h.subset
  starts := fun _ hx => hx ▸ h.subset (Finset.mem_insert_self k seen)
  reached := by
    intro x hx
    rcases h.reached x hx with hx | ⟨y, hy, hreach⟩
    · rcases Finset.mem_insert.mp hx with rfl | hx
      · exact .inr ⟨x, rfl, .refl⟩
      · exact .inl hx
    · exact .inr ⟨k, rfl, .head hy hreach⟩
  closed := by
    intro x hx hnot y hy
    by_cases hxk : x = k
    · exact h.starts y (hxk ▸ hy)
    · exact h.closed x hx (fun hmem => (Finset.mem_insert.mp hmem).elim hxk hnot) y hy
  values := by
    intro a
    rw [h.values, false_or]
    constructor
    · rintro (ha | ⟨x, hx, hnot, ha⟩)
      · exact ⟨k, h.subset (Finset.mem_insert_self k seen), hk, ha⟩
      · exact ⟨x, hx, fun hmem => hnot (Finset.mem_insert_of_mem hmem), ha⟩
    · rintro ⟨x, hx, hnot, ha⟩
      by_cases hxk : x = k
      · exact .inl (hxk ▸ ha)
      · exact .inr ⟨x, hx, fun hmem => (Finset.mem_insert.mp hmem).elim hxk hnot, ha⟩

/-- Every call enters a node that was not seen, so that as many calls as there are nodes are enough. -/
theorem walk_spec (visit : σ → α → σ) (hU : ∀ x ∈ U, ∀ y, .inl y ∈ rows x → y ∈ U) (hk : k ∈ U)
    (st : Finset κ × σ) (hn : (U \ st.1).card < n) :
    ∃ seen' values, walk rows visit n k st = some (seen', values.foldl visit st.2) ∧
      Walked rows (· = k) (fun _ => False) st.1 seen' values := by
  induction n generalizing k st with
  | zero => exact absurd hn (Nat.not_lt_zero _)
  | succ n ih =>
    obtain ⟨seen, s⟩ := st
    rw [walk]
    by_cases hseen : k ∈ seen
    · exact ⟨seen, [], if_pos hseen, .refl (fun _ hx => hx ▸ hseen) fun _ => iff_of_false not_mem_nil id⟩
    rw [if_neg hseen]
    have hless : (U \ insert k seen).card < n := by
      have hlt : (U \ insert k seen).card < (U \ seen).card := by
        refine Finset.card_lt_card ⟨Finset.sdiff_subset_sdiff (Finset.Subset.refl U)
          (Finset.subset_insert k seen), ?_⟩
        intro hsub
        exact (Finset.mem_sdiff.mp (hsub (Finset.mem_sdiff.mpr ⟨hk, hseen⟩))).2
          (Finset.mem_insert_self k seen)
      exact Nat.lt_of_lt_of_le hlt (Nat.le_of_lt_succ hn)
    have hloop : ∀ (l : List (κ ⊕ α)) (seen : Finset κ) (s : σ), (∀ y, .inl y ∈ l → y ∈ U) →
      (U \ seen).card < n →
        ∃ seen' values, l.foldlM (fun st row =>
            match row with
            | .inl next => walk rows visit n next st
            | .inr a => some (st.1, visit st.2 a)) (seen, s) = some (seen', values.foldl visit s) ∧
          Walked rows (fun y => .inl y ∈ l) (fun a => .inr a ∈ l) seen seen' values := by
      intro l
      induction l with
      | nil =>
        intro seen s _ _
        exact ⟨seen, [], rfl, .refl (fun _ hx => absurd hx not_mem_nil)
          fun _ => iff_of_false not_mem_nil not_mem_nil⟩
      | cons row l hl =>
        intro seen s hrows hcard
        have hrest : ∀ y, .inl y ∈ l → y ∈ U := fun y hy => hrows y (mem_cons_of_mem _ hy)
        cases row with
        | inl next =>
          obtain ⟨seen₁, values₁, hrun₁, h₁⟩ := ih (hrows next mem_cons_self) (seen, s) hcard
          have hcard₁ : (U \ seen₁).card < n := Nat.lt_of_le_of_lt
            (Finset.card_le_card (Finset.sdiff_subset_sdiff (Finset.Subset.refl U) h₁.subset)) hcard
          obtain ⟨seen₂, values₂, hrun₂, h₂⟩ := hl seen₁ (values₁.foldl visit s) hrest hcard₁
          refine ⟨seen₂, values₁ ++ values₂, ?_, by simpa using h₁.trans h₂⟩
          rw [foldlM_cons, foldl_append, ← hrun₂]
          simp only [hrun₁]
          rfl
        | inr a =>
          have h₁ : Walked rows (fun _ => False) (· = a) seen seen [a] := .refl nofun fun _ => mem_singleton
          obtain ⟨seen₂, values₂, hrun₂, h₂⟩ := hl seen (visit s a) hrest hcard
          refine ⟨seen₂, [a] ++ values₂, ?_, by simpa using h₁.trans h₂⟩
          exact hrun₂
    obtain ⟨seen', values, hrun, hwalked⟩ := hloop (rows k) (insert k seen) s (hU k hk) hless
    exact ⟨seen', values, hrun, hwalked.node hseen⟩

/-- From a clean start the values are those of the nodes that can be reached. -/
theorem walk_reaches (visit : σ → α → σ) (hU : ∀ x ∈ U, ∀ y, .inl y ∈ rows x → y ∈ U) (hk : k ∈ U)
    (hn : U.card < n) (s : σ) :
    ∃ (seen' : Finset κ) (values : List α), walk rows visit n k (∅, s) = some (seen', values.foldl visit s) ∧
      ∀ a : α, a ∈ values ↔ ∃ x, Relation.ReflTransGen (fun x y => .inl y ∈ rows x) k x ∧ .inr a ∈ rows x := by
  obtain ⟨seen', values, hrun, h⟩ := walk_spec visit hU hk (∅, s) (by rwa [Finset.sdiff_empty])
  have hall : ∀ x, Relation.ReflTransGen (fun x y => .inl y ∈ rows x) k x → x ∈ seen' := by
    intro x hreach
    induction hreach with
    | refl => exact h.starts k rfl
    | tail _ hstep ih => exact h.closed _ ih (Finset.notMem_empty _) _ hstep
  refine ⟨seen', values, hrun, fun a => ?_⟩
  rw [h.values, false_or]
  constructor
  · rintro ⟨x, hx, -, ha⟩
    rcases h.reached x hx with hempty | ⟨_, rfl, hreach⟩
    · exact absurd hempty (Finset.notMem_empty x)
    · exact ⟨x, hreach, ha⟩
  · rintro ⟨x, hreach, ha⟩
    exact ⟨x, hall x hreach, Finset.notMem_empty x, ha⟩

end Ratatoskr.Lib

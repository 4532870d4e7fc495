import Mathlib.Logic.Relation
import Mathlib.Tactic.Common

/-!
# Lib.Run

Runs of a partial transition function `step : σ → α → Except ε σ`. A run visits the states that
successful steps lead to; `Reaches step ok` only takes steps whose label meets `ok` in the state
before the step. For the functions that cannot fail there are total-correctness triples, stated on a view of
the state: from every state whose view meets `A`, `f` succeeds and the view of its result meets `B`.

* `Reaches.invariant` : a property of the start that every such step keeps holds of every state
  reached.
* `Triple.seq`, `Triple.conseq` : the rules for sequencing and consequence.
* `Maps` : the triple between two exact views.
-/

namespace Ratatoskr.Lib

/-- The first step of a computation that succeeds, and the rest behind it. -/
theorem bind_ok {ε α β : Type} {x : Except ε α} {k : α → Except ε β} {b : β} (h : x >>= k = .ok b) :
    ∃ a, x = .ok a ∧ k a = .ok b :=
  match x, h with
  | .ok a, h => ⟨a, rfl, h⟩

section Run

variable {σ α ε : Type} {step : σ → α → Except ε σ} {ok : σ → α → Prop}

/-- One successful step whose label meets `ok`. -/
def GuardedStep (step : σ → α → Except ε σ) (ok : σ → α → Prop) (s t : σ) : Prop :=
  ∃ a, ok s a ∧ step s a = .ok t

def Reaches (step : σ → α → Except ε σ) (ok : σ → α → Prop) : σ → σ → Prop :=
  Relation.ReflTransGen (GuardedStep step ok)

theorem Reaches.refl (s : σ) : Reaches step ok s s := Relation.ReflTransGen.refl

variable {s t : σ}

theorem Reaches.tail {u : σ} {a : α} (h : Reaches step ok s t) (ha : ok t a)
    (hs : step t a = .ok u) : Reaches step ok s u :=
  Relation.ReflTransGen.tail h ⟨a, ha, hs⟩

theorem Reaches.invariant {I : σ → Prop} (h : Reaches step ok s t) (h0 : I s)
    (hstep : ∀ u a v, I u → ok u a → step u a = .ok v → I v) : I t := by
  induction h with
  | refl => exact h0
  | tail _ hs ih =>
    obtain ⟨a, ha, hv⟩ := hs
    exact hstep _ a _ ih ha hv

variable {acts : List α}

theorem foldlM_cons_eq_ok {a : α} :
    (a :: acts).foldlM step s = .ok t ↔ ∃ u, step s a = .ok u ∧ acts.foldlM step u = .ok t := by
  rw [List.foldlM_cons]
  cases hs : step s a with
  | error e =>
    constructor
    · intro h
      cases h
    · rintro ⟨u, hu, -⟩
      cases hu
  | ok u =>
    constructor
    · intro h
      exact ⟨u, rfl, h⟩
    · rintro ⟨v, hv, h⟩
      cases hv
      exact h

/-- Where steps succeed exactly under `P`, and no step changes `P` of the others, a list is a run exactly
when `P` holds of all its labels. -/
theorem foldlM_isOk_iff {P : σ → α → Prop} (hstep : ∀ s a, (∃ t, step s a = .ok t) ↔ P s a)
    (hkeep : ∀ s a t b, step s a = .ok t → (P t b ↔ P s b)) (acts : List α) (s : σ) :
    (∃ t, acts.foldlM step s = .ok t) ↔ ∀ a ∈ acts, P s a := by
  induction acts generalizing s with
  | nil =>
    constructor
    · intro _ a ha
      cases ha
    · intro _
      exact ⟨s, rfl⟩
  | cons a acts ih =>
    rw [List.forall_mem_cons, ← hstep s a]
    constructor
    · rintro ⟨t, h⟩
      obtain ⟨u, hu, hrest⟩ := foldlM_cons_eq_ok.mp h
      exact ⟨⟨u, hu⟩, fun b hb => (hkeep s a u b hu).mp ((ih u).mp ⟨t, hrest⟩ b hb)⟩
    · rintro ⟨⟨u, hu⟩, hrest⟩
      obtain ⟨t, ht⟩ := (ih u).mpr (fun b hb => (hkeep s a u b hu).mpr (hrest b hb))
      exact ⟨t, foldlM_cons_eq_ok.mpr ⟨u, hu, ht⟩⟩

theorem reaches_foldlM_ok (hok : ∀ a ∈ acts, ∀ u, ok u a)
    (h : acts.foldlM step s = .ok t) : Reaches step ok s t := by
  induction acts generalizing s with
  | nil =>
    cases h
    exact .refl _
  | cons a acts ih =>
    obtain ⟨u, hs, h⟩ := foldlM_cons_eq_ok.mp h
    have hrest := ih (fun b hb => hok b (List.mem_cons_of_mem _ hb)) h
    exact Relation.ReflTransGen.head ⟨a, hok a (List.mem_cons_self ..) s, hs⟩ hrest

theorem reaches_foldlM (h : acts.foldlM step s = .ok t) : Reaches step (fun _ _ => True) s t :=
  reaches_foldlM_ok (fun _ _ _ => trivial) h

theorem reaches_of_checked [∀ u a, Decidable (ok u a)] (refused : ε)
    (h : acts.foldlM (fun u a => if ok u a then step u a else .error refused) s = .ok t) :
    Reaches step ok s t := by
  induction acts generalizing s with
  | nil =>
    cases h
    exact .refl _
  | cons a acts ih =>
    obtain ⟨u, hs, h⟩ := foldlM_cons_eq_ok.mp h
    by_cases ha : ok s a
    · rw [if_pos ha] at hs
      exact Relation.ReflTransGen.head ⟨a, ha, hs⟩ (ih h)
    · rw [if_neg ha] at hs
      cases hs

end Run

section Triple

variable {σ ω ε : Type} {view : σ → ω} {A B C : ω → Prop} {f g : σ → Except ε σ}

/-- From every state whose view meets `A`, `f` succeeds with a view that meets `B`. -/
def Triple (view : σ → ω) (A : ω → Prop) (f : σ → Except ε σ) (B : ω → Prop) : Prop :=
  ∀ s, A (view s) → ∃ s', f s = .ok s' ∧ B (view s')

/-- `f` takes the states with view `F` to states with view `G`. -/
def Maps (view : σ → ω) (F : ω) (f : σ → Except ε σ) (G : ω) : Prop :=
  Triple view (· = F) f (· = G)

theorem Triple.skip : Triple view A (fun s => (.ok s : Except ε σ)) A :=
  fun s h => ⟨s, rfl, h⟩

theorem Triple.seq (h : Triple view A f B) (k : Triple view B g C) :
    Triple view A (fun s => f s >>= g) C := by
  intro s hs
  obtain ⟨t, ht, hB⟩ := h s hs
  obtain ⟨u, hu, hC⟩ := k t hB
  exact ⟨u, by simp [ht, bind, Except.bind, hu], hC⟩

theorem Maps.view_eq {F G : ω} (h : Maps view F f G) {s t : σ} (hs : view s = F)
    (ht : f s = .ok t) : view t = G := by
  obtain ⟨t', ht', hG⟩ := h s hs
  rw [ht] at ht'
  cases ht'
  exact hG

end Triple

end Ratatoskr.Lib

import Mathlib.Data.List.Basic

/-!
# Lib.History

Undo histories over an abstract view `ω` of the state. `R g F G` says that the group `g` leads
from view `F` to view `G` in a way that can be taken back; `Chain R` composes the groups of a
stack, oldest first.

* `Chain.concat` : the newest group of a stack.
* `Chain.drop` : evicting the oldest groups keeps a chain that starts later.
-/

namespace Ratatoskr.Lib

section History

variable {γ ω : Type} {R : γ → ω → ω → Prop}

/-- The groups lead from the first view to the second, oldest group first. -/
def Chain (R : γ → ω → ω → Prop) : List γ → ω → ω → Prop
  | [], F, G => F = G
  | g :: gs, F, G => ∃ H, R g F H ∧ Chain R gs H G

theorem chain_append {gs hs : List γ} {F G : ω} :
    Chain R (gs ++ hs) F G ↔ ∃ H, Chain R gs F H ∧ Chain R hs H G := by
  induction gs generalizing F with
  | nil => simp [Chain]
  | cons g gs ih =>
    simp only [List.cons_append, Chain, ih]
    constructor
    · rintro ⟨H, hg, K, hgs, hhs⟩
      exact ⟨K, ⟨H, hg, hgs⟩, hhs⟩
    · rintro ⟨K, ⟨H, hg, hgs⟩, hhs⟩
      exact ⟨H, hg, K, hgs, hhs⟩

theorem chain_concat {gs : List γ} {g : γ} {F G : ω} :
    Chain R (gs ++ [g]) F G ↔ ∃ H, Chain R gs F H ∧ R g H G := by
  rw [chain_append]
  simp [Chain]

theorem Chain.drop {gs : List γ} {F G : ω} (h : Chain R gs F G) (n : Nat) : ∃ H, Chain R (gs.drop n) H G := by
  rw [← List.take_append_drop n gs, chain_append] at h
  obtain ⟨H, -, hdrop⟩ := h
  exact ⟨H, hdrop⟩

end History

end Ratatoskr.Lib

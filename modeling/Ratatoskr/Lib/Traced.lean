import Mathlib.Data.List.Forall2

/-!
# Lib.Traced

A computation that may stop at a question, beside the one that goes through and notes what it asks. A
program written for any monad runs as both.

* `Follows` : the first stops exactly when one of the noted questions stops it, and else the two results
  are related.
* `Follows.pure`, `Follows.bind`, `Follows.mapM` : programs follow step by step.
-/

namespace Ratatoskr.Lib

open List

structure Traced (τ α : Type) where
  value : α
  asked : List τ

namespace Traced

variable {τ α β : Type}

instance : Monad (Traced τ) where
  pure a := ⟨a, []⟩
  bind x f := ⟨(f x.value).value, x.asked ++ (f x.value).asked⟩

@[simp] theorem value_pure (a : α) : (pure a : Traced τ α).value = a := rfl

@[simp] theorem asked_pure (a : α) : (pure a : Traced τ α).asked = [] := rfl

@[simp] theorem value_bind (x : Traced τ α) (f : α → Traced τ β) : (x >>= f).value = (f x.value).value := rfl

@[simp] theorem asked_bind (x : Traced τ α) (f : α → Traced τ β) :
    (x >>= f).asked = x.asked ++ (f x.value).asked := rfl

instance : LawfulMonad (Traced τ) := LawfulMonad.mk' _
  (fun x => congrArg (Traced.mk x.value) (append_nil _))
  (fun _ _ => rfl)
  (fun _ _ _ => congrArg (Traced.mk _) (append_assoc ..))

end Traced

theorem mapM_isSome {α β : Type} {f : α → Option β} {l : List α} :
    (l.mapM f).isSome = true ↔ ∀ a ∈ l, (f a).isSome = true := by
  induction l with
  | nil => simp
  | cons a l ih =>
    rw [mapM_cons, forall_mem_cons, ← ih]
    cases f a with
    | none => simp
    | some b => cases l.mapM f <;> simp

theorem mapM_eq_some_map {α β γ : Type} {f : α → Option β} {g : α → γ} {k : β → γ}
    (hf : ∀ a b, f a = some b → k b = g a) :
    ∀ {l : List α} {l' : List β}, l.mapM f = some l' → l'.map k = l.map g
  | [], l', h => by
    cases h
    rfl
  | a :: l, l', h => by
    rw [mapM_cons] at h
    cases ha : f a with
    | none =>
      rw [ha] at h
      cases h
    | some b =>
      cases hl : l.mapM f with
      | none =>
        rw [ha, hl] at h
        cases h
      | some bs =>
        rw [ha, hl] at h
        cases h
        rw [map_cons, map_cons, hf a b ha, mapM_eq_some_map hf hl]

variable {τ α β α' β' : Type} {ok : τ → Prop} {R : α → β → Prop} {S : α' → β' → Prop}

def Follows (ok : τ → Prop) (R : α → β → Prop) (x : Option α) (y : Traced τ β) : Prop :=
  ((∀ t ∈ y.asked, ok t) → ∃ a, x = some a ∧ R a y.value) ∧ ((∃ t ∈ y.asked, ¬ok t) → x = none)

namespace Follows

variable {x : Option α} {y : Traced τ β}

theorem isSome_iff (h : Follows ok R x y) : x.isSome = true ↔ ∀ t ∈ y.asked, ok t := by
  constructor
  · intro hsome t ht
    by_contra hbad
    rw [h.2 ⟨t, ht, hbad⟩] at hsome
    cases hsome
  · intro hok
    obtain ⟨a, hx, -⟩ := h.1 hok
    rw [hx]
    rfl

theorem pure {a : α} {b : β} (h : R a b) : Follows ok R (some a) (pure b : Traced τ β) :=
  ⟨fun _ => ⟨a, rfl, h⟩, fun hbad => by
    obtain ⟨t, ht, -⟩ := hbad
    exact absurd ht not_mem_nil⟩

theorem ask {b : β} {t : τ} (hok : ok t → ∃ a, x = some a ∧ R a b) (hbad : ¬ok t → x = none) :
    Follows ok R x ⟨b, [t]⟩ := by
  refine ⟨fun h => hok (h t mem_cons_self), fun h => ?_⟩
  obtain ⟨u, hu, hnot⟩ := h
  rw [mem_singleton.mp hu] at hnot
  exact hbad hnot

theorem bind {f : α → Option α'} {g : β → Traced τ β'} (h : Follows ok R x y)
    (hstep : ∀ a, R a y.value → Follows ok S (f a) (g y.value)) : Follows ok S (x >>= f) (y >>= g) := by
  by_cases hy : ∀ t ∈ y.asked, ok t
  · obtain ⟨a, rfl, ha⟩ := h.1 hy
    have hnext := hstep a ha
    constructor
    · intro hall
      exact hnext.1 fun t ht => hall t (mem_append_right _ ht)
    · rintro ⟨t, ht, hbad⟩
      rcases mem_append.mp ht with ht | ht
      · exact absurd (hy t ht) hbad
      · exact hnext.2 ⟨t, ht, hbad⟩
  · have hstop : ∃ t ∈ y.asked, ¬ok t := by
      by_contra hnone
      exact hy fun t ht => by_contra fun hbad => hnone ⟨t, ht, hbad⟩
    rw [h.2 hstop]
    exact ⟨fun hall => absurd (fun t ht => hall t (mem_append_left _ ht)) hy, fun _ => rfl⟩

theorem mapM {γ : Type} {f : γ → Option α} {g : γ → Traced τ β} (h : ∀ c, Follows ok R (f c) (g c))
    (l : List γ) : Follows ok (List.Forall₂ R) (l.mapM f) (l.mapM g) := by
  induction l with
  | nil => exact pure .nil
  | cons c l ih =>
    rw [mapM_cons, mapM_cons]
    exact (h c).bind fun a ha => ih.bind fun as has => pure (.cons ha has)

theorem foldlM {γ : Type} {f : α → γ → Option α} {g : β → γ → Traced τ β}
    (h : ∀ a b c, R a b → Follows ok R (f a c) (g b c)) (l : List γ) {a : α} {b : β} (hab : R a b) :
    Follows ok R (l.foldlM f a) (l.foldlM g b) := by
  induction l generalizing a b with
  | nil => exact pure hab
  | cons c l ih =>
    exact (h a b c hab).bind fun a' ha' => ih ha'

end Follows

end Ratatoskr.Lib

import Mathlib.Data.List.Chain

/-!
# Lib.RunLength

Run lists over an alphabet `α` with labels in `φ`: a text is stored as runs of equally labelled
elements, and `expand` is the labelled text it stands for.

* `Canonical` : no run is empty and adjacent runs have different labels.
* `Canonical.ext` : a canonical run list is determined by its expansion.
* `coalesce` : the merging pass; it keeps the expansion and its result is canonical.
-/

namespace Ratatoskr.Lib

section RunLength

variable {α φ : Type}

def expand (runs : List (List α × φ)) : List (α × φ) :=
  runs.flatMap fun r => r.1.map (·, r.2)

@[simp] theorem expand_nil : expand ([] : List (List α × φ)) = [] := rfl

@[simp] theorem expand_cons (r : List α × φ) (rs : List (List α × φ)) :
    expand (r :: rs) = r.1.map (·, r.2) ++ expand rs := by
  simp [expand]

@[simp] theorem expand_append (rs ss : List (List α × φ)) : expand (rs ++ ss) = expand rs ++ expand ss := by
  simp [expand]

theorem expand_filter (rs : List (List α × φ)) : expand (rs.filter (!·.1.isEmpty)) = expand rs := by
  induction rs with
  | nil => rfl
  | cons r rs ih =>
    obtain ⟨text, label⟩ := r
    cases text <;> simp [ih]

/-- No run is empty, and adjacent runs have different labels. -/
def Canonical (runs : List (List α × φ)) : Prop :=
  (∀ r ∈ runs, r.1 ≠ []) ∧ List.IsChain (· ≠ ·) (runs.map Prod.snd)

variable {r : List α × φ} {rs : List (List α × φ)}

theorem Canonical.tail (h : Canonical (r :: rs)) : Canonical rs :=
  ⟨fun s hs => h.1 s (List.mem_cons_of_mem _ hs), (List.isChain_cons.1 h.2).2⟩

theorem Canonical.head_label_ne {s : List α × φ} (h : Canonical (r :: s :: rs)) : r.2 ≠ s.2 :=
  (List.isChain_cons.1 h.2).1 s.2 (by simp)

/-- The expansion of a canonical list does not start with the label of the run before it. -/
theorem Canonical.expand_head (h : Canonical (r :: rs)) : ∀ x ∈ (expand rs).head?, x.2 ≠ r.2 := by
  intro x hx
  cases rs with
  | nil => simp at hx
  | cons s ss =>
    obtain ⟨text, label⟩ := s
    have hne : text ≠ [] := h.1 (text, label) (by simp)
    obtain ⟨c, cs, rfl⟩ := List.exists_cons_of_ne_nil hne
    have hx' : x = (c, label) := by simpa [eq_comm] using hx
    subst hx'
    exact fun heq => h.head_label_ne heq.symm

/-- Two equally labelled runs that start one text, each followed by something else, are equal. -/
theorem run_unique {s t : List α} {a b : φ} {xs ys : List (α × φ)} (hs : s ≠ []) (ht : t ≠ [])
    (hxs : ∀ x ∈ xs.head?, x.2 ≠ a) (hys : ∀ y ∈ ys.head?, y.2 ≠ b)
    (h : s.map (·, a) ++ xs = t.map (·, b) ++ ys) : s = t ∧ a = b ∧ xs = ys := by
  induction s generalizing t with
  | nil => exact absurd rfl hs
  | cons c s ih =>
    obtain ⟨e, t, rfl⟩ := List.exists_cons_of_ne_nil ht
    simp only [List.map_cons, List.cons_append, List.cons.injEq] at h
    obtain ⟨⟨rfl, rfl⟩, h⟩ := h
    cases s with
    | nil =>
      cases t with
      | nil => exact ⟨rfl, rfl, by simpa using h⟩
      | cons e' t =>
        -- the left run stops where the right one goes on
        have : xs = (e', a) :: (t.map (·, a) ++ ys) := by simpa using h
        exact absurd rfl (hxs (e', a) (by simp [this]))
    | cons c' s =>
      cases t with
      | nil =>
        have : ys = (c', a) :: (s.map (·, a) ++ xs) := by simpa using h.symm
        exact absurd rfl (hys (c', a) (by simp [this]))
      | cons e' t =>
        obtain ⟨hst, -, hxy⟩ := ih (by simp) (by simp) h
        exact ⟨by rw [hst], rfl, hxy⟩

theorem expand_eq_nil (h : Canonical rs) (he : expand rs = []) : rs = [] := by
  cases rs with
  | nil => rfl
  | cons r rs =>
    have hne := h.1 r (by simp)
    simp_all

theorem Canonical.ext {ss : List (List α × φ)} (hr : Canonical rs) (hs : Canonical ss)
    (h : expand rs = expand ss) : rs = ss := by
  induction rs generalizing ss with
  | nil => exact (expand_eq_nil hs h.symm).symm
  | cons r rs ih =>
    cases ss with
    | nil => exact expand_eq_nil hr h
    | cons s ss =>
      obtain ⟨h1, h2, h3⟩ := run_unique (hr.1 r (by simp)) (hs.1 s (by simp)) hr.expand_head
        hs.expand_head h
      rw [ih hr.tail hs.tail h3, Prod.ext h1 h2]

variable [DecidableEq φ]

/-- Merge adjacent runs of one label; `last` is the run that is still open. -/
def coalesce : List α × φ → List (List α × φ) → List (List α × φ)
  | last, [] => [last]
  | last, r :: rs =>
    if last.2 = r.2 then coalesce (last.1 ++ r.1, last.2) rs else last :: coalesce r rs

theorem expand_coalesce (last : List α × φ) (rs : List (List α × φ)) :
    expand (coalesce last rs) = expand (last :: rs) := by
  induction rs generalizing last with
  | nil => rfl
  | cons r rs ih =>
    unfold coalesce
    split
    · rename_i h
      simp [ih, h]
    · simp [ih]

theorem coalesce_head_label (last : List α × φ) (rs : List (List α × φ)) :
    ∃ text rest, coalesce last rs = (text, last.2) :: rest := by
  induction rs generalizing last with
  | nil => exact ⟨last.1, [], rfl⟩
  | cons r rs ih =>
    unfold coalesce
    split
    · exact ih (last.1 ++ r.1, last.2)
    · exact ⟨last.1, coalesce r rs, rfl⟩

theorem coalesce_canonical {last : List α × φ}
    (h : ∀ r ∈ last :: rs, r.1 ≠ []) : Canonical (coalesce last rs) := by
  induction rs generalizing last with
  | nil => exact ⟨h, by simp [coalesce]⟩
  | cons r rs ih =>
    unfold coalesce
    split
    · refine ih ?_
      intro s hs
      rcases List.mem_cons.1 hs with rfl | hs
      · have := h last (by simp)
        simp [this]
      · exact h s (by simp [hs])
    · rename_i hne
      have hrest : ∀ s ∈ r :: rs, s.1 ≠ [] := fun s hs => h s (List.mem_cons_of_mem _ hs)
      obtain ⟨hall, hchain⟩ := ih hrest
      obtain ⟨text, rest, heq⟩ := coalesce_head_label r rs
      refine ⟨?_, ?_⟩
      · intro s hs
        rcases List.mem_cons.1 hs with rfl | hs
        · exact h s (by simp)
        · exact hall s hs
      · rw [heq] at hchain ⊢
        exact List.isChain_cons.2 ⟨by simpa using hne, hchain⟩

end RunLength

end Ratatoskr.Lib

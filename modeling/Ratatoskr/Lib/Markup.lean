/-!
# Lib.Markup

Documents of elements and texts, and passes over them. A pass looks at each element alone: it takes it out
with what it contains, takes out the element only, or gives it a new label.

* `rewrite_rewrite` : two passes are one.
* `mem_labels_rewrite` : the labels that a pass leaves are those that it gives to the elements that are
  inside nothing it takes out.
-/

namespace Ratatoskr.Lib

/-- Texts and elements in document order, each with what follows it. -/
inductive Markup (α : Type) where
  | nil
  | text (content : List Char) (rest : Markup α)
  | element (label : α) (content rest : Markup α)
  deriving DecidableEq

inductive Verdict (β : Type) where
  | remove
  | unwrap
  | keep (label : β)

namespace Verdict

variable {β γ : Type}

def andThen (v : Verdict β) (g : β → Verdict γ) : Verdict γ :=
  match v with
  | remove => remove
  | unwrap => unwrap
  | keep b => g b

def removes : Verdict β → Bool
  | remove => true
  | _ => false

@[simp] theorem andThen_keep (b : β) (g : β → Verdict γ) : (keep b).andThen g = g b := rfl

end Verdict

namespace Markup

variable {α β γ : Type}

def append : Markup α → Markup α → Markup α
  | nil, m => m
  | text s rest, m => text s (rest.append m)
  | element a content rest, m => element a content (rest.append m)

def rewrite (f : α → Verdict β) : Markup α → Markup β
  | nil => nil
  | text s rest => text s (rest.rewrite f)
  | element a content rest =>
    match f a with
    | .remove => rest.rewrite f
    | .unwrap => (content.rewrite f).append (rest.rewrite f)
    | .keep b => element b (content.rewrite f) (rest.rewrite f)

def labels : Markup α → List α
  | nil => []
  | text _ rest => rest.labels
  | element a content rest => a :: (content.labels ++ rest.labels)

/-- The labels of the elements that are not hidden and inside no hidden one. -/
def visible (hides : α → Bool) : Markup α → List α
  | nil => []
  | text _ rest => rest.visible hides
  | element a content rest =>
    if hides a then rest.visible hides else a :: (content.visible hides ++ rest.visible hides)

attribute [local simp] append rewrite labels visible

theorem rewrite_append (f : α → Verdict β) (m n : Markup α) :
    (m.append n).rewrite f = (m.rewrite f).append (n.rewrite f) := by
  have happend : ∀ a b c : Markup β, (a.append b).append c = a.append (b.append c) := by
    intro a b c
    induction a with
    | nil => rfl
    | text s rest ih => simp [ih]
    | element x content rest _ ih => simp [ih]
  induction m with
  | nil => rfl
  | text s rest ih => simp [ih]
  | element a content rest _ ih =>
    simp only [append, rewrite, ih]
    cases f a with
    | remove => rfl
    | unwrap => exact (happend _ _ _).symm
    | keep b => rfl

theorem rewrite_rewrite (f : α → Verdict β) (g : β → Verdict γ) (m : Markup α) :
    (m.rewrite f).rewrite g = m.rewrite fun a => (f a).andThen g := by
  induction m with
  | nil => rfl
  | text s rest ih => simp [ih]
  | element a content rest ihc ih =>
    simp only [rewrite]
    cases f a with
    | remove => simp [Verdict.andThen, ih]
    | unwrap => simp [Verdict.andThen, rewrite_append, ihc, ih]
    | keep b => simp [ihc, ih]

theorem rewrite_keep (m : Markup α) : m.rewrite Verdict.keep = m := by
  induction m with
  | nil => rfl
  | text s rest ih => simp [ih]
  | element a content rest ihc ih => simp [ihc, ih]

theorem labels_append (m n : Markup α) : (m.append n).labels = m.labels ++ n.labels := by
  induction m with
  | nil => rfl
  | text s rest ih => simp [ih]
  | element a content rest _ ih => simp [ih]

theorem not_hidden {hides : α → Bool} {m : Markup α} {a : α} (h : a ∈ m.visible hides) : hides a = false := by
  induction m with
  | nil => cases h
  | text s rest ih => exact ih h
  | element b content rest ihc ih =>
    rw [visible] at h
    split at h
    · exact ih h
    rename_i hb
    rcases List.mem_cons.mp h with rfl | h
    · simpa using hb
    · rcases List.mem_append.mp h with h | h
      · exact ihc h
      · exact ih h

theorem mem_labels_rewrite (f : α → Verdict β) (m : Markup α) (b : β) :
    b ∈ (m.rewrite f).labels ↔ ∃ a ∈ m.visible fun a => (f a).removes, f a = .keep b := by
  induction m with
  | nil => simp [visible]
  | text s rest ih => simp [ih]
  | element a content rest ihc ih =>
    have hcases : f a = .remove ∨ f a = .unwrap ∨ ∃ c, f a = .keep c := by
      cases f a with
      | remove => exact .inl rfl
      | unwrap => exact .inr (.inl rfl)
      | keep c => exact .inr (.inr ⟨c, rfl⟩)
    rcases hcases with hf | hf | ⟨c, hf⟩
    · simp [hf, Verdict.removes, ih]
    · simp only [rewrite, visible, hf, Verdict.removes, if_false, labels_append,
        List.mem_append, ihc, ih, List.mem_cons, or_and_right, exists_or, exists_eq_left, reduceCtorEq,
        false_or]
    · simp only [rewrite, visible, hf, Verdict.removes, Bool.false_eq_true, if_false, labels, List.mem_cons,
        List.mem_append, ihc, ih, or_and_right, exists_or, exists_eq_left, Verdict.keep.injEq]
      rw [eq_comm (a := b)]

end Markup

end Ratatoskr.Lib

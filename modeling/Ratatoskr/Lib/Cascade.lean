import Mathlib.Data.Finset.Card
import Mathlib.Data.Finset.Range
import Ratatoskr.Lib.Table

/-!
# Lib.Cascade

A table whose rows may name a parent row (`ON DELETE CASCADE`): with a row goes every row below it.

* `Below` : the rows under a root, itself included; there are no longer chains than there are rows.
* `lookup_deleteCascade`, `lookup_deleteAll` : what a lookup finds after one deletion, and after many.
-/

namespace Ratatoskr.Lib.Cascade

variable {κ α : Type} [DecidableEq κ] (parent : α → Option κ)

def parentOf (t : Table κ α) (k : κ) : Option κ := (t.lookup k).bind parent

def ancestor (t : Table κ α) : Nat → κ → Option κ
  | 0, k => some k
  | n + 1, k => (parentOf parent t k).bind (ancestor t n)

/-- `root` is `k` or one of its ancestors. -/
def Below (t : Table κ α) (root k : κ) : Prop := ∃ n, ancestor parent t n k = some root

def isBelow (t : Table κ α) (root k : κ) : Bool :=
  (List.range (t.keys.length + 1)).any (fun n => ancestor parent t n k = some root)

variable {parent} {t : Table κ α} {root k p : κ}

theorem ancestor_add (m n : Nat) :
    ancestor parent t (m + n) k = (ancestor parent t m k).bind (ancestor parent t n) := by
  induction m generalizing k with
  | zero =>
    rw [Nat.zero_add]
    rfl
  | succ m ih =>
    have hsucc : m + 1 + n = m + n + 1 := by omega
    rw [hsucc, ancestor, ancestor]
    cases parentOf parent t k with
    | none => rfl
    | some p => exact ih

theorem mem_keys_of_ancestor_succ {n : Nat} (h : (ancestor parent t (n + 1) k).isSome) :
    ∃ x ∈ t.keys, ancestor parent t n k = some x := by
  rw [ancestor_add] at h
  cases hx : ancestor parent t n k with
  | none =>
    rw [hx] at h
    cases h
  | some x =>
    refine ⟨x, ?_, rfl⟩
    rw [hx, Option.bind_some, ancestor, parentOf] at h
    cases hrow : t.lookup x with
    | none =>
      rw [hrow] at h
      cases h
    | some row => exact AList.mem_keys.mp (AList.lookup_isSome.mp (by rw [hrow]; rfl))

theorem ancestor_isSome_of_le {m n : Nat} (hle : m ≤ n) (h : (ancestor parent t n k).isSome) :
    (ancestor parent t m k).isSome := by
  obtain ⟨d, rfl⟩ := Nat.exists_eq_add_of_le hle
  rw [ancestor_add] at h
  cases hm : ancestor parent t m k with
  | none =>
    rw [hm] at h
    cases h
  | some x => rfl

/-- A chain longer than the table visits a row twice, and the part between can be left out. -/
theorem exists_shorter {n : Nat} (h : ancestor parent t n k = some root) (hn : t.keys.length < n) :
    ∃ m < n, ancestor parent t m k = some root := by
  have hsome : ∀ i ∈ Finset.range n, ∃ x ∈ t.keys, ancestor parent t i k = some x := by
    intro i hi
    refine mem_keys_of_ancestor_succ (ancestor_isSome_of_le (Finset.mem_range.mp hi) ?_)
    rw [h]
    rfl
  have hmaps : ∀ i ∈ Finset.range n, (ancestor parent t i k).getD root ∈ t.keys.toFinset := by
    intro i hi
    obtain ⟨x, hx, hi⟩ := hsome i hi
    rw [hi, List.mem_toFinset]
    exact hx
  have hcard : t.keys.toFinset.card < (Finset.range n).card := by
    rw [Finset.card_range]
    exact Nat.lt_of_le_of_lt (List.toFinset_card_le _) hn
  obtain ⟨i, hi, j, hj, hne, heq⟩ := Finset.exists_ne_map_eq_of_card_lt_of_maps_to hcard hmaps
  have hcut : ∀ i j, i ∈ Finset.range n → j ∈ Finset.range n → i < j →
      (ancestor parent t i k).getD root = (ancestor parent t j k).getD root →
      ∃ m < n, ancestor parent t m k = some root := by
    intro i j hi hj hlt heq
    obtain ⟨x, -, hx⟩ := hsome i hi
    obtain ⟨y, -, hy⟩ := hsome j hj
    rw [hx, hy, Option.getD_some, Option.getD_some] at heq
    have hj' := Finset.mem_range.mp hj
    have hsplit : n = j + (n - j) := by omega
    refine ⟨i + (n - j), by omega, ?_⟩
    rw [ancestor_add, hx, heq, ← hy, ← ancestor_add, ← hsplit]
    exact h
  rcases Nat.lt_or_gt_of_ne hne with hlt | hlt
  · exact hcut i j hi hj hlt heq
  · exact hcut j i hj hi hlt heq.symm

theorem isBelow_iff : isBelow parent t root k = true ↔ Below parent t root k := by
  rw [isBelow, List.any_eq_true]
  constructor
  · rintro ⟨n, -, hn⟩
    exact ⟨n, of_decide_eq_true hn⟩
  · rintro ⟨n, hn⟩
    induction n using Nat.strong_induction_on with
    | _ n ih =>
      by_cases hlong : t.keys.length < n
      · obtain ⟨m, hlt, hm⟩ := exists_shorter hn hlong
        exact ih m hlt hm
      · exact ⟨n, List.mem_range.mpr (by omega), decide_eq_true hn⟩

theorem Below.refl (t : Table κ α) (k : κ) : Below parent t k k := ⟨0, rfl⟩

theorem Below.child (hp : parentOf parent t k = some p) (h : Below parent t root p) :
    Below parent t root k := by
  obtain ⟨n, hn⟩ := h
  refine ⟨n + 1, ?_⟩
  rw [ancestor, hp]
  exact hn

/-- What holds of the root and passes from parent to child holds of every row below. -/
theorem Below.induct {motive : κ → Prop} (h : Below parent t root k) (hroot : motive root)
    (hchild : ∀ k p, parentOf parent t k = some p → motive p → motive k) : motive k := by
  obtain ⟨n, hn⟩ := h
  induction n generalizing k with
  | zero =>
    cases hn
    exact hroot
  | succ n ih =>
    obtain ⟨p, hp, hn⟩ := Option.bind_eq_some_iff.mp hn
    exact hchild k p hp (ih hn)

variable (parent) in
def deleteCascade (t : Table κ α) (root : κ) : Table κ α := t.restrict (fun k _ => !isBelow parent t root k)

theorem lookup_deleteCascade (t : Table κ α) (root k : κ) :
    (deleteCascade parent t root).lookup k = if isBelow parent t root k then none else t.lookup k := by
  rw [deleteCascade, Table.lookup_restrict]
  cases isBelow parent t root k with
  | true =>
    cases t.lookup k with
    | none => rfl
    | some row => rfl
  | false =>
    cases t.lookup k with
    | none => rfl
    | some row => rfl

theorem parentOf_deleteCascade (h : ¬ Below parent t root k) :
    parentOf parent (deleteCascade parent t root) k = parentOf parent t k := by
  rw [parentOf, lookup_deleteCascade, if_neg (fun hb => h (isBelow_iff.mp hb))]
  rfl

theorem below_deleteCascade_iff {gone : κ} (h : ¬ Below parent t gone k) :
    Below parent (deleteCascade parent t gone) root k ↔ Below parent t root k := by
  constructor
  · rintro ⟨n, hn⟩
    induction n generalizing k with
    | zero => exact ⟨0, hn⟩
    | succ n ih =>
      rw [ancestor, parentOf_deleteCascade h] at hn
      obtain ⟨p, hp, hn⟩ := Option.bind_eq_some_iff.mp hn
      exact (ih (fun hb => h (hb.child hp)) hn).child hp
  · rintro ⟨n, hn⟩
    induction n generalizing k with
    | zero => exact ⟨0, hn⟩
    | succ n ih =>
      obtain ⟨p, hp, hn⟩ := Option.bind_eq_some_iff.mp hn
      rw [← parentOf_deleteCascade h] at hp
      exact (ih (fun hb => h (hb.child (parentOf_deleteCascade h ▸ hp))) hn).child hp

theorem lookup_deleteAll (t : Table κ α) (roots : List κ) (k : κ) :
    (roots.foldl (deleteCascade parent) t).lookup k =
      if roots.any (fun root => isBelow parent t root k) then none else t.lookup k := by
  induction roots generalizing t with
  | nil => rfl
  | cons gone roots ih =>
    rw [List.foldl_cons, ih, lookup_deleteCascade]
    by_cases hgone : isBelow parent t gone k = true
    · simp [hgone]
    have hsame : ∀ root, isBelow parent (deleteCascade parent t gone) root k = isBelow parent t root k := by
      intro root
      rw [Bool.eq_iff_iff, isBelow_iff, isBelow_iff]
      exact below_deleteCascade_iff (fun hb => hgone (isBelow_iff.mpr hb))
    simp [hgone, hsame]

end Ratatoskr.Lib.Cascade

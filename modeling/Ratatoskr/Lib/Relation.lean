import Mathlib.Data.List.Sort
import Mathlib.Data.List.Dedup

/-!
# Lib.Relation

The operators of a relational query on lists of rows: joins, `GROUP BY`, `COUNT`, `COUNT(DISTINCT ..)`,
`ORDER BY` with `LIMIT` and `OFFSET`.

* `join_filter_fst` : a join that finds at most one partner for a row only filters the rows.
* `map_fst_leftJoin` : a left join that finds at most one partner for a row keeps the rows.
* `groupBy_of_nodup` : grouping by a key that no two rows share changes nothing.
* `lookup_countBy` : the count of a group is the number of rows with its key.
* `countDistinct_eq_length_iff` : distinct values are as many as rows iff no two rows share a value.
-/

namespace Ratatoskr.Lib.Relation

open List

variable {α β κ : Type}

def join (rows : List α) (other : List β) (on : α → β → Bool) : List (α × β) :=
  rows.flatMap fun a => (other.filter (on a)).map fun b => (a, b)

def leftJoin (rows : List α) (other : List β) (on : α → β → Bool) : List (α × Option β) :=
  rows.flatMap fun a =>
    match other.filter (on a) with
    | [] => [(a, none)]
    | b :: bs => (b :: bs).map fun b => (a, some b)

variable {rows : List α} {other : List β} {on : α → β → Bool}

theorem mem_join {a : α} {b : β} : (a, b) ∈ join rows other on ↔ a ∈ rows ∧ b ∈ other ∧ on a b = true := by
  simp only [join, mem_flatMap, mem_map, mem_filter, Prod.mk.injEq]
  constructor
  · rintro ⟨a', ha, b', hb, rfl, rfl⟩
    exact ⟨ha, hb⟩
  · rintro ⟨ha, hb⟩
    exact ⟨a, ha, b, hb, rfl, rfl⟩

/-- The rows of a condition that holds of at most one element are at most one. -/
theorem filter_of_unique {l : List β} (hl : l.Nodup) {p : β → Bool}
    (hunique : ∀ x ∈ l, ∀ y ∈ l, p x = true → p y = true → x = y) :
    l.filter p = [] ∨ ∃ b, l.filter p = [b] := by
  by_cases hsome : ∃ b ∈ l, p b = true
  · obtain ⟨b, hb, hpb⟩ := hsome
    refine .inr ⟨b, perm_singleton.mp ((perm_ext_iff_of_nodup (hl.filter p) (nodup_singleton b)).mpr fun x => ?_)⟩
    rw [mem_filter, mem_singleton]
    exact ⟨fun hx => hunique x hx.1 b hb hx.2 hpb, fun hx => hx ▸ ⟨hb, hpb⟩⟩
  · exact .inl (filter_eq_nil_iff.mpr fun x hx hpx => hsome ⟨x, hx, hpx⟩)

theorem join_filter_fst (hother : other.Nodup) {p : α × β → Bool}
    (hunique : ∀ a, ∀ x ∈ other, ∀ y ∈ other, (on a x && p (a, x)) = true → (on a y && p (a, y)) = true →
      x = y) : ((join rows other on).filter p).map Prod.fst =
      rows.filter (fun a => other.any fun b => on a b && p (a, b)) := by
  induction rows with
  | nil => rfl
  | cons a rows ih =>
    have hhead : (((other.filter (on a)).map fun b => (a, b)).filter p).map Prod.fst =
        (other.filter fun b => on a b && p (a, b)).map fun _ => a := by
      rw [filter_map, map_map, filter_filter]
      simp only [Function.comp_def, Bool.and_comm]
    have hany : (other.any fun b => on a b && p (a, b)) =
        !(other.filter fun b => on a b && p (a, b)).isEmpty := by
      rw [Bool.eq_iff_iff, Bool.not_eq_true']
      simp
    rw [join, flatMap_cons, filter_append, map_append, hhead, filter_cons, hany]
    rw [← join, ih]
    obtain hnone | ⟨b, hone⟩ := filter_of_unique hother (hunique a)
    · rw [hnone]
      rfl
    · rw [hone]
      rfl

theorem map_fst_leftJoin (hother : other.Nodup)
    (hunique : ∀ a, ∀ x ∈ other, ∀ y ∈ other, on a x = true → on a y = true → x = y) :
    (leftJoin rows other on).map Prod.fst = rows := by
  induction rows with
  | nil => rfl
  | cons a rows ih =>
    rw [leftJoin, flatMap_cons, map_append, ← leftJoin, ih]
    obtain hnone | ⟨b, hone⟩ := filter_of_unique hother (hunique a)
    · rw [hnone]
      rfl
    · rw [hone]
      rfl

section Groups

variable [DecidableEq κ] (key : α → κ)

def groupBy : List α → List α
  | [] => []
  | a :: rows => a :: (groupBy rows).filter fun b => key b ≠ key a

/-- `SELECT key, COUNT(*) .. GROUP BY key` -/
def countBy (rows : List α) : List (κ × Nat) :=
  (groupBy key rows).map fun a => (key a, rows.countP fun b => key b = key a)

def countDistinct (rows : List α) : Nat := (rows.map key).dedup.length

variable {key}

theorem groupBy_sublist (rows : List α) : (groupBy key rows).Sublist rows := by
  induction rows with
  | nil => exact List.Sublist.refl []
  | cons a rows ih => exact (List.filter_sublist.trans ih).cons_cons a

theorem nodup_map_groupBy (rows : List α) : ((groupBy key rows).map key).Nodup := by
  induction rows with
  | nil => exact nodup_nil
  | cons a rows ih =>
    rw [groupBy, map_cons, nodup_cons]
    refine ⟨?_, ih.sublist (List.filter_sublist.map key)⟩
    intro h
    obtain ⟨b, hb, heq⟩ := mem_map.mp h
    have hne := (mem_filter.mp hb).2
    simp only [decide_not, Bool.not_eq_true', decide_eq_false_iff_not] at hne
    exact hne heq

theorem exists_mem_groupBy {rows : List α} {a : α} (ha : a ∈ rows) :
    ∃ b ∈ groupBy key rows, key b = key a := by
  induction rows with
  | nil => cases ha
  | cons c rows ih =>
    by_cases hc : key c = key a
    · exact ⟨c, mem_cons_self, hc⟩
    obtain rfl | ha := mem_cons.mp ha
    · exact absurd rfl hc
    obtain ⟨b, hb, hkey⟩ := ih ha
    refine ⟨b, mem_cons_of_mem _ (mem_filter.mpr ⟨hb, ?_⟩), hkey⟩
    have hne : key b ≠ key c := fun h => hc (h.symm.trans hkey)
    simpa using hne

theorem groupBy_of_nodup {rows : List α} (h : (rows.map key).Nodup) : groupBy key rows = rows := by
  induction rows with
  | nil => rfl
  | cons a rows ih =>
    rw [map_cons, nodup_cons] at h
    rw [groupBy, ih h.2, filter_eq_self.mpr]
    intro b hb
    have hne : key b ≠ key a := fun heq => h.1 (heq ▸ mem_map_of_mem hb)
    simpa using hne

/-- The count that a map from keys to counts has for a key; `0` for a key of no row. -/
theorem lookup_countBy (rows : List α) (k : κ) :
    ((countBy key rows).lookup k).getD 0 = rows.countP fun b => key b = k := by
  have hlookup : ∀ l : List α, ((l.map fun a => (key a, rows.countP fun b => key b = key a)).lookup k) =
      if ∃ a ∈ l, key a = k then some (rows.countP fun b => key b = k) else none := by
    intro l
    induction l with
    | nil => simp
    | cons a l ih =>
      rw [map_cons, lookup_cons]
      by_cases ha : k = key a
      · subst ha
        simp
      · have hne : (k == key a) = false := beq_eq_false_iff_ne.mpr ha
        have hne' : ¬ key a = k := fun h => ha h.symm
        rw [hne, ih]
        simp [hne']
  rw [countBy, hlookup]
  split
  · rfl
  rename_i hnone
  refine (countP_eq_zero.mpr ?_).symm
  intro b hb heq
  obtain ⟨c, hc, hkey⟩ : ∃ c ∈ groupBy key rows, key c = key b := exists_mem_groupBy hb
  exact hnone ⟨c, hc, hkey.trans (of_decide_eq_true heq)⟩

theorem countDistinct_eq_length_iff (rows : List α) :
    countDistinct key rows = rows.length ↔ (rows.map key).Nodup := by
  constructor
  · intro h
    have heq : (rows.map key).dedup = rows.map key :=
      (dedup_sublist _).eq_of_length (by rw [length_map]; exact h)
    exact dedup_eq_self.mp heq
  · intro h
    rw [countDistinct, dedup_eq_self.mpr h, length_map]

end Groups

/-! ## Pages -/

/-- `LIMIT limit OFFSET offset`: a negative limit is none, a negative offset is zero. -/
def page (limit offset : Int) (rows : List α) : List α :=
  if limit < 0 then rows.drop offset.toNat else (rows.drop offset.toNat).take limit.toNat

theorem page_all {limit : Int} (h : (rows.length : Int) ≤ limit) : page limit 0 rows = rows := by
  have hlimit : ¬ limit < 0 := by omega
  have hlength : rows.length ≤ limit.toNat := by omega
  rw [page, if_neg hlimit, Int.toNat_zero, drop_zero, take_of_length_le hlength]

theorem page_map {limit offset : Int} (f : α → β) (rows : List α) :
    page limit offset (rows.map f) = (page limit offset rows).map f := by
  rw [page, page]
  split
  · exact map_drop.symm
  · rw [map_take, map_drop]

/-- `ROW_NUMBER() OVER (PARTITION BY key ORDER BY ..) = 1` -/
def firstOf [DecidableEq κ] (key : α → κ) (before : α → α → Bool) (rows : List α) : List α :=
  groupBy key (rows.insertionSort fun a b => before a b = true)

theorem nodup_firstOf [DecidableEq κ] (key : α → κ) (before : α → α → Bool) (rows : List α) :
    ((firstOf key before rows).map key).Nodup :=
  nodup_map_groupBy _

end Ratatoskr.Lib.Relation

import Mathlib.Data.List.AList

/-!
# Lib.Table

A table with a primary key: an association list (`AList`) whose values have one type. Mathlib has
`lookup`, `insert` (an upsert) and `erase`; an `UPDATE` or a `DELETE` over many rows is added here,
with what a lookup finds after it.

* `lookup_update`, `lookup_restrict`, `lookup_foldl_insert` : the bulk statements row by row.
* `mem_rows` : the rows a query yields are the ones a lookup finds.
-/

namespace Ratatoskr.Lib

open List

variable {κ α : Type} [DecidableEq κ]

/-- Rows of type `α` under distinct keys of type `κ`. -/
abbrev Table (κ α : Type) : Type := AList (fun _ : κ => α)

namespace Table

def rows (t : Table κ α) : List (κ × α) := t.entries.map (fun e => (e.1, e.2))

/-- `UPDATE`: every row is rewritten by `f`. -/
def update (f : κ → α → α) (t : Table κ α) : Table κ α where
  entries := t.entries.map (fun e => ⟨e.1, f e.1 e.2⟩)
  nodupKeys := by
    have hkeys : (t.entries.map (fun e => (⟨e.1, f e.1 e.2⟩ : Sigma fun _ : κ => α))).keys =
        t.entries.keys := by
      simp [List.keys, Function.comp_def]
    rw [List.NodupKeys, hkeys]
    exact t.nodupKeys

/-- `DELETE`: only the rows with `p` stay. -/
def restrict (p : κ → α → Bool) (t : Table κ α) : Table κ α where
  entries := t.entries.filter (fun e => p e.1 e.2)
  nodupKeys := t.nodupKeys.sublist filter_sublist

theorem mem_rows {t : Table κ α} {k : κ} {a : α} : (k, a) ∈ t.rows ↔ t.lookup k = some a := by
  rw [← Option.mem_def, AList.mem_lookup_iff, rows, mem_map]
  constructor
  · rintro ⟨e, he, heq⟩
    cases heq
    exact he
  · intro h
    exact ⟨_, h, rfl⟩

omit [DecidableEq κ] in
theorem rows_keys_nodup (t : Table κ α) : (t.rows.map Prod.fst).Nodup := by
  rw [rows, map_map]
  exact t.nodupKeys

@[simp] theorem lookup_update (f : κ → α → α) (t : Table κ α) (k : κ) :
    (t.update f).lookup k = (t.lookup k).map (f k) := by
  refine Option.ext fun a => ?_
  rw [← Option.mem_def, AList.mem_lookup_iff, update, mem_map, Option.map_eq_some_iff]
  constructor
  · rintro ⟨e, he, heq⟩
    cases heq
    exact ⟨e.2, AList.mem_lookup_iff.mpr he, rfl⟩
  · rintro ⟨b, hb, rfl⟩
    exact ⟨⟨k, b⟩, AList.mem_lookup_iff.mp hb, rfl⟩

@[simp] theorem lookup_restrict (p : κ → α → Bool) (t : Table κ α) (k : κ) :
    (t.restrict p).lookup k = (t.lookup k).filter (p k) := by
  refine Option.ext fun a => ?_
  rw [← Option.mem_def, AList.mem_lookup_iff, restrict, mem_filter, Option.filter_eq_some_iff,
    ← Option.mem_def, AList.mem_lookup_iff]

theorem lookup_insert_if (t : Table κ α) (k k' : κ) (a : α) :
    (AList.insert k' a t).lookup k = if k = k' then some a else t.lookup k := by
  split
  · rename_i h
    rw [h, AList.lookup_insert]
  · rename_i h
    exact AList.lookup_insert_ne h

theorem lookup_erase_if (t : Table κ α) (k k' : κ) :
    (t.erase k').lookup k = if k = k' then none else t.lookup k := by
  split
  · rename_i h
    rw [h, AList.lookup_erase]
  · rename_i h
    exact AList.lookup_erase_ne h

/-- Upserts, each of which makes the new row out of the given one and the old: where a given row leaves
nothing of an earlier one behind, the last counts. -/
theorem lookup_foldl_upsert {ρ : Type} (key : ρ → κ) (merge : ρ → Option α → α) (rows : List ρ)
    (habsorb : ∀ r' ∈ rows, ∀ r old, merge r (some (merge r' old)) = merge r old) (t : Table κ α) (k : κ) :
    (rows.foldl (fun t r => AList.insert (key r) (merge r (t.lookup (key r))) t) t).lookup k =
      (((rows.filter (fun r => key r = k)).getLast?).map (merge · (t.lookup k))).or (t.lookup k) := by
  induction rows generalizing t with
  | nil => rfl
  | cons r rows ih =>
    rw [foldl_cons, ih fun r' hr' => habsorb r' (mem_cons_of_mem _ hr'), lookup_insert_if]
    by_cases hr : key r = k
    · rw [if_pos hr.symm, filter_cons_of_pos (by simpa using hr), getLast?_cons, hr]
      cases (rows.filter (fun r => key r = k)).getLast? with
      | none => rfl
      | some last => exact congrArg some (habsorb r mem_cons_self last _)
    · rw [if_neg (fun h => hr h.symm), filter_cons_of_neg (by simpa using hr)]

theorem lookup_foldl_insert {ρ : Type} (key : ρ → κ) (value : ρ → α) (rows : List ρ) (t : Table κ α) (k : κ) :
    (rows.foldl (fun t r => AList.insert (key r) (value r) t) t).lookup k =
      (((rows.filter (fun r => key r = k)).getLast?).map value).or (t.lookup k) :=
  lookup_foldl_upsert key (fun r _ => value r) rows (fun _ _ _ _ => rfl) t k

omit [DecidableEq κ] in
theorem rows_update (f : κ → α → α) (t : Table κ α) :
    (t.update f).rows = t.rows.map (fun r => (r.1, f r.1 r.2)) := by
  simp [rows, update, Function.comp_def]

omit [DecidableEq κ] in
theorem rows_restrict (p : κ → α → Bool) (t : Table κ α) :
    (t.restrict p).rows = t.rows.filter (fun r => p r.1 r.2) := by
  simp [rows, restrict, filter_map, Function.comp_def]

theorem map_kerase {l : List (Sigma fun _ : κ => α)} (h : l.NodupKeys) (k : κ) :
    (l.kerase k).map (fun e => (e.1, e.2)) =
      (l.map (fun e => (e.1, e.2))).filter (fun r => decide (r.1 ≠ k)) := by
  induction l with
  | nil => rfl
  | cons e l ih =>
    obtain ⟨hnot, hrest⟩ := nodupKeys_cons.mp h
    by_cases he : k = e.1
    · subst he
      rw [kerase_cons_eq rfl, map_cons, filter_cons_of_neg (by simp)]
      refine (filter_eq_self.mpr ?_).symm
      intro r hr
      obtain ⟨e', he', rfl⟩ := mem_map.mp hr
      have hne : e'.1 ≠ e.1 := by
        intro heq
        exact hnot (heq ▸ mem_keys_of_mem he')
      simpa using hne
    · have hne : e.1 ≠ k := fun h => he h.symm
      rw [kerase_cons_ne he, map_cons, map_cons, filter_cons_of_pos (by simpa using hne), ih hrest]

theorem rows_erase (t : Table κ α) (k : κ) : rows (t.erase k) = t.rows.filter (fun r => decide (r.1 ≠ k)) :=
  map_kerase t.nodupKeys k

theorem rows_insert (t : Table κ α) (k : κ) (a : α) :
    rows (AList.insert k a t) = (k, a) :: t.rows.filter (fun r => decide (r.1 ≠ k)) := by
  rw [rows, AList.entries_insert, map_cons, map_kerase t.nodupKeys]
  rfl

end Table

end Ratatoskr.Lib

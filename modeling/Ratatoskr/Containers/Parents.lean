import Ratatoskr.Containers.Sync

/-!
# Containers.Parents

Folder batches over any number of accounts (`db/src/db/queries_extra/label_persistence.rs`): the rows of
`folders` have the account in their key and name their parent within the account.
-/

namespace Ratatoskr.Containers

open List
open Lib (Table)
open Relation (TransGen ReflTransGen)

/-- An account, and a row of its folders. -/
abbrev AccountRow := String × FolderWriteRow

abbrev FolderKey := String × FolderId

def AccountRow.key (row : AccountRow) : FolderKey := (row.1, row.2.id)

def AccountRow.parentKey (row : AccountRow) : Option FolderKey := row.2.parentId.map (row.1, ·)

def sortRowsParentFirst : List AccountRow → Except String (List AccountRow) :=
  sortParentFirst AccountRow.key AccountRow.parentKey

/-- `INSERT`, with the check of the foreign key behind it. -/
def insertRow (folders : Table FolderKey FolderRow) (row : AccountRow) : Option (Table FolderKey FolderRow) :=
  let folders := folders.insert row.key row.2.stored
  if row.parentKey.all fun parent => (folders.lookup parent).isSome then some folders else none

inductive OnConflict where
  | doNothing | doUpdate

def OnConflict.write (c : OnConflict) (folders : Table FolderKey FolderRow) (row : AccountRow) :
    Option (Table FolderKey FolderRow) :=
  match c with
  | .doNothing => if (folders.lookup row.key).isSome then some folders else insertRow folders row
  | .doUpdate => insertRow folders row

/-- The statements, and what the table is when one of them fails. -/
def OnConflict.writeAll (c : OnConflict) (failed : String) :
    Table FolderKey FolderRow → List AccountRow → Table FolderKey FolderRow × Except String Unit
  | folders, [] => (folders, .ok ())
  | folders, row :: rows =>
    match c.write folders row with
    | some folders => c.writeAll failed folders rows
    | none => (folders, .error (failed ++ ": FOREIGN KEY constraint failed"))

def OnConflict.writeBatch (c : OnConflict) (failed : String) (folders : Table FolderKey FolderRow)
    (rows : List AccountRow) : Table FolderKey FolderRow × Except String Unit :=
  match sortRowsParentFirst rows with
  | .error e => (folders, .error e)
  | .ok sorted => c.writeAll failed folders sorted

def ensureFolderRows := OnConflict.doNothing.writeBatch "ensure folder"

def insertFolderRows := OnConflict.doUpdate.writeBatch "upsert folder"

/-- A batch with a row for each key. -/
structure FolderBatch where
  rows : List AccountRow
  keys : (rows.map AccountRow.key).Nodup

/-- `p` is the parent of `k`, both with a row in the batch. -/
def FolderBatch.Parent (b : FolderBatch) : FolderKey → FolderKey → Prop :=
  Lib.ParentsFirst.Edge AccountRow.key AccountRow.parentKey b.rows

/-- The parents outside the batch have their rows already. -/
def FolderBatch.Attached (b : FolderBatch) (folders : Table FolderKey FolderRow) : Prop :=
  ∀ row ∈ b.rows, ∀ parent, row.parentKey = some parent → parent ∉ b.rows.map AccountRow.key →
    (folders.lookup parent).isSome

/-- A statement goes through once the parent is there, and takes no row away. -/
theorem OnConflict.write_some (c : OnConflict) {folders : Table FolderKey FolderRow} {row : AccountRow}
    (h : ∀ parent, row.parentKey = some parent → (folders.lookup parent).isSome) :
    ∃ folders', c.write folders row = some folders' ∧
      ∀ k, (folders.lookup k).isSome ∨ k = row.key → (folders'.lookup k).isSome := by
  have hgrow : ∀ k, (folders.lookup k).isSome ∨ k = row.key →
      ((folders.insert row.key row.2.stored).lookup k).isSome := by
    intro k hk
    rw [Table.lookup_insert_if]
    split
    · rfl
    · next hne => exact hk.resolve_right hne
  have hinsert : insertRow folders row = some (folders.insert row.key row.2.stored) := by
    refine if_pos ?_
    cases hp : row.parentKey with
    | none => rfl
    | some parent => exact hgrow parent (.inl (h parent hp))
  cases c with
  | doUpdate => exact ⟨_, hinsert, hgrow⟩
  | doNothing =>
    simp only [write]
    split
    · next hthere => exact ⟨folders, rfl, fun k hk => hk.elim id (fun heq => heq ▸ hthere)⟩
    · exact ⟨_, hinsert, hgrow⟩

theorem OnConflict.writeAll_ok (c : OnConflict) (failed : String) {folders : Table FolderKey FolderRow}
    {sorted : List AccountRow} (h : ∀ before row after, sorted = before ++ row :: after → ∀ parent,
      row.parentKey = some parent → (folders.lookup parent).isSome ∨ parent ∈ before.map AccountRow.key) :
    (c.writeAll failed folders sorted).2 = .ok () := by
  induction sorted generalizing folders with
  | nil => rfl
  | cons row rows ih =>
    obtain ⟨folders', hwrite, hgrow⟩ := c.write_some (fun parent hp =>
      (h [] row rows rfl parent hp).resolve_right not_mem_nil)
    rw [writeAll, hwrite]
    refine ih fun before row' after heq parent hp => ?_
    rcases h (row :: before) row' after (by rw [heq]; rfl) parent hp with hthere | hmem
    · exact .inl (hgrow parent (.inl hthere))
    · rw [map_cons, mem_cons] at hmem
      exact hmem.imp_left fun heq => hgrow parent (.inr heq)

theorem FolderBatch.parents_first (b : FolderBatch) :
    ((∃ sorted, sortRowsParentFirst b.rows = .ok sorted) ↔
      ∀ row ∈ b.rows, ∀ k, ReflTransGen b.Parent row.key k → ¬ TransGen b.Parent k k) ∧
    (∀ sorted, sortRowsParentFirst b.rows = .ok sorted → sorted.Perm b.rows ∧
      ∀ before row after, sorted = before ++ row :: after → ∀ parent ∈ b.rows,
        row.parentKey = some parent.key → parent ∈ before) ∧
    ∀ folders, b.Attached folders →
      (∀ sorted, sortRowsParentFirst b.rows = .ok sorted →
        (insertFolderRows folders b.rows).2 = .ok () ∧ (ensureFolderRows folders b.rows).2 = .ok ()) ∧
      ∀ e, (insertFolderRows folders b.rows).2 = .error e ∨ (ensureFolderRows folders b.rows).2 = .error e →
        (insertFolderRows folders b.rows).1 = folders ∧ (ensureFolderRows folders b.rows).1 = folders := by
  have hwrites : ∀ folders, b.Attached folders → ∀ sorted, sortRowsParentFirst b.rows = .ok sorted →
      ∀ (c : OnConflict) failed, (c.writeBatch failed folders b.rows).2 = .ok () := by
    intro folders hattached sorted hok c failed
    obtain ⟨hperm, hbefore⟩ := Lib.ParentsFirst.sort_spec (sortParentFirst_eq_ok.mp hok)
    rw [OnConflict.writeBatch, hok]
    refine c.writeAll_ok failed fun before row after heq parent hp => ?_
    by_cases hin : parent ∈ b.rows.map AccountRow.key
    · exact .inr (hbefore before row after heq parent hp hin)
    · exact .inl (hattached row (hperm.mem_iff.mp (by simp [heq])) parent hp hin)
  refine ⟨?_, fun sorted hok => ?_, fun folders hattached => ⟨fun sorted hok => ?_, fun e he => ?_⟩⟩
  · simp only [sortRowsParentFirst, sortParentFirst_eq_ok, Lib.ParentsFirst.sort_isSome_iff b.keys]
    refine ⟨fun h _ _ k _ => h k, fun h k hk => ?_⟩
    obtain ⟨_, ⟨row, hrow, rfl, -⟩, -⟩ := TransGen.head'_iff.mp hk
    exact h row hrow _ .refl hk
  · obtain ⟨hperm, hbefore⟩ := Lib.ParentsFirst.sort_spec (sortParentFirst_eq_ok.mp hok)
    refine ⟨hperm, fun before row after heq parent hparent hp => ?_⟩
    obtain ⟨row', hrow', hkey⟩ := mem_map.mp (hbefore before row after heq _ hp (mem_map_of_mem hparent))
    have hmem : row' ∈ b.rows := hperm.mem_iff.mp (heq ▸ mem_append_left _ hrow')
    exact inj_on_of_nodup_map b.keys hmem hparent hkey ▸ hrow'
  · exact ⟨hwrites folders hattached sorted hok _ _, hwrites folders hattached sorted hok _ _⟩
  · cases hok : sortRowsParentFirst b.rows with
    | error e' => simp [insertFolderRows, ensureFolderRows, OnConflict.writeBatch, hok]
    | ok sorted =>
      have hall := hwrites folders hattached sorted hok
      rcases he with he | he
      · cases (hall _ _).symm.trans he
      · cases (hall _ _).symm.trans he

end Ratatoskr.Containers

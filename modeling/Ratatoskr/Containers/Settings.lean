import Ratatoskr.Containers.Sync

/-!
# Containers.Settings

What a container sync does to the settings a user has made (`db/src/db/queries_extra/label_persistence.rs`):
the rows of `labels` are brought up to date next to those of `folders`. The tables are those of one account.
-/

namespace Ratatoskr.Containers

open List
open Lib (Table)

structure ContainerStyle where
  colorBg : String
  colorFg : String
  deriving DecidableEq

structure LabelWriteRow where
  id : String
  name : String
  visible : Option Bool
  sortOrder : Option Int
  serverColorBg : Option String
  serverColorFg : Option String
  userColorBg : Option String
  userColorFg : Option String
  isUndeletable : Bool

structure LabelRow where
  name : String
  visible : Bool
  sortOrder : Int
  serverColorBg : Option String
  serverColorFg : Option String
  userColorBg : Option String
  userColorFg : Option String
  isUndeletable : Bool

def labelRow (c : Container) (style : Option ContainerStyle) (storageId : String) : LabelWriteRow :=
  ⟨storageId, c.name, none, none, style.map (·.colorBg), style.map (·.colorFg), none, none, false⟩

/-- The rows of `labels` that `build_container_rows` gives. -/
def addLabel (rows : List LabelWriteRow) (c : Container × Option ContainerStyle) :
    Except String (List LabelWriteRow) :=
  match classify c.1 with
  | .error e => .error e
  | .ok (.label id) => .ok (rows ++ [labelRow c.1 c.2 id])
  | .ok _ => .ok rows

def validateLabelColorPair (labelId source : String) (bg fg : Option String) : Except String Unit :=
  if bg.isSome = fg.isSome then .ok ()
  else .error ("label " ++ labelId ++ " has incomplete " ++ source ++ " color pair")

/-- The row after the upsert over `old`. -/
def LabelWriteRow.stored (row : LabelWriteRow) (old : Option LabelRow) : LabelRow where
  name := row.name
  visible := row.visible.getD true
  sortOrder := row.sortOrder.getD 0
  serverColorBg := row.serverColorBg
  serverColorFg := row.serverColorFg
  userColorBg := row.userColorBg.or (old.bind (·.userColorBg))
  userColorFg := row.userColorFg.or (old.bind (·.userColorFg))
  isUndeletable := row.isUndeletable || old.any (·.isUndeletable)

def upsertLabel (labels : Table String LabelRow) (row : LabelWriteRow) : Except String (Table String LabelRow) := do
  validateLabelColorPair row.id "server" row.serverColorBg row.serverColorFg
  validateLabelColorPair row.id "user" row.userColorBg row.userColorFg
  pure (labels.insert row.id (row.stored (labels.lookup row.id)))

structure Batch where
  folders : List FolderWriteRow
  labels : List LabelWriteRow

def buildBatch (containers : List (Container × Option ContainerStyle)) : Except String Batch := do
  let (folders, _) ← buildContainerRows (containers.map Prod.fst)
  let labels ← containers.foldlM addLabel []
  pure ⟨folders, labels⟩

structure LocalTables where
  folders : Table FolderId FolderRow
  labels : Table String LabelRow

def Batch.write (batch : Batch) (db : LocalTables) : Except String LocalTables := do
  let folders ← insertFoldersBatch db.folders batch.folders
  let labels ← batch.labels.foldlM upsertLabel db.labels
  pure ⟨folders, labels⟩

/-- A sync that goes through. -/
structure BatchSync where
  containers : List (Container × Option ContainerStyle)
  batch : Batch
  before : LocalTables
  after : LocalTables
  built : buildBatch containers = .ok batch
  written : batch.write before = .ok after

def FolderRow.settings (row : FolderRow) : Bool × Int := (row.visible, row.sortOrder)

def LabelRow.settings (row : LabelRow) : Bool × Int := (row.visible, row.sortOrder)

def LabelRow.userColors (row : LabelRow) : Option String × Option String := (row.userColorBg, row.userColorFg)

/-! ## Upserts -/

section Upserts

variable {κ ρ α β : Type} [DecidableEq κ] {key : ρ → κ} {merge : ρ → Option α → α} {rows : List ρ}
  {before after : Table κ α}

/-- The last row given for a key is laid over the old one. -/
def LastWins (key : ρ → κ) (merge : ρ → Option α → α) (rows : List ρ) (before after : Table κ α) : Prop :=
  ∀ k, after.lookup k =
    (((rows.filter (fun r => key r = k)).getLast?).map (merge · (before.lookup k))).or (before.lookup k)

/-- Every row is one of the given ones, laid over the old row, or nobody gave it and it stays. -/
def Upserted (key : ρ → κ) (merge : ρ → Option α → α) (rows : List ρ) (before after : Table κ α) : Prop :=
  ∀ k, ((∀ r ∈ rows, key r ≠ k) ∧ after.lookup k = before.lookup k) ∨
    ∃ r ∈ rows, key r = k ∧ after.lookup k = some (merge r (before.lookup k))

theorem LastWins.upserted (h : LastWins key merge rows before after) : Upserted key merge rows before after := by
  intro k
  rw [h k]
  cases hlast : (rows.filter (fun r => key r = k)).getLast? with
  | none =>
    refine .inl ⟨fun r hr hk => ?_, rfl⟩
    exact filter_eq_nil_iff.mp (getLast?_eq_none_iff.mp hlast) r hr (decide_eq_true hk)
  | some r =>
    obtain ⟨hr, hk⟩ := mem_filter.mp (mem_of_getLast? hlast)
    exact .inr ⟨r, hr, of_decide_eq_true hk, rfl⟩

/-- A second time, each row is laid over what the first time left. -/
theorem LastWins.again (h : LastWins key merge rows before after) {again : Table κ α}
    (h' : LastWins key merge rows after again)
    (habsorb : ∀ r' ∈ rows, ∀ r old, merge r (some (merge r' old)) = merge r old) (k : κ) :
    again.lookup k = after.lookup k := by
  rw [h' k, h k]
  cases hlast : (rows.filter (fun r => key r = k)).getLast? with
  | none => rfl
  | some r => exact congrArg some (habsorb r (mem_filter.mp (mem_of_getLast? hlast)).1 r _)

/-- What every given row sets to `d` stays as it is exactly where it was `d` before. -/
theorem Upserted.kept_iff (h : Upserted key merge rows before after) {setting : α → β} {d : β}
    (hmerge : ∀ r ∈ rows, ∀ old, setting (merge r old) = d) :
    (∀ k old, before.lookup k = some old → (after.lookup k).map setting = some (setting old)) ↔
      ∀ r ∈ rows, ∀ old, before.lookup (key r) = some old → setting old = d := by
  constructor
  · intro hkept r hr old hold
    have hset := hkept (key r) old hold
    obtain ⟨hnone, -⟩ | ⟨r', hr', -, hafter⟩ := h (key r)
    · exact absurd rfl (hnone r hr)
    · rw [hafter, Option.map_some, hmerge r' hr'] at hset
      exact (Option.some.inj hset).symm
  · intro hdefault k old hold
    obtain ⟨-, hafter⟩ | ⟨r, hr, rfl, hafter⟩ := h k
    · rw [hafter, hold, Option.map_some]
    · rw [hafter, Option.map_some, hmerge r hr, hdefault r hr old hold]

/-- What a given row takes over from the old one stays. -/
theorem Upserted.kept (h : Upserted key merge rows before after) {setting : α → β}
    (hmerge : ∀ r ∈ rows, ∀ old, setting (merge r (some old)) = setting old) {k : κ} {old : α}
    (hold : before.lookup k = some old) : (after.lookup k).map setting = some (setting old) := by
  obtain ⟨-, hafter⟩ | ⟨r, hr, -, hafter⟩ := h k
  · rw [hafter, hold, Option.map_some]
  · rw [hafter, hold, Option.map_some, hmerge r hr]

end Upserts

/-! ## The rows of a sync -/

variable {rows : List LabelWriteRow}

theorem labels_built {containers : List (Container × Option ContainerStyle)}
    (h : containers.foldlM addLabel [] = .ok rows) : ∀ row ∈ rows, ∃ c style id, row = labelRow c style id := by
  refine (Lib.reaches_foldlM h).invariant (I := fun rows => ∀ row ∈ rows, ∃ c style id, row = labelRow c style id)
    (by simp) fun rows c rows' hrows _ hstep => ?_
  rw [addLabel] at hstep
  split at hstep
  · cases hstep
  · cases hstep
    exact forall_mem_append.mpr ⟨hrows, forall_mem_singleton.mpr ⟨_, _, _, rfl⟩⟩
  · cases hstep
    exact hrows

theorem folders_built {containers : List Container} {rows : List FolderWriteRow} {index : ContainerIndex}
    (h : buildContainerRows containers = .ok (rows, index)) : ∀ row ∈ rows, ∃ ids c id, row = folderRow ids c id := by
  rw [buildContainerRows] at h
  split at h
  · cases h
  refine (Lib.reaches_foldlM h).invariant (I := fun built => ∀ row ∈ built.1, ∃ ids c id, row = folderRow ids c id)
    (by simp) fun built c built' hbuilt _ hstep => ?_
  unfold addContainer at hstep
  split at hstep
  · cases hstep
  · cases hstep
    exact hbuilt
  · cases hstep
    exact hbuilt
  · split at hstep
    · cases hstep
    · cases hstep
      exact forall_mem_append.mpr ⟨hbuilt, forall_mem_singleton.mpr ⟨_, _, _, rfl⟩⟩

/-! ## Writing them -/

variable {labels labels' : Table String LabelRow}

theorem upsertLabel_eq {row : LabelWriteRow}
    (h : upsertLabel labels row = .ok labels') :
    labels' = labels.insert row.id (row.stored (labels.lookup row.id)) ∧
      ∀ other, ∃ t, upsertLabel other row = .ok t := by
  obtain ⟨_, hserver, h⟩ := Lib.bind_ok h
  obtain ⟨_, huser, h⟩ := Lib.bind_ok h
  cases h
  exact ⟨rfl, fun other => ⟨_, by rw [upsertLabel, hserver, huser]; rfl⟩⟩

/-- Labels once written can be written over any table. -/
theorem upsertLabels_again
    (h : rows.foldlM upsertLabel labels = .ok labels') :
    labels' = rows.foldl (fun t row => t.insert row.id (row.stored (t.lookup row.id))) labels ∧
      ∀ other, ∃ t, rows.foldlM upsertLabel other = .ok t := by
  induction rows generalizing labels with
  | nil =>
    cases h
    exact ⟨rfl, fun other => ⟨other, rfl⟩⟩
  | cons row rows ih =>
    obtain ⟨labels₁, hone, hrest⟩ := Lib.foldlM_cons_eq_ok.mp h
    obtain ⟨rfl, hagain⟩ := upsertLabel_eq hone
    obtain ⟨hfold, hall⟩ := ih hrest
    refine ⟨hfold, fun other => ?_⟩
    obtain ⟨u, hu⟩ := hagain other
    obtain ⟨t, ht⟩ := hall u
    exact ⟨t, Lib.foldlM_cons_eq_ok.mpr ⟨u, hu, ht⟩⟩

/-- Folders once written can be written over any table that has the rows they were left with. -/
theorem upserts_again {sorted : List FolderWriteRow} {folders folders' other : Table FolderId FolderRow}
    (h : sorted.foldlM upsertFolder folders = .ok folders')
    (hsub : ∀ id, (folders'.lookup id).isSome → (other.lookup id).isSome) :
    ∃ again, sorted.foldlM upsertFolder other = .ok again := by
  induction sorted generalizing folders other with
  | nil => exact ⟨other, rfl⟩
  | cons row sorted ih =>
    obtain ⟨folders₁, hone, hrest⟩ := Lib.foldlM_cons_eq_ok.mp h
    have hgrow : ∀ id, (folders'.lookup id).isSome → ((other.insert row.id row.stored).lookup id).isSome := by
      intro id hid
      rw [Table.lookup_insert_if]
      split
      · rfl
      · exact hsub id hid
    rw [upsertFolder] at hone
    split at hone
    · next hparent =>
      cases hone
      obtain ⟨again, hagain⟩ := ih hrest hgrow
      refine ⟨again, Lib.foldlM_cons_eq_ok.mpr ⟨_, if_pos ?_, hagain⟩⟩
      cases hrow : row.parentId with
      | none => rfl
      | some parent =>
        rw [hrow, Option.all_some] at hparent
        refine hgrow parent ?_
        rw [lookup_upserts hrest, Option.isSome_or, hparent, Bool.or_true]
    · cases hone

theorem BatchSync.settings_kept_iff (s : BatchSync) :
    ((∀ id old, s.before.folders.lookup id = some old →
        (s.after.folders.lookup id).map FolderRow.settings = some old.settings) ∧
      (∀ id old, s.before.labels.lookup id = some old →
        (s.after.labels.lookup id).map LabelRow.settings = some old.settings) ↔
      (∀ row ∈ s.batch.folders, ∀ old, s.before.folders.lookup row.id = some old → old.settings = (true, 0)) ∧
      ∀ row ∈ s.batch.labels, ∀ old, s.before.labels.lookup row.id = some old → old.settings = (true, 0)) ∧
    (∀ id old, s.before.labels.lookup id = some old →
      (s.after.labels.lookup id).map LabelRow.userColors = some old.userColors ∧
      (s.after.labels.lookup id).map LabelRow.isUndeletable = some old.isUndeletable) ∧
    Upserted FolderWriteRow.id (fun row _ => row.stored) s.batch.folders s.before.folders s.after.folders ∧
    Upserted LabelWriteRow.id LabelWriteRow.stored s.batch.labels s.before.labels s.after.labels ∧
    ∃ again, s.batch.write s.after = .ok again ∧
      (∀ id, again.folders.lookup id = s.after.folders.lookup id) ∧
      ∀ id, again.labels.lookup id = s.after.labels.lookup id := by
  obtain ⟨containers, ⟨rows, labelRows⟩, before, after, hbuilt, hwritten⟩ := s
  obtain ⟨⟨_, index⟩, hrows, h⟩ := Lib.bind_ok hbuilt
  obtain ⟨_, hlabelRows, h⟩ := Lib.bind_ok h
  cases h
  obtain ⟨folders, hfolders, h⟩ := Lib.bind_ok hwritten
  obtain ⟨labels, hlabels, h⟩ := Lib.bind_ok h
  cases h
  have habsorb : ∀ r' ∈ labelRows, ∀ (r : LabelWriteRow) old, r.stored (some (r'.stored old)) = r.stored old := by
    intro r' hr' r old
    obtain ⟨c, style, id, rfl⟩ := labels_built hlabelRows r' hr'
    rfl
  have hlabelsLast : ∀ {t t'}, labelRows.foldlM upsertLabel t = .ok t' →
      LastWins LabelWriteRow.id LabelWriteRow.stored labelRows t t' := by
    intro t t' ht
    rw [(upsertLabels_again ht).1]
    exact Table.lookup_foldl_upsert _ _ labelRows habsorb t
  rw [insertFoldersBatch] at hfolders
  split at hfolders
  · cases hfolders
  next sorted hsort =>
  have hfoldersLast : ∀ {t t'}, sorted.foldlM upsertFolder t = .ok t' →
      LastWins FolderWriteRow.id (fun row _ => row.stored) sorted t t' := lookup_upserts
  have hfolderUp : Upserted FolderWriteRow.id (fun row _ => row.stored) rows before.folders folders := by
    simpa only [Upserted, (sortFoldersParentFirst_perm hsort).mem_iff] using (hfoldersLast hfolders).upserted
  have hlabelUp := (hlabelsLast hlabels).upserted
  refine ⟨and_congr (hfolderUp.kept_iff ?_) (hlabelUp.kept_iff ?_), ?_, hfolderUp, hlabelUp, ?_⟩
  · intro row hrow _
    obtain ⟨ids, c, id, rfl⟩ := folders_built hrows row hrow
    rfl
  · intro row hrow _
    obtain ⟨c, style, id, rfl⟩ := labels_built hlabelRows row hrow
    rfl
  · intro id old hold
    refine ⟨hlabelUp.kept (fun row hrow old => ?_) hold, hlabelUp.kept (fun row hrow old => ?_) hold⟩
    · obtain ⟨c, style, id, rfl⟩ := labels_built hlabelRows row hrow
      rfl
    · obtain ⟨c, style, id, rfl⟩ := labels_built hlabelRows row hrow
      rfl
  · obtain ⟨folders₂, hfolders₂⟩ := upserts_again hfolders fun _ => id
    obtain ⟨labels₂, hlabels₂⟩ := (upsertLabels_again hlabels).2 labels
    refine ⟨⟨folders₂, labels₂⟩, ?_, ?_, ?_⟩
    · simp only [Batch.write, insertFoldersBatch, hsort, hfolders₂, hlabels₂]
      rfl
    · exact (hfoldersLast hfolders).again (hfoldersLast hfolders₂) fun _ _ _ _ => rfl
    · exact (hlabelsLast hlabels).again (hlabelsLast hlabels₂) habsorb

def family : Container :=
  ⟨"c1", "Label_1", "Family", .label, none, false, .gmail, .personal, none, none, none, none, none, none, none⟩

/-- A label the user has hidden and moved down is back at the top after a sync that lists it. -/
theorem label_shown_again :
    ∃ s : BatchSync, s.containers = [(family, none)] ∧
      (s.before.labels.lookup "Label_1").map LabelRow.settings = some (false, 3) ∧
      (s.after.labels.lookup "Label_1").map LabelRow.settings = some (true, 0) := by
  have hsort : sortFoldersParentFirst [] = .ok [] := sortParentFirst_eq_ok.mpr Lib.ParentsFirst.sort_nil
  refine ⟨⟨[(family, none)], ⟨[], [labelRow family none "Label_1"]⟩,
    ⟨∅, AList.singleton "Label_1" ⟨"Family", false, 3, none, none, none, none, false⟩⟩,
    ⟨∅, AList.singleton "Label_1" ⟨"Family", true, 0, none, none, none, none, false⟩⟩, rfl, ?_⟩, rfl, rfl, rfl⟩
  simp only [Batch.write, insertFoldersBatch, hsort]
  rfl

end Ratatoskr.Containers

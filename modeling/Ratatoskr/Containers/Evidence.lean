import Ratatoskr.Containers.Sync

/-!
# Containers.Evidence

What a sync deletes and revokes. A folder row is reaped when it is personal, no system folder and not listed,
and the rows below it go with it: nothing else goes just where no other row has a reaped one as its parent. A
mailbox without a listed container is revoked, whether or not its scope was skipped.
-/

namespace Ratatoskr.Containers

open List
open Actions (NamespaceAttribution)
open Lib (Table)
open Lib.Cascade (Below isBelow isBelow_iff parentOf deleteCascade)

def Reapable (folders : Table FolderId FolderRow) (containers : List Container) (id : FolderId) : Prop :=
  ∃ row, folders.lookup id = some row ∧ row.namespaceType = none ∧ ¬ ListedFolder containers id ∧
    isGmailSystemFolderLabelId id = false

def sortedRows (containers : List Container) : List FolderWriteRow :=
  match buildContainerRows containers with
  | .error _ => []
  | .ok (rows, _) =>
    match sortFoldersParentFirst rows with
    | .error _ => []
    | .ok sorted => sorted

def listedParent (containers : List Container) (id : FolderId) : Option FolderId :=
  (lastRow (sortedRows containers) id).bind FolderWriteRow.parentId

def listedIndex (containers : List Container) : ContainerIndex :=
  match buildContainerRows containers with
  | .error _ => .default
  | .ok (_, index) => index

def ListedMailbox (containers : List Container) (owner : String) : Prop :=
  ∃ c ∈ containers, Registers (listedIndex containers) owner c

def Skipped (list : ContainersList) (owner : String) : Prop :=
  ∃ scope ∈ list.skippedScopes, scope.owner = some owner

/-- Rows are deleted and mailboxes revoked on evidence only. -/
structure OnEvidence (db : ContainerTables) (list : ContainersList) (db' : ContainerTables) : Prop where
  listed : ∀ id, ListedFolder list.containers id → (db'.folders.lookup id).isSome
  gone : ∀ id row, db.folders.lookup id = some row → db'.folders.lookup id = none →
    row.namespaceType = none ∧ isGmailSystemFolderLabelId id = false ∧ ¬ ListedFolder list.containers id
  skippedFolders : ∀ owner, Skipped list owner → ∀ id row, db.folders.lookup id = some row →
    row.namespaceType = some "shared" → row.ownerId = some owner →
    (db'.folders.lookup id).isSome ∧ (¬ ListedFolder list.containers id → db'.folders.lookup id = some row)
  skippedMailbox : ∀ owner, Skipped list owner → ∀ m, db.sharedMailboxes.lookup owner = some m →
    (db'.sharedMailboxes.lookup owner).map SharedMailbox.revokedAt = some m.revokedAt
  revoked : ∀ owner, (¬∃ c ∈ list.containers, namespaceForContainer c = .ok (.shared owner)) →
    ¬ Skipped list owner → ∀ m, db.sharedMailboxes.lookup owner = some m →
    ∃ m', db'.sharedMailboxes.lookup owner = some m' ∧ m'.revokedAt.isSome

structure Covered (db : ContainerTables) (list : ContainersList) : Prop where
  stored : ∀ id row parent, db.folders.lookup id = some row → row.parentId = some parent →
    ¬ ListedFolder list.containers id → Reapable db.folders list.containers parent →
    Reapable db.folders list.containers id
  listed : ∀ id parent, listedParent list.containers id = some parent →
    ¬ Reapable db.folders list.containers parent
  skipped : ∀ owner, Skipped list owner → ∀ m, db.sharedMailboxes.lookup owner = some m →
    (m.revokedAt = none ↔ ListedMailbox list.containers owner)

structure Synced (now : Int) (db : ContainerTables) (containers : List Container) (db' : ContainerTables)
    (folders : Table FolderId FolderRow) : Prop where
  unlisted : ∀ id, ¬ ListedFolder containers id → folders.lookup id = db.folders.lookup id
  listed : ∀ id, ListedFolder containers id →
    ∃ row, folders.lookup id = some row ∧ row.parentId = listedParent containers id
  parented : ∀ id parent, listedParent containers id = some parent → ListedFolder containers id
  deleted : ∀ root id, Reapable db.folders containers root → Below FolderRow.parentId folders root id →
    db'.folders.lookup id = none
  kept : ∀ id, (∀ root, Reapable db.folders containers root → ¬ Below FolderRow.parentId folders root id) →
    db'.folders.lookup id = folders.lookup id
  registered : ∀ owner m, db.sharedMailboxes.lookup owner = some m → ListedMailbox containers owner →
    (db'.sharedMailboxes.lookup owner).map SharedMailbox.revokedAt = some none
  missing : ∀ owner m, db.sharedMailboxes.lookup owner = some m → ¬ ListedMailbox containers owner →
    (db'.sharedMailboxes.lookup owner).map SharedMailbox.revokedAt = some (m.revokedAt.or (some now))
  named : ∀ owner, ListedMailbox containers owner →
    ∃ c ∈ containers, namespaceForContainer c = .ok (.shared owner)

theorem mem_folderIdsToReap {folders folders' : Table FolderId FolderRow} {containers : List Container}
    {rows : List FolderWriteRow} (hrows : ∀ id, id ∈ rows.map FolderWriteRow.id ↔ ListedFolder containers id)
    (hsame : ∀ id, ¬ ListedFolder containers id → folders'.lookup id = folders.lookup id) (id : FolderId) :
    id ∈ folderIdsToReap (personalFolders folders') (rows.map FolderWriteRow.id) ↔
      Reapable folders containers id := by
  have hpersonal : id ∈ personalFolders folders' ↔
      ∃ row, folders'.lookup id = some row ∧ row.namespaceType = none := by
    rw [personalFolders, mem_map]
    constructor
    · rintro ⟨⟨k, row⟩, hmem, rfl⟩
      obtain ⟨hrow, hnone⟩ := mem_filter.mp hmem
      exact ⟨row, Table.mem_rows.mp hrow, of_decide_eq_true hnone⟩
    · rintro ⟨row, hrow, hnone⟩
      exact ⟨(id, row), mem_filter.mpr ⟨Table.mem_rows.mpr hrow, decide_eq_true hnone⟩, rfl⟩
  rw [folderIdsToReap, mem_filter, mem_filter, hpersonal]
  constructor
  · rintro ⟨⟨⟨row, hrow, hnone⟩, hnot⟩, hsystem⟩
    have hunlisted : ¬ ListedFolder containers id := fun h => of_decide_eq_true hnot ((hrows id).mpr h)
    rw [hsame id hunlisted] at hrow
    exact ⟨row, hrow, hnone, hunlisted, by simpa using hsystem⟩
  · rintro ⟨row, hrow, hnone, hunlisted, hsystem⟩
    rw [← hsame id hunlisted] at hrow
    exact ⟨⟨⟨row, hrow, hnone⟩, decide_eq_true (fun h => hunlisted ((hrows id).mp h))⟩, by simp [hsystem]⟩

theorem syncContainers_eq_ok {now : Int} {db db' : ContainerTables} {list : ContainersList}
    {index : ContainerIndex} (h : syncContainers now db (.ok list) = .ok (db', index)) :
    ∃ rows sorted folders, buildContainerRows list.containers = .ok (rows, index) ∧
      sortFoldersParentFirst rows = .ok sorted ∧ sorted.foldlM upsertFolder db.folders = .ok folders ∧
      db'.folders = reapMissingPersonalFolders folders rows ∧
      db'.sharedMailboxes = revokeMissing now (registerOwners index list.containers db.sharedMailboxes).1
        (registerOwners index list.containers db.sharedMailboxes).2 := by
  rw [syncContainers, persistContainers] at h
  cases hbuild : buildContainerRows list.containers with
  | error e =>
    rw [hbuild] at h
    cases h
  | ok built =>
    obtain ⟨rows, index'⟩ := built
    rw [hbuild] at h
    dsimp only at h
    rw [insertFoldersBatch] at h
    cases hsort : sortFoldersParentFirst rows with
    | error e =>
      rw [hsort] at h
      cases h
    | ok sorted =>
      rw [hsort] at h
      dsimp only at h
      cases hfolders : sorted.foldlM upsertFolder db.folders with
      | error e =>
        rw [hfolders] at h
        cases h
      | ok folders =>
        rw [hfolders] at h
        cases h
        exact ⟨rows, sorted, folders, rfl, hsort, hfolders, rfl, rfl⟩

theorem synced {now : Int} {db db' : ContainerTables} {list : ContainersList} {index : ContainerIndex}
    (h : syncContainers now db (.ok list) = .ok (db', index)) :
    ∃ folders, Synced now db list.containers db' folders := by
  obtain ⟨rows, sorted, folders, hbuild, hsort, hfolders, hdb, hmailboxes⟩ := syncContainers_eq_ok h
  have hindex : listedIndex list.containers = index := by rw [listedIndex, hbuild]
  have hsorted : sortedRows list.containers = sorted := by
    rw [sortedRows, hbuild]
    dsimp only
    rw [hsort]
  have hlast : ∀ id, (lastRow sorted id).isSome ↔ ListedFolder list.containers id := by
    intro id
    rw [lastRow_isSome_iff, ← mem_rows_iff hbuild]
    exact ((sortFoldersParentFirst_perm hsort).map FolderWriteRow.id).mem_iff
  have hunlisted : ∀ id, ¬ ListedFolder list.containers id → folders.lookup id = db.folders.lookup id := by
    intro id hid
    have hnone : lastRow sorted id = none := by
      cases hrow : lastRow sorted id with
      | none => rfl
      | some row => exact absurd ((hlast id).mp (by rw [hrow]; rfl)) hid
    rw [lookup_upserts hfolders, hnone]
    rfl
  have hreap := mem_folderIdsToReap (fun id => mem_rows_iff hbuild) hunlisted
  have hdeleted : ∀ id, db'.folders.lookup id =
      if (folderIdsToReap (personalFolders folders) (rows.map FolderWriteRow.id)).any
        (fun root => isBelow FolderRow.parentId folders root id) then none else folders.lookup id := by
    intro id
    rw [hdb]
    exact Lib.Cascade.lookup_deleteAll folders _ id
  refine ⟨folders, ?_⟩
  constructor
  · exact hunlisted
  · intro id hid
    obtain ⟨row, hrow⟩ := Option.isSome_iff_exists.mp ((hlast id).mpr hid)
    refine ⟨row.stored, ?_, ?_⟩
    · rw [lookup_upserts hfolders, hrow]
      rfl
    · rw [listedParent, hsorted, hrow]
      rfl
  · intro id parent hparent
    rw [listedParent, hsorted] at hparent
    obtain ⟨row, hrow, -⟩ := Option.bind_eq_some_iff.mp hparent
    exact (hlast id).mp (by rw [hrow]; rfl)
  · intro root id hroot hbelow
    rw [hdeleted, if_pos]
    exact any_eq_true.mpr ⟨root, (hreap root).mpr hroot, isBelow_iff.mpr hbelow⟩
  · intro id hnone
    rw [hdeleted, if_neg]
    intro hany
    obtain ⟨root, hroot, hbelow⟩ := any_eq_true.mp hany
    exact hnone root ((hreap root).mp hroot) (isBelow_iff.mp hbelow)
  · intro owner m hm hlisted
    rw [ListedMailbox, hindex] at hlisted
    rw [hmailboxes, revokedAt_sync now index list.containers db.sharedMailboxes hm, if_pos hlisted]
  · intro owner m hm hlisted
    rw [ListedMailbox, hindex] at hlisted
    rw [hmailboxes, revokedAt_sync now index list.containers db.sharedMailboxes hm, if_neg hlisted]
  · rintro owner ⟨c, hc, hregisters⟩
    rw [hindex] at hregisters
    obtain ⟨c', hc', -, hattribution⟩ := exists_of_namespace hbuild hregisters
    exact ⟨c', hc', hattribution⟩

section Synced

variable {now : Int} {db db' : ContainerTables} {list : ContainersList} {folders : Table FolderId FolderRow}

theorem Synced.gone_of_parent (h : Synced now db list.containers db' folders) {id parent : FolderId}
    (hparent : parentOf FolderRow.parentId folders id = some parent)
    (hreap : Reapable db.folders list.containers parent) : db'.folders.lookup id = none :=
  h.deleted parent id hreap (Below.child hparent (.refl folders parent))

theorem Synced.reapable_of_below (h : Synced now db list.containers db' folders) (hcovered : Covered db list)
    {root id : FolderId} (hroot : Reapable db.folders list.containers root)
    (hbelow : Below FolderRow.parentId folders root id) : Reapable db.folders list.containers id := by
  refine hbelow.induct hroot ?_
  intro id parent hparent hreap
  by_cases hlisted : ListedFolder list.containers id
  · obtain ⟨row, hrow, heq⟩ := h.listed id hlisted
    rw [parentOf, hrow, Option.bind_some, heq] at hparent
    exact absurd hreap (hcovered.listed id parent hparent)
  · rw [parentOf, h.unlisted id hlisted] at hparent
    obtain ⟨row, hrow, heq⟩ := Option.bind_eq_some_iff.mp hparent
    exact hcovered.stored id row parent hrow heq hlisted hreap

theorem Synced.lookup_of_covered (h : Synced now db list.containers db' folders) (hcovered : Covered db list)
    {id : FolderId} (hid : ¬ Reapable db.folders list.containers id) :
    db'.folders.lookup id = folders.lookup id :=
  h.kept id (fun _ hroot hbelow => hid (h.reapable_of_below hcovered hroot hbelow))

theorem Synced.onEvidence (h : Synced now db list.containers db' folders) (hcovered : Covered db list) :
    OnEvidence db list db' := by
  have hkept : ∀ {id : FolderId}, ¬ Reapable db.folders list.containers id →
      db'.folders.lookup id = folders.lookup id := fun hid => h.lookup_of_covered hcovered hid
  constructor
  · intro id hlisted
    obtain ⟨row, hrow, -⟩ := h.listed id hlisted
    rw [hkept (fun ⟨_, _, _, hnot, _⟩ => hnot hlisted), hrow]
    rfl
  · intro id row hrow hnone
    by_cases hreap : Reapable db.folders list.containers id
    · obtain ⟨row', hrow', hpersonal, hnot, hsystem⟩ := hreap
      rw [hrow] at hrow'
      cases hrow'
      exact ⟨hpersonal, hsystem, hnot⟩
    · rw [hkept hreap] at hnone
      by_cases hlisted : ListedFolder list.containers id
      · obtain ⟨row', hrow', -⟩ := h.listed id hlisted
        rw [hrow'] at hnone
        cases hnone
      · rw [h.unlisted id hlisted, hrow] at hnone
        cases hnone
  · intro owner _ id row hrow hshared _
    have hreap : ¬ Reapable db.folders list.containers id := by
      rintro ⟨row', hrow', hpersonal, -, -⟩
      rw [hrow] at hrow'
      cases hrow'
      rw [hshared] at hpersonal
      cases hpersonal
    rw [hkept hreap]
    by_cases hlisted : ListedFolder list.containers id
    · obtain ⟨row', hrow', -⟩ := h.listed id hlisted
      exact ⟨by rw [hrow']; rfl, fun hnot => absurd hlisted hnot⟩
    · rw [h.unlisted id hlisted, hrow]
      exact ⟨rfl, fun _ => rfl⟩
  · intro owner hskipped m hm
    by_cases hlisted : ListedMailbox list.containers owner
    · rw [h.registered owner m hm hlisted, (hcovered.skipped owner hskipped m hm).mpr hlisted]
    rw [h.missing owner m hm hlisted]
    cases hrevoked : m.revokedAt with
    | none => exact absurd ((hcovered.skipped owner hskipped m hm).mp hrevoked) hlisted
    | some at' => rfl
  · intro owner hnot _ m hm
    have hlisted : ¬ ListedMailbox list.containers owner := fun hl => hnot (h.named owner hl)
    obtain ⟨m', hm', hrevoked⟩ := Option.map_eq_some_iff.mp (h.missing owner m hm hlisted)
    refine ⟨m', hm', ?_⟩
    rw [hrevoked]
    cases m.revokedAt with
    | none => rfl
    | some at' => rfl

theorem Synced.covered (h : Synced now db list.containers db' folders) (hevidence : OnEvidence db list db') :
    Covered db list := by
  constructor
  · intro id row parent hrow hparent hunlisted hreap
    have hat : parentOf FolderRow.parentId folders id = some parent := by
      rw [parentOf, h.unlisted id hunlisted, hrow]
      exact hparent
    obtain ⟨hpersonal, hsystem, -⟩ := hevidence.gone id row hrow (h.gone_of_parent hat hreap)
    exact ⟨row, hrow, hpersonal, hunlisted, hsystem⟩
  · intro id parent hparent hreap
    have hlisted := h.parented id parent hparent
    obtain ⟨row, hrow, heq⟩ := h.listed id hlisted
    have hat : parentOf FolderRow.parentId folders id = some parent := by
      rw [parentOf, hrow, Option.bind_some, heq, hparent]
    have hsome := hevidence.listed id hlisted
    rw [h.gone_of_parent hat hreap] at hsome
    cases hsome
  · intro owner hskipped m hm
    have hsame := hevidence.skippedMailbox owner hskipped m hm
    by_cases hlisted : ListedMailbox list.containers owner
    · rw [h.registered owner m hm hlisted] at hsame
      exact ⟨fun _ => hlisted, fun _ => (Option.some.inj hsame).symm⟩
    · rw [h.missing owner m hm hlisted] at hsame
      refine ⟨?_, fun hl => absurd hl hlisted⟩
      intro hnone
      rw [hnone] at hsame
      cases hsame

end Synced

/-- A sync deletes and revokes on evidence just where the rows below reaped ones are reaped too, and every
skipped mailbox is listed when it is not revoked and not listed when it is. -/
theorem sync_on_evidence_iff {now : Int} {db db' : ContainerTables} {list : ContainersList}
    {index : ContainerIndex} (h : syncContainers now db (.ok list) = .ok (db', index)) :
    OnEvidence db list db' ↔ Covered db list := by
  obtain ⟨folders, hs⟩ := synced h
  exact ⟨hs.covered, hs.onEvidence⟩

/-! ## Listings -/

def folderNamed (name : String) (parent : Option FolderId) : FolderRow :=
  ⟨name, true, 0, none, none, none, none, none, parent, .unreported, none, false⟩

def inbox : Container :=
  ⟨"INBOX", "INBOX", "Inbox", .folder, some .inbox, false, .imap, .personal, none, none, none, none, none, none,
    none⟩

def withOld : ContainerTables :=
  ⟨(∅ : Table FolderId FolderRow).insert "folder-Old" (folderNamed "Old" none), ∅, ∅⟩

def inboxRow : FolderWriteRow :=
  ⟨"INBOX", "Inbox", none, none, some "INBOX", some "\\Inbox", none, none, none, none, .unreported, none, true⟩

theorem sort_one (row : FolderWriteRow) (hparent : row.parentId = none) :
    sortFoldersParentFirst [row] = .ok [row] :=
  sortParentFirst_eq_ok.mpr (Lib.ParentsFirst.sort_singleton hparent)

theorem sort_nil : sortFoldersParentFirst [] = .ok [] := sortParentFirst_eq_ok.mpr Lib.ParentsFirst.sort_nil

theorem old_folder_reaped : ∃ db' index, syncContainers 7 withOld (.ok ⟨[inbox], []⟩) = .ok (db', index) ∧
    OnEvidence withOld ⟨[inbox], []⟩ db' := by
  have hbuild : ∃ index, buildContainerRows [inbox] = .ok ([inboxRow], index) := ⟨_, rfl⟩
  obtain ⟨index, hbuild⟩ := hbuild
  have hsync : ∃ db', syncContainers 7 withOld (.ok ⟨[inbox], []⟩) = .ok (db', index) := by
    rw [syncContainers, persistContainers, hbuild]
    dsimp only
    rw [insertFoldersBatch, sort_one inboxRow rfl]
    exact ⟨_, rfl⟩
  obtain ⟨db', hsync⟩ := hsync
  refine ⟨db', index, hsync, (sync_on_evidence_iff hsync).mpr ?_⟩
  constructor
  · intro id row parent hlookup hparent
    rw [withOld, Lib.Table.lookup_insert_if] at hlookup
    split at hlookup
    · cases hlookup
      cases hparent
    · cases hlookup
  · intro id parent hparent
    rw [listedParent, sortedRows, hbuild] at hparent
    dsimp only at hparent
    rw [sort_one inboxRow rfl] at hparent
    obtain ⟨row, hrow, hparent⟩ := Option.bind_eq_some_iff.mp hparent
    obtain ⟨hmem, -⟩ := mem_filter.mp (mem_of_getLast? hrow)
    rw [mem_singleton.mp hmem] at hparent
    cases hparent
  · rintro owner ⟨scope, hscope, -⟩
    cases hscope

/-- A mailbox whose scope was skipped is revoked; a system folder goes with the folder above it. -/
theorem without_evidence :
    (¬∀ (now : Int) (db db' : ContainerTables) (list : ContainersList) (index : ContainerIndex),
      syncContainers now db (.ok list) = .ok (db', index) → OnEvidence db list db') ∧
    ¬∀ (now : Int) (db db' : ContainerTables) (list : ContainersList) (index : ContainerIndex),
      syncContainers now db (.ok list) = .ok (db', index) → ∀ id row, db.folders.lookup id = some row →
        db'.folders.lookup id = none → isGmailSystemFolderLabelId id = false := by
  have hempty : ∀ db skipped, ∃ db' index, syncContainers 7 db (.ok ⟨[], skipped⟩) = .ok (db', index) := by
    intro db skipped
    have hbuild : ∃ index, buildContainerRows [] = .ok ([], index) := ⟨_, rfl⟩
    obtain ⟨index, hbuild⟩ := hbuild
    rw [syncContainers, persistContainers, hbuild]
    dsimp only
    rw [insertFoldersBatch, sort_nil]
    exact ⟨_, _, rfl⟩
  constructor
  · intro hall
    let db : ContainerTables := ⟨∅,
      (∅ : Table String SharedMailbox).insert "alice" ⟨some "Alice", true, none, true, none⟩, ∅⟩
    obtain ⟨db', index, hsync⟩ := hempty db [⟨some "alice"⟩]
    obtain ⟨folders, hs⟩ := synced hsync
    have hcovered := hs.covered (hall 7 db db' _ index hsync)
    obtain ⟨c, hc, -⟩ := (hcovered.skipped "alice" ⟨_, mem_singleton_self _, rfl⟩ _ rfl).mp rfl
    cases hc
  · intro hall
    let db : ContainerTables := 
        ⟨((∅ : Table FolderId FolderRow).insert "folder-Mail" (folderNamed "Mail" none)).insert
      "TRASH" (folderNamed "Trash" (some "folder-Mail")), ∅, ∅⟩
    obtain ⟨db', index, hsync⟩ := hempty db []
    obtain ⟨folders, hs⟩ := synced hsync
    have hunlisted : ∀ id, ¬ ListedFolder [] id := fun id ⟨c, hc, _⟩ => not_mem_nil hc
    have hreap : Reapable db.folders [] "folder-Mail" := ⟨_, rfl, rfl, hunlisted _, by decide⟩
    have hparent : Lib.Cascade.parentOf FolderRow.parentId folders "TRASH" = some "folder-Mail" := by
      rw [parentOf, hs.unlisted "TRASH" (hunlisted _)]
      rfl
    have hsystem := hall 7 db db' _ index hsync "TRASH" _ rfl (hs.gone_of_parent hparent hreap)
    revert hsystem
    decide

end Ratatoskr.Containers

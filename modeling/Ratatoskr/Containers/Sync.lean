import Ratatoskr.Containers.Rows
import Ratatoskr.Lib.Cascade
import Ratatoskr.Lib.ParentsFirst

/-!
# Containers.Sync

`sync_containers` (`service/src/bifrost/containers.rs`): one transaction that upserts the listed folders,
parents first, deletes the personal ones that are not listed, and brings the registries of shared mailboxes
and public folders up to date. Deleting a row of `folders` deletes the rows below it
(`db/src/db/schema/02_mail.sql`). The tables are those of one account; the label table is left out.
-/

namespace Ratatoskr.Containers

open List
open Lib (Table)
open Lib.Cascade (deleteCascade)

structure FolderRow where
  name : String
  visible : Bool
  sortOrder : Int
  imapFolderPath : Option String
  imapSpecialUse : Option String
  namespaceType : Option String
  ownerId : Option String
  contentClass : Option String
  parentId : Option FolderId
  rights : ContainerRights
  isSubscribed : Option Bool
  isUndeletable : Bool

structure SharedMailbox where
  displayName : Option String
  isSyncEnabled : Bool
  emailAddress : Option String
  isVisible : Bool
  revokedAt : Option Int

structure PublicFolderPin where
  isSyncEnabled : Bool
  isVisible : Bool

structure ContainerTables where
  folders : Table FolderId FolderRow
  sharedMailboxes : Table String SharedMailbox
  publicFolderPins : Table FolderId PublicFolderPin

/-- `owner` is whose mailbox the scope is, where it is a mailbox. -/
structure SkippedScope where
  owner : Option String

structure ContainersList where
  containers : List Container
  skippedScopes : List SkippedScope

section

variable {ρ κ : Type} [DecidableEq κ] {key : ρ → κ} {parent : ρ → Option κ} {rows sorted : List ρ}

def sortParentFirst (key : ρ → κ) (parent : ρ → Option κ) (rows : List ρ) : Except String (List ρ) :=
  match Lib.ParentsFirst.sort key parent rows with
  | some sorted => .ok sorted
  | none => .error "folder parent cycle or unresolved parent in batch"

theorem sortParentFirst_eq_ok :
    sortParentFirst key parent rows = .ok sorted ↔ Lib.ParentsFirst.sort key parent rows = some sorted := by
  rw [sortParentFirst]
  split <;> simp [*]

end

def sortFoldersParentFirst : List FolderWriteRow → Except String (List FolderWriteRow) :=
  sortParentFirst FolderWriteRow.id FolderWriteRow.parentId

theorem sortFoldersParentFirst_perm {rows sorted : List FolderWriteRow}
    (h : sortFoldersParentFirst rows = .ok sorted) :
    sorted.Perm rows :=
  (Lib.ParentsFirst.sort_spec (sortParentFirst_eq_ok.mp h)).1

/-- The columns that are not given take their defaults, over an old row as well. -/
def FolderWriteRow.stored (row : FolderWriteRow) : FolderRow where
  name := row.name
  visible := row.visible.getD true
  sortOrder := row.sortOrder.getD 0
  imapFolderPath := row.imapFolderPath
  imapSpecialUse := row.imapSpecialUse
  namespaceType := row.namespaceType
  ownerId := row.ownerId
  contentClass := row.contentClass
  parentId := row.parentId
  rights := row.rights
  isSubscribed := row.isSubscribed
  isUndeletable := row.isUndeletable

def upsertFolder (folders : Table FolderId FolderRow) (row : FolderWriteRow) :
    Except String (Table FolderId FolderRow) :=
  let folders := folders.insert row.id row.stored
  if row.parentId.all (fun parent => (folders.lookup parent).isSome) then .ok folders
  else .error "upsert folder: FOREIGN KEY constraint failed"

def insertFoldersBatch (folders : Table FolderId FolderRow) (rows : List FolderWriteRow) :
    Except String (Table FolderId FolderRow) :=
  match sortFoldersParentFirst rows with
  | .error e => .error e
  | .ok sorted => sorted.foldlM upsertFolder folders

def isGmailSystemFolderLabelId (id : FolderId) : Bool :=
  id ∈ Actions.systemFolderIds || id = "CHAT" || Actions.startsWith id "CATEGORY_"

def folderIdsToReap (existing snapshot : List FolderId) : List FolderId :=
  (existing.filter (fun id => id ∉ snapshot)).filter (fun id => !isGmailSystemFolderLabelId id)

/-- `SELECT id FROM folders WHERE namespace_type IS NULL` -/
def personalFolders (folders : Table FolderId FolderRow) : List FolderId :=
  (folders.rows.filter (fun row => row.2.namespaceType = none)).map Prod.fst

def reapMissingPersonalFolders (folders : Table FolderId FolderRow) (rows : List FolderWriteRow) :
    Table FolderId FolderRow :=
  (folderIdsToReap (personalFolders folders) (rows.map FolderWriteRow.id)).foldl
    (deleteCascade FolderRow.parentId) folders

/-! ## Registries -/

def upsertMailbox (mailboxes : Table String SharedMailbox) (owner name : String) :
    Table String SharedMailbox :=
  match mailboxes.lookup owner with
  | none => mailboxes.insert owner ⟨some name, false, none, true, none⟩
  | some row => mailboxes.insert owner { row with displayName := some name, revokedAt := none }

def setOwnerEmail (mailboxes : Table String SharedMailbox) (owner : String) :
    Option String → Table String SharedMailbox
  | none => mailboxes
  | some email => mailboxes.update (fun m row =>
      if m = owner ∧ row.emailAddress = none then { row with emailAddress := some email } else row)

def registerOwner (index : ContainerIndex) (state : List String × Table String SharedMailbox)
    (c : Container) : List String × Table String SharedMailbox :=
  match index.namespaces.lookup c.nativeId with
  | some (.shared owner) =>
    if owner ∈ state.1 then state
    else (owner :: state.1, setOwnerEmail (upsertMailbox state.2 owner c.name) owner c.ownerEmail)
  | _ => state

/-- Without owners the statement has no `NOT IN`, which comes to the same. -/
def revokeMissing (now : Int) (owners : List String) (mailboxes : Table String SharedMailbox) :
    Table String SharedMailbox :=
  mailboxes.update (fun m row =>
    if row.revokedAt = none ∧ m ∉ owners then { row with revokedAt := some now } else row)

def registerPin (index : ContainerIndex) (pins : Table FolderId PublicFolderPin) (c : Container) :
    Table FolderId PublicFolderPin :=
  match index.namespaces.lookup c.nativeId with
  | some (.publicFolder id) =>
    match pins.lookup id with
    | some _ => pins
    | none => pins.insert id ⟨false, true⟩
  | _ => pins

def registerOwners (index : ContainerIndex) (containers : List Container)
    (mailboxes : Table String SharedMailbox) : List String × Table String SharedMailbox :=
  containers.foldl (registerOwner index) ([], mailboxes)

def persistContainers (now : Int) (db : ContainerTables) (containers : List Container) :
    Except String (ContainerTables × ContainerIndex) :=
  match buildContainerRows containers with
  | .error e => .error e
  | .ok (rows, index) =>
    match insertFoldersBatch db.folders rows with
    | .error e => .error e
    | .ok folders =>
      let (owners, mailboxes) := registerOwners index containers db.sharedMailboxes
      .ok ({
        folders := reapMissingPersonalFolders folders rows
        sharedMailboxes := revokeMissing now owners mailboxes
        publicFolderPins := containers.foldl (registerPin index) db.publicFolderPins }, index)

def syncContainers (now : Int) (db : ContainerTables) (answer : Except String ContainersList) :
    Except String (ContainerTables × ContainerIndex) :=
  match answer with
  | .error e => .error ("containers_list: " ++ e)
  | .ok list => persistContainers now db list.containers

def lastRow (sorted : List FolderWriteRow) (id : FolderId) : Option FolderWriteRow :=
  (sorted.filter (fun row => row.id = id)).getLast?

theorem lastRow_isSome_iff {sorted : List FolderWriteRow} {id : FolderId} :
    (lastRow sorted id).isSome ↔ id ∈ sorted.map FolderWriteRow.id := by
  rw [lastRow, getLast?_isSome, mem_map]
  constructor
  · intro hne
    obtain ⟨row, hrow⟩ := exists_mem_of_ne_nil _ hne
    obtain ⟨hmem, hid⟩ := mem_filter.mp hrow
    exact ⟨row, hmem, of_decide_eq_true hid⟩
  · rintro ⟨row, hmem, hid⟩ hnil
    have hrow : row ∈ sorted.filter (fun row => row.id = id) :=
      mem_filter.mpr ⟨hmem, decide_eq_true hid⟩
    rw [hnil] at hrow
    cases hrow

theorem lookup_upserts {sorted : List FolderWriteRow} {folders folders' : Table FolderId FolderRow}
    (h : sorted.foldlM upsertFolder folders = .ok folders') (id : FolderId) :
    folders'.lookup id = ((lastRow sorted id).map FolderWriteRow.stored).or (folders.lookup id) := by
  have hfold : folders' = sorted.foldl (fun t row => AList.insert row.id row.stored t) folders := by
    induction sorted generalizing folders with
    | nil =>
      cases h
      rfl
    | cons row sorted ih =>
      obtain ⟨folders₁, hone, hrest⟩ := Lib.foldlM_cons_eq_ok.mp h
      rw [upsertFolder] at hone
      split at hone
      · cases hone
        exact ih hrest
      · cases hone
  rw [hfold]
  exact Table.lookup_foldl_insert FolderWriteRow.id FolderWriteRow.stored sorted folders id

theorem lookup_upsertMailbox_self (mailboxes : Table String SharedMailbox) (owner name : String) :
    ∃ row, (upsertMailbox mailboxes owner name).lookup owner = some row ∧ row.revokedAt = none := by
  unfold upsertMailbox
  split
  · exact ⟨_, AList.lookup_insert _, rfl⟩
  · exact ⟨_, AList.lookup_insert _, rfl⟩

theorem lookup_upsertMailbox_ne {mailboxes : Table String SharedMailbox} {owner other name : String}
    (h : other ≠ owner) : (upsertMailbox mailboxes owner name).lookup other = mailboxes.lookup other := by
  unfold upsertMailbox
  split
  · exact AList.lookup_insert_ne h
  · exact AList.lookup_insert_ne h

theorem revokedAt_setOwnerEmail (mailboxes : Table String SharedMailbox) (owner other : String)
    (email : Option String) :
    ((setOwnerEmail mailboxes owner email).lookup other).map SharedMailbox.revokedAt =
      (mailboxes.lookup other).map SharedMailbox.revokedAt := by
  cases email with
  | none => rfl
  | some email =>
    rw [setOwnerEmail, Table.lookup_update, Option.map_map]
    refine Option.map_congr ?_
    intro row _
    simp only [Function.comp]
    split
    · rfl
    · rfl

/-- `c` is a container of that owner's mailbox, as the index has it. -/
def Registers (index : ContainerIndex) (owner : String) (c : Container) : Prop :=
  index.namespaces.lookup c.nativeId = some (.shared owner)

instance (index : ContainerIndex) (owner : String) (c : Container) : Decidable (Registers index owner c) :=
  inferInstanceAs (Decidable (_ = _))

def isOpen (mailboxes : Table String SharedMailbox) (owner : String) : Prop :=
  (mailboxes.lookup owner).map SharedMailbox.revokedAt = some none

/-- What registering the owners of some containers does to the mailboxes. -/
structure Registered (index : ContainerIndex) (containers : List Container)
    (state state' : List String × Table String SharedMailbox) : Prop where
  owners : ∀ owner, owner ∈ state'.1 ↔ owner ∈ state.1 ∨ ∃ c ∈ containers, Registers index owner c
  kept : ∀ owner, (¬∃ c ∈ containers, Registers index owner c) →
    (state'.2.lookup owner).map SharedMailbox.revokedAt = (state.2.lookup owner).map SharedMailbox.revokedAt
  opened : (∀ owner ∈ state.1, isOpen state.2 owner) → ∀ owner ∈ state'.1, isOpen state'.2 owner

theorem registerOwner_registered (index : ContainerIndex) (state : List String × Table String SharedMailbox)
    (c : Container) : Registered index [c] state (registerOwner index state c) := by
  have hsingle : ∀ owner, (∃ c' ∈ [c], Registers index owner c') ↔ Registers index owner c := by
    intro owner
    simp
  have hsame : (∀ owner, Registers index owner c → owner ∈ state.1) → Registered index [c] state state := by
    intro hknown
    refine ⟨?_, fun _ _ => rfl, fun hopen => hopen⟩
    intro owner
    rw [hsingle]
    exact ⟨.inl, fun h => h.elim id (hknown owner)⟩
  unfold registerOwner
  split
  · rename_i owner howner
    split
    · rename_i hmem
      refine hsame ?_
      intro other hother
      rw [Registers, howner] at hother
      cases hother
      exact hmem
    · have hrevoked : ∀ other, (((setOwnerEmail (upsertMailbox state.2 owner c.name) owner c.ownerEmail).lookup
          other).map SharedMailbox.revokedAt) =
          ((upsertMailbox state.2 owner c.name).lookup other).map SharedMailbox.revokedAt :=
        fun other => revokedAt_setOwnerEmail _ owner other c.ownerEmail
      have hregisters : ∀ other, Registers index other c ↔ other = owner := by
        intro other
        rw [Registers, howner]
        constructor
        · intro h
          cases h
          rfl
        · rintro rfl
          rfl
      constructor
      · intro other
        rw [hsingle, hregisters, mem_cons, or_comm]
      · intro other hother
        rw [hsingle, hregisters] at hother
        rw [hrevoked, lookup_upsertMailbox_ne hother]
      · intro hopen other hother
        rw [isOpen, hrevoked]
        by_cases heq : other = owner
        · obtain ⟨row, hrow, hnone⟩ := lookup_upsertMailbox_self state.2 owner c.name
          rw [heq, hrow, Option.map_some, hnone]
        · rw [lookup_upsertMailbox_ne heq]
          exact hopen other ((mem_cons.mp hother).resolve_left heq)
  · rename_i hother
    refine hsame ?_
    intro owner howner
    exact absurd howner (hother owner)

theorem registerOwners_registered (index : ContainerIndex) (containers : List Container)
    (state : List String × Table String SharedMailbox) :
    Registered index containers state (containers.foldl (registerOwner index) state) := by
  induction containers generalizing state with
  | nil => exact ⟨by simp, fun _ _ => rfl, fun hopen => hopen⟩
  | cons c containers ih =>
    have hone := registerOwner_registered index state c
    have hrest := ih (registerOwner index state c)
    rw [foldl_cons]
    constructor
    · intro owner
      rw [hrest.owners, hone.owners, or_assoc]
      simp
    · intro owner hnone
      rw [hrest.kept, hone.kept]
      · rintro ⟨c', hc', h⟩
        rw [mem_singleton.mp hc'] at h
        exact hnone ⟨c, mem_cons_self, h⟩
      · rintro ⟨c', hc', h⟩
        exact hnone ⟨c', mem_cons_of_mem _ hc', h⟩
    · intro hopen
      exact hrest.opened (hone.opened hopen)

theorem revokedAt_sync (now : Int) (index : ContainerIndex) (containers : List Container)
    (mailboxes : Table String SharedMailbox) {owner : String} {m : SharedMailbox}
    (hm : mailboxes.lookup owner = some m) :
    ((revokeMissing now (registerOwners index containers mailboxes).1
        (registerOwners index containers mailboxes).2).lookup owner).map SharedMailbox.revokedAt =
      if ∃ c ∈ containers, Registers index owner c then some none
      else some (m.revokedAt.or (some now)) := by
  have hreg := registerOwners_registered index containers ([], mailboxes)
  have howners : owner ∈ (registerOwners index containers mailboxes).1 ↔
      ∃ c ∈ containers, Registers index owner c :=
    (hreg.owners owner).trans (or_iff_right not_mem_nil)
  rw [revokeMissing, Table.lookup_update]
  by_cases hlisted : ∃ c ∈ containers, Registers index owner c
  · have hopen : ((registerOwners index containers mailboxes).2.lookup owner).map SharedMailbox.revokedAt =
        some none :=
      hreg.opened (fun _ h => absurd h not_mem_nil) owner (howners.mpr hlisted)
    obtain ⟨row, hrow, hnone⟩ := Option.map_eq_some_iff.mp hopen
    rw [if_pos hlisted, hrow]
    simp [howners.mpr hlisted, hnone]
  · have hkept : ((registerOwners index containers mailboxes).2.lookup owner).map SharedMailbox.revokedAt =
        some m.revokedAt := by
      rw [registerOwners, hreg.kept owner hlisted, hm]
      rfl
    obtain ⟨row, hrow, heq⟩ := Option.map_eq_some_iff.mp hkept
    have howner : owner ∉ (registerOwners index containers mailboxes).1 := fun h => hlisted (howners.mp h)
    rw [if_neg hlisted, hrow, ← heq]
    cases hrevoked : row.revokedAt with
    | none => simp [hrevoked, howner]
    | some at' => simp [hrevoked]

end Ratatoskr.Containers

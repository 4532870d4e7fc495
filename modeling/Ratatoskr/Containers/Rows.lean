import Ratatoskr.Actions.Engine
import Ratatoskr.Lib.Run

/-!
# Containers.Rows

What a listing of containers becomes (`service/src/bifrost/containers.rs`): every container is a folder, a
label or nothing, and a folder becomes a row of `folders` under the storage id of its kind
(`types/src/folder_label.rs`). Label rows are left out but for their ids, which parents resolve to.
-/

namespace Ratatoskr.Containers

open List
open Actions (NamespaceAttribution validateComponent systemFolderIds startsWith)
open Lib (Table)

abbrev ContainerId := String
abbrev FolderId := String

inductive ContainerKind where
  | folder | label
  deriving DecidableEq

/-- The engine's type is non-exhaustive, as are the next three. -/
inductive FolderRole where
  | inbox | sent | drafts | archive | trash | spam | other (name : String)
  deriving DecidableEq

inductive ContainerNamespace where
  | personal | shared | publicFolders | other
  deriving DecidableEq

inductive ProtocolKind where
  | gmail | graph | jmap | imap | other (name : String)
  deriving DecidableEq

inductive ContentClass where
  | mail | calendar | contacts | other
  deriving DecidableEq

structure ContainerRights where
  mayReadItems : Option Bool
  mayAddItems : Option Bool
  mayRemoveItems : Option Bool
  maySetSeen : Option Bool
  maySetKeywords : Option Bool
  mayCreateChild : Option Bool
  mayRename : Option Bool
  mayDelete : Option Bool
  maySubmit : Option Bool

def ContainerRights.unreported : ContainerRights := ⟨none, none, none, none, none, none, none, none, none⟩

structure Container where
  id : ContainerId
  nativeId : String
  name : String
  kind : ContainerKind
  role : Option FolderRole
  system : Bool
  provider : ProtocolKind
  ns : ContainerNamespace
  owner : Option String
  ownerLocalId : Option String
  ownerEmail : Option String
  parent : Option ContainerId
  contentClass : Option ContentClass
  rights : Option ContainerRights
  isSubscribed : Option Bool

inductive FolderKind where
  | system (id : String)
  | gmailSystem (id : String)
  | graphUser (id : String)
  | jmapUser (id : String)
  | imapUser (path : String)
  | shared (owner : String) (inner : FolderKind)
  | publicFolder (native : String)
  deriving DecidableEq

def FolderKind.storageId : FolderKind → FolderId
  | system id => id
  | gmailSystem id => id
  | graphUser id => "graph-" ++ id
  | jmapUser id => "jmap-" ++ id
  | imapUser path => "folder-" ++ path
  | shared owner inner => "shared:" ++ owner ++ ":" ++ inner.storageId
  | publicFolder id => "public:" ++ id

def component (what : String) (kind : String → FolderKind) (raw : String) : Except String FolderKind :=
  match validateComponent what raw with
  | .error e => .error e
  | .ok () => .ok (kind raw)

def graphUser : String → Except String FolderKind := component "graph folder id" .graphUser

def jmapUser : String → Except String FolderKind := component "jmap mailbox id" .jmapUser

def imapUser : String → Except String FolderKind := component "imap folder path" .imapUser

def publicFolder : String → Except String FolderKind := component "public folder id" .publicFolder

def shared (owner : String) (inner : FolderKind) : Except String FolderKind :=
  component "shared mailbox owner" (fun owner => .shared owner inner) owner

def gmailSystem (raw : String) : Except String FolderKind :=
  match validateComponent "gmail system label id" raw with
  | .error e => .error e
  | .ok () =>
    if raw = "CHAT" || startsWith raw "CATEGORY_" then .ok (.gmailSystem raw)
    else .error ("Gmail system folder id `" ++ raw ++ "` is not a non-role system folder")

/-- `FolderKind::parse` for Gmail. -/
def parseGmail (raw : List Char) : Except String FolderKind :=
  match _hrest : Lib.after "shared:".toList raw with
  | some rest =>
    match _hinner : Lib.splitFirst ':' rest with
    | some (owner, inner) =>
      if owner = [] then .error ("shared folder id `" ++ String.ofList raw ++ "` has no owner")
      else if inner = [] then .error ("shared folder id `" ++ String.ofList raw ++ "` has no local id")
      else (parseGmail inner).map (.shared (String.ofList owner))
    | none =>
      if rest = [] then .error ("shared folder id `" ++ String.ofList raw ++ "` has no owner")
      else .error ("shared folder id `" ++ String.ofList raw ++ "` has no local id")
  | none =>
    match Lib.after "public:".toList raw with
    | some native => publicFolder (String.ofList native)
    | none =>
      if String.ofList raw ∈ systemFolderIds then .ok (.system (String.ofList raw))
      else gmailSystem (String.ofList raw)
termination_by raw.length
decreasing_by
  have hle := Lib.after_length _hrest
  have hlt := Lib.splitFirst_length _hinner
  omega

def roleToSystemFolderId : FolderRole → Option String
  | .inbox => some "INBOX"
  | .sent => some "SENT"
  | .drafts => some "DRAFT"
  | .archive => some "archive"
  | .trash => some "TRASH"
  | .spam => some "SPAM"
  | .other _ => none

def ProtocolKind.name : ProtocolKind → String
  | gmail => "Gmail"
  | graph => "Graph"
  | jmap => "Jmap"
  | imap => "Imap"
  | other name => name

/-! ## Classification -/

inductive Classified where
  | folder (kind : FolderKind)
  | label (id : String)
  | skip

def isMessageStateLabelId (id : String) : Bool := id = "UNREAD" || id = "STARRED"

/-- The id within the owner's namespace, where there is one. -/
def Container.localId (c : Container) : String := c.ownerLocalId.getD c.nativeId

def baseFolderKind (c : Container) : Except String FolderKind :=
  match c.role.bind roleToSystemFolderId with
  | some id => .ok (.system id)
  | none =>
    match c.provider with
    | .gmail => parseGmail c.localId.toList
    | .graph => graphUser c.localId
    | .jmap => jmapUser c.localId
    | .imap => imapUser c.localId
    | .other name =>
      .error ("container " ++ c.localId ++ ": unsupported folder provider " ++ name)

def sharedOwner (c : Container) : Except String String :=
  match c.owner with
  | some owner => .ok owner
  | none => .error ("shared container " ++ c.nativeId ++ " has no owner")

def unknownNamespace (c : Container) : String := "container " ++ c.nativeId ++ " has unknown namespace"

def folderKindFor (c : Container) : Except String FolderKind :=
  if c.ns = .publicFolders then publicFolder c.nativeId
  else
    match baseFolderKind c with
    | .error e => .error e
    | .ok base =>
      match c.ns with
      | .personal => .ok base
      | .shared =>
        match sharedOwner c with
        | .error e => .error e
        | .ok owner => shared owner base
      | _ => .error (unknownNamespace c)

def labelStorageIdFor (c : Container) : Except String String :=
  match c.provider with
  | .gmail => .ok c.nativeId
  | provider => .error ("container " ++ c.nativeId ++ ": unexpected non-Gmail label from " ++ provider.name)

def classify (c : Container) : Except String Classified :=
  if isMessageStateLabelId c.nativeId then .ok .skip
  else if c.kind = .folder || c.role.isSome || c.system then (folderKindFor c).map .folder
  else (labelStorageIdFor c).map .label

def persistedId (c : Container) : Except String (Option String) :=
  (classify c).map (fun
    | .folder kind => some kind.storageId
    | .label id => some id
    | .skip => none)

def namespaceForContainer (c : Container) : Except String NamespaceAttribution :=
  match c.ns with
  | .personal => .ok .personal
  | .shared => (sharedOwner c).map .shared
  | .publicFolders => (publicFolder c.nativeId).map (fun kind => .publicFolder kind.storageId)
  | .other => .error (unknownNamespace c)

structure FolderWriteRow where
  id : FolderId
  name : String
  visible : Option Bool
  sortOrder : Option Int
  imapFolderPath : Option String
  imapSpecialUse : Option String
  namespaceType : Option String
  ownerId : Option String
  contentClass : Option String
  parentId : Option FolderId
  rights : ContainerRights
  isSubscribed : Option Bool
  isUndeletable : Bool

structure ContainerIndex where
  folderMap : Table String FolderKind
  namespaces : Table String NamespaceAttribution
  storageIds : Table String FolderId
  roles : Table (NamespaceAttribution × FolderRole) String
  mailContainers : Table String Bool

def ContainerIndex.default : ContainerIndex := ⟨∅, ∅, ∅, ∅, ∅⟩

/-- `SYSTEM_FOLDER_ROLES`, by storage id. -/
def imapSpecialUseForStorageId : FolderId → Option String
  | "INBOX" => some "\\Inbox"
  | "DRAFT" => some "\\Drafts"
  | "SENT" => some "\\Sent"
  | "TRASH" => some "\\Trash"
  | "SPAM" => some "\\Junk"
  | "archive" => some "\\Archive"
  | "IMPORTANT" => some "\\Important"
  | _ => none

def contentClassName : ContentClass → String
  | .mail => "Mail"
  | .calendar => "Calendar"
  | .contacts => "Contacts"
  | .other => "Other"

def namespaceType : ContainerNamespace → Option String
  | .personal => none
  | .shared => some "shared"
  | .publicFolders => some "public"
  | .other => none

def folderRow (ids : Table ContainerId String) (c : Container) (storageId : FolderId) : FolderWriteRow where
  id := storageId
  name := c.name
  visible := none
  sortOrder := none
  imapFolderPath := if c.provider = .imap then some c.nativeId else none
  imapSpecialUse := if c.provider = .imap then imapSpecialUseForStorageId storageId else none
  namespaceType := namespaceType c.ns
  ownerId := c.owner
  contentClass := c.contentClass.map contentClassName
  parentId := c.parent.bind ids.lookup
  rights := c.rights.getD .unreported
  isSubscribed := c.isSubscribed
  isUndeletable := c.role.isSome || c.system

def ContainerIndex.add (index : ContainerIndex) (c : Container) (kind : FolderKind)
    (attribution : NamespaceAttribution) : ContainerIndex where
  folderMap := index.folderMap.insert c.nativeId kind
  namespaces := index.namespaces.insert c.nativeId attribution
  storageIds := index.storageIds.insert c.nativeId kind.storageId
  roles :=
    match c.role with
    | some role => index.roles.insert (attribution, role) c.nativeId
    | none => index.roles
  mailContainers := index.mailContainers.insert c.nativeId
    (c.contentClass = none || c.contentClass = some .mail)

/-- The persisted id of every container, by the engine's id. -/
def idToPersisted (containers : List Container) : Except String (Table ContainerId String) :=
  containers.foldlM (fun ids c =>
    match persistedId c with
    | .error e => .error e
    | .ok none => .ok ids
    | .ok (some persisted) => .ok (ids.insert c.id persisted)) ∅

def addContainer (ids : Table ContainerId String) (built : List FolderWriteRow × ContainerIndex)
    (c : Container) : Except String (List FolderWriteRow × ContainerIndex) :=
  match classify c with
  | .error e => .error e
  | .ok .skip => .ok built
  | .ok (.label _) => .ok built
  | .ok (.folder kind) =>
    match namespaceForContainer c with
    | .error e => .error e
    | .ok attribution =>
      .ok (built.1 ++ [folderRow ids c kind.storageId], built.2.add c kind attribution)

def buildContainerRows (containers : List Container) : Except String (List FolderWriteRow × ContainerIndex) :=
  match idToPersisted containers with
  | .error e => .error e
  | .ok ids => containers.foldlM (addContainer ids) ([], .default)

/-- `c` is listed as the folder of that storage id. -/
def ListedFolder (containers : List Container) (id : FolderId) : Prop :=
  ∃ c ∈ containers, ∃ kind, classify c = .ok (.folder kind) ∧ kind.storageId = id

structure Added (containers : List Container) (built built' : List FolderWriteRow × ContainerIndex) : Prop where
  rows : ∀ id, id ∈ built'.1.map FolderWriteRow.id ↔
    id ∈ built.1.map FolderWriteRow.id ∨ ListedFolder containers id
  namespaces : ∀ native attribution, built'.2.namespaces.lookup native = some attribution →
    built.2.namespaces.lookup native = some attribution ∨
      ∃ c ∈ containers, c.nativeId = native ∧ namespaceForContainer c = .ok attribution

variable {built built' : List FolderWriteRow × ContainerIndex}

variable {ids : Table ContainerId String}

theorem addContainer_added
    {c : Container} (h : addContainer ids built c = .ok built') : Added [c] built built' := by
  unfold addContainer at h
  split at h
  · cases h
  · rename_i hclass
    cases h
    refine ⟨fun id => ⟨.inl, ?_⟩, fun _ _ => .inl⟩
    rintro (hid | ⟨c', hc', kind, hkind, -⟩)
    · exact hid
    · rw [mem_singleton.mp hc', hclass] at hkind
      cases hkind
  · rename_i label hclass
    cases h
    refine ⟨fun id => ⟨.inl, ?_⟩, fun _ _ => .inl⟩
    rintro (hid | ⟨c', hc', kind, hkind, -⟩)
    · exact hid
    · rw [mem_singleton.mp hc', hclass] at hkind
      cases hkind
  · rename_i kind hclass
    split at h
    · cases h
    rename_i attribution hattribution
    cases h
    constructor
    · intro id
      rw [map_append, mem_append, map_singleton, mem_singleton]
      refine or_congr_right ⟨?_, ?_⟩
      · rintro rfl
        exact ⟨c, mem_singleton_self c, kind, hclass, rfl⟩
      · rintro ⟨c', hc', kind', hkind', rfl⟩
        rw [mem_singleton.mp hc', hclass] at hkind'
        cases hkind'
        rfl
    · intro native a ha
      rw [ContainerIndex.add, Table.lookup_insert_if] at ha
      split at ha
      · rename_i hnative
        cases ha
        exact .inr ⟨c, mem_singleton_self c, hnative.symm, hattribution⟩
      · exact .inl ha

variable {containers : List Container}

theorem Added.cons {c : Container}
    {built₁ : List FolderWriteRow × ContainerIndex} (h : Added [c] built built₁)
    (h' : Added containers built₁ built') : Added (c :: containers) built built' := by
  constructor
  · intro id
    rw [h'.rows, h.rows, or_assoc]
    simp [ListedFolder]
  · intro native attribution hlookup
    rcases h'.namespaces native attribution hlookup with h₁ | ⟨c', hc', hnative, hattribution⟩
    · rcases h.namespaces native attribution h₁ with h₀ | ⟨c', hc', hnative, hattribution⟩
      · exact .inl h₀
      · rw [mem_singleton.mp hc'] at hnative hattribution
        exact .inr ⟨c, mem_cons_self, hnative, hattribution⟩
    · exact .inr ⟨c', mem_cons_of_mem _ hc', hnative, hattribution⟩

theorem addContainers_added
    (h : containers.foldlM (addContainer ids) built = .ok built') : Added containers built built' := by
  induction containers generalizing built with
  | nil =>
    cases h
    refine ⟨fun id => ⟨.inl, ?_⟩, fun _ _ => .inl⟩
    rintro (hid | ⟨c, hc, -⟩)
    · exact hid
    · cases hc
  | cons c containers ih =>
    obtain ⟨built₁, hone, hrest⟩ := Lib.foldlM_cons_eq_ok.mp h
    exact (addContainer_added hone).cons (ih hrest)

section Built

variable {containers : List Container} {rows : List FolderWriteRow} {index : ContainerIndex}

theorem buildContainerRows_added (h : buildContainerRows containers = .ok (rows, index)) :
    Added containers ([], .default) (rows, index) := by
  rw [buildContainerRows] at h
  split at h
  · cases h
  · exact addContainers_added h

theorem mem_rows_iff (h : buildContainerRows containers = .ok (rows, index)) {id : FolderId} :
    id ∈ rows.map FolderWriteRow.id ↔ ListedFolder containers id := by
  have hrows := (buildContainerRows_added h).rows id
  exact hrows.trans (or_iff_right not_mem_nil)

theorem exists_of_namespace (h : buildContainerRows containers = .ok (rows, index)) {native : String}
    {attribution : NamespaceAttribution} (hlookup : index.namespaces.lookup native = some attribution) :
    ∃ c ∈ containers, c.nativeId = native ∧ namespaceForContainer c = .ok attribution := by
  rcases (buildContainerRows_added h).namespaces native attribution hlookup with hnone | hc
  · cases hnone
  · exact hc

end Built

end Ratatoskr.Containers

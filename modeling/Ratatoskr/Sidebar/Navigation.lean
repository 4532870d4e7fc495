import Mathlib.Data.Char
import Mathlib.Data.List.Lex
import Ratatoskr.Sidebar.Scoped

/-!
# Sidebar.Navigation

The entries of the sidebar with their unread pills (`core/src/db/queries_extra/navigation.rs`), the
selection that each entry makes (`types/src/sidebar_selection.rs`, `app/src/ui/sidebar`) and the threads
that a selection loads (`app/src/helpers.rs`).

`listed` is the condition of an entry: `selects_listed` and `unreadCount_of_mem` say that its list and its
pill follow it.
-/

namespace Ratatoskr.Sidebar

open Lib.Relation
open SmartFolder (AccountScope)

inductive SystemFolder where
  | sent | draft | trash | spam

inductive VirtualView where
  | starred | snoozed | allMail

inductive Bundle where
  | primary | updates | promotions | social | newsletters

inductive FeatureView where
  | tasks | attachments

inductive SidebarSelection where
  | inbox
  | folder (f : SystemFolder)
  | virtualView (v : VirtualView)
  | bundle (b : Bundle)
  | featureView (v : FeatureView)
  | smartFolder (id : String)
  | providerFolder (id : FolderId)
  | labelGroup (id : Int)

def SystemFolder.asFolderIdStr : SystemFolder → FolderId
  | .sent => "SENT"
  | .draft => "DRAFT"
  | .trash => "TRASH"
  | .spam => "SPAM"

def SidebarSelection.folderIdForThreadQuery : SidebarSelection → Option FolderId
  | .inbox => some "INBOX"
  | .folder f => some f.asFolderIdStr
  | .providerFolder id => some id
  | _ => none

def universalFolderSelection (id : String) : SidebarSelection :=
  match id with
  | "INBOX" => .inbox
  | "STARRED" => .virtualView .starred
  | "SENT" => .folder .sent
  | "DRAFT" => .folder .draft
  | "SNOOZED" => .virtualView .snoozed
  | "TRASH" => .folder .trash
  | "SPAM" => .folder .spam
  | "all-mail" => .virtualView .allMail
  | "BUNDLE_PRIMARY" => .bundle .primary
  | "BUNDLE_UPDATES" => .bundle .updates
  | "BUNDLE_PROMOTIONS" => .bundle .promotions
  | "BUNDLE_SOCIAL" => .bundle .social
  | "BUNDLE_NEWSLETTERS" => .bundle .newsletters
  | "TASKS" => .featureView .tasks
  | "ATTACHMENTS" => .featureView .attachments
  | other => .providerFolder other

/-- `folder_kind` with the entry's id; that of a label group is the decimal text of a number, which the
sidebar parses back. -/
inductive EntryId where
  | universal (id : String)
  | smartFolder (id : String)
  | accountFolder (id : FolderId)
  | labelGroup (id : Int)

structure NavigationFolder where
  id : EntryId
  unreadCount : Nat

def NavigationFolder.selection (entry : NavigationFolder) : SidebarSelection :=
  match entry.id with
  | .universal id => universalFolderSelection id
  | .smartFolder id => .smartFolder id
  | .accountFolder id => .providerFolder id
  | .labelGroup id => .labelGroup id

def sidebarUniversalFolders : List String :=
  ["INBOX", "STARRED", "SNOOZED", "SENT", "DRAFT", "archive", "TRASH", "SPAM", "all-mail"]

/-- The ids of `SYSTEM_FOLDER_ROLES` -/
def systemFolderRoles : List FolderId := ["INBOX", "DRAFT", "SENT", "TRASH", "SPAM", "archive", "IMPORTANT"]

/-- `counts.iter().find(|c| c.folder_id == id)` -/
def unreadOf (counts : List FolderUnreadCount) (id : FolderId) : Nat :=
  ((counts.find? fun c => c.folderId = id).map FolderUnreadCount.unreadCount).getD 0

def buildUniversalFolders (db : Tables) (scope : AccountScope) : List NavigationFolder :=
  let counts := getUnreadCountsByFolder db scope
  sidebarUniversalFolders.map fun id => ⟨.universal id, unreadOf counts id⟩

/-- The folders of the account, in the order of the sidebar. -/
def getFoldersForNavigation (db : Tables) (account : AccountId) : List FolderRow :=
  (db.folders.filter fun f => f.accountId = account).insertionSort fun a b =>
    a.sortOrder < b.sortOrder ∨ (a.sortOrder = b.sortOrder ∧ a.name ≤ b.name)

def getFolderUnreadCounts (db : Tables) (account : AccountId) : List (FolderId × Nat) :=
  countBy (fun row => row.2.folderId) ((join db.threads db.threadFolders folderOf).filter fun row =>
    row.1.accountId = account && unreadRow row.1 && personal row.1)

/-- The visible folders without a role, each with its count. -/
def accountFolders (db : Tables) (account : AccountId) (unreadByFolder : List (FolderId × Nat)) :
    List NavigationFolder :=
  ((getFoldersForNavigation db account).filter fun folder =>
      !systemFolderRoles.contains folder.id && folder.visible != 0).map
    fun folder => ⟨.accountFolder folder.id, (unreadByFolder.lookup folder.id).getD 0⟩

def buildAccountFolders (db : Tables) (account : AccountId) : List NavigationFolder :=
  accountFolders db account (getFolderUnreadCounts db account)

/-- Each pair of an unread thread and a group that it renders, by group. -/
def labelGroupUnreadCounts (db : Tables) (condition : ThreadRow → Bool) : List (Int × Nat) :=
  let pairs := (join db.threads db.labelGroups fun _ _ => true).filter fun row =>
    condition row.1 && userVisibleLabelGroupRendered db (fun lg => lg.id = row.2.id) row.1
  countBy (fun row => row.2.id) (groupBy (fun row => (row.1.accountId, row.1.id, row.2.id)) pairs)

def loadLabelGroupUnreadCounts (db : Tables) (scope : AccountScope) : List (Int × Nat) :=
  labelGroupUnreadCounts db fun t => accountScopeClause scope t.accountId && unreadRow t && personal t

/-- `COLLATE NOCASE` compares ASCII letters in lower case. -/
def buildLabelGroupsFromCounts (db : Tables) (unreadByGroup : List (Int × Nat)) : List NavigationFolder :=
  (db.labelGroups.insertionSort fun a b => a.sortOrder < b.sortOrder ∨ (a.sortOrder = b.sortOrder ∧
      a.name.toList.map Char.toLower ≤ b.name.toList.map Char.toLower)).map
    fun group => ⟨.labelGroup group.id, (unreadByGroup.lookup group.id).getD 0⟩

def buildLabelGroups (db : Tables) (scope : AccountScope) : List NavigationFolder :=
  buildLabelGroupsFromCounts db (loadLabelGroupUnreadCounts db scope)

/-- `smart` are the smart folders with their counts, which do not depend on the scope. -/
def getNavigationState (db : Tables) (smart : List (String × Nat)) (scope : AccountScope) :
    List NavigationFolder :=
  buildUniversalFolders db scope ++ smart.map (fun folder => ⟨.smartFolder folder.1, folder.2⟩) ++
    buildLabelGroups db scope ++
    match scope with
    | .single account => buildAccountFolders db account
    | _ => []

/-! ## Loading -/

structure Thread where
  id : ThreadId
  accountId : AccountId
  lastMessageAt : Option Int
  messageCount : Int
  isRead : Bool
  isStarred : Bool
  isPinned : Bool
  isMuted : Bool
  hasAttachments : Bool
  fromName : Option String
  fromAddress : Option String
  isLocalDraft : Bool

def Thread.fromDbThread (t : DbThread) : Thread where
  id := t.id
  accountId := t.accountId
  lastMessageAt := t.lastMessageAt
  messageCount := t.messageCount
  isRead := t.isRead
  isStarred := t.isStarred
  isPinned := t.isPinned
  isMuted := t.isMuted
  hasAttachments := t.hasAttachments
  fromName := t.fromName
  fromAddress := t.fromAddress
  isLocalDraft := false

def Thread.fromLocalDraft (d : LocalDraftSummary) : Thread where
  id := d.id
  accountId := d.accountId
  lastMessageAt := some d.updatedAt
  messageCount := 1
  isRead := true
  isStarred := false
  isPinned := false
  isMuted := false
  hasAttachments := false
  fromName := none
  fromAddress := none
  isLocalDraft := true

/-- `sort_by_key(|t| Reverse(t.last_message_at))`: `None` is the least. -/
def byLastMessage (threads : List Thread) : List Thread :=
  threads.insertionSort fun a b => descending a.lastMessageAt b.lastMessageAt = true

def loadThreadsScoped (db : Tables) (scope : AccountScope) (limit : Int) (labelId : Option FolderId) :
    Except String (List Thread) :=
  if labelId = some "DRAFT" then
    match getDraftsView db scope (some limit) none with
    | .error e => .error e
    | .ok drafts =>
      .ok (byLastMessage (drafts.syncedThreads.map Thread.fromDbThread ++
        drafts.localDrafts.map Thread.fromLocalDraft))
  else (getThreadsScoped db scope labelId (some limit) none).map (List.map Thread.fromDbThread)

/-- `bundleView` is `load_threads_for_bundle_view`, whose table is not among these. -/
def loadPersonalScopeThreads (db : Tables) (bundleView : Bundle → Except String (List Thread))
    (scope : AccountScope) (limit : Int) : SidebarSelection → Except String (List Thread)
  | .bundle bundle => bundleView bundle
  | .featureView _ => .ok []
  | .labelGroup group =>
    (getThreadsForLabelGroup db scope group (some limit) none).map (List.map Thread.fromDbThread)
  | .virtualView .starred => (getStarredThreads db scope (some limit) none).map (List.map Thread.fromDbThread)
  | .virtualView .snoozed => (getSnoozedThreads db scope (some limit) none).map (List.map Thread.fromDbThread)
  | .virtualView .allMail => loadThreadsScoped db scope limit none
  | .smartFolder _ => .ok []
  | selection => loadThreadsScoped db scope limit selection.folderIdForThreadQuery

end Ratatoskr.Sidebar

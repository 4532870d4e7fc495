import Ratatoskr.Mail.DriveEnd
import Ratatoskr.Sidebar.SharedQueries

/-!
# Sidebar.Shared

The entries of a shared mailbox, their pills (`core/src/db/queries_extra/navigation.rs`) and what they load
(`load_threads_for_current_view` in `app/src/helpers.rs`). The pills are counted by statements that run, the
lists by statements that are never prepared, so that no entry opens.

The pills would disagree without that too: the system entries are looked up under the ids of the personal
mailbox, and the folders of a shared mailbox are stored under qualified ids.
-/

namespace Ratatoskr.Sidebar

open List
open Actions (NamespaceAttribution)
open Lib.Relation
open Mail (qualifiedId)

/-- The unread threads of the mailbox by folder; chat threads are counted. -/
def sharedUnreadByFolder (db : Tables) (account : AccountId) (mailbox : String) : List (FolderId × Nat) :=
  countBy (fun row => row.2.folderId) ((join db.threads db.threadFolders folderOf).filter fun row =>
    inMailbox account mailbox row.1 && unreadRow row.1)

def loadLabelGroupUnreadCountsForSharedMailbox (db : Tables) (account : AccountId) (mailbox : String) :
    List (Int × Nat) :=
  labelGroupUnreadCounts db fun t => inMailbox account mailbox t && unreadRow t && notChat t

def getSharedMailboxNavigation (db : Tables) (account : AccountId) (mailbox : String) :
    List NavigationFolder :=
  let unreadByFolder := sharedUnreadByFolder db account mailbox
  sidebarUniversalFolders.map (fun id => ⟨.universal id, (unreadByFolder.lookup id).getD 0⟩) ++
    accountFolders db account unreadByFolder ++
    buildLabelGroupsFromCounts db (loadLabelGroupUnreadCountsForSharedMailbox db account mailbox)

def loadSharedMailboxThreads (db : Tables) (account : AccountId) (mailbox : String) (limit : Int)
    (labelId : Option FolderId) : Except String (List Thread) :=
  (getThreadsForSharedMailbox db account mailbox labelId (some limit)).map (List.map Thread.fromDbThread)

/-- The branch of a shared mailbox; the source's limit is 1000. -/
def loadThreadsForSharedView (db : Tables) (account : AccountId) (mailbox : String) (limit : Int) :
    SidebarSelection → Except String (List Thread)
  | .labelGroup group =>
    (getThreadsForSharedMailboxLabelGroup db account mailbox group (some limit)).map
      (List.map Thread.fromDbThread)
  | .virtualView .starred =>
    (getThreadsForSharedMailboxStarred db account mailbox (some limit)).map (List.map Thread.fromDbThread)
  | .virtualView .snoozed =>
    (getThreadsForSharedMailboxSnoozed db account mailbox (some limit)).map (List.map Thread.fromDbThread)
  | .virtualView .allMail => loadSharedMailboxThreads db account mailbox limit none
  | .smartFolder _ => .ok []
  | selection => loadSharedMailboxThreads db account mailbox limit selection.folderIdForThreadQuery

structure SharedListsOpen (db : Tables) (account : AccountId) (mailbox : String) (limit : Int) : Prop where
  folders : ∀ labelId, ∃ threads,
    getThreadsForSharedMailbox db account mailbox labelId (some limit) = .ok threads
  starred : ∃ threads, getThreadsForSharedMailboxStarred db account mailbox (some limit) = .ok threads
  snoozed : ∃ threads, getThreadsForSharedMailboxSnoozed db account mailbox (some limit) = .ok threads
  labelGroups : ∀ group, ∃ threads,
    getThreadsForSharedMailboxLabelGroup db account mailbox group (some limit) = .ok threads

/-- The entries that are not a system folder: the virtual views, the account's folders, the label groups. -/
def EntryId.hasSharedPill : EntryId → Bool
  | .universal id => ["STARRED", "SNOOZED", "all-mail"].contains id
  | .smartFolder _ => false
  | .accountFolder _ => true
  | .labelGroup _ => true

def SharedPillsAgree (db : Tables) (account : AccountId) (mailbox : String) (limit : Int) : Prop :=
  ∀ entry ∈ getSharedMailboxNavigation db account mailbox, entry.id.hasSharedPill = true →
    ∃ loaded, loadThreadsForSharedView db account mailbox limit entry.selection = .ok loaded ∧
      entry.unreadCount = loaded.countP fun t => !t.isRead

/-- A role's entry lists the threads of the mailbox that are in its own folder of that role. -/
def SharedRolesList (db : Tables) (account : AccountId) (mailbox : String) (limit : Int) : Prop :=
  ∀ role ∈ ["INBOX", "SENT", "TRASH", "SPAM"],
    ∃ loaded, loadThreadsForSharedView db account mailbox limit (universalFolderSelection role) = .ok loaded ∧
      (loaded.map fun t => (t.accountId, t.id)).Perm
        ((db.threads.filter fun t => inMailbox account mailbox t && notChat t &&
          inFolder db (qualifiedId (.shared mailbox) role) t).map ThreadRow.key)

structure SharedEntriesAgree (db : Tables) (account : AccountId) (mailbox : String) (limit : Int) : Prop where
  opens : SharedListsOpen db account mailbox limit
  pills : SharedPillsAgree db account mailbox limit
  roles : SharedRolesList db account mailbox limit

section Shared

variable (db : Tables) (account : AccountId) (mailbox : String) (limit : Int)

theorem loadThreadsForSharedView_error {selection : SidebarSelection} (h : ∀ id, selection ≠ .smartFolder id) :
    loadThreadsForSharedView db account mailbox limit selection = .error noSuchColumn := by
  have hfolder : ∀ labelId, loadSharedMailboxThreads db account mailbox limit labelId =
      .error noSuchColumn := by
    intro labelId
    rw [loadSharedMailboxThreads, getThreadsForSharedMailbox_error]
    rfl
  cases selection with
  | smartFolder id => exact absurd rfl (h id)
  | labelGroup group =>
    rw [loadThreadsForSharedView, getThreadsForSharedMailboxLabelGroup_error]
    rfl
  | virtualView v =>
    cases v with
    | starred =>
      rw [loadThreadsForSharedView, getThreadsForSharedMailboxStarred, sharedMailboxThreadsByFlag_error]
      rfl
    | snoozed =>
      rw [loadThreadsForSharedView, getThreadsForSharedMailboxSnoozed, sharedMailboxThreadsByFlag_error]
      rfl
    | allMail => exact hfolder none
  | inbox => exact hfolder _
  | folder f => exact hfolder _
  | bundle b => exact hfolder _
  | featureView v => exact hfolder _
  | providerFolder id => exact hfolder _

theorem shared_entries_never_agree :
    ¬ SharedListsOpen db account mailbox limit ∧ ¬ SharedPillsAgree db account mailbox limit ∧
      ¬ SharedRolesList db account mailbox limit := by
  refine ⟨fun h => ?_, fun h => ?_, fun h => ?_⟩
  · obtain ⟨threads, hthreads⟩ := h.folders none
    rw [getThreadsForSharedMailbox_error] at hthreads
    cases hthreads
  · have hentry : ⟨.universal "STARRED", ((sharedUnreadByFolder db account mailbox).lookup "STARRED").getD 0⟩ ∈
        getSharedMailboxNavigation db account mailbox :=
      mem_append_left _ (mem_append_left _ (mem_map.mpr ⟨"STARRED", by decide, rfl⟩))
    obtain ⟨loaded, hloaded, _⟩ := h _ hentry rfl
    rw [NavigationFolder.selection, loadThreadsForSharedView_error] at hloaded
    · cases hloaded
    · intro id heq
      cases heq
  · obtain ⟨loaded, hloaded, _⟩ := h "INBOX" mem_cons_self
    rw [loadThreadsForSharedView_error] at hloaded
    · cases hloaded
    · intro id heq
      cases heq

end Shared

def emptyTables : Tables where
  threads := []
  threadFolders := []
  messages := []
  folders := []
  labelGroups := []
  labelGroupMembers := []
  threadLabels := []
  pendingIntents := []
  localDrafts := []
  threads_key := no_threads
  threadFolders_key := nodup_nil
  labelGroups_key := nodup_nil

theorem empty_mailbox_does_not_open : ¬ SharedEntriesAgree emptyTables "acc" "team@x.org" 1000 := by
  intro h
  obtain ⟨threads, hthreads⟩ := h.opens.starred
  rw [getThreadsForSharedMailboxStarred, sharedMailboxThreadsByFlag_error] at hthreads
  cases hthreads

end Ratatoskr.Sidebar

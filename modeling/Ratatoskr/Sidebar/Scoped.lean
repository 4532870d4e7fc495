import Ratatoskr.Sidebar.Tables

/-!
# Sidebar.Scoped

The thread lists and counts of an account scope (`db/src/db/queries_extra/scoped_queries.rs`), each as the
relational meaning of its statement.

A list is described by one condition on threads: `Selects db p result` says that `result` reads the threads
with `p`, each once. `selects_threads` is the rule for a statement over `threads`, `selects_folder` the one
for a statement that joins `thread_folders` and groups.
-/

namespace Ratatoskr.Sidebar

open List
open Lib.Relation
open SmartFolder (AccountScope)

/-- `account_scope_clause` and `scope_clause_for_threads` -/
def accountScopeClause : AccountScope → AccountId → Bool
  | .single id, account => account = id
  | .multiple ids, account => ids.contains account
  | .all, _ => true

/-- `namespace_kind IS NULL AND is_chat_thread = 0` -/
def personal (t : ThreadRow) : Bool := t.namespaceKind = none && t.isChatThread = 0

/-- `{scope_clause} AND t.namespace_kind IS NULL AND t.is_chat_thread = 0` -/
def inScope (scope : AccountScope) (t : ThreadRow) : Bool :=
  accountScopeClause scope t.accountId && personal t

def broadInboxExclusions : List FolderId := ["DRAFT", "TRASH", "SENT", "archive", "SPAM"]

def isAllAccountsInbox (scope : AccountScope) (labelId : Option FolderId) : Bool :=
  (match scope with | .all => true | _ => false) && labelId = some "INBOX"

/-- `tf.account_id = t.account_id AND tf.thread_id = t.id` -/
def folderOf (t : ThreadRow) (tf : ThreadFolderRow) : Bool := tf.accountId = t.accountId && tf.threadId = t.id

def broadInboxExclusionClause (db : Tables) (t : ThreadRow) : Bool :=
  !db.threadFolders.any fun tf => folderOf t tf && broadInboxExclusions.contains tf.folderId

def inFolder (db : Tables) (folder : FolderId) (t : ThreadRow) : Bool :=
  db.threadFolders.any fun tf => folderOf t tf && tf.folderId = folder

/-- `FROM threads t LEFT JOIN (latest) m .. WHERE condition` -/
def listThreads (db : Tables) (limit offset : Int) (condition : ThreadRow → Bool) :
    Except String (List DbThread) :=
  collectThreads limit offset
    ((leftJoin db.threads (latestMessage db) ofThread).filter fun row => condition row.1)

/-- `FROM threads t INNER JOIN thread_folders tf .. LEFT JOIN (latest) m ..
WHERE condition AND tf.folder_id = folder` -/
def folderRows (db : Tables) (condition : ThreadRow → Bool) (folder : FolderId) :
    List ((ThreadRow × ThreadFolderRow) × Option MessageRow) :=
  (leftJoin (join db.threads db.threadFolders folderOf) (latestMessage db) fun row m => ofThread row.1 m).filter
    fun row => condition row.1.1 && row.1.2.folderId = folder

/-- `.. GROUP BY t.account_id, t.id` -/
def listFolder (db : Tables) (limit offset : Int) (condition : ThreadRow → Bool) (folder : FolderId) :
    Except String (List DbThread) :=
  collectThreads limit offset
    ((groupBy (fun row => row.1.1.key) (folderRows db condition folder)).map fun row => (row.1.1, row.2))

def getThreadsScoped (db : Tables) (scope : AccountScope) (labelId : Option FolderId)
    (limit offset : Option Int) : Except String (List DbThread) :=
  let lim := limit.getD 50
  let off := offset.getD 0
  if isAllAccountsInbox scope labelId then
    listThreads db lim off fun t => inScope scope t && broadInboxExclusionClause db t
  else
    match labelId with
    | some lid => listFolder db lim off (inScope scope) lid
    | none => listThreads db lim off (inScope scope)

def getThreadsForLabelGroup (db : Tables) (scope : AccountScope) (groupId : Int)
    (limit offset : Option Int) : Except String (List DbThread) :=
  listThreads db (limit.getD 50) (offset.getD 0) fun t =>
    inScope scope t && userVisibleLabelGroupRendered db (fun lg => lg.id = groupId) t

def getFlagThreads (db : Tables) (scope : AccountScope) (flagCol : ThreadRow → Option Int)
    (limit offset : Option Int) : Except String (List DbThread) :=
  listThreads db (limit.getD 50) (offset.getD 0) fun t => inScope scope t && flagCol t = some 1

def getStarredThreads (db : Tables) (scope : AccountScope) (limit offset : Option Int) :
    Except String (List DbThread) :=
  getFlagThreads db scope ThreadRow.isStarred limit offset

def getSnoozedThreads (db : Tables) (scope : AccountScope) (limit offset : Option Int) :
    Except String (List DbThread) :=
  getFlagThreads db scope ThreadRow.isSnoozed limit offset

structure LocalDraftSummary where
  id : String
  accountId : AccountId
  updatedAt : Int

structure DraftsView where
  syncedThreads : List DbThread
  localDrafts : List LocalDraftSummary

def getDraftThreadsSynced (db : Tables) (scope : AccountScope) (limit offset : Option Int) :
    Except String (List DbThread) :=
  listFolder db (limit.getD 50) (offset.getD 0) (inScope scope) "DRAFT"

/-- `sync_status != 'synced'` is not true of `NULL`. -/
def getLocalDraftSummaries (db : Tables) (scope : AccountScope) (limit offset : Option Int) :
    List LocalDraftSummary :=
  let rows := db.localDrafts.filter fun d =>
    accountScopeClause scope d.accountId && d.syncStatus.any (· ≠ "synced")
  (page (limit.getD 50) (offset.getD 0) (rows.insertionSort fun a b => b.updatedAt ≤ a.updatedAt)).map
    fun d => ⟨d.id, d.accountId, d.updatedAt⟩

def getDraftsView (db : Tables) (scope : AccountScope) (limit offset : Option Int) :
    Except String DraftsView := do
  let syncedThreads ← getDraftThreadsSynced db scope limit offset
  return ⟨syncedThreads, getLocalDraftSummaries db scope limit offset⟩

/-- `COUNT(DISTINCT t.account_id || '/' || t.id)` where a folder is given -/
def getThreadCountScoped (db : Tables) (scope : AccountScope) (labelId : Option FolderId) : Nat :=
  if isAllAccountsInbox scope labelId then
    db.threads.countP fun t => inScope scope t && broadInboxExclusionClause db t
  else
    match labelId with
    | some lid =>
      countDistinct (fun row => row.1.accountId ++ "/" ++ row.1.id)
        ((join db.threads db.threadFolders folderOf).filter fun row =>
          inScope scope row.1 && row.2.folderId = lid)
    | none => db.threads.countP (inScope scope)

/-- `t.is_read = 0` -/
def unreadRow (t : ThreadRow) : Bool := t.isRead = some 0

def broadInboxUnreadCount (db : Tables) (scope : AccountScope) : Nat :=
  db.threads.countP fun t => inScope scope t && unreadRow t && broadInboxExclusionClause db t

structure FolderUnreadCount where
  folderId : FolderId
  unreadCount : Nat

def systemFolderIds : List FolderId := ["INBOX", "SENT", "DRAFT", "TRASH", "SPAM", "archive"]

def getSystemFolderUnreadCounts (db : Tables) (scope : AccountScope) : List FolderUnreadCount :=
  let rows := (join db.threads db.threadFolders folderOf).filter fun row =>
    inScope scope row.1 && unreadRow row.1 && systemFolderIds.contains row.2.folderId
  (countBy (fun row => row.2.folderId) rows).map fun count => ⟨count.1, count.2⟩

/-- `flag_column` -/
def flagColumn (folderId : FolderId) : ThreadRow → Option Int :=
  match folderId with
  | "SNOOZED" => ThreadRow.isSnoozed
  | _ => ThreadRow.isStarred

def getFlagFolderUnreadCount (db : Tables) (scope : AccountScope) (folderId : FolderId) : FolderUnreadCount :=
  ⟨folderId, db.threads.countP fun t => inScope scope t && unreadRow t && flagColumn folderId t = some 1⟩

def getAllMailUnreadCount (db : Tables) (scope : AccountScope) : FolderUnreadCount :=
  ⟨"all-mail", db.threads.countP fun t => inScope scope t && unreadRow t⟩

/-- The first row of the folder is given the count; without one a row is added. -/
def setUnreadCount (folder : FolderId) (count : Nat) : List FolderUnreadCount → List FolderUnreadCount
  | [] => [⟨folder, count⟩]
  | row :: rows =>
    if row.folderId = folder then ⟨row.folderId, count⟩ :: rows else row :: setUnreadCount folder count rows

def getUnreadCountsByFolder (db : Tables) (scope : AccountScope) : List FolderUnreadCount :=
  let results := getSystemFolderUnreadCounts db scope ++
    [getFlagFolderUnreadCount db scope "STARRED", getFlagFolderUnreadCount db scope "SNOOZED",
      getAllMailUnreadCount db scope]
  match scope with
  | .all => setUnreadCount "INBOX" (broadInboxUnreadCount db scope) results
  | _ => results

/-! ## What a list selects -/

/-- The list reads the threads with `p`, each once. -/
def Selects (db : Tables) (p : ThreadRow → Bool) (result : Except String (List DbThread)) : Prop :=
  ∃ rows : List (ThreadRow × Option MessageRow),
    (rows.map Prod.fst).Perm (db.threads.filter p) ∧ result = rows.mapM DbThread.fromRow

variable {rows : List (ThreadRow × Option MessageRow)}

theorem selects_collect {db : Tables} {p : ThreadRow → Bool}
    {limit : Int} (hlimit : (db.threads.length : Int) ≤ limit)
    (hrows : rows.map Prod.fst = db.threads.filter p) : Selects db p (collectThreads limit 0 rows) := by
  have hsorted : (rows.insertionSort fun a b => newestFirst a.1 b.1 = true).Perm rows :=
    perm_insertionSort _ _
  have hlength : rows.length ≤ db.threads.length := by
    rw [← length_map Prod.fst, hrows]
    exact length_filter_le _ _
  refine ⟨rows.insertionSort fun a b => newestFirst a.1 b.1 = true, ?_, ?_⟩
  · rw [← hrows]
    exact hsorted.map _
  · rw [collectThreads, page_all]
    rw [hsorted.length_eq]
    omega

theorem map_fst_filter {α β : Type} (rows : List (α × β)) (p : α → Bool) :
    (rows.filter fun row => p row.1).map Prod.fst = (rows.map Prod.fst).filter p := by
  rw [filter_map]
  rfl

theorem selects_threads {db : Tables} {limit : Int} (hlimit : (db.threads.length : Int) ≤ limit)
    (condition : ThreadRow → Bool) : Selects db condition (listThreads db limit 0 condition) := by
  refine selects_collect hlimit ?_
  rw [map_fst_filter, map_fst_leftJoin (latestMessage_nodup db) (latestMessage_unique db)]

theorem folderOf_unique (db : Tables) (condition : ThreadRow → Bool) (folder : FolderId) (t : ThreadRow) :
    ∀ x ∈ db.threadFolders, ∀ y ∈ db.threadFolders,
      (folderOf t x && (condition t && x.folderId = folder)) = true →
      (folderOf t y && (condition t && y.folderId = folder)) = true → x = y := by
  intro x _ y _ hx hy
  obtain ⟨xAccount, xThread, xFolder⟩ := x
  obtain ⟨yAccount, yThread, yFolder⟩ := y
  simp only [folderOf, Bool.and_eq_true, decide_eq_true_eq] at hx hy
  obtain ⟨⟨rfl, rfl⟩, _, rfl⟩ := hx
  obtain ⟨⟨rfl, rfl⟩, _, rfl⟩ := hy
  rfl

theorem any_folderOf (db : Tables) (condition : ThreadRow → Bool) (folder : FolderId) (t : ThreadRow) :
    (db.threadFolders.any fun tf => folderOf t tf && (condition t && tf.folderId = folder)) =
      (condition t && inFolder db folder t) := by
  rw [inFolder, Bool.eq_iff_iff]
  simp only [any_eq_true, Bool.and_eq_true]
  constructor
  · rintro ⟨tf, htf, hof, hcondition, hfolder⟩
    exact ⟨hcondition, tf, htf, hof, hfolder⟩
  · rintro ⟨hcondition, tf, htf, hof, hfolder⟩
    exact ⟨tf, htf, hof, hcondition, hfolder⟩

theorem join_folder_fst (db : Tables) (condition : ThreadRow → Bool) (folder : FolderId) :
    ((join db.threads db.threadFolders folderOf).filter fun row =>
        condition row.1 && row.2.folderId = folder).map Prod.fst =
      db.threads.filter fun t => condition t && inFolder db folder t := by
  rw [join_filter_fst db.threadFolders_key (folderOf_unique db condition folder)]
  exact congrArg db.threads.filter (funext (any_folderOf db condition folder))

theorem folderRows_thread (db : Tables) (condition : ThreadRow → Bool) (folder : FolderId) :
    (folderRows db condition folder).map (Prod.fst ∘ Prod.fst) =
      db.threads.filter fun t => condition t && inFolder db folder t := by
  rw [← map_map, folderRows, map_fst_filter _ fun row : ThreadRow × ThreadFolderRow =>
    condition row.1 && row.2.folderId = folder]
  rw [map_fst_leftJoin (latestMessage_nodup db) fun row => latestMessage_unique db row.1]
  exact join_folder_fst db condition folder

theorem groups_thread (db : Tables) (condition : ThreadRow → Bool) (folder : FolderId) :
    ((groupBy (fun row => row.1.1.key) (folderRows db condition folder)).map fun row => (row.1.1, row.2)).map
      Prod.fst = db.threads.filter fun t => condition t && inFolder db folder t := by
  have hrows := folderRows_thread db condition folder
  have hkeys : ((folderRows db condition folder).map fun row => row.1.1.key).Nodup := by
    have hmap : ((folderRows db condition folder).map fun row => row.1.1.key) =
        ((folderRows db condition folder).map (Prod.fst ∘ Prod.fst)).map ThreadRow.key := by
      rw [map_map]
      rfl
    rw [hmap, hrows]
    exact db.threads_key.sublist (List.filter_sublist.map _)
  rw [groupBy_of_nodup hkeys, map_map]
  exact hrows

theorem selects_folder {db : Tables} {limit : Int} (hlimit : (db.threads.length : Int) ≤ limit)
    (condition : ThreadRow → Bool) (folder : FolderId) :
    Selects db (fun t => condition t && inFolder db folder t) (listFolder db limit 0 condition folder) :=
  selects_collect hlimit (groups_thread db condition folder)

theorem mapM_fromRow_ok (h : ∀ row ∈ rows, row.1.readable = true) :
    ∃ threads, rows.mapM DbThread.fromRow = .ok threads ∧ threads.length = rows.length ∧
      threads.countP (fun t => !t.isRead) = (rows.map Prod.fst).countP unreadRow := by
  induction rows with
  | nil => exact ⟨[], rfl, rfl, rfl⟩
  | cons row rows ih =>
    obtain ⟨threads, hthreads, hlength, hcount⟩ := ih fun r hr => h r (mem_cons_of_mem _ hr)
    obtain ⟨thread, hthread, hread⟩ := fromRow_of_readable (h row mem_cons_self) row.2
    refine ⟨thread :: threads, ?_, ?_, ?_⟩
    · rw [mapM_cons, hthread, hthreads]
      rfl
    · rw [length_cons, length_cons, hlength]
    · have hunread : (!thread.isRead) = unreadRow row.1 := by
        rw [hread, unreadRow, Bool.eq_iff_iff]
        simp
      rw [countP_cons, map_cons, countP_cons, hcount, hunread]

theorem readable_of_mapM {threads : List DbThread}
    (h : rows.mapM DbThread.fromRow = .ok threads) : ∀ row ∈ rows, row.1.readable = true := by
  induction rows generalizing threads with
  | nil =>
    intro row hrow
    cases hrow
  | cons first rows ih =>
    rw [mapM_cons] at h
    cases hfirst : DbThread.fromRow first with
    | error e =>
      rw [hfirst] at h
      cases h
    | ok thread =>
      cases hrest : rows.mapM DbThread.fromRow with
      | error e =>
        rw [hfirst, hrest] at h
        cases h
      | ok rest =>
        intro row hrow
        obtain rfl | hrow := mem_cons.mp hrow
        · exact readable_of_fromRow hfirst
        · exact ih hrest row hrow

section Selects

variable {db : Tables} {p : ThreadRow → Bool} {result : Except String (List DbThread)}

theorem Selects.ok (h : Selects db p result) (hreadable : ∀ t ∈ db.threads, p t = true → t.readable = true) :
    ∃ threads, result = .ok threads ∧ threads.length = db.threads.countP p ∧
      threads.countP (fun t => !t.isRead) = db.threads.countP fun t => p t && unreadRow t := by
  obtain ⟨rows, hperm, rfl⟩ := h
  have hrows : ∀ row ∈ rows, row.1.readable = true := by
    intro row hrow
    obtain ⟨hmem, hp⟩ := mem_filter.mp (hperm.mem_iff.mp (mem_map_of_mem hrow))
    exact hreadable row.1 hmem hp
  obtain ⟨threads, hthreads, hlength, hcount⟩ := mapM_fromRow_ok hrows
  refine ⟨threads, hthreads, ?_, ?_⟩
  · rw [hlength, ← length_map Prod.fst, hperm.length_eq, countP_eq_length_filter]
  · rw [hcount, hperm.countP_eq, countP_filter]
    exact countP_congr fun t _ => by rw [Bool.and_comm]

theorem Selects.readable (h : Selects db p result) {threads : List DbThread} (hresult : result = .ok threads) :
    ∀ t ∈ db.threads, p t = true → t.readable = true := by
  obtain ⟨rows, hperm, rfl⟩ := h
  intro t ht hp
  obtain ⟨row, hrow, rfl⟩ := mem_map.mp (hperm.mem_iff.mpr (mem_filter.mpr ⟨ht, hp⟩))
  exact readable_of_mapM hresult row hrow

end Selects

end Ratatoskr.Sidebar

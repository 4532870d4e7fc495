import Ratatoskr.Lib.Relation
import Ratatoskr.SmartFolder.Query

/-!
# Sidebar.Tables

The tables that the sidebar reads (`db/src/db/schema/02_mail.sql`), across all accounts, and what every
thread list has in common (`db/src/db/from_row_impls.rs`, `db/src/db/sql_fragments.rs`): a thread row with
the sender of its latest message, the order of the rows, their page and how a row is read.

A table is a list of rows; its primary key is a field of `Tables`. The columns that `DEFAULT 0` alone
keeps from `NULL` may be `NULL`. Subjects, snippets, recipients and what only decorates a row are left out.
-/

namespace Ratatoskr.Sidebar

open Lib.Relation

abbrev AccountId := String
abbrev ThreadId := String
abbrev FolderId := String
abbrev LabelId := String

structure ThreadRow where
  accountId : AccountId
  id : ThreadId
  lastMessageAt : Option Int
  messageCount : Option Int
  isRead : Option Int
  isStarred : Option Int
  isImportant : Option Int
  hasAttachments : Option Int
  isSnoozed : Option Int
  isPinned : Option Int
  isMuted : Option Int
  namespaceKind : Option String
  namespaceId : Option String
  isChatThread : Int

def ThreadRow.key (t : ThreadRow) : AccountId × ThreadId := (t.accountId, t.id)

structure ThreadFolderRow where
  accountId : AccountId
  threadId : ThreadId
  folderId : FolderId
  deriving DecidableEq

structure MessageRow where
  accountId : AccountId
  id : String
  threadId : ThreadId
  fromName : Option String
  fromAddress : Option String
  date : Int

structure FolderRow where
  accountId : AccountId
  id : FolderId
  name : String
  visible : Int
  sortOrder : Int

structure LabelGroupRow where
  id : Int
  name : String
  sortOrder : Int

structure LabelGroupMemberRow where
  groupId : Int
  accountId : AccountId
  labelId : LabelId

structure ThreadLabelRow where
  accountId : AccountId
  threadId : ThreadId
  labelId : LabelId

inductive PendingLabelIntentOp where
  | add | remove
  deriving DecidableEq

structure PendingIntentRow where
  accountId : AccountId
  threadId : ThreadId
  labelId : LabelId
  op : PendingLabelIntentOp

structure LocalDraftRow where
  id : String
  accountId : AccountId
  updatedAt : Int
  syncStatus : Option String

structure Tables where
  threads : List ThreadRow
  threadFolders : List ThreadFolderRow
  messages : List MessageRow
  folders : List FolderRow
  labelGroups : List LabelGroupRow
  labelGroupMembers : List LabelGroupMemberRow
  threadLabels : List ThreadLabelRow
  pendingIntents : List PendingIntentRow
  localDrafts : List LocalDraftRow
  threads_key : (threads.map ThreadRow.key).Nodup
  threadFolders_key : threadFolders.Nodup
  labelGroups_key : (labelGroups.map LabelGroupRow.id).Nodup

theorem no_threads : ([] : List (AccountId × ThreadId)).Nodup := List.nodup_nil

theorem Tables.threads_nodup (db : Tables) : db.threads.Nodup := db.threads_key.of_map _

theorem Tables.labelGroups_nodup (db : Tables) : db.labelGroups.Nodup := db.labelGroups_key.of_map _

theorem Tables.eq_of_key (db : Tables) {t u : ThreadRow} (ht : t ∈ db.threads) (hu : u ∈ db.threads)
    (h : t.key = u.key) : t = u :=
  List.inj_on_of_nodup_map db.threads_key ht hu h

/-- `user_visible_label_exists_fragment` -/
def userVisibleLabelExists (db : Tables) (account : AccountId) (thread : ThreadId) (label : LabelId) : Bool :=
  (db.threadLabels.any fun tl =>
      tl.accountId = account && tl.threadId = thread && tl.labelId = label &&
        !db.pendingIntents.any fun pli =>
          pli.accountId = tl.accountId && pli.threadId = tl.threadId && pli.labelId = tl.labelId &&
            pli.op = .remove) ||
    db.pendingIntents.any fun pli =>
      pli.accountId = account && pli.threadId = thread && pli.labelId = label && pli.op = .add

/-- `user_visible_label_group_rendered_fragment` with the columns of a thread -/
def userVisibleLabelGroupRendered (db : Tables) (groupPredicate : LabelGroupRow → Bool) (t : ThreadRow) :
    Bool :=
  (join db.labelGroupMembers db.labelGroups fun lgm lg => lg.id = lgm.groupId).any fun (lgm, lg) =>
    lgm.accountId = t.accountId && groupPredicate lg &&
      userVisibleLabelExists db t.accountId t.id lgm.labelId

structure DbThread where
  id : ThreadId
  accountId : AccountId
  lastMessageAt : Option Int
  messageCount : Int
  isRead : Bool
  isStarred : Bool
  isImportant : Bool
  hasAttachments : Bool
  isSnoozed : Bool
  isPinned : Bool
  isMuted : Bool
  fromName : Option String
  fromAddress : Option String

/-- `row.get::<_, i64>(name)?` -/
def getI64 (index : Nat) (name : String) : Option Int → Except String Int
  | some i => .ok i
  | none => .error ("Invalid column type Null at index: " ++ toString index ++ ", name: " ++ name)

/-- `DbThread::from_row` on `t.*, m.from_name, m.from_address` -/
def DbThread.fromRow : ThreadRow × Option MessageRow → Except String DbThread
  | (t, m) => do
    let messageCount ← getI64 5 "message_count" t.messageCount
    let isRead ← getI64 6 "is_read" t.isRead
    let isStarred ← getI64 7 "is_starred" t.isStarred
    let isImportant ← getI64 8 "is_important" t.isImportant
    let hasAttachments ← getI64 9 "has_attachments" t.hasAttachments
    let isSnoozed ← getI64 10 "is_snoozed" t.isSnoozed
    let isPinned ← getI64 12 "is_pinned" t.isPinned
    let isMuted ← getI64 13 "is_muted" t.isMuted
    return {
      id := t.id
      accountId := t.accountId
      lastMessageAt := t.lastMessageAt
      messageCount
      isRead := isRead != 0
      isStarred := isStarred != 0
      isImportant := isImportant != 0
      hasAttachments := hasAttachments != 0
      isSnoozed := isSnoozed != 0
      isPinned := isPinned != 0
      isMuted := isMuted != 0
      fromName := m.bind MessageRow.fromName
      fromAddress := m.bind MessageRow.fromAddress }

/-- No column that `from_row` wants a number of is `NULL`. -/
def ThreadRow.readable (t : ThreadRow) : Bool :=
  t.messageCount.isSome && t.isRead.isSome && t.isStarred.isSome && t.isImportant.isSome &&
    t.hasAttachments.isSome && t.isSnoozed.isSome && t.isPinned.isSome && t.isMuted.isSome

theorem fromRow_of_readable {t : ThreadRow} (h : t.readable = true) (m : Option MessageRow) :
    ∃ row, DbThread.fromRow (t, m) = .ok row ∧ row.isRead = (t.isRead != some 0) := by
  obtain ⟨account, id, last, count, read, starred, important, attachments, snoozed, pinned, muted, kind,
    ns, chat⟩ := t
  simp only [ThreadRow.readable, Bool.and_eq_true, Option.isSome_iff_exists] at h
  obtain ⟨⟨⟨⟨⟨⟨⟨⟨_, rfl⟩, ⟨read, rfl⟩⟩, ⟨_, rfl⟩⟩, ⟨_, rfl⟩⟩, ⟨_, rfl⟩⟩, ⟨_, rfl⟩⟩, ⟨_, rfl⟩⟩, ⟨_, rfl⟩⟩ := h
  refine ⟨_, rfl, ?_⟩
  rw [Bool.eq_iff_iff]
  simp

theorem readable_of_fromRow {t : ThreadRow} {m : Option MessageRow} {row : DbThread}
    (h : DbThread.fromRow (t, m) = .ok row) : t.readable = true := by
  obtain ⟨account, id, last, count, read, starred, important, attachments, snoozed, pinned, muted, kind,
    ns, chat⟩ := t
  cases count with
  | none => cases h
  | some _ =>
  cases read with
  | none => cases h
  | some _ =>
  cases starred with
  | none => cases h
  | some _ =>
  cases important with
  | none => cases h
  | some _ =>
  cases attachments with
  | none => cases h
  | some _ =>
  cases snoozed with
  | none => cases h
  | some _ =>
  cases pinned with
  | none => cases h
  | some _ =>
  cases muted with
  | none => cases h
  | some _ => rfl

/-! ## Senders and order -/

/-- `LATEST_MESSAGE_SUBQUERY` -/
def latestMessage (db : Tables) : List MessageRow :=
  firstOf (fun m => (m.accountId, m.threadId))
    (fun a b => b.date < a.date || (a.date = b.date && b.id ≤ a.id)) db.messages

/-- `m.account_id = t.account_id AND m.thread_id = t.id` -/
def ofThread (t : ThreadRow) (m : MessageRow) : Bool := m.accountId = t.accountId && m.threadId = t.id

theorem latestMessage_nodup (db : Tables) : (latestMessage db).Nodup :=
  (nodup_firstOf _ _ db.messages).of_map _

theorem latestMessage_unique (db : Tables) (t : ThreadRow) :
    ∀ x ∈ latestMessage db, ∀ y ∈ latestMessage db, ofThread t x = true → ofThread t y = true → x = y := by
  intro x hx y hy hxt hyt
  simp only [ofThread, Bool.and_eq_true, decide_eq_true_eq] at hxt hyt
  refine List.inj_on_of_nodup_map (nodup_firstOf _ _ db.messages) hx hy ?_
  rw [Prod.mk.injEq]
  exact ⟨hxt.1.trans hyt.1.symm, hxt.2.trans hyt.2.symm⟩

/-- `a DESC`: `NULL` is less than every number. -/
def descending : Option Int → Option Int → Bool
  | _, none => true
  | none, some _ => false
  | some a, some b => b ≤ a

/-- `ORDER BY t.is_pinned DESC, t.last_message_at DESC` -/
def newestFirst (a b : ThreadRow) : Bool :=
  if a.isPinned = b.isPinned then descending a.lastMessageAt b.lastMessageAt
  else descending a.isPinned b.isPinned

def collectThreads (limit offset : Int) (rows : List (ThreadRow × Option MessageRow)) :
    Except String (List DbThread) :=
  (page limit offset (rows.insertionSort fun a b => newestFirst a.1 b.1 = true)).mapM DbThread.fromRow

end Ratatoskr.Sidebar

import Ratatoskr.Mail.DriveEnd

/-!
# Mail.Accounts

The mail tables of all accounts, row by row, and the queries over them (`db/src/db/queries_extra/
{thread_persistence,message_membership}.rs`): the aggregate of a thread, its folders, labels and
participants as its messages give them, and the deletion of messages.

The tables of messages and those of threads are two records: a cleanup writes to the second one only. The
rows of a table stand newest first. `emails` is what `parse_address_list` reads from the text of a header,
in lower case. Chat state, label intents and the columns nothing here reads are left out.
-/

namespace Ratatoskr.Mail.Accounts

open Lib (Table)

abbrev AccountId := String

/-- `NULL` is `none`; a flag is an integer. -/
structure MessageRow where
  threadId : ThreadId
  fromAddress : Option String
  toAddresses : Option String
  ccAddresses : Option String
  bccAddresses : Option String
  subject : Option String
  snippet : Option String
  date : Int
  isRead : Option Int
  isStarred : Option Int
  isReaction : Int
  imapFolder : Option String

structure AttachmentRow where
  accountId : AccountId
  messageId : MessageId

/-- Link rows carry the account, the id of the message and the id of the folder or label. -/
structure MessageTables where
  messages : Table (AccountId × MessageId) MessageRow
  attachments : Table AttachmentId AttachmentRow
  messageFolders : Finset (AccountId × MessageId × FolderId)
  messageLabels : Finset (AccountId × MessageId × LabelId)
  messageKeywords : Finset (AccountId × MessageId × LabelId)
  folders : Finset (AccountId × FolderId)
  imapFolderPath : AccountId × FolderId → Option String
  labels : Finset (AccountId × LabelId)
  folders_there : ∀ r ∈ messageFolders, (r.1, r.2.2) ∈ folders
  labels_there : ∀ r ∈ messageLabels, (r.1, r.2.2) ∈ labels

theorem no_folders_there :
    ∀ r ∈ (∅ : Finset (AccountId × MessageId × FolderId)), (r.1, r.2.2) ∈ (∅ : Finset (AccountId × FolderId)) := by
  simp

theorem no_labels_there :
    ∀ r ∈ (∅ : Finset (AccountId × MessageId × LabelId)), (r.1, r.2.2) ∈ (∅ : Finset (AccountId × LabelId)) := by
  simp

structure ThreadRow where
  aggregate : Option ThreadAggregate
  isImportant : Bool
  namespaceKind : Option String
  namespaceId : Option String

structure ThreadTables where
  threads : Table (AccountId × ThreadId) ThreadRow
  threadFolders : Finset (AccountId × ThreadId × FolderId)
  threadLabels : Finset (AccountId × ThreadId × LabelId)
  threadParticipants : Finset (AccountId × ThreadId × String)

structure Database where
  mail : MessageTables
  threads : ThreadTables

/-- `WHERE thread_id = ? AND account_id = ?`. -/
def messagesOf (mail : MessageTables) (account : AccountId) (thread : ThreadId) :
    List ((AccountId × MessageId) × MessageRow) :=
  mail.messages.rows.filter fun m => m.2.threadId = thread ∧ m.1.1 = account

/-- `AND is_reaction = 0`. -/
def plainOf (mail : MessageTables) (account : AccountId) (thread : ThreadId) :
    List ((AccountId × MessageId) × MessageRow) :=
  (messagesOf mail account thread).filter fun m => m.2.isReaction = 0

/-- `attachments a JOIN messages m ON a.message_id = m.id`, with these messages. -/
def joinAttachments (mail : MessageTables) (messages : List ((AccountId × MessageId) × MessageRow)) :
    List ((AttachmentId × AttachmentRow) × (AccountId × MessageId) × MessageRow) :=
  mail.attachments.rows.flatMap fun a =>
    (messages.filter fun m => a.2.messageId = m.1.2).map fun m => (a, m)

/-- `ORDER BY date DESC LIMIT 1`: of equal dates the newest row. -/
def latestRow (messages : List ((AccountId × MessageId) × MessageRow)) : Option MessageRow :=
  ((messages.map Prod.snd).insertionSort fun a b => b.date ≤ a.date).head?

/-- `ORDER BY date ASC LIMIT 1`: of equal dates the oldest row. -/
def earliestRow (messages : List ((AccountId × MessageId) × MessageRow)) : Option MessageRow :=
  ((messages.map Prod.snd).reverse.insertionSort fun a b => a.date ≤ b.date).head?

def computeThreadAggregate (mail : MessageTables) (account : AccountId) (thread : ThreadId) :
    Except String ThreadAggregate :=
  let messages := plainOf mail account thread
  match latestRow messages, earliestRow messages with
  | some last, some first =>
    .ok {
      subject := first.subject
      snippet := last.snippet.getD ""
      lastDate := last.date
      messageCount := messages.length
      isRead := messages.countP (fun m => m.2.isRead = some 0) = 0
      isStarred := 0 < messages.countP fun m => m.2.isStarred = some 1
      hasAttachments := 0 < (joinAttachments mail messages).length }
  | _, _ => .error "get latest message: Query returned no rows"

/-- `COALESCE` keeps the namespace of a row that has one. -/
def upsertThreadAggregate (threads : ThreadTables) (account : AccountId) (thread : ThreadId)
    (aggregate : ThreadAggregate) (isImportant : Option Bool) (namespaceKind namespaceId : Option String) :
    ThreadTables :=
  match threads.threads.lookup (account, thread) with
  | some row => { threads with
      threads := threads.threads.insert (account, thread) { row with
        aggregate := some aggregate
        isImportant := isImportant.getD row.isImportant
        namespaceKind := namespaceKind.or row.namespaceKind
        namespaceId := namespaceId.or row.namespaceId } }
  | none => { threads with
      threads := threads.threads.insert (account, thread)
        ⟨some aggregate, isImportant.getD false, namespaceKind, namespaceId⟩ }

/-- `INSERT OR IGNORE` of link rows: a row that is there is left out, one whose parent is not there fails. -/
def insertLinks (parents : Finset (AccountId × String)) (rows new : Finset (AccountId × String × String)) :
    Except String (Finset (AccountId × String × String)) :=
  if ∀ r ∈ new, (r.1, r.2.2) ∈ parents then .ok (rows ∪ new) else .error "FOREIGN KEY constraint failed"

/-- `DELETE … WHERE account_id = ? AND thread_id = ?`, of the link rows of a thread or of a message. -/
def withoutLinks (rows : Finset (AccountId × String × String)) (account : AccountId) (id : String) :
    Finset (AccountId × String × String) :=
  rows.filter fun r => ¬(r.1 = account ∧ r.2.1 = id)

/-- `messages m JOIN … l ON l.account_id = m.account_id AND l.message_id = m.id`, as rows of the thread. -/
def joinLinks (mail : MessageTables) (account : AccountId) (thread : ThreadId)
    (links : Finset (AccountId × MessageId × String)) : Finset (AccountId × ThreadId × String) :=
  (links.filter fun l => (messagesOf mail account thread).any fun m => m.1 = (l.1, l.2.1)).image
    fun l => (account, thread, l.2.2)

/-- The folder rows that `imap_folder` names, by path or by id. -/
def joinImapFolders (mail : MessageTables) (account : AccountId) (thread : ThreadId) :
    Finset (AccountId × ThreadId × FolderId) :=
  (mail.folders.filter fun f => f.1 = account ∧ (messagesOf mail account thread).any fun m =>
      m.2.imapFolder.any fun path => mail.imapFolderPath f = some path ∨ f.2 = path).image
    fun f => (account, thread, f.2)

def recomputeThreadFoldersFromMessages (mail : MessageTables) (threads : ThreadTables) (account : AccountId)
    (thread : ThreadId) : Except String ThreadTables := do
  let rows ← insertLinks mail.folders (withoutLinks threads.threadFolders account thread)
    (joinLinks mail account thread mail.messageFolders)
  let rows ← insertLinks mail.folders rows (joinImapFolders mail account thread)
  .ok { threads with threadFolders := rows }

def recomputeThreadLabelsFromMessages (mail : MessageTables) (threads : ThreadTables) (account : AccountId)
    (thread : ThreadId) : Except String ThreadTables := do
  let rows ← insertLinks mail.labels (withoutLinks threads.threadLabels account thread)
    (joinLinks mail account thread mail.messageLabels)
  let rows ← insertLinks mail.labels rows (joinLinks mail account thread mail.messageKeywords)
  .ok { threads with threadLabels := rows }

/-! ## Participants and deletion -/

section Emails

variable (emails : String → Finset String)

def addressesOf (m : MessageRow) : Finset String :=
  ([m.fromAddress, m.toAddresses, m.ccAddresses, m.bccAddresses].filterMap id).foldr
    (fun header acc => emails header ∪ acc) ∅

/-- `DELETE FROM thread_participants`, then `upsert_thread_participants` for each message. -/
def rebuildThreadParticipants (mail : MessageTables) (threads : ThreadTables) (account : AccountId)
    (thread : ThreadId) : ThreadTables :=
  { threads with
    threadParticipants := (messagesOf mail account thread).foldl
      (fun rows m => rows ∪ (addressesOf emails m.2).image fun email => (account, thread, email))
      (withoutLinks threads.threadParticipants account thread) }

def deleteThread (threads : ThreadTables) (account : AccountId) (thread : ThreadId) : ThreadTables where
  threads := threads.threads.erase (account, thread)
  threadFolders := withoutLinks threads.threadFolders account thread
  threadLabels := withoutLinks threads.threadLabels account thread
  threadParticipants := withoutLinks threads.threadParticipants account thread

/-- One round of the second loop of `delete_messages_and_cleanup_threads`. -/
def cleanupThread (mail : MessageTables) (account : AccountId) (threads : ThreadTables) (thread : ThreadId) :
    Except String ThreadTables :=
  if messagesOf mail account thread = [] then .ok (deleteThread threads account thread)
  else do
    let aggregate ← computeThreadAggregate mail account thread
    let threads := upsertThreadAggregate threads account thread aggregate none none none
    let threads ← recomputeThreadFoldersFromMessages mail threads account thread
    let threads ← recomputeThreadLabelsFromMessages mail threads account thread
    .ok (rebuildThreadParticipants emails mail threads account thread)

theorem withoutLinks_subset (rows : Finset (AccountId × String × String)) (account : AccountId) (id : String) :
    withoutLinks rows account id ⊆ rows := Finset.filter_subset _ _

/-- The membership rows go first, the attachments and the keywords with the message. -/
def deleteMessage (account : AccountId) (mail : MessageTables) (id : MessageId) : MessageTables where
  messages := mail.messages.erase (account, id)
  attachments := mail.attachments.restrict fun _ a => ¬(a.accountId = account ∧ a.messageId = id)
  messageFolders := withoutLinks mail.messageFolders account id
  messageLabels := withoutLinks mail.messageLabels account id
  messageKeywords := withoutLinks mail.messageKeywords account id
  folders := mail.folders
  imapFolderPath := mail.imapFolderPath
  labels := mail.labels
  folders_there r h := mail.folders_there r (withoutLinks_subset _ _ _ h)
  labels_there r h := mail.labels_there r (withoutLinks_subset _ _ _ h)

def getThreadIdForMessage (mail : MessageTables) (account : AccountId) (id : MessageId) : Option ThreadId :=
  (mail.messages.lookup (account, id)).map MessageRow.threadId

/-- A `HashSet` hands out its elements in some order. -/
structure SetOrder where
  order : List ThreadId → List ThreadId
  perm : ∀ l, (order l).Perm l

def affectedThreads (o : SetOrder) (mail : MessageTables) (account : AccountId) (ids : List MessageId) :
    List ThreadId :=
  o.order (ids.filterMap (getThreadIdForMessage mail account)).dedup

def deleteMessagesAndCleanupThreads (o : SetOrder) (db : Database) (account : AccountId)
    (ids : List MessageId) : Except String (Database × List ThreadId) :=
  if ids = [] then .ok (db, [])
  else do
    let affected := affectedThreads o db.mail account ids
    let mail := ids.foldl (deleteMessage account) db.mail
    let threads ← affected.foldlM (cleanupThread emails mail account) db.threads
    .ok (⟨mail, threads⟩, affected)

end Emails

end Ratatoskr.Mail.Accounts

import Mathlib.Data.Finset.Union
import Ratatoskr.Lib.Table

/-!
# Mail.Tables

The mail tables of one account (`db/src/db/schema/02_mail.sql`, `db/src/db/queries_extra/
{message_persistence,message_membership,thread_persistence}.rs`) and what a thread repeats of its
messages: the aggregate, the folders and the labels.

`message_folders`, `message_labels` and `message_keywords` cascade with their message and are kept with
it, `thread_folders` and `thread_labels` with their thread. An attachment has a key of its own. The rows
of a table stand newest first: a replaced row gets a new row id. Folder and label rows, participants,
chat state and the columns nothing here reads are left out.
-/

namespace Ratatoskr.Mail

open Lib (Table)

abbrev ThreadId := String
abbrev MessageId := String
abbrev FolderId := String
abbrev LabelId := String
abbrev AttachmentId := String

/-- The columns of `messages` that a server row carries. -/
structure MessageColumns where
  threadId : ThreadId
  fromAddress : Option String
  subject : Option String
  snippet : String
  date : Int
  isRead : Bool
  isStarred : Bool
  messageIdHeader : Option String
  referencesHeader : Option String
  inReplyToHeader : Option String
  mdnRequested : Bool
  isReaction : Bool
  imapUid : Option Int
  imapFolder : Option String
  deriving DecidableEq

/-- `keywords` holds the `label_id`s of `message_keywords`. -/
structure Message where
  columns : MessageColumns
  mdnSent : Bool
  folders : Finset FolderId
  labels : Finset LabelId
  keywords : Finset LabelId

structure AttachmentColumns where
  filename : Option String
  mimeType : Option String
  size : Option Int
  remoteAttachmentId : Option String
  blobId : Option String
  contentId : Option String
  isInline : Bool
  deriving DecidableEq

structure Attachment where
  messageId : MessageId
  columns : AttachmentColumns
  contentHash : Option String
  textIndexedAt : Option Int

/-- `message_id` is that of the row it comes with. -/
structure AttachmentInsertRow where
  id : AttachmentId
  columns : AttachmentColumns
  contentHash : Option String
  deriving DecidableEq

structure ThreadAggregate where
  subject : Option String
  snippet : String
  lastDate : Int
  messageCount : Nat
  isRead : Bool
  isStarred : Bool
  hasAttachments : Bool
  deriving DecidableEq

structure Thread where
  aggregate : Option ThreadAggregate
  isImportant : Bool
  namespaceKind : Option String
  namespaceId : Option String
  folders : Finset FolderId
  labels : Finset LabelId

/-- `imapFolders` are the folder rows that an `imap_folder` names, by path or by id. -/
structure Tables where
  threads : Table ThreadId Thread
  messages : Table MessageId Message
  attachments : Table AttachmentId Attachment
  imapFolders : String → Finset FolderId

def Tables.empty (imapFolders : String → Finset FolderId) : Tables := ⟨∅, ∅, ∅, imapFolders⟩

structure View where
  message : Message
  attached : Bool

def attached (db : Tables) (id : MessageId) : Bool :=
  db.attachments.rows.any (fun a => a.2.messageId = id)

def messagesOf (db : Tables) (thread : ThreadId) : List (MessageId × Message) :=
  db.messages.rows.filter (fun m => m.2.columns.threadId = thread)

def views (db : Tables) (thread : ThreadId) : List View :=
  (messagesOf db thread).map (fun m => ⟨m.2, attached db m.1⟩)

def plain (vs : List View) : List View := vs.filter (fun v => !v.message.columns.isReaction)

/-- `ORDER BY date DESC LIMIT 1`: of equal dates the newest row. -/
def latest : List View → Option View
  | [] => none
  | v :: vs =>
    match latest vs with
    | none => some v
    | some w => if v.message.columns.date < w.message.columns.date then some w else some v

/-- `ORDER BY date ASC LIMIT 1`: of equal dates the oldest row. -/
def earliest : List View → Option View
  | [] => none
  | v :: vs =>
    match earliest vs with
    | none => some v
    | some w => if v.message.columns.date < w.message.columns.date then some v else some w

/-- Reactions are left out; without another message the queries return no row. -/
def computeThreadAggregate (vs : List View) : Except String ThreadAggregate :=
  let ms := plain vs
  match latest ms, earliest ms with
  | some last, some first =>
    .ok {
      subject := first.message.columns.subject
      snippet := last.message.columns.snippet
      lastDate := last.message.columns.date
      messageCount := ms.length
      isRead := ms.all (fun v => v.message.columns.isRead)
      isStarred := ms.any (fun v => v.message.columns.isStarred)
      hasAttachments := ms.any View.attached }
  | _, _ => .error "get latest message: Query returned no rows"

/-- The folder rows a message is in, by `message_folders` or by its `imap_folder`. -/
def foldersOf (imapFolders : String → Finset FolderId) (m : Message) : Finset FolderId :=
  match m.columns.imapFolder with
  | some folder => m.folders ∪ imapFolders folder
  | none => m.folders

def derivedFolders (imapFolders : String → Finset FolderId) (vs : List View) : Finset FolderId :=
  vs.foldr (fun v acc => foldersOf imapFolders v.message ∪ acc) ∅

def derivedLabels (vs : List View) : Finset LabelId :=
  vs.foldr (fun v acc => v.message.labels ∪ v.message.keywords ∪ acc) ∅

/-! ## Writes to a thread -/

def modifyThread (db : Tables) (thread : ThreadId) (f : Thread → Thread) : Tables :=
  { db with threads := db.threads.update (fun t row => if t = thread then f row else row) }

/-- `delete_thread_folder_rows`, then the rows of the thread's messages. -/
def recomputeThreadFoldersFromMessages (db : Tables) (thread : ThreadId) : Tables :=
  modifyThread db thread (fun row =>
    { row with folders := derivedFolders db.imapFolders (views db thread) })

def recomputeThreadLabelsFromMessages (db : Tables) (thread : ThreadId) : Tables :=
  modifyThread db thread (fun row => { row with labels := derivedLabels (views db thread) })

/-- `COALESCE` keeps the namespace of a row that has one. -/
def upsertThreadAggregate (db : Tables) (thread : ThreadId) (aggregate : ThreadAggregate)
    (isImportant : Option Bool) (namespaceKind namespaceId : Option String) : Tables :=
  match db.threads.lookup thread with
  | some _ => modifyThread db thread (fun row => { row with
      aggregate := some aggregate
      isImportant := isImportant.getD row.isImportant
      namespaceKind := namespaceKind.or row.namespaceKind
      namespaceId := namespaceId.or row.namespaceId })
  | none => { db with
      threads := db.threads.insert thread
        ⟨some aggregate, isImportant.getD false, namespaceKind, namespaceId, ∅, ∅⟩ }

/-- `INSERT OR IGNORE INTO threads (account_id, id, message_count) VALUES (?1, ?2, 0)`. -/
def insertPlaceholder (db : Tables) (thread : ThreadId) : Tables :=
  match db.threads.lookup thread with
  | some _ => db
  | none => { db with threads := db.threads.insert thread ⟨none, false, none, none, ∅, ∅⟩ }

def deleteThread (db : Tables) (thread : ThreadId) : Tables :=
  { db with threads := db.threads.erase thread }

/-- `INSERT OR REPLACE`: a row of that key is deleted first, and what cascades from it; the columns the
statement does not name take their defaults. -/
def insertMessage (db : Tables) (id : MessageId) (columns : MessageColumns) : Tables :=
  { db with
    messages := db.messages.insert id ⟨columns, false, ∅, ∅, ∅⟩
    attachments := db.attachments.restrict (fun _ a => a.messageId ≠ id) }

def modifyMessage (db : Tables) (id : MessageId) (f : Message → Message) : Tables :=
  { db with messages := db.messages.update (fun m row => if m = id then f row else row) }

/-- `ON CONFLICT(id) DO UPDATE`, which leaves `message_id` and `text_indexed_at` alone. -/
def insertAttachment (messageId : MessageId) (db : Tables) (row : AttachmentInsertRow) : Tables :=
  match db.attachments.lookup row.id with
  | some _ => { db with
      attachments := db.attachments.update (fun a old =>
        if a = row.id then
          { old with columns := row.columns, contentHash := row.contentHash.or old.contentHash }
        else old) }
  | none => { db with
      attachments := db.attachments.insert row.id ⟨messageId, row.columns, row.contentHash, none⟩ }

def insertAttachments (db : Tables) (messageId : MessageId) (rows : List AttachmentInsertRow) : Tables :=
  rows.foldl (insertAttachment messageId) db

def deleteMessage (db : Tables) (id : MessageId) : Tables :=
  { db with
    messages := db.messages.erase id
    attachments := db.attachments.restrict (fun _ a => a.messageId ≠ id) }

end Ratatoskr.Mail

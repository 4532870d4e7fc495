import Ratatoskr.Actions.Rows
import Ratatoskr.Consumer.Drive
import Ratatoskr.Mail.Tables

/-!
# Mail.Persist

`persist_in_namespace` (`service/src/bifrost/consumer/write.rs`): one transaction that writes the rows of
a hydrated batch and applies its deletions. All message rows go in first, each over the row of its key;
then row by row the memberships, the attachments and the keywords; then the aggregates of the threads
that the rows name; then the deletions. IMAP threads get their aggregate and their folders at the end of
the drive.

The queries themselves do not fail; the bodies, the inline images and the search index are outside the
transaction and left out.
-/

namespace Ratatoskr.Mail

open Lib (Table)
open Actions (NamespaceAttribution)
open Consumer (BifrostProviderKind)

structure ConsumerMessageRow where
  id : MessageId
  message : MessageColumns
  folders : List FolderId
  labels : List LabelId
  keywords : List String
  attachments : List AttachmentInsertRow
  isImportant : Bool
  deriving DecidableEq

/-- A deleted id, and the folder and UID that `decode_imap_object_id` reads from it. -/
structure DeletedId where
  id : MessageId
  decoded : Option (String × Int)

def namespaceKind : NamespaceAttribution → Option String
  | .personal => none
  | .shared _ => some "shared"
  | .publicFolder _ => some "public"

def namespaceId : NamespaceAttribution → Option String
  | .personal => none
  | .shared owner => some owner
  | .publicFolder folderStorageId => some folderStorageId

/-- `LIMIT 1` over the index: the oldest of the rows. -/
def findByUid (db : Tables) (folder : String) (uid : Int) : Option (MessageId × Message) :=
  db.messages.rows.reverse.find? (fun m =>
    m.2.columns.imapFolder = some folder ∧ m.2.columns.imapUid = some uid)

def adoptExistingImapIdentity (db : Tables) (row : ConsumerMessageRow) : ConsumerMessageRow :=
  match row.message.imapFolder, row.message.imapUid with
  | some folder, some uid =>
    match findByUid db folder uid with
    | some (id, m) => { row with
        id := id, message := { row.message with threadId := m.columns.threadId } }
    | none => row
  | _, _ => row

def inNamespace (db : Tables) (ns : NamespaceAttribution) (row : ConsumerMessageRow) : Bool :=
  match db.threads.lookup row.message.threadId with
  | some thread => thread.namespaceKind = namespaceKind ns ∧ thread.namespaceId = namespaceId ns
  | none => true

def writtenRows (db : Tables) (provider : BifrostProviderKind) (ns : NamespaceAttribution)
    (rows : List ConsumerMessageRow) : List ConsumerMessageRow :=
  (if provider = .imap then rows.map (adoptExistingImapIdentity db) else rows).filter (inNamespace db ns)

def resolveDeletedIds (db : Tables) (provider : BifrostProviderKind) (deleted : List DeletedId) :
    List MessageId :=
  if provider = .imap then
    deleted.filterMap (fun d =>
      match d.decoded with
      | some (folder, uid) => (findByUid db folder uid).map Prod.fst
      | none => some d.id)
  else deleted.map DeletedId.id

def insertMessages (db : Tables) (rows : List ConsumerMessageRow) : Tables :=
  rows.foldl (fun db row => insertMessage db row.id row.message) db

def insertPlaceholders (db : Tables) (rows : List ConsumerMessageRow) : Tables :=
  rows.foldl (fun db row => insertPlaceholder db row.message.threadId) db

def insertRows (db : Tables) (rows : List ConsumerMessageRow) : Tables :=
  insertMessages (insertPlaceholders db rows) rows

def replaceMessageFolderRows (db : Tables) (id : MessageId) (folders : List FolderId) : Tables :=
  modifyMessage db id (fun m => { m with folders := folders.toFinset })

def replaceMessageLabelRows (db : Tables) (id : MessageId) (labels : List LabelId) : Tables :=
  modifyMessage db id (fun m => { m with labels := labels.toFinset })

def setMessageKeywords (db : Tables) (id : MessageId) (labels : Finset LabelId) : Tables :=
  modifyMessage db id (fun m => { m with keywords := labels })

/-- `message_labels` is not touched. -/
def replaceMessageFoldersAndRecompute (db : Tables) (row : ConsumerMessageRow) : Tables :=
  recomputeThreadLabelsFromMessages
    (recomputeThreadFoldersFromMessages (replaceMessageFolderRows db row.id row.folders)
      row.message.threadId) row.message.threadId

def replaceMessageMembershipAndRecompute (db : Tables) (row : ConsumerMessageRow) : Tables :=
  recomputeThreadLabelsFromMessages
    (recomputeThreadFoldersFromMessages
      (replaceMessageLabelRows (replaceMessageFolderRows db row.id row.folders) row.id row.labels)
      row.message.threadId) row.message.threadId

def replaceMembership (provider : BifrostProviderKind) (db : Tables) (row : ConsumerMessageRow) : Tables :=
  match provider with
  | .jmap => replaceMessageFoldersAndRecompute db row
  | .graph => replaceMessageMembershipAndRecompute db row
  | .gmail => replaceMessageMembershipAndRecompute db row
  | .imap => db

def keywordLabels (keywords : List String) : Except String (Finset LabelId) :=
  match Labels.keywordPairs keywords [] with
  | .error e => .error e
  | .ok pairs => .ok (pairs.map Prod.snd).toFinset

def writeRow (provider : BifrostProviderKind) (db : Tables) (row : ConsumerMessageRow) :
    Except String Tables :=
  let db := insertAttachments (replaceMembership provider db row) row.id row.attachments
  match keywordLabels row.keywords with
  | .error e => .error ("replace message keywords for " ++ row.id ++ ": " ++ e)
  | .ok labels =>
    let db := setMessageKeywords db row.id labels
    .ok (if provider = .imap then db
      else recomputeThreadLabelsFromMessages db row.message.threadId)

/-- A `BTreeSet`. -/
def threadIds (rows : List ConsumerMessageRow) : List ThreadId :=
  (rows.map (fun row => row.message.threadId)).dedup.mergeSort

def existingThreadIsImportant (db : Tables) (thread : ThreadId) : Bool :=
  ((db.threads.lookup thread).map Thread.isImportant).getD false

def updateThread (ns : NamespaceAttribution) (rows : List ConsumerMessageRow) (db : Tables)
    (thread : ThreadId) : Except String Tables :=
  match computeThreadAggregate (views db thread) with
  | .error e => .error ("compute thread aggregate " ++ thread ++ ": " ++ e)
  | .ok aggregate =>
    let isImportant := existingThreadIsImportant db thread ||
      rows.any (fun row => row.message.threadId = thread && row.isImportant)
    .ok (upsertThreadAggregate db thread aggregate (some isImportant) (namespaceKind ns) (namespaceId ns))

/-! ## Deletions -/

def threadOf (db : Tables) (id : MessageId) : Option ThreadId :=
  (db.messages.lookup id).map (fun m => m.columns.threadId)

def cleanupThread (db : Tables) (thread : ThreadId) : Except String Tables :=
  if messagesOf db thread = [] then .ok (deleteThread db thread)
  else
    match computeThreadAggregate (views db thread) with
    | .error e => .error e
    | .ok aggregate =>
      .ok (recomputeThreadLabelsFromMessages
        (recomputeThreadFoldersFromMessages
          (upsertThreadAggregate db thread aggregate none none none) thread) thread)

def affectedThreads (db : Tables) (ids : List MessageId) : List ThreadId :=
  (ids.filterMap (threadOf db)).dedup

def deleteMessagesAndCleanupThreads (db : Tables) (ids : List MessageId) : Except String Tables :=
  (affectedThreads db ids).foldlM cleanupThread (ids.foldl deleteMessage db)

def persistInNamespace (db : Tables) (provider : BifrostProviderKind) (ns : NamespaceAttribution)
    (rows : List ConsumerMessageRow) (deleted : List DeletedId) : Except String Tables := do
  if rows = [] ∧ deleted = [] then
    return db
  let written := writtenRows db provider ns rows
  let ids := resolveDeletedIds db provider deleted
  let db ← written.foldlM (writeRow provider) (insertRows db written)
  let db ← if provider = .imap then .ok db else (threadIds written).foldlM (updateThread ns written) db
  match deleteMessagesAndCleanupThreads db ids with
  | .error e => .error ("delete destroyed messages: " ++ e)
  | .ok db => .ok db

end Ratatoskr.Mail

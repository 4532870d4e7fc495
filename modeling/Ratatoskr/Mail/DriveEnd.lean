import Ratatoskr.Mail.Persist
import Ratatoskr.Threading.Build

/-!
# Mail.DriveEnd

The end of an IMAP drive (`service/src/bifrost/consumer/imap_threading.rs`): the rows of the drive, kept
under the ids they are stored under, are threaded for each namespace, and every thread group writes the
row of its thread, takes its messages over and repairs the threads they leave. A thread for which a local
operation is pending is skipped.

The maps of the accumulator are the rows in the order they were pushed; of two rows with one key the last
counts. The transactions of a hundred groups, participants, the chat state and the user's addresses are
left out.
-/

namespace Ratatoskr.Mail

open Actions (NamespaceAttribution)
open Threading (ThreadGroup ThreadableMessage)

structure MessageMeta where
  id : MessageId
  subject : Option String
  snippet : String
  date : Int
  isRead : Bool
  isStarred : Bool
  hasAttachments : Bool

/-- One round of the loop; the date is that of the subject so far. -/
def addMessage (st : Int × ThreadAggregate) (m : MessageMeta) : Int × ThreadAggregate :=
  let (subjectDate, a) := st
  (if m.date < subjectDate then m.date else subjectDate,
    { a with
      subject := if m.date < subjectDate then m.subject else a.subject
      snippet := if a.lastDate < m.date then m.snippet else a.snippet
      lastDate := if a.lastDate < m.date then m.date else a.lastDate
      isRead := a.isRead && m.isRead
      isStarred := a.isStarred || m.isStarred
      hasAttachments := a.hasAttachments || m.hasAttachments })

def computeFromMessages (first : MessageMeta) (rest : List MessageMeta) : ThreadAggregate :=
  (rest.foldl addMessage (first.date,
    { subject := first.subject
      snippet := first.snippet
      lastDate := first.date
      messageCount := rest.length + 1
      isRead := first.isRead
      isStarred := first.isStarred
      hasAttachments := first.hasAttachments })).2

/-- The rows of one namespace, each with the id it is stored under. -/
structure ImapThreadPartition where
  ns : NamespaceAttribution
  rows : List (MessageId × ConsumerMessageRow)

def imapThreadMessageId (storedId : MessageId) (row : ConsumerMessageRow) : String :=
  row.message.messageIdHeader.getD ("synthetic-" ++ storedId ++ "@ratatoskr.local")

def threadableOf (p : MessageId × ConsumerMessageRow) : ThreadableMessage where
  id := p.1
  messageId := imapThreadMessageId p.1 p.2
  inReplyTo := p.2.message.inReplyToHeader
  references := p.2.message.referencesHeader
  subject := p.2.message.subject
  date := p.2.message.date

def metaOf (p : MessageId × ConsumerMessageRow) : MessageMeta where
  id := p.1
  subject := p.2.message.subject
  snippet := p.2.message.snippet
  date := p.2.message.date
  isRead := p.2.message.isRead
  isStarred := p.2.message.isStarred
  hasAttachments := !p.2.attachments.isEmpty

/-- The rows go in with their ids, side by side, as far as both lists go. -/
def pushRowsWithIds (acc : List ImapThreadPartition) (rows : List ConsumerMessageRow)
    (storedIds : List MessageId) (ns : NamespaceAttribution) : List ImapThreadPartition :=
  let pushed := storedIds.zip rows
  if acc.any (fun p => p.ns = ns) then
    acc.map (fun p => if p.ns = ns then { p with rows := p.rows ++ pushed } else p)
  else acc ++ [⟨ns, pushed⟩]

def pushedRows (acc : List ImapThreadPartition) : List (MessageId × ConsumerMessageRow) :=
  acc.flatMap ImapThreadPartition.rows

def pushedRow (acc : List ImapThreadPartition) (id : MessageId) : Option (MessageId × ConsumerMessageRow) :=
  (pushedRows acc).reverse.find? (fun p => p.1 = id)

def allMeta (acc : List ImapThreadPartition) (id : MessageId) : Option MessageMeta :=
  (pushedRow acc id).map metaOf

def allFolderIds (acc : List ImapThreadPartition) (id : MessageId) : List FolderId :=
  ((pushedRow acc id).map (fun p => p.2.folders)).getD []

def idPrefix (ns : NamespaceAttribution) : Option String :=
  match ns with
  | .personal => none
  | .shared owner => some ("shared:" ++ owner)
  | .publicFolder folderStorageId => some folderStorageId

def qualifiedId (ns : NamespaceAttribution) (id : String) : String :=
  match idPrefix ns with
  | none => id
  | some p => p ++ ":" ++ id

def partitionGroups (p : ImapThreadPartition) : List ThreadGroup :=
  (Threading.buildThreads (p.rows.map threadableOf)).map
    (fun g => { g with threadId := qualifiedId p.ns g.threadId })

def threadGroups (acc : List ImapThreadPartition) : List ThreadGroup := acc.flatMap partitionGroups

/-- The namespace of the last partition with such a group. -/
def threadNamespace (acc : List ImapThreadPartition) (thread : ThreadId) : Option NamespaceAttribution :=
  (acc.reverse.find? (fun p => (partitionGroups p).any (fun g => g.threadId = thread))).map
    ImapThreadPartition.ns

def queryOldThreadIdsForMessages (db : Tables) (thread : ThreadId) (ids : List MessageId) : List ThreadId :=
  ((ids.filterMap (threadOf db)).filter (· ≠ thread)).dedup

def updateMessageThreadIds (db : Tables) (thread : ThreadId) (ids : List MessageId) : Tables :=
  { db with messages := db.messages.update (fun id m =>
      if id ∈ ids then { m with columns := { m.columns with threadId := thread } } else m) }

def repairThreadAfterMessageReassignment (db : Tables) (thread : ThreadId) : Tables :=
  if messagesOf db thread = [] then deleteThread db thread else db

def repairOldThread (db : Tables) (thread : ThreadId) : Tables :=
  recomputeThreadLabelsFromMessages
    (recomputeThreadFoldersFromMessages (repairThreadAfterMessageReassignment db thread) thread) thread

def reassignMessagesAndRepairThreads (db : Tables) (thread : ThreadId) (ids : List MessageId) : Tables :=
  if ids = [] then db
  else
    let old := queryOldThreadIdsForMessages db thread ids
    let db := old.foldl repairOldThread (updateMessageThreadIds db thread ids)
    recomputeThreadLabelsFromMessages (recomputeThreadFoldersFromMessages db thread) thread

/-- `DELETE FROM threads`: the messages of the thread and their attachments cascade. -/
def deleteThreadByAccountAndId (db : Tables) (thread : ThreadId) : Tables :=
  { db with
    threads := db.threads.erase thread
    messages := db.messages.restrict (fun _ m => m.columns.threadId ≠ thread)
    attachments := db.attachments.restrict (fun _ a => threadOf db a.messageId ≠ some thread) }

def cleanupOrphanThreads (db : Tables) (messageIds : List MessageId) (finalThreadIds : List ThreadId) :
    Tables :=
  messageIds.foldl (fun db id =>
    if id ∈ finalThreadIds then db else deleteThreadByAccountAndId db id) db

/-! ## The end of the drive -/

/-- The messages of a group that the drive has, oldest first. -/
def groupMessages (acc : List ImapThreadPartition) (group : ThreadGroup) : List MessageMeta :=
  (group.messageIds.filterMap (allMeta acc)).insertionSort (fun x y => x.date ≤ y.date)

def storeGroup (acc : List ImapThreadPartition) (skipped : ThreadId → Bool) (db : Tables)
    (group : ThreadGroup) : Tables :=
  if skipped group.threadId then db
  else
    match groupMessages acc group with
    | [] => db
    | first :: rest =>
      let ids := (first :: rest).map MessageMeta.id
      let ns := threadNamespace acc group.threadId
      let db := upsertThreadAggregate db group.threadId (computeFromMessages first rest) (some false)
        (ns.bind namespaceKind) (ns.bind namespaceId)
      let db := reassignMessagesAndRepairThreads db group.threadId ids
      modifyThread db group.threadId (fun row =>
        { row with folders := (ids.flatMap (allFolderIds acc)).toFinset })

def storeThreads (db : Tables) (acc : List ImapThreadPartition) (skipped : ThreadId → Bool) : Tables :=
  cleanupOrphanThreads ((threadGroups acc).foldl (storeGroup acc skipped) db)
    ((pushedRows acc).map Prod.fst).dedup ((threadGroups acc).map ThreadGroup.threadId)

/-- `blocked` are the threads with a pending operation that has not failed. -/
def runDriveEndThreading (db : Tables) (blocked : ThreadId → Bool) (acc : List ImapThreadPartition) :
    Tables :=
  if acc = [] then db else storeThreads db acc blocked

end Ratatoskr.Mail

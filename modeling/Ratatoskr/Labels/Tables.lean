import Mathlib.Data.Finset.Image
import Mathlib.Data.Finset.Union
import Ratatoskr.Lib.Table

/-!
# Labels.Tables

The label tables of one account (`db/src/db/queries_extra/label_intent.rs`, `message_membership.rs`,
`thread_persistence.rs`, `service/src/bifrost/consumer/support/keyword_membership.rs`). Labels live on
messages, in `message_labels` and `message_keywords`; `thread_labels` repeats them per thread, and
`pending_thread_label_intents` holds what the user asked for and the provider has not confirmed.

Every statement is confined to one account, so the account is left out of the keys. A function is one
transaction; where the source fails, it fails and the tables stay.
-/

namespace Ratatoskr.Labels

open Lib (Table)

abbrev ThreadId := String
abbrev MessageId := String
abbrev LabelId := String

inductive PendingLabelIntentOp where
  | add | remove
  deriving DecidableEq

abbrev PendingLabelIntent := LabelId × PendingLabelIntentOp

/-- A row of `pending_thread_label_intents`; its key is the thread and the label. -/
structure IntentRow where
  op : PendingLabelIntentOp
  generationSeen : Nat
  actionId : Option String

/-- `threads` keeps `label_membership_generation`, `messages` the thread of each message;
`messageKeywords` has the key `(message_id, label_id)` and the column `keyword`. -/
structure Tables where
  threads : Table ThreadId Nat
  messages : Table MessageId ThreadId
  messageLabels : Finset (MessageId × LabelId)
  messageKeywords : Table (MessageId × LabelId) String
  threadLabels : Finset (ThreadId × LabelId)
  intents : Table (ThreadId × LabelId) IntentRow

def Tables.empty : Tables := ⟨∅, ∅, ∅, ∅, ∅, ∅⟩

/-- The generation is read once and stamped on every row; `none` is a thread that does not exist. -/
def upsertPendingThreadLabelIntents (db : Tables) (thread : ThreadId)
    (intents : List PendingLabelIntent) (actionId : Option String) : Option (Tables × Nat) :=
  match db.threads.lookup thread with
  | none => none
  | some generation =>
    some ({ db with
      intents := intents.foldl (fun t intent =>
        t.insert (thread, intent.1) ⟨intent.2, generation, actionId⟩) db.intents }, generation)

/-- `op = ? AND generation_seen = ?` -/
def IntentRow.matches (row : IntentRow) (op : PendingLabelIntentOp) (generationSeen : Nat) : Bool :=
  row.op = op ∧ row.generationSeen = generationSeen

def attachActionIdToPendingThreadLabelIntents (db : Tables) (thread : ThreadId)
    (intents : List PendingLabelIntent) (generationSeen : Nat) (actionId : String) : Tables :=
  { db with
    intents := intents.foldl (fun t intent => t.update (fun key row =>
      if key = (thread, intent.1) ∧ row.matches intent.2 generationSeen then
        { row with actionId := some actionId }
      else row)) db.intents }

def deletePendingThreadLabelIntentsForLabels (db : Tables) (thread : ThreadId)
    (intents : List PendingLabelIntent) (generationSeen : Nat) : Tables :=
  { db with
    intents := intents.foldl (fun t intent => t.restrict (fun key row =>
      !(key = (thread, intent.1) ∧ row.matches intent.2 generationSeen))) db.intents }

def bumpThreadLabelMembershipGeneration (db : Tables) (thread : ThreadId) : Tables :=
  { db with threads := db.threads.update (fun t g => if t = thread then g + 1 else g) }

/-- The provider's truth, newer than the intent, already shows what the intent asks for. -/
def satisfied (db : Tables) (thread : ThreadId) (label : LabelId) (row : IntentRow) : Bool :=
  match db.threads.lookup thread with
  | none => false
  | some generation =>
    row.generationSeen < generation &&
      match row.op with
      | .add => (thread, label) ∈ db.threadLabels
      | .remove => (thread, label) ∉ db.threadLabels

def clearSatisfiedPendingThreadLabelIntents (db : Tables) (thread : ThreadId) : Tables :=
  { db with
    intents := db.intents.restrict (fun key row =>
      !(key.1 = thread ∧ satisfied db thread key.2 row)) }

def finalizeProviderTruthLabelMembership (db : Tables) (thread : ThreadId) : Tables :=
  clearSatisfiedPendingThreadLabelIntents (bumpThreadLabelMembershipGeneration db thread) thread

/-- `user_visible_label_exists_fragment`. -/
def userVisible (db : Tables) (thread : ThreadId) (label : LabelId) : Prop :=
  ((thread, label) ∈ db.threadLabels ∧
    ¬ ∃ row, db.intents.lookup (thread, label) = some row ∧ row.op = .remove) ∨
  ∃ row, db.intents.lookup (thread, label) = some row ∧ row.op = .add

def messagesOf (db : Tables) (thread : ThreadId) : List MessageId :=
  (db.messages.rows.filter (fun m => m.2 = thread)).map Prod.fst

def keywordPrefix : List Char := ['k', 'w', ':']

/-- `strip_prefix("kw:")` -/
def keywordOf (label : LabelId) : Option String :=
  if keywordPrefix.isPrefixOf label.toList then some (String.ofList (label.toList.drop 3)) else none

/-- One intent of `confirmed_provider_label_intents`. -/
def confirmIntent (db : Tables) (thread : ThreadId) (intent : PendingLabelIntent) : Tables :=
  match intent.2 with
  | .add =>
    { db with
      threadLabels := insert (thread, intent.1) db.threadLabels
      messageLabels := db.messageLabels ∪
        ((messagesOf db thread).map (fun m => (m, intent.1))).toFinset }
  | .remove =>
    { db with
      threadLabels := db.threadLabels.erase (thread, intent.1)
      messageLabels := db.messageLabels.filter (fun r => ¬ (r.2 = intent.1 ∧ r.1 ∈ messagesOf db thread))
      messageKeywords :=
        match keywordOf intent.1 with
        | some keyword => db.messageKeywords.restrict (fun key k =>
            !(k = keyword ∧ key.1 ∈ messagesOf db thread))
        | none => db.messageKeywords }

def confirmedProviderLabelIntents (db : Tables) (thread : ThreadId)
    (intents : List PendingLabelIntent) : Tables :=
  finalizeProviderTruthLabelMembership
    (intents.foldl (fun db intent => confirmIntent db thread intent) db) thread

/-- The `label_id`s of the keywords of a thread's messages. -/
def keywordLabelsOf (db : Tables) (thread : ThreadId) : List LabelId :=
  (messagesOf db thread).flatMap (fun m =>
    ((db.messageKeywords.rows.filter (fun r => r.1.1 = m)).map (fun r => r.1.2)))

/-- Delete the thread's rows, insert what the messages carry in either table. -/
def recomputeThreadLabelsFromMessages (db : Tables) (thread : ThreadId) : Tables :=
  let cleared := db.threadLabels.filter (fun r => r.1 ≠ thread)
  let fromLabels := (db.messageLabels.filter (fun r => r.1 ∈ messagesOf db thread)).image
    (fun r => (thread, r.2))
  let fromKeywords := ((keywordLabelsOf db thread).map (fun l => (thread, l))).toFinset
  finalizeProviderTruthLabelMembership
    { db with threadLabels := cleared ∪ fromLabels ∪ fromKeywords } thread

/-! ## Messages -/

def replaceMessageLabelRows (db : Tables) (message : MessageId) (labels : List LabelId) : Tables :=
  { db with
    messageLabels := db.messageLabels.filter (fun r => r.1 ≠ message) ∪
      (labels.map (fun l => (message, l))).toFinset }

def isReservedImapKeyword (raw : String) : Bool :=
  ["$forwarded", "$mdnsent", "$junk", "$notjunk", "$phishing"].contains
    (String.ofList (raw.toList.map Char.toLower))

def isUserVisibleKeyword (keyword : String) : Bool :=
  !(keyword.toList.head? = some '$') && !isReservedImapKeyword keyword

/-- `char::is_control`. -/
def isControl (c : Char) : Bool := c.toNat < 32 ∨ (127 ≤ c.toNat ∧ c.toNat < 160)

/-- `KeywordName::parse` and `storage_id`. -/
def keywordLabel (raw : String) : Except String LabelId :=
  if raw = "" then .error "keyword cannot be empty"
  else if raw.toList.any isControl then .error "keyword cannot contain control characters"
  else if raw.toList.head? = some '$' ∨ isReservedImapKeyword raw then
    .error ("reserved keyword `" ++ raw ++ "` is not a user label")
  else if keywordPrefix.isPrefixOf raw.toList then
    .error ("keyword body `" ++ raw ++ "` already carries the `kw:` storage prefix")
  else .ok (String.ofList (keywordPrefix ++ raw.toList))

/-- `upsert_keyword_labels`: the pairs of keyword and label id, without repetition. -/
def keywordPairs : List String → List String → Except String (List (String × LabelId))
  | [], _ => .ok []
  | keyword :: keywords, seen =>
    if !isUserVisibleKeyword keyword then keywordPairs keywords seen
    else if keyword ∈ seen then keywordPairs keywords seen
    else
      match keywordLabel keyword with
      | .error e => .error e
      | .ok label =>
        match keywordPairs keywords (keyword :: seen) with
        | .error e => .error e
        | .ok pairs => .ok ((keyword, label) :: pairs)

/-- `INSERT OR IGNORE` on the key `(message_id, label_id)`. -/
def insertKeyword (message : MessageId) (t : Table (MessageId × LabelId) String)
    (pair : String × LabelId) : Table (MessageId × LabelId) String :=
  match t.lookup (message, pair.2) with
  | some _ => t
  | none => t.insert (message, pair.2) pair.1

def replaceMessageKeywords (db : Tables) (message : MessageId) (keywords : List String) :
    Except String Tables :=
  match keywordPairs keywords [] with
  | .error e => .error e
  | .ok pairs =>
    .ok { db with
      messageKeywords := pairs.foldl (insertKeyword message)
        (db.messageKeywords.restrict (fun key _ => key.1 ≠ message)) }

/-- `DELETE FROM messages`, with the rows that the foreign keys take along. -/
def deleteMessage (db : Tables) (message : MessageId) : Tables :=
  { db with
    messages := db.messages.erase message
    messageLabels := db.messageLabels.filter (fun r => r.1 ≠ message)
    messageKeywords := db.messageKeywords.restrict (fun key _ => key.1 ≠ message) }

/-- `DELETE FROM threads`, with the rows that the foreign keys take along. -/
def deleteThread (db : Tables) (thread : ThreadId) : Tables :=
  { db with
    threads := db.threads.erase thread
    threadLabels := db.threadLabels.filter (fun r => r.1 ≠ thread)
    intents := db.intents.restrict (fun key _ => key.1 ≠ thread) }

def cleanupThread (db : Tables) (thread : ThreadId) : Tables :=
  if messagesOf db thread = [] then deleteThread db thread
  else recomputeThreadLabelsFromMessages db thread

def threadsOf (db : Tables) (messages : List MessageId) : List ThreadId :=
  (messages.filterMap (fun m => db.messages.lookup m)).dedup

def deleteMessagesAndCleanupThreads (db : Tables) (messages : List MessageId) : Tables :=
  let affected := threadsOf db messages
  affected.foldl cleanupThread (messages.foldl deleteMessage db)

def updateMessageThreadIds (db : Tables) (newThread : ThreadId) (messages : List MessageId) : Tables :=
  { db with messages := db.messages.update (fun m t => if m ∈ messages then newThread else t) }

/-- An old thread that lost its last message goes; either way its labels are recomputed. -/
def repairThread (db : Tables) (thread : ThreadId) : Tables :=
  recomputeThreadLabelsFromMessages
    (if messagesOf db thread = [] then deleteThread db thread else db) thread

def reassignMessagesAndRepairThreads (db : Tables) (newThread : ThreadId) (messages : List MessageId) :
    Tables :=
  if messages = [] then db
  else
    let old := (threadsOf db messages).filter (fun t => t ≠ newThread)
    recomputeThreadLabelsFromMessages
      (old.foldl repairThread (updateMessageThreadIds db newThread messages)) newThread

/-- A message that is new to the account: its row, its labels and keywords, then the thread's labels, in
one transaction of the sync writer. -/
def persistMessage (db : Tables) (message : MessageId) (thread : ThreadId) (labels : List LabelId)
    (keywords : List String) : Except String Tables :=
  let db := { db with
    threads := db.threads.insert thread ((db.threads.lookup thread).getD 0)
    messages := db.messages.insert message thread }
  match replaceMessageKeywords (replaceMessageLabelRows db message labels) message keywords with
  | .error e => .error e
  | .ok db => .ok (recomputeThreadLabelsFromMessages db thread)

end Ratatoskr.Labels

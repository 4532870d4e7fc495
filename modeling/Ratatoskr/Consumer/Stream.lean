import Ratatoskr.Actions.Rows
import Ratatoskr.Consumer.Drive

/-!
# Consumer.Stream

How the consumer of one account acknowledges checkpoints (`service/src/bifrost/consumer/mod.rs`). One
`ChangeStreamConsumer` reads one subscription of the change stream, until the stream ends or an error
does; the next subscription gets a new one. A batch is attributed to a namespace, hydrated, persisted,
and then its checkpoint is acknowledged, for IMAP only when the drive ends. A batch that cannot be
attributed, a container batch whose refresh fails and a batch with an ambiguous change keep their
checkpoint back.

What the engine and the stores answer while an event is handled comes with the event. The checkpoint
store is the list of what was acknowledged. Ids that decode to synthetic test messages are left out, and
hooks are: a crash is an answer that fails, a forced lag is a lag.
-/

namespace Ratatoskr.Consumer

open Lib (Table)
open Actions (NamespaceAttribution)

inductive ObjectType where
  | email | mailbox | other (name : String)
  deriving DecidableEq

inductive CursorScope where
  | account
  | type (ty : ObjectType)
  | folder (folder : FolderId)
  | folderType (folder : FolderId) (ty : ObjectType)
  | other (name : String)
  deriving DecidableEq

def idPrefix? : NamespaceAttribution → Option String
  | .personal => none
  | .shared owner => some ("shared:" ++ owner)
  | .publicFolder folderStorageId => some folderStorageId

structure ContainerIndex where
  namespaces : Table String NamespaceAttribution
  mailContainers : Table String Bool

/-- What stands before the first unit separator, when there is one. -/
def ownerHalf (native : String) : Option String :=
  if '\u001f' ∈ native.toList then
    some (String.ofList (native.toList.takeWhile (· ≠ '\u001f')))
  else none

def ContainerIndex.attributionForNativeId (index : ContainerIndex) (native : String) :
    Option NamespaceAttribution :=
  match index.namespaces.lookup native with
  | some attribution => some attribution
  | none =>
    match ownerHalf native with
    | none => none
    | some owner => if owner = "" then none else some (.shared owner)

def ContainerIndex.attributionForScope (index : ContainerIndex) : CursorScope → Option NamespaceAttribution
  | .account => some .personal
  | .type _ => some .personal
  | .folder folder => index.attributionForNativeId folder
  | .folderType folder _ => index.attributionForNativeId folder
  | .other _ => none

def ContainerIndex.isMailContainer (index : ContainerIndex) (native : String) : Bool :=
  (index.mailContainers.lookup native).getD true

def isContainerChangeBatch (scope : CursorScope) (itemCount : Nat) : Bool :=
  0 < itemCount && scope = .type .mailbox

def isEmailScope : CursorScope → Bool
  | .account => true
  | .type ty => ty = .email
  | .folder _ => true
  | .folderType _ ty => ty = .email
  | .other _ => false

/-- A change as the engine sends it: `ObjectChangeKind` is non-exhaustive. -/
inductive StreamChange where
  | known (change : Change)
  | unknownKind (id : MessageId)

structure Hydration where
  batch : HydrateBatch
  uncertain : Nat
  blocked : Bool

def Hydration.default : Hydration := ⟨.default, 0, false⟩

/-- An unknown kind is an ambiguous outcome, so it blocks the acknowledgement. -/
def Hydration.addChange (provider : BifrostProviderKind) (hydrated : Hydration) : StreamChange → Hydration
  | .known change => { hydrated with batch := hydrated.batch.addChange provider change }
  | .unknownKind _ => { hydrated with uncertain := hydrated.uncertain + 1, blocked := true }

def Hydration.fromChanges (provider : BifrostProviderKind) (changes : List StreamChange) : Hydration :=
  changes.foldl (Hydration.addChange provider) .default

def qualify (attribution : NamespaceAttribution) (id : MessageId) : MessageId :=
  match idPrefix? attribution with
  | none => id
  | some qualifier => qualifier ++ ":" ++ id

def HydrateBatch.qualifyNamespace (batch : HydrateBatch) (attribution : NamespaceAttribution) :
    HydrateBatch where
  rows := batch.rows.map (qualify attribution)
  deletedIds := batch.deletedIds.map (qualify attribution)
  removedIds := batch.removedIds.map (qualify attribution)
  liveIds := batch.liveIds.map (qualify attribution)

inductive Checkpoint where
  | change (cursor : String)
  | backfill (itemsDone : Nat) (itemsEstimated : Option Nat) (completion : Bool)
  deriving DecidableEq

/-- `published`: how many batches of the stream were out when the checkpoint was. -/
structure Ack where
  scope : CursorScope
  checkpoint : Checkpoint
  published : Nat

/-- A batch that the stream delivered, and whether it was hydrated unblocked and persisted. -/
structure Delivered where
  scope : CursorScope
  stored : Bool

/-- How the stream is read: by the resident loop, or once until it is caught up. -/
inductive Loop where
  | resident | oneShot
  deriving DecidableEq

structure ChangeStreamConsumer where
  provider : BifrostProviderKind
  loop : Loop
  containers : Option ContainerIndex
  refreshedScopes : List CursorScope
  pending : PendingDeletions
  deferredImapAcks : List Ack
  imapSeenByScope : Table CursorScope Nat
  stopped : Bool
  delivered : List Delivered
  acked : List Ack

def ChangeStreamConsumer.new (provider : BifrostProviderKind) (loop : Loop)
    (containers : Option ContainerIndex) : ChangeStreamConsumer where
  provider := provider
  loop := loop
  containers := containers
  refreshedScopes := []
  pending := .default
  deferredImapAcks := []
  imapSeenByScope := ∅
  stopped := false
  delivered := []
  acked := []

/-- What is answered while one event is handled. `containers` is the answer of `sync_containers`;
`hydrated`, `persisted` and `postPersisted` say whether each stage passed; `ackFails` and `flushFails`
where the acknowledgements of a stage stop, if they do; `elapsed` whether `RESIDENT_FLUSH_INTERVAL` has
passed. -/
structure Answers where
  containers : Option ContainerIndex
  hydrated : Bool
  persisted : Bool
  postPersisted : Bool
  ackFails : Option Nat
  flushFails : Option Nat
  elapsed : Bool

def Answers.good : Answers := ⟨none, true, true, true, none, none, false⟩

inductive StreamEvent where
  | batch (scope : CursorScope) (items : List StreamChange) (checkpoint : Option Checkpoint)
      (answers : Answers)
  | done (scope : CursorScope) (checkpoint : Option Checkpoint) (answers : Answers)
  | progress (answers : Answers)
  | terminated (answers : Answers)
  | lagged (answers : Answers)
  | closed (answers : Answers)
  | idle (backfillCompleted : Bool) (answers : Answers)

def U64_MAX : Nat := 2 ^ 64 - 1

def saturatingAdd (a b : Nat) : Nat := min (a + b) U64_MAX

def RESIDENT_DEFERRED_ACK_CAP : Nat := 128

namespace ChangeStreamConsumer

/-- The scope's namespace, with one refresh of the containers for each scope that has none. -/
def resolveAttribution (s : ChangeStreamConsumer) (scope : CursorScope) (answers : Answers) :
    Option NamespaceAttribution × ChangeStreamConsumer :=
  let initial := match s.containers with
    | none => some .personal
    | some index => index.attributionForScope scope
  match initial with
  | some attribution => (some attribution, s)
  | none =>
    if scope ∈ s.refreshedScopes then (none, s)
    else
      let s := { s with refreshedScopes := scope :: s.refreshedScopes }
      match answers.containers with
      | some containers =>
        (containers.attributionForScope scope, { s with containers := some containers })
      | none => (none, s)

def isMailScope (s : ChangeStreamConsumer) (scope : CursorScope) : Bool :=
  isEmailScope scope &&
    match s.containers, scope with
    | some index, .folder folder => index.isMailContainer folder
    | some index, .folderType folder _ => index.isMailContainer folder
    | _, _ => true

/-- Acknowledge in order; after the first failure the drive is over. -/
def ackCheckpoints (s : ChangeStreamConsumer) (acks : List Ack) : Option Nat → ChangeStreamConsumer
  | none => { s with acked := s.acked ++ acks }
  | some n => { s with acked := s.acked ++ acks.take n, stopped := true }

def stop (s : ChangeStreamConsumer) : ChangeStreamConsumer := { s with stopped := true }

def deliver (s : ChangeStreamConsumer) (scope : CursorScope) (stored : Bool) : ChangeStreamConsumer :=
  { s with delivered := s.delivered ++ [⟨scope, stored⟩] }

/-- IMAP defers, the other providers acknowledge at once. -/
def publish (s : ChangeStreamConsumer) (acks : List Ack) (fails : Option Nat) : ChangeStreamConsumer :=
  if s.provider = .imap then { s with deferredImapAcks := s.deferredImapAcks ++ acks }
  else s.ackCheckpoints acks fails

def accumulate (s : ChangeStreamConsumer) (scope : CursorScope) (itemCount : Nat)
    (batch : HydrateBatch) : ChangeStreamConsumer :=
  let seen := saturatingAdd ((s.imapSeenByScope.lookup scope).getD 0) (min itemCount U64_MAX)
  { s with
    imapSeenByScope :=
      if s.provider = .imap then s.imapSeenByScope.insert scope seen else s.imapSeenByScope
    pending := {
      removed := s.pending.removed ∪ batch.removedIds.toFinset
      live := s.pending.live ∪ batch.liveIds.toFinset } }

/-- Persist the batch, then acknowledge it unless it is blocked. -/
def storeBatch (s : ChangeStreamConsumer) (scope : CursorScope) (checkpoint : Option Checkpoint)
    (blocked : Bool) (answers : Answers) : ChangeStreamConsumer :=
  if answers.persisted then
    let s := s.deliver scope (!blocked)
    if answers.postPersisted then
      match checkpoint with
      | some checkpoint =>
        if blocked then s
        else s.publish [⟨scope, checkpoint, s.delivered.length⟩] answers.ackFails
      | none => s
    else s.stop
  else (s.deliver scope false).stop

/-- The part of a batch after its attribution and its hydration. -/
def persistBatch (s : ChangeStreamConsumer) (scope : CursorScope) (itemCount : Nat)
    (checkpoint : Option Checkpoint) (attribution : NamespaceAttribution) (hydrated : Hydration)
    (answers : Answers) : ChangeStreamConsumer :=
  (s.accumulate scope itemCount (hydrated.batch.qualifyNamespace attribution)).storeBatch scope checkpoint
    hydrated.blocked answers

def handleBatch (s : ChangeStreamConsumer) (scope : CursorScope) (items : List StreamChange)
    (checkpoint : Option Checkpoint) (answers : Answers) : ChangeStreamConsumer :=
  match s.resolveAttribution scope answers with
  | (none, s) => s.deliver scope false
  | (some attribution, s) =>
    if s.isMailScope scope then
      if answers.hydrated then
        s.persistBatch scope items.length checkpoint attribution
          (Hydration.fromChanges s.provider items) answers
      else (s.deliver scope false).stop
    else if isContainerChangeBatch scope items.length then
      match answers.containers with
      | some containers =>
        { s with containers := some containers }.persistBatch scope items.length checkpoint attribution
          .default answers
      | none => s.deliver scope false
    else s.persistBatch scope items.length checkpoint attribution .default answers

def completionBackfillCheckpoint (seen : Nat) : Checkpoint :=
  .backfill (saturatingAdd seen 1) (some seen) true

/-- For IMAP a `Done` with a change cursor also completes the backfill. -/
def doneAcks (s : ChangeStreamConsumer) (scope : CursorScope) (checkpoint : Checkpoint) : List Ack :=
  let ack : Ack := ⟨scope, checkpoint, s.delivered.length⟩
  match s.provider, checkpoint with
  | .imap, .change _ =>
    [⟨scope, completionBackfillCheckpoint ((s.imapSeenByScope.lookup scope).getD 0), s.delivered.length⟩, ack]
  | _, _ => [ack]

def handleDone (s : ChangeStreamConsumer) (scope : CursorScope) (checkpoint : Option Checkpoint)
    (answers : Answers) : ChangeStreamConsumer :=
  match checkpoint with
  | none => s
  | some checkpoint => s.publish (s.doneAcks scope checkpoint) answers.ackFails

/-! ## The end of a drive -/

def flushImapDriveEnd (s : ChangeStreamConsumer) (fails : Option Nat) : ChangeStreamConsumer :=
  { { s with deferredImapAcks := [] }.ackCheckpoints s.deferredImapAcks fails with
    imapSeenByScope := ∅ }

/-- Without the IMAP half only the pending deletions can fail. -/
def flushDriveEnd (s : ChangeStreamConsumer) (flushImap : Bool) (answers : Answers) : ChangeStreamConsumer :=
  if flushImap && s.provider = .imap then s.flushImapDriveEnd answers.flushFails
  else if answers.flushFails.isSome then s.stop
  else s

def residentFlushDue (s : ChangeStreamConsumer) (elapsed : Bool) : Bool :=
  RESIDENT_DEFERRED_ACK_CAP ≤ s.deferredImapAcks.length ||
    (!s.deferredImapAcks.isEmpty && elapsed) || Consumer.residentFlushDue s.pending elapsed

def flushAndClear (s : ChangeStreamConsumer) (answers : Answers) : ChangeStreamConsumer :=
  { s.flushDriveEnd true answers with pending := .default }

/-- What the loop does after an event that did not end the drive. -/
def afterEvent (s : ChangeStreamConsumer) (answers : Answers) : ChangeStreamConsumer :=
  if s.stopped then s
  else if s.loop = .resident ∧ s.residentFlushDue answers.elapsed = true then s.flushAndClear answers
  else s

/-- The stream ended. The one-shot loop flushes the IMAP half unless it lagged, the resident loop does
not. -/
def leave (s : ChangeStreamConsumer) (lagged : Bool) (answers : Answers) : ChangeStreamConsumer :=
  (s.flushDriveEnd (s.loop = .oneShot && !lagged) answers).stop

/-- Caught up: the resident loop goes on after the flush. -/
def idle (s : ChangeStreamConsumer) (backfillCompleted : Bool) (answers : Answers) : ChangeStreamConsumer :=
  if backfillCompleted then
    match s.loop with
    | .resident => s.flushAndClear answers
    | .oneShot => s.leave false answers
  else s

def handleEvent (s : ChangeStreamConsumer) : StreamEvent → ChangeStreamConsumer
  | .batch scope items checkpoint answers =>
    (s.handleBatch scope items checkpoint answers).afterEvent answers
  | .done scope checkpoint answers => (s.handleDone scope checkpoint answers).afterEvent answers
  | .progress answers => s.afterEvent answers
  | .terminated answers => s.leave false answers
  | .lagged answers => s.leave true answers
  | .closed answers => s.leave false answers
  | .idle backfillCompleted answers => s.idle backfillCompleted answers

def step (s : ChangeStreamConsumer) (event : StreamEvent) : Except String ChangeStreamConsumer :=
  if s.stopped then .error "the drive is over" else .ok (s.handleEvent event)

end ChangeStreamConsumer

end Ratatoskr.Consumer

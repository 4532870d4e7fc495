import Mathlib.Data.Finset.Basic
import Mathlib.Data.Finset.Card
import Ratatoskr.Lib.Table

/-!
# Consumer.Drive

The change-stream consumer of one account (`service/src/bifrost/consumer/mod.rs`, `hydrate.rs`), for a
Graph mailbox. A batch is hydrated and persisted as it arrives; a `Removed` is only a candidate, and the
candidates that no live signal revived are deleted when the drive ends. A drive ends where the stream
closes, at an idle edge, or, in the resident loop, where a flush is forced.

The local store is the set of its message ids. Hydration is the engine's and succeeds; scopes are
attributed and personal. Time enters as flags on the events: whether `RESIDENT_FLUSH_INTERVAL` has
passed, whether the backfill of every observed scope is complete at the idle edge.
-/

namespace Ratatoskr.Consumer

open Lib (Table)

abbrev MessageId := String
abbrev FolderId := String

inductive BifrostProviderKind where
  | jmap | graph | gmail | imap
  deriving DecidableEq

inductive ObjectChangeKind where
  | created | updated | destroyed
  deriving DecidableEq

inductive ScopeChangeKind where
  | added | removed
  deriving DecidableEq

inductive Change where
  | objectChange (id : MessageId) (kind : ObjectChangeKind)
  | scopeChange (id : MessageId) (membership : FolderId) (kind : ScopeChangeKind)
  deriving DecidableEq

/-- `rows` are the ids of the rows. -/
structure HydrateBatch where
  rows : List MessageId
  deletedIds : List MessageId
  removedIds : List MessageId
  liveIds : List MessageId

def HydrateBatch.default : HydrateBatch := ⟨[], [], [], []⟩

def recordChangeMembership (batch : HydrateBatch) (provider : BifrostProviderKind) : Change → HydrateBatch
  | .objectChange id .created => { batch with liveIds := batch.liveIds ++ [id] }
  | .objectChange id .updated => { batch with liveIds := batch.liveIds ++ [id] }
  | .objectChange _ .destroyed => batch
  | .scopeChange id _ .removed =>
    if provider = .imap then { batch with deletedIds := batch.deletedIds ++ [id] }
    else if provider = .graph then { batch with removedIds := batch.removedIds ++ [id] }
    else batch
  | .scopeChange id _ .added => { batch with liveIds := batch.liveIds ++ [id] }

inductive HydratedChange where
  | message (id : MessageId)
  | deleted (id : MessageId)
  | scopeOnly

/-- A scope change hydrates a message for Gmail, and for IMAP when it adds. -/
def hydrateChangeToMessageInsertRow (provider : BifrostProviderKind) : Change → HydratedChange
  | .objectChange id .created => .message id
  | .objectChange id .updated => .message id
  | .objectChange id .destroyed => .deleted id
  | .scopeChange id _ kind =>
    if provider = .gmail ∨ (provider = .imap ∧ kind = .added) then .message id else .scopeOnly

def HydrateBatch.addChange (provider : BifrostProviderKind) (batch : HydrateBatch) (change : Change) :
    HydrateBatch :=
  let batch := recordChangeMembership batch provider change
  match hydrateChangeToMessageInsertRow provider change with
  | .message id => { batch with rows := batch.rows ++ [id] }
  | .deleted id => { batch with deletedIds := batch.deletedIds ++ [id] }
  | .scopeOnly => batch

def HydrateBatch.fromChanges (provider : BifrostProviderKind) (changes : List Change) : HydrateBatch :=
  changes.foldl (HydrateBatch.addChange provider) HydrateBatch.default

structure PendingDeletions where
  removed : Finset MessageId
  live : Finset MessageId

def PendingDeletions.default : PendingDeletions := ⟨∅, ∅⟩

def PendingDeletions.isEmpty (pending : PendingDeletions) : Bool :=
  pending.removed = ∅ ∧ pending.live = ∅

def PendingDeletions.len (pending : PendingDeletions) : Nat :=
  pending.removed.card + pending.live.card

structure State where
  messages : Finset MessageId
  pending : PendingDeletions

/-- One batch: its ids are added to the drive's sets, its rows are inserted, then its definite deletions
applied. -/
def handleBatch (s : State) (changes : List Change) : State :=
  let hydrated := HydrateBatch.fromChanges .graph changes
  { messages := (s.messages ∪ hydrated.rows.toFinset) \ hydrated.deletedIds.toFinset
    pending := {
      removed := s.pending.removed ∪ hydrated.removedIds.toFinset
      live := s.pending.live ∪ hydrated.liveIds.toFinset } }

def flushPendingDeletions (s : State) : State :=
  { s with messages := s.messages \ (s.pending.removed \ s.pending.live) }

def flushDriveEnd (s : State) : State := flushPendingDeletions s

def RESIDENT_PENDING_DELETION_CAP : Nat := 4096

/-- `elapsed`: `RESIDENT_FLUSH_INTERVAL` has passed since the last forced flush. -/
def residentFlushDue (pending : PendingDeletions) (elapsed : Bool) : Bool :=
  RESIDENT_PENDING_DELETION_CAP ≤ pending.len || (!pending.isEmpty && elapsed)

inductive Event where
  | batch (scope : FolderId) (changes : List Change) (elapsed : Bool)
  | idle (backfillCompleted : Bool)

def flushAndClear (s : State) : State := { flushDriveEnd s with pending := .default }

def residentEvent (s : State) : Event → State
  | .batch _ changes elapsed =>
    let s := handleBatch s changes
    if residentFlushDue s.pending elapsed then flushAndClear s else s
  | .idle backfillCompleted => if backfillCompleted then flushAndClear s else s

def driveResidentLoop (messages : Finset MessageId) (events : List Event) : Finset MessageId :=
  (flushDriveEnd (events.foldl residentEvent ⟨messages, .default⟩)).messages

/-- The one-shot loop stops at the first idle edge with a complete backfill. -/
def recvLoop (s : State) : List Event → State
  | [] => s
  | .batch _ changes _ :: events => recvLoop (handleBatch s changes) events
  | .idle backfillCompleted :: events => if backfillCompleted then s else recvLoop s events

def driveReceiver (messages : Finset MessageId) (events : List Event) : Finset MessageId :=
  (flushDriveEnd (recvLoop ⟨messages, .default⟩ events)).messages

/-- The consumer is attached time and again, either way, each time with new `PendingDeletions`. -/
inductive Attach where
  | resident (events : List Event)
  | oneShot (events : List Event)

def drive (messages : Finset MessageId) : Attach → Finset MessageId
  | .resident events => driveResidentLoop messages events
  | .oneShot events => driveReceiver messages events

def consume (attaches : List Attach) : Finset MessageId := attaches.foldl drive ∅

/-! ## The mailbox -/

inductive MailboxStep where
  | create (id : MessageId) (folder : FolderId)
  | update (id : MessageId)
  | move (id : MessageId) (folder : FolderId)
  | purge (id : MessageId)

/-- The server's step and the changes it emits, each with the folder whose stream it goes to. -/
def mailboxStep (server : Table MessageId FolderId) :
    MailboxStep → Except String (Table MessageId FolderId × List (FolderId × Change))
  | .create id folder =>
    match server.lookup id with
    | some _ => .error "id in use"
    | none => .ok (server.insert id folder,
        [(folder, .objectChange id .created), (folder, .scopeChange id folder .added)])
  | .update id =>
    match server.lookup id with
    | none => .error "no such message"
    | some folder => .ok (server, [(folder, .objectChange id .updated)])
  | .move id folder =>
    match server.lookup id with
    | none => .error "no such message"
    | some source =>
      if source = folder then .error "already there"
      else .ok (server.insert id folder,
        [(folder, .objectChange id .updated), (folder, .scopeChange id folder .added),
          (source, .scopeChange id source .removed)])
  | .purge id =>
    match server.lookup id with
    | none => .error "no such message"
    | some folder => .ok (server.erase id, [(folder, .scopeChange id folder .removed)])

/-- A history from the empty mailbox: the server at its end and everything it emitted. -/
def runHistory : List MailboxStep → Except String (Table MessageId FolderId × List (FolderId × Change)) :=
  List.foldlM (fun (server, emitted) step =>
    match mailboxStep server step with
    | .error e => .error e
    | .ok (server, changes) => .ok (server, emitted ++ changes)) (∅, [])

def streamOf (emitted : List (FolderId × Change)) (folder : FolderId) : List Change :=
  (emitted.filter (fun c => c.1 = folder)).map Prod.snd

end Ratatoskr.Consumer

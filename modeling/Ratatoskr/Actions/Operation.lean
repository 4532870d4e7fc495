import Mathlib.Data.List.Basic
import Mathlib.Data.List.Sort

/-!
# Actions.Operation

The mail operations, their outcomes and the retry queue (`service-api/src/actions.rs`,
`service/src/actions/pending.rs`, `db/src/db/pending_ops.rs`). A row of `pending_operations` keeps the
operation as a type string and a JSON text; the text is kept here as the fields it has, which is all
that is ever read of it.
-/

namespace Ratatoskr.Actions

abbrev AccountId := String
abbrev ThreadId := String
abbrev MessageId := String
abbrev LabelId := String
abbrev FolderId := String

inductive RemoteFailureKind where
  | transient | permanent | notImplemented | unknown
  deriving DecidableEq

inductive ActionError where
  | db (msg : String)
  | remote (kind : RemoteFailureKind) (message : String)
  | notFound (what : String)
  | invalidState (msg : String)
  | build (msg : String)
  deriving DecidableEq

def ActionError.isRetryable : ActionError → Bool
  | .remote .transient _ => true
  | .remote .unknown _ => true
  | _ => false

inductive ActionOutcome where
  | success
  | noOp
  | localOnly (reason : ActionError) (retryable : Bool)
  | failed (error : ActionError)
  deriving DecidableEq

def ActionOutcome.isSuccess (outcome : ActionOutcome) : Bool := outcome = .success

inductive MailOperation where
  | archive
  | trash
  | permanentDelete
  | setSpam (value : Bool)
  | setStarred (value : Bool)
  | setRead (value : Bool)
  | setPinned (value : Bool)
  | setMuted (value : Bool)
  | moveToFolder (dest : FolderId) (source : Option FolderId)
  | addLabel (labelId : LabelId)
  | removeLabel (labelId : LabelId)
  | applyLabelGroup (groupId : Int)
  | removeLabelGroup (groupId : Int)
  | snooze (wakeAt : Int)
  | unsnooze
  deriving DecidableEq

def isLocalOnly : MailOperation → Bool
  | .setPinned _ => true
  | .setMuted _ => true
  | .snooze _ => true
  | .unsnooze => true
  | _ => false

def isContainerMove : MailOperation → Bool
  | .archive => true
  | .trash => true
  | .setSpam _ => true
  | .moveToFolder _ _ => true
  | _ => false

inductive RemoteBatchKey where
  | star (value : Bool)
  | read (value : Bool)
  | archive
  | trash
  | spam (value : Bool)
  | moveToFolder (dest : FolderId) (source : Option FolderId)
  | permanentDelete
  deriving DecidableEq

def RemoteBatchKey.fromOperation : MailOperation → Option RemoteBatchKey
  | .setStarred value => some (.star value)
  | .setRead value => some (.read value)
  | .archive => some .archive
  | .trash => some .trash
  | .setSpam value => some (.spam value)
  | .moveToFolder dest source => some (.moveToFolder dest source)
  | .permanentDelete => some .permanentDelete
  | _ => none

/-- A field of the JSON text; whatever is no boolean, integer or string reads as `null`. -/
inductive Scalar where
  | null
  | bool (b : Bool)
  | int (i : Int)
  | str (s : String)
  deriving DecidableEq

abbrev Params := List (String × Scalar)

def Params.asBool (params : Params) (field : String) : Option Bool :=
  match params.lookup field with
  | some (.bool b) => some b
  | _ => none

def Params.asStr (params : Params) (field : String) : Option String :=
  match params.lookup field with
  | some (.str s) => some s
  | _ => none

def Params.asInt (params : Params) (field : String) : Option Int :=
  match params.lookup field with
  | some (.int i) => some i
  | _ => none

/-- `none` is the `unreachable!` of the local-only operations. -/
def enqueueParams : MailOperation → Option (String × Params)
  | .archive => some ("archive", [])
  | .trash => some ("trash", [])
  | .setSpam value => some ("spam", [("isSpam", .bool value)])
  | .moveToFolder dest source => some ("moveToFolder", [("folderId", .str dest),
      ("sourceFolderId", match source with | some s => .str s | none => .null)])
  | .setStarred value => some ("star", [("starred", .bool value)])
  | .setRead value => some ("markRead", [("read", .bool value)])
  | .permanentDelete => some ("permanentDelete", [])
  | .addLabel labelId => some ("addLabel", [("labelId", .str labelId)])
  | .removeLabel labelId => some ("removeLabel", [("labelId", .str labelId)])
  | .applyLabelGroup groupId => some ("applyLabelGroup", [("groupId", .int groupId)])
  | .removeLabelGroup groupId => some ("removeLabelGroup", [("groupId", .int groupId)])
  | .setPinned _ => none
  | .setMuted _ => none
  | .snooze _ => none
  | .unsnooze => none

/-- The operation a queued row stands for; `none` is an unknown type. -/
def pendingOperation (operationType : String) (params : Params) : Option MailOperation :=
  match operationType with
  | "archive" => some .archive
  | "trash" => some .trash
  | "spam" => some (.setSpam ((params.asBool "isSpam").getD true))
  | "moveToFolder" =>
    some (.moveToFolder ((params.asStr "folderId").getD "") (params.asStr "sourceFolderId"))
  | "star" => some (.setStarred ((params.asBool "starred").getD true))
  | "markRead" => some (.setRead ((params.asBool "read").getD true))
  | "permanentDelete" => some .permanentDelete
  | "addLabel" => some (.addLabel ((params.asStr "labelId").getD ""))
  | "removeLabel" => some (.removeLabel ((params.asStr "labelId").getD ""))
  | "applyLabelGroup" => some (.applyLabelGroup ((params.asInt "groupId").getD 0))
  | "removeLabelGroup" => some (.removeLabelGroup ((params.asInt "groupId").getD 0))
  | _ => none

theorem enqueueParams_isSome (op : MailOperation) : (enqueueParams op).isSome = !isLocalOnly op := by
  cases op <;> rfl

/-! ## The queue -/

inductive OpStatus where
  | pending | executing | failed
  deriving DecidableEq

structure PendingOperation where
  id : String
  accountId : AccountId
  operationType : String
  resourceId : ThreadId
  params : Params
  status : OpStatus
  retryCount : Int
  maxRetries : Int
  nextRetryAt : Option Int
  createdAt : Int

def PendingOperation.live (row : PendingOperation) : Bool :=
  row.status = .pending ∨ row.status = .executing

def folderTypes : List String := ["archive", "trash", "spam", "moveToFolder", "permanentDelete"]

def retryPolicy (operationType : String) : Int :=
  if operationType ∈ folderTypes then 10
  else if operationType ∈ ["addLabel", "removeLabel", "applyLabelGroup", "removeLabelGroup"] then 7
  else 5

def backoffSchedule (operationType : String) : List Int :=
  if operationType ∈ folderTypes then [30, 120, 300, 900, 3600]
  else if operationType ∈ ["star", "markRead"] then [60, 300, 900]
  else [60, 300, 900, 3600]

/-- The row that `INSERT` makes, with the defaults of the table. -/
def newRow (id : String) (account : AccountId) (operationType : String) (resource : ThreadId)
    (params : Params) (now : Int) : PendingOperation where
  id := id
  accountId := account
  operationType := operationType
  resourceId := resource
  params := params
  status := .pending
  retryCount := 0
  maxRetries := retryPolicy operationType
  nextRetryAt := none
  createdAt := now

/-- A live row of the same thread and type, which `row` replaces. -/
def displaces (row old : PendingOperation) : Bool :=
  old.accountId = row.accountId ∧ old.resourceId = row.resourceId ∧
    old.operationType = row.operationType ∧ old.live

def dbPendingOpsEnqueue (queue : List PendingOperation) (row : PendingOperation) : List PendingOperation :=
  queue.filter (fun old => !displaces row old) ++ [row]

def due (now : Int) (row : PendingOperation) : Bool :=
  row.status = .pending &&
    match row.nextRetryAt with
    | none => true
    | some retryAt => retryAt ≤ now

/-- `ORDER BY created_at ASC LIMIT lim`; rows of one second stay in the table's order. -/
def dbPendingOpsGet (queue : List PendingOperation) (now : Int) (lim : Nat) : List PendingOperation :=
  ((queue.filter (due now)).insertionSort (fun r s => r.createdAt ≤ s.createdAt)).take lim

theorem mem_queue_of_mem_get {queue : List PendingOperation} {now : Int} {lim : Nat}
    {row : PendingOperation} (h : row ∈ dbPendingOpsGet queue now lim) : row ∈ queue := by
  have hsort := List.mem_of_mem_take h
  rw [List.mem_insertionSort] at hsort
  exact List.mem_of_mem_filter hsort

/-- `UPDATE … WHERE id = ?` -/
def updateRow (id : String) (f : PendingOperation → PendingOperation)
    (queue : List PendingOperation) : List PendingOperation :=
  queue.map (fun row => if row.id = id then f row else row)

def dbPendingOpsUpdateStatus (queue : List PendingOperation) (id : String) (status : OpStatus) :
    List PendingOperation :=
  updateRow id (fun row => { row with status := status }) queue

def dbPendingOpsDelete (queue : List PendingOperation) (id : String) : List PendingOperation :=
  queue.filter (fun row => row.id ≠ id)

/-- `schedule.get(retry_idx)`, else its last entry, else a minute. -/
def delaySec (operationType : String) (newCount : Int) : Int :=
  ((backoffSchedule operationType)[(newCount - 1).toNat]?).getD
    ((backoffSchedule operationType).getLast?.getD 60)

def retried (now : Int) (row : PendingOperation) : PendingOperation :=
  if row.retryCount + 1 ≥ row.maxRetries then
    { row with status := .failed, retryCount := row.retryCount + 1 }
  else
    { row with
      status := .pending
      retryCount := row.retryCount + 1
      nextRetryAt := some (now + delaySec row.operationType (row.retryCount + 1)) }

/-- `none` where no row has the id, or the new count is not positive. The flag says that the retries of
the row are exhausted, which takes its label intents along. -/
def dbPendingOpsIncrementRetry (queue : List PendingOperation) (id : String) (now : Int) :
    Option (List PendingOperation × Bool) :=
  match queue.find? (fun row => row.id = id) with
  | none => none
  | some row =>
    if row.retryCount + 1 ≥ row.maxRetries then some (updateRow id (retried now) queue, true)
    else if row.retryCount + 1 < 1 then none
    else some (updateRow id (retried now) queue, false)

end Ratatoskr.Actions

import Mathlib.Algebra.GroupWithZero.Nat
import Mathlib.Data.Nat.Log

/-!
# Journal.Wire

The results an action plan reports and the frames that carry them: `service-api/src/action.rs`,
`service-api/src/cal_action.rs`, `service-api/src/actions.rs` and `serialize_notification` of
`service/src/boot_progress.rs`.

A blob of the journal is the JSON document `serde_json::to_vec` writes and `from_slice` reads back,
kept as a tree. The two result types share the column: `OperationResult` is internally tagged
(`tag = "kind"`), `CalendarOperationResult` adjacently (`tag = "kind", content = "value"`).
-/

namespace Ratatoskr.Journal

abbrev PlanId := BitVec 128

/-- A JSON document. A UUID is its own case: a string whose 36 characters we never look at. -/
inductive Json where
  | null
  | bool (b : Bool)
  | num (n : Nat)
  | str (s : String)
  | uuid (id : PlanId)
  | arr (items : List Json)
  | obj (fields : List (String × Json))

/-- Bytes of one character inside a JSON string. Quote, backslash, backspace, tab, newline, form feed
and carriage return have a two-byte escape, other control characters the form `\u00XX`. -/
def escapedBytes (c : Char) : Nat :=
  if c.toNat ∈ [34, 92, 8, 9, 10, 12, 13] then 2
  else if c.toNat < 32 then 6
  else c.utf8Size

def textBytes (s : String) : Nat := (s.toList.map escapedBytes).sum + 2

mutual

/-- Length of the compact text `serde_json::to_vec` writes. -/
def Json.bytes : Json → Nat
  | .null => 4
  | .bool b => if b then 4 else 5
  | .num n => Nat.log 10 n + 1
  | .str s => textBytes s
  | .uuid _ => 38
  | .arr items => Json.itemsBytes items + (items.length - 1) + 2
  | .obj fields => Json.fieldsBytes fields + (fields.length - 1) + 2

def Json.itemsBytes : List Json → Nat
  | [] => 0
  | j :: js => j.bytes + Json.itemsBytes js

def Json.fieldsBytes : List (String × Json) → Nat
  | [] => 0
  | (key, j) :: fs => textBytes key + 1 + j.bytes + Json.fieldsBytes fs

end

/-- `Value::get` on an object. -/
def Json.get? (key : String) : Json → Option Json
  | .obj fields => (fields.find? (fun f => f.1 == key)).map Prod.snd
  | _ => none

inductive RemoteFailureKind where
  | Transient
  | Permanent
  | NotImplemented
  | Unknown
  deriving DecidableEq

inductive ActionError where
  | Db (message : String)
  | Remote (kind : RemoteFailureKind) (message : String)
  | NotFound (what : String)
  | InvalidState (message : String)
  | Build (message : String)

def ActionError.userMessage : ActionError → String
  | .Db msg => "Database error: " ++ msg
  | .Remote .Transient message => "Network error: " ++ message
  | .Remote .Permanent message => "Server rejected: " ++ message
  | .Remote .NotImplemented message => "Not yet supported: " ++ message
  | .Remote .Unknown message => "Sync error: " ++ message
  | .NotFound what => "Not found: " ++ what
  | .InvalidState msg => msg
  | .Build msg => "Build error: " ++ msg

inductive ActionOutcome where
  | Success
  | NoOp
  | LocalOnly (reason : ActionError) (retryable : Bool)
  | Failed (error : ActionError)

structure RemoteFailure where
  providerMessage : String
  httpStatus : Option Nat
  retryable : Bool

inductive OperationResult where
  | Success
  | LocalOnly
  | RemoteFailure (failure : RemoteFailure)
  | ConflictRejected (detail : String)

inductive CalendarOperationResult where
  | Success
  | LocalOnly (reason : String)
  | Failed (error : String)

def RemoteFailure.toJson (f : RemoteFailure) : Json :=
  .obj [("provider_message", .str f.providerMessage),
    ("http_status", match f.httpStatus with | none => .null | some n => .num n),
    ("retryable", .bool f.retryable)]

def OperationResult.toJson : OperationResult → Json
  | .Success => .obj [("kind", .str "success")]
  | .LocalOnly => .obj [("kind", .str "local_only")]
  | .RemoteFailure failure =>
    .obj [("kind", .str "remote_failure"), ("failure", failure.toJson)]
  | .ConflictRejected detail =>
    .obj [("kind", .str "conflict_rejected"), ("detail", .str detail)]

def CalendarOperationResult.toJson : CalendarOperationResult → Json
  | .Success => .obj [("kind", .str "success")]
  | .LocalOnly reason =>
    .obj [("kind", .str "local_only"), ("value", .obj [("reason", .str reason)])]
  | .Failed error => .obj [("kind", .str "failed"), ("value", .obj [("error", .str error)])]

def contentField (key : String) (j : Json) : Option String :=
  match (j.get? "value").bind (Json.get? key) with
  | some (.str s) => some s
  | _ => none

/-- Deserializing the adjacently tagged enum. An unknown tag is an error, and so is a struct variant
without its content; a unit variant may leave the content out. -/
def CalendarOperationResult.fromJson (j : Json) : Option CalendarOperationResult :=
  match j.get? "kind" with
  | some (.str "success") =>
    match j.get? "value" with
    | none => some .Success
    | some .null => some .Success
    | some _ => none
  | some (.str "local_only") => (contentField "reason" j).map .LocalOnly
  | some (.str "failed") => (contentField "error" j).map .Failed
  | _ => none

/-- `true` when a terminal op's result carries the tag both enums use for a deferred commit. -/
def outcomeBlobIsLocalOnly (blob : Json) : Bool :=
  match blob.get? "kind" with
  | some (.str tag) => tag == "local_only"
  | _ => false

@[simp] theorem CalendarOperationResult.fromJson_toJson (r : CalendarOperationResult) :
    fromJson r.toJson = some r := by
  cases r <;> rfl

/-! ## Notifications -/

structure PlanSummary where
  total : Nat
  localOnly : Nat
  remoteSucceeded : Nat
  remoteFailed : Nat
  conflicts : Nat

def PlanSummary.toJson (s : PlanSummary) : Json :=
  .obj [("total", .num s.total), ("local_only", .num s.localOnly),
    ("remote_succeeded", .num s.remoteSucceeded), ("remote_failed", .num s.remoteFailed),
    ("conflicts", .num s.conflicts)]

structure CalendarOperationOutcome where
  planId : PlanId
  operationId : Nat
  result : CalendarOperationResult

/-- `service_generation` is 0 in every frame the service writes. -/
def CalendarOperationOutcome.toJson (o : CalendarOperationOutcome) : Json :=
  .obj [("plan_id", .uuid o.planId), ("operation_id", .num o.operationId),
    ("result", o.result.toJson), ("service_generation", .num 0)]

inductive Notification where
  | OperationOutcome (planId : PlanId) (operationId : Nat) (result : OperationResult)
  | ActionCompleted (planId : PlanId) (summary : PlanSummary)
  | CalendarOperationOutcome (outcome : CalendarOperationOutcome)
  | CalendarActionCompleted (planId : PlanId) (results : List CalendarOperationOutcome)

def Notification.methodName : Notification → String
  | .OperationOutcome .. => "action.operation_outcome"
  | .ActionCompleted .. => "action.completed"
  | .CalendarOperationOutcome .. => "cal_action.operation_outcome"
  | .CalendarActionCompleted .. => "cal_action.completed"

def Notification.params : Notification → Json
  | .OperationOutcome planId operationId result =>
    .obj [("plan_id", .uuid planId), ("operation_id", .num operationId),
      ("result", result.toJson), ("service_generation", .num 0)]
  | .ActionCompleted planId summary =>
    .obj [("plan_id", .uuid planId), ("summary", summary.toJson), ("service_generation", .num 0)]
  | .CalendarOperationOutcome outcome => outcome.toJson
  | .CalendarActionCompleted planId results =>
    .obj [("plan_id", .uuid planId), ("results", .arr (results.map (·.toJson))),
      ("service_generation", .num 0)]

def Notification.frame (n : Notification) : Json :=
  .obj [("method", .str n.methodName), ("params", n.params), ("jsonrpc", .str "2.0")]

def maxFrameBytes : Nat := 4 * 1024 * 1024

/-- `send_must_deliver_notification`: a frame over the limit is logged and dropped. -/
def sendMustDeliverNotification (n : Notification) : List Notification :=
  if n.frame.bytes ≤ maxFrameBytes then [n] else []

theorem mem_sendMustDeliver {n m : Notification} :
    m ∈ sendMustDeliverNotification n ↔ m = n ∧ n.frame.bytes ≤ maxFrameBytes := by
  unfold sendMustDeliverNotification
  split <;> simp_all

end Ratatoskr.Journal

import Mathlib.Data.List.Sort
import Ratatoskr.Journal.Wire

/-!
# Journal.Store

The tables `action_jobs` and `action_job_ops` and the statements `db/src/db/action_journal.rs` runs
on them. An op row lives under its job: the foreign key never lets one exist without the other, and
both are inserted in one transaction.

Left out are the columns nothing reads: `lease_owner`, `lease_expires_at`, `updated_at`, `payload`.

* `Job.Keeps`, `Keeps` : terminal rows stay as they are from one journal to another.
-/

namespace Ratatoskr.Journal

inductive JobStatus where
  | Queued
  | Leased
  | Executing
  | Completed
  | Partial
  | Failed
  deriving DecidableEq

inductive OpStatus where
  | Pending
  | Leased
  | Executing
  | Done
  | Failed
  | Conflict
  deriving DecidableEq

def JobStatus.isTerminal : JobStatus → Bool
  | .Completed | .Partial | .Failed => true
  | _ => false

def OpStatus.isTerminal : OpStatus → Bool
  | .Done | .Failed | .Conflict => true
  | _ => false

inductive OpTerminalStatus where
  | Done
  | Failed
  | Conflict

def OpTerminalStatus.toStatus : OpTerminalStatus → OpStatus
  | .Done => .Done
  | .Failed => .Failed
  | .Conflict => .Conflict

inductive JobTerminalStatus where
  | Completed
  | Partial
  | Failed
  deriving DecidableEq

def JobTerminalStatus.toStatus : JobTerminalStatus → JobStatus
  | .Completed => .Completed
  | .Partial => .Partial
  | .Failed => .Failed

inductive PerOpJobKind where
  | MailPlan
  | CalendarPlan
  deriving DecidableEq

def PerOpJobKind.asSql : PerOpJobKind → String
  | .MailPlan => "mail_plan"
  | .CalendarPlan => "calendar_plan"

def PerOpJobKind.fromSql (value : String) : Option PerOpJobKind :=
  if value = "mail_plan" then some .MailPlan
  else if value = "calendar_plan" then some .CalendarPlan
  else none

structure OpRow where
  operationId : Nat
  ordinal : Nat
  threadId : String
  operation : Json
  status : OpStatus
  outcome : Option Json

structure Job where
  jobId : PlanId
  kind : String
  accountId : String
  status : JobStatus
  quiet : Bool
  createdAt : Int
  summary : Option PlanSummary
  ops : List OpRow

abbrev Tables := List Job

/-- An `UPDATE` of the row with one primary key. -/
def updateJob (j : Tables) (planId : PlanId) (f : Job → Job) : Tables :=
  j.map (fun job => if job.jobId = planId then f job else job)

def updateOp (job : Job) (operationId : Nat) (f : OpRow → OpRow) : Job :=
  { job with ops := job.ops.map (fun op => if op.operationId = operationId then f op else op) }

def recoverJob (job : Job) : Job :=
  if job.status = .Leased ∨ job.status = .Executing then { job with status := .Queued } else job

def recoverOp (op : OpRow) : OpRow :=
  if op.status = .Leased ∨ op.status = .Executing then { op with status := .Pending } else op

def recoverStaleLeases (j : Tables) : Tables :=
  j.map (fun job => { recoverJob job with ops := job.ops.map recoverOp })

structure PlanOpInsert where
  operationId : Nat
  ordinal : Nat
  threadId : String
  operationBlob : Json

def PlanOpInsert.toRow (op : PlanOpInsert) : OpRow :=
  ⟨op.operationId, op.ordinal, op.threadId, op.operationBlob, .Pending, none⟩

/-- The transaction that inserts a job and its ops. It fails on a primary key that is taken or on
`UNIQUE (job_id, ordinal)`, and then leaves nothing behind. -/
def insertPlan (j : Tables) (kind : String) (planId : PlanId) (accountId : String) (quiet : Bool)
    (ops : List PlanOpInsert) (now : Int) : Option Tables :=
  if planId ∉ j.map (·.jobId) ∧ (ops.map (·.operationId)).Nodup ∧ (ops.map (·.ordinal)).Nodup then
    some (j ++ [⟨planId, kind, accountId, .Queued, quiet, now, none, ops.map (·.toRow)⟩])
  else none

def insertMailPlan (j : Tables) (planId : PlanId) (accountId : String) (quiet : Bool)
    (ops : List PlanOpInsert) (now : Int) : Option Tables :=
  insertPlan j PerOpJobKind.MailPlan.asSql planId accountId quiet ops now

def insertCalendarPlan (j : Tables) (planId : PlanId) (accountId : String)
    (ops : List PlanOpInsert) (now : Int) : Option Tables :=
  insertPlan j PerOpJobKind.CalendarPlan.asSql planId accountId false ops now

structure LeasedOp where
  planId : PlanId
  operationId : Nat
  ordinal : Nat
  threadId : String
  operationBlob : Json
  accountId : String
  quiet : Bool
  kind : Option PerOpJobKind
  rawKind : String

def leasedOp (job : Job) (op : OpRow) : LeasedOp :=
  ⟨job.jobId, op.operationId, op.ordinal, op.threadId, op.operation, job.accountId, job.quiet,
    PerOpJobKind.fromSql job.kind, job.kind⟩

def readyOps (j : Tables) : List (Job × OpRow) :=
  j.flatMap (fun job =>
    if job.status.isTerminal then []
    else (job.ops.filter (fun op => op.status = .Pending)).map (fun op => (job, op)))

/-- `ORDER BY jobs.created_at, ops.ordinal`. -/
def leaseKeyLe (a b : Job × OpRow) : Prop :=
  a.1.createdAt < b.1.createdAt ∨ (a.1.createdAt = b.1.createdAt ∧ a.2.ordinal ≤ b.2.ordinal)

instance (a b : Job × OpRow) : Decidable (leaseKeyLe a b) := by
  unfold leaseKeyLe
  infer_instance

/-- `LIMIT 1` may return any row that no other row sorts strictly before. -/
def isNextReady (j : Tables) (r : Job × OpRow) : Prop :=
  ∀ r' ∈ readyOps j, leaseKeyLe r r'

instance (j : Tables) (r : Job × OpRow) : Decidable (isNextReady j r) := by
  unfold isNextReady
  infer_instance

def setLeased (op : OpRow) : OpRow := { op with status := .Leased }

def leaseOp (j : Tables) (planId : PlanId) (operationId : Nat) : Tables :=
  updateJob j planId (fun job => updateOp job operationId setLeased)

def setTerminal (status : OpTerminalStatus) (blob : Json) (op : OpRow) : OpRow :=
  { op with status := status.toStatus, outcome := some blob }

def markOpTerminal (j : Tables) (planId : PlanId) (operationId : Nat) (newStatus : OpTerminalStatus)
    (outcomeBlob : Json) : Tables :=
  updateJob j planId (fun job => updateOp job operationId (setTerminal newStatus outcomeBlob))

structure OpStatusCounts where
  pending : Nat
  leased : Nat
  executing : Nat
  done : Nat
  failed : Nat
  conflict : Nat

def OpStatusCounts.total (c : OpStatusCounts) : Nat :=
  c.pending + c.leased + c.executing + c.done + c.failed + c.conflict

def OpStatusCounts.nonTerminal (c : OpStatusCounts) : Nat := c.pending + c.leased + c.executing

def opsOf (j : Tables) (planId : PlanId) : List OpRow :=
  (j.filter (fun job => job.jobId = planId)).flatMap (·.ops)

def countStatus (ops : List OpRow) (status : OpStatus) : Nat :=
  ops.countP (fun op => op.status = status)

def countOps (ops : List OpRow) : OpStatusCounts :=
  ⟨countStatus ops .Pending, countStatus ops .Leased, countStatus ops .Executing,
    countStatus ops .Done, countStatus ops .Failed, countStatus ops .Conflict⟩

def countOpsByStatus (j : Tables) (planId : PlanId) : OpStatusCounts := countOps (opsOf j planId)

/-- `WHERE outcome IS NOT NULL ORDER BY ordinal`. -/
def terminalRows (ops : List OpRow) : List (Nat × Json) :=
  (ops.insertionSort (fun a b => a.ordinal ≤ b.ordinal)).filterMap
    (fun op => op.outcome.map (fun blob => (op.operationId, blob)))

def terminalOpsForPlan (j : Tables) (planId : PlanId) : List (Nat × Json) :=
  terminalRows (opsOf j planId)

def isUnfinalized (job : Job) : Bool :=
  job.kind != "send" && job.kind != "mark_chat_read" && !job.status.isTerminal &&
    job.ops.all (fun op => op.status.isTerminal)

def unfinalizedPerOpPlanJobs (j : Tables) : List (PlanId × Option PerOpJobKind) :=
  (j.filter isUnfinalized).map (fun job => (job.jobId, PerOpJobKind.fromSql job.kind))

def setFinal (status : JobTerminalStatus) (summary : PlanSummary) (job : Job) : Job :=
  { job with status := status.toStatus, summary := some summary }

def finalizeJob (j : Tables) (planId : PlanId) (newStatus : JobTerminalStatus)
    (summary : PlanSummary) : Tables :=
  updateJob j planId (setFinal newStatus summary)

end Ratatoskr.Journal

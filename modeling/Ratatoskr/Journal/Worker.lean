import Ratatoskr.Journal.Store

/-!
# Journal.Worker

The action service around the journal: the two plan handlers (`service/src/handlers/action.rs`,
`handlers/cal_action.rs`), the drain pass of the one worker task (`service/src/actions/worker.rs`)
and the crash and boot recovery between two incarnations of it.

The handlers and the worker run interleaved; an atomic step is one database transaction. A label
says what the outside decides: the request, the clock, what the dispatcher returned, which of
several tied rows a query yields, and whether the transaction failed.
-/

namespace Ratatoskr.Journal

structure ActionWireOperation where
  operationId : Nat
  accountId : String
  threadId : String
  operation : Json

/-- A plan that arrived in one frame, whose operations take at least a byte each. -/
structure ActionWirePlan where
  planId : PlanId
  operations : List ActionWireOperation
  oneFrame : operations.length ≤ maxFrameBytes

/-- `eventId` is `none` for `CreateEvent`, which has no event id before it is executed. -/
structure CalendarActionWireOperation where
  operationId : Nat
  accountId : String
  eventId : Option String
  operation : Json

structure CalendarActionPlan where
  planId : PlanId
  operations : List CalendarActionWireOperation
  oneFrame : operations.length ≤ maxFrameBytes

structure InvalidParams where
  method : String
  message : String

/-- The loop of `validate_plan` over `(operation_id, account_id)`. -/
def validateOps (method accountId : String) : List Nat → List (Nat × String) → Except InvalidParams Unit
  | _, [] => .ok ()
  | seen, (operationId, account) :: rest =>
    if account ≠ accountId then
      .error ⟨method, "plan crosses accounts: " ++ account ++ " != " ++ accountId⟩
    else if operationId ∈ seen then
      .error ⟨method, "duplicate operation_id OperationId(" ++ toString operationId ++ ") in plan"⟩
    else validateOps method accountId (operationId :: seen) rest

def validatePlan (method : String) : List (Nat × String) → Except InvalidParams Unit
  | [] => .error ⟨method, "plan has no operations"⟩
  | op :: rest => validateOps method op.2 [] (op :: rest)

/-- `ordinal` is the position in the plan. -/
def serializeOps (ops : List ActionWireOperation) : List PlanOpInsert :=
  ops.mapIdx (fun i op => ⟨op.operationId, i, op.threadId, op.operation⟩)

def serializeCalendarOps (ops : List CalendarActionWireOperation) : List PlanOpInsert :=
  ops.mapIdx (fun i op => ⟨op.operationId, i, op.eventId.getD "", op.operation⟩)

def handle (j : Tables) (plan : ActionWirePlan) (now : Int) : Option Tables :=
  match validatePlan "action.execute_plan"
      (plan.operations.map (fun op => (op.operationId, op.accountId))), plan.operations.head? with
  | .ok (), some op =>
    insertMailPlan j plan.planId op.accountId false (serializeOps plan.operations) now
  | _, _ => none

def handleCalendar (j : Tables) (plan : CalendarActionPlan) (now : Int) : Option Tables :=
  match validatePlan "cal_action.execute_plan"
      (plan.operations.map (fun op => (op.operationId, op.accountId))), plan.operations.head? with
  | .ok (), some op =>
    insertCalendarPlan j plan.planId op.accountId (serializeCalendarOps plan.operations) now
  | _, _ => none

/-- Rows of a per-op kind that another binary journaled; `kind` need not parse here. -/
def foreignPlan (j : Tables) (kind : String) (plan : ActionWirePlan) (now : Int) : Option Tables :=
  match plan.operations.head? with
  | some op =>
    if kind ≠ "send" ∧ kind ≠ "mark_chat_read" then
      insertPlan j kind plan.planId op.accountId false (serializeOps plan.operations) now
    else none
  | none => none

def actionOutcomeToWire : ActionOutcome → OpTerminalStatus × OperationResult
  | .Success | .NoOp => (.Done, .Success)
  | .LocalOnly _ _ => (.Done, .LocalOnly)
  | .Failed (.NotFound detail) | .Failed (.InvalidState detail) =>
    (.Conflict, .ConflictRejected detail)
  | .Failed (.Remote kind message) =>
    (.Failed, .RemoteFailure ⟨message, none, kind = .Transient ∨ kind = .Unknown⟩)
  | .Failed (.Db message) | .Failed (.Build message) =>
    (.Failed, .RemoteFailure ⟨message, none, false⟩)

def outcomeToWire : ActionOutcome → CalendarOperationResult
  | .Success | .NoOp => .Success
  | .LocalOnly reason _ => .LocalOnly reason.userMessage
  | .Failed error => .Failed error.userMessage

def calendarStatus : CalendarOperationResult → OpTerminalStatus
  | .Success | .LocalOnly _ => .Done
  | .Failed _ => .Failed

/-- How an op came to its result: the dispatcher returned, the worker could not even run it (the
drain loop's error branch), or its job's kind is unknown. -/
inductive OpRun where
  | provider (outcome : ActionOutcome)
  | dispatchFailed (error : String)
  | corruptKind

def dispatchFailure (error : String) : OperationResult := .RemoteFailure ⟨error, none, false⟩

def corruptFailure (rawKind : String) : OperationResult :=
  dispatchFailure ("JournalCorrupt: unknown kind " ++ rawKind.quote)

/-- What the worker stores for an op and the outcome frame it emits. Only the calendar path writes a
`CalendarOperationResult`; `persist_and_emit` always writes an `OperationResult`. -/
def recorded (kind : Option PerOpJobKind) (rawKind : String) (planId : PlanId) (operationId : Nat) :
    OpRun → OpTerminalStatus × Json × Notification
  | .provider outcome =>
    match kind with
    | some .CalendarPlan =>
      let result := outcomeToWire outcome
      (calendarStatus result, result.toJson,
        .CalendarOperationOutcome ⟨planId, operationId, result⟩)
    | _ =>
      let wire := actionOutcomeToWire outcome
      (wire.1, wire.2.toJson, .OperationOutcome planId operationId wire.2)
  | .dispatchFailed error =>
    (.Failed, (dispatchFailure error).toJson,
      .OperationOutcome planId operationId (dispatchFailure error))
  | .corruptKind =>
    (.Failed, (corruptFailure rawKind).toJson,
      .OperationOutcome planId operationId (corruptFailure rawKind))

/-- `run_one` up to its write. `exec` is what deserializing and dispatching the op came to; an op of
an unknown kind is not dispatched. -/
def runOne (op : LeasedOp) (exec : Except String ActionOutcome) : Except String OpRun :=
  match op.kind with
  | none => .ok .corruptKind
  | some _ => exec.map .provider

/-! ## Finalizing a job -/

def summarize (counts : OpStatusCounts) (rows : List (Nat × Json)) : PlanSummary :=
  let localOnly := rows.countP (fun row => outcomeBlobIsLocalOnly row.2)
  ⟨counts.total, localOnly, counts.done - localOnly, counts.failed, counts.conflict⟩

def terminalStatus (counts : OpStatusCounts) : JobTerminalStatus :=
  if counts.done = counts.total then .Completed
  else if counts.done = 0 then .Failed
  else .Partial

/-- The calendar outcomes of the completion frame. The first blob that is no calendar result ends
`maybe_finalize`, after the commit. -/
def calendarOutcomes (planId : PlanId) (rows : List (Nat × Json)) : Option (List CalendarOperationOutcome) :=
  rows.mapM (fun row => (CalendarOperationResult.fromJson row.2).map (⟨planId, row.1, ·⟩))

/-- The frames `maybe_finalize` sends once the job is terminal. -/
def completion (planId : PlanId) (kind : Option PerOpJobKind) (summary : PlanSummary)
    (rows : List (Nat × Json)) : List Notification :=
  match kind with
  | some .MailPlan => sendMustDeliverNotification (.ActionCompleted planId summary)
  | some .CalendarPlan =>
    match calendarOutcomes planId rows with
    | some results => sendMustDeliverNotification (.CalendarActionCompleted planId results)
    | none => []
  | none =>
    match calendarOutcomes planId rows with
    | some results =>
      sendMustDeliverNotification (.ActionCompleted planId summary) ++
        sendMustDeliverNotification (.CalendarActionCompleted planId results)
    | none => []

/-- What the worker goes on with after `maybe_finalize`. -/
inductive Next where
  | sweep (rest : List (PlanId × Option PerOpJobKind))
  | drain

inductive Pc where
  | idle
  | sweep (stranded : List (PlanId × Option PerOpJobKind))
  | count (planId : PlanId) (kind : Option PerOpJobKind) (next : Next)
  | rows (planId : PlanId) (kind : Option PerOpJobKind) (counts : OpStatusCounts) (next : Next)
  | finalize (planId : PlanId) (kind : Option PerOpJobKind) (counts : OpStatusCounts)
      (rows : List (Nat × Json)) (next : Next)
  | lease
  | run (op : LeasedOp)
  | fallback (op : LeasedOp) (error : String)

def Next.pc : Next → Pc
  | .sweep rest => .sweep rest
  | .drain => .lease

/-- The service with its history: `clean` says that no database call of the current pass has failed,
`leases` lists the leases taken, `record` how each op came to its result. -/
structure Service where
  journal : Tables
  pc : Pc
  sent : List Notification
  clean : Bool
  leases : List (PlanId × Nat)
  record : PlanId → Nat → Option OpRun

inductive LeaseReply where
  | failed
  | none
  | op (planId : PlanId) (operationId : Nat)

inductive Act where
  | executePlan (plan : ActionWirePlan) (now : Int) (dbOk : Bool)
  | executeCalendarPlan (plan : CalendarActionPlan) (now : Int) (dbOk : Bool)
  | foreign (kind : String) (plan : ActionWirePlan) (now : Int)
  | startPass (stranded : Option (List (PlanId × Option PerOpJobKind)))
  | sweepNext
  | count (dbOk : Bool)
  | readRows (dbOk : Bool)
  | finalize (dbOk : Bool)
  | lease (reply : LeaseReply)
  | run (exec : Except String ActionOutcome) (db : Except String Unit)
  | fallback (dbOk : Bool)
  | crash (recovered : Bool)

/-- A label that the worker's position or the journal does not allow. -/
inductive Disabled where
  | disabled

def findReady (j : Tables) (planId : PlanId) (operationId : Nat) : Option (Job × OpRow) :=
  (readyOps j).find? (fun r => r.1.jobId = planId ∧ r.2.operationId = operationId)

/-- The write of an op's result: the row, the outcome frame unless the job is quiet, the history. -/
def persist (s : Service) (op : LeasedOp) (run : OpRun) : Service :=
  let r := recorded op.kind op.rawKind op.planId op.operationId run
  { s with
    journal := markOpTerminal s.journal op.planId op.operationId r.1 r.2.1
    sent := s.sent ++ (if op.quiet then [] else sendMustDeliverNotification r.2.2)
    record := fun p o =>
      if p = op.planId ∧ o = op.operationId then some run else s.record p o }

def commit (s : Service) (planId : PlanId) (kind : Option PerOpJobKind) (counts : OpStatusCounts)
    (rows : List (Nat × Json)) : Service :=
  let summary := summarize counts rows
  { s with
    journal := finalizeJob s.journal planId (terminalStatus counts) summary
    sent := s.sent ++ completion planId kind summary rows }

def accept (s : Service) (journal? : Option Tables) (dbOk : Bool) : Service :=
  match journal?, dbOk with
  | some journal, true => { s with journal }
  | _, _ => s

def step (s : Service) : Act → Except Disabled Service
  | .executePlan plan now dbOk => .ok (accept s (handle s.journal plan now) dbOk)
  | .executeCalendarPlan plan now dbOk => .ok (accept s (handleCalendar s.journal plan now) dbOk)
  | .foreign kind plan now => .ok (accept s (foreignPlan s.journal kind plan now) true)
  | .startPass stranded =>
    match s.pc, stranded with
    | .idle, none => .ok { s with pc := .sweep [], clean := false }
    | .idle, some found =>
      if found.Perm (unfinalizedPerOpPlanJobs s.journal) then
        .ok { s with pc := .sweep found, clean := true }
      else .error .disabled
    | _, _ => .error .disabled
  | .sweepNext =>
    match s.pc with
    | .sweep [] => .ok { s with pc := .lease }
    | .sweep ((planId, kind) :: rest) => .ok { s with pc := .count planId kind (.sweep rest) }
    | _ => .error .disabled
  | .count dbOk =>
    match s.pc with
    | .count planId kind next =>
      if dbOk then
        let counts := countOpsByStatus s.journal planId
        if counts.nonTerminal > 0 then .ok { s with pc := next.pc }
        else .ok { s with pc := .rows planId kind counts next }
      else .ok { s with pc := next.pc, clean := false }
    | _ => .error .disabled
  | .readRows dbOk =>
    match s.pc with
    | .rows planId kind counts next =>
      if dbOk then
        .ok { s with pc := .finalize planId kind counts (terminalOpsForPlan s.journal planId) next }
      else .ok { s with pc := next.pc, clean := false }
    | _ => .error .disabled
  | .finalize dbOk =>
    match s.pc with
    | .finalize planId kind counts rows next =>
      if dbOk then .ok { commit s planId kind counts rows with pc := next.pc }
      else .ok { s with pc := next.pc, clean := false }
    | _ => .error .disabled
  | .lease reply =>
    match s.pc, reply with
    | .lease, .failed => .ok { s with pc := .idle, clean := false }
    | .lease, .none =>
      if readyOps s.journal = [] then .ok { s with pc := .idle } else .error .disabled
    | .lease, .op planId operationId =>
      match findReady s.journal planId operationId with
      | some r =>
        if isNextReady s.journal r then
          .ok { s with
            journal := leaseOp s.journal planId operationId
            pc := .run (leasedOp r.1 r.2)
            leases := s.leases ++ [(planId, operationId)] }
        else .error .disabled
      | none => .error .disabled
    | _, _ => .error .disabled
  | .run exec db =>
    match s.pc with
    | .run op =>
      match runOne op exec, db with
      | .error error, _ => .ok { s with pc := .fallback op error }
      | .ok _, .error error => .ok { s with pc := .fallback op error, clean := false }
      | .ok run, .ok () => .ok { persist s op run with pc := .count op.planId op.kind .drain }
    | _ => .error .disabled
  | .fallback dbOk =>
    match s.pc with
    | .fallback op error =>
      if dbOk then
        .ok { persist s op (.dispatchFailed error) with pc := .count op.planId op.kind .drain }
      else .ok { s with pc := .count op.planId op.kind .drain, clean := false }
    | _ => .error .disabled
  | .crash recovered =>
    .ok { s with
      journal := if recovered then recoverStaleLeases s.journal else s.journal
      pc := .idle
      clean := false }

/-- A journal with no rows and a worker that has just booted. -/
def start : Service := ⟨[], .idle, [], false, [], fun _ _ => none⟩

end Ratatoskr.Journal

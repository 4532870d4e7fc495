import Mathlib.Data.Finset.Basic
import Ratatoskr.Actions.Dispatch

/-!
# Actions.Batch

`batch_execute` (`service/src/actions/batch.rs`) over the local database, the retry queue and the flight
guards (`action-types/src/context.rs`). The groups of a batch run one after another here, in whatever
order the map yields the accounts: every statement names its account, and so does every guard (an account
id is a UUID, without a colon), so groups do not meet.
-/

namespace Ratatoskr.Actions

variable {account : AccountId} {thread : ThreadId} {ctx : Ctx} {op : MailOperation}
  {acct : ResidentActionAccount}

/-- `issued` is the record of the provider calls, oldest first. -/
structure World where
  rows : AccountId → ThreadId → Rows
  known : AccountId → List LabelId
  queue : List PendingOperation
  inFlight : Finset String
  issued : List (AccountId × Issued)

def flightKey (account : AccountId) (thread : ThreadId) : String := account ++ ":" ++ thread

def tryAcquireFlight (w : World) (account : AccountId) (thread : ThreadId) : Option World :=
  if flightKey account thread ∈ w.inFlight then none
  else some { w with inFlight := insert (flightKey account thread) w.inFlight }

/-- `FlightGuard::drop` -/
def releaseFlight (w : World) (account : AccountId) (thread : ThreadId) : World :=
  { w with inFlight := w.inFlight.erase (flightKey account thread) }

def releaseAll (w : World) (account : AccountId) (threads : List ThreadId) : World :=
  threads.foldl (fun w thread => releaseFlight w account thread) w

def alreadyInFlight : ActionOutcome :=
  .failed (.invalidState "action already in flight for this thread")

theorem flightKey_inj {thread' : ThreadId} :
    flightKey account thread = flightKey account thread' ↔ thread = thread' := by
  constructor
  · intro h
    have hlist := congrArg String.toList h
    simp only [flightKey, String.toList_append] at hlist
    exact String.toList_inj.mp (List.append_cancel_left hlist)
  · rintro rfl
    rfl

def World.setRows (w : World) (account : AccountId) (thread : ThreadId) (rows : Rows) : World :=
  { w with rows := fun a t => if a = account ∧ t = thread then rows else w.rows a t }

def World.setKnown (w : World) (account : AccountId) (known : List LabelId) : World :=
  { w with known := fun a => if a = account then known else w.known a }

def World.record (w : World) (account : AccountId) (issued : List Issued) : World :=
  { w with issued := w.issued ++ issued.map (fun i => (account, i)) }

def queuedRow (ctx : Ctx) (account : AccountId) (thread : ThreadId) (entry : String × Params) :
    PendingOperation :=
  newRow (ctx.opId account thread) account entry.1 thread entry.2 ctx.now

def World.enqueue (w : World) (ctx : Ctx) (account : AccountId) (thread : ThreadId) :
    Option (String × Params) → World
  | none => w
  | some entry => { w with queue := dbPendingOpsEnqueue w.queue (queuedRow ctx account thread entry) }

def World.install (w : World) (ctx : Ctx) (account : AccountId) (thread : ThreadId) (e : Effect) : World :=
  (((w.setRows account thread e.rows).setKnown account e.known).enqueue ctx account thread
    e.queued).record account e.issued

/-- An operation of a batch with its place in the caller's list. -/
structure ThreadOp where
  idx : Nat
  thread : ThreadId
  op : MailOperation

abbrev Results := List (Nat × ActionOutcome)

/-- One guarded dispatch after the other; the guard is dropped behind each. -/
def guardedEach (ctx : Ctx) (account : AccountId)
    (dispatch : ThreadId → Rows → List LabelId → MailOperation → Option Effect) :
    World → List ThreadOp → Option (World × Results)
  | w, [] => some (w, [])
  | w, o :: ops =>
    match tryAcquireFlight w account o.thread with
    | none =>
      (guardedEach ctx account dispatch w ops).map (fun r => (r.1, (o.idx, alreadyInFlight) :: r.2))
    | some w =>
      match dispatch o.thread (w.rows account o.thread) (w.known account) o.op with
      | none => none
      | some e =>
        (guardedEach ctx account dispatch
          (releaseFlight (w.install ctx account o.thread e) account o.thread) ops).map
          (fun r => (r.1, (o.idx, e.outcome) :: r.2))

structure PendingRemote where
  idx : Nat
  thread : ThreadId
  op : MailOperation
  key : RemoteBatchKey
  targets : List ObjectId

/-- What the first loop of the engine path leaves behind; `guards` are held to the end. -/
structure Gathered where
  world : World
  results : Results
  remoteBatches : List PendingRemote
  guards : List ThreadId

def gather (ctx : Ctx) (acct : ResidentActionAccount) (account : AccountId) (useBulk : Bool) :
    World → List ThreadOp → Option Gathered
  | w, [] => some ⟨w, [], [], []⟩
  | w, o :: ops =>
    match tryAcquireFlight w account o.thread with
    | none =>
      (gather ctx acct account useBulk w ops).map (fun g =>
        { g with results := (o.idx, alreadyInFlight) :: g.results })
    | some w =>
      match prepare ctx acct account useBulk o.thread (w.rows account o.thread) (w.known account) o.op with
      | none => none
      | some (.settled e) =>
        (gather ctx acct account useBulk (w.install ctx account o.thread e) ops).map (fun g =>
          { g with
            results := (o.idx, e.outcome) :: g.results
            guards := o.thread :: g.guards })
      | some (.waiting key targets rows known) =>
        (gather ctx acct account useBulk ((w.setRows account o.thread rows).setKnown account known)
          ops).map (fun g =>
          { g with
            remoteBatches := ⟨o.idx, o.thread, o.op, key, targets⟩ :: g.remoteBatches
            guards := o.thread :: g.guards })

/-- The entries of one batch, each with the batch's result. -/
def settleEntries (ctx : Ctx) (account : AccountId) (result : Except ActionError Unit) :
    World → List PendingRemote → Option (World × Results)
  | w, [] => some (w, [])
  | w, entry :: entries =>
    match settleBatched ctx account entry.key entry.thread (w.rows account entry.thread)
        (w.known account) entry.op result with
    | none => none
    | some e =>
      (settleEntries ctx account result (w.install ctx account entry.thread e) entries).map
        (fun r => (r.1, (entry.idx, e.outcome) :: r.2))

/-- `for (batch_key, pending) in remote_batches` -/
def sendBatches (ctx : Ctx) (acct : ResidentActionAccount) (account : AccountId)
    (remoteBatches : List PendingRemote) : World → List RemoteBatchKey → Option (World × Results)
  | w, [] => some (w, [])
  | w, key :: keys =>
    let pending := remoteBatches.filter (fun p => p.key = key)
    match dispatchBulkMutation ctx acct account key (pending.flatMap PendingRemote.targets) .personal with
    | none => none
    | some remote =>
      match settleEntries ctx account remote.result (w.record account remote.issued) pending with
      | none => none
      | some (w, results) =>
        (sendBatches ctx acct account remoteBatches w keys).map (fun r => (r.1, results ++ r.2))

def executeWithEngine (ctx : Ctx) (acct : ResidentActionAccount) (account : AccountId) (w : World)
    (ops : List ThreadOp) : Option (World × Results) :=
  match gather ctx acct account (1 < ops.length) w ops with
  | none => none
  | some g =>
    (sendBatches ctx acct account g.remoteBatches g.world
      (ctx.batchOrder.order (g.remoteBatches.map PendingRemote.key).dedup)).map
      (fun r => (releaseAll r.1 account g.guards, g.results ++ r.2))

def executeAccountGroup (ctx : Ctx) (account : AccountId) (w : World) (ops : List ThreadOp) :
    Option (World × Results) :=
  if ops.all (fun o => isLocalOnly o.op) then
    guardedEach ctx account (dispatchLocalOnly ctx account) w ops
  else
    match ctx.syncRuntime with
    | none =>
      guardedEach ctx account (fun thread rows known op =>
        handleThreadDegraded ctx account thread rows known op "resident engine unavailable") w ops
    | some runtime =>
      match runtime account with
      | .error error =>
        guardedEach ctx account (fun thread rows known op =>
          handleThreadDegraded ctx account thread rows known op error) w ops
      | .ok acct => executeWithEngine ctx acct account w ops

/-! ## The batch -/

abbrev Operation := AccountId × ThreadId × MailOperation

/-- The operations of one account, with their original indices. -/
def groupOf (operations : List Operation) (account : AccountId) : List ThreadOp :=
  (operations.zipIdx.filter (fun o => o.1.1 = account)).map (fun o => ⟨o.2, o.1.2.1, o.1.2.2⟩)

def accountsOf (operations : List Operation) : List AccountId := (operations.map Prod.fst).dedup

def executeGroups (ctx : Ctx) (operations : List Operation) :
    World → List AccountId → Option (World × Results)
  | w, [] => some (w, [])
  | w, account :: accounts =>
    match executeAccountGroup ctx account w (groupOf operations account) with
    | none => none
    | some (w, results) =>
      (executeGroups ctx operations w accounts).map (fun r => (r.1, results ++ r.2))

/-- The results of all groups, before they are put in order. -/
def groupResults (ctx : Ctx) (w : World) (operations : List Operation) : Option (World × Results) :=
  executeGroups ctx operations w (ctx.accountOrder.order (accountsOf operations))

def reassemblyBug : ActionOutcome := .failed (.invalidState "batch reassembly bug")

def reassemble (total : Nat) (results : Results) : List ActionOutcome :=
  results.foldl (fun outcomes r => outcomes.set r.1 r.2) (List.replicate total reassemblyBug)

def batchExecute (ctx : Ctx) (w : World) (operations : List Operation) :
    Option (World × List ActionOutcome) :=
  (groupResults ctx w operations).map (fun r => (r.1, reassemble operations.length r.2))

theorem order_singleton {κ : Type} (o : MapOrder κ) (k : κ) : o.order [k] = [k] :=
  List.perm_singleton.mp (o.perm [k])

theorem groupOf_singleton (account : AccountId) (thread : ThreadId) (op : MailOperation) :
    groupOf [(account, thread, op)] account = [⟨0, thread, op⟩] := by
  simp [groupOf]

theorem accountsOf_singleton (o : Operation) : accountsOf [o] = [o.1] := by
  simp [accountsOf]

theorem batchExecute_singleton (ctx : Ctx) (w : World) (account : AccountId) (thread : ThreadId)
    (op : MailOperation) : batchExecute ctx w [(account, thread, op)] =
      (executeAccountGroup ctx account w [⟨0, thread, op⟩]).map (fun r =>
        (r.1, reassemble 1 r.2)) := by
  simp only [batchExecute, groupResults, accountsOf_singleton, order_singleton, executeGroups,
    groupOf_singleton]
  cases executeAccountGroup ctx account w [⟨0, thread, op⟩] with
  | none => rfl
  | some r => simp

variable {w : World} {o : ThreadOp}

theorem guardedEach_in_flight {dispatch : ThreadId → Rows → List LabelId → MailOperation → Option Effect}
    (h : flightKey account o.thread ∈ w.inFlight) :
    guardedEach ctx account dispatch w [o] = some (w, [(o.idx, alreadyInFlight)]) := by
  simp [guardedEach, tryAcquireFlight, h]

/-- Behind a guard that another holds, no path gets past `try_acquire_flight`. -/
theorem executeAccountGroup_in_flight (h : flightKey account o.thread ∈ w.inFlight) :
    executeAccountGroup ctx account w [o] = some (w, [(o.idx, alreadyInFlight)]) := by
  unfold executeAccountGroup
  split
  · exact guardedEach_in_flight h
  split
  · exact guardedEach_in_flight h
  split
  · exact guardedEach_in_flight h
  · have hkeys : ctx.batchOrder.order [] = [] := (ctx.batchOrder.perm []).eq_nil
    simp [executeWithEngine, gather, tryAcquireFlight, h, hkeys, sendBatches, releaseAll]

theorem batchExecute_in_flight (h : flightKey account thread ∈ w.inFlight) :
    batchExecute ctx w [(account, thread, op)] = some (w, [alreadyInFlight]) := by
  have hgroup : executeAccountGroup ctx account w [⟨0, thread, op⟩] =
      some (w, [(0, alreadyInFlight)]) := executeAccountGroup_in_flight h
  rw [batchExecute_singleton, hgroup]
  rfl

/-- The engine handle of the account, where there is one. -/
def residentAccount (ctx : Ctx) (account : AccountId) : Option ResidentActionAccount :=
  match ctx.syncRuntime with
  | none => none
  | some runtime =>
    match runtime account with
    | .error _ => none
    | .ok acct => some acct

theorem executeAccountGroup_resident (h : residentAccount ctx account = some acct)
    {ops : List ThreadOp} (hops : ops.all (fun o => isLocalOnly o.op) = false) :
    executeAccountGroup ctx account w ops = executeWithEngine ctx acct account w ops := by
  rw [executeAccountGroup, if_neg (by simp [hops])]
  unfold residentAccount at h
  cases hruntime : ctx.syncRuntime with
  | none => simp [hruntime] at h
  | some runtime =>
    simp only [hruntime] at h ⊢
    cases hacct : runtime account with
    | error e => simp [hacct] at h
    | ok acct' =>
      simp only [hacct, Option.some.injEq] at h ⊢
      rw [h]

theorem prepare_single {rows : Rows} {known : List LabelId} (hop : isLocalOnly op = false) :
    prepare ctx acct account false thread rows known op =
      (dispatchWithEngine ctx acct account thread rows known op).map .settled := by
  obtain ⟨checked, hpre⟩ :=
    Option.isSome_iff_exists.mp (namespacePreflight_isSome ctx account thread rows op)
  cases checked with
  | error e => simp [prepare, dispatchWithEngine, hpre, hop]
  | ok ns => simp [prepare, hpre]

/-- A guard taken and dropped around an effect leaves the guards as they were. -/
theorem install_release (e : Effect) (hfree : flightKey account thread ∉ w.inFlight) : releaseFlight
      ({ w with inFlight := insert (flightKey account thread) w.inFlight }.install ctx account thread e)
      account thread = w.install ctx account thread e := by
  have hin : ∀ w : World, (w.install ctx account thread e).inFlight = w.inFlight := by
    intro w
    rw [World.install]
    cases e.queued <;> rfl
  simp only [releaseFlight, hin, Finset.erase_insert hfree]
  cases hq : e.queued <;> simp [World.install, World.enqueue, World.record, World.setRows, World.setKnown, hq]

theorem executeWithEngine_single {e : Effect} (hop : isLocalOnly o.op = false)
    (hfree : flightKey account o.thread ∉ w.inFlight)
    (he : dispatchWithEngine ctx acct account o.thread (w.rows account o.thread) (w.known account) o.op =
      some e) : executeWithEngine ctx acct account w [o] =
      some (w.install ctx account o.thread e, [(o.idx, e.outcome)]) := by
  have hkeys : ctx.batchOrder.order [] = [] := (ctx.batchOrder.perm []).eq_nil
  have hbulk : decide (1 < [o].length) = false := rfl
  simp only [executeWithEngine, hbulk, gather, tryAcquireFlight, if_neg hfree, prepare_single hop, he,
    Option.map_some, List.map_nil, List.dedup_nil, hkeys, sendBatches, releaseAll, List.foldl_cons,
    List.foldl_nil, List.append_nil]
  rw [install_release e hfree]

theorem batchExecute_engine {e : Effect} (hop : isLocalOnly op = false)
    (hres : residentAccount ctx account = some acct) (hfree : flightKey account thread ∉ w.inFlight)
    (he : dispatchWithEngine ctx acct account thread (w.rows account thread) (w.known account) op = some e) :
    batchExecute ctx w [(account, thread, op)] = some (w.install ctx account thread e, [e.outcome]) := by
  rw [batchExecute_singleton, executeAccountGroup_resident hres (by simp [hop]),
    executeWithEngine_single (o := ⟨0, thread, op⟩) hop hfree he]
  rfl

/-! ## A mailbox -/

/-- A Gmail account whose engine is resident and whose provider gives every call this answer. -/
def sampleCtx (answer : Except ActionError Unit) (now : Int) : Ctx where
  accountProvider := fun _ => some "gmail_api"
  folder := fun _ _ => none
  labelGroups := []
  groupMembers := fun _ _ => []
  suppressPendingEnqueue := false
  syncRuntime := some (fun _ => .ok ⟨.gmail, ⟨fun _ _ => some "INBOX", []⟩, .error "offline"⟩)
  answer := fun _ _ => answer
  dbError := fun _ _ _ => none
  opId := fun _ _ => "op"
  receipted := fun _ _ => false
  stale := fun _ _ _ => false
  now := now
  accountOrder := ⟨id, fun keys => .refl keys⟩
  batchOrder := ⟨id, fun keys => .refl keys⟩

def sampleRows (thread : ThreadId) : Rows where
  thread := some ⟨false, false, false, false, false, none, none, none⟩
  folders := ["INBOX"]
  messages := [⟨thread ++ "-m", none, none, none, false, false, false, false, none, none⟩]
  labels := { Labels.Tables.empty with threads := AList.insert thread 1 ∅ }

def sampleWorld (queue : List PendingOperation) : World where
  rows := fun _ thread => sampleRows thread
  known := fun _ => ["l1", "l2"]
  queue := queue
  inFlight := ∅
  issued := []

end Ratatoskr.Actions

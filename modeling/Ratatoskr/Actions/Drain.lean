import Ratatoskr.Actions.Batch

/-!
# Actions.Drain

The drain of the retry queue (`service/src/actions/pending.rs`). `process_account_group` takes the
flight guard of a row's thread and then runs `batch_execute`, which asks for the same guard again while
it is held. So a drain issues no provider call and completes no row.

* `processPendingOps_keeps` : what every drain leaves in place.
* `drain_delivers_iff` : exactly when a drain does what a queued row is there for.
-/

namespace Ratatoskr.Actions

def World.restrictIntents (w : World)
    (keep : AccountId → ThreadId → LabelId → Labels.IntentRow → Bool) : World :=
  { w with
    rows := fun a t => { w.rows a t with
      labels := { (w.rows a t).labels with
        intents := (w.rows a t).labels.intents.restrict (fun key row => keep a key.1 key.2 row) } } }

/-- `delete_stale_pending_thread_label_intents`: stale, and without a live row that may still own it. -/
def sweepStaleLabelIntents (ctx : Ctx) (w : World) : World :=
  w.restrictIntents (fun a t l row =>
    !(ctx.stale a t l &&
      match row.actionId with
      | none => true
      | some id => !w.queue.any (fun r => r.id = id && r.live)))

def deleteIntentsForAction (w : World) (id : String) : World :=
  w.restrictIntents (fun _ _ _ row => row.actionId ≠ some id)

def dispatchPendingOp (ctx : Ctx) (w : World) (row : PendingOperation) : Option (World × ActionOutcome) :=
  match pendingOperation row.operationType row.params with
  | none =>
    some (w, .failed (.invalidState ("Unknown operation type: " ++ row.operationType)))
  | some op =>
    (batchExecute ctx w [(row.accountId, row.resourceId, op)]).map (fun r =>
      (r.1, r.2.getLast?.getD
        (.failed (.invalidState "pending op dispatch returned no outcome"))))

def closeRow (ctx : Ctx) (w : World) (row : PendingOperation) : ActionOutcome → World
  | .success => deleted
  | .noOp => deleted
  | .localOnly _ _ => retriedRow
  | .failed _ => retriedRow
where
  deleted : World :=
    if (ctx.dbError row.accountId row.resourceId .deleteRow).isSome then w
    else { w with queue := dbPendingOpsDelete w.queue row.id }
  retriedRow : World :=
    if (ctx.dbError row.accountId row.resourceId .incrementRetry).isSome then w
    else
      match dbPendingOpsIncrementRetry w.queue row.id ctx.now with
      | none => w
      | some (queue, exhausted) =>
        if exhausted then deleteIntentsForAction { w with queue := queue } row.id
        else { w with queue := queue }

def retryRow (ctx retryCtx : Ctx) (w : World) (row : PendingOperation) : Option World :=
  if (ctx.dbError row.accountId row.resourceId .markExecuting).isSome then some w
  else
    (dispatchPendingOp retryCtx { w with queue := dbPendingOpsUpdateStatus w.queue row.id .executing }
      row).map (fun r => closeRow ctx r.1 row r.2)

def processAccountGroup (ctx retryCtx : Ctx) : World → List PendingOperation → Option World
  | w, [] => some w
  | w, row :: rows =>
    match tryAcquireFlight w row.accountId row.resourceId with
    | none => processAccountGroup ctx retryCtx w rows
    | some w =>
      match retryRow ctx retryCtx w row with
      | none => none
      | some w => processAccountGroup ctx retryCtx (releaseFlight w row.accountId row.resourceId) rows

def processGroups (ctx retryCtx : Ctx) (ops : List PendingOperation) : World → List AccountId → Option World
  | w, [] => some w
  | w, account :: accounts =>
    match processAccountGroup ctx retryCtx w (ops.filter (fun r => r.accountId = account)) with
    | none => none
    | some w => processGroups ctx retryCtx ops w accounts

def fetched (ctx : Ctx) (w : World) : List PendingOperation := dbPendingOpsGet w.queue ctx.now 20

def processPendingOps (ctx : Ctx) (w : World) : Option World :=
  processGroups ctx { ctx with suppressPendingEnqueue := true } (fetched ctx w)
    (sweepStaleLabelIntents ctx w)
    (ctx.accountOrder.order ((fetched ctx w).map PendingOperation.accountId).dedup)

/-- Between two worlds: the same row ids in the same order, the same calls, the same guards, and of the
threads' rows everything but the label intents. -/
structure Keeps (w w' : World) : Prop where
  ids : w'.queue.map PendingOperation.id = w.queue.map PendingOperation.id
  issued : w'.issued = w.issued
  inFlight : w'.inFlight = w.inFlight
  known : w'.known = w.known
  thread : ∀ a t, (w'.rows a t).thread = (w.rows a t).thread
  folders : ∀ a t, (w'.rows a t).folders = (w.rows a t).folders
  messages : ∀ a t, (w'.rows a t).messages = (w.rows a t).messages

theorem Keeps.refl (w : World) : Keeps w w :=
  ⟨rfl, rfl, rfl, rfl, fun _ _ => rfl, fun _ _ => rfl, fun _ _ => rfl⟩

variable {w w' : World}

theorem Keeps.trans {w'' : World} (h : Keeps w w') (h' : Keeps w' w'') : Keeps w w'' where
  ids := h'.ids.trans h.ids
  issued := h'.issued.trans h.issued
  inFlight := h'.inFlight.trans h.inFlight
  known := h'.known.trans h.known
  thread := fun a t => (h'.thread a t).trans (h.thread a t)
  folders := fun a t => (h'.folders a t).trans (h.folders a t)
  messages := fun a t => (h'.messages a t).trans (h.messages a t)

theorem restrictIntents_keeps (w : World) (keep : AccountId → ThreadId → LabelId → Labels.IntentRow → Bool) :
    Keeps w (w.restrictIntents keep) :=
  ⟨rfl, rfl, rfl, rfl, fun _ _ => rfl, fun _ _ => rfl, fun _ _ => rfl⟩

theorem keeps_of_queue {queue : List PendingOperation}
    (h : queue.map PendingOperation.id = w.queue.map PendingOperation.id) :
    Keeps w { w with queue := queue } :=
  ⟨h, rfl, rfl, rfl, fun _ _ => rfl, fun _ _ => rfl, fun _ _ => rfl⟩

theorem updateRow_ids {id : String} {f : PendingOperation → PendingOperation}
    (hf : ∀ row, (f row).id = row.id) (queue : List PendingOperation) :
    (updateRow id f queue).map PendingOperation.id = queue.map PendingOperation.id := by
  rw [updateRow, List.map_map]
  apply List.map_congr_left
  intro row _
  simp only [Function.comp_apply]
  split
  · exact hf row
  · rfl

theorem retried_id (now : Int) (row : PendingOperation) : (retried now row).id = row.id := by
  unfold retried
  split <;> rfl

theorem retriedRow_keeps (ctx : Ctx) (w : World) (row : PendingOperation) :
    Keeps w (closeRow.retriedRow ctx w row) := by
  unfold closeRow.retriedRow
  split
  · exact .refl w
  cases hq : dbPendingOpsIncrementRetry w.queue row.id ctx.now with
  | none => exact .refl w
  | some r =>
    obtain ⟨queue, exhausted⟩ := r
    have hids : queue.map PendingOperation.id = w.queue.map PendingOperation.id := by
      unfold dbPendingOpsIncrementRetry at hq
      split at hq
      · cases hq
      split at hq
      · cases hq
        exact updateRow_ids (retried_id ctx.now) w.queue
      · split at hq
        · cases hq
        · cases hq
          exact updateRow_ids (retried_id ctx.now) w.queue
    simp only
    split
    · exact (keeps_of_queue hids).trans (restrictIntents_keeps _ _)
    · exact keeps_of_queue hids

theorem dispatchPendingOp_in_flight (ctx : Ctx) (w : World) {row : PendingOperation}
    (h : flightKey row.accountId row.resourceId ∈ w.inFlight) :
    ∃ error, dispatchPendingOp ctx w row = some (w, .failed error) := by
  unfold dispatchPendingOp
  split
  · exact ⟨_, rfl⟩
  · rw [batchExecute_in_flight h]
    exact ⟨_, rfl⟩

theorem retryRow_keeps (ctx retryCtx : Ctx) (w : World) (row : PendingOperation)
    (h : flightKey row.accountId row.resourceId ∈ w.inFlight) :
    ∃ w', retryRow ctx retryCtx w row = some w' ∧ Keeps w w' := by
  unfold retryRow
  split
  · exact ⟨w, rfl, .refl w⟩
  have hmark : Keeps w
      { w with queue := dbPendingOpsUpdateStatus w.queue row.id .executing } :=
    keeps_of_queue (by
      apply updateRow_ids
      exact fun _ => rfl)
  obtain ⟨error, hout⟩ := dispatchPendingOp_in_flight retryCtx
    { w with queue := dbPendingOpsUpdateStatus w.queue row.id .executing } h
  rw [hout]
  exact ⟨_, rfl, hmark.trans (retriedRow_keeps ctx _ row)⟩

theorem Keeps.release {account : AccountId} {thread : ThreadId}
    (hfree : flightKey account thread ∉ w.inFlight)
    (h : Keeps {w with inFlight := insert (flightKey account thread) w.inFlight } w') :
    Keeps w (releaseFlight w' account thread) where
  ids := h.ids
  issued := h.issued
  inFlight := by
    simp only [releaseFlight, h.inFlight]
    exact Finset.erase_insert hfree
  known := h.known
  thread := h.thread
  folders := h.folders
  messages := h.messages

theorem processAccountGroup_keeps (ctx retryCtx : Ctx) (w : World) (rows : List PendingOperation) :
    ∃ w', processAccountGroup ctx retryCtx w rows = some w' ∧ Keeps w w' := by
  induction rows generalizing w with
  | nil => exact ⟨w, rfl, .refl w⟩
  | cons row rows ih =>
    rw [processAccountGroup]
    by_cases hkey : flightKey row.accountId row.resourceId ∈ w.inFlight
    · rw [tryAcquireFlight, if_pos hkey]
      exact ih w
    rw [tryAcquireFlight, if_neg hkey]
    obtain ⟨w₁, hrow, hkeep⟩ := retryRow_keeps ctx retryCtx
      { w with inFlight := insert (flightKey row.accountId row.resourceId) w.inFlight }
      row (Finset.mem_insert_self _ _)
    obtain ⟨w₂, hrest, hkeeps⟩ := ih (releaseFlight w₁ row.accountId row.resourceId)
    simp only [hrow]
    exact ⟨w₂, hrest, (hkeep.release hkey).trans hkeeps⟩

theorem processGroups_keeps (ctx retryCtx : Ctx) (ops : List PendingOperation) (w : World)
    (accounts : List AccountId) : ∃ w', processGroups ctx retryCtx ops w accounts = some w' ∧ Keeps w w' := by
  induction accounts generalizing w with
  | nil => exact ⟨w, rfl, .refl w⟩
  | cons account accounts ih =>
    obtain ⟨w₁, hgroup, hkeep⟩ := processAccountGroup_keeps ctx retryCtx w
      (ops.filter (fun r => r.accountId = account))
    obtain ⟨w₂, hrest, hkeeps⟩ := ih w₁
    exact ⟨w₂, by rw [processGroups, hgroup]; exact hrest, hkeep.trans hkeeps⟩

theorem processPendingOps_keeps (ctx : Ctx) (w : World) :
    ∃ w', processPendingOps ctx w = some w' ∧ Keeps w w' := by
  obtain ⟨w', hrun, hkeep⟩ := processGroups_keeps ctx { ctx with suppressPendingEnqueue := true }
    (fetched ctx w) (sweepStaleLabelIntents ctx w)
    (ctx.accountOrder.order ((fetched ctx w).map PendingOperation.accountId).dedup)
  exact ⟨w', hrun, (restrictIntents_keeps w _).trans hkeep⟩

/-! ## Delivery -/

def EngineCall.ids : EngineCall → List ObjectId
  | .bulkSetFlags ids _ _ => ids
  | .bulkDestroy ids => ids
  | .bulkMoveFrom ids _ _ => ids
  | .removeFromContainer id _ => [id]
  | .setImportance id _ => [id]
  | .applyLabel id _ => [id]
  | .removeLabel id _ => [id]

def EngineCall.serves : EngineCall → MailOperation → Bool
  | .bulkSetFlags _ flag add, .setStarred value => add = value && flag ∈ ["$flagged", "\\Flagged"]
  | .bulkSetFlags _ flag add, .setRead value => add = value && flag ∈ ["$seen", "\\Seen"]
  | .bulkDestroy _, .permanentDelete => true
  | .bulkMoveFrom _ _ _, op => isContainerMove op
  | .removeFromContainer _ _, op => isContainerMove op
  | .setImportance _ _, .addLabel _ => true
  | .setImportance _ _, .removeLabel _ => true
  | .setImportance _ _, .applyLabelGroup _ => true
  | .setImportance _ _, .removeLabelGroup _ => true
  | .applyLabel _ _, .addLabel _ => true
  | .applyLabel _ _, .applyLabelGroup _ => true
  | .removeLabel _ _, .removeLabel _ => true
  | .removeLabel _ _, .removeLabelGroup _ => true
  | _, _ => false

/-- Between the two worlds the provider accepted a call of the row's operation on a message of its
thread. -/
def Delivered (w w' : World) (row : PendingOperation) : Prop :=
  ∃ op call m provider id, pendingOperation row.operationType row.params = some op ∧
    (row.accountId, call, true) ∈ w'.issued.drop w.issued.length ∧ call.serves op ∧
    m ∈ (w.rows row.accountId row.resourceId).messages ∧ objectIdOf provider m = .ok id ∧ id ∈ call.ids

def Completed (w' : World) (row : PendingOperation) : Prop := ∀ row' ∈ w'.queue, row'.id ≠ row.id

/-- The engine is there for every account and the provider accepts every call. -/
def ProviderAccepts (ctx : Ctx) : Prop :=
  (∃ runtime, ctx.syncRuntime = some runtime ∧ ∀ account, ∃ acct, runtime account = .ok acct) ∧
    ∀ account call, ctx.answer account call = .ok ()

def GuardFree (w : World) (row : PendingOperation) : Prop :=
  flightKey row.accountId row.resourceId ∉ w.inFlight

structure DrainDelivers (ctx : Ctx) (w w' : World) : Prop where
  deleted_only_delivered : ∀ row ∈ w.queue, Completed w' row → Delivered w w' row
  completes : ProviderAccepts ctx → ∀ row ∈ fetched ctx w, GuardFree w row →
    Completed w' row ∧ Delivered w w' row

theorem Keeps.not_completed (h : Keeps w w') {row : PendingOperation}
    (hrow : row ∈ w.queue) : ¬ Completed w' row := by
  intro hgone
  have hid : row.id ∈ w'.queue.map PendingOperation.id := by
    rw [h.ids]
    exact List.mem_map_of_mem hrow
  obtain ⟨row', hrow', heq⟩ := List.mem_map.mp hid
  exact hgone row' hrow' heq

theorem Keeps.drainDelivers_iff {ctx : Ctx} (h : Keeps w w') : DrainDelivers ctx w w' ↔
      (ProviderAccepts ctx → ∀ row ∈ fetched ctx w, ¬ GuardFree w row) := by
  constructor
  · intro hd haccepts row hrow hfree
    exact h.not_completed (mem_queue_of_mem_get hrow) (hd.completes haccepts row hrow hfree).1
  · intro hbusy
    exact {
      deleted_only_delivered := fun row hrow hgone => absurd hgone (h.not_completed hrow)
      completes := fun haccepts row hrow hfree => absurd hfree (hbusy haccepts row hrow) }

/-- A drain does what the queue is for exactly when there is nothing it could do: no row it fetched has a
thread whose guard is free, or the provider would not accept the calls anyway. -/
theorem drain_delivers_iff (ctx : Ctx) (w : World) : ∃ w', processPendingOps ctx w = some w' ∧
      (DrainDelivers ctx w w' ↔ (ProviderAccepts ctx → ∀ row ∈ fetched ctx w, ¬ GuardFree w row)) := by
  obtain ⟨w', hrun, hkeep⟩ := processPendingOps_keeps ctx w
  exact ⟨w', hrun, hkeep.drainDelivers_iff⟩

/-- One starred thread in the queue, its guard free, the provider willing. -/
theorem queued_star_not_sent : ∃ w', processPendingOps (sampleCtx (.ok ()) 0)
        (sampleWorld [newRow "op1" "acc" "star" "t1" [("starred", .bool true)] 0]) = some w' ∧
      ¬ DrainDelivers (sampleCtx (.ok ()) 0)
        (sampleWorld [newRow "op1" "acc" "star" "t1" [("starred", .bool true)] 0]) w' := by
  obtain ⟨w', hrun, hkeep⟩ := processPendingOps_keeps (sampleCtx (.ok ()) 0)
    (sampleWorld [newRow "op1" "acc" "star" "t1" [("starred", .bool true)] 0])
  refine ⟨w', hrun, fun hd => ?_⟩
  have haccepts : ProviderAccepts (sampleCtx (.ok ()) 0) :=
    ⟨⟨_, rfl, fun _ => ⟨_, rfl⟩⟩, fun _ _ => rfl⟩
  exact hkeep.drainDelivers_iff.mp hd haccepts _ (List.mem_singleton_self _)
    (Finset.notMem_empty _)

end Ratatoskr.Actions

import Mathlib.Data.Finset.SDiff
import Ratatoskr.Actions.Bulk

/-!
# Actions.Parts

A batch against its parts: `batch_execute` on a list of operations, and on each of them alone. Every
path of a group is a run of its operations with the dispatch of that path (`groupDispatch`), and groups of
different accounts commute, so a batch is a run of its operations in the caller's order; what is left is to
compare the dispatch of an operation in its group with that in a group of its own.

* `groupResults_agree` : a batch as a run of its operations.
* `aloneEach_agree` : the operations alone, as such a run.
* `batch_is_parts_iff` : when the two are the same.
-/

namespace Ratatoskr.Actions

open List
open Lib (Step runSteps Agree Respects Commutes)

variable {ops : List ThreadOp} {ctx : Ctx} {account : AccountId} {held : Finset String}
  {w w' : World} {results : Results} {acct : ResidentActionAccount} {operations : List Operation}
  {accounts : List AccountId} {calls : List EngineCall} {key : RemoteBatchKey} {ids : List ObjectId}
  {r r' : RemoteBatchKey → Except ActionError Unit} {outcomes : List ActionOutcome}

/-- The engine handle of the account, or the error that the degraded path reports. -/
def engineOf (ctx : Ctx) (account : AccountId) : Except String ResidentActionAccount :=
  match ctx.syncRuntime with
  | none => .error "resident engine unavailable"
  | some runtime => runtime account

/-- What the path of the group does with one of its operations. -/
def groupDispatch (ctx : Ctx) (account : AccountId) (ops : List ThreadOp)
    (r : RemoteBatchKey → Except ActionError Unit) : OpDispatch :=
  if ops.all (fun o => isLocalOnly o.op) then dispatchLocalOnly ctx account
  else
    match engineOf ctx account with
    | .error error => fun thread rows known op =>
        handleThreadDegraded ctx account thread rows known op error
    | .ok acct => engineDispatch ctx acct account (1 < ops.length) r

theorem executeAccountGroup_eq (ctx : Ctx) (account : AccountId) (w : World) (ops : List ThreadOp) :
    executeAccountGroup ctx account w ops =
      if ops.all (fun o => isLocalOnly o.op) then
        guardedEach ctx account (dispatchLocalOnly ctx account) w ops
      else
        match engineOf ctx account with
        | .error error => guardedEach ctx account (fun thread rows known op =>
            handleThreadDegraded ctx account thread rows known op error) w ops
        | .ok acct => executeWithEngine ctx acct account w ops := by
  unfold executeAccountGroup engineOf
  split
  · rfl
  · cases ctx.syncRuntime with
    | none => rfl
    | some runtime => rfl

def SentBy (ctx : Ctx) (account : AccountId) (r : RemoteBatchKey → Except ActionError Unit) : Prop :=
  ∀ acct, engineOf ctx account = .ok acct → Sent ctx acct account r

theorem executeAccountGroup_agree (ctx : Ctx) (account : AccountId) (w : World)
    (hnodup : (ops.map ThreadOp.thread).Nodup) :
    ∃ r, SentBy ctx account r ∧ Agree Same (executeAccountGroup ctx account w ops)
      (runSteps (ops.map (opStep ctx w.inFlight account (groupDispatch ctx account ops r))) w) := by
  rw [executeAccountGroup_eq]
  unfold groupDispatch SentBy
  cases hengine : engineOf ctx account with
  | error error =>
    refine ⟨fun _ => .ok (), fun acct h => (by cases h), ?_⟩
    split
    · rw [guardedEach_eq]
      exact .refl same_equivalence _
    · simp only [guardedEach_eq]
      exact .refl same_equivalence _
  | ok acct =>
    obtain ⟨r, hsent, hagree⟩ := executeWithEngine_agree ctx acct account w hnodup
    refine ⟨r, fun acct' h => (by cases h; exact hsent), ?_⟩
    split
    · rw [guardedEach_eq]
      exact .refl same_equivalence _
    · exact hagree

theorem runSteps_inFlight {dispatch : OpDispatch}
    (h : runSteps (ops.map (opStep ctx held account dispatch)) w = some (w', results)) :
    w'.inFlight = w.inFlight := by
  induction ops generalizing w results with
  | nil => cases h; rfl
  | cons o ops ih =>
    rw [map_cons, runSteps, opStep, threadStep] at h
    cases he : guarded held account o.thread (fun rows known => dispatch o.thread rows known o.op)
        (w.rows account o.thread) (w.known account) with
    | none => simp [he] at h
    | some e =>
      simp only [he] at h
      obtain ⟨⟨v, rest⟩, hrest, hv⟩ := Option.map_eq_some_iff.mp h
      cases hv
      exact (ih hrest).trans (install_inFlight ..)

theorem settleEntries_inFlight {result : Except ActionError Unit} {pending : List PendingRemote}
    (h : settleEntries ctx account result w pending = some (w', results)) : w'.inFlight = w.inFlight := by
  induction pending generalizing w results with
  | nil => cases h; rfl
  | cons p pending ih =>
    rw [settleEntries] at h
    split at h
    · cases h
    · obtain ⟨⟨v, rest⟩, hrest, hv⟩ := Option.map_eq_some_iff.mp h
      cases hv
      exact (ih hrest).trans (install_inFlight ..)

theorem sendBatches_inFlight {batches : List PendingRemote} {keys : List RemoteBatchKey}
    (h : sendBatches ctx acct account batches w keys = some (w', results)) : w'.inFlight = w.inFlight := by
  induction keys generalizing w results with
  | nil => cases h; rfl
  | cons key keys ih =>
    rw [sendBatches] at h
    split at h
    · cases h
    split at h
    · cases h
    rename_i hsettle
    obtain ⟨⟨v, rest⟩, hrest, hv⟩ := Option.map_eq_some_iff.mp h
    cases hv
    rw [ih hrest, settleEntries_inFlight hsettle]
    rfl

theorem releaseAll_inFlight (w : World) (account : AccountId) (threads : List ThreadId) :
    (releaseAll w account threads).inFlight = w.inFlight \ (threads.map (flightKey account)).toFinset := by
  induction threads generalizing w with
  | nil => simp [releaseAll]
  | cons thread threads ih =>
    have hcons : releaseAll w account (thread :: threads) =
        releaseAll (releaseFlight w account thread) account threads := rfl
    rw [hcons, ih, map_cons, toFinset_cons]
    ext key
    simp only [releaseFlight, Finset.mem_sdiff, Finset.mem_erase, Finset.mem_insert]
    tauto

theorem executeAccountGroup_inFlight
    (h : executeAccountGroup ctx account w ops = some (w', results)) : w'.inFlight = w.inFlight := by
  rw [executeAccountGroup_eq] at h
  split at h
  · rw [guardedEach_eq] at h
    exact runSteps_inFlight h
  split at h
  · rw [guardedEach_eq] at h
    exact runSteps_inFlight h
  unfold executeWithEngine at h
  split at h
  · cases h
  rename_i g hg
  obtain ⟨⟨v, rest⟩, hsend, hv⟩ := Option.map_eq_some_iff.mp h
  cases hv
  obtain ⟨hunion, hdisjoint⟩ := gather_inFlight hg
  rw [releaseAll_inFlight, sendBatches_inFlight hsend, hunion]
  exact Finset.union_sdiff_cancel_right hdisjoint

/-! ## The whole batch -/

abbrev Item := Operation × Nat

def Item.toThreadOp (i : Item) : ThreadOp := ⟨i.2, i.1.2.1, i.1.2.2⟩

def Distinct (operations : List Operation) : Prop :=
  (operations.map (fun o => (o.1, o.2.1))).Nodup

instance (operations : List Operation) : Decidable (Distinct operations) :=
  inferInstanceAs (Decidable (List.Nodup _))

abbrev BatchResults := AccountId → RemoteBatchKey → Except ActionError Unit

def batchStep (ctx : Ctx) (held : Finset String) (operations : List Operation) (r : BatchResults)
    (i : Item) : Step World (Nat × ActionOutcome) :=
  opStep ctx held i.1.1 (groupDispatch ctx i.1.1 (groupOf operations i.1.1) (r i.1.1))
    (Item.toThreadOp i)

theorem distinct_items (h : Distinct operations) :
    (operations.zipIdx.map (fun i => (i.1.1, i.1.2.1))).Nodup := by
  have hfst : operations.zipIdx.map (fun i => (i.1.1, i.1.2.1)) =
      (operations.zipIdx.map Prod.fst).map (fun o => (o.1, o.2.1)) := by
    rw [map_map]
    rfl
  rw [hfst, zipIdx_map_fst]
  exact h

theorem groupOf_eq (operations : List Operation) (account : AccountId) : groupOf operations account =
      (operations.zipIdx.filter (fun i => i.1.1 = account)).map Item.toThreadOp := rfl

theorem groupOf_nodup (h : Distinct operations) (account : AccountId) :
    ((groupOf operations account).map ThreadOp.thread).Nodup := by
  have hpairs := (filter_sublist (p := fun i : Item => i.1.1 = account)).map
    (fun i : Item => (i.1.1, i.1.2.1)) |>.nodup (distinct_items h)
  rw [groupOf_eq, map_map]
  refine List.Nodup.of_map (fun thread => (account, thread)) ?_
  rw [map_map]
  have hcongr : (operations.zipIdx.filter (fun i => i.1.1 = account)).map
      ((fun thread => (account, thread)) ∘ ThreadOp.thread ∘ Item.toThreadOp) =
        (operations.zipIdx.filter (fun i => i.1.1 = account)).map (fun i => (i.1.1, i.1.2.1)) := by
    refine map_congr_left fun i hi => ?_
    have haccount : i.1.1 = account := by simpa using (mem_filter.mp hi).2
    simp [Item.toThreadOp, haccount]
  rw [hcongr]
  exact hpairs

theorem group_steps (ctx : Ctx) (held : Finset String) (operations : List Operation) (r : BatchResults)
    (account : AccountId) : (groupOf operations account).map
        (opStep ctx held account (groupDispatch ctx account (groupOf operations account) (r account))) =
      (operations.zipIdx.filter (fun i => i.1.1 = account)).map (batchStep ctx held operations r) := by
  conv_lhs => rw [groupOf_eq, map_map]
  refine map_congr_left fun i hi => ?_
  have haccount : i.1.1 = account := by simpa using (mem_filter.mp hi).2
  simp only [batchStep, haccount]
  rfl

theorem batchStep_respects (ctx : Ctx) (held : Finset String) (operations : List Operation)
    (r : BatchResults) (i : Item) : Respects Same (batchStep ctx held operations r i) :=
  opStep_respects _ _ _ _ _

theorem executeGroups_inFlight (h : executeGroups ctx operations w accounts = some (w', results)) :
    w'.inFlight = w.inFlight := by
  induction accounts generalizing w results with
  | nil => cases h; rfl
  | cons account accounts ih =>
    rw [executeGroups] at h
    split at h
    · cases h
    rename_i hgroup
    obtain ⟨⟨v, rest⟩, hrest, hv⟩ := Option.map_eq_some_iff.mp h
    cases hv
    exact (ih hrest).trans (executeAccountGroup_inFlight hgroup)

theorem executeGroups_agree (ctx : Ctx) (hdistinct : Distinct operations) (held : Finset String)
    (hnodup : accounts.Nodup) (hheld : w.inFlight = held) :
    ∃ r : BatchResults, (∀ account ∈ accounts, SentBy ctx account (r account)) ∧
      Agree Same (executeGroups ctx operations w accounts)
        (runSteps ((accounts.flatMap (fun account =>
          operations.zipIdx.filter (fun i => i.1.1 = account))).map
            (batchStep ctx held operations r)) w) := by
  induction accounts generalizing w with
  | nil =>
    exact ⟨fun _ _ => .ok (), fun _ h => absurd h not_mem_nil, .refl same_equivalence _⟩
  | cons account accounts ih =>
    obtain ⟨hfresh, hnodup'⟩ := nodup_cons.mp hnodup
    obtain ⟨r₀, hsent₀, hgroup⟩ :=
      executeAccountGroup_agree ctx account w (groupOf_nodup hdistinct account)
    -- the results of the other groups are those of the world behind this one
    have hrest : ∃ r' : BatchResults, (∀ account ∈ accounts, SentBy ctx account (r' account)) ∧
        ∀ v results, executeAccountGroup ctx account w (groupOf operations account) = some (v, results) →
          Agree Same (executeGroups ctx operations v accounts)
            (runSteps ((accounts.flatMap (fun account =>
              operations.zipIdx.filter (fun i => i.1.1 = account))).map
                (batchStep ctx held operations r')) v) := by
      cases hx : executeAccountGroup ctx account w (groupOf operations account) with
      | none =>
        obtain ⟨r', hsent, -⟩ := ih hnodup' hheld
        exact ⟨r', hsent, fun v results h => (by cases h)⟩
      | some q =>
        obtain ⟨r', hsent, hagree⟩ := ih hnodup' ((executeAccountGroup_inFlight hx).trans hheld)
        exact ⟨r', hsent, fun v' results' h => (by cases h; exact hagree)⟩
    obtain ⟨r', hsent, hagree⟩ := hrest
    let r : BatchResults := Function.update r' account r₀
    have hr : r account = r₀ := Function.update_self ..
    have hr' : ∀ a ∈ accounts, r a = r' a := by
      intro a ha
      have hne : a ≠ account := fun h => hfresh (h ▸ ha)
      exact Function.update_of_ne hne r₀ r'
    refine ⟨r, ?_, ?_⟩
    · intro a ha
      rcases mem_cons.mp ha with rfl | ha
      · rwa [hr]
      · rw [hr' a ha]
        exact hsent a ha
    · have hsame : (accounts.flatMap (fun account =>
            operations.zipIdx.filter (fun i => i.1.1 = account))).map (batchStep ctx held operations r') =
          (accounts.flatMap (fun account =>
            operations.zipIdx.filter (fun i => i.1.1 = account))).map
              (batchStep ctx held operations r) := by
        refine map_congr_left fun i hi => ?_
        obtain ⟨a, ha, hi⟩ := mem_flatMap.mp hi
        have haccount : i.1.1 = a := by simpa using (mem_filter.mp hi).2
        rw [batchStep, batchStep, haccount, hr' a ha]
      rw [← hr, hheld, group_steps] at hgroup
      rw [hsame] at hagree
      have hseq := hgroup.andThen same_equivalence (fun f hf => by
        obtain ⟨i, -, rfl⟩ := mem_map.mp hf
        exact batchStep_respects ctx held operations r i) hagree
      rw [executeGroups, flatMap_cons, map_append]
      cases hx : executeAccountGroup ctx account w (groupOf operations account) with
      | none => rwa [hx] at hseq
      | some q => rwa [hx] at hseq

theorem batchStep_commutes {r : BatchResults} {i j : Item} (h : i.1.1 ≠ j.1.1) :
    Commutes Same (batchStep ctx held operations r i) (batchStep ctx held operations r j) :=
  threadStep_commutes (fun hij => h hij.1) (fun hij => absurd hij h)

/-- A batch agrees with its operations in the caller's order, each as its group runs it. -/
theorem groupResults_agree (ctx : Ctx) (w : World) (hdistinct : Distinct operations) :
    ∃ r : BatchResults, (∀ o ∈ operations, SentBy ctx o.1 (r o.1)) ∧
      Agree Same (groupResults ctx w operations)
        (runSteps (operations.zipIdx.map (batchStep ctx w.inFlight operations r)) w) := by
  have hperm := ctx.accountOrder.perm (accountsOf operations)
  have hcover : ∀ o ∈ operations, o.1 ∈ ctx.accountOrder.order (accountsOf operations) := by
    intro o ho
    rw [hperm.mem_iff, accountsOf, mem_dedup]
    exact mem_map_of_mem ho
  have hnodup : (ctx.accountOrder.order (accountsOf operations)).Nodup :=
    hperm.nodup_iff.mpr (nodup_dedup _)
  obtain ⟨r, hsent, hagree⟩ := executeGroups_agree ctx hdistinct w.inFlight hnodup rfl
  refine ⟨r, fun o ho => hsent _ (hcover o ho), hagree.trans same_equivalence (.symm same_equivalence ?_)⟩
  refine Lib.agree_grouped same_equivalence (batchStep ctx w.inFlight operations r)
    (fun i => i.1.1) hnodup ?_ (fun i _ => batchStep_respects ctx w.inFlight operations r i)
    (fun i _ j _ hne => batchStep_commutes hne) w
  intro i hi
  exact hcover i.1 (fst_mem_of_mem_zipIdx hi)

/-! ## A uniform provider -/

def EngineCall.shape : EngineCall → EngineCall
  | .bulkSetFlags _ flag add => .bulkSetFlags [] flag add
  | .bulkDestroy _ => .bulkDestroy []
  | .bulkMoveFrom _ destination source => .bulkMoveFrom [] destination source
  | .removeFromContainer _ container => .removeFromContainer "" container
  | .setImportance _ importance => .setImportance "" importance
  | .applyLabel _ native => .applyLabel "" native
  | .removeLabel _ native => .removeLabel "" native

def Uniform (answer : AccountId → EngineCall → Except ActionError Unit) : Prop :=
  ∀ account call call', call.shape = call'.shape → answer account call = answer account call'

theorem issueAll_result {a : Except ActionError Unit} (hne : calls ≠ [])
    (h : ∀ call ∈ calls, ctx.answer account call = a) : (issueAll ctx account calls).result = a := by
  induction calls with
  | nil => exact absurd rfl hne
  | cons call calls ih =>
    rw [issueAll, h call (mem_cons_self ..)]
    cases a with
    | error e => rfl
    | ok u =>
      cases calls with
      | nil => rfl
      | cons call' calls =>
        exact ih (cons_ne_nil _ _) (fun c hc => h c (mem_cons_of_mem _ hc))

theorem issueAll_uniform (huniform : Uniform ctx.answer) (account : AccountId)
    {calls' : List EngineCall} (hne : calls ≠ []) (hne' : calls' ≠ [])
    (h : ∀ call ∈ calls, ∀ call' ∈ calls', call.shape = call'.shape) :
    (issueAll ctx account calls).result = (issueAll ctx account calls').result := by
  obtain ⟨c, hc⟩ := exists_mem_of_ne_nil calls hne
  obtain ⟨c', hc'⟩ := exists_mem_of_ne_nil calls' hne'
  have hleft : ∀ call ∈ calls, ctx.answer account call = ctx.answer account c' := fun call hcall =>
    huniform account call c' (h call hcall c' hc')
  have hright : ∀ call ∈ calls', ctx.answer account call = ctx.answer account c' := fun call hcall =>
    huniform account call c' ((h c hc call hcall).symm.trans (h c hc c' hc'))
  rw [issueAll_result hne hleft, issueAll_result hne' hright]

theorem dispatchBulkMutation_uniform (huniform : Uniform ctx.answer) {ids' : List ObjectId}
    {ns : NamespaceAttribution} {remote remote' : Remote} (hne : ids ≠ []) (hne' : ids' ≠ [])
    (h : dispatchBulkMutation ctx acct account key ids ns = some remote)
    (h' : dispatchBulkMutation ctx acct account key ids' ns = some remote') :
    remote.result = remote'.result := by
  have hsingle : ∀ call call', call.shape = call'.shape →
      (issueAll ctx account [call]).result = (issueAll ctx account [call']).result := fun call call' hs =>
    issueAll_uniform huniform account (cons_ne_nil _ _) (cons_ne_nil _ _) (by simpa using hs)
  have hcontainer : ∀ op, dispatchContainerOp ctx acct account op ids ns = some remote →
      dispatchContainerOp ctx acct account op ids' ns = some remote' →
        remote.result = remote'.result := by
    intro op h h'
    obtain ⟨plan, hplan, rfl⟩ := Option.map_eq_some_iff.mp h
    obtain ⟨plan', hplan', rfl⟩ := Option.map_eq_some_iff.mp h'
    rw [hplan] at hplan'
    cases hplan'
    cases plan with
    | error e => rfl
    | ok plan =>
      cases plan with
      | moveTo destination source => exact hsingle _ _ rfl
      | detachInbox inbox =>
        exact issueAll_uniform huniform account (by simpa [planCalls] using hne)
          (by simpa [planCalls] using hne') (by simp [planCalls, EngineCall.shape])
      | noOp => rfl
  cases key with
  | star value => cases h; cases h'; exact hsingle _ _ rfl
  | read value => cases h; cases h'; exact hsingle _ _ rfl
  | archive => exact hcontainer _ h h'
  | trash => exact hcontainer _ h h'
  | spam value => exact hcontainer _ h h'
  | moveToFolder dest source => exact hcontainer _ h h'
  | permanentDelete => cases h; cases h'; exact hsingle _ _ rfl

theorem sent_result (huniform : Uniform ctx.answer) (hsent : Sent ctx acct account r)
    {remote : Remote} (hne : ids ≠ [])
    (h : dispatchBulkMutation ctx acct account key ids .personal = some remote) : remote.result = r key := by
  obtain ⟨targets, remote', hne', h', hr⟩ := hsent key
  rw [dispatchBulkMutation_uniform huniform hne hne' h h', hr]

section Silent

variable {ctx : Ctx} {acct : ResidentActionAccount} {account : AccountId} {thread : ThreadId}
variable {op : MailOperation} {key : RemoteBatchKey} {r : RemoteBatchKey → Except ActionError Unit}

theorem finish_silent (outcome : ActionOutcome) (rows : Rows) (known : List LabelId)
    (issued issued' : List Issued) :
    (finish ctx account thread op outcome rows known issued).map Effect.silent =
      (finish ctx account thread op outcome rows known issued').map Effect.silent := by
  simp only [finish, Option.map_map]
  rfl

theorem finish_settled (hop : isLocalOnly op = false) {outcome : ActionOutcome}
    (houtcome : ∀ reason, outcome ≠ .localOnly reason true) (rows : Rows) (known : List LabelId)
    (issued : List Issued) : (finish ctx account thread op outcome rows known issued).map Effect.silent =
      some (Effect.untouched outcome rows known).silent := by
  have hsome : (enqueueParams op).isSome := by rw [enqueueParams_isSome, hop]; rfl
  obtain ⟨entry, hentry⟩ := Option.isSome_iff_exists.mp hsome
  have hqueued : enqueueIfRetryable ctx account thread outcome entry = none := by
    unfold enqueueIfRetryable
    split
    · rfl
    split
    · rename_i reason
      exact absurd rfl (houtcome reason)
    · rfl
  simp only [finish, hentry, Option.map_some, hqueued]
  rfl

theorem settlePrepared_settled (x : Option Effect) :
    settlePrepared ctx account r thread op (x.map .settled) = x := by
  cases x <;> rfl

/-- The entry of a batch does what a dispatch of its own does behind the same local half. -/
theorem settleBatched_silent (hkey : RemoteBatchKey.fromOperation op = some key)
    (hop : op ≠ .permanentDelete) {rows : Rows} {known : List LabelId} {targets : List ObjectId}
    {remote : Remote} (hremote : dispatchBulkMutation ctx acct account key targets .personal = some remote)
    (hr : remote.result = r key) :
    (settleBatched ctx account key thread rows known op (r key)).map Effect.silent =
      (remoteWithEngine ctx acct account thread rows known op .personal targets).map Effect.silent := by
  have hread : op = .setRead true ↔ key = .read true := by
    cases op <;> cases hkey <;> simp
  simp only [remoteWithEngine, dispatchMutation_eq_bulk hkey, hremote, settleBatched, hr]
  cases r key with
  | error reason => exact finish_silent ..
  | ok u =>
    simp only [if_neg hop, outcomeFromRemoteResult, ActionOutcome.isSuccess, decide_true,
      Bool.true_and, Option.map_some, decide_eq_true_eq, hread]
    rw [finish_settled (isLocalOnly_of_key hkey) (fun reason h => by cases h)]

theorem mutate_silent (huniform : Uniform ctx.answer) (hsent : Sent ctx acct account r)
    (hkey : RemoteBatchKey.fromOperation op = some key) (hop : op ≠ .permanentDelete) (rows : Rows)
    (known : List LabelId) :
    (settlePrepared ctx account r thread op
        (prepareBatched ctx acct account thread rows known op key)).map Effect.silent =
      (mutateWithEngine ctx acct account thread rows known op .personal).map Effect.silent := by
  rw [prepareBatched_eq _ _ _ _ _ _ _ _ hop, mutateWithEngine_eq]
  cases hhalf : localHalf ctx acct account thread rows known op with
  | none => rfl
  | some half =>
    cases half with
    | done e => rfl
    | send rows' known' targets =>
      cases targets with
      | error e =>
        rw [settlePrepared_settled]
      | ok targets =>
        obtain ⟨remote, hremote⟩ := Option.isSome_iff_exists.mp
          (dispatchBulkMutation_isSome ctx acct account key targets .personal)
        have hr := sent_result huniform hsent (localHalf_targets hhalf) hremote
        exact settleBatched_silent hkey hop hremote hr

theorem delete_silent (huniform : Uniform ctx.answer) (hsent : Sent ctx acct account r) (rows : Rows)
    (known : List LabelId) :
    (settlePrepared ctx account r thread .permanentDelete (prepareBatched ctx acct account thread rows
        known .permanentDelete .permanentDelete)).map Effect.silent =
      (deleteWithEngine ctx acct account thread rows known .permanentDelete .personal).map Effect.silent := by
  simp only [prepareBatched, deleteWithEngine]
  cases hids : resolveThreadMessages ctx account thread rows acct.provider with
  | error e => rfl
  | ok targets =>
    obtain ⟨remote, hremote⟩ := Option.isSome_iff_exists.mp
      (dispatchBulkMutation_isSome ctx acct account .permanentDelete targets .personal)
    have hr := sent_result huniform hsent (resolveThreadMessages_ne_nil hids) hremote
    obtain ⟨result, issued⟩ := remote
    have hsend : dispatchMutation ctx acct account .permanentDelete targets .personal =
        some ⟨result, issued⟩ := hremote
    simp only [hsend, settlePrepared, settleBatched, if_true]
    rw [← hr]
    cases result with
    | error reason => exact finish_silent ..
    | ok u =>
      cases opLocal ctx account thread rows known .permanentDelete with
      | none => rfl
      | some q =>
        obtain ⟨rows', known', changed⟩ := q
        cases changed with
        | error e => exact (finish_settled rfl (fun reason h => by cases h) ..).symm
        | ok changed => exact (finish_settled rfl (fun reason h => by cases h) ..).symm

/-- With a uniform provider an operation does in a bulk group what it does alone, but for the calls. -/
theorem engineDispatch_silent (huniform : Uniform ctx.answer) (hsent : Sent ctx acct account r)
    (useBulk : Bool) (hop : isLocalOnly op = false) (rows : Rows) (known : List LabelId) :
    (engineDispatch ctx acct account useBulk r thread rows known op).map Effect.silent =
      (dispatchWithEngine ctx acct account thread rows known op).map Effect.silent := by
  obtain ⟨checked, hpre⟩ :=
    Option.isSome_iff_exists.mp (namespacePreflight_isSome ctx account thread rows op)
  cases checked with
  | error e =>
    simp [engineDispatch, settlePrepared, prepare, dispatchWithEngine, hop, hpre]
  | ok ns =>
    by_cases hbulk : !useBulk || ns ≠ .personal
    · simp only [engineDispatch, prepare, hpre, if_pos hbulk, settlePrepared_settled]
    cases hkey : RemoteBatchKey.fromOperation op with
    | none =>
      simp [engineDispatch, prepare, hpre, hop, hkey, settlePrepared_settled]
    | some key =>
      have hns : ns = .personal := by
        by_contra hne
        simp [hne] at hbulk
      subst hns
      have hlabel : dispatchLabelOp ctx (some acct) account thread rows known op = none := by
        cases op <;> first | rfl | cases hkey
      simp only [engineDispatch, prepare, dispatchWithEngine, hpre, if_neg hbulk, hop,
        hkey, hlabel]
      by_cases hdelete : op = .permanentDelete
      · subst hdelete
        cases hkey
        exact delete_silent huniform hsent rows known
      · rw [if_neg hdelete]
        exact mutate_silent huniform hsent hkey hdelete rows known

end Silent

/-! ## Local-only operations -/

section LocalOnly

variable {ctx : Ctx} {account : AccountId} {thread : ThreadId} {rows : Rows} {known : List LabelId}
variable {op : MailOperation}

theorem dispatchLocalOnly_of_error (hop : isLocalOnly op) {e : String}
    (hwrite : ctx.dbError account thread .write = some e) :
    dispatchLocalOnly ctx account thread rows known op = some (.untouched (.failed (.db e)) rows known) := by
  cases op <;> first
    | cases hop; done
    | simp [dispatchLocalOnly, localOnlyWrite, pin, mute, snooze, unsnooze, withWrite, hwrite, localOutcome]

theorem dispatchLocalOnly_of_ok (rows : Rows) (known : List LabelId) (hop : isLocalOnly op)
    (hwrite : ctx.dbError account thread .write = none) :
    ∃ rows', dispatchLocalOnly ctx account thread rows known op = some (.untouched .success rows' known) := by
  cases op <;> first
    | cases hop; done
    | simp [dispatchLocalOnly, localOnlyWrite, pin, mute, snooze, unsnooze, withWrite, hwrite, localOutcome,
        Effect.untouched]

/-- Without the engine a local-only operation of a mixed group goes through the path of the others. -/
theorem handleThreadDegraded_localOnly (hop : isLocalOnly op) (error : String) :
    handleThreadDegraded ctx account thread rows known op error =
      match ctx.dbError account thread .preflight, ctx.dbError account thread .write with
      | some e, _ => some (.untouched (.failed (.db e)) rows known)
      | none, some _ => some (.untouched .noOp rows known) | none, none => none := by
  have hdegraded : handleThreadDegraded ctx account thread rows known op error =
      writeDegraded ctx account thread rows known op (.remote .transient error) := by
    cases op <;> first | rfl | cases hop
  rw [hdegraded, writeDegraded, opLocal]
  cases hpre : ctx.dbError account thread .preflight with
  | some e =>
    rw [namespacePreflight_of_dbError hpre]
    rfl
  | none =>
    obtain ⟨ns, hns⟩ : ∃ ns, namespacePreflight ctx account thread rows op = some (.ok ns) :=
      namespacePreflight_of_isLocalOnly hop hpre
    rw [hns]
    cases hwrite : ctx.dbError account thread .write with
    | some e =>
      cases op <;> first
        | cases hop; done
        | simp [opWrite, pin, mute, snooze, unsnooze, withWrite, hwrite, localOutcome,
            ActionOutcome.isSuccess]
    | none =>
      cases op <;> first
        | cases hop; done
        | simp [opWrite, pin, mute, snooze, unsnooze, withWrite, hwrite, localOutcome,
            ActionOutcome.isSuccess, finish, enqueueParams]

theorem engineDispatch_localOnly (hop : isLocalOnly op) (acct : ResidentActionAccount) (useBulk : Bool)
    (r : RemoteBatchKey → Except ActionError Unit) :
    engineDispatch ctx acct account useBulk r thread rows known op =
      match ctx.dbError account thread .preflight with
      | some e => some (.untouched (.failed (.db e)) rows known)
      | none => dispatchLocalOnly ctx account thread rows known op := by
  rw [engineDispatch, prepare]
  cases hpre : ctx.dbError account thread .preflight with
  | some e =>
    rw [namespacePreflight_of_dbError hpre]
    rfl
  | none =>
    obtain ⟨ns, hns⟩ : ∃ ns, namespacePreflight ctx account thread rows op = some (.ok ns) :=
      namespacePreflight_of_isLocalOnly hop hpre
    rw [hns]
    simp only
    split
    · rw [settlePrepared_settled, dispatchWithEngine, if_pos hop]
    · rw [settlePrepared_settled]

end LocalOnly

/-- `batch_execute` on each operation by itself, in the caller's order. -/
def aloneEach (ctx : Ctx) : World → List Operation → Option (World × List ActionOutcome)
  | w, [] => some (w, [])
  | w, o :: ops =>
    match batchExecute ctx w [o] with
    | none => none
    | some (w, outcomes) => (aloneEach ctx w ops).map (fun r => (r.1, outcomes ++ r.2))

/-- An operation of the list, as a batch of its own runs it. -/
def partStep (ctx : Ctx) (held : Finset String) (r : BatchResults) (i : Item) :
    Step World (Nat × ActionOutcome) :=
  opStep ctx held i.1.1 (groupDispatch ctx i.1.1 [Item.toThreadOp i] (r i.1.1)) (Item.toThreadOp i)

/-- Whose batch an operation is in does not matter once the provider is uniform. -/
theorem sent_unique (huniform : Uniform ctx.answer) (h : Sent ctx acct account r)
    (h' : Sent ctx acct account r') : r = r' := by
  funext key
  obtain ⟨targets, remote, hne, hremote, hr⟩ := h key
  rw [← hr, sent_result huniform h' hne hremote]

theorem groupDispatch_unique (huniform : Uniform ctx.answer) (h : SentBy ctx account r)
    (h' : SentBy ctx account r') : groupDispatch ctx account ops r = groupDispatch ctx account ops r' := by
  unfold groupDispatch
  cases hengine : engineOf ctx account with
  | error e => rfl
  | ok acct => rw [sent_unique huniform (h acct hengine) (h' acct hengine)]

def indexed (n : Nat) (outcomes : List ActionOutcome) : Results := (outcomes.zipIdx n).map Prod.swap

theorem batchExecute_alone (huniform : Uniform ctx.answer) (w : World) (o : Operation) (n : Nat)
    (hsent : SentBy ctx o.1 r) : Agree Same ((batchExecute ctx w [o]).map (fun q => (q.1, indexed n q.2)))
      (opStep ctx w.inFlight o.1 (groupDispatch ctx o.1 [⟨n, o.2.1, o.2.2⟩] r) ⟨n, o.2.1, o.2.2⟩ w) := by
  obtain ⟨account, thread, op⟩ := o
  have hnodup : ([(⟨0, thread, op⟩ : ThreadOp)].map ThreadOp.thread).Nodup := nodup_singleton _
  obtain ⟨r', hsent', hagree⟩ := executeAccountGroup_agree ctx account w hnodup
  rw [map_singleton, Lib.runSteps_singleton, groupDispatch_unique huniform hsent' hsent] at hagree
  rw [batchExecute_singleton]
  -- the index is all that the group reads of it
  have hgroup : groupDispatch ctx account [⟨n, thread, op⟩] r =
      groupDispatch ctx account [⟨0, thread, op⟩] r := rfl
  simp only [hgroup]
  unfold opStep threadStep at hagree ⊢
  revert hagree
  generalize executeAccountGroup ctx account w [⟨0, thread, op⟩] = x
  generalize guarded w.inFlight account thread (fun rows known =>
    groupDispatch ctx account [⟨0, thread, op⟩] r thread rows known op) (w.rows account thread)
      (w.known account) = y
  intro hagree
  cases y with
  | none => cases hagree; exact .fail
  | some e =>
    cases hagree with
    | done hs hr =>
      refine .done hs ?_
      rw [perm_singleton.mp hr]
      exact .refl _

theorem reassemble_length (total : Nat) (results : Results) : (reassemble total results).length = total := by
  have hfold : ∀ (results : Results) (outcomes : List ActionOutcome),
      (results.foldl (fun outcomes r => outcomes.set r.1 r.2) outcomes).length = outcomes.length := by
    intro results
    induction results with
    | nil => exact fun _ => rfl
    | cons p results ih => exact fun outcomes => (ih _).trans length_set
  rw [reassemble, hfold, length_replicate]

theorem batchExecute_inFlight (h : batchExecute ctx w operations = some (w', outcomes)) :
    w'.inFlight = w.inFlight ∧ outcomes.length = operations.length := by
  obtain ⟨⟨v, results⟩, hgroups, hv⟩ := Option.map_eq_some_iff.mp h
  cases hv
  exact ⟨executeGroups_inFlight hgroups, reassemble_length _ _⟩

theorem aloneEach_agree (huniform : Uniform ctx.answer) (held : Finset String) {r : BatchResults}
    (hsent : ∀ o ∈ operations, SentBy ctx o.1 (r o.1)) (n : Nat) (hheld : w.inFlight = held) :
    Agree Same ((aloneEach ctx w operations).map (fun q => (q.1, indexed n q.2)))
      (runSteps ((operations.zipIdx n).map (partStep ctx held r)) w) := by
  induction operations generalizing w n with
  | nil => exact .refl same_equivalence _
  | cons o ops ih =>
    have hone := batchExecute_alone huniform w o n (hsent o (mem_cons_self ..))
    rw [hheld] at hone
    have hrest : ∀ v results, (batchExecute ctx w [o]).map (fun q => (q.1, indexed n q.2)) =
        some (v, results) →
        Agree Same ((aloneEach ctx v ops).map (fun q => (q.1, indexed (n + 1) q.2)))
          (runSteps ((ops.zipIdx (n + 1)).map (partStep ctx held r)) v) := by
      intro v results h
      obtain ⟨⟨w', outcomes⟩, hbatch, hv⟩ := Option.map_eq_some_iff.mp h
      cases hv
      exact ih (fun o' ho' => hsent o' (mem_cons_of_mem _ ho')) (n + 1)
        ((batchExecute_inFlight hbatch).1.trans hheld)
    rw [← Lib.runSteps_singleton (opStep _ _ _ _ _)] at hone
    have hseq := hone.andThen same_equivalence (fun f hf => by
      obtain ⟨i, -, rfl⟩ := mem_map.mp hf
      exact opStep_respects _ _ _ _ _) hrest
    rw [zipIdx_cons, aloneEach]
    cases hx : batchExecute ctx w [o] with
    | none =>
      simp only [hx] at hseq
      exact hseq
    | some q =>
      obtain ⟨w', outcomes⟩ := q
      have hlength : outcomes.length = 1 := (batchExecute_inFlight hx).2
      have hindexed : ∀ rest, indexed n (outcomes ++ rest) = indexed n outcomes ++ indexed (n + 1) rest := by
        intro rest
        rw [indexed, zipIdx_append, map_append, hlength]
        rfl
      simp only [hx, Option.map_map] at hseq
      simp only [Option.map_map, Function.comp_def, hindexed]
      exact hseq

/-! ## Results of a run -/

section Run

variable {ctx : Ctx} {held : Finset String} {d : Item → OpDispatch} {l : List Item} {w w' : World}
variable {results : Results}

/-- An item with the dispatch `d` gives it. -/
def itemStep (ctx : Ctx) (held : Finset String) (d : Item → OpDispatch) (i : Item) :
    Step World (Nat × ActionOutcome) :=
  opStep ctx held i.1.1 (d i) (Item.toThreadOp i)

def itemDispatch (held : Finset String) (d : Item → OpDispatch) (i : Item) : Dispatch :=
  guarded held i.1.1 i.1.2.1 (fun rows known => d i i.1.2.1 rows known i.1.2.2)

theorem itemStep_eq (i : Item) (w : World) : itemStep ctx held d i w =
      (itemDispatch held d i (w.rows i.1.1 i.1.2.1) (w.known i.1.1)).map (fun e =>
        (w.install ctx i.1.1 i.1.2.1 e, [(i.2, e.outcome)])) := rfl

theorem runSteps_cons_item {i : Item}
    (h : runSteps ((i :: l).map (itemStep ctx held d)) w = some (w', results)) :
    ∃ e rest, itemDispatch held d i (w.rows i.1.1 i.1.2.1) (w.known i.1.1) = some e ∧
      runSteps (l.map (itemStep ctx held d)) (w.install ctx i.1.1 i.1.2.1 e) = some (w', rest) ∧
      results = (i.2, e.outcome) :: rest := by
  rw [map_cons, runSteps, itemStep_eq] at h
  cases he : itemDispatch held d i (w.rows i.1.1 i.1.2.1) (w.known i.1.1) with
  | none => simp [he] at h
  | some e =>
    simp only [he] at h
    obtain ⟨⟨v, rest⟩, hrest, hv⟩ := Option.map_eq_some_iff.mp h
    cases hv
    exact ⟨e, rest, rfl, hrest, rfl⟩

theorem runSteps_indices (h : runSteps (l.map (itemStep ctx held d)) w = some (w', results)) :
    results.map Prod.fst = l.map Prod.snd := by
  induction l generalizing w results with
  | nil => cases h; rfl
  | cons i l ih =>
    obtain ⟨e, rest, -, hrest, rfl⟩ := runSteps_cons_item h
    rw [map_cons, map_cons, ih hrest]

theorem runSteps_outcome (hdistinct : (l.map (fun i => (i.1.1, i.1.2.1))).Nodup)
    (h : runSteps (l.map (itemStep ctx held d)) w = some (w', results)) {i : Item} (hi : i ∈ l) :
    ∃ known e, itemDispatch held d i (w.rows i.1.1 i.1.2.1) known = some e ∧ (i.2, e.outcome) ∈ results := by
  induction l generalizing w results with
  | nil => exact absurd hi not_mem_nil
  | cons j l ih =>
    obtain ⟨hfresh, hdistinct'⟩ := nodup_cons.mp hdistinct
    obtain ⟨e, rest, he, hrest, rfl⟩ := runSteps_cons_item h
    rcases mem_cons.mp hi with rfl | hi
    · exact ⟨_, e, he, mem_cons_self ..⟩
    obtain ⟨known, e', he', hmem⟩ := ih hdistinct' hrest hi
    have hne : ¬ (i.1.1 = j.1.1 ∧ i.1.2.1 = j.1.2.1) := by
      intro heq
      exact hfresh (mem_map.mpr ⟨i, hi, Prod.ext heq.1 heq.2⟩)
    simp only [install_rows, hne] at he'
    exact ⟨known, e', he', mem_cons_of_mem _ hmem⟩

end Run

theorem foldl_set_mem (hnodup : (results.map Prod.fst).Nodup) {j : Nat} {o : ActionOutcome}
    (hmem : (j, o) ∈ results) (hj : j < outcomes.length) :
    (results.foldl (fun outcomes r => outcomes.set r.1 r.2) outcomes)[j]? = some o := by
  -- behind its own result, an index is left alone
  have hkeep : ∀ (results : Results) (outcomes : List ActionOutcome), j ∉ results.map Prod.fst →
      (results.foldl (fun outcomes r => outcomes.set r.1 r.2) outcomes)[j]? = outcomes[j]? := by
    intro results
    induction results with
    | nil => exact fun _ _ => rfl
    | cons p results ih =>
      intro outcomes hj
      rw [map_cons, mem_cons, not_or] at hj
      obtain ⟨hne, hj⟩ := hj
      rw [foldl_cons, ih _ hj, getElem?_set_ne (Ne.symm hne)]
  induction results generalizing outcomes with
  | nil => exact absurd hmem not_mem_nil
  | cons p results ih =>
    obtain ⟨hfresh, hnodup'⟩ := nodup_cons.mp hnodup
    rcases mem_cons.mp hmem with rfl | hmem
    · rw [foldl_cons, hkeep _ _ hfresh, getElem?_set_self hj]
    · exact ih hnodup' hmem (by rwa [length_set])

theorem indexed_fst (n : Nat) (outcomes : List ActionOutcome) :
    (indexed n outcomes).map Prod.fst = List.range' n outcomes.length := by
  rw [indexed, map_map]
  exact zipIdx_map_snd n outcomes

theorem reassemble_of_perm (h : results.Perm (indexed 0 outcomes)) :
    reassemble outcomes.length results = outcomes := by
  have hnodup : (results.map Prod.fst).Nodup := by
    rw [(h.map Prod.fst).nodup_iff, indexed_fst]
    exact nodup_range'
  refine ext_getElem (reassemble_length _ _) ?_
  intro j hj hj'
  have hmem : (j, outcomes[j]) ∈ results := by
    rw [h.mem_iff, indexed, mem_map]
    exact ⟨(outcomes[j], j), by simp [mem_zipIdx_iff_getElem?], rfl⟩
  have hget : (reassemble outcomes.length results)[j]? = some outcomes[j] :=
    foldl_set_mem hnodup hmem (by rwa [length_replicate])
  rw [getElem?_eq_getElem hj] at hget
  exact Option.some.inj hget

theorem eq_indexed {n : Nat} (h : results.map Prod.fst = List.range' n results.length) :
    results = indexed n (results.map Prod.snd) := by
  induction results generalizing n with
  | nil => rfl
  | cons p results ih =>
    injection h with hp hrest
    have htail := ih hrest
    rw [indexed, map_cons, zipIdx_cons, ← hp]
    rw [← hp] at htail
    congr 1

theorem indexed_reassemble {results' : Results} {n : Nat}
    (hindices : results'.map Prod.fst = List.range' 0 n) (hperm : results.Perm results') :
    indexed 0 (reassemble n results) = results' := by
  have hlength : results'.length = n := by
    have h := congrArg List.length hindices
    rwa [length_map, length_range'] at h
  have heq := eq_indexed (hlength.symm ▸ hindices)
  have hout : reassemble (results'.map Prod.snd).length results = results'.map Prod.snd :=
    reassemble_of_perm (heq ▸ hperm)
  rw [length_map, hlength] at hout
  rw [hout, ← heq]

def Ctx.answering (ctx : Ctx) (answer : AccountId → EngineCall → Except ActionError Unit) : Ctx :=
  { ctx with answer := answer }

/-- With any provider the batch comes through and has every index once; with a uniform one its outcomes,
local rows and queued retries are those of the operations alone. -/
structure BatchIsParts (ctx : Ctx) (w : World) (operations : List Operation) : Prop where
  complete : ∀ answer, ∃ w' results,
    groupResults (ctx.answering answer) w operations = some (w', results) ∧
      (results.map Prod.fst).Perm (List.range operations.length)
  parts : ∀ answer, Uniform answer → ∃ w' v' outcomes,
    batchExecute (ctx.answering answer) w operations = some (w', outcomes) ∧
      aloneEach (ctx.answering answer) w operations = some (v', outcomes) ∧ Same w' v'

/-- The thread's database calls, and the engine, are such that the path of a mixed group does no more and
no less with a local-only operation than the local-only path. -/
def Spared (ctx : Ctx) (account : AccountId) (thread : ThreadId) : Prop :=
  ((∃ acct, engineOf ctx account = .ok acct) ∧ ctx.dbError account thread .preflight = none) ∨
    ∃ e, ctx.dbError account thread .preflight = some e ∧ ctx.dbError account thread .write = some e

/-- Every local-only operation that shares its account with another kind, and whose guard is free, is
spared. -/
def SparesLocalOnly (ctx : Ctx) (w : World) (operations : List Operation) : Prop :=
  ∀ o ∈ operations, isLocalOnly o.2.2 →
    (∃ o' ∈ operations, o'.1 = o.1 ∧ isLocalOnly o'.2.2 = false) →
      flightKey o.1 o.2.1 ∉ w.inFlight → Spared ctx o.1 o.2.1

theorem group_all_localOnly (operations : List Operation) (account : AccountId) :
    (groupOf operations account).all (fun o => isLocalOnly o.op) = false ↔
      ∃ o ∈ operations, o.1 = account ∧ isLocalOnly o.2.2 = false := by
  rw [all_eq_false]
  constructor
  · rintro ⟨o, ho, hop⟩
    obtain ⟨i, hi, rfl⟩ := mem_map.mp ho
    obtain ⟨hi, haccount⟩ := mem_filter.mp hi
    exact ⟨i.1, fst_mem_of_mem_zipIdx hi, by simpa using haccount,
      by simpa [Item.toThreadOp] using hop⟩
  · rintro ⟨o, ho, haccount, hop⟩
    obtain ⟨n, hn⟩ := mem_iff_getElem?.mp ho
    refine ⟨Item.toThreadOp (o, n), mem_map_of_mem (mem_filter.mpr ⟨?_, by simpa using haccount⟩),
      by simpa [Item.toThreadOp] using hop⟩
    exact mem_zipIdx_iff_getElem?.mpr hn

section Parts

variable {ctx : Ctx} {account : AccountId} {thread : ThreadId} {ops : List ThreadOp}
variable {op : MailOperation} {r : RemoteBatchKey → Except ActionError Unit}
variable {i : Item}

/-- In a group of its own kind, a local-only operation takes the local-only path. -/
theorem groupDispatch_of_all (h : ops.all (fun o => isLocalOnly o.op)) :
    groupDispatch ctx account ops r = dispatchLocalOnly ctx account := by
  rw [groupDispatch, if_pos h]

theorem groupDispatch_spared (hop : isLocalOnly op) (hspared : Spared ctx account thread) (rows : Rows)
    (known : List LabelId) : groupDispatch ctx account ops r thread rows known op =
      dispatchLocalOnly ctx account thread rows known op := by
  unfold groupDispatch
  split
  · rfl
  rcases hspared with ⟨⟨acct, hengine⟩, hpre⟩ | ⟨e, hpre, hwrite⟩
  · simp only [hengine]
    rw [engineDispatch_localOnly hop, hpre]
  · rw [dispatchLocalOnly_of_error hop hwrite]
    cases engineOf ctx account with
    | error error => simp [handleThreadDegraded_localOnly hop, hpre]
    | ok acct => simp [engineDispatch_localOnly hop, hpre]

theorem handleThreadDegraded_isSome (hop : isLocalOnly op = false) (rows : Rows) (known : List LabelId)
    (error : String) : (handleThreadDegraded ctx account thread rows known op error).isSome := by
  unfold handleThreadDegraded
  split
  · rfl
  split
  · rfl
  obtain ⟨⟨rows', known', changed⟩, hlocal⟩ :=
    Option.isSome_iff_exists.mp (opLocal_isSome ctx account thread rows known op)
  rw [writeDegraded, hlocal]
  rcases changed with e | _ | _
  · rfl
  · rfl
  · exact finish_isSome _ _ _ _ _ hop _ _

/-- An operation with a remote half is not told apart from itself in another group. -/
theorem groupDispatch_remote (huniform : Uniform ctx.answer) (hsent : SentBy ctx account r)
    {ops' : List ThreadOp} (hops : ops.all (fun o => isLocalOnly o.op) = false)
    (hops' : ops'.all (fun o => isLocalOnly o.op) = false) (hop : isLocalOnly op = false) (rows : Rows)
    (known : List LabelId) : (groupDispatch ctx account ops r thread rows known op).map Effect.silent =
      (groupDispatch ctx account ops' r thread rows known op).map Effect.silent := by
  unfold groupDispatch
  rw [if_neg (by simp [hops]), if_neg (by simp [hops'])]
  cases hengine : engineOf ctx account with
  | error e => rfl
  | ok acct =>
    rw [engineDispatch_silent huniform (hsent acct hengine) _ hop,
      engineDispatch_silent huniform (hsent acct hengine) _ hop]

theorem groupDispatch_isSome (hops : ops.all (fun o => isLocalOnly o.op) = false)
    (hop : isLocalOnly op = false) (rows : Rows) (known : List LabelId) :
    (groupDispatch ctx account ops r thread rows known op).isSome := by
  unfold groupDispatch
  rw [if_neg (by simp [hops])]
  cases engineOf ctx account with
  | error e => exact handleThreadDegraded_isSome hop rows known e
  | ok acct => exact engineDispatch_isSome _ _ _ _ _ _

/-- The outcome of a local-only operation that is not spared differs, or there is none. -/
theorem groupDispatch_unspared (hops : ops.all (fun o => isLocalOnly o.op) = false) (hop : isLocalOnly op)
    {rows : Rows} {known known' : List LabelId} {e e' : Effect}
    (he : groupDispatch ctx account ops r thread rows known op = some e)
    (he' : dispatchLocalOnly ctx account thread rows known' op = some e') (h : e.outcome = e'.outcome) :
    Spared ctx account thread := by
  unfold groupDispatch at he
  rw [if_neg (by simp [hops])] at he
  -- an error of the preflight is the outcome there, so the write must fail alike
  have hfailed : ∀ message, ctx.dbError account thread .preflight = some message →
      e.outcome = .failed (.db message) → Spared ctx account thread := by
    intro message hpre hout
    cases hwrite : ctx.dbError account thread .write with
    | some message' =>
      rw [dispatchLocalOnly_of_error hop hwrite] at he'
      cases he'
      rw [hout] at h
      cases h
      exact .inr ⟨message, hpre, hwrite⟩
    | none =>
      obtain ⟨rows', hok⟩ := dispatchLocalOnly_of_ok rows known' hop hwrite
      rw [hok] at he'
      cases he'
      rw [hout] at h
      cases h
  cases hengine : engineOf ctx account with
  | error error =>
    simp only [hengine, handleThreadDegraded_localOnly hop] at he
    cases hpre : ctx.dbError account thread .preflight with
    | some message =>
      simp only [hpre, Option.some.injEq] at he
      exact hfailed message hpre (by rw [← he]; rfl)
    | none =>
      cases hwrite : ctx.dbError account thread .write with
      | some message =>
        simp only [hpre, hwrite, Option.some.injEq] at he
        rw [dispatchLocalOnly_of_error hop hwrite] at he'
        cases he'
        rw [← he] at h
        cases h
      | none => simp [hpre, hwrite] at he
  | ok acct =>
    simp only [hengine, engineDispatch_localOnly hop] at he
    cases hpre : ctx.dbError account thread .preflight with
    | some message =>
      simp only [hpre, Option.some.injEq] at he
      exact hfailed message hpre (by rw [← he]; rfl)
    | none => exact .inl ⟨⟨acct, hengine⟩, hpre⟩

theorem item_mixed {operations : List Operation} (hi : i ∈ operations.zipIdx) :
    (groupOf operations i.1.1).all (fun o => isLocalOnly o.op) = false ∨
      (groupOf operations i.1.1).all (fun o => isLocalOnly o.op) ∧ isLocalOnly i.1.2.2 := by
  cases hall : (groupOf operations i.1.1).all (fun o => isLocalOnly o.op) with
  | false => exact .inl rfl
  | true =>
    refine .inr ⟨rfl, ?_⟩
    have hmem : Item.toThreadOp i ∈ groupOf operations i.1.1 :=
      mem_map_of_mem (mem_filter.mpr ⟨hi, by simp⟩)
    exact all_eq_true.mp hall _ hmem

/-- The dispatch of an item in the batch, and in a batch of its own. -/
def inBatch (ctx : Ctx) (operations : List Operation) (r : BatchResults) (i : Item) : OpDispatch :=
  groupDispatch ctx i.1.1 (groupOf operations i.1.1) (r i.1.1)

def inPart (ctx : Ctx) (r : BatchResults) (i : Item) : OpDispatch :=
  groupDispatch ctx i.1.1 [Item.toThreadOp i] (r i.1.1)

variable {w : World} {operations : List Operation} {results : BatchResults}

theorem inBatch_isSome (hspares : SparesLocalOnly ctx w operations) (hi : i ∈ operations.zipIdx)
    (rows : Rows) (known : List LabelId) :
    (itemDispatch w.inFlight (inBatch ctx operations results) i rows known).isSome := by
  simp only [itemDispatch, guarded, inBatch]
  split
  · rfl
  rename_i hfree
  rcases item_mixed hi with hmixed | ⟨hall, hop⟩
  · cases hop : isLocalOnly i.1.2.2 with
    | false => exact groupDispatch_isSome hmixed hop rows known
    | true =>
      have hspared := hspares i.1 (fst_mem_of_mem_zipIdx hi) hop
        ((group_all_localOnly operations i.1.1).mp hmixed) hfree
      rw [groupDispatch_spared hop hspared]
      exact dispatchLocalOnly_isSome _ _ _ _ _ hop
  · rw [groupDispatch_of_all hall]
    exact dispatchLocalOnly_isSome _ _ _ _ _ hop

theorem inBatch_silent (huniform : Uniform ctx.answer)
    (hsent : ∀ o ∈ operations, SentBy ctx o.1 (results o.1))
    (hspares : SparesLocalOnly ctx w operations) (hi : i ∈ operations.zipIdx) (rows : Rows)
    (known : List LabelId) :
    (itemDispatch w.inFlight (inBatch ctx operations results) i rows known).map Effect.silent =
      (itemDispatch w.inFlight (inPart ctx results) i rows known).map Effect.silent := by
  have hmem := fst_mem_of_mem_zipIdx hi
  simp only [itemDispatch, guarded, inBatch, inPart]
  split
  · rfl
  rename_i hfree
  cases hop : isLocalOnly i.1.2.2 with
  | false =>
    rcases item_mixed hi with hmixed | ⟨-, hop'⟩
    · exact groupDispatch_remote huniform (hsent i.1 hmem) hmixed (by simpa [Item.toThreadOp] using hop)
        hop rows known
    · rw [hop] at hop'
      cases hop'
  | true =>
    have hsingle : [Item.toThreadOp i].all (fun o => isLocalOnly o.op) := by
      simpa [Item.toThreadOp] using hop
    rw [groupDispatch_of_all hsingle]
    rcases item_mixed hi with hmixed | ⟨hall, -⟩
    · have hspared := hspares i.1 hmem hop ((group_all_localOnly operations i.1.1).mp hmixed) hfree
      rw [groupDispatch_spared hop hspared]
    · rw [groupDispatch_of_all hall]

theorem batch_complete (hdistinct : Distinct operations) (hspares : SparesLocalOnly ctx w operations) :
    ∃ w' results, groupResults ctx w operations = some (w', results) ∧
      (results.map Prod.fst).Perm (List.range operations.length) := by
  obtain ⟨r, -, hagree⟩ := groupResults_agree ctx w hdistinct
  have hsome : (runSteps (operations.zipIdx.map
      (itemStep ctx w.inFlight (inBatch ctx operations r))) w).isSome := by
    refine Lib.runSteps_isSome (fun f hf v => ?_) w
    obtain ⟨i, hi, rfl⟩ := mem_map.mp hf
    rw [itemStep_eq, Option.isSome_map]
    exact inBatch_isSome hspares hi _ _
  obtain ⟨⟨v, results⟩, hrun⟩ := Option.isSome_iff_exists.mp hsome
  have hindices := runSteps_indices hrun
  rw [zipIdx_map_snd, ← range_eq_range'] at hindices
  have hrun' : runSteps (operations.zipIdx.map (batchStep ctx w.inFlight operations r)) w =
      some (v, results) := hrun
  rw [hrun'] at hagree
  generalize groupResults ctx w operations = x at hagree
  cases hagree with
  | done hs hr => exact ⟨_, _, rfl, hindices ▸ hr.map Prod.fst⟩

theorem batch_parts (huniform : Uniform ctx.answer) (hdistinct : Distinct operations)
    (hspares : SparesLocalOnly ctx w operations) : Agree Same (groupResults ctx w operations)
      ((aloneEach ctx w operations).map (fun q => (q.1, indexed 0 q.2))) := by
  obtain ⟨r, hsent, hagree⟩ := groupResults_agree ctx w hdistinct
  have halone := aloneEach_agree huniform w.inFlight hsent 0 rfl
  refine hagree.trans same_equivalence (.trans same_equivalence ?_ (halone.symm same_equivalence))
  refine Lib.agree_map (fun i hi v v' hv => ?_) (same_equivalence.refl w)
  exact agree_threadStep (fun rows known => inBatch_silent huniform hsent hspares hi rows known) hv

/-- Where the batch is its parts, nothing comes between a local-only operation and its own path. -/
theorem spared_of_parts (huniform : Uniform ctx.answer) (hdistinct : Distinct operations)
    {w₁ w₂ : World} {outcomes : List ActionOutcome}
    (hbatch : batchExecute ctx w operations = some (w₁, outcomes))
    (halone : aloneEach ctx w operations = some (w₂, outcomes)) : SparesLocalOnly ctx w operations := by
  obtain ⟨r, hsent, hagree⟩ := groupResults_agree ctx w hdistinct
  have hparts := aloneEach_agree huniform w.inFlight hsent 0 rfl
  obtain ⟨⟨v, results⟩, hgroups, hv⟩ := Option.map_eq_some_iff.mp hbatch
  cases hv
  rw [hgroups] at hagree
  rw [halone] at hparts
  have hd := distinct_items hdistinct
  cases hrun : runSteps (operations.zipIdx.map (batchStep ctx w.inFlight operations r)) w with
  | none => rw [hrun] at hagree; cases hagree
  | some q =>
    obtain ⟨v₁, results₁⟩ := q
    cases hrun' : runSteps (operations.zipIdx.map (partStep ctx w.inFlight r)) w with
    | none => rw [hrun'] at hparts; cases hparts
    | some q' =>
      rw [hrun] at hagree
      rw [hrun'] at hparts
      cases hagree with
      | done _ hperm =>
        cases hparts with
        | done _ hperm' =>
          -- both runs put out the same results
          have hindices : results₁.map Prod.fst = List.range' 0 operations.length := by
            rw [← zipIdx_map_snd 0 operations]
            exact runSteps_indices (d := inBatch ctx operations r) hrun
          rw [indexed_reassemble hindices hperm] at hperm'
          intro o ho hop hmixed hfree
          obtain ⟨k, hk⟩ := mem_iff_getElem?.mp ho
          have hi : (o, k) ∈ operations.zipIdx := mem_zipIdx_iff_getElem?.mpr hk
          obtain ⟨known, e, he, hmem⟩ := runSteps_outcome (d := inBatch ctx operations r) hd hrun hi
          obtain ⟨known', e', he', hmem'⟩ := runSteps_outcome (d := inPart ctx r) hd hrun' hi
          have hnodup : (results₁.map Prod.fst).Nodup := hindices ▸ nodup_range'
          have hsame := inj_on_of_nodup_map hnodup hmem (hperm'.mem_iff.mpr hmem') rfl
          have hsingle : [Item.toThreadOp (o, k)].all (fun o => isLocalOnly o.op) := by
            simpa [Item.toThreadOp] using hop
          simp only [itemDispatch, guarded, if_neg hfree] at he
          simp only [itemDispatch, guarded, if_neg hfree, inPart, groupDispatch_of_all hsingle] at he'
          exact groupDispatch_unspared ((group_all_localOnly operations o.1).mpr hmixed) hop he he'
            (congrArg Prod.snd hsame)

theorem spares_answering (answer : AccountId → EngineCall → Except ActionError Unit) :
    SparesLocalOnly (ctx.answering answer) w operations ↔ SparesLocalOnly ctx w operations := Iff.rfl

/-- A batch of operations on threads of their own is the same as its parts, if and only if every
local-only operation in a group with others, and whose guard is free, finds a resident engine and a
preflight that reads, or fails its preflight with the error that its write fails with. -/
theorem batch_is_parts_iff (ctx : Ctx) (w : World) (operations : List Operation)
    (hdistinct : Distinct operations) : BatchIsParts ctx w operations ↔ SparesLocalOnly ctx w operations := by
  constructor
  · intro h
    obtain ⟨w₁, w₂, outcomes, hbatch, halone, -⟩ := h.parts (fun _ _ => .ok ()) (fun _ _ _ _ => rfl)
    exact (spares_answering _).mp (spared_of_parts (fun _ _ _ _ => rfl) hdistinct hbatch halone)
  · intro hspares
    refine ⟨fun answer => batch_complete hdistinct ((spares_answering answer).mpr hspares), ?_⟩
    intro answer huniform
    have hspares' := (spares_answering answer).mpr hspares
    obtain ⟨w₁, results, hgroups, hindices⟩ := batch_complete hdistinct hspares'
    have hagree := batch_parts huniform hdistinct hspares'
    rw [hgroups] at hagree
    cases halone : aloneEach (ctx.answering answer) w operations with
    | none => rw [halone] at hagree; cases hagree
    | some q =>
      obtain ⟨w₂, outcomes⟩ := q
      rw [halone] at hagree
      cases hagree with
      | done hsame hperm =>
        have hlength : outcomes.length = operations.length := by
          have h := (hperm.map Prod.fst).length_eq.symm.trans hindices.length_eq
          rwa [indexed_fst, length_range', length_range] at h
        refine ⟨w₁, w₂, outcomes, ?_, rfl, hsame⟩
        rw [batchExecute, hgroups, Option.map_some, ← hlength, reassemble_of_perm hperm]

end Parts

def pinAndStar : List Operation :=
  [("acc", "t1", .setPinned true), ("acc", "t2", .setStarred true)]

theorem pinAndStar_parts :
    Distinct pinAndStar ∧ BatchIsParts (sampleCtx (.ok ()) 0) (sampleWorld []) pinAndStar :=
  ⟨by decide, (batch_is_parts_iff _ _ _ (by decide)).mpr fun _ _ _ _ _ => .inl ⟨⟨_, rfl⟩, rfl⟩⟩

/-- Without an engine the pin reaches the `unreachable!` of `enqueue_params`; alone it is written. -/
theorem pinAndStar_panics : Distinct pinAndStar ∧
      (batchExecute { sampleCtx (.ok ()) 0 with syncRuntime := none } (sampleWorld []) pinAndStar).isNone ∧
      (aloneEach { sampleCtx (.ok ()) 0 with syncRuntime := none } (sampleWorld []) pinAndStar).isSome ∧
      ¬ BatchIsParts { sampleCtx (.ok ()) 0 with syncRuntime := none } (sampleWorld []) pinAndStar := by
  have hnone : groupResults { sampleCtx (.ok ()) 0 with syncRuntime := none } (sampleWorld [])
      pinAndStar = none := rfl
  refine ⟨by decide, by rw [batchExecute, hnone]; rfl, rfl, ?_⟩
  intro h
  obtain ⟨w', results, hsome, -⟩ := h.complete (fun _ _ => .ok ())
  have hsome' : groupResults { sampleCtx (.ok ()) 0 with syncRuntime := none } (sampleWorld [])
      pinAndStar = some (w', results) := hsome
  rw [hnone] at hsome'
  cases hsome'

end Ratatoskr.Actions

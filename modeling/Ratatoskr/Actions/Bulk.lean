import Ratatoskr.Actions.Steps
import Ratatoskr.Actions.Total

/-!
# Actions.Bulk

The engine path of a group as a run of single steps. Its local halves run first and its remote batches
behind them, in the order in which the map yields their keys; but an entry of a batch touches its own
thread only and leaves the label rows alone, so it may as well run with its local half.

* `executeWithEngine_agree` : the engine path agrees with its operations one after the other, each with the
  result of its batch.
-/

namespace Ratatoskr.Actions

open List
open Lib (Step runSteps Agree Respects Commutes emit)

/-- What becomes of an operation once the remote batches have the results `r`. -/
def settlePrepared (ctx : Ctx) (account : AccountId) (r : RemoteBatchKey → Except ActionError Unit)
    (thread : ThreadId) (op : MailOperation) : Option Prepared → Option Effect
  | none => none
  | some (.settled e) => some e
  | some (.waiting key _ rows known) => settleBatched ctx account key thread rows known op (r key)

def engineDispatch (ctx : Ctx) (acct : ResidentActionAccount) (account : AccountId) (useBulk : Bool)
    (r : RemoteBatchKey → Except ActionError Unit) : OpDispatch := fun thread rows known op =>
  settlePrepared ctx account r thread op (prepare ctx acct account useBulk thread rows known op)

def settleStep (ctx : Ctx) (account : AccountId) (r : RemoteBatchKey → Except ActionError Unit)
    (p : PendingRemote) : Step World (Nat × ActionOutcome) :=
  threadStep ctx p.idx account p.thread (fun rows known =>
    settleBatched ctx account p.key p.thread rows known p.op (r p.key))

theorem finish_quiet (ctx : Ctx) (account : AccountId) (thread : ThreadId) (op : MailOperation)
    (outcome : ActionOutcome) (rows : Rows) (issued : List Issued) :
    Quiet (fun _ known => finish ctx account thread op outcome rows known issued) := by
  intro _ known known'
  simp only [finish, Option.map_map]
  rfl

theorem settleBatched_quiet (ctx : Ctx) (account : AccountId) (key : RemoteBatchKey) (thread : ThreadId)
    (op : MailOperation) (result : Except ActionError Unit) :
    Quiet (fun rows known => settleBatched ctx account key thread rows known op result) := by
  intro rows known known'
  simp only [settleBatched]
  split
  · exact finish_quiet ctx account thread op _ rows [] rows known known'
  split
  · rename_i hop
    subst hop
    simp only [opLocal, opWrite]
    cases namespacePreflight ctx account thread rows .permanentDelete with
    | none => rfl
    | some checked =>
      cases checked with
      | error e => rfl
      | ok ns =>
        cases (permanentDeleteLocal ctx account thread rows).2 <;> rfl
  · rfl

theorem settleStep_commutes {ctx : Ctx} {account : AccountId}
    {r : RemoteBatchKey → Except ActionError Unit} {p : PendingRemote} {idx : Nat} {thread : ThreadId}
    {dispatch : Dispatch} (hne : p.thread ≠ thread) :
    Commutes Same (settleStep ctx account r p) (threadStep ctx idx account thread dispatch) :=
  threadStep_commutes (fun h => hne h.2) (fun _ => settleBatched_quiet ctx account p.key p.thread p.op _)

section Engine

variable {ctx : Ctx} {acct : ResidentActionAccount} {account : AccountId}
variable {useBulk : Bool} {w : World} {o : ThreadOp} {ops : List ThreadOp} {g : Gathered}
  {r : RemoteBatchKey → Except ActionError Unit} {key : RemoteBatchKey}
  {batches : List PendingRemote}

theorem engineDispatch_isSome (useBulk : Bool) (r : RemoteBatchKey → Except ActionError Unit)
    (thread : ThreadId) (rows : Rows) (known : List LabelId) (op : MailOperation) :
    (engineDispatch ctx acct account useBulk r thread rows known op).isSome := by
  obtain ⟨prepared, hprep⟩ :=
    Option.isSome_iff_exists.mp (prepare_isSome ctx acct account thread rows known useBulk op)
  unfold engineDispatch
  rw [hprep]
  cases prepared with
  | settled e => rfl
  | waiting key targets rows' known' =>
    exact settleBatched_isSome _ _ _ _ _ (prepare_waiting hprep).1 key (r key)

theorem gather_isSome (ctx : Ctx) (acct : ResidentActionAccount) (account : AccountId) (useBulk : Bool)
    (w : World) (ops : List ThreadOp) : (gather ctx acct account useBulk w ops).isSome := by
  induction ops generalizing w with
  | nil => rfl
  | cons o ops ih =>
    rw [gather]
    split
    · rw [Option.isSome_map]
      exact ih w
    rename_i w' _
    obtain ⟨prepared, hprep⟩ := Option.isSome_iff_exists.mp (prepare_isSome ctx acct account o.thread
      (w'.rows account o.thread) (w'.known account) useBulk o.op)
    rw [hprep]
    cases prepared with
    | settled e =>
      simp only [Option.isSome_map]
      exact ih _
    | waiting key targets rows known =>
      simp only [Option.isSome_map]
      exact ih _

theorem gather_cons (h : gather ctx acct account useBulk w (o :: ops) = some g) :
    (flightKey account o.thread ∈ w.inFlight ∧
      ∃ g', gather ctx acct account useBulk w ops = some g' ∧
        g = { g' with results := (o.idx, alreadyInFlight) :: g'.results }) ∨
    (flightKey account o.thread ∉ w.inFlight ∧ ∃ e g',
      prepare ctx acct account useBulk o.thread (w.rows account o.thread) (w.known account) o.op =
        some (.settled e) ∧
      gather ctx acct account useBulk
        ({ w with inFlight := insert (flightKey account o.thread) w.inFlight }.install ctx account
          o.thread e) ops = some g' ∧
      g = { g' with
        results := (o.idx, e.outcome) :: g'.results
        guards := o.thread :: g'.guards }) ∨
    (flightKey account o.thread ∉ w.inFlight ∧ ∃ key targets rows known g',
      prepare ctx acct account useBulk o.thread (w.rows account o.thread) (w.known account) o.op =
        some (.waiting key targets rows known) ∧
      gather ctx acct account useBulk
        (({ w with inFlight := insert (flightKey account o.thread) w.inFlight }.setRows account o.thread
          rows).setKnown account known) ops = some g' ∧
      g = { g' with
        remoteBatches := ⟨o.idx, o.thread, o.op, key, targets⟩ :: g'.remoteBatches
        guards := o.thread :: g'.guards }) := by
  rw [gather, tryAcquireFlight] at h
  by_cases hkey : flightKey account o.thread ∈ w.inFlight
  · rw [if_pos hkey] at h
    obtain ⟨g', hg', rfl⟩ := Option.map_eq_some_iff.mp h
    exact .inl ⟨hkey, g', hg', rfl⟩
  rw [if_neg hkey] at h
  simp only at h
  split at h
  · cases h
  · rename_i e hprep
    obtain ⟨g', hg', rfl⟩ := Option.map_eq_some_iff.mp h
    exact .inr (.inl ⟨hkey, e, g', hprep, hg', rfl⟩)
  · rename_i key targets rows known hprep
    obtain ⟨g', hg', rfl⟩ := Option.map_eq_some_iff.mp h
    exact .inr (.inr ⟨hkey, key, targets, rows, known, g', hprep, hg', rfl⟩)

theorem gather_threads (h : gather ctx acct account useBulk w ops = some g) :
    (g.remoteBatches.map PendingRemote.thread).Sublist (ops.map ThreadOp.thread) := by
  induction ops generalizing w g with
  | nil => cases h; exact .slnil
  | cons o ops ih =>
    rcases gather_cons h with ⟨-, g', hg, rfl⟩ | ⟨-, e, g', -, hg, rfl⟩ |
      ⟨-, key, targets, rows, known, g', -, hg, rfl⟩
    · exact (ih hg).cons _
    · exact (ih hg).cons _
    · exact (ih hg).cons_cons _

theorem gather_targets (h : gather ctx acct account useBulk w ops = some g) :
    ∀ p ∈ g.remoteBatches, p.targets ≠ [] := by
  induction ops generalizing w g with
  | nil => cases h; exact fun p hp => absurd hp not_mem_nil
  | cons o ops ih =>
    rcases gather_cons h with ⟨-, g', hg, rfl⟩ | ⟨-, e, g', -, hg, rfl⟩ |
      ⟨-, key, targets, rows, known, g', hprep, hg, rfl⟩
    · exact fun p hp => ih hg p hp
    · exact fun p hp => ih hg p hp
    · intro p hp
      rcases mem_cons.mp hp with rfl | hp
      · exact (prepare_waiting hprep).2
      · exact ih hg p hp

theorem gather_inFlight (h : gather ctx acct account useBulk w ops = some g) :
    g.world.inFlight = w.inFlight ∪ (g.guards.map (flightKey account)).toFinset ∧
      Disjoint w.inFlight (g.guards.map (flightKey account)).toFinset := by
  induction ops generalizing w g with
  | nil => cases h; simp
  | cons o ops ih =>
    rcases gather_cons h with ⟨-, g', hg, rfl⟩ | ⟨hfree, e, g', -, hg, rfl⟩ |
      ⟨hfree, key, targets, rows, known, g', -, hg, rfl⟩
    · obtain ⟨hunion, hdisjoint⟩ := ih hg
      exact ⟨hunion, hdisjoint⟩
    · obtain ⟨hunion, hdisjoint⟩ := ih hg
      simp only [install_inFlight, Finset.disjoint_insert_left] at hunion hdisjoint
      simp only [map_cons, toFinset_cons, Finset.disjoint_insert_right]
      refine ⟨?_, hfree, hdisjoint.2⟩
      rw [hunion, Finset.insert_union, Finset.union_insert]
    · obtain ⟨hunion, hdisjoint⟩ := ih hg
      simp only [World.setKnown, World.setRows, Finset.disjoint_insert_left] at hunion hdisjoint
      simp only [map_cons, toFinset_cons, Finset.disjoint_insert_right]
      refine ⟨?_, hfree, hdisjoint.2⟩
      rw [hunion, Finset.insert_union, Finset.union_insert]

theorem settleSteps_perm (ctx : Ctx) (account : AccountId)
    (r : RemoteBatchKey → Except ActionError Unit) {l l' : List PendingRemote}
    (hnodup : (l.map PendingRemote.thread).Nodup) (h : l.Perm l') (w : World) :
    Agree Same (runSteps (l.map (settleStep ctx account r)) w)
      (runSteps (l'.map (settleStep ctx account r)) w) := by
  refine Lib.agree_of_perm same_equivalence h (fun p _ => threadStep_respects _ _ _ _ _) ?_ w
  refine (pairwise_map.mp hnodup).imp ?_
  intro p q hne
  exact settleStep_commutes hne

/-- An operation that waits for its batch: its entry, run where the local half is done. -/
theorem waiting_agree {held inFlight : Finset String} {targets : List ObjectId} {rows : Rows}
    {known : List LabelId} (hfree : flightKey account o.thread ∉ held)
    (hprep : prepare ctx acct account useBulk o.thread (w.rows account o.thread) (w.known account) o.op =
      some (.waiting key targets rows known)) :
    Agree Same (opStep ctx held account (engineDispatch ctx acct account useBulk r) o w)
      (settleStep ctx account r ⟨o.idx, o.thread, o.op, key, targets⟩
        (({ w with inFlight := inFlight }.setRows account o.thread rows).setKnown account known)) := by
  simp only [opStep_free hfree, engineDispatch, settlePrepared, hprep, settleStep, threadStep, World.setKnown,
    World.setRows, and_self, if_true]
  cases settleBatched ctx account key o.thread rows known o.op (r key) with
  | none => exact .fail
  | some e =>
    refine .done ⟨?_, ?_, ?_⟩ (.refl _)
    · simp only [install_rows]
      funext a t
      split <;> rfl
    · simp only [install_known]
      funext a
      split <;> rfl
    · simp only [install_queue]
      exact .refl _

/-- The local halves first and the batch entries behind them agree with one operation after the other. -/
theorem gather_agree (r : RemoteBatchKey → Except ActionError Unit) (held : Finset String)
    (hnodup : (ops.map ThreadOp.thread).Nodup)
    (hheld : ∀ o ∈ ops, flightKey account o.thread ∈ w.inFlight ↔ flightKey account o.thread ∈ held)
    (h : gather ctx acct account useBulk w ops = some g) : Agree Same
      (runSteps (ops.map (opStep ctx held account (engineDispatch ctx acct account useBulk r))) w)
      (runSteps (emit g.results :: g.remoteBatches.map (settleStep ctx account r)) g.world) := by
  induction ops generalizing w g with
  | nil => cases h; exact .refl same_equivalence _
  | cons o ops ih =>
    have hrespects : ∀ f ∈ ops.map (opStep ctx held account
        (engineDispatch ctx acct account useBulk r)), Respects Same f := by
      intro f hf
      obtain ⟨o', -, rfl⟩ := mem_map.mp hf
      exact opStep_respects _ _ _ _ _
    obtain ⟨hfresh, hnodup'⟩ := nodup_cons.mp hnodup
    have hheld' := hheld o (mem_cons_self ..)
    -- a guard taken for this operation is no guard of the others
    have hothers : ∀ o' ∈ ops, flightKey account o'.thread ∈
        insert (flightKey account o.thread) w.inFlight ↔ flightKey account o'.thread ∈ held := by
      intro o' ho'
      have hne : flightKey account o'.thread ≠ flightKey account o.thread := by
        intro heq
        exact hfresh (flightKey_inj.mp heq ▸ mem_map_of_mem ho')
      rw [Finset.mem_insert, or_iff_right hne]
      exact hheld o' (mem_cons_of_mem _ ho')
    rcases gather_cons h with ⟨hkey, g', hg, rfl⟩ | ⟨hfree, e, g', hprep, hg, rfl⟩ |
      ⟨hfree, key, targets, rows, known, g', hprep, hg, rfl⟩
    · have htail := ih hnodup' (fun o' ho' => hheld o' (mem_cons_of_mem _ ho')) hg
      exact Lib.agree_emit (opStep_in_flight (hheld'.mp hkey) w) htail
    · have htail := ih hnodup' (by simpa only [install_inFlight] using hothers) hg
      have hstep : opStep ctx held account (engineDispatch ctx acct account useBulk r) o w =
          some (w.install ctx account o.thread e, [(o.idx, e.outcome)]) := by
        simp [opStep_free (fun hk => hfree (hheld'.mpr hk)), engineDispatch, settlePrepared, hprep]
      refine Lib.agree_emit hstep (.trans same_equivalence ?_ htail)
      refine Lib.agree_runSteps_of_related hrespects ?_
      exact same_install ⟨rfl, rfl, .refl _⟩ rfl
    · -- the entry runs at once, and may then be moved behind the rest
      let p : PendingRemote := ⟨o.idx, o.thread, o.op, key, targets⟩
      let w₁ := ({ w with inFlight := insert (flightKey account o.thread) w.inFlight }.setRows account
        o.thread rows).setKnown account known
      have htail := ih hnodup' hothers hg
      have hhead : Agree Same
          (opStep ctx held account (engineDispatch ctx acct account useBulk r) o w)
          (settleStep ctx account r p w₁) :=
        waiting_agree (fun hk => hfree (hheld'.mpr hk)) hprep
      have hmove := Lib.agree_move_last same_equivalence hrespects (f := settleStep ctx account r p)
        (fun f hf => by
          obtain ⟨o', ho', rfl⟩ := mem_map.mp hf
          refine settleStep_commutes ?_
          intro (heq : o.thread = o'.thread)
          exact hfresh (heq ▸ mem_map_of_mem ho')) w₁
      have hlast : ∀ f ∈ [settleStep ctx account r p], Respects Same f := by
        intro f hf
        rw [mem_singleton.mp hf]
        exact threadStep_respects _ _ _ _ _
      refine (Lib.agree_step hhead fun _ _ hst => Lib.agree_runSteps_of_related hrespects hst).trans
        same_equivalence (hmove.trans same_equivalence ((htail.append hlast).trans same_equivalence ?_))
      refine Lib.agree_cons (fun v => ?_) _
      have hthreads : ((g'.remoteBatches ++ [p]).map PendingRemote.thread).Nodup := by
        have hsub := gather_threads hg
        rw [map_append, nodup_append_comm]
        exact nodup_cons.mpr ⟨fun hp => hfresh (hsub.subset hp), hsub.nodup hnodup'⟩
      have hperm := settleSteps_perm ctx account r hthreads
        (perm_append_singleton p g'.remoteBatches) v
      rwa [map_append] at hperm

theorem settleEntries_eq {pending : List PendingRemote} (hkey : ∀ p ∈ pending, p.key = key) (w : World) :
    settleEntries ctx account (r key) w pending = runSteps (pending.map (settleStep ctx account r)) w := by
  induction pending generalizing w with
  | nil => rfl
  | cons p pending ih =>
    have hp := hkey p (mem_cons_self ..)
    have htail := ih (fun q hq => hkey q (mem_cons_of_mem _ hq))
    rw [settleEntries, map_cons, runSteps, settleStep, threadStep, hp]
    cases settleBatched ctx account key p.thread (w.rows account p.thread) (w.known account) p.op
        (r key) with
    | none => rfl
    | some e =>
      simp only [htail]
      rfl

theorem sendBatches_agree (keys : List RemoteBatchKey)
    (hr : ∀ key ∈ keys, ∃ remote, dispatchBulkMutation ctx acct account key
      ((batches.filter (fun p => p.key = key)).flatMap PendingRemote.targets) .personal = some remote ∧
        remote.result = r key) (w : World) : Agree Same (sendBatches ctx acct account batches w keys)
      (runSteps ((keys.flatMap (fun key => batches.filter (fun p => p.key = key))).map
        (settleStep ctx account r)) w) := by
  induction keys generalizing w with
  | nil => exact .refl same_equivalence _
  | cons key keys ih =>
    obtain ⟨remote, hremote, hresult⟩ := hr key (mem_cons_self ..)
    have hkeys : ∀ p ∈ batches.filter (fun p => p.key = key), p.key = key := by
      intro p hp
      simpa using (mem_filter.mp hp).2
    have hrespects : ∀ l : List PendingRemote, ∀ f ∈ l.map (settleStep ctx account r),
        Respects Same f := by
      intro l f hf
      obtain ⟨p, -, rfl⟩ := mem_map.mp hf
      exact threadStep_respects _ _ _ _ _
    rw [sendBatches, hremote, flatMap_cons, map_append]
    simp only [hresult, settleEntries_eq hkeys]
    -- the calls are on the record only
    have hrecord : Same (w.record account remote.issued) w := ⟨rfl, rfl, .refl _⟩
    have hpending := Lib.agree_runSteps_of_related
      (hrespects (batches.filter (fun p => p.key = key))) hrecord
    have hseq := hpending.andThen same_equivalence (hrespects _) (fun v _ _ =>
      ih (fun key' hkey' => hr key' (mem_cons_of_mem _ hkey')) v)
    cases hx : runSteps ((batches.filter (fun p => p.key = key)).map (settleStep ctx account r))
        (w.record account remote.issued) with
    | none => rwa [hx] at hseq
    | some q => rwa [hx] at hseq

/-- Every result is one that the engine gives for some messages. -/
def Sent (ctx : Ctx) (acct : ResidentActionAccount) (account : AccountId)
    (r : RemoteBatchKey → Except ActionError Unit) : Prop :=
  ∀ key, ∃ targets remote, targets ≠ [] ∧
    dispatchBulkMutation ctx acct account key targets .personal = some remote ∧ remote.result = r key

/-- The results of the batches of a group; a key without a batch gets that of some message. -/
theorem exists_sent (ctx : Ctx) (acct : ResidentActionAccount) (account : AccountId)
    (htargets : ∀ p ∈ batches, p.targets ≠ []) :
    ∃ r, Sent ctx acct account r ∧ ∀ key ∈ batches.map PendingRemote.key,
      ∃ remote, dispatchBulkMutation ctx acct account key
        ((batches.filter (fun p => p.key = key)).flatMap PendingRemote.targets) .personal = some remote ∧
          remote.result = r key := by
  have hkey : ∀ key, ∃ v, (∃ targets remote, targets ≠ [] ∧
      dispatchBulkMutation ctx acct account key targets .personal = some remote ∧ remote.result = v) ∧
      (key ∈ batches.map PendingRemote.key → ∃ remote, dispatchBulkMutation ctx acct account key
        ((batches.filter (fun p => p.key = key)).flatMap PendingRemote.targets) .personal = some remote ∧
          remote.result = v) := by
    intro key
    by_cases hmem : key ∈ batches.map PendingRemote.key
    · obtain ⟨remote, hremote⟩ := Option.isSome_iff_exists.mp (dispatchBulkMutation_isSome ctx acct
        account key ((batches.filter (fun p => p.key = key)).flatMap PendingRemote.targets) .personal)
      refine ⟨remote.result, ⟨_, remote, ?_, hremote, rfl⟩, fun _ => ⟨remote, hremote, rfl⟩⟩
      obtain ⟨p, hp, rfl⟩ := mem_map.mp hmem
      intro hnil
      exact htargets p hp (flatMap_eq_nil_iff.mp hnil p (mem_filter.mpr ⟨hp, by simp⟩))
    · obtain ⟨remote, hremote⟩ := Option.isSome_iff_exists.mp
        (dispatchBulkMutation_isSome ctx acct account key [""] .personal)
      exact ⟨remote.result, ⟨_, remote, cons_ne_nil _ _, hremote, rfl⟩, fun h => absurd h hmem⟩
  choose r hsent hbatch using hkey
  exact ⟨r, hsent, hbatch⟩

theorem settleSteps_grouped (ctx : Ctx) (account : AccountId)
    (r : RemoteBatchKey → Except ActionError Unit) {keys : List RemoteBatchKey}
    (hthreads : (batches.map PendingRemote.thread).Nodup) (hkeys : keys.Nodup)
    (hcover : ∀ p ∈ batches, p.key ∈ keys) (w : World) :
    Agree Same (runSteps (batches.map (settleStep ctx account r)) w)
      (runSteps ((keys.flatMap (fun key => batches.filter (fun p => p.key = key))).map
        (settleStep ctx account r)) w) := by
  refine Lib.agree_grouped same_equivalence (settleStep ctx account r) PendingRemote.key hkeys hcover
    (fun p _ => threadStep_respects _ _ _ _ _) ?_ w
  intro p hp q hq hne
  refine settleStep_commutes fun hthread => hne ?_
  rw [inj_on_of_nodup_map hthreads hp hq hthread]

theorem same_releaseAll (w : World) (account : AccountId) (threads : List ThreadId) :
    Same (releaseAll w account threads) w := by
  induction threads generalizing w with
  | nil => exact same_equivalence.refl w
  | cons thread threads ih =>
    exact same_equivalence.trans (ih (releaseFlight w account thread)) ⟨rfl, rfl, .refl _⟩

theorem executeWithEngine_agree (ctx : Ctx) (acct : ResidentActionAccount) (account : AccountId)
    (w : World) (hnodup : (ops.map ThreadOp.thread).Nodup) :
    ∃ r, Sent ctx acct account r ∧ Agree Same (executeWithEngine ctx acct account w ops)
      (runSteps (ops.map (opStep ctx w.inFlight account
        (engineDispatch ctx acct account (1 < ops.length) r))) w) := by
  obtain ⟨g, hg⟩ :=
    Option.isSome_iff_exists.mp (gather_isSome ctx acct account (1 < ops.length) w ops)
  obtain ⟨r, hsent, hbatch⟩ := exists_sent ctx acct account (gather_targets hg)
  refine ⟨r, hsent, ?_⟩
  have hgather := gather_agree r w.inFlight hnodup (fun _ _ => Iff.rfl) hg
  refine Agree.trans same_equivalence ?_ (hgather.symm same_equivalence)
  have hperm := ctx.batchOrder.perm (g.remoteBatches.map PendingRemote.key).dedup
  have hsend := sendBatches_agree
    (ctx.batchOrder.order (g.remoteBatches.map PendingRemote.key).dedup)
    (fun key hkey => hbatch key (mem_dedup.mp (hperm.mem_iff.mp hkey))) g.world
  have hentries := settleSteps_grouped ctx account r ((gather_threads hg).nodup hnodup)
    (hperm.nodup_iff.mpr (nodup_dedup _))
    (fun p hp => hperm.mem_iff.mpr (mem_dedup.mpr (mem_map_of_mem hp))) g.world
  have hrest := hsend.trans same_equivalence (hentries.symm same_equivalence)
  simp only [executeWithEngine, hg, Lib.runSteps_emit]
  revert hrest
  generalize sendBatches ctx acct account g.remoteBatches g.world
    (ctx.batchOrder.order (g.remoteBatches.map PendingRemote.key).dedup) = sent
  generalize runSteps (g.remoteBatches.map (settleStep ctx account r)) g.world = settled
  intro hrest
  cases hrest with
  | fail => exact .fail
  | done hs hr => exact .done (same_equivalence.trans (same_releaseAll _ _ _) hs) (hr.append_left _)

end Engine

end Ratatoskr.Actions

import Ratatoskr.Actions.Batch
import Ratatoskr.Lib.Commute

/-!
# Actions.Steps

A dispatch on one thread as a step of the world. Two worlds count as the same when their local rows are
and their queues hold the same operations; the record of the calls and the guards are left out. Steps of
different threads commute where they are of different accounts or one of them leaves the label rows of
the account alone.
-/

namespace Ratatoskr.Actions

open Lib (Step runSteps Agree Respects Commutes)

variable {queue queue' : List PendingOperation} {ctx : Ctx} {account account' : AccountId}
  {thread thread' : ThreadId} {held : Finset String} {o : ThreadOp}

/-- The same local rows and the same queued operations, the queue in some order. -/
structure Same (w v : World) : Prop where
  rows : w.rows = v.rows
  known : w.known = v.known
  queue : w.queue.Perm v.queue

theorem same_equivalence : Equivalence Same where
  refl _ := ⟨rfl, rfl, .refl _⟩
  symm h := ⟨h.rows.symm, h.known.symm, h.queue.symm⟩
  trans h h' := ⟨h.rows.trans h'.rows, h.known.trans h'.known, h.queue.trans h'.queue⟩

def queueWith (ctx : Ctx) (account : AccountId) (thread : ThreadId) (queue : List PendingOperation) :
    Option (String × Params) → List PendingOperation
  | none => queue
  | some entry => dbPendingOpsEnqueue queue (queuedRow ctx account thread entry)

section Install

variable (w : World) (ctx : Ctx) (account : AccountId) (thread : ThreadId) (e : Effect)

@[simp] theorem install_rows : (w.install ctx account thread e).rows =
    fun a t => if a = account ∧ t = thread then e.rows else w.rows a t := by
  rw [World.install]
  cases e.queued <;> rfl

@[simp] theorem install_known : (w.install ctx account thread e).known =
    fun a => if a = account then e.known else w.known a := by
  rw [World.install]
  cases e.queued <;> rfl

@[simp] theorem install_queue : (w.install ctx account thread e).queue =
    queueWith ctx account thread w.queue e.queued := by
  rw [World.install]
  cases e.queued <;> rfl

@[simp] theorem install_inFlight : (w.install ctx account thread e).inFlight = w.inFlight := by
  rw [World.install]
  cases e.queued <;> rfl

/-- Nothing happens where the rows stay as they are and nothing is queued or issued. -/
theorem install_untouched (outcome : ActionOutcome) :
    w.install ctx account thread (.untouched outcome (w.rows account thread) (w.known account)) = w := by
  have hrows : (fun a t => if a = account ∧ t = thread then w.rows account thread else w.rows a t) =
      w.rows := by
    funext a t
    split
    · rename_i h
      rw [h.1, h.2]
    · rfl
  have hknown : (fun a => if a = account then w.known account else w.known a) = w.known := by
    funext a
    split
    · rename_i h
      rw [h]
    · rfl
  simp [World.install, World.record, World.setRows, World.setKnown, World.enqueue, Effect.untouched,
    hrows, hknown]

end Install

theorem dbPendingOpsEnqueue_perm (row : PendingOperation) (h : queue.Perm queue') :
    (dbPendingOpsEnqueue queue row).Perm (dbPendingOpsEnqueue queue' row) :=
  (h.filter _).append_right _

theorem queueWith_perm (queued : Option (String × Params)) (h : queue.Perm queue') :
    (queueWith ctx account thread queue queued).Perm (queueWith ctx account thread queue' queued) := by
  cases queued with
  | none => exact h
  | some entry => exact dbPendingOpsEnqueue_perm _ h

theorem dbPendingOpsEnqueue_comm {row row' : PendingOperation} (queue : List PendingOperation)
    (h : ¬ (row.accountId = row'.accountId ∧ row.resourceId = row'.resourceId)) :
    (dbPendingOpsEnqueue (dbPendingOpsEnqueue queue row) row').Perm
      (dbPendingOpsEnqueue (dbPendingOpsEnqueue queue row') row) := by
  have hrow : displaces row' row = false := by
    simp only [displaces, decide_eq_false_iff_not]
    exact fun hd => h ⟨hd.1, hd.2.1⟩
  have hrow' : displaces row row' = false := by
    simp only [displaces, decide_eq_false_iff_not]
    exact fun hd => h ⟨hd.1.symm, hd.2.1.symm⟩
  simp only [dbPendingOpsEnqueue, List.filter_append, List.filter_filter, List.append_assoc]
  rw [List.filter_cons_of_pos (by simp [hrow]), List.filter_cons_of_pos (by simp [hrow'])]
  simp only [Bool.and_comm]
  exact List.Perm.append_left _ (List.Perm.swap ..)

theorem queueWith_comm (queue : List PendingOperation) (queued queued' : Option (String × Params))
    (h : ¬ (account = account' ∧ thread = thread')) :
    (queueWith ctx account' thread' (queueWith ctx account thread queue queued) queued').Perm
      (queueWith ctx account thread (queueWith ctx account' thread' queue queued') queued) := by
  cases queued with
  | none => exact .refl _
  | some entry =>
    cases queued' with
    | none => exact .refl _
    | some entry' => exact dbPendingOpsEnqueue_comm queue h

abbrev Dispatch := Rows → List LabelId → Option Effect

def threadStep (ctx : Ctx) (idx : Nat) (account : AccountId) (thread : ThreadId) (dispatch : Dispatch) :
    Step World (Nat × ActionOutcome) := fun w =>
  (dispatch (w.rows account thread) (w.known account)).map (fun e =>
    (w.install ctx account thread e, [(idx, e.outcome)]))

def Effect.silent (e : Effect) : Effect := { e with issued := [] }

theorem same_install {w v : World} {e e' : Effect} (h : Same w v) (he : e.silent = e'.silent) :
    Same (w.install ctx account thread e) (v.install ctx account thread e') := by
  simp only [Effect.silent, Effect.mk.injEq] at he
  obtain ⟨-, hrows, hknown, hqueued⟩ := he
  refine ⟨?_, ?_, ?_⟩
  · simp [h.rows, hrows]
  · simp [h.known, hknown]
  · simp only [install_queue, hqueued]
    exact queueWith_perm _ h.queue

variable {dispatch dispatch' : Dispatch}

theorem agree_threadStep {idx : Nat}
    (hd : ∀ rows known, (dispatch rows known).map Effect.silent = (dispatch' rows known).map Effect.silent)
    {w v : World} (h : Same w v) : Agree Same (threadStep ctx idx account thread dispatch w)
      (threadStep ctx idx account thread dispatch' v) := by
  have hd := hd (w.rows account thread) (w.known account)
  simp only [threadStep, ← h.rows, ← h.known]
  cases he : dispatch (w.rows account thread) (w.known account) with
  | none =>
    cases he' : dispatch' (w.rows account thread) (w.known account) with
    | none => exact .fail
    | some e' => simp [he, he'] at hd
  | some e =>
    cases he' : dispatch' (w.rows account thread) (w.known account) with
    | none => simp [he, he'] at hd
    | some e' =>
      simp only [he, he', Option.map_some, Option.some.injEq] at hd
      have houtcome : e.silent.outcome = e'.silent.outcome := by rw [hd]
      have houtcome : e.outcome = e'.outcome := houtcome
      refine .done (same_install h hd) ?_
      rw [houtcome]

theorem threadStep_respects (ctx : Ctx) (idx : Nat) (account : AccountId) (thread : ThreadId)
    (dispatch : Dispatch) : Respects Same (threadStep ctx idx account thread dispatch) :=
  fun _ _ h => agree_threadStep (fun _ _ => rfl) h

/-- The dispatch hands the label rows through, whatever they are. -/
def Quiet (dispatch : Dispatch) : Prop :=
  ∀ rows known known',
    dispatch rows known' = (dispatch rows known).map (fun e => { e with known := known' })

/-- Steps of different threads commute where they are of different accounts or the first leaves the label
rows alone. -/
theorem threadStep_commutes {idx idx' : Nat} (hne : ¬ (account = account' ∧ thread = thread'))
    (hquiet : account = account' → Quiet dispatch) :
    Commutes Same (threadStep ctx idx account thread dispatch)
      (threadStep ctx idx' account' thread' dispatch') := by
  intro w
  have hne' : ¬ (account' = account ∧ thread' = thread) := fun h => hne ⟨h.1.symm, h.2.symm⟩
  -- the first leaves the label rows of the second alone
  have hknown : ∀ e, dispatch (w.rows account thread) (w.known account) = some e →
      (if account' = account then e.known else w.known account') = w.known account' := by
    intro e he
    split
    · rename_i h
      have hq := hquiet h.symm (w.rows account thread) (w.known account) (w.known account)
      rw [he] at hq
      simp only [Option.map_some, Option.some.injEq] at hq
      rw [h]
      exact congrArg Effect.known hq
    · rfl
  -- and does the same behind the second, but for the label rows it hands through
  have hbehind : ∀ known, dispatch (w.rows account thread) (if account = account' then known else
      w.known account) = (dispatch (w.rows account thread) (w.known account)).map (fun e =>
        { e with known := if account = account' then known else e.known }) := by
    intro known
    split
    · rename_i h
      exact hquiet h _ _ _
    · simp
  simp only [runSteps, threadStep]
  cases he : dispatch (w.rows account thread) (w.known account) with
  | none =>
    cases he' : dispatch' (w.rows account' thread') (w.known account') with
    | none => exact .fail
    | some e' =>
      simp only [Option.map_some, install_rows, install_known, hne, if_false, hbehind, he]
      exact .fail
  | some e =>
    simp only [Option.map_some, install_rows, install_known, hne', if_false, hknown e he]
    cases he' : dispatch' (w.rows account' thread') (w.known account') with
    | none => exact .fail
    | some e' =>
      simp only [Option.map_some, install_rows, install_known, hne, if_false, hbehind, he]
      refine .done ⟨?_, ?_, ?_⟩ (List.Perm.swap ..)
      · funext a t
        by_cases h : a = account ∧ t = thread
        · obtain ⟨rfl, rfl⟩ := h
          simp [hne]
        · simp [h]
      · funext a
        by_cases h : a = account
        · subst h
          by_cases h' : a = account'
          · simp [h']
          · simp [h']
        · simp [h]
      · simp only [install_queue]
        exact queueWith_comm w.queue e.queued e'.queued hne

/-- A dispatch behind its flight guard, while others hold the guards `held`. -/
def guarded (held : Finset String) (account : AccountId) (thread : ThreadId) (dispatch : Dispatch) :
    Dispatch := fun rows known =>
  if flightKey account thread ∈ held then some (.untouched alreadyInFlight rows known)
  else dispatch rows known

abbrev OpDispatch := ThreadId → Rows → List LabelId → MailOperation → Option Effect

def opStep (ctx : Ctx) (held : Finset String) (account : AccountId) (dispatch : OpDispatch)
    (o : ThreadOp) : Step World (Nat × ActionOutcome) :=
  threadStep ctx o.idx account o.thread
    (guarded held account o.thread (fun rows known => dispatch o.thread rows known o.op))

theorem opStep_respects (ctx : Ctx) (held : Finset String) (account : AccountId)
    (dispatch : OpDispatch) (o : ThreadOp) : Respects Same (opStep ctx held account dispatch o) :=
  threadStep_respects ctx o.idx account o.thread _

theorem opStep_in_flight {dispatch : OpDispatch} (h : flightKey account o.thread ∈ held)
    (w : World) : opStep ctx held account dispatch o w = some (w, [(o.idx, alreadyInFlight)]) := by
  simp only [opStep, threadStep, guarded, if_pos h, Option.map_some, install_untouched]
  rfl

theorem opStep_free {dispatch : OpDispatch} (h : flightKey account o.thread ∉ held) (w : World) :
    opStep ctx held account dispatch o w =
      (dispatch o.thread (w.rows account o.thread) (w.known account) o.op).map (fun e =>
        (w.install ctx account o.thread e, [(o.idx, e.outcome)])) := by
  simp [opStep, threadStep, guarded, if_neg h]

theorem guardedEach_eq (ctx : Ctx) (account : AccountId) (dispatch : OpDispatch) (w : World)
    (ops : List ThreadOp) : guardedEach ctx account dispatch w ops =
      runSteps (ops.map (opStep ctx w.inFlight account dispatch)) w := by
  induction ops generalizing w with
  | nil => rfl
  | cons o ops ih =>
    rw [guardedEach, List.map_cons, runSteps, tryAcquireFlight]
    by_cases h : flightKey account o.thread ∈ w.inFlight
    · simp only [if_pos h, opStep_in_flight h, ih]
      rfl
    simp only [if_neg h, opStep_free h]
    cases dispatch o.thread (w.rows account o.thread) (w.known account) o.op with
    | none => rfl
    | some e =>
      simp only [install_release e h, ih, install_inFlight]
      rfl

end Ratatoskr.Actions

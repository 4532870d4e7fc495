import Ratatoskr.Actions.Drain
import Ratatoskr.Lib.Run

/-!
# Actions.Intent

Runs of user actions on one thread, each with its own answer from the provider, with drains between
them. The provider's state is what the accepted calls made of it; beside it runs the state that every
action would have given that did not fail for good.

* `dispatchWithEngine_delivers` : what one dispatch sends, when nothing is to be retried.
* `provider_is_intent` : along such runs the provider has what the user asked for.
* `two_labels_lost` : a run with two retryable failures, after which it has neither.
-/

namespace Ratatoskr.Actions

open List

inductive UserAction where
  | star (value : Bool)
  | read (value : Bool)
  | spam (value : Bool)
  | move (dest : FolderId) (source : Option FolderId)
  | label (labelId : LabelId) (add : Bool)
  | group (groupId : Int) (apply : Bool)

def UserAction.operation : UserAction → MailOperation
  | .star value => .setStarred value
  | .read value => .setRead value
  | .spam value => .setSpam value
  | .move dest source => .moveToFolder dest source
  | .label labelId true => .addLabel labelId
  | .label labelId false => .removeLabel labelId
  | .group groupId true => .applyLabelGroup groupId
  | .group groupId false => .removeLabelGroup groupId

/-- The calls for one label of a group; a label of no known kind has none. -/
def memberCalls (ctx : Ctx) (account : AccountId) (add : Bool) (ids : List ObjectId)
    (label : LabelId) : List EngineCall :=
  match labelKindForAccount ctx account label with
  | .ok kind => labelCalls kind add ids
  | .error _ => []

def moveCalls (acct : ResidentActionAccount) (ids : List ObjectId) (ns : NamespaceAttribution)
    (op : ContainerMoveOp) : Except ActionError (List EngineCall) :=
  match resolvePlan acct op ns with
  | some (.ok plan) => .ok (planCalls ids plan)
  | some (.error e) => .error e
  | none => .error (.invalidState "no destination role")

def callsOf (ctx : Ctx) (acct : ResidentActionAccount) (account : AccountId) (thread : ThreadId)
    (rows : Rows) (ns : NamespaceAttribution) (ids : List ObjectId) :
    UserAction → Except ActionError (List EngineCall)
  | .star value => .ok [.bulkSetFlags ids (starredFlag acct.provider) value]
  | .read value => .ok [.bulkSetFlags ids (seenFlag acct.provider) value]
  | .spam value => moveCalls acct ids ns (.spam value)
  | .move dest source => moveCalls acct ids ns (.moveToFolder dest source)
  | .label labelId add =>
    match labelKindForAccount ctx account labelId with
    | .error e => .error (.db e)
    | .ok kind => .ok (labelCalls kind add ids)
  | .group groupId apply =>
    .ok ((groupLabels ctx account thread rows groupId apply).flatMap (memberCalls ctx account apply ids))

/-- The calls that an action stands for in the rows it meets, or what keeps them from being made. -/
def requests (ctx : Ctx) (acct : ResidentActionAccount) (account : AccountId) (thread : ThreadId)
    (rows : Rows) (action : UserAction) : Except ActionError (List EngineCall) :=
  match namespacePreflight ctx account thread rows action.operation with
  | some (.ok ns) =>
    match resolveThreadMessages ctx account thread rows acct.provider with
    | .error e => .error e
    | .ok ids => callsOf ctx acct account thread rows ns ids action
  | some (.error e) => .error e
  | none => .error (.invalidState "public returns above")

def requested : Except ActionError (List EngineCall) → List EngineCall
  | .ok calls => calls
  | .error _ => []

def ActionOutcome.terminal : ActionOutcome → Bool
  | .failed _ => true
  | .localOnly _ retryable => !retryable
  | _ => false

inductive Event where
  /-- whether the engine can be had, and the answer the provider then gives to every call of the action;
  `opId` is the id it would be queued by -/
  | action (engine : Except String Unit) (answer : Except ActionError Unit) (opId : String) (now : Int)
      (action : UserAction)
  | drain (now : Int)

/-- `intent` is the provider's state as the user left it. -/
structure Session (P : Type) where
  world : World
  intent : P

section Sessions

variable {P : Type} (accept : EngineCall → P → P) (p₀ : P) (base : Ctx)
  (acct : ResidentActionAccount) (account : AccountId) (thread : ThreadId)

def acceptAll (calls : List EngineCall) (p : P) : P := calls.foldl (fun p call => accept call p) p

def accepted (issued : List Issued) : List EngineCall :=
  (issued.filter Prod.snd).map Prod.fst

/-- The state that the accepted calls on the account left at the provider. -/
def providerState (w : World) : P :=
  acceptAll accept (accepted ((w.issued.filter (fun i => i.1 = account)).map Prod.snd)) p₀

def actionCtx (engine : Except String Unit) (answer : Except ActionError Unit) (opId : String)
    (now : Int) : Ctx :=
  { base with
    suppressPendingEnqueue := false
    syncRuntime := some (fun _ => engine.map (fun _ => acct))
    answer := fun _ _ => answer
    opId := fun _ _ => opId
    now := now }

def drainCtx (now : Int) : Ctx :=
  { base with
    syncRuntime := some (fun _ => .ok acct)
    answer := fun _ _ => .ok ()
    now := now }

/-- The intent after an action that met these rows and ended so. -/
def intentAfter (rows : Rows) (action : UserAction) (outcome : ActionOutcome) (p : P) : P :=
  if outcome.terminal then p
  else acceptAll accept (requested (requests base acct account thread rows action)) p

def Session.step (s : Session P) : Event → Except Unit (Session P)
  | .action engine answer opId now action =>
    match batchExecute (actionCtx base acct engine answer opId now) s.world
        [(account, thread, action.operation)] with
    | none => .error ()
    | some (w, outcomes) =>
      .ok ⟨w, intentAfter accept base acct account thread (s.world.rows account thread) action
        (outcomes.getLast?.getD reassemblyBug) s.intent⟩
  | .drain now =>
    match processPendingOps (drainCtx base acct now) s.world with
    | none => .error ()
    | some w => .ok { s with world := w }

def QueueEmpty (w : World) : Prop := ∀ row ∈ w.queue, row.live = false

/-- Once the queue is empty, the provider has what the user asked for. -/
def IntentKept (s : Session P) : Prop :=
  QueueEmpty s.world → providerState accept p₀ account s.world = s.intent

/-- Nothing about the action is to be retried: the engine is there, the provider accepts or refuses for
good, the calls can be made out or never will be, and the labels of a group are labels of the account. -/
structure Unretried (w : World) (engine : Except String Unit) (answer : Except ActionError Unit)
    (action : UserAction) : Prop where
  resident : engine = .ok ()
  answered : ∀ e, answer = .error e → e.isRetryable = false
  resolved : ∀ e, requests base acct account thread (w.rows account thread) action = .error e →
    e.isRetryable = false
  members : base.dbError account thread .memberKind = none ∧
    ∀ groupId apply, action = .group groupId apply →
      ∀ label ∈ base.groupMembers account groupId, ∃ kind, labelKindForAccount base account label = .ok kind

/-- The steps of a run in which no action has to be retried. -/
def Settles (s : Session P) : Event → Prop
  | .action engine answer _ _ action => Unretried base acct account thread s.world engine answer action
  | .drain _ => True

end Sessions

/-! ## One dispatch -/

/-- A dispatch that failed for good sent nothing; any other sent what was asked for. -/
def Delivers (request : Except ActionError (List EngineCall)) (outcome : ActionOutcome)
    (issued : List Issued) : Prop :=
  (outcome.terminal = true ∧ accepted issued = []) ∨
    (outcome.terminal = false ∧ accepted issued = requested request)

section Dispatch

variable {ctx : Ctx} {acct : ResidentActionAccount} {account : AccountId} {thread : ThreadId}
  {rows : Rows} {known : List LabelId} {answer : Except ActionError Unit}
variable {e : ActionError} {rows' : Rows} {provider : BifrostProviderKind}
  {request : Except ActionError (List EngineCall)} {known' : List LabelId} {label : LabelId}
  {ids : List ObjectId} {tally : MemberTally} {outcome : ActionOutcome} {op : MailOperation}
  {ns : NamespaceAttribution} {action : UserAction}

theorem issueAll_cases (hanswer : ∀ call, ctx.answer account call = answer) (calls : List EngineCall) :
    ((issueAll ctx account calls).result = .ok () ∧ accepted (issueAll ctx account calls).issued = calls) ∨
    (∃ e, answer = .error e ∧ (issueAll ctx account calls).result = .error e ∧
      accepted (issueAll ctx account calls).issued = []) := by
  induction calls with
  | nil => exact .inl ⟨rfl, rfl⟩
  | cons call calls ih =>
    rw [issueAll, hanswer call]
    cases answer with
    | error e => exact .inr ⟨e, rfl, rfl, rfl⟩
    | ok u =>
      rcases ih with ⟨hresult, hissued⟩ | ⟨e, he, _⟩
      · refine .inl ⟨hresult, ?_⟩
        simp only [accepted, filter_cons_of_pos, map_cons] at hissued ⊢
        rw [hissued]
      · cases he

theorem issueAll_delivers (hanswer : ∀ call, ctx.answer account call = answer)
    (hfinal : ∀ e, answer = .error e → e.isRetryable = false) (calls : List EngineCall) :
    Delivers (.ok calls) (outcomeFromRemoteResult (issueAll ctx account calls).result)
      (issueAll ctx account calls).issued := by
  rcases issueAll_cases hanswer calls with ⟨hresult, hissued⟩ | ⟨e, he, hresult, hissued⟩
  · rw [hresult]
    exact .inr ⟨rfl, hissued⟩
  · rw [hresult]
    refine .inl ⟨?_, hissued⟩
    simp [outcomeFromRemoteResult, ActionOutcome.terminal, hfinal e he]

theorem delivers_failed (request : Except ActionError (List EngineCall)) (e : ActionError) :
    Delivers request (.failed e) [] := .inl ⟨rfl, rfl⟩

theorem delivers_localOnly (request : Except ActionError (List EngineCall))
    (h : e.isRetryable = false) : Delivers request (.localOnly e e.isRetryable) [] :=
  .inl ⟨by simp [ActionOutcome.terminal, h], rfl⟩

theorem objectIdsOf_map (provider : BifrostProviderKind) (f : MessageRow → MessageRow)
    (hf : ∀ m, objectIdOf provider (f m) = objectIdOf provider m) (ms : List MessageRow) :
    objectIdsOf provider (ms.map f) = objectIdsOf provider ms := by
  induction ms with
  | nil => rfl
  | cons m ms ih => simp [objectIdsOf, hf m, ih]

theorem resolveThreadMessages_congr (h : rows'.messages = rows.messages) :
    resolveThreadMessages ctx account thread rows' provider =
      resolveThreadMessages ctx account thread rows provider := by
  simp [resolveThreadMessages, h]

theorem resolveThreadMessages_map {f : MessageRow → MessageRow}
    (hf : ∀ m, objectIdOf provider (f m) = objectIdOf provider m) (h : rows'.messages = rows.messages.map f) :
    resolveThreadMessages ctx account thread rows' provider =
      resolveThreadMessages ctx account thread rows provider := by
  simp [resolveThreadMessages, h, objectIdsOf_map provider f hf]

/-- Whether an action failed for good is decided by the provider's answer, not by the confirmation. -/
theorem labelOutcome_terminal (rows : Rows) (intents : List Labels.PendingLabelIntent)
    (result : Except ActionError Unit) : (labelOutcome ctx account thread rows intents result).2.terminal =
      (outcomeFromRemoteResult result).terminal := by
  cases result with
  | error e => rfl
  | ok u =>
    simp only [labelOutcome, confirmProviderIntents]
    cases ctx.dbError account thread .confirm <;> rfl

theorem Delivers.congr {o o' : ActionOutcome} {issued : List Issued}
    (h : Delivers request o issued) (ho : o'.terminal = o.terminal) : Delivers request o' issued := by
  unfold Delivers
  rw [ho]
  exact h

theorem labelRemote_delivers (hanswer : ∀ call, ctx.answer account call = answer)
    (hfinal : ∀ e, answer = .error e → e.isRetryable = false) (step : LocalLabelStep) (add : Bool)
    (hrequest : request = (resolveThreadMessages ctx account thread rows acct.provider).map
      (labelCalls step.labelKind add)) (hretry : ∀ e, request = .error e → e.isRetryable = false) :
    Delivers request (labelRemote ctx (some acct) account thread rows step add).2.1
      (labelRemote ctx (some acct) account thread rows step add).2.2 := by
  simp only [labelRemote]
  cases hids : resolveThreadMessages ctx account thread rows acct.provider with
  | error e =>
    rw [hids] at hrequest
    exact delivers_localOnly request (hretry e hrequest)
  | ok ids =>
    rw [hids] at hrequest
    rw [hrequest]
    exact (issueAll_delivers hanswer hfinal (labelCalls step.labelKind add ids)).congr
      (labelOutcome_terminal _ _ _)

theorem labelLocalStep_ok {op : Labels.PendingLabelIntentOp} {step : LocalLabelStep}
    (h : labelLocalStep ctx account thread rows known label op = (rows', known', .ok step)) :
    labelKindForAccount ctx account label = .ok step.labelKind ∧ rows'.messages = rows.messages := by
  unfold labelLocalStep at h
  split at h
  · cases h
  split at h
  · cases h
  rename_i kind hkind
  split at h
  · cases h
  simp only at h
  split at h
  · cases h
  · cases h
    exact ⟨hkind, rfl⟩

theorem dispatchLabelViaEngine_delivers (hanswer : ∀ call, ctx.answer account call = answer)
    (hfinal : ∀ e, answer = .error e → e.isRetryable = false) (label : LabelId) (add : Bool)
    (hrequest : ∀ kind, labelKindForAccount ctx account label = .ok kind → request =
      (resolveThreadMessages ctx account thread rows acct.provider).map (labelCalls kind add))
    (hretry : ∀ e, request = .error e → e.isRetryable = false) : Delivers request
      (dispatchLabelViaEngine ctx (some acct) account thread rows known label add).outcome
      (dispatchLabelViaEngine ctx (some acct) account thread rows known label add).issued := by
  unfold dispatchLabelViaEngine
  split
  · exact delivers_failed request _
  rename_i rows' known' step hlocal
  obtain ⟨hkind, hmessages⟩ := labelLocalStep_ok hlocal
  have hstep := hrequest step.labelKind hkind
  rw [← resolveThreadMessages_congr hmessages] at hstep
  exact labelRemote_delivers hanswer hfinal step add hstep hretry

theorem labelCalls_ne_nil (h : ids ≠ []) (kind : LabelKind) (add : Bool) : labelCalls kind add ids ≠ [] := by
  cases kind <;> simpa [labelCalls] using h

theorem accepted_append (xs ys : List Issued) : accepted (xs ++ ys) = accepted xs ++ accepted ys := by
  simp [accepted]

theorem dispatchMember_eq {kind : LabelKind} (add : Bool) (generationSeen : Nat)
    (ids : List ObjectId) (hdb : ctx.dbError account thread .memberKind = none)
    (hkind : labelKindForAccount ctx account label = .ok kind) (rows : Rows) :
    (dispatchMember ctx account thread rows label add generationSeen ids).2.1.terminal =
        (outcomeFromRemoteResult (issueAll ctx account (labelCalls kind add ids)).result).terminal ∧
      (dispatchMember ctx account thread rows label add generationSeen ids).2.2 =
        (issueAll ctx account (labelCalls kind add ids)).issued := by
  simp only [dispatchMember, hdb, hkind]
  exact ⟨labelOutcome_terminal _ _ _, rfl⟩

theorem note_lastFailed (hterminal : outcome.terminal = false) (h : tally.lastFailed = none) :
    (tally.note outcome).lastFailed = none := by
  cases outcome with
  | failed e => cases hterminal
  | localOnly e r => cases r with
    | false => cases hterminal
    | true => exact h
  | success => exact h
  | noOp => exact h

theorem note_refused (hterminal : outcome.terminal = true) (h : tally.sawLocalOnly = false) :
    (tally.note outcome).sawLocalOnly = false ∧ (tally.note outcome).lastFailed.isSome := by
  cases outcome with
  | failed e => exact ⟨h, rfl⟩
  | localOnly e r => cases r with
    | false => exact ⟨h, rfl⟩
    | true => cases hterminal
  | success => cases hterminal
  | noOp => cases hterminal

theorem dispatchMembers_accepted (hanswer : ∀ call, ctx.answer account call = .ok ())
    (hdb : ctx.dbError account thread .memberKind = none) (add : Bool) (generationSeen : Nat)
    (ids : List ObjectId) (labels : List LabelId)
    (hkinds : ∀ label ∈ labels, ∃ kind, labelKindForAccount ctx account label = .ok kind) :
    ∀ (rows : Rows) (tally : MemberTally), tally.lastFailed = none →
      (dispatchMembers ctx account thread add generationSeen ids rows tally labels).2.1.terminal = false ∧
      accepted (dispatchMembers ctx account thread add generationSeen ids rows tally labels).2.2 =
        labels.flatMap (memberCalls ctx account add ids) := by
  induction labels with
  | nil =>
    intro rows tally htally
    refine ⟨?_, rfl⟩
    simp only [dispatchMembers, MemberTally.outcome, htally]
    split <;> rfl
  | cons label labels ih =>
    intro rows tally htally
    obtain ⟨kind, hkind⟩ := hkinds label (mem_cons_self ..)
    obtain ⟨hterminal, hissued⟩ := dispatchMember_eq add generationSeen ids hdb hkind rows
    rcases issueAll_cases hanswer (labelCalls kind add ids) with ⟨hresult, haccepted⟩ | ⟨e, he, _⟩
    · rw [hresult] at hterminal
      obtain ⟨hfinal, hrest⟩ := ih (fun l hl => hkinds l (mem_cons_of_mem _ hl))
        (dispatchMember ctx account thread rows label add generationSeen ids).1
        _ (note_lastFailed hterminal htally)
      refine ⟨hfinal, ?_⟩
      simp [dispatchMembers, accepted_append, hissued, haccepted, hrest, memberCalls, hkind]
    · cases he

theorem dispatchMembers_refused (hanswer : ∀ call, ctx.answer account call = .error e)
    (hfinal : e.isRetryable = false) (hdb : ctx.dbError account thread .memberKind = none)
    (add : Bool) (generationSeen : Nat) (hids : ids ≠ []) (labels : List LabelId)
    (hkinds : ∀ label ∈ labels, ∃ kind, labelKindForAccount ctx account label = .ok kind) :
    ∀ (rows : Rows) (tally : MemberTally), tally.sawLocalOnly = false →
      (tally.lastFailed.isSome ∨ labels ≠ []) →
      (dispatchMembers ctx account thread add generationSeen ids rows tally labels).2.1.terminal = true ∧
      accepted (dispatchMembers ctx account thread add generationSeen ids rows tally labels).2.2 = [] := by
  induction labels with
  | nil =>
    intro rows tally hsaw hlast
    obtain ⟨error, herror⟩ := Option.isSome_iff_exists.mp (hlast.resolve_right (fun h => h rfl))
    refine ⟨?_, rfl⟩
    simp [dispatchMembers, MemberTally.outcome, hsaw, herror, ActionOutcome.terminal]
  | cons label labels ih =>
    intro rows tally hsaw _
    obtain ⟨kind, hkind⟩ := hkinds label (mem_cons_self ..)
    obtain ⟨hterminal, hissued⟩ := dispatchMember_eq add generationSeen ids hdb hkind rows
    rcases issueAll_cases hanswer (labelCalls kind add ids) with ⟨hresult, haccepted⟩ | ⟨e', he, hresult, hnone⟩
    · have hcalls := labelCalls_ne_nil hids kind add
      cases hc : labelCalls kind add ids with
      | nil => exact absurd hc hcalls
      | cons call calls =>
        rw [hc, issueAll, hanswer call] at hresult
        cases hresult
    · cases he
      have hrefused : (dispatchMember ctx account thread rows label add generationSeen ids).2.1.terminal =
          true := by
        rw [hterminal, hresult]
        simp [outcomeFromRemoteResult, ActionOutcome.terminal, hfinal]
      obtain ⟨hsaw', hlast'⟩ := note_refused hrefused hsaw
      obtain ⟨hdone, hrest⟩ := ih (fun l hl => hkinds l (mem_cons_of_mem _ hl))
        (dispatchMember ctx account thread rows label add generationSeen ids).1 _ hsaw' (.inl hlast')
      refine ⟨hdone, ?_⟩
      simp [dispatchMembers, accepted_append, hissued, hnone, hrest]

theorem groupLocal_proceed {group : Int} {apply : Bool} {step : LocalStep}
    (hsuppress : ctx.suppressPendingEnqueue = false)
    (h : groupLocal ctx account thread rows group apply = (rows', .ok step)) :
    ∃ generationSeen, step = .proceed (groupLabels ctx account thread rows group apply) generationSeen ∧
      rows'.messages = rows.messages := by
  unfold groupLocal at h
  split at h
  · cases h
  split at h
  · cases h
  simp only [hsuppress, Bool.false_and, Bool.false_eq_true, if_false] at h
  split at h
  · cases h
  · cases h
    exact ⟨_, rfl, rfl⟩

theorem groupLabels_subset {group : Int} {apply : Bool}
    (h : label ∈ groupLabels ctx account thread rows group apply) :
    label ∈ ctx.groupMembers account group := by
  unfold groupLabels at h
  split at h
  · exact h
  · exact mem_of_mem_filter h

theorem dispatchGroupViaEngine_delivers (hanswer : ∀ call, ctx.answer account call = answer)
    (hfinal : ∀ e, answer = .error e → e.isRetryable = false) (hsuppress : ctx.suppressPendingEnqueue = false)
    (hdb : ctx.dbError account thread .memberKind = none) (group : Int) (apply : Bool)
    (hkinds : ∀ label ∈ ctx.groupMembers account group,
      ∃ kind, labelKindForAccount ctx account label = .ok kind)
    (hrequest : request = (resolveThreadMessages ctx account thread rows acct.provider).map
      (fun ids => (groupLabels ctx account thread rows group apply).flatMap
        (memberCalls ctx account apply ids))) (hretry : ∀ e, request = .error e → e.isRetryable = false) :
    Delivers request (dispatchGroupViaEngine ctx (some acct) account thread rows known group apply).outcome
      (dispatchGroupViaEngine ctx (some acct) account thread rows known group apply).issued := by
  unfold dispatchGroupViaEngine
  split
  · exact delivers_failed request _
  · rename_i hlocal
    obtain ⟨_, hstep, _⟩ := groupLocal_proceed hsuppress hlocal
    cases hstep
  rename_i rows' labels generationSeen hlocal
  obtain ⟨_, hstep, hmessages⟩ := groupLocal_proceed hsuppress hlocal
  cases hstep
  have hmembers : ∀ label ∈ groupLabels ctx account thread rows group apply,
      ∃ kind, labelKindForAccount ctx account label = .ok kind :=
    fun label hl => hkinds label (groupLabels_subset hl)
  simp only [groupRemote, resolveThreadMessages_congr hmessages]
  cases hids : resolveThreadMessages ctx account thread rows acct.provider with
  | error e =>
    rw [hids] at hrequest
    exact delivers_localOnly request (hretry e hrequest)
  | ok ids =>
    rw [hids] at hrequest
    rw [hrequest]
    cases answer with
    | ok u => exact .inr (dispatchMembers_accepted hanswer hdb apply _ ids _ hmembers _ _ rfl)
    | error e =>
      by_cases hnone : groupLabels ctx account thread rows group apply = []
      · rw [hnone]
        exact .inr ⟨rfl, rfl⟩
      · exact .inl (dispatchMembers_refused hanswer (hfinal e rfl) hdb apply _
          (resolveThreadMessages_ne_nil hids) _ hmembers _ _ rfl (.inr hnone))

/-! ### Flags and moves -/

theorem finish_spec (ctx : Ctx) (account : AccountId) (thread : ThreadId)
    (hop : isLocalOnly op = false) (outcome : ActionOutcome) (rows : Rows) (known : List LabelId)
    (issued : List Issued) :
    ∃ e, finish ctx account thread op outcome rows known issued = some e ∧ e.outcome = outcome ∧
      e.issued = issued := by
  have hsome : (enqueueParams op).isSome := by rw [enqueueParams_isSome, hop]; rfl
  obtain ⟨entry, hentry⟩ := Option.isSome_iff_exists.mp hsome
  exact ⟨_, by rw [finish, hentry]; rfl, rfl, rfl⟩

theorem remoteWithEngine_delivers (thread : ThreadId) (rows : Rows) (known : List LabelId)
    {targets : List ObjectId} {remote : Remote} (hop : isLocalOnly op = false)
    (hremote : dispatchMutation ctx acct account op targets ns = some remote)
    (hdelivers : Delivers request (outcomeFromRemoteResult remote.result) remote.issued) :
    ∃ e, remoteWithEngine ctx acct account thread rows known op ns targets = some e ∧
      Delivers request e.outcome e.issued := by
  simp only [remoteWithEngine, hremote]
  obtain ⟨e, hfinish, houtcome, hissued⟩ := finish_spec ctx account thread hop
    (outcomeFromRemoteResult remote.result)
    (if (outcomeFromRemoteResult remote.result).isSuccess && op = .setRead true then
      sendMdnForRead ctx account rows else rows) known remote.issued
  rw [← houtcome, ← hissued] at hdelivers
  exact ⟨e, hfinish, hdelivers⟩

theorem mutateWithEngine_delivers (hop : isLocalOnly op = false)
    (hpre : namespacePreflight ctx account thread rows op = some (.ok ns))
    (hresolve : ∀ rows' known' changed,
      opWrite ctx account thread rows known op = (rows', known', .ok changed) →
        resolveThreadMessages ctx account thread rows' acct.provider =
          resolveThreadMessages ctx account thread rows acct.provider)
    (hnoop : ∀ rows' known', opWrite ctx account thread rows known op = (rows', known', .ok false) →
      requested request = [])
    (hretry : ∀ e, resolveThreadMessages ctx account thread rows acct.provider = .error e →
      e.isRetryable = false)
    (hremote : ∀ ids, resolveThreadMessages ctx account thread rows acct.provider = .ok ids →
      ∃ remote, dispatchMutation ctx acct account op ids ns = some remote ∧
        Delivers request (outcomeFromRemoteResult remote.result) remote.issued) :
    ∃ e, mutateWithEngine ctx acct account thread rows known op ns = some e ∧
      Delivers request e.outcome e.issued := by
  have hlocal : opLocal ctx account thread rows known op =
      some (opWrite ctx account thread rows known op) := by
    rw [opLocal, hpre]
    rfl
  unfold mutateWithEngine
  simp only [hlocal]
  split
  · exact ⟨_, rfl, delivers_failed request _⟩
  obtain ⟨rows', known', result, hwrite⟩ :
      ∃ rows' known' result, opWrite ctx account thread rows known op = (rows', known', result) :=
    ⟨_, _, _, rfl⟩
  simp only [hwrite]
  cases result with
  | error e => exact ⟨_, rfl, delivers_failed request _⟩
  | ok changed =>
    cases changed with
    | false => exact ⟨_, rfl, .inr ⟨rfl, (hnoop rows' known' hwrite).symm⟩⟩
    | true =>
      simp only [hresolve rows' known' true hwrite]
      cases hids : resolveThreadMessages ctx account thread rows acct.provider with
      | ok ids =>
        obtain ⟨remote, hdispatch, hdelivers⟩ := hremote ids hids
        obtain ⟨e, he, hsent⟩ :=
          remoteWithEngine_delivers thread rows' known' hop hdispatch hdelivers
        cases isContainerMove op <;> exact ⟨e, he, hsent⟩
      | error e =>
        obtain ⟨e', hfinish, houtcome, hissued⟩ :=
          finish_spec ctx account thread hop (.localOnly e e.isRetryable) rows' known' []
        have hsent := delivers_localOnly request (hretry e hids)
        rw [← houtcome, ← hissued] at hsent
        cases isContainerMove op <;> exact ⟨e', hfinish, hsent⟩

theorem dispatchContainerOp_delivers (hanswer : ∀ call, ctx.answer account call = answer)
    (hfinal : ∀ e, answer = .error e → e.isRetryable = false) (op : ContainerMoveOp)
    (ids : List ObjectId) (ns : NamespaceAttribution)
    (hretry : ∀ e, moveCalls acct ids ns op = .error e → e.isRetryable = false) :
    ∃ remote, dispatchContainerOp ctx acct account op ids ns = some remote ∧
      Delivers (moveCalls acct ids ns op) (outcomeFromRemoteResult remote.result) remote.issued := by
  obtain ⟨plan, hplan⟩ := Option.isSome_iff_exists.mp (resolvePlan_isSome acct op ns)
  simp only [moveCalls, hplan] at hretry ⊢
  rw [dispatchContainerOp, hplan]
  cases plan with
  | error e => exact ⟨_, rfl, delivers_localOnly _ (hretry e rfl)⟩
  | ok plan => exact ⟨_, rfl, issueAll_delivers hanswer hfinal (planCalls ids plan)⟩

theorem withWrite_ok {α : Type} {next : Rows} {result x : α}
    (h : withWrite ctx account thread rows next result = (rows', .ok x)) : rows' = next ∧ x = result := by
  unfold withWrite at h
  split at h
  · cases h
  · cases h
    exact ⟨rfl, rfl⟩

@[simp] theorem insertFolder_messages (rows : Rows) (folder : FolderId) :
    (insertFolder rows folder).messages = rows.messages := by
  unfold insertFolder
  split <;> rfl

@[simp] theorem removeFolder_messages (rows : Rows) (folder : FolderId) :
    (removeFolder rows folder).messages = rows.messages := rfl

/-- A write that only moves the thread between folders, and always counts as a change. -/
theorem folderWrite_ok {next : Rows} {changed : Bool} (hnext : next.messages = rows.messages)
    (h : ((withWrite ctx account thread rows next ()).1, known,
      (withWrite ctx account thread rows next ()).2.map (fun _ => true)) = (rows', known', .ok changed))
    : rows'.messages = rows.messages ∧ changed = true := by
  obtain ⟨written, result, hwrite⟩ :
      ∃ written result, withWrite ctx account thread rows next () = (written, result) := ⟨_, _, rfl⟩
  rw [hwrite] at h
  cases result with
  | error e => cases h
  | ok u =>
    cases h
    rw [(withWrite_ok hwrite).1]
    exact ⟨hnext, rfl⟩

theorem starLocal_ok {value changed : Bool}
    (h : starLocal ctx account thread rows value = (rows', .ok changed)) :
    rows'.messages = rows.messages.map (fun m => { m with isStarred := value }) ∧
      (changed = false → rows.messages = []) := by
  unfold starLocal at h
  split at h
  · cases h
  · obtain ⟨hrows, hchanged⟩ := withWrite_ok h
    rw [hrows, hchanged]
    exact ⟨rfl, by simp⟩

/-- What an action asks for once the preflight has passed. -/
def requestsIn (ctx : Ctx) (acct : ResidentActionAccount) (account : AccountId) (thread : ThreadId)
    (rows : Rows) (ns : NamespaceAttribution) (action : UserAction) : Except ActionError (List EngineCall) :=
  match resolveThreadMessages ctx account thread rows acct.provider with
  | .error e => .error e
  | .ok ids => callsOf ctx acct account thread rows ns ids action

theorem requests_eq (hpre : namespacePreflight ctx account thread rows action.operation = some (.ok ns)) :
    requests ctx acct account thread rows action = requestsIn ctx acct account thread rows ns action := by
  rw [requests, hpre]
  rfl

theorem requestsIn_error (h : resolveThreadMessages ctx account thread rows acct.provider = .error e) :
    requestsIn ctx acct account thread rows ns action = .error e := by
  rw [requestsIn, h]

theorem requestsIn_ok (h : resolveThreadMessages ctx account thread rows acct.provider = .ok ids) :
    requestsIn ctx acct account thread rows ns action =
      callsOf ctx acct account thread rows ns ids action := by
  rw [requestsIn, h]

theorem star_delivers (hanswer : ∀ call, ctx.answer account call = answer)
    (hfinal : ∀ e, answer = .error e → e.isRetryable = false) (value : Bool)
    (hpre : namespacePreflight ctx account thread rows (.setStarred value) = some (.ok ns))
    (hretry : ∀ e, requestsIn ctx acct account thread rows ns (.star value) = .error e →
      e.isRetryable = false) :
    ∃ e, mutateWithEngine ctx acct account thread rows known (.setStarred value) ns = some e ∧
      Delivers (requestsIn ctx acct account thread rows ns (.star value)) e.outcome e.issued := by
  have hstarred : ∀ rows' known' changed,
      opWrite ctx account thread rows known (.setStarred value) = (rows', known', .ok changed) →
        starLocal ctx account thread rows value = (rows', .ok changed) := by
    intro rows' known' changed hwrite
    obtain ⟨written, result, hstar⟩ :
        ∃ written result, starLocal ctx account thread rows value = (written, result) := ⟨_, _, rfl⟩
    simp only [opWrite, hstar] at hwrite
    cases hwrite
    exact hstar
  refine mutateWithEngine_delivers rfl hpre ?_ ?_ (fun e he => hretry e (requestsIn_error he)) ?_
  · intro rows' known' changed hwrite
    exact resolveThreadMessages_map (by exact fun _ => rfl)
      (starLocal_ok (hstarred rows' known' changed hwrite)).1
  · intro rows' known' hwrite
    have hnone := (starLocal_ok (hstarred rows' known' false hwrite)).2 rfl
    cases hids : resolveThreadMessages ctx account thread rows acct.provider with
    | error e =>
      rw [requestsIn_error hids]
      rfl
    | ok ids =>
      simp only [resolveThreadMessages, hnone] at hids
      split at hids <;> cases hids
  · intro ids hids
    rw [requestsIn_ok hids]
    exact ⟨_, rfl, issueAll_delivers hanswer hfinal _⟩

theorem read_delivers (hanswer : ∀ call, ctx.answer account call = answer)
    (hfinal : ∀ e, answer = .error e → e.isRetryable = false) (value : Bool)
    (hpre : namespacePreflight ctx account thread rows (.setRead value) = some (.ok ns))
    (hretry : ∀ e, requestsIn ctx acct account thread rows ns (.read value) = .error e →
      e.isRetryable = false) :
    ∃ e, mutateWithEngine ctx acct account thread rows known (.setRead value) ns = some e ∧
      Delivers (requestsIn ctx acct account thread rows ns (.read value)) e.outcome e.issued := by
  have hread : ∀ rows' known' changed,
      opWrite ctx account thread rows known (.setRead value) = (rows', known', .ok changed) →
        rows'.messages = rows.messages.map (fun m => { m with isRead := value }) ∧ changed = true := by
    intro rows' known' changed hwrite
    obtain ⟨written, result, hmark⟩ :
        ∃ written result, markReadLocal ctx account thread rows value = (written, result) := ⟨_, _, rfl⟩
    simp only [opWrite, hmark] at hwrite
    cases result with
    | error e => cases hwrite
    | ok u =>
      cases hwrite
      rw [(withWrite_ok hmark).1]
      exact ⟨rfl, rfl⟩
  refine mutateWithEngine_delivers rfl hpre ?_ ?_ (fun e he => hretry e (requestsIn_error he)) ?_
  · intro rows' known' changed hwrite
    exact resolveThreadMessages_map (by exact fun _ => rfl) (hread rows' known' changed hwrite).1
  · intro rows' known' hwrite
    cases (hread rows' known' false hwrite).2
  · intro ids hids
    rw [requestsIn_ok hids]
    exact ⟨_, rfl, issueAll_delivers hanswer hfinal _⟩

/-- Spam and moves: a folder write that always counts, then a container operation. -/
theorem move_delivers (op : ContainerMoveOp) (hanswer : ∀ call, ctx.answer account call = answer)
    (hfinal : ∀ e, answer = .error e → e.isRetryable = false) (hop : isLocalOnly action.operation = false)
    (hpre : namespacePreflight ctx account thread rows action.operation = some (.ok ns))
    (hwrite : ∀ rows' known' changed,
      opWrite ctx account thread rows known action.operation = (rows', known', .ok changed) →
        rows'.messages = rows.messages ∧ changed = true)
    (hcalls : ∀ ids, callsOf ctx acct account thread rows ns ids action = moveCalls acct ids ns op)
    (hdispatch : ∀ ids, dispatchMutation ctx acct account action.operation ids ns =
      dispatchContainerOp ctx acct account op ids ns)
    (hretry : ∀ e, requestsIn ctx acct account thread rows ns action = .error e → e.isRetryable = false) :
    ∃ e, mutateWithEngine ctx acct account thread rows known action.operation ns = some e ∧
      Delivers (requestsIn ctx acct account thread rows ns action) e.outcome e.issued := by
  refine mutateWithEngine_delivers hop hpre ?_ ?_ (fun e he => hretry e (requestsIn_error he)) ?_
  · intro rows' known' changed hw
    exact resolveThreadMessages_congr (hwrite rows' known' changed hw).1
  · intro rows' known' hw
    cases (hwrite rows' known' false hw).2
  · intro ids hids
    rw [requestsIn_ok hids, hcalls ids] at hretry ⊢
    rw [hdispatch ids]
    exact dispatchContainerOp_delivers hanswer hfinal op ids ns hretry

theorem UserAction.not_localOnly (action : UserAction) : isLocalOnly action.operation = false := by
  cases action with
  | label labelId add => cases add <;> rfl
  | group groupId apply => cases apply <;> rfl
  | _ => rfl

/-- With nothing to be retried, a dispatch that fails for good has sent nothing, and any other has sent
what the action asks for. -/
theorem dispatchWithEngine_delivers (ctx : Ctx) (rows : Rows) (known : List LabelId)
    (hanswer : ∀ call, ctx.answer account call = answer)
    (hfinal : ∀ e, answer = .error e → e.isRetryable = false) (hsuppress : ctx.suppressPendingEnqueue = false)
    (hdb : ctx.dbError account thread .memberKind = none) (action : UserAction)
    (hkinds : ∀ groupId apply, action = .group groupId apply →
      ∀ label ∈ ctx.groupMembers account groupId, ∃ kind, labelKindForAccount ctx account label = .ok kind)
    (hretry : ∀ e, requests ctx acct account thread rows action = .error e → e.isRetryable = false) :
    ∃ e, dispatchWithEngine ctx acct account thread rows known action.operation = some e ∧
      Delivers (requests ctx acct account thread rows action) e.outcome e.issued := by
  unfold dispatchWithEngine
  rw [if_neg (by simp [action.not_localOnly])]
  obtain ⟨checked, hpre⟩ :=
    Option.isSome_iff_exists.mp (namespacePreflight_isSome ctx account thread rows action.operation)
  rw [hpre]
  cases checked with
  | error e => exact ⟨_, rfl, delivers_failed _ _⟩
  | ok ns =>
    rw [requests_eq hpre] at hretry ⊢
    cases action with
    | star value => exact star_delivers hanswer hfinal value hpre hretry
    | read value => exact read_delivers hanswer hfinal value hpre hretry
    | spam value =>
      exact move_delivers (.spam value) hanswer hfinal rfl hpre
        (fun _ _ _ hw => folderWrite_ok (by cases value <;> simp) hw) (fun _ => rfl) (fun _ => rfl) hretry
    | move dest source =>
      exact move_delivers (.moveToFolder dest source) hanswer hfinal rfl hpre
        (fun _ _ _ hw => folderWrite_ok (by cases source <;> simp) hw) (fun _ => rfl) (fun _ => rfl) hretry
    | label labelId add =>
      have hkind : ∀ kind, labelKindForAccount ctx account labelId = .ok kind →
          requestsIn ctx acct account thread rows ns (.label labelId add) =
          (resolveThreadMessages ctx account thread rows acct.provider).map (labelCalls kind add) := by
        intro kind hkind
        simp only [requestsIn, callsOf, hkind]
        cases resolveThreadMessages ctx account thread rows acct.provider <;> rfl
      cases add <;>
        exact ⟨_, rfl, dispatchLabelViaEngine_delivers hanswer hfinal labelId _ hkind hretry⟩
    | group groupId apply =>
      have hgroup : requestsIn ctx acct account thread rows ns (.group groupId apply) =
          (resolveThreadMessages ctx account thread rows acct.provider).map (fun ids =>
            (groupLabels ctx account thread rows groupId apply).flatMap
              (memberCalls ctx account apply ids)) := by
        rw [requestsIn]
        cases resolveThreadMessages ctx account thread rows acct.provider <;> rfl
      cases apply <;>
        exact ⟨_, rfl, dispatchGroupViaEngine_delivers hanswer hfinal hsuppress hdb groupId _
          (hkinds groupId _ rfl) hgroup hretry⟩

end Dispatch

/-! ## Whole runs -/

section Runs

variable {P : Type} (accept : EngineCall → P → P) (p₀ : P) (base : Ctx)
  (acct : ResidentActionAccount) (account : AccountId) (thread : ThreadId)

def Session.start (w : World) : Session P := ⟨w, providerState accept p₀ account w⟩

theorem acceptAll_append (xs ys : List EngineCall) (p : P) :
    acceptAll accept (xs ++ ys) p = acceptAll accept ys (acceptAll accept xs p) := by
  rw [acceptAll, foldl_append]
  rfl

theorem providerState_congr {w w' : World} (h : w'.issued = w.issued) :
    providerState accept p₀ account w' = providerState accept p₀ account w := by
  rw [providerState, providerState, h]

theorem providerState_install (w : World) (ctx : Ctx) (e : Effect) :
    providerState accept p₀ account (w.install ctx account thread e) =
      acceptAll accept (accepted e.issued) (providerState accept p₀ account w) := by
  have hissued : (w.install ctx account thread e).issued =
      w.issued ++ e.issued.map (fun i => (account, i)) := by
    rw [World.install]
    cases e.queued <;> rfl
  have hown : (e.issued.map (fun i => (account, i))).filter (fun i => i.1 = account) =
      e.issued.map (fun i => (account, i)) := by
    rw [filter_eq_self]
    intro i hi
    obtain ⟨j, _, rfl⟩ := mem_map.mp hi
    simp
  have hback : (e.issued.map (fun i => (account, i))).map Prod.snd = e.issued := by
    simp
  rw [providerState, hissued, filter_append, map_append, accepted_append, acceptAll_append, hown, hback]
  rfl

theorem intentAfter_of_delivers {rows : Rows} {action : UserAction} {outcome : ActionOutcome}
    {issued : List Issued} (h : Delivers (requests base acct account thread rows action) outcome issued)
    (p : P) : intentAfter accept base acct account thread rows action outcome p =
      acceptAll accept (accepted issued) p := by
  unfold intentAfter
  rcases h with ⟨hterminal, hnone⟩ | ⟨hterminal, hsent⟩
  · rw [if_pos hterminal, hnone]
    rfl
  · rw [if_neg (by simp [hterminal]), hsent]

theorem step_keeps_intent {s s' : Session P} {event : Event}
    (hsettles : Settles base acct account thread s event)
    (hstep : s.step accept base acct account thread event = .ok s')
    (h : providerState accept p₀ account s.world = s.intent) :
    providerState accept p₀ account s'.world = s'.intent := by
  cases event with
  | drain now =>
    obtain ⟨w', hrun, hkeep⟩ := processPendingOps_keeps (drainCtx base acct now) s.world
    simp only [Session.step, hrun] at hstep
    cases hstep
    rw [← h]
    exact providerState_congr accept p₀ account hkeep.issued
  | action engine answer opId now action =>
    obtain ⟨rfl, hanswered, hretry, hdb, hkinds⟩ := hsettles
    by_cases hkey : flightKey account thread ∈ s.world.inFlight
    · -- the guard is held elsewhere: the action fails before it does anything
      simp only [Session.step, batchExecute_in_flight hkey] at hstep
      cases hstep
      exact h
    · have hreply : ∀ call, (actionCtx base acct (.ok ()) answer opId now).answer account call = answer :=
        fun _ => rfl
      obtain ⟨e, he, hsent⟩ := dispatchWithEngine_delivers (actionCtx base acct (.ok ()) answer opId now)
        (s.world.rows account thread) (s.world.known account) hreply hanswered rfl hdb action hkinds hretry
      have hbatch : batchExecute (actionCtx base acct (.ok ()) answer opId now) s.world
          [(account, thread, action.operation)] =
            some (s.world.install (actionCtx base acct (.ok ()) answer opId now) account thread e,
              [e.outcome]) :=
        batchExecute_engine action.not_localOnly rfl hkey he
      simp only [Session.step, hbatch] at hstep
      cases hstep
      rw [providerState_install, h]
      exact (intentAfter_of_delivers accept base acct account thread hsent s.intent).symm

/-- In every run whose actions leave nothing to retry, the queue loses and resurrects nothing. -/
theorem provider_is_intent (w : World) (s : Session P)
    (hrun : Lib.Reaches (fun s event => s.step accept base acct account thread event)
      (Settles base acct account thread) (Session.start accept p₀ account w) s) :
    IntentKept accept p₀ account s :=
  fun _ => hrun.invariant (I := fun s => providerState accept p₀ account s.world = s.intent) rfl
    (fun _ _ _ hinv hok hstep => step_keeps_intent accept p₀ base acct account thread hok hstep hinv)

end Runs

/-- The labels that the accepted calls left on the thread. -/
def labelsAfter : EngineCall → Finset String → Finset String
  | .applyLabel _ native, labels => insert native labels
  | .removeLabel _ native, labels => labels.erase native
  | _, labels => labels

def sampleAccount : ResidentActionAccount := ⟨.gmail, ⟨fun _ _ => none, []⟩, .error "offline"⟩

/-- Two labels that meet a network error, and drains until the queue gives up. -/
def retriedRun : List Event :=
  [.action (.ok ()) (.error (.remote .transient "timeout")) "op1" 0 (.label "l1" true),
   .action (.ok ()) (.error (.remote .transient "timeout")) "op2" 1 (.label "l2" true),
   .drain 10, .drain 10000, .drain 20000, .drain 30000, .drain 40000, .drain 50000, .drain 60000]

def sampleRun (events : List Event) : Except Unit (Session (Finset String)) :=
  events.foldlM (fun s event => s.step labelsAfter (sampleCtx (.ok ()) 0) sampleAccount "acc" "t1" event)
    (Session.start labelsAfter ∅ "acc" (sampleWorld []))

/-- After the second failure the queue has forgotten the first label; after the drains it is empty, and
the provider, which accepted every retry, has neither. -/
theorem two_labels_lost :
    (sampleRun (retriedRun.take 2)).map (fun s => s.world.queue.map PendingOperation.params) =
      .ok [[("labelId", .str "l2")]] ∧ ∃ s, Lib.Reaches
        (fun s event => s.step labelsAfter (sampleCtx (.ok ()) 0) sampleAccount "acc" "t1" event)
        (fun _ _ => True) (Session.start labelsAfter ∅ "acc" (sampleWorld [])) s ∧
      ¬ IntentKept labelsAfter ∅ "acc" s := by
  refine ⟨by decide, ?_⟩
  have hresult : (sampleRun retriedRun).map (fun s => (s.world.queue.all (fun row => !row.live),
      providerState labelsAfter ∅ "acc" s.world, s.intent)) = .ok (true, ∅, {"l2", "l1"}) := by
    decide
  cases hrun : sampleRun retriedRun with
  | error e =>
    rw [hrun] at hresult
    cases hresult
  | ok s =>
    rw [hrun] at hresult
    simp only [Except.map, Except.ok.injEq, Prod.mk.injEq] at hresult
    obtain ⟨hqueue, hprovider, hintent⟩ := hresult
    refine ⟨s, Lib.reaches_foldlM hrun, fun hkept => ?_⟩
    have hempty : QueueEmpty s.world := by
      intro row hrow
      simpa using all_eq_true.mp hqueue row hrow
    have heq := hkept hempty
    rw [hprovider, hintent] at heq
    exact absurd heq (by decide)

theorem provider_is_intent_accepted :
    ∃ s, IntentKept labelsAfter ∅ "acc" s ∧ QueueEmpty s.world ∧ s.intent = {"l1"} := by
  refine ⟨_, provider_is_intent labelsAfter ∅ (sampleCtx (.ok ()) 0) sampleAccount "acc" "t1"
    (sampleWorld []) _ (.tail (.refl _)
      (a := .action (.ok ()) (.ok ()) "op1" 0 (.label "l1" true)) ⟨rfl, ?_, ?_, rfl, ?_⟩ rfl), ?_, rfl⟩
  · intro e he
    cases he
  · intro e he
    cases he
  · intro groupId apply h
    cases h
  · exact fun row hrow => absurd hrow not_mem_nil

end Ratatoskr.Actions

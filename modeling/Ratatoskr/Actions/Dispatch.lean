import Ratatoskr.Actions.Engine

/-!
# Actions.Dispatch

One operation on one thread (`service/src/actions/{batch,label,label_group}.rs`): through the engine,
without it, or local only. An `Effect` is all that a dispatch does: the outcome, the rows of the thread,
the `labels` rows of the account, what goes into the retry queue and the calls that were issued. The
outer `Option` is `none` where the source panics.
-/

namespace Ratatoskr.Actions

open Labels (PendingLabelIntentOp PendingLabelIntent)

/-- `known` are the ids in the `labels` table of the account. -/
structure Effect where
  outcome : ActionOutcome
  rows : Rows
  known : List LabelId
  queued : Option (String × Params)
  issued : List Issued

def Effect.untouched (outcome : ActionOutcome) (rows : Rows) (known : List LabelId) : Effect :=
  ⟨outcome, rows, known, none, []⟩

/-- `enqueue_if_retryable_with_id`; `none` where nothing is queued. -/
def enqueueIfRetryable (ctx : Ctx) (account : AccountId) (thread : ThreadId) (outcome : ActionOutcome)
    (entry : String × Params) : Option (String × Params) :=
  if ctx.suppressPendingEnqueue then none
  else
    match outcome with
    | .localOnly reason true =>
      if reason.isRetryable && (ctx.dbError account thread .enqueue).isNone then some entry else none
    | _ => none

def labelIntents (label : LabelId) (kind : LabelKind) (op : PendingLabelIntentOp) : List PendingLabelIntent :=
  match op, kind with
  | .add, .graphImportance level => [(level.opposite.labelId, .remove), (label, .add)]
  | _, _ => [(label, op)]

def intentOp (add : Bool) : PendingLabelIntentOp := if add then .add else .remove

/-- The `labels` rows with this one, where the kind may be created locally. -/
def ensureTypedTagLabel (known : List LabelId) (label : LabelId) (kind : LabelKind) : Option (List LabelId) :=
  match kind with
  | .gmailUser _ => none
  | _ => some (if label ∈ known then known else known ++ [label])

/-- Adding an importance also makes the opposite level's label. -/
def ensureOpposite (known : List LabelId) (kind : LabelKind) : PendingLabelIntentOp → List LabelId
  | .add =>
    match kind with
    | .graphImportance level =>
      (ensureTypedTagLabel known level.opposite.labelId (.graphImportance level.opposite)).getD known
    | _ => known
  | .remove => known

structure LocalLabelStep where
  labelKind : LabelKind
  intents : List PendingLabelIntent
  generationSeen : Nat

def threadGone (account : AccountId) (thread : ThreadId) : ActionError :=
  .db ("read thread generation for " ++ account ++ "/" ++ thread ++ ": Query returned no rows")

/-- The writes are not one transaction: a label that was made stays when the intents fail. -/
def labelLocalStep (ctx : Ctx) (account : AccountId) (thread : ThreadId) (rows : Rows)
    (known : List LabelId) (label : LabelId) (op : PendingLabelIntentOp) :
    Rows × List LabelId × Except ActionError LocalLabelStep :=
  match ctx.dbError account thread .write with
  | some e => (rows, known, .error (.db e))
  | none =>
    match labelKindForAccount ctx account label with
    | .error e => (rows, known, .error (.db e))
    | .ok kind =>
      match (if label ∈ known then some known else ensureTypedTagLabel known label kind) with
      | none => (rows, known, .error (.notFound "label not found for this account"))
      | some known =>
        let known := ensureOpposite known kind op
        let intents := labelIntents label kind op
        match Labels.upsertPendingThreadLabelIntents rows.labels thread intents none with
        | none => (rows, known, .error (threadGone account thread))
        | some (tables, generationSeen) =>
          ({ rows with labels := tables }, known, .ok ⟨kind, intents, generationSeen⟩)

def confirmProviderIntents (ctx : Ctx) (account : AccountId) (thread : ThreadId) (rows : Rows)
    (intents : List PendingLabelIntent) : Rows × Except ActionError Unit :=
  match ctx.dbError account thread .confirm with
  | some e => (rows, .error (.db e))
  | none =>
    ({ rows with labels := Labels.confirmedProviderLabelIntents rows.labels thread intents }, .ok ())

/-- The outcome of a label dispatch, with the rows after the confirmation. -/
def labelOutcome (ctx : Ctx) (account : AccountId) (thread : ThreadId) (rows : Rows)
    (intents : List PendingLabelIntent) (result : Except ActionError Unit) : Rows × ActionOutcome :=
  match result with
  | .error e => (rows, .localOnly e e.isRetryable)
  | .ok () =>
    match confirmProviderIntents ctx account thread rows intents with
    | (rows, .ok ()) => (rows, .success)
    | (rows, .error e) => (rows, .localOnly e true)

/-- The label rows once the outcome is known: a queued action takes over its intents, a permanent failure
clears them. -/
def finalizeIntents (ctx : Ctx) (account : AccountId) (thread : ThreadId) (rows : Rows)
    (intents : List PendingLabelIntent) (generationSeen : Nat) (outcome : ActionOutcome)
    (queued : Option (String × Params)) : Rows :=
  match outcome with
  | .localOnly _ true =>
    match queued with
    | none => rows
    | some _ => { rows with
        labels := Labels.attachActionIdToPendingThreadLabelIntents rows.labels thread intents
          generationSeen (ctx.opId account thread) }
  | .localOnly _ false => { rows with
      labels := Labels.deletePendingThreadLabelIntentsForLabels rows.labels thread intents
        generationSeen }
  | _ => rows

def labelEntry (add : Bool) (label : LabelId) : String × Params :=
  (if add then "addLabel" else "removeLabel", [("labelId", .str label)])

def engineUnavailable : ActionOutcome := .localOnly (.remote .unknown "resident engine unavailable") true

/-- The middle of a label dispatch: resolve, call the engine, confirm. -/
def labelRemote (ctx : Ctx) (acct : Option ResidentActionAccount) (account : AccountId)
    (thread : ThreadId) (rows : Rows) (step : LocalLabelStep) (add : Bool) :
    Rows × ActionOutcome × List Issued :=
  match acct with
  | none => (rows, engineUnavailable, [])
  | some acct =>
    match resolveThreadMessages ctx account thread rows acct.provider with
    | .error e => (rows, .localOnly e e.isRetryable, [])
    | .ok ids =>
      let remote := dispatchLabelEngine ctx account step.labelKind add ids
      let (rows, outcome) := labelOutcome ctx account thread rows step.intents remote.result
      (rows, outcome, remote.issued)

def dispatchLabelViaEngine (ctx : Ctx) (acct : Option ResidentActionAccount) (account : AccountId)
    (thread : ThreadId) (rows : Rows) (known : List LabelId) (label : LabelId) (add : Bool) : Effect :=
  match labelLocalStep ctx account thread rows known label (intentOp add) with
  | (rows, known, .error e) => .untouched (.failed e) rows known
  | (rows, known, .ok step) =>
    let (rows, outcome, issued) := labelRemote ctx acct account thread rows step add
    let queued := enqueueIfRetryable ctx account thread outcome (labelEntry add label)
    { outcome := outcome
      rows := finalizeIntents ctx account thread rows step.intents step.generationSeen outcome queued
      known := known
      queued := queued
      issued := issued }

/-! ## Label groups -/

/-- `user_visible_label_exists_fragment` -/
def userVisible (rows : Rows) (thread : ThreadId) (label : LabelId) : Bool :=
  match rows.labels.intents.lookup (thread, label) with
  | some ⟨.add, _, _⟩ => true
  | some ⟨.remove, _, _⟩ => false
  | none => (thread, label) ∈ rows.labels.threadLabels

/-- `thread_renders_group_for_user`; without its row a thread renders nothing. -/
def rendersGroup (ctx : Ctx) (account : AccountId) (thread : ThreadId) (rows : Rows) (group : Int) : Bool :=
  rows.thread.isSome && group ∈ ctx.labelGroups &&
    (ctx.groupMembers account group).any (userVisible rows thread)

/-- `read_applied_group_member_labels` -/
def appliedMembers (ctx : Ctx) (account : AccountId) (thread : ThreadId) (rows : Rows) (group : Int) :
    List LabelId :=
  (ctx.groupMembers account group).filter (userVisible rows thread)

def groupLabels (ctx : Ctx) (account : AccountId) (thread : ThreadId) (rows : Rows) (group : Int)
    (apply : Bool) : List LabelId :=
  if apply then ctx.groupMembers account group else appliedMembers ctx account thread rows group

inductive LocalStep where
  | proceed (labels : List LabelId) (generationSeen : Nat)
  | skip

/-- `apply_label_group_local` and `remove_label_group_local`. A retry whose intent the user has reversed
is skipped; only the application asks whether the group exists. -/
def groupLocal (ctx : Ctx) (account : AccountId) (thread : ThreadId) (rows : Rows) (group : Int)
    (apply : Bool) : Rows × Except ActionError LocalStep :=
  match ctx.dbError account thread .write with
  | some e => (rows, .error (.db e))
  | none =>
    if apply && group ∉ ctx.labelGroups then (rows, .error (.notFound "label group not found"))
    else if ctx.suppressPendingEnqueue &&
        (rendersGroup ctx account thread rows group != apply) then (rows, .ok .skip)
    else
      let labels := groupLabels ctx account thread rows group apply
      match Labels.upsertPendingThreadLabelIntents rows.labels thread
          (labels.map (fun l => (l, intentOp apply))) none with
      | none => (rows, .error (threadGone account thread))
      | some (tables, generationSeen) =>
        ({ rows with labels := tables }, .ok (.proceed labels generationSeen))

/-- One member: its own intents are confirmed or cleared, nothing is queued. -/
def dispatchMember (ctx : Ctx) (account : AccountId) (thread : ThreadId) (rows : Rows)
    (label : LabelId) (add : Bool) (generationSeen : Nat) (ids : List ObjectId) :
    Rows × ActionOutcome × List Issued :=
  match ctx.dbError account thread .memberKind with
  | some e => (rows, .failed (.db ("label kind lookup: " ++ e)), [])
  | none =>
    match labelKindForAccount ctx account label with
    | .error e => (rows, .failed (.db ("label kind lookup: " ++ e)), [])
    | .ok kind =>
      let intents := labelIntents label kind (intentOp add)
      let remote := dispatchLabelEngine ctx account kind add ids
      let (rows, outcome) := labelOutcome ctx account thread rows intents remote.result
      (finalizeIntents ctx account thread rows intents generationSeen outcome none, outcome,
        remote.issued)

structure MemberTally where
  sawLocalOnly : Bool
  lastFailed : Option ActionError

def MemberTally.note (tally : MemberTally) : ActionOutcome → MemberTally
  | .success => tally
  | .noOp => tally
  | .localOnly _ true => { tally with sawLocalOnly := true }
  | .localOnly reason false => { tally with lastFailed := some reason }
  | .failed error => { tally with lastFailed := some error }

/-- A member to be retried weighs more than one that failed for good. -/
def MemberTally.outcome (tally : MemberTally) : ActionOutcome :=
  if tally.sawLocalOnly then
    .localOnly (.remote .unknown "one or more label group member writes failed") true
  else
    match tally.lastFailed with
    | some error => .failed error
    | none => .success

def dispatchMembers (ctx : Ctx) (account : AccountId) (thread : ThreadId) (add : Bool)
    (generationSeen : Nat) (ids : List ObjectId) :
    Rows → MemberTally → List LabelId → Rows × ActionOutcome × List Issued
  | rows, tally, [] => (rows, tally.outcome, [])
  | rows, tally, label :: labels =>
    let (rows, outcome, issued) := dispatchMember ctx account thread rows label add generationSeen ids
    let (rows, final, more) :=
      dispatchMembers ctx account thread add generationSeen ids rows (tally.note outcome) labels
    (rows, final, issued ++ more)

def groupRemote (ctx : Ctx) (acct : Option ResidentActionAccount) (account : AccountId)
    (thread : ThreadId) (rows : Rows) (labels : List LabelId) (generationSeen : Nat) (apply : Bool) :
    Rows × ActionOutcome × List Issued :=
  match acct with
  | none => (rows, engineUnavailable, [])
  | some acct =>
    match resolveThreadMessages ctx account thread rows acct.provider with
    | .error e => (rows, .localOnly e e.isRetryable, [])
    | .ok ids => dispatchMembers ctx account thread apply generationSeen ids rows ⟨false, none⟩ labels

def groupEntry (apply : Bool) (group : Int) : String × Params :=
  (if apply then "applyLabelGroup" else "removeLabelGroup", [("groupId", .int group)])

/-- `finalize_composite_outcome` queues with an error of its own, which is always retryable. -/
def enqueueComposite (ctx : Ctx) (account : AccountId) (thread : ThreadId) (outcome : ActionOutcome)
    (entry : String × Params) : Option (String × Params) :=
  match outcome with
  | .localOnly _ true =>
    enqueueIfRetryable ctx account thread (.localOnly (.remote .unknown "composite retry") true) entry
  | _ => none

def dispatchGroupViaEngine (ctx : Ctx) (acct : Option ResidentActionAccount) (account : AccountId)
    (thread : ThreadId) (rows : Rows) (known : List LabelId) (group : Int) (apply : Bool) : Effect :=
  match groupLocal ctx account thread rows group apply with
  | (rows, .error e) => .untouched (.failed e) rows known
  | (rows, .ok .skip) => .untouched .success rows known
  | (rows, .ok (.proceed labels generationSeen)) =>
    let (rows, outcome, issued) :=
      groupRemote ctx acct account thread rows labels generationSeen apply
    let queued := enqueueComposite ctx account thread outcome (groupEntry apply group)
    { outcome := outcome
      rows := finalizeIntents ctx account thread rows (labels.map (fun l => (l, intentOp apply)))
        generationSeen outcome queued
      known := known
      queued := queued
      issued := issued }

/-- The label and label-group operations, with or without an engine. -/
def dispatchLabelOp (ctx : Ctx) (acct : Option ResidentActionAccount) (account : AccountId)
    (thread : ThreadId) (rows : Rows) (known : List LabelId) : MailOperation → Option Effect
  | .addLabel label => some (dispatchLabelViaEngine ctx acct account thread rows known label true)
  | .removeLabel label => some (dispatchLabelViaEngine ctx acct account thread rows known label false)
  | .applyLabelGroup group => some (dispatchGroupViaEngine ctx acct account thread rows known group true)
  | .removeLabelGroup group =>
    some (dispatchGroupViaEngine ctx acct account thread rows known group false)
  | _ => none

def dispatchLocalOnly (ctx : Ctx) (account : AccountId) (thread : ThreadId) (rows : Rows)
    (known : List LabelId) (op : MailOperation) : Option Effect :=
  (localOnlyWrite ctx account thread rows op).map (fun w =>
    .untouched (localOutcome w.2) w.1 known)

/-- `op_local` behind its preflight. -/
def opWrite (ctx : Ctx) (account : AccountId) (thread : ThreadId) (rows : Rows)
    (known : List LabelId) : MailOperation → Rows × List LabelId × Except ActionError Bool
  | .archive => let (rows, r) := archiveLocal ctx account thread rows; (rows, known, r)
  | .trash => let (rows, r) := trashLocal ctx account thread rows; (rows, known, r.map fun _ => true)
  | .setSpam value =>
    let (rows, r) := spamLocal ctx account thread rows value; (rows, known, r.map fun _ => true)
  | .moveToFolder dest source =>
    let (rows, r) := moveLocal ctx account thread rows dest source; (rows, known, r.map fun _ => true)
  | .setStarred value => let (rows, r) := starLocal ctx account thread rows value; (rows, known, r)
  | .setRead value =>
    let (rows, r) := markReadLocal ctx account thread rows value; (rows, known, r.map fun _ => true)
  | .permanentDelete =>
    let (rows, r) := permanentDeleteLocal ctx account thread rows; (rows, known, r.map fun _ => true)
  | .addLabel label =>
    let (rows, known, r) := labelLocalStep ctx account thread rows known label .add
    (rows, known, r.map fun _ => true)
  | .removeLabel label =>
    let (rows, known, r) := labelLocalStep ctx account thread rows known label .remove
    (rows, known, r.map fun _ => true)
  | .applyLabelGroup group =>
    let (rows, r) := groupLocal { ctx with suppressPendingEnqueue := false } account thread rows group true
    (rows, known, r.map fun _ => true)
  | .removeLabelGroup group =>
    let (rows, r) := groupLocal { ctx with suppressPendingEnqueue := false } account thread rows group false
    (rows, known, r.map fun _ => true)
  | .setPinned value =>
    let (rows, r) := pin ctx account thread rows value; (rows, known, .ok (localOutcome r).isSuccess)
  | .setMuted value =>
    let (rows, r) := mute ctx account thread rows value; (rows, known, .ok (localOutcome r).isSuccess)
  | .snooze wakeAt =>
    let (rows, r) := snooze ctx account thread rows wakeAt; (rows, known, .ok (localOutcome r).isSuccess)
  | .unsnooze =>
    let (rows, r) := unsnooze ctx account thread rows; (rows, known, .ok (localOutcome r).isSuccess)

def opLocal (ctx : Ctx) (account : AccountId) (thread : ThreadId) (rows : Rows)
    (known : List LabelId) (op : MailOperation) : Option (Rows × List LabelId × Except ActionError Bool) :=
  (namespacePreflight ctx account thread rows op).map (fun checked =>
    match checked with
    | .error e => (rows, known, .error e)
    | .ok _ => opWrite ctx account thread rows known op)

/-- `enqueue_params` and `enqueue_if_retryable` behind a known outcome. -/
def finish (ctx : Ctx) (account : AccountId) (thread : ThreadId) (op : MailOperation)
    (outcome : ActionOutcome) (rows : Rows) (known : List LabelId) (issued : List Issued) : Option Effect :=
  (enqueueParams op).map (fun entry =>
    ⟨outcome, rows, known, enqueueIfRetryable ctx account thread outcome entry, issued⟩)

/-! ## With the engine -/

def outcomeFromRemoteResult : Except ActionError Unit → ActionOutcome
  | .ok () => .success
  | .error reason => .localOnly reason reason.isRetryable

/-- Permanent deletion asks the provider first: the local rows carry the refs a retry needs. -/
def deleteWithEngine (ctx : Ctx) (acct : ResidentActionAccount) (account : AccountId)
    (thread : ThreadId) (rows : Rows) (known : List LabelId) (op : MailOperation)
    (ns : NamespaceAttribution) : Option Effect :=
  match resolveThreadMessages ctx account thread rows acct.provider with
  | .error e => some (.untouched (.failed e) rows known)
  | .ok targets =>
    match dispatchMutation ctx acct account op targets ns with
    | none => none
    | some ⟨.error reason, issued⟩ =>
      finish ctx account thread op (.localOnly reason reason.isRetryable) rows known issued
    | some ⟨.ok (), issued⟩ =>
      match opLocal ctx account thread rows known op with
      | none => none
      | some (rows, known, .ok _) => finish ctx account thread op .success rows known issued
      | some (rows, known, .error e) => finish ctx account thread op (.failed e) rows known issued

/-- The remote half behind a local write that changed something. -/
def remoteWithEngine (ctx : Ctx) (acct : ResidentActionAccount) (account : AccountId)
    (thread : ThreadId) (rows : Rows) (known : List LabelId) (op : MailOperation)
    (ns : NamespaceAttribution) (targets : List ObjectId) : Option Effect :=
  match dispatchMutation ctx acct account op targets ns with
  | none => none
  | some remote =>
    let outcome := outcomeFromRemoteResult remote.result
    let rows := if outcome.isSuccess && op = .setRead true then sendMdnForRead ctx account rows else rows
    finish ctx account thread op outcome rows known remote.issued

/-- The targets of a container move are resolved before the local write, the others after it. -/
def mutateWithEngine (ctx : Ctx) (acct : ResidentActionAccount) (account : AccountId)
    (thread : ThreadId) (rows : Rows) (known : List LabelId) (op : MailOperation)
    (ns : NamespaceAttribution) : Option Effect :=
  let preLocalTargets := resolveThreadMessages ctx account thread rows acct.provider
  match isContainerMove op, preLocalTargets with
  | true, .error e => some (.untouched (.failed e) rows known)
  | _, _ =>
    match opLocal ctx account thread rows known op with
    | none => none
    | some (rows, known, .error e) => some (.untouched (.failed e) rows known)
    | some (rows, known, .ok false) => some (.untouched .noOp rows known)
    | some (rows, known, .ok true) =>
      match isContainerMove op, preLocalTargets with
      | true, .ok targets => remoteWithEngine ctx acct account thread rows known op ns targets
      | _, _ =>
        match resolveThreadMessages ctx account thread rows acct.provider with
        | .error e => finish ctx account thread op (.localOnly e e.isRetryable) rows known []
        | .ok targets => remoteWithEngine ctx acct account thread rows known op ns targets

def dispatchWithEngine (ctx : Ctx) (acct : ResidentActionAccount) (account : AccountId)
    (thread : ThreadId) (rows : Rows) (known : List LabelId) (op : MailOperation) : Option Effect :=
  if isLocalOnly op then dispatchLocalOnly ctx account thread rows known op
  else
    match namespacePreflight ctx account thread rows op with
    | none => none
    | some (.error e) => some (.untouched (.failed e) rows known)
    | some (.ok ns) =>
      match dispatchLabelOp ctx (some acct) account thread rows known op with
      | some effect => some effect
      | none =>
        if op = .permanentDelete then deleteWithEngine ctx acct account thread rows known op ns
        else mutateWithEngine ctx acct account thread rows known op ns

/-- The local half of everything but a deletion, then a queued retry. -/
def writeDegraded (ctx : Ctx) (account : AccountId) (thread : ThreadId) (rows : Rows)
    (known : List LabelId) (op : MailOperation) (error : ActionError) : Option Effect :=
  match opLocal ctx account thread rows known op with
  | none => none
  | some (rows, known, .ok false) => some (.untouched .noOp rows known)
  | some (rows, known, .ok true) =>
    finish ctx account thread op (.localOnly error true) rows known []
  | some (rows, known, .error e) => some (.untouched (.failed e) rows known)

def handleThreadDegraded (ctx : Ctx) (account : AccountId) (thread : ThreadId) (rows : Rows)
    (known : List LabelId) (op : MailOperation) (providerError : String) : Option Effect :=
  match dispatchLabelOp ctx none account thread rows known op with
  | some effect => some effect
  | none =>
    let error : ActionError := .remote .transient providerError
    if op = .permanentDelete then
      some { Effect.untouched (.failed error) rows known with
        queued := enqueueIfRetryable ctx account thread (.localOnly error true) ("permanentDelete", []) }
    else writeDegraded ctx account thread rows known op error

/-- An operation of a bulk group: settled at once, or waiting for the batch of its key. -/
inductive Prepared where
  | settled (effect : Effect)
  | waiting (key : RemoteBatchKey) (targets : List ObjectId) (rows : Rows) (known : List LabelId)

/-- The part of `execute_account_group` between the guard and the remote batches, for an operation with a
batch key. -/
def prepareBatched (ctx : Ctx) (acct : ResidentActionAccount) (account : AccountId)
    (thread : ThreadId) (rows : Rows) (known : List LabelId) (op : MailOperation)
    (key : RemoteBatchKey) : Option Prepared :=
  let preLocalTargets := resolveThreadMessages ctx account thread rows acct.provider
  if op = .permanentDelete then
    match preLocalTargets with
    | .ok targets => some (.waiting key targets rows known)
    | .error e => some (.settled (.untouched (.failed e) rows known))
  else
    match isContainerMove op, preLocalTargets with
    | true, .error e => some (.settled (.untouched (.failed e) rows known))
    | _, _ =>
      match opLocal ctx account thread rows known op with
      | none => none
      | some (rows, known, .error e) => some (.settled (.untouched (.failed e) rows known))
      | some (rows, known, .ok false) => some (.settled (.untouched .noOp rows known))
      | some (rows, known, .ok true) =>
        match isContainerMove op, preLocalTargets with
        | true, .ok targets => some (.waiting key targets rows known)
        | _, _ =>
          match resolveThreadMessages ctx account thread rows acct.provider with
          | .ok targets => some (.waiting key targets rows known)
          | .error e =>
            (finish ctx account thread op (.localOnly e e.isRetryable) rows known []).map .settled

/-- `use_bulk` is whether the group has more than one operation. -/
def prepare (ctx : Ctx) (acct : ResidentActionAccount) (account : AccountId) (useBulk : Bool)
    (thread : ThreadId) (rows : Rows) (known : List LabelId) (op : MailOperation) : Option Prepared :=
  match namespacePreflight ctx account thread rows op with
  | none => none
  | some (.error e) => some (.settled (.untouched (.failed e) rows known))
  | some (.ok ns) =>
    if !useBulk || ns ≠ .personal then
      (dispatchWithEngine ctx acct account thread rows known op).map .settled
    else if isLocalOnly op then (dispatchLocalOnly ctx account thread rows known op).map .settled
    else
      match RemoteBatchKey.fromOperation op with
      | none => (dispatchWithEngine ctx acct account thread rows known op).map .settled
      | some key => prepareBatched ctx acct account thread rows known op key

/-- One entry of a remote batch, once the batch has its result. -/
def settleBatched (ctx : Ctx) (account : AccountId) (key : RemoteBatchKey) (thread : ThreadId)
    (rows : Rows) (known : List LabelId) (op : MailOperation) (result : Except ActionError Unit) :
    Option Effect :=
  match result with
  | .error reason =>
    finish ctx account thread op (.localOnly reason reason.isRetryable) rows known []
  | .ok () =>
    if op = .permanentDelete then
      match opLocal ctx account thread rows known op with
      | none => none
      | some (rows, known, .ok _) => some (.untouched .success rows known)
      | some (rows, known, .error e) => some (.untouched (.failed e) rows known)
    else
      some (.untouched .success
        (if key = .read true then sendMdnForRead ctx account rows else rows) known)

end Ratatoskr.Actions

import Ratatoskr.Actions.Dispatch

/-!
# Actions.Total

With an engine no dispatch panics, whatever the operation: `enqueue_params` and the `unreachable!` arms of
the mutations are reached by the operations they have a case for only.
-/

namespace Ratatoskr.Actions

/-- The local half of a mutation is all there is to it, or there is something left to send. -/
inductive LocalHalf where
  | done (e : Effect)
  | send (rows : Rows) (known : List LabelId) (targets : Except ActionError (List ObjectId))

def localHalf (ctx : Ctx) (acct : ResidentActionAccount) (account : AccountId) (thread : ThreadId)
    (rows : Rows) (known : List LabelId) (op : MailOperation) : Option LocalHalf :=
  match isContainerMove op, resolveThreadMessages ctx account thread rows acct.provider with
  | true, .error e => some (.done (.untouched (.failed e) rows known))
  | move, before =>
    (opLocal ctx account thread rows known op).map (fun q =>
      match q.2.2 with
      | .error e => .done (.untouched (.failed e) q.1 q.2.1)
      | .ok false => .done (.untouched .noOp q.1 q.2.1)
      | .ok true => .send q.1 q.2.1
          (if move then before else resolveThreadMessages ctx account thread q.1 acct.provider))

section Half

variable (ctx : Ctx) (acct : ResidentActionAccount) (account : AccountId) (thread : ThreadId)
variable (rows : Rows) (known : List LabelId) (op : MailOperation)

theorem mutateWithEngine_eq (ns : NamespaceAttribution) :
    mutateWithEngine ctx acct account thread rows known op ns =
      match localHalf ctx acct account thread rows known op with
      | none => none | some (.done e) => some e | some (.send rows known (.error e)) =>
        finish ctx account thread op (.localOnly e e.isRetryable) rows known []
      | some (.send rows known (.ok targets)) =>
        remoteWithEngine ctx acct account thread rows known op ns targets := by
  unfold mutateWithEngine localHalf
  cases isContainerMove op with
  | true =>
    cases resolveThreadMessages ctx account thread rows acct.provider with
    | error e => rfl
    | ok targets =>
      cases opLocal ctx account thread rows known op with
      | none => rfl
      | some q => rcases q with ⟨rows', known', e | _ | _⟩ <;> rfl
  | false =>
    cases opLocal ctx account thread rows known op with
    | none => rfl
    | some q =>
      rcases q with ⟨rows', known', e | _ | _⟩
      · rfl
      · rfl
      · simp only [Option.map_some]
        cases resolveThreadMessages ctx account thread rows' acct.provider <;> rfl

theorem prepareBatched_eq (key : RemoteBatchKey) (hop : op ≠ .permanentDelete) :
    prepareBatched ctx acct account thread rows known op key =
      match localHalf ctx acct account thread rows known op with
      | none => none | some (.done e) => some (.settled e) | some (.send rows known (.error e)) =>
        (finish ctx account thread op (.localOnly e e.isRetryable) rows known []).map .settled
      | some (.send rows known (.ok targets)) => some (.waiting key targets rows known) := by
  unfold prepareBatched localHalf
  rw [if_neg hop]
  cases isContainerMove op with
  | true =>
    cases resolveThreadMessages ctx account thread rows acct.provider with
    | error e => rfl
    | ok targets =>
      cases opLocal ctx account thread rows known op with
      | none => rfl
      | some q => rcases q with ⟨rows', known', e | _ | _⟩ <;> rfl
  | false =>
    cases opLocal ctx account thread rows known op with
    | none => rfl
    | some q =>
      rcases q with ⟨rows', known', e | _ | _⟩
      · rfl
      · rfl
      · simp only [Option.map_some]
        cases resolveThreadMessages ctx account thread rows' acct.provider <;> rfl

end Half

section Total

variable (ctx : Ctx) (acct : ResidentActionAccount) (account : AccountId) (thread : ThreadId)
variable (rows : Rows) (known : List LabelId)
variable {op : MailOperation} {key : RemoteBatchKey}

theorem opLocal_isSome (op : MailOperation) : (opLocal ctx account thread rows known op).isSome := by
  rw [opLocal, Option.isSome_map]
  exact namespacePreflight_isSome ctx account thread rows op

theorem finish_isSome (hop : isLocalOnly op = false) (outcome : ActionOutcome)
    (issued : List Issued) : (finish ctx account thread op outcome rows known issued).isSome := by
  rw [finish, Option.isSome_map, enqueueParams_isSome, hop]
  rfl

theorem dispatchLocalOnly_isSome (hop : isLocalOnly op) :
    (dispatchLocalOnly ctx account thread rows known op).isSome := by
  cases op <;> first | rfl | cases hop

/-- An operation that is no label operation and has a remote half has a batch key. -/
theorem fromOperation_isSome (hop : isLocalOnly op = false)
    (hlabel : dispatchLabelOp ctx (some acct) account thread rows known op = none) :
    ∃ key, RemoteBatchKey.fromOperation op = some key := by
  cases op <;> simp_all [isLocalOnly, dispatchLabelOp, RemoteBatchKey.fromOperation]

theorem isLocalOnly_of_key (hkey : RemoteBatchKey.fromOperation op = some key) : isLocalOnly op = false := by
  cases op <;> first | rfl | cases hkey

theorem dispatchMutation_isSome (hkey : RemoteBatchKey.fromOperation op = some key)
    (ids : List ObjectId) (ns : NamespaceAttribution) :
    (dispatchMutation ctx acct account op ids ns).isSome := by
  rw [dispatchMutation_eq_bulk hkey]
  exact dispatchBulkMutation_isSome ctx acct account key ids ns

theorem deleteWithEngine_isSome (hkey : RemoteBatchKey.fromOperation op = some key)
    (ns : NamespaceAttribution) : (deleteWithEngine ctx acct account thread rows known op ns).isSome := by
  have hop := isLocalOnly_of_key hkey
  unfold deleteWithEngine
  split
  · rfl
  rename_i targets _
  obtain ⟨remote, hremote⟩ :=
    Option.isSome_iff_exists.mp (dispatchMutation_isSome ctx acct account hkey targets ns)
  obtain ⟨local', hlocal⟩ :=
    Option.isSome_iff_exists.mp (opLocal_isSome ctx account thread rows known op)
  obtain ⟨result, issued⟩ := remote
  cases result with
  | error reason =>
    simp only [hremote]
    exact finish_isSome _ _ _ _ _ hop _ _
  | ok _ =>
    obtain ⟨rows', known', outcome⟩ := local'
    cases outcome <;>
    · simp only [hremote, hlocal]
      exact finish_isSome _ _ _ _ _ hop _ _

theorem remoteWithEngine_isSome (hkey : RemoteBatchKey.fromOperation op = some key)
    (ns : NamespaceAttribution) (targets : List ObjectId) :
    (remoteWithEngine ctx acct account thread rows known op ns targets).isSome := by
  obtain ⟨remote, hremote⟩ :=
    Option.isSome_iff_exists.mp (dispatchMutation_isSome ctx acct account hkey targets ns)
  simp only [remoteWithEngine, hremote]
  exact finish_isSome _ _ _ _ _ (isLocalOnly_of_key hkey) _ _

theorem localHalf_isSome (op : MailOperation) : (localHalf ctx acct account thread rows known op).isSome := by
  unfold localHalf
  split
  · rfl
  · rw [Option.isSome_map]
    exact opLocal_isSome ctx account thread rows known op

theorem mutateWithEngine_isSome (hkey : RemoteBatchKey.fromOperation op = some key)
    (ns : NamespaceAttribution) : (mutateWithEngine ctx acct account thread rows known op ns).isSome := by
  obtain ⟨half, hhalf⟩ :=
    Option.isSome_iff_exists.mp (localHalf_isSome ctx acct account thread rows known op)
  rw [mutateWithEngine_eq, hhalf]
  cases half with
  | done e => rfl
  | send rows' known' targets =>
    cases targets with
    | error e => exact finish_isSome _ _ _ _ _ (isLocalOnly_of_key hkey) _ _
    | ok ids => exact remoteWithEngine_isSome _ _ _ _ _ _ hkey _ _

theorem dispatchWithEngine_isSome (op : MailOperation) :
    (dispatchWithEngine ctx acct account thread rows known op).isSome := by
  unfold dispatchWithEngine
  split
  · rename_i hop
    exact dispatchLocalOnly_isSome _ _ _ _ _ hop
  rename_i hop
  obtain ⟨checked, hpre⟩ :=
    Option.isSome_iff_exists.mp (namespacePreflight_isSome ctx account thread rows op)
  rw [hpre]
  cases checked with
  | error e => rfl
  | ok ns =>
    simp only
    split
    · rfl
    rename_i hlabel
    obtain ⟨key, hkey⟩ := fromOperation_isSome _ _ _ _ _ _ (by simpa using hop) hlabel
    split
    · exact deleteWithEngine_isSome _ _ _ _ _ _ hkey ns
    · exact mutateWithEngine_isSome _ _ _ _ _ _ hkey ns

theorem prepareBatched_isSome (hkey : RemoteBatchKey.fromOperation op = some key) :
    (prepareBatched ctx acct account thread rows known op key).isSome := by
  by_cases hop : op = .permanentDelete
  · simp only [prepareBatched, if_pos hop]
    split <;> rfl
  obtain ⟨half, hhalf⟩ :=
    Option.isSome_iff_exists.mp (localHalf_isSome ctx acct account thread rows known op)
  rw [prepareBatched_eq _ _ _ _ _ _ _ _ hop, hhalf]
  cases half with
  | done e => rfl
  | send rows' known' targets =>
    cases targets with
    | error e =>
      simp only [Option.isSome_map]
      exact finish_isSome _ _ _ _ _ (isLocalOnly_of_key hkey) _ _
    | ok ids => rfl

theorem prepare_isSome (useBulk : Bool) (op : MailOperation) :
    (prepare ctx acct account useBulk thread rows known op).isSome := by
  have hengine := dispatchWithEngine_isSome ctx acct account thread rows known op
  obtain ⟨checked, hpre⟩ :=
    Option.isSome_iff_exists.mp (namespacePreflight_isSome ctx account thread rows op)
  rw [prepare, hpre]
  cases checked with
  | error e => rfl
  | ok ns =>
    simp only
    split
    · rwa [Option.isSome_map]
    split
    · rename_i hop
      rw [Option.isSome_map]
      exact dispatchLocalOnly_isSome _ _ _ _ _ hop
    · split
      · rwa [Option.isSome_map]
      · rename_i hkey
        exact prepareBatched_isSome _ _ _ _ _ _ hkey

theorem settleBatched_isSome (hop : isLocalOnly op = false) (key : RemoteBatchKey)
    (result : Except ActionError Unit) :
    (settleBatched ctx account key thread rows known op result).isSome := by
  obtain ⟨⟨rows', known', changed⟩, hlocal⟩ :=
    Option.isSome_iff_exists.mp (opLocal_isSome ctx account thread rows known op)
  unfold settleBatched
  simp only [hlocal]
  split
  · exact finish_isSome _ _ _ _ _ hop _ _
  · split
    · cases changed <;> rfl
    · rfl

end Total

/-! ## Waiting for a batch -/

section Waiting

variable {ctx : Ctx} {acct : ResidentActionAccount} {account : AccountId}
variable {thread : ThreadId} {rows rows' : Rows} {known known' : List LabelId} {op : MailOperation}
  {targets : List ObjectId} {key : RemoteBatchKey}

theorem localHalf_targets
    (h : localHalf ctx acct account thread rows known op = some (.send rows' known' (.ok targets))) :
    targets ≠ [] := by
  unfold localHalf at h
  split at h
  · cases h
  obtain ⟨⟨rows₁, known₁, changed⟩, -, hq⟩ := Option.map_eq_some_iff.mp h
  rcases changed with e | _ | _
  · cases hq
  · cases hq
  injection hq with _ _ hresolve
  split at hresolve
  · exact resolveThreadMessages_ne_nil hresolve
  · exact resolveThreadMessages_ne_nil hresolve

theorem prepareBatched_waiting {key' : RemoteBatchKey}
    (h : prepareBatched ctx acct account thread rows known op key =
      some (.waiting key' targets rows' known')) : targets ≠ [] := by
  by_cases hop : op = .permanentDelete
  · simp only [prepareBatched, if_pos hop] at h
    split at h
    · rename_i hresolve
      cases h
      exact resolveThreadMessages_ne_nil hresolve
    · cases h
  · rw [prepareBatched_eq _ _ _ _ _ _ _ _ hop] at h
    split at h
    · cases h
    · cases h
    · simp at h
    · rename_i hhalf
      cases h
      exact localHalf_targets hhalf

theorem prepare_waiting {useBulk : Bool}
    (h : prepare ctx acct account useBulk thread rows known op = some (.waiting key targets rows' known')) :
    isLocalOnly op = false ∧ targets ≠ [] := by
  unfold prepare at h
  split at h
  · cases h
  · cases h
  split at h
  · simp at h
  split at h
  · simp at h
  rename_i hop
  split at h
  · simp at h
  · exact ⟨by simpa using hop, prepareBatched_waiting h⟩

end Waiting

end Ratatoskr.Actions

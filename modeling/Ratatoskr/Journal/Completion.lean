import Ratatoskr.Journal.Summary
import Ratatoskr.Lib.Traced

/-!
# Journal.Completion

Whether a finalized plan is reported. `maybe_finalize` first commits the job and then reads the op
blobs back as calendar results, so a plan whose blobs are of the other wire type stays terminal and
silent.

* `calendarOutcomes_eq` : reading the blobs back gives the dispatcher's results, if all ops have one.
* `finalize_reports_iff` : which commits are followed by the completion frame.
-/

namespace Ratatoskr.Journal

open List
open Lib (Reaches)

variable {record : PlanId → Nat → Option OpRun} {job : Job}

theorem log_le_of_le_maxFrameBytes {n : Nat} (h : n ≤ maxFrameBytes) : Nat.log 10 n ≤ 7 :=
  Nat.le_of_lt_succ (Nat.log_lt_of_lt_pow' (by decide) (Nat.lt_of_le_of_lt h (by decide)))

theorem actionCompleted_fits (p : PlanId) {summary : PlanSummary} (htotal : summary.total ≤ maxFrameBytes)
    (hsum : summary.total =
      summary.localOnly + summary.remoteSucceeded + summary.remoteFailed + summary.conflicts) :
    (Notification.ActionCompleted p summary).frame.bytes ≤ maxFrameBytes := by
  have h1 := log_le_of_le_maxFrameBytes htotal
  have h2 := log_le_of_le_maxFrameBytes (n := summary.localOnly) (by omega)
  have h3 := log_le_of_le_maxFrameBytes (n := summary.remoteSucceeded) (by omega)
  have h4 := log_le_of_le_maxFrameBytes (n := summary.remoteFailed) (by omega)
  have h5 := log_le_of_le_maxFrameBytes (n := summary.conflicts) (by omega)
  have htext : textBytes "method" + textBytes "action.completed" + textBytes "params" +
      textBytes "plan_id" + textBytes "summary" + textBytes "total" + textBytes "local_only" +
      textBytes "remote_succeeded" + textBytes "remote_failed" + textBytes "conflicts" +
      textBytes "service_generation" + textBytes "jsonrpc" + textBytes "2.0" = 149 := by decide
  have hmax : maxFrameBytes = 4194304 := rfl
  simp only [Notification.frame, Notification.methodName, Notification.params, PlanSummary.toJson,
    Json.bytes, Json.fieldsBytes, length_cons, length_nil]
  have h6 : Nat.log 10 0 = 0 := rfl
  omega

/-- The results of a calendar plan, in the order of the ops, when the dispatcher returned one for
each of them. -/
def calendarResults (record : PlanId → Nat → Option OpRun) (job : Job) :
    Option (List CalendarOperationOutcome) :=
  (job.ops.insertionSort (fun a b => a.ordinal ≤ b.ordinal)).mapM (fun op =>
    match record job.jobId op.operationId with
    | some (.provider outcome) => some ⟨job.jobId, op.operationId, outcomeToWire outcome⟩
    | _ => none)

theorem fromJson_recorded {kind : Option PerOpJobKind} (rawKind : String) (p : PlanId) (o : Nat)
    {run : OpRun} (hmail : kind ≠ some .MailPlan) (hkind : ∀ outcome, run = .provider outcome → kind ≠ none) :
    CalendarOperationResult.fromJson (recorded kind rawKind p o run).2.1 =
      match run with
      | .provider outcome => some (outcomeToWire outcome) | _ => none := by
  cases run with
  | dispatchFailed error => rfl
  | corruptKind => rfl
  | provider outcome =>
    cases kind with
    | none => exact absurd rfl (hkind outcome rfl)
    | some k =>
      cases k with
      | MailPlan => exact absurd rfl hmail
      | CalendarPlan => exact CalendarOperationResult.fromJson_toJson _

theorem calendarOutcomes_eq (h : JobValid record job) (hops : ∀ op ∈ job.ops, op.status.isTerminal = true)
    (hmail : PerOpJobKind.fromSql job.kind ≠ some .MailPlan) :
    calendarOutcomes job.jobId (terminalRows job.ops) = calendarResults record job := by
  have hperm := perm_insertionSort (fun a b : OpRow => a.ordinal ≤ b.ordinal) job.ops
  have hsorted : ∀ op ∈ job.ops.insertionSort (fun a b => a.ordinal ≤ b.ordinal),
      OpValid record job op ∧ op.status.isTerminal = true :=
    fun op hop => ⟨h.ops op (hperm.mem_iff.mp hop), hops op (hperm.mem_iff.mp hop)⟩
  unfold calendarOutcomes calendarResults terminalRows
  generalize job.ops.insertionSort (fun a b => a.ordinal ≤ b.ordinal) = ops at hsorted
  induction ops with
  | nil => rfl
  | cons op ops ih =>
    obtain ⟨hv, hterm⟩ := hsorted op mem_cons_self
    have ih := ih (fun op hop => hsorted op (mem_cons_of_mem _ hop))
    unfold OpValid at hv
    cases hrec : record job.jobId op.operationId with
    | none =>
      rw [hrec] at hv
      rw [hv.1] at hterm
      cases hterm
    | some run =>
      rw [hrec] at hv
      obtain ⟨-, houtcome, hkind⟩ := hv
      have hblob := fromJson_recorded job.kind job.jobId op.operationId hmail hkind
      rw [filterMap_cons_some (by rw [houtcome]; rfl), mapM_cons, mapM_cons, ih]
      simp only [hblob, hrec]
      cases run <;> rfl

theorem calendarResults_ids {results : List CalendarOperationOutcome}
    (h : calendarResults record job = some results) :
    (results.map (·.operationId)).Perm (job.ops.map (·.operationId)) := by
  have hids : results.map (·.operationId) =
      (job.ops.insertionSort (fun a b => a.ordinal ≤ b.ordinal)).map (·.operationId) := by
    apply Lib.mapM_eq_some_map _ h
    intro op outcome hop
    split at hop
    · cases hop
      rfl
    · cases hop
  rw [hids]
  exact (perm_insertionSort _ job.ops).map _

/-- Ops of a job with an unknown kind are not dispatched, so they have no calendar result. -/
theorem calendarResults_corrupt (h : JobValid record job)
    (hkind : PerOpJobKind.fromSql job.kind = none) : calendarResults record job = none := by
  have hperm := perm_insertionSort (fun a b : OpRow => a.ordinal ≤ b.ordinal) job.ops
  unfold calendarResults
  cases hsorted : job.ops.insertionSort (fun a b => a.ordinal ≤ b.ordinal) with
  | nil =>
    rw [hsorted] at hperm
    exact absurd hperm.symm.eq_nil h.nonempty
  | cons op ops =>
    have hv := h.ops op (hperm.mem_iff.mp (by rw [hsorted]; exact mem_cons_self))
    rw [mapM_cons]
    unfold OpValid at hv
    cases hrec : record job.jobId op.operationId with
    | none => rfl
    | some run =>
      rw [hrec] at hv
      cases run with
      | dispatchFailed error => rfl
      | corruptKind => rfl
      | provider outcome => exact absurd hkind (hv.2.2 outcome rfl)

/-- The completion frames a plan of this kind owes: a calendar frame has one outcome for each op. -/
def Reported (job : Job) (sent : List Notification) : Prop :=
  match PerOpJobKind.fromSql job.kind with
  | some .MailPlan => ∃ summary, .ActionCompleted job.jobId summary ∈ sent
  | some .CalendarPlan => ∃ results, .CalendarActionCompleted job.jobId results ∈ sent ∧
      (results.map (·.operationId)).Perm (job.ops.map (·.operationId))
  | none => (∃ summary, .ActionCompleted job.jobId summary ∈ sent) ∧
      ∃ results, .CalendarActionCompleted job.jobId results ∈ sent ∧
        (results.map (·.operationId)).Perm (job.ops.map (·.operationId))

/-- A mail plan, or a calendar plan for each of whose ops the dispatcher returned a result and whose
results fit in one frame. -/
def reportable (record : PlanId → Nat → Option OpRun) (job : Job) : Prop :=
  match PerOpJobKind.fromSql job.kind with
  | some .MailPlan => True
  | some .CalendarPlan => ∃ results, calendarResults record job = some results ∧
      (Notification.CalendarActionCompleted job.jobId results).frame.bytes ≤ maxFrameBytes
  | none => False

theorem reported_completion_iff (h : JobValid record job)
    (hops : ∀ op ∈ job.ops, op.status.isTerminal = true) :
    Reported job (completion job.jobId (PerOpJobKind.fromSql job.kind)
      (summarize (countOps job.ops) (terminalRows job.ops)) (terminalRows job.ops)) ↔
      reportable record job := by
  unfold Reported reportable completion
  cases hkind : PerOpJobKind.fromSql job.kind with
  | none =>
    have hnone := calendarOutcomes_eq h hops (by rw [hkind]; simp)
    rw [calendarResults_corrupt h hkind] at hnone
    simp [hnone]
  | some kind =>
    cases kind with
    | MailPlan =>
      obtain ⟨hlen, hsum⟩ := summarize_total h hops
      simp only [iff_true]
      exact ⟨_, mem_sendMustDeliver.mpr ⟨rfl, actionCompleted_fits _ (hlen ▸ h.oneFrame) hsum⟩⟩
    | CalendarPlan =>
      have heq := calendarOutcomes_eq h hops (by rw [hkind]; simp)
      cases hresults : calendarResults record job with
      | none =>
        rw [hresults] at heq
        simp [heq]
      | some results =>
        rw [hresults] at heq
        simp only [heq, mem_sendMustDeliver]
        constructor
        · rintro ⟨results', ⟨hsame, hfits⟩, -⟩
          exact ⟨results, rfl, hfits⟩
        · rintro ⟨results', hsame, hfits⟩
          cases hsame
          exact ⟨results, ⟨rfl, hfits⟩, calendarResults_ids hresults⟩

/-- After every run, a commit of `maybe_finalize` is followed by the completion frames exactly when
the plan is reportable. -/
theorem finalize_reports_iff {s t : Service} (hs : Reaches step (fun _ _ => True) start s)
    {p : PlanId} {kind : Option PerOpJobKind} {counts : OpStatusCounts} {rows : List (Nat × Json)}
    {next : Next} (hpc : s.pc = .finalize p kind counts rows next) (ht : step s (.finalize true) = .ok t) :
    ∃ job ∈ s.journal, job.jobId = p ∧ setFinal (terminalStatus counts) (summarize counts rows) job ∈
        t.journal ∧ ∃ sent, t.sent = s.sent ++ sent ∧ (Reported job sent ↔ reportable s.record job) := by
  have hinv := inv_reaches hs
  have hold := hinv.pc
  rw [hpc] at hold
  obtain ⟨⟨job, hopen, hops, rfl, rfl⟩, -⟩ := hold
  obtain ⟨hjob, rfl, rfl, -⟩ := hopen
  simp only [step, hpc, if_true] at ht
  cases ht
  refine ⟨job, hjob, rfl, mem_updateJob.mpr ⟨job, hjob, (if_pos rfl).symm⟩, _, rfl, ?_⟩
  exact reported_completion_iff (hinv.valid.jobs job hjob) hops

def deletePlan : CalendarActionPlan := ⟨1, [⟨7, "acc-1", some "evt-1", .null⟩], by decide⟩

/-- The dispatcher deletes the event, and the plan is reported with that one outcome. -/
theorem finalize_reports_deleted :
    ∃ s t job, Reaches step (fun _ _ => True) start s ∧ step s (.finalize true) = .ok t ∧
      job ∈ s.journal ∧ reportable s.record job ∧ ∃ sent, t.sent = s.sent ++ sent ∧ Reported job sent := by
  have h0 : Reaches step (fun _ _ => True) start start := .refl _
  have h1 := h0.tail (a := .executeCalendarPlan deletePlan 100 true) trivial rfl
  have h2 := h1.tail (a := .startPass (some [])) trivial rfl
  have h3 := h2.tail (a := .sweepNext) trivial rfl
  have h4 := h3.tail (a := .lease (.op 1 7)) trivial rfl
  have h5 := h4.tail (a := .run (.ok .Success) (.ok ())) trivial rfl
  have h6 := h5.tail (a := .count true) trivial rfl
  have h7 := h6.tail (a := .readRows true) trivial rfl
  obtain ⟨job, hjob, hid, -, sent, hsent, hiff⟩ := finalize_reports_iff h7 rfl rfl
  refine ⟨_, _, job, h7, rfl, hjob, ?_⟩
  refine (fun h => ⟨h, sent, hsent, hiff.mpr h⟩) ?_
  obtain rfl := mem_singleton.mp hjob
  exact ⟨[⟨1, 7, .Success⟩], rfl, by decide⟩

/-- The journaled blob of a calendar op cannot be deserialized: the op is recorded as failed, the job
is committed as failed, and no frame reports it. -/
theorem undecodable_op_unreported :
    ∃ s t job, Reaches step (fun _ _ => True) start s ∧ step s (.finalize true) = .ok t ∧
      job ∈ s.journal ∧ t.journal.map (·.status) = [.Failed] ∧ t.sent = s.sent ∧
      ∀ sent, t.sent = s.sent ++ sent → ¬ Reported job sent := by
  have h0 : Reaches step (fun _ _ => True) start start := .refl _
  have h1 := h0.tail (a := .executeCalendarPlan deletePlan 100 true) trivial rfl
  have h2 := h1.tail (a := .startPass (some [])) trivial rfl
  have h3 := h2.tail (a := .sweepNext) trivial rfl
  have h4 := h3.tail (a := .lease (.op 1 7)) trivial rfl
  have h5 := h4.tail (a := .run (.error "deserialize WireCalendarOperation: expected value") (.ok ()))
    trivial rfl
  have h6 := h5.tail (a := .fallback true) trivial rfl
  have h7 := h6.tail (a := .count true) trivial rfl
  have h8 := h7.tail (a := .readRows true) trivial rfl
  refine ⟨_, _, _, h8, rfl, mem_singleton.mpr rfl, rfl, rfl, ?_⟩
  intro sent hsent
  obtain rfl : sent = [] := self_eq_append_right.mp hsent
  rintro ⟨results, hmem, -⟩
  cases hmem

end Ratatoskr.Journal

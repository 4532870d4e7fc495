import Ratatoskr.Journal.Pass

/-!
# Journal.Summary

What a terminal job says about its ops, and the journal's state machine as a whole.

* `summarize_total` : the summary's parts add up; `terminalStatus_eq_completed_iff` and its siblings :
  the job status says how many ops are done.
* `journal_state_machine` : what every interleaving of handlers, worker and crashes keeps.
-/

namespace Ratatoskr.Journal

open List
open Lib (Reaches)

theorem countOps_total (ops : List OpRow) : (countOps ops).total = ops.length := by
  induction ops with
  | nil => rfl
  | cons op ops ih =>
    simp only [OpStatusCounts.total, countOps, countStatus, countP_cons] at ih ⊢
    cases op.status <;> simp <;> omega

theorem countStatus_eq_length {ops : List OpRow} {status : OpStatus} :
    countStatus ops status = ops.length ↔ ∀ op ∈ ops, op.status = status := by
  rw [countStatus]
  simp

theorem countStatus_eq_zero {ops : List OpRow} {status : OpStatus} :
    countStatus ops status = 0 ↔ ∀ op ∈ ops, op.status ≠ status := by
  rw [countStatus]
  simp

section Status

variable {ops : List OpRow}

theorem terminalStatus_eq_completed_iff :
    terminalStatus (countOps ops) = .Completed ↔ ∀ op ∈ ops, op.status = .Done := by
  rw [← countStatus_eq_length, ← countOps_total]
  unfold terminalStatus
  constructor
  · intro h
    split at h
    · assumption
    · split at h <;> cases h
  · intro h
    exact if_pos h

theorem terminalStatus_eq_failed_iff (hne : ops ≠ []) :
    terminalStatus (countOps ops) = .Failed ↔ ∀ op ∈ ops, op.status ≠ .Done := by
  rw [← countStatus_eq_zero]
  have hlen : 0 < ops.length := length_pos_iff.mpr hne
  have htotal := countOps_total ops
  have hdone : (countOps ops).done = countStatus ops .Done := rfl
  unfold terminalStatus
  constructor
  · intro h
    split at h
    · cases h
    · split at h
      · assumption
      · cases h
  · intro h
    rw [if_neg (by omega), if_pos (by omega)]

theorem terminalStatus_eq_partial_iff (hne : ops ≠ []) : terminalStatus (countOps ops) = .Partial ↔
      (∃ op ∈ ops, op.status = .Done) ∧ ∃ op ∈ ops, op.status ≠ .Done := by
  have hc : terminalStatus (countOps ops) = .Completed ↔ ∀ op ∈ ops, op.status = .Done :=
    terminalStatus_eq_completed_iff
  have hf := terminalStatus_eq_failed_iff hne
  constructor
  · intro h
    rw [h] at hc hf
    constructor
    · by_contra hnone
      exact absurd (hf.mpr (by push Not at hnone; exact hnone)) (by decide)
    · by_contra hnone
      exact absurd (hc.mpr (by push Not at hnone; exact hnone)) (by decide)
  · rintro ⟨⟨a, ha, hda⟩, b, hb, hdb⟩
    cases hs : terminalStatus (countOps ops) with
    | Completed => exact absurd (hc.mp hs b hb) hdb
    | Failed => exact absurd hda (hf.mp hs a ha)
    | Partial => rfl

end Status

theorem recorded_localOnly {kind : Option PerOpJobKind} {rawKind : String} {p : PlanId} {o : Nat}
    {run : OpRun} (h : outcomeBlobIsLocalOnly (recorded kind rawKind p o run).2.1 = true) :
    (recorded kind rawKind p o run).1 = .Done := by
  cases run with
  | dispatchFailed error => cases h
  | corruptKind => cases h
  | provider outcome =>
    cases outcome with
    | Success => cases kind with
      | none => rfl
      | some k => cases k <;> rfl
    | NoOp => cases kind with
      | none => rfl
      | some k => cases k <;> rfl
    | LocalOnly reason retryable => cases kind with
      | none => rfl
      | some k => cases k <;> rfl
    | Failed error => cases kind with
      | none => cases error <;> cases h
      | some k => cases k with
        | MailPlan => cases error <;> cases h
        | CalendarPlan => cases h

variable {record : PlanId → Nat → Option OpRun}

theorem localOnly_le_done {job : Job} (h : JobValid record job) :
    (terminalRows job.ops).countP (fun row => outcomeBlobIsLocalOnly row.2) ≤
      countStatus job.ops .Done := by
  have hperm := perm_insertionSort (fun a b : OpRow => a.ordinal ≤ b.ordinal) job.ops
  rw [countStatus, ← hperm.countP_eq, terminalRows, countP_filterMap]
  refine countP_mono_left fun op hop htag => ?_
  have hv := h.ops op (hperm.mem_iff.mp hop)
  unfold OpValid at hv
  cases hrec : record job.jobId op.operationId with
  | none =>
    rw [hrec] at hv
    rw [hv.2] at htag
    cases htag
  | some run =>
    rw [hrec] at hv
    rw [hv.2.1] at htag
    rw [hv.1, recorded_localOnly htag]
    rfl

theorem summarize_total {job : Job} (h : JobValid record job)
    (hops : ∀ op ∈ job.ops, op.status.isTerminal = true) :
    let summary := summarize (countOps job.ops) (terminalRows job.ops)
    summary.total = job.ops.length ∧
      summary.total =
        summary.localOnly + summary.remoteSucceeded + summary.remoteFailed + summary.conflicts := by
  have hle := localOnly_le_done h
  have hzero := nonTerminal_eq_zero.mpr hops
  have htotal := countOps_total job.ops
  simp only [summarize, OpStatusCounts.total, OpStatusCounts.nonTerminal, countOps] at *
  omega

/-! ## The state machine -/

/-- A terminal job: its ops are terminal and the summary and the status count them. -/
structure Summed (job : Job) : Prop where
  ops : ∀ op ∈ job.ops, op.status.isTerminal = true
  summary : ∃ summary, job.summary = some summary ∧ summary.total = job.ops.length ∧
    summary.total =
      summary.localOnly + summary.remoteSucceeded + summary.remoteFailed + summary.conflicts
  completed : job.status = .Completed ↔ ∀ op ∈ job.ops, op.status = .Done
  failed : job.status = .Failed ↔ ∀ op ∈ job.ops, op.status ≠ .Done
  partly : job.status = .Partial ↔
    (∃ op ∈ job.ops, op.status = .Done) ∧ ∃ op ∈ job.ops, op.status ≠ .Done

theorem JobTerminalStatus.toStatus_inj {a b : JobTerminalStatus} : a.toStatus = b.toStatus ↔ a = b := by
  cases a <;> cases b <;> decide

theorem JobValid.summed {job : Job} (h : JobValid record job)
    (hterm : job.status.isTerminal = true) : Summed job := by
  obtain ⟨hops, hstatus, hsummary⟩ := h.final hterm
  refine ⟨hops, ⟨_, hsummary, summarize_total h hops⟩, ?_, ?_, ?_⟩
  · rw [hstatus, ← terminalStatus_eq_completed_iff]
    exact JobTerminalStatus.toStatus_inj (b := .Completed)
  · rw [hstatus, ← terminalStatus_eq_failed_iff h.nonempty]
    exact JobTerminalStatus.toStatus_inj (b := .Failed)
  · rw [hstatus, ← terminalStatus_eq_partial_iff h.nonempty]
    exact JobTerminalStatus.toStatus_inj (b := .Partial)

/-- After any run, and whatever follows it: terminal rows stay as they are, a terminal job has only
terminal ops and sums them up, and a pass without database failures strands no job. -/
theorem journal_state_machine {s t : Service} (hs : Reaches step (fun _ _ => True) start s)
    (ht : Reaches step (fun _ _ => True) s t) :
    Keeps s.journal t.journal ∧ (∀ job ∈ s.journal, job.status.isTerminal = true → Summed job) ∧
    (s.pc = .idle → s.clean = true → ∀ job ∈ s.journal,
      (∀ op ∈ job.ops, op.status.isTerminal = true) → job.status.isTerminal = true) := by
  have hinv := inv_reaches hs
  refine ⟨keeps_reaches hinv ht, ?_, ?_⟩
  · intro job hjob hterm
    exact (hinv.valid.jobs job hjob).summed hterm
  · intro hpc hclean job hjob hops
    by_contra hlive
    have hunf : isUnfinalized job = true :=
      isUnfinalized_iff.mpr ⟨(hinv.valid.jobs job hjob).perOp, by simpa using hlive, hops⟩
    have hmem := hinv.swept hclean job hjob hunf
    rw [hpc] at hmem
    cases hmem

def archivePlan : ActionWirePlan := ⟨1, [⟨7, "acc-1", "thr-1", .null⟩], by decide⟩

theorem journal_state_machine_one_plan :
    ∃ s, Reaches step (fun _ _ => True) start s ∧ s.pc = .idle ∧ s.clean = true ∧
      s.journal.map (·.status) = [.Completed] ∧ Keeps s.journal s.journal ∧
      ∀ job ∈ s.journal, job.status.isTerminal = true → Summed job := by
  have h0 : Reaches step (fun _ _ => True) start start := .refl _
  have h1 := h0.tail (a := .executePlan archivePlan 100 true) trivial rfl
  have h2 := h1.tail (a := .startPass (some [])) trivial rfl
  have h3 := h2.tail (a := .sweepNext) trivial rfl
  have h4 := h3.tail (a := .lease (.op 1 7)) trivial rfl
  have h5 := h4.tail (a := .run (.ok .Success) (.ok ())) trivial rfl
  have h6 := h5.tail (a := .count true) trivial rfl
  have h7 := h6.tail (a := .readRows true) trivial rfl
  have h8 := h7.tail (a := .finalize true) trivial rfl
  have h9 := h8.tail (a := .lease .none) trivial rfl
  have h := journal_state_machine h9 (.refl _)
  exact ⟨_, h9, rfl, rfl, rfl, h.1, h.2.1⟩

end Ratatoskr.Journal

import Ratatoskr.Journal.Invariant

/-!
# Journal.Pass

The steps of the worker's pass, one lemma for each transaction, and the invariant along runs.

* `Keeps` : rows that are terminal in one journal stand unchanged in the other.
* `inv_step`, `keeps_step` : what one step does; `inv_reaches`, `keeps_reaches` : what a run does.
-/

namespace Ratatoskr.Journal

open List
open Lib (Reaches)

theorem isUnfinalized_iff {job : Job} :
    isUnfinalized job = true ↔ (job.kind ≠ "send" ∧ job.kind ≠ "mark_chat_read") ∧
      job.status.isTerminal = false ∧ ∀ op ∈ job.ops, op.status.isTerminal = true := by
  simp only [isUnfinalized, Bool.and_eq_true, bne_iff_ne, Bool.not_eq_true', all_eq_true]
  tauto

@[simp] theorem Next.plans_pc (next : Next) : next.pc.plans = next.plans := by
  cases next <;> rfl

theorem Next.Valid.pc {j : Tables} {p : PlanId} {next : Next} (h : next.Valid j p) : PcValid j next.pc := by
  cases next with
  | drain => trivial
  | sweep rest => exact ⟨(nodup_cons.mp h.1).2, h.2⟩

/-- `b` is a later state of the job `a`: what was terminal in `a` is the same in `b`. -/
structure Job.Keeps (a b : Job) : Prop where
  id : b.jobId = a.jobId
  job : a.status.isTerminal = true → b.status = a.status ∧ b.summary = a.summary
  ops : ∀ op ∈ a.ops, ∃ op' ∈ b.ops, op'.operationId = op.operationId ∧
    (op.status.isTerminal = true → op'.status = op.status ∧ op'.outcome = op.outcome)

/-- Nothing that is terminal in `j` has changed in `j'`. -/
def Keeps (j j' : Tables) : Prop := ∀ a ∈ j, ∃ b ∈ j', a.Keeps b

theorem Job.Keeps.refl (a : Job) : a.Keeps a :=
  ⟨rfl, fun _ => ⟨rfl, rfl⟩, fun op hop => ⟨op, hop, rfl, fun _ => ⟨rfl, rfl⟩⟩⟩

theorem Job.Keeps.trans {a b c : Job} (h : a.Keeps b) (k : b.Keeps c) : a.Keeps c := by
  refine ⟨k.id.trans h.id, ?_, ?_⟩
  · intro ha
    obtain ⟨hs, hm⟩ := h.job ha
    obtain ⟨ks, km⟩ := k.job (by rw [hs]; exact ha)
    exact ⟨ks.trans hs, km.trans hm⟩
  · intro op hop
    obtain ⟨op', hop', hid, hkeep⟩ := h.ops op hop
    obtain ⟨op'', hop'', kid, kkeep⟩ := k.ops op' hop'
    refine ⟨op'', hop'', kid.trans hid, ?_⟩
    intro hterm
    obtain ⟨hs, ho⟩ := hkeep hterm
    obtain ⟨ks, ko⟩ := kkeep (by rw [hs]; exact hterm)
    exact ⟨ks.trans hs, ko.trans ho⟩

theorem Keeps.refl (j : Tables) : Keeps j j := fun a ha => ⟨a, ha, .refl a⟩

theorem Keeps.trans {j j' j'' : Tables} (h : Keeps j j') (k : Keeps j' j'') : Keeps j j'' := by
  intro a ha
  obtain ⟨b, hb, hab⟩ := h a ha
  obtain ⟨c, hc, hbc⟩ := k b hb
  exact ⟨c, hc, hab.trans hbc⟩

theorem Keeps.append (j : Tables) (new : Job) : Keeps j (j ++ [new]) :=
  fun a ha => ⟨a, mem_append_left _ ha, .refl a⟩

theorem Keeps.updateJob {j : Tables} {p : PlanId} {f : Job → Job}
    (h : ∀ job ∈ j, job.jobId = p → job.Keeps (f job)) : Keeps j (updateJob j p f) := by
  intro a ha
  by_cases hid : a.jobId = p
  · exact ⟨f a, mem_updateJob.mpr ⟨a, ha, (if_pos hid).symm⟩, h a ha hid⟩
  · exact ⟨a, mem_updateJob.mpr ⟨a, ha, (if_neg hid).symm⟩, .refl a⟩

theorem Job.Keeps.updateOp {job : Job} {o : Nat} {f : OpRow → OpRow}
    (hid : ∀ op, (f op).operationId = op.operationId)
    (h : ∀ op ∈ job.ops, op.operationId = o → op.status.isTerminal = false) :
    job.Keeps (Journal.updateOp job o f) := by
  refine ⟨rfl, fun _ => ⟨rfl, rfl⟩, ?_⟩
  intro op hop
  refine ⟨_, mem_map_of_mem hop, ?_⟩
  split
  · rename_i ho
    refine ⟨hid op, fun hterm => ?_⟩
    rw [h op hop ho] at hterm
    cases hterm
  · exact ⟨rfl, fun _ => ⟨rfl, rfl⟩⟩

theorem keeps_recover (j : Tables) : Keeps j (recoverStaleLeases j) := by
  intro a ha
  refine ⟨_, mem_map_of_mem ha, ?_, ?_, ?_⟩
  · rw [recoverJob_eq]
  · intro hterm
    rw [recoverJob_of_terminal hterm]
    exact ⟨rfl, rfl⟩
  · intro op hop
    refine ⟨recoverOp op, mem_map_of_mem hop, recoverOp_operationId op, ?_⟩
    intro hterm
    rw [recoverOp_of_terminal hterm]
    exact ⟨rfl, rfl⟩

section Writes

variable {s : Service} {job : Job} {row : OpRow}

theorem Valid.row_eq (h : Valid s) (hjob : job ∈ s.journal) (hrow : row ∈ job.ops) {op : OpRow}
    (hop : op ∈ job.ops) (hid : op.operationId = row.operationId) : op = row :=
  inj_on_of_nodup_map (h.jobs job hjob).ids hop hrow hid

theorem Inv.leaseOp (h : Inv s) {r : Job × OpRow} (hr : r ∈ readyOps s.journal)
    (hpc : s.pc = .lease) (leases : List (PlanId × Nat)) :
    Inv { s with
      journal := leaseOp s.journal r.1.jobId r.2.operationId
      pc := .run (leasedOp r.1 r.2)
      leases := leases } := by
  obtain ⟨job, row⟩ := r
  obtain ⟨hjob, hlive, hrow, hpending⟩ := mem_readyOps.mp hr
  have hnew : ∀ job' ∈ s.journal, job'.jobId = job.jobId → job' = job :=
    fun job' hjob' hid => eq_of_jobId h.valid.ids hjob' hjob hid
  refine ⟨?_, ?_, ?_⟩
  · refine h.valid.updateJob rfl (fun _ => rfl) (fun _ _ _ => rfl) (mem_map_of_mem hjob) ?_
    intro job' hjob' hid
    obtain rfl := hnew job' hjob' hid
    apply (h.valid.jobs job' hjob').lease hlive
    intro op hop ho
    rw [h.valid.row_eq hjob hrow hop ho]
    exact hpending
  · refine ⟨updateOp job row.operationId setLeased, setLeased row,
      ⟨mem_updateJob.mpr ⟨job, hjob, (if_pos rfl).symm⟩, rfl, rfl, hlive⟩, ?_, rfl, rfl, rfl, rfl⟩
    exact mem_map.mpr ⟨row, hrow, if_pos rfl⟩
  · intro hclean job' hjob' hunf
    obtain ⟨b, hb, rfl⟩ := mem_updateJob.mp hjob'
    have hnone : b.jobId ∉ ([] : List PlanId) := not_mem_nil
    by_cases hid : b.jobId = job.jobId
    · obtain rfl := hnew b hb hid
      rw [if_pos rfl] at hunf
      have hterm := (isUnfinalized_iff.mp hunf).2.2 (setLeased row)
        (mem_map.mpr ⟨row, hrow, if_pos rfl⟩)
      cases hterm
    · rw [if_neg hid] at hunf
      have hold := h.swept hclean b hb hunf
      rw [hpc] at hold
      exact absurd hold hnone

theorem keeps_leaseOp (h : Inv s) {r : Job × OpRow} (hr : r ∈ readyOps s.journal) :
    Keeps s.journal (leaseOp s.journal r.1.jobId r.2.operationId) := by
  obtain ⟨hjob, hlive, hrow, hpending⟩ := mem_readyOps.mp hr
  apply Keeps.updateJob
  intro job' hjob' hid
  obtain rfl := eq_of_jobId h.valid.ids hjob' hjob hid
  refine .updateOp (fun _ => rfl) ?_
  intro op hop ho
  rw [h.valid.row_eq hjob hrow hop ho, hpending]
  rfl

variable {op : LeasedOp} {run : OpRun}

theorem Inv.persist (h : Inv s) (hheld : Held s.journal op job row) (hplans : s.pc.plans = [])
    (hkind : ∀ outcome, run = .provider outcome → op.kind ≠ none) :
    Inv { persist s op run with pc := .count op.planId op.kind .drain } := by
  obtain ⟨⟨hjob, hjid, hjkind, hlive⟩, hrow, hid, hleased, hraw, -⟩ := hheld
  have hnew : ∀ job' ∈ s.journal, job'.jobId = op.planId → job' = job :=
    fun job' hjob' hid => eq_of_jobId h.valid.ids hjob' hjob (hid.trans hjid.symm)
  refine ⟨?_, ⟨⟨_, mem_updateJob.mpr ⟨job, hjob, (if_pos hjid).symm⟩, hjid, hjkind, hlive⟩, trivial⟩, ?_⟩
  · refine h.valid.updateJob rfl (fun _ => rfl) ?_ (hjid ▸ mem_map_of_mem hjob) ?_
    · intro p o hp
      exact if_neg (fun heq => hp heq.1)
    · intro job' hjob' hid'
      obtain rfl := hnew job' hjob' hid'
      rw [← hjkind, hraw, ← hjid]
      apply (h.valid.jobs job' hjob').mark hlive
      · intro outcome hrun
        rw [hjkind]
        exact hkind outcome hrun
      · intro o ho
        exact if_neg (fun heq => ho heq.2)
      · exact if_pos ⟨hjid, rfl⟩
  · intro hclean job' hjob' hunf
    obtain ⟨b, hb, rfl⟩ := mem_updateJob.mp hjob'
    by_cases hb' : b.jobId = op.planId
    · rw [if_pos hb']
      exact mem_cons.mpr (.inl hb')
    · rw [if_neg hb'] at hunf ⊢
      have hold := h.swept hclean b hb hunf
      rw [hplans] at hold
      cases hold

theorem keeps_persist (h : Inv s) (hheld : Held s.journal op job row) :
    Keeps s.journal (persist s op run).journal := by
  obtain ⟨⟨hjob, hjid, hjkind, hlive⟩, hrow, hid, hleased, hraw, -⟩ := hheld
  apply Keeps.updateJob
  intro job' hjob' hid'
  obtain rfl := eq_of_jobId h.valid.ids hjob' hjob (hid'.trans hjid.symm)
  refine .updateOp (fun _ => rfl) ?_
  intro o ho hoid
  rw [h.valid.row_eq hjob hrow ho (hoid.trans hid.symm), hleased]
  rfl

variable {p : PlanId} {kind : Option PerOpJobKind}

theorem Inv.commit {next : Next} (h : Inv s) (hopen : Open s.journal p kind job)
    (hops : ∀ op ∈ job.ops, op.status.isTerminal = true) (hnext : next.Valid s.journal p)
    (hplans : s.pc.plans = p :: next.plans) :
    Inv { commit s p kind (countOps job.ops) (terminalRows job.ops) with pc := next.pc } := by
  obtain ⟨hjob, hjid, -, hlive⟩ := hopen
  have hnew : ∀ job' ∈ s.journal, job'.jobId = p → job' = job :=
    fun job' hjob' hid => eq_of_jobId h.valid.ids hjob' hjob (hid.trans hjid.symm)
  have hstays : ∀ b ∈ s.journal, b.jobId ≠ p →
      b ∈ finalizeJob s.journal p (terminalStatus (countOps job.ops))
        (summarize (countOps job.ops) (terminalRows job.ops)) :=
    fun b hb hne => mem_updateJob.mpr ⟨b, hb, (if_neg hne).symm⟩
  refine ⟨?_, ?_, ?_⟩
  · refine h.valid.updateJob rfl (fun _ => rfl) (fun _ _ _ => rfl)
      (hjid ▸ mem_map_of_mem hjob) ?_
    intro job' hjob' hid
    obtain rfl := hnew job' hjob' hid
    exact (h.valid.jobs job' hjob').setFinal hops
  · cases next with
    | drain => trivial
    | sweep rest =>
      obtain ⟨hnodup, hrest⟩ := hnext
      obtain ⟨hp, hnodup⟩ := nodup_cons.mp hnodup
      refine ⟨hnodup, ?_⟩
      intro x hx
      obtain ⟨b, hopen, hterm⟩ := hrest x hx
      have hne : b.jobId ≠ p := by
        intro heq
        exact hp (heq ▸ hopen.id ▸ mem_map_of_mem hx)
      exact ⟨b, ⟨hstays b hopen.mem hne, hopen.id, hopen.kind, hopen.live⟩, hterm⟩
  · intro hclean job' hjob' hunf
    obtain ⟨b, hb, rfl⟩ := mem_updateJob.mp hjob'
    by_cases hid : b.jobId = p
    · rw [if_pos hid] at hunf
      have hterm := (isUnfinalized_iff.mp hunf).2.1
      simp [setFinal] at hterm
    · rw [if_neg hid] at hunf ⊢
      have hold := h.swept hclean b hb hunf
      rw [hplans] at hold
      rcases mem_cons.mp hold with heq | hmem
      · exact absurd heq hid
      · simpa using hmem

theorem keeps_commit {counts : OpStatusCounts} {rows : List (Nat × Json)} (h : Inv s)
    (hopen : Open s.journal p kind job) : Keeps s.journal (commit s p kind counts rows).journal := by
  apply Keeps.updateJob
  intro job' hjob' hid
  obtain rfl := eq_of_jobId h.valid.ids hjob' hopen.mem (hid.trans hopen.id.symm)
  refine ⟨rfl, ?_, fun op hop => ⟨op, hop, rfl, fun _ => ⟨rfl, rfl⟩⟩⟩
  intro hterm
  rw [hopen.live] at hterm
  cases hterm

end Writes

/-! ## One step -/

section Step

variable {s t : Service}

attribute [local simp] step

theorem Inv.goto (h : Inv s) {pc : Pc} {clean : Bool} (hpc : PcValid s.journal pc)
    (hswept : clean = true → s.clean = true ∧ ∀ p ∈ s.pc.plans, p ∉ pc.plans →
      ∀ job ∈ s.journal, job.jobId = p → isUnfinalized job = false) :
    Inv { s with pc := pc, clean := clean } := by
  refine ⟨⟨h.valid.ids, h.valid.jobs, h.valid.known⟩, hpc, ?_⟩
  intro hclean job hjob hunf
  obtain ⟨hold, hdrop⟩ := hswept hclean
  have hmem := h.swept hold job hjob hunf
  by_contra hnot
  rw [hdrop _ hmem hnot job hjob rfl] at hunf
  cases hunf

theorem inv_startPass {stranded : Option (List (PlanId × Option PerOpJobKind))} (h : Inv s)
    (hs : step s (.startPass stranded) = .ok t) : Inv t ∧ t.journal = s.journal := by
  simp only [step] at hs
  split at hs
  · cases hs
    exact ⟨h.goto ⟨nodup_nil, fun x hx => by cases hx⟩ (by simp), rfl⟩
  · split at hs
    · rename_i found _ hperm
      cases hs
      refine ⟨⟨⟨h.valid.ids, h.valid.jobs, h.valid.known⟩, ⟨?_, ?_⟩, ?_⟩, rfl⟩
      · have hids : ((unfinalizedPerOpPlanJobs s.journal).map Prod.fst).Nodup := by
          rw [unfinalizedPerOpPlanJobs, map_map]
          exact h.valid.ids.sublist (List.filter_sublist.map _)
        exact (hperm.map Prod.fst).nodup_iff.mpr hids
      · intro x hx
        have hx := hperm.mem_iff.mp hx
        obtain ⟨job, hjob, rfl⟩ := mem_map.mp hx
        obtain ⟨hmem, hunf⟩ := mem_filter.mp hjob
        obtain ⟨-, hlive, hops⟩ := isUnfinalized_iff.mp hunf
        exact ⟨job, ⟨hmem, rfl, rfl, hlive⟩, hops⟩
      · intro _ job hjob hunf
        have hmem : (job.jobId, PerOpJobKind.fromSql job.kind) ∈ found :=
          hperm.mem_iff.mpr (mem_map.mpr ⟨job, mem_filter.mpr ⟨hjob, hunf⟩, rfl⟩)
        exact mem_map.mpr ⟨_, hmem, rfl⟩
    · cases hs
  · cases hs

theorem inv_sweepNext (h : Inv s) (hs : step s .sweepNext = .ok t) : Inv t ∧ t.journal = s.journal := by
  simp only [step] at hs
  split at hs
  · rename_i hpc
    cases hs
    refine ⟨h.goto trivial (fun hclean => ⟨hclean, ?_⟩), rfl⟩
    intro p hp
    rw [hpc] at hp
    cases hp
  · rename_i p kind rest hpc
    cases hs
    have hold := h.pc
    rw [hpc] at hold
    obtain ⟨hnodup, hstranded⟩ := hold
    obtain ⟨job, hopen, -⟩ := hstranded (p, kind) mem_cons_self
    refine ⟨h.goto ⟨⟨job, hopen⟩, hnodup, fun x hx => hstranded x (mem_cons_of_mem _ hx)⟩
      (fun hclean => ⟨hclean, ?_⟩), rfl⟩
    intro q hq hnot
    rw [hpc] at hq
    exact absurd hq hnot
  · cases hs

variable {dbOk : Bool}

/-- The first transaction of `maybe_finalize`: a job with an op left is not visited any further. -/
theorem inv_count (h : Inv s) (hs : step s (.count dbOk) = .ok t) :
    Inv t ∧ t.journal = s.journal := by
  simp only [step] at hs
  split at hs
  · rename_i p kind next hpc
    have hold := h.pc
    rw [hpc] at hold
    obtain ⟨⟨job, hopen⟩, hnext⟩ := hold
    have hcounts : countOpsByStatus s.journal p = countOps job.ops := by
      rw [← hopen.id]
      exact countOpsByStatus_eq h.valid.ids hopen.mem
    rw [hcounts] at hs
    split at hs
    · split at hs
      · cases hs
        refine ⟨h.goto hnext.pc (fun hclean => ⟨hclean, ?_⟩), rfl⟩
        intro q hq hnot b hb hid
        rw [hpc] at hq
        rcases mem_cons.mp hq with rfl | hq
        · obtain rfl := eq_of_jobId h.valid.ids hb hopen.mem (hid.trans hopen.id.symm)
          rw [Bool.eq_false_iff]
          intro hunf
          have hzero := nonTerminal_eq_zero.mpr (isUnfinalized_iff.mp hunf).2.2
          omega
        · rw [Next.plans_pc] at hnot
          exact absurd hq hnot
      · rename_i hleft
        cases hs
        have hops := nonTerminal_eq_zero.mp (Nat.eq_zero_of_not_pos hleft)
        refine ⟨h.goto ⟨⟨job, hopen, hops, rfl⟩, hnext⟩ (fun hclean => ⟨hclean, ?_⟩), rfl⟩
        intro q hq hnot
        rw [hpc] at hq
        exact absurd hq hnot
    · cases hs
      exact ⟨h.goto hnext.pc (by simp), rfl⟩
  · cases hs

theorem inv_readRows (h : Inv s) (hs : step s (.readRows dbOk) = .ok t) :
    Inv t ∧ t.journal = s.journal := by
  simp only [step] at hs
  split at hs
  · rename_i p kind counts next hpc
    have hold := h.pc
    rw [hpc] at hold
    obtain ⟨⟨job, hopen, hops, hcounts⟩, hnext⟩ := hold
    have hrows : terminalOpsForPlan s.journal p = terminalRows job.ops := by
      rw [← hopen.id]
      exact terminalOpsForPlan_eq h.valid.ids hopen.mem
    split at hs
    · cases hs
      refine ⟨h.goto ⟨⟨job, hopen, hops, hcounts, hrows⟩, hnext⟩ (fun hclean => ⟨hclean, ?_⟩), rfl⟩
      intro q hq hnot
      rw [hpc] at hq
      exact absurd hq hnot
    · cases hs
      exact ⟨h.goto hnext.pc (by simp), rfl⟩
  · cases hs

theorem inv_finalize (h : Inv s) (hs : step s (.finalize dbOk) = .ok t) :
    Inv t ∧ Keeps s.journal t.journal := by
  simp only [step] at hs
  split at hs
  · rename_i p kind counts rows next hpc
    have hold := h.pc
    rw [hpc] at hold
    obtain ⟨⟨job, hopen, hops, rfl, rfl⟩, hnext⟩ := hold
    split at hs
    · cases hs
      exact ⟨h.commit hopen hops hnext (by rw [hpc]; rfl), keeps_commit h hopen⟩
    · cases hs
      exact ⟨h.goto hnext.pc (by simp), .refl _⟩
  · cases hs

theorem inv_lease {reply : LeaseReply} (h : Inv s) (hs : step s (.lease reply) = .ok t) :
    Inv t ∧ Keeps s.journal t.journal := by
  simp only [step] at hs
  split at hs
  · cases hs
    exact ⟨h.goto trivial (by simp), .refl _⟩
  · rename_i hpc
    split at hs
    · cases hs
      refine ⟨h.goto trivial (fun hclean => ⟨hclean, ?_⟩), .refl _⟩
      intro p hp
      rw [hpc] at hp
      cases hp
    · cases hs
  · rename_i p o hpc
    split at hs
    · rename_i r hfind
      obtain ⟨hr, rfl, rfl⟩ := findReady_eq_some hfind
      split at hs
      · cases hs
        exact ⟨h.leaseOp hr hpc _, keeps_leaseOp h hr⟩
      · cases hs
    · cases hs
  · cases hs

variable {exec : Except String ActionOutcome}

theorem runOne_kind {op : LeasedOp} {run : OpRun}
    (h : runOne op exec = .ok run) (outcome : ActionOutcome) (hrun : run = .provider outcome) :
    op.kind ≠ none := by
  intro hkind
  subst hrun
  simp [runOne, hkind] at h

theorem inv_run {db : Except String Unit} (h : Inv s)
    (hs : step s (.run exec db) = .ok t) : Inv t ∧ Keeps s.journal t.journal := by
  simp only [step] at hs
  split at hs
  · rename_i op hpc
    have hold := h.pc
    rw [hpc] at hold
    obtain ⟨job, row, hheld⟩ := hold
    split at hs
    · cases hs
      refine ⟨h.goto ⟨job, row, hheld⟩ (fun hclean => ⟨hclean, ?_⟩), .refl _⟩
      intro p hp
      rw [hpc] at hp
      cases hp
    · cases hs
      exact ⟨h.goto ⟨job, row, hheld⟩ (by simp), .refl _⟩
    · rename_i run hrun
      cases hs
      exact ⟨h.persist hheld (by rw [hpc]; rfl) (runOne_kind hrun), keeps_persist h hheld⟩
  · cases hs

theorem inv_fallback (h : Inv s) (hs : step s (.fallback dbOk) = .ok t) :
    Inv t ∧ Keeps s.journal t.journal := by
  simp only [step] at hs
  split at hs
  · rename_i op error hpc
    have hold := h.pc
    rw [hpc] at hold
    obtain ⟨job, row, hheld⟩ := hold
    split at hs
    · cases hs
      refine ⟨h.persist hheld (by rw [hpc]; rfl) ?_, keeps_persist h hheld⟩
      intro outcome hrun
      cases hrun
    · cases hs
      exact ⟨h.goto ⟨⟨job, hheld.isOpen⟩, trivial⟩ (by simp), .refl _⟩
  · cases hs

theorem JobValid.recover {record : PlanId → Nat → Option OpRun} {job : Job} (h : JobValid record job) :
    JobValid record { recoverJob job with ops := job.ops.map recoverOp } := by
  have hshape : ({ recoverJob job with ops := job.ops.map recoverOp } : Job) =
      { job with status := (recoverJob job).status, ops := job.ops.map recoverOp } := by
    rw [recoverJob_eq]
  rw [hshape]
  refine ⟨?_, ?_, ?_, ?_, h.perOp, ?_, ?_⟩
  · simpa only [map_map, Function.comp_def, recoverOp_operationId] using h.ids
  · simpa only [map_map, Function.comp_def, recoverOp_ordinal] using h.ordinals
  · simpa using h.nonempty
  · simpa using h.oneFrame
  · intro op' hop'
    obtain ⟨op, hop, rfl⟩ := mem_map.mp hop'
    exact (h.ops op hop).recover
  · intro hterm
    rw [recoverJob_isTerminal] at hterm
    obtain ⟨hops, hstatus, hsummary⟩ := h.final hterm
    have hmap : job.ops.map recoverOp = job.ops :=
      (map_congr_left (fun op hop => recoverOp_of_terminal (hops op hop))).trans (map_id _)
    rw [hmap, recoverJob_of_terminal hterm]
    exact ⟨hops, hstatus, hsummary⟩

theorem inv_crash {recovered : Bool} (h : Inv s) (hs : step s (.crash recovered) = .ok t) :
    Inv t ∧ Keeps s.journal t.journal := by
  cases hs
  cases recovered with
  | false =>
    refine ⟨⟨⟨h.valid.ids, h.valid.jobs, h.valid.known⟩, trivial, ?_⟩, .refl _⟩
    intro hclean
    cases hclean
  | true =>
    have hids : (recoverStaleLeases s.journal).map (·.jobId) = s.journal.map (·.jobId) := by
      rw [recoverStaleLeases, map_map]
      apply map_congr_left
      intro job _
      simp only [Function.comp]
      rw [recoverJob_eq]
    refine ⟨⟨⟨?_, ?_, ?_⟩, trivial, ?_⟩, keeps_recover _⟩
    · simpa only [if_true, hids] using h.valid.ids
    · intro job' hjob'
      obtain ⟨job, hjob, rfl⟩ := mem_map.mp hjob'
      exact (h.valid.jobs job hjob).recover
    · simpa only [if_true, hids] using h.valid.known
    · intro hclean
      cases hclean

theorem keeps_accept {journal? : Option Tables}
    (hnew : ∀ j, journal? = some j → ∃ job, j = s.journal ++ [job] ∧
      job.jobId ∉ s.journal.map (·.jobId) ∧ Fresh job) :
    Keeps s.journal (accept s journal? dbOk).journal := by
  rcases accept_cases s journal? dbOk with heq | ⟨j, hj, heq⟩
  · rw [heq]
    exact .refl _
  · obtain ⟨job, rfl, -⟩ := hnew j hj
    rw [heq]
    exact .append _ job

theorem inv_step {a : Act} (h : Inv s) (hs : step s a = .ok t) : Inv t ∧ Keeps s.journal t.journal := by
  cases a with
  | executePlan plan now dbOk =>
    cases hs
    have hnew : ∀ j, handle s.journal plan now = some j → ∃ job, j = s.journal ++ [job] ∧
        job.jobId ∉ s.journal.map (·.jobId) ∧ Fresh job := by
      intro j hj
      obtain ⟨job, hjob, hid, hfresh, -⟩ := handle_eq_some hj
      exact ⟨job, hjob, hid, hfresh⟩
    exact ⟨h.accept hnew, keeps_accept hnew⟩
  | executeCalendarPlan plan now dbOk =>
    cases hs
    have hnew : ∀ j, handleCalendar s.journal plan now = some j → ∃ job, j = s.journal ++ [job] ∧
        job.jobId ∉ s.journal.map (·.jobId) ∧ Fresh job := by
      intro j hj
      obtain ⟨job, hjob, hid, hfresh, -⟩ := handleCalendar_eq_some hj
      exact ⟨job, hjob, hid, hfresh⟩
    exact ⟨h.accept hnew, keeps_accept hnew⟩
  | foreign kind plan now =>
    cases hs
    have hnew : ∀ j, foreignPlan s.journal kind plan now = some j → ∃ job, j = s.journal ++ [job] ∧
        job.jobId ∉ s.journal.map (·.jobId) ∧ Fresh job := by
      intro j hj
      obtain ⟨job, hjob, hid, hfresh, -⟩ := foreignPlan_eq_some hj
      exact ⟨job, hjob, hid, hfresh⟩
    exact ⟨h.accept hnew, keeps_accept hnew⟩
  | startPass stranded =>
    obtain ⟨hinv, hj⟩ := inv_startPass h hs
    exact ⟨hinv, hj ▸ .refl _⟩
  | sweepNext =>
    obtain ⟨hinv, hj⟩ := inv_sweepNext h hs
    exact ⟨hinv, hj ▸ .refl _⟩
  | count dbOk =>
    obtain ⟨hinv, hj⟩ := inv_count h hs
    exact ⟨hinv, hj ▸ .refl _⟩
  | readRows dbOk =>
    obtain ⟨hinv, hj⟩ := inv_readRows h hs
    exact ⟨hinv, hj ▸ .refl _⟩
  | finalize dbOk => exact inv_finalize h hs
  | lease reply => exact inv_lease h hs
  | run exec db => exact inv_run h hs
  | fallback dbOk => exact inv_fallback h hs
  | crash recovered => exact inv_crash h hs

end Step

/-! ## Runs -/

theorem inv_start : Inv start := by
  refine ⟨⟨nodup_nil, ?_, ?_⟩, trivial, ?_⟩
  · intro job hjob
    cases hjob
  · intro p o hknown
    exact absurd rfl hknown
  · intro _ job hjob
    cases hjob

variable {ok : Service → Act → Prop} {s t : Service}

theorem inv_reaches (h : Reaches step ok start s) : Inv s :=
  h.invariant inv_start (fun _ _ _ hu _ hs => (inv_step hu hs).1)

theorem keeps_reaches (hs : Inv s) (h : Reaches step ok s t) : Keeps s.journal t.journal := by
  have hboth : Inv t ∧ Keeps s.journal t.journal := by
    refine h.invariant (I := fun t => Inv t ∧ Keeps s.journal t.journal) ⟨hs, .refl _⟩ ?_
    intro u a v hu _ hstep
    obtain ⟨hv, hkeep⟩ := inv_step hu.1 hstep
    exact ⟨hv, hu.2.trans hkeep⟩
  exact hboth.2

end Ratatoskr.Journal

import Ratatoskr.Journal.Pass

/-!
# Journal.Order

The order in which ops are leased. The lease query sorts by `created_at`, a timestamp in seconds,
and then by the ordinal inside the plan, so plans of one second are interleaved.

* `InOrder` : every op is leased after all ops that come before it, for the last time.
* `Timely` : a plan is journaled in a later second than every plan that still has work to do, and no
  lease is left behind by a failed write.
* `inOrder_of_timely` : runs of timely steps lease in order.
-/

namespace Ratatoskr.Journal

open List
open Lib (Reaches)

variable {p : PlanId} {a : PlanId × Nat} {i : Nat} {op : OpRow} {r : Job × OpRow} {t : Service}

/-- `a` names the op `op` of the `i`-th job. -/
structure At (j : Tables) (a : PlanId × Nat) (i : Nat) (job : Job) (op : OpRow) : Prop where
  get : j[i]? = some job
  id : job.jobId = a.1
  mem : op ∈ job.ops
  opId : op.operationId = a.2

/-- `a` belongs to an earlier plan than `b`, or to the same plan with a smaller ordinal. -/
def Before (j : Tables) (a b : PlanId × Nat) : Prop :=
  ∃ i A x k B y, At j a i A x ∧ At j b k B y ∧ (i < k ∨ i = k ∧ x.ordinal < y.ordinal)

/-- Whenever an op is leased, all ops before it have been leased, and are not leased again. -/
def InOrder (j : Tables) (leases : List (PlanId × Nat)) : Prop :=
  ∀ (n : Nat) b, leases[n]? = some b → ∀ a, Before j a b →
    (∃ m, m < n ∧ leases[m]? = some a) ∧ ∀ m, n < m → leases[m]? ≠ some a

def Pc.held : Pc → Option (PlanId × Nat)
  | .run op => some (op.planId, op.operationId)
  | .fallback op _ => some (op.planId, op.operationId)
  | _ => none

/-- The plan is journaled in a later second than every plan that has an op left to do. -/
def LaterThanWork (j : Tables) (now : Int) : Prop :=
  ∀ job ∈ j, (∃ op ∈ job.ops, op.status.isTerminal = false) → job.createdAt < now

/-- The steps after which the lease query still finds the oldest plan first. -/
def Timely (s : Service) : Act → Prop
  | .executePlan plan now dbOk =>
    dbOk = true → (handle s.journal plan now).isSome → LaterThanWork s.journal now
  | .executeCalendarPlan plan now dbOk =>
    dbOk = true → (handleCalendar s.journal plan now).isSome → LaterThanWork s.journal now
  | .foreign kind plan now =>
    (foreignPlan s.journal kind plan now).isSome → LaterThanWork s.journal now
  | .fallback dbOk => dbOk = true
  | .crash recovered => recovered = true
  | _ => True

structure Ordered (s : Service) : Prop where
  held : ∀ a i job op, At s.journal a i job op → op.status = .Leased → s.pc.held = some a
  noExecuting : ∀ a i job op, At s.journal a i job op → op.status ≠ .Executing
  known : ∀ a ∈ s.leases, ∃ i job op, At s.journal a i job op
  leased : ∀ a i job op, At s.journal a i job op → op.status.isTerminal = true → a ∈ s.leases
  done : ∀ b ∈ s.leases, ∀ a i A x k B y, At s.journal a i A x → At s.journal b k B y →
    (i < k ∨ i = k ∧ x.ordinal < y.ordinal) → x.status.isTerminal = true
  timely : ∀ (i k : Nat) (A B : Job), s.journal[i]? = some A → s.journal[k]? = some B → i < k →
    (∃ op ∈ A.ops, op.status.isTerminal = false) → A.createdAt < B.createdAt
  inOrder : InOrder s.journal s.leases

section Writes

variable {j : Tables} {g : Job → Job} {h : Job → OpRow → OpRow}
variable {a : PlanId × Nat}

/-- A write changes statuses only: jobs and ops stay where they are. -/
structure Rewrites (g : Job → Job) (h : Job → OpRow → OpRow) : Prop where
  id : ∀ job, (g job).jobId = job.jobId
  createdAt : ∀ job, (g job).createdAt = job.createdAt
  ops : ∀ job, (g job).ops = job.ops.map (h job)
  opId : ∀ job op, (h job op).operationId = op.operationId
  ordinal : ∀ job op, (h job op).ordinal = op.ordinal

theorem At.of_map (hw : Rewrites g h) {i : Nat} {job' : Job} {op' : OpRow} (hat : At (j.map g) a i job' op') :
    ∃ job op, At j a i job op ∧ job' = g job ∧ op' = h job op := by
  obtain ⟨hget, hid, hmem', hop⟩ := hat
  rw [getElem?_map, Option.map_eq_some_iff] at hget
  obtain ⟨job, hjob, rfl⟩ := hget
  rw [hw.ops] at hmem'
  obtain ⟨op, hmem, rfl⟩ := mem_map.mp hmem'
  rw [hw.id] at hid
  rw [hw.opId] at hop
  exact ⟨job, op, ⟨hjob, hid, hmem, hop⟩, rfl, rfl⟩

theorem At.map (hw : Rewrites g h) {i : Nat} {job : Job} {op : OpRow} (hat : At j a i job op) :
    At (j.map g) a i (g job) (h job op) := by
  obtain ⟨hjob, hid, hmem, hop⟩ := hat
  refine ⟨by rw [getElem?_map, hjob]; rfl, by rw [hw.id]; exact hid, ?_, by rw [hw.opId]; exact hop⟩
  rw [hw.ops]
  exact mem_map_of_mem hmem

theorem Before.of_map (hw : Rewrites g h) {b : PlanId × Nat} (hb : Before (j.map g) a b) : Before j a b := by
  obtain ⟨i, A', x', k, B', y', ha', hb', hlt⟩ := hb
  obtain ⟨A, x, ha, rfl, rfl⟩ := ha'.of_map hw
  obtain ⟨B, y, hb, rfl, rfl⟩ := hb'.of_map hw
  rw [hw.ordinal, hw.ordinal] at hlt
  exact ⟨i, A, x, k, B, y, ha, hb, hlt⟩

/-- A write to ops that keeps what is terminal, makes only leased ops terminal and leaves only the
held op leased. -/
theorem Ordered.rewrite {s t : Service} (hs : Ordered s) (hw : Rewrites g h)
    (hj : t.journal = s.journal.map g) (hl : t.leases = s.leases)
    (hkeep : ∀ a i job op, At s.journal a i job op → op.status.isTerminal = true →
      (h job op).status.isTerminal = true)
    (hheld : ∀ a i job op, At s.journal a i job op → (h job op).status = .Leased → t.pc.held = some a)
    (hexec : ∀ a i job op, At s.journal a i job op → (h job op).status ≠ .Executing)
    (hnew : ∀ a i job op, At s.journal a i job op → (h job op).status.isTerminal = true →
      a ∈ s.leases) : Ordered t := by
  refine ⟨?_, ?_, ?_, ?_, ?_, ?_, ?_⟩
  · intro a i job' op' hat' hst
    rw [hj] at hat'
    obtain ⟨job, op, hat, rfl, rfl⟩ := hat'.of_map hw
    exact hheld a i job op hat hst
  · intro a i job' op' hat'
    rw [hj] at hat'
    obtain ⟨job, op, hat, rfl, rfl⟩ := hat'.of_map hw
    exact hexec a i job op hat
  · intro a ha
    rw [hl] at ha
    obtain ⟨i, job, op, hat⟩ := hs.known a ha
    exact ⟨i, _, _, hj ▸ hat.map hw⟩
  · intro a i job' op' hat' hterm
    rw [hj] at hat'
    obtain ⟨job, op, hat, rfl, rfl⟩ := hat'.of_map hw
    rw [hl]
    exact hnew a i job op hat hterm
  · intro b hb a i A' x' k B' y' ha' hbat' hlt
    rw [hl] at hb
    rw [hj] at ha' hbat'
    obtain ⟨A, x, ha, rfl, rfl⟩ := ha'.of_map hw
    obtain ⟨B, y, hbat, rfl, rfl⟩ := hbat'.of_map hw
    rw [hw.ordinal, hw.ordinal] at hlt
    exact hkeep a i A x ha (hs.done b hb a i A x k B y ha hbat hlt)
  · intro i k A' B' hA' hB' hlt hop
    rw [hj, getElem?_map, Option.map_eq_some_iff] at hA' hB'
    obtain ⟨A, hA, rfl⟩ := hA'
    obtain ⟨B, hB, rfl⟩ := hB'
    rw [hw.createdAt, hw.createdAt]
    apply hs.timely i k A B hA hB hlt
    obtain ⟨op', hop', hlive⟩ := hop
    rw [hw.ops] at hop'
    obtain ⟨op, hop, rfl⟩ := mem_map.mp hop'
    refine ⟨op, hop, ?_⟩
    rw [Bool.eq_false_iff]
    intro hterm
    rw [hkeep (A.jobId, op.operationId) i A op ⟨hA, rfl, hop, rfl⟩ hterm] at hlive
    cases hlive
  · intro n b hb a hbefore
    rw [hl] at hb ⊢
    rw [hj] at hbefore
    exact hs.inOrder n b hb a (hbefore.of_map hw)

theorem Ordered.goto {s t : Service} (hs : Ordered s) (hj : t.journal = s.journal)
    (hl : t.leases = s.leases) (hheld : t.pc.held = s.pc.held) : Ordered t := by
  obtain ⟨h1, h2, h3, h4, h5, h6, h7⟩ := hs
  refine ⟨?_, ?_, ?_, ?_, ?_, ?_, ?_⟩
  · rw [hj, hheld]
    exact h1
  · rw [hj]
    exact h2
  · rw [hj, hl]
    exact h3
  · rw [hj, hl]
    exact h4
  · rw [hj, hl]
    exact h5
  · rw [hj]
    exact h6
  · rw [hj, hl]
    exact h7

end Writes

/-! ## The writes of the worker -/

theorem rewrites_updateOp {o : Nat} {f : OpRow → OpRow}
    (hid : ∀ op, (f op).operationId = op.operationId) (hord : ∀ op, (f op).ordinal = op.ordinal) :
    Rewrites (fun job => if job.jobId = p then updateOp job o f else job)
      (fun job op => if job.jobId = p ∧ op.operationId = o then f op else op) := by
  refine ⟨?_, ?_, ?_, ?_, ?_⟩
  · intro job
    split <;> rfl
  · intro job
    split <;> rfl
  · intro job
    by_cases hp : job.jobId = p
    · simp [hp, updateOp]
    · simp [hp]
  · intro job op
    split
    · exact hid op
    · rfl
  · intro job op
    split
    · exact hord op
    · rfl

theorem rewrites_setFinal {status : JobTerminalStatus} {summary : PlanSummary} :
    Rewrites (fun job => if job.jobId = p then setFinal status summary job else job)
      (fun _ op => op) := by
  refine ⟨?_, ?_, ?_, fun _ _ => rfl, fun _ _ => rfl⟩
  · intro job
    split <;> rfl
  · intro job
    split <;> rfl
  · intro job
    split <;> simp [setFinal]

theorem rewrites_recover : Rewrites (fun job => { recoverJob job with ops := job.ops.map recoverOp })
      (fun _ op => recoverOp op) := by
  refine ⟨?_, ?_, fun _ => rfl, fun _ op => recoverOp_operationId op, fun _ op => recoverOp_ordinal op⟩
  · intro job
    rw [recoverJob_eq]
  · intro job
    rw [recoverJob_eq]

variable {s : Service}

theorem Ordered.held_iff (hs : Ordered s) {o : Nat} (hpc : s.pc.held = some (p, o)) {job : Job}
    (hat : At s.journal a i job op) (hleased : op.status = .Leased) : job.jobId = p ∧ op.operationId = o := by
  have ha := hs.held a i job op hat hleased
  rw [hpc] at ha
  obtain rfl := Option.some.inj ha
  exact ⟨hat.id, hat.opId⟩

theorem setTerminal_ne (status : OpTerminalStatus) (blob : Json) (op : OpRow) :
    (setTerminal status blob op).status ≠ .Leased ∧ (setTerminal status blob op).status ≠ .Executing := by
  cases status <;> simp [setTerminal, OpTerminalStatus.toStatus]

theorem Ordered.persist {op : LeasedOp} {run : OpRun} {pc : Pc} (hs : Ordered s)
    (hpc : s.pc.held = some (op.planId, op.operationId)) (hmem : (op.planId, op.operationId) ∈ s.leases) :
    Ordered { persist s op run with pc := pc } := by
  refine hs.rewrite (rewrites_updateOp (f := setTerminal _ _) (fun _ => rfl) (fun _ => rfl)) rfl rfl
    ?_ ?_ ?_ ?_
  · intro a i job row hat hterm
    split
    · exact OpTerminalStatus.isTerminal_toStatus _
    · exact hterm
  · intro a i job row hat hst
    split at hst
    · exact absurd hst (setTerminal_ne _ _ _).1
    · rename_i hne
      exact absurd (hs.held_iff hpc hat hst) hne
  · intro a i job row hat hst
    split at hst
    · exact absurd hst (setTerminal_ne _ _ _).2
    · exact hs.noExecuting a i job row hat hst
  · intro a i job row hat hterm
    split at hterm
    · rename_i heq
      obtain ⟨a1, a2⟩ := a
      obtain rfl : a1 = op.planId := hat.id.symm.trans heq.1
      obtain rfl : a2 = op.operationId := hat.opId.symm.trans heq.2
      exact hmem
    · exact hs.leased a i job row hat hterm

theorem Ordered.commit {kind : Option PerOpJobKind} {counts : OpStatusCounts}
    {rows : List (Nat × Json)} {pc : Pc} (hs : Ordered s) (hpc : pc.held = s.pc.held) :
    Ordered { commit s p kind counts rows with pc := pc } := by
  refine hs.rewrite rewrites_setFinal rfl rfl ?_ ?_ ?_ ?_
  · intro a i job op hat hterm
    exact hterm
  · intro a i job op hat hst
    rw [hpc]
    exact hs.held a i job op hat hst
  · intro a i job op hat
    exact hs.noExecuting a i job op hat
  · intro a i job op hat hterm
    exact hs.leased a i job op hat hterm

theorem recoverOp_live (h : op.status.isTerminal = false) : (recoverOp op).status = .Pending := by
  unfold recoverOp
  split
  · rfl
  · cases hs : op.status <;> simp_all [OpStatus.isTerminal]

theorem Ordered.crash (hs : Ordered s) :
    Ordered { s with journal := recoverStaleLeases s.journal, pc := .idle, clean := false } := by
  have hcases : ∀ op : OpRow, (op.status.isTerminal = true ∧ recoverOp op = op) ∨
      (recoverOp op).status = .Pending := by
    intro op
    cases hterm : op.status.isTerminal with
    | true => exact .inl ⟨rfl, recoverOp_of_terminal hterm⟩
    | false => exact .inr (recoverOp_live hterm)
  refine hs.rewrite rewrites_recover rfl rfl ?_ ?_ ?_ ?_
  · intro a i job op hat hterm
    rw [recoverOp_of_terminal hterm]
    exact hterm
  · intro a i job op hat hst
    rcases hcases op with ⟨hterm, heq⟩ | hpending
    · rw [heq] at hst
      rw [hst] at hterm
      cases hterm
    · rw [hpending] at hst
      cases hst
  · intro a i job op hat hst
    rcases hcases op with ⟨hterm, heq⟩ | hpending
    · rw [heq] at hst
      rw [hst] at hterm
      cases hterm
    · rw [hpending] at hst
      cases hst
  · intro a i job op hat hterm
    rcases hcases op with ⟨hterm', heq⟩ | hpending
    · exact hs.leased a i job op hat hterm'
    · rw [hpending] at hterm
      cases hterm

theorem getElem?_concat {α : Type} {l : List α} {x y : α} {n : Nat} (h : (l ++ [x])[n]? = some y) :
    l[n]? = some y ∨ n = l.length ∧ y = x := by
  rcases Nat.lt_trichotomy n l.length with hlt | rfl | hgt
  · rw [getElem?_append_left hlt] at h
    exact .inl h
  · rw [getElem?_concat_length] at h
    exact .inr ⟨rfl, (Option.some.inj h).symm⟩
  · rw [getElem?_eq_none (by simp; omega)] at h
    cases h

/-- When the worker asks for the next op it holds none, so every op that is not terminal waits. -/
theorem Ordered.pending (hs : Ordered s) (hpc : s.pc = .lease) {job : Job}
    (hat : At s.journal a i job op) (hlive : op.status.isTerminal = false) : op.status = .Pending := by
  have hheld := hs.held a i job op hat
  have hexec := hs.noExecuting a i job op hat
  rw [hpc] at hheld
  cases hst : op.status with
  | Pending => rfl
  | Leased => exact absurd (hheld hst) (by simp [Pc.held])
  | Executing => exact absurd hst hexec
  | Done => rw [hst] at hlive; cases hlive
  | Failed => rw [hst] at hlive; cases hlive
  | Conflict => rw [hst] at hlive; cases hlive

theorem Ordered.next_done (hinv : Inv s) (hs : Ordered s) (hpc : s.pc = .lease) {k : Nat}
    (hk : s.journal[k]? = some r.1) (hnext : isNextReady s.journal r) {A : Job} {x : OpRow}
    (ha : At s.journal a i A x) (hlt : i < k ∨ i = k ∧ x.ordinal < r.2.ordinal) :
    x.status.isTerminal = true := by
  by_contra hlive
  have hlive : x.status.isTerminal = false := by simpa using hlive
  have hA : A ∈ s.journal := mem_of_getElem? ha.get
  have hAlive : A.status.isTerminal = false := by
    by_contra hterm
    have hops := ((hinv.valid.jobs A hA).final (by simpa using hterm)).ops x ha.mem
    rw [hops] at hlive
    cases hlive
  have hready : (A, x) ∈ readyOps s.journal :=
    mem_readyOps.mpr ⟨hA, hAlive, ha.mem, hs.pending hpc ha hlive⟩
  have hle := hnext (A, x) hready
  rcases hlt with hlt | ⟨rfl, hord⟩
  · have htime := hs.timely i k A r.1 ha.get hk hlt ⟨x, ha.mem, hlive⟩
    rcases hle with hle | hle
    · dsimp only at hle
      omega
    · dsimp only at hle
      omega
  · have hsame : A = r.1 := Option.some.inj (ha.get.symm.trans hk)
    subst hsame
    rcases hle with hle | hle
    · dsimp only at hle
      omega
    · dsimp only at hle
      omega

/-- One more lease, of an op that is not terminal and before which all ops are. -/
theorem Ordered.appendLease (hs : Ordered s) {b : PlanId × Nat} (hknown : ∃ i job op, At s.journal b i job op)
    (hlive : ∀ i job op, At s.journal b i job op → op.status.isTerminal = false)
    (hdone : ∀ a i A x k B y, At s.journal a i A x → At s.journal b k B y →
      (i < k ∨ i = k ∧ x.ordinal < y.ordinal) → x.status.isTerminal = true) :
    Ordered { s with leases := s.leases ++ [b] } := by
  refine ⟨hs.held, hs.noExecuting, ?_, ?_, ?_, hs.timely, ?_⟩
  · intro a ha
    rcases mem_append.mp ha with ha | ha
    · exact hs.known a ha
    · rw [mem_singleton.mp ha]
      exact hknown
  · intro a i job op hat hterm
    exact mem_append_left _ (hs.leased a i job op hat hterm)
  · intro b' hb'
    rcases mem_append.mp hb' with hb' | hb'
    · exact hs.done b' hb'
    · rw [mem_singleton.mp hb']
      exact hdone
  · intro n b' hb' a hbefore
    obtain ⟨i, A, x, k, B, y, ha, hbat, hlt⟩ := hbefore
    rcases getElem?_concat hb' with hold | ⟨rfl, rfl⟩
    · obtain ⟨⟨m, hm, hmem⟩, hlast⟩ := hs.inOrder n b' hold a ⟨i, A, x, k, B, y, ha, hbat, hlt⟩
      have hterm := hs.done b' (mem_of_getElem? hold) a i A x k B y ha hbat hlt
      refine ⟨⟨m, hm, ?_⟩, ?_⟩
      · rw [getElem?_append_left (List.getElem?_eq_some_iff.mp hmem).1]
        exact hmem
      · intro m hm hget
        rcases getElem?_concat hget with hget | ⟨-, rfl⟩
        · exact hlast m hm hget
        · rw [hlive i A x ha] at hterm
          cases hterm
    · have hterm := hdone a i A x k B y ha hbat hlt
      obtain ⟨m, hm⟩ := mem_iff_getElem?.mp (hs.leased a i A x ha hterm)
      have hlt := (List.getElem?_eq_some_iff.mp hm).1
      refine ⟨⟨m, hlt, ?_⟩, ?_⟩
      · rw [getElem?_append_left hlt]
        exact hm
      · intro m hm
        rw [getElem?_eq_none (by simp; omega)]
        simp

theorem Ordered.leaseOp (hinv : Inv s) (hs : Ordered s) (hpc : s.pc = .lease)
    (hr : r ∈ readyOps s.journal) (hnext : isNextReady s.journal r) :
    Ordered { s with
      journal := leaseOp s.journal r.1.jobId r.2.operationId
      pc := .run (leasedOp r.1 r.2)
      leases := s.leases ++ [(r.1.jobId, r.2.operationId)] } := by
  obtain ⟨B, y⟩ := r
  obtain ⟨hB, hBlive, hy, hpending⟩ := mem_readyOps.mp hr
  -- the leased op is the only one whose row changes
  have hself : ∀ {a i job op}, At s.journal a i job op →
      job.jobId = B.jobId ∧ op.operationId = y.operationId → job = B ∧ op = y := by
    intro a i job op hat heq
    obtain rfl := eq_of_jobId hinv.valid.ids (mem_of_getElem? hat.get) hB heq.1
    exact ⟨rfl, hinv.valid.row_eq hB hy hat.mem heq.2⟩
  have hw := rewrites_updateOp (p := B.jobId) (o := y.operationId) (f := setLeased) (fun _ => rfl)
    (fun _ => rfl)
  have hkeep : ∀ a i job op, At s.journal a i job op → op.status.isTerminal = true →
      (if job.jobId = B.jobId ∧ op.operationId = y.operationId then setLeased op else op).status.isTerminal
        = true := by
    intro a i job op hat hterm
    split
    · rename_i heq
      rw [(hself hat heq).2, hpending] at hterm
      cases hterm
    · exact hterm
  have hrow : Ordered { s with
      journal := Journal.leaseOp s.journal B.jobId y.operationId
      pc := .run (leasedOp B y) } := by
    refine hs.rewrite hw rfl rfl hkeep ?_ ?_ ?_
    · intro a i job op hat hst
      split at hst
      · rename_i heq
        rw [← Prod.eta a, ← hat.id, ← hat.opId, heq.1, heq.2]
        rfl
      · have hheld := hs.held a i job op hat hst
        rw [hpc] at hheld
        cases hheld
    · intro a i job op hat
      split
      · simp [setLeased]
      · exact hs.noExecuting a i job op hat
    · intro a i job op hat hterm
      split at hterm
      · cases hterm
      · exact hs.leased a i job op hat hterm
  obtain ⟨k, hk⟩ := mem_iff_getElem?.mp hB
  refine hrow.appendLease ⟨k, _, _, At.map hw ⟨hk, rfl, hy, rfl⟩⟩ ?_ ?_
  · intro i job' op' hat'
    obtain ⟨job, op, hat, rfl, rfl⟩ := hat'.of_map hw
    rw [if_pos ⟨hat.id, hat.opId⟩]
    rfl
  · intro a i A' x' k' B' y' ha' hb' hlt
    obtain ⟨A, x, ha, rfl, rfl⟩ := ha'.of_map hw
    obtain ⟨B1, y1, hb, rfl, rfl⟩ := hb'.of_map hw
    obtain ⟨rfl, rfl⟩ := hself hb ⟨hb.id, hb.opId⟩
    rw [hw.ordinal, hw.ordinal] at hlt
    exact hkeep a i A x ha (hs.next_done hinv hpc hb.get hnext ha hlt)

theorem Ordered.insert {new : Job} (hs : Ordered s) (hid : new.jobId ∉ s.journal.map (·.jobId))
    (hnew : Fresh new) (hlater : LaterThanWork s.journal new.createdAt) :
    Ordered { s with journal := s.journal ++ [new] } := by
  have hcases : ∀ {a i job op}, At (s.journal ++ [new]) a i job op →
      At s.journal a i job op ∨ i = s.journal.length ∧ job = new ∧ op ∈ new.ops ∧ a.1 = new.jobId := by
    intro a i job op hat
    rcases getElem?_concat hat.get with hget | ⟨rfl, rfl⟩
    · exact .inl ⟨hget, hat.id, hat.mem, hat.opId⟩
    · exact .inr ⟨rfl, rfl, hat.mem, hat.id.symm⟩
  have hfresh : ∀ a ∈ s.leases, a.1 ≠ new.jobId := by
    intro a ha heq
    obtain ⟨i, job, op, hat⟩ := hs.known a ha
    apply hid
    rw [← heq, ← hat.id]
    exact mem_map_of_mem (mem_of_getElem? hat.get)
  have hlt_len : ∀ {a i job op}, At s.journal a i job op → i < s.journal.length :=
    fun hat => (List.getElem?_eq_some_iff.mp hat.get).1
  -- an op of the new plan has not been leased, so only pairs of old ops matter
  have hbefore : ∀ a i A x k B y, ∀ b ∈ s.leases, At (s.journal ++ [new]) a i A x →
      At (s.journal ++ [new]) b k B y → (i < k ∨ i = k ∧ x.ordinal < y.ordinal) →
      At s.journal a i A x ∧ At s.journal b k B y := by
    intro a i A x k B y b hb ha hbat hlt
    have hbat : At s.journal b k B y := by
      rcases hcases hbat with hbat | ⟨-, -, -, hbid⟩
      · exact hbat
      · exact absurd hbid (hfresh b hb)
    refine ⟨?_, hbat⟩
    rcases hcases ha with ha | ⟨hi, -⟩
    · exact ha
    · have := hlt_len hbat
      omega
  refine ⟨?_, ?_, ?_, ?_, ?_, ?_, ?_⟩
  · intro a i job op hat hst
    rcases hcases hat with hat | ⟨-, -, hop, -⟩
    · exact hs.held a i job op hat hst
    · rw [(hnew.pending op hop).1] at hst
      cases hst
  · intro a i job op hat
    rcases hcases hat with hat | ⟨-, -, hop, -⟩
    · exact hs.noExecuting a i job op hat
    · rw [(hnew.pending op hop).1]
      simp
  · intro a ha
    obtain ⟨i, job, op, hat⟩ := hs.known a ha
    refine ⟨i, job, op, ?_, hat.id, hat.mem, hat.opId⟩
    rw [getElem?_append_left (hlt_len hat)]
    exact hat.get
  · intro a i job op hat hterm
    rcases hcases hat with hat | ⟨-, -, hop, -⟩
    · exact hs.leased a i job op hat hterm
    · rw [(hnew.pending op hop).1] at hterm
      cases hterm
  · intro b hb a i A x k B y ha hbat hlt
    obtain ⟨ha, hbat⟩ := hbefore a i A x k B y b hb ha hbat hlt
    exact hs.done b hb a i A x k B y ha hbat hlt
  · intro i k A B hA' hB hlt hop
    have hk : k ≤ s.journal.length := by
      have := (List.getElem?_eq_some_iff.mp hB).1
      simp at this
      omega
    have hA : s.journal[i]? = some A := by
      rw [getElem?_append_left (by omega)] at hA'
      exact hA'
    rcases getElem?_concat hB with hB | ⟨rfl, rfl⟩
    · exact hs.timely i k A B hA hB hlt hop
    · exact hlater A (mem_of_getElem? hA) hop
  · rintro n b hb a ⟨i, A, x, k, B, y, ha, hbat, hlt⟩
    obtain ⟨ha, hbat⟩ := hbefore a i A x k B y b (mem_of_getElem? hb) ha hbat hlt
    exact hs.inOrder n b hb a ⟨i, A, x, k, B, y, ha, hbat, hlt⟩

/-! ## Runs -/

def HeldLeased (s : Service) : Prop := ∀ a, s.pc.held = some a → a ∈ s.leases

theorem ordered_accept {journal? : Option Tables} {dbOk : Bool} (hs : Ordered s ∧ HeldLeased s)
    (hnew : ∀ j, journal? = some j → ∃ job, j = s.journal ++ [job] ∧
      job.jobId ∉ s.journal.map (·.jobId) ∧ Fresh job ∧
      (dbOk = true → LaterThanWork s.journal job.createdAt)) :
    Ordered (accept s journal? dbOk) ∧ HeldLeased (accept s journal? dbOk) := by
  cases journal? with
  | none => exact hs
  | some j =>
    cases dbOk with
    | false => exact hs
    | true =>
      obtain ⟨job, rfl, hid, hfresh, hlater⟩ := hnew j rfl
      exact ⟨hs.1.insert hid hfresh (hlater rfl), hs.2⟩

@[simp] theorem Next.held_pc (next : Next) : next.pc.held = none := by
  cases next <;> rfl

theorem ordered_lease {reply : LeaseReply} (hinv : Inv s) (hs : Ordered s)
    (h : step s (.lease reply) = .ok t) : Ordered t ∧ HeldLeased t := by
  simp only [step] at h
  split at h
  · rename_i hpc
    cases h
    refine ⟨hs.goto rfl rfl (by rw [hpc]; rfl), ?_⟩
    intro a ha
    cases ha
  · rename_i hpc
    split at h
    · cases h
      refine ⟨hs.goto rfl rfl (by rw [hpc]; rfl), ?_⟩
      intro a ha
      cases ha
    · cases h
  · rename_i hpc
    split at h
    · rename_i r hfind
      obtain ⟨hr, rfl, rfl⟩ := findReady_eq_some hfind
      split at h
      · rename_i hnext
        cases h
        refine ⟨hs.leaseOp hinv hpc hr hnext, ?_⟩
        intro a ha
        obtain rfl := Option.some.inj ha
        exact mem_append_right _ (mem_singleton.mpr rfl)
      · cases h
    · cases h
  · cases h

theorem ordered_run {exec : Except String ActionOutcome} {db : Except String Unit}
    (hs : Ordered s) (hheld : HeldLeased s) (h : step s (.run exec db) = .ok t) :
    Ordered t ∧ HeldLeased t := by
  simp only [step] at h
  split at h
  · rename_i op hpc
    have hop : s.pc.held = some (op.planId, op.operationId) := by rw [hpc]; rfl
    split at h
    · cases h
      refine ⟨hs.goto rfl rfl (by rw [hpc]; rfl), ?_⟩
      intro a ha
      exact hheld a (hop.trans ha)
    · cases h
      refine ⟨hs.goto rfl rfl (by rw [hpc]; rfl), ?_⟩
      intro a ha
      exact hheld a (hop.trans ha)
    · cases h
      refine ⟨hs.persist hop (hheld _ hop), ?_⟩
      intro a ha
      cases ha
  · cases h

theorem ordered_fallback (hs : Ordered s) (hheld : HeldLeased s)
    (h : step s (.fallback true) = .ok t) : Ordered t ∧ HeldLeased t := by
  simp only [step] at h
  split at h
  · rename_i op error hpc
    have hop : s.pc.held = some (op.planId, op.operationId) := by rw [hpc]; rfl
    cases h
    refine ⟨hs.persist hop (hheld _ hop), ?_⟩
    intro a ha
    cases ha
  · cases h

theorem ordered_idle (hs : Ordered s) (hbefore : s.pc.held = none) (hafter : t.pc.held = none)
    (hj : t.journal = s.journal) (hl : t.leases = s.leases) : Ordered t ∧ HeldLeased t := by
  refine ⟨hs.goto hj hl (hafter.trans hbefore.symm), ?_⟩
  intro a ha
  rw [hafter] at ha
  cases ha

theorem ordered_finalize {dbOk : Bool} (hs : Ordered s) (h : step s (.finalize dbOk) = .ok t) :
    Ordered t ∧ HeldLeased t := by
  simp only [step] at h
  split at h
  · rename_i p kind counts rows next hpc
    have hnone : s.pc.held = none := by rw [hpc]; rfl
    split at h
    · cases h
      refine ⟨hs.commit (by rw [Next.held_pc, hnone]), ?_⟩
      intro a ha
      rw [Next.held_pc] at ha
      cases ha
    · cases h
      exact ordered_idle hs hnone (Next.held_pc next) rfl rfl
  · cases h

theorem ordered_step {a : Act} (hinv : Inv s) (hs : Ordered s) (hheld : HeldLeased s)
    (hok : Timely s a) (h : step s a = .ok t) : Ordered t ∧ HeldLeased t := by
  cases a with
  | executePlan plan now dbOk =>
    cases h
    apply ordered_accept ⟨hs, hheld⟩
    intro j hj
    obtain ⟨job, hjob, hid, hfresh, rfl⟩ := handle_eq_some hj
    exact ⟨job, hjob, hid, hfresh, fun hdb => hok hdb (by rw [hj]; rfl)⟩
  | executeCalendarPlan plan now dbOk =>
    cases h
    apply ordered_accept ⟨hs, hheld⟩
    intro j hj
    obtain ⟨job, hjob, hid, hfresh, rfl⟩ := handleCalendar_eq_some hj
    exact ⟨job, hjob, hid, hfresh, fun hdb => hok hdb (by rw [hj]; rfl)⟩
  | foreign kind plan now =>
    cases h
    apply ordered_accept ⟨hs, hheld⟩
    intro j hj
    obtain ⟨job, hjob, hid, hfresh, rfl⟩ := foreignPlan_eq_some hj
    exact ⟨job, hjob, hid, hfresh, fun _ => hok (by rw [hj]; rfl)⟩
  | startPass stranded =>
    simp only [step] at h
    split at h
    · rename_i hpc
      cases h
      exact ordered_idle hs (by rw [hpc]; rfl) rfl rfl rfl
    · rename_i hpc
      split at h
      · cases h
        exact ordered_idle hs (by rw [hpc]; rfl) rfl rfl rfl
      · cases h
    · cases h
  | sweepNext =>
    simp only [step] at h
    split at h
    · rename_i hpc
      cases h
      exact ordered_idle hs (by rw [hpc]; rfl) rfl rfl rfl
    · rename_i hpc
      cases h
      exact ordered_idle hs (by rw [hpc]; rfl) rfl rfl rfl
    · cases h
  | count dbOk =>
    simp only [step] at h
    split at h
    · rename_i p kind next hpc
      have hnone : s.pc.held = none := by rw [hpc]; rfl
      split at h
      · split at h
        · cases h
          exact ordered_idle hs hnone (Next.held_pc next) rfl rfl
        · cases h
          exact ordered_idle hs hnone rfl rfl rfl
      · cases h
        exact ordered_idle hs hnone (Next.held_pc next) rfl rfl
    · cases h
  | readRows dbOk =>
    simp only [step] at h
    split at h
    · rename_i p kind counts next hpc
      have hnone : s.pc.held = none := by rw [hpc]; rfl
      split at h
      · cases h
        exact ordered_idle hs hnone rfl rfl rfl
      · cases h
        exact ordered_idle hs hnone (Next.held_pc next) rfl rfl
    · cases h
  | finalize dbOk => exact ordered_finalize hs h
  | lease reply => exact ordered_lease hinv hs h
  | run exec db => exact ordered_run hs hheld h
  | fallback dbOk =>
    obtain rfl : dbOk = true := hok
    exact ordered_fallback hs hheld h
  | crash recovered =>
    obtain rfl : recovered = true := hok
    cases h
    refine ⟨hs.crash, ?_⟩
    intro a ha
    cases ha

theorem ordered_start : Ordered start ∧ HeldLeased start := by
  refine ⟨⟨?_, ?_, ?_, ?_, ?_, ?_, ?_⟩, ?_⟩
  · intro a i job op hat
    cases hat.get
  · intro a i job op hat
    cases hat.get
  · intro a ha
    cases ha
  · intro a i job op hat
    cases hat.get
  · intro b hb
    cases hb
  · intro i k A B hA
    cases hA
  · intro n b hb
    cases hb
  · intro a ha
    cases ha

/-- In a run of timely steps, with crashes anywhere, ops are leased in the order of their plans, and
within a plan in the order of their ordinals. -/
theorem inOrder_of_timely (h : Reaches step Timely start s) : InOrder s.journal s.leases := by
  have hall : Inv s ∧ Ordered s ∧ HeldLeased s := by
    refine h.invariant (I := fun s => Inv s ∧ Ordered s ∧ HeldLeased s)
      ⟨inv_start, ordered_start⟩ ?_
    intro u a v hu ha hstep
    exact ⟨(inv_step hu.1 hstep).1, ordered_step hu.1 hu.2.1 hu.2.2 ha hstep⟩
  exact hall.2.1.inOrder

/-- A plan for two threads and a later plan for the second of them. -/
def markReadPlan : ActionWirePlan :=
  ⟨1, [⟨0, "acc-1", "thr-1", .null⟩, ⟨1, "acc-1", "thr-2", .null⟩], by decide⟩

def markUnreadPlan : ActionWirePlan := ⟨2, [⟨0, "acc-1", "thr-2", .null⟩], by decide⟩

/-- The second plan comes a second later, and the service crashes during the first op. -/
theorem inOrder_next_second : ∃ s, Reaches step Timely start s ∧ s.leases = [(1, 0), (1, 0), (1, 1), (2, 0)] ∧
      InOrder s.journal s.leases := by
  have h0 : Reaches step Timely start start := .refl _
  have h1 := h0.tail (a := .executePlan markReadPlan 100 true)
    (by intro _ _ job hjob; cases hjob) rfl
  have h2 := h1.tail (a := .executePlan markUnreadPlan 101 true)
    (by intro _ _ job hjob _; obtain rfl := mem_singleton.mp hjob; decide) rfl
  have h3 := h2.tail (a := .startPass (some [])) (by exact trivial) rfl
  have h4 := h3.tail (a := .sweepNext) (by exact trivial) rfl
  have h5 := h4.tail (a := .lease (.op 1 0)) (by exact trivial) rfl
  have h6 := h5.tail (a := .crash true) (by exact rfl) rfl
  have h7 := h6.tail (a := .startPass (some [])) (by exact trivial) rfl
  have h8 := h7.tail (a := .sweepNext) (by exact trivial) rfl
  have h9 := h8.tail (a := .lease (.op 1 0)) (by exact trivial) rfl
  have h10 := h9.tail (a := .run (.ok .Success) (.ok ())) (by exact trivial) rfl
  have h11 := h10.tail (a := .count true) (by exact trivial) rfl
  have h12 := h11.tail (a := .lease (.op 1 1)) (by exact trivial) rfl
  have h13 := h12.tail (a := .run (.ok .Success) (.ok ())) (by exact trivial) rfl
  have h14 := h13.tail (a := .count true) (by exact trivial) rfl
  have h15 := h14.tail (a := .readRows true) (by exact trivial) rfl
  have h16 := h15.tail (a := .finalize true) (by exact trivial) rfl
  have h17 := h16.tail (a := .lease (.op 2 0)) (by exact trivial) rfl
  exact ⟨_, h17, rfl, inOrder_of_timely h17⟩

/-- Both plans in one second: the op of the second plan is executed before the last op of the first,
on the same thread. -/
theorem same_second_interleaves :
    ∃ s, Reaches step (fun _ _ => True) start s ∧ s.leases = [(1, 0), (2, 0), (1, 1)] ∧
      ¬ InOrder s.journal s.leases := by
  have h0 : Reaches step (fun _ _ => True) start start := .refl _
  have h1 := h0.tail (a := .executePlan markReadPlan 100 true) trivial rfl
  have h2 := h1.tail (a := .executePlan markUnreadPlan 100 true) trivial rfl
  have h3 := h2.tail (a := .startPass (some [])) trivial rfl
  have h4 := h3.tail (a := .sweepNext) trivial rfl
  have h5 := h4.tail (a := .lease (.op 1 0)) trivial rfl
  have h6 := h5.tail (a := .run (.ok .Success) (.ok ())) trivial rfl
  have h7 := h6.tail (a := .count true) trivial rfl
  have h8 := h7.tail (a := .lease (.op 2 0)) trivial rfl
  have h9 := h8.tail (a := .run (.ok .Success) (.ok ())) trivial rfl
  have h10 := h9.tail (a := .count true) trivial rfl
  have h11 := h10.tail (a := .readRows true) trivial rfl
  have h12 := h11.tail (a := .finalize true) trivial rfl
  have h13 := h12.tail (a := .lease (.op 1 1)) trivial rfl
  refine ⟨_, h13, rfl, ?_⟩
  intro horder
  obtain ⟨⟨m, hm, hget⟩, -⟩ := horder 1 (2, 0) rfl (1, 1)
    ⟨0, _, _, 1, _, _, ⟨rfl, rfl, mem_cons_of_mem _ mem_cons_self, rfl⟩,
      ⟨rfl, rfl, mem_cons_self, rfl⟩, .inl Nat.zero_lt_one⟩
  obtain rfl : m = 0 := by omega
  cases hget

end Ratatoskr.Journal

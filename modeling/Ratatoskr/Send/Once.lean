import Ratatoskr.Lib.Run
import Ratatoskr.Send.Attempts

/-!
# Send.Once

How often a draft is sent. The check for a draft that is being sent already reads a status that the same
write has just set to pending, so it never refuses (`begin_passes`): two jobs with one draft send it
twice, and so does a job that is queued again after the provider took its message. Without these a draft
is sent once, or again after a job for it was reported as failed.
-/

namespace Ratatoskr.Send

open List
open Journal (PlanId JobStatus JobTerminalStatus)
open Lib (Reaches)

/-- Every acceptance of the draft but the first comes after a failure that was reported. -/
def SentOnce (d : String) (log : List Report) : Prop :=
  ∀ before after, log = before ++ Report.accepted d :: after →
    Report.accepted d ∉ before ∨ Report.failed d ∈ before

/-- Of the attempts for one draft, one at most is past the check. -/
def Guarded (s : Worker) : Prop :=
  ∀ a ∈ s.attempts, ∀ b ∈ s.attempts, a.pc.pastGuard = true → b.pc.pastGuard = true →
    a.draftId = b.draftId → a.jobId = b.jobId

/-- What the code needs: a new job finds only failed ones for its draft, and no attempt that the provider
has accepted is lost before its job is finalized. -/
def Meets (s : Worker) : Event → Prop
  | .request jobId draftId => jobId ∈ s.jobs.map QuietJob.jobId ∨
      ∀ job ∈ s.jobs, job.payload = draftId → job.status = .Failed
  | .lease _ => True
  | .attempt jobId act => act = .abandon → ∀ a ∈ s.attempts, a.jobId = jobId → a.pc.isSent = false
  | .restart => ∀ a ∈ s.attempts, a.pc.isSent = false

instance (s : Worker) (ev : Event) : Decidable (Meets s ev) :=
  match ev with
  | .request _ _ => inferInstanceAs (Decidable (_ ∨ _))
  | .lease _ => inferInstanceAs (Decidable True)
  | .attempt _ _ => inferInstanceAs (Decidable (_ → _))
  | .restart => inferInstanceAs (Decidable (∀ a ∈ s.attempts, a.pc.isSent = false))

/-- What a step of an attempt does to everything but the draft rows. -/
inductive Moves (s : Worker) (a : Attempt) (act : Act) : Worker → Prop where
  /-- The attempt goes on, and is sent if it was. -/
  | on (drafts : DraftRows) (pc : Pc) (h : pc.isSent = a.pc.isSent) :
      Moves s a act ({ s with drafts := drafts }.setPc a pc)
  | accepted (h : a.pc.isSent = false) :
      Moves s a act ({ s with log := s.log ++ [Report.accepted a.draftId] }.setPc a .accepted)
  | finished (success : Bool) : Moves s a act (s.finish a success)
  | abandoned (h : act = .abandon) :
      Moves s a act { s with attempts := s.attempts.filter (fun b => b.jobId ≠ a.jobId) }

theorem advance_moves {s t : Worker} {a : Attempt} {act : Act} (h : advance s a act = some t) :
    Moves s a act t := by
  obtain ⟨jobId, draftId, pc⟩ := a
  cases act with
  | begin failed =>
    cases pc with
    | leased =>
      cases failed with
      | true =>
        cases h
        exact .on s.drafts (.settled false) rfl
      | false =>
        simp only [advance, if_neg Bool.false_ne_true] at h
        split at h
        · cases h
          exact .on _ .sending rfl
        · cases h
          exact .on _ (.settled false) rfl
    | _ => cases h
  | refuse written =>
    cases pc with
    | sending =>
      cases h
      exact .on _ (.settled false) rfl
    | _ => cases h
  | respond ok written =>
    cases pc with
    | sending =>
      cases ok with
      | true =>
        cases h
        exact .accepted rfl
      | false =>
        cases h
        exact .on _ (.settled false) rfl
    | _ => cases h
  | deleteDraft written =>
    cases pc with
    | accepted =>
      cases h
      exact .on _ (.settled true) rfl
    | _ => cases h
  | finalize =>
    cases pc with
    | settled success =>
      cases h
      exact .finished success
    | _ => cases h
  | finalizeAsFailed =>
    cases pc with
    | settled success =>
      cases h
      exact .finished false
    | _ => cases h
  | abandon =>
    cases pc with
    | settled success =>
      cases h
      exact .abandoned rfl
    | _ => cases h
  | giveUp =>
    cases pc with
    | leased =>
      cases h
      exact .finished false
    | _ => cases h

/-- The draft may be sent: nothing was accepted for it yet, or a failure was reported. -/
def Clean (d : String) (log : List Report) : Prop :=
  Report.accepted d ∉ log ∨ Report.failed d ∈ log

def Unsent (s : Worker) (jobId : PlanId) : Prop :=
  ∀ a ∈ s.attempts, a.jobId = jobId → a.pc.isSent = false

structure Inv (s : Worker) : Prop where
  ids : (s.jobs.map QuietJob.jobId).Nodup
  single : (s.attempts.map Attempt.jobId).Nodup
  held : ∀ a ∈ s.attempts, ∃ job ∈ s.jobs,
    job.jobId = a.jobId ∧ job.payload = a.draftId ∧ job.status = .Executing
  oneJob : ∀ job ∈ s.jobs, ∀ job' ∈ s.jobs, job.payload = job'.payload → job.status ≠ .Failed →
    job'.status ≠ .Failed → job.jobId = job'.jobId
  journaled : ∀ d, Report.accepted d ∈ s.log → ∃ job ∈ s.jobs, job.payload = d
  reported : ∀ job ∈ s.jobs, job.status = .Failed → Report.failed job.payload ∈ s.log
  clean : ∀ job ∈ s.jobs, job.isLive = true → Unsent s job.jobId → Clean job.payload s.log
  once : ∀ d, SentOnce d s.log

theorem Clean.append {d : String} {log : List Report} (h : Clean d log) {r : Report}
    (hr : r ≠ Report.accepted d) : Clean d (log ++ [r]) := by
  rcases h with hno | hfailed
  · refine .inl (fun hmem => ?_)
    rcases mem_append.mp hmem with hmem | hmem
    · exact hno hmem
    · exact hr (mem_singleton.mp hmem).symm
  · exact .inr (mem_append_left _ hfailed)

theorem SentOnce.append {d : String} {log : List Report} (h : SentOnce d log) {r : Report}
    (hr : r = Report.accepted d → Clean d log) : SentOnce d (log ++ [r]) := by
  intro before after heq
  rcases eq_nil_or_concat after with rfl | ⟨rest, last, rfl⟩
  · obtain ⟨rfl, hlast⟩ := append_inj' heq rfl
    exact hr (List.cons.inj hlast).1
  · rw [concat_eq_append, ← cons_append, ← append_assoc] at heq
    obtain ⟨rfl, -⟩ := append_inj' heq rfl
    exact h before rest rfl

theorem Inv.start : Inv .start where
  ids := nodup_nil
  single := nodup_nil
  held := fun _ h => by cases h
  oneJob := fun _ h => by cases h
  journaled := fun _ h => by cases h
  reported := fun _ h => by cases h
  clean := fun _ h => by cases h
  once := by
    intro d before after h
    cases before <;> cases h

section Steps

variable {s : Worker}

variable {a : Attempt}

/-- Attempts after a change of one: the same jobs and drafts, with another counter at most. -/
theorem mem_setPc {b : Attempt} {pc : Pc} (h : b ∈ (s.setPc a pc).attempts) :
    (b ∈ s.attempts ∧ b.jobId ≠ a.jobId) ∨
      ∃ old ∈ s.attempts, old.jobId = a.jobId ∧ b = { old with pc := pc } := by
  obtain ⟨old, hold, rfl⟩ := mem_map.mp h
  by_cases hid : old.jobId = a.jobId
  · rw [if_pos hid]
    exact .inr ⟨old, hold, hid, rfl⟩
  · rw [if_neg hid]
    exact .inl ⟨hold, hid⟩

theorem setPc_ids (a : Attempt) (pc : Pc) :
    (s.setPc a pc).attempts.map Attempt.jobId = s.attempts.map Attempt.jobId := by
  rw [Worker.setPc, map_map]
  refine map_congr_left (fun b _ => ?_)
  simp only [Function.comp_apply]
  split <;> rfl

theorem Inv.attempt_eq (h : Inv s) {b : Attempt} (ha : a ∈ s.attempts) (hb : b ∈ s.attempts)
    (hid : a.jobId = b.jobId) : a = b :=
  inj_on_of_nodup_map h.single ha hb hid

theorem Inv.unsent_of (h : Inv s) (ha : a ∈ s.attempts) (hsent : a.pc.isSent = false) : Unsent s a.jobId := by
  intro b hb hid
  rwa [h.attempt_eq hb ha hid]

theorem setPc_held (h : Inv s) {b : Attempt} {pc : Pc} (hb : b ∈ (s.setPc a pc).attempts) :
    ∃ job ∈ s.jobs, job.jobId = b.jobId ∧ job.payload = b.draftId ∧ job.status = .Executing := by
  rcases mem_setPc hb with ⟨hb, -⟩ | ⟨old, hold, -, rfl⟩
  · exact h.held b hb
  · exact h.held old hold

theorem setPc_mem {b : Attempt} (pc : Pc) (h : b ∈ s.attempts) :
    (b.jobId ≠ a.jobId ∧ b ∈ (s.setPc a pc).attempts) ∨
      (b.jobId = a.jobId ∧ { b with pc := pc } ∈ (s.setPc a pc).attempts) := by
  by_cases hid : b.jobId = a.jobId
  · exact .inr ⟨hid, mem_map.mpr ⟨b, h, if_pos hid⟩⟩
  · exact .inl ⟨hid, mem_map.mpr ⟨b, h, if_neg hid⟩⟩

theorem Inv.on (h : Inv s) (ha : a ∈ s.attempts) (drafts : DraftRows) {pc : Pc}
    (hpc : pc.isSent = a.pc.isSent) : Inv ({ s with drafts := drafts }.setPc a pc) where
  ids := h.ids
  single := (setPc_ids a pc).symm ▸ h.single
  held := fun _ hb => setPc_held h hb
  oneJob := h.oneJob
  journaled := h.journaled
  reported := h.reported
  once := h.once
  clean := by
    intro job hjob hlive hunsent
    refine h.clean job hjob hlive (fun b hb hid => ?_)
    rcases setPc_mem pc hb with ⟨-, hmem⟩ | ⟨hab, hmem⟩
    · exact hunsent b hmem hid
    · rw [h.attempt_eq hb ha hab, ← hpc]
      exact hunsent _ hmem hid

theorem Inv.clean_of_attempt (h : Inv s) (ha : a ∈ s.attempts)
    (hsent : a.pc.isSent = false) : Clean a.draftId s.log := by
  obtain ⟨job, hjob, hid, hpayload, hstatus⟩ := h.held a ha
  rw [← hpayload]
  refine h.clean job hjob (by simp [QuietJob.isLive, hstatus]) ?_
  rw [hid]
  exact h.unsent_of ha hsent

theorem Inv.accepted (h : Inv s) (ha : a ∈ s.attempts) (hsent : a.pc.isSent = false) :
    Inv ({ s with log := s.log ++ [Report.accepted a.draftId] }.setPc a .accepted) where
  ids := h.ids
  single := (setPc_ids a .accepted).symm ▸ h.single
  held := fun _ hb => setPc_held h hb
  oneJob := h.oneJob
  journaled := by
    intro d hd
    rcases mem_append.mp hd with hd | hd
    · exact h.journaled d hd
    · obtain ⟨job, hjob, -, hpayload, -⟩ := h.held a ha
      cases mem_singleton.mp hd
      exact ⟨job, hjob, hpayload⟩
  reported := fun job hjob hfailed => mem_append_left _ (h.reported job hjob hfailed)
  once := fun d => (h.once d).append (fun hd => by
    cases hd
    exact h.clean_of_attempt ha hsent)
  clean := by
    intro job hjob hlive hunsent
    obtain ⟨own, hown, hid, hpayload, hstatus⟩ := h.held a ha
    by_cases hd : job.payload = a.draftId
    -- the only live job for the draft is the one that was just accepted
    · exfalso
      have hjobId := h.oneJob job hjob own hown (hd.trans hpayload.symm)
        (by simp [QuietJob.isLive] at hlive; exact hlive.2) (by rw [hstatus]; decide)
      rcases setPc_mem .accepted ha with ⟨hne, -⟩ | ⟨-, hmem⟩
      · exact hne rfl
      · have hfalse := hunsent _ hmem (hid.symm.trans hjobId.symm)
        cases hfalse
    · refine Clean.append (h.clean job hjob hlive (fun b hb hbid => ?_)) (fun heq => hd ?_)
      · rcases setPc_mem .accepted hb with ⟨-, hmem⟩ | ⟨hab, -⟩
        · exact hunsent b hmem hbid
        · rw [h.attempt_eq hb ha hab]
          exact hsent
      · exact (Report.accepted.inj heq).symm

theorem mem_others {b : Attempt} :
    b ∈ s.attempts.filter (fun b => b.jobId ≠ a.jobId) ↔ b ∈ s.attempts ∧ b.jobId ≠ a.jobId := by
  simp

theorem others_nodup (h : Inv s) (a : Attempt) :
    ((s.attempts.filter (fun b => b.jobId ≠ a.jobId)).map Attempt.jobId).Nodup :=
  h.single.sublist (List.filter_sublist.map _)

theorem Inv.abandoned (h : Inv s) (ha : a ∈ s.attempts) (hsent : a.pc.isSent = false) :
    Inv { s with attempts := s.attempts.filter (fun b => b.jobId ≠ a.jobId) } where
  ids := h.ids
  single := others_nodup h a
  held := fun b hb => h.held b (mem_others.mp hb).1
  oneJob := h.oneJob
  journaled := h.journaled
  reported := h.reported
  once := h.once
  clean := by
    intro job hjob hlive hunsent
    refine h.clean job hjob hlive (fun b hb hbid => ?_)
    by_cases hab : b.jobId = a.jobId
    · rw [h.attempt_eq hb ha hab]
      exact hsent
    · exact hunsent b (mem_others.mpr ⟨hb, hab⟩) hbid

theorem toStatus_terminal (success : Bool) :
    let status := (if success then JobTerminalStatus.Completed else .Failed).toStatus
    (success = true ∧ status = .Completed) ∨ (success = false ∧ status = .Failed) := by
  cases success
  · exact .inr ⟨rfl, rfl⟩
  · exact .inl ⟨rfl, rfl⟩

theorem finish_log (a : Attempt) (success : Bool) : (success = true ∧ (s.finish a success).log = s.log) ∨
      (success = false ∧ (s.finish a success).log = s.log ++ [Report.failed a.draftId]) := by
  cases success
  · exact .inr ⟨rfl, rfl⟩
  · exact .inl ⟨rfl, rfl⟩

theorem finish_clean {success : Bool} {d : String} (h : Clean d s.log) :
    Clean d (s.finish a success).log := by
  rcases finish_log (s := s) a success with ⟨-, hlog⟩ | ⟨-, hlog⟩ <;> rw [hlog]
  · exact h
  · exact h.append (by simp)

theorem mem_finish (h : Inv s) (ha : a ∈ s.attempts) {success : Bool}
    {job : QuietJob String} (hjob : job ∈ (s.finish a success).jobs) : (job ∈ s.jobs ∧ job.jobId ≠ a.jobId) ∨
      (job.jobId = a.jobId ∧ job.payload = a.draftId ∧
        ((success = true ∧ job.status = .Completed) ∨ (success = false ∧ job.status = .Failed))) := by
  rcases mem_setStatus hjob with hsame | ⟨old, hold, hid, rfl⟩
  · exact .inl hsame
  · obtain ⟨own, hown, hownId, hpayload, -⟩ := h.held a ha
    have heq := eq_of_jobId h.ids hold hown (hid.trans hownId.symm)
    exact .inr ⟨hid, heq ▸ hpayload, toStatus_terminal success⟩

theorem Inv.finished (h : Inv s) (ha : a ∈ s.attempts) (success : Bool) : Inv (s.finish a success) where
  ids := by
    rw [Worker.finish, finalizeJob, setStatus_ids]
    exact h.ids
  single := others_nodup h a
  held := by
    intro b hb
    obtain ⟨hb, hne⟩ := mem_others.mp hb
    obtain ⟨job, hjob, hid, hrest⟩ := h.held b hb
    rcases setStatus_mem hjob with ⟨-, hmem⟩ | ⟨hjobId, -⟩
    · exact ⟨job, hmem, hid, hrest⟩
    · exact absurd (hid.symm.trans hjobId) hne
  oneJob := by
    have hold : ∀ job ∈ (s.finish a success).jobs, job.status ≠ .Failed →
        ∃ old ∈ s.jobs, old.jobId = job.jobId ∧ old.payload = job.payload ∧ old.status ≠ .Failed := by
      intro job hjob hfailed
      rcases mem_finish h ha hjob with ⟨hsame, -⟩ | ⟨hid, hpayload, -⟩
      · exact ⟨job, hsame, rfl, rfl, hfailed⟩
      · obtain ⟨own, hown, hownId, hownPayload, hstatus⟩ := h.held a ha
        exact ⟨own, hown, hownId.trans hid.symm, hownPayload.trans hpayload.symm, by rw [hstatus]; decide⟩
    intro job hjob job' hjob' hpayload hfailed hfailed'
    obtain ⟨old, hmem, hid, hp, hf⟩ := hold job hjob hfailed
    obtain ⟨old', hmem', hid', hp', hf'⟩ := hold job' hjob' hfailed'
    rw [← hid, ← hid']
    exact h.oneJob old hmem old' hmem' (hp.trans (hpayload.trans hp'.symm)) hf hf'
  journaled := by
    intro d hd
    have hlog : Report.accepted d ∈ s.log := by
      rcases finish_log (s := s) a success with ⟨-, hlog⟩ | ⟨-, hlog⟩ <;> rw [hlog] at hd
      · exact hd
      · simpa using hd
    obtain ⟨job, hjob, hpayload⟩ := h.journaled d hlog
    rcases setStatus_mem hjob with ⟨-, hmem⟩ | ⟨-, hmem⟩
    · exact ⟨job, hmem, hpayload⟩
    · exact ⟨_, hmem, hpayload⟩
  reported := by
    intro job hjob hfailed
    rcases finish_log (s := s) a success with ⟨htrue, hlog⟩ | ⟨hfalse, hlog⟩ <;> rw [hlog]
    · rcases mem_finish h ha hjob with ⟨hsame, -⟩ | ⟨-, -, ⟨-, hc⟩ | ⟨hf, -⟩⟩
      · exact h.reported job hsame hfailed
      · rw [hc] at hfailed
        cases hfailed
      · rw [htrue] at hf
        cases hf
    · rcases mem_finish h ha hjob with ⟨hsame, -⟩ | ⟨-, hpayload, -⟩
      · exact mem_append_left _ (h.reported job hsame hfailed)
      · rw [hpayload]
        exact mem_append_right _ mem_cons_self
  clean := by
    intro job hjob hlive hunsent
    refine finish_clean ?_
    rcases mem_finish h ha hjob with ⟨hsame, hne⟩ | ⟨-, -, ⟨-, hs⟩ | ⟨-, hs⟩⟩
    · refine h.clean job hsame hlive (fun b hb hid => ?_)
      exact hunsent b (mem_others.mpr ⟨hb, fun hab => hne (hid.symm.trans hab)⟩) hid
    · simp [QuietJob.isLive, hs] at hlive
    · simp [QuietJob.isLive, hs] at hlive
  once := by
    intro d
    rcases finish_log (s := s) a success with ⟨-, hlog⟩ | ⟨-, hlog⟩ <;> rw [hlog]
    · exact h.once d
    · exact (h.once d).append (fun hd => by cases hd)

theorem Inv.attempt (h : Inv s) {t : Worker} {act : Act} (ha : a ∈ s.attempts)
    (habandon : act = .abandon → a.pc.isSent = false) (hm : Moves s a act t) : Inv t := by
  cases hm with
  | on drafts pc hpc => exact h.on ha drafts hpc
  | accepted hsent => exact h.accepted ha hsent
  | finished success => exact h.finished ha success
  | abandoned hact => exact h.abandoned ha (habandon hact)

/-! ## Steps of the journal -/

/-- Jobs that are new in their status only, none of them to or from failed or finished. -/
structure Renewed (jobs jobs' : List (QuietJob String)) : Prop where
  ids : jobs'.map QuietJob.jobId = jobs.map QuietJob.jobId
  old : ∀ job ∈ jobs', ∃ old ∈ jobs, old.jobId = job.jobId ∧ old.payload = job.payload ∧
    (job.status = .Failed ↔ old.status = .Failed) ∧ (job.isLive = true → old.isLive = true)
  new : ∀ old ∈ jobs, ∃ job ∈ jobs', job.payload = old.payload

variable {jobs : List (QuietJob String)}

theorem Inv.renewed (h : Inv s) {attempts : List Attempt}
    (hr : Renewed s.jobs jobs) (hsingle : (attempts.map Attempt.jobId).Nodup)
    (hheld : ∀ a ∈ attempts, ∃ job ∈ jobs,
      job.jobId = a.jobId ∧ job.payload = a.draftId ∧ job.status = .Executing)
    (hunsent : ∀ jobId, Unsent {s with attempts := attempts } jobId → Unsent s jobId) :
    Inv { s with jobs := jobs, attempts := attempts } where
  ids := hr.ids ▸ h.ids
  single := hsingle
  held := hheld
  oneJob := by
    intro job hjob job' hjob' hpayload hfailed hfailed'
    obtain ⟨old, hmem, hid, hp, hf, -⟩ := hr.old job hjob
    obtain ⟨old', hmem', hid', hp', hf', -⟩ := hr.old job' hjob'
    rw [← hid, ← hid']
    exact h.oneJob old hmem old' hmem' (hp.trans (hpayload.trans hp'.symm)) (mt hf.mpr hfailed)
      (mt hf'.mpr hfailed')
  journaled := by
    intro d hd
    obtain ⟨old, hold, hpayload⟩ := h.journaled d hd
    obtain ⟨job, hjob, hp⟩ := hr.new old hold
    exact ⟨job, hjob, hp.trans hpayload⟩
  reported := by
    intro job hjob hfailed
    obtain ⟨old, hold, -, hp, hf, -⟩ := hr.old job hjob
    rw [← hp]
    exact h.reported old hold (hf.mp hfailed)
  clean := by
    intro job hjob hlive hno
    obtain ⟨old, hold, hid, hp, -, hl⟩ := hr.old job hjob
    rw [← hp]
    exact h.clean old hold (hl hlive) (hunsent old.jobId (hid ▸ hno))
  once := h.once

variable {jobId : PlanId}

theorem renewed_lease (hqueued : ∀ job ∈ jobs, job.jobId = jobId → job.status = .Queued) :
    Renewed jobs (setStatus jobs jobId .Executing) where
  ids := setStatus_ids
  old := by
    intro job hjob
    rcases mem_setStatus hjob with ⟨hsame, -⟩ | ⟨old, hold, hid, rfl⟩
    · exact ⟨job, hsame, rfl, rfl, Iff.rfl, id⟩
    · refine ⟨old, hold, rfl, rfl, ?_, fun _ => ?_⟩
      · simp [hqueued old hold hid]
      · simp [QuietJob.isLive, hqueued old hold hid]
  new := by
    intro old hold
    have hmoved : (old.jobId ≠ jobId ∧ old ∈ setStatus jobs jobId .Executing) ∨ _ := setStatus_mem hold
    rcases hmoved with ⟨-, hmem⟩ | ⟨-, hmem⟩
    · exact ⟨old, hmem, rfl⟩
    · exact ⟨_, hmem, rfl⟩

theorem renewed_recover (jobs : List (QuietJob String)) : Renewed jobs (recoverStaleLeases jobs) where
  ids := recoverStaleLeases_ids
  old := by
    intro job hjob
    obtain ⟨old, hold, hid, hp, ⟨hlease, hs⟩ | ⟨-, hs⟩⟩ := mem_recover hjob
    · refine ⟨old, hold, hid.symm, hp.symm, ?_, fun _ => ?_⟩
      · rcases hlease with hl | hl <;> simp [hs, hl]
      · rcases hlease with hl | hl <;> simp [QuietJob.isLive, hl]
    · exact ⟨old, hold, hid.symm, hp.symm, by rw [hs], by simp only [QuietJob.isLive, hs]; exact id⟩
  new := by
    intro old hold
    refine ⟨recoverJob old, mem_map.mpr ⟨old, hold, rfl⟩, ?_⟩
    unfold recoverJob
    split <;> rfl

theorem Inv.lease (h : Inv s) {draftId : String} (hl : leaseQuietJob s.jobs jobId = some (draftId, jobs)) :
    Inv { s with jobs := jobs, attempts := s.attempts ++ [⟨jobId, draftId, .leased⟩] } := by
  obtain ⟨job, hjob, hid, hqueued, hpayload, rfl⟩ := leaseQuietJob_eq hl
  -- nobody holds a job that is queued
  have hfree : ∀ a ∈ s.attempts, a.jobId ≠ jobId := by
    intro a ha hid'
    obtain ⟨own, hown, hownId, -, hstatus⟩ := h.held a ha
    rw [eq_of_jobId h.ids hown hjob (hownId.trans (hid'.trans hid.symm)), hqueued] at hstatus
    cases hstatus
  refine h.renewed (renewed_lease (fun other hother hid' => ?_)) ?_ ?_ ?_
  · rwa [eq_of_jobId h.ids hother hjob (hid'.trans hid.symm)]
  · rw [map_append, nodup_append]
    refine ⟨h.single, nodup_singleton _, fun x hx y hy => ?_⟩
    obtain ⟨a, ha, rfl⟩ := mem_map.mp hx
    rw [mem_singleton.mp hy]
    exact hfree a ha
  · intro a ha
    rcases mem_append.mp ha with ha | ha
    · obtain ⟨own, hown, hownId, hrest⟩ := h.held a ha
      rcases setStatus_mem hown with ⟨-, hmem⟩ | ⟨hown', -⟩
      · exact ⟨own, hmem, hownId, hrest⟩
      · exact absurd (hownId.symm.trans hown') (hfree a ha)
    · rw [mem_singleton.mp ha]
      rcases setStatus_mem hjob with ⟨hne, -⟩ | ⟨-, hmem⟩
      · exact absurd hid hne
      · exact ⟨_, hmem, hid, hpayload, rfl⟩
  · intro id hno a ha hid'
    exact hno a (mem_append_left _ ha) hid'

theorem Inv.restart (h : Inv s) (hsent : ∀ a ∈ s.attempts, a.pc.isSent = false) :
    Inv { s with jobs := recoverStaleLeases s.jobs, attempts := [] } :=
  h.renewed (renewed_recover s.jobs) nodup_nil (fun _ ha => by cases ha)
    (fun _ _ a ha _ => hsent a ha)

theorem Inv.request (h : Inv s) {draftId : String} (hnew : jobId ∉ s.jobs.map QuietJob.jobId)
    (hfailed : ∀ job ∈ s.jobs, job.payload = draftId → job.status = .Failed) :
    Inv { s with jobs := s.jobs ++ [⟨jobId, .Queued, draftId⟩] } where
  ids := by
    rw [map_append, nodup_append]
    refine ⟨h.ids, nodup_singleton _, fun x hx y hy hxy => hnew ?_⟩
    rwa [hxy, mem_singleton.mp hy] at hx
  single := h.single
  held := by
    intro a ha
    obtain ⟨job, hjob, hrest⟩ := h.held a ha
    exact ⟨job, mem_append_left _ hjob, hrest⟩
  oneJob := by
    intro job hjob job' hjob' hpayload hf hf'
    rcases mem_append.mp hjob with hjob | hjob <;> rcases mem_append.mp hjob' with hjob' | hjob'
    · exact h.oneJob job hjob job' hjob' hpayload hf hf'
    · rw [mem_singleton.mp hjob'] at hpayload
      exact absurd (hfailed job hjob hpayload) hf
    · rw [mem_singleton.mp hjob] at hpayload
      exact absurd (hfailed job' hjob' hpayload.symm) hf'
    · rw [mem_singleton.mp hjob, mem_singleton.mp hjob']
  journaled := by
    intro d hd
    obtain ⟨job, hjob, hpayload⟩ := h.journaled d hd
    exact ⟨job, mem_append_left _ hjob, hpayload⟩
  reported := by
    intro job hjob hf
    rcases mem_append.mp hjob with hjob | hjob
    · exact h.reported job hjob hf
    · rw [mem_singleton.mp hjob] at hf
      cases hf
  clean := by
    intro job hjob hlive hunsent
    rcases mem_append.mp hjob with hjob | hjob
    · exact h.clean job hjob hlive hunsent
    -- what was accepted for the draft was a job that has failed since
    · rw [mem_singleton.mp hjob]
      by_cases hd : Report.accepted draftId ∈ s.log
      · obtain ⟨old, hold, hpayload⟩ := h.journaled draftId hd
        exact .inr (hpayload ▸ h.reported old hold (hfailed old hold hpayload))
      · exact .inl hd
  once := h.once

end Steps

/-! ## Runs -/

theorem Inv.step {s t : Worker} (h : Inv s) {ev : Event} (hm : Meets s ev) (hs : s.step ev = .ok t) :
    Inv t := by
  cases ev with
  | request jobId draftId =>
    simp only [Worker.step] at hs
    split at hs
    · cases hs
      exact h
    rename_i jobs hjobs
    obtain ⟨hnew, rfl⟩ := insertQuietJob_eq hjobs
    cases hs
    rcases hm with hold | hfailed
    · exact absurd hold hnew
    · exact h.request hnew hfailed
  | lease jobId =>
    simp only [Worker.step] at hs
    split at hs
    · cases hs
    · rename_i hl
      cases hs
      exact h.lease hl
  | attempt jobId act =>
    simp only [Worker.step] at hs
    split at hs
    · cases hs
    rename_i a hfind
    split at hs
    · cases hs
    rename_i hadvance
    cases hs
    have ha := mem_of_find?_eq_some hfind
    have hid : a.jobId = jobId := by simpa using find?_some hfind
    exact h.attempt ha (fun hact => hm hact a ha hid) (advance_moves hadvance)
  | restart =>
    cases hs
    exact h.restart hm

theorem Inv.guarded {s : Worker} (h : Inv s) : Guarded s := by
  intro a ha b hb _ _ hdraft
  obtain ⟨job, hjob, hid, hpayload, hstatus⟩ := h.held a ha
  obtain ⟨job', hjob', hid', hpayload', hstatus'⟩ := h.held b hb
  rw [← hid, ← hid']
  exact h.oneJob job hjob job' hjob' (hpayload.trans (hdraft.trans hpayload'.symm))
    (by rw [hstatus]; decide) (by rw [hstatus']; decide)

/-- In every run in which a new job finds only failed ones for its draft and no accepted attempt is lost
before its job is finalized, each draft is sent once, or again after a reported failure, and one attempt
at most is past the check. -/
theorem draft_sent_at_most_once (s : Worker) (hs : Reaches Worker.step Meets .start s) :
    (∀ d, SentOnce d s.log) ∧ Guarded s := by
  have h : Inv s := hs.invariant Inv.start (fun u ev v hu hok hv => hu.step hok hv)
  exact ⟨h.once, h.guarded⟩

/-- One attempt from the lease to the job's final status. -/
def sendsOk (jobId : PlanId) : List Event :=
  [.lease jobId, .attempt jobId (.begin false), .attempt jobId (.respond true true),
    .attempt jobId (.deleteDraft true), .attempt jobId .finalize]

/-- A double click journals the draft twice, and the worker sends it twice. -/
def doubleClick : List Event := [.request 1 "draft", .request 2 "draft"] ++ sendsOk 1 ++ sendsOk 2

/-- The first attempt is refused by the provider and reported as failed, then the user tries again. -/
def retried : List Event :=
  [.request 1 "draft", .lease 1, .attempt 1 (.begin false), .restart, .lease 1,
    .attempt 1 (.begin false), .attempt 1 (.respond false true), .attempt 1 .finalize,
    .request 2 "draft"] ++ sendsOk 2

theorem retried_sends_once : ∃ s, Reaches Worker.step Meets .start s ∧
    s.log = [Report.failed "draft", Report.accepted "draft"] ∧ (∀ d, SentOnce d s.log) ∧ Guarded s := by
  have hrun : ∃ t, retried.foldlM (fun s ev => if Meets s ev then s.step ev else .error ()) .start = .ok t ∧
      t.log = [Report.failed "draft", Report.accepted "draft"] := ⟨_, rfl, by decide⟩
  obtain ⟨t, hok, hlog⟩ := hrun
  have hreach := Lib.reaches_of_checked () hok
  exact ⟨t, hreach, hlog, draft_sent_at_most_once t hreach⟩

theorem double_click_sends_twice :
    ¬∀ s, Reaches Worker.step (fun _ _ => True) .start s → (∀ d, SentOnce d s.log) ∧ Guarded s := by
  intro h
  have hrun : ∃ t, doubleClick.foldlM Worker.step .start = .ok t ∧
      t.log = [Report.accepted "draft"] ++ Report.accepted "draft" :: [] := ⟨_, rfl, by decide⟩
  obtain ⟨t, hok, hlog⟩ := hrun
  have honce := (h t (Lib.reaches_foldlM hok)).1 "draft"
  exact absurd (honce _ _ hlog) (by decide)

end Ratatoskr.Send

import Ratatoskr.Journal.Store

/-!
# Send.Jobs

The journal as the send path uses it (`db/src/db/action_journal.rs`): quiet jobs of kind `send`, with what
their payload holds as a parameter `ρ`. Which of the queued jobs is next is decided by `created_at`, which
several of them can share; here the lease names the job.
-/

namespace Ratatoskr.Send

open Journal (PlanId JobStatus JobTerminalStatus)

structure QuietJob (ρ : Type) where
  jobId : PlanId
  status : JobStatus
  payload : ρ
  deriving DecidableEq

variable {ρ : Type}

/-- A plain `INSERT`, which fails on an id that is taken. -/
instance : LawfulBEq PlanId := inferInstance

def insertQuietJob (jobs : List (QuietJob ρ)) (jobId : PlanId) (payload : ρ) : Option (List (QuietJob ρ)) :=
  if jobId ∈ jobs.map QuietJob.jobId then none else some (jobs ++ [⟨jobId, .Queued, payload⟩])

def setStatus (jobs : List (QuietJob ρ)) (jobId : PlanId) (status : JobStatus) : List (QuietJob ρ) :=
  jobs.map (fun job => if job.jobId = jobId then { job with status := status } else job)

def leaseQuietJob (jobs : List (QuietJob ρ)) (jobId : PlanId) : Option (ρ × List (QuietJob ρ)) :=
  (jobs.find? (fun job => job.jobId = jobId ∧ job.status = .Queued)).map (fun job =>
    (job.payload, setStatus jobs jobId .Executing))

def finalizeJob (jobs : List (QuietJob ρ)) (jobId : PlanId) (status : JobTerminalStatus) :
    List (QuietJob ρ) :=
  setStatus jobs jobId status.toStatus

def recoverJob (job : QuietJob ρ) : QuietJob ρ :=
  if job.status = .Leased ∨ job.status = .Executing then { job with status := .Queued } else job

def recoverStaleLeases (jobs : List (QuietJob ρ)) : List (QuietJob ρ) := jobs.map recoverJob

def QuietJob.isLive (job : QuietJob ρ) : Bool :=
  job.status ≠ .Completed ∧ job.status ≠ .Failed

def liveSendJobIds (jobs : List (QuietJob ρ)) : List PlanId :=
  (jobs.filter QuietJob.isLive).map QuietJob.jobId

section Rows

variable {jobs : List (QuietJob ρ)} {jobId : PlanId} {status : JobStatus} {job : QuietJob ρ}

theorem insertQuietJob_eq {payload : ρ} {jobs' : List (QuietJob ρ)}
    (h : insertQuietJob jobs jobId payload = some jobs') :
    jobId ∉ jobs.map QuietJob.jobId ∧ jobs' = jobs ++ [⟨jobId, .Queued, payload⟩] := by
  unfold insertQuietJob at h
  split at h
  · cases h
  · rename_i hnew
    exact ⟨hnew, (Option.some.inj h).symm⟩

@[simp] theorem setStatus_ids :
    (setStatus jobs jobId status).map QuietJob.jobId = jobs.map QuietJob.jobId := by
  rw [setStatus, List.map_map]
  refine List.map_congr_left (fun job _ => ?_)
  simp only [Function.comp_apply]
  split <;> rfl

@[simp] theorem recoverStaleLeases_ids :
    (recoverStaleLeases jobs).map QuietJob.jobId = jobs.map QuietJob.jobId := by
  rw [recoverStaleLeases, List.map_map]
  refine List.map_congr_left (fun job _ => ?_)
  simp only [Function.comp_apply, recoverJob]
  split <;> rfl

theorem mem_setStatus (h : job ∈ setStatus jobs jobId status) : (job ∈ jobs ∧ job.jobId ≠ jobId) ∨
      ∃ old ∈ jobs, old.jobId = jobId ∧ job = { old with status := status } := by
  obtain ⟨old, hold, rfl⟩ := List.mem_map.mp h
  by_cases hid : old.jobId = jobId
  · rw [if_pos hid]
    exact .inr ⟨old, hold, hid, rfl⟩
  · rw [if_neg hid]
    exact .inl ⟨hold, hid⟩

/-- A row before an update is found after it, with its new status if it was named. -/
theorem setStatus_mem (h : job ∈ jobs) : (job.jobId ≠ jobId ∧ job ∈ setStatus jobs jobId status) ∨
      (job.jobId = jobId ∧ { job with status := status } ∈ setStatus jobs jobId status) := by
  by_cases hid : job.jobId = jobId
  · exact .inr ⟨hid, List.mem_map.mpr ⟨job, h, if_pos hid⟩⟩
  · exact .inl ⟨hid, List.mem_map.mpr ⟨job, h, if_neg hid⟩⟩

theorem mem_recover (h : job ∈ recoverStaleLeases jobs) :
    ∃ old ∈ jobs, job.jobId = old.jobId ∧ job.payload = old.payload ∧
      ((old.status = .Leased ∨ old.status = .Executing) ∧ job.status = .Queued ∨
        ¬(old.status = .Leased ∨ old.status = .Executing) ∧ job.status = old.status) := by
  obtain ⟨old, hold, rfl⟩ := List.mem_map.mp h
  refine ⟨old, hold, ?_⟩
  unfold recoverJob
  split
  · rename_i hs
    exact ⟨rfl, rfl, .inl ⟨hs, rfl⟩⟩
  · rename_i hs
    exact ⟨rfl, rfl, .inr ⟨hs, rfl⟩⟩

theorem leaseQuietJob_eq {payload : ρ} {jobs' : List (QuietJob ρ)}
    (h : leaseQuietJob jobs jobId = some (payload, jobs')) :
    ∃ job ∈ jobs, job.jobId = jobId ∧ job.status = .Queued ∧ job.payload = payload ∧
      jobs' = setStatus jobs jobId .Executing := by
  obtain ⟨job, hfind, heq⟩ := Option.map_eq_some_iff.mp h
  have hp := List.find?_some hfind
  simp only [decide_eq_true_eq] at hp
  cases heq
  exact ⟨job, List.mem_of_find?_eq_some hfind, hp.1, hp.2, rfl, rfl⟩

theorem eq_of_jobId (hids : (jobs.map QuietJob.jobId).Nodup) {a b : QuietJob ρ} (ha : a ∈ jobs)
    (hb : b ∈ jobs) (h : a.jobId = b.jobId) : a = b :=
  List.inj_on_of_nodup_map hids ha hb h

end Rows

end Ratatoskr.Send

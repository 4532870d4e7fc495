import Ratatoskr.Lib.Run
import Ratatoskr.Send.Vault

/-!
# Send.Kept

When a pending send keeps its attachments. A directory of the vault belongs to a send id, and every error
of a request removes it, also where the id is that of a job that is journaled and waits: repeating a
request that has succeeded deletes its files. A read error of the worker removes them before the job is
over. Where every request has an id of its own and neither reads nor final statuses are lost, a live job
has its files.
-/

namespace Ratatoskr.Send

open List
open Journal (PlanId JobStatus JobTerminalStatus)
open Lib (Reaches)

section Asked

variable (blake3 : Bytes → ContentHash)

/-- Every attachment of the job lies in the vault as it was verified. -/
def HasFiles (s : Vault) (sendId : PlanId) (attachments : List Transferred) : Prop :=
  ∀ t ∈ attachments, s.file sendId t.attachment.vaultIndex = some t.bytes ∧
    blake3 t.bytes = t.attachment.contentHash

def Kept (s : Vault) : Prop :=
  ∀ job ∈ s.jobs, job.isLive = true → HasFiles blake3 s job.jobId job.payload

def VaultEvent.ofRequest : VaultEvent → Bool
  | .request _ => true
  | .transfer _ _ => true
  | .journal _ _ => true
  | _ => false

/-- The step changes the directory of no journaled job, be it the request's own id or another. -/
def SparesJobs (s : Vault) (ev : VaultEvent) : Prop :=
  ∀ t, s.step blake3 ev = .ok t → ∀ job ∈ s.jobs, t.vault job.jobId = s.vault job.jobId

/-- What the code needs: the id of a request is neither a job's nor that of another request in flight, the
worker's reads succeed, and one of its two final statuses is written. -/
def VaultMeets (s : Vault) : VaultEvent → Prop
  | .request r => r.sendId ∉ s.jobs.map QuietJob.jobId ∧ ∀ h ∈ s.handlers, h.sendId ≠ r.sendId
  | .read failed => failed = false
  | .finalize _ written writtenFailed => written = true ∨ writtenFailed = true
  | _ => True

instance (s : Vault) (ev : VaultEvent) : Decidable (VaultMeets s ev) :=
  match ev with
  | .request _ => inferInstanceAs (Decidable (_ ∧ _))
  | .read _ => inferInstanceAs (Decidable (_ = false))
  | .finalize _ _ _ => inferInstanceAs (Decidable (_ ∨ _))
  | .stage _ _ _ | .transfer _ _ | .journal _ _ | .lease _ | .cleanup | .restart _ =>
    inferInstanceAs (Decidable True)

end Asked

section Handlers

variable {l : List Handler} {i : Nat} {h h' : Handler}

theorem handler_idx_eq (hn : (l.map Handler.sendId).Nodup) {j : Nat} (hi : l[i]? = some h)
    (hj : l[j]? = some h') (hid : h'.sendId = h.sendId) : j = i := by
  have hlen : j < (l.map Handler.sendId).length := by
    rw [length_map]
    exact (List.getElem?_eq_some_iff.mp hj).1
  refine (getElem?_inj hlen hn).mp ?_
  rw [getElem?_map, getElem?_map, hi, hj, Option.map_some, Option.map_some, hid]

theorem mem_eraseIdx_other (hn : (l.map Handler.sendId).Nodup) (hi : l[i]? = some h)
    (hm : h' ∈ l.eraseIdx i) : h' ∈ l ∧ h'.sendId ≠ h.sendId := by
  obtain ⟨j, hne, hj⟩ := mem_eraseIdx_iff_getElem?.mp hm
  exact ⟨mem_of_getElem? hj, fun hid => hne (handler_idx_eq hn hi hj hid)⟩

theorem mem_set_other (hn : (l.map Handler.sendId).Nodup) (hi : l[i]? = some h) {new : Handler}
    (hm : h' ∈ l.set i new) : h' = new ∨ (h' ∈ l ∧ h'.sendId ≠ h.sendId) := by
  obtain ⟨j, hj⟩ := getElem?_of_mem hm
  rw [getElem?_set] at hj
  split at hj
  · split at hj
    · exact .inl (Option.some.inj hj).symm
    · cases hj
  · rename_i hne
    exact .inr ⟨mem_of_getElem? hj, fun hid => hne (handler_idx_eq hn hi hj hid).symm⟩

theorem set_ids (hi : l[i]? = some h) {new : Handler} (hid : new.sendId = h.sendId) :
    (l.set i new).map Handler.sendId = l.map Handler.sendId := by
  obtain ⟨hlt, -⟩ := List.getElem?_eq_some_iff.mp hi
  refine ext_getElem? (fun j => ?_)
  rw [getElem?_map, getElem?_map, getElem?_set]
  by_cases hij : i = j
  · subst hij
    rw [if_pos rfl, if_pos hlt, hi, Option.map_some, Option.map_some, hid]
  · rw [if_neg hij]

end Handlers

section Directories

variable {s : Vault} {id id' : PlanId}

theorem createDir_file (index : Nat) : (s.createDir id).file id' index = s.file id' index := by
  unfold Vault.file Vault.createDir
  by_cases h : id' = id
  · subst h
    simp only [Function.update_self]
    cases s.vault id' <;> rfl
  · simp [Function.update_of_ne h]

theorem cleanupVaultDir_other (h : id' ≠ id) : (s.cleanupVaultDir id).vault id' = s.vault id' :=
  Function.update_of_ne h _ _

theorem moveFile_other (path : List String) {index : Nat} {bytes : Bytes} (h : id' ≠ id) :
    (s.moveFile id path index bytes).vault id' = s.vault id' :=
  Function.update_of_ne h _ _

theorem moveFile_file (path : List String) {index : Nat} {bytes : Bytes} (index' : Nat) :
    (s.moveFile id path index bytes).file id index' =
      if index' = index then some bytes else s.file id index' := by
  unfold Vault.file Vault.moveFile
  simp only [Function.update_self, Option.bind_some]
  by_cases h : index' = index
  · rw [if_pos h, h, Function.update_self]
  · rw [if_neg h, Function.update_of_ne h]
    cases s.vault id <;> rfl

theorem file_of_vault {t : Vault} (h : t.vault id = s.vault id) (index : Nat) :
    t.file id index = s.file id index := by
  rw [Vault.file, Vault.file, h]

theorem HasFiles.of_vault {blake3 : Bytes → ContentHash} {t : Vault} {attachments : List Transferred}
    (hf : HasFiles blake3 s id attachments) (h : t.vault id = s.vault id) :
    HasFiles blake3 t id attachments := by
  intro a ha
  rw [file_of_vault h]
  exact hf a ha

end Directories

structure VaultInv (blake3 : Bytes → ContentHash) (s : Vault) : Prop where
  ids : (s.jobs.map QuietJob.jobId).Nodup
  single : (s.handlers.map Handler.sendId).Nodup
  fresh : ∀ h ∈ s.handlers, h.sendId ∉ s.jobs.map QuietJob.jobId
  indices : ∀ h ∈ s.handlers, ∀ t ∈ h.done, t.attachment.vaultIndex < h.done.length
  transferred : ∀ h ∈ s.handlers, HasFiles blake3 s h.sendId h.done
  kept : Kept blake3 s
  leased : ∀ jobId pc, s.worker = some (jobId, pc) → jobId ∈ s.jobs.map QuietJob.jobId
  phase : ∀ jobId pc, s.worker = some (jobId, pc) →
    ∀ job ∈ s.jobs, job.jobId = jobId → job.isLive = decide (pc ≠ .cleaning)
  notFailing : ∀ jobId, s.worker ≠ some (jobId, .failing)

section Steps

variable {blake3 : Bytes → ContentHash} {s : Vault}
variable {todo : List SendWireAttachment} {hd : Handler} {job : QuietJob (List Transferred)}
  {i : Nat} {failed : Bool} {t : Vault} {jobId : PlanId} {jobs : List (QuietJob (List Transferred))}

theorem VaultInv.start : VaultInv blake3 .start where
  ids := nodup_nil
  single := nodup_nil
  fresh := fun _ h => by cases h
  indices := fun _ h => by cases h
  transferred := fun _ h => by cases h
  kept := fun _ h => by cases h
  leased := fun _ _ h => by cases h
  phase := fun _ _ h => by cases h
  notFailing := fun _ h => by cases h

theorem VaultInv.stage (h : VaultInv blake3 s) (staging : PlanId → List String → Option StagedFile) :
    VaultInv blake3 { s with staging := staging } :=
  ⟨h.ids, h.single, h.fresh, h.indices, h.transferred, h.kept, h.leased, h.phase, h.notFailing⟩

theorem VaultInv.request (h : VaultInv blake3 s) {sendId : PlanId}
    (hnew : sendId ∉ s.jobs.map QuietJob.jobId) (hother : ∀ h ∈ s.handlers, h.sendId ≠ sendId) :
    VaultInv blake3 { s.createDir sendId with handlers := s.handlers ++ [⟨sendId, todo, []⟩] } where
  ids := h.ids
  single := by
    rw [map_append, nodup_append]
    refine ⟨h.single, nodup_singleton _, fun x hx y hy => ?_⟩
    obtain ⟨other, hmem, rfl⟩ := mem_map.mp hx
    rw [mem_singleton.mp hy]
    exact hother other hmem
  fresh := by
    intro other hmem
    rcases mem_append.mp hmem with hmem | hmem
    · exact h.fresh other hmem
    · rw [mem_singleton.mp hmem]
      exact hnew
  indices := by
    intro other hmem t ht
    rcases mem_append.mp hmem with hmem | hmem
    · exact h.indices other hmem t ht
    · rw [mem_singleton.mp hmem] at ht
      cases ht
  transferred := by
    intro other hmem t ht
    rcases mem_append.mp hmem with hmem | hmem
    · obtain ⟨hfile, hhash⟩ := h.transferred other hmem t ht
      exact ⟨(createDir_file _).trans hfile, hhash⟩
    · rw [mem_singleton.mp hmem] at ht
      cases ht
  kept := by
    intro job hjob hlive t ht
    obtain ⟨hfile, hhash⟩ := h.kept job hjob hlive t ht
    exact ⟨(createDir_file _).trans hfile, hhash⟩
  leased := h.leased
  phase := h.phase
  notFailing := h.notFailing

theorem VaultInv.job_ne (h : VaultInv blake3 s) (hmem : hd ∈ s.handlers) (hjob : job ∈ s.jobs) :
    job.jobId ≠ hd.sendId := by
  intro hid
  exact h.fresh hd hmem (hid ▸ mem_map_of_mem hjob)

theorem VaultInv.failRequest (h : VaultInv blake3 s) (hi : s.handlers[i]? = some hd) :
    VaultInv blake3 (failRequest s i hd) where
  ids := h.ids
  single := h.single.sublist ((eraseIdx_sublist _ _).map _)
  fresh := fun other hmem => h.fresh other (mem_eraseIdx_other h.single hi hmem).1
  indices := fun other hmem => h.indices other (mem_eraseIdx_other h.single hi hmem).1
  transferred := by
    intro other hmem
    obtain ⟨hmem, hne⟩ := mem_eraseIdx_other h.single hi hmem
    exact (h.transferred other hmem).of_vault (cleanupVaultDir_other hne)
  kept := by
    intro job hjob hlive
    exact (h.kept job hjob hlive).of_vault
      (cleanupVaultDir_other (h.job_ne (mem_of_getElem? hi) hjob))
  leased := h.leased
  phase := h.phase
  notFailing := h.notFailing

theorem verifyAndTransfer_ok {sendId : PlanId} {rel : String} {hash : ContentHash} {index : Nat}
    {bytes : Bytes} (h : verifyAndTransfer blake3 s sendId rel hash index failed = .ok (t, bytes)) :
    t = s.moveFile sendId (components rel) index bytes ∧ blake3 bytes = hash := by
  unfold verifyAndTransfer at h
  split at h
  · cases h
  simp only at h
  split at h
  · cases h
  · cases h
  split at h
  · cases h
  rename_i hhash
  split at h
  · cases h
  · cases h
    exact ⟨rfl, not_not.mp hhash⟩

theorem VaultInv.transferred_one (h : VaultInv blake3 s) (hi : s.handlers[i]? = some hd)
    {path : List String} {bytes : Bytes} {att : JournaledAttachment}
    (hindex : att.vaultIndex = hd.done.length) (hhash : blake3 bytes = att.contentHash) :
    VaultInv blake3 { s.moveFile hd.sendId path hd.done.length bytes with
      handlers := s.handlers.set i ⟨hd.sendId, todo, hd.done ++ [⟨att, bytes⟩]⟩ } where
  ids := h.ids
  single := by
    have hids : (s.handlers.set i ⟨hd.sendId, todo, hd.done ++ [⟨att, bytes⟩]⟩).map Handler.sendId =
        s.handlers.map Handler.sendId := set_ids hi rfl
    exact hids ▸ h.single
  fresh := by
    intro other hmem
    rcases mem_set_other h.single hi hmem with rfl | ⟨hmem, -⟩
    · exact h.fresh hd (mem_of_getElem? hi)
    · exact h.fresh other hmem
  indices := by
    intro other hmem t ht
    rcases mem_set_other h.single hi hmem with rfl | ⟨hmem, -⟩
    · rw [length_append]
      rcases mem_append.mp ht with ht | ht
      · have hlt := h.indices hd (mem_of_getElem? hi) t ht
        omega
      · rw [mem_singleton.mp ht]
        exact hindex ▸ Nat.lt_succ_self _
    · exact h.indices other hmem t ht
  transferred := by
    intro other hmem
    rcases mem_set_other h.single hi hmem with rfl | ⟨hmem, hne⟩
    · intro t ht
      rcases mem_append.mp ht with ht | ht
      · have hlt := h.indices hd (mem_of_getElem? hi) t ht
        obtain ⟨hfile, hold⟩ := h.transferred hd (mem_of_getElem? hi) t ht
        refine ⟨?_, hold⟩
        exact ((moveFile_file path _).trans (if_neg (by omega))).trans hfile
      · rw [mem_singleton.mp ht]
        refine ⟨?_, hhash⟩
        exact (moveFile_file path _).trans (if_pos hindex)
    · exact (h.transferred other hmem).of_vault (moveFile_other path hne)
  kept := by
    intro job hjob hlive
    exact (h.kept job hjob hlive).of_vault
      (moveFile_other path (h.job_ne (mem_of_getElem? hi) hjob))
  leased := h.leased
  phase := h.phase
  notFailing := h.notFailing

theorem VaultInv.transferStep (h : VaultInv blake3 s) (hi : s.handlers[i]? = some hd)
    (hs : transferStep blake3 s i hd failed = .ok t) : VaultInv blake3 t := by
  unfold Send.transferStep at hs
  split at hs
  · cases hs
  split at hs
  · cases hs
    exact h.failRequest hi
  · rename_i moved bytes hok
    obtain ⟨rfl, hhash⟩ := verifyAndTransfer_ok hok
    cases hs
    exact h.transferred_one hi rfl hhash

theorem VaultInv.journaled (h : VaultInv blake3 s) (hi : s.handlers[i]? = some hd)
    (hnew : hd.sendId ∉ s.jobs.map QuietJob.jobId) :
    VaultInv blake3 { s with
      jobs := s.jobs ++ [⟨hd.sendId, .Queued, hd.done⟩]
      handlers := s.handlers.eraseIdx i } where
  ids := by
    rw [map_append, nodup_append]
    refine ⟨h.ids, nodup_singleton _, fun x hx y hy hxy => hnew ?_⟩
    rwa [hxy, mem_singleton.mp hy] at hx
  single := h.single.sublist ((eraseIdx_sublist _ _).map _)
  fresh := by
    intro other hmem hid
    obtain ⟨hmem, hne⟩ := mem_eraseIdx_other h.single hi hmem
    rw [map_append] at hid
    rcases mem_append.mp hid with hid | hid
    · exact h.fresh other hmem hid
    · exact hne (mem_singleton.mp hid)
  indices := fun other hmem => h.indices other (mem_eraseIdx_other h.single hi hmem).1
  transferred := fun other hmem => h.transferred other (mem_eraseIdx_other h.single hi hmem).1
  kept := by
    intro job hjob hlive
    rcases mem_append.mp hjob with hjob | hjob
    · exact h.kept job hjob hlive
    · rw [mem_singleton.mp hjob]
      exact h.transferred hd (mem_of_getElem? hi)
  leased := by
    intro jobId pc hw
    rw [map_append]
    exact mem_append_left _ (h.leased jobId pc hw)
  phase := by
    intro jobId pc hw job hjob hid
    rcases mem_append.mp hjob with hjob | hjob
    · exact h.phase jobId pc hw job hjob hid
    · rw [mem_singleton.mp hjob] at hid
      exact absurd (h.leased jobId pc hw) (hid ▸ hnew)
  notFailing := h.notFailing

theorem VaultInv.journalStep (h : VaultInv blake3 s) (hi : s.handlers[i]? = some hd)
    (hs : journalStep s i hd failed = .ok t) : VaultInv blake3 t := by
  unfold Send.journalStep at hs
  split at hs
  · cases hs
  split at hs
  · cases hs
    exact h.failRequest hi
  split at hs
  · cases hs
    exact h.failRequest hi
  · rename_i jobs hjobs
    obtain ⟨hnew, rfl⟩ := insertQuietJob_eq hjobs
    cases hs
    exact h.journaled hi hnew

/-! ## The worker -/

theorem VaultInv.readable (h : VaultInv blake3 s)
    (hlive : ∀ job ∈ s.jobs, job.jobId = jobId → job.isLive = true) : readable s jobId = true := by
  refine all_eq_true.mpr (fun job hjob => ?_)
  simp only [decide_eq_true_eq, all_eq_true]
  by_cases hid : job.jobId = jobId
  · right
    intro t ht
    obtain ⟨hfile, -⟩ := h.kept job hjob (hlive job hjob hid) t ht
    rw [← hid, hfile]
    rfl
  · exact .inl hid

theorem VaultInv.statuses (h : VaultInv blake3 s) {worker : Option (PlanId × WorkerPc)}
    (hids : jobs.map QuietJob.jobId = s.jobs.map QuietJob.jobId)
    (hlive : ∀ job ∈ jobs, job.isLive = true →
      ∃ old ∈ s.jobs, old.jobId = job.jobId ∧ old.payload = job.payload ∧ old.isLive = true)
    (hleased : ∀ jobId pc, worker = some (jobId, pc) → jobId ∈ s.jobs.map QuietJob.jobId)
    (hphase : ∀ jobId pc, worker = some (jobId, pc) →
      ∀ job ∈ jobs, job.jobId = jobId → job.isLive = decide (pc ≠ .cleaning))
    (hfailing : ∀ jobId, worker ≠ some (jobId, .failing)) :
    VaultInv blake3 { s with jobs := jobs, worker := worker } where
  ids := hids ▸ h.ids
  single := h.single
  fresh := fun hd hmem => hids ▸ h.fresh hd hmem
  indices := h.indices
  transferred := h.transferred
  kept := by
    intro job hjob hl
    obtain ⟨old, hold, hid, hpayload, holdLive⟩ := hlive job hjob hl
    rw [← hid, ← hpayload]
    exact h.kept old hold holdLive
  leased := fun jobId pc hw => hids ▸ hleased jobId pc hw
  phase := hphase
  notFailing := hfailing

theorem VaultInv.lease (h : VaultInv blake3 s) {payload : List Transferred}
    (hl : leaseQuietJob s.jobs jobId = some (payload, jobs)) :
    VaultInv blake3 { s with jobs := jobs, worker := some (jobId, .reading) } := by
  obtain ⟨job, hjob, hid, hqueued, -, rfl⟩ := leaseQuietJob_eq hl
  refine h.statuses setStatus_ids ?_ ?_ ?_ (fun _ hw => by cases hw)
  · intro other hother hlive
    rcases mem_setStatus hother with ⟨hsame, -⟩ | ⟨old, hold, hoid, rfl⟩
    · exact ⟨other, hsame, rfl, rfl, hlive⟩
    · refine ⟨old, hold, rfl, rfl, ?_⟩
      rw [eq_of_jobId h.ids hold hjob (hoid.trans hid.symm), QuietJob.isLive, hqueued]
      decide
  · intro id pc hw
    cases hw
    exact hid ▸ mem_map_of_mem hjob
  · intro id pc hw other hother hoid
    cases hw
    rcases mem_setStatus hother with ⟨-, hne⟩ | ⟨old, -, -, rfl⟩
    · exact absurd hoid hne
    · rfl

theorem VaultInv.finalized (h : VaultInv blake3 s) {status : JobTerminalStatus}
    (hstatus : status ≠ .Partial) (hmem : jobId ∈ s.jobs.map QuietJob.jobId) :
    VaultInv blake3 { s with
      jobs := finalizeJob s.jobs jobId status
      worker := some (jobId, .cleaning) } := by
  have hdead : ∀ old : QuietJob (List Transferred),
      QuietJob.isLive { old with status := status.toStatus } = false := by
    intro old
    cases status with
    | Partial => exact absurd rfl hstatus
    | _ => rfl
  refine h.statuses setStatus_ids ?_ ?_ ?_ (fun _ hw => by cases hw)
  · intro job hjob hlive
    rcases mem_setStatus hjob with ⟨hsame, -⟩ | ⟨old, -, -, rfl⟩
    · exact ⟨job, hsame, rfl, rfl, hlive⟩
    · rw [hdead old] at hlive
      cases hlive
  · intro id pc hw
    cases hw
    exact hmem
  · intro id pc hw job hjob hid
    cases hw
    rcases mem_setStatus hjob with ⟨-, hne⟩ | ⟨old, -, -, rfl⟩
    · exact absurd hid hne
    · exact hdead old

theorem VaultInv.cleanup (h : VaultInv blake3 s) (hw : s.worker = some (jobId, .cleaning)) :
    VaultInv blake3 { s.cleanupVaultDir jobId with worker := none } where
  ids := h.ids
  single := h.single
  fresh := h.fresh
  indices := h.indices
  transferred := by
    intro hd hmem
    refine (h.transferred hd hmem).of_vault (cleanupVaultDir_other (fun hid => ?_))
    exact h.fresh hd hmem (hid ▸ h.leased jobId .cleaning hw)
  kept := by
    intro job hjob hlive
    refine (h.kept job hjob hlive).of_vault (cleanupVaultDir_other (fun hid => ?_))
    have hdead := h.phase jobId .cleaning hw job hjob hid
    rw [hlive] at hdead
    cases hdead
  leased := fun _ _ hw => by cases hw
  phase := fun _ _ hw => by cases hw
  notFailing := fun _ hw => by cases hw

theorem VaultInv.restart (h : VaultInv blake3 s) (swept : PlanId → Bool) :
    VaultInv blake3 (cleanupOrphanVaults { s with
      jobs := recoverStaleLeases s.jobs
      handlers := []
      worker := none } swept) where
  ids := by
    have hids : (recoverStaleLeases s.jobs).map QuietJob.jobId = s.jobs.map QuietJob.jobId :=
      recoverStaleLeases_ids
    exact hids ▸ h.ids
  single := nodup_nil
  fresh := fun _ hmem => by cases hmem
  indices := fun _ hmem => by cases hmem
  transferred := fun _ hmem => by cases hmem
  kept := by
    intro job hjob hlive
    obtain ⟨old, hold, hid, hpayload, hstatus⟩ := mem_recover hjob
    have holdLive : old.isLive = true := by
      rcases hstatus with ⟨hleased, -⟩ | ⟨-, hsame⟩
      · rcases hleased with hl | hl <;> simp [QuietJob.isLive, hl]
      · rwa [QuietJob.isLive, ← hsame]
    have hmem : job.jobId ∈ liveSendJobIds (recoverStaleLeases s.jobs) :=
      mem_map_of_mem (mem_filter.mpr ⟨hjob, hlive⟩)
    rw [hpayload, hid]
    refine (h.kept old hold holdLive).of_vault ?_
    rw [hid] at hmem
    exact if_neg (fun hsweep => hsweep.2 hmem)
  leased := fun _ _ hw => by cases hw
  phase := fun _ _ hw => by cases hw
  notFailing := fun _ hw => by cases hw

theorem VaultInv.read (h : VaultInv blake3 s) (hw : s.worker = some (jobId, .reading)) :
    Send.readable s jobId = true ∧ VaultInv blake3 { s with worker := some (jobId, .sending) } := by
  refine ⟨h.readable (fun job hjob hid => h.phase jobId .reading hw job hjob hid), ?_⟩
  refine h.statuses rfl (fun job hjob hlive => ⟨job, hjob, rfl, rfl, hlive⟩) ?_ ?_
    (fun _ hw => by cases hw)
  · intro id pc hw'
    cases hw'
    exact h.leased jobId .reading hw
  · intro id pc hw' job hjob hid
    cases hw'
    exact h.phase jobId .reading hw job hjob hid

theorem VaultInv.finalize (h : VaultInv blake3 s) (hw : s.worker = some (jobId, .sending))
    {success written writtenFailed : Bool} (hm : written = true ∨ writtenFailed = true) :
    VaultInv blake3 { writeFinal s jobId success written writtenFailed with
      worker := some (jobId, .cleaning) } := by
  have hmem := h.leased jobId .sending hw
  unfold writeFinal
  cases written with
  | true =>
    refine h.finalized ?_ hmem
    cases success <;> decide
  | false =>
    have hfailed : writtenFailed = true := hm.resolve_left Bool.false_ne_true
    rw [if_pos hfailed]
    exact h.finalized (by decide) hmem

/-! ## Runs -/

theorem VaultInv.step (h : VaultInv blake3 s) {ev : VaultEvent} (hm : VaultMeets s ev) {t : Vault}
    (hs : s.step blake3 ev = .ok t) : VaultInv blake3 t := by
  cases ev with
  | stage sendId path file =>
    cases hs
    exact h.stage _
  | request r =>
    cases hs
    exact h.request hm.1 hm.2
  | transfer i failed =>
    simp only [Vault.step] at hs
    split at hs
    · cases hs
    · rename_i hi
      exact h.transferStep hi hs
  | journal i failed =>
    simp only [Vault.step] at hs
    split at hs
    · cases hs
    · rename_i hi
      exact h.journalStep hi hs
  | lease jobId =>
    simp only [Vault.step] at hs
    split at hs
    · rename_i hl
      cases hs
      exact h.lease hl
    · cases hs
  | read failed =>
    simp only [Vault.step] at hs
    split at hs
    · rename_i jobId hw
      obtain ⟨hreadable, hinv⟩ := h.read hw
      rw [if_pos ⟨hm, hreadable⟩] at hs
      cases hs
      exact hinv
    · cases hs
  | finalize success written writtenFailed =>
    simp only [Vault.step] at hs
    split at hs
    · rename_i jobId hw
      cases hs
      exact h.finalize hw hm
    · rename_i jobId hw
      exact absurd hw (h.notFailing jobId)
    · cases hs
  | cleanup =>
    simp only [Vault.step] at hs
    split at hs
    · rename_i jobId hw
      cases hs
      exact h.cleanup hw
    · cases hs
  | restart swept =>
    cases hs
    exact h.restart swept

theorem failRequest_spares (h : VaultInv blake3 s) (hi : s.handlers[i]? = some hd)
    (hjob : job ∈ s.jobs) : (failRequest s i hd).vault job.jobId = s.vault job.jobId :=
  cleanupVaultDir_other (h.job_ne (mem_of_getElem? hi) hjob)

theorem VaultInv.spares (h : VaultInv blake3 s) {ev : VaultEvent} (hev : ev.ofRequest = true)
    (hm : VaultMeets s ev) : SparesJobs blake3 s ev := by
  intro t hs job hjob
  cases ev with
  | request r =>
    cases hs
    have hne : job.jobId ≠ r.sendId := fun hid => hm.1 (hid ▸ mem_map_of_mem hjob)
    exact Function.update_of_ne hne _ _
  | transfer i failed =>
    simp only [Vault.step, Send.transferStep] at hs
    split at hs
    · cases hs
    rename_i hd hi
    split at hs
    · cases hs
    split at hs
    · cases hs
      exact failRequest_spares h hi hjob
    · rename_i moved bytes hok
      obtain ⟨rfl, -⟩ := verifyAndTransfer_ok hok
      cases hs
      exact moveFile_other [] (h.job_ne (mem_of_getElem? hi) hjob)
  | journal i failed =>
    simp only [Vault.step, Send.journalStep] at hs
    split at hs
    · cases hs
    rename_i hd hi
    split at hs
    · cases hs
    split at hs
    · cases hs
      exact failRequest_spares h hi hjob
    · split at hs
      · cases hs
        exact failRequest_spares h hi hjob
      · cases hs
        rfl
  | _ => cases hev

end Steps

/-- In every run in which each request has an id of its own and neither a read of the worker nor both its
final statuses are lost, every live job has its attachments as they were verified, and no step of a
request touches the directory of a journaled job. -/
theorem pending_send_keeps_attachments (blake3 : Bytes → ContentHash) (s : Vault)
    (hs : Reaches (Vault.step blake3) VaultMeets .start s) :
    Kept blake3 s ∧ ∀ ev, ev.ofRequest = true → VaultMeets s ev → SparesJobs blake3 s ev := by
  have h : VaultInv blake3 s := hs.invariant VaultInv.start (fun u ev v hu hok hv => hu.step hok hv)
  exact ⟨h.kept, fun ev hev hm => h.spares hev hm⟩

/-- `blake3` of no bytes, and nothing else. -/
def emptyHash : ContentHash := 0xaf1349b9f5f9a1a6a0404dea36dcc9499bcb25c9adc112b7cc9a93cae41f3262

def hashOfEmpty (bytes : Bytes) : ContentHash := if bytes = [] then emptyHash else 0

def oneFile : SendWireRequest := ⟨1, "acct-1", [⟨"0.bin", emptyHash, 0, "text/plain", "note.txt", none⟩]⟩

def sentOnce : List VaultEvent :=
  [.stage 1 ["0.bin"] (some (.file [])), .request oneFile, .transfer 0 false, .journal 0 false]

/-- The same request again, before the worker has leased its job. -/
def sentAgain : List VaultEvent := sentOnce ++ [.request oneFile, .transfer 0 false]

def journaledOnce : QuietJob (List Transferred) :=
  ⟨1, .Queued, [⟨⟨0, "note.txt", "text/plain", none, 0, emptyHash⟩, []⟩]⟩

theorem sentOnce_keeps : ∃ s, Reaches (Vault.step hashOfEmpty) VaultMeets .start s ∧
    s.jobs = [journaledOnce] ∧ Kept hashOfEmpty s := by
  have hrun : ∃ t, sentOnce.foldlM
      (fun s ev => if VaultMeets s ev then s.step hashOfEmpty ev else .error ()) .start = .ok t ∧
      t.jobs = [journaledOnce] := ⟨_, rfl, by decide⟩
  obtain ⟨t, hok, hjobs⟩ := hrun
  have hreach := Lib.reaches_of_checked () hok
  exact ⟨t, hreach, hjobs, (pending_send_keeps_attachments hashOfEmpty t hreach).1⟩

/-- The staged file is gone, so that the second request fails and removes the directory of the job. -/
theorem sentAgain_loses : ¬∀ (blake3 : Bytes → ContentHash) (s : Vault),
      Reaches (Vault.step blake3) (fun _ _ => True) .start s → Kept blake3 s := by
  intro h
  have hrun : ∃ t, sentAgain.foldlM (Vault.step hashOfEmpty) .start = .ok t ∧
      t.jobs = [journaledOnce] ∧ t.file 1 0 = none := ⟨_, rfl, by decide, by decide⟩
  obtain ⟨t, hok, hjobs, hfile⟩ := hrun
  have hkept := h hashOfEmpty t (Lib.reaches_foldlM hok) journaledOnce (by rw [hjobs]; exact mem_cons_self)
    rfl _ mem_cons_self
  rw [show t.file journaledOnce.jobId 0 = none from hfile] at hkept
  cases hkept.1

end Ratatoskr.Send

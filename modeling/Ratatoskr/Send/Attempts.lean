import Ratatoskr.Drafts.Wal
import Ratatoskr.Send.Jobs

/-!
# Send.Attempts

Sending drafts: the worker's loop over send jobs (`service/src/actions/worker.rs`) and the steps of
`send_email_inner` (`service/src/actions/send.rs`). The lease of the job, the status of the draft, the
call of the provider and the final status are steps of their own; any number of attempts may be between
them, and a restart forgets them and queues their jobs again.

Of a draft's row only the status is kept, of a job's payload only the draft.
-/

namespace Ratatoskr.Send

open Drafts (SyncStatus)
open Journal (PlanId JobStatus JobTerminalStatus)

abbrev DraftRows := String → Option SyncStatus

def persistDraftPendingSync (drafts : DraftRows) (id : String) : DraftRows :=
  Function.update drafts id (some .pending)

/-- `none` where no row is pending or failed. -/
def markDraftSendingSync (drafts : DraftRows) (id : String) : Option DraftRows :=
  if drafts id = some .pending ∨ drafts id = some .failed then
    some (Function.update drafts id (some .sending))
  else none

def markDraftFailedSync (drafts : DraftRows) (id : String) : DraftRows :=
  if (drafts id).isSome then Function.update drafts id (some .failed) else drafts

def deleteLocalDraft (drafts : DraftRows) (id : String) : DraftRows := Function.update drafts id none

def bestEffort (written : Bool) (write : DraftRows → DraftRows) (drafts : DraftRows) : DraftRows :=
  if written then write drafts else drafts

/-- Where an attempt stands; `settled` has its outcome and not yet the job's. -/
inductive Pc where
  | leased
  | sending
  | accepted
  | settled (success : Bool)

def Pc.isSent : Pc → Bool
  | .accepted => true
  | .settled success => success
  | _ => false

/-- Behind the check that the draft is not being sent already. -/
def Pc.pastGuard : Pc → Bool
  | .leased => false
  | .settled success => success
  | _ => true

structure Attempt where
  jobId : PlanId
  draftId : String
  pc : Pc

/-- What others see: the provider took the draft, or a job for it was reported as failed. -/
inductive Report where
  | accepted (draftId : String)
  | failed (draftId : String)
  deriving DecidableEq

structure Worker where
  jobs : List (QuietJob String)
  drafts : DraftRows
  attempts : List Attempt
  log : List Report

def Worker.start : Worker := ⟨[], fun _ => none, [], []⟩

inductive Act where
  /-- The first write; `failed` is an error of the database. -/
  | begin (failed : Bool)
  /-- No engine, no account, no capability or no request to build. -/
  | refuse (written : Bool)
  | respond (ok written : Bool)
  | deleteDraft (written : Bool)
  | finalize
  /-- The final status could not be written, the one of a failed job could. -/
  | finalizeAsFailed
  /-- Neither could be written. -/
  | abandon
  /-- The payload or an attachment cannot be read. -/
  | giveUp
  deriving DecidableEq

inductive Event where
  | request (jobId : PlanId) (draftId : String)
  | lease (jobId : PlanId)
  | attempt (jobId : PlanId) (act : Act)
  | restart

def Worker.setPc (s : Worker) (a : Attempt) (pc : Pc) : Worker :=
  { s with attempts := s.attempts.map (fun b => if b.jobId = a.jobId then { b with pc := pc } else b) }

/-- The job's final status is written and the attempt is over; a failed one is reported. -/
def Worker.finish (s : Worker) (a : Attempt) (success : Bool) : Worker :=
  { s with
    jobs := finalizeJob s.jobs a.jobId (if success then .Completed else .Failed)
    attempts := s.attempts.filter (fun b => b.jobId ≠ a.jobId)
    log := if success then s.log else s.log ++ [.failed a.draftId] }

def failDraft (s : Worker) (a : Attempt) (written : Bool) : Worker :=
  let drafts := bestEffort written (fun drafts => markDraftFailedSync drafts a.draftId) s.drafts
  { s with drafts := drafts }.setPc a (.settled false)

def advance (s : Worker) (a : Attempt) : Act → Option Worker
  | .begin failed =>
    match a.pc with
    | .leased =>
      if failed then some (s.setPc a (.settled false))
      else
        let drafts := persistDraftPendingSync s.drafts a.draftId
        match markDraftSendingSync drafts a.draftId with
        | some drafts => some ({ s with drafts := drafts }.setPc a .sending)
        | none => some ({ s with drafts := drafts }.setPc a (.settled false))
    | _ => none
  | .refuse written =>
    match a.pc with
    | .sending => some (failDraft s a written)
    | _ => none
  | .respond ok written =>
    match a.pc with
    | .sending =>
      if ok then some ({ s with log := s.log ++ [Report.accepted a.draftId] }.setPc a .accepted)
      else some (failDraft s a written)
    | _ => none
  | .deleteDraft written =>
    match a.pc with
    | .accepted =>
      let drafts := bestEffort written (fun drafts => deleteLocalDraft drafts a.draftId) s.drafts
      some ({ s with drafts := drafts }.setPc a (.settled true))
    | _ => none
  | .finalize =>
    match a.pc with
    | .settled success => some (s.finish a success)
    | _ => none
  | .finalizeAsFailed =>
    match a.pc with
    | .settled _ => some (s.finish a false)
    | _ => none
  | .abandon =>
    match a.pc with
    | .settled _ => some { s with attempts := s.attempts.filter (fun b => b.jobId ≠ a.jobId) }
    | _ => none
  | .giveUp =>
    match a.pc with
    | .leased => some (s.finish a false)
    | _ => none

/-- A request whose id is taken changes nothing; a step that is not there to be taken is an error. -/
def Worker.step (s : Worker) : Event → Except Unit Worker
  | .request jobId draftId =>
    match insertQuietJob s.jobs jobId draftId with
    | none => .ok s
    | some jobs => .ok { s with jobs := jobs }
  | .lease jobId =>
    match leaseQuietJob s.jobs jobId with
    | none => .error ()
    | some (draftId, jobs) =>
      .ok { s with
        jobs := jobs
        attempts := s.attempts ++ [⟨jobId, draftId, .leased⟩] }
  | .attempt jobId act =>
    match s.attempts.find? (fun a => a.jobId = jobId) with
    | none => .error ()
    | some a =>
      match advance s a act with
      | none => .error ()
      | some t => .ok t
  | .restart => .ok { s with
      jobs := recoverStaleLeases s.jobs
      attempts := [] }

end Ratatoskr.Send

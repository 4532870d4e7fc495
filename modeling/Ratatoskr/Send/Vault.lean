import Mathlib.Logic.Function.Basic
import Ratatoskr.Send.Jobs

/-!
# Send.Vault

The attachments of a send: staged by the UI, moved into the vault by the handler of `action.send`
(`service/src/handlers/action_send.rs`, `service/src/send_vault.rs`), read by the worker
(`service/src/actions/worker.rs`) and removed when the job is over or when a boot finds no job for them.
The transfer of each file, the insert of the job and every removal are steps of their own, and several
requests may be between them.

A file is known by its directory and path. The message of a request is left out.
-/

namespace Ratatoskr.Send

open Journal (PlanId JobStatus JobTerminalStatus)

abbrev Bytes := List UInt8

abbrev ContentHash := BitVec 256

inductive StagedFile where
  | file (bytes : Bytes)
  | symlink

structure SendWireAttachment where
  relativePath : String
  contentHash : ContentHash
  size : Nat
  mime : String
  filename : String
  contentId : Option String

structure SendWireRequest where
  sendId : PlanId
  fromAccountId : String
  attachments : List SendWireAttachment

/-- The vault path is the index in the directory of the send. -/
structure JournaledAttachment where
  vaultIndex : Nat
  filename : String
  mime : String
  contentId : Option String
  size : Nat
  contentHash : ContentHash
  deriving DecidableEq

/-- An attachment of the payload, with the bytes that were hashed when it was transferred. -/
structure Transferred where
  attachment : JournaledAttachment
  bytes : Bytes
  deriving DecidableEq

inductive VaultError where
  | invalidPath (message : String)
  | stagingIo (path : List String)
  | stagingSymlink (path : List String)
  | hashMismatch (path : List String)
  | vaultIo (vaultIndex : Nat)

def segments : List Char → List (List Char)
  | [] => [[]]
  | c :: cs =>
    match segments cs with
    | [] => [[c]]
    | part :: parts => if c = '/' then [] :: part :: parts else (c :: part) :: parts

/-- `Path::components` of a relative path, where empty parts and dots are dropped. -/
def components (rel : String) : List String :=
  ((segments rel.toList).map String.ofList).filter (fun part => part ≠ "" ∧ part ≠ ".")

def validateRelativePath (rel : String) : Except VaultError Unit :=
  if rel = "" then .error (.invalidPath "empty")
  else if '\x00' ∈ rel.toList then .error (.invalidPath "contains NUL byte")
  else if rel.toList.head? = some '/' then .error (.invalidPath ("absolute: " ++ rel))
  else if ".." ∈ components rel then .error (.invalidPath ("contains ..: " ++ rel))
  else .ok ()

structure Handler where
  sendId : PlanId
  todo : List SendWireAttachment
  done : List Transferred

/-- What the worker does with the job it leased. `failing` has lost its files already, `cleaning` has
written, or tried to write, the final status. -/
inductive WorkerPc where
  | reading | sending | failing | cleaning
  deriving DecidableEq

structure Vault where
  staging : PlanId → List String → Option StagedFile
  /-- A directory by the index of its files; `none` where there is none. -/
  vault : PlanId → Option (Nat → Option Bytes)
  jobs : List (QuietJob (List Transferred))
  handlers : List Handler
  worker : Option (PlanId × WorkerPc)

def Vault.start : Vault := ⟨fun _ _ => none, fun _ => none, [], [], none⟩

namespace Vault

def file (s : Vault) (sendId : PlanId) (index : Nat) : Option Bytes :=
  (s.vault sendId).bind (fun dir => dir index)

/-- `create_dir_all`. -/
def createDir (s : Vault) (sendId : PlanId) : Vault :=
  { s with vault := Function.update s.vault sendId (some ((s.vault sendId).getD (fun _ => none))) }

def cleanupVaultDir (s : Vault) (sendId : PlanId) : Vault :=
  { s with vault := Function.update s.vault sendId none }

/-- The rename: out of the staging directory and over what stands at the index. -/
def moveFile (s : Vault) (sendId : PlanId) (path : List String) (index : Nat) (bytes : Bytes) : Vault :=
  { s with
    staging := Function.update s.staging sendId (Function.update (s.staging sendId) path none)
    vault := Function.update s.vault sendId
      (some (Function.update ((s.vault sendId).getD (fun _ => none)) index (some bytes))) }

end Vault

section Transfer

variable (blake3 : Bytes → ContentHash)

/-- The file as it was hashed. `failed` is an error of the rename. -/
def verifyAndTransfer (s : Vault) (sendId : PlanId) (relativePath : String) (expectedHash : ContentHash)
    (vaultIndex : Nat) (failed : Bool) : Except VaultError (Vault × Bytes) :=
  match validateRelativePath relativePath with
  | .error e => .error e
  | .ok () =>
    let path := components relativePath
    match s.staging sendId path with
    | none => .error (.stagingIo path)
    | some .symlink => .error (.stagingSymlink path)
    | some (.file bytes) =>
      if blake3 bytes ≠ expectedHash then .error (.hashMismatch path)
      else if failed then .error (.vaultIo vaultIndex)
      else .ok (s.moveFile sendId path vaultIndex bytes, bytes)

def journaledAttachment (att : SendWireAttachment) (vaultIndex : Nat) : JournaledAttachment where
  vaultIndex := vaultIndex
  filename := att.filename
  mime := att.mime
  contentId := att.contentId
  size := att.size
  contentHash := att.contentHash

/-! ## Steps -/

inductive VaultEvent where
  /-- The UI writes or removes a staged file. -/
  | stage (sendId : PlanId) (path : List String) (file : Option StagedFile)
  | request (r : SendWireRequest)
  /-- The next attachment of a request in flight. -/
  | transfer (handler : Nat) (failed : Bool)
  /-- The insert of its job; `failed` is an error of the database. -/
  | journal (handler : Nat) (failed : Bool)
  | lease (jobId : PlanId)
  /-- The worker reads the files; `failed` is an error of a read. -/
  | read (failed : Bool)
  /-- The final status, and the one of a failed job where that could not be written. -/
  | finalize (success written writtenFailed : Bool)
  | cleanup
  /-- A crash and the boot after it, whose sweep gets as far as `swept`. -/
  | restart (swept : PlanId → Bool)

def failRequest (s : Vault) (i : Nat) (h : Handler) : Vault :=
  { s.cleanupVaultDir h.sendId with handlers := s.handlers.eraseIdx i }

def transferStep (s : Vault) (i : Nat) (h : Handler) (failed : Bool) : Except Unit Vault :=
  match h.todo with
  | [] => .error ()
  | att :: todo =>
    match verifyAndTransfer blake3 s h.sendId att.relativePath att.contentHash h.done.length failed with
    | .error _ => .ok (failRequest s i h)
    | .ok (t, bytes) =>
      let transferred : Transferred := ⟨journaledAttachment att h.done.length, bytes⟩
      .ok { t with handlers := s.handlers.set i ⟨h.sendId, todo, h.done ++ [transferred]⟩ }

def journalStep (s : Vault) (i : Nat) (h : Handler) (failed : Bool) : Except Unit Vault :=
  match h.todo with
  | _ :: _ => .error ()
  | [] =>
    if failed then .ok (failRequest s i h)
    else
      match insertQuietJob s.jobs h.sendId h.done with
      | none => .ok (failRequest s i h)
      | some jobs => .ok { s with
          jobs := jobs
          handlers := s.handlers.eraseIdx i }

def readable (s : Vault) (jobId : PlanId) : Bool :=
  s.jobs.all (fun job => job.jobId ≠ jobId ∨
    job.payload.all (fun t => (s.file jobId t.attachment.vaultIndex).isSome))

def writeFinal (s : Vault) (jobId : PlanId) (success written writtenFailed : Bool) : Vault :=
  if written then
    { s with jobs := finalizeJob s.jobs jobId (if success then .Completed else .Failed) }
  else if writtenFailed then { s with jobs := finalizeJob s.jobs jobId .Failed }
  else s

/-- `cleanup_orphan_vaults`, as far as it gets. -/
def cleanupOrphanVaults (s : Vault) (swept : PlanId → Bool) : Vault :=
  { s with vault := fun id =>
      if swept id = true ∧ id ∉ liveSendJobIds s.jobs then none else s.vault id }

def Vault.step (s : Vault) : VaultEvent → Except Unit Vault
  | .stage sendId path file => .ok { s with
      staging := Function.update s.staging sendId (Function.update (s.staging sendId) path file) }
  | .request r => .ok { s.createDir r.sendId with handlers := s.handlers ++ [⟨r.sendId, r.attachments, []⟩] }
  | .transfer i failed =>
    match s.handlers[i]? with
    | none => .error ()
    | some h => transferStep blake3 s i h failed
  | .journal i failed =>
    match s.handlers[i]? with
    | none => .error ()
    | some h => journalStep s i h failed
  | .lease jobId =>
    match s.worker, leaseQuietJob s.jobs jobId with
    | none, some (_, jobs) => .ok { s with
        jobs := jobs
        worker := some (jobId, .reading) }
    | _, _ => .error ()
  | .read failed =>
    match s.worker with
    | some (jobId, .reading) =>
      if failed = false ∧ readable s jobId = true then .ok { s with worker := some (jobId, .sending) }
      else .ok { s.cleanupVaultDir jobId with worker := some (jobId, .failing) }
    | _ => .error ()
  | .finalize success written writtenFailed =>
    match s.worker with
    | some (jobId, .sending) =>
      .ok { writeFinal s jobId success written writtenFailed with worker := some (jobId, .cleaning) }
    | some (jobId, .failing) =>
      .ok { writeFinal s jobId false false writtenFailed with worker := some (jobId, .cleaning) }
    | _ => .error ()
  | .cleanup =>
    match s.worker with
    | some (jobId, .cleaning) => .ok { s.cleanupVaultDir jobId with worker := none }
    | _ => .error ()
  | .restart swept =>
    .ok (cleanupOrphanVaults { s with
      jobs := recoverStaleLeases s.jobs
      handlers := []
      worker := none } swept)

end Transfer

end Ratatoskr.Send

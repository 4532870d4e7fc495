import Ratatoskr.Lib.Lines
import Ratatoskr.Threading.Text

/-!
# Drafts.Wal

The write-ahead log of compose drafts: the app appends one line of JSON for each save
(`app/src/draft_wal.rs`), the service replays the file into `local_drafts` at boot
(`service/src/draft_wal.rs`). The two agree on newlines only.

The text of an entry is `serde_json`'s and a parameter. A crash of the app leaves any number of bytes of
the line it was writing; a crash of the service leaves any number of the lines replayed, each its own
commit.
-/

namespace Ratatoskr.Drafts

open Lib (splitLines)
open Threading (trim)

structure SaveLocalDraftParams where
  id : String
  accountId : String
  toAddresses : Option String
  ccAddresses : Option String
  bccAddresses : Option String
  subject : Option String
  bodyHtml : Option String
  replyToMessageId : Option String
  threadId : Option String
  fromEmail : Option String
  signatureId : Option String
  remoteDraftId : Option String
  attachments : Option String
  signatureSeparatorIndex : Option Int
  deriving DecidableEq

structure WalEntry where
  epochMs : Nat
  params : SaveLocalDraftParams
  deriving DecidableEq

/-- `serde_json::to_string` and `serde_json::from_str` of an entry. -/
structure Codec where
  toString : WalEntry → String
  fromStr : String → Option WalEntry

/-- `str::as_bytes`. -/
def utf8 (s : String) : List UInt8 := s.toByteArray.data.toList

/-- `String::from_utf8`. -/
def decodeUtf8 (bytes : List UInt8) : Option String := String.fromUTF8? ⟨bytes.toArray⟩

def newline : UInt8 := 10

def carriageReturn : UInt8 := 13

section Format

variable (codec : Codec)

def text (entry : WalEntry) : List UInt8 := utf8 (codec.toString entry)

/-- The bytes that `append` writes. -/
def line (entry : WalEntry) : List UInt8 := text codec entry ++ [newline]

/-- `append` of which `written` bytes reach the file. -/
def append (file : Option (List UInt8)) (entry : WalEntry) (written : Nat) : Option (List UInt8) :=
  some (file.getD [] ++ (line codec entry).take written)

end Format

/-- `BufRead::lines`: a carriage return goes with the newline. -/
def chomp : List UInt8 × Bool → List UInt8
  | (bytes, true) => if bytes.getLast? = some carriageReturn then bytes.dropLast else bytes
  | (bytes, false) => bytes

def lines (file : List UInt8) : List (List UInt8) := (splitLines newline file).map chomp

inductive SyncStatus where
  | pending | queued | sending | failed | synced
  deriving DecidableEq

structure LocalDraft where
  params : SaveLocalDraftParams
  syncStatus : SyncStatus

structure Db where
  accounts : List String
  localDrafts : String → Option LocalDraft

def Db.putDraft (db : Db) (row : LocalDraft) : Db :=
  { db with localDrafts := fun id => if id = row.params.id then some row else db.localDrafts id }

/-- An upsert, which keeps the account of a row that is there; a new row needs its account. `failed` is
any other error of the database. -/
def dbSaveLocalDraftSync (failed : Bool) (db : Db) (p : SaveLocalDraftParams) : Option Db :=
  if failed then none
  else
    match db.localDrafts p.id with
    | some row => some (db.putDraft ⟨{ p with accountId := row.params.accountId }, .pending⟩)
    | none => if p.accountId ∈ db.accounts then some (db.putDraft ⟨p, .pending⟩) else none

/-- The database, and the entries that were saved, in order. -/
structure Replayed where
  db : Db
  applied : List WalEntry

def saveEntry (failed : Bool) (r : Replayed) (entry : WalEntry) : Replayed :=
  match dbSaveLocalDraftSync failed r.db entry.params with
  | none => r
  | some db => ⟨db, r.applied ++ [entry]⟩

def replayLine (codec : Codec) (failed : Bool) (r : Replayed) (line : String) : Replayed :=
  if trim line.toList = [] then r
  else
    match codec.fromStr line with
    | none => r
    | some entry => saveEntry failed r entry

/-- The loop over the lines, where bytes that are no text end it. `failures` says at which lines the
database fails. -/
def replayLines (codec : Codec) (failures : Nat → Bool) : Nat → List (List UInt8) → Replayed → Replayed
  | _, [], r => r
  | idx, bytes :: rest, r =>
    match decodeUtf8 bytes with
    | none => r
    | some line => replayLines codec failures (idx + 1) rest (replayLine codec (failures idx) r line)

/-- The first `count` lines of the file. -/
def drainSome (codec : Codec) (failures : Nat → Bool) (file : Option (List UInt8)) (db : Db)
    (count : Nat) : Replayed :=
  replayLines codec failures 0 ((lines (file.getD [])).take count) ⟨db, []⟩

def drain (codec : Codec) (failures : Nat → Bool) (file : Option (List UInt8)) (db : Db) : Replayed :=
  replayLines codec failures 0 (lines (file.getD [])) ⟨db, []⟩

inductive Event where
  /-- The app appends, and `written` bytes of the line reach the file. -/
  | append (entry : WalEntry) (written : Nat)
  /-- The service stops after `count` lines. -/
  | crashedDrain (failures : Nat → Bool) (count : Nat)
  /-- The service drains and renames the file, if that works. -/
  | drain (failures : Nat → Bool) (renamed : Bool)

/-- The log and the database, with the complete appends in order: those of files renamed away and those of
the file that is there. -/
structure Run where
  file : Option (List UInt8)
  db : Db
  rotated : List WalEntry
  pending : List WalEntry

def Run.start (first : Db) : Run := ⟨none, first, [], []⟩

/-- An append is complete with the last byte of its text. -/
def isComplete (codec : Codec) (entry : WalEntry) (written : Nat) : Bool :=
  (text codec entry).length ≤ written

def Run.step (codec : Codec) (s : Run) : Event → Except Empty Run
  | .append entry written => .ok { s with
      file := append codec s.file entry written
      pending := if isComplete codec entry written then s.pending ++ [entry] else s.pending }
  | .crashedDrain failures count => .ok { s with
      db := (drainSome codec failures s.file s.db count).db }
  | .drain failures renamed => .ok { s with
      db := (drain codec failures s.file s.db).db
      file := if renamed then none else s.file
      rotated := if renamed then s.rotated ++ s.pending else s.rotated
      pending := if renamed then [] else s.pending }

end Ratatoskr.Drafts

import Mathlib.Data.List.Sort
import Ratatoskr.Lib.Table
import Ratatoskr.Pack.Frame

/-!
# Pack.Store

The pack store (`stores/src/attachment_pack.rs`): the pack files and tombstone logs of its directory,
the table `attachment_blobs`, and the writer's open pack. Each function below is one section of the
source that runs under a mutex or as one transaction; `put`, `tombstone`, `runGc` and the others put
them together as a single caller runs them.

A pack id stands for `data-<id>.pack` or `data-<id>.pack.open`, never both: a new file takes an id
above all others. `tombstoned_at` is only ever compared with `NULL`, so a row keeps a flag.
-/

namespace Ratatoskr.Pack

open Lib (Table)

inductive IoErrorKind where
  | notFound | unexpectedEof
  deriving DecidableEq

inductive PackError where
  | io (kind : IoErrorKind)
  | corruption (message : String)
  | tooLarge (size : Nat)
  deriving DecidableEq

structure PackFile where
  isSealed : Bool
  content : Bytes

/-- A row of `attachment_blobs`; its key is the content hash. -/
structure BlobRow where
  packFileId : Nat
  offset : Nat
  length : Nat
  tombstoned : Bool
  deriving DecidableEq

/-- What survives the process: files that were synced and rows that were committed. -/
structure Disk where
  files : Table Nat PackFile
  logs : Table Nat Bytes
  blobs : Table BlobHash BlobRow

/-- `offset` is the writer's own count, `cursor` the position of its file handle. -/
structure OpenPack where
  packId : Nat
  offset : Nat
  cursor : Nat

structure Store extends Disk where
  targetSize : Nat
  writer : OpenPack

/-- `write_all` at a position of the file. -/
def writeAt (content : Bytes) (position : Nat) (bytes : Bytes) : Bytes :=
  content.take position ++ bytes ++ content.drop (position + bytes.length)

namespace Disk

def listPacks (d : Disk) : List (Nat × Bool) :=
  (d.files.rows.map (fun f => (f.1, f.2.isSealed))).insertionSort (fun a b => a.1 ≤ b.1)

def nextPackId (d : Disk) : Nat :=
  match (d.listPacks.map Prod.fst).max? with
  | none => 0
  | some max => max + 1

/-- `OpenOptions::create(true).append(true)` and nothing written. -/
def touchLog (d : Disk) (packId : Nat) : Disk :=
  { d with logs := d.logs.insert packId ((d.logs.lookup packId).getD []) }

def appendTombstoneLogRecord (d : Disk) (packId : Nat) (hash : BlobHash) (kind : TombstoneLogKind) : Disk :=
  { d with
    logs := d.logs.insert packId
      ((d.logs.lookup packId).getD [] ++ encodeLogRecord packId hash kind) }

/-- `fs::remove_file` of a pack and of its log. -/
def unlinkPack (d : Disk) (packId : Nat) : Disk :=
  { d with files := d.files.erase packId, logs := d.logs.erase packId }

/-- `UPDATE … SET tombstoned_at = NULL WHERE content_hash = ?` -/
def clearTombstone (d : Disk) (hash : BlobHash) : Disk :=
  { d with
    blobs := d.blobs.update (fun h row =>
      if h = hash then { row with tombstoned := false } else row) }

/-- `UPDATE … SET tombstoned_at = unixepoch() WHERE content_hash = ?` -/
def setTombstone (d : Disk) (hash : BlobHash) : Disk :=
  { d with
    blobs := d.blobs.update (fun h row =>
      if h = hash then { row with tombstoned := true } else row) }

/-- `UPDATE … SET tombstoned_at = unixepoch() WHERE tombstoned_at IS NULL` -/
def setAllTombstones (d : Disk) : Disk :=
  { d with blobs := d.blobs.update (fun _ row => { row with tombstoned := true }) }

end Disk

namespace Store

/-- `create_new_open_pack`. -/
def createNewOpenPack (s : Store) (packId : Nat) : Store :=
  { s with
    toDisk := ({ s.toDisk with files := s.files.insert packId ⟨false, []⟩ } : Disk).touchLog packId
    writer := ⟨packId, 0, 0⟩ }

/-- The content of the writer's file, through the writer's handle. -/
def writerContent (s : Store) : Bytes :=
  match s.files.lookup s.writer.packId with
  | some file => file.content
  | none => []

section Writer

variable (H : Hashes)

/-- `seal_open_pack`: the tail goes to the writer's offset, then the file is renamed. -/
def sealOpenPack (s : Store) : Store :=
  let count := frameCount s.writer.offset 0 s.writer.offset s.writerContent
  { s with
    files := s.files.insert s.writer.packId
      ⟨true, writeAt s.writerContent s.writer.offset (tail H count)⟩ }

def rotatePack (s : Store) : Store :=
  let sealed := s.sealOpenPack H
  sealed.createNewOpenPack sealed.nextPackId

def rotateOpenPack (s : Store) : Store :=
  if s.writer.offset = 0 then s else s.rotatePack H

/-- Whether a frame with this payload would push the open pack past the target. -/
def needsRotation (s : Store) (payloadLen : Nat) : Bool :=
  0 < s.writer.offset ∧ s.targetSize < s.writer.offset + (frameHeaderLen + payloadLen)

/-- Header and payload through the writer's handle, then `sync_all`. -/
def writeFrame (s : Store) (bytes : Bytes) : Store :=
  { s with
    files := s.files.insert s.writer.packId
      ⟨false, writeAt s.writerContent s.writer.cursor (frame H bytes)⟩
    writer := { s.writer with cursor := s.writer.cursor + (frame H bytes).length } }

end Writer

/-- `INSERT OR IGNORE`, then the offset moves behind the frame. -/
def insertBlob (s : Store) (hash : BlobHash) (payloadLen : Nat) : Store :=
  { s with
    blobs :=
      match s.blobs.lookup hash with
      | some _ => s.blobs
      | none => s.blobs.insert hash ⟨s.writer.packId, s.writer.offset, payloadLen, false⟩
    writer := { s.writer with offset := s.writer.offset + (frameHeaderLen + payloadLen) } }

end Store

/-! ## `put` -/

inductive PutDedup where
  | live
  | tombstoned (packId : Nat)
  | notPresent

def classifyExistingBlob (d : Disk) (hash : BlobHash) : PutDedup :=
  match d.blobs.lookup hash with
  | none => .notPresent
  | some row => if row.tombstoned then .tombstoned row.packFileId else .live

namespace Store

def revive (s : Store) (packId : Nat) (hash : BlobHash) : Store :=
  { s with toDisk := (s.toDisk.appendTombstoneLogRecord packId hash .revive).clearTombstone hash }

end Store

section Get

variable (H : Hashes)

/-- `read_frame_payload` once the file is open. -/
def readFrame (packId : Nat) (content : Bytes) (offset length : Nat) : Except PackError Bytes :=
  let rest := content.drop offset
  if rest.length < frameHeaderLen then .error (.io .unexpectedEof)
  else if rest.take 4 ≠ frameMagic then
    .error (.corruption ("bad magic in pack " ++ toString packId ++ " at offset " ++ toString offset))
  else
    let headerLength := readLe ((rest.drop 4).take 4)
    if headerLength ≠ length then
      .error (.corruption
        ("length mismatch: header=" ++ toString headerLength ++ " index=" ++ toString length))
    else if rest.length < frameHeaderLen + length then .error (.io .unexpectedEof)
    else
      let payload := (rest.drop frameHeaderLen).take length
      if readLe ((rest.drop 8).take 8) ≠ (H.xxh3 payload).toNat then
        .error (.corruption
          ("checksum mismatch in pack " ++ toString packId ++ " at offset " ++ toString offset))
      else .ok payload

def readFramePayload (d : Disk) (packId offset length : Nat) : Except PackError Bytes :=
  match d.files.lookup packId with
  | none => .error (.io .notFound)
  | some file => readFrame H packId file.content offset length

/-- What one attempt of `get` ends with: an answer, or another look at the row. -/
inductive Attempt where
  | done (result : Except PackError (Option Bytes))
  | retry

def getRead (d : Disk) (hash : BlobHash) (attempt : Nat) (lastLocation : Option (Nat × Nat))
    (row : BlobRow) : Attempt :=
  match readFramePayload H d row.packFileId row.offset row.length with
  | .ok bytes =>
    if H.blake3 bytes ≠ hash then
      .done (.error (.corruption
        ("BLAKE3 mismatch in pack " ++ toString row.packFileId ++ " at offset " ++
          toString row.offset ++ ": index says " ++ hash.toHex ++ ", frame is " ++
          (H.blake3 bytes).toHex)))
    else .done (.ok (some bytes))
  | .error (.io .notFound) =>
    if 0 < attempt ∧ lastLocation = some (row.packFileId, row.offset) then
      .done (.error (.io .notFound))
    else .retry
  | .error e => .done (.error e)

def maxGetGcRetries : Nat := 4

def relocatedTooOften (hash : BlobHash) : PackError :=
  .corruption ("pack file kept relocating for hash " ++ hash.toHex ++ " across 4 attempts")

def getFrom (d : Disk) (hash : BlobHash) : Nat → Nat → Option (Nat × Nat) → Except PackError (Option Bytes)
  | 0, _, _ => .error (relocatedTooOften hash)
  | left + 1, attempt, lastLocation =>
    match d.blobs.lookup hash with
    | none => .ok none
    | some row =>
      if row.tombstoned then .ok none
      else
        match getRead H d hash attempt lastLocation row with
        | .done result => result
        | .retry => getFrom d hash left (attempt + 1) (some (row.packFileId, row.offset))

/-- `get` with nothing running beside it. -/
def get (d : Disk) (hash : BlobHash) : Except PackError (Option Bytes) :=
  getFrom H d hash maxGetGcRetries 0 none

end Get

namespace Store

def tombstone (s : Store) (hash : BlobHash) : Store :=
  match s.blobs.lookup hash with
  | none => s
  | some row =>
    if row.tombstoned then s
    else
      { s with
        toDisk := (s.toDisk.appendTombstoneLogRecord row.packFileId hash .tombstone).setTombstone hash }

/-- The `(content_hash, pack_file_id)` pairs of the live rows. -/
def liveBlobs (d : Disk) : List (BlobHash × Nat) :=
  (d.blobs.rows.filter (fun r => !r.2.tombstoned)).map (fun r => (r.1, r.2.packFileId))

/-- The records go to the logs of their packs; a batch per pack writes the same bytes. -/
def appendTombstones (d : Disk) (live : List (BlobHash × Nat)) : Disk :=
  live.foldl (fun d r => d.appendTombstoneLogRecord r.2 r.1 .tombstone) d

def tombstoneAllLive (s : Store) : Store × Nat :=
  let live := liveBlobs s.toDisk
  if live = [] then (s, 0)
  else ({ s with toDisk := (appendTombstones s.toDisk live).setAllTombstones }, live.length)

end Store

/-- A blob to be copied: its hash, where its frame starts and how long the payload is. -/
abbrev Placed := BlobHash × Nat × Nat

structure GcStats where
  packsCompacted : Nat
  blobsDropped : Nat
  bytesReclaimed : Nat

def packDensity (d : Disk) (packId : Nat) : Nat × Nat × Nat :=
  let rows := (d.blobs.rows.map Prod.snd).filter (fun row => row.packFileId = packId)
  let dead := rows.filter (fun row => row.tombstoned)
  (rows.length, dead.length, (dead.map BlobRow.length).sum)

def allocate (d : Disk) (dstPackId : Nat) : Disk :=
  { d with files := d.files.insert dstPackId ⟨false, []⟩ }

def collectLive (d : Disk) (srcPackId : Nat) : List Placed :=
  (d.blobs.rows.filter (fun r => r.2.packFileId = srcPackId ∧ r.2.tombstoned = false)).map
    (fun r => (r.1, r.2.offset, r.2.length))

/-- The copy loop: what was written, and where each blob now stands. -/
def copyFrames (srcPackId : Nat) (content : Bytes) :
    List Placed → Bytes → List Placed → Bytes × Except PackError (List Placed)
  | [], out, moved => (out, .ok moved)
  | (hash, srcOffset, length) :: live, out, moved =>
    let rest := content.drop srcOffset
    if rest.length < frameHeaderLen then (out, .error (.io .unexpectedEof))
    else if rest.take 4 ≠ frameMagic then
      (out, .error (.corruption ("GC: bad magic in source pack " ++ toString srcPackId ++
        " at offset " ++ toString srcOffset)))
    else if rest.length < frameHeaderLen + length then (out, .error (.io .unexpectedEof))
    else
      copyFrames srcPackId content live (out ++ rest.take (frameHeaderLen + length))
        (moved ++ [(hash, out.length, length)])

/-- `File::open` of the source and the copy; a pack that is gone or still open is not found. -/
def copyPack (d : Disk) (srcPackId : Nat) (live : List Placed) : Bytes × Except PackError (List Placed) :=
  match d.files.lookup srcPackId with
  | some ⟨true, content⟩ => copyFrames srcPackId content live [] []
  | _ => ([], .error (.io .notFound))

/-- What has been copied so far, in a file that is still `.open`. -/
def setCopied (d : Disk) (dstPackId : Nat) (content : Bytes) : Disk :=
  { d with files := d.files.insert dstPackId ⟨false, content⟩ }

section Seal

variable (H : Hashes)

def sealDst (d : Disk) (dstPackId : Nat) (content : Bytes) (moved : List Placed) : Disk :=
  { d with files := d.files.insert dstPackId ⟨true, content ++ tail H moved.length⟩ }

end Seal

/-- `UPDATE … SET pack_file_id = ?, offset = ? WHERE content_hash = ?` -/
def moveRow (blobs : Table BlobHash BlobRow) (dstPackId : Nat) (m : Placed) : Table BlobHash BlobRow :=
  blobs.update (fun h row =>
    if h = m.1 then { row with packFileId := dstPackId, offset := m.2.1 } else row)

/-- The transaction at the end: rows follow their frames, dead rows of the source go. -/
def swapIndex (d : Disk) (srcPackId dstPackId : Nat) (moved : List Placed) : Disk :=
  { d with
    blobs := (moved.foldl (fun blobs m => moveRow blobs dstPackId m) d.blobs).restrict
      (fun _ row => !(row.packFileId = srcPackId ∧ row.tombstoned)) }

section Gc

variable (H : Hashes)

def compactPack (d : Disk) (srcPackId : Nat) : Disk × Except PackError Unit :=
  let dstPackId := d.nextPackId
  let d := allocate d dstPackId
  let live := collectLive d srcPackId
  match copyPack d srcPackId live with
  | (content, .error e) => (setCopied d dstPackId content, .error e)
  | (content, .ok moved) =>
    let d := sealDst H (setCopied d dstPackId content) dstPackId content moved
    ((swapIndex d srcPackId dstPackId moved).unlinkPack srcPackId, .ok ())

/-- The loop of `run_gc`. `dense dead total` is the comparison of `dead / total` with the threshold,
which the source makes in `f32`. -/
def gcLoop (dense : Nat → Nat → Bool) : List (Nat × Bool) → Disk → GcStats → Disk × Except PackError GcStats
  | [], d, stats => (d, .ok stats)
  | (packId, isSealed) :: packs, d, stats =>
    if !isSealed then gcLoop dense packs d stats
    else
      let (total, dead, deadBytes) := packDensity d packId
      if total = 0 then gcLoop dense packs d stats
      else if !dense dead total then gcLoop dense packs d stats
      else
        match compactPack H d packId with
        | (d, .error e) => (d, .error e)
        | (d, .ok ()) =>
          gcLoop dense packs d
            ⟨stats.packsCompacted + 1, stats.blobsDropped + dead, stats.bytesReclaimed + deadBytes⟩

def runGc (dense : Nat → Nat → Bool) (d : Disk) : Disk × Except PackError GcStats :=
  gcLoop H dense d.listPacks d ⟨0, 0, 0⟩

end Gc

/-! ## Opening the store -/

section Open

variable (H : Hashes)

/-- `INSERT OR REPLACE` of a frame's row, which keeps `tombstoned_at` of the row it replaces. -/
def indexFrame (packId : Nat) (blobs : Table BlobHash BlobRow) (f : Nat × Bytes) : Table BlobHash BlobRow :=
  let hash := H.blake3 f.2
  let tombstoned := ((blobs.lookup hash).map BlobRow.tombstoned).getD false
  blobs.insert hash ⟨packId, f.1, f.2.length, tombstoned⟩

def indexFrames (packId : Nat) (blobs : Table BlobHash BlobRow) (found : List (Nat × Bytes)) :
    Table BlobHash BlobRow :=
  found.foldl (indexFrame H packId) blobs

def framesEnd (found : List (Nat × Bytes)) : Nat :=
  match found.getLast? with
  | none => 0
  | some (offset, payload) => offset + (frameHeaderLen + payload.length)

/-- Whole frames are indexed; what follows the last one is cut off. -/
def recoverOpenPack (d : Disk) (packId : Nat) : Disk :=
  match d.files.lookup packId with
  | none => d
  | some file =>
    let found := walk H file.content
    { d with
      blobs := indexFrames H packId d.blobs found
      files := d.files.insert packId ⟨false, file.content.take (framesEnd found)⟩ }

/-- `open_existing_open_pack`. -/
def openExistingOpenPack (d : Disk) (targetSize packId : Nat) : Store :=
  let size := match d.files.lookup packId with
    | some file => file.content.length
    | none => 0
  { d.touchLog packId with targetSize := targetSize, writer := ⟨packId, size, size⟩ }

/-- `recover_and_open_current_pack`. -/
def openStore (d : Disk) (targetSize : Nat) : Store :=
  let opens := (d.listPacks.filter (fun p => !p.2)).map Prod.fst
  match opens with
  | [] =>
    Store.createNewOpenPack { d with targetSize := targetSize, writer := ⟨0, 0, 0⟩ } d.nextPackId
  | [packId] => openExistingOpenPack (recoverOpenPack H d packId) targetSize packId
  | many =>
    let writerId := many.min?.getD 0
    let stale := many.filter (fun id => id ≠ writerId)
    let d := stale.foldl Disk.unlinkPack d
    openExistingOpenPack (recoverOpenPack H d writerId) targetSize writerId

end Open

section Rebuild

variable (H : Hashes)

structure RebuildStats where
  packsWalked : Nat
  framesIndexed : Nat
  tombstonesReplayed : Nat

/-- The rows after the walk of a sealed pack, and how many frames it has. -/
def walkSealedPack (d : Disk) (packId : Nat) : Disk × Nat :=
  match d.files.lookup packId with
  | none => (d, 0)
  | some file =>
    let found := walk H file.content
    ({ d with blobs := indexFrames H packId d.blobs found }, found.length)

def replayRecord (r : Table BlobHash BlobRow × Nat) (record : TombstoneLogKind × BlobHash) :
    Table BlobHash BlobRow × Nat :=
  let tombstoned : Bool := record.1 = .tombstone
  match r.1.lookup record.2 with
  | some row =>
    if row.tombstoned = tombstoned then r
    else
      (r.1.update (fun h row => if h = record.2 then { row with tombstoned := tombstoned } else row),
        r.2 + 1)
  | none => r

def replayTombstoneLog (d : Disk) (packId : Nat) : Disk × Nat :=
  let records := parseLog ((d.logs.lookup packId).getD [])
  let (blobs, replayed) := records.foldl replayRecord (d.blobs, 0)
  ({ d with blobs := blobs }, replayed)

def walkPacks (packs : List Nat) (d : Disk) : Disk × Nat :=
  packs.foldl (fun r packId =>
    let (d, walked) := walkSealedPack H r.1 packId
    (d, r.2 + walked)) (d, 0)

def replayLogs (packs : List Nat) (d : Disk) : Disk × Nat :=
  packs.foldl (fun r packId =>
    let (d, replayed) := replayTombstoneLog r.1 packId
    (d, r.2 + replayed)) (d, 0)

def sealedPacks (s : Store) : List Nat :=
  (s.listPacks.filter (fun p => p.2 ∧ p.1 ≠ s.writer.packId)).map Prod.fst

def runRebuildIndex (s : Store) : Store × RebuildStats :=
  let packs := sealedPacks s
  let (d, framesIndexed) := walkPacks H packs s.toDisk
  let (d, tombstonesReplayed) := replayLogs packs d
  ({ s with toDisk := d }, ⟨packs.length, framesIndexed, tombstonesReplayed⟩)

end Rebuild

end Ratatoskr.Pack

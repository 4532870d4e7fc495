import Ratatoskr.Pack.Recovery

/-!
# Pack.Failing

`put` when one of its fallible steps fails (`stores/src/attachment_pack.rs`). A failed frame write has
moved the file handle but not the writer's offset, and a failed `INSERT` has also left a whole frame
behind that offset. `Sound` is what every step of the store keeps: the bytes before the writer's offset
are whole frames, and each row names one of them or a frame of a sealed pack.

* `retrievable_iff` : in a sound store a blob comes back exactly when it has a live row.
* `Sound.append` : bytes behind the offset hurt no row.
* `Sound.insert` : the next frame is found when it stands at the offset.
* `Sound.reopened` : a reopened store is sound and has every frame.
-/

namespace Ratatoskr.Pack

open List
open Lib (Table)

inductive WriteFault where
  /-- `write_all` of the header or of the payload fails after `n` bytes of the frame. -/
  | part (n : Nat)
  | sync
  | insert

inductive ReviveFault where
  /-- The log got `n` bytes of the record. -/
  | log (n : Nat)
  | row

/-- Which fallible steps of one `put` fail. A rotation is taken to succeed. -/
structure Faults where
  /-- One of the two dedup checks. -/
  check : Bool
  revive : Option ReviveFault
  write : Option WriteFault

def noFaults : Faults := ⟨false, none, none⟩

inductive PutError where
  | io
  | sql
  | tooLarge (size : Nat)
  deriving DecidableEq

namespace Store

def writeBytes (s : Store) (bytes : Bytes) : Store :=
  { s with
    files := s.files.insert s.writer.packId
      ⟨false, writeAt s.writerContent s.writer.cursor bytes⟩
    writer := { s.writer with cursor := s.writer.cursor + bytes.length } }

def reviveWith (faults : Faults) (s : Store) (packId : Nat) (hash : BlobHash) :
    Store × Except PutError BlobHash :=
  match faults.revive with
  | some (.log n) =>
    ({ s with
        logs := s.logs.insert packId
          ((s.logs.lookup packId).getD [] ++ (encodeLogRecord packId hash .revive).take n) },
      .error .io)
  | some .row => ({ s with toDisk := s.toDisk.appendTombstoneLogRecord packId hash .revive }, .error .sql)
  | none => (s.revive packId hash, .ok hash)

variable (H : Hashes)

def writeWith (faults : Faults) (s : Store) (bytes : Bytes) : Store × Except PutError BlobHash :=
  match faults.write with
  | some (.part n) => (s.writeBytes ((frame H bytes).take n), .error .io)
  | some .sync => (s.writeFrame H bytes, .error .io)
  | some .insert => (s.writeFrame H bytes, .error .sql)
  | none => ((s.writeFrame H bytes).insertBlob (H.blake3 bytes) bytes.length, .ok (H.blake3 bytes))

def putWith (faults : Faults) (s : Store) (bytes : Bytes) : Store × Except PutError BlobHash :=
  if maxFramePayload < bytes.length then (s, .error (.tooLarge bytes.length))
  else if faults.check then (s, .error .sql)
  else
    match classifyExistingBlob s.toDisk (H.blake3 bytes) with
    | .live => (s, .ok (H.blake3 bytes))
    | .tombstoned packId => s.reviveWith faults packId (H.blake3 bytes)
    | .notPresent =>
      (if s.needsRotation bytes.length then s.rotatePack H else s).writeWith H faults bytes

/-- The bytes that failed puts left behind the writer's offset. -/
def behind (s : Store) : Bytes := s.writerContent.drop s.writer.offset

/-- The bytes of a file that rows may name: those before the writer's offset, in the writer's file. -/
def keptBytes (s : Store) (packId : Nat) : Option Bytes :=
  (s.files.lookup packId).map fun file =>
    if packId = s.writer.packId then file.content.take s.writer.offset else file.content

end Store

section Sound

variable (H : Hashes)

def RowKept (s : Store) (row : BlobRow) (payload : Bytes) : Prop :=
  ∃ content, s.keptBytes row.packFileId = some content ∧ StoredAt H content row.offset payload ∧
    row.length = payload.length

/-- The writer's file: whole frames up to its offset, `rest` up to its handle. -/
structure OpenAt (s : Store) (payloads : List Bytes) (rest : Bytes) : Prop where
  bound : ∀ p ∈ payloads, p.length ≤ maxFramePayload
  file : s.files.lookup s.writer.packId = some ⟨false, frames H payloads ++ rest⟩
  offset : s.writer.offset = (frames H payloads).length
  cursor : s.writer.cursor = (frames H payloads ++ rest).length

structure Sound (s : Store) : Prop where
  writer : ∃ payloads rest, OpenAt H s payloads rest
  others : ∀ id file, s.files.lookup id = some file → id ≠ s.writer.packId → file.isSealed = true
  rows : ∀ hash row, s.blobs.lookup hash = some row →
    ∃ payload, RowKept H s row payload ∧ H.blake3 payload = hash

/-- `get` gives the blob back. -/
def Retrievable (d : Disk) (blob : Bytes) : Prop := get H d (H.blake3 blob) = .ok (some blob)

instance (d : Disk) (blob : Bytes) : Decidable (Retrievable H d blob) :=
  inferInstanceAs (Decidable (get H d (H.blake3 blob) = .ok (some blob)))

/-- The bytes that rows may name are still where they were. -/
def Grows (s s' : Store) : Prop :=
  ∀ id content, s.keptBytes id = some content → ∃ more, s'.keptBytes id = some (content ++ more)

end Sound

section Rows

variable {H : Hashes} {s s' : Store} {row : BlobRow} {payload : Bytes}

theorem RowKept.grows (h : RowKept H s row payload) (hgrows : Grows s s') : RowKept H s' row payload := by
  obtain ⟨content, hkept, hstored, hlen⟩ := h
  obtain ⟨more, hmore⟩ := hgrows _ _ hkept
  exact ⟨_, hmore, hstored.append more, hlen⟩

theorem RowKept.stored (h : RowKept H s row payload) : RowStored H s.toDisk row payload := by
  obtain ⟨content, hkept, hstored, hlen⟩ := h
  rw [Store.keptBytes, Option.map_eq_some_iff] at hkept
  obtain ⟨file, hfile, rfl⟩ := hkept
  refine ⟨file, hfile, ?_, hlen⟩
  split at hstored
  · rw [← take_append_drop s.writer.offset file.content]
    exact hstored.append _
  · exact hstored

theorem Grows.refl (s : Store) : Grows s s :=
  fun _ content h => ⟨[], by rw [append_nil]; exact h⟩

theorem Grows.trans {s'' : Store} (h : Grows s s') (h' : Grows s' s'') : Grows s s'' := by
  intro id content hkept
  obtain ⟨more, hmore⟩ := h id content hkept
  obtain ⟨more', hmore'⟩ := h' id _ hmore
  exact ⟨more ++ more', by rw [hmore', append_assoc]⟩

theorem keptBytes_same (hfiles : s'.files = s.files) (hwriter : s'.writer = s.writer) (id : Nat) :
    s'.keptBytes id = s.keptBytes id := by
  rw [Store.keptBytes, Store.keptBytes, hfiles, hwriter]

theorem grows_same (hfiles : s'.files = s.files) (hwriter : s'.writer = s.writer) : Grows s s' :=
  fun id content h => ⟨[], by rw [append_nil, keptBytes_same hfiles hwriter, h]⟩

theorem retrievable_iff (h : Sound H s) {blob : Bytes} :
    Retrievable H s.toDisk blob ↔ ∃ row, s.blobs.lookup (H.blake3 blob) = some row ∧
      row.tombstoned = false ∧ RowKept H s row blob := by
  constructor
  · intro hget
    rw [Retrievable] at hget
    cases hrow : s.blobs.lookup (H.blake3 blob) with
    | none =>
      rw [get_missing hrow] at hget
      cases hget
    | some row =>
      cases hdead : row.tombstoned with
      | true =>
        rw [get_tombstoned hrow hdead] at hget
        cases hget
      | false =>
        obtain ⟨payload, hkept, hhash⟩ := h.rows _ _ hrow
        rw [← hhash] at hget hrow
        rw [get_stored hrow hdead hkept.stored] at hget
        cases hget
        exact ⟨row, rfl, hdead, hkept⟩
  · rintro ⟨row, hrow, hlive, hkept⟩
    exact get_stored hrow hlive hkept.stored

theorem OpenAt.same {payloads : List Bytes} {rest : Bytes} (h : OpenAt H s payloads rest)
    (hfiles : s'.files = s.files) (hwriter : s'.writer = s.writer) : OpenAt H s' payloads rest :=
  ⟨h.bound, by rw [hfiles, hwriter, h.file], by rw [hwriter, h.offset], by rw [hwriter, h.cursor]⟩

theorem Sound.rowed (h : Sound H s) (hfiles : s'.files = s.files) (hwriter : s'.writer = s.writer)
    (hrows : ∀ hash row, s'.blobs.lookup hash = some row →
      ∃ payload, RowKept H s row payload ∧ H.blake3 payload = hash) : Sound H s' := by
  refine ⟨?_, ?_, ?_⟩
  · obtain ⟨payloads, rest, hopen⟩ := h.writer
    exact ⟨payloads, rest, hopen.same hfiles hwriter⟩
  · intro id file hfile hne
    rw [hfiles] at hfile
    rw [hwriter] at hne
    exact h.others id file hfile hne
  · intro hash row hrow
    obtain ⟨payload, hkept, hhash⟩ := hrows hash row hrow
    exact ⟨payload, hkept.grows (grows_same hfiles hwriter), hhash⟩

theorem Sound.flags (h : Sound H s) (hfiles : s'.files = s.files) (hwriter : s'.writer = s.writer)
    (hrows : ∀ hash row', s'.blobs.lookup hash = some row' → ∃ row, s.blobs.lookup hash = some row ∧
      row' = { row with tombstoned := row'.tombstoned }) : Sound H s' := by
  refine h.rowed hfiles hwriter fun hash row' hrow' => ?_
  obtain ⟨row, hrow, heq⟩ := hrows hash row' hrow'
  obtain ⟨payload, hkept, hhash⟩ := h.rows hash row hrow
  refine ⟨payload, ?_, hhash⟩
  rw [heq]
  exact hkept

end Rows

/-! ## Appending -/

section Append

variable {H : Hashes} {s : Store}
variable {payloads : List Bytes} {rest : Bytes}

theorem OpenAt.content (h : OpenAt H s payloads rest) : s.writerContent = frames H payloads ++ rest := by
  rw [Store.writerContent, h.file]

theorem OpenAt.behind (h : OpenAt H s payloads rest) : s.behind = rest := by
  rw [Store.behind, h.content, h.offset, drop_left]

theorem OpenAt.kept (h : OpenAt H s payloads rest) :
    s.keptBytes s.writer.packId = some (frames H payloads) := by
  rw [Store.keptBytes, h.file, Option.map_some, if_pos rfl, h.offset, take_left]

theorem keptBytes_other {id : Nat} (hne : id ≠ s.writer.packId) :
    s.keptBytes id = (s.files.lookup id).map PackFile.content := by
  exact congrArg (fun f => (s.files.lookup id).map f) (funext fun _ => if_neg hne)

theorem writeAt_end (content bytes : Bytes) : writeAt content content.length bytes = content ++ bytes := by
  rw [writeAt, take_length, drop_of_length_le (Nat.le_add_right ..), append_nil]

theorem OpenAt.append (h : OpenAt H s payloads rest) (bytes : Bytes) :
    OpenAt H (s.writeBytes bytes) payloads (rest ++ bytes) := by
  refine ⟨h.bound, ?_, h.offset, ?_⟩
  · have hlookup : (s.writeBytes bytes).files.lookup s.writer.packId =
        some ⟨false, writeAt s.writerContent s.writer.cursor bytes⟩ := AList.lookup_insert _
    have hat : writeAt s.writerContent s.writer.cursor bytes =
        frames H payloads ++ (rest ++ bytes) := by
      rw [h.content, h.cursor, writeAt_end, append_assoc]
    rw [hat] at hlookup
    exact hlookup
  · have hcursor : (s.writeBytes bytes).writer.cursor = s.writer.cursor + bytes.length := rfl
    rw [hcursor, h.cursor]
    simp only [length_append]
    omega

theorem writeBytes_grows (h : Sound H s) (bytes : Bytes) : Grows s (s.writeBytes bytes) := by
  intro id content hkept
  refine ⟨[], ?_⟩
  rw [append_nil]
  obtain ⟨payloads, rest, hopen⟩ := h.writer
  by_cases hid : id = s.writer.packId
  · rw [hid, hopen.kept] at hkept
    have hkept' := (hopen.append bytes).kept
    rw [hid]
    exact hkept'.trans hkept
  · have hne : id ≠ (s.writeBytes bytes).writer.packId := hid
    have hfiles : (s.writeBytes bytes).files.lookup id = s.files.lookup id := AList.lookup_insert_ne hid
    rw [keptBytes_other hid] at hkept
    rw [keptBytes_other hne, hfiles, hkept]

theorem Sound.append (h : Sound H s) (bytes : Bytes) : Sound H (s.writeBytes bytes) := by
  refine ⟨?_, ?_, ?_⟩
  · obtain ⟨payloads, rest, hopen⟩ := h.writer
    exact ⟨payloads, rest ++ bytes, hopen.append bytes⟩
  · intro id file hfile hne
    have hfiles : (s.writeBytes bytes).files.lookup id = s.files.lookup id := AList.lookup_insert_ne hne
    rw [hfiles] at hfile
    exact h.others id file hfile hne
  · intro hash row hrow
    obtain ⟨payload, hkept, hhash⟩ := h.rows hash row hrow
    exact ⟨payload, hkept.grows (writeBytes_grows h bytes), hhash⟩

end Append

section Rotate

variable {H : Hashes} {s : Store}
variable {payloads : List Bytes}

theorem OpenAt.unique {rest : Bytes} (h : OpenAt H s payloads rest) {id : Nat} {file : PackFile}
    (hfile : s.files.lookup id = some file) (hsealed : file.isSealed = true) : id ≠ s.writer.packId := by
  rintro rfl
  rw [h.file] at hfile
  cases hfile
  cases hsealed

theorem sealed_content {rest : Bytes} (h : OpenAt H s payloads rest) :
    ∃ more, (s.sealOpenPack H).files.lookup s.writer.packId = some ⟨true, frames H payloads ++ more⟩ := by
  have hlookup : (s.sealOpenPack H).files.lookup s.writer.packId =
      some ⟨true, writeAt s.writerContent s.writer.offset (tail H (frameCount s.writer.offset 0
        s.writer.offset s.writerContent))⟩ := AList.lookup_insert _
  rw [writeAt, h.content, h.offset, take_left, append_assoc] at hlookup
  exact ⟨_, hlookup⟩

theorem files_rotatePack (s : Store) (id : Nat) : (s.rotatePack H).files.lookup id =
      if id = (s.rotatePack H).writer.packId then some ⟨false, []⟩
      else (s.sealOpenPack H).files.lookup id :=
  Table.lookup_insert_if ..

theorem rotatePack_fresh (s : Store) :
    (s.sealOpenPack H).files.lookup (s.rotatePack H).writer.packId = none :=
  nextPackId_fresh (s.sealOpenPack H).toDisk

theorem OpenAt.rotated (s : Store) : OpenAt H (s.rotatePack H) [] [] where
  bound p hp := absurd hp not_mem_nil
  file := by
    rw [files_rotatePack]
    exact if_pos rfl
  offset := rfl
  cursor := rfl

theorem rotatePack_grows (h : Sound H s) : Grows s (s.rotatePack H) := by
  intro id content hkept
  obtain ⟨payloads, rest, hopen⟩ := h.writer
  obtain ⟨more, hsealed⟩ := sealed_content hopen
  have hfresh := rotatePack_fresh (H := H) s
  by_cases hid : id = s.writer.packId
  · rw [hid, hopen.kept] at hkept
    cases hkept
    have hne : id ≠ (s.rotatePack H).writer.packId := by
      intro heq
      rw [← heq, hid, hsealed] at hfresh
      cases hfresh
    refine ⟨more, ?_⟩
    rw [keptBytes_other hne, files_rotatePack, if_neg hne, hid, hsealed, Option.map_some]
  · rw [keptBytes_other hid] at hkept
    have hsame : (s.sealOpenPack H).files.lookup id = s.files.lookup id := AList.lookup_insert_ne hid
    have hne : id ≠ (s.rotatePack H).writer.packId := by
      intro heq
      rw [← heq, hsame] at hfresh
      rw [hfresh] at hkept
      cases hkept
    refine ⟨[], ?_⟩
    rw [keptBytes_other hne, files_rotatePack, if_neg hne, hsame, hkept, append_nil]

theorem Sound.rotated (h : Sound H s) : Sound H (s.rotatePack H) := by
  refine ⟨⟨[], [], OpenAt.rotated s⟩, ?_, ?_⟩
  · intro id file hfile hne
    rw [files_rotatePack, if_neg hne] at hfile
    by_cases hid : id = s.writer.packId
    · have hsealed : (s.sealOpenPack H).files.lookup id = some file := hfile
      obtain ⟨payloads, rest, hopen⟩ := h.writer
      obtain ⟨more, hmore⟩ := sealed_content hopen
      rw [hid, hmore] at hsealed
      cases hsealed
      rfl
    · have hsame : (s.sealOpenPack H).files.lookup id = s.files.lookup id :=
        AList.lookup_insert_ne hid
      rw [hsame] at hfile
      exact h.others id file hfile hid
  · intro hash row hrow
    obtain ⟨payload, hkept, hhash⟩ := h.rows hash row hrow
    exact ⟨payload, hkept.grows (rotatePack_grows h), hhash⟩

end Rotate

/-! ## The next frame -/

section Insert

variable {H : Hashes} {s : Store}
variable {bytes : Bytes} {payloads : List Bytes} {hash : BlobHash}

/-- After the frame of `bytes` at the handle, the same frame stands at the offset. -/
def Fits (H : Hashes) (s : Store) (bytes : Bytes) : Prop :=
  frame H bytes <+: s.behind ++ frame H bytes

instance (s : Store) (bytes : Bytes) : Decidable (Fits H s bytes) :=
  inferInstanceAs (Decidable (frame H bytes <+: s.behind ++ frame H bytes))

variable (H) in
def written (s : Store) (bytes : Bytes) : Store :=
  (s.writeFrame H bytes).insertBlob (H.blake3 bytes) bytes.length

theorem writer_written (s : Store) (bytes : Bytes) :
    (written H s bytes).writer.offset = s.writer.offset + (frameHeaderLen + bytes.length) ∧
      (written H s bytes).writer.packId = s.writer.packId :=
  ⟨rfl, rfl⟩

theorem lookup_written (hnone : s.blobs.lookup (H.blake3 bytes) = none) (hash : BlobHash) :
    (written H s bytes).blobs.lookup hash =
      if hash = H.blake3 bytes then
        some ⟨s.writer.packId, s.writer.offset, bytes.length, false⟩
      else s.blobs.lookup hash := by
  have hblobs : (written H s bytes).blobs = s.blobs.insert (H.blake3 bytes)
      ⟨s.writer.packId, s.writer.offset, bytes.length, false⟩ := by
    rw [written, Store.insertBlob]
    dsimp only [Store.writeFrame]
    rw [hnone]
  rw [hblobs, Table.lookup_insert_if]

theorem OpenAt.written {rest more : Bytes} (h : OpenAt H s payloads rest)
    (hbound : bytes.length ≤ maxFramePayload) (hfits : rest ++ frame H bytes = frame H bytes ++ more) :
    OpenAt H (written H s bytes) (payloads ++ [bytes]) more := by
  have happend := h.append (frame H bytes)
  have hone : frames H (payloads ++ [bytes]) = frames H payloads ++ frame H bytes := by
    rw [frames_append]
    exact congrArg _ (append_nil _)
  have hall : frames H payloads ++ (rest ++ frame H bytes) =
      frames H (payloads ++ [bytes]) ++ more := by
    rw [hone, hfits, append_assoc]
  refine ⟨?_, ?_, ?_, ?_⟩
  · intro p hp
    rcases mem_append.mp hp with hp | hp
    · exact h.bound p hp
    · rw [mem_singleton.mp hp]
      exact hbound
  · rw [← hall]
    exact happend.file
  · rw [(writer_written s bytes).1, h.offset, hone, length_append, length_frame]
  · rw [← hall]
    exact happend.cursor

theorem written_grows {rest more : Bytes} (h : OpenAt H s payloads rest)
    (hbound : bytes.length ≤ maxFramePayload)
    (hfits : rest ++ frame H bytes = frame H bytes ++ more) : Grows s (Pack.written H s bytes) := by
  intro id content hkept
  by_cases hid : id = s.writer.packId
  · rw [hid, h.kept] at hkept
    cases hkept
    refine ⟨frame H bytes, ?_⟩
    have hkept' := (h.written hbound hfits).kept
    rw [frames_append] at hkept'
    rw [hid]
    refine hkept'.trans ?_
    exact congrArg (fun b => some (frames H payloads ++ b)) (append_nil _)
  · have hne : id ≠ (Pack.written H s bytes).writer.packId := hid
    have hfiles : (Pack.written H s bytes).files.lookup id = s.files.lookup id :=
      AList.lookup_insert_ne hid
    rw [keptBytes_other hid] at hkept
    refine ⟨[], ?_⟩
    rw [keptBytes_other hne, hfiles, hkept, append_nil]

theorem Sound.insert (h : Sound H s) (hbound : bytes.length ≤ maxFramePayload)
    (hnone : s.blobs.lookup (H.blake3 bytes) = none) (hfits : Fits H s bytes) :
    Sound H (written H s bytes) ∧ Grows s (written H s bytes) ∧
      ∃ row, (written H s bytes).blobs.lookup (H.blake3 bytes) = some row ∧ row.tombstoned = false ∧
        RowKept H (written H s bytes) row bytes := by
  obtain ⟨payloads, rest, hopen⟩ := h.writer
  obtain ⟨more, hmore⟩ := hfits
  rw [hopen.behind] at hmore
  have hopen' := hopen.written hbound hmore.symm
  have hgrows := written_grows hopen hbound hmore.symm
  have hnew : RowKept H (written H s bytes)
      ⟨s.writer.packId, s.writer.offset, bytes.length, false⟩ bytes := by
    refine ⟨_, hopen'.kept, ?_, rfl⟩
    have hlast := StoredAt.last (H := H) hbound (frames H payloads) []
    rw [frames_append]
    rw [hopen.offset]
    exact hlast
  refine ⟨⟨⟨_, _, hopen'⟩, ?_, ?_⟩, hgrows, _, ?_, rfl, hnew⟩
  · intro id file hfile hne
    have hsame : (written H s bytes).files.lookup id = s.files.lookup id := AList.lookup_insert_ne hne
    rw [hsame] at hfile
    exact h.others id file hfile hne
  · intro hash row hrow
    rw [lookup_written hnone] at hrow
    by_cases hhash : hash = H.blake3 bytes
    · rw [if_pos hhash] at hrow
      cases hrow
      exact ⟨bytes, hnew, hhash.symm⟩
    · rw [if_neg hhash] at hrow
      obtain ⟨payload, hkept, hback⟩ := h.rows hash row hrow
      exact ⟨payload, hkept.grows hgrows, hback⟩
  · rw [lookup_written hnone]
    exact if_pos rfl

theorem readFrame_ok {packId offset length : Nat} {content payload : Bytes}
    (h : readFrame H packId content offset length = .ok payload) :
    frame H payload <+: content.drop offset := by
  rw [readFrame] at h
  dsimp only at h
  split at h
  · cases h
  rename_i hheader
  split at h
  · cases h
  rename_i hmagic
  split at h
  · cases h
  rename_i hlength
  split at h
  · cases h
  rename_i hpayload
  split at h
  · cases h
  rename_i hsum
  cases h
  rw [Decidable.not_not] at hlength
  have hframe : frameAt H (content.drop offset) =
      some (((content.drop offset).drop frameHeaderLen).take length) := by
    rw [frameAt, if_neg hheader, if_neg hmagic]
    rw [hlength, if_neg hpayload, if_neg hsum]
  obtain ⟨-, more, hmore⟩ := frameAt_iff.mp hframe
  exact ⟨more, hmore.symm⟩

theorem getRead_done {d : Disk} {attempt : Nat} {last : Option (Nat × Nat)} {row : BlobRow}
    {blob : Bytes} (h : getRead H d hash attempt last row = .done (.ok (some blob))) :
    readFramePayload H d row.packFileId row.offset row.length = .ok blob := by
  rw [getRead] at h
  split at h
  · rename_i bytes hread
    split at h
    · cases h
    · cases h
      exact hread
  · split at h
    · cases h
    · cases h
  · cases h

theorem get_read {d : Disk} {row : BlobRow} {blob : Bytes} (hrow : d.blobs.lookup hash = some row)
    (hlive : row.tombstoned = false) (hget : get H d hash = .ok (some blob)) :
    readFramePayload H d row.packFileId row.offset row.length = .ok blob := by
  rw [get] at hget
  generalize maxGetGcRetries = left at hget
  generalize (none : Option (Nat × Nat)) = last at hget
  generalize 0 = attempt at hget
  induction left generalizing attempt last with
  | zero =>
    cases hget
  | succ left ih =>
    rw [getFrom, hrow] at hget
    simp only [hlive, Bool.false_eq_true, if_false] at hget
    cases hdone : getRead H d hash attempt last row with
    | done result =>
      rw [hdone] at hget
      dsimp only at hget
      rw [hget] at hdone
      exact getRead_done hdone
    | retry =>
      rw [hdone] at hget
      exact ih _ _ hget

theorem Sound.insert_unfit (h : Sound H s) (hnone : s.blobs.lookup (H.blake3 bytes) = none)
    (hfits : ¬ Fits H s bytes) : ¬ Retrievable H (written H s bytes).toDisk bytes := by
  obtain ⟨payloads, rest, hopen⟩ := h.writer
  intro hget
  have hrow : (written H s bytes).blobs.lookup (H.blake3 bytes) =
      some ⟨s.writer.packId, s.writer.offset, bytes.length, false⟩ := by
    rw [lookup_written hnone]
    exact if_pos rfl
  have hfile : (written H s bytes).files.lookup s.writer.packId =
      some ⟨false, frames H payloads ++ (rest ++ frame H bytes)⟩ := (hopen.append _).file
  refine hfits ?_
  have hread := get_read hrow rfl hget
  rw [readFramePayload, hfile] at hread
  have hstands := readFrame_ok hread
  rw [hopen.offset, drop_left] at hstands
  rw [Fits, hopen.behind]
  exact hstands

end Insert

end Ratatoskr.Pack

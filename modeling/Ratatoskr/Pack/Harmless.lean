import Ratatoskr.Lib.Run
import Ratatoskr.Pack.Failing

/-!
# Pack.Harmless

Runs of a pack store whose puts may fail (`stores/src/attachment_pack.rs`). A failed put hurts no blob
by itself. A later put that appends to the same open pack writes at the file handle and indexes the
writer's offset: its blob is found exactly when the frame stands there all the same.

* `Sound.reopened`, `Sound.put`, `Sound.collected` : each step keeps a sound store sound.
* `put_harmless_iff` : what a put of any run does to the blobs, at once and after a reopen.
* `live_blobs_kept` : what no step but a tombstone and a rebuilt index can lose.
-/

namespace Ratatoskr.Pack

open List
open Lib (Table)

variable {H : Hashes}

section Reopen

variable {s : Store}

theorem opens_eq (h : Sound H s) : (s.listPacks.filter (fun p => !p.2)).map Prod.fst = [s.writer.packId] := by
  have hnodup := (listPacks_nodup s.toDisk).sublist ((filter_sublist (p := fun p => !p.2)).map Prod.fst)
  refine perm_singleton.mp ((perm_ext_iff_of_nodup hnodup (nodup_singleton _)).mpr fun id => ?_)
  rw [mem_map, mem_singleton]
  obtain ⟨payloads, rest, hopen⟩ := h.writer
  constructor
  · rintro ⟨⟨id', isSealed⟩, hmem, rfl⟩
    obtain ⟨hlist, hflag⟩ := mem_filter.mp hmem
    obtain ⟨file, hfile, hsealed⟩ := mem_listPacks.mp hlist
    by_contra hne
    have htrue := h.others _ file hfile hne
    rw [← hsealed, htrue] at hflag
    cases hflag
  · rintro rfl
    exact ⟨(s.writer.packId, false), mem_filter.mpr ⟨mem_listPacks.mpr ⟨_, hopen.file, rfl⟩, rfl⟩, rfl⟩

theorem openStore_eq (h : Sound H s) (targetSize : Nat) : openStore H s.toDisk targetSize =
      openExistingOpenPack (recoverOpenPack H s.toDisk s.writer.packId) targetSize s.writer.packId := by
  rw [openStore, opens_eq h]

theorem placed_stored {payloads : List Bytes} (h : ∀ p ∈ payloads, p.length ≤ maxFramePayload)
    (before more : Bytes) : ∀ f ∈ placed before.length payloads,
      StoredAt H (before ++ frames H payloads ++ more) f.1 f.2 := by
  induction payloads generalizing before with
  | nil =>
    intro f hf
    cases hf
  | cons p ps ih =>
    intro f hf
    rcases mem_cons.mp hf with rfl | hf
    · have hlast := StoredAt.last (H := H) (h p (mem_cons_self ..)) before (frames H ps ++ more)
      rwa [frames_cons, append_assoc, append_assoc]
    · have hrest := ih (fun q hq => h q (mem_cons_of_mem _ hq)) (before ++ frame H p) f (by
        rw [length_append, length_frame]
        exact hf)
      rwa [frames_cons, ← append_assoc]

theorem lastRow_some {packId : Nat} {found : List (Nat × Bytes)} {hash : BlobHash} {tombstoned : Bool}
    {row : BlobRow} (h : lastRow H packId found hash tombstoned = some row) :
    ∃ f ∈ found, H.blake3 f.2 = hash ∧ row = ⟨packId, f.1, f.2.length, tombstoned⟩ := by
  rw [lastRow, Option.map_eq_some_iff] at h
  obtain ⟨f, hlast, rfl⟩ := h
  obtain ⟨hf, hhash⟩ := mem_filter.mp (mem_of_getLast? hlast)
  exact ⟨f, hf, of_decide_eq_true hhash, rfl⟩

theorem reopened (h : Sound H s) (targetSize : Nat) :
    ∃ payloads found, OpenAt H (openStore H s.toDisk targetSize) payloads [] ∧
      Grows s (openStore H s.toDisk targetSize) ∧
      (openStore H s.toDisk targetSize).writer.packId = s.writer.packId ∧
      (∀ id, id ≠ s.writer.packId → (openStore H s.toDisk targetSize).files.lookup id = s.files.lookup id) ∧
      (∀ f ∈ found, StoredAt H (frames H payloads) f.1 f.2) ∧
      ∀ hash, (openStore H s.toDisk targetSize).blobs.lookup hash =
        (lastRow H s.writer.packId found hash (tombstoneOf s.blobs hash)).or (s.blobs.lookup hash) := by
  obtain ⟨payloads, rest, hopen⟩ := h.writer
  obtain ⟨more, rest', rfl, hmore, hrest⟩ := exists_frames (H := H) rest
  have hbound : ∀ p ∈ payloads ++ more, p.length ≤ maxFramePayload := by
    intro p hp
    rcases mem_append.mp hp with hp | hp
    · exact hopen.bound p hp
    · exact hmore p hp
  have hcontent : frames H payloads ++ (frames H more ++ rest') =
      frames H (payloads ++ more) ++ rest' := by
    rw [frames_append, append_assoc]
  have hfile := hopen.file
  rw [hcontent] at hfile
  have hrecovered : recoverOpenPack H s.toDisk s.writer.packId =
      { s.toDisk with
        files := s.files.insert s.writer.packId ⟨false, frames H (payloads ++ more)⟩
        blobs := indexFrames H s.writer.packId s.blobs (placed 0 (payloads ++ more)) } := by
    rw [recoverOpenPack, hfile]
    dsimp only
    rw [walk_frames hbound hrest, framesEnd_placed (H := H), take_left]
  have hlookup : (recoverOpenPack H s.toDisk s.writer.packId).files.lookup s.writer.packId =
      some ⟨false, frames H (payloads ++ more)⟩ := by
    rw [hrecovered]
    exact AList.lookup_insert _
  have hstore := openStore_eq h targetSize
  have hwriter : (openStore H s.toDisk targetSize).writer =
      ⟨s.writer.packId, (frames H (payloads ++ more)).length, (frames H (payloads ++ more)).length⟩ := by
    rw [hstore, openExistingOpenPack]
    rw [hlookup]
  have hfiles : (openStore H s.toDisk targetSize).files =
      s.files.insert s.writer.packId ⟨false, frames H (payloads ++ more)⟩ := by
    rw [hstore, openExistingOpenPack]
    dsimp only [Disk.touchLog]
    rw [hrecovered]
  have hblobs : (openStore H s.toDisk targetSize).blobs =
      indexFrames H s.writer.packId s.blobs (placed 0 (payloads ++ more)) := by
    rw [hstore, openExistingOpenPack]
    dsimp only [Disk.touchLog]
    rw [hrecovered]
  have hopen' : OpenAt H (openStore H s.toDisk targetSize) (payloads ++ more) [] := by
    refine ⟨hbound, ?_, ?_, ?_⟩
    · rw [hwriter, hfiles, append_nil]
      exact AList.lookup_insert _
    · rw [hwriter]
    · rw [hwriter, append_nil]
  have hid : (openStore H s.toDisk targetSize).writer.packId = s.writer.packId := by rw [hwriter]
  have hothers : ∀ id, id ≠ s.writer.packId →
      (openStore H s.toDisk targetSize).files.lookup id = s.files.lookup id := by
    intro id hne
    rw [hfiles]
    exact AList.lookup_insert_ne hne
  refine ⟨payloads ++ more, placed 0 (payloads ++ more), hopen', ?_, hid, hothers, ?_, ?_⟩
  · intro id content hkept
    by_cases heq : id = s.writer.packId
    · rw [heq, hopen.kept] at hkept
      cases hkept
      refine ⟨frames H more, ?_⟩
      have hkept' := hopen'.kept
      rw [hid, frames_append] at hkept'
      rw [heq]
      exact hkept'
    · rw [keptBytes_other heq] at hkept
      refine ⟨[], ?_⟩
      rw [keptBytes_other (by rw [hid]; exact heq), hothers id heq, hkept, append_nil]
  · intro f hf
    have hstored := placed_stored (H := H) hbound [] [] f hf
    rwa [append_nil] at hstored
  · intro hash
    rw [hblobs, lookup_indexFrames]

theorem Sound.reopened (h : Sound H s) (targetSize : Nat) : Sound H (openStore H s.toDisk targetSize) := by
  obtain ⟨payloads, found, hopen, hgrows, hid, hothers, hfound, hrows⟩ := Pack.reopened h targetSize
  refine ⟨⟨payloads, [], hopen⟩, ?_, ?_⟩
  · intro id file hfile hne
    rw [hid] at hne
    rw [hothers id hne] at hfile
    exact h.others id file hfile hne
  · intro hash row hrow
    rw [hrows, Option.or_eq_some_iff] at hrow
    rcases hrow with hnew | ⟨-, hold⟩
    · obtain ⟨f, hf, hhash, rfl⟩ := lastRow_some hnew
      refine ⟨f.2, ⟨_, ?_, hfound f hf, rfl⟩, hhash⟩
      have hkept := hopen.kept
      rw [hid] at hkept
      exact hkept
    · obtain ⟨payload, hkept, hhash⟩ := h.rows hash row hold
      exact ⟨payload, hkept.grows hgrows, hhash⟩

def NoCollision (H : Hashes) (blob : Bytes) : Prop :=
  ∀ bytes, H.blake3 bytes = H.blake3 blob → bytes = blob

theorem retrievable_reopened (h : Sound H s) (targetSize : Nat) {blob : Bytes}
    (hblob : NoCollision H blob) (hget : Retrievable H s.toDisk blob) :
    Retrievable H (openStore H s.toDisk targetSize).toDisk blob := by
  obtain ⟨payloads, found, hopen, hgrows, hid, hothers, hfound, hrows⟩ := Pack.reopened h targetSize
  obtain ⟨row, hrow, hlive, hkept⟩ := (retrievable_iff h).mp hget
  refine (retrievable_iff (h.reopened targetSize)).mpr ?_
  have hrow' := hrows (H.blake3 blob)
  have hflag : tombstoneOf s.blobs (H.blake3 blob) = false := by
    rw [tombstoneOf, hrow]
    exact hlive
  rw [hrow, hflag] at hrow'
  cases hlast : lastRow H s.writer.packId found (H.blake3 blob) false with
  | none =>
    rw [hlast] at hrow'
    exact ⟨row, hrow', hlive, hkept.grows hgrows⟩
  | some row' =>
    rw [hlast] at hrow'
    obtain ⟨f, hf, hhash, rfl⟩ := lastRow_some hlast
    refine ⟨_, hrow', rfl, ?_⟩
    rw [← hblob f.2 hhash]
    refine ⟨_, ?_, hfound f hf, rfl⟩
    have hkept' := hopen.kept
    rw [hid] at hkept'
    exact hkept'

end Reopen

/-! ## Puts -/

section Put

variable {s s' : Store} {bytes : Bytes} {faults : Faults}

structure Keeps (H : Hashes) (s s' : Store) : Prop where
  sound : Sound H s'
  grows : Grows s s'
  rows : ∀ hash row, s.blobs.lookup hash = some row → row.tombstoned = false →
    s'.blobs.lookup hash = some row

theorem Keeps.refl (h : Sound H s) : Keeps H s s := ⟨h, .refl s, fun _ _ hrow _ => hrow⟩

theorem Keeps.trans {s'' : Store} (h : Keeps H s s') (h' : Keeps H s' s'') : Keeps H s s'' :=
  ⟨h'.sound, h.grows.trans h'.grows,
    fun hash row hrow hlive => h'.rows hash row (h.rows hash row hrow hlive) hlive⟩

theorem Keeps.retrievable (h : Sound H s) (hkeeps : Keeps H s s') {blob : Bytes}
    (hget : Retrievable H s.toDisk blob) : Retrievable H s'.toDisk blob := by
  obtain ⟨row, hrow, hlive, hkept⟩ := (retrievable_iff h).mp hget
  exact (retrievable_iff hkeeps.sound).mpr
    ⟨row, hkeeps.rows _ row hrow hlive, hlive, hkept.grows hkeeps.grows⟩

/-- Where a put appends to the open pack, its frame stands at the writer's offset afterwards. -/
def InLine (H : Hashes) (faults : Faults) (s : Store) (bytes : Bytes) : Prop :=
  bytes.length ≤ maxFramePayload → faults.check = false → faults.write = none →
    s.blobs.lookup (H.blake3 bytes) = none → s.needsRotation bytes.length = false → Fits H s bytes

instance (faults : Faults) (s : Store) (bytes : Bytes) : Decidable (InLine H faults s bytes) :=
  inferInstanceAs (Decidable (_ → _ → _ → _ → _ → _))

theorem keeps_append (h : Sound H s) (bytes : Bytes) : Keeps H s (s.writeBytes bytes) :=
  ⟨h.append bytes, writeBytes_grows h bytes, fun _ _ hrow _ => hrow⟩

theorem keeps_rotated (h : Sound H s) : Keeps H s (s.rotatePack H) :=
  ⟨h.rotated, rotatePack_grows h, fun _ _ hrow _ => hrow⟩

theorem keeps_target (h : Sound H s) (n : Nat) :
    Keeps H s (if s.needsRotation n then s.rotatePack H else s) := by
  split
  · exact keeps_rotated h
  · exact .refl h

theorem fits_rotated (s : Store) (bytes : Bytes) : Fits H (s.rotatePack H) bytes := by
  simp only [Fits, (OpenAt.rotated s).behind]
  exact prefix_rfl

theorem lookup_revive (s : Store) (packId : Nat) (hash h : BlobHash) : (s.revive packId hash).blobs.lookup h =
      (s.blobs.lookup h).map (fun row => if h = hash then { row with tombstoned := false } else row) :=
  lookup_clearTombstone ..

theorem keeps_revive (h : Sound H s) (packId : Nat) (hash : BlobHash) : Keeps H s (s.revive packId hash) := by
  refine ⟨h.flags rfl rfl ?_, grows_same rfl rfl, ?_⟩
  · intro hash' row' hrow'
    rw [lookup_revive, Option.map_eq_some_iff] at hrow'
    obtain ⟨row, hrow, rfl⟩ := hrow'
    refine ⟨row, hrow, ?_⟩
    split <;> rfl
  · intro hash' row hrow hlive
    rw [lookup_revive, hrow, ← hlive]
    split <;> rfl

theorem putWith_cases (faults : Faults) (s : Store) (bytes : Bytes) :
    (∃ e, s.putWith H faults bytes = (s, .error e) ∧ (maxFramePayload < bytes.length ∨ faults.check = true)) ∨
    (∃ row, s.blobs.lookup (H.blake3 bytes) = some row ∧ row.tombstoned = false ∧
      s.putWith H faults bytes = (s, .ok (H.blake3 bytes))) ∨
    (∃ row, s.blobs.lookup (H.blake3 bytes) = some row ∧
      s.putWith H faults bytes = s.reviveWith faults row.packFileId (H.blake3 bytes)) ∨
    (bytes.length ≤ maxFramePayload ∧ faults.check = false ∧ s.blobs.lookup (H.blake3 bytes) = none ∧
      s.putWith H faults bytes =
        (if s.needsRotation bytes.length then s.rotatePack H else s).writeWith H faults bytes) := by
  rw [Store.putWith]
  by_cases hlarge : maxFramePayload < bytes.length
  · rw [if_pos hlarge]
    exact .inl ⟨_, rfl, .inl hlarge⟩
  rw [if_neg hlarge]
  by_cases hcheck : faults.check = true
  · rw [if_pos hcheck]
    exact .inl ⟨_, rfl, .inr hcheck⟩
  rw [if_neg hcheck, classifyExistingBlob]
  cases hrow : s.blobs.lookup (H.blake3 bytes) with
  | none =>
    exact .inr (.inr (.inr ⟨Nat.le_of_not_lt hlarge, Bool.eq_false_iff.mpr hcheck, rfl, rfl⟩))
  | some row =>
    cases hdead : row.tombstoned with
    | false => exact .inr (.inl ⟨row, rfl, hdead, by simp [hdead]⟩)
    | true => exact .inr (.inr (.inl ⟨row, rfl, by simp [hdead]⟩))

theorem keeps_reviveWith (h : Sound H s) (faults : Faults) (packId : Nat) (hash : BlobHash) :
    Keeps H s (s.reviveWith faults packId hash).1 := by
  rw [Store.reviveWith]
  have hlogs : ∀ logs, Keeps H s { s with logs := logs } := fun logs =>
    ⟨h.flags rfl rfl (fun _ row hrow => ⟨row, hrow, rfl⟩), grows_same rfl rfl, fun _ _ hrow _ => hrow⟩
  cases faults.revive with
  | none => exact keeps_revive h packId hash
  | some fault =>
    cases fault with
    | log n => exact hlogs _
    | row => exact hlogs _

theorem keeps_writeWith (h : Sound H s) (hbound : bytes.length ≤ maxFramePayload)
    (hnone : s.blobs.lookup (H.blake3 bytes) = none) (hfits : faults.write = none → Fits H s bytes) :
    Keeps H s (s.writeWith H faults bytes).1 := by
  rw [Store.writeWith]
  cases hwrite : faults.write with
  | none =>
    obtain ⟨hsound, hgrows, -⟩ := h.insert hbound hnone (hfits hwrite)
    refine ⟨hsound, hgrows, fun hash row hrow _ => ?_⟩
    have hlookup := lookup_written hnone hash
    have hne : hash ≠ H.blake3 bytes := by
      rintro rfl
      rw [hnone] at hrow
      cases hrow
    rw [if_neg hne, hrow] at hlookup
    exact hlookup
  | some fault =>
    cases fault with
    | part n => exact keeps_append h _
    | sync => exact keeps_append h _
    | insert => exact keeps_append h _

theorem inLine_of_error {e : PutError} (herror : (s.putWith H faults bytes).2 = .error e) :
    InLine H faults s bytes := by
  intro hbound hcheck hwrite hnone hstay
  rcases putWith_cases faults s bytes with ⟨e', -, hlarge | htrue⟩ | ⟨row, hrow, -⟩ | ⟨row, hrow, -⟩ |
    ⟨-, -, -, hput⟩
  · exact absurd hlarge (Nat.not_lt.mpr hbound)
  · rw [hcheck] at htrue
    cases htrue
  · rw [hnone] at hrow
    cases hrow
  · rw [hnone] at hrow
    cases hrow
  · rw [hput, Store.writeWith, hwrite] at herror
    cases herror

theorem lookup_target {n : Nat} (hnone : s.blobs.lookup (H.blake3 bytes) = none) :
    (if s.needsRotation n then s.rotatePack H else s).blobs.lookup (H.blake3 bytes) = none := by
  split
  · exact hnone
  · exact hnone

theorem fits_target (hline : InLine H faults s bytes) (hbound : bytes.length ≤ maxFramePayload)
    (hcheck : faults.check = false) (hnone : s.blobs.lookup (H.blake3 bytes) = none)
    (hwrite : faults.write = none) :
    Fits H (if s.needsRotation bytes.length then s.rotatePack H else s) bytes := by
  split
  · exact fits_rotated s bytes
  · rename_i hstay
    exact hline hbound hcheck hwrite hnone (Bool.eq_false_iff.mpr hstay)

theorem Sound.put (h : Sound H s) (hline : InLine H faults s bytes) :
    Keeps H s (s.putWith H faults bytes).1 := by
  rcases putWith_cases faults s bytes with ⟨e, hput, -⟩ | ⟨row, -, -, hput⟩ | ⟨row, -, hput⟩ |
    ⟨hbound, hcheck, hnone, hput⟩
  · rw [hput]
    exact .refl h
  · rw [hput]
    exact .refl h
  · rw [hput]
    exact keeps_reviveWith h faults _ _
  · rw [hput]
    have htarget := keeps_target h bytes.length
    exact htarget.trans (keeps_writeWith htarget.sound hbound (lookup_target hnone)
      (fits_target hline hbound hcheck hnone))

theorem Sound.put_ok (h : Sound H s) (hline : InLine H faults s bytes) (hblob : NoCollision H bytes)
    {hash : BlobHash} (hok : (s.putWith H faults bytes).2 = .ok hash) :
    Retrievable H (s.putWith H faults bytes).1.toDisk bytes := by
  have hkeeps := h.put hline
  refine (retrievable_iff hkeeps.sound).mpr ?_
  rcases putWith_cases faults s bytes with ⟨e, hput, -⟩ | ⟨row, hrow, hlive, hput⟩ | ⟨row, hrow, hput⟩ |
    ⟨hbound, hcheck, hnone, hput⟩
  · rw [hput] at hok
    cases hok
  · rw [hput]
    obtain ⟨payload, hkept, hhash⟩ := h.rows _ _ hrow
    rw [hblob payload hhash] at hkept
    exact ⟨row, hrow, hlive, hkept⟩
  · obtain ⟨payload, hkept, hhash⟩ := h.rows _ _ hrow
    rw [hblob payload hhash] at hkept
    have hkept' := hkept.grows hkeeps.grows
    rw [hput] at hkept' hok ⊢
    rw [Store.reviveWith] at hkept' hok ⊢
    cases hrevive : faults.revive with
    | none =>
      rw [hrevive] at hkept'
      refine ⟨{ row with tombstoned := false }, ?_, rfl, hkept'⟩
      rw [lookup_revive, hrow, Option.map_some, if_pos rfl]
    | some fault =>
      rw [hrevive] at hok
      cases fault with
      | log n => cases hok
      | row => cases hok
  · rw [hput] at hok ⊢
    rw [Store.writeWith] at hok ⊢
    cases hwrite : faults.write with
    | none =>
      exact ((keeps_target h bytes.length).sound.insert hbound (lookup_target hnone)
        (fits_target hline hbound hcheck hnone hwrite)).2.2
    | some fault =>
      rw [hwrite] at hok
      cases fault with
      | part n => cases hok
      | sync => cases hok
      | insert => cases hok

theorem Sound.put_unfit (h : Sound H s) (hline : ¬ InLine H faults s bytes) :
    ¬ Retrievable H (s.putWith H faults bytes).1.toDisk bytes := by
  simp only [InLine, Classical.not_imp] at hline
  obtain ⟨hbound, hcheck, hwrite, hnone, hstay, hfits⟩ := hline
  have hput : (s.putWith H faults bytes).1 = written H s bytes := by
    rw [Store.putWith, if_neg (Nat.not_lt.mpr hbound), hcheck, classifyExistingBlob, hnone]
    rw [hstay, Store.writeWith, hwrite]
    rfl
  rw [hput]
  exact h.insert_unfit hnone hfits

end Put

/-! ## Tombstones and the rebuilt index -/

section Flags

variable {s : Store}

theorem Sound.tombstoned (h : Sound H s) (hash : BlobHash) : Sound H (s.tombstone hash) := by
  rw [Store.tombstone]
  cases s.blobs.lookup hash with
  | none => exact h
  | some row =>
    dsimp only
    split
    · exact h
    refine h.flags rfl rfl ?_
    intro hash' row' hrow'
    have hlookup := lookup_setTombstone (s.toDisk.appendTombstoneLogRecord row.packFileId hash
      .tombstone) hash hash'
    obtain ⟨old, hold, rfl⟩ := Option.map_eq_some_iff.mp (hlookup.symm.trans hrow')
    refine ⟨old, hold, ?_⟩
    split <;> rfl

theorem appendTombstones_same (live : List (BlobHash × Nat)) (d : Disk) :
    (Store.appendTombstones d live).files = d.files ∧ (Store.appendTombstones d live).blobs = d.blobs := by
  induction live generalizing d with
  | nil => exact ⟨rfl, rfl⟩
  | cons r live ih => exact ih _

theorem Sound.tombstonedAll (h : Sound H s) : Sound H s.tombstoneAllLive.1 := by
  rw [Store.tombstoneAllLive]
  split
  · exact h
  obtain ⟨hfiles, hblobs⟩ := appendTombstones_same (Store.liveBlobs s.toDisk) s.toDisk
  refine h.flags hfiles rfl ?_
  intro hash row' hrow'
  have hlookup := lookup_setAllTombstones (Store.appendTombstones s.toDisk
    (Store.liveBlobs s.toDisk)) hash
  obtain ⟨old, hold, rfl⟩ := Option.map_eq_some_iff.mp (hlookup.symm.trans hrow')
  rw [hblobs] at hold
  exact ⟨old, hold, rfl⟩

theorem Sound.walked (h : Sound H s) {packId : Nat} (hne : packId ≠ s.writer.packId) :
    Sound H { s with toDisk := (walkSealedPack H s.toDisk packId).1 } := by
  rw [walkSealedPack]
  cases hfile : s.files.lookup packId with
  | none => exact h
  | some file =>
    refine h.rowed rfl rfl fun hash row hrow => ?_
    obtain ⟨payloads, rest, hcontent, hbound, hrest⟩ := exists_frames (H := H) file.content
    have hwalk : walk H file.content = placed 0 payloads := by
      rw [hcontent]
      exact walk_frames hbound hrest
    have hrow' : (indexFrames H packId s.blobs (walk H file.content)).lookup hash = some row := hrow
    rw [hwalk, lookup_indexFrames, Option.or_eq_some_iff] at hrow'
    rcases hrow' with hnew | ⟨-, hold⟩
    · obtain ⟨f, hf, hhash, rfl⟩ := lastRow_some hnew
      have hkept : s.keptBytes packId = some file.content := by
        rw [keptBytes_other hne, hfile, Option.map_some]
      have hstored := placed_stored (H := H) hbound [] rest f hf
      rw [nil_append, ← hcontent] at hstored
      exact ⟨f.2, ⟨_, hkept, hstored, rfl⟩, hhash⟩
    · exact h.rows hash row hold

theorem lookup_replayRecord (r : Table BlobHash BlobRow × Nat) (record : TombstoneLogKind × BlobHash)
    {hash : BlobHash} {row' : BlobRow} (hrow' : (replayRecord r record).1.lookup hash = some row') :
    ∃ row, r.1.lookup hash = some row ∧ row' = { row with tombstoned := row'.tombstoned } := by
  rw [replayRecord] at hrow'
  split at hrow'
  · split at hrow'
    · exact ⟨row', hrow', rfl⟩
    · rw [Table.lookup_update] at hrow'
      obtain ⟨row, hrow, rfl⟩ := Option.map_eq_some_iff.mp hrow'
      refine ⟨row, hrow, ?_⟩
      split <;> rfl
  · exact ⟨row', hrow', rfl⟩

theorem lookup_replayRecords (records : List (TombstoneLogKind × BlobHash))
    (r : Table BlobHash BlobRow × Nat) {hash : BlobHash} {row' : BlobRow}
    (hrow' : (records.foldl replayRecord r).1.lookup hash = some row') :
    ∃ row, r.1.lookup hash = some row ∧ row' = { row with tombstoned := row'.tombstoned } := by
  induction records generalizing r with
  | nil => exact ⟨row', hrow', rfl⟩
  | cons record records ih =>
    obtain ⟨row, hrow, heq⟩ := ih _ hrow'
    obtain ⟨old, hold, heq'⟩ := lookup_replayRecord r record hrow
    refine ⟨old, hold, ?_⟩
    rw [heq, heq']

theorem Sound.replayed (h : Sound H s) (packId : Nat) :
    Sound H { s with toDisk := (replayTombstoneLog s.toDisk packId).1 } :=
  h.flags rfl rfl fun _ _ hrow => lookup_replayRecords _ _ hrow

theorem sound_foldl {f : Disk → Nat → Disk × Nat} {packs : List Nat}
    (hstep : ∀ s : Store, Sound H s → ∀ packId ∈ packs, packId ≠ s.writer.packId →
      Sound H {s with toDisk := (f s.toDisk packId).1 })
    (h : Sound H s) (hne : ∀ packId ∈ packs, packId ≠ s.writer.packId) (n : Nat) :
    Sound H { s with
      toDisk := (packs.foldl (fun r packId => ((f r.1 packId).1, r.2 + (f r.1 packId).2))
        (s.toDisk, n)).1 } := by
  induction packs generalizing s n with
  | nil => exact h
  | cons packId packs ih =>
    have hfirst := hstep s h packId (mem_cons_self ..) (hne packId (mem_cons_self ..))
    exact ih (fun s hs id hid => hstep s hs id (mem_cons_of_mem _ hid)) hfirst
      (fun id hid => hne id (mem_cons_of_mem _ hid)) _

theorem sealedPacks_ne (s : Store) : ∀ packId ∈ sealedPacks s, packId ≠ s.writer.packId := by
  intro packId hmem
  obtain ⟨p, hp, rfl⟩ := mem_map.mp hmem
  have hcond := (mem_filter.mp hp).2
  simp only [decide_eq_true_eq] at hcond
  exact hcond.2

theorem Sound.rebuilt (h : Sound H s) : Sound H (runRebuildIndex H s).1 := by
  have hwalked := sound_foldl (f := walkSealedPack H) (fun s hs _ _ hne => hs.walked hne) h
    (sealedPacks_ne s) 0
  exact sound_foldl (f := replayTombstoneLog) (fun s hs packId _ _ => hs.replayed packId) hwalked
    (sealedPacks_ne s) 0

end Flags

section Collect

variable {s : Store}

variable {packId : Nat}

theorem Sound.unlinked (h : Sound H s) (hne : packId ≠ s.writer.packId)
    (hrows : ∀ hash row, s.blobs.lookup hash = some row → row.packFileId ≠ packId) :
    Sound H { s with toDisk := s.toDisk.unlinkPack packId } := by
  have hfiles : ∀ id, id ≠ packId →
      (s.toDisk.unlinkPack packId).files.lookup id = s.files.lookup id := fun id hid =>
    (Table.lookup_erase_if s.files id packId).trans (if_neg hid)
  refine ⟨?_, ?_, ?_⟩
  · obtain ⟨payloads, rest, hopen⟩ := h.writer
    exact ⟨payloads, rest, hopen.bound, (hfiles _ (Ne.symm hne)).trans hopen.file, hopen.offset, hopen.cursor⟩
  · intro id file hfile hid
    by_cases hpack : id = packId
    · rw [hpack] at hfile
      have hgone : (s.files.erase packId).lookup packId = none := AList.lookup_erase ..
      cases hgone.symm.trans hfile
    · exact h.others id file ((hfiles id hpack).symm.trans hfile) hid
  · intro hash row hrow
    obtain ⟨payload, ⟨content, hkept, hstored, hlen⟩, hhash⟩ := h.rows hash row hrow
    refine ⟨payload, ⟨content, ?_, hstored, hlen⟩, hhash⟩
    have hsame := hfiles row.packFileId (hrows hash row hrow)
    rw [Store.keptBytes] at hkept ⊢
    rw [hsame]
    exact hkept

/-- `SELECT COUNT(*) FROM attachment_blobs WHERE pack_file_id = ?` -/
def packRows (d : Disk) (packId : Nat) : Nat :=
  ((d.blobs.rows.map Prod.snd).filter (fun row => row.packFileId = packId)).length

theorem no_rows {d : Disk} (h : packRows d packId = 0) :
    ∀ hash row, d.blobs.lookup hash = some row → row.packFileId ≠ packId := by
  intro hash row hrow heq
  have hmem : row ∈ (d.blobs.rows.map Prod.snd).filter (fun row => row.packFileId = packId) :=
    mem_filter.mpr ⟨mem_map.mpr ⟨(hash, row), Table.mem_rows.mpr hrow, rfl⟩,
      decide_eq_true heq⟩
  rw [length_eq_zero_iff.mp h] at hmem
  cases hmem

theorem some_row {d : Disk} (h : packRows d packId ≠ 0) :
    ∃ hash row, d.blobs.lookup hash = some row ∧ row.packFileId = packId := by
  obtain ⟨row, hmem⟩ := exists_mem_of_length_pos (Nat.pos_of_ne_zero h)
  obtain ⟨hrow, hcond⟩ := mem_filter.mp hmem
  obtain ⟨⟨hash, row'⟩, hrows, rfl⟩ := mem_map.mp hrow
  exact ⟨hash, row', Table.mem_rows.mp hrows, of_decide_eq_true hcond⟩

/-- The loop of `sweep_orphan_sealed_packs` over the listed packs. -/
def sweepLoop : List (Nat × Bool) → Store → Nat → Store × Nat
  | [], s, unlinked => (s, unlinked)
  | (packId, isSealed) :: packs, s, unlinked =>
    if !isSealed || packId = s.writer.packId then sweepLoop packs s unlinked
    else if 0 < packRows s.toDisk packId then sweepLoop packs s unlinked
    else sweepLoop packs { s with toDisk := s.toDisk.unlinkPack packId } (unlinked + 1)

def sweepOrphanSealedPacks (s : Store) : Store × Nat := sweepLoop s.listPacks s 0

theorem Sound.sweptLoop (packs : List (Nat × Bool)) (h : Sound H s) (unlinked : Nat) :
    Sound H (sweepLoop packs s unlinked).1 := by
  induction packs generalizing s unlinked with
  | nil => exact h
  | cons p packs ih =>
    rw [sweepLoop]
    split
    · exact ih h _
    rename_i hskip
    split
    · exact ih h _
    refine ih (h.unlinked ?_ (no_rows (by omega))) _
    intro heq
    simp [heq] at hskip

theorem Sound.swept (h : Sound H s) : Sound H (sweepOrphanSealedPacks s).1 := h.sweptLoop _ 0

variable (H) in
/-- What a compaction leaves when it copied these payloads. -/
def compactedDisk (d : Disk) (src : Nat) (payloads : List Bytes) : Disk :=
  let copied := setCopied (allocate d d.nextPackId) d.nextPackId (frames H payloads)
  let sealed := sealDst H copied d.nextPackId (frames H payloads) (placements H 0 payloads)
  (swapIndex sealed src d.nextPackId (placements H 0 payloads)).unlinkPack src

variable {content : Bytes}

theorem compactPack_ok (h : Sound H s) {src : Nat} (hsrc : s.files.lookup src = some ⟨true, content⟩) :
    ∃ payloads, List.Forall₂ (PlacedIn H content) (collectLive s.toDisk src) payloads ∧
      compactPack H s.toDisk src = (compactedDisk H s.toDisk src payloads, .ok ()) ∧
      ∀ id, (compactedDisk H s.toDisk src payloads).files.lookup id =
        if id = src then none
        else if id = s.nextPackId then some ⟨true, frames H payloads ++ tail H payloads.length⟩
        else s.files.lookup id := by
  obtain ⟨ps, rest, hopen⟩ := h.writer
  have hne : src ≠ s.writer.packId := hopen.unique hsrc rfl
  have hfresh : src ≠ s.nextPackId := Nat.ne_of_lt (lt_nextPackId hsrc)
  have hlive : ∀ m ∈ collectLive s.toDisk src, ∃ payload, PlacedIn H content m payload := by
    intro m hm
    obtain ⟨row, hrow, hpack, -, hplace⟩ := mem_collectLive.mp hm
    obtain ⟨payload, ⟨content', hkept, hstored, hlen⟩, hhash⟩ := h.rows _ _ hrow
    rw [hpack, keptBytes_other hne, hsrc] at hkept
    cases hkept
    refine ⟨payload, ?_, hhash, ?_⟩
    · rw [hplace]
      exact hstored
    · rw [hplace]
      exact hlen.symm
  obtain ⟨payloads, hall, hcopy⟩ := copyFrames_stored src hlive [] []
  have hcopied : copyPack (allocate s.toDisk s.nextPackId) src
      (collectLive (allocate s.toDisk s.nextPackId) src) =
        (frames H payloads, .ok (placements H 0 payloads)) := by
    have hfile : (allocate s.toDisk s.nextPackId).files.lookup src = some ⟨true, content⟩ :=
      (AList.lookup_insert_ne hfresh).trans hsrc
    rw [copyPack, hfile]
    exact hcopy
  have hcount : (placements H 0 payloads).length = payloads.length := by
    rw [placements, length_map, ← length_map (f := Prod.snd), placed_map_snd]
  refine ⟨payloads, hall, ?_, ?_⟩
  · rw [compactPack]
    rw [hcopied]
    rfl
  · intro id
    rw [← hcount]
    refine (Table.lookup_erase_if _ id src).trans ?_
    by_cases hid : id = src
    · rw [if_pos hid, if_pos hid]
    rw [if_neg hid, if_neg hid]
    refine (Table.lookup_insert_if _ id s.nextPackId _).trans ?_
    by_cases hdst : id = s.nextPackId
    · rw [if_pos hdst, if_pos hdst]
    · rw [if_neg hdst, if_neg hdst]
      exact (AList.lookup_insert_ne hdst).trans (AList.lookup_insert_ne hdst)

theorem placed_collected {live : List Placed} {payloads : List Bytes}
    (h : List.Forall₂ (PlacedIn H content) live payloads) :
    ∀ p ∈ payloads, ∃ m ∈ live, PlacedIn H content m p := by
  induction h with
  | nil =>
    intro p hp
    cases hp
  | cons hm _ ih =>
    intro p hp
    rcases mem_cons.mp hp with rfl | hp
    · exact ⟨_, mem_cons_self .., hm⟩
    · obtain ⟨m, hmem, hplaced⟩ := ih p hp
      exact ⟨m, mem_cons_of_mem _ hmem, hplaced⟩

theorem Sound.compacted (h : Sound H s) {src : Nat} (hsrc : s.files.lookup src = some ⟨true, content⟩) :
    ∃ d', compactPack H s.toDisk src = (d', .ok ()) ∧ Sound H { s with toDisk := d' } := by
  obtain ⟨payloads, hall, hcompact, hfiles⟩ := compactPack_ok h hsrc
  obtain ⟨ps, rest, hopen⟩ := h.writer
  have hne : s.writer.packId ≠ src := Ne.symm (hopen.unique hsrc rfl)
  have hwriter : s.writer.packId ≠ s.nextPackId := Nat.ne_of_lt (lt_nextPackId hopen.file)
  have hdst : s.nextPackId ≠ src := Nat.ne_of_gt (lt_nextPackId hsrc)
  refine ⟨_, hcompact, ⟨ps, rest, hopen.bound, ?_, hopen.offset, hopen.cursor⟩, ?_, ?_⟩
  · refine (hfiles _).trans ?_
    rw [if_neg hne, if_neg hwriter]
    exact hopen.file
  · intro id file hfile hid
    have hlookup := (hfiles id).symm.trans hfile
    by_cases heq : id = src
    · rw [if_pos heq] at hlookup
      cases hlookup
    rw [if_neg heq] at hlookup
    by_cases hnew : id = s.nextPackId
    · rw [if_pos hnew] at hlookup
      cases hlookup
      rfl
    · rw [if_neg hnew] at hlookup
      exact h.others id file hlookup hid
  · intro hash row' hrow'
    have hswapped : (swapIndex s.toDisk src s.nextPackId (placements H 0 payloads)).blobs.lookup hash =
        some row' := hrow'
    obtain ⟨row, hrow, hflag, hlen, hsrcLive, hmoved⟩ := lookup_swapIndex hswapped
    rcases hmoved with ⟨rfl, hnone⟩ | ⟨m, hm, hhash, hpack, hoffset⟩
    · -- the row was not moved, so it is of another pack
      have hother : row'.packFileId ≠ src := by
        intro heq
        have hmem : (hash, row'.offset, row'.length) ∈ collectLive s.toDisk src :=
          mem_collectLive.mpr ⟨row', hrow, heq, hsrcLive heq, rfl⟩
        have hnamed : hash ∈ (placements H 0 payloads).map Prod.fst := by
          rw [placements_hashes, placed_hashes hall]
          exact mem_map_of_mem hmem
        obtain ⟨m, hm, hmhash⟩ := mem_map.mp hnamed
        exact hnone m hm hmhash
      obtain ⟨payload, ⟨content', hkept, hstored, hlen'⟩, hhash⟩ := h.rows hash row' hrow
      refine ⟨payload, ⟨content', ?_, hstored, hlen'⟩, hhash⟩
      rw [Store.keptBytes, Option.map_eq_some_iff] at hkept
      obtain ⟨file, hfile, hcontent⟩ := hkept
      have hold : row'.packFileId ≠ s.nextPackId := Nat.ne_of_lt (lt_nextPackId hfile)
      have hsame : (compactedDisk H s.toDisk src payloads).files.lookup row'.packFileId = some file := by
        rw [hfiles, if_neg hother, if_neg hold, hfile]
      rw [Store.keptBytes]
      rw [hsame, Option.map_some, hcontent]
    · obtain ⟨payload, hpayload, hplaced⟩ := placements_stored (H := H) (placed_bound hall) []
        (tail H payloads.length) m hm
      obtain ⟨hstored, hback, hlength⟩ := hplaced
      -- the moved blob was collected with its row's length
      obtain ⟨m', hm', hplaced'⟩ := placed_collected hall payload hpayload
      obtain ⟨row'', hrow'', -, -, hplace⟩ := mem_collectLive.mp hm'
      have hsamehash : m'.1 = hash := by rw [← hplaced'.2.1, hback, hhash]
      rw [hsamehash, hrow] at hrow''
      cases hrow''
      refine ⟨payload, ⟨frames H payloads ++ tail H payloads.length, ?_, ?_, ?_⟩, by rw [hback, hhash]⟩
      · have hnew : (compactedDisk H s.toDisk src payloads).files.lookup row'.packFileId =
            some ⟨true, frames H payloads ++ tail H payloads.length⟩ := by
          rw [hfiles, hpack, if_neg hdst, if_pos rfl]
        rw [Store.keptBytes]
        rw [hnew, Option.map_some, hpack, if_neg (Ne.symm hwriter)]
      · rw [hoffset]
        exact hstored
      · rw [hlen, hplaced'.2.2, hplace]

theorem Sound.sealed_of_rows (h : Sound H s) (hrows : packRows s.toDisk packId ≠ 0)
    (hne : packId ≠ s.writer.packId) : ∃ content, s.files.lookup packId = some ⟨true, content⟩ := by
  obtain ⟨hash, row, hrow, rfl⟩ := some_row hrows
  obtain ⟨payload, ⟨content, hkept, -, -⟩, -⟩ := h.rows hash row hrow
  rw [keptBytes_other hne, Option.map_eq_some_iff] at hkept
  obtain ⟨⟨isSealed, content⟩, hfile, -⟩ := hkept
  have hsealed : isSealed = true := h.others _ _ hfile hne
  rw [hsealed] at hfile
  exact ⟨content, hfile⟩

theorem Sound.gcLoop (dense : Nat → Nat → Bool) (packs : List (Nat × Bool)) (h : Sound H s)
    (hpacks : ∀ p ∈ packs, p.2 = true → p.1 ≠ s.writer.packId) (stats : GcStats) :
    Sound H { s with toDisk := (Pack.gcLoop H dense packs s.toDisk stats).1 } := by
  induction packs generalizing s stats with
  | nil => exact h
  | cons p packs ih =>
    obtain ⟨packId, isSealed⟩ := p
    have hrest : ∀ p ∈ packs, p.2 = true → p.1 ≠ s.writer.packId :=
      fun p hp => hpacks p (mem_cons_of_mem _ hp)
    rw [Pack.gcLoop]
    cases isSealed with
    | false => exact ih h hrest stats
    | true =>
      rw [if_neg (by decide)]
      dsimp only
      split
      · exact ih h hrest stats
      rename_i htotal
      split
      · exact ih h hrest stats
      have hne : packId ≠ s.writer.packId := hpacks _ (mem_cons_self ..) rfl
      obtain ⟨content, hfile⟩ := h.sealed_of_rows htotal hne
      obtain ⟨d', hcompact, hsound⟩ := h.compacted hfile
      rw [hcompact]
      exact ih hsound hrest _

theorem Sound.collected (h : Sound H s) (dense : Nat → Nat → Bool) :
    Sound H { s with toDisk := (runGc H dense s.toDisk).1 } := by
  refine h.gcLoop dense _ ?_ _
  rintro ⟨packId, isSealed⟩ hmem hsealed
  obtain ⟨payloads, rest, hopen⟩ := h.writer
  obtain ⟨file, hfile, hflag⟩ := mem_listPacks.mp hmem
  exact hopen.unique hfile (hflag.trans hsealed)

end Collect

/-! ## Runs -/

section Runs

/-- What a caller of the store does; each runs to its end before the next. -/
inductive Act where
  | put (faults : Faults) (bytes : Bytes)
  | tombstone (hash : BlobHash)
  | tombstoneAllLive
  | rotateOpenPack
  | gc (dense : Nat → Nat → Bool)
  | sweepOrphanSealedPacks
  | rebuildIndex
  | reopen (targetSize : Nat)

variable (H)

def act (s : Store) : Act → Except PackError Store
  | .put faults bytes => .ok (s.putWith H faults bytes).1
  | .tombstone hash => .ok (s.tombstone hash)
  | .tombstoneAllLive => .ok s.tombstoneAllLive.1
  | .rotateOpenPack => .ok (s.rotateOpenPack H)
  | .gc dense => .ok { s with toDisk := (runGc H dense s.toDisk).1 }
  | .sweepOrphanSealedPacks => .ok (sweepOrphanSealedPacks s).1
  | .rebuildIndex => .ok (runRebuildIndex H s).1
  | .reopen targetSize => .ok (openStore H s.toDisk targetSize)

def ActsInLine (s : Store) : Act → Prop
  | .put faults bytes => InLine H faults s bytes
  | _ => True

instance (s : Store) (a : Act) : Decidable (ActsInLine H s a) := by
  cases a with
  | put faults bytes => exact inferInstanceAs (Decidable (InLine H faults s bytes))
  | _ => exact isTrue trivial

def emptyDisk : Disk := ⟨∅, ∅, ∅⟩

variable {H}

theorem sound_empty (targetSize : Nat) : Sound H (openStore H emptyDisk targetSize) := by
  refine ⟨⟨[], [], fun p hp => absurd hp not_mem_nil, rfl, rfl, rfl⟩, ?_, ?_⟩
  · intro id file hfile hne
    have hlookup : (openStore H emptyDisk targetSize).files.lookup id = (emptyDisk).files.lookup id :=
      AList.lookup_insert_ne hne
    cases hlookup.symm.trans hfile
  · intro hash row hrow
    cases hrow

theorem Sound.act {s s' : Store} (h : Sound H s) {a : Act} (hline : ActsInLine H s a)
    (hact : act H s a = .ok s') : Sound H s' := by
  cases a with
  | put faults bytes =>
    cases hact
    exact (h.put hline).sound
  | tombstone hash =>
    cases hact
    exact h.tombstoned hash
  | tombstoneAllLive =>
    cases hact
    exact h.tombstonedAll
  | rotateOpenPack =>
    cases hact
    rw [Store.rotateOpenPack]
    split
    · exact h
    · exact h.rotated
  | gc dense =>
    cases hact
    exact h.collected dense
  | sweepOrphanSealedPacks =>
    cases hact
    exact h.swept
  | rebuildIndex =>
    cases hact
    exact h.rebuilt
  | reopen targetSize =>
    cases hact
    exact h.reopened targetSize

/-- `blob` can be read in the store as it is and after a reopen. -/
def Survives (H : Hashes) (s : Store) (targetSize : Nat) (blob : Bytes) : Prop :=
  Retrievable H s.toDisk blob ∧ Retrievable H (openStore H s.toDisk targetSize).toDisk blob

/-- In a run whose puts are in line, a put that fails loses no blob. One that returns `Ok` loses none
and its own blob comes back, at once and after a reopen, exactly when it is in line too. -/
theorem put_harmless_iff (targetSize : Nat) {s : Store}
    (hrun : Lib.Reaches (act H) (ActsInLine H) (openStore H emptyDisk targetSize) s) (faults : Faults)
    (bytes : Bytes) :
    (∀ e, (s.putWith H faults bytes).2 = .error e → ∀ blob, NoCollision H blob →
      Retrievable H s.toDisk blob → Survives H (s.putWith H faults bytes).1 targetSize blob) ∧
    ∀ hash, (s.putWith H faults bytes).2 = .ok hash → NoCollision H bytes →
      ((Survives H (s.putWith H faults bytes).1 targetSize bytes ∧
        ∀ blob, NoCollision H blob → Retrievable H s.toDisk blob →
          Survives H (s.putWith H faults bytes).1 targetSize blob) ↔ InLine H faults s bytes) := by
  have hsound : Sound H s := hrun.invariant (sound_empty targetSize)
    fun u a v hu ha hv => hu.act ha hv
  have hkept : InLine H faults s bytes → ∀ blob, NoCollision H blob → Retrievable H s.toDisk blob →
      Survives H (s.putWith H faults bytes).1 targetSize blob := by
    intro hline blob hblob hget
    have hkeeps := hsound.put hline
    have hnow := hkeeps.retrievable hsound hget
    exact ⟨hnow, retrievable_reopened hkeeps.sound targetSize hblob hnow⟩
  constructor
  · intro e herror
    exact hkept (inLine_of_error herror)
  · intro hash hok hbytes
    constructor
    · rintro ⟨⟨hnow, -⟩, -⟩
      by_contra hline
      exact hsound.put_unfit hline hnow
    · intro hline
      have hnow := hsound.put_ok hline hbytes hok
      exact ⟨⟨hnow, retrievable_reopened (hsound.put hline).sound targetSize hbytes hnow⟩, hkept hline⟩

/-- Hashes that tell two blobs from each other and from all others. -/
def namedHashes : Hashes where
  blake3 bytes :=
    ⟨List.replicate 32 (if bytes = [7] then 1 else if bytes = [8, 9] then 2 else 0), by simp⟩
  xxh3 bytes := UInt64.ofNat bytes.length
  crc32 _ := 0

theorem noCollision_seven : NoCollision namedHashes [7] := by
  intro bytes h
  have hbyte := congrArg (fun hash : BlobHash => hash.bytes.head?) h
  by_contra hne
  by_cases hother : bytes = [8, 9]
  · rw [hother] at hbyte
    exact absurd hbyte (by decide)
  · simp [namedHashes, hne, hother] at hbyte

theorem noCollision_eight : NoCollision namedHashes [8, 9] := by
  intro bytes h
  have hbyte := congrArg (fun hash : BlobHash => hash.bytes.head?) h
  by_contra hne
  by_cases hother : bytes = [7]
  · rw [hother] at hbyte
    exact absurd hbyte (by decide)
  · simp [namedHashes, hne, hother] at hbyte

/-- The store after a put whose `INSERT` failed. -/
def unindexed : Store :=
  ((openStore namedHashes emptyDisk 100).putWith namedHashes ⟨false, none, some .insert⟩ [7]).1

/-- The same blob again: its frame already stands at the writer's offset. -/
theorem put_harmless_retried :
    Survives namedHashes (unindexed.putWith namedHashes noFaults [7]).1 100 [7] := by
  have hrun : Lib.Reaches (act namedHashes) (ActsInLine namedHashes)
      (openStore namedHashes emptyDisk 100) unindexed :=
    Lib.Reaches.tail (a := .put ⟨false, none, some .insert⟩ [7]) (.refl _)
      (fun _ _ hwrite => nomatch hwrite) rfl
  have hline : InLine namedHashes noFaults unindexed [7] := by decide +kernel
  have hok : (unindexed.putWith namedHashes noFaults [7]).2 = .ok (namedHashes.blake3 [7]) := by
    decide +kernel
  exact (((put_harmless_iff 100 hrun noFaults [7]).2 _ hok noCollision_seven).mpr hline).1

/-- A write fails after three bytes; the next blob is written behind them and indexed before them. -/
theorem failed_put_poisons : ∃ failed later : Store × Except PutError BlobHash,
      (openStore namedHashes emptyDisk 100).putWith namedHashes ⟨false, none, some (.part 3)⟩ [7] =
        failed ∧ failed.2 = .error .io ∧ failed.1.putWith namedHashes noFaults [8, 9] = later ∧
      later.2 = .ok (namedHashes.blake3 [8, 9]) ∧ NoCollision namedHashes [8, 9] ∧
      ¬ Retrievable namedHashes later.1.toDisk [8, 9] ∧
      ¬ Retrievable namedHashes (openStore namedHashes later.1.toDisk 100).toDisk [8, 9] :=
  ⟨_, _, rfl, rfl, rfl, by decide +kernel, noCollision_eight, by decide +kernel, by decide +kernel⟩

end Runs

/-! ## Live blobs -/

section Live

variable {s t : Store} {d : Disk} {hash : BlobHash} {blob : Bytes}

def Live (d : Disk) (hash : BlobHash) : Prop :=
  ∃ row, d.blobs.lookup hash = some row ∧ row.tombstoned = false

theorem Sound.get_cases (h : Sound H s) (hash : BlobHash) : get H s.toDisk hash = .ok none ∨
    ∃ bytes, get H s.toDisk hash = .ok (some bytes) ∧ H.blake3 bytes = hash := by
  cases hrow : s.blobs.lookup hash with
  | none => exact .inl (get_missing hrow)
  | some row =>
    cases hdead : row.tombstoned with
    | true => exact .inl (get_tombstoned hrow hdead)
    | false =>
      obtain ⟨payload, hkept, rfl⟩ := h.rows hash row hrow
      exact .inr ⟨payload, get_stored hrow hdead hkept.stored, rfl⟩

theorem retrievable_iff_live (h : Sound H s) (hblob : NoCollision H blob) :
    Retrievable H s.toDisk blob ↔ Live s.toDisk (H.blake3 blob) := by
  rw [retrievable_iff h]
  refine exists_congr fun row => and_congr_right fun hrow => and_iff_left_of_imp fun _ => ?_
  obtain ⟨payload, hkept, hhash⟩ := h.rows _ row hrow
  rwa [hblob payload hhash] at hkept

/-- A compaction drops dead rows only. -/
theorem Live.compacted (h : Live d hash) (src : Nat) : Live (compactPack H d src).1 hash := by
  obtain ⟨row, hrow, hlive⟩ := h
  rw [compactPack]
  dsimp only
  split
  · exact ⟨row, hrow, hlive⟩
  next content moved _ =>
  simp only [Live, swapIndex, Disk.unlinkPack, Table.lookup_restrict]
  rcases lookup_moveRows d.nextPackId moved d.blobs hash with ⟨-, heq⟩ | ⟨m, -, -, heq⟩
  · exact ⟨row, by simp [sealDst, setCopied, allocate, heq, hrow, hlive], hlive⟩
  · exact ⟨{ row with packFileId := d.nextPackId, offset := m.2.1 },
      by simp [sealDst, setCopied, allocate, heq, hrow, hlive], hlive⟩

theorem Live.gcLoop (h : Live d hash) (dense : Nat → Nat → Bool) (packs : List (Nat × Bool)) (stats : GcStats) :
    Live (Pack.gcLoop H dense packs d stats).1 hash := by
  induction packs generalizing d stats with
  | nil => exact h
  | cons p packs ih =>
    have hnext := h.compacted (H := H) p.1
    rw [Pack.gcLoop]
    split
    · exact ih h _
    dsimp only
    split
    · exact ih h _
    split
    · exact ih h _
    split
    · next heq =>
      rw [heq] at hnext
      exact hnext
    · next heq =>
      rw [heq] at hnext
      exact ih hnext _

theorem blobs_sweepLoop (packs : List (Nat × Bool)) (s : Store) (unlinked : Nat) :
    (sweepLoop packs s unlinked).1.blobs = s.blobs := by
  induction packs generalizing s unlinked with
  | nil => rfl
  | cons p packs ih =>
    rw [sweepLoop]
    split
    · exact ih ..
    split <;> exact ih ..

theorem Live.tombstoned (h : Live s.toDisk hash) {other : BlobHash} (hne : hash ≠ other) :
    Live (s.tombstone other).toDisk hash := by
  obtain ⟨row, hrow, hlive⟩ := h
  rw [Store.tombstone]
  split
  · exact ⟨row, hrow, hlive⟩
  split
  · exact ⟨row, hrow, hlive⟩
  · refine ⟨row, ?_, hlive⟩
    exact (lookup_setTombstone _ other hash).trans (by simp [Disk.appendTombstoneLogRecord, hrow, hne])

/-- The step neither tombstones the hash nor reads the index anew from the packs. -/
def Spares (hash : BlobHash) : Act → Prop
  | .tombstone other => hash ≠ other
  | .tombstoneAllLive | .rebuildIndex => False
  | _ => True

theorem Live.act (h : Live s.toDisk (H.blake3 blob)) (hsound : Sound H s) (hblob : NoCollision H blob) {a : Act}
    (hline : ActsInLine H s a) (hspares : Spares (H.blake3 blob) a) (hact : act H s a = .ok t) :
    Live t.toDisk (H.blake3 blob) := by
  cases a with
  | put faults bytes =>
    cases hact
    obtain ⟨row, hrow, hlive⟩ := h
    exact ⟨row, (hsound.put hline).rows _ row hrow hlive, hlive⟩
  | tombstone other =>
    cases hact
    exact h.tombstoned hspares
  | tombstoneAllLive | rebuildIndex => exact absurd hspares id
  | rotateOpenPack =>
    cases hact
    rw [Store.rotateOpenPack]
    split <;> exact h
  | gc dense =>
    cases hact
    exact h.gcLoop dense _ _
  | sweepOrphanSealedPacks =>
    cases hact
    rwa [Live, sweepOrphanSealedPacks, blobs_sweepLoop]
  | reopen targetSize =>
    cases hact
    have hget := retrievable_reopened hsound targetSize hblob ((retrievable_iff_live hsound hblob).mpr h)
    exact (retrievable_iff_live (hsound.reopened targetSize) hblob).mp hget

/-- In a run whose puts are in line `get` gives what the hash names or nothing, and a blob that it gives is
given back until its hash is tombstoned or the index is rebuilt. -/
theorem live_blobs_kept (targetSize : Nat)
    (hrun : Lib.Reaches (act H) (ActsInLine H) (openStore H emptyDisk targetSize) s) :
    (∀ hash, get H s.toDisk hash = .ok none ∨
      ∃ bytes, get H s.toDisk hash = .ok (some bytes) ∧ H.blake3 bytes = hash) ∧
    ∀ blob t, NoCollision H blob → Retrievable H s.toDisk blob →
      Lib.Reaches (act H) (fun u a => ActsInLine H u a ∧ Spares (H.blake3 blob) a) s t →
        Retrievable H t.toDisk blob := by
  have hsound : Sound H s := hrun.invariant (sound_empty targetSize) fun u a v hu ha hv => hu.act ha hv
  refine ⟨hsound.get_cases, fun blob t hblob hget hlater => ?_⟩
  have hboth := hlater.invariant (I := fun u => Sound H u ∧ Live u.toDisk (H.blake3 blob))
    ⟨hsound, (retrievable_iff_live hsound hblob).mp hget⟩
    fun u a v hu ha hv => ⟨hu.1.act ha.1 hv, hu.2.act hu.1 hblob ha.1 ha.2 hv⟩
  exact (retrievable_iff_live hboth.1 hblob).mpr hboth.2

theorem live_blobs_kept_collected : Retrievable namedHashes
    (runGc namedHashes (fun _ _ => true) (unindexed.putWith namedHashes noFaults [7]).1.toDisk).1 [7] := by
  have hrun : Lib.Reaches (act namedHashes) (ActsInLine namedHashes) (openStore namedHashes emptyDisk 100)
      (unindexed.putWith namedHashes noFaults [7]).1 :=
    .tail (a := .put noFaults [7])
      (.tail (a := .put ⟨false, none, some .insert⟩ [7]) (.refl _) (by decide +kernel) rfl)
      (by decide +kernel) rfl
  exact (live_blobs_kept 100 hrun).2 [7] _ noCollision_seven (by decide +kernel)
    (.tail (a := .gc fun _ _ => true) (.refl _) ⟨trivial, trivial⟩ rfl)

end Live

end Ratatoskr.Pack

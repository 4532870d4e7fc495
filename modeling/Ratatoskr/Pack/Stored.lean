import Ratatoskr.Pack.Store

/-!
# Pack.Stored

What the sections of the store do, row by row and file by file. `StoredAt` says that the frame of a
payload stands at an offset of a file: it is what a row of the index promises, appending to the file
keeps it, `get` reads the payload back from it and the copy of a compaction carries it over.

* `readFrame_stored`, `get_stored` : a row that keeps its promise is read back.
* `copyFrames_stored` : the copy of stored frames succeeds and stores them again.
* `lookup_swapIndex` : the rows after the swap of a compaction.
-/

namespace Ratatoskr.Pack

open List
open Lib (Table)

variable {H : Hashes}
variable {content payload : Bytes} {offset : Nat} {d : Disk} {row : BlobRow} {hash : BlobHash}
  {live : List Placed} {payloads : List Bytes}

/-- The frame of `payload` stands at `offset`. -/
def StoredAt (H : Hashes) (content : Bytes) (offset : Nat) (payload : Bytes) : Prop :=
  payload.length ≤ maxFramePayload ∧ frame H payload <+: content.drop offset

theorem StoredAt.append (h : StoredAt H content offset payload) (more : Bytes) :
    StoredAt H (content ++ more) offset payload := by
  refine ⟨h.1, h.2.trans ?_⟩
  rw [drop_append]
  exact prefix_append ..

theorem StoredAt.last (h : payload.length ≤ maxFramePayload) (content more : Bytes) :
    StoredAt H (content ++ (frame H payload ++ more)) content.length payload := by
  refine ⟨h, ?_⟩
  rw [drop_left]
  exact prefix_append ..

theorem StoredAt.split (h : StoredAt H content offset payload) :
    ∃ more, content.drop offset = header H payload ++ (payload ++ more) := by
  obtain ⟨more, hmore⟩ := h.2
  exact ⟨more, by rw [← hmore, frame, append_assoc]⟩

theorem readFrame_stored {packId : Nat} (h : StoredAt H content offset payload) :
    readFrame H packId content offset payload.length = .ok payload := by
  obtain ⟨more, hmore⟩ := h.split
  obtain ⟨hmagic, hlen, hsum, hdrop⟩ := header_fields (H := H) payload (payload ++ more)
  have htotal : (header H payload ++ (payload ++ more)).length =
      frameHeaderLen + (payload.length + more.length) := by
    rw [length_append, length_header, length_append]
  rw [readFrame, hmore, hmagic, hlen, hsum, hdrop, length_field h.1, checksum_field]
  simp only [ne_eq, not_true_eq_false, if_false, take_left']
  rw [if_neg (by omega), if_neg (by omega)]

def RowStored (H : Hashes) (d : Disk) (row : BlobRow) (payload : Bytes) : Prop :=
  ∃ file, d.files.lookup row.packFileId = some file ∧ StoredAt H file.content row.offset payload ∧
    row.length = payload.length

theorem readPayload_stored (h : RowStored H d row payload) :
    readFramePayload H d row.packFileId row.offset row.length = .ok payload := by
  obtain ⟨file, hfile, hstored, hlen⟩ := h
  rw [readFramePayload, hfile, hlen]
  exact readFrame_stored hstored

theorem getRead_stored {attempt : Nat} {last : Option (Nat × Nat)} (h : RowStored H d row payload) :
    getRead H d (H.blake3 payload) attempt last row = .done (.ok (some payload)) := by
  rw [getRead, readPayload_stored h]
  simp

theorem get_stored (hrow : d.blobs.lookup (H.blake3 payload) = some row)
    (hlive : row.tombstoned = false) (h : RowStored H d row payload) :
    get H d (H.blake3 payload) = .ok (some payload) := by
  rw [get, maxGetGcRetries, getFrom, hrow]
  simp only [hlive, Bool.false_eq_true, if_false]
  rw [getRead_stored h]

theorem get_missing (hrow : d.blobs.lookup hash = none) : get H d hash = .ok none := by
  rw [get, maxGetGcRetries, getFrom, hrow]

theorem get_tombstoned (hrow : d.blobs.lookup hash = some row) (hdead : row.tombstoned = true) :
    get H d hash = .ok none := by
  rw [get, maxGetGcRetries, getFrom, hrow]
  simp [hdead]

/-- The frame of `payload` stands where the list says. -/
def PlacedIn (H : Hashes) (content : Bytes) (m : Placed) (payload : Bytes) : Prop :=
  StoredAt H content m.2.1 payload ∧ H.blake3 payload = m.1 ∧ payload.length = m.2.2

variable (H) in
/-- Where these payloads stand when they are written from `offset` on. -/
def placements (offset : Nat) (payloads : List Bytes) : List Placed :=
  (placed offset payloads).map (fun f => (H.blake3 f.2, f.1, f.2.length))

theorem copyFrames_stored (srcPackId : Nat)
    (h : ∀ m ∈ live, ∃ payload, PlacedIn H content m payload) (out : Bytes) (moved : List Placed) :
    ∃ payloads : List Bytes, List.Forall₂ (PlacedIn H content) live payloads ∧
      copyFrames srcPackId content live out moved =
        (out ++ frames H payloads, .ok (moved ++ placements H out.length payloads)) := by
  induction live generalizing out moved with
  | nil =>
    refine ⟨[], .nil, ?_⟩
    rw [copyFrames, placements, placed, frames, flatMap_nil, map_nil, append_nil, append_nil]
  | cons m live ih =>
    obtain ⟨hash, srcOffset, length⟩ := m
    obtain ⟨payload, hplaced⟩ := h _ (mem_cons_self ..)
    obtain ⟨hstored, hhash, hlen⟩ := hplaced
    obtain ⟨more, hmore⟩ := hstored.split
    obtain ⟨payloads, hall, hcopy⟩ := ih (fun m hm => h m (mem_cons_of_mem _ hm))
      (out ++ frame H payload) (moved ++ [(hash, out.length, length)])
    refine ⟨payload :: payloads, .cons ⟨hstored, hhash, hlen⟩ hall, ?_⟩
    have hlen' : length = payload.length := hlen.symm
    have htotal : (header H payload ++ (payload ++ more)).length =
        frameHeaderLen + (payload.length + more.length) := by
      rw [length_append, length_header, length_append]
    have htake : (header H payload ++ (payload ++ more)).take (frameHeaderLen + length) =
        frame H payload := by
      rw [← append_assoc]
      refine take_left' ?_
      rw [length_append, length_header, hlen']
    rw [copyFrames, hmore, (header_fields payload (payload ++ more)).1, htake]
    simp only [ne_eq, not_true_eq_false, if_false]
    rw [if_neg (by omega), if_neg (by omega), hcopy]
    have hmoved : placements H out.length (payload :: payloads) =
        (hash, out.length, length) :: placements H (out ++ frame H payload).length payloads := by
      rw [placements, placements, placed, map_cons, length_append, length_frame, hhash, hlen']
    rw [hmoved, frames_cons, append_assoc, append_assoc, singleton_append]

theorem placed_bound (h : List.Forall₂ (PlacedIn H content) live payloads) :
    ∀ p ∈ payloads, p.length ≤ maxFramePayload := by
  induction h with
  | nil =>
    intro p hp
    cases hp
  | cons hm _ ih =>
    intro p hp
    rcases mem_cons.mp hp with rfl | hp
    · exact hm.1.1
    · exact ih p hp

theorem placed_hashes (h : List.Forall₂ (PlacedIn H content) live payloads) :
    payloads.map H.blake3 = live.map Prod.fst := by
  induction h with
  | nil => rfl
  | cons hm _ ih => rw [map_cons, map_cons, ih, hm.2.1]

theorem placements_stored (h : ∀ p ∈ payloads, p.length ≤ maxFramePayload) (before more : Bytes) :
    ∀ m ∈ placements H before.length payloads,
      ∃ p ∈ payloads, PlacedIn H (before ++ frames H payloads ++ more) m p := by
  induction payloads generalizing before with
  | nil =>
    intro m hm
    cases hm
  | cons p ps ih =>
    intro m hm
    rcases mem_cons.mp hm with rfl | hm
    · refine ⟨p, mem_cons_self .., ?_, rfl, rfl⟩
      have hlast := StoredAt.last (H := H) (h p (mem_cons_self ..)) before (frames H ps ++ more)
      rwa [frames_cons, append_assoc, append_assoc]
    · obtain ⟨q, hq, hrest⟩ := ih (fun q hq => h q (mem_cons_of_mem _ hq))
        (before ++ frame H p) m (by
          rw [length_append, length_frame]
          exact hm)
      refine ⟨q, mem_cons_of_mem _ hq, ?_⟩
      rwa [frames_cons, ← append_assoc]

theorem placements_hashes (payloads : List Bytes) (offset : Nat) :
    (placements H offset payloads).map Prod.fst = payloads.map H.blake3 := by
  rw [placements, map_map]
  conv_rhs => rw [← placed_map_snd payloads offset]
  rw [map_map]
  rfl

/-! ## Files and ids -/

theorem mem_listPacks {id : Nat} {b : Bool} :
    (id, b) ∈ d.listPacks ↔ ∃ file, d.files.lookup id = some file ∧ file.isSealed = b := by
  rw [Disk.listPacks, mem_insertionSort, mem_map]
  constructor
  · rintro ⟨⟨id', file⟩, hmem, heq⟩
    cases heq
    exact ⟨file, Table.mem_rows.mp hmem, rfl⟩
  · rintro ⟨file, hfile, rfl⟩
    exact ⟨(id, file), Table.mem_rows.mpr hfile, rfl⟩

theorem listPacks_nodup (d : Disk) : (d.listPacks.map Prod.fst).Nodup := by
  have hperm : (d.listPacks.map Prod.fst).Perm (d.files.rows.map Prod.fst) := by
    refine ((perm_insertionSort _ _).map Prod.fst).trans ?_
    rw [map_map]
    exact List.Perm.refl _
  exact hperm.nodup_iff.mpr (Table.rows_keys_nodup d.files)

theorem lt_nextPackId {id : Nat} {file : PackFile} (h : d.files.lookup id = some file) :
    id < d.nextPackId := by
  have hmem : id ∈ d.listPacks.map Prod.fst :=
    mem_map.mpr ⟨(id, file.isSealed), mem_listPacks.mpr ⟨file, h, rfl⟩, rfl⟩
  rw [Disk.nextPackId]
  cases hmax : (d.listPacks.map Prod.fst).max? with
  | none =>
    rw [max?_eq_none_iff.mp hmax] at hmem
    cases hmem
  | some m =>
    have hle := (max?_eq_some_iff.mp hmax).2 id hmem
    exact Nat.lt_succ_of_le hle

theorem nextPackId_fresh (d : Disk) : d.files.lookup d.nextPackId = none := by
  cases h : d.files.lookup d.nextPackId with
  | none => rfl
  | some file => exact absurd (lt_nextPackId h) (Nat.lt_irrefl _)

@[simp] theorem lookup_clearTombstone (d : Disk) (hash h : BlobHash) :
    (d.clearTombstone hash).blobs.lookup h =
      (d.blobs.lookup h).map (fun row => if h = hash then { row with tombstoned := false } else row) :=
  Table.lookup_update ..

@[simp] theorem lookup_setTombstone (d : Disk) (hash h : BlobHash) : (d.setTombstone hash).blobs.lookup h =
      (d.blobs.lookup h).map (fun row => if h = hash then { row with tombstoned := true } else row) :=
  Table.lookup_update ..

@[simp] theorem lookup_setAllTombstones (d : Disk) (h : BlobHash) : d.setAllTombstones.blobs.lookup h =
      (d.blobs.lookup h).map (fun row => { row with tombstoned := true }) :=
  Table.lookup_update ..

theorem mem_collectLive {srcPackId : Nat} {m : Placed} :
    m ∈ collectLive d srcPackId ↔ ∃ row, d.blobs.lookup m.1 = some row ∧ row.packFileId = srcPackId ∧
      row.tombstoned = false ∧ m.2 = (row.offset, row.length) := by
  rw [collectLive, mem_map]
  constructor
  · rintro ⟨⟨hash, row⟩, hmem, rfl⟩
    obtain ⟨hrow, hcond⟩ := mem_filter.mp hmem
    simp only [decide_eq_true_eq] at hcond
    exact ⟨row, Table.mem_rows.mp hrow, hcond.1, hcond.2, rfl⟩
  · rintro ⟨row, hrow, hsrc, hlive, hplace⟩
    refine ⟨(m.1, row), mem_filter.mpr ⟨Table.mem_rows.mpr hrow, ?_⟩, ?_⟩
    · simp [hsrc, hlive]
    · exact Prod.ext rfl hplace.symm

/-- A row that no moved blob names stays; a row that one names points at the destination. -/
theorem lookup_moveRows (dstPackId : Nat) (moved : List Placed) (blobs : Table BlobHash BlobRow)
    (h : BlobHash) :
    ((∀ m ∈ moved, m.1 ≠ h) ∧
      (moved.foldl (fun blobs m => moveRow blobs dstPackId m) blobs).lookup h = blobs.lookup h) ∨
    ∃ m ∈ moved, m.1 = h ∧ (moved.foldl (fun blobs m => moveRow blobs dstPackId m) blobs).lookup h =
        (blobs.lookup h).map (fun row => { row with packFileId := dstPackId, offset := m.2.1 }) := by
  induction moved generalizing blobs with
  | nil => exact .inl ⟨fun _ hm => absurd hm not_mem_nil, rfl⟩
  | cons m moved ih =>
    have hfirst : (moveRow blobs dstPackId m).lookup h = (blobs.lookup h).map (fun row =>
        if h = m.1 then { row with packFileId := dstPackId, offset := m.2.1 } else row) :=
      Table.lookup_update ..
    rw [foldl_cons]
    rcases ih (moveRow blobs dstPackId m) with ⟨hnone, hrest⟩ | ⟨m', hm', hh, hrest⟩
    · by_cases hm : h = m.1
      · refine .inr ⟨m, mem_cons_self .., hm.symm, ?_⟩
        rw [hrest, hfirst]
        simp [if_pos hm]
      · refine .inl ⟨?_, ?_⟩
        · intro m' hm'
          rcases mem_cons.mp hm' with rfl | hm'
          · exact fun heq => hm heq.symm
          · exact hnone m' hm'
        · rw [hrest, hfirst]
          simp [if_neg hm]
    · refine .inr ⟨m', mem_cons_of_mem _ hm', hh, ?_⟩
      rw [hrest, hfirst, Option.map_map]
      refine congrArg (fun f => (blobs.lookup h).map f) (funext fun row => ?_)
      split <;> rfl

theorem lookup_swapIndex {srcPackId dstPackId : Nat} {moved : List Placed} {h : BlobHash}
    {row' : BlobRow} (hrow : (swapIndex d srcPackId dstPackId moved).blobs.lookup h = some row') :
    ∃ row, d.blobs.lookup h = some row ∧ row'.tombstoned = row.tombstoned ∧
      row'.length = row.length ∧ (row'.packFileId = srcPackId → row'.tombstoned = false) ∧
      ((row' = row ∧ ∀ m ∈ moved, m.1 ≠ h) ∨
        ∃ m ∈ moved, m.1 = h ∧ row'.packFileId = dstPackId ∧ row'.offset = m.2.1) := by
  rw [swapIndex, Table.lookup_restrict, Option.filter_eq_some_iff] at hrow
  obtain ⟨hmoved, hkeep⟩ := hrow
  have hdead : row'.packFileId = srcPackId → row'.tombstoned = false := by
    intro hsrc
    simpa [hsrc] using hkeep
  rcases lookup_moveRows dstPackId moved d.blobs h with ⟨hnone, heq⟩ | ⟨m, hm, hh, heq⟩
  · rw [heq] at hmoved
    exact ⟨row', hmoved, rfl, rfl, hdead, .inl ⟨rfl, hnone⟩⟩
  · rw [heq, Option.map_eq_some_iff] at hmoved
    obtain ⟨row, hrow, rfl⟩ := hmoved
    exact ⟨row, hrow, rfl, rfl, hdead, .inr ⟨m, hm, hh, rfl, rfl⟩⟩

end Ratatoskr.Pack

import Ratatoskr.Pack.Stored

/-!
# Pack.Recovery

`recover_open_pack` loop pass by loop pass (`stores/src/attachment_pack.rs`): the arithmetic on the
file's length, the reads, the truncations and the row of each whole frame. The length field of a
frame is read before the checksum can reject it.

* `frameAt_iff` : what the loop accepts is what `put` writes.
* `recoverLoop_frames` : the loop over frames and something that is none.
* `recoverFile_eq` : it does what `recoverOpenPack` of the store says, on every file.
* `recoverFile_whole` : frames that were cut anywhere, or have anything else behind them.
-/

namespace Ratatoskr.Pack

open List
open Lib (Table)

/-- `u64::MAX`; a file is no longer. -/
def u64Max : Nat := 2 ^ 64 - 1

def saturatingAdd (a b : Nat) : Nat := min (a + b) u64Max

def setLen (content : Bytes) (len : Nat) : Bytes :=
  content.take len ++ List.replicate (len - content.length) 0

/-- `seek(SeekFrom::Start(offset))`, then `read_exact` of `n` bytes. -/
def readExact (content : Bytes) (offset n : Nat) : Except PackError Bytes :=
  let rest := content.drop offset
  if rest.length < n then .error (.io .unexpectedEof) else .ok (rest.take n)

section Loop

variable (H : Hashes)

/-- What a run of the loop leaves: the file, the rows and the result. -/
abbrev Recovered := (Bytes × Table BlobHash BlobRow) × Except PackError Unit

/-- `None` is a loop that is still running. A `u32` plus the header fits a `u64`, so only the last
sum saturates. -/
def recoverLoop (packId fileLen : Nat) : Nat → Nat → Bytes → Table BlobHash BlobRow → Option Recovered
  | 0, _, _, _ => none
  | fuel + 1, offset, content, blobs =>
    let remaining := fileLen - offset
    if remaining = 0 then some ((content, blobs), .ok ())
    else if remaining < frameHeaderLen then some ((setLen content offset, blobs), .ok ())
    else
      match readExact content offset frameHeaderLen with
      | .error e => some ((content, blobs), .error e)
      | .ok header =>
        if header.take 4 ≠ frameMagic then some ((setLen content offset, blobs), .ok ())
        else
          let length := readLe ((header.drop 4).take 4)
          let checksum := readLe ((header.drop 8).take 8)
          let frameTotal := frameHeaderLen + length
          if remaining < frameTotal then some ((setLen content offset, blobs), .ok ())
          else
            match readExact content (offset + frameHeaderLen) length with
            | .error e => some ((content, blobs), .error e)
            | .ok payload =>
              if (H.xxh3 payload).toNat ≠ checksum then some ((setLen content offset, blobs), .ok ())
              else
                recoverLoop packId fileLen fuel (saturatingAdd offset frameTotal) content
                  (indexFrame H packId blobs (offset, payload))

/-- `recover_open_pack`, with its loop cut off after `fuel` passes. -/
def recoverFile (fuel : Nat) (d : Disk) (packId : Nat) : Option (Disk × Except PackError Unit) :=
  match d.files.lookup packId with
  | some ⟨false, content⟩ =>
    (recoverLoop H packId content.length fuel 0 content d.blobs).map fun r =>
      ({ d with files := d.files.insert packId ⟨false, r.1.1⟩, blobs := r.1.2 }, r.2)
  | _ => some (d, .error (.io .notFound))

end Loop

section Accepted

variable {H : Hashes}

theorem readLe_lt (bs : Bytes) : readLe bs < 256 ^ bs.length := by
  induction bs with
  | nil => exact Nat.one_pos
  | cons b bs ih =>
    have hb : b.toNat < 256 := b.toNat_lt
    rw [readLe, length_cons]
    omega

theorem toLe_readLe (bs : Bytes) : toLe bs.length (readLe bs) = bs := by
  induction bs with
  | nil => rfl
  | cons b bs ih =>
    have hb : b.toNat < 256 := b.toNat_lt
    have hhead : UInt8.ofNat (b.toNat + 256 * readLe bs) = b := by
      refine UInt8.toNat_inj.mp ?_
      rw [UInt8.toNat_ofNat']
      omega
    have hrest : (b.toNat + 256 * readLe bs) / 256 = readLe bs := by omega
    rw [length_cons, toLe, readLe, hhead, hrest, ih]

theorem frameAt_iff {rest payload : Bytes} : frameAt H rest = some payload ↔
      payload.length ≤ maxFramePayload ∧ ∃ more, rest = frame H payload ++ more := by
  constructor
  · intro h
    rw [frameAt] at h
    split at h
    · cases h
    rename_i hheader
    split at h
    · cases h
    rename_i hmagic
    dsimp only at h
    split at h
    · cases h
    rename_i hpayload
    split at h
    · cases h
    rename_i hsum
    rw [Decidable.not_not] at hmagic hsum
    rw [frameHeaderLen] at hheader hpayload
    have hlen : payload.length = readLe ((rest.drop 4).take 4) := by
      rw [← Option.some.inj h, length_take, length_drop, frameHeaderLen]
      omega
    have hfour : ((rest.drop 4).take 4).length = 4 := by
      rw [length_take, length_drop]
      omega
    have height : ((rest.drop 8).take 8).length = 8 := by
      rw [length_take, length_drop]
      omega
    have hlength : toLe 4 payload.length = (rest.drop 4).take 4 := by
      have hback := toLe_readLe ((rest.drop 4).take 4)
      rwa [hfour, ← hlen] at hback
    have hchecksum : toLe 8 (H.xxh3 payload).toNat = (rest.drop 8).take 8 := by
      have hback := toLe_readLe ((rest.drop 8).take 8)
      rwa [height, hsum, Option.some.inj h] at hback
    refine ⟨?_, (rest.drop 16).drop payload.length, ?_⟩
    · have hlt := readLe_lt ((rest.drop 4).take 4)
      rw [hfour] at hlt
      rw [maxFramePayload]
      omega
    · have hpay : payload = (rest.drop 16).take payload.length := by
        rw [hlen]
        exact (Option.some.inj h).symm
      have hsplit : rest = rest.take 4 ++ ((rest.drop 4).take 4 ++
          ((rest.drop 8).take 8 ++ rest.drop 16)) := by
        rw [show rest.drop 16 = (rest.drop 8).drop 8 by rw [drop_drop],
          take_append_drop, show rest.drop 8 = (rest.drop 4).drop 4 by rw [drop_drop],
          take_append_drop, take_append_drop]
      rw [frame, header, hlength, hchecksum, ← hmagic]
      conv_lhs => rw [hsplit, ← take_append_drop payload.length (rest.drop 16), ← hpay]
      simp
  · rintro ⟨hbound, more, rfl⟩
    exact frameAt_frame hbound more

theorem frameAt_tail (count : Nat) : frameAt H (tail H count) = none :=
  frameAt_short (by rw [length_tail]; decide)

theorem exists_frames (content : Bytes) : ∃ payloads rest, content = frames H payloads ++ rest ∧
      (∀ p ∈ payloads, p.length ≤ maxFramePayload) ∧ frameAt H rest = none := by
  induction hn : content.length using Nat.strong_induction_on generalizing content with
  | _ n ih =>
    cases hframe : frameAt H content with
    | none =>
      exact ⟨[], content, rfl, fun p hp => absurd hp not_mem_nil, hframe⟩
    | some p =>
      obtain ⟨hbound, more, rfl⟩ := frameAt_iff.mp hframe
      have hshorter : more.length < n := by
        rw [← hn, length_append, length_frame, frameHeaderLen]
        omega
      obtain ⟨payloads, rest, hmore, hall, hrest⟩ := ih more.length hshorter more rfl
      refine ⟨p :: payloads, rest, ?_, ?_, hrest⟩
      · rw [frames_cons, append_assoc, ← hmore]
      · intro q hq
        rcases mem_cons.mp hq with rfl | hq
        · exact hbound
        · exact hall q hq

end Accepted

/-! ## The run of the loop -/

section Run

variable {H : Hashes} {packId : Nat}

theorem setLen_append (before rest : Bytes) : setLen (before ++ rest) before.length = before := by
  have hzero : before.length - (before ++ rest).length = 0 := by
    rw [length_append]
    omega
  rw [setLen, take_left, hzero, replicate_zero, append_nil]

theorem readExact_append (before rest : Bytes) {offset n : Nat} (hoffset : before.length ≤ offset)
    (hn : offset - before.length + n ≤ rest.length) :
    readExact (before ++ rest) offset n = .ok ((rest.drop (offset - before.length)).take n) := by
  have hdrop : (before ++ rest).drop offset = rest.drop (offset - before.length) := by
    rw [drop_append, drop_of_length_le hoffset, nil_append]
  rw [readExact, hdrop]
  refine if_neg ?_
  rw [length_drop]
  omega

/-- At something that is no frame the file is cut off there and the loop ends. -/
theorem recoverLoop_stop {before rest : Bytes} (h : frameAt H rest = none) (fuel : Nat)
    (blobs : Table BlobHash BlobRow) :
    recoverLoop H packId (before ++ rest).length (fuel + 1) before.length (before ++ rest) blobs =
      some ((before, blobs), .ok ()) := by
  have hremaining : (before ++ rest).length - before.length = rest.length := by
    rw [length_append, Nat.add_sub_cancel_left]
  rw [recoverLoop, hremaining, setLen_append]
  by_cases hempty : rest.length = 0
  · rw [length_eq_zero_iff.mp hempty, append_nil]
    exact if_pos rfl
  rw [if_neg hempty]
  by_cases hshort : rest.length < frameHeaderLen
  · exact if_pos hshort
  rw [if_neg hshort, readExact_append before rest (Nat.le_refl _) (by omega), Nat.sub_self,
    drop_zero]
  rw [frameAt, if_neg hshort] at h
  have hmagic : (rest.take frameHeaderLen).take 4 = rest.take 4 := by
    rw [take_take]
    rfl
  have hlength : ((rest.take frameHeaderLen).drop 4).take 4 = (rest.drop 4).take 4 := by
    rw [drop_take, take_take]
    rfl
  have hsum : ((rest.take frameHeaderLen).drop 8).take 8 = (rest.drop 8).take 8 := by
    rw [drop_take, take_take]
    rfl
  dsimp only
  rw [hmagic, hlength, hsum]
  split at h
  · rename_i hne
    exact if_pos hne
  rename_i heq
  rw [if_neg heq]
  dsimp only at h
  split at h
  · rename_i htorn
    exact if_pos htorn
  rename_i hwhole
  rw [if_neg hwhole, readExact_append before rest (Nat.le_add_right ..) (by omega),
    Nat.add_sub_cancel_left]
  split at h
  · rename_i hbad
    exact if_pos hbad.symm
  · cases h

theorem recoverLoop_frame {before payload more : Bytes} (hp : payload.length ≤ maxFramePayload)
    (hlen : (before ++ (frame H payload ++ more)).length ≤ u64Max) (fuel : Nat)
    (blobs : Table BlobHash BlobRow) :
    recoverLoop H packId (before ++ (frame H payload ++ more)).length (fuel + 1) before.length
        (before ++ (frame H payload ++ more)) blobs =
      recoverLoop H packId (before ++ (frame H payload ++ more)).length fuel
        (before ++ frame H payload).length (before ++ (frame H payload ++ more))
        (indexFrame H packId blobs (before.length, payload)) := by
  obtain ⟨hmagic, hfield, hsum, hdrop⟩ := header_fields (H := H) payload (payload ++ more)
  have hwhole : frame H payload ++ more = header H payload ++ (payload ++ more) := by
    rw [frame, append_assoc]
  have htotal : (frame H payload ++ more).length =
      frameHeaderLen + payload.length + more.length := by
    rw [length_append, length_frame]
  have hremaining : (before ++ (frame H payload ++ more)).length - before.length =
      frameHeaderLen + payload.length + more.length := by
    rw [length_append, Nat.add_sub_cancel_left, htotal]
  have hheader : (frame H payload ++ more).take frameHeaderLen = header H payload := by
    rw [hwhole, take_left' (length_header payload)]
  have hpayload : ((frame H payload ++ more).drop frameHeaderLen).take payload.length = payload := by
    rw [hwhole, hdrop, take_left]
  have hfields := header_fields (H := H) payload []
  rw [append_nil] at hfields
  have hnext : saturatingAdd before.length (frameHeaderLen + payload.length) =
      (before ++ frame H payload).length := by
    rw [length_append] at hlen
    rw [saturatingAdd, length_append, length_frame, Nat.min_eq_left (by omega)]
  have hpositive : 0 < frameHeaderLen := by decide
  conv_lhs => rw [recoverLoop]
  rw [if_neg (by omega), if_neg (by omega), readExact_append before _ (Nat.le_refl _) (by omega),
    Nat.sub_self, drop_zero, hheader]
  dsimp only
  rw [if_neg (fun hne => hne hfields.1), hfields.2.1, hfields.2.2.1, length_field hp, checksum_field,
    if_neg (by omega), readExact_append before _ (Nat.le_add_right ..) (by omega),
    Nat.add_sub_cancel_left, hpayload]
  dsimp only
  rw [if_neg (fun hne => hne rfl), hnext]

variable (packId) in
/-- The loop over frames and something that is none: the frames stay and are indexed in order. -/
theorem recoverLoop_frames {payloads : List Bytes} (h : ∀ p ∈ payloads, p.length ≤ maxFramePayload)
    {rest : Bytes} (hrest : frameAt H rest = none) (before : Bytes)
    (hlen : (before ++ (frames H payloads ++ rest)).length ≤ u64Max) {fuel : Nat}
    (hfuel : payloads.length < fuel) (blobs : Table BlobHash BlobRow) :
    recoverLoop H packId (before ++ (frames H payloads ++ rest)).length fuel before.length
        (before ++ (frames H payloads ++ rest)) blobs =
      some ((before ++ frames H payloads,
        indexFrames H packId blobs (placed before.length payloads)), .ok ()) := by
  induction payloads generalizing before fuel blobs with
  | nil =>
    obtain ⟨fuel, rfl⟩ : ∃ k, fuel = k + 1 := ⟨fuel - 1, by
      rw [length_nil] at hfuel
      omega⟩
    have hnone : frames H [] = [] := rfl
    rw [hnone, nil_append, recoverLoop_stop hrest, append_nil]
    rfl
  | cons p ps ih =>
    obtain ⟨fuel, rfl⟩ : ∃ k, fuel = k + 1 := ⟨fuel - 1, by
      rw [length_cons] at hfuel
      omega⟩
    have hp : p.length ≤ maxFramePayload := h p (mem_cons_self ..)
    have hcons : frames H (p :: ps) ++ rest = frame H p ++ (frames H ps ++ rest) := by
      rw [frames_cons, append_assoc]
    have hmove : before ++ (frame H p ++ (frames H ps ++ rest)) =
        (before ++ frame H p) ++ (frames H ps ++ rest) := (append_assoc ..).symm
    rw [hcons] at hlen
    rw [hcons, recoverLoop_frame hp hlen, hmove]
    rw [hmove] at hlen
    rw [ih (fun q hq => h q (mem_cons_of_mem _ hq)) _ hlen (by
      rw [length_cons] at hfuel
      omega)]
    have hplaced : placed before.length (p :: ps) =
        (before.length, p) :: placed (before ++ frame H p).length ps := by
      rw [placed, length_append, length_frame]
    rw [hplaced, indexFrames, indexFrames, foldl_cons, frames_cons, append_assoc]

theorem framesEnd_placed (payloads : List Bytes) :
    framesEnd (placed 0 payloads) = (frames H payloads).length := by
  rcases eq_nil_or_concat payloads with rfl | ⟨ps, p, rfl⟩
  · rfl
  have hplaced : placed 0 (ps ++ [p]) = placed 0 ps ++ [((frames H ps).length, p)] := by
    rw [placed_append (H := H), Nat.zero_add]
    rfl
  have hone : frames H [p] = frame H p := by
    exact append_nil _
  rw [concat_eq_append, framesEnd, hplaced, getLast?_concat, frames_append,
    length_append, hone, length_frame]

theorem recoverFile_frames {d : Disk} {payloads : List Bytes}
    (h : ∀ p ∈ payloads, p.length ≤ maxFramePayload) {rest : Bytes} (hrest : frameAt H rest = none)
    (hfile : d.files.lookup packId = some ⟨false, frames H payloads ++ rest⟩)
    (hlen : (frames H payloads ++ rest).length ≤ u64Max) {fuel : Nat}
    (hfuel : (frames H payloads ++ rest).length < fuel) : recoverFile H fuel d packId =
      some ({ d with
        files := d.files.insert packId ⟨false, frames H payloads⟩
        blobs := indexFrames H packId d.blobs (placed 0 payloads) }, .ok ()) := by
  have hmore : payloads.length < fuel := by
    have hle := length_le_frames (H := H) payloads
    rw [length_append] at hfuel
    rw [frameHeaderLen] at hle
    omega
  have hrun := recoverLoop_frames packId h hrest [] hlen hmore d.blobs
  rw [nil_append] at hrun
  rw [recoverFile, hfile]
  dsimp only
  rw [length_nil] at hrun
  rw [hrun]
  rfl

end Run

/-! ## The rows -/

section Rows

variable {H : Hashes} {packId : Nat}

variable (H packId) in
/-- The row of the last of these frames that has this hash. -/
def lastRow (found : List (Nat × Bytes)) (hash : BlobHash) (tombstoned : Bool) : Option BlobRow :=
  (found.filter (fun f => H.blake3 f.2 = hash)).getLast?.map fun f =>
    ⟨packId, f.1, f.2.length, tombstoned⟩

/-- The tombstone of a hash; a hash without a row has none. -/
def tombstoneOf (blobs : Table BlobHash BlobRow) (hash : BlobHash) : Bool :=
  ((blobs.lookup hash).map BlobRow.tombstoned).getD false

theorem lookup_indexFrame (blobs : Table BlobHash BlobRow) (f : Nat × Bytes) (hash : BlobHash) :
    (indexFrame H packId blobs f).lookup hash =
      if hash = H.blake3 f.2 then some ⟨packId, f.1, f.2.length, tombstoneOf blobs hash⟩
      else blobs.lookup hash := by
  rw [indexFrame, Table.lookup_insert_if]
  split
  · rename_i heq
    rw [heq]
    rfl
  · rfl

theorem tombstoneOf_indexFrame (blobs : Table BlobHash BlobRow) (f : Nat × Bytes) (hash : BlobHash) :
    tombstoneOf (indexFrame H packId blobs f) hash = tombstoneOf blobs hash := by
  rw [tombstoneOf, lookup_indexFrame]
  split
  · rfl
  · rfl

theorem indexFrames_cons (f : Nat × Bytes) (found : List (Nat × Bytes)) (blobs : Table BlobHash BlobRow) :
    indexFrames H packId blobs (f :: found) = indexFrames H packId (indexFrame H packId blobs f) found :=
  foldl_cons ..

theorem lookup_indexFrames (found : List (Nat × Bytes)) (blobs : Table BlobHash BlobRow) (hash : BlobHash) :
    (indexFrames H packId blobs found).lookup hash =
      (lastRow H packId found hash (tombstoneOf blobs hash)).or (blobs.lookup hash) := by
  induction found generalizing blobs with
  | nil => rfl
  | cons f found ih =>
    rw [indexFrames_cons, ih, tombstoneOf_indexFrame, lookup_indexFrame, lastRow, lastRow]
    by_cases hf : H.blake3 f.2 = hash
    · have hcons : (f :: found).filter (fun f => decide (H.blake3 f.2 = hash)) =
          f :: found.filter (fun f => decide (H.blake3 f.2 = hash)) :=
        filter_cons_of_pos (by simpa using hf)
      rw [if_pos hf.symm, hcons, getLast?_cons]
      cases (found.filter (fun f => decide (H.blake3 f.2 = hash))).getLast? with
      | none => rfl
      | some last => rfl
    · have hcons : (f :: found).filter (fun f => decide (H.blake3 f.2 = hash)) =
          found.filter (fun f => decide (H.blake3 f.2 = hash)) :=
        filter_cons_of_neg (by simpa using hf)
      rw [if_neg (fun heq => hf heq.symm), hcons]

theorem tombstoneOf_indexFrames (found : List (Nat × Bytes)) (blobs : Table BlobHash BlobRow)
    (hash : BlobHash) : tombstoneOf (indexFrames H packId blobs found) hash = tombstoneOf blobs hash := by
  induction found generalizing blobs with
  | nil => rfl
  | cons f found ih =>
    rw [indexFrames_cons, ih, tombstoneOf_indexFrame]

theorem indexFrames_again (found : List (Nat × Bytes)) (blobs : Table BlobHash BlobRow) (hash : BlobHash) :
    (indexFrames H packId (indexFrames H packId blobs found) found).lookup hash =
      (indexFrames H packId blobs found).lookup hash := by
  rw [lookup_indexFrames, tombstoneOf_indexFrames, lookup_indexFrames, ← Option.or_assoc, Option.or_self]

end Rows

section Whole

variable {H : Hashes}

/-- Frames that were cut off, or have a tail or other bytes behind them that do not start with a
frame. -/
inductive Left (H : Hashes) (payloads : List Bytes) : Bytes → Prop
  | cut (n : Nat) : Left H payloads ((frames H payloads).take n)
  | tail (count : Nat) : Left H payloads (frames H payloads ++ Pack.tail H count)
  | garbage (garbage : Bytes)
      (h : ∀ p more, p.length ≤ maxFramePayload → garbage ≠ frame H p ++ more) :
      Left H payloads (frames H payloads ++ garbage)

/-- `k` counts the frames that fit in `len` bytes. -/
def WholeIn (H : Hashes) (payloads : List Bytes) (len k : Nat) : Prop :=
  k ≤ payloads.length ∧
    ∀ j ≤ payloads.length, (frames H (payloads.take j)).length ≤ len ↔ j ≤ k

theorem length_frames_take (payloads : List Bytes) (j : Nat) :
    (frames H (payloads.take j)).length ≤ (frames H payloads).length := by
  conv_rhs => rw [← take_append_drop j payloads, frames_append, length_append]
  exact Nat.le_add_right ..

theorem wholeIn_all (payloads : List Bytes) (rest : Bytes) :
    WholeIn H payloads (frames H payloads ++ rest).length payloads.length := by
  refine ⟨Nat.le_refl _, fun j hj => ⟨fun _ => hj, fun _ => ?_⟩⟩
  have hle := length_frames_take (H := H) payloads j
  rw [length_append]
  omega

theorem take_frames {payloads : List Bytes} (h : ∀ p ∈ payloads, p.length ≤ maxFramePayload) (n : Nat) :
    ∃ k rest, WholeIn H payloads ((frames H payloads).take n).length k ∧
      (frames H payloads).take n = frames H (payloads.take k) ++ rest ∧ frameAt H rest = none := by
  induction payloads generalizing n with
  | nil =>
    refine ⟨0, [], ⟨Nat.le_refl _, fun j hj => ?_⟩, take_nil, frameAt_short (by decide)⟩
    rw [take_nil]
    exact ⟨fun _ => hj, fun _ => Nat.zero_le _⟩
  | cons p ps ih =>
    have hp : p.length ≤ maxFramePayload := h p (mem_cons_self ..)
    rw [frames_cons, take_append]
    by_cases htorn : n < (frame H p).length
    · refine ⟨0, (frame H p).take n, ⟨Nat.zero_le _, fun j _ => ?_⟩, ?_, frameAt_torn hp htorn⟩
      · cases j with
        | zero => exact ⟨fun _ => Nat.le_refl _, fun _ => Nat.zero_le _⟩
        | succ j =>
          rw [take_succ_cons, frames_cons, Nat.sub_eq_zero_of_le (Nat.le_of_lt htorn),
            take_zero, append_nil, length_append, length_take]
          omega
      · rw [Nat.sub_eq_zero_of_le (Nat.le_of_lt htorn), take_zero, append_nil]
        rfl
    · obtain ⟨k, rest, ⟨hk, hwhole⟩, htake, hrest⟩ :=
        ih (fun q hq => h q (mem_cons_of_mem _ hq)) (n - (frame H p).length)
      have hall : (frame H p).take n = frame H p := take_of_length_le (by omega)
      refine ⟨k + 1, rest, ⟨?_, fun j hj => ?_⟩, ?_, hrest⟩
      · rw [length_cons]
        omega
      · cases j with
        | zero => exact ⟨fun _ => Nat.zero_le _, fun _ => Nat.zero_le _⟩
        | succ j =>
          rw [length_cons] at hj
          have hj' := hwhole j (by omega)
          rw [take_succ_cons, frames_cons, hall, length_append, length_append]
          omega
      · rw [hall, htake, take_succ_cons, frames_cons, append_assoc]

theorem Left.whole {payloads : List Bytes} (h : ∀ p ∈ payloads, p.length ≤ maxFramePayload)
    {content : Bytes} (hleft : Left H payloads content) : ∃ k rest, WholeIn H payloads content.length k ∧
      content = frames H (payloads.take k) ++ rest ∧ frameAt H rest = none := by
  cases hleft with
  | cut n => exact take_frames h n
  | tail count =>
    refine ⟨payloads.length, _, wholeIn_all payloads _, ?_, frameAt_tail count⟩
    rw [take_length]
  | garbage garbage hgarbage =>
    have hnone : frameAt H garbage = none := by
      cases hframe : frameAt H garbage with
      | none => rfl
      | some p =>
        obtain ⟨hp, more, hmore⟩ := frameAt_iff.mp hframe
        exact absurd hmore (hgarbage p more hp)
    refine ⟨payloads.length, garbage, wholeIn_all payloads garbage, ?_, hnone⟩
    rw [take_length]

/-- Recovery ends, keeps and indexes exactly the whole frames, and finds nothing to do afterwards. -/
theorem recoverFile_whole (d : Disk) (packId : Nat) (payloads : List Bytes) (content : Bytes)
    (hpayloads : ∀ p ∈ payloads, p.length ≤ maxFramePayload) (hleft : Left H payloads content)
    (hfile : d.files.lookup packId = some ⟨false, content⟩) (hlen : content.length ≤ u64Max) :
    ∃ k, WholeIn H payloads content.length k ∧ frames H (payloads.take k) <+: content ∧
      ∃ d', (∀ fuel, content.length < fuel → recoverFile H fuel d packId = some (d', .ok ())) ∧
        d'.files = d.files.insert packId ⟨false, frames H (payloads.take k)⟩ ∧ d'.logs = d.logs ∧
        (∀ hash, d'.blobs.lookup hash =
          (lastRow H packId (placed 0 (payloads.take k)) hash (tombstoneOf d.blobs hash)).or
            (d.blobs.lookup hash)) ∧
        ∃ d'', (∀ fuel, content.length < fuel → recoverFile H fuel d' packId = some (d'', .ok ())) ∧
          d''.files = d'.files ∧ d''.logs = d'.logs ∧
          ∀ hash, d''.blobs.lookup hash = d'.blobs.lookup hash := by
  obtain ⟨k, rest, hk, rfl, hrest⟩ := hleft.whole hpayloads
  have hkept : ∀ p ∈ payloads.take k, p.length ≤ maxFramePayload :=
    fun p hp => hpayloads p (mem_of_mem_take hp)
  have hshort : (frames H (payloads.take k)).length ≤
      (frames H (payloads.take k) ++ rest).length := by
    rw [length_append]
    exact Nat.le_add_right ..
  refine ⟨k, hk, prefix_append .., _,
    fun fuel hfuel => recoverFile_frames hkept hrest hfile hlen hfuel, rfl, rfl,
    fun hash => lookup_indexFrames .., ?_⟩
  -- the file that is left has nothing behind its frames
  have hfile' : (d.files.insert packId ⟨false, frames H (payloads.take k)⟩).lookup packId =
      some ⟨false, frames H (payloads.take k) ++ []⟩ := by
    rw [append_nil]
    exact AList.lookup_insert _
  have hagain := fun fuel (hfuel : (frames H (payloads.take k) ++ rest).length < fuel) =>
    have hlen' : (frames H (payloads.take k) ++ []).length ≤ u64Max := by
      rw [append_nil]
      omega
    have hfuel' : (frames H (payloads.take k) ++ []).length < fuel := by
      rw [append_nil]
      omega
    recoverFile_frames (H := H) (d := { d with
        files := d.files.insert packId ⟨false, frames H (payloads.take k)⟩
        blobs := indexFrames H packId d.blobs (placed 0 (payloads.take k)) })
      hkept (frameAt_short (by decide)) hfile' hlen' hfuel'
  refine ⟨_, hagain, ?_, rfl, fun hash => indexFrames_again ..⟩
  exact AList.insert_insert _

/-- Hashes that a reader can compute: the bytes themselves, filled up, and their number. -/
def plainHashes : Hashes where
  blake3 bytes := ⟨(bytes ++ List.replicate 32 0).take 32, by simp⟩
  xxh3 bytes := UInt64.ofNat bytes.length
  crc32 _ := 0

/-- Two frames of 17 and 18 bytes, cut in the header of the second one. -/
def tornDisk : Disk where
  files := AList.insert 4 ⟨false, (frames plainHashes [[7], [8, 9]]).take 30⟩ ∅
  logs := ∅
  blobs := ∅

theorem recoverFile_whole_torn : ∃ d' d'', recoverFile plainHashes 31 tornDisk 4 = some (d', .ok ()) ∧
      d'.files.lookup 4 = some ⟨false, frames plainHashes [[7]]⟩ ∧
      d'.blobs.lookup (plainHashes.blake3 [7]) = some ⟨4, 0, 1, false⟩ ∧
      d'.blobs.lookup (plainHashes.blake3 [8, 9]) = none ∧
      recoverFile plainHashes 31 d' 4 = some (d'', .ok ()) ∧ d''.files = d'.files := by
  obtain ⟨k, ⟨hk, hwhole⟩, -, d', hrun, hfiles, -, hrows, d'', hagain, hsame, -⟩ :=
    recoverFile_whole (H := plainHashes) tornDisk 4 [[7], [8, 9]]
      ((frames plainHashes [[7], [8, 9]]).take 30) (by decide) (.cut 30) rfl (by decide)
  have hone : k = 1 := by
    have hfirst := (hwhole 1 (by decide)).mp (by decide)
    have hsecond : ¬ 2 ≤ k := fun htwo => absurd ((hwhole 2 (by decide)).mpr htwo) (by decide)
    omega
  subst hone
  refine ⟨d', d'', hrun 31 (by decide), ?_, ?_, ?_, hagain 31 (by decide), hsame⟩
  · rw [hfiles]
    exact AList.lookup_insert _
  · rw [hrows]
    decide
  · rw [hrows]
    decide

end Whole

end Ratatoskr.Pack

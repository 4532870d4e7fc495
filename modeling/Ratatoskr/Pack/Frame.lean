import Mathlib.Data.List.Basic
import Mathlib.Data.Nat.ModEq

/-!
# Pack.Frame

The bytes of a pack file (`stores/src/attachment_pack.rs`): frames, the tail of a sealed pack, and
the records of a tombstone log. The hash functions are parameters; a frame carries the `xxh3` of its
payload and is found again by offset, or by walking the file from its start.

* `frameAt_frame` : a written frame is read back, whatever follows it.
* `walk_frames` : a walk finds exactly the frames written, with their offsets.
-/

namespace Ratatoskr.Pack

open List

abbrev Bytes := List UInt8

/-- `[u8; 32]`. -/
structure BlobHash where
  bytes : Bytes
  len : bytes.length = 32
  deriving DecidableEq

def nibbleHex (n : Nat) : Char := if n < 10 then Char.ofNat (48 + n) else Char.ofNat (87 + n)

def BlobHash.toHex (h : BlobHash) : String :=
  String.ofList (h.bytes.flatMap fun b => [nibbleHex (b.toNat / 16), nibbleHex (b.toNat % 16)])

/-- The hash functions of the crates `blake3`, `xxhash-rust` and `crc32fast`. -/
structure Hashes where
  /-- `BlobHash::hash` -/
  blake3 : Bytes → BlobHash
  xxh3 : Bytes → UInt64
  crc32 : Bytes → UInt32

/-- `to_le_bytes` of an integer of `w` bytes. -/
def toLe : Nat → Nat → Bytes
  | 0, _ => []
  | w + 1, n => UInt8.ofNat n :: toLe w (n / 256)

/-- `read_u32_le` and `read_u64_le`. -/
def readLe : Bytes → Nat
  | [] => 0
  | b :: bs => b.toNat + 256 * readLe bs

@[simp] theorem length_toLe (w n : Nat) : (toLe w n).length = w := by
  induction w generalizing n with
  | zero => rfl
  | succ w ih => rw [toLe, length_cons, ih]

theorem readLe_toLe (w n : Nat) : readLe (toLe w n) = n % 256 ^ w := by
  induction w generalizing n with
  | zero => rw [toLe, readLe, Nat.pow_zero, Nat.mod_one]
  | succ w ih =>
    rw [toLe, readLe, ih, Nat.pow_succ', Nat.mod_mul]
    rfl

/-- `RTSK` -/
def frameMagic : Bytes := [0x52, 0x54, 0x53, 0x4B]

/-- `TAIL` -/
def tailMagic : Bytes := [0x54, 0x41, 0x49, 0x4C]

def packFormatVersion : UInt8 := 1

def frameHeaderLen : Nat := 16

def tailLen : Nat := 13

def maxFramePayload : Nat := 2 ^ 32 - 1

section Frames

variable (H : Hashes)

def header (payload : Bytes) : Bytes :=
  frameMagic ++ (toLe 4 payload.length ++ toLe 8 (H.xxh3 payload).toNat)

def frame (payload : Bytes) : Bytes := header H payload ++ payload

/-- What `seal_open_pack` and `compact_pack` write behind the frames. -/
def tail (frameCount : Nat) : Bytes :=
  let body := packFormatVersion :: toLe 4 frameCount
  tailMagic ++ (body ++ toLe 4 (H.crc32 body).toNat)

/-- The whole, checksum-valid frame at the head of `rest`, as both walks read it. -/
def frameAt (rest : Bytes) : Option Bytes :=
  if rest.length < frameHeaderLen then none
  else if rest.take 4 ≠ frameMagic then none
  else
    let length := readLe ((rest.drop 4).take 4)
    if rest.length < frameHeaderLen + length then none
    else
      let payload := (rest.drop frameHeaderLen).take length
      if readLe ((rest.drop 8).take 8) ≠ (H.xxh3 payload).toNat then none else some payload

/-- The frames from `offset` on, each with its own offset. A frame takes more than one byte, so the
length of the file is fuel enough. -/
def walkFrames : Nat → Nat → Bytes → List (Nat × Bytes)
  | 0, _, _ => []
  | fuel + 1, offset, rest =>
    match frameAt H rest with
    | none => []
    | some payload =>
      let frameTotal := frameHeaderLen + payload.length
      (offset, payload) :: walkFrames fuel (offset + frameTotal) (rest.drop frameTotal)

def walk (content : Bytes) : List (Nat × Bytes) := walkFrames H content.length 0 content

/-- The loop of `frame_count_in_open_pack`. -/
def frameCount : Nat → Nat → Nat → Bytes → Nat
  | 0, _, _, _ => 0
  | fuel + 1, offset, endOffset, content =>
    if offset < endOffset then
      let length := readLe ((content.drop (offset + 4)).take 4)
      frameCount fuel (offset + frameHeaderLen + length) endOffset content + 1
    else 0

end Frames

section Read

variable {H : Hashes}

@[simp] theorem length_header (payload : Bytes) : (header H payload).length = frameHeaderLen := by
  simp [header, frameMagic, frameHeaderLen]

@[simp] theorem length_frame (payload : Bytes) :
    (frame H payload).length = frameHeaderLen + payload.length := by
  rw [frame, length_append, length_header]

@[simp] theorem length_tail (n : Nat) : (tail H n).length = tailLen := by
  simp [tail, tailMagic, tailLen]

theorem header_fields (payload rest : Bytes) : (header H payload ++ rest).take 4 = frameMagic ∧
    ((header H payload ++ rest).drop 4).take 4 = toLe 4 payload.length ∧
    ((header H payload ++ rest).drop 8).take 8 = toLe 8 (H.xxh3 payload).toNat ∧
    (header H payload ++ rest).drop frameHeaderLen = rest := by
  have hlen := length_toLe 4 payload.length
  have hsum := length_toLe 8 (H.xxh3 payload).toNat
  have hmagic : frameMagic.length = 4 := rfl
  refine ⟨?_, ?_, ?_, ?_⟩
  · rw [header, append_assoc, take_left' hmagic]
  · rw [header, append_assoc, drop_left' hmagic, append_assoc, take_left' hlen]
  · rw [header, append_assoc, append_assoc, ← append_assoc, drop_left', take_left' hsum]
    rw [length_append, hmagic, hlen]
  · exact drop_left' (length_header payload)

theorem length_field {payload : Bytes} (h : payload.length ≤ maxFramePayload) :
    readLe (toLe 4 payload.length) = payload.length := by
  rw [readLe_toLe]
  exact Nat.mod_eq_of_lt (Nat.lt_of_le_of_lt h (by decide))

theorem checksum_field (payload : Bytes) :
    readLe (toLe 8 (H.xxh3 payload).toNat) = (H.xxh3 payload).toNat := by
  rw [readLe_toLe]
  exact Nat.mod_eq_of_lt (UInt64.toNat_lt _)

theorem frameAt_frame {payload : Bytes} (h : payload.length ≤ maxFramePayload) (rest : Bytes) :
    frameAt H (frame H payload ++ rest) = some payload := by
  obtain ⟨hmagic, hlen, hsum, hdrop⟩ := header_fields (H := H) payload (payload ++ rest)
  have hrest : frame H payload ++ rest = header H payload ++ (payload ++ rest) := by
    rw [frame, append_assoc]
  have htotal : (frame H payload ++ rest).length =
      frameHeaderLen + payload.length + rest.length := by
    rw [length_append, length_frame]
  rw [frameAt, htotal, hrest, hmagic, hlen, hsum, hdrop, length_field h, checksum_field]
  simp only [ne_eq, not_true_eq_false, if_false, take_left']
  rw [if_neg (by omega), if_neg (by omega)]

theorem frameAt_short {rest : Bytes} (h : rest.length < frameHeaderLen) : frameAt H rest = none :=
  if_pos h

theorem frameAt_torn {payload : Bytes} (h : payload.length ≤ maxFramePayload) {n : Nat}
    (hn : n < (frame H payload).length) : frameAt H ((frame H payload).take n) = none := by
  rw [length_frame] at hn
  by_cases hshort : n < frameHeaderLen
  · exact frameAt_short (by rw [length_take]; omega)
  have hcut : (frame H payload).take n = header H payload ++ payload.take (n - frameHeaderLen) := by
    rw [frame, take_append, length_header, take_of_length_le]
    rw [length_header]
    omega
  obtain ⟨hmagic, hlen, -, -⟩ := header_fields (H := H) payload (payload.take (n - frameHeaderLen))
  rw [hcut, frameAt, hmagic, hlen, length_field h, length_append, length_header, length_take]
  simp only [ne_eq, not_true_eq_false, if_false]
  rw [if_neg (by omega), if_pos (by omega)]

end Read

/-! ## Walking a file -/

section Walk

variable {H : Hashes}

variable (H) in
def frames (payloads : List Bytes) : Bytes := payloads.flatMap (frame H)

/-- Where these frames stand, the first one at `offset`. -/
def placed : Nat → List Bytes → List (Nat × Bytes)
  | _, [] => []
  | offset, payload :: rest =>
    (offset, payload) :: placed (offset + (frameHeaderLen + payload.length)) rest

theorem frames_cons (p : Bytes) (ps : List Bytes) : frames H (p :: ps) = frame H p ++ frames H ps :=
  flatMap_cons

theorem frames_append (ps qs : List Bytes) : frames H (ps ++ qs) = frames H ps ++ frames H qs :=
  flatMap_append

theorem placed_append (ps qs : List Bytes) (offset : Nat) :
    placed offset (ps ++ qs) = placed offset ps ++ placed (offset + (frames H ps).length) qs := by
  induction ps generalizing offset with
  | nil => rfl
  | cons p ps ih =>
    rw [cons_append, placed, placed, ih, cons_append, frames_cons, length_append,
      length_frame, Nat.add_assoc offset]

theorem placed_map_snd (ps : List Bytes) (offset : Nat) : (placed offset ps).map Prod.snd = ps := by
  induction ps generalizing offset with
  | nil => rfl
  | cons p ps ih => rw [placed, map_cons, ih]

theorem walkFrames_frames {payloads : List Bytes} (h : ∀ p ∈ payloads, p.length ≤ maxFramePayload)
    {rest : Bytes} (hrest : frameAt H rest = none) {fuel offset : Nat} (hfuel : payloads.length < fuel) :
    walkFrames H fuel offset (frames H payloads ++ rest) = placed offset payloads := by
  induction payloads generalizing fuel offset with
  | nil =>
    obtain ⟨fuel, rfl⟩ : ∃ k, fuel = k + 1 := ⟨fuel - 1, by
      omega⟩
    rw [frames, flatMap_nil, nil_append, walkFrames, hrest]
    rfl
  | cons p ps ih =>
    obtain ⟨fuel, rfl⟩ : ∃ k, fuel = k + 1 := ⟨fuel - 1, by
      omega⟩
    have hp : p.length ≤ maxFramePayload := h p (mem_cons_self ..)
    have hcons : frames H (p :: ps) ++ rest = frame H p ++ (frames H ps ++ rest) := by
      rw [frames_cons, append_assoc]
    rw [hcons, walkFrames, frameAt_frame hp, placed]
    simp only [List.cons.injEq, true_and]
    rw [drop_left' (length_frame p)]
    refine ih (fun q hq => h q (mem_cons_of_mem _ hq)) ?_
    rw [length_cons] at hfuel
    omega

theorem length_le_frames (payloads : List Bytes) :
    frameHeaderLen * payloads.length ≤ (frames H payloads).length := by
  induction payloads with
  | nil => exact Nat.le_refl _
  | cons p ps ih =>
    rw [frames_cons, length_append, length_frame, length_cons, Nat.mul_succ]
    omega

theorem walk_frames {payloads : List Bytes} (h : ∀ p ∈ payloads, p.length ≤ maxFramePayload)
    {rest : Bytes} (hrest : frameAt H rest = none) :
    walk H (frames H payloads ++ rest) = placed 0 payloads := by
  rw [walk, length_append]
  by_cases hempty : (frames H payloads).length + rest.length = 0
  · -- an empty file has no frame and no fuel
    have hnil : payloads = [] := by
      have hle := length_le_frames (H := H) payloads
      rw [frameHeaderLen] at hle
      exact length_eq_zero_iff.mp (by omega)
    rw [hempty, hnil]
    rfl
  · refine walkFrames_frames h hrest ?_
    have hle := length_le_frames (H := H) payloads
    rw [frameHeaderLen] at hle
    omega

end Walk

inductive TombstoneLogKind where
  | tombstone | revive
  deriving DecidableEq

def TombstoneLogKind.fromByte (b : UInt8) : TombstoneLogKind :=
  if b = 1 then .revive else .tombstone

def TombstoneLogKind.asByte : TombstoneLogKind → UInt8
  | .tombstone => 0
  | .revive => 1

def recordLen : Nat := 48

def encodeLogRecord (packId : Nat) (hash : BlobHash) (kind : TombstoneLogKind) : Bytes :=
  toLe 4 packId ++ (kind.asByte :: List.replicate 11 0 ++ hash.bytes)

/-- One record of a log, if there are enough bytes for one. -/
def logRecordAt (rest : Bytes) : Option (TombstoneLogKind × BlobHash) :=
  if h : rest.length < recordLen then none
  else
    some (.fromByte (rest.getD 4 0),
      ⟨(rest.drop 16).take 32, by
        rw [recordLen] at h
        rw [length_take, length_drop]
        omega⟩)

def parseLogFrom : Nat → Bytes → List (TombstoneLogKind × BlobHash)
  | 0, _ => []
  | fuel + 1, rest =>
    match logRecordAt rest with
    | none => []
    | some r => r :: parseLogFrom fuel (rest.drop recordLen)

/-- The records that `rebuild_index_replay_tombstone_log` reads. -/
def parseLog (content : Bytes) : List (TombstoneLogKind × BlobHash) :=
  parseLogFrom content.length content

end Ratatoskr.Pack

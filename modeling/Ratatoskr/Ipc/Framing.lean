import Mathlib.Logic.Relation
import Ratatoskr.Drafts.Wal

/-!
# Ipc.Framing

Lines of the service pipe (`service-api/src/framing.rs`). `BoundedLineReader` takes what the pipe
delivers, in chunks of any size, and keeps at most `max_len` bytes of a line it has not finished.

The framing of a stream is defined on its bytes alone (`reference`). `owed` says what a reader has still
to return, from its buffer, its mode and the bytes to come; every pass of the loop keeps it, and a call
takes its first entry off.
-/

namespace Ratatoskr.Ipc

open List
open Lib (splitLines afterLine)
open Drafts (decodeUtf8 newline)

inductive FrameError where
  | tooLarge
  | invalidUtf8 (bytes : List UInt8)

/-- What one read of the pipe delivers. A read of nothing is the end of the stream. -/
structure Chunk where
  bytes : List UInt8
  nonempty : bytes ≠ []

/-- `reader` is the `BufReader`: the bytes it holds that are not consumed, and the reads to come. -/
structure BoundedLineReader where
  held : List UInt8
  reader : List Chunk
  maxLen : Nat
  buffer : List UInt8
  discarding : Bool

namespace BoundedLineReader

variable {r : BoundedLineReader}

def new (reader : List Chunk) (maxLen : Nat) : BoundedLineReader :=
  { held := [], reader := reader, maxLen := maxLen, buffer := [], discarding := false }

/-- `BufReader::fill_buf`: a read, if nothing is held. -/
def fillBuf (r : BoundedLineReader) : BoundedLineReader :=
  match r.held, r.reader with
  | [], chunk :: reader => { r with held := chunk.bytes, reader := reader }
  | _, _ => r

def consume (r : BoundedLineReader) (n : Nat) : BoundedLineReader := { r with held := r.held.drop n }

def position (available : List UInt8) : Option Nat := available.findIdx? (· == newline)

/-- What a pass of the loop comes to. `line` leaves the bytes of the line in the buffer. -/
inductive Verdict where
  | goOn | line | tooLarge | ended

def endOfStream (r : BoundedLineReader) : BoundedLineReader × Verdict :=
  if r.discarding then ({ r with discarding := false }, .ended)
  else if r.buffer = [] then (r, .ended)
  else (r, .line)

def discard (r : BoundedLineReader) : BoundedLineReader × Verdict :=
  match position r.held with
  | some pos => ({ r with discarding := false }.consume (pos + 1), .goOn)
  | none => (r.consume r.held.length, .goOn)

def collect (r : BoundedLineReader) : BoundedLineReader × Verdict :=
  match position r.held with
  | some pos =>
    if r.maxLen < r.buffer.length + pos then ({ r with buffer := [] }.consume (pos + 1), .tooLarge)
    else ({ r with buffer := r.buffer ++ r.held.take pos }.consume (pos + 1), .line)
  | none =>
    if r.maxLen < r.buffer.length + r.held.length then
      ({ r with buffer := [], discarding := true }.consume r.held.length, .tooLarge)
    else ({ r with buffer := r.buffer ++ r.held }.consume r.held.length, .goOn)

/-- One pass of the loop of `next_line`, up to the `mem::take` of a finished line. -/
def receive (r : BoundedLineReader) : BoundedLineReader × Verdict :=
  let r := r.fillBuf
  if r.held = [] then r.endOfStream
  else if r.discarding then r.discard
  else r.collect

def takeLine (r : BoundedLineReader) : BoundedLineReader := { r with buffer := [] }

def rest (r : BoundedLineReader) : List UInt8 := r.held ++ r.reader.flatMap Chunk.bytes

@[simp] theorem rest_fillBuf (r : BoundedLineReader) : r.fillBuf.rest = r.rest := by
  obtain ⟨held, reader, maxLen, buffer, discarding⟩ := r
  cases held with
  | cons b held => rfl
  | nil =>
    cases reader with
    | nil => rfl
    | cons chunk reader => simp [fillBuf, rest]

theorem held_fillBuf (h : r.fillBuf.held = []) : r.rest = [] := by
  obtain ⟨held, reader, maxLen, buffer, discarding⟩ := r
  cases held with
  | cons b held => cases h
  | nil =>
    cases reader with
    | nil => rfl
    | cons chunk reader => exact absurd h chunk.nonempty

theorem position_line {line : List UInt8} (h : newline ∉ line) (rest : List UInt8) :
    position (line ++ newline :: rest) = some line.length := by
  induction line with
  | nil => simp [position, findIdx?_cons]
  | cons b line ih =>
    obtain ⟨hb, hline⟩ := not_or.mp (mt mem_cons.mpr h)
    have htail := ih hline
    rw [position] at htail
    rw [cons_append, position, findIdx?_cons, if_neg (by simpa using Ne.symm hb), htail]
    rfl

theorem position_none {s : List UInt8} (h : newline ∉ s) : position s = none := by
  rw [position, findIdx?_eq_none_iff]
  intro b hb
  simpa using fun heq : b = newline => h (heq ▸ hb)

/-- What is held has a newline, at the position that is found, or it has none. -/
theorem position_cases (s : List UInt8) :
    (∃ line behind, newline ∉ line ∧ s = line ++ newline :: behind ∧ position s = some line.length) ∨
      (newline ∉ s ∧ position s = none) := by
  by_cases h : newline ∈ s
  · obtain ⟨line, behind, rfl, hline⟩ := eq_append_cons_of_mem h
    exact .inl ⟨line, behind, hline, rfl, position_line hline behind⟩
  · exact .inr ⟨h, position_none h⟩

theorem discard_cases (r : BoundedLineReader) :
    (∃ line behind, newline ∉ line ∧ r.held = line ++ newline :: behind ∧
        r.discard = ({ r with held := behind, discarding := false }, .goOn)) ∨
      (newline ∉ r.held ∧ r.discard = ({ r with held := [] }, .goOn)) := by
  rcases position_cases r.held with ⟨line, behind, hline, hheld, hpos⟩ | ⟨hnone, hpos⟩
  · refine .inl ⟨line, behind, hline, hheld, ?_⟩
    rw [discard, hpos]
    simp [consume, hheld]
  · refine .inr ⟨hnone, ?_⟩
    rw [discard, hpos]
    simp [consume]

theorem collect_cases (r : BoundedLineReader) :
    (∃ line behind, newline ∉ line ∧ r.held = line ++ newline :: behind ∧
        r.collect =
          if r.maxLen < (r.buffer ++ line).length then
            ({ r with held := behind, buffer := [] }, .tooLarge)
          else ({ r with held := behind, buffer := r.buffer ++ line }, .line)) ∨
      (newline ∉ r.held ∧
        r.collect =
          if r.maxLen < (r.buffer ++ r.held).length then
            ({ r with held := [], buffer := [], discarding := true }, .tooLarge)
          else ({ r with held := [], buffer := r.buffer ++ r.held }, .goOn)) := by
  rcases position_cases r.held with ⟨line, behind, hline, hheld, hpos⟩ | ⟨hnone, hpos⟩
  · refine .inl ⟨line, behind, hline, hheld, ?_⟩
    rw [collect, hpos]
    simp [consume, hheld]
  · refine .inr ⟨hnone, ?_⟩
    rw [collect, hpos]
    simp [consume]

theorem receive_rest {r' : BoundedLineReader} (h : r.receive = (r', .goOn)) :
    r'.rest.length < r.rest.length := by
  rw [← rest_fillBuf r]
  unfold receive at h
  dsimp only at h
  split at h
  · unfold endOfStream at h
    split at h
    · cases h
    · split at h <;> cases h
  · next hheld =>
    have hpos := length_pos_iff.mpr hheld
    split at h
    · rcases discard_cases r.fillBuf with ⟨line, behind, -, hsplit, heq⟩ | ⟨-, heq⟩
      · cases heq.symm.trans h
        simp only [rest, hsplit, length_append, length_cons]
        omega
      · cases heq.symm.trans h
        simp only [rest, length_append, length_nil]
        omega
    · rcases collect_cases r.fillBuf with ⟨line, behind, -, -, heq⟩ | ⟨-, heq⟩
      · rw [heq] at h
        split at h <;> cases h
      · rw [heq] at h
        split at h
        · cases h
        · cases h
          simp only [rest, length_append, length_nil]
          omega

/-- `String::from_utf8`. -/
def fromUtf8 (line : List UInt8) : Except FrameError String :=
  match decodeUtf8 line with
  | some text => .ok text
  | none => .error (.invalidUtf8 line)

def nextLine (r : BoundedLineReader) : BoundedLineReader × Except FrameError (Option String) :=
  match _h : r.receive with
  | (r', .goOn) => nextLine r'
  | (r', .line) => (r'.takeLine, (fromUtf8 r'.buffer).map some)
  | (r', .tooLarge) => (r', .error .tooLarge)
  | (r', .ended) => (r', .ok none)
termination_by r.rest.length
decreasing_by exact receive_rest _h

/-- The results of as many calls as `n`. -/
def results : Nat → BoundedLineReader → List (Except FrameError (Option String))
  | 0, _ => []
  | n + 1, r => r.nextLine.2 :: results n r.nextLine.1

end BoundedLineReader

/-! ## The reference -/

open BoundedLineReader (fromUtf8)

def frame (maxLen : Nat) (line : List UInt8) : Except FrameError String :=
  if maxLen < line.length then .error .tooLarge else fromUtf8 line

/-- The stream split at newlines, an unterminated rest being a line of its own. -/
def reference (maxLen : Nat) (stream : List UInt8) : List (Except FrameError String) :=
  (splitLines newline stream).map fun line => frame maxLen line.1

section Reference

variable {maxLen : Nat}

theorem reference_line {line : List UInt8} (h : newline ∉ line) (rest : List UInt8) :
    reference maxLen (line ++ newline :: rest) = frame maxLen line :: reference maxLen rest := by
  rw [reference, Lib.splitLines_cons_line h]
  rfl

theorem reference_rest {rest : List UInt8} (h : newline ∉ rest) (hne : rest ≠ []) :
    reference maxLen rest = [frame maxLen rest] := by
  rw [reference, Lib.splitLines_rest h hne]
  rfl

/-- A line that is too long after a part of it is too long, whatever follows up to its newline. -/
theorem reference_overlong {start : List UInt8} (h : newline ∉ start) (hlong : maxLen < start.length)
    (rest : List UInt8) : reference maxLen (start ++ rest) =
      .error .tooLarge :: reference maxLen (afterLine newline rest) := by
  have hne : start ≠ [] := by
    rintro rfl
    simp at hlong
  obtain ⟨more, terminated, hsplit⟩ := Lib.splitLines_start h hne rest
  have hframe : frame maxLen (start ++ more) = .error .tooLarge :=
    if_pos (by rw [length_append]; omega)
  rw [reference, hsplit, map_cons, hframe]
  rfl

end Reference

namespace BoundedLineReader

variable {r : BoundedLineReader}

/-- The buffer is a part of one line and within the bound; while a line is discarded it is empty. -/
structure Bounded (r : BoundedLineReader) : Prop where
  within : r.buffer.length ≤ r.maxLen
  unbroken : newline ∉ r.buffer
  discarded : r.discarding = true → r.buffer = []

def owed (r : BoundedLineReader) : List (Except FrameError String) :=
  if r.discarding then reference r.maxLen (afterLine newline r.rest)
  else reference r.maxLen (r.buffer ++ r.rest)

/-- What a verdict says of the reader before the pass and the one after it. -/
def Accounts (r r' : BoundedLineReader) : Verdict → Prop
  | .goOn => r'.owed = r.owed
  | .line => r.owed = fromUtf8 r'.buffer :: r'.takeLine.owed
  | .tooLarge => r.owed = .error .tooLarge :: r'.owed
  | .ended => r.owed = [] ∧ r'.owed = []

structure Passed (r r' : BoundedLineReader) (v : Verdict) : Prop where
  maxLen : r'.maxLen = r.maxLen
  bounded : r'.Bounded
  accounts : Accounts r r' v

theorem frame_within {maxLen : Nat} {line : List UInt8} (h : ¬maxLen < line.length) :
    frame maxLen line = fromUtf8 line := if_neg h

theorem owed_of_collecting (h : r.discarding = false) :
    r.owed = reference r.maxLen (r.buffer ++ r.rest) := if_neg (by simp [h])

theorem owed_of_discarding (h : r.discarding = true) :
    r.owed = reference r.maxLen (afterLine newline r.rest) := if_pos h

theorem Bounded.takeLine : Bounded r.takeLine :=
  ⟨Nat.zero_le _, not_mem_nil, fun _ => rfl⟩

theorem passed_endOfStream (h : r.Bounded) (hrest : r.rest = []) :
    Passed r r.endOfStream.1 r.endOfStream.2 := by
  unfold endOfStream
  by_cases hdiscarding : r.discarding = true
  · have hbuffer := h.discarded hdiscarding
    rw [if_pos hdiscarding]
    refine ⟨rfl, ⟨h.within, h.unbroken, fun _ => hbuffer⟩, ?_, ?_⟩
    · rw [owed_of_discarding hdiscarding, hrest]
      rfl
    · show reference r.maxLen (r.buffer ++ r.rest) = []
      rw [hbuffer, hrest]
      rfl
  · have hcollecting : r.discarding = false := Bool.eq_false_iff.mpr hdiscarding
    rw [if_neg hdiscarding]
    by_cases hbuffer : r.buffer = []
    · have howed : r.owed = [] := by
        rw [owed_of_collecting hcollecting, hbuffer, hrest]
        rfl
      rw [if_pos hbuffer]
      exact ⟨rfl, h, howed, howed⟩
    · rw [if_neg hbuffer]
      refine ⟨rfl, h, ?_⟩
      have htaken : r.takeLine.owed = [] := by
        rw [owed_of_collecting (r := r.takeLine) hcollecting]
        show reference r.maxLen ([] ++ r.rest) = []
        rw [hrest]
        rfl
      show r.owed = fromUtf8 r.buffer :: r.takeLine.owed
      rw [owed_of_collecting hcollecting, hrest, append_nil,
        reference_rest h.unbroken hbuffer, frame_within (Nat.not_lt.mpr h.within), htaken]

theorem passed_discard (h : r.Bounded) (hdiscarding : r.discarding = true) :
    Passed r r.discard.1 r.discard.2 := by
  have hbuffer := h.discarded hdiscarding
  have howed := owed_of_discarding hdiscarding
  rcases discard_cases r with ⟨line, behind, hline, hheld, heq⟩ | ⟨hnone, heq⟩
  · rw [heq]
    refine ⟨rfl, ⟨h.within, h.unbroken, fun _ => hbuffer⟩, ?_⟩
    rw [rest, hheld, append_assoc, cons_append, Lib.afterLine_line hline] at howed
    refine (owed_of_collecting (r := { r with held := behind, discarding := false }) rfl).trans ?_
    rw [howed, hbuffer]
    rfl
  · rw [heq]
    refine ⟨rfl, ⟨h.within, h.unbroken, fun _ => hbuffer⟩, ?_⟩
    rw [rest, Lib.afterLine_append hnone] at howed
    exact (owed_of_discarding (r := { r with held := [] }) hdiscarding).trans howed.symm

theorem passed_collect (h : r.Bounded) (hcollecting : r.discarding = false) :
    Passed r r.collect.1 r.collect.2 := by
  have howed := owed_of_collecting hcollecting
  have hempty : ∀ r' : BoundedLineReader, r'.buffer = [] → Bounded r' := fun r' hr' =>
    ⟨by rw [hr']; exact Nat.zero_le _, by rw [hr']; exact not_mem_nil, fun _ => hr'⟩
  have hcollected : ∀ {buffer : List UInt8} (held : List UInt8), newline ∉ buffer →
      ¬r.maxLen < buffer.length → Bounded { r with held := held, buffer := buffer } :=
    fun _ hbroken hroom => ⟨Nat.not_lt.mp hroom, hbroken, fun hdiscarding => by simp_all⟩
  rcases collect_cases r with ⟨line, behind, hline, hheld, heq⟩ | ⟨hnone, heq⟩
  · have hwhole : newline ∉ r.buffer ++ line := by simp [h.unbroken, hline]
    have hbehind := owed_of_collecting (r := { r with held := behind, buffer := [] }) hcollecting
    rw [rest, hheld, append_assoc, cons_append, ← append_assoc, reference_line hwhole] at howed
    rw [heq]
    split
    · next hlong =>
      refine ⟨rfl, hempty _ rfl, ?_⟩
      rw [frame, if_pos hlong] at howed
      exact howed.trans (congrArg _ hbehind.symm)
    · next hroom =>
      refine ⟨rfl, hcollected _ hwhole hroom, ?_⟩
      rw [frame_within hroom] at howed
      exact howed.trans (congrArg _ hbehind.symm)
  · have hwhole : newline ∉ r.buffer ++ r.held := by simp [h.unbroken, hnone]
    rw [rest, ← append_assoc] at howed
    rw [heq]
    split
    · next hlong =>
      have hafter := owed_of_discarding (r := { r with held := [], buffer := [], discarding := true }) rfl
      refine ⟨rfl, hempty _ rfl, ?_⟩
      rw [reference_overlong hwhole hlong] at howed
      exact howed.trans (congrArg _ hafter.symm)
    · next hroom =>
      refine ⟨rfl, hcollected _ hwhole hroom, ?_⟩
      exact (owed_of_collecting (r := { r with held := [], buffer := r.buffer ++ r.held })
        hcollecting).trans howed.symm

theorem Bounded.fillBuf (h : r.Bounded) : r.fillBuf.Bounded := by
  unfold BoundedLineReader.fillBuf
  split
  · exact ⟨h.within, h.unbroken, h.discarded⟩
  · exact h

theorem maxLen_fillBuf (r : BoundedLineReader) : r.fillBuf.maxLen = r.maxLen := by
  unfold fillBuf
  split <;> rfl

theorem owed_fillBuf (r : BoundedLineReader) : r.fillBuf.owed = r.owed := by
  have hrest := rest_fillBuf r
  have hsame : r.fillBuf.discarding = r.discarding ∧ r.fillBuf.buffer = r.buffer := by
    unfold fillBuf
    split <;> exact ⟨rfl, rfl⟩
  rw [owed, owed, hrest, hsame.1, hsame.2, maxLen_fillBuf]

theorem passed_receive (h : r.Bounded) : Passed r r.receive.1 r.receive.2 := by
  have hfilled := h.fillBuf
  have hpassed : Passed r.fillBuf r.receive.1 r.receive.2 := by
    unfold receive
    dsimp only
    split
    · next hheld =>
      refine passed_endOfStream hfilled ?_
      rw [rest_fillBuf]
      exact held_fillBuf hheld
    · split
      · next hdiscarding => exact passed_discard hfilled hdiscarding
      · next hcollecting => exact passed_collect hfilled (Bool.eq_false_iff.mpr hcollecting)
  have haccounts := hpassed.accounts
  refine ⟨hpassed.maxLen.trans (maxLen_fillBuf r), hpassed.bounded, ?_⟩
  generalize r.receive.2 = v at haccounts ⊢
  cases v <;> rwa [Accounts, owed_fillBuf] at haccounts

/-! ## Runs -/

def answer (line : Except FrameError String) : Except FrameError (Option String) := line.map some

/-- What `n` calls are to return: the lines, and then the end every time. -/
def answers (lines : List (Except FrameError String)) (n : Nat) : List (Except FrameError (Option String)) :=
  (lines.map answer ++ List.replicate n (Except.ok none)).take n

theorem answers_nil (n : Nat) : answers [] (n + 1) = .ok none :: answers [] n := by
  simp [answers, replicate_succ]

theorem answers_cons (line : Except FrameError String) (lines : List (Except FrameError String)) (n : Nat) :
    answers (line :: lines) (n + 1) = answer line :: answers lines n := by
  -- one more end behind the first `n` results is not read
  have hends : ∀ l : List (Except FrameError (Option String)),
      (l ++ List.replicate (n + 1) (Except.ok none)).take n =
        (l ++ List.replicate n (Except.ok none)).take n := fun l => by
    rw [replicate_succ', ← append_assoc, take_append_of_le_length (by simp)]
  rw [answers, map_cons, cons_append, take_succ_cons, hends]
  rfl

inductive Moves (r : BoundedLineReader) : BoundedLineReader → Prop
  | receive : Moves r r.receive.1
  | takeLine : Moves r r.takeLine

theorem nextLine_spec (h : r.Bounded) : r.nextLine.1.Bounded ∧
      ((r.owed = [] ∧ r.nextLine.2 = .ok none ∧ r.nextLine.1.owed = []) ∨
        ∃ out, r.owed = out :: r.nextLine.1.owed ∧ r.nextLine.2 = out.map some) := by
  induction r using nextLine.induct with
  | case1 r r' hreceive ih =>
    have hpassed := passed_receive h
    rw [hreceive] at hpassed
    have hsame : r'.owed = r.owed := hpassed.accounts
    rw [nextLine, hreceive, ← hsame]
    exact ih hpassed.bounded
  | case2 r r' hreceive =>
    have hpassed := passed_receive h
    rw [hreceive] at hpassed
    rw [nextLine, hreceive]
    exact ⟨.takeLine, .inr ⟨_, hpassed.accounts, rfl⟩⟩
  | case3 r r' hreceive =>
    have hpassed := passed_receive h
    rw [hreceive] at hpassed
    rw [nextLine, hreceive]
    exact ⟨hpassed.bounded, .inr ⟨_, hpassed.accounts, rfl⟩⟩
  | case4 r r' hreceive =>
    have hpassed := passed_receive h
    rw [hreceive] at hpassed
    rw [nextLine, hreceive]
    exact ⟨hpassed.bounded, .inl ⟨hpassed.accounts.1, rfl, hpassed.accounts.2⟩⟩

theorem results_eq (n : Nat) (h : r.Bounded) : results n r = answers r.owed n := by
  induction n generalizing r with
  | zero => rfl
  | succ n ih =>
    obtain ⟨hbounded, ⟨howed, hend, hdone⟩ | ⟨out, howed, hout⟩⟩ := nextLine_spec h
    · rw [results, ih hbounded, howed, hdone, hend, answers_nil]
    · rw [results, ih hbounded, howed, hout, answers_cons, answer]

theorem bounded_new (reader : List Chunk) (maxLen : Nat) : (new reader maxLen).Bounded :=
  ⟨Nat.zero_le _, not_mem_nil, fun _ => rfl⟩

theorem Bounded.moves {r' : BoundedLineReader} (h : r.Bounded) (hmoves : Moves r r') :
    r'.Bounded ∧ r'.maxLen = r.maxLen := by
  cases hmoves with
  | receive => exact ⟨(passed_receive h).bounded, (passed_receive h).maxLen⟩
  | takeLine => exact ⟨.takeLine, rfl⟩

/-- The framing does not depend on the reads: the results are the stream's own lines, and then the end;
and the buffer stays within its bound in every state of the reader. -/
theorem nextLine_unchunked (reader : List Chunk) (maxLen : Nat) :
    (∀ n, results n (new reader maxLen) = answers (reference maxLen (reader.flatMap Chunk.bytes)) n) ∧
    ∀ r, Relation.ReflTransGen Moves (new reader maxLen) r → r.buffer.length ≤ maxLen := by
  constructor
  · intro n
    exact results_eq n (bounded_new reader maxLen)
  · intro r hruns
    have hkept : r.Bounded ∧ r.maxLen = maxLen := by
      induction hruns with
      | refl => exact ⟨bounded_new reader maxLen, rfl⟩
      | tail _ hmoves ih =>
        obtain ⟨hbounded, hsame⟩ := ih.1.moves hmoves
        exact ⟨hbounded, hsame.trans ih.2⟩
    rw [← hkept.2]
    exact hkept.1.within

end BoundedLineReader
end Ratatoskr.Ipc

import Ratatoskr.Lib.Slices
import Ratatoskr.Threading.Text

/-!
# SmartFolder.Lexer

The operator spans of a query (`smart-folder/src/parser/lexer.rs`). Texts are lists of characters, the
offsets are the source's, in bytes; a slice at an offset inside a character panics.

`Laid` says where spans stand: one behind the other, each of them a part of the text between characters.
`collectFrom_laid` is its proof: no slice of the lexer panics.
-/

namespace Ratatoskr.SmartFolder

open List
open Lib (byteLength splitBytes sliceFrom sliceTo find)
open Rte (isWhitespace)
open Threading (trimStart)

inductive Panic where
  | boundary
  | spanDays
  deriving DecidableEq

/-- A slice, or the panic. -/
def sliced {α : Type} (s : Option α) : Except Panic α :=
  match s with
  | some a => .ok a
  | none => .error .boundary

@[simp] theorem sliced_some {α : Type} (a : α) : sliced (some a) = .ok a := rfl

@[simp] theorem ok_bind {α β : Type} (a : α) (f : α → Except Panic β) : (Except.ok a >>= f) = f a := rfl

structure OperatorSpan where
  start : Nat
  stop : Nat
  operator : String
  value : List Char
  deriving DecidableEq

def operators : List String :=
  ["from", "to", "has", "is", "before", "after", "label", "account", "folder", "in", "type"]

def isAsciiWhitespace (c : Char) : Bool :=
  c = ' ' ∨ c = '\t' ∨ c = '\n' ∨ c = '\x0c' ∨ c = '\r'

/-- `input.as_bytes()[i].is_ascii_whitespace()`: a byte below 128 is a character of its own. -/
def blankByte (input : List Char) (i : Nat) : Bool :=
  match splitBytes i input with
  | some (_, c :: _) => isAsciiWhitespace c
  | _ => false

/-- What is behind an opening quote up to the next one, if there is one, and the offset behind that. -/
def quotedValue (trimmed : List Char) (start : Nat) : Except Panic (Option (List Char × Nat)) :=
  match trimmed with
  | '"' :: afterQuote =>
    match find (· = '"') afterQuote with
    | some close => do
      let value ← sliced (sliceTo afterQuote close)
      .ok (some (value, start + close + 2))
    | none => .ok none
  | _ => .ok none

def tokenEnd (s : List Char) : Nat := (find isWhitespace s).getD (byteLength s)

def extractValue (input : List Char) (pos : Nat) : Except Panic (List Char × Nat) := do
  let rest ← sliced (sliceFrom input pos)
  let trimmed := trimStart rest
  let start := pos + (byteLength rest - byteLength trimmed)
  match ← quotedValue trimmed start with
  | some quoted => .ok quoted
  | none => do
    let value ← sliced (sliceTo trimmed (tokenEnd trimmed))
    .ok (value, start + tokenEnd trimmed)

def isFourDigitYear (token : List Char) : Bool := byteLength token = 4 ∧ token.all Char.isDigit

def isShortDigitToken (token : List Char) : Bool :=
  1 ≤ byteLength token ∧ byteLength token ≤ 2 ∧ token.all Char.isDigit

/-- The loop of `greedy_consume_date_parts`, for so many more parts. -/
def greedyParts (trimmed : List Char) : Nat → List Char → Nat → Except Panic (List Char × Nat)
  | 0, combined, cursor => .ok (combined, cursor)
  | n + 1, combined, cursor => do
    let after ← sliced (sliceFrom trimmed cursor)
    let nextTrimmed := trimStart after
    if nextTrimmed = [] then .ok (combined, cursor)
    else do
      let wsSkip := byteLength after - byteLength nextTrimmed
      let nextToken ← sliced (sliceTo nextTrimmed (tokenEnd nextTrimmed))
      if isShortDigitToken nextToken then
        greedyParts trimmed n (combined ++ ' ' :: nextToken) (cursor + wsSkip + tokenEnd nextTrimmed)
      else .ok (combined, cursor)

def extractDateValue (input : List Char) (pos : Nat) : Except Panic (List Char × Nat) := do
  let rest ← sliced (sliceFrom input pos)
  let trimmed := trimStart rest
  let start := pos + (byteLength rest - byteLength trimmed)
  match ← quotedValue trimmed start with
  | some quoted => .ok quoted
  | none => do
    let firstToken ← sliced (sliceTo trimmed (tokenEnd trimmed))
    if isFourDigitYear firstToken then do
      let parts ← greedyParts trimmed 2 firstToken (tokenEnd trimmed)
      .ok (parts.1, start + parts.2)
    else .ok (firstToken, start + tokenEnd trimmed)

def isDateOperator (op : String) : Bool := op = "before" ∨ op = "after"

def extractFor (op : String) (input : List Char) (pos : Nat) : Except Panic (List Char × Nat) :=
  if isDateOperator op then extractDateValue input pos else extractValue input pos

def matchSingleOperator (input : List Char) (pos : Nat) (op : String) :
    Except Panic (Option OperatorSpan) := do
  let rest ← sliced (sliceFrom input pos)
  let lead := op.toList ++ [':']
  if lead.isPrefixOf (rest.map Char.toLower) then do
    let afterColon := pos + byteLength lead
    let extracted ← extractFor op input afterColon
    if extracted.1 = [] then .ok none else .ok (some ⟨pos, extracted.2, op, extracted.1⟩)
  else .ok none

def firstOperator (input : List Char) (pos : Nat) : List String → Except Panic (Option OperatorSpan)
  | [] => .ok none
  | op :: ops => do
    match ← matchSingleOperator input pos op with
    | some span => .ok (some span) | none => firstOperator input pos ops

def tryParseOperatorAt (input : List Char) (pos : Nat) : Except Panic (Option OperatorSpan) :=
  if 0 < pos ∧ ¬blankByte input (pos - 1) then .ok none
  else firstOperator input pos operators

/-- The loop of `collect_operator_spans`. Every pass goes on by a byte at least: the length of the text is
fuel enough. -/
def collectFrom (input : List Char) : Nat → Nat → Except Panic (List OperatorSpan)
  | 0, _ => .ok []
  | n + 1, pos =>
    if pos < byteLength input then do
      match ← tryParseOperatorAt input pos with
      | some span => do
        let spans ← collectFrom input n span.stop
        .ok (span :: spans)
      | none => collectFrom input n (pos + 1)
    else .ok []

def collectOperatorSpans (input : List Char) : Except Panic (List OperatorSpan) :=
  collectFrom input (byteLength input) 0

/-! ## No slice panics -/

theorem trimStart_split (s : List Char) :
    ∃ blanks, s = blanks ++ trimStart s ∧ blanks.all isWhitespace = true ∧
      byteLength s - byteLength (trimStart s) = byteLength blanks := by
  refine ⟨s.takeWhile isWhitespace, (takeWhile_append_dropWhile ..).symm, all_takeWhile, ?_⟩
  have hlength := congrArg byteLength (takeWhile_append_dropWhile (p := isWhitespace) (l := s))
  rw [Lib.byteLength_append] at hlength
  rw [trimStart]
  omega

theorem token_split (s : List Char) :
    ∃ token tail, s = token ++ tail ∧ (∀ c ∈ token, isWhitespace c = false) ∧
      tokenEnd s = byteLength token ∧ sliceTo s (tokenEnd s) = some token := by
  rcases Lib.find_cases isWhitespace s with ⟨a, c, b, rfl, hbefore, -, hat⟩ | ⟨hnone, hat⟩
  · have hend : tokenEnd (a ++ c :: b) = byteLength a := by rw [tokenEnd, hat, Option.getD_some]
    exact ⟨a, c :: b, rfl, hbefore, hend, by rw [hend, Lib.sliceTo_append]⟩
  · have hend : tokenEnd s = byteLength s := by rw [tokenEnd, hat, Option.getD_none]
    have hall := Lib.sliceTo_append s []
    rw [append_nil] at hall
    exact ⟨s, [], (append_nil s).symm, hnone, hend, by rw [hend, hall]⟩

theorem quotedValue_cases (trimmed : List Char) (start : Nat) : quotedValue trimmed start = .ok none ∨
      ∃ value tail, trimmed = '"' :: (value ++ '"' :: tail) ∧ quotedValue trimmed start =
          .ok (some (value, start + byteLength ('"' :: (value ++ ['"'])))) := by
  unfold quotedValue
  split
  · next afterQuote =>
    rcases Lib.find_cases (fun c => decide (c = '"')) afterQuote with
      ⟨value, c, tail, rfl, -, hc, hat⟩ | ⟨-, hat⟩
    · obtain rfl := of_decide_eq_true hc
      refine .inr ⟨value, tail, rfl, ?_⟩
      have hlength : byteLength ('"' :: (value ++ ['"'])) = byteLength value + 2 := by
        rw [Lib.byteLength_cons, Lib.byteLength_append, Lib.byteLength_cons, Lib.byteLength_nil,
          show '"'.utf8Size = 1 from rfl]
        omega
      rw [hat]
      dsimp only
      rw [Lib.sliceTo_append, hlength]
      rfl
    · rw [hat]
      exact .inl rfl
  · exact .inl rfl

/-- What an extraction reads: the value, and the part of the text up to its end. -/
def Extracts (before rest : List Char) (e : Except Panic (List Char × Nat)) : Prop :=
  ∃ value used tail, rest = used ++ tail ∧ e = .ok (value, byteLength (before ++ used))

theorem Extracts.quoted {before rest blanks value tail : List Char} (hrest : rest = blanks ++ trimStart rest)
    (htrimmed : trimStart rest = '"' :: (value ++ '"' :: tail)) : Extracts before rest
      (.ok (value, byteLength before + byteLength blanks + byteLength ('"' :: (value ++ ['"'])))) := by
  refine ⟨value, blanks ++ '"' :: (value ++ ['"']), tail, ?_, ?_⟩
  · rw [hrest, htrimmed]
    simp
  · rw [Lib.byteLength_append, Lib.byteLength_append, Nat.add_assoc]

theorem Extracts.tokens {before rest blanks value used tail : List Char}
    (hrest : rest = blanks ++ trimStart rest) (htrimmed : trimStart rest = used ++ tail) :
    Extracts before rest (.ok (value, byteLength before + byteLength blanks + byteLength used)) := by
  refine ⟨value, blanks ++ used, tail, ?_, ?_⟩
  · rw [hrest, htrimmed, append_assoc]
  · rw [Lib.byteLength_append, Lib.byteLength_append, Nat.add_assoc]

theorem extractValue_extracts (before rest : List Char) :
    Extracts before rest (extractValue (before ++ rest) (byteLength before)) := by
  obtain ⟨blanks, hblanks, -, hskip⟩ := trimStart_split rest
  obtain ⟨token, tail, htoken, -, hend, hslice⟩ := token_split (trimStart rest)
  unfold extractValue
  rw [Lib.sliceFrom_append, sliced_some, ok_bind]
  dsimp only
  rw [hskip]
  rcases quotedValue_cases (trimStart rest) (byteLength before + byteLength blanks) with
    hquoted | ⟨value, behind, htrimmed, hquoted⟩
  · rw [hquoted, hslice, hend]
    exact .tokens hblanks htoken
  · rw [hquoted]
    exact .quoted hblanks htrimmed

theorem greedyParts_reads (n : Nat) (front after combined : List Char) :
    ∃ combined' used tail, after = used ++ tail ∧ greedyParts (front ++ after) n combined (byteLength front) =
        .ok (combined', byteLength (front ++ used)) := by
  induction n generalizing front after combined with
  | zero => exact ⟨combined, [], after, rfl, by rw [greedyParts, append_nil]⟩
  | succ n ih =>
    obtain ⟨blanks, hblanks, -, hskip⟩ := trimStart_split after
    obtain ⟨token, tail, htoken, -, hend, hslice⟩ := token_split (trimStart after)
    have hstop : ∀ e : Except Panic (List Char × Nat), e = .ok (combined, byteLength front) →
        ∃ combined' used tail, after = used ++ tail ∧
          e = .ok (combined', byteLength (front ++ used)) :=
      fun e he => ⟨combined, [], after, rfl, by rw [he, append_nil]⟩
    rw [greedyParts, Lib.sliceFrom_append, sliced_some, ok_bind]
    dsimp only
    split
    · exact hstop _ rfl
    rw [hslice, sliced_some, ok_bind]
    split
    · obtain ⟨combined', used, behind, hused, heq⟩ :=
        ih (front ++ (blanks ++ token)) tail (combined ++ ' ' :: token)
      refine ⟨combined', blanks ++ token ++ used, behind, ?_, ?_⟩
      · rw [hblanks, htoken, hused]
        simp
      · rw [hskip, hend, Nat.add_assoc, ← Lib.byteLength_append, ← Lib.byteLength_append]
        rw [append_assoc, append_assoc, ← htoken, ← hblanks] at heq
        rw [heq]
        simp
    · exact hstop _ rfl

theorem extractDateValue_extracts (before rest : List Char) :
    Extracts before rest (extractDateValue (before ++ rest) (byteLength before)) := by
  obtain ⟨blanks, hblanks, -, hskip⟩ := trimStart_split rest
  obtain ⟨token, tail, htoken, -, hend, hslice⟩ := token_split (trimStart rest)
  unfold extractDateValue
  rw [Lib.sliceFrom_append, sliced_some, ok_bind]
  dsimp only
  rw [hskip]
  rcases quotedValue_cases (trimStart rest) (byteLength before + byteLength blanks) with
    hquoted | ⟨value, behind, htrimmed, hquoted⟩
  · rw [hquoted, ok_bind]
    dsimp only
    rw [hslice, sliced_some, ok_bind]
    split
    · obtain ⟨combined, used, behind, hused, heq⟩ := greedyParts_reads 2 token tail token
      rw [hend]
      rw [← htoken] at heq
      rw [heq]
      refine .tokens hblanks (?_ : trimStart rest = (token ++ used) ++ behind)
      rw [htoken, hused, append_assoc]
    · rw [hend]
      exact .tokens hblanks htoken
  · rw [hquoted]
    exact .quoted hblanks htrimmed

structure SpanAt (input : List Char) (span : OperatorSpan) (before body after : List Char) : Prop where
  text : input = before ++ (body ++ after)
  start : span.start = byteLength before
  stop : span.stop = byteLength (before ++ body)
  nonempty : body ≠ []
  value : span.value ≠ []
  operator : span.operator ∈ operators

theorem SpanAt.start_lt {input before body after : List Char} {span : OperatorSpan}
    (h : SpanAt input span before body after) : span.start < span.stop := by
  have hpos := Lib.byteLength_pos h.nonempty
  rw [h.start, h.stop, Lib.byteLength_append]
  omega

inductive Laid (input : List Char) : Nat → List OperatorSpan → Prop
  | nil (pos : Nat) : Laid input pos []
  | cons {pos : Nat} {span : OperatorSpan} {spans : List OperatorSpan} {before body after : List Char}
      (hspan : SpanAt input span before body after) (hpos : pos ≤ span.start)
      (hrest : Laid input span.stop spans) : Laid input pos (span :: spans)

/-- A text that begins with the operator, in either case, as a word and what follows. -/
theorem lead_split {op : String} {rest : List Char}
    (h : (op.toList ++ [':']).isPrefixOf (rest.map Char.toLower) = true) :
    ∃ word behind, rest = word ++ behind ∧ word ≠ [] ∧ byteLength word = byteLength (op.toList ++ [':']) := by
  obtain ⟨behind, hbehind⟩ := isPrefixOf_iff_prefix.mp h
  obtain ⟨word, rest', rfl, hword, -⟩ := map_eq_append_iff.mp hbehind.symm
  refine ⟨word, rest', rfl, ?_, ?_⟩
  · rintro rfl
    simp at hword
  · rw [← Lib.byteLength_map_toLower, hword]

theorem matchSingleOperator_cases (before rest : List Char) {op : String} (hop : op ∈ operators) :
    matchSingleOperator (before ++ rest) (byteLength before) op = .ok none ∨
      ∃ span body after, SpanAt (before ++ rest) span before body after ∧
        matchSingleOperator (before ++ rest) (byteLength before) op = .ok (some span) := by
  unfold matchSingleOperator
  rw [Lib.sliceFrom_append, sliced_some, ok_bind]
  dsimp only
  split
  · next hlead =>
    obtain ⟨word, behind, rfl, hne, hlength⟩ := lead_split hlead
    have hcolon : byteLength before + byteLength (op.toList ++ [':']) = byteLength (before ++ word) := by
      rw [Lib.byteLength_append before word, hlength]
    have hextracts : Extracts (before ++ word) behind
        (extractFor op (before ++ (word ++ behind)) (byteLength (before ++ word))) := by
      rw [← append_assoc, extractFor]
      split
      · exact extractDateValue_extracts _ _
      · exact extractValue_extracts _ _
    obtain ⟨value, used, tail, rfl, heq⟩ := hextracts
    rw [hcolon, heq, ok_bind]
    split
    · exact .inl rfl
    next hvalue =>
    refine .inr ⟨_, word ++ used, tail, ⟨?_, rfl, ?_, ?_, hvalue, hop⟩, rfl⟩
    · simp
    · rw [append_assoc]
    · simp [hne]
  · exact .inl rfl

theorem firstOperator_cases (before rest : List Char) {ops : List String} (hops : ops ⊆ operators) :
    firstOperator (before ++ rest) (byteLength before) ops = .ok none ∨
      ∃ span body after, SpanAt (before ++ rest) span before body after ∧
        firstOperator (before ++ rest) (byteLength before) ops = .ok (some span) := by
  induction ops with
  | nil => exact .inl rfl
  | cons op ops ih =>
    rw [firstOperator]
    rcases matchSingleOperator_cases before rest (hops (mem_cons_self ..)) with
      hnone | ⟨span, body, after, hspan, hsome⟩
    · rw [hnone]
      exact ih fun o ho => hops (mem_cons_of_mem _ ho)
    · rw [hsome]
      exact .inr ⟨span, body, after, hspan, rfl⟩

theorem blankByte_boundary {input : List Char} {i : Nat} (h : blankByte input i = true) :
    ∃ before rest, input = before ++ rest ∧ byteLength before = i + 1 := by
  unfold blankByte at h
  split at h
  · next a c b hsplit =>
    obtain ⟨rfl, rfl⟩ := Lib.splitBytes_eq_some.mp hsplit
    have hone : c.utf8Size = 1 := by
      have hchars : ∀ d : Char, isAsciiWhitespace d = true → d.utf8Size = 1 := by
        intro d hd
        rcases of_decide_eq_true hd with rfl | rfl | rfl | rfl | rfl <;> rfl
      exact hchars c h
    refine ⟨a ++ [c], b, by simp, ?_⟩
    rw [Lib.byteLength_append, Lib.byteLength_cons, hone, Lib.byteLength_nil]
  · cases h

theorem tryParseOperatorAt_cases (input : List Char) (pos : Nat) : tryParseOperatorAt input pos = .ok none ∨
      ∃ span before body after, SpanAt input span before body after ∧ span.start = pos ∧
        tryParseOperatorAt input pos = .ok (some span) := by
  unfold tryParseOperatorAt
  split
  · exact .inl rfl
  next hat =>
  obtain ⟨before, rest, rfl, rfl⟩ : ∃ before rest, input = before ++ rest ∧ byteLength before = pos := by
    rcases Nat.eq_zero_or_pos pos with rfl | hpos
    · exact ⟨[], input, rfl, rfl⟩
    have hblank : blankByte input (pos - 1) = true := by
      by_contra hno
      exact hat ⟨hpos, hno⟩
    obtain ⟨before, rest, htext, hlength⟩ := blankByte_boundary hblank
    exact ⟨before, rest, htext, by omega⟩
  rcases firstOperator_cases before rest (List.Subset.refl operators) with
    hnone | ⟨span, body, after, hspan, hsome⟩
  · exact .inl hnone
  · exact .inr ⟨span, before, body, after, hspan, hspan.start, hsome⟩

theorem collectFrom_laid (input : List Char) (n pos : Nat) :
    ∃ spans, collectFrom input n pos = .ok spans ∧ Laid input pos spans := by
  induction n generalizing pos with
  | zero => exact ⟨[], rfl, .nil pos⟩
  | succ n ih =>
    rw [collectFrom]
    split
    · rcases tryParseOperatorAt_cases input pos with hnone | ⟨span, before, body, after, hspan, hstart, hsome⟩
      · obtain ⟨spans, hspans, hlaid⟩ := ih (pos + 1)
        rw [hnone]
        refine ⟨spans, hspans, ?_⟩
        cases hlaid with
        | nil => exact .nil _
        | cons hspan hpos hrest => exact .cons hspan (by omega) hrest
      · obtain ⟨spans, hspans, hlaid⟩ := ih span.stop
        rw [hsome, ok_bind]
        dsimp only
        rw [hspans]
        exact ⟨span :: spans, rfl, .cons hspan (by omega) hlaid⟩
    · exact ⟨[], rfl, .nil pos⟩

theorem collectOperatorSpans_laid (input : List Char) :
    ∃ spans, collectOperatorSpans input = .ok spans ∧ Laid input 0 spans :=
  collectFrom_laid input _ 0

end Ratatoskr.SmartFolder

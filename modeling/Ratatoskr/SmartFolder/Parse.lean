import Ratatoskr.Calendar.Rule
import Ratatoskr.SmartFolder.Lexer
import Ratatoskr.SmartFolder.Query

/-!
# SmartFolder.Parse

From the operator spans of a query to its filters and its free text (`smart-folder/src/parser/mod.rs`,
`apply.rs`, `dates.rs`). The day it is and the zone of the host are parameters.

A panic of `parse_query` can only come from `Span::days`, which has a range (`parseQuery_ok_iff`).
-/

namespace Ratatoskr.SmartFolder

open List
open Calendar (Date TimeZone parseI64 parseI32 parseU32 civilDate spanLimit)
open Lib (byteLength sliceFrom sliceTo slice)
open Rte (isWhitespace)
open Threading (trim splitWords)

variable {spans : List OperatorSpan} {i pos : Nat} {a input s : List Char}

structure Clock where
  today : Date
  system : TimeZone

def naiveDateToTimestamp (clock : Clock) (date : Date) : Option Int :=
  clock.system.toZoned (Calendar.Date.toDateTime date 0)

/-- `today.checked_add(Span::new().days(days))`. -/
def addDays (today : Date) (days : Int) : Option Date :=
  if Calendar.Date.min ≤ today + days ∧ today + days ≤ Calendar.Date.max then some (today + days) else none

def parseRelativeOffset (clock : Clock) (s : List Char) : Except Panic (Option Int) :=
  match parseI64 s with
  | none => .ok none
  | some days =>
    if 0 < days then .ok none
    else if days < -spanLimit then .error .spanDays
    else .ok ((addDays clock.today days).bind (naiveDateToTimestamp clock))

def parseParts (clock : Clock) : List (List Char) → Option Int
  | [year, month, day] => do
    let date ← civilDate (← parseI32 year) (← parseU32 month) (← parseU32 day)
    naiveDateToTimestamp clock date
  | [year, month] => do
    let date ← civilDate (← parseI32 year) (← parseU32 month) 1
    naiveDateToTimestamp clock date
  | _ => none

def parseSeparatedDate (clock : Clock) (s : List Char) : Option Int :=
  parseParts clock (s.splitOn (if '/' ∈ s then '/' else '-'))

def parseSpaceSeparatedDate (clock : Clock) (s : List Char) : Option Int :=
  parseParts clock (splitWords [] s)

def parseCompactDate (clock : Clock) (s : List Char) : Except Panic (Option Int) :=
  if ¬s.all Char.isDigit then .ok none
  else if byteLength s = 4 then
    .ok ((parseI32 s).bind fun year => (civilDate year 1 1).bind (naiveDateToTimestamp clock))
  else if byteLength s = 6 then do
    let year ← sliced (sliceTo s 4)
    let month ← sliced (slice s 4 6)
    .ok (parseParts clock [year, month])
  else if byteLength s = 8 then do
    let year ← sliced (sliceTo s 4)
    let month ← sliced (slice s 4 6)
    let day ← sliced (slice s 6 8)
    .ok (parseParts clock [year, month, day])
  else .ok none

def parseDateToTimestamp (clock : Clock) (dateStr : List Char) : Except Panic (Option Int) :=
  let trimmed := trim dateStr
  if trimmed = [] then .ok none
  else if trimmed = ['0'] ∨ trimmed.head? = some '-' then parseRelativeOffset clock trimmed
  else if '/' ∈ trimmed ∨ '-' ∈ trimmed then .ok (parseSeparatedDate clock trimmed)
  else if ' ' ∈ trimmed then .ok (parseSpaceSeparatedDate clock trimmed)
  else parseCompactDate clock trimmed

def hasExpansions : List (String × List String) :=
  [("pdf", ["application/pdf"]),
    ("image", ["image/jpeg", "image/png", "image/gif", "image/webp", "image/svg+xml"]),
    ("excel", ["application/vnd.ms-excel",
      "application/vnd.openxmlformats-officedocument.spreadsheetml.sheet",
      "application/vnd.oasis.opendocument.spreadsheet", "text/csv"]), ("word", ["application/msword",
      "application/vnd.openxmlformats-officedocument.wordprocessingml.document",
      "application/vnd.oasis.opendocument.text", "application/rtf"]),
    ("powerpoint", ["application/vnd.ms-powerpoint",
      "application/vnd.openxmlformats-officedocument.presentationml.presentation",
      "application/vnd.oasis.opendocument.presentation"]),
    ("archive", ["application/zip", "application/gzip", "application/x-tar",
      "application/x-7z-compressed", "application/x-rar-compressed"]), ("video", ["video/*"]),
    ("audio", ["audio/*"]), ("calendar", ["text/calendar", "application/ics"])]

def pushMimes (result : ParsedQuery) (mimes : List String) : ParsedQuery :=
  { result with attachmentTypes := result.attachmentTypes ++ mimes }

def pushExpansionMimes (result : ParsedQuery) (key : String) : ParsedQuery × Bool :=
  match hasExpansions.lookup key with
  | some mimes => (pushMimes result mimes, true)
  | none => (result, false)

def expandHasValue (result : ParsedQuery) (value : String) : ParsedQuery × Bool :=
  if value = "spreadsheet" then ((pushExpansionMimes result "excel").1, true)
  else if value = "document" then
    ((pushExpansionMimes (pushExpansionMimes result "word").1 "pdf").1, true)
  else pushExpansionMimes result value

def applyHasOperator (result : ParsedQuery) (value : List Char) : ParsedQuery × Bool :=
  let lower := String.ofList (value.map Char.toLower)
  if lower = "attachment" then ({ result with hasAttachment := true }, true)
  else if lower = "contact" then ({ result with hasContact := true }, true)
  else expandHasValue result lower

def applyIsOperator (result : ParsedQuery) (value : List Char) : ParsedQuery × Bool :=
  match String.ofList (value.map Char.toLower) with
  | "unread" => ({ result with isUnread := some true }, true)
  | "read" => ({ result with isRead := some true }, true)
  | "starred" => ({ result with isStarred := some true }, true)
  | "snoozed" => ({ result with isSnoozed := some true }, true)
  | "pinned" => ({ result with isPinned := some true }, true)
  | "muted" => ({ result with isMuted := some true }, true)
  | "tagged" => ({ result with isTagged := some true }, true)
  | _ => (result, false)

/-- `apply_operator`, with the operators that collect their values as they are in `applyOperator`. -/
def applyNamedOperator (clock : Clock) (result : ParsedQuery) (operator : String) (value : List Char) :
    Except Panic (ParsedQuery × Bool) :=
  match operator with
  | "from" => .ok (applyOperator result .from (String.ofList value), true)
  | "to" => .ok (applyOperator result .to (String.ofList value), true)
  | "has" => .ok (applyHasOperator result value)
  | "is" => .ok (applyIsOperator result value)
  | "before" => do
    let timestamp ← parseDateToTimestamp clock value
    .ok ({ result with before := timestamp.map fun t => ⟨t, .before⟩ }, true)
  | "after" => do
    let timestamp ← parseDateToTimestamp clock value
    .ok ({ result with after := timestamp.map fun t => ⟨t, .after⟩ }, true)
  | "label" => .ok (applyOperator result .label (String.ofList value), true)
  | "account" => .ok (applyOperator result .account (String.ofList value), true)
  | "folder" => .ok (applyOperator result .folder (String.ofList value), true)
  | "in" => .ok (applyOperator result .in (String.ofList value), true)
  | "type" => .ok (applyOperator result .type (String.ofList value), true)
  | _ => .ok (result, false)

/-! ## Queries -/

/-- The pass over the spans: the filters, and which spans were recognized. -/
def applySpans (clock : Clock) : ParsedQuery → List OperatorSpan → Except Panic (ParsedQuery × List Bool)
  | result, [] => .ok (result, [])
  | result, span :: spans => do
    let applied ← applyNamedOperator clock result span.operator span.value
    let rest ← applySpans clock applied.1 spans
    .ok (rest.1, applied.2 :: rest.2)

def removeSpans (input : List Char) : List OperatorSpan → Except Panic (List Char)
  | [] => .ok input
  | span :: spans => do
    let remaining ← removeSpans input spans
    let front ← sliced (sliceTo remaining span.start)
    let behind ← sliced (sliceFrom remaining span.stop)
    .ok (front ++ behind)

def collapseWhitespace (s : List Char) : List Char := [' '].intercalate (splitWords [] s)

def recognizedSpans (spans : List OperatorSpan) (recognized : List Bool) : List OperatorSpan :=
  ((spans.zip recognized).filter Prod.snd).map Prod.fst

def parseQuery (clock : Clock) (input : List Char) : Except Panic ParsedQuery := do
  let spans ← collectOperatorSpans input
  let applied ← applySpans clock .default spans
  let remaining ← removeSpans input (recognizedSpans spans applied.2)
  .ok { applied.1 with freeText := String.ofList (collapseWhitespace remaining) }

def covered (spans : List OperatorSpan) (i : Nat) : Bool :=
  spans.any fun span => decide (span.start ≤ i ∧ i < span.stop)

/-- A text, standing at an offset, without the characters that spans cover. -/
def withoutSpans (spans : List OperatorSpan) : Nat → List Char → List Char
  | _, [] => []
  | i, c :: s =>
    if covered spans i then withoutSpans spans (i + c.utf8Size) s
    else c :: withoutSpans spans (i + c.utf8Size) s

theorem withoutSpans_append (spans : List OperatorSpan) (i : Nat) (a b : List Char) :
    withoutSpans spans i (a ++ b) = withoutSpans spans i a ++ withoutSpans spans (i + byteLength a) b := by
  induction a generalizing i with
  | nil => rfl
  | cons c a ih =>
    rw [cons_append, withoutSpans, withoutSpans, ih, Nat.add_assoc]
    split <;> rfl

theorem withoutSpans_free (h : ∀ j, i ≤ j → j < i + byteLength a → covered spans j = false) :
    withoutSpans spans i a = a := by
  induction a generalizing i with
  | nil => rfl
  | cons c a ih =>
    rw [Lib.byteLength_cons] at h
    have hpos := c.utf8Size_pos
    rw [withoutSpans, h i (Nat.le_refl i) (by omega), ih fun j hlow hhigh => h j (by omega) (by omega)]
    rfl

theorem withoutSpans_covered (h : ∀ j, i ≤ j → j < i + byteLength a → covered spans j = true) :
    withoutSpans spans i a = [] := by
  induction a generalizing i with
  | nil => rfl
  | cons c a ih =>
    rw [Lib.byteLength_cons] at h
    have hpos := c.utf8Size_pos
    rw [withoutSpans, h i (Nat.le_refl i) (by omega), ih fun j hlow hhigh => h j (by omega) (by omega)]
    rfl

theorem withoutSpans_behind {span : OperatorSpan} (h : span.stop ≤ i) :
    withoutSpans (span :: spans) i a = withoutSpans spans i a := by
  induction a generalizing i with
  | nil => rfl
  | cons c a ih =>
    have hcovered : covered (span :: spans) i = covered spans i := by
      rw [covered, any_cons, decide_eq_false (by omega)]
      rfl
    rw [withoutSpans, withoutSpans, hcovered, ih (by omega)]

theorem Laid.mono {pos' : Nat} (h : Laid input pos spans) (hpos : pos' ≤ pos) : Laid input pos' spans := by
  cases h with
  | nil => exact .nil _
  | cons hspan hstart hrest => exact .cons hspan (by omega) hrest

theorem Laid.sublist {spans' : List OperatorSpan} (h : Laid input pos spans)
    (hsub : spans'.Sublist spans) : Laid input pos spans' := by
  induction hsub generalizing pos with
  | slnil => exact h
  | cons span _ ih =>
    cases h with
    | cons hspan hstart hrest => exact (ih hrest).mono (by have := hspan.start_lt; omega)
  | cons_cons span _ ih =>
    cases h with
    | cons hspan hstart hrest => exact .cons hspan hstart (ih hrest)

theorem Laid.uncovered (h : Laid input pos spans) (hi : i < pos) : covered spans i = false := by
  induction h with
  | nil => rfl
  | @cons pos span spans before body after hspan hstart hrest ih =>
    have hlt := hspan.start_lt
    have hrest := ih (by omega)
    rw [covered] at hrest ⊢
    rw [any_cons, hrest, decide_eq_false (by omega), Bool.false_or]

/-- Removing spans leaves what is in front of them as it is, and takes out of the rest what they cover. -/
theorem removeSpans_laid {b : List Char} (htext : input = a ++ b) (h : Laid input (byteLength a) spans) :
    removeSpans input spans = .ok (a ++ withoutSpans spans (byteLength a) b) := by
  generalize hpos : byteLength a = pos at h
  induction h generalizing a b with
  | nil =>
    rw [removeSpans, withoutSpans_free fun _ _ _ => rfl, htext]
  | @cons pos span spans before body after hspan hstart hrest ih =>
    have htail := ih (a := before ++ body) (b := after) (by rw [hspan.text, append_assoc])
      hspan.stop.symm
    rw [removeSpans, htail, ok_bind, append_assoc]
    rw [hspan.start, Lib.sliceTo_append, sliced_some]
    rw [hspan.stop, ← append_assoc, Lib.sliceFrom_append]
    -- `a` ends in front of the span
    obtain ⟨mid, rfl, rfl⟩ : ∃ mid, before = a ++ mid ∧ b = mid ++ (body ++ after) := by
      rw [htext] at hspan
      have hle : byteLength a ≤ byteLength before := by rw [hpos, ← hspan.start]; exact hstart
      rcases append_eq_append_iff.mp hspan.text with ⟨mid, hbefore, hb⟩ | ⟨mid, ha, hbody⟩
      · exact ⟨mid, hbefore, hb⟩
      rw [ha, Lib.byteLength_append] at hle
      have hnil : mid = [] := by
        by_contra hne
        have := Lib.byteLength_pos hne
        omega
      rw [hnil, append_nil] at ha
      rw [hnil] at hbody
      exact ⟨[], by rw [ha, append_nil], hbody.symm⟩
    have hstart' := hspan.start
    have hstop := hspan.stop
    rw [Lib.byteLength_append] at hstart'
    rw [Lib.byteLength_append, Lib.byteLength_append] at hstop
    have hmid : withoutSpans (span :: spans) pos mid = mid := by
      refine withoutSpans_free fun j _ hhigh => ?_
      have hlaid : Laid input span.start (span :: spans) := .cons hspan (Nat.le_refl _) hrest
      exact hlaid.uncovered (by omega)
    have hbody : withoutSpans (span :: spans) (pos + byteLength mid) body = [] := by
      refine withoutSpans_covered fun j hlow hhigh => ?_
      rw [covered, any_cons, decide_eq_true (by omega), Bool.true_or]
    have hafter : withoutSpans (span :: spans) (pos + byteLength mid + byteLength body) after =
        withoutSpans spans (pos + byteLength mid + byteLength body) after :=
      withoutSpans_behind (by omega)
    have hend : pos + byteLength mid + byteLength body = span.stop := by omega
    rw [withoutSpans_append, withoutSpans_append, hmid, hbody, hafter, hend]
    simp [hstop, Nat.add_assoc]

/-- A number of days in the past that `Span::days` does not take. -/
def TooFarBack (value : List Char) : Prop :=
  ∃ days, parseI64 (trim value) = some days ∧ days < -spanLimit

theorem parseI64_head {n : Int} (h : parseI64 s = some n) (hneg : n < 0) : s.head? = some '-' := by
  have hnat : ∀ ds : List Char, (do let a ← Calendar.parseDigits ds; pure (a : Int)) = some n → 0 ≤ n := by
    intro ds hds
    obtain ⟨k, -, hk⟩ := Option.bind_eq_some_iff.mp hds
    rw [← Option.some.inj hk]
    exact Int.natCast_nonneg k
  obtain ⟨h, -⟩ := Option.filter_eq_some_iff.mp h
  split at h
  · rfl
  · exact absurd hneg (Int.not_lt.mpr (hnat _ (by simpa using h)))
  · exact absurd hneg (Int.not_lt.mpr (hnat _ (by simpa using h)))

theorem byteLength_digits (h : s.all Char.isDigit = true) : byteLength s = s.length := by
  induction s with
  | nil => rfl
  | cons c s ih =>
    rw [all_cons, Bool.and_eq_true] at h
    have hdigit : c.utf8Size = 1 := by
      have hval := Char.isDigit_iff_toNat.mp h.1
      exact Char.utf8Size_eq_one_iff.mpr (UInt32.le_iff_toNat_le.mpr (Nat.le_trans hval.2 (by decide)))
    rw [Lib.byteLength_cons, ih h.2, hdigit, length_cons, Nat.add_comm]

theorem all_take (h : s.all Char.isDigit = true) (i : Nat) : (s.take i).all Char.isDigit = true :=
  all_eq_true.mpr fun c hc => all_eq_true.mp h c (take_subset i s hc)

theorem sliceTo_digits (h : s.all Char.isDigit = true) (hi : i ≤ s.length) :
    sliceTo s i = some (s.take i) := by
  have hlength : byteLength (s.take i) = i := by
    rw [byteLength_digits (all_take h i), length_take]
    omega
  have hslice := Lib.sliceTo_append (s.take i) (s.drop i)
  rwa [take_append_drop, hlength] at hslice

theorem slice_digits (h : s.all Char.isDigit = true) {j : Nat} (hij : i ≤ j) (hj : j ≤ s.length) :
    ∃ t, slice s i j = some t := by
  have hlength : byteLength ((s.take j).take i) = i := by
    rw [byteLength_digits (all_take (all_take h j) i), length_take, length_take]
    omega
  refine ⟨(s.take j).drop i, ?_⟩
  rw [slice, sliceTo_digits h hj, Option.bind_some, Lib.sliceFrom_eq_some]
  exact ⟨(s.take j).take i, (take_append_drop i _).symm, hlength⟩

theorem parseCompactDate_ok (clock : Clock) (s : List Char) : ∃ r, parseCompactDate clock s = .ok r := by
  unfold parseCompactDate
  split
  · exact ⟨_, rfl⟩
  next hdigits =>
  have hdigits := not_not.mp hdigits
  have hlength := byteLength_digits hdigits
  split
  · exact ⟨_, rfl⟩
  split
  · next hsix =>
    obtain ⟨month, hmonth⟩ := slice_digits hdigits (i := 4) (j := 6) (by decide) (by omega)
    rw [sliceTo_digits hdigits (by omega), hmonth]
    exact ⟨_, rfl⟩
  · split
    · next height =>
      obtain ⟨month, hmonth⟩ := slice_digits hdigits (i := 4) (j := 6) (by decide) (by omega)
      obtain ⟨day, hday⟩ := slice_digits hdigits (i := 6) (j := 8) (by decide) (by omega)
      rw [sliceTo_digits hdigits (by omega), hmonth, hday]
      exact ⟨_, rfl⟩
    · exact ⟨_, rfl⟩

theorem parseRelativeOffset_ok_iff (clock : Clock) (s : List Char) :
    (∃ r, parseRelativeOffset clock s = .ok r) ↔ ¬∃ days, parseI64 s = some days ∧ days < -spanLimit := by
  unfold parseRelativeOffset
  cases hdays : parseI64 s with
  | none => exact ⟨fun _ ⟨_, h, _⟩ => (nomatch h), fun _ => ⟨_, rfl⟩⟩
  | some days =>
    have hlimit : (∃ d, some days = some d ∧ d < -spanLimit) ↔ days < -spanLimit :=
      ⟨fun ⟨_, heq, hlt⟩ => Option.some.inj heq ▸ hlt, fun hlt => ⟨days, rfl, hlt⟩⟩
    rw [hlimit]
    dsimp only
    split
    · next hpos =>
      refine ⟨fun _ => ?_, fun _ => ⟨_, rfl⟩⟩
      unfold spanLimit
      omega
    · split
      · next hfar => exact ⟨fun ⟨_, h⟩ => (nomatch h), fun h => absurd hfar h⟩
      · next hnear => exact ⟨fun _ => hnear, fun _ => ⟨_, rfl⟩⟩

theorem parseDateToTimestamp_ok_iff (clock : Clock) (value : List Char) :
    (∃ r, parseDateToTimestamp clock value = .ok r) ↔ ¬TooFarBack value := by
  -- a number that is too far back is read as an offset
  have hother : ¬(trim value = ['0'] ∨ (trim value).head? = some '-') → ¬TooFarBack value := by
    rintro hno ⟨days, hdays, hfar⟩
    refine hno (.inr (parseI64_head hdays ?_))
    unfold spanLimit at hfar
    omega
  unfold parseDateToTimestamp
  dsimp only
  split
  · next hempty =>
    refine ⟨fun _ => hother ?_, fun _ => ⟨_, rfl⟩⟩
    rw [hempty]
    simp
  · split
    · exact parseRelativeOffset_ok_iff clock (trim value)
    · next hno =>
      refine ⟨fun _ => hother hno, fun _ => ?_⟩
      split
      · exact ⟨_, rfl⟩
      · split
        · exact ⟨_, rfl⟩
        · exact parseCompactDate_ok clock _

theorem map_ok_iff {α β : Type} (e : Except Panic α) (f : α → β) :
    (∃ r, (e >>= fun a => .ok (f a)) = .ok r) ↔ ∃ a, e = .ok a := by
  cases e with
  | ok a => exact ⟨fun _ => ⟨a, rfl⟩, fun _ => ⟨f a, rfl⟩⟩
  | error p => exact ⟨fun ⟨_, h⟩ => (nomatch h), fun ⟨_, h⟩ => (nomatch h)⟩

theorem applyNamedOperator_ok_iff (clock : Clock) (result : ParsedQuery) (operator : String)
    (value : List Char) : (∃ r, applyNamedOperator clock result operator value = .ok r) ↔
      (isDateOperator operator = true → ¬TooFarBack value) := by
  unfold applyNamedOperator
  split
  case h_5 =>
    rw [map_ok_iff, parseDateToTimestamp_ok_iff]
    exact ⟨fun h _ => h, fun h => h rfl⟩
  case h_6 =>
    rw [map_ok_iff, parseDateToTimestamp_ok_iff]
    exact ⟨fun h _ => h, fun h => h rfl⟩
  case h_12 hbefore hafter _ _ _ _ _ =>
    refine ⟨fun _ hdate => ?_, fun _ => ⟨_, rfl⟩⟩
    rcases of_decide_eq_true hdate with rfl | rfl
    · exact absurd rfl hbefore
    · exact absurd rfl hafter
  all_goals exact ⟨fun _ hdate => absurd hdate (by decide), fun _ => ⟨_, rfl⟩⟩

theorem applySpans_ok_iff (clock : Clock) (result : ParsedQuery) (spans : List OperatorSpan) :
    (∃ r, applySpans clock result spans = .ok r) ↔
      ∀ span ∈ spans, isDateOperator span.operator = true → ¬TooFarBack span.value := by
  induction spans generalizing result with
  | nil => exact ⟨fun _ _ h => absurd h not_mem_nil, fun _ => ⟨_, rfl⟩⟩
  | cons span spans ih =>
    rw [forall_mem_cons, ← applyNamedOperator_ok_iff clock result, applySpans]
    cases happlied : applyNamedOperator clock result span.operator span.value with
    | error p => exact ⟨fun ⟨_, h⟩ => (nomatch h), fun ⟨⟨_, h⟩, _⟩ => (nomatch h)⟩
    | ok applied =>
      rw [ok_bind, map_ok_iff, ih]
      exact ⟨fun h => ⟨⟨_, rfl⟩, h⟩, fun h => h.2⟩

def Mentions (input : List Char) (span : OperatorSpan) : Prop :=
  ∃ spans, collectOperatorSpans input = .ok spans ∧ span ∈ spans

theorem recognizedSpans_sublist (spans : List OperatorSpan) (recognized : List Bool) :
    (recognizedSpans spans recognized).Sublist spans := by
  have hfst : ((spans.zip recognized).map Prod.fst).Sublist spans := by
    induction spans generalizing recognized with
    | nil => exact List.Sublist.refl []
    | cons span spans ih =>
      cases recognized with
      | nil => exact nil_sublist _
      | cons r recognized => exact (ih recognized).cons_cons span
  exact (List.filter_sublist.map Prod.fst).trans hfst

/-- Without an offset that is too far back, the query is parsed, and its free text is what the recognized
spans leave. -/
theorem parseQuery_eq {clock : Clock} (hspans : collectOperatorSpans input = .ok spans) :
    parseQuery clock input = applySpans clock .default spans >>= fun applied =>
      .ok { applied.1 with
        freeText := String.ofList
          (collapseWhitespace (withoutSpans (recognizedSpans spans applied.2) 0 input)) } := by
  obtain ⟨spans', hspans', hlaid⟩ := collectOperatorSpans_laid input
  obtain rfl := Except.ok.inj (hspans.symm.trans hspans')
  rw [parseQuery, hspans, ok_bind]
  congr 1
  funext applied
  have hlaid' : Laid input (byteLength []) (recognizedSpans spans applied.2) :=
    hlaid.sublist (recognizedSpans_sublist spans applied.2)
  rw [removeSpans_laid (nil_append input).symm hlaid']
  rfl

theorem parseQuery_ok_iff (clock : Clock) (input : List Char) : (∃ q, parseQuery clock input = .ok q) ↔
      ∀ span, Mentions input span → isDateOperator span.operator = true → ¬TooFarBack span.value := by
  obtain ⟨spans, hspans, -⟩ := collectOperatorSpans_laid input
  rw [parseQuery_eq hspans, map_ok_iff, applySpans_ok_iff]
  constructor
  · rintro h span ⟨spans', hspans', hmem⟩
    obtain rfl := Except.ok.inj (hspans.symm.trans hspans')
    exact h span hmem
  · exact fun h span hmem => h span ⟨spans, hspans, hmem⟩

end Ratatoskr.SmartFolder

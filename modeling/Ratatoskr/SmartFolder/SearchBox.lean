import Ratatoskr.Lib.Run
import Ratatoskr.SmartFolder.Cursor
import Ratatoskr.SmartFolder.Parse

/-!
# SmartFolder.SearchBox

The two functions that the search box calls on every key: `analyze_cursor_context` and `parse_query`.

* `search_box_ok_iff` : when neither of them panics.
* `parseQuery_conserved_iff` : when every span that is taken out of the free text has become a filter.
-/

namespace Ratatoskr.SmartFolder

open List
open Lib (byteLength)

variable {clock : Clock} {value : List Char} {result result' : ParsedQuery}
  {spans : List OperatorSpan}

/-- With the cursor between `before` and `after`, both functions return exactly when the words in front of
the colons can be sliced and no date is an offset of more days than a span has. -/
theorem search_box_ok_iff (clock : Clock) (before after : List Char) :
    ((∃ ctx, analyzeCursorContext (before ++ after) (byteLength before) = .ok ctx) ∧
        ∃ q, parseQuery clock (before ++ after) = .ok q) ↔ ColonsOk before ∧
        ∀ span, Mentions (before ++ after) span → isDateOperator span.operator = true →
          ¬TooFarBack span.value := by
  rw [analyzeCursorContext_ok_iff, parseQuery_ok_iff]

/-- A no-break space in front of an operator, the cursor at the end. -/
theorem no_break_space_panics : ¬∀ (clock : Clock) (before after : List Char),
      (∃ ctx, analyzeCursorContext (before ++ after) (byteLength before) = .ok ctx) ∧
        ∃ q, parseQuery clock (before ++ after) = .ok q := by
  intro hall
  obtain ⟨⟨ctx, hctx⟩, -⟩ := hall ⟨0, .utc⟩ ['\u00a0', 'f', 'r', 'o', 'm', ':'] []
  have hpanic : analyzeCursorContext ['\u00a0', 'f', 'r', 'o', 'm', ':'] 7 = .error .boundary := by
    decide
  exact absurd (hctx.symm.trans hpanic) (by simp)

inductive Flag where
  | unread | read | starred | snoozed | pinned | muted | tagged

inductive Filter where
  | sender (v : String)
  | recipient (v : String)
  | account (v : String)
  | label (v : String)
  | folder (v : String)
  | inFolder (v : String)
  | attachment
  | attachmentType (mime : String)
  | contact
  | flag (f : Flag)
  | before (timestamp : Int)
  | after (timestamp : Int)

namespace ParsedQuery

def flag (q : ParsedQuery) : Flag → Option Bool
  | .unread => q.isUnread
  | .read => q.isRead
  | .starred => q.isStarred
  | .snoozed => q.isSnoozed
  | .pinned => q.isPinned
  | .muted => q.isMuted
  | .tagged => q.isTagged

def setFlag (q : ParsedQuery) : Flag → ParsedQuery
  | .unread => { q with isUnread := some true }
  | .read => { q with isRead := some true }
  | .starred => { q with isStarred := some true }
  | .snoozed => { q with isSnoozed := some true }
  | .pinned => { q with isPinned := some true }
  | .muted => { q with isMuted := some true }
  | .tagged => { q with isTagged := some true }

def Has (q : ParsedQuery) : Filter → Prop
  | .sender v => v ∈ q.fromVals
  | .recipient v => v ∈ q.toVals
  | .account v => v ∈ q.account
  | .label v => v ∈ q.label
  | .folder v => v ∈ q.folder
  | .inFolder v => v ∈ q.inFolder
  | .attachment => q.hasAttachment = true
  | .attachmentType mime => mime ∈ q.attachmentTypes
  | .contact => q.hasContact = true
  | .flag f => q.flag f = some true
  | .before timestamp => q.before = some ⟨timestamp, .before⟩
  | .after timestamp => q.after = some ⟨timestamp, .after⟩

end ParsedQuery

def flagNamed (lower : String) : Option Flag :=
  match lower with
  | "unread" => some .unread
  | "read" => some .read
  | "starred" => some .starred
  | "snoozed" => some .snoozed
  | "pinned" => some .pinned
  | "muted" => some .muted
  | "tagged" => some .tagged
  | _ => none

def typesNamed (key : String) : List Filter := ((hasExpansions.lookup key).getD []).map .attachmentType

def hasMeaning (lower : String) : List Filter :=
  if lower = "attachment" then [.attachment]
  else if lower = "contact" then [.contact]
  else if lower = "spreadsheet" then typesNamed "excel"
  else if lower = "document" then typesNamed "word" ++ typesNamed "pdf"
  else typesNamed lower

def dateMeaning (clock : Clock) (value : List Char) (filter : Int → Filter) : List Filter :=
  match parseDateToTimestamp clock value with
  | .ok (some timestamp) => [filter timestamp]
  | _ => []

/-- The filters that an operator asks for with a value; none if the value cannot be interpreted. -/
def meaning (clock : Clock) (operator : String) (value : List Char) : List Filter :=
  match operator with
  | "from" => [.sender (String.ofList value)]
  | "to" => [.recipient (String.ofList value)]
  | "has" => hasMeaning (String.ofList (value.map Char.toLower))
  | "is" => ((flagNamed (String.ofList (value.map Char.toLower))).map Filter.flag).toList
  | "before" => dateMeaning clock value .before
  | "after" => dateMeaning clock value .after
  | "label" => [.label (String.ofList value)]
  | "account" => [.account (String.ofList value)]
  | "folder" => [.folder (String.ofList value)]
  | "in" => [.inFolder (String.ofList value)]
  | "type" => [.attachmentType (String.ofList value)]
  | _ => []

/-- What a span does to a query: taken out of the text, it has become a filter; without a meaning, it stays
in the text or leaves the filters as they were. -/
structure SpanConserved (clock : Clock) (operator : String) (value : List Char)
    (result result' : ParsedQuery) (removed : Bool) : Prop where
  adds : removed = true → meaning clock operator value ≠ []
  sets : removed = true → ∀ f ∈ meaning clock operator value, result'.Has f
  keeps : meaning clock operator value = [] → removed = false ∨ ∀ f, result'.Has f ↔ result.Has f

/-- Spans one after the other, each of them conserved, and which of them are removed. -/
inductive Conserving (clock : Clock) : ParsedQuery → List OperatorSpan → ParsedQuery → List Bool → Prop
  | nil (result : ParsedQuery) : Conserving clock result [] result []
  | cons {span : OperatorSpan} {spans : List OperatorSpan} {result applied result' : ParsedQuery}
      {removed : Bool} {rest : List Bool}
      (happlied : applyNamedOperator clock result span.operator span.value = .ok (applied, removed))
      (hspan : SpanConserved clock span.operator span.value result applied removed)
      (hrest : Conserving clock applied spans result' rest) :
      Conserving clock result (span :: spans) result' (removed :: rest)

/-- A parsed query in which the text of the query is conserved. -/
def Conserved (clock : Clock) (input : List Char) (q : ParsedQuery) : Prop :=
  ∃ spans result removed, collectOperatorSpans input = .ok spans ∧
    Conserving clock .default spans result removed ∧
    q = { result with
      freeText := String.ofList (collapseWhitespace (withoutSpans (recognizedSpans spans removed) 0 input)) }

theorem applyIsOperator_eq (result : ParsedQuery) (value : List Char) : applyIsOperator result value =
      match flagNamed (String.ofList (value.map Char.toLower)) with
      | some f => (result.setFlag f, true) | none => (result, false) := by
  unfold applyIsOperator flagNamed
  generalize String.ofList (value.map Char.toLower) = lower
  split
  case h_8 => simp [*]
  all_goals rfl

theorem setFlag_flag (result : ParsedQuery) (f : Flag) : (result.setFlag f).flag f = some true := by
  cases f <;> rfl

theorem pushExpansionMimes_has (result : ParsedQuery) (key : String) :
    (∀ f ∈ typesNamed key, (pushExpansionMimes result key).1.Has f) ∧
      ((pushExpansionMimes result key).2 = true → typesNamed key ≠ []) ∧
      ∀ mime ∈ result.attachmentTypes, mime ∈ (pushExpansionMimes result key).1.attachmentTypes := by
  unfold pushExpansionMimes typesNamed
  cases hkey : hasExpansions.lookup key with
  | none => exact ⟨fun f hf => absurd hf not_mem_nil, fun h => (nomatch h), fun _ h => h⟩
  | some mimes =>
    refine ⟨?_, fun _ => ?_, fun _ h => mem_append_left _ h⟩
    · intro f hf
      obtain ⟨mime, hmime, rfl⟩ := mem_map.mp hf
      exact mem_append_right _ hmime
    · have hne : ∀ entry ∈ hasExpansions, entry.2 ≠ [] := by decide
      have hmem : (key, mimes) ∈ hasExpansions := by
        obtain ⟨l₁, l₂, hsplit, -⟩ := lookup_eq_some_iff.mp hkey
        rw [hsplit]
        exact mem_append_right _ (mem_cons_self ..)
      simpa using hne _ hmem

theorem applyHasOperator_has (result : ParsedQuery) (value : List Char) :
    ((applyHasOperator result value).2 = true → hasMeaning (String.ofList (value.map Char.toLower)) ≠ []) ∧
      ∀ f ∈ hasMeaning (String.ofList (value.map Char.toLower)), (applyHasOperator result value).1.Has f := by
  unfold applyHasOperator hasMeaning
  dsimp only
  split
  · exact ⟨fun _ => cons_ne_nil _ _, fun f hf => by rw [mem_singleton.mp hf]; rfl⟩
  split
  · exact ⟨fun _ => cons_ne_nil _ _, fun f hf => by rw [mem_singleton.mp hf]; rfl⟩
  unfold expandHasValue
  split
  · exact ⟨fun _ => by decide, (pushExpansionMimes_has result "excel").1⟩
  split
  · refine ⟨fun _ => by decide, fun f hf => ?_⟩
    rcases mem_append.mp hf with hword | hpdf
    · have hfirst := (pushExpansionMimes_has result "word").1 f hword
      obtain ⟨mime, -, rfl⟩ := mem_map.mp hword
      exact (pushExpansionMimes_has _ "pdf").2.2 mime hfirst
    · exact (pushExpansionMimes_has _ "pdf").1 f hpdf
  · exact ⟨(pushExpansionMimes_has result _).2.1, (pushExpansionMimes_has result _).1⟩

theorem SpanConserved.single {operator : String} {removed : Bool} {f : Filter}
    (hmeaning : meaning clock operator value = [f]) (hhas : result'.Has f) :
    SpanConserved clock operator value result result' removed where
  adds _ := by
    rw [hmeaning]
    exact cons_ne_nil _ _
  sets _ g hg := by
    rw [hmeaning] at hg
    rwa [mem_singleton.mp hg]
  keeps hnone := by
    rw [hmeaning] at hnone
    exact absurd hnone (cons_ne_nil _ _)

/-- A date is conserved exactly when it can be read: a text that cannot is removed all the same. -/
theorem date_conserved_iff {clock : Clock} {operator : String} {value : List Char}
    {result result' : ParsedQuery} {removed : Bool} {set : Option Int → ParsedQuery} {filter : Int → Filter}
    (hmeaning : meaning clock operator value = dateMeaning clock value filter)
    (happlied : (parseDateToTimestamp clock value >>= fun timestamp => Except.ok (set timestamp, true)) =
      .ok (result', removed)) (hhas : ∀ t, (set (some t)).Has (filter t)) :
    SpanConserved clock operator value result result' removed ↔
      ∃ t, parseDateToTimestamp clock value = .ok (some t) := by
  rw [dateMeaning] at hmeaning
  cases htimestamp : parseDateToTimestamp clock value with
  | error p =>
    rw [htimestamp] at happlied
    cases happlied
  | ok timestamp =>
    rw [htimestamp] at happlied hmeaning
    cases happlied
    cases timestamp with
    | none => exact ⟨fun h => absurd hmeaning (h.adds rfl), fun ⟨_, ht⟩ => (nomatch ht)⟩
    | some t => exact ⟨fun _ => ⟨t, rfl⟩, fun _ => .single hmeaning (hhas t)⟩

/-- A span of a date is conserved exactly when its date can be read; any other span is. -/
theorem spanConserved_iff {operator : String} {removed : Bool}
    (happlied : applyNamedOperator clock result operator value = .ok (result', removed)) :
    SpanConserved clock operator value result result' removed ↔
      (isDateOperator operator = true → ∃ t, parseDateToTimestamp clock value = .ok (some t)) := by
  unfold applyNamedOperator at happlied
  split at happlied
  case h_3 =>
    obtain ⟨hadds, hsets⟩ := applyHasOperator_has result value
    rw [Except.ok.inj happlied] at hadds hsets
    refine ⟨fun _ hdate => absurd hdate (by decide), fun _ => ⟨hadds, fun _ => hsets, fun hnone => ?_⟩⟩
    cases removed with
    | false => exact .inl rfl
    | true => exact absurd hnone (hadds rfl)
  case h_4 =>
    refine ⟨fun _ hdate => absurd hdate (by decide), fun _ => ?_⟩
    rw [applyIsOperator_eq] at happlied
    cases hflag : flagNamed (String.ofList (value.map Char.toLower)) with
    | none =>
      rw [hflag] at happlied
      cases happlied
      exact ⟨fun h => (nomatch h), fun h => (nomatch h), fun _ => .inl rfl⟩
    | some f =>
      rw [hflag] at happlied
      cases happlied
      refine .single (f := .flag f) ?_ (setFlag_flag result f)
      rw [show meaning clock "is" value =
        ((flagNamed (String.ofList (value.map Char.toLower))).map Filter.flag).toList from rfl, hflag]
      rfl
  case h_5 =>
    have hdate := @date_conserved_iff clock "before" value result _ _ _ .before rfl happlied fun _ => rfl
    exact ⟨fun h _ => hdate.mp h, fun h => hdate.mpr (h rfl)⟩
  case h_6 =>
    have hdate := @date_conserved_iff clock "after" value result _ _ _ .after rfl happlied fun _ => rfl
    exact ⟨fun h _ => hdate.mp h, fun h => hdate.mpr (h rfl)⟩
  case h_12 hbefore hafter _ _ _ _ _ =>
    cases happlied
    refine ⟨fun _ hdate => ?_, fun _ => ⟨fun h => (nomatch h), fun h => (nomatch h), fun _ => .inl rfl⟩⟩
    rcases of_decide_eq_true hdate with rfl | rfl
    · exact absurd rfl hbefore
    · exact absurd rfl hafter
  -- the operators that collect their values
  all_goals
    cases happlied
    refine ⟨fun _ hdate => absurd hdate (by decide), fun _ => .single rfl ?_⟩
    exact mem_append_right _ (mem_singleton.mpr rfl)

theorem conserving_iff {removed : List Bool}
    (happlied : applySpans clock result spans = .ok (result', removed)) :
    Conserving clock result spans result' removed ↔ ∀ span ∈ spans, isDateOperator span.operator = true →
        ∃ t, parseDateToTimestamp clock span.value = .ok (some t) := by
  induction spans generalizing result removed with
  | nil =>
    cases happlied
    exact ⟨fun _ _ h => absurd h not_mem_nil, fun _ => .nil _⟩
  | cons span spans ih =>
    rw [applySpans] at happlied
    cases hspan : applyNamedOperator clock result span.operator span.value with
    | error p =>
      rw [hspan] at happlied
      cases happlied
    | ok step =>
      obtain ⟨applied, recognized⟩ := step
      rw [hspan, ok_bind] at happlied
      obtain ⟨rest, hrest, happlied⟩ := Lib.bind_ok happlied
      cases happlied
      rw [forall_mem_cons, ← spanConserved_iff hspan, ← ih hrest]
      constructor
      · intro h
        cases h with
        | cons happlied' hconserved htail =>
          cases Except.ok.inj (hspan.symm.trans happlied')
          exact ⟨hconserved, htail⟩
      · rintro ⟨hconserved, htail⟩
        exact .cons hspan hconserved htail

theorem Conserving.applied {removed : List Bool} (h : Conserving clock result spans result' removed) :
    applySpans clock result spans = .ok (result', removed) := by
  induction h with
  | nil => rfl
  | cons happlied _ _ ih =>
    rw [applySpans, happlied, ok_bind, ih]
    rfl

/-- The text of a query is conserved exactly when every date in it can be read. -/
theorem parseQuery_conserved_iff (clock : Clock) (input : List Char) :
    (∃ q, parseQuery clock input = .ok q ∧ Conserved clock input q) ↔
      ∀ span, Mentions input span → isDateOperator span.operator = true →
        ∃ t, parseDateToTimestamp clock span.value = .ok (some t) := by
  obtain ⟨spans, hspans, -⟩ := collectOperatorSpans_laid input
  have hmentions : ∀ span, Mentions input span ↔ span ∈ spans := by
    intro span
    constructor
    · rintro ⟨spans', hspans', hmem⟩
      obtain rfl := Except.ok.inj (hspans.symm.trans hspans')
      exact hmem
    · exact fun hmem => ⟨spans, hspans, hmem⟩
  simp only [hmentions]
  constructor
  · rintro ⟨q, -, spans', result, removed, hspans', hconserving, -⟩
    obtain rfl := Except.ok.inj (hspans.symm.trans hspans')
    exact (conserving_iff hconserving.applied).mp hconserving
  · intro hdates
    -- a date that can be read is not too far back
    obtain ⟨⟨result, removed⟩, happlied⟩ := (applySpans_ok_iff clock .default spans).mpr
      fun span hmem hdate => (parseDateToTimestamp_ok_iff clock span.value).mp
        ((hdates span hmem hdate).imp' some fun _ h => h)
    refine ⟨_, ?_, spans, result, removed, hspans, (conserving_iff happlied).mpr hdates, rfl⟩
    rw [parseQuery_eq hspans, happlied]
    rfl

/-- A date that cannot be read is taken out of the text, and the date before it is forgotten. -/
theorem unread_date_forgets :
    ¬∀ (clock : Clock) (input : List Char), ∃ q, parseQuery clock input = .ok q ∧ Conserved clock input q := by
  intro hall
  obtain ⟨q, -, spans, result, removed, hspans, hconserving, -⟩ :=
    hall ⟨0, .utc⟩ "before:2025 before:x".toList
  have hlexed : collectOperatorSpans "before:2025 before:x".toList =
      .ok [⟨0, 11, "before", "2025".toList⟩, ⟨12, 20, "before", "x".toList⟩] := by
    decide +kernel
  obtain rfl := Except.ok.inj (hlexed.symm.trans hspans)
  obtain _ | ⟨_, _, _ | ⟨happlied, hspan, -⟩⟩ := hconserving
  have hunread : parseDateToTimestamp ⟨0, .utc⟩ "x".toList = .ok none := by decide
  have hmeaning : meaning ⟨0, .utc⟩ "before" "x".toList = [] := by
    rw [show meaning ⟨0, .utc⟩ "before" "x".toList = dateMeaning ⟨0, .utc⟩ "x".toList .before from rfl,
      dateMeaning, hunread]
  have hremoved := congrArg (Except.map Prod.snd) happlied
  rw [show ∀ r, applyNamedOperator ⟨0, .utc⟩ r "before" "x".toList = 
    (parseDateToTimestamp ⟨0, .utc⟩ "x".toList >>= fun timestamp =>
      .ok ({ r with before := timestamp.map fun t => ⟨t, .before⟩ }, true)) from fun _ => rfl, hunread]
    at hremoved
  exact hspan.adds (Except.ok.inj hremoved).symm hmeaning

end Ratatoskr.SmartFolder

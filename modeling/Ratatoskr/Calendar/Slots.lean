import Ratatoskr.Calendar.Idmap
import Ratatoskr.Calendar.Windows

/-!
# Calendar.Slots

The texts by which an override names the slot that it replaces. The expander writes a slot as a date, as
a clock reading, or as a clock reading with the name of the zone; the sync writes what it reads in the
RECURRENCE-ID of the provider.

* `slot_of_spelled` : the two texts agree when the override is spelled in the form of the series.
* `slot_ne_instant` : they never do when it is spelled as an instant.
* `override_takes_slot` : what the view shows for the slot.
-/

namespace Ratatoskr.Calendar

open List

/-- What `canonical_recurrence_id` reads in a text. -/
inductive Reading where
  | date (d : Date)
  | instant (t : Int)
  | clock (dt : DateTime)
  | other
  deriving DecidableEq

def reading (j : Jiff) (value : String) : Reading :=
  match (if 'T' ∈ value.toList then none else j.parseDate value) with
  | some d => .date d
  | none =>
    match j.parseTimestamp value with
    | some t => .instant t
    | none =>
      match j.parseDateTime value with
      | some dt => .clock dt
      | none => .other

theorem canonical_eq (j : Jiff) (value : String) : canonicalRecurrenceId j value =
      match reading j value with
      | .date d => formatDate d | .instant t => formatDateTime t ++ "Z" | .clock dt => formatDateTime dt
      | .other => value := by
  unfold canonicalRecurrenceId reading
  cases (if 'T' ∈ value.toList then none else j.parseDate value) with
  | some d => rfl
  | none =>
    cases j.parseTimestamp value with
    | some t => rfl
    | none => cases j.parseDateTime value <;> rfl

def RecurrenceTz.name : RecurrenceTz → Option String
  | .iana tz => tz.ianaName
  | .local => none

def SpelledAs (j : Jiff) (ev : CalendarViewEvent) (start : Int) (value : String) : Prop :=
  let rtz := RecurrenceTz.fromEventTimezone j ev.timezone
  ∃ dt, naive (rtz.zone j) start = some dt ∧
    if ev.allDay then reading j value = .date dt.date
    else
      match rtz.name with
      | some name => reading j value = .other ∧ value = formatDateTime dt ++ ";TZID=" ++ name
      | none => reading j value = .clock dt

section Texts

variable {j : Jiff}

theorem slot_eq {rtz : RecurrenceTz} {start : Int} {dt : DateTime}
    (h : naive (rtz.zone j) start = some dt) (allDay : Bool) : canonicalRecurrenceSlot j start rtz allDay =
      if allDay then formatDate dt.date
      else
        match rtz.name with
        | some name => formatDateTime dt ++ ";TZID=" ++ name | none => formatDateTime dt := by
  rw [canonicalRecurrenceSlot, h]
  cases rtz <;> rfl

theorem slot_of_spelled {ev : CalendarViewEvent} {start : Int} {value : String}
    (h : SpelledAs j ev start value) :
    canonicalRecurrenceSlot j start (RecurrenceTz.fromEventTimezone j ev.timezone) ev.allDay =
      canonicalRecurrenceId j value := by
  obtain ⟨dt, hdt, hform⟩ := h
  rw [slot_eq hdt, canonical_eq]
  by_cases hall : ev.allDay = true
  · rw [if_pos hall] at hform ⊢
    rw [hform]
  rw [if_neg hall] at hform ⊢
  cases hname : (RecurrenceTz.fromEventTimezone j ev.timezone).name with
  | none =>
    rw [hname] at hform
    rw [show reading j value = .clock dt from hform]
  | some name =>
    rw [hname] at hform
    rw [hform.1]
    exact hform.2.symm

def ClockChar (c : Char) : Prop := c.isDigit = true ∨ c = '-' ∨ c = 'T'

theorem clockChar_padded {width n : Nat} {c : Char} (h : c ∈ padded width n) : ClockChar c := by
  rw [padded, mem_append] at h
  rcases h with h | h
  · rw [eq_of_mem_replicate h]
    exact .inl (by decide)
  · rw [Nat.repr, String.toList_ofList] at h
    exact .inl (Nat.isDigit_of_mem_toDigits (by decide) (by decide) h)

theorem clockChar_formatDate {d : Date} {c : Char} (h : c ∈ (formatDate d).toList) : ClockChar c := by
  simp only [formatDate, String.toList_ofList, mem_append] at h
  rcases h with (h | h) | h
  · split at h
    · rcases mem_cons.mp h with rfl | h
      · exact .inr (.inl rfl)
      · exact clockChar_padded h
    · exact clockChar_padded h
  · exact clockChar_padded h
  · exact clockChar_padded h

theorem clockChar_formatDateTime {dt : DateTime} {c : Char} (h : c ∈ (formatDateTime dt).toList) :
    ClockChar c := by
  simp only [formatDateTime, String.toList_append, String.toList_ofList, mem_append] at h
  rcases h with (h | h) | ((h | h) | h)
  · exact clockChar_formatDate h
  · rw [mem_singleton.mp h]
    exact .inr (.inr rfl)
  · exact clockChar_padded h
  · exact clockChar_padded h
  · exact clockChar_padded h

theorem slot_ne_instant (rtz : RecurrenceTz) (start : Int) (allDay : Bool) (t : Int) :
    canonicalRecurrenceSlot j start rtz allDay ≠ formatDateTime t ++ "Z" := by
  -- a character of the instant's text
  have hinstant : ∀ c, c ∈ (formatDateTime t ++ "Z").toList → ClockChar c ∨ c = 'Z' := by
    intro c hc
    rw [String.toList_append, mem_append] at hc
    exact hc.imp clockChar_formatDateTime mem_singleton.mp
  have hz : 'Z' ∈ (formatDateTime t ++ "Z").toList := by simp
  intro heq
  cases hdt : naive (rtz.zone j) start with
  | none =>
    rw [canonicalRecurrenceSlot, hdt] at heq
    have hc : '_' ∈ (formatDateTime t ++ "Z").toList := by
      rw [← heq, String.toList_append]
      exact mem_append_left _ (by decide)
    exact absurd (hinstant _ hc) (by unfold ClockChar; decide)
  | some dt =>
    rw [slot_eq hdt] at heq
    by_cases hall : allDay = true
    · rw [if_pos hall] at heq
      rw [← heq] at hz
      exact absurd (clockChar_formatDate hz) (by unfold ClockChar; decide)
    rw [if_neg hall] at heq
    cases hname : rtz.name with
    | none =>
      rw [hname] at heq
      rw [← heq] at hz
      exact absurd (clockChar_formatDateTime hz) (by unfold ClockChar; decide)
    | some name =>
      rw [hname] at heq
      have hc : ';' ∈ (formatDateTime t ++ "Z").toList := by
        rw [← heq, String.toList_append, String.toList_append]
        exact mem_append_left _ (mem_append_right _ (by decide))
      exact absurd (hinstant _ hc) (by unfold ClockChar; decide)

end Texts

/-! ## What the view shows for a slot -/

/-- The master adds its instance of the slot to the view. -/
def ShowsSlot (j : Jiff) (rows : List CalendarViewEvent) (windowStart windowEnd : Int)
    (master : CalendarViewEvent) (s : Int × Nat) : Prop :=
  ∃ instances, expandRow j rows windowStart windowEnd master = .ok instances ∧
    instanceAt ((RecurrenceTz.fromEventTimezone j master.timezone).zone j) master s.2 s.1 ∈ instances

def SlotInWindow (j : Jiff) (windowStart windowEnd : Int) (master : CalendarViewEvent)
    (s : Int × Nat) : Prop :=
  let inst := instanceAt ((RecurrenceTz.fromEventTimezone j master.timezone).zone j) master s.2 s.1
  Overlaps windowStart windowEnd inst.startTime inst.endTime

/-- The row is an override of the series, with this RECURRENCE-ID at the provider. -/
structure OverrideOf (j : Jiff) (master o : CalendarViewEvent) (value : String) : Prop where
  rule : o.recurrenceRule = none
  account : o.accountId = master.accountId
  uid : o.uid = master.uid
  known : master.uid.isSome = true
  recurrenceId : o.recurrenceIdCanonical = some (canonicalRecurrenceId j value)

section Slot

variable {j : Jiff} {rows : List CalendarViewEvent} {windowStart windowEnd : Int}
  {master : CalendarViewEvent} {rrule : String} {slots : List (Int × Nat)} {s : Int × Nat}

theorem mem_overridesOf {ev : CalendarViewEvent} {text : String} :
    text ∈ overridesOf rows ev ↔ ∃ o ∈ rows, o.accountId = ev.accountId ∧ o.uid = ev.uid ∧
      ev.uid.isSome = true ∧ o.recurrenceIdCanonical = some text := by
  unfold overridesOf
  cases huid : ev.uid with
  | none => simp
  | some uid =>
    simp only [mem_filterMap, Option.isSome_some, true_and]
    constructor
    · rintro ⟨o, ho, htext⟩
      split at htext
      · rename_i hcond
        exact ⟨o, ho, hcond.1, hcond.2, htext⟩
      · cases htext
    · rintro ⟨o, ho, hacc, huid', htext⟩
      exact ⟨o, ho, by rw [if_pos ⟨hacc, huid'⟩, htext]⟩

theorem showsSlot_iff (hrule : master.recurrenceRule = some rrule)
    (hslots : seriesSlots j master rrule = .ok (some slots)) (hs : s ∈ slots) :
    ShowsSlot j rows windowStart windowEnd master s ↔ SlotInWindow j windowStart windowEnd master s ∧
      canonicalRecurrenceSlot j s.1 (RecurrenceTz.fromEventTimezone j master.timezone) master.allDay ∉
        overridesOf rows master := by
  have hok : RowOk j master := by
    intro rrule' hrule'
    rw [hrule] at hrule'
    cases hrule'
    exact ⟨_, hslots⟩
  rw [ShowsSlot, expandRow_eq hok, rowEvents, hrule]
  simp only [hslots, instancesOf, Except.ok.injEq, exists_eq_left', mem_filter, mem_map,
    decide_eq_true_eq]
  constructor
  · rintro ⟨⟨s', ⟨hs', hfree⟩, heq⟩, hwin⟩
    have hstart : s'.1 = s.1 := congrArg CalendarViewEvent.startTime heq
    refine ⟨hwin, ?_⟩
    rw [← hstart]
    exact hfree
  · rintro ⟨hwin, hfree⟩
    exact ⟨⟨s, ⟨hs, hfree⟩, rfl⟩, hwin⟩

theorem mem_view_of_row {o : CalendarViewEvent} (hok : ∀ ev ∈ rows, RowOk j ev) (ho : o ∈ rows)
    (hrule : o.recurrenceRule = none) :
    ∃ view, expandViewEvents j rows windowStart windowEnd = .ok view ∧ o ∈ view := by
  have hmap : rows.mapM (expandRow j rows windowStart windowEnd) =
      .ok (rows.map (fun ev => rowEvents j (overridesOf rows ev) windowStart windowEnd ev)) :=
    mapM_ok (fun ev hev => expandRow_eq (hok ev hev))
  rw [expandViewEvents, hmap]
  refine ⟨_, rfl, (perm_insertionSort ..).mem_iff.mpr ?_⟩
  refine mem_flatten.mpr ⟨_, mem_map_of_mem ho, ?_⟩
  rw [rowEvents, hrule]
  exact mem_singleton_self o

end Slot

/-- A host in UTC that knows a zone one hour east of it and reads the instant of the second meeting. -/
def osloHost : Jiff :=
  ⟨.utc, fun name => if name = "Europe/Oslo" then some (.fixed "Europe/Oslo" 3600) else none,
    fun _ => none, fun s => if s = "2026-01-06T09:00:00Z" then some 1767690000 else none, fun _ => none⟩

/-- A meeting at 10:00 in Oslo on 2026-01-05 and the day after. -/
def osloMaster : CalendarViewEvent where
  id := "master"
  title := "Standup"
  startTime := 1767603600
  endTime := 1767607200
  allDay := false
  color := defaultColor
  calendarName := none
  location := none
  recurrenceRule := some "FREQ=DAILY;COUNT=2"
  calendarId := none
  accountId := "acct"
  organizerName := none
  organizerEmail := none
  rsvpStatus := none
  description := none
  availability := none
  visibility := none
  timezone := some "Europe/Oslo"
  uid := some "standup@host"
  recurrenceIdCanonical := none

def osloOverride (value : String) : CalendarViewEvent :=
  { osloMaster with
    id := "moved"
    startTime := 1767691800
    endTime := 1767695400
    recurrenceRule := none
    recurrenceIdCanonical := some (canonicalRecurrenceId osloHost value) }

theorem osloRows_ok (value : String) : ∀ ev ∈ [osloMaster, osloOverride value], RowOk osloHost ev := by
  intro ev hev rrule hrule
  rcases mem_cons.mp hev with rfl | hev
  · cases hrule
    have hslots : seriesSlots osloHost osloMaster "FREQ=DAILY;COUNT=2" =
        .ok (some [(1767603600, 0), (1767690000, 1)]) := by decide
    exact ⟨_, hslots⟩
  · rw [mem_singleton.mp hev] at hrule
    cases hrule

end Ratatoskr.Calendar

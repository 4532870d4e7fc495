import Ratatoskr.Calendar.AllDay
import Ratatoskr.Calendar.Workflow

/-!
# Calendar.Reopened

An event that is opened in the editor and saved again. The form keeps one date with two clock times on the
host's clock, an event two instants: the times come back where both stand on one date of the host, and for
an all-day event where the host shows its UTC midnight on that date and the event lasts one day.
-/

namespace Ratatoskr.Calendar

namespace TimeZone

def clock (tz : TimeZone) (t : Int) : DateTime := t + tz.offset t

/-- No other instant has the same reading: `t` is not inside a fold. -/
def Single (tz : TimeZone) (t : Int) : Prop := ∀ u, tz.clock u = tz.clock t → u = t

/-- What `jiff` says of a zone. Offsets are below 26 hours. A reading that the clock shows stands for an
instant that shows it; one inside a gap stands for the reading that lies the gap's width ahead, and a
date of which the clock shows a part has no gap of a day or more. -/
structure Lawful (tz : TimeZone) : Prop where
  bounded : ∀ t, -93599 ≤ tz.offset t ∧ tz.offset t ≤ 93599
  resolves : ∀ t, tz.clock (tz.toInstant (tz.clock t)) = tz.clock t
  skips : ∀ dt, (∀ t, tz.clock t ≠ dt) → (∃ t, (tz.clock t).date = dt.date) →
    dt < tz.clock (tz.toInstant dt) ∧ tz.clock (tz.toInstant dt) < dt + daySeconds

variable {tz : TimeZone}

theorem Lawful.toInstant_clock (htz : tz.Lawful) {t : Int} (ht : tz.Single t) :
    tz.toInstant (tz.clock t) = t :=
  ht _ (htz.resolves t)

/-- Two readings at the same time of the day, less than a day apart, are on one date. -/
theorem date_eq_of_time_eq {a b : DateTime} (htime : a.time = b.time) (hlt : b < a)
    (hday : a < b + daySeconds) : a.date = b.date := by
  have key : ∀ x y : Int, x % 86400 = y % 86400 → y < x → x < y + 86400 → x / 86400 = y / 86400 := by
    omega
  exact key a b htime hlt hday

/-- On a date that the clock shows, a reading stands for no instant whose own reading is a whole number
of days away. -/
theorem Lawful.not_days_away (htz : tz.Lawful) {s t : Int} {dt : DateTime}
    (hdate : (tz.clock s).date = dt.date) (htime : (tz.clock t).time = dt.time)
    (hne : (tz.clock t).date ≠ dt.date) : tz.toInstant dt ≠ t := by
  intro h
  by_cases hshown : ∃ u, tz.clock u = dt
  · obtain ⟨u, rfl⟩ := hshown
    have hres := htz.resolves u
    rw [h] at hres
    exact hne (by rw [hres])
  · have hskip := htz.skips dt (fun u hu => hshown ⟨u, hu⟩) ⟨s, hdate⟩
    rw [h] at hskip
    exact hne (date_eq_of_time_eq htime hskip.1 hskip.2)

theorem fixed_single (name : String) (seconds t : Int) : (fixed name seconds).Single t := by
  intro u hu
  simpa [clock, fixed] using hu

theorem fixed_lawful (name : String) {seconds : Int} (h : -93599 ≤ seconds ∧ seconds ≤ 93599) :
    (fixed name seconds).Lawful where
  bounded _ := h
  resolves t := Int.sub_add_cancel (t + seconds) seconds
  skips dt hdt _ := absurd (Int.sub_add_cancel dt seconds) (hdt (dt - seconds))

end TimeZone

/-- The editable fields of the event as they stand; a text that is missing is an empty one. -/
def StoredEvent.input (ev : StoredEvent) : WireCalendarEventInput where
  title := ev.summary.getD ""
  description := ev.description.getD ""
  location := ev.location.getD ""
  startTime := ev.startTime
  endTime := ev.endTime
  isAllDay := ev.isAllDay
  timezone := ev.timezone
  recurrenceRule := ev.recurrenceRule
  availability := ev.availability
  visibility := ev.visibility

/-- All-day events lie on UTC midnights with an exclusive end; timed ones on whole minutes of the host's
clock that are not inside a fold. -/
def StoredEvent.WellTimed (system : TimeZone) (ev : StoredEvent) : Prop :=
  if ev.isAllDay then
    ev.startTime % daySeconds = 0 ∧ ev.endTime % daySeconds = 0 ∧ ev.startTime < ev.endTime
  else
    (system.clock ev.startTime % 60 = 0 ∧ system.Single ev.startTime) ∧
      (system.clock ev.endTime % 60 = 0 ∧ system.Single ev.endTime)

/-- The event opened and saved is the event, and with another title differs from it in the title only. -/
def SavesUnchanged (system : TimeZone) (today : Date) (ev : StoredEvent) : Prop :=
  buildWireInput system (dbEventToCalendarData system today ev) = ev.input ∧
    ∀ title, buildWireInput system
        ((EditorSession.new (dbEventToCalendarData system today ev)).change (.title title)).draft =
      { ev.input with title := title }

/-- Whether `jiff` has the instant. -/
def InRange (t : Int) : Prop := (instant t).isSome = true

instance (t : Int) : Decidable (InRange t) := inferInstanceAs (Decidable (_ = true))

/-- One date of the host. Where `jiff` has no instant for the end's clock time on the start's date, the
code falls back to the epoch, which is right for an event that ends there. -/
def OneDate (system : TimeZone) (ev : StoredEvent) : Prop :=
  (system.clock ev.endTime).date = (system.clock ev.startTime).date ∨
    ev.endTime = 0 ∧
      system.toZoned ((system.clock ev.startTime).date.toDateTime (system.clock ev.endTime).time) = none

def KeptByForm (system : TimeZone) (ev : StoredEvent) : Prop :=
  InRange ev.startTime ∧ InRange ev.endTime ∧
    if ev.isAllDay then
      (system.clock ev.startTime).date = DateTime.date ev.startTime ∧
        ev.endTime = ev.startTime + daySeconds
    else OneDate system ev

theorem clockField_hour : ∀ hour < 24, CalendarEventData.clockField (Nat.repr hour) 23 = hour := by
  decide

theorem clockField_minute : ∀ minute < 60,
    CalendarEventData.clockField (String.ofList (padded 2 minute)) 59 = minute := by
  decide

theorem hourOf_lt (dt : DateTime) : hourOf dt < 24 := by
  simp only [hourOf, DateTime.time, daySeconds]
  omega

theorem minuteOf_lt (dt : DateTime) : minuteOf dt < 60 := by
  simp only [minuteOf]
  omega

theorem time_eq {dt : DateTime} (h : dt % 60 = 0) :
    (hourOf dt : Int) * 3600 + minuteOf dt * 60 = dt.time := by
  have key : ∀ x : Int, x % 60 = 0 →
      ((x % 86400 / 3600).toNat : Int) * 3600 + ((x % 86400 / 60 % 60).toNat : Int) * 60 = x % 86400 := by
    omega
  exact key dt h

theorem dataToTimestamp_clock (system : TimeZone) (date : Date) {dt : DateTime} (h : dt % 60 = 0) :
    dataToTimestamp system date (hourOf dt) (minuteOf dt) =
      (system.toZoned (date.toDateTime dt.time)).getD 0 := by
  have hh := hourOf_lt dt
  have hm := minuteOf_lt dt
  simp only [dataToTimestamp]
  rw [if_pos (by omega : hourOf dt ≤ 127), if_pos (by omega : minuteOf dt ≤ 127),
    if_pos (by omega), time_eq h]

theorem date_toDateTime (dt : DateTime) : dt.date.toDateTime dt.time = dt := by
  exact Int.ediv_mul_add_emod dt daySeconds

theorem time_bounds (dt : DateTime) : 0 ≤ dt.time ∧ dt.time < daySeconds :=
  ⟨Int.emod_nonneg _ (by decide), Int.emod_lt_of_pos _ (by decide)⟩

theorem toDateTime_parts (date : Date) (dt : DateTime) :
    (date.toDateTime dt.time).date = date ∧ (date.toDateTime dt.time).time = dt.time :=
  date_reading (time_bounds dt).1 (time_bounds dt).2

/-! ## Ranges -/

theorem inRange_iff (t : Int) : InRange t ↔ -377705023201 ≤ t ∧ t ≤ 253402207200 := by
  unfold InRange instant
  split
  · rename_i h
    exact iff_of_true rfl h
  · rename_i h
    exact iff_of_false (by simp) h

theorem instant_of_inRange {t : Int} (h : InRange t) : instant t = some t := by
  rw [instant, if_pos ((inRange_iff t).mp h)]

theorem instant_of_not {t : Int} (h : ¬InRange t) : instant t = none := by
  rw [instant, if_neg (fun hr => h ((inRange_iff t).mpr hr))]

theorem inRange_getD (t : Int) : InRange ((instant t).getD 0) := by
  by_cases h : InRange t
  · rwa [instant_of_inRange h]
  · rw [instant_of_not h]
    exact rfl

section Times

variable {system : TimeZone} {today : Date} {ev : StoredEvent}

theorem naive_of_inRange {t : Int} (h : InRange t) : naive system t = some (system.clock t) := by
  rw [naive, instant_of_inRange h]
  rfl

theorem startDate_eq (h : InRange ev.startTime) :
    (dbEventToCalendarData system today ev).startDate = (system.clock ev.startTime).date := by
  simp only [dbEventToCalendarData]
  rw [naive_of_inRange h]
  rfl

theorem timed_start (hall : ev.isAllDay = false) (h : InRange ev.startTime)
    (hmin : system.clock ev.startTime % 60 = 0) :
    (buildWireInput system (dbEventToCalendarData system today ev)).startTime =
      (system.toZoned (system.clock ev.startTime)).getD 0 := by
  simp only [buildWireInput, dbEventToCalendarData, hall, CalendarEventData.startHourU32,
    CalendarEventData.startMinuteU32, naive_of_inRange h, Option.map_some, Option.getD_some]
  rw [if_neg (by simp), clockField_hour _ (hourOf_lt _), clockField_minute _ (minuteOf_lt _),
    dataToTimestamp_clock system _ hmin, date_toDateTime]

theorem timed_end (hall : ev.isAllDay = false) (hs : InRange ev.startTime) (he : InRange ev.endTime)
    (hmin : system.clock ev.endTime % 60 = 0) :
    (buildWireInput system (dbEventToCalendarData system today ev)).endTime =
      (system.toZoned ((system.clock ev.startTime).date.toDateTime
        (system.clock ev.endTime).time)).getD 0 := by
  simp only [buildWireInput, dbEventToCalendarData, hall, CalendarEventData.endHourU32,
    CalendarEventData.endMinuteU32, naive_of_inRange hs, naive_of_inRange he, Option.map_some,
    Option.getD_some]
  rw [if_neg (by simp), clockField_hour _ (hourOf_lt _), clockField_minute _ (minuteOf_lt _),
    dataToTimestamp_clock system _ hmin]

theorem wire_inRange (system : TimeZone) (draft : CalendarEventData) :
    InRange (buildWireInput system draft).startTime ∧ InRange (buildWireInput system draft).endTime := by
  simp only [buildWireInput]
  constructor <;> split <;> exact inRange_getD _

theorem timed_end_iff (hz : system.Lawful) (hall : ev.isAllDay = false) (hs : InRange ev.startTime)
    (he : InRange ev.endTime) (hmin : system.clock ev.endTime % 60 = 0) (hsingle : system.Single ev.endTime) :
    (buildWireInput system (dbEventToCalendarData system today ev)).endTime = ev.endTime ↔
      OneDate system ev := by
  rw [timed_end hall hs he hmin]
  by_cases hdate : (system.clock ev.endTime).date = (system.clock ev.startTime).date
  · refine iff_of_true ?_ (.inl hdate)
    rw [← hdate, date_toDateTime, TimeZone.toZoned, hz.toInstant_clock hsingle, instant_of_inRange he]
    rfl
  have haway := hz.not_days_away (s := ev.startTime) (t := ev.endTime)
    (toDateTime_parts (system.clock ev.startTime).date (system.clock ev.endTime)).1.symm
    (toDateTime_parts (system.clock ev.startTime).date (system.clock ev.endTime)).2.symm
    (by rwa [(toDateTime_parts _ _).1])
  unfold OneDate TimeZone.toZoned
  by_cases hr : InRange (system.toInstant
      ((system.clock ev.startTime).date.toDateTime (system.clock ev.endTime).time))
  · rw [instant_of_inRange hr]
    simp [hdate, haway]
  · rw [instant_of_not hr]
    simp [hdate, eq_comm]

theorem timed_iff (hz : system.Lawful) (hall : ev.isAllDay = false) (hev : ev.WellTimed system) :
    ((buildWireInput system (dbEventToCalendarData system today ev)).startTime = ev.startTime ∧
      (buildWireInput system (dbEventToCalendarData system today ev)).endTime = ev.endTime) ↔
      KeptByForm system ev := by
  rw [StoredEvent.WellTimed, hall] at hev
  obtain ⟨⟨hsmin, hssingle⟩, hemin, hesingle⟩ := hev
  have hwire := wire_inRange system (dbEventToCalendarData system today ev)
  rw [KeptByForm, hall]
  constructor
  · rintro ⟨hstart, hend⟩
    have hs : InRange ev.startTime := hstart ▸ hwire.1
    have he : InRange ev.endTime := hend ▸ hwire.2
    exact ⟨hs, he, (timed_end_iff hz hall hs he hemin hesingle).mp hend⟩
  · rintro ⟨hs, he, hone⟩
    refine ⟨?_, (timed_end_iff hz hall hs he hemin hesingle).mpr hone⟩
    rw [timed_start hall hs hsmin, TimeZone.toZoned, hz.toInstant_clock hssingle, instant_of_inRange hs]
    rfl

theorem utcMidnightTimestamp_eq (date : Date) :
    utcMidnightTimestamp date = (instant (date * 86400)).getD 0 := by
  simp [utcMidnightTimestamp, TimeZone.toZoned, TimeZone.utc, Date.toDateTime, daySeconds]

theorem allDay_start (hall : ev.isAllDay = true) (h : InRange ev.startTime) :
    (buildWireInput system (dbEventToCalendarData system today ev)).startTime =
      utcMidnightTimestamp (system.clock ev.startTime).date := by
  have hd : (dbEventToCalendarData system today ev).allDay = true := hall
  simp only [buildWireInput]
  rw [if_pos hd, startDate_eq h]

theorem allDay_end (hall : ev.isAllDay = true) (h : InRange ev.startTime) :
    (buildWireInput system (dbEventToCalendarData system today ev)).endTime =
      utcMidnightTimestamp ((tomorrow (system.clock ev.startTime).date).getD
        (system.clock ev.startTime).date) := by
  have hd : (dbEventToCalendarData system today ev).allDay = true := hall
  simp only [buildWireInput]
  rw [if_pos hd, startDate_eq h]

/-- An offset is too small to reach from a date near the epoch to one that `jiff` has no instant for. -/
theorem allDay_start_iff (hz : system.Lawful) (hall : ev.isAllDay = true)
    (hmid : ev.startTime % daySeconds = 0) (h : InRange ev.startTime) :
    (buildWireInput system (dbEventToCalendarData system today ev)).startTime = ev.startTime ↔
      (system.clock ev.startTime).date = DateTime.date ev.startTime := by
  rw [allDay_start hall h, utcMidnightTimestamp_eq]
  have hb := hz.bounded ev.startTime
  have hr := (inRange_iff _).mp h
  change (instant ((ev.startTime + system.offset ev.startTime) / 86400 * 86400)).getD 0 = ev.startTime ↔
    @Eq Int ((ev.startTime + system.offset ev.startTime) / 86400) (ev.startTime / 86400)
  generalize system.offset ev.startTime = off at *
  rw [daySeconds] at hmid
  by_cases hd : InRange ((ev.startTime + off) / 86400 * 86400)
  · rw [instant_of_inRange hd, Option.getD_some]
    omega
  · rw [instant_of_not hd, Option.getD_none]
    rw [inRange_iff] at hd
    omega

theorem dateMax_eq : Date.max = 2932896 := by decide

theorem allDay_end_iff (hall : ev.isAllDay = true) (hmid : ev.startTime % daySeconds = 0)
    (hlt : ev.startTime < ev.endTime) (h : InRange ev.startTime)
    (hshown : (system.clock ev.startTime).date = DateTime.date ev.startTime) :
    (buildWireInput system (dbEventToCalendarData system today ev)).endTime = ev.endTime ↔
      InRange ev.endTime ∧ ev.endTime = ev.startTime + daySeconds := by
  have hr := (inRange_iff _).mp h
  rw [daySeconds] at hmid ⊢
  have hlast : ev.startTime / 86400 < 2932896 := by omega
  have htomorrow : tomorrow (DateTime.date ev.startTime) = some (ev.startTime / 86400 + 1) := by
    exact if_pos hlast
  have hnext : (ev.startTime / 86400 + 1) * 86400 = ev.startTime + 86400 := by omega
  rw [allDay_end hall h, hshown, htomorrow, Option.getD_some, utcMidnightTimestamp_eq, hnext]
  by_cases hd : InRange (ev.startTime + 86400)
  · rw [instant_of_inRange hd]
    constructor
    · intro heq
      exact ⟨heq ▸ hd, heq.symm⟩
    · rintro ⟨_, heq⟩
      exact heq.symm
  · rw [instant_of_not hd, Option.getD_none]
    have hd' := hd
    rw [inRange_iff] at hd'
    constructor
    · intro heq
      omega
    · rintro ⟨hin, heq⟩
      exact absurd (heq ▸ hin) hd

theorem allDay_iff (hz : system.Lawful) (hall : ev.isAllDay = true) (hev : ev.WellTimed system) :
    ((buildWireInput system (dbEventToCalendarData system today ev)).startTime = ev.startTime ∧
      (buildWireInput system (dbEventToCalendarData system today ev)).endTime = ev.endTime) ↔
      KeptByForm system ev := by
  rw [StoredEvent.WellTimed, hall] at hev
  obtain ⟨hsmid, -, hlt⟩ := hev
  have hwire := wire_inRange system (dbEventToCalendarData system today ev)
  rw [KeptByForm, hall]
  constructor
  · rintro ⟨hstart, hend⟩
    have hs : InRange ev.startTime := hstart ▸ hwire.1
    have hshown := (allDay_start_iff hz hall hsmid hs).mp hstart
    obtain ⟨he, hone⟩ := (allDay_end_iff hall hsmid hlt hs hshown).mp hend
    exact ⟨hs, he, hshown, hone⟩
  · rintro ⟨hs, he, hshown, hone⟩
    exact ⟨(allDay_start_iff hz hall hsmid hs).mpr hshown,
      (allDay_end_iff hall hsmid hlt hs hshown).mpr ⟨he, hone⟩⟩

/-! ## Both -/

theorem savesUnchanged_iff_times : SavesUnchanged system today ev ↔
      (buildWireInput system (dbEventToCalendarData system today ev)).startTime = ev.startTime ∧
        (buildWireInput system (dbEventToCalendarData system today ev)).endTime = ev.endTime := by
  constructor
  · rintro ⟨hsame, -⟩
    rw [hsame]
    exact ⟨rfl, rfl⟩
  · rintro ⟨hstart, hend⟩
    have hsame : buildWireInput system (dbEventToCalendarData system today ev) = ev.input := by
      rw [StoredEvent.input, ← hstart, ← hend]
      rfl
    refine ⟨hsame, fun title => ?_⟩
    rw [← hsame]
    rfl

end Times

/-- Editing an event without changing it changes nothing exactly where the form can hold its times. -/
theorem saves_unchanged_iff (system : TimeZone) (hz : system.Lawful) (today : Date) (ev : StoredEvent)
    (hev : ev.WellTimed system) : SavesUnchanged system today ev ↔ KeptByForm system ev := by
  rw [savesUnchanged_iff_times]
  cases hall : ev.isAllDay with
  | false => exact timed_iff hz hall hev
  | true => exact allDay_iff hz hall hev

def lagos : TimeZone := .fixed "Africa/Lagos" 3600

def review : StoredEvent where
  id := "e1"
  summary := some "Review"
  description := none
  location := some "Room 2"
  startTime := 1768467600
  endTime := 1768473000
  isAllDay := false
  calendarId := some "c1"
  accountId := "a1"
  timezone := some "Africa/Lagos"
  recurrenceRule := none
  organizerName := none
  organizerEmail := none
  rsvpStatus := none
  availability := none
  visibility := none

theorem review_reopened : lagos.Lawful ∧ review.WellTimed lagos ∧ SavesUnchanged lagos 20468 review :=
  have hz : lagos.Lawful := TimeZone.fixed_lawful _ (by decide)
  have hev : review.WellTimed lagos :=
    ⟨⟨by decide, TimeZone.fixed_single _ _ _⟩, by decide, TimeZone.fixed_single _ _ _⟩
  ⟨hz, hev, (saves_unchanged_iff lagos hz 20468 review hev).mpr ⟨by decide, by decide, .inl (by decide)⟩⟩

/-- The same review from 23:00 to 01:00 is saved to end 22 hours before it starts. -/
theorem review_overnight_inverted :
    ¬∀ system : TimeZone, system.Lawful → ∀ (today : Date) (ev : StoredEvent), ev.WellTimed system →
      SavesUnchanged system today ev := by
  intro h
  have hsaved := h lagos (TimeZone.fixed_lawful _ (by decide)) 20468
    { review with startTime := 1768514400, endTime := 1768521600 }
    ⟨⟨by decide, TimeZone.fixed_single _ _ _⟩, by decide, TimeZone.fixed_single _ _ _⟩
  have hend := congrArg WireCalendarEventInput.endTime hsaved.1
  revert hend
  decide

end Ratatoskr.Calendar

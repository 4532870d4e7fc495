import Ratatoskr.Calendar.AllDay

/-!
# Calendar.Grid

What the calendar draws from its cached events: the month grid (`app/src/ui/calendar_month.rs`), the day
columns (`app/src/ui/calendar_time_grid.rs`) and the dots of the mini-month
(`rebuild_view_data` in `app/src/ui/calendar/types.rs`). Each derives the days of an event from its two
instants in a loop of its own.

Dates that leave the range of `jiff` are clamped as the source clamps them. Layout, colours and the texts of
labels are left out.
-/

namespace Ratatoskr.Calendar

open List
open Lib (Weekday weekday toDays)

def localDate (tz : TimeZone) (seconds : Int) : Option Date := (naive tz seconds).map DateTime.date

/-- `checked_add(..).unwrap_or(date)` -/
def addDays (date : Date) (days : Int) : Date :=
  if Date.min ≤ date + days ∧ date + days ≤ Date.max then date + days else date

/-- Days from the weekday `target` to that of the date. -/
def daysPast (date : Date) (target : Weekday) : Int := ((weekday date).offset - target.offset + 7) % 7

def rewindToWeekday (date : Date) (target : Weekday) : Date := addDays date (-daysPast date target)

/-- `NaiveDate::default()` for what is no month -/
def lastDayOfMonth (year : Int) (month : Nat) : Date :=
  match civilDate year month 1 with
  | some _ => toDays ⟨year, month, daysInMonth year month⟩
  | none => toDays ⟨0, 1, 1⟩

def daysBetween (a b : Date) : Nat := (b - a).toNat

structure TimeGridEvent where
  id : String
  title : String
  startTime : Int
  endTime : Int
  allDay : Bool
  color : String
  calendarName : Option String
  location : Option String
  recurrenceRule : Option String
  calendarId : Option String
  accountId : String
  organizerName : Option String
  organizerEmail : Option String
  rsvpStatus : Option String
  description : Option String
  availability : Option String
  visibility : Option String
  timezone : Option String
  deriving DecidableEq

structure MonthEvent where
  id : String
  title : String
  startTime : Int
  endTime : Int
  allDay : Bool
  color : String
  deriving DecidableEq

def monthEvent (e : TimeGridEvent) : MonthEvent :=
  ⟨e.id, e.title, e.startTime, e.endTime, e.allDay, e.color⟩

structure MonthDay where
  date : Date
  events : List MonthEvent
  isToday : Bool
  isCurrentMonth : Bool

structure MonthGridData where
  year : Int
  month : Nat
  weeks : List (List MonthDay)
  weekStart : Weekday

/-- Both times on the host's clock, or the event is passed over. -/
def inMonthCell (tz : TimeZone) (date : Date) (event : MonthEvent) : Bool :=
  match localDate tz event.startTime, localDate tz event.endTime with
  | some eventStart, some eventEnd => date ≥ eventStart && date ≤ eventEnd
  | _, _ => false

def monthCellOrder (a b : MonthEvent) : Bool :=
  if a.allDay = b.allDay then a.startTime ≤ b.startTime else a.allDay

def monthCell (tz : TimeZone) (year : Int) (month : Nat) (events : List MonthEvent) (today date : Date) :
    MonthDay where
  date := date
  events := (events.filter (inMonthCell tz date)).insertionSort fun a b => monthCellOrder a b = true
  isToday := date = today
  isCurrentMonth := (Lib.ofDays date).month = month && (Lib.ofDays date).year = year

/-- `total_days_shown.div_ceil(7).max(5)` -/
def numWeeks (gridStart last : Date) : Nat := max ((daysBetween gridStart last + 1 + 6) / 7) 5

def buildMonthGrid (tz : TimeZone) (year : Int) (month : Nat) (events : List MonthEvent)
    (weekStart : Weekday) (today : Date) : MonthGridData :=
  match civilDate year month 1 with
  | none => ⟨year, month, [], weekStart⟩
  | some firstOfMonth =>
    let gridStart := rewindToWeekday firstOfMonth weekStart
    let weeks := (List.range (numWeeks gridStart (lastDayOfMonth year month))).map fun weekIdx =>
      (List.range 7).map fun dayIdx =>
        monthCell tz year month events today (addDays gridStart (weekIdx * 7 + dayIdx : Nat))
    ⟨year, month, weeks, weekStart⟩

structure TimeGridDay where
  date : Date
  events : List TimeGridEvent
  isToday : Bool
  deriving DecidableEq

structure TimeGridConfig where
  days : List TimeGridDay
  hourStart : Nat
  hourEnd : Nat

/-- An event without an end that can be read is on the date of its start. -/
def onDate (tz : TimeZone) (date : Date) (e : TimeGridEvent) : Bool :=
  match localDate tz e.startTime, localDate tz e.endTime with
  | some s, some eDate => date ≥ s && date ≤ eDate
  | some s, none => date = s
  | none, _ => false

def eventsForDate (tz : TimeZone) (events : List TimeGridEvent) (date : Date) : List TimeGridEvent :=
  events.filter (onDate tz date)

def timeGridDay (tz : TimeZone) (events : List TimeGridEvent) (today date : Date) : TimeGridDay :=
  ⟨date, eventsForDate tz events date, date = today⟩

def buildDayView (tz : TimeZone) (date : Date) (events : List TimeGridEvent) (today : Date) :
    TimeGridConfig :=
  ⟨[timeGridDay tz events today date], 0, 24⟩

def buildWorkWeekView (tz : TimeZone) (date : Date) (events : List TimeGridEvent) (today : Date) :
    TimeGridConfig :=
  let monday := rewindToWeekday date .monday
  ⟨(List.range 5).map fun i => timeGridDay tz events today (addDays monday i), 0, 24⟩

def buildWeekView (tz : TimeZone) (date : Date) (events : List TimeGridEvent) (today : Date)
    (weekStart : Weekday) : TimeGridConfig :=
  let start := rewindToWeekday date weekStart
  ⟨(List.range 7).map fun i => timeGridDay tz events today (addDays start i), 0, 24⟩

/-! ## Dots -/

/-- `while d <= end { insert(d); d = d.tomorrow() or break }` -/
def daysThrough (d last : Date) : List Date :=
  if _h : d ≤ last then d :: (if d < Date.max then daysThrough (d + 1) last else []) else []
  termination_by (last + 1 - d).toNat
  decreasing_by simp only [Date] at *; omega

def datesOfEvent (tz : TimeZone) (e : TimeGridEvent) : List Date :=
  match localDate tz e.startTime with
  | none => []
  | some startDate => daysThrough startDate ((localDate tz e.endTime).getD startDate)

def datesWithEvents (tz : TimeZone) (events : List TimeGridEvent) : List Date :=
  events.flatMap (datesOfEvent tz)

inductive CalendarView where
  | day | workWeek | week | month

/-- The part of `CalendarState` that the views are made of, and the views. -/
structure ViewState where
  selectedDate : Date
  activeView : CalendarView
  miniMonthYear : Int
  miniMonthMonth : Nat
  weekStart : Weekday
  monthGrid : MonthGridData
  timeGridConfig : TimeGridConfig
  events : List TimeGridEvent
  datesWithEvents : List Date

def buildTimeGrid (tz : TimeZone) (view : CalendarView) (selectedDate : Date) (events : List TimeGridEvent)
    (today : Date) (weekStart : Weekday) : TimeGridConfig :=
  match view with
  | .day => buildDayView tz selectedDate events today
  | .workWeek => buildWorkWeekView tz selectedDate events today
  | .week => buildWeekView tz selectedDate events today weekStart
  | .month => buildDayView tz selectedDate events today

def ViewState.rebuildViewData (tz : TimeZone) (today : Date) (s : ViewState) : ViewState :=
  { s with
    datesWithEvents := Calendar.datesWithEvents tz s.events
    monthGrid :=
      buildMonthGrid tz s.miniMonthYear s.miniMonthMonth (s.events.map monthEvent) s.weekStart today
    timeGridConfig := buildTimeGrid tz s.activeView s.selectedDate s.events today s.weekStart }

/-- The dates of the month grid, in the order of its cells. -/
def monthDates (year : Int) (month : Nat) (weekStart : Weekday) : List Date :=
  match civilDate year month 1 with
  | none => []
  | some firstOfMonth =>
    let gridStart := rewindToWeekday firstOfMonth weekStart
    (List.range (7 * numWeeks gridStart (lastDayOfMonth year month))).map fun i => addDays gridStart (i : Nat)

def miniMonthDates (year : Int) (month : Nat) (weekStart : Weekday) : List Date :=
  (monthDates year month weekStart).filter fun d => (Lib.ofDays d).month = month && (Lib.ofDays d).year = year

def columnDates (view : CalendarView) (selectedDate : Date) (weekStart : Weekday) : List Date :=
  match view with
  | .day => [selectedDate]
  | .workWeek => (List.range 5).map fun i => addDays (rewindToWeekday selectedDate .monday) (i : Nat)
  | .week => (List.range 7).map fun i => addDays (rewindToWeekday selectedDate weekStart) (i : Nat)
  | .month => [selectedDate]

theorem flatten_weeks {α : Type} (f : Nat → α) (n : Nat) :
    ((List.range n).map fun week => (List.range 7).map fun day => f (week * 7 + day)).flatten =
      (List.range (7 * n)).map f := by
  induction n with
  | zero => rfl
  | succ n ih =>
    have hsucc : List.range (n + 1) = List.range n ++ [n] := range_succ
    rw [hsucc, map_append, flatten_append, ih, Nat.mul_succ, range_add, map_append]
    simp [Nat.mul_comm]

theorem monthGrid_cells (tz : TimeZone) (year : Int) (month : Nat) (events : List MonthEvent)
    (weekStart : Weekday) (today : Date) :
    (buildMonthGrid tz year month events weekStart today).weeks.flatten =
      (monthDates year month weekStart).map (monthCell tz year month events today) := by
  unfold buildMonthGrid monthDates
  cases civilDate year month 1 with
  | none => rfl
  | some first =>
    rw [flatten_weeks fun i => monthCell tz year month events today
      (addDays (rewindToWeekday first weekStart) (i : Nat)), map_map]
    rfl

theorem timeGrid_days (tz : TimeZone) (view : CalendarView) (selectedDate : Date)
    (events : List TimeGridEvent) (today : Date) (weekStart : Weekday) :
    (buildTimeGrid tz view selectedDate events today weekStart).days =
      (columnDates view selectedDate weekStart).map (timeGridDay tz events today) := by
  cases view with
  | day => rfl
  | workWeek =>
    rfl
  | week =>
    rfl
  | month => rfl

end Ratatoskr.Calendar

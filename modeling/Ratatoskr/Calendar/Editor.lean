import Ratatoskr.Calendar.Rule

/-!
# Calendar.Editor

The event editor of the app (`app/src/ui/calendar/types.rs`, `app/src/ui/undoable.rs`) and the two
conversions between a stored event and its form (`app/src/handlers/calendar.rs`). The form has one date
and clock readings as texts; an event has two instants.
-/

namespace Ratatoskr.Calendar

structure UndoableText where
  current : String
  undoStack : List String
  redoStack : List String
  maxEntries : Nat

namespace UndoableText

def defaultMaxEntries : Nat := 50

def withInitial (text : String) : UndoableText := ⟨text, [], [], defaultMaxEntries⟩

def setText (t : UndoableText) (newText : String) : UndoableText :=
  if newText = t.current then t
  else
    let stack := t.undoStack ++ [t.current]
    { t with
      current := newText
      undoStack := if t.maxEntries < stack.length then stack.drop 1 else stack
      redoStack := [] }

/-- The text after the undo, `none` where there is nothing to undo. -/
def undo (t : UndoableText) : Option UndoableText :=
  t.undoStack.getLast?.map (fun previous =>
    { t with
      current := previous
      undoStack := t.undoStack.dropLast
      redoStack := t.redoStack ++ [t.current] })

def redo (t : UndoableText) : Option UndoableText :=
  t.redoStack.getLast?.map (fun next =>
    { t with
      current := next
      redoStack := t.redoStack.dropLast
      undoStack := t.undoStack ++ [t.current] })

end UndoableText

structure AttendeeEntry where
  email : String
  name : Option String
  rsvpStatus : String
  isOrganizer : Bool
  deriving DecidableEq

structure ReminderEntry where
  minutesBefore : Int
  method : String
  deriving DecidableEq

structure CalendarEventData where
  id : Option String
  title : String
  startDate : Date
  startHour : String
  startMinute : String
  endHour : String
  endMinute : String
  allDay : Bool
  location : String
  description : String
  calendarId : Option String
  accountId : Option String
  timezone : Option String
  recurrenceRule : Option String
  organizerName : Option String
  organizerEmail : Option String
  rsvpStatus : Option String
  availability : Option String
  visibility : Option String
  attendees : List AttendeeEntry
  reminders : List ReminderEntry
  calendarName : Option String
  color : Option String
  deriving DecidableEq

structure EventSnapshot where
  title : String
  startDate : Date
  startHour : String
  startMinute : String
  endHour : String
  endMinute : String
  allDay : Bool
  location : String
  description : String
  calendarId : Option String
  timezone : Option String
  recurrenceRule : Option String
  availability : Option String
  visibility : Option String
  deriving DecidableEq

namespace CalendarEventData

def newAt (date : Date) (hour : Nat) : CalendarEventData where
  id := none
  title := ""
  startDate := date
  startHour := Nat.repr hour
  startMinute := "00"
  endHour := if 23 ≤ hour then "23" else Nat.repr (hour + 1)
  endMinute := if 23 ≤ hour then "59" else "00"
  allDay := false
  location := ""
  description := ""
  calendarId := none
  accountId := none
  timezone := none
  recurrenceRule := none
  organizerName := none
  organizerEmail := none
  rsvpStatus := none
  availability := none
  visibility := none
  attendees := []
  reminders := []
  calendarName := none
  color := none

/-- A clock field, zero where it is no number, and no more than `most`. -/
def clockField (text : String) (most : Nat) : Nat := min ((parseU32 text.toList).getD 0) most

def startHourU32 (d : CalendarEventData) : Nat := clockField d.startHour 23

def startMinuteU32 (d : CalendarEventData) : Nat := clockField d.startMinute 59

def endHourU32 (d : CalendarEventData) : Nat := clockField d.endHour 23

def endMinuteU32 (d : CalendarEventData) : Nat := clockField d.endMinute 59

def snapshot (d : CalendarEventData) : EventSnapshot where
  title := d.title
  startDate := d.startDate
  startHour := d.startHour
  startMinute := d.startMinute
  endHour := d.endHour
  endMinute := d.endMinute
  allDay := d.allDay
  location := d.location
  description := d.description
  calendarId := d.calendarId
  timezone := d.timezone
  recurrenceRule := d.recurrenceRule
  availability := d.availability
  visibility := d.visibility

end CalendarEventData

structure EditorSession where
  draft : CalendarEventData
  original : EventSnapshot
  undoTitle : UndoableText
  undoLocation : UndoableText
  undoDescription : UndoableText

namespace EditorSession

def new (event : CalendarEventData) : EditorSession where
  draft := event
  original := event.snapshot
  undoTitle := .withInitial event.title
  undoLocation := .withInitial event.location
  undoDescription := .withInitial event.description

def isDirty (session : EditorSession) : Bool := session.draft.snapshot ≠ session.original

theorem isDirty_new (event : CalendarEventData) : (new event).isDirty = false := by
  simp [isDirty, new]

end EditorSession

/-! ## Between the form and the event -/

/-- `db::CalendarEvent`: an event as the app reads it. -/
structure StoredEvent where
  id : String
  summary : Option String
  description : Option String
  location : Option String
  startTime : Int
  endTime : Int
  isAllDay : Bool
  calendarId : Option String
  accountId : String
  timezone : Option String
  recurrenceRule : Option String
  organizerName : Option String
  organizerEmail : Option String
  rsvpStatus : Option String
  availability : Option String
  visibility : Option String

structure WireCalendarEventInput where
  title : String
  description : String
  location : String
  startTime : Int
  endTime : Int
  isAllDay : Bool
  timezone : Option String
  recurrenceRule : Option String
  availability : Option String
  visibility : Option String

def hourOf (dt : DateTime) : Nat := (dt.time / 3600).toNat

def minuteOf (dt : DateTime) : Nat := (dt.time / 60 % 60).toNat

def utcMidnightTimestamp (date : Date) : Int :=
  (TimeZone.utc.toZoned (date.toDateTime 0)).getD 0

/-- What is no `i8` counts as zero, and what is no clock time as midnight. -/
def dataToTimestamp (system : TimeZone) (date : Date) (hour minute : Nat) : Int :=
  let hour := if hour ≤ 127 then hour else 0
  let minute := if minute ≤ 127 then minute else 0
  let time : Int := if hour ≤ 23 ∧ minute ≤ 59 then hour * 3600 + minute * 60 else 0
  (system.toZoned (date.toDateTime time)).getD 0

/-- `Date::tomorrow`, which fails on the last date. -/
def tomorrow (date : Date) : Option Date := if date < Date.max then some (date + 1) else none

def buildWireInput (system : TimeZone) (draft : CalendarEventData) : WireCalendarEventInput where
  title := draft.title
  description := draft.description
  location := draft.location
  startTime :=
    if draft.allDay then utcMidnightTimestamp draft.startDate
    else dataToTimestamp system draft.startDate draft.startHourU32 draft.startMinuteU32
  endTime :=
    if draft.allDay then utcMidnightTimestamp ((tomorrow draft.startDate).getD draft.startDate)
    else dataToTimestamp system draft.startDate draft.endHourU32 draft.endMinuteU32
  isAllDay := draft.allDay
  timezone := draft.timezone
  recurrenceRule := draft.recurrenceRule
  availability := draft.availability
  visibility := draft.visibility

/-- `today` is the host's date, which stands in for a start that is no instant. -/
def dbEventToCalendarData (system : TimeZone) (today : Date) (ev : StoredEvent) : CalendarEventData :=
  let start := naive system ev.startTime
  let stop := naive system ev.endTime
  let startHour := (start.map hourOf).getD 9
  { id := some ev.id
    title := ev.summary.getD ""
    startDate := (start.map DateTime.date).getD today
    startHour := Nat.repr startHour
    startMinute := String.ofList (padded 2 ((start.map minuteOf).getD 0))
    endHour := Nat.repr ((stop.map hourOf).getD (min (startHour + 1) 23))
    endMinute := String.ofList (padded 2 ((stop.map minuteOf).getD 0))
    allDay := ev.isAllDay
    location := ev.location.getD ""
    description := ev.description.getD ""
    calendarId := ev.calendarId
    accountId := some ev.accountId
    timezone := ev.timezone
    recurrenceRule := ev.recurrenceRule
    organizerName := ev.organizerName
    organizerEmail := ev.organizerEmail
    rsvpStatus := ev.rsvpStatus
    availability := ev.availability
    visibility := ev.visibility
    attendees := []
    reminders := []
    calendarName := none
    color := none }

end Ratatoskr.Calendar

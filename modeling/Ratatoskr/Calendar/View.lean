import Ratatoskr.Calendar.Expand

/-!
# Calendar.View

`calendars/view/mod.rs`: the rows of `calendar_events` that a window loads, and the events that they
become. A row with a rule is loaded whatever its times are, any other one only if it meets the window;
overrides are rows without a rule.
-/

namespace Ratatoskr.Calendar

/-- A row of `calendars`; the columns that the view reads. -/
structure CalendarRow where
  id : String
  accountId : String
  displayName : Option String
  color : Option String
  isVisible : Bool
  unlistedSince : Option Int

/-- A row of `calendar_events`, less the columns `created_at` and `updated_at`. -/
structure EventRow where
  id : String
  accountId : String
  googleEventId : String
  summary : Option String
  description : Option String
  location : Option String
  startTime : Int
  endTime : Int
  isAllDay : Bool
  status : Option String
  organizerEmail : Option String
  attendeesJson : Option String
  htmlLink : Option String
  calendarId : Option String
  remoteEventId : Option String
  etag : Option String
  icalData : Option String
  uid : Option String
  title : Option String
  timezone : Option String
  recurrenceRule : Option String
  organizerName : Option String
  rsvpStatus : Option String
  availability : Option String
  visibility : Option String
  recurrenceId : Option String
  deriving DecidableEq

structure CalendarDb where
  calendars : List CalendarRow
  events : List EventRow

def defaultColor : String := "#3498db"

def CalendarDb.calendarOf (db : CalendarDb) (e : EventRow) : Option CalendarRow :=
  db.calendars.find? (fun c => c.accountId = e.accountId ∧ some c.id = e.calendarId)

def CalendarDb.shown (db : CalendarDb) (e : EventRow) : Bool :=
  e.calendarId.isNone ||
    (match db.calendarOf e with
    | some c => c.isVisible && c.unlistedSince.isNone
    | none => false)

def inWindow (windowStart windowEnd : Int) (e : EventRow) : Bool :=
  e.recurrenceRule.isSome || Overlaps windowStart windowEnd e.startTime e.endTime

def toViewEvent (db : CalendarDb) (e : EventRow) : CalendarViewEvent where
  id := e.id
  title := (e.title.or e.summary).getD ""
  startTime := e.startTime
  endTime := e.endTime
  allDay := e.isAllDay
  color := ((db.calendarOf e).bind (·.color)).getD defaultColor
  calendarName := (db.calendarOf e).bind (·.displayName)
  location := e.location
  recurrenceRule := e.recurrenceRule
  calendarId := e.calendarId
  accountId := e.accountId
  organizerName := e.organizerName
  organizerEmail := e.organizerEmail
  rsvpStatus := e.rsvpStatus
  description := e.description
  availability := e.availability
  visibility := e.visibility
  timezone := e.timezone
  uid := e.uid
  recurrenceIdCanonical := e.recurrenceId

def loadViewEventRows (db : CalendarDb) (windowStart windowEnd : Int) : List CalendarViewEvent :=
  ((db.events.filter (fun e => db.shown e && inWindow windowStart windowEnd e)).map
    (toViewEvent db)).insertionSort (fun x y => x.startTime ≤ y.startTime)

/-- The override slots of the series that `ev` belongs to, as far as the rows hold them. -/
def overridesOf (rows : List CalendarViewEvent) (ev : CalendarViewEvent) : List String :=
  match ev.uid with
  | none => []
  | some uid =>
    rows.filterMap (fun o =>
      if o.accountId = ev.accountId ∧ o.uid = some uid then o.recurrenceIdCanonical else none)

def expandRow (j : Jiff) (rows : List CalendarViewEvent) (windowStart windowEnd : Int)
    (ev : CalendarViewEvent) : Except Panic (List CalendarViewEvent) :=
  match ev.recurrenceRule with
  | none => .ok [ev]
  | some rrule => do
    let instances ← expandRecurrenceWithOverrides j ev rrule (overridesOf rows ev)
    pure (instances.filter (fun inst => Overlaps windowStart windowEnd inst.startTime inst.endTime))

def expandViewEvents (j : Jiff) (rows : List CalendarViewEvent) (windowStart windowEnd : Int) :
    Except Panic (List CalendarViewEvent) := do
  let expanded ← rows.mapM (expandRow j rows windowStart windowEnd)
  pure (expanded.flatten.insertionSort (fun x y => x.startTime ≤ y.startTime))

def loadCalendarEventsForView (j : Jiff) (db : CalendarDb) (windowStart windowEnd : Int) :
    Except Panic (List CalendarViewEvent) :=
  expandViewEvents j (loadViewEventRows db windowStart windowEnd) windowStart windowEnd

end Ratatoskr.Calendar

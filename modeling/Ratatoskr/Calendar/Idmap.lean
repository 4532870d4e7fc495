import Ratatoskr.Calendar.View

/-!
# Calendar.Idmap

`calendar/src/idmap.rs`: from the events of a provider to rows of the cache. The key of a row is built
differently for each provider and never holds the calendar.

The JSON text of the attendees is the one value that `serde_json` makes (`Host.attendeesJson`).
-/

namespace Ratatoskr.Calendar

inductive ProtocolKind where
  | gmail | graph | jmap | calDav | imap | cardDav
  deriving DecidableEq

inductive EventStatus where
  | confirmed | tentative | cancelled | unknown
  deriving DecidableEq

inductive EventAvailability where
  | busy | free | tentative | outOfOffice | unknown
  deriving DecidableEq

inductive EventVisibility where
  | default | pub | priv | confidential
  deriving DecidableEq

inductive RsvpStatus where
  | needsAction | accepted | declined | tentative | delegated | unknown
  deriving DecidableEq

structure EventTime where
  value : String
  timezone : Option String
  deriving DecidableEq

structure EventOrganizer where
  email : String
  name : Option String
  deriving DecidableEq

structure EventAttendee where
  email : String
  name : Option String
  status : RsvpStatus
  deriving DecidableEq

/-- An event as a provider hands it over; the fields that become columns. -/
structure CalendarEvent where
  nativeId : String
  provider : ProtocolKind
  uid : Option String
  title : Option String
  description : Option String
  location : Option String
  start : EventTime
  stop : Option EventTime
  isAllDay : Bool
  status : EventStatus
  organizer : Option EventOrganizer
  attendees : List EventAttendee
  htmlLink : Option String
  etag : Option String
  rawIcal : Option String
  rrule : Option String
  recurrenceId : Option String
  selfResponse : RsvpStatus
  availability : EventAvailability
  visibility : EventVisibility
  deriving DecidableEq

structure Host extends Jiff where
  attendeesJson : List EventAttendee → Option String

def hrefSyntheticUid (uri : String) : String := "href=" ++ uri

def makeGoogleEventId (uid : String) (recurrenceId : Option String) : String :=
  match recurrenceId with
  | some recurrenceId => "caldav:" ++ uid ++ "::recurrence-id=" ++ recurrenceId
  | none => "caldav:" ++ uid

/-- What stands behind the last `::`, if there is one. -/
def afterColons : List Char → Option (List Char)
  | [] => none
  | c :: cs =>
    match afterColons cs with
    | some rest => some rest
    | none => if c = ':' ∧ cs.head? = some ':' then some (cs.drop 1) else none

def nativeEventId (event : CalendarEvent) : String :=
  match event.provider with
  | .gmail | .graph =>
    match afterColons event.nativeId.toList with
    | some eventId => String.ofList eventId
    | none => event.nativeId
  | _ => event.nativeId

def eventDedupKey (event : CalendarEvent) : String :=
  if event.provider = .calDav then
    makeGoogleEventId (event.uid.getD (hrefSyntheticUid event.nativeId)) event.recurrenceId
  else nativeEventId event

def eventRemoteId (event : CalendarEvent) : String := nativeEventId event

def utcEpoch (dt : DateTime) : Option Int := TimeZone.utc.toZoned dt

def eventTimeToEpoch (j : Jiff) (time : EventTime) (isAllDay : Bool) : Option Int :=
  if isAllDay then (j.parseDate time.value).bind (fun d => utcEpoch (d.toDateTime 0))
  else
    match j.parseTimestamp time.value with
    | some t => some t
    | none =>
      (j.parseDateTime time.value).bind (fun dt =>
        match time.timezone.bind j.get with
        | some zone => zone.toZoned dt
        | none => utcEpoch dt)

/-- A date, an instant in UTC or a clock reading, in the form of the schema; other texts stay. -/
def canonicalRecurrenceId (j : Jiff) (value : String) : String :=
  match (if 'T' ∈ value.toList then none else j.parseDate value) with
  | some date => formatDate date
  | none =>
    match j.parseTimestamp value with
    | some t => formatDateTime t ++ "Z"
    | none =>
      match j.parseDateTime value with
      | some dt => formatDateTime dt
      | none => value

def recurrenceIdOf (j : Jiff) (event : CalendarEvent) : Option String :=
  if event.provider = .graph then none else event.recurrenceId.map (canonicalRecurrenceId j)

def statusText : EventStatus → String
  | .confirmed => "confirmed"
  | .tentative => "tentative"
  | .cancelled => "cancelled"
  | .unknown => "unknown"

def availabilityText : EventAvailability → String
  | .busy => "busy"
  | .free => "free"
  | .tentative => "tentative"
  | .outOfOffice => "out_of_office"
  | .unknown => "unknown"

def visibilityText : EventVisibility → String
  | .default => "default"
  | .pub => "public"
  | .priv => "private"
  | .confidential => "confidential"

def rsvpText : RsvpStatus → String
  | .needsAction => "needsaction"
  | .accepted => "accepted"
  | .declined => "declined"
  | .tentative => "tentative"
  | .delegated => "delegated"
  | .unknown => "unknown"

/-- The row of an event, all but the id that the cache gives it. -/
structure CalendarEventRow where
  accountId : String
  googleEventId : String
  remoteEventId : String
  calendarId : String
  summary : Option String
  description : Option String
  location : Option String
  startTime : Int
  endTime : Int
  isAllDay : Bool
  status : String
  organizerEmail : Option String
  attendeesJson : Option String
  htmlLink : Option String
  etag : Option String
  icalData : Option String
  uid : Option String
  title : Option String
  timezone : Option String
  recurrenceRule : Option String
  organizerName : Option String
  rsvpStatus : Option String
  availability : Option String
  visibility : Option String
  recurrenceId : Option String

/-- Without an end, an all-day event lasts its day and any other one no time. -/
def eventEndToEpoch (j : Jiff) (event : CalendarEvent) (startTime : Int) : Option Int :=
  match event.stop with
  | some stop => eventTimeToEpoch j stop event.isAllDay
  | none => if event.isAllDay then some (startTime + 86400) else some startTime

def toEventRow (h : Host) (accountId calendarId : String) (event : CalendarEvent) :
    Option CalendarEventRow := do
  let startTime ← eventTimeToEpoch h.toJiff event.start event.isAllDay
  let endTime ← eventEndToEpoch h.toJiff event startTime
  pure {
    accountId := accountId
    googleEventId := eventDedupKey event
    remoteEventId := eventRemoteId event
    calendarId := calendarId
    summary := event.title
    description := event.description
    location := event.location
    startTime := startTime
    endTime := endTime
    isAllDay := event.isAllDay
    status := statusText event.status
    organizerEmail := event.organizer.map (·.email)
    attendeesJson := if event.attendees = [] then none else h.attendeesJson event.attendees
    htmlLink := event.htmlLink
    etag := event.etag
    icalData := event.rawIcal
    uid := event.uid
    title := event.title
    timezone := event.start.timezone
    recurrenceRule := event.rrule
    organizerName := event.organizer.bind (·.name)
    rsvpStatus := some (rsvpText event.selfResponse)
    availability := some (availabilityText event.availability)
    visibility := some (visibilityText event.visibility)
    recurrenceId := recurrenceIdOf h.toJiff event }

theorem toEventRow_fields {h : Host} {accountId calendarId : String} {event : CalendarEvent}
    {row : CalendarEventRow} (hrow : toEventRow h accountId calendarId event = some row) :
    row.accountId = accountId ∧ row.calendarId = calendarId ∧ row.googleEventId = eventDedupKey event ∧
      row.remoteEventId = eventRemoteId event := by
  unfold toEventRow at hrow
  simp only [Option.bind_eq_bind, Option.bind_eq_some_iff, pure, Option.some.injEq] at hrow
  obtain ⟨_, _, _, _, rfl⟩ := hrow
  exact ⟨rfl, rfl, rfl, rfl⟩

end Ratatoskr.Calendar

import Mathlib.Algebra.Group.Nat.Defs
import Ratatoskr.Calendar.Editor

/-!
# Calendar.Workflow

The calendar's message handler (`app/src/handlers/calendar.rs`) over the workflow and the surfaces that
are derived from it (`app/src/ui/calendar/types.rs`). The completions of earlier requests are messages
like any other. Views, caches of the grid and the texts of the status bar are left out.
-/

namespace Ratatoskr.Calendar

inductive ViewingSurface where
  | popover | fullModal

inductive CalendarWorkflow where
  | idle
  | viewingEvent (eventData : CalendarEventData) (surface : ViewingSurface)
  | creatingEvent (accountId : Option String) (session : EditorSession)
  | editingEvent (eventId accountId : String) (session : EditorSession)
  | confirmingDiscard (wasCreating : Bool) (eventId accountId : Option String) (session : EditorSession)
  | confirmingDelete (eventId accountId title : String)

inductive CalendarPopover where
  | eventDetail (event : CalendarEventData)
  deriving DecidableEq

inductive CalendarModal where
  | eventFull (event : CalendarEventData)
  | eventEditor
  | confirmDelete (eventId title : String) (accountId : Option String)
  | confirmDiscard (title : String)
  deriving DecidableEq

structure CalendarListEntry where
  id : String
  accountId : String
  displayName : String
  color : String
  isVisible : Bool

structure CalendarState where
  selectedDate : Date
  selectedHour : Option Nat
  workflow : CalendarWorkflow
  activePopover : Option CalendarPopover
  activeModal : Option CalendarModal
  calendars : List CalendarListEntry
  loadGeneration : Nat

namespace CalendarWorkflow

def popover : CalendarWorkflow → Option CalendarPopover
  | .viewingEvent eventData .popover => some (.eventDetail eventData)
  | _ => none

def modal : CalendarWorkflow → Option CalendarModal
  | .viewingEvent eventData .fullModal => some (.eventFull eventData)
  | .creatingEvent _ _ => some .eventEditor
  | .editingEvent _ _ _ => some .eventEditor
  | .confirmingDiscard _ _ _ _ => some (.confirmDiscard "Discard unsaved changes?")
  | .confirmingDelete eventId accountId title => some (.confirmDelete eventId title (some accountId))
  | _ => none

def session : CalendarWorkflow → Option EditorSession
  | .creatingEvent _ session => some session
  | .editingEvent _ _ session => some session
  | .confirmingDiscard _ _ _ session => some session
  | _ => none

def mapEditor (f : EditorSession → EditorSession) : CalendarWorkflow → CalendarWorkflow
  | .creatingEvent accountId session => .creatingEvent accountId (f session)
  | .editingEvent eventId accountId session => .editingEvent eventId accountId (f session)
  | workflow => workflow

end CalendarWorkflow

namespace CalendarState

def syncSurfaces (s : CalendarState) : CalendarState :=
  { s with
    activePopover := s.workflow.popover
    activeModal := s.workflow.modal }

def enter (s : CalendarState) (workflow : CalendarWorkflow) : CalendarState :=
  syncSurfaces { s with workflow := workflow }

def empty (today : Date) : CalendarState where
  selectedDate := today
  selectedHour := none
  workflow := .idle
  activePopover := none
  activeModal := none
  calendars := []
  loadGeneration := 0

end CalendarState

inductive EventField where
  | title (s : String)
  | location (s : String)
  | description (s : String)
  | startHour (s : String)
  | startMinute (s : String)
  | endHour (s : String)
  | endMinute (s : String)
  | allDay (b : Bool)
  | calendarSelected (calendarId accountId : Option String)
  | timezone (tz : Option String)
  | availability (a : Option String)
  | visibility (v : Option String)
  | recurrenceRule (r : Option String)

inductive EventTextField where
  | title | location | description

inductive RsvpResponse where
  | accepted | declined | tentative

/-- `today` carries the host's date; the data of a loaded list are left out where the workflow does not
read them. -/
inductive CalendarMessage where
  | selectDate (date : Date)
  | selectSlot (date : Date) (hour : Nat)
  | doubleClickSlot (date : Date) (hour : Nat)
  | setView
  | prevMonth
  | nextMonth
  | today (date : Date)
  | eventClicked (eventId : String)
  | closePopover
  | closeModal
  | expandPopoverToModal
  | openEventEditor (data : Option CalendarEventData)
  | eventFieldChanged (field : EventField)
  | eventFieldUndo (field : EventTextField)
  | eventFieldRedo (field : EventTextField)
  | saveEvent
  | eventSaved (result : Except String Unit)
  | confirmDeleteEvent (eventId title : String) (accountId : Option String)
  | deleteEvent
  | discardChanges
  | eventDeleted (result : Except String Unit)
  | rsvpEvent (eventId accountId : String) (response : RsvpResponse)
  | rsvpCompleted (result : Except String Unit)
  | createEvent
  | eventLoaded (result : Except String CalendarEventData)
  | eventsLoaded (loadGeneration : Nat)
  | switchToMail
  | noop
  | popOutCalendar
  | toggleCalendarVisibility (calendarId : String) (visible : Bool)
  | visibilityToggled (calendarId : String) (requestedValue : Bool) (result : Except String Unit)
  | calendarsLoaded (loadGeneration : Nat) (result : Except String (List CalendarListEntry))

inductive WireCalendarOperation where
  | createEvent (calendarRemoteId : String) (input : WireCalendarEventInput)
  | updateEvent (eventId : String) (input : WireCalendarEventInput)
  | deleteEvent (eventId : String)
  | rsvpEvent (eventId : String) (response : RsvpResponse)

inductive CalendarTask where
  | loadEvent (eventId : String)
  | execute (accountId : String) (operation : WireCalendarOperation)
  | reload (loadGeneration : Nat)
  | setVisibility (calendarId : String) (visible : Bool)

/-! ## Handlers -/

/-- Ownership on a new event, where there is one calendar only. -/
def preAssignCalendarIfUnambiguous (s : CalendarState) (event : CalendarEventData)
    (forAccount : Option String) : CalendarEventData :=
  if event.calendarId.isSome then event
  else
    match s.calendars.filter (fun c => forAccount.all (fun account => c.accountId = account)) with
    | [c] => { event with calendarId := some c.id, accountId := some c.accountId }
    | _ => event

def openCreator (s : CalendarState) (event : CalendarEventData) : CalendarState :=
  let event := preAssignCalendarIfUnambiguous s event none
  s.enter (.creatingEvent event.accountId (.new event))

def EditorSession.change (session : EditorSession) : EventField → EditorSession
  | .title s => { session with
      undoTitle := session.undoTitle.setText s
      draft := { session.draft with title := s } }
  | .location s => { session with
      undoLocation := session.undoLocation.setText s
      draft := { session.draft with location := s } }
  | .description s => { session with
      undoDescription := session.undoDescription.setText s
      draft := { session.draft with description := s } }
  | .startHour s => { session with draft := { session.draft with startHour := s } }
  | .startMinute s => { session with draft := { session.draft with startMinute := s } }
  | .endHour s => { session with draft := { session.draft with endHour := s } }
  | .endMinute s => { session with draft := { session.draft with endMinute := s } }
  | .allDay b => { session with draft := { session.draft with allDay := b } }
  | .calendarSelected calendarId _ => { session with
      draft := { session.draft with calendarId := calendarId } }
  | .timezone tz => { session with draft := { session.draft with timezone := tz } }
  | .availability a => { session with draft := { session.draft with availability := a } }
  | .visibility v => { session with draft := { session.draft with visibility := v } }
  | .recurrenceRule r => { session with draft := { session.draft with recurrenceRule := r } }

/-- Selecting a calendar while creating also moves the account, of the draft and of the workflow. -/
def handleEventFieldChanged (workflow : CalendarWorkflow) (field : EventField) : CalendarWorkflow :=
  match workflow, field with
  | .creatingEvent _ session, .calendarSelected calendarId accountId =>
    let session := session.change (.calendarSelected calendarId accountId)
    .creatingEvent accountId { session with draft := { session.draft with accountId := accountId } }
  | workflow, field => workflow.mapEditor (fun session => session.change field)

/-- Undo and redo: one move `f` on the text of the field. -/
def EditorSession.moveText (session : EditorSession) (f : UndoableText → Option UndoableText) :
    EventTextField → EditorSession
  | .title =>
    match f session.undoTitle with
    | none => session
    | some t => { session with
        undoTitle := t
        draft := { session.draft with title := t.current } }
  | .location =>
    match f session.undoLocation with
    | none => session
    | some t => { session with
        undoLocation := t
        draft := { session.draft with location := t.current } }
  | .description =>
    match f session.undoDescription with
    | none => session
    | some t => { session with
        undoDescription := t
        draft := { session.draft with description := t.current } }

def handleEventFieldUndo (workflow : CalendarWorkflow) (field : EventTextField) : CalendarWorkflow :=
  workflow.mapEditor (fun session => session.moveText UndoableText.undo field)

def handleEventFieldRedo (workflow : CalendarWorkflow) (field : EventTextField) : CalendarWorkflow :=
  workflow.mapEditor (fun session => session.moveText UndoableText.redo field)

/-- What a save is about, `none` where there is nothing to save or no calendar to save it on. -/
def saveOperation (system : TimeZone) : CalendarWorkflow → Option (String × WireCalendarOperation)
  | .editingEvent eventId accountId session =>
    some (accountId, .updateEvent eventId (buildWireInput system session.draft))
  | .creatingEvent (some accountId) session =>
    session.draft.calendarId.map (fun calendarId =>
      (accountId, .createEvent calendarId (buildWireInput system session.draft)))
  | _ => none

def handleSaveEvent (system : TimeZone) (client : Bool) (s : CalendarState) :
    CalendarState × List CalendarTask :=
  if client then
    match saveOperation system s.workflow with
    | none => (s, [])
    | some (accountId, operation) => (s.enter .idle, [.execute accountId operation])
  else (s, [])

def handleCloseModal (s : CalendarState) : CalendarState :=
  match s.workflow with
  | .confirmingDiscard true _ accountId session => s.enter (.creatingEvent accountId session)
  | .confirmingDiscard false eventId accountId session =>
    s.enter (.editingEvent (eventId.getD "") (accountId.getD "") session)
  | .creatingEvent accountId session =>
    if session.isDirty then s.enter (.confirmingDiscard true none accountId session) else s.enter .idle
  | .editingEvent eventId accountId session =>
    if session.isDirty then
      s.enter (.confirmingDiscard false (some eventId) (some accountId) session)
    else s.enter .idle
  | _ => s.enter .idle

def openEventEditor (s : CalendarState) (data : Option CalendarEventData) : CalendarState :=
  let event := data.getD (.newAt s.selectedDate (s.selectedHour.getD 9))
  match event.id with
  | some eventId => s.enter (.editingEvent eventId (event.accountId.getD "") (.new event))
  | none => openCreator s event

def reloadCalendarEvents (s : CalendarState) : CalendarState × List CalendarTask :=
  let s := { s with loadGeneration := (s.loadGeneration + 1) % 2 ^ 64 }
  (s, [.reload s.loadGeneration])

def updateCalendar (id : String) (f : CalendarListEntry → CalendarListEntry) :
    List CalendarListEntry → List CalendarListEntry
  | [] => []
  | c :: cs => if c.id = id then f c :: cs else c :: updateCalendar id f cs

/-- `client` is whether the service client is there. -/
def handleCalendar (system : TimeZone) (client : Bool) (s : CalendarState) :
    CalendarMessage → CalendarState × List CalendarTask
  | .selectDate date => ({ s with selectedDate := date }, [])
  | .selectSlot date hour => ({ s with selectedDate := date, selectedHour := some hour }, [])
  | .doubleClickSlot date hour => (openCreator s (.newAt date hour), [])
  | .setView => (s, [])
  | .prevMonth => (s, [])
  | .nextMonth => (s, [])
  | .today date => ({ s with selectedDate := date }, [])
  | .eventClicked eventId => (s, [.loadEvent eventId])
  | .closePopover => (s.enter .idle, [])
  | .closeModal => (handleCloseModal s, [])
  | .expandPopoverToModal =>
    match s.workflow with
    | .viewingEvent eventData _ => (s.enter (.viewingEvent eventData .fullModal), [])
    | _ => (s, [])
  | .openEventEditor data => (openEventEditor s data, [])
  | .eventFieldChanged field => ({ s with workflow := handleEventFieldChanged s.workflow field }, [])
  | .eventFieldUndo field => ({ s with workflow := handleEventFieldUndo s.workflow field }, [])
  | .eventFieldRedo field => ({ s with workflow := handleEventFieldRedo s.workflow field }, [])
  | .saveEvent => handleSaveEvent system client s
  | .eventSaved (.ok ()) => reloadCalendarEvents (s.enter .idle)
  | .eventSaved (.error _) => (s, [])
  | .confirmDeleteEvent eventId title accountId =>
    (s.enter (.confirmingDelete eventId (accountId.getD "") title), [])
  | .deleteEvent =>
    match s.workflow with
    | .confirmingDelete eventId accountId _ =>
      (s.enter .idle, if client then [.execute accountId (.deleteEvent eventId)] else [])
    | _ => (s, [])
  | .discardChanges => (s.enter .idle, [])
  | .eventDeleted (.ok ()) => reloadCalendarEvents s
  | .eventDeleted (.error _) => (s, [])
  | .rsvpEvent eventId accountId response =>
    (s, if client then [.execute accountId (.rsvpEvent eventId response)] else [])
  | .rsvpCompleted (.ok ()) => reloadCalendarEvents s
  | .rsvpCompleted (.error _) => (s, [])
  | .createEvent => (openCreator s (.newAt s.selectedDate (s.selectedHour.getD 9)), [])
  | .eventLoaded (.ok data) => (s.enter (.viewingEvent data .popover), [])
  | .eventLoaded (.error _) => (s, [])
  | .eventsLoaded _ => (s, [])
  | .switchToMail => (s, [])
  | .noop => (s, [])
  | .popOutCalendar => (s, [])
  | .toggleCalendarVisibility calendarId visible =>
    if client then
      ({ s with
        calendars := updateCalendar calendarId (fun c => { c with isVisible := visible }) s.calendars },
        [.setVisibility calendarId visible])
    else (s, [])
  | .visibilityToggled _ _ (.ok ()) => reloadCalendarEvents s
  | .visibilityToggled calendarId requestedValue (.error _) =>
    ({ s with
      calendars := updateCalendar calendarId (fun c =>
        if c.isVisible = requestedValue then { c with isVisible := !requestedValue } else c)
        s.calendars }, [])
  | .calendarsLoaded loadGeneration result =>
    match result with
    | .ok calendars => if s.loadGeneration = loadGeneration then ({ s with calendars := calendars }, [])
        else (s, [])
    | .error _ => (s, [])

end Ratatoskr.Calendar

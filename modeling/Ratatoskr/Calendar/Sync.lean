import Ratatoskr.Calendar.Idmap

/-!
# Calendar.Sync

`calendar/src/sync.rs` and the writes it makes: pulling a range page by page into the cache, the windowed
deletion reconcile, and a whole run over the target calendars. `EventTable` is `calendar_events` with the
two constraints of its schema.
-/

namespace Ratatoskr.Calendar

def EventRow.key (r : EventRow) : String × String := (r.accountId, r.googleEventId)

structure EventTable where
  rows : List EventRow
  ids : (rows.map (·.id)).Nodup
  unique : (rows.map EventRow.key).Nodup

inductive SyncError where
  | panic (p : Panic)
  | constraint
  deriving DecidableEq

def CalendarEventRow.key (row : CalendarEventRow) : String × String := (row.accountId, row.googleEventId)

def CalendarEventRow.stored (row : CalendarEventRow) (id : String) : EventRow where
  id := id
  accountId := row.accountId
  googleEventId := row.googleEventId
  summary := row.summary
  description := row.description
  location := row.location
  startTime := row.startTime
  endTime := row.endTime
  isAllDay := row.isAllDay
  status := some row.status
  organizerEmail := row.organizerEmail
  attendeesJson := row.attendeesJson
  htmlLink := row.htmlLink
  calendarId := some row.calendarId
  remoteEventId := some row.remoteEventId
  etag := row.etag
  icalData := row.icalData
  uid := row.uid
  title := row.title
  timezone := row.timezone
  recurrenceRule := row.recurrenceRule
  organizerName := row.organizerName
  rsvpStatus := row.rsvpStatus
  availability := row.availability
  visibility := row.visibility
  recurrenceId := row.recurrenceId

/-- All columns of the row with the same key, but not its id. -/
def overwrite (row : CalendarEventRow) (r : EventRow) : EventRow :=
  if r.key = row.key then row.stored r.id else r

@[simp] theorem overwrite_id (row : CalendarEventRow) (r : EventRow) : (overwrite row r).id = r.id := by
  unfold overwrite
  split <;> rfl

@[simp] theorem overwrite_key (row : CalendarEventRow) (r : EventRow) : (overwrite row r).key = r.key := by
  unfold overwrite
  split
  · rename_i h
    exact h.symm
  · rfl

namespace EventTable

/-- `INSERT`, which both constraints can refuse. -/
def insert (t : EventTable) (r : EventRow) : Except SyncError EventTable :=
  if h : r.id ∉ t.rows.map (·.id) ∧ r.key ∉ t.rows.map EventRow.key then
    .ok ⟨t.rows ++ [r], by
      rw [List.map_append]
      exact List.nodup_append_comm.mp (List.nodup_cons.mpr ⟨h.1, t.ids⟩), by
      rw [List.map_append]
      exact List.nodup_append_comm.mp (List.nodup_cons.mpr ⟨h.2, t.unique⟩)⟩
  else .error .constraint

/-- Change rows where the condition holds, which neither moves an id nor doubles a key. -/
def mapRows (t : EventTable) (f : EventRow → EventRow) (hid : ∀ r, (f r).id = r.id)
    (hkey : ∀ r, (f r).key = r.key) : EventTable :=
  ⟨t.rows.map f, by simpa [List.map_map, Function.comp_def, hid] using t.ids,
    by simpa [List.map_map, Function.comp_def, hkey] using t.unique⟩

/-- `INSERT … ON CONFLICT DO UPDATE`. -/
def upsertCalendarEventRow (t : EventTable) (uuid : String) (row : CalendarEventRow) :
    Except SyncError EventTable :=
  if row.key ∈ t.rows.map EventRow.key then
    .ok (t.mapRows (overwrite row) (overwrite_id row) (overwrite_key row))
  else t.insert (row.stored uuid)

/-- `DELETE` of the rows that do not meet the condition. -/
def keep (t : EventTable) (p : EventRow → Bool) : EventTable :=
  ⟨t.rows.filter p, t.ids.sublist (List.Sublist.map _ List.filter_sublist),
    t.unique.sublist (List.Sublist.map _ List.filter_sublist)⟩

end EventTable

/-- A page: the events, each with the uuid made for it, and the resources that failed. -/
structure Page where
  items : List (String × CalendarEvent)
  failedIds : List String

def applyEvent (h : Host) (accountId calendarId : String) (t : EventTable)
    (item : String × CalendarEvent) : Except SyncError EventTable :=
  match toEventRow h accountId calendarId item.2 with
  | none => .ok t
  | some row => t.upsertCalendarEventRow item.1 row

def applyEventPage (h : Host) (accountId calendarId : String) (t : EventTable) (page : Page) :
    Except SyncError EventTable :=
  page.items.foldlM (applyEvent h accountId calendarId) t

structure PullResult where
  seen : List String
  failed : List String

def PullResult.addPage (pulled : PullResult) (page : Page) : PullResult :=
  ⟨pulled.seen ++ page.items.map (fun item => eventDedupKey item.2), pulled.failed ++ page.failedIds⟩

def pullRange (h : Host) (accountId calendarId : String) (t : EventTable) (pages : List Page) :
    Except SyncError (EventTable × PullResult) :=
  pages.foldlM (fun st page => do
    let t ← applyEventPage h accountId calendarId st.1 page
    pure (t, st.2.addPage page)) (t, ⟨[], []⟩)

def shouldDeleteAbsentCandidate (j : Jiff) (recurrenceRule : Option String) (startTime endTime : Int)
    (timezone : Option String) (windowStart windowEnd : Int) : Except Panic Bool :=
  match recurrenceRule with
  | none => .ok true
  | some rrule =>
    if Overlaps windowStart windowEnd startTime endTime then .ok true
    else recurringMasterIntersectsWindow j rrule startTime endTime timezone windowStart windowEnd

/-- Whether the reconcile deletes the row: it is a candidate of the calendar and window, the pull has
neither seen its key nor reported it as failed, and its absence counts. -/
def reaps (j : Jiff) (calendarId : String) (windowStart windowEnd : Int) (pulled : PullResult)
    (r : EventRow) : Except Panic Bool :=
  if r.calendarId = some calendarId ∧ inWindow windowStart windowEnd r = true ∧
      r.googleEventId ∉ pulled.seen ∧ (∀ id, r.remoteEventId = some id → id ∉ pulled.failed) then
    shouldDeleteAbsentCandidate j r.recurrenceRule r.startTime r.endTime r.timezone windowStart windowEnd
  else .ok false

def reconcileWindow (j : Jiff) (calendarId : String) (windowStart windowEnd : Int) (pulled : PullResult)
    (t : EventTable) : Except SyncError EventTable :=
  if pulled.seen = [] then .ok t
  else
    match t.rows.mapM (reaps j calendarId windowStart windowEnd pulled) with
    | .error p => .error (.panic p)
    | .ok _ => .ok (t.keep (fun r => reaps j calendarId windowStart windowEnd pulled r ≠ .ok true))

/-! ## A run -/

def windowBackMs : Int := 365 * 24 * 60 * 60 * 1000

def windowForwardMs : Int := 730 * 24 * 60 * 60 * 1000

/-- A calendar and the pages that `pull_range` gets for it. -/
structure Pull where
  calendarId : String
  pages : List Page

def syncTarget (h : Host) (accountId : String) (nowMs : Int) (t : EventTable) (pull : Pull) :
    Except SyncError EventTable := do
  let (t, pulled) ← pullRange h accountId pull.calendarId t pull.pages
  reconcileWindow h.toJiff pull.calendarId ((nowMs - windowBackMs) / 1000)
    ((nowMs + windowForwardMs) / 1000) pulled t

/-- The active window of every target, then the history slices, which delete nothing. -/
def syncAccount (h : Host) (accountId : String) (nowMs : Int) (targets backfills : List Pull)
    (t : EventTable) : Except SyncError EventTable := do
  let t ← targets.foldlM (syncTarget h accountId nowMs) t
  backfills.foldlM (fun t pull => do
    let (t, _) ← pullRange h accountId pull.calendarId t pull.pages
    pure t) t

end Ratatoskr.Calendar

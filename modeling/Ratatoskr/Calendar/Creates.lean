import Ratatoskr.Calendar.Pulled

/-!
# Calendar.Creates

`create_calendar_event` beside a sync. A new event is a row under its own uuid until the provider's id has
been written, and the reconcile decides by the keys that the pull has seen; the steps of both interleave
in any order, each one transaction.

* `inv_step` : rows that no create has inserted have a remote id, and the seen keys are those of the pulled
  events.
* `reconcile_evidence_iff` : after every run, a reconcile deletes only on evidence iff it finds no new row
  that it would take for a deleted one.
-/

namespace Ratatoskr.Calendar

open List
open Lib (Reaches)

structure LocalCalendarEventParams where
  accountId : String
  summary : String
  description : String
  location : String
  startTime : Int
  endTime : Int
  isAllDay : Bool
  calendarId : Option String
  timezone : Option String
  recurrenceRule : Option String
  availability : Option String
  visibility : Option String

/-- The row that `create_calendar_event_sync` inserts: its id is its key. -/
def localRow (id : String) (p : LocalCalendarEventParams) : EventRow where
  id := id
  accountId := p.accountId
  googleEventId := id
  summary := some p.summary
  description := some p.description
  location := some p.location
  startTime := p.startTime
  endTime := p.endTime
  isAllDay := p.isAllDay
  status := some "confirmed"
  organizerEmail := none
  attendeesJson := none
  htmlLink := none
  calendarId := p.calendarId
  remoteEventId := none
  etag := none
  icalData := none
  uid := none
  title := none
  timezone := p.timezone
  recurrenceRule := p.recurrenceRule
  organizerName := none
  rsvpStatus := none
  availability := p.availability
  visibility := p.visibility
  recurrenceId := none

/-- The provider's id becomes both key and remote id of the row. -/
def withRemoteId (id nativeId : String) (r : EventRow) : EventRow :=
  if r.id = id then { r with googleEventId := nativeId, remoteEventId := some nativeId, etag := none }
  else r

theorem withRemoteId_id (id nativeId : String) (r : EventRow) : (withRemoteId id nativeId r).id = r.id := by
  unfold withRemoteId
  split <;> rfl

/-- `set_calendar_event_remote_id_and_etag`; a row with the key already there refuses it. -/
def EventTable.setRemoteId (t : EventTable) (id nativeId : String) : Except SyncError EventTable :=
  if h : ((t.rows.map (withRemoteId id nativeId)).map EventRow.key).Nodup then
    .ok ⟨t.rows.map (withRemoteId id nativeId), by
      simpa [map_map, Function.comp_def, withRemoteId_id] using t.ids, h⟩
  else .error .constraint

/-- A pull of one calendar: what it has collected, and when it started. -/
structure SyncRun where
  calendarId : String
  windowStart : Int
  windowEnd : Int
  startedAt : Nat
  pulled : PullResult
  events : List CalendarEvent

structure World where
  table : EventTable
  /-- Steps so far. -/
  clock : Nat
  /-- The rows that creates have inserted, and when. -/
  created : List (String × Nat)
  /-- The creates that the provider has not answered. -/
  inFlight : List String
  run : Option SyncRun

inductive Act where
  | createLocal (id : String) (p : LocalCalendarEventParams)
  | remoteCreated (id nativeId : String)
  | localOnly (id : String)
  | startPull (calendarId : String) (nowMs : Int)
  | page (p : Page)
  | reconcile

def start : World := ⟨emptyTable, 0, [], [], none⟩

/-- One transaction, or one answer of the provider. What a step cannot do at this point is an error. -/
def step (h : Host) (accountId : String) (w : World) : Act → Except SyncError World
  | .createLocal id p => do
    let t ← w.table.insert (localRow id p)
    pure { w with
      table := t, clock := w.clock + 1, created := (id, w.clock) :: w.created,
      inFlight := id :: w.inFlight }
  | .remoteCreated id nativeId =>
    if id ∈ w.inFlight then
      -- the result of the write is dropped
      let t := match w.table.setRemoteId id nativeId with
        | .ok t => t
        | .error _ => w.table
      .ok { w with table := t, clock := w.clock + 1, inFlight := w.inFlight.erase id }
    else .error .constraint
  | .localOnly id =>
    if id ∈ w.inFlight then
      .ok { w with clock := w.clock + 1, inFlight := w.inFlight.erase id }
    else .error .constraint
  | .startPull calendarId nowMs =>
    .ok { w with
      clock := w.clock + 1,
      run := some ⟨calendarId, (nowMs - windowBackMs) / 1000, (nowMs + windowForwardMs) / 1000, w.clock,
        ⟨[], []⟩, []⟩ }
  | .page p =>
    match w.run with
    | none => .error .constraint
    | some run => do
      let t ← applyEventPage h accountId run.calendarId w.table p
      pure { w with
        table := t, clock := w.clock + 1,
        run := some { run with
          pulled := run.pulled.addPage p, events := run.events ++ p.items.map (·.2) } }
  | .reconcile =>
    match w.run with
    | none => .error .constraint
    | some run => do
      let t ← reconcileWindow h.toJiff run.calendarId run.windowStart run.windowEnd run.pulled w.table
      pure { w with table := t, clock := w.clock + 1, run := none }

/-! ## What holds in every state -/

def World.insertedAt (w : World) (r : EventRow) : Option Nat := w.created.lookup r.id

structure Inv (w : World) : Prop where
  confirmed : ∀ r ∈ w.table.rows, w.insertedAt r = none → r.remoteEventId.isSome = true
  seen : ∀ run, w.run = some run → run.pulled.seen = run.events.map eventDedupKey

section Inv

variable {h : Host} {accountId : String} {w w' : World}

variable {t t' : EventTable}

theorem rows_insert {r : EventRow} (hins : t.insert r = .ok t') :
    t'.rows = t.rows ++ [r] ∧ r.id ∉ t.rows.map (·.id) := by
  unfold EventTable.insert at hins
  split at hins
  · rename_i hcond
    cases hins
    exact ⟨rfl, hcond.1⟩
  · cases hins

theorem mem_upsert {uuid : String} {row : CalendarEventRow}
    (hup : t.upsertCalendarEventRow uuid row = .ok t') :
    ∀ r ∈ t'.rows, r ∈ t.rows ∨ r.remoteEventId.isSome = true := by
  unfold EventTable.upsertCalendarEventRow at hup
  split at hup
  · cases hup
    intro r hr
    obtain ⟨r₀, hr₀, rfl⟩ := mem_map.mp hr
    unfold overwrite
    split
    · exact .inr rfl
    · exact .inl hr₀
  · intro r hr
    rw [(rows_insert hup).1, mem_append, mem_singleton] at hr
    rcases hr with hr | rfl
    · exact .inl hr
    · exact .inr rfl

theorem mem_applyEventPage {calendarId : String} {page : Page}
    (happly : applyEventPage h accountId calendarId t page = .ok t') :
    ∀ r ∈ t'.rows, r ∈ t.rows ∨ r.remoteEventId.isSome = true := by
  unfold applyEventPage at happly
  generalize page.items = items at happly
  induction items generalizing t with
  | nil =>
    cases happly
    exact fun r hr => .inl hr
  | cons item items ih =>
    obtain ⟨t₁, hone, happly⟩ := Lib.bind_ok happly
    intro r hr
    rcases ih happly r hr with hr₁ | hsome
    · unfold applyEvent at hone
      split at hone
      · cases hone
        exact .inl hr₁
      · exact mem_upsert hone r hr₁
    · exact .inr hsome

theorem reconcile_rows {j : Jiff} {calendarId : String} {windowStart windowEnd : Int}
    {pulled : PullResult}
    (hrec : reconcileWindow j calendarId windowStart windowEnd pulled t = .ok t') (r : EventRow) :
    r ∈ t'.rows ↔ r ∈ t.rows ∧ (pulled.seen = [] ∨
      reaps j calendarId windowStart windowEnd pulled r ≠ .ok true) := by
  unfold reconcileWindow at hrec
  split at hrec
  · rename_i hseen
    cases hrec
    simp [hseen]
  · rename_i hseen
    split at hrec
    · cases hrec
    · cases hrec
      simp [EventTable.keep, hseen]

theorem inv_start : Inv start := by
  refine ⟨?_, ?_⟩
  · intro r hr
    cases hr
  · intro run hrun
    cases hrun

theorem inv_step (hinv : Inv w) {a : Act} (hstep : step h accountId w a = .ok w') : Inv w' := by
  cases a with
  | createLocal id p =>
    obtain ⟨t, hins, hstep⟩ := Lib.bind_ok hstep
    cases hstep
    obtain ⟨hrows, hfresh⟩ := rows_insert hins
    refine ⟨?_, hinv.seen⟩
    intro r hr hnone
    rw [World.insertedAt, lookup_cons] at hnone
    rw [hrows, mem_append, mem_singleton] at hr
    rcases hr with hr | rfl
    · split at hnone
      · cases hnone
      · exact hinv.confirmed r hr hnone
    · -- the new row is known as created
      have hself : ((localRow id p).id == id) = true := beq_self_eq_true id
      rw [hself] at hnone
      cases hnone
  | remoteCreated id nativeId =>
    rw [step] at hstep
    split at hstep
    · cases hstep
      refine ⟨?_, hinv.seen⟩
      intro r hr hnone
      unfold EventTable.setRemoteId at hr
      split at hr
      · obtain ⟨r₀, hr₀, rfl⟩ := mem_map.mp (by
          rename_i heq
          split at heq
          · cases heq
            exact hr
          · cases heq)
        have hnone₀ : w.insertedAt r₀ = none := by
          rw [World.insertedAt, withRemoteId_id] at hnone
          exact hnone
        unfold withRemoteId
        split
        · rfl
        · exact hinv.confirmed r₀ hr₀ hnone₀
      · exact hinv.confirmed r hr hnone
    · cases hstep
  | localOnly id =>
    rw [step] at hstep
    split at hstep
    · cases hstep
      exact ⟨hinv.confirmed, hinv.seen⟩
    · cases hstep
  | startPull calendarId nowMs =>
    cases hstep
    refine ⟨hinv.confirmed, ?_⟩
    intro run hrun
    cases hrun
    rfl
  | page p =>
    rw [step] at hstep
    cases hrun : w.run with
    | none =>
      rw [hrun] at hstep
      cases hstep
    | some run =>
      rw [hrun] at hstep
      obtain ⟨t, happly, hstep⟩ := Lib.bind_ok hstep
      cases hstep
      refine ⟨?_, ?_⟩
      · intro r hr hnone
        rcases mem_applyEventPage happly r hr with hold | hsome
        · exact hinv.confirmed r hold hnone
        · exact hsome
      · intro run' hrun'
        cases hrun'
        simp only [PullResult.addPage, hinv.seen run hrun, map_append, map_map]
        rfl
  | reconcile =>
    rw [step] at hstep
    cases hrun : w.run with
    | none =>
      rw [hrun] at hstep
      cases hstep
    | some run =>
      rw [hrun] at hstep
      obtain ⟨t, hrec, hstep⟩ := Lib.bind_ok hstep
      cases hstep
      refine ⟨?_, ?_⟩
      · intro r hr hnone
        exact hinv.confirmed r ((reconcile_rows hrec r).mp hr).1 hnone
      · intro run' hrun'
        cases hrun'

end Inv

/-! ## What a reconcile may delete -/

/-- The row could be taken for a deleted one: it is in the calendar, and it or one of its occurrences
meets the window. -/
def Candidate (j : Jiff) (run : SyncRun) (r : EventRow) : Prop :=
  r.calendarId = some run.calendarId ∧ inWindow run.windowStart run.windowEnd r = true ∧
    shouldDeleteAbsentCandidate j r.recurrenceRule r.startTime r.endTime r.timezone run.windowStart
      run.windowEnd = .ok true

/-- The pull lists the event of the row under its remote id. -/
def SyncRun.Lists (run : SyncRun) (r : EventRow) : Prop :=
  ∃ e ∈ run.events, some (eventRemoteId e) = r.remoteEventId

/-- Every created row that the reconcile must not take is known to the pull under its key, or was
reported as failed; or the pull is empty. -/
def Safe (j : Jiff) (w : World) (run : SyncRun) : Prop :=
  run.events = [] ∨ ∀ r ∈ w.table.rows, ∀ insertedAt, w.insertedAt r = some insertedAt →
    Candidate j run r → (r.remoteEventId = none ∨ run.startedAt ≤ insertedAt ∨ run.Lists r) →
      r.googleEventId ∈ run.events.map eventDedupKey ∨ ∃ id ∈ run.pulled.failed, r.remoteEventId = some id

structure EvidenceOnly (w : World) (run : SyncRun) (w' : World) : Prop where
  kept : ∀ r ∈ w.table.rows, ∀ insertedAt, w.insertedAt r = some insertedAt →
    r.remoteEventId = none ∨ run.startedAt ≤ insertedAt → r ∈ w'.table.rows
  omitted : ∀ r ∈ w.table.rows, r ∉ w'.table.rows → r.remoteEventId.isSome = true ∧
    r.googleEventId ∉ run.events.map eventDedupKey ∧
    ∀ insertedAt, w.insertedAt r = some insertedAt → ¬ run.Lists r

section Reconcile

variable {h : Host} {accountId : String} {w w' : World} {run : SyncRun}

theorem reaps_eq_true {j : Jiff} {calendarId : String} {windowStart windowEnd : Int}
    {pulled : PullResult} {r : EventRow} : reaps j calendarId windowStart windowEnd pulled r = .ok true ↔
      (r.calendarId = some calendarId ∧ inWindow windowStart windowEnd r = true ∧
        shouldDeleteAbsentCandidate j r.recurrenceRule r.startTime r.endTime r.timezone windowStart
          windowEnd = .ok true) ∧
      r.googleEventId ∉ pulled.seen ∧ ∀ id, r.remoteEventId = some id → id ∉ pulled.failed := by
  unfold reaps
  split
  · rename_i hcond
    exact ⟨fun hdel => ⟨⟨hcond.1, hcond.2.1, hdel⟩, hcond.2.2⟩, fun hall => hall.1.2.2⟩
  rename_i hcond
  constructor
  · intro hfalse
    cases hfalse
  · rintro ⟨⟨hcal, hwin, -⟩, hrest⟩
    exact absurd ⟨hcal, hwin, hrest⟩ hcond

theorem deleted_iff (hinv : Inv w) (hrun : w.run = some run)
    (hstep : step h accountId w .reconcile = .ok w') {r : EventRow} (hr : r ∈ w.table.rows) :
    r ∉ w'.table.rows ↔ run.events ≠ [] ∧ Candidate h.toJiff run r ∧
      r.googleEventId ∉ run.events.map eventDedupKey ∧
      ∀ id, r.remoteEventId = some id → id ∉ run.pulled.failed := by
  rw [step, hrun] at hstep
  obtain ⟨t, hrec, hstep⟩ := Lib.bind_ok hstep
  cases hstep
  have hseen := hinv.seen run hrun
  rw [reconcile_rows hrec r, ne_eq, reaps_eq_true, hseen, map_eq_nil_iff]
  tauto

theorem evidenceOnly_iff (hinv : Inv w) (hrun : w.run = some run)
    (hstep : step h accountId w .reconcile = .ok w') : EvidenceOnly w run w' ↔ Safe h.toJiff w run := by
  constructor
  · intro hev
    by_cases hempty : run.events = []
    · exact .inl hempty
    right
    intro r hr insertedAt hat hcand hmust
    by_contra hnone
    rw [not_or] at hnone
    obtain ⟨hkey, hfailed⟩ := hnone
    have hgone : r ∉ w'.table.rows :=
      (deleted_iff hinv hrun hstep hr).mpr
        ⟨hempty, hcand, hkey, fun id hid hmem => hfailed ⟨id, hmem, hid⟩⟩
    rcases hmust with hnone | hlate | hlists
    · exact hgone (hev.kept r hr insertedAt hat (.inl hnone))
    · exact hgone (hev.kept r hr insertedAt hat (.inr hlate))
    · exact (hev.omitted r hr hgone).2.2 insertedAt hat hlists
  · intro hsafe
    -- a created row that was deleted needed no protection
    have hcreated : ∀ r ∈ w.table.rows, r ∉ w'.table.rows → ∀ insertedAt,
        w.insertedAt r = some insertedAt →
        ¬ (r.remoteEventId = none ∨ run.startedAt ≤ insertedAt ∨ run.Lists r) := by
      intro r hr hgone insertedAt hat hmust
      obtain ⟨hne, hcand, hkey, hfailed⟩ := (deleted_iff hinv hrun hstep hr).mp hgone
      rcases hsafe with hempty | hsafe
      · exact hne hempty
      · rcases hsafe r hr insertedAt hat hcand hmust with hmem | ⟨id, hmem, hid⟩
        · exact hkey hmem
        · exact hfailed id hid hmem
    constructor
    · intro r hr insertedAt hat hmust
      by_contra hgone
      refine hcreated r hr hgone insertedAt hat ?_
      tauto
    · intro r hr hgone
      have hdel := (deleted_iff hinv hrun hstep hr).mp hgone
      refine ⟨?_, hdel.2.2.1, ?_⟩
      · cases hat : w.insertedAt r with
        | none => exact hinv.confirmed r hr hat
        | some insertedAt =>
          rw [Option.isSome_iff_ne_none]
          exact fun hnone => hcreated r hr hgone insertedAt hat (.inl hnone)
      · exact fun insertedAt hat hlists => hcreated r hr hgone insertedAt hat (.inr (.inr hlists))

end Reconcile

/-- Every reconcile of the run meets `P`, in the state before it, its pull and the state after it. -/
def EachReconcile (h : Host) (accountId : String) (P : World → SyncRun → World → Prop)
    (acts : List Act) : Prop :=
  ∀ before after w run w', acts = before ++ .reconcile :: after →
    before.foldlM (step h accountId) start = .ok w → w.run = some run →
    step h accountId w .reconcile = .ok w' → P w run w'

/-- In every order of the steps of creates and pulls, the reconciles delete on evidence only iff each
of them finds the created rows it must not take known to its pull. -/
theorem reconcile_evidence_iff (h : Host) (accountId : String) (acts : List Act) :
    EachReconcile h accountId EvidenceOnly acts ↔
      EachReconcile h accountId (fun w run _ => Safe h.toJiff w run) acts := by
  have hiff : ∀ (before : List Act) (w : World) (run : SyncRun) (w' : World),
      before.foldlM (step h accountId) start = .ok w → w.run = some run →
      step h accountId w .reconcile = .ok w' → (EvidenceOnly w run w' ↔ Safe h.toJiff w run) := by
    intro before w run w' hbefore hrun hstep
    have hreach := Lib.reaches_foldlM hbefore
    have hinv : Inv w := hreach.invariant inv_start (fun _ _ _ hi _ hs => inv_step hi hs)
    exact evidenceOnly_iff hinv hrun hstep
  constructor
  · intro hev before after w run w' hacts hbefore hrun hstep
    exact (hiff before w run w' hbefore hrun hstep).mp (hev before after w run w' hacts hbefore hrun hstep)
  · intro hsafe before after w run w' hacts hbefore hrun hstep
    exact (hiff before w run w' hbefore hrun hstep).mpr
      (hsafe before after w run w' hacts hbefore hrun hstep)

def lunch : LocalCalendarEventParams where
  accountId := "acct"
  summary := "Lunch"
  description := ""
  location := ""
  startTime := 1767614400
  endTime := 1767618000
  isAllDay := false
  calendarId := some "cal-own"
  timezone := none
  recurrenceRule := none
  availability := none
  visibility := none

/-- The provider does not take the event; then the calendar is pulled. -/
def lunchOffline : List Act :=
  [.createLocal "uuid-0" lunch, .localOnly "uuid-0", .startPull "cal-own" 1767571200000,
    .page ⟨[("uuid-1", meeting "me@host::evt1")], []⟩]

/-- The reconcile deletes the event that the server was never told about. -/
theorem local_event_deleted :
    ¬ EachReconcile meetingHost "acct" EvidenceOnly (lunchOffline ++ [.reconcile]) := by
  have hids : (lunchOffline.foldlM (step meetingHost "acct") start).map
      (fun w => (w.table.rows.head?, w.created, w.run.isSome)) =
        .ok (some (localRow "uuid-0" lunch), [("uuid-0", 0)], true) := by decide
  have hafter : ((lunchOffline ++ [Act.reconcile]).foldlM (step meetingHost "acct") start).map
      (fun w => w.table.rows.map (·.id)) = .ok ["uuid-1"] := by decide
  rw [foldlM_append] at hafter
  cases hbefore : lunchOffline.foldlM (step meetingHost "acct") start with
  | error e =>
    rw [hbefore] at hids
    cases hids
  | ok w =>
    rw [hbefore] at hids hafter
    have hw := Except.ok.inj hids
    simp only [Prod.mk.injEq] at hw
    obtain ⟨hhead, hcreated, hsome⟩ := hw
    obtain ⟨run, hrun⟩ := Option.isSome_iff_exists.mp hsome
    change (step meetingHost "acct" w .reconcile >>= pure).map _ = _ at hafter
    rw [bind_pure] at hafter
    obtain ⟨w', hstep, hafter⟩ := Lib.bind_ok hafter
    intro hev
    have hall := hev lunchOffline [] w run w' rfl hbefore hrun hstep
    have hrow : localRow "uuid-0" lunch ∈ w.table.rows := mem_of_mem_head? hhead
    have hat : w.insertedAt (localRow "uuid-0" lunch) = some 0 := by
      rw [World.insertedAt, hcreated]
      decide
    have hkept := hall.kept _ hrow 0 hat (.inl rfl)
    have hids' : w'.table.rows.map (·.id) = ["uuid-1"] := Except.ok.inj hafter
    have hid := mem_map_of_mem (f := (·.id)) hkept
    rw [hids'] at hid
    revert hid
    decide

end Ratatoskr.Calendar

import Ratatoskr.Calendar.Sync
import Ratatoskr.Lib.Run

/-!
# Calendar.Pulled

Which pulled events a sync run keeps. An upsert overwrites the row with the same key, whatever calendar
it belongs to, and the reconcile of a calendar spares the keys that were seen there; so after a run every
pulled event has its row iff no two pulled events with one key differ in any column.

* `upsert_holds`, `reconcile_holds` : what one write keeps.
* `kept_syncAccount` : what a run keeps.
* `sync_keeps_iff` : the exact condition.
-/

namespace Ratatoskr.Calendar

open List

abbrev Pulled := String × CalendarEvent

def Page.pulled (calendarId : String) (page : Page) : List Pulled :=
  page.items.map (fun item => (calendarId, item.2))

def Pull.pulled (pull : Pull) : List Pulled := pull.pages.flatMap (Page.pulled pull.calendarId)

def EventTable.Holds (t : EventTable) (row : CalendarEventRow) : Prop := ∃ id, row.stored id ∈ t.rows

variable {t : EventTable} {row : CalendarEventRow}

theorem Holds.unique {row' : CalendarEventRow} (h : t.Holds row)
    (h' : t.Holds row') (hkey : row.key = row'.key) : row = row' := by
  obtain ⟨id, hrow⟩ := h
  obtain ⟨id', hrow'⟩ := h'
  have heq : row.stored id = row'.stored id' := inj_on_of_nodup_map t.unique hrow hrow' hkey
  cases row
  cases row'
  simp only [CalendarEventRow.stored, EventRow.mk.injEq, Option.some.injEq] at heq
  simp only [CalendarEventRow.mk.injEq]
  tauto

variable {t' : EventTable}

theorem upsert_holds {uuid : String} (h : t.upsertCalendarEventRow uuid row = .ok t') :
    t'.Holds row ∧ ∀ row', row'.key ≠ row.key → t.Holds row' → t'.Holds row' := by
  unfold EventTable.upsertCalendarEventRow at h
  split at h
  · rename_i hmem
    cases h
    obtain ⟨r, hr, hkey⟩ := mem_map.mp hmem
    constructor
    · refine ⟨r.id, mem_map.mpr ⟨r, hr, ?_⟩⟩
      rw [overwrite, if_pos hkey]
    · rintro row' hne ⟨id, hid⟩
      refine ⟨id, mem_map.mpr ⟨_, hid, ?_⟩⟩
      rw [overwrite, if_neg]
      exact hne
  · unfold EventTable.insert at h
    split at h
    · cases h
      refine ⟨⟨uuid, mem_append_right _ (mem_singleton_self _)⟩, ?_⟩
      rintro row' - ⟨id, hid⟩
      exact ⟨id, mem_append_left _ hid⟩
    · cases h

theorem reconcile_holds {j : Jiff} {calendarId : String} {windowStart windowEnd : Int} {pulled : PullResult}
    (h : reconcileWindow j calendarId windowStart windowEnd pulled t = .ok t')
    (hrow : row.calendarId ≠ calendarId ∨ row.googleEventId ∈ pulled.seen) (hold : t.Holds row) :
    t'.Holds row := by
  obtain ⟨id, hid⟩ := hold
  unfold reconcileWindow at h
  split at h
  · cases h
    exact ⟨id, hid⟩
  split at h
  · cases h
  cases h
  have hspared : reaps j calendarId windowStart windowEnd pulled (row.stored id) = .ok false := by
    rw [reaps, if_neg]
    rintro ⟨hcal, -, hseen, -⟩
    rcases hrow with hne | hmem
    · exact hne (Option.some.inj hcal)
    · exact hseen hmem
  refine ⟨id, mem_filter.mpr ⟨hid, ?_⟩⟩
  rw [hspared]
  rfl

def KeepsAll (h : Host) (accountId : String) (t : EventTable) (D : Pulled → Prop) : Prop :=
  ∀ x, D x → ∀ row, toEventRow h accountId x.1 x.2 = some row → t.Holds row

def NoClash (h : Host) (accountId : String) (all : List Pulled) : Prop :=
  ∀ x ∈ all, ∀ y ∈ all, eventDedupKey x.2 = eventDedupKey y.2 →
    ∀ row row', toEventRow h accountId x.1 x.2 = some row → toEventRow h accountId y.1 y.2 = some row' →
      row = row'

section Run

variable {h : Host} {accountId calendarId : String} {all : List Pulled}

theorem keepsAll_apply (hclash : NoClash h accountId all) {D : Pulled → Prop} (hD : ∀ x, D x → x ∈ all)
    {item : String × CalendarEvent} (hitem : (calendarId, item.2) ∈ all) {t t' : EventTable}
    (hkept : KeepsAll h accountId t D) (happly : applyEvent h accountId calendarId t item = .ok t') :
    KeepsAll h accountId t' (fun x => D x ∨ x = (calendarId, item.2)) := by
  unfold applyEvent at happly
  cases hrow : toEventRow h accountId calendarId item.2 with
  | none =>
    rw [hrow] at happly
    cases happly
    rintro x (hx | rfl) row hx'
    · exact hkept x hx row hx'
    · rw [hrow] at hx'
      cases hx'
  | some new =>
    rw [hrow] at happly
    obtain ⟨hnew, hother⟩ := upsert_holds happly
    rintro x (hx | rfl) row hx'
    · by_cases hkey : row.key = new.key
      · -- the same key means the same row
        have hfields := toEventRow_fields hx'
        have hfields' := toEventRow_fields hrow
        have hdedup : eventDedupKey x.2 = eventDedupKey item.2 := by
          rw [← hfields.2.2.1, ← hfields'.2.2.1]
          exact (Prod.mk.injEq .. ▸ hkey).2
        rw [hclash x (hD x hx) _ hitem hdedup row new hx' hrow]
        exact hnew
      · exact hother row hkey (hkept x hx row hx')
    · rw [hrow] at hx'
      cases hx'
      exact hnew

theorem keepsAll_items (hclash : NoClash h accountId all) {items : List (String × CalendarEvent)}
    (hitems : ∀ item ∈ items, (calendarId, item.2) ∈ all) {D : Pulled → Prop}
    (hD : ∀ x, D x → x ∈ all) {t t' : EventTable} (hkept : KeepsAll h accountId t D)
    (hrun : items.foldlM (applyEvent h accountId calendarId) t = .ok t') :
    KeepsAll h accountId t' (fun x => D x ∨ x ∈ items.map (fun item => (calendarId, item.2))) := by
  induction items generalizing t D with
  | nil =>
    cases hrun
    rintro x (hx | hx) row hx'
    · exact hkept x hx row hx'
    · cases hx
  | cons item items ih =>
    obtain ⟨t₁, happly, hrun⟩ := Lib.bind_ok hrun
    have hitem := hitems item (mem_cons_self ..)
    have h1 := keepsAll_apply hclash hD hitem hkept happly
    have h2 := ih (fun i hi => hitems i (mem_cons_of_mem _ hi))
      (D := fun x => D x ∨ x = (calendarId, item.2))
      (fun x hx => hx.elim (hD x) (fun heq => heq ▸ hitem)) h1 hrun
    intro x hx
    refine h2 x ?_
    rw [map_cons, mem_cons] at hx
    tauto

theorem keepsAll_pages (hclash : NoClash h accountId all) {pages : List Page}
    (hpages : ∀ x ∈ pages.flatMap (Page.pulled calendarId), x ∈ all) {D : Pulled → Prop}
    (hD : ∀ x, D x → x ∈ all) {st st' : EventTable × PullResult} (hkept : KeepsAll h accountId st.1 D)
    (hrun : pages.foldlM (fun st page => do
      let t ← applyEventPage h accountId calendarId st.1 page
      pure (t, PullResult.addPage st.2 page)) st = .ok st') :
    KeepsAll h accountId st'.1 (fun x => D x ∨ x ∈ pages.flatMap (Page.pulled calendarId)) ∧
    ∀ key, key ∈ st'.2.seen ↔
      key ∈ st.2.seen ∨ ∃ x ∈ pages.flatMap (Page.pulled calendarId), eventDedupKey x.2 = key := by
  induction pages generalizing st D with
  | nil =>
    cases hrun
    refine ⟨?_, fun key => by simp⟩
    rintro x (hx | hx) row hx'
    · exact hkept x hx row hx'
    · cases hx
  | cons page pages ih =>
    rw [foldlM_cons] at hrun
    cases happly : applyEventPage h accountId calendarId st.1 page with
    | error e =>
      rw [happly] at hrun
      cases hrun
    | ok t₁ =>
      rw [happly] at hrun
      simp only [flatMap_cons, mem_append] at hpages ⊢
      have hpage : ∀ x ∈ page.pulled calendarId, x ∈ all := fun x hx => hpages x (.inl hx)
      have h1 := @keepsAll_items _ _ _ _ hclash page.items
        (fun item hi => hpage _ (mem_map_of_mem hi)) _ hD _ _ hkept happly
      obtain ⟨h2, hseen⟩ := ih (fun x hx => hpages x (.inr hx))
        (D := fun x => D x ∨ x ∈ page.pulled calendarId)
        (fun x hx => hx.elim (hD x) (hpage x)) h1 hrun
      constructor
      · intro x hx
        refine h2 x ?_
        tauto
      · intro key
        rw [hseen key, PullResult.addPage, mem_append]
        have hkeys : key ∈ page.items.map (fun item => eventDedupKey item.2) ↔
            ∃ x ∈ page.pulled calendarId, eventDedupKey x.2 = key := by
          rw [mem_map]
          constructor
          · rintro ⟨item, hi, hk⟩
            exact ⟨_, mem_map_of_mem hi, hk⟩
          · rintro ⟨x, hx, hk⟩
            obtain ⟨item, hi, rfl⟩ := mem_map.mp hx
            exact ⟨item, hi, hk⟩
        rw [hkeys]
        constructor
        · rintro ((hs | ⟨x, hx, hk⟩) | ⟨x, hx, hk⟩)
          · exact .inl hs
          · exact .inr ⟨x, .inl hx, hk⟩
          · exact .inr ⟨x, .inr hx, hk⟩
        · rintro (hs | ⟨x, hx | hx, hk⟩)
          · exact .inl (.inl hs)
          · exact .inl (.inr ⟨x, hx, hk⟩)
          · exact .inr ⟨x, hx, hk⟩

theorem Pull.calendar_of_pulled {pull : Pull} {x : Pulled} (hx : x ∈ pull.pulled) :
    x.1 = pull.calendarId := by
  obtain ⟨page, -, hx⟩ := mem_flatMap.mp hx
  obtain ⟨item, -, rfl⟩ := mem_map.mp hx
  rfl

/-- One target: what was kept for other calendars stays, and all it pulls is kept. -/
theorem keepsAll_target {nowMs : Int} (hclash : NoClash h accountId all) {pull : Pull}
    (hpull : ∀ x ∈ pull.pulled, x ∈ all) {D : Pulled → Prop} (hD : ∀ x, D x → x ∈ all)
    (hcal : ∀ x, D x → x.1 ≠ pull.calendarId) {t t' : EventTable} (hkept : KeepsAll h accountId t D)
    (hrun : syncTarget h accountId nowMs t pull = .ok t') :
    KeepsAll h accountId t' (fun x => D x ∨ x ∈ pull.pulled) := by
  obtain ⟨st, hrange, hrun⟩ := Lib.bind_ok hrun
  obtain ⟨hpages, hseen⟩ := @keepsAll_pages _ _ _ _ hclash _ hpull _ hD (t, ⟨[], []⟩) _ hkept hrange
  intro x hx row hrow
  refine reconcile_holds hrun ?_ (hpages x hx row hrow)
  have hfields := toEventRow_fields hrow
  rcases hx with hx | hx
  · rw [hfields.2.1]
    exact .inl (hcal x hx)
  · rw [hfields.2.2.1]
    exact .inr ((hseen _).mpr (.inr ⟨x, hx, rfl⟩))

theorem keepsAll_targets {nowMs : Int} (hclash : NoClash h accountId all) {targets : List Pull}
    (htargets : ∀ x ∈ targets.flatMap Pull.pulled, x ∈ all)
    (hdistinct : (targets.map (·.calendarId)).Nodup) {D : Pulled → Prop} (hD : ∀ x, D x → x ∈ all)
    (hcal : ∀ x, D x → x.1 ∉ targets.map (·.calendarId)) {t t' : EventTable}
    (hkept : KeepsAll h accountId t D) (hrun : targets.foldlM (syncTarget h accountId nowMs) t = .ok t') :
    KeepsAll h accountId t' (fun x => D x ∨ x ∈ targets.flatMap Pull.pulled) := by
  induction targets generalizing t D with
  | nil =>
    cases hrun
    rintro x (hx | hx) row hx'
    · exact hkept x hx row hx'
    · cases hx
  | cons pull targets ih =>
    obtain ⟨t₁, htarget, hrun⟩ := Lib.bind_ok hrun
    simp only [flatMap_cons, mem_append] at htargets ⊢
    rw [map_cons, nodup_cons] at hdistinct
    have hpull : ∀ x ∈ pull.pulled, x ∈ all := fun x hx => htargets x (.inl hx)
    have h1 := keepsAll_target hclash hpull hD
      (fun x hx heq => hcal x hx (heq ▸ mem_cons_self ..)) hkept htarget
    have h2 := ih (fun x hx => htargets x (.inr hx)) hdistinct.2
      (D := fun x => D x ∨ x ∈ pull.pulled) (fun x hx => hx.elim (hD x) (hpull x)) ?_ h1 hrun
    · intro x hx
      refine h2 x ?_
      tauto
    · rintro x (hx | hx) hmem
      · exact hcal x hx (mem_cons_of_mem _ hmem)
      · rw [Pull.calendar_of_pulled hx] at hmem
        exact hdistinct.1 hmem

theorem keepsAll_backfills (hclash : NoClash h accountId all) {backfills : List Pull}
    (hback : ∀ x ∈ backfills.flatMap Pull.pulled, x ∈ all) {D : Pulled → Prop}
    (hD : ∀ x, D x → x ∈ all) {t t' : EventTable} (hkept : KeepsAll h accountId t D)
    (hrun : backfills.foldlM (fun t pull => do
      let (t, _) ← pullRange h accountId pull.calendarId t pull.pages
      pure t) t = .ok t') : KeepsAll h accountId t' (fun x => D x ∨ x ∈ backfills.flatMap Pull.pulled) := by
  induction backfills generalizing t D with
  | nil =>
    cases hrun
    rintro x (hx | hx) row hx'
    · exact hkept x hx row hx'
    · cases hx
  | cons pull backfills ih =>
    rw [foldlM_cons] at hrun
    cases hrange : pullRange h accountId pull.calendarId t pull.pages with
    | error e =>
      rw [hrange] at hrun
      cases hrun
    | ok st =>
      rw [hrange] at hrun
      simp only [flatMap_cons, mem_append] at hback ⊢
      have hpull : ∀ x ∈ pull.pulled, x ∈ all := fun x hx => hback x (.inl hx)
      have h1 := (@keepsAll_pages _ _ _ _ hclash _ hpull _ hD (t, ⟨[], []⟩) _ hkept hrange).1
      have h2 := ih (fun x hx => hback x (.inr hx)) (D := fun x => D x ∨ x ∈ pull.pulled)
        (fun x hx => hx.elim (hD x) (hpull x)) h1 hrun
      intro x hx
      refine h2 x ?_
      tauto

end Run

def pulledBy (targets backfills : List Pull) : List Pulled :=
  targets.flatMap Pull.pulled ++ backfills.flatMap Pull.pulled

theorem kept_syncAccount {h : Host} {accountId : String} {nowMs : Int} {targets backfills : List Pull}
    (hdistinct : (targets.map (·.calendarId)).Nodup) (hclash : NoClash h accountId (pulledBy targets backfills))
    (hrun : syncAccount h accountId nowMs targets backfills t = .ok t') :
    KeepsAll h accountId t' (· ∈ pulledBy targets backfills) := by
  obtain ⟨t₁, htargets, hrun⟩ := Lib.bind_ok hrun
  have h1 := keepsAll_targets hclash (fun x hx => mem_append_left _ hx) hdistinct
    (D := fun _ => False) (fun x hx => hx.elim) (fun x hx => hx.elim)
    (fun x hx => hx.elim) htargets
  have h2 := keepsAll_backfills hclash (fun x hx => mem_append_right _ hx)
    (fun x hx => mem_append_left _ (hx.elim False.elim id)) h1 hrun
  intro x hx
  refine h2 x ?_
  rcases mem_append.mp hx with hx | hx
  · exact .inl (.inr hx)
  · exact .inr hx

/-- After a run, every pulled event has its row in its calendar iff no two pulled events that share a
key differ in a column, the calendar among them. -/
theorem sync_keeps_iff (h : Host) (accountId : String) (nowMs : Int) (targets backfills : List Pull)
    (t t' : EventTable) (hdistinct : (targets.map (·.calendarId)).Nodup)
    (hrun : syncAccount h accountId nowMs targets backfills t = .ok t') :
    KeepsAll h accountId t' (· ∈ pulledBy targets backfills) ↔
      NoClash h accountId (pulledBy targets backfills) := by
  constructor
  · intro hkept x hx y hy hkey row row' hrow hrow'
    refine Holds.unique (hkept x hx row hrow) (hkept y hy row' hrow') ?_
    have hfields := toEventRow_fields hrow
    have hfields' := toEventRow_fields hrow'
    rw [CalendarEventRow.key, CalendarEventRow.key, hfields.1, hfields'.1, hfields.2.2.1,
      hfields'.2.2.1, hkey]
  · intro hclash
    exact kept_syncAccount hdistinct hclash hrun

/-! ## One id in two calendars -/

def meetingHost : Host :=
  ⟨⟨.utc, fun name => if name = "UTC" then some .utc else none, fun _ => none,
    fun s => if s = "2026-01-05T10:00:00Z" then some 1767607200
      else if s = "2026-01-05T11:00:00Z" then some 1767610800 else none, fun _ => none⟩, fun _ => none⟩

def meeting (nativeId : String) : CalendarEvent where
  nativeId := nativeId
  provider := .gmail
  uid := some "evt1@google.com"
  title := some "Review"
  description := none
  location := none
  start := ⟨"2026-01-05T10:00:00Z", none⟩
  stop := some ⟨"2026-01-05T11:00:00Z", none⟩
  isAllDay := false
  status := .confirmed
  organizer := none
  attendees := []
  htmlLink := none
  etag := none
  rawIcal := none
  rrule := none
  recurrenceId := none
  selfResponse := .accepted
  availability := .busy
  visibility := .default

/-- The meeting in the user's own calendar and in a shared one, as Google lists it: one event id. -/
def sharedMeeting : List Pull :=
  [⟨"cal-own", [⟨[("uuid-1", meeting "me@host::evt1")], []⟩]⟩,
    ⟨"cal-team", [⟨[("uuid-2", meeting "team@host::evt1")], []⟩]⟩]

def emptyTable : EventTable := ⟨[], nodup_nil, nodup_nil⟩

/-- After the run the meeting is in the shared calendar only. -/
theorem shared_meeting_overwritten :
    ∃ t', syncAccount meetingHost "acct" 1767571200000 sharedMeeting [] emptyTable = .ok t' ∧
      ¬ KeepsAll meetingHost "acct" t' (· ∈ pulledBy sharedMeeting []) := by
  have hrows : (syncAccount meetingHost "acct" 1767571200000 sharedMeeting [] emptyTable).map
      (fun t => t.rows.map (·.calendarId)) = .ok [some "cal-team"] := by decide
  cases hrun : syncAccount meetingHost "acct" 1767571200000 sharedMeeting [] emptyTable with
  | error e =>
    rw [hrun] at hrows
    cases hrows
  | ok t' =>
    rw [hrun] at hrows
    have hcals : t'.rows.map (·.calendarId) = [some "cal-team"] := Except.ok.inj hrows
    refine ⟨t', rfl, ?_⟩
    intro hkept
    have hmem : ("cal-own", meeting "me@host::evt1") ∈ pulledBy sharedMeeting [] := by decide
    have hrow : (toEventRow meetingHost "acct" "cal-own" (meeting "me@host::evt1")).isSome = true := by
      decide
    obtain ⟨row, hrow⟩ := Option.isSome_iff_exists.mp hrow
    obtain ⟨id, hid⟩ := hkept _ hmem row hrow
    have hcal : (row.stored id).calendarId ∈ t'.rows.map (·.calendarId) := mem_map_of_mem hid
    have hown : (row.stored id).calendarId = some "cal-own" := congrArg some (toEventRow_fields hrow).2.1
    rw [hcals, hown, mem_singleton] at hcal
    revert hcal
    decide

theorem sync_keeps_iff_own :
    ∃ t', (([⟨"cal-own", [⟨[("uuid-1", meeting "me@host::evt1")], []⟩]⟩] : List Pull).map
        (·.calendarId)).Nodup ∧ syncAccount meetingHost "acct" 1767571200000
        [⟨"cal-own", [⟨[("uuid-1", meeting "me@host::evt1")], []⟩]⟩] [] emptyTable = .ok t' ∧
      (KeepsAll meetingHost "acct" t'
          (· ∈ pulledBy [⟨"cal-own", [⟨[("uuid-1", meeting "me@host::evt1")], []⟩]⟩] []) ↔
        NoClash meetingHost "acct"
          (pulledBy [⟨"cal-own", [⟨[("uuid-1", meeting "me@host::evt1")], []⟩]⟩] [])) := by
  have hok : (syncAccount meetingHost "acct" 1767571200000
      [⟨"cal-own", [⟨[("uuid-1", meeting "me@host::evt1")], []⟩]⟩] [] emptyTable).map
      (fun t => t.rows.length) = .ok 1 := by decide
  cases hrun : syncAccount meetingHost "acct" 1767571200000
      [⟨"cal-own", [⟨[("uuid-1", meeting "me@host::evt1")], []⟩]⟩] [] emptyTable with
  | error e =>
    rw [hrun] at hok
    cases hok
  | ok t' => exact ⟨t', by decide, rfl, sync_keeps_iff _ _ _ _ _ _ t' (by decide) hrun⟩

end Ratatoskr.Calendar

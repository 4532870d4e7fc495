import Mathlib.Data.List.Flatten
import Ratatoskr.Calendar.Instances

/-!
# Calendar.Windows

The view of a window compared with the view of a wider one. Rows with a rule are loaded for every window
and give the same slots; what differs is which overrides are loaded, and a slot in the window comes back
when the override that replaces it was moved out of the window.

* `view_perm` : a view is the sum of what its rows give.
* `view_consistent_iff` : exactly when narrowing the window only drops events outside it.
-/

namespace Ratatoskr.Calendar

open List

section View

variable {j : Jiff} {db : CalendarDb} {windowStart windowEnd : Int}
variable {rows : List CalendarViewEvent} {ev : CalendarViewEvent}

def RowOk (j : Jiff) (ev : CalendarViewEvent) : Prop :=
  ∀ rrule, ev.recurrenceRule = some rrule → ∃ s, seriesSlots j ev rrule = .ok s

/-- What a row gives for a window, when these overrides are loaded. -/
def rowEvents (j : Jiff) (overrides : List String) (windowStart windowEnd : Int)
    (ev : CalendarViewEvent) : List CalendarViewEvent :=
  match ev.recurrenceRule with
  | none => [ev]
  | some rrule =>
    match seriesSlots j ev rrule with
    | .ok s => (instancesOf j ev overrides s).filter
        (fun inst => Overlaps windowStart windowEnd inst.startTime inst.endTime)
    | .error _ => []

theorem expandRow_eq (h : RowOk j ev) : expandRow j rows windowStart windowEnd ev =
      .ok (rowEvents j (overridesOf rows ev) windowStart windowEnd ev) := by
  unfold expandRow rowEvents
  cases hr : ev.recurrenceRule with
  | none => rfl
  | some rrule =>
    obtain ⟨s, hs⟩ := h rrule hr
    simp only [expand_overrides, hs]
    rfl

theorem rowOk_of_expandRow {l : List CalendarViewEvent}
    (h : expandRow j rows windowStart windowEnd ev = .ok l) : RowOk j ev := by
  intro rrule hr
  unfold expandRow at h
  rw [hr] at h
  simp only [expand_overrides] at h
  cases hs : seriesSlots j ev rrule with
  | ok s => exact ⟨s, rfl⟩
  | error p =>
    rw [hs] at h
    cases h

theorem mapM_ok {α β : Type} {f : α → Except Panic β} {g : α → β} {l : List α}
    (h : ∀ x ∈ l, f x = .ok (g x)) : l.mapM f = .ok (l.map g) := by
  induction l with
  | nil => rfl
  | cons x xs ih =>
    rw [mapM_cons, h x (mem_cons_self ..), ih (fun y hy => h y (mem_cons_of_mem _ hy))]
    rfl

theorem mapM_ok_mem {α β : Type} {f : α → Except Panic β} {l : List α} {out : List β}
    (h : l.mapM f = .ok out) : ∀ x ∈ l, ∃ y, f x = .ok y := by
  induction l generalizing out with
  | nil =>
    intro x hx
    cases hx
  | cons x xs ih =>
    rw [mapM_cons] at h
    obtain ⟨y, hx, h⟩ := Lib.bind_ok h
    obtain ⟨ys, hxs, h⟩ := Lib.bind_ok h
    intro z hz
    rcases mem_cons.mp hz with rfl | hz
    · exact ⟨y, hx⟩
    · exact ih hxs z hz

def loaded (db : CalendarDb) (windowStart windowEnd : Int) : List EventRow :=
  db.events.filter (fun e => db.shown e && inWindow windowStart windowEnd e)

theorem load_perm : (loadViewEventRows db windowStart windowEnd).Perm
    ((loaded db windowStart windowEnd).map (toViewEvent db)) := perm_insertionSort ..

theorem view_ok_iff (windowStart windowEnd : Int) :
    (∃ events, loadCalendarEventsForView j db windowStart windowEnd = .ok events) ↔
      ∀ e ∈ db.events, db.shown e = true → RowOk j (toViewEvent db e) := by
  constructor
  · rintro ⟨events, h⟩ e he hshown rrule hr
    obtain ⟨out, hm, h⟩ := Lib.bind_ok h
    have hload : toViewEvent db e ∈ loadViewEventRows db windowStart windowEnd := by
      refine load_perm.mem_iff.mpr (mem_map_of_mem (mem_filter.mpr ⟨he, ?_⟩))
      have hrule : e.recurrenceRule = some rrule := hr
      simp [hshown, inWindow, hrule]
    obtain ⟨l, hl⟩ := mapM_ok_mem hm _ hload
    exact rowOk_of_expandRow hl rrule hr
  · intro h
    unfold loadCalendarEventsForView expandViewEvents
    rw [mapM_ok (g := fun ev => rowEvents j
      (overridesOf (loadViewEventRows db windowStart windowEnd) ev) windowStart windowEnd ev)]
    · exact ⟨_, rfl⟩
    · intro ev hev
      obtain ⟨e, he, rfl⟩ := mem_map.mp (load_perm.mem_iff.mp hev)
      obtain ⟨hmem, hcond⟩ := mem_filter.mp he
      exact expandRow_eq (h e hmem (Bool.and_eq_true_iff.mp hcond).1)

theorem view_perm (hok : ∀ e ∈ db.events, db.shown e = true → RowOk j (toViewEvent db e))
    {events : List CalendarViewEvent}
    (h : loadCalendarEventsForView j db windowStart windowEnd = .ok events) :
    events.Perm ((loaded db windowStart windowEnd).flatMap (fun e =>
      rowEvents j (overridesOf (loadViewEventRows db windowStart windowEnd) (toViewEvent db e))
        windowStart windowEnd (toViewEvent db e))) := by
  unfold loadCalendarEventsForView expandViewEvents at h
  rw [mapM_ok (g := fun ev => rowEvents j
    (overridesOf (loadViewEventRows db windowStart windowEnd) ev) windowStart windowEnd ev)] at h
  · cases h
    refine (perm_insertionSort ..).trans ?_
    refine (load_perm.flatMap_right _).trans ?_
    rw [flatMap_map]
  · intro ev hev
    obtain ⟨e, he, rfl⟩ := mem_map.mp (load_perm.mem_iff.mp hev)
    obtain ⟨hmem, hcond⟩ := mem_filter.mp he
    exact expandRow_eq (hok e hmem (Bool.and_eq_true_iff.mp hcond).1)

theorem mem_overrides {e : EventRow} {text : String} :
    text ∈ overridesOf (loadViewEventRows db windowStart windowEnd) (toViewEvent db e) ↔
      ∃ o ∈ db.events, db.shown o = true ∧ inWindow windowStart windowEnd o = true ∧
        o.accountId = e.accountId ∧ e.uid.isSome ∧ o.uid = e.uid ∧ o.recurrenceId = some text := by
  unfold overridesOf
  cases huid : (toViewEvent db e).uid with
  | none =>
    have hnone : e.uid = none := huid
    simp [hnone]
  | some uid =>
    have hsome : e.uid = some uid := huid
    simp only [mem_filterMap, load_perm.mem_iff, mem_map, loaded, mem_filter, Bool.and_eq_true]
    constructor
    · rintro ⟨ev, ⟨o, ⟨ho, hs, hw⟩, rfl⟩, htext⟩
      split at htext
      · rename_i hcond
        exact ⟨o, ho, hs, hw, hcond.1, by rw [hsome]; rfl, hcond.2.trans hsome.symm, htext⟩
      · cases htext
    · rintro ⟨o, ho, hs, hw, hacc, -, hou, htext⟩
      refine ⟨_, ⟨o, ⟨ho, hs, hw⟩, rfl⟩, ?_⟩
      rw [if_pos ⟨hacc, hou.trans hsome⟩]
      exact htext

end View

/-! ## Two windows -/

/-- Narrowing the window only drops the events outside the narrow one. -/
def ViewConsistent (j : Jiff) (db : CalendarDb) (windowStart windowEnd wideStart wideEnd : Int) : Prop :=
  ∀ wide, loadCalendarEventsForView j db wideStart wideEnd = .ok wide →
    ∃ events, loadCalendarEventsForView j db windowStart windowEnd = .ok events ∧
      events.Perm (wide.filter (fun ev => Overlaps windowStart windowEnd ev.startTime ev.endTime))

/-- The slot of the row at which an override `o` is missed: `o` replaces it, but only the wide window
loads `o` or another override of the slot, while the slot itself meets the narrow window. -/
def MissedOverride (j : Jiff) (db : CalendarDb) (windowStart windowEnd wideStart wideEnd : Int)
    (e o : EventRow) (s : Int × Nat) : Prop :=
  let ev := toViewEvent db e
  let rtz := RecurrenceTz.fromEventTimezone j ev.timezone
  let text := canonicalRecurrenceSlot j s.1 rtz ev.allDay
  let inst := instanceAt (rtz.zone j) ev s.2 s.1
  Overlaps windowStart windowEnd inst.startTime inst.endTime ∧
  inWindow wideStart wideEnd o = true ∧ e.uid.isSome ∧ o.accountId = e.accountId ∧ o.uid = e.uid ∧
  o.recurrenceId = some text ∧
  ¬ ∃ o' ∈ db.events, db.shown o' = true ∧ inWindow windowStart windowEnd o' = true ∧
    o'.accountId = e.accountId ∧ o'.uid = e.uid ∧ o'.recurrenceId = some text

section Windows

variable {j : Jiff} {db : CalendarDb} {windowStart windowEnd wideStart wideEnd : Int}
variable {α β : Type} {f g : α → List β} {l : List α} {e : EventRow} {ov ov' : List String}
  {ev : CalendarViewEvent} {slots : List (Int × Nat)} {s : Option (List (Int × Nat))}

theorem flatMap_perm_iff (hsub : ∀ x ∈ l, (g x).Sublist (f x)) :
    (l.flatMap f).Perm (l.flatMap g) ↔ ∀ x ∈ l, g x = f x := by
  constructor
  · intro hperm
    have hlen := hperm.length_eq
    clear hperm
    induction l with
    | nil =>
      intro x hx
      cases hx
    | cons x xs ih =>
      have hxs : ∀ y ∈ xs, (g y).Sublist (f y) := fun y hy => hsub y (mem_cons_of_mem _ hy)
      have hx := (hsub x (mem_cons_self ..)).length_le
      have hle := (Sublist.flatMap_right _ hxs).length_le
      rw [flatMap_cons, flatMap_cons, length_append, length_append] at hlen
      intro y hy
      rcases mem_cons.mp hy with rfl | hy
      · exact (hsub y (mem_cons_self ..)).eq_of_length (by omega)
      · exact ih hxs (by omega) y hy
  · intro heq
    rw [flatMap_congr heq]

theorem filter_flatMap {p : α → Bool} {q : β → Bool} : ((l.filter p).flatMap f).filter q =
      l.flatMap (fun x => if p x then (f x).filter q else []) := by
  induction l with
  | nil => rfl
  | cons x xs ih =>
    rw [flatMap_cons, ← ih]
    by_cases hp : p x = true
    · rw [filter_cons_of_pos hp, flatMap_cons, filter_append, if_pos hp]
    · rw [filter_cons_of_neg hp, if_neg hp, nil_append]

def given (j : Jiff) (db : CalendarDb) (windowStart windowEnd : Int) (e : EventRow) :
    List CalendarViewEvent :=
  if db.shown e && inWindow windowStart windowEnd e then
    rowEvents j (overridesOf (loadViewEventRows db windowStart windowEnd) (toViewEvent db e))
      windowStart windowEnd (toViewEvent db e)
  else []

theorem overlaps_wide (hstart : wideStart ≤ windowStart) (hend : windowEnd ≤ wideEnd) {s e : Int}
    (h : Overlaps windowStart windowEnd s e) : Overlaps wideStart wideEnd s e := by
  unfold Overlaps at *
  omega

theorem inWindow_wide (hstart : wideStart ≤ windowStart) (hend : windowEnd ≤ wideEnd)
    (h : inWindow windowStart windowEnd e = true) : inWindow wideStart wideEnd e = true := by
  unfold inWindow at *
  simp only [Bool.or_eq_true, decide_eq_true_eq] at *
  exact h.imp_right (overlaps_wide hstart hend)

/-- The instances of a row in the narrow window, when the overrides of either window are known. -/
def kept (j : Jiff) (overrides : List String) (windowStart windowEnd : Int) (ev : CalendarViewEvent) :
    Option (List (Int × Nat)) → List CalendarViewEvent :=
  fun s => (instancesOf j ev overrides s).filter
    (fun inst => Overlaps windowStart windowEnd inst.startTime inst.endTime)

def Emits (j : Jiff) (overrides : List String) (windowStart windowEnd : Int) (ev : CalendarViewEvent)
    (s : Int × Nat) : Prop :=
  ¬ Overridden j (RecurrenceTz.fromEventTimezone j ev.timezone) ev.allDay overrides s.1 ∧
  Overlaps windowStart windowEnd
    (instanceAt ((RecurrenceTz.fromEventTimezone j ev.timezone).zone j) ev s.2 s.1).startTime
    (instanceAt ((RecurrenceTz.fromEventTimezone j ev.timezone).zone j) ev s.2 s.1).endTime

instance (j : Jiff) (overrides : List String) (windowStart windowEnd : Int) (ev : CalendarViewEvent)
    (s : Int × Nat) : Decidable (Emits j overrides windowStart windowEnd ev s) :=
  inferInstanceAs (Decidable (_ ∧ _))

theorem kept_some : kept j ov windowStart windowEnd ev (some slots) =
      (slots.filter (fun s => Emits j ov windowStart windowEnd ev s)).map
        (fun s => instanceAt ((RecurrenceTz.fromEventTimezone j ev.timezone).zone j) ev s.2 s.1) := by
  rw [kept, instancesOf, filter_map, filter_filter]
  congr 2
  funext s
  rw [Function.comp_apply, ← Bool.decide_and]
  exact decide_eq_decide.mpr and_comm

theorem kept_sublist (hsub : ∀ t ∈ ov, t ∈ ov') :
    (kept j ov' windowStart windowEnd ev s).Sublist (kept j ov windowStart windowEnd ev s) := by
  cases s with
  | none => exact List.Sublist.refl _
  | some slots =>
    rw [kept_some, kept_some]
    refine List.Sublist.map _ (monotone_filter_right _ ?_)
    intro s hs
    rw [decide_eq_true_eq] at hs ⊢
    exact ⟨fun hov => hs.1 (hsub _ hov), hs.2⟩

theorem kept_eq_iff (hsub : ∀ t ∈ ov, t ∈ ov') :
    kept j ov' windowStart windowEnd ev (some slots) = kept j ov windowStart windowEnd ev (some slots) ↔
      ∀ s ∈ slots, Emits j ov windowStart windowEnd ev s → Emits j ov' windowStart windowEnd ev s := by
  have himp : ∀ s, Emits j ov' windowStart windowEnd ev s → Emits j ov windowStart windowEnd ev s :=
    fun s hs => ⟨fun hov => hs.1 (hsub _ hov), hs.2⟩
  rw [kept_some, kept_some]
  constructor
  · intro heq s hs hemit
    have hlen := congrArg List.length heq
    rw [length_map, length_map] at hlen
    have hfilter := (monotone_filter_right slots
      (p := fun s => decide (Emits j ov' windowStart windowEnd ev s))
      (q := fun s => decide (Emits j ov windowStart windowEnd ev s))
      (fun s hs => by simpa using himp s (by simpa using hs))).eq_of_length hlen
    have hmem : s ∈ slots.filter (fun s => Emits j ov windowStart windowEnd ev s) :=
      mem_filter.mpr ⟨hs, by simpa using hemit⟩
    rw [← hfilter] at hmem
    simpa using (mem_filter.mp hmem).2
  · intro h
    congr 1
    apply filter_congr
    intro s hs
    rw [decide_eq_decide]
    exact ⟨himp s, h s hs⟩

/-- The overrides of the series of a row that a window loads. -/
abbrev loadedOverrides (db : CalendarDb) (windowStart windowEnd : Int) (e : EventRow) : List String :=
  overridesOf (loadViewEventRows db windowStart windowEnd) (toViewEvent db e)

theorem loadedOverrides_wide (hstart : wideStart ≤ windowStart) (hend : windowEnd ≤ wideEnd) {e : EventRow} :
    ∀ t ∈ loadedOverrides db windowStart windowEnd e, t ∈ loadedOverrides db wideStart wideEnd e := by
  intro t ht
  obtain ⟨o, ho, hs, hw, hrest⟩ := mem_overrides.mp ht
  exact mem_overrides.mpr ⟨o, ho, hs, inWindow_wide hstart hend hw, hrest⟩

theorem given_hidden (h : ¬ db.shown e = true) : given j db windowStart windowEnd e = [] := by
  rw [given, if_neg]
  intro hcond
  exact h (Bool.and_eq_true_iff.mp hcond).1

theorem given_single (hshown : db.shown e = true) (hrule : e.recurrenceRule = none) :
    given j db windowStart windowEnd e =
      if Overlaps windowStart windowEnd e.startTime e.endTime then [toViewEvent db e] else [] := by
  have hview : (toViewEvent db e).recurrenceRule = none := hrule
  simp [given, rowEvents, inWindow, hshown, hrule, hview]

theorem given_series (hshown : db.shown e = true) {rrule : String}
    (hrule : e.recurrenceRule = some rrule) (hs : seriesSlots j (toViewEvent db e) rrule = .ok s) :
    given j db windowStart windowEnd e =
      kept j (loadedOverrides db windowStart windowEnd e) windowStart windowEnd (toViewEvent db e) s := by
  have hview : (toViewEvent db e).recurrenceRule = some rrule := hrule
  simp only [given, inWindow, hshown, hrule, rowEvents, hview, hs]
  rfl

theorem kept_wide (hstart : wideStart ≤ windowStart) (hend : windowEnd ≤ wideEnd) :
    (kept j ov wideStart wideEnd ev s).filter
      (fun ev => Overlaps windowStart windowEnd ev.startTime ev.endTime) =
      kept j ov windowStart windowEnd ev s := by
  rw [kept, filter_filter]
  apply filter_congr
  intro ev _
  rw [← Bool.decide_and]
  exact decide_eq_decide.mpr (and_iff_left_of_imp (overlaps_wide hstart hend))

/-- No slot of the row in the narrow window loses its override with the wide one. -/
def NoneMissed (j : Jiff) (db : CalendarDb) (windowStart windowEnd wideStart wideEnd : Int)
    (e : EventRow) : Prop :=
  db.shown e = true → ∀ rrule, e.recurrenceRule = some rrule → ∀ slots,
    seriesSlots j (toViewEvent db e) rrule = .ok (some slots) → ∀ s ∈ slots,
    Emits j (loadedOverrides db windowStart windowEnd e) windowStart windowEnd (toViewEvent db e) s →
    Emits j (loadedOverrides db wideStart wideEnd e) windowStart windowEnd (toViewEvent db e) s

/-- In the narrow window a row shows all that the wide one shows there, and more only if it misses an
override. -/
theorem given_wide (hstart : wideStart ≤ windowStart) (hend : windowEnd ≤ wideEnd)
    (hok : db.shown e = true → RowOk j (toViewEvent db e)) :
    ((given j db wideStart wideEnd e).filter
      (fun ev => Overlaps windowStart windowEnd ev.startTime ev.endTime)).Sublist
      (given j db windowStart windowEnd e) ∧
    ((given j db wideStart wideEnd e).filter
      (fun ev => Overlaps windowStart windowEnd ev.startTime ev.endTime) =
      given j db windowStart windowEnd e ↔ NoneMissed j db windowStart windowEnd wideStart wideEnd e) := by
  by_cases hshown : db.shown e = true
  · cases hrule : e.recurrenceRule with
    | none =>
      have heq : (given j db wideStart wideEnd e).filter
          (fun ev => Overlaps windowStart windowEnd ev.startTime ev.endTime) =
          given j db windowStart windowEnd e := by
        rw [given_single hshown hrule, given_single hshown hrule]
        have htimes : Overlaps windowStart windowEnd (toViewEvent db e).startTime
            (toViewEvent db e).endTime ↔ Overlaps windowStart windowEnd e.startTime e.endTime := Iff.rfl
        by_cases hnarrow : Overlaps windowStart windowEnd e.startTime e.endTime
        · rw [if_pos (overlaps_wide hstart hend hnarrow), if_pos hnarrow,
            filter_cons_of_pos (by simpa using htimes.mpr hnarrow), filter_nil]
        · split
          · rw [filter_cons_of_neg (by simpa using fun h => hnarrow (htimes.mp h)), filter_nil]
          · rfl
      refine ⟨heq ▸ List.Sublist.refl _, fun _ => ?_, fun _ => heq⟩
      intro _ rrule hr
      rw [hrule] at hr
      cases hr
    | some rrule =>
      obtain ⟨s, hs⟩ := hok hshown rrule hrule
      rw [given_series hshown hrule hs, given_series hshown hrule hs, kept_wide hstart hend]
      have hsub := @loadedOverrides_wide db _ _ _ _ hstart hend e
      refine ⟨kept_sublist hsub, ?_⟩
      cases s with
      | none =>
        refine ⟨fun _ => ?_, fun _ => rfl⟩
        intro _ rrule' hr slots hslots
        rw [hrule] at hr
        cases hr
        rw [hs] at hslots
        cases hslots
      | some slots =>
        rw [kept_eq_iff hsub]
        constructor
        · intro h _ rrule' hr slots' hslots
          rw [hrule] at hr
          cases hr
          rw [hs] at hslots
          cases hslots
          exact h
        · intro h
          exact h hshown rrule hrule slots hs
  · rw [given_hidden hshown, given_hidden hshown]
    exact ⟨List.Sublist.refl _, fun _ h => absurd h hshown, fun _ => rfl⟩

theorem noneMissed_iff : NoneMissed j db windowStart windowEnd wideStart wideEnd e ↔
      (db.shown e = true → ∀ rrule, e.recurrenceRule = some rrule → ∀ slots,
        seriesSlots j (toViewEvent db e) rrule = .ok (some slots) → ∀ s ∈ slots,
        ∀ o ∈ db.events, db.shown o = true →
          ¬ MissedOverride j db windowStart windowEnd wideStart wideEnd e o s) := by
  constructor
  · rintro h hshown rrule hr slots hslots s hs o ho hos ⟨hover, hwide, huid, hacc, hou, htext, hno⟩
    have hemit : Emits j (loadedOverrides db windowStart windowEnd e) windowStart windowEnd
        (toViewEvent db e) s := by
      refine ⟨?_, hover⟩
      intro hov
      obtain ⟨o', ho', hs', hw', hacc', -, hou', htext'⟩ := mem_overrides.mp hov
      exact hno ⟨o', ho', hs', hw', hacc', hou', htext'⟩
    exact (h hshown rrule hr slots hslots s hs hemit).1
      (mem_overrides.mpr ⟨o, ho, hos, hwide, hacc, huid, hou, htext⟩)
  · rintro h hshown rrule hr slots hslots s hs ⟨hnot, hover⟩
    refine ⟨?_, hover⟩
    intro hov
    obtain ⟨o, ho, hos, hw, hacc, huid, hou, htext⟩ := mem_overrides.mp hov
    refine h hshown rrule hr slots hslots s hs o ho hos ⟨hover, hw, huid, hacc, hou, htext, ?_⟩
    rintro ⟨o', ho', hs', hw', hacc', hou', htext'⟩
    exact hnot (mem_overrides.mpr ⟨o', ho', hs', hw', hacc', huid, hou', htext'⟩)

theorem loaded_flatMap {f : EventRow → List CalendarViewEvent} {q : CalendarViewEvent → Bool} :
    ((loaded db windowStart windowEnd).flatMap f).filter q =
      db.events.flatMap (fun e =>
        (if db.shown e && inWindow windowStart windowEnd e then f e else []).filter q) := by
  rw [loaded, filter_flatMap]
  congr 1
  funext e
  split <;> rfl

end Windows

/-- Narrowing the window is consistent iff no override that only the wide window loads replaces a slot
in the narrow one. -/
theorem view_consistent_iff (j : Jiff) (db : CalendarDb)
    (windowStart windowEnd wideStart wideEnd : Int) (hstart : wideStart ≤ windowStart)
    (hend : windowEnd ≤ wideEnd) : ViewConsistent j db windowStart windowEnd wideStart wideEnd ↔
      ((∀ e ∈ db.events, db.shown e = true → RowOk j (toViewEvent db e)) →
        ∀ e ∈ db.events, db.shown e = true → ∀ rrule, e.recurrenceRule = some rrule → ∀ slots,
        seriesSlots j (toViewEvent db e) rrule = .ok (some slots) → ∀ s ∈ slots,
        ∀ o ∈ db.events, db.shown o = true →
          ¬ MissedOverride j db windowStart windowEnd wideStart wideEnd e o s) := by
  have hmain : (∀ e ∈ db.events, db.shown e = true → RowOk j (toViewEvent db e)) →
      (ViewConsistent j db windowStart windowEnd wideStart wideEnd ↔
        ∀ e ∈ db.events, NoneMissed j db windowStart windowEnd wideStart wideEnd e) := by
    intro hok
    obtain ⟨events, hevents⟩ := (view_ok_iff windowStart windowEnd).mpr hok
    obtain ⟨wide, hwide⟩ := (view_ok_iff wideStart wideEnd).mpr hok
    have hnarrow : events.Perm (db.events.flatMap (given j db windowStart windowEnd)) := by
      have h := view_perm hok hevents
      have hall := @loaded_flatMap db windowStart windowEnd
        (fun e => rowEvents j (loadedOverrides db windowStart windowEnd e) windowStart windowEnd
          (toViewEvent db e)) (fun _ => true)
      simp only [filter_true] at hall
      rw [hall] at h
      exact h
    have hwider : (wide.filter (fun ev => Overlaps windowStart windowEnd ev.startTime ev.endTime)).Perm
        (db.events.flatMap (fun e => (given j db wideStart wideEnd e).filter
          (fun ev => Overlaps windowStart windowEnd ev.startTime ev.endTime))) := by
      have h := (view_perm hok hwide).filter
        (fun ev => Overlaps windowStart windowEnd ev.startTime ev.endTime)
      rw [loaded_flatMap] at h
      exact h
    have hiff := flatMap_perm_iff (l := db.events) (f := given j db windowStart windowEnd)
      (g := fun e => (given j db wideStart wideEnd e).filter
        (fun ev => Overlaps windowStart windowEnd ev.startTime ev.endTime))
      (fun e he => (given_wide hstart hend (hok e he)).1)
    have hview : ViewConsistent j db windowStart windowEnd wideStart wideEnd ↔
        (db.events.flatMap (given j db windowStart windowEnd)).Perm
          (db.events.flatMap (fun e => (given j db wideStart wideEnd e).filter
            (fun ev => Overlaps windowStart windowEnd ev.startTime ev.endTime))) := by
      constructor
      · intro h
        obtain ⟨events', hevents', hperm⟩ := h wide hwide
        rw [hevents] at hevents'
        cases hevents'
        exact hnarrow.symm.trans (hperm.trans hwider)
      · intro hperm wide' hwide'
        rw [hwide] at hwide'
        cases hwide'
        exact ⟨events, hevents, hnarrow.trans (hperm.trans hwider.symm)⟩
    rw [hview, hiff]
    exact forall₂_congr fun e he => (given_wide hstart hend (hok e he)).2
  constructor
  · intro h hok e he
    exact noneMissed_iff.mp ((hmain hok).mp h e he)
  · intro h wide hwide
    have hok := (view_ok_iff _ _).mp ⟨wide, hwide⟩
    exact (hmain hok).mpr (fun e he => noneMissed_iff.mpr (h hok e he)) wide hwide

def utcHost : Jiff :=
  ⟨.utc, fun name => if name = "UTC" then some .utc else none, fun _ => none, fun _ => none, fun _ => none⟩

/-- A row of the calendar `work` with the given times, rule and recurrence id. -/
def workRow (id : String) (startTime endTime : Int) (recurrenceRule recurrenceId : Option String) :
    EventRow :=
  ⟨id, "acct", id, some "Standup", none, none, startTime, endTime, false, some "confirmed", none, none,
    none, some "work", some id, none, none, some "standup@host", some "Standup", some "UTC",
    recurrenceRule, none, none, none, none, recurrenceId⟩

/-- Two days at 10:00, from 2026-01-05 on; the second was moved to 2026-03-01. -/
def movedStandup : CalendarDb :=
  ⟨[⟨"work", "acct", some "Work", none, true, none⟩],
    [workRow "master" 1767607200 1767610800 (some "FREQ=DAILY;COUNT=2") none,
      workRow "moved" 1772359200 1772362800 none (some "20260106T100000;TZID=UTC")]⟩

/-- The week of the meeting shows the slot that the three months around it show as moved away. -/
theorem moved_override_phantom :
    ¬ ViewConsistent utcHost movedStandup 1767571200 1768176000 1767225600 1775001600 := by
  have hnarrow : (loadCalendarEventsForView utcHost movedStandup 1767571200 1768176000).map
      List.length = .ok 2 := by decide
  have hwide : (loadCalendarEventsForView utcHost movedStandup 1767225600 1775001600).map
      (fun wide => (wide.filter (fun ev =>
        Overlaps 1767571200 1768176000 ev.startTime ev.endTime)).length) = .ok 1 := by decide
  intro h
  cases hw : loadCalendarEventsForView utcHost movedStandup 1767225600 1775001600 with
  | error p =>
    rw [hw] at hwide
    cases hwide
  | ok wide =>
    obtain ⟨events, hevents, hperm⟩ := h wide hw
    rw [hw] at hwide
    rw [hevents] at hnarrow
    have hlen := hperm.length_eq
    simp only [Except.map, Except.ok.injEq] at hnarrow hwide
    rw [hnarrow, hwide] at hlen
    cases hlen

theorem view_consistent_iff_moved : (1767225600 : Int) ≤ 1767571200 ∧ (1768176000 : Int) ≤ 1775001600 ∧
    (ViewConsistent utcHost movedStandup 1767571200 1768176000 1767225600 1775001600 ↔
      ((∀ e ∈ movedStandup.events, movedStandup.shown e = true →
          RowOk utcHost (toViewEvent movedStandup e)) →
        ∀ e ∈ movedStandup.events, movedStandup.shown e = true →
        ∀ rrule, e.recurrenceRule = some rrule → ∀ slots,
        seriesSlots utcHost (toViewEvent movedStandup e) rrule = .ok (some slots) → ∀ s ∈ slots,
        ∀ o ∈ movedStandup.events, movedStandup.shown o = true →
          ¬ MissedOverride utcHost movedStandup 1767571200 1768176000 1767225600 1775001600 e o s)) :=
  ⟨by decide, by decide,
    view_consistent_iff utcHost movedStandup 1767571200 1768176000 1767225600 1775001600 (by decide)
      (by decide)⟩

end Ratatoskr.Calendar

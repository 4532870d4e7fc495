import Ratatoskr.Calendar.ByRules

/-!
# Calendar.HostZone

All-day series on different hosts. The expansion is the one in UTC when the host agrees with UTC on every
date that the walk in UTC visits, on the ends of the instances, and on the day of the last instance.

* `candidates_eq`, `expand_eq` : the walk and the expansion on such a host.
* `all_day_host_independent` : what such a host shows.
-/

namespace Ratatoskr.Calendar

open List
open Lib (Weekday weekday ofDays)

/-- The host moves between the dates that the walk in UTC visits as UTC does. -/
def StepsAgree (tz : TimeZone) (freq : Freq) (rule : Rrule) (d : Date) : Prop :=
  match freq with
  | .daily => ∀ x ∈ dailyVisits rule.interval (rule.byday.map (·.day)) (instanceCap rule 800)
      rruleMaxSteps d 0, Shows tz x ∧ Keeps tz x (x + rule.interval)
  | .weekly =>
    if rule.byday = [] then
      ∀ x ∈ dailyVisits (wrapI64 (rule.interval * 7)) [] (instanceCap rule 800) rruleMaxSteps d 0,
        Shows tz x ∧ Keeps tz x (x + wrapI64 (rule.interval * 7))
    else
      let wkst := rule.wkst.getD .monday
      Keeps tz d (d + -weekBack d wkst) ∧
      ∀ x ∈ weeklyVisits (wrapI64 (rule.interval * 7)) (weekDays rule wkst) (instanceCap rule 800)
          (midnight d) rruleMaxSteps (startOfWeek .utc (midnight d) wkst / 86400) [],
        Shows tz x ∧ Keeps tz x (x + wrapI64 (rule.interval * 7)) ∧
          ∀ wd ∈ weekDays rule wkst, Keeps tz d (x + weekAhead x wd)
  | .monthly =>
    ∀ ym ∈ monthlyVisits rule (ofDays d).day (instanceCap rule 800) (midnight d) rruleMaxSteps
        (ofDays d).year (ofDays d).month [],
      KeepsMonth tz rule d (ofDays d).day ym.1 ym.2
  | .yearly =>
    let months := if rule.bymonth = [] then [(ofDays d).month] else rule.bymonth
    ∀ y ∈ yearlyVisits rule months (ofDays d).day (instanceCap rule 200) (midnight d)
        (if inI32 rule.interval then rule.interval else 1) yearlyMaxSteps (ofDays d).year [],
      ∀ month ∈ months, KeepsMonth tz rule d (ofDays d).day y month

section Walk

variable {tz : TimeZone} {freq : Freq} {rule : Rrule} {d : Int}

theorem candidates_eq (hd : instant (midnight d) = some (midnight d)) (hshows : Shows tz d)
    (h : StepsAgree tz freq rule d) :
    candidateStarts tz freq (midnight d) rule = candidateStarts .utc freq (midnight d) rule := by
  obtain ⟨hnaive, hdate, htime⟩ := naive_midnight hshows hd
  have hymd : ymdOf (midnight d + tz.offset (midnight d)) = ofDays d := congrArg ofDays hdate
  have hymd' : ymdOf (midnight d) = ofDays d := congrArg ofDays (date_midnight d)
  have htime' : DateTime.time (midnight d) = 0 := Int.mul_emod_left d 86400
  cases freq with
  | daily => exact daily_eq h
  | weekly =>
    rw [candidateStarts, candidateStarts, expandWeekly, expandWeekly]
    rw [StepsAgree] at h
    by_cases hby : rule.byday = []
    · rw [if_pos hby] at h
      rw [if_pos hby, if_pos hby]
      exact daily_eq h
    · rw [if_neg hby] at h
      rw [if_neg hby, if_neg hby]
      obtain ⟨hback, hweeks⟩ := h
      obtain ⟨a, ha⟩ := startOfWeek_midnight d (rule.wkst.getD .monday)
      simp only [startOfWeek_eq hshows hback, ha]
      rw [ha, midnight_div] at hweeks
      exact weekly_eq hshows hweeks
  | monthly =>
    rw [candidateStarts, candidateStarts, expandMonthly, expandMonthly, hnaive, naive_utc, hd]
    simp only [hymd, hymd', htime, htime']
    exact congrArg Except.ok (monthly_eq hd h)
  | yearly =>
    rw [candidateStarts, candidateStarts, expandYearly, expandYearly, hnaive, naive_utc, hd]
    simp only [hymd, hymd', htime, htime']
    exact congrArg Except.ok (yearly_eq hd h)

end Walk

section Instance

variable {tz : TimeZone} {d : Int}

theorem takeWhile_congr {α : Type} {p q : α → Bool} {l : List α} (h : ∀ x ∈ l, p x = q x) :
    l.takeWhile p = l.takeWhile q := by
  induction l with
  | nil => rfl
  | cons x xs ih =>
    rw [takeWhile_cons, takeWhile_cons, h x (mem_cons_self ..), ih (fun y hy => h y (mem_cons_of_mem _ hy))]

theorem slots_day {bound bound' : Int} {idx : Nat} {starts : List Int}
    (hstarts : ∀ s ∈ starts, ∃ e : Int, s = midnight e) (h : bound / 86400 = bound' / 86400) :
    slots bound idx starts = slots bound' idx starts := by
  refine takeWhile_congr ?_
  intro s hs
  obtain ⟨e, he⟩ := hstarts s.1 (fst_mem_of_mem_zipIdx hs)
  have hiff : s.1 ≤ bound ↔ s.1 ≤ bound' := by
    simp only [he, midnight, daySeconds]
    omega
  simp [hiff]

theorem shown_cases (hshows : Shows tz d) : naive tz (midnight d) = none ∧ naive .utc (midnight d) = none ∨
    ∃ dt, naive tz (midnight d) = some dt ∧ dt.date = d ∧ naive .utc (midnight d) = some (midnight d) := by
  rcases instant_midnight d with hd | hd
  · exact .inl ⟨naive_midnight_none hd _, naive_midnight_none hd _⟩
  · obtain ⟨hnaive, hdate, -⟩ := naive_midnight hshows hd
    exact .inr ⟨_, hnaive, hdate, by rw [naive_utc, hd]⟩

variable {event : CalendarViewEvent} {stop : Int}

/-- The duration of an all-day event depends on the dates that are shown only. -/
theorem wallDuration_eq (hall : event.allDay = true) (hstart : event.startTime = midnight d)
    (hstop : event.endTime = midnight stop) (hshows : Shows tz d) (hshows' : Shows tz stop) :
    wallDuration tz event = wallDuration .utc event := by
  rw [wallDuration, wallDuration, hstart, hstop]
  rcases shown_cases hshows with ⟨hs, hu⟩ | ⟨dt, hs, hdate, hu⟩
  · rw [hs, hu]
  rw [hs, hu]
  rcases shown_cases hshows' with ⟨ht, hv⟩ | ⟨dt', ht, hdate', hv⟩
  · rw [ht, hv]
  · rw [ht, hv]
    simp [hall, hdate, hdate']

theorem wallDuration_days (hall : event.allDay = true) (hstart : event.startTime = midnight d)
    (hstop : event.endTime = midnight stop) :
    wallDuration .utc event = wallDuration .utc event / 86400 * daySeconds := by
  have hday : ∃ k : Int, wallDuration .utc event = k * 86400 := by
    rw [wallDuration, hstart, hstop]
    split
    · rw [if_pos hall]
      exact ⟨_, Int.mul_comm _ _⟩
    · refine ⟨stop - d, ?_⟩
      simp only [midnight, daySeconds]
      omega
  obtain ⟨k, hk⟩ := hday
  rw [daySeconds]
  omega

theorem endTime_eq {k raw : Int} (hshows : Shows tz d) (hkeeps : Keeps tz d (d + k)) :
    endTimeForInstance tz (midnight d) (k * daySeconds) raw =
      endTimeForInstance .utc (midnight d) (k * daySeconds) raw := by
  rcases instant_midnight d with hd | hd
  · rw [endTimeForInstance, endTimeForInstance, naive_midnight_none hd, naive_midnight_none hd]
    rfl
  · rw [endTimeForInstance, endTimeForInstance, (naive_midnight hshows hd).1, naive_utc, hd]
    exact congrArg (Option.getD · (midnight d + raw)) (moved_eq hshows hd hkeeps)

theorem slotText_eq {j : Jiff} (hshows : Shows tz d) :
    canonicalRecurrenceSlot { j with system := tz } (midnight d) .local true =
      canonicalRecurrenceSlot { j with system := .utc } (midnight d) .local true := by
  rw [canonicalRecurrenceSlot, canonicalRecurrenceSlot]
  simp only [RecurrenceTz.zone]
  rcases shown_cases hshows with ⟨hs, hu⟩ | ⟨dt, hs, hdate, hu⟩
  · rw [hs, hu]
  · rw [hs, hu]
    simp [hdate]

end Instance

/-! ## The expansion -/

/-- The end of the last day of the series, in a host: the UNTIL of the rule, or two years. -/
def lastDay (tz : TimeZone) (rule : Rrule) (d : Date) : Option Int :=
  (windowBound tz rule (midnight d) none).map (· / 86400)

/-- The host agrees with UTC on all that the expansion in UTC reads. -/
structure HostAgrees (tz : TimeZone) (freq : Freq) (rule : Rrule) (event : CalendarViewEvent)
    (d stop : Date) : Prop where
  start : Shows tz d
  stop : Shows tz stop
  steps : StepsAgree tz freq rule d
  bound : lastDay tz rule d = lastDay .utc rule d
  instances : ∀ starts, candidateStarts .utc freq (midnight d) rule = .ok starts →
    ∀ s ∈ slots ((windowBound .utc rule (midnight d) none).getD (2 ^ 63 - 1)) 0 starts,
      Shows tz (s.1 / 86400) ∧ Keeps tz (s.1 / 86400) (s.1 / 86400 + wallDuration .utc event / 86400)

/-- An all-day event without a zone, from UTC midnight to UTC midnight. -/
structure AllDayMaster (event : CalendarViewEvent) (d stop : Date) : Prop where
  allDay : event.allDay = true
  timezone : event.timezone = none
  startTime : event.startTime = midnight d
  endTime : event.endTime = midnight stop
  range : instant (midnight d) = some (midnight d)

section Expansion

variable {j : Jiff} {tz : TimeZone} {freq : Freq} {rule : Rrule} {event : CalendarViewEvent}
  {d stop : Int} {rrule : String}

theorem seriesSlots_eq (hmaster : AllDayMaster event d stop) (hparse : parseRrule rrule = .ok rule)
    (hfreq : Freq.parse rule.freq = some freq) (hsup : Supported freq rule)
    (hagree : HostAgrees tz freq rule event d stop) : seriesSlots { j with system := tz } event rrule =
      (candidateStarts .utc freq (midnight d) rule).map (fun starts =>
        some (slots ((windowBound .utc rule (midnight d) none).getD (2 ^ 63 - 1)) 0 starts)) := by
  have hlocal : RecurrenceTz.fromEventTimezone { j with system := tz } event.timezone = .local := by
    rw [hmaster.timezone]
    rfl
  rw [seriesSlots, hparse]
  simp only [bind, Except.bind, hlocal, RecurrenceTz.zone, hfreq, hsup.expanded, hmaster.startTime]
  rw [candidates_eq hmaster.range hagree.start hagree.steps]
  cases hstarts : candidateStarts .utc freq (midnight d) rule with
  | error p => rfl
  | ok starts =>
    have hmid : ∀ s ∈ starts, ∃ e : Int, s = midnight e := by
      intro s hs
      obtain ⟨e, he, -⟩ := starts_by hmaster.range hsup hstarts s hs
      exact ⟨e, he⟩
    have hbound := hagree.bound
    simp only [lastDay] at hbound
    refine congrArg (fun x => Except.ok (some x)) ?_
    cases hz : windowBound tz rule (midnight d) none with
    | none =>
      cases hu : windowBound .utc rule (midnight d) none with
      | none => rfl
      | some u =>
        rw [hz, hu] at hbound
        cases hbound
    | some z =>
      cases hu : windowBound .utc rule (midnight d) none with
      | none =>
        rw [hz, hu] at hbound
        cases hbound
      | some u =>
        rw [hz, hu] at hbound
        exact slots_day hmid (Option.some.inj hbound)

theorem agrees_utc : HostAgrees .utc freq rule event d stop := by
  have hday : (0 : Int) < daySeconds := by decide
  have hshows : ∀ e, Shows .utc e := fun e _ => ⟨le_refl _, hday⟩
  have hkeeps : ∀ x e, Keeps .utc x e := fun x e _ _ => congrArg instant (Int.add_zero _)
  refine ⟨hshows d, hshows stop, ?_, rfl, fun _ _ _ _ => ⟨hshows _, hkeeps _ _⟩⟩
  cases freq with
  | daily => exact fun x _ => ⟨hshows x, hkeeps _ _⟩
  | weekly =>
    rw [StepsAgree]
    split
    · exact fun x _ => ⟨hshows x, hkeeps _ _⟩
    · exact ⟨hkeeps _ _, fun x _ => ⟨hshows x, hkeeps _ _, fun _ _ => hkeeps _ _⟩⟩
  | monthly => exact fun _ _ _ _ _ _ => hkeeps _ _
  | yearly => exact fun _ _ _ _ _ _ _ _ => hkeeps _ _

theorem instancesOf_eq (hmaster : AllDayMaster event d stop) (overrides : List String)
    (hagree : HostAgrees tz freq rule event d stop) {s : List (Int × Nat)}
    (hs : ∀ x ∈ s, ∃ e : Int, x.1 = midnight e ∧ Shows tz e ∧
      Keeps tz e (e + wallDuration .utc event / 86400)) :
    instancesOf { j with system := tz } event overrides (some s) =
      instancesOf { j with system := .utc } event overrides (some s) := by
  have hlocal : ∀ tz', RecurrenceTz.fromEventTimezone { j with system := tz' } event.timezone =
      .local := by
    rw [hmaster.timezone]
    exact fun _ => rfl
  have hwall := wallDuration_eq hmaster.allDay hmaster.startTime hmaster.endTime hagree.start
    hagree.stop
  have hdays := wallDuration_days hmaster.allDay hmaster.startTime hmaster.endTime
  simp only [instancesOf, hlocal, RecurrenceTz.zone, hmaster.allDay]
  have hfilter : s.filter (fun x => decide
        (¬ Overridden { j with system := tz } .local true overrides x.1)) =
      s.filter (fun x => decide
        (¬ Overridden { j with system := .utc } .local true overrides x.1)) := by
    refine filter_congr (fun x hx => ?_)
    obtain ⟨e, he, hshows, -⟩ := hs x hx
    simp [Overridden, he, slotText_eq hshows]
  rw [hfilter]
  refine map_congr_left (fun x hx => ?_)
  obtain ⟨e, he, hshows, hkeeps⟩ := hs x (mem_filter.mp hx).1
  simp only [instanceAt, hwall, he]
  rw [hdays, endTime_eq hshows hkeeps]

theorem expand_eq (hmaster : AllDayMaster event d stop) (hparse : parseRrule rrule = .ok rule)
    (hfreq : Freq.parse rule.freq = some freq) (hsup : Supported freq rule)
    (hagree : HostAgrees tz freq rule event d stop) (overrides : List String) :
    expandRecurrenceWithOverrides { j with system := tz } event rrule overrides =
      expandRecurrenceWithOverrides { j with system := .utc } event rrule overrides := by
  rw [expand_overrides, expand_overrides, seriesSlots_eq hmaster hparse hfreq hsup hagree,
    seriesSlots_eq hmaster hparse hfreq hsup agrees_utc]
  cases hstarts : candidateStarts .utc freq (midnight d) rule with
  | error p => rfl
  | ok starts =>
    refine congrArg Except.ok (instancesOf_eq hmaster overrides hagree (fun x hx => ?_))
    obtain ⟨hshows, hkeeps⟩ := hagree.instances starts hstarts x hx
    have hmem : x.1 ∈ starts :=
      fst_mem_of_mem_zipIdx ((takeWhile_sublist _).subset hx)
    obtain ⟨e, he, -⟩ := starts_by hmaster.range hsup hstarts x.1 hmem
    rw [he, midnight_div] at hshows hkeeps
    exact ⟨e, he, hshows, hkeeps⟩

theorem instances_by (hmaster : AllDayMaster event d stop) (hparse : parseRrule rrule = .ok rule)
    (hfreq : Freq.parse rule.freq = some freq) (hsup : Supported freq rule) {overrides : List String}
    {instances : List CalendarViewEvent}
    (h : expandRecurrenceWithOverrides { j with system := .utc } event rrule overrides =
      .ok instances) :
    ∀ i ∈ instances, ∃ e : Int, i.startTime = midnight e ∧
      ((freq = .weekly → rule.byday ≠ [] → e < 2932890) → SatisfiesBy freq rule e) := by
  rw [expand_overrides, seriesSlots_eq hmaster hparse hfreq hsup agrees_utc] at h
  cases hstarts : candidateStarts .utc freq (midnight d) rule with
  | error p =>
    rw [hstarts] at h
    cases h
  | ok starts =>
    rw [hstarts] at h
    cases h
    intro i hi
    obtain ⟨x, hx, rfl⟩ := mem_map.mp hi
    have hmem : x.1 ∈ starts :=
      fst_mem_of_mem_zipIdx ((takeWhile_sublist _).subset (mem_filter.mp hx).1)
    exact starts_by hmaster.range hsup hstarts x.1 hmem

end Expansion

def plainHost : Jiff := ⟨.utc, fun _ => none, fun _ => none, fun _ => none, fun _ => none⟩

def dayOff : CalendarViewEvent where
  id := "day-off"
  title := "Day off"
  startTime := midnight 20458
  endTime := midnight 20459
  allDay := true
  color := "#3498db"
  calendarName := none
  location := none
  recurrenceRule := some "FREQ=WEEKLY;BYDAY=MO;COUNT=2"
  calendarId := none
  accountId := "acct"
  organizerName := none
  organizerEmail := none
  rsvpStatus := none
  description := none
  availability := none
  visibility := none
  timezone := none
  uid := none
  recurrenceIdCanonical := none

end Ratatoskr.Calendar

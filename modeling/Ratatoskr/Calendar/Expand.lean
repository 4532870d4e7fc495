import Mathlib.Data.List.Sort
import Mathlib.Data.List.Destutter
import Ratatoskr.Calendar.Rule

/-!
# Calendar.Expand

`calendars/view/rrule/mod.rs`, the expansion: one walk for each frequency, bounded in its steps and in
the starts it collects, then the instances of a recurring event without the slots that have an override,
and the test whether a series meets a window.

The loops of the source are recursions on the steps that are left.
-/

namespace Ratatoskr.Calendar

open Lib (Ymd Weekday weekday toDays ofDays)

structure CalendarViewEvent where
  id : String
  title : String
  startTime : Int
  endTime : Int
  allDay : Bool
  color : String
  calendarName : Option String
  location : Option String
  recurrenceRule : Option String
  calendarId : Option String
  accountId : String
  organizerName : Option String
  organizerEmail : Option String
  rsvpStatus : Option String
  description : Option String
  availability : Option String
  visibility : Option String
  timezone : Option String
  uid : Option String
  recurrenceIdCanonical : Option String
  deriving DecidableEq

def rruleMaxSteps : Nat := 12000

def yearlyMaxSteps : Nat := 80000

def matchesWeekday (tz : TimeZone) (timestamp : Int) (days : List Weekday) : Bool :=
  match naive tz timestamp with
  | none => false
  | some dt => weekday dt.date ∈ days

def dailyLoop (tz : TimeZone) (interval : Int) (bydayFilter : List Weekday) (cap : Nat) :
    Nat → Int → List Int → Except Panic (List Int)
  | 0, _, out => .ok out
  | n + 1, current, out =>
    if cap ≤ out.length then .ok out
    else do
      let out :=
        if bydayFilter = [] ∨ matchesWeekday tz current bydayFilter then out ++ [current] else out
      let next ← addDaysInZone tz current interval
      dailyLoop tz interval bydayFilter cap n (next.getD (current + interval * 86400)) out

def expandDaily (tz : TimeZone) (start : Int) (rule : Rrule) : Except Panic (List Int) :=
  dailyLoop tz rule.interval (rule.byday.map (·.day)) (instanceCap rule 800) rruleMaxSteps start []

/-- A step back of less than a week, which no span is too long for. -/
def startOfWeek (tz : TimeZone) (timestamp : Int) (weekStart : Weekday) : Int :=
  match naive tz timestamp with
  | none => timestamp
  | some dt =>
    let daysBack := (((weekday dt.date).offset : Int) - weekStart.offset) % 7
    ((checkedAdd dt (-daysBack * daySeconds)).bind (resolve tz)).getD timestamp

/-- The target weekday on or after the day of the anchor, at the clock time of `timeSource`. -/
def shiftToWeekday (tz : TimeZone) (weekAnchor : Int) (target : Weekday) (timeSource : Int) : Int :=
  match naive tz weekAnchor, naive tz timeSource with
  | some anchor, some source =>
    let targetOffset := ((target.offset : Int) - (weekday anchor.date).offset) % 7
    let targetDate := anchor.date + targetOffset
    if targetDate ≤ Date.max then
      (resolve tz (Date.toDateTime targetDate source.time)).getD weekAnchor
    else weekAnchor
  | _, _ => weekAnchor

def pushWeek (tz : TimeZone) (cap : Nat) (weekAnchor start : Int) : List Weekday → List Int → List Int
  | [], out => out
  | wd :: days, out =>
    let candidate := shiftToWeekday tz weekAnchor wd start
    if candidate < start then pushWeek tz cap weekAnchor start days out
    else if cap ≤ (out ++ [candidate]).length then out ++ [candidate]
    else pushWeek tz cap weekAnchor start days (out ++ [candidate])

def weeklyLoop (tz : TimeZone) (intervalDays : Int) (days : List Weekday) (cap : Nat) (start : Int) :
    Nat → Int → List Int → Except Panic (List Int)
  | 0, _, out => .ok out
  | n + 1, weekAnchor, out =>
    if cap ≤ out.length then .ok out
    else do
      let out := pushWeek tz cap weekAnchor start days out
      let next ← addDaysInZone tz weekAnchor intervalDays
      weeklyLoop tz intervalDays days cap start n (next.getD (weekAnchor + intervalDays * 86400)) out

/-- The weekdays of the rule in the order of a week that starts with `wkst`. -/
def weekDays (rule : Rrule) (wkst : Weekday) : List Weekday :=
  (rule.byday.map (·.day)).insertionSort
    (fun d e => ((d.offset : Int) - wkst.offset) % 7 ≤ ((e.offset : Int) - wkst.offset) % 7)

def expandWeekly (tz : TimeZone) (start : Int) (rule : Rrule) : Except Panic (List Int) :=
  let intervalDays := wrapI64 (rule.interval * 7)
  if rule.byday = [] then dailyLoop tz intervalDays [] (instanceCap rule 800) rruleMaxSteps start []
  else
    let wkst := rule.wkst.getD .monday
    weeklyLoop tz intervalDays (weekDays rule wkst) (instanceCap rule 800) start rruleMaxSteps
      (startOfWeek tz start wkst) []

def weekdayOccurrencesInMonth (year : Int) (month : Nat) (wd : Weekday) : List Nat :=
  match civilDate year month 1 with
  | none => []
  | some day1 =>
    (List.range' 1 (daysInMonth year month)).filter
      (fun d => ((weekday day1).offset + (d - 1) % 7) % 7 = wd.offset)

def nthWeekdayInMonth (year : Int) (month : Nat) (wd : Weekday) (n : Int) : Option Nat :=
  let occurrences := weekdayOccurrencesInMonth year month wd
  if 0 < n then occurrences[(n - 1).toNat]?
  else if n < 0 then occurrences.reverse[(-n - 1).toNat]?
  else none

def bydayDays (year : Int) (month : Nat) (byday : List ByDay) : List Nat :=
  byday.flatMap (fun b => match b.ordinal with
    | none => weekdayOccurrencesInMonth year month b.day
    | some n => (nthWeekdayInMonth year month b.day n).toList)

def bymonthdayDays (year : Int) (month : Nat) (bymonthday : List Int) : List Nat :=
  bymonthday.filterMap (fun d =>
    let dim : Int := daysInMonth year month
    let resolved := if d < 0 then dim + d + 1 else d
    if resolved < 1 ∨ dim < resolved then none else some resolved.toNat)

def collectMonthlyDays (year : Int) (month : Nat) (byday : List ByDay) (bymonthday : List Int) : List Nat :=
  if byday = [] then
    if bymonthday = [] then [] else bymonthdayDays year month bymonthday
  else if bymonthday = [] then bydayDays year month byday
  else (bydayDays year month byday).filter (· ∈ bymonthdayDays year month bymonthday)

/-- The days of a month that the rule picks, in order: the day of the start if it says nothing. -/
def monthDays (rule : Rrule) (originalDay : Nat) (year : Int) (month : Nat) : List Nat :=
  if rule.byday = [] ∧ rule.bymonthday = [] then
    if originalDay ≤ daysInMonth year month then [originalDay] else []
  else
    ((collectMonthlyDays year month rule.byday rule.bymonthday).insertionSort (· ≤ ·)).destutter (· ≠ ·)

def withYmdTime (tz : TimeZone) (time : Int) (year : Int) (month day : Nat) : Option Int :=
  (civilDate year month day).bind (fun d => resolve tz (d.toDateTime time))

def pushDays (tz : TimeZone) (cap : Nat) (start time : Int) (year : Int) (month : Nat) :
    List Nat → List Int → List Int
  | [], out => out
  | day :: days, out =>
    match withYmdTime tz time year month day with
    | none => pushDays tz cap start time year month days out
    | some ts =>
      if ts < start then pushDays tz cap start time year month days out
      else if cap ≤ (out ++ [ts]).length then out ++ [ts]
      else pushDays tz cap start time year month days (out ++ [ts])

def inI32 (n : Int) : Prop := -2 ^ 31 ≤ n ∧ n < 2 ^ 31

instance (n : Int) : Decidable (inI32 n) := inferInstanceAs (Decidable (_ ∧ _))

/-- The month cursor, or none if the year leaves its type. -/
def advanceMonth (interval year : Int) (month : Nat) : Option (Int × Nat) :=
  let total := wrapI64 ((month : Int) - 1 + interval)
  let yearStep := if inI32 (total / 12) then total / 12 else 0
  if inI32 (year + yearStep) then some (year + yearStep, (total % 12 + 1).toNat) else none

def monthlyLoop (tz : TimeZone) (rule : Rrule) (originalDay cap : Nat) (start time : Int) :
    Nat → Int → Nat → List Int → List Int
  | 0, _, _, out => out
  | n + 1, year, month, out =>
    if cap ≤ out.length then out
    else
      let out := pushDays tz cap start time year month (monthDays rule originalDay year month) out
      match advanceMonth rule.interval year month with
      | none => out
      | some (year, month) => monthlyLoop tz rule originalDay cap start time n year month out

def expandMonthly (tz : TimeZone) (start : Int) (rule : Rrule) : List Int :=
  match naive tz start with
  | none => []
  | some startDt =>
    let ymd := ymdOf startDt
    monthlyLoop tz rule ymd.day (instanceCap rule 800) start startDt.time rruleMaxSteps ymd.year
      ymd.month []

/-- The months of one year; nothing more once the cap is reached. -/
def pushMonths (tz : TimeZone) (rule : Rrule) (originalDay cap : Nat) (start time year : Int) :
    List Nat → List Int → List Int
  | [], out => out
  | month :: months, out =>
    if cap ≤ out.length then out
    else pushMonths tz rule originalDay cap start time year months
      (pushDays tz cap start time year month (monthDays rule originalDay year month) out)

def yearlyLoop (tz : TimeZone) (rule : Rrule) (months : List Nat) (originalDay cap : Nat)
    (start time intervalYears : Int) : Nat → Int → List Int → List Int
  | 0, _, out => out
  | n + 1, year, out =>
    if cap ≤ out.length then out
    else
      let out := pushMonths tz rule originalDay cap start time year months out
      if inI32 (year + intervalYears) then
        yearlyLoop tz rule months originalDay cap start time intervalYears n (year + intervalYears) out
      else out

def expandYearly (tz : TimeZone) (start : Int) (rule : Rrule) : List Int :=
  match naive tz start with
  | none => []
  | some startDt =>
    let ymd := ymdOf startDt
    let intervalYears := if inI32 rule.interval then rule.interval else 1
    let months := if rule.bymonth = [] then [ymd.month] else rule.bymonth
    yearlyLoop tz rule months ymd.day (instanceCap rule 200) start startDt.time intervalYears
      yearlyMaxSteps ymd.year []

/-! ## Instances -/

/-- What the source calls the wall-clock duration of the master. -/
def wallDuration (tz : TimeZone) (event : CalendarViewEvent) : Int :=
  let rawDuration := event.endTime - event.startTime
  match naive tz event.startTime, naive tz event.endTime with
  | some s, some e =>
    if event.allDay then
      let days := e.date - s.date
      let days := if days = 0 ∧ 0 < rawDuration then 1 else days
      24 * 3600 * max days 0
    else e - s
  | _, _ => rawDuration

def endTimeForInstance (tz : TimeZone) (start wallDuration rawDuration : Int) : Int :=
  (((naive tz start).bind (fun dt => checkedAdd dt wallDuration)).bind (resolve tz)).getD
    (start + rawDuration)

def twoYearWindowEnd (tz : TimeZone) (start : Int) : Int :=
  ((naive tz start).bind (fun dt =>
    let ymd := ymdOf dt
    (civilDate (ymd.year + 2) ymd.month ymd.day).bind (fun d => resolve tz (d.toDateTime dt.time)))).getD
    (start + 730 * 86400)

def canonicalRecurrenceSlot (j : Jiff) (timestamp : Int) (rtz : RecurrenceTz) (allDay : Bool) : String :=
  match naive (rtz.zone j) timestamp with
  | none => "__unresolvable_slot_" ++ toString timestamp
  | some dt =>
    if allDay then formatDate dt.date
    else
      match rtz with
      | .iana tz =>
        match tz.ianaName with
        | some name => formatDateTime dt ++ ";TZID=" ++ name
        | none => formatDateTime dt
      | .local => formatDateTime dt

/-- The instance of the master at the candidate with the given number. -/
def instanceAt (tz : TimeZone) (event : CalendarViewEvent) (idx : Nat) (start : Int) : CalendarViewEvent :=
  { event with
    id := if idx = 0 then event.id else event.id ++ "__recur_" ++ toString idx
    startTime := start
    endTime := endTimeForInstance tz start (wallDuration tz event) (event.endTime - event.startTime)
    recurrenceIdCanonical := none }

/-- The loop over the candidates, the next of which has the number `idx`. -/
def emitLoop (j : Jiff) (rtz : RecurrenceTz) (event : CalendarViewEvent) (overrides : List String)
    (windowEnd : Int) (maxInstances : Nat) : Nat → List Int → List CalendarViewEvent → List CalendarViewEvent
  | _, [], instances => instances
  | idx, start :: starts, instances =>
    if windowEnd < start then instances
    else if maxInstances ≤ instances.length then instances
    else if overrides ≠ [] ∧ canonicalRecurrenceSlot j start rtz event.allDay ∈ overrides then
      emitLoop j rtz event overrides windowEnd maxInstances (idx + 1) starts instances
    else
      emitLoop j rtz event overrides windowEnd maxInstances (idx + 1) starts
        (instances ++ [instanceAt (rtz.zone j) event idx start])

/-- The rules that are not expanded: only the master is shown. -/
def masterOnly (freq : Freq) (rule : Rrule) : Bool :=
  !rule.unsupportedParts.isEmpty ||
    (freq = .yearly && rule.bymonth.isEmpty && rule.byday.any (fun b => b.ordinal.isSome))

def candidateStarts (tz : TimeZone) (freq : Freq) (start : Int) (rule : Rrule) : Except Panic (List Int) :=
  match freq with
  | .daily => expandDaily tz start rule
  | .weekly => expandWeekly tz start rule
  | .monthly => .ok (expandMonthly tz start rule)
  | .yearly => .ok (expandYearly tz start rule)

/-- Candidates after this are not emitted; none stands for `i64::MAX`. -/
def windowBound (tz : TimeZone) (rule : Rrule) (start : Int) (expansionHorizon : Option Int) : Option Int :=
  match rule.til.bind (Until.resolve tz), rule.count with
  | some til, _ => some til
  | none, some _ => none
  | none, none => some (expansionHorizon.getD (twoYearWindowEnd tz start))

def expandRecurrenceWindowed (j : Jiff) (event : CalendarViewEvent) (rrule : String)
    (overrides : List String) (expansionHorizon : Option Int) :
    Except Panic (List CalendarViewEvent) := do
  let rule ← parseRrule rrule
  let rtz := RecurrenceTz.fromEventTimezone j event.timezone
  match Freq.parse rule.freq with
  | none => pure [event]
  | some freq =>
    if masterOnly freq rule then pure [event]
    else
      let starts ← candidateStarts (rtz.zone j) freq event.startTime rule
      let windowEnd := (windowBound (rtz.zone j) rule event.startTime expansionHorizon).getD (2 ^ 63 - 1)
      pure (emitLoop j rtz event overrides windowEnd (instanceCap rule 800) 0 starts [])

def expandRecurrenceWithOverrides (j : Jiff) (event : CalendarViewEvent) (rrule : String)
    (overrides : List String) : Except Panic (List CalendarViewEvent) :=
  expandRecurrenceWindowed j event rrule overrides none

def Overlaps (windowStart windowEnd startTime endTime : Int) : Prop :=
  startTime < windowEnd ∧ windowStart < endTime

instance (ws we s e : Int) : Decidable (Overlaps ws we s e) := inferInstanceAs (Decidable (_ ∧ _))

def reanchorDayCadence (tz : TimeZone) (start : Int) (rule : Rrule) (freq : Freq) (windowStart : Int) :
    Except Panic Int :=
  if windowStart ≤ start then .ok start
  else
    let interval := max rule.interval 1
    let stepDays := if freq = .weekly then wrapI64 (interval * 7) else interval
    let gapDays := (windowStart - start) / 86400
    -- division of the source rounds towards zero, and fails on zero
    let steps := gapDays.tdiv stepDays
    if steps ≤ 0 then .ok start
    else do
      let anchor ← addDaysInZone tz start (steps * stepDays)
      pure (anchor.getD start)

def masterIntersectsWindow (j : Jiff) (event : CalendarViewEvent) (rrule : String)
    (windowStart windowEnd : Int) : Except Panic Bool := do
  let rule ← parseRrule rrule
  let tz := (RecurrenceTz.fromEventTimezone j event.timezone).zone j
  let anchor ← match Freq.parse rule.freq with
    | some .daily => reanchorDayCadence tz event.startTime rule .daily windowStart
    | some .weekly => reanchorDayCadence tz event.startTime rule .weekly windowStart
    | _ => pure event.startTime
  let master :=
    if anchor = event.startTime then event
    else { event with startTime := anchor, endTime := anchor + (event.endTime - event.startTime) }
  let instances ← expandRecurrenceWindowed j master rrule [] (some windowEnd)
  pure (instances.any (fun inst => Overlaps windowStart windowEnd inst.startTime inst.endTime))

def recurringMasterIntersectsWindow (j : Jiff) (recurrenceRule : String) (startTime endTime : Int)
    (timezone : Option String) (windowStart windowEnd : Int) : Except Panic Bool :=
  masterIntersectsWindow j
    ⟨"", "", startTime, endTime, false, "", none, none, some recurrenceRule, none, "", none, none, none,
      none, none, none, timezone, none, none⟩ recurrenceRule windowStart windowEnd

end Ratatoskr.Calendar

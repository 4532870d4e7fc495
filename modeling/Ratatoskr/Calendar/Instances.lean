import Ratatoskr.Calendar.View
import Ratatoskr.Lib.Run

/-!
# Calendar.Instances

What an expansion returns. No walk collects more starts than the cap on instances, so the cap never
stops the loop that emits them, and overrides do nothing but take slots away.

* `length_candidateStarts` : the bound on the starts.
* `emitLoop_eq` : the emitted instances, without the loop.
* `seriesSlots`, `expand_overrides` : the expansion is a selection from the slots of the rule.
-/

namespace Ratatoskr.Calendar

open List
open Lib (Weekday)

section Length

variable {tz : TimeZone} {cap : Nat} {start : Int} {rule : Rrule}
variable {n : Nat} {out res : List Int} {days : List Weekday}

theorem length_dailyLoop {interval : Int} {bydayFilter : List Weekday} {current : Int}
    (hout : out.length ≤ cap) (h : dailyLoop tz interval bydayFilter cap n current out = .ok res) :
    res.length ≤ cap := by
  induction n generalizing current out with
  | zero =>
    cases h
    exact hout
  | succ n ih =>
    rw [dailyLoop] at h
    split at h
    · cases h
      exact hout
    obtain ⟨next, hadd, h⟩ := Lib.bind_ok h
    refine ih ?_ h
    split
    · rw [length_append, length_singleton]
      omega
    · exact hout

theorem length_pushWeek {weekAnchor : Int} (hout : out.length < cap) :
    (pushWeek tz cap weekAnchor start days out).length ≤ cap := by
  induction days generalizing out with
  | nil => exact hout.le
  | cons wd days ih =>
    rw [pushWeek]
    split
    · exact ih hout
    have hlen : (out ++ [shiftToWeekday tz weekAnchor wd start]).length = out.length + 1 := by simp
    split
    · omega
    · exact ih (by omega)

theorem length_weeklyLoop {intervalDays : Int} {weekAnchor : Int} (hout : out.length ≤ cap)
    (h : weeklyLoop tz intervalDays days cap start n weekAnchor out = .ok res) : res.length ≤ cap := by
  induction n generalizing weekAnchor out with
  | zero =>
    cases h
    exact hout
  | succ n ih =>
    rw [weeklyLoop] at h
    split at h
    · cases h
      exact hout
    · rename_i hcap
      obtain ⟨next, hadd, h⟩ := Lib.bind_ok h
      exact ih (length_pushWeek (Nat.lt_of_not_le hcap)) h

theorem length_pushDays (tz : TimeZone) (start time year : Int) (month : Nat) (days : List Nat)
    (hout : out.length < cap) : (pushDays tz cap start time year month days out).length ≤ cap := by
  induction days generalizing out with
  | nil => exact hout.le
  | cons day days ih =>
    rw [pushDays]
    split
    · exact ih hout
    rename_i ts _
    have hlen : (out ++ [ts]).length = out.length + 1 := by simp
    split
    · exact ih hout
    · split
      · omega
      · exact ih (by omega)

theorem length_monthlyLoop {originalDay : Nat} {time : Int} {year : Int} {month : Nat}
    (hout : out.length ≤ cap) :
    (monthlyLoop tz rule originalDay cap start time n year month out).length ≤ cap := by
  induction n generalizing year month out with
  | zero => exact hout
  | succ n ih =>
    rw [monthlyLoop]
    split
    · exact hout
    rename_i hcap
    have hpush := length_pushDays tz start time year month
      (monthDays rule originalDay year month) (Nat.lt_of_not_le hcap)
    split
    · exact hpush
    · exact ih hpush

theorem length_pushMonths (tz : TimeZone) (rule : Rrule) (start : Int) (originalDay : Nat)
    (time year : Int) (months : List Nat) (hout : out.length ≤ cap) :
    (pushMonths tz rule originalDay cap start time year months out).length ≤ cap := by
  induction months generalizing out with
  | nil => exact hout
  | cons month months ih =>
    rw [pushMonths]
    split
    · exact hout
    · rename_i hcap
      exact ih (length_pushDays tz start time year month _ (Nat.lt_of_not_le hcap))

theorem length_yearlyLoop {months : List Nat} {originalDay : Nat} {time intervalYears : Int}
    {year : Int} (hout : out.length ≤ cap) :
    (yearlyLoop tz rule months originalDay cap start time intervalYears n year out).length ≤ cap := by
  induction n generalizing year out with
  | zero => exact hout
  | succ n ih =>
    rw [yearlyLoop]
    split
    · exact hout
    have hpush := length_pushMonths tz rule start originalDay time year months hout
    split
    · exact ih hpush
    · exact hpush

theorem instanceCap_mono {m : Nat} (h : m ≤ n) : instanceCap rule m ≤ instanceCap rule n := by
  unfold instanceCap
  split
  · exact Nat.le_refl _
  · split
    · exact Nat.le_refl _
    · omega

theorem length_candidateStarts {freq : Freq} {starts : List Int}
    (h : candidateStarts tz freq start rule = .ok starts) : starts.length ≤ instanceCap rule 800 := by
  have hnil : ([] : List Int).length ≤ instanceCap rule 800 := Nat.zero_le _
  cases freq with
  | daily => exact length_dailyLoop hnil h
  | weekly =>
    rw [candidateStarts, expandWeekly] at h
    split at h
    · exact length_dailyLoop hnil h
    · exact length_weeklyLoop hnil h
  | monthly =>
    rw [candidateStarts, expandMonthly] at h
    split at h
    · cases h
      exact hnil
    · cases h
      exact length_monthlyLoop hnil
  | yearly =>
    rw [candidateStarts, expandYearly] at h
    split at h
    · cases h
      exact hnil
    · cases h
      exact (length_yearlyLoop (Nat.zero_le _)).trans (instanceCap_mono (by decide))

end Length

/-! ## Emitting -/

section Emit

variable {j : Jiff} {rtz : RecurrenceTz} {event : CalendarViewEvent}

/-- The candidates up to the end of the window, with their numbers. -/
def slots (windowEnd : Int) (idx : Nat) (starts : List Int) : List (Int × Nat) :=
  (starts.zipIdx idx).takeWhile (fun s => s.1 ≤ windowEnd)

def Overridden (j : Jiff) (rtz : RecurrenceTz) (allDay : Bool) (overrides : List String)
    (start : Int) : Prop :=
  canonicalRecurrenceSlot j start rtz allDay ∈ overrides

instance (j : Jiff) (rtz : RecurrenceTz) (allDay : Bool) (overrides : List String) (start : Int) :
    Decidable (Overridden j rtz allDay overrides start) :=
  inferInstanceAs (Decidable (_ ∈ _))

theorem emitLoop_eq {overrides : List String} {windowEnd : Int} {maxInstances idx : Nat}
    {starts : List Int} {instances : List CalendarViewEvent}
    (hlen : instances.length + starts.length ≤ maxInstances) :
    emitLoop j rtz event overrides windowEnd maxInstances idx starts instances =
      instances ++ ((slots windowEnd idx starts).filter
        (fun s => ¬ Overridden j rtz event.allDay overrides s.1)).map
        (fun s => instanceAt (rtz.zone j) event s.2 s.1) := by
  induction starts generalizing idx instances with
  | nil => simp [emitLoop, slots]
  | cons start starts ih =>
    rw [length_cons] at hlen
    rw [emitLoop, slots, zipIdx_cons, takeWhile_cons]
    by_cases hend : windowEnd < start
    · simp [not_le.mpr hend]
    have hle : start ≤ windowEnd := not_lt.mp hend
    rw [if_neg hend, if_neg (by omega)]
    simp only [hle, decide_true, if_true]
    by_cases hov : Overridden j rtz event.allDay overrides start
    · have hne : overrides ≠ [] := ne_nil_of_mem hov
      rw [if_pos ⟨hne, hov⟩, ih (by omega), filter_cons_of_neg (by simpa using hov)]
      rfl
    · rw [if_neg (fun h => hov h.2), ih (by simp; omega), filter_cons_of_pos (by simpa using hov)]
      simp [slots]

/-- The slots of a rule with their numbers, or none if only the master is shown. -/
def seriesSlots (j : Jiff) (event : CalendarViewEvent) (rrule : String) :
    Except Panic (Option (List (Int × Nat))) := do
  let rule ← parseRrule rrule
  let tz := (RecurrenceTz.fromEventTimezone j event.timezone).zone j
  match Freq.parse rule.freq with
  | none => pure none
  | some freq =>
    if masterOnly freq rule then pure none
    else
      let starts ← candidateStarts tz freq event.startTime rule
      pure (some (slots ((windowBound tz rule event.startTime none).getD (2 ^ 63 - 1)) 0 starts))

def instancesOf (j : Jiff) (event : CalendarViewEvent) (overrides : List String) :
    Option (List (Int × Nat)) → List CalendarViewEvent
  | none => [event]
  | some slots =>
    (slots.filter (fun s =>
      ¬ Overridden j (RecurrenceTz.fromEventTimezone j event.timezone) event.allDay overrides s.1)).map
      (fun s => instanceAt ((RecurrenceTz.fromEventTimezone j event.timezone).zone j) event s.2 s.1)

theorem expand_overrides (rrule : String) (overrides : List String) :
    expandRecurrenceWithOverrides j event rrule overrides =
      (seriesSlots j event rrule).map (instancesOf j event overrides) := by
  unfold expandRecurrenceWithOverrides expandRecurrenceWindowed seriesSlots
  cases parseRrule rrule with
  | error p => rfl
  | ok rule =>
    simp only [bind, Except.bind]
    cases Freq.parse rule.freq with
    | none => rfl
    | some freq =>
      simp only
      by_cases hmaster : masterOnly freq rule
      · rw [if_pos hmaster, if_pos hmaster]
        rfl
      rw [if_neg hmaster, if_neg hmaster]
      cases hstarts : candidateStarts
          ((RecurrenceTz.fromEventTimezone j event.timezone).zone j) freq event.startTime rule with
      | error p => rfl
      | ok starts =>
        have hlen := length_candidateStarts hstarts
        simp only [Except.map]
        rw [emitLoop_eq (by simpa using hlen)]
        rfl

end Emit

end Ratatoskr.Calendar

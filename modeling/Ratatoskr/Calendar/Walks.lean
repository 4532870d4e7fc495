import Ratatoskr.Calendar.ByRules

/-!
# Calendar.Walks

The walks of the expansion without their loops: what each of them visits and picks, cut off at the cap.

* `dailyLoop_eq`, `weeklyLoop_eq`, `monthlyLoop_eq`, `yearlyLoop_eq` : a loop gives the picks of its visits.
* `expandDaily_eq`, `expandWeekly_eq`, `expandMonthly_eq`, `expandYearly_eq` : the same for the expanders.
-/

namespace Ratatoskr.Calendar

open List
open Lib (Ymd Weekday weekday toDays ofDays)

theorem take_take_append {α : Type} (cap : Nat) (l xs : List α) :
    (l.take cap ++ xs).take cap = (l ++ xs).take cap := by
  rcases Nat.le_total l.length cap with h | h
  · rw [take_of_length_le h]
  · rw [take_append_of_le_length (by simpa using h), take_append_of_le_length h, take_take,
      Nat.min_self]

def spanOk (days : Int) : Prop := -spanLimit ≤ days ∧ days ≤ spanLimit

instance (days : Int) : Decidable (spanOk days) := inferInstanceAs (Decidable (_ ∧ _))

/-- `add_days_in_zone` with the raw seconds where it has no result. -/
def stepDays (tz : TimeZone) (days t : Int) : Int :=
  (((naive tz t).bind (fun dt => checkedAdd dt (days * daySeconds))).bind (resolve tz)).getD
    (t + days * 86400)

/-- The first `n` stops of a walk by `days`. -/
def visits (tz : TimeZone) (days : Int) : Nat → Int → List Int
  | 0, _ => []
  | n + 1, t => t :: visits tz days n (stepDays tz days t)

section Steps

variable {tz : TimeZone} {days : Int}

theorem addDays_ok (tz : TimeZone) {days : Int} (h : spanOk days) (t : Int) :
    ∃ next, addDaysInZone tz t days = .ok next ∧ next.getD (t + days * 86400) = stepDays tz days t := by
  unfold addDaysInZone stepDays
  cases naive tz t with
  | none => exact ⟨none, rfl, rfl⟩
  | some dt =>
    exact ⟨_, if_pos h, rfl⟩

theorem length_visits (n : Nat) (t : Int) : (visits tz days n t).length = n := by
  induction n generalizing t with
  | zero => rfl
  | succ n ih => rw [visits, length_cons, ih]

def onDay (tz : TimeZone) (bydayFilter : List Weekday) (t : Int) : Bool :=
  bydayFilter = [] ∨ matchesWeekday tz t bydayFilter

theorem dailyLoop_eq (h : spanOk days) {bydayFilter : List Weekday} {cap n : Nat} {t : Int} {out : List Int}
    (hout : out.length ≤ cap) : dailyLoop tz days bydayFilter cap n t out =
      .ok ((out ++ (visits tz days n t).filter (onDay tz bydayFilter)).take cap) := by
  induction n generalizing t out with
  | zero =>
    rw [dailyLoop, visits, filter_nil, append_nil, take_of_length_le hout]
  | succ n ih =>
    rw [dailyLoop]
    split
    · rename_i hcap
      rw [take_append_of_le_length hcap, take_of_length_le hout]
    obtain ⟨next, hnext, hstep⟩ := addDays_ok tz h t
    simp only [hnext, bind, Except.bind]
    rw [hstep, ih, visits]
    · by_cases hday : bydayFilter = [] ∨ matchesWeekday tz t bydayFilter
      · rw [if_pos hday, filter_cons_of_pos (by simpa [onDay] using hday), append_assoc]
        rfl
      · rw [if_neg hday, filter_cons_of_neg (by simpa [onDay] using hday)]
    · split
      · rw [length_append, length_singleton]
        omega
      · exact hout

end Steps

def weekPicks (tz : TimeZone) (start : Int) (days : List Weekday) (weekAnchor : Int) : List Int :=
  (days.map (fun wd => shiftToWeekday tz weekAnchor wd start)).filter (fun t => start ≤ t)

section Weeks

variable {tz : TimeZone} {cap : Nat} {start : Int}

theorem pushWeek_picks {weekAnchor : Int} {days : List Weekday} {out : List Int} (hout : out.length < cap) :
    pushWeek tz cap weekAnchor start days out = (out ++ weekPicks tz start days weekAnchor).take cap := by
  induction days generalizing out with
  | nil =>
    rw [pushWeek, weekPicks, map_nil, filter_nil, append_nil, take_of_length_le (Nat.le_of_lt hout)]
  | cons wd days ih =>
    have hlen : (out ++ [shiftToWeekday tz weekAnchor wd start]).length = out.length + 1 := by simp
    rw [pushWeek, weekPicks, map_cons]
    split
    · rename_i hlt
      rw [ih hout, filter_cons_of_neg (by simpa using hlt)]
      rfl
    · rename_i hlt
      rw [filter_cons_of_pos (by simpa using hlt), append_cons out _ (List.filter _ _)]
      split
      · rename_i hcap
        rw [take_append_of_le_length hcap, take_of_length_le (by omega)]
      · rw [ih (by omega)]
        rfl

theorem weeklyLoop_eq {intervalDays : Int} (h : spanOk intervalDays) {days : List Weekday} {n : Nat}
    {weekAnchor : Int} {out : List Int} (hout : out.length ≤ cap) :
    weeklyLoop tz intervalDays days cap start n weekAnchor out =
      .ok ((out ++ (visits tz intervalDays n weekAnchor).flatMap (weekPicks tz start days)).take cap) := by
  induction n generalizing weekAnchor out with
  | zero => rw [weeklyLoop, visits, flatMap_nil, append_nil, take_of_length_le hout]
  | succ n ih =>
    rw [weeklyLoop]
    split
    · rename_i hcap
      rw [take_append_of_le_length hcap, take_of_length_le hout]
    · rename_i hcap
      obtain ⟨next, hnext, hstep⟩ := addDays_ok tz h weekAnchor
      rw [pushWeek_picks (Nat.lt_of_not_le hcap)]
      simp only [hnext, bind, Except.bind]
      rw [hstep, ih (length_take_le _ _), take_take_append, visits, flatMap_cons, append_assoc]

end Weeks

def monthPicks (tz : TimeZone) (rule : Rrule) (originalDay : Nat) (start time : Int) (m : Int × Nat) :
    List Int :=
  ((monthDays rule originalDay m.1 m.2).filterMap (withYmdTime tz time m.1 m.2)).filter (fun t => start ≤ t)

/-- The first `n` months of a walk. -/
def months (interval : Int) : Nat → Int → Nat → List (Int × Nat)
  | 0, _, _ => []
  | n + 1, year, month =>
    (year, month) ::
      match advanceMonth interval year month with
      | none => []
      | some (year, month) => months interval n year month

/-- The first `n` years of a walk. -/
def years (interval : Int) : Nat → Int → List Int
  | 0, _ => []
  | n + 1, year => year :: if inI32 (year + interval) then years interval n (year + interval) else []

section Months

variable {tz : TimeZone} {rule : Rrule} {cap originalDay : Nat} {start time : Int}

variable {year : Int} {out : List Int}

theorem pushDays_picks {month : Nat} {days : List Nat} (hout : out.length < cap) :
    pushDays tz cap start time year month days out =
      (out ++ (days.filterMap (withYmdTime tz time year month)).filter (fun t => start ≤ t)).take cap := by
  induction days generalizing out with
  | nil =>
    rw [pushDays, filterMap_nil, filter_nil, append_nil, take_of_length_le (Nat.le_of_lt hout)]
  | cons day days ih =>
    rw [pushDays]
    cases hday : withYmdTime tz time year month day with
    | none =>
      rw [ih hout, filterMap_cons_none hday]
    | some t =>
      have hlen : (out ++ [t]).length = out.length + 1 := by simp
      simp only
      rw [filterMap_cons_some hday]
      split
      · rename_i hlt
        rw [ih hout, filter_cons_of_neg (by simpa using hlt)]
      rename_i hlt
      rw [filter_cons_of_pos (by simpa using hlt), append_cons out _ (List.filter _ _)]
      split
      · rename_i hcap
        rw [take_append_of_le_length hcap, take_of_length_le (by omega)]
      · rw [ih (by omega)]

theorem monthlyLoop_eq {n : Nat} {month : Nat} (hout : out.length ≤ cap) :
    monthlyLoop tz rule originalDay cap start time n year month out =
      (out ++ (months rule.interval n year month).flatMap
        (monthPicks tz rule originalDay start time)).take cap := by
  induction n generalizing year month out with
  | zero => rw [monthlyLoop, months, flatMap_nil, append_nil, take_of_length_le hout]
  | succ n ih =>
    rw [monthlyLoop]
    split
    · rename_i hcap
      rw [take_append_of_le_length hcap, take_of_length_le hout]
    rename_i hcap
    rw [pushDays_picks (Nat.lt_of_not_le hcap), months, flatMap_cons]
    cases advanceMonth rule.interval year month with
    | none =>
      rw [flatMap_nil, append_nil]
      rfl
    | some next =>
      simp only
      rw [ih (length_take_le _ _), take_take_append, append_assoc]
      rfl

theorem pushMonths_picks {ms : List Nat} (hout : out.length ≤ cap) :
    pushMonths tz rule originalDay cap start time year ms out =
      (out ++ ms.flatMap (fun m => monthPicks tz rule originalDay start time (year, m))).take cap := by
  induction ms generalizing out with
  | nil => rw [pushMonths, flatMap_nil, append_nil, take_of_length_le hout]
  | cons m ms ih =>
    rw [pushMonths]
    split
    · rename_i hcap
      rw [take_append_of_le_length hcap, take_of_length_le hout]
    · rename_i hcap
      rw [pushDays_picks (Nat.lt_of_not_le hcap), ih (length_take_le _ _), take_take_append,
        append_assoc]
      rfl

theorem yearlyLoop_eq {ms : List Nat} {interval : Int} {n : Nat} (hout : out.length ≤ cap) :
    yearlyLoop tz rule ms originalDay cap start time interval n year out =
      (out ++ (years interval n year).flatMap (fun y =>
        ms.flatMap (fun m => monthPicks tz rule originalDay start time (y, m)))).take cap := by
  induction n generalizing year out with
  | zero => rw [yearlyLoop, years, flatMap_nil, append_nil, take_of_length_le hout]
  | succ n ih =>
    rw [yearlyLoop]
    split
    · rename_i hcap
      rw [take_append_of_le_length hcap, take_of_length_le hout]
    · rw [pushMonths_picks hout, years, flatMap_cons]
      split
      · rw [ih (length_take_le _ _), take_take_append, append_assoc]
      · rw [flatMap_nil, append_nil]

end Months

/-! ## The expanders -/

section Expanders

variable {tz : TimeZone} {rule : Rrule} {start : Int}

theorem expandDaily_eq (h : spanOk rule.interval) : expandDaily tz start rule =
      .ok (((visits tz rule.interval rruleMaxSteps start).filter
        (onDay tz (rule.byday.map (·.day)))).take (instanceCap rule 800)) :=
  (dailyLoop_eq h (Nat.zero_le _)).trans (by rw [nil_append])

theorem expandWeekly_eq (h : spanOk (wrapI64 (rule.interval * 7))) : expandWeekly tz start rule =
      .ok (if rule.byday = [] then
          (visits tz (wrapI64 (rule.interval * 7)) rruleMaxSteps start).take (instanceCap rule 800)
        else ((visits tz (wrapI64 (rule.interval * 7)) rruleMaxSteps
          (startOfWeek tz start (rule.wkst.getD .monday))).flatMap
          (weekPicks tz start (weekDays rule (rule.wkst.getD .monday)))).take (instanceCap rule 800)) := by
  unfold expandWeekly
  split
  · have hall : ∀ l : List Int, l.filter (onDay tz []) = l := fun l =>
      filter_eq_self.mpr (fun t _ => by simp [onDay])
    rw [dailyLoop_eq h (Nat.zero_le _), hall, nil_append]
  · rw [weeklyLoop_eq h (Nat.zero_le _), nil_append]

theorem expandMonthly_eq {dt : DateTime} (hdt : naive tz start = some dt) : expandMonthly tz start rule =
      ((months rule.interval rruleMaxSteps (ymdOf dt).year (ymdOf dt).month).flatMap
        (monthPicks tz rule (ymdOf dt).day start dt.time)).take (instanceCap rule 800) := by
  rw [expandMonthly, hdt]
  exact (monthlyLoop_eq (Nat.zero_le _)).trans (by rw [nil_append])

def yearMonths (rule : Rrule) (dt : DateTime) : List Nat :=
  if rule.bymonth = [] then [(ymdOf dt).month] else rule.bymonth

def yearInterval (rule : Rrule) : Int := if inI32 rule.interval then rule.interval else 1

theorem expandYearly_eq {dt : DateTime} (hdt : naive tz start = some dt) : expandYearly tz start rule =
      ((years (yearInterval rule) yearlyMaxSteps (ymdOf dt).year).flatMap (fun y =>
        (yearMonths rule dt).flatMap (fun m =>
          monthPicks tz rule (ymdOf dt).day start dt.time (y, m)))).take (instanceCap rule 200) := by
  rw [expandYearly, hdt, yearMonths, yearInterval]
  exact (yearlyLoop_eq (Nat.zero_le _)).trans (by rw [nil_append])

end Expanders

end Ratatoskr.Calendar

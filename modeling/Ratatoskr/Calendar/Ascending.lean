import Ratatoskr.Calendar.Weeks

/-!
# Calendar.Ascending

When the starts of a rule come in their order. The loops that emit instances and the cap both rely on it: they
stop at the first start that is too late, and keep the first ones.

* `OnWeeks`, `OnMonths`, `OnYears` : the dates that a rule stands for.
* `expandMonthly_dates`, `expandYearly_dates` : the starts are those on the dates that the walk picks.
* `starts_ascend` : which rules have their starts in order.
-/

namespace Ratatoskr.Calendar

open List
open Lib (Ymd Weekday weekday toDays ofDays)

def OnWeeks (rule : Rrule) (d0 d : Int) : Prop :=
  weekStart d0 (rule.wkst.getD .monday) ≤ d ∧
  (weekStart d (rule.wkst.getD .monday) - weekStart d0 (rule.wkst.getD .monday)) % (rule.interval * 7) = 0 ∧
  weekday d ∈ rule.byday.map (·.day)

def monthNumber (d : Int) : Int := 12 * (ofDays d).year + (ofDays d).month - 1

def OnMonths (rule : Rrule) (d0 d : Int) : Prop :=
  monthNumber d0 ≤ monthNumber d ∧ (monthNumber d - monthNumber d0) % rule.interval = 0 ∧
  PicksDate rule (ofDays d0).day d

def OnYears (rule : Rrule) (d0 d : Int) : Prop :=
  (ofDays d0).year ≤ (ofDays d).year ∧ ((ofDays d).year - (ofDays d0).year) % yearInterval rule = 0 ∧
  (ofDays d).month ∈ (if rule.bymonth = [] then [(ofDays d0).month] else rule.bymonth) ∧
  PicksDate rule (ofDays d0).day d

section Dates

variable {tz : TimeZone} {start : Int} {rule : Rrule}

def startDate (tz : TimeZone) (start : Int) : Int := tz.reading start / daySeconds

theorem year_bounds {d : Int} (h0 : -4400000 ≤ d) (h1 : d ≤ 4400000) :
    -13000 ≤ (ofDays d).year ∧ (ofDays d).year ≤ 15000 := by
  obtain ⟨hm0, hm11, -, hlast, -⟩ := Lib.daysBeforeMonth_next (Lib.valid_ofDays d)
  have hsum := Lib.toDays_ofDays d
  have hmonth : 0 ≤ Lib.daysBeforeMonth (Lib.marchMonth (ofDays d).year (ofDays d).month).2 := by
    unfold Lib.daysBeforeMonth
    omega
  have hyear : (Lib.marchMonth (ofDays d).year (ofDays d).month).1 = (ofDays d).year ∨
      (Lib.marchMonth (ofDays d).year (ofDays d).month).1 = (ofDays d).year - 1 := by
    unfold Lib.marchMonth
    split
    · exact .inr rfl
    · exact .inl rfl
  unfold toDays Lib.daysBeforeYear at hsum
  omega

theorem start_year (hz : tz.Stepwise) (hstart : (instant start).isSome) :
    -13000 ≤ (ofDays (startDate tz start)).year ∧ (ofDays (startDate tz start)).year ≤ 15000 := by
  obtain ⟨t, ht⟩ := Option.isSome_iff_exists.mp hstart
  have hwithin := within_instant ht
  rw [instant_eq_some ht] at hwithin
  have hoff := hz.bounded start
  unfold Within at hwithin
  unfold startDate TimeZone.reading daySeconds
  exact year_bounds (by omega) (by omega)

theorem start_inI32 (hz : tz.Stepwise) (hstart : (instant start).isSome) :
    inI32 (ofDays (startDate tz start)).year := by
  have := start_year hz hstart
  unfold inI32
  omega

theorem expandMonthly_dates (hstart : (instant start).isSome) : expandMonthly tz start rule =
      (startsOn tz start ((months rule.interval rruleMaxSteps (ofDays (startDate tz start)).year
        (ofDays (startDate tz start)).month).flatMap
          (pickedDates rule (ofDays (startDate tz start)).day))).take (instanceCap rule 800) := by
  rw [expandMonthly_eq (naive_reading tz hstart), startsOn_flatMap]
  congr 1
  exact flatMap_congr (fun m _ => monthPicks_eq m)

/-- The months that a yearly walk comes to, in its order. -/
def yearWalk (tz : TimeZone) (start : Int) (rule : Rrule) : List (Int × Nat) :=
  (years (yearInterval rule) yearlyMaxSteps (ofDays (startDate tz start)).year).flatMap
    (fun y => (yearMonths rule (tz.reading start)).map (fun m => (y, m)))

theorem expandYearly_dates (hstart : (instant start).isSome) : expandYearly tz start rule =
      (startsOn tz start ((yearWalk tz start rule).flatMap
        (pickedDates rule (ofDays (startDate tz start)).day))).take (instanceCap rule 200) := by
  rw [expandYearly_eq (naive_reading tz hstart), startsOn_flatMap, yearWalk, flatMap_assoc]
  congr 1
  refine flatMap_congr (fun y _ => ?_)
  rw [flatMap_map]
  exact flatMap_congr (fun m _ => monthPicks_eq (y, m))

theorem yearInterval_pos (hpos : 1 ≤ rule.interval) : 1 ≤ yearInterval rule := by
  unfold yearInterval
  split
  · exact hpos
  · exact Int.le_refl 1

theorem yearMonths_range (hread : RuleRead rule) (dt : DateTime) :
    ∀ m ∈ yearMonths rule dt, 1 ≤ m ∧ m ≤ 12 := by
  intro m hm
  unfold yearMonths at hm
  split at hm
  · rw [mem_singleton.mp hm]
    exact ⟨(Lib.valid_ofDays _).month_pos, (Lib.valid_ofDays _).month_le⟩
  · exact hread.months m hm

theorem yearWalk_ascend (hz : tz.Stepwise) (hstart : (instant start).isSome) (hread : RuleRead rule)
    (hmonths : rule.bymonth.Pairwise (· < ·)) : (yearWalk tz start rule).Pairwise MonthBefore := by
  obtain ⟨n, hn⟩ : ∃ n, yearlyMaxSteps = n + 1 := ⟨79999, rfl⟩
  have hrange := yearMonths_range hread (tz.reading start)
  have hms : (yearMonths rule (tz.reading start)).Pairwise (· < ·) := by
    unfold yearMonths
    split
    · exact pairwise_singleton _ _
    · exact hmonths
  unfold yearWalk
  refine pairwise_flatMap.mpr ⟨fun y _ => pairwise_map.mpr (hms.imp ?_), ?_⟩
  · intro a b hab
    unfold MonthBefore
    omega
  · refine (years_ascend (yearInterval_pos hread.interval_pos) (start_inI32 hz hstart)).imp ?_
    intro y y' hy a ha b hb
    obtain ⟨m, hm, rfl⟩ := mem_map.mp ha
    obtain ⟨m', hm', rfl⟩ := mem_map.mp hb
    have h1 := hrange m hm
    have h2 := hrange m' hm'
    unfold MonthBefore
    omega

theorem onMonths_of_walk (hz : tz.Stepwise) (hstart : (instant start).isSome) (hpos : 1 ≤ rule.interval)
    (hfit : CursorFits rule.interval) {d : Int}
    (h : d ∈ (months rule.interval rruleMaxSteps (ofDays (startDate tz start)).year
      (ofDays (startDate tz start)).month).flatMap (pickedDates rule (ofDays (startDate tz start)).day)) :
    OnMonths rule (startDate tz start) d := by
  obtain ⟨m, hm, hd⟩ := mem_flatMap.mp h
  obtain ⟨hy, hmonth, -, -, hpick⟩ := mem_pickedDates.mp hd
  have hvalid := Lib.valid_ofDays (startDate tz start)
  obtain ⟨⟨k, -, hk⟩, -⟩ :=
    (mem_months hpos hfit (start_inI32 hz hstart) hvalid.month_pos hvalid.month_le).mp hm
  have hnumber : monthNumber d = monthNumber (startDate tz start) + k * rule.interval := by
    have hfst : (12 * (ofDays (startDate tz start)).year + (ofDays (startDate tz start)).month - 1 +
        (k : Int) * rule.interval) / 12 = m.1 := congrArg Prod.fst hk
    have hsnd : ((12 * (ofDays (startDate tz start)).year + (ofDays (startDate tz start)).month - 1 +
        (k : Int) * rule.interval) % 12 + 1).toNat = m.2 := congrArg Prod.snd hk
    unfold monthNumber
    omega
  have hnonneg : 0 ≤ (k : Int) * rule.interval := Int.mul_nonneg (by omega) (by omega)
  refine ⟨by omega, ?_, hpick⟩
  rw [hnumber, add_sub_cancel_left]
  exact Int.mul_emod_left _ _

theorem onYears_of_walk (hz : tz.Stepwise) (hstart : (instant start).isSome) (hpos : 1 ≤ rule.interval)
    {d : Int}
    (h : d ∈ (yearWalk tz start rule).flatMap (pickedDates rule (ofDays (startDate tz start)).day)) :
    OnYears rule (startDate tz start) d := by
  obtain ⟨n, hn⟩ : ∃ n, yearlyMaxSteps = n + 1 := ⟨79999, rfl⟩
  obtain ⟨m, hm, hd⟩ := mem_flatMap.mp h
  obtain ⟨y, hy, hm⟩ := mem_flatMap.mp hm
  obtain ⟨month, hmonth, rfl⟩ := mem_map.mp hm
  obtain ⟨hyear, hmon, -, -, hpick⟩ := mem_pickedDates.mp hd
  obtain ⟨⟨k, -, hk⟩, -⟩ := (mem_years (yearInterval_pos hpos) (start_inI32 hz hstart)).mp hy
  have hnonneg : 0 ≤ (k : Int) * yearInterval rule :=
    Int.mul_nonneg (by omega) (Int.le_trans (by decide) (yearInterval_pos hpos))
  refine ⟨by omega, ?_, ?_, hpick⟩
  · rw [hyear, ← hk, add_sub_cancel_left]
    exact Int.mul_emod_left _ _
  · rw [hmon]
    exact hmonth

theorem onWeeks_of_walk (hpos : 1 ≤ rule.interval) {n : Nat} {d : Int} (h : d ∈ weeksDates tz start rule n) :
    OnWeeks rule (startDate tz start) d := by
  obtain ⟨k, -, hk⟩ := mem_flatMap.mp h
  obtain ⟨h0, h1, hwd⟩ := mem_weekDates.mp hk
  have hnonneg : 0 ≤ (k : Int) * (rule.interval * 7) := Int.mul_nonneg (by omega) (by omega)
  have hfirst : firstWeek tz start rule = weekStart (startDate tz start) (rule.wkst.getD .monday) := rfl
  have hweek : weekStart d (rule.wkst.getD .monday) = firstWeek tz start rule + k * (rule.interval * 7) := by
    have hanchor := offset_weekday (firstWeek tz start rule)
    rw [hfirst, weekday_weekStart] at hanchor
    have hseven : (k : Int) * (rule.interval * 7) = 7 * (k * rule.interval) := by ring
    unfold weekStart weekBack at *
    rw [offset_weekday]
    omega
  refine ⟨by omega, ?_, hwd⟩
  rw [hweek, hfirst, add_sub_cancel_left]
  exact Int.mul_emod_left _ _

end Dates

/-! ## Starts in order -/

/-- A zone whose only transition is by less than a day brings all dates in their order. -/
theorem inOrder_shifting (name : Option String) (t : Int) {before after : Int} (hb : before - after < 86400)
    (ha : after - before < 86400) (time : Int) (P : Int → Prop) :
    InOrder (TimeZone.shifting name t before after) time P := by
  intro d e _ _ hde
  simp only [TimeZone.shifting, Date.toDateTime, daySeconds]
  split <;> split <;> omega

/-- What puts the starts of a rule in order: months and weekdays that come in their order, cursors that
go on, and a
zone that brings the dates of the rule in their order. -/
def Ascends (tz : TimeZone) (start : Int) (rule : Rrule) : Freq → Prop
  | .daily => Onward tz start
  | .weekly =>
    if rule.byday = [] then Onward tz start ∧ 1 ≤ wrapI64 (rule.interval * 7)
    else
      Onward tz start ∧ (rule.byday.map (·.day)).Nodup ∧ fitsI64 (rule.interval * 7) ∧ WeeksHold tz start rule ∧
      InOrder tz (tz.reading start % daySeconds) (OnWeeks rule (startDate tz start))
  | .monthly =>
    CursorFits rule.interval ∧ InOrder tz (tz.reading start % daySeconds) (OnMonths rule (startDate tz start))
  | .yearly =>
    rule.bymonth.Pairwise (· < ·) ∧
    InOrder tz (tz.reading start % daySeconds) (OnYears rule (startDate tz start))

section Order

variable {tz : TimeZone} {start : Int} {rule : Rrule}

theorem takeWhile_of_ascend {l : List Int} (h : l.Pairwise (· < ·)) (windowEnd : Int) :
    l.takeWhile (fun t => t ≤ windowEnd) = l.filter (fun t => t ≤ windowEnd) := by
  refine takeWhile_eq_filter (h.imp ?_)
  intro a b hab hb
  have hb := of_decide_eq_true hb
  exact decide_eq_true (by omega)

theorem ascend_take {l : List Int} {cap : Nat} (h : l.Pairwise (· < ·)) (hge : ∀ t ∈ l, start ≤ t) :
    (l.take cap).Pairwise (· < ·) ∧ ∀ t ∈ l.take cap, start ≤ t :=
  ⟨h.sublist (take_sublist _ _), fun t ht => hge t (mem_of_mem_take ht)⟩

theorem ascend_daily (hz : tz.Stepwise) (hon : Onward tz start) {days : Int} (hdays : 1 ≤ days)
    {bydayFilter : List Weekday} {cap : Nat} :
    (((visits tz days rruleMaxSteps start).filter (onDay tz bydayFilter)).take cap).Pairwise (· < ·) ∧
    ∀ t ∈ ((visits tz days rruleMaxSteps start).filter (onDay tz bydayFilter)).take cap, start ≤ t := by
  obtain ⟨hpair, hge⟩ := visits_ascend hz hon hdays (n := rruleMaxSteps) (Int.le_refl start)
  exact ascend_take (hpair.filter _) (fun t ht => hge t (mem_of_mem_filter ht))

theorem ascend_startsOn {P : Int → Prop} (horder : InOrder tz (tz.reading start % daySeconds) P)
    {dates : List Int} (hdates : dates.Pairwise (· < ·)) (hP : ∀ d ∈ dates, P d) {cap : Nat} :
    ((startsOn tz start dates).take cap).Pairwise (· < ·) ∧
      ∀ t ∈ (startsOn tz start dates).take cap, start ≤ t :=
  ascend_take (startsOn_ascend horder hdates hP) (fun _ ht => (mem_startsOn.mp ht).2)

theorem candidates_ascend (hz : tz.Stepwise) (hstart : (instant start).isSome) (hread : RuleRead rule)
    {freq : Freq} (h : Ascends tz start rule freq) {starts : List Int}
    (hstarts : candidateStarts tz freq start rule = .ok starts) :
    starts.Pairwise (· < ·) ∧ ∀ t ∈ starts, start ≤ t := by
  have hpos := hread.interval_pos
  cases freq with
  | daily =>
    rw [candidateStarts] at hstarts
    rw [expandDaily_eq (span_of_daily hstart hstarts)] at hstarts
    cases hstarts
    exact ascend_daily hz h hpos
  | weekly =>
    rw [candidateStarts] at hstarts
    have hspan : spanOk (wrapI64 (rule.interval * 7)) := span_of_expandWeekly hstart hstarts
    unfold Ascends at h
    by_cases hby : rule.byday = []
    · rw [if_pos hby] at h
      rw [expandWeekly_eq hspan, if_pos hby] at hstarts
      cases hstarts
      obtain ⟨hpair, hge⟩ := visits_ascend hz h.1 h.2 (n := rruleMaxSteps) (Int.le_refl start)
      exact ascend_take hpair hge
    · rw [if_neg hby] at h
      obtain ⟨hon, hnodup, hfits, hweeks, horder⟩ := h
      rw [wrapI64_of_fits hfits] at hspan
      rw [expandWeekly_weeks hz hstart hon hpos hspan hby hweeks] at hstarts
      cases hstarts
      exact ascend_startsOn horder (weeksDates_ascend hnodup hpos _) (fun d hd => onWeeks_of_walk hpos hd)
  | monthly =>
    rw [candidateStarts, expandMonthly_dates hstart] at hstarts
    cases hstarts
    have hvalid := Lib.valid_ofDays (startDate tz start)
    exact ascend_startsOn h.2 (flatMap_ascend (months_ascend hpos h.1 (start_inI32 hz hstart) hvalid.month_pos
      hvalid.month_le)) (fun d hd => onMonths_of_walk hz hstart hpos h.1 hd)
  | yearly =>
    rw [candidateStarts, expandYearly_dates hstart] at hstarts
    cases hstarts
    exact ascend_startsOn h.2 (flatMap_ascend (yearWalk_ascend hz hstart hread h.1))
      (fun d hd => onYears_of_walk hz hstart hpos hd)

end Order

end Ratatoskr.Calendar

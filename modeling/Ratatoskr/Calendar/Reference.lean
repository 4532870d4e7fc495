import Ratatoskr.Calendar.Ascending

/-!
# Calendar.Reference

The starts of weekly and monthly rules against what the rules mean: the dates of the calendar that meet a
predicate, at the clock time of DTSTART.

* `referenceStarts` : the starts on the dates of the calendar with a predicate.
* `weekly_reference`, `monthly_reference` : the walks give them, up to the cap.
* `expand_reference` : both, for parsed rules.
-/

namespace Ratatoskr.Calendar

open List
open Lib (Ymd Weekday weekday toDays ofDays)

def calendarDates : List Int := (List.range (Date.max - Date.min + 1).toNat).map (fun i : Nat => Date.min + i)

theorem mem_calendarDates {d : Int} : d ∈ calendarDates ↔ Date.min ≤ d ∧ d ≤ Date.max := by
  unfold calendarDates
  rw [mem_map]
  constructor
  · rintro ⟨i, hi, rfl⟩
    have hi := mem_range.mp hi
    simp only [Date] at *
    omega
  · intro h
    refine ⟨(d - Date.min).toNat, mem_range.mpr ?_, ?_⟩
    · simp only [Date] at *
      omega
    · simp only [Date] at *
      omega

theorem calendarDates_ascend : calendarDates.Pairwise (· < ·) := by
  refine pairwise_map.mpr (List.pairwise_lt_range.imp ?_)
  intro i j hij
  omega

/-- The starts on the dates of the calendar that the predicate holds of. -/
def referenceStarts (tz : TimeZone) (start : Int) (P : Int → Prop) [DecidablePred P] : List Int :=
  startsOn tz start (calendarDates.filter P)

instance (rule : Rrule) (d0 d : Int) : Decidable (OnWeeks rule d0 d) := inferInstanceAs (Decidable (_ ∧ _))

instance (rule : Rrule) (d0 d : Int) : Decidable (OnMonths rule d0 d) := inferInstanceAs (Decidable (_ ∧ _))

section Split

variable {tz : TimeZone} {start : Int} {P : Int → Prop} [DecidablePred P]

theorem dates_eq {l : List Int} (hl : l.Pairwise (· < ·)) {Q : Int → Prop} [DecidablePred Q]
    (hmem : ∀ d, d ∈ l ↔ (Date.min ≤ d ∧ d ≤ Date.max) ∧ Q d) : l = calendarDates.filter Q := by
  refine hl.eq_of_mem_iff (calendarDates_ascend.filter _) ?_
  intro d
  rw [hmem d, mem_filter, mem_calendarDates, decide_eq_true_iff]

theorem filter_split {l : List Int} (hl : l.Pairwise (· < ·)) (f : Int → Int)
    (hf : ∀ d e, d ∈ l → e ∈ l → d < e → f d ≤ f e) (limit : Int) :
    l.filter P = l.filter (fun d => P d ∧ f d < limit) ++ l.filter (fun d => P d ∧ ¬ f d < limit) := by
  refine (hl.filter _).eq_of_mem_iff (pairwise_append.mpr ⟨hl.filter _, hl.filter _, ?_⟩) ?_
  · intro d hd e he
    obtain ⟨hdl, hd⟩ := mem_filter.mp hd
    obtain ⟨hel, he⟩ := mem_filter.mp he
    rw [decide_eq_true_iff] at hd he
    rcases Int.lt_trichotomy d e with h | h | h
    · exact h
    · rw [h] at hd
      exact absurd hd.2 he.2
    · have := hf e d hel hdl h
      omega
  · intro d
    rw [mem_append, mem_filter, mem_filter, mem_filter]
    simp only [decide_eq_true_eq]
    constructor
    · rintro ⟨hd, hP⟩
      by_cases hlt : f d < limit
      · exact .inl ⟨hd, hP, hlt⟩
      · exact .inr ⟨hd, hP, hlt⟩
    · rintro (⟨hd, hP, -⟩ | ⟨hd, hP, -⟩)
      · exact ⟨hd, hP⟩
      · exact ⟨hd, hP⟩

/-- Dates up to a limit give the reference starts if there are none after it, or enough before it. -/
theorem reference_of_limit {dates : List Int} (hdates : dates.Pairwise (· < ·)) (f : Int → Int)
    (hf : ∀ d e, Date.min ≤ d → e ≤ Date.max → d < e → f d ≤ f e) (limit : Int) {cap : Nat}
    (hmem : ∀ d, d ∈ dates ↔ (Date.min ≤ d ∧ d ≤ Date.max) ∧ P d ∧ f d < limit)
    (henough : (∀ d, Date.min ≤ d → d ≤ Date.max → f d < limit) ∨ cap ≤ (startsOn tz start dates).length) :
    (startsOn tz start dates).take cap = (referenceStarts tz start P).take cap := by
  have hsplit : referenceStarts tz start P =
      startsOn tz start dates ++ startsOn tz start (calendarDates.filter (fun d => P d ∧ ¬ f d < limit)) := by
    unfold referenceStarts
    rw [filter_split calendarDates_ascend f (fun d e hd he => hf d e (mem_calendarDates.mp hd).1
      (mem_calendarDates.mp he).2) limit, startsOn_append, dates_eq hdates hmem]
  rw [hsplit]
  rcases henough with hall | hlen
  · have hnil : calendarDates.filter (fun d => P d ∧ ¬ f d < limit) = [] := by
      refine filter_eq_nil_iff.mpr (fun d hd => ?_)
      have hd := mem_calendarDates.mp hd
      simp only [decide_eq_true_eq]
      exact fun h => h.2 (hall d hd.1 hd.2)
    rw [hnil]
    exact congrArg (List.take cap) (append_nil _).symm
  · exact (take_append_of_le_length hlen).symm

end Split

section Weeks

variable {tz : TimeZone} {start : Int} {rule : Rrule}

theorem mem_weeksDates (hpos : 1 ≤ rule.interval) {n : Nat} {d : Int} : d ∈ weeksDates tz start rule n ↔
      OnWeeks rule (startDate tz start) d ∧ d < firstWeek tz start rule + n * (rule.interval * 7) := by
  constructor
  · intro h
    refine ⟨onWeeks_of_walk hpos h, ?_⟩
    obtain ⟨k, hk, hd⟩ := mem_flatMap.mp h
    have hk := mem_range.mp hk
    obtain ⟨-, h1, -⟩ := mem_weekDates.mp hd
    have hle : ((k : Int) + 1) * (rule.interval * 7) ≤ n * (rule.interval * 7) :=
      Int.mul_le_mul_of_nonneg_right (by omega) (by omega)
    have hsum : ((k : Int) + 1) * (rule.interval * 7) = k * (rule.interval * 7) + rule.interval * 7 := by ring
    omega
  · rintro ⟨⟨hlow, hweek, hwd⟩, hlt⟩
    have hfirst : firstWeek tz start rule = weekStart (startDate tz start) (rule.wkst.getD .monday) := rfl
    have hback := weekBack_range d (rule.wkst.getD .monday)
    obtain ⟨q, hq⟩ := Int.dvd_of_emod_eq_zero hweek
    have hstart : weekStart d (rule.wkst.getD .monday) = firstWeek tz start rule + q * (rule.interval * 7) := by
      rw [Int.mul_comm] at hq
      omega
    have hq0 : 0 ≤ q := by
      by_contra hneg
      have hle : q * (rule.interval * 7) ≤ -1 * (rule.interval * 7) :=
        Int.mul_le_mul_of_nonneg_right (by omega) (by omega)
      unfold weekStart at hstart
      omega
    have hqn : q < n := by
      by_contra hge
      have hle : (n : Int) * (rule.interval * 7) ≤ q * (rule.interval * 7) :=
        Int.mul_le_mul_of_nonneg_right (by omega) (by omega)
      unfold weekStart at hstart
      omega
    refine mem_flatMap.mpr ⟨q.toNat, mem_range.mpr (by omega), mem_weekDates.mpr ?_⟩
    rw [Int.toNat_of_nonneg hq0, ← hstart]
    unfold weekStart
    exact ⟨by omega, by omega, hwd⟩

theorem weekCount_eq (hread : RuleRead rule) : weekCount rule = instanceCap rule 800 + 1 := by
  have hcap : instanceCap rule 800 ≤ 10000 := by
    unfold instanceCap rruleMaxCount
    split
    · rename_i n hn
      have := hread.count_le n hn
      unfold rruleMaxCount at this
      omega
    · split
      · exact Nat.le_refl _
      · decide
  unfold weekCount rruleMaxSteps
  omega

theorem weekly_reference (hz : tz.Stepwise) (hstart : (instant start).isSome) (hread : RuleRead rule)
    (hon : Onward tz start) (hspan : rule.interval * 7 ≤ spanLimit) (hby : rule.byday ≠ [])
    (hnodup : (rule.byday.map (·.day)).Nodup) (hweeks : WeeksHold tz start rule) :
    expandWeekly tz start rule =
      .ok ((referenceStarts tz start (OnWeeks rule (startDate tz start))).take (instanceCap rule 800)) := by
  have hpos := hread.interval_pos
  have hcount := weekCount_eq hread
  rw [expandWeekly_weeks hz hstart hon hpos ((spanOk_of_pos (by omega)).mpr hspan) hby hweeks]
  refine congrArg Except.ok ?_
  refine reference_of_limit (weeksDates_ascend hnodup hpos _) id (fun d e _ _ h => Int.le_of_lt h)
    (firstWeek tz start rule + weekCount rule * (rule.interval * 7)) ?_ (.inr ?_)
  · intro d
    rw [mem_weeksDates hpos]
    refine ⟨fun h => ⟨?_, h⟩, fun h => h.2⟩
    obtain ⟨k, hk, hd⟩ := mem_flatMap.mp ((mem_weeksDates hpos).mpr h)
    obtain ⟨h0, h1, -⟩ := mem_weekDates.mp hd
    obtain ⟨hmin, hmax⟩ := (hweeks k (mem_range.mp hk)).inCalendar
    exact ⟨le_trans hmin h0, le_trans (by omega) hmax⟩
  · rw [weeksDates, startsOn_flatMap, hcount]
    refine le_length_flatMap (fun k h0 h1 => ?_)
    exact week_nonempty hz hon hpos hby h0 (hweeks k (by omega))

end Weeks

/-! ## Months -/

section Months

variable {tz : TimeZone} {start : Int} {rule : Rrule}

theorem monthNumber_mono {d e : Int} (h : d < e) : monthNumber d ≤ monthNumber e := by
  by_contra hlt
  have := date_lt (d := e) (e := d) (by unfold monthNumber at hlt; omega)
  omega

theorem year_range (d : Int) :
    (-9999 ≤ (ofDays d).year ∧ (ofDays d).year ≤ 9999) ↔ Date.min ≤ d ∧ d ≤ Date.max := by
  have hvalid := Lib.valid_ofDays d
  constructor
  · rintro ⟨h0, h1⟩
    have hciv := (civilRange_iff d).mp (civilDate_range (civilDate_of_date h0 h1))
    have hmin : Date.min = -4371587 := by decide
    have hmax : Date.max = 2932896 := by decide
    exact hciv
  · rintro ⟨h0, h1⟩
    have hm0 := hvalid.month_pos
    have hm1 := hvalid.month_le
    refine ⟨?_, ?_⟩
    · by_contra hlt
      have hbefore := Lib.toDays_lt (e := ⟨-9999, 1, 1⟩) hvalid ⟨by decide, by decide, by decide, by decide⟩
        (by unfold Ymd.monthIndex; simp only; omega)
      rw [Lib.toDays_ofDays] at hbefore
      exact absurd (lt_of_lt_of_le hbefore h0) (lt_irrefl _)
    · by_contra hgt
      have hafter := Lib.toDays_lt (d := ⟨9999, 12, 31⟩) ⟨by decide, by decide, by decide, by decide⟩ hvalid
        (by unfold Ymd.monthIndex; simp only; omega)
      rw [Lib.toDays_ofDays] at hafter
      exact absurd (lt_of_le_of_lt h1 hafter) (lt_irrefl _)

def monthsDates (tz : TimeZone) (start : Int) (rule : Rrule) : List Int :=
  (months rule.interval rruleMaxSteps (ofDays (startDate tz start)).year
    (ofDays (startDate tz start)).month).flatMap
    (pickedDates rule (ofDays (startDate tz start)).day)

/-- The first month that a monthly walk does not come to. -/
def monthLimit (tz : TimeZone) (start : Int) (rule : Rrule) : Int :=
  monthNumber (startDate tz start) + rruleMaxSteps * rule.interval

theorem mem_monthsDates (hz : tz.Stepwise) (hstart : (instant start).isSome) (hpos : 1 ≤ rule.interval)
    (hfit : CursorFits rule.interval) {d : Int} :
    d ∈ monthsDates tz start rule ↔ (Date.min ≤ d ∧ d ≤ Date.max) ∧ OnMonths rule (startDate tz start) d ∧
      monthNumber d < monthLimit tz start rule := by
  have hvalid := Lib.valid_ofDays (startDate tz start)
  have hyear := start_inI32 hz hstart
  constructor
  · intro h
    have hon := onMonths_of_walk hz hstart hpos hfit h
    obtain ⟨m, hm, hd⟩ := mem_flatMap.mp h
    obtain ⟨hy, hmon, h0, h1, -⟩ := mem_pickedDates.mp hd
    obtain ⟨⟨k, hk, hat⟩, -⟩ := (mem_months hpos hfit hyear hvalid.month_pos hvalid.month_le).mp hm
    refine ⟨(year_range d).mp ⟨by omega, by omega⟩, hon, ?_⟩
    have hfst : (12 * (ofDays (startDate tz start)).year + (ofDays (startDate tz start)).month - 1 +
        (k : Int) * rule.interval) / 12 = m.1 := congrArg Prod.fst hat
    have hsnd : ((12 * (ofDays (startDate tz start)).year + (ofDays (startDate tz start)).month - 1 +
        (k : Int) * rule.interval) % 12 + 1).toNat = m.2 := congrArg Prod.snd hat
    have hlt : (k : Int) * rule.interval < rruleMaxSteps * rule.interval :=
      Int.mul_lt_mul_of_pos_right (by omega) (by omega)
    unfold monthLimit monthNumber
    omega
  · rintro ⟨hrange, ⟨hlow, hmod, hpick⟩, hlt⟩
    have hcal := (year_range d).mpr hrange
    have hdvalid := Lib.valid_ofDays d
    obtain ⟨q, hq⟩ := Int.dvd_of_emod_eq_zero hmod
    have hnumber : monthNumber d = monthNumber (startDate tz start) + q * rule.interval := by
      rw [Int.mul_comm] at hq
      omega
    have hq0 : 0 ≤ q := by
      by_contra hneg
      have hle : q * rule.interval ≤ -1 * rule.interval := Int.mul_le_mul_of_nonneg_right (by omega) (by omega)
      omega
    have hqn : q < rruleMaxSteps := by
      by_contra hge
      have hle : (rruleMaxSteps : Int) * rule.interval ≤ q * rule.interval :=
        Int.mul_le_mul_of_nonneg_right (by omega) (by omega)
      unfold monthLimit at hlt
      omega
    have hat : monthAt (monthNumber d) = ((ofDays d).year, (ofDays d).month) :=
      monthAt_index hdvalid.month_pos hdvalid.month_le
    refine mem_flatMap.mpr ⟨((ofDays d).year, (ofDays d).month), ?_,
      mem_pickedDates.mpr ⟨rfl, rfl, hcal.1, hcal.2, hpick⟩⟩
    refine (mem_months hpos hfit hyear hvalid.month_pos hvalid.month_le).mpr ⟨⟨q.toNat, by omega, ?_⟩, ?_⟩
    · rw [Int.toNat_of_nonneg hq0, ← hat, hnumber]
      rfl
    · unfold inI32
      omega

/-- A monthly rule gives its dates, up to the cap, if the steps of the walk are enough for them. -/
theorem monthly_reference (hz : tz.Stepwise) (hstart : (instant start).isSome) (hpos : 1 ≤ rule.interval)
    (hfit : CursorFits rule.interval)
    (henough : 12 * 9999 + 12 ≤ monthLimit tz start rule ∨
      instanceCap rule 800 ≤ (referenceStarts tz start (fun d => OnMonths rule (startDate tz start) d ∧
        monthNumber d < monthLimit tz start rule)).length) : expandMonthly tz start rule =
      (referenceStarts tz start (OnMonths rule (startDate tz start))).take (instanceCap rule 800) := by
  have hvalid := Lib.valid_ofDays (startDate tz start)
  have hascend : (monthsDates tz start rule).Pairwise (· < ·) :=
    flatMap_ascend (months_ascend hpos hfit (start_inI32 hz hstart) hvalid.month_pos hvalid.month_le)
  have hmem := fun d => mem_monthsDates hz hstart hpos hfit (d := d)
  rw [expandMonthly_dates hstart]
  refine reference_of_limit hascend monthNumber (fun d e _ _ h => monthNumber_mono h) _ hmem ?_
  rcases henough with hend | hlen
  · left
    intro d h0 h1
    have hcal := (year_range d).mpr ⟨h0, h1⟩
    have hmonth := (Lib.valid_ofDays d).month_le
    unfold monthNumber
    omega
  · right
    unfold referenceStarts at hlen
    rwa [← dates_eq hascend hmem] at hlen

end Months

/-- The weeks of a weekly rule are all clear, and its steps are spans. -/
structure WeeklyHolds (tz : TimeZone) (start : Int) (rule : Rrule) : Prop where
  onward : Onward tz start
  span : rule.interval * 7 ≤ spanLimit
  weeks : WeeksHold tz start rule

/-- The steps of a monthly rule go on, and are enough for its dates. -/
structure MonthlyHolds (tz : TimeZone) (start : Int) (rule : Rrule) : Prop where
  cursor : CursorFits rule.interval
  enough : 12 * 9999 + 12 ≤ monthLimit tz start rule ∨
    instanceCap rule 800 ≤ (referenceStarts tz start (fun d => OnMonths rule (startDate tz start) d ∧
      monthNumber d < monthLimit tz start rule)).length

theorem weekClear_utc {time a : Int} (h0 : 0 ≤ time) (h1 : time < daySeconds) (ha0 : -4371500 ≤ a)
    (ha1 : a ≤ 2932800) : WeekClear .utc time a := by
  have hmin : Date.min = -4371587 := by decide
  have hmax : Date.max = 2932896 := by decide
  have hday : daySeconds = 86400 := rfl
  have hres : ∀ (d s : Int), -4371500 ≤ d → d ≤ 2932806 → 0 ≤ s → s < daySeconds →
      resolve .utc (Date.toDateTime d s) = some (d * 86400 + s) := by
    intro d s hd0 hd1 hs0 hs1
    have hrange : -377705023201 ≤ d * 86400 + s ∧ d * 86400 + s ≤ 253402207200 := by omega
    exact if_pos hrange
  refine ⟨?_, ?_, ?_⟩
  · exact ⟨by simp only [Date] at *; omega, by simp only [Date] at *; omega⟩
  · intro s hs0 hs1
    refine ⟨_, hres a s ha0 (by omega) hs0 hs1, ?_⟩
    simp only [TimeZone.reading, TimeZone.utc, hday]
    omega
  · intro i hi0 hi1
    rw [hres (a + i) time (by omega) (by omega) h0 h1]
    rfl

end Ratatoskr.Calendar

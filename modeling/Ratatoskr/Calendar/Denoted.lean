import Ratatoskr.Calendar.Reference

/-!
# Calendar.Denoted

What the instances of a rule have to do with its BY parts: every instance is on a date that meets them, and of the
dates that do, none within two years is missing.

* `Denotes` : the dates that a rule stands for, with what it takes from DTSTART.
* `yearly_reference` : a yearly walk gives its dates, up to the cap.
* `horizon_dates` : the dates within two years of DTSTART, less than the default cap.
* `instances_denoted` : which rules are expanded to their dates.
-/

namespace Ratatoskr.Calendar

open List
open Lib (Ymd Weekday weekday toDays ofDays monthLength)

/-- The period of the date is a multiple of INTERVAL periods away from that of DTSTART. -/
def Aligned (rule : Rrule) (d0 d : Int) : Freq → Prop
  | .daily => (d - d0) % rule.interval = 0
  | .weekly => (weekStart d (rule.wkst.getD .monday) - weekStart d0 (rule.wkst.getD .monday)) %
      (rule.interval * 7) = 0
  | .monthly => (monthNumber d - monthNumber d0) % rule.interval = 0
  | .yearly => ((ofDays d).year - (ofDays d0).year) % rule.interval = 0

/-- What a rule without BY parts takes from DTSTART: the weekday, the day of the month, the month. -/
def Defaults (rule : Rrule) (d0 d : Int) : Freq → Prop
  | .daily => True
  | .weekly => rule.byday = [] → weekday d = weekday d0
  | .monthly => rule.byday = [] ∧ rule.bymonthday = [] → (ofDays d).day = (ofDays d0).day
  | .yearly => rule.byday = [] ∧ rule.bymonthday = [] →
      (ofDays d).day = (ofDays d0).day ∧ (rule.bymonth = [] → (ofDays d).month = (ofDays d0).month)

/-- A date from that of DTSTART on that the rule stands for. -/
structure Denotes (freq : Freq) (rule : Rrule) (d0 d : Int) : Prop where
  in_calendar : Date.min ≤ d ∧ d ≤ Date.max
  from_start : d0 ≤ d
  aligned : Aligned rule d0 d freq
  by_parts : SatisfiesBy freq rule d
  defaults : Defaults rule d0 d freq

instance (rule : Rrule) (d0 d : Int) : Decidable (OnYears rule d0 d) := inferInstanceAs (Decidable (_ ∧ _))

section Dates

variable {rule : Rrule} {d0 d : Int}

theorem picksDate_of_by {freq : Freq} (hfreq : freq = .monthly ∨ freq = .yearly) (h : SatisfiesBy freq rule d)
    (hdefault : rule.byday = [] ∧ rule.bymonthday = [] → (ofDays d).day = (ofDays d0).day) :
    PicksDate rule (ofDays d0).day d := by
  unfold PicksDate
  split
  · rename_i hnil
    exact hdefault hnil
  · refine ⟨fun hne => ?_, h.bymonthday⟩
    obtain ⟨b, hb, hwd, hord⟩ := h.byday hne
    exact ⟨b, hb, hwd, hord hfreq⟩

theorem by_of_picksDate {freq : Freq} {originalDay : Nat} (h : PicksDate rule originalDay d)
    (hmonth : rule.bymonth ≠ [] → (ofDays d).month ∈ rule.bymonth) : SatisfiesBy freq rule d := by
  unfold PicksDate at h
  split at h
  · rename_i hnil
    exact ⟨fun hne => absurd hnil.1 hne, fun hne => absurd hnil.2 hne, hmonth⟩
  · refine ⟨fun hne => ?_, h.2, hmonth⟩
    obtain ⟨b, hb, hwd, hord⟩ := h.1 hne
    exact ⟨b, hb, hwd, fun _ => hord⟩

theorem onWeeks_of_denotes (h : Denotes .weekly rule d0 d) (hby : rule.byday ≠ []) : OnWeeks rule d0 d := by
  obtain ⟨b, hb, hwd, -⟩ := h.by_parts.byday hby
  have hback := weekBack_range d0 (rule.wkst.getD .monday)
  have hfrom := h.from_start
  refine ⟨?_, h.aligned, mem_map.mpr ⟨b, hb, hwd.symm⟩⟩
  unfold weekStart
  omega

theorem onMonths_of_denotes (h : Denotes .monthly rule d0 d) : OnMonths rule d0 d := by
  refine ⟨?_, h.aligned, picksDate_of_by (.inl rfl) h.by_parts h.defaults⟩
  rcases Int.lt_or_eq_of_le h.from_start with hlt | heq
  · exact monthNumber_mono hlt
  · rw [heq]

theorem onYears_of_denotes (h : Denotes .yearly rule d0 d)
    (hmonths : rule.bymonth ≠ [] ∨ (rule.byday = [] ∧ rule.bymonthday = [])) : OnYears rule d0 d := by
  have hvalid := Lib.valid_ofDays d
  have hvalid0 := Lib.valid_ofDays d0
  refine ⟨?_, ?_, ?_, picksDate_of_by (.inr rfl) h.by_parts (fun hnil => (h.defaults hnil).1)⟩
  · have hnumber : monthNumber d0 ≤ monthNumber d := by
      rcases Int.lt_or_eq_of_le h.from_start with hlt | heq
      · exact monthNumber_mono hlt
      · rw [heq]
    have := hvalid.month_le
    have := hvalid0.month_pos
    unfold monthNumber at hnumber
    omega
  · have hal : ((ofDays d).year - (ofDays d0).year) % rule.interval = 0 := h.aligned
    unfold yearInterval
    split
    · exact hal
    · exact Int.emod_one _
  · split
    · rename_i hnil
      rcases hmonths with hne | hempty
      · exact absurd hnil hne
      · exact mem_singleton.mpr ((h.defaults hempty).2 hnil)
    · rename_i hne
      exact h.by_parts.bymonth hne

end Dates

section Years

variable {tz : TimeZone} {start : Int} {rule : Rrule}

def yearsDates (tz : TimeZone) (start : Int) (rule : Rrule) : List Int :=
  (yearWalk tz start rule).flatMap (pickedDates rule (ofDays (startDate tz start)).day)

theorem mem_yearsDates (hz : tz.Stepwise) (hstart : (instant start).isSome) (hpos : 1 ≤ rule.interval)
    {d : Int} :
    d ∈ yearsDates tz start rule ↔ (Date.min ≤ d ∧ d ≤ Date.max) ∧ OnYears rule (startDate tz start) d := by
  have hyear := start_inI32 hz hstart
  have hstep := yearInterval_pos hpos
  constructor
  · intro h
    refine ⟨?_, onYears_of_walk hz hstart hpos h⟩
    obtain ⟨m, -, hd⟩ := mem_flatMap.mp h
    obtain ⟨hy, -, h0, h1, -⟩ := mem_pickedDates.mp hd
    exact (year_range d).mp ⟨by omega, by omega⟩
  · rintro ⟨hrange, hfrom, hmod, hmonth, hpick⟩
    have hcal := (year_range d).mpr hrange
    obtain ⟨q, hq⟩ := Int.dvd_of_emod_eq_zero hmod
    rw [Int.mul_comm] at hq
    have hq0 : 0 ≤ q := by
      by_contra hneg
      have hle : q * yearInterval rule ≤ -1 * yearInterval rule :=
        Int.mul_le_mul_of_nonneg_right (by omega) (by omega)
      omega
    have hle : q * 1 ≤ q * yearInterval rule := Int.mul_le_mul_of_nonneg_left hstep hq0
    have hlow := start_year hz hstart
    obtain ⟨n, hn⟩ : ∃ n, yearlyMaxSteps = n + 1 := ⟨79999, rfl⟩
    have hsteps : (yearlyMaxSteps : Int) = 80000 := rfl
    refine mem_flatMap.mpr ⟨((ofDays d).year, (ofDays d).month), ?_,
      mem_pickedDates.mpr ⟨rfl, rfl, hcal.1, hcal.2, hpick⟩⟩
    refine mem_flatMap.mpr ⟨(ofDays d).year, ?_, mem_map.mpr ⟨(ofDays d).month, hmonth, rfl⟩⟩
    refine (mem_years hstep hyear).mpr ⟨⟨q.toNat, by omega, ?_⟩, ?_⟩
    · rw [Int.toNat_of_nonneg hq0]
      omega
    · unfold inI32
      omega

end Years

/-! ## The horizon -/

/-- The dates within two years of DTSTART are at most this many days after it, on any clock. -/
def horizonDays : Int := 733

section Horizon

variable {tz : TimeZone} {start : Int}

theorem toInstant_bounds (hz : tz.Stepwise) (dt : Int) :
    dt - 93599 ≤ tz.toInstant dt ∧ tz.toInstant dt ≤ dt + 93599 := by
  obtain ⟨u, hu⟩ := hz.toInstant_eq dt
  have hoff := hz.bounded u
  omega

theorem two_years {d e : Int} (h : civilDate ((ofDays d).year + 2) (ofDays d).month (ofDays d).day = some e) :
    e ≤ d + 731 := by
  have he := (civilDate_ymd h).2.1
  have hd := Lib.toDays_ofDays d
  rw [he]
  unfold toDays Lib.marchMonth Lib.daysBeforeYear Lib.daysBeforeMonth at *
  simp only at hd ⊢
  split at hd
  · rename_i hm
    rw [if_pos hm]
    omega
  · rename_i hm
    rw [if_neg hm]
    omega

theorem horizon_bound (hz : tz.Stepwise) (hstart : (instant start).isSome) :
    twoYearWindowEnd tz start ≤ tz.reading start + 731 * 86400 + 93599 := by
  unfold twoYearWindowEnd
  rw [naive_reading tz hstart, Option.bind_some]
  cases hr : (civilDate ((ymdOf (tz.reading start)).year + 2) (ymdOf (tz.reading start)).month
      (ymdOf (tz.reading start)).day).bind
        (fun d => resolve tz (d.toDateTime (DateTime.time (tz.reading start)))) with
  | none =>
    have hoff := hz.bounded start
    rw [Option.getD_none, TimeZone.reading]
    omega
  | some t =>
    obtain ⟨e, he, ht⟩ := Option.bind_eq_some_iff.mp hr
    have hle : (e : Int) ≤ startDate tz start + 731 := two_years he
    rw [Option.getD_some, instant_eq_some ht]
    have hbound := (toInstant_bounds hz (e.toDateTime (DateTime.time (tz.reading start)))).2
    simp only [Date.toDateTime, DateTime.time, startDate, daySeconds, Date] at *
    omega

theorem date_in_horizon (hz : tz.Stepwise) (hstart : (instant start).isSome) {d t : Int}
    (ht : resolve tz (Date.toDateTime d (tz.reading start % daySeconds)) = some t) (h0 : start ≤ t)
    (h1 : t ≤ twoYearWindowEnd tz start) :
    startDate tz start - 3 ≤ d ∧ d ≤ startDate tz start + horizonDays := by
  have hend := horizon_bound hz hstart
  have hbound := toInstant_bounds hz (Date.toDateTime d (tz.reading start % daySeconds))
  rw [← instant_eq_some ht] at hbound
  have hoff := hz.bounded start
  have hread : tz.reading start = start + tz.offset start := rfl
  simp only [Date.toDateTime, startDate, daySeconds, horizonDays] at *
  omega

theorem length_ascend {l : List Int} (hl : l.Pairwise (· < ·)) (lo hi : Int) (h : ∀ x ∈ l, lo ≤ x ∧ x < hi) :
    l.length ≤ (hi - lo).toNat := by
  induction l generalizing lo with
  | nil => exact Nat.zero_le _
  | cons a l ih =>
    obtain ⟨ha, hl⟩ := pairwise_cons.mp hl
    obtain ⟨hhead, htail⟩ := forall_mem_cons.mp h
    have := ih hl (a + 1) (fun x hx => ⟨ha x hx, (htail x hx).2⟩)
    rw [length_cons]
    omega

theorem length_horizon (hz : tz.Stepwise) (hstart : (instant start).isSome) {dates : List Int}
    (hdates : dates.Pairwise (· < ·)) :
    ((startsOn tz start dates).filter (fun t => t ≤ twoYearWindowEnd tz start)).length ≤ 737 := by
  have hlen : ∀ l : List Int, ((startsOn tz start l).filter (fun t => t ≤ twoYearWindowEnd tz start)).length ≤
      (l.filter (fun d => startDate tz start - 3 ≤ d ∧ d < startDate tz start + 734)).length := by
    intro l
    induction l with
    | nil => exact Nat.le_refl _
    | cons d l ih =>
      have hcons : startsOn tz start (d :: l) = startsOn tz start [d] ++ startsOn tz start l :=
        startsOn_append [d] l
      rw [hcons, filter_append, length_append, filter_cons]
      by_cases hin : startDate tz start - 3 ≤ d ∧ d < startDate tz start + 734
      · rw [if_pos (by simpa using hin), length_cons]
        have hone : ((startsOn tz start [d]).filter (fun t => t ≤ twoYearWindowEnd tz start)).length ≤ 1 := by
          refine le_trans (length_filter_le _ _) (le_trans (length_filter_le _ _) ?_)
          exact length_filterMap_le _ _
        omega
      · have hnone : (startsOn tz start [d]).filter (fun t => t ≤ twoYearWindowEnd tz start) = [] := by
          refine filter_eq_nil_iff.mpr (fun t ht hle => hin ?_)
          obtain ⟨⟨d', hd', hres⟩, hge⟩ := mem_startsOn.mp ht
          rw [mem_singleton.mp hd'] at hres
          have := date_in_horizon hz hstart hres hge (of_decide_eq_true hle)
          unfold horizonDays at this
          omega
        rw [hnone, if_neg (by simpa using hin)]
        simpa using ih
  refine le_trans (hlen dates) ?_
  have hrange := length_ascend
    (hdates.filter (fun d => startDate tz start - 3 ≤ d ∧ d < startDate tz start + 734))
    (startDate tz start - 3) (startDate tz start + 734)
    (fun x hx => of_decide_eq_true (mem_filter.mp hx).2)
  omega

/-- What a list in order has up to the horizon is emitted, if the cap is not less. -/
theorem mem_emitted {l : List Int} (hl : l.Pairwise (· < ·)) {windowEnd t : Int} {cap : Nat}
    (hcap : (l.filter (fun t => t ≤ windowEnd)).length ≤ cap) (ht : t ∈ l) (hle : t ≤ windowEnd) :
    t ∈ (l.take cap).takeWhile (fun t => t ≤ windowEnd) := by
  have hsplit := takeWhile_append_dropWhile (p := fun t => decide (t ≤ windowEnd)) (l := l)
  have htw := takeWhile_of_ascend hl windowEnd
  rw [htw] at hsplit
  rw [← hsplit, take_append, take_of_length_le hcap,
    takeWhile_append_of_pos (fun x hx => (mem_filter.mp hx).2)]
  exact mem_append_left _ (mem_filter.mpr ⟨ht, decide_eq_true hle⟩)

theorem takeWhile_of_split {α : Type} {p q : α → Bool} {cap : Nat} {pre post : List α} {x : α} (hx : p x = true)
    (hq : q x = true) (hlen : pre.length < cap) (hpre : ∀ y ∈ pre, q y = true) :
    x ∈ (((pre ++ x :: post).filter p).take cap).takeWhile q := by
  have hlen' : (pre.filter p).length < cap := Nat.lt_of_le_of_lt (length_filter_le _ _) hlen
  obtain ⟨n, hn⟩ : ∃ n, cap - (pre.filter p).length = n + 1 := ⟨cap - (pre.filter p).length - 1, by omega⟩
  rw [filter_append, filter_cons_of_pos hx, take_append,
    take_of_length_le (Nat.le_of_lt hlen'),
    hn, take_succ_cons, takeWhile_append_of_pos (fun y hy => hpre y (mem_of_mem_filter hy)),
    takeWhile_cons_of_pos hq]
  exact mem_append_right _ mem_cons_self

end Horizon

/-- No gap moves DTSTART's time on such a date to another day. -/
def KeepsDates (tz : TimeZone) (time : Int) (P : Int → Prop) : Prop :=
  ∀ d t : Int, P d → resolve tz (Date.toDateTime d time) = some t → tz.reading t / daySeconds = d

/-- Every date of a walk by days within the horizon has DTSTART's time, and the calendar has the next. -/
def DaysHold (tz : TimeZone) (start days : Int) : Prop :=
  ∀ k : Nat, (k : Int) * days ≤ horizonDays → StepClear tz start days k

/-- The BY parts are those that the walk of the frequency looks at, and its dates stay on their days. -/
def DatesSound (tz : TimeZone) (start : Int) (rule : Rrule) (windowEnd : Int) : Freq → Prop
  | .daily => rule.bymonthday = [] ∧ rule.bymonth = []
  | .weekly =>
    rule.bymonthday = [] ∧ rule.bymonth = [] ∧
    (rule.byday ≠ [] →
      KeepsDates tz (tz.reading start % daySeconds) (fun d => weekday d ∈ rule.byday.map (·.day)) ∧
      WeeksClear tz start (wrapI64 (rule.interval * 7)) (startOfWeek tz start (rule.wkst.getD .monday))
        (weekDays rule (rule.wkst.getD .monday)) (instanceCap rule 800) windowEnd)
  | .monthly =>
    rule.bymonth = [] ∧
    KeepsDates tz (tz.reading start % daySeconds) (PicksDate rule (ofDays (startDate tz start)).day)
  | .yearly =>
    (rule.bymonth = [] → ∀ b ∈ rule.byday, b.ordinal = none) ∧
    KeepsDates tz (tz.reading start % daySeconds) (PicksDate rule (ofDays (startDate tz start)).day)

/-- The walk comes to all dates of the rule within the horizon, in their order and before its cap. -/
def DatesComplete (tz : TimeZone) (start : Int) (rule : Rrule) : Freq → Prop
  | .daily => Onward tz start ∧ DaysHold tz start rule.interval
  | .weekly =>
    Onward tz start ∧ rule.interval * 7 ≤ spanLimit ∧
    if rule.byday = [] then DaysHold tz start (rule.interval * 7)
    else
      (rule.byday.map (·.day)).Nodup ∧ WeeksHold tz start rule ∧
      InOrder tz (tz.reading start % daySeconds) (OnWeeks rule (startDate tz start))
  | .monthly =>
    CursorFits rule.interval ∧ InOrder tz (tz.reading start % daySeconds) (OnMonths rule (startDate tz start))
  | .yearly =>
    (rule.bymonth ≠ [] ∨ rule.byday = [] ∧ rule.bymonthday = []) ∧ rule.bymonth.Pairwise (· < ·) ∧
    InOrder tz (tz.reading start % daySeconds) (OnYears rule (startDate tz start)) ∧
    ((referenceStarts tz start (OnYears rule (startDate tz start))).filter
      (fun t => t ≤ twoYearWindowEnd tz start)).length ≤ 200

section Sound

variable {tz : TimeZone} {start : Int} {rule : Rrule} {windowEnd : Int}

theorem weekday_of_onDay {t : Int} {days : List Weekday} (hne : days ≠ []) (h : onDay tz days t = true) :
    weekday (tz.reading t / daySeconds) ∈ days := by
  rcases of_decide_eq_true h with hnil | hmatch
  · exact absurd hnil hne
  unfold matchesWeekday at hmatch
  split at hmatch
  · cases hmatch
  rename_i dt hdt
  obtain ⟨u, hu, hread⟩ := Option.map_eq_some_iff.mp hdt
  have hdate : dt = tz.reading t := by
    rw [← hread, instant_eq_some hu]
    rfl
  rw [hdate] at hmatch
  exact of_decide_eq_true hmatch

theorem by_of_weekdays {freq : Freq} {d : Int} (hfreq : freq = .daily ∨ freq = .weekly)
    (hmonthday : rule.bymonthday = [])
    (hmonth : rule.bymonth = []) (h : rule.byday ≠ [] → weekday d ∈ rule.byday.map (·.day)) :
    SatisfiesBy freq rule d := by
  refine ⟨fun hne => ?_, fun hne => absurd hmonthday hne, fun hne => absurd hmonth hne⟩
  obtain ⟨b, hb, hday⟩ := mem_map.mp (h hne)
  refine ⟨b, hb, hday.symm, ?_⟩
  rintro (rfl | rfl) <;> rcases hfreq with hf | hf <;> cases hf

theorem picked_date {m : Int × Nat} {originalDay : Nat} {t : Int}
    (hkeeps : KeepsDates tz (tz.reading start % daySeconds) (PicksDate rule originalDay))
    (h : t ∈ startsOn tz start (pickedDates rule originalDay m)) :
    PicksDate rule originalDay (tz.reading t / daySeconds) ∧
      (ofDays (tz.reading t / daySeconds)).month = m.2 := by
  obtain ⟨⟨d, hd, hres⟩, -⟩ := mem_startsOn.mp h
  obtain ⟨-, hmonth, -, -, hpick⟩ := mem_pickedDates.mp hd
  rw [hkeeps d t hpick hres]
  exact ⟨hpick, hmonth⟩

theorem starts_sound (hstart : (instant start).isSome) {freq : Freq} {starts : List Int}
    (hstarts : candidateStarts tz freq start rule = .ok starts)
    (hsound : DatesSound tz start rule windowEnd freq) :
    ∀ t ∈ starts.takeWhile (fun t => t ≤ windowEnd), SatisfiesBy freq rule (tz.reading t / daySeconds) := by
  intro t ht
  have hmem := (takeWhile_sublist _).subset ht
  cases freq with
  | daily =>
    rw [candidateStarts] at hstarts
    rw [expandDaily_eq (span_of_daily hstart hstarts)] at hstarts
    cases hstarts
    have hday := (mem_filter.mp (mem_of_mem_take hmem)).2
    refine by_of_weekdays (.inl rfl) hsound.1 hsound.2 (fun hne => weekday_of_onDay ?_ hday)
    exact fun hnil => hne (map_eq_nil_iff.mp hnil)
  | weekly =>
    obtain ⟨hmonthday, hmonth, hweeks⟩ := hsound
    refine by_of_weekdays (.inr rfl) hmonthday hmonth (fun hne => ?_)
    rw [candidateStarts] at hstarts
    rw [expandWeekly_eq (span_of_expandWeekly hstart hstarts), if_neg hne] at hstarts
    cases hstarts
    obtain ⟨hkeeps, hclear⟩ := hweeks hne
    obtain ⟨pre, a, post, hvisits, hpick, hlen⟩ := mem_take_flatMap hmem
    obtain ⟨wd, hwd, rfl⟩ := mem_map.mp (mem_of_mem_filter hpick)
    have hle : shiftToWeekday tz a wd start ≤ windowEnd := by
      simpa using mem_takeWhile_imp ht
    obtain ⟨anchor, hanchor, hmax, hres⟩ := hclear pre a post hvisits hlen wd hwd hle
    obtain ⟨u, hu⟩ := Option.isSome_iff_exists.mp hres
    have hshift : shiftToWeekday tz a wd start = u := by
      unfold shiftToWeekday
      rw [hanchor, naive_reading tz hstart]
      exact (if_pos hmax).trans (congrArg (·.getD a) hu)
    have hday : weekday (anchor.date + weekAhead anchor.date wd) ∈ rule.byday.map (·.day) := by
      rw [weekday_ahead]
      exact mem_weekDays.mp hwd
    rw [hshift, hkeeps _ u hday hu]
    exact hday
  | monthly =>
    rw [candidateStarts, expandMonthly_dates hstart] at hstarts
    cases hstarts
    rw [startsOn_flatMap] at hmem
    obtain ⟨m, -, hm⟩ := mem_flatMap.mp (mem_of_mem_take hmem)
    exact by_of_picksDate (picked_date hsound.2 hm).1 (fun hne => absurd hsound.1 hne)
  | yearly =>
    rw [candidateStarts, expandYearly_dates hstart] at hstarts
    cases hstarts
    rw [startsOn_flatMap] at hmem
    obtain ⟨m, hwalk, hm⟩ := mem_flatMap.mp (mem_of_mem_take hmem)
    obtain ⟨y, -, hy⟩ := mem_flatMap.mp hwalk
    obtain ⟨month, hmonth, rfl⟩ := mem_map.mp hy
    obtain ⟨hpick, hmon⟩ := picked_date hsound.2 hm
    refine by_of_picksDate hpick (fun hne => ?_)
    rw [hmon]
    unfold yearMonths at hmonth
    rwa [if_neg hne] at hmonth

end Sound

section Complete

variable {tz : TimeZone} {start : Int} {rule : Rrule}

theorem days_complete (hz : tz.Stepwise) (hstart : (instant start).isSome) (hon : Onward tz start) {days : Int}
    (hdays : 1 ≤ days) (hhold : DaysHold tz start days) {bydayFilter : List Weekday} {k : Nat} {t : Int}
    (hday : bydayFilter = [] ∨ weekday (startDate tz start + k * days) ∈ bydayFilter)
    (ht : resolve tz (Date.toDateTime (startDate tz start + k * days) (tz.reading start % daySeconds)) = some t)
    (h0 : start ≤ t) (h1 : t ≤ twoYearWindowEnd tz start) :
    t ∈ (((visits tz days rruleMaxSteps start).filter (onDay tz bydayFilter)).take 800).takeWhile
      (fun t => t ≤ twoYearWindowEnd tz start) := by
  have hin := (date_in_horizon hz hstart ht h0 h1).2
  have hk : (k : Int) * days ≤ horizonDays := by omega
  have hk1 : (k : Int) * 1 ≤ k * days := Int.mul_le_mul_of_nonneg_left hdays (Int.natCast_nonneg k)
  have hsteps : k < rruleMaxSteps := by
    unfold rruleMaxSteps horizonDays at *
    omega
  have hclear : ∀ i < k, StepClear tz start days i := by
    intro i hi
    have hle : (i : Int) * days ≤ k * days := Int.mul_le_mul_of_nonneg_right (by omega) (by omega)
    exact hhold i (by omega)
  have hdt : Date.toDateTime (startDate tz start + k * days) (tz.reading start % daySeconds) =
      tz.reading start + k * days * daySeconds := by
    have hsplit := toDateTime_reading tz start
    simp only [Date.toDateTime, startDate] at hsplit ⊢
    linarith
  rw [hdt] at ht
  have htime := instant_eq_some ht
  -- the walk stands on this date after `k` steps
  have hat : (visits tz days rruleMaxSteps start)[k]? = some t := by
    rw [getElem?_visits hsteps, (iterate_clear hz hstart hclear).1, dayStop]
    split
    · rename_i hzero
      rw [hzero, Int.natCast_zero, Int.zero_mul, Int.zero_mul, Int.add_zero] at htime
      have hearly := hz.earliest start
      rw [htime] at h0 ⊢
      exact congrArg some (Int.le_antisymm h0 hearly)
    · rw [htime]
  have hread : tz.reading t = tz.reading start + k * days * daySeconds := by
    rw [htime]
    exact hz.reading_toInstant (hhold k hk).1
  have hinst : (instant t).isSome := by
    unfold resolve TimeZone.toZoned at ht
    rw [htime, ht]
    rfl
  have honDay : onDay tz bydayFilter t = true := by
    refine decide_eq_true ?_
    rcases hday with hnil | hwd
    · exact .inl hnil
    refine .inr ?_
    unfold matchesWeekday
    rw [naive_reading tz hinst]
    have hdate : DateTime.date (tz.reading t) = startDate tz start + k * days := by
      rw [hread]
      exact Int.add_mul_ediv_right _ _ (by decide)
    simp only [hdate]
    exact decide_eq_true hwd
  obtain ⟨hlt, hget⟩ := List.getElem?_eq_some_iff.mp hat
  have hsplit : visits tz days rruleMaxSteps start =
      (visits tz days rruleMaxSteps start).take k ++
        t :: (visits tz days rruleMaxSteps start).drop (k + 1) := by
    rw [← hget, ← drop_eq_getElem_cons hlt, take_append_drop]
  have hascend := (visits_ascend hz hon hdays (n := rruleMaxSteps) (Int.le_refl start)).1
  rw [hsplit] at hascend ⊢
  refine takeWhile_of_split honDay (decide_eq_true h1) ?_ ?_
  · refine Nat.lt_of_le_of_lt (length_take_le _ _) ?_
    unfold horizonDays at hk
    omega
  · intro y hy
    have := (pairwise_append.mp hascend).2.2 y hy t mem_cons_self
    exact decide_eq_true (by omega)

theorem year_in_horizon {d0 d : Int} (h : d ≤ d0 + horizonDays) : (ofDays d).year ≤ (ofDays d0).year + 3 := by
  by_contra hlt
  have hvalid0 := Lib.valid_ofDays d0
  have hm0 := hvalid0.month_pos
  have hm1 := hvalid0.month_le
  have hd0 := Lib.toDays_ofDays d0
  have hlen : (ofDays d0).day ≤ 31 := by
    refine le_trans hvalid0.day_le ?_
    unfold Lib.monthLength
    repeat' split
    all_goals omega
  have hvalid : (⟨(ofDays d0).year + 3, (ofDays d0).month, 1⟩ : Ymd).Valid := by
    refine ⟨hm0, hm1, Nat.le_refl 1, ?_⟩
    simp only
    unfold Lib.monthLength
    repeat' split
    all_goals omega
  have hmonth := (Lib.valid_ofDays d).month_pos
  have hafter := Lib.toDays_lt hvalid (Lib.valid_ofDays d) (by unfold Ymd.monthIndex; simp only; omega)
  rw [Lib.toDays_ofDays] at hafter
  unfold horizonDays at h
  unfold toDays Lib.marchMonth Lib.daysBeforeYear Lib.daysBeforeMonth at *
  simp only at hafter hd0
  split at hd0
  · rename_i hm
    rw [if_pos hm] at hafter
    omega
  · rename_i hm
    rw [if_neg hm] at hafter
    omega

theorem cap_of_unbounded (hcount : rule.count = none) (htil : rule.til = none) {n : Nat} (h0 : 1 ≤ n)
    (h1 : n ≤ 10000) : instanceCap rule n = n := by
  unfold instanceCap rruleMaxCount
  rw [hcount, htil]
  simp only [Option.isSome_none, Bool.false_eq_true, if_false]
  omega

theorem starts_complete (hz : tz.Stepwise) (hstart : (instant start).isSome) (hread : RuleRead rule)
    {freq : Freq} (hcount : rule.count = none) (htil : rule.til = none) {starts : List Int}
    (hstarts : candidateStarts tz freq start rule = .ok starts) (hcomplete : DatesComplete tz start rule freq)
    {d t : Int} (hd : Denotes freq rule (startDate tz start) d)
    (ht : resolve tz (Date.toDateTime d (tz.reading start % daySeconds)) = some t) (h0 : start ≤ t)
    (h1 : t ≤ twoYearWindowEnd tz start) : t ∈ starts.takeWhile (fun t => t ≤ twoYearWindowEnd tz start) := by
  have hpos := hread.interval_pos
  have hin := (date_in_horizon hz hstart ht h0 h1).2
  have hcap : instanceCap rule 800 = 800 := cap_of_unbounded hcount htil (by decide) (by decide)
  have hcal := hd.in_calendar
  -- a date is a whole number of periods after DTSTART
  have hsteps : ∀ days : Int, 1 ≤ days → (d - startDate tz start) % days = 0 →
      ∃ k : Nat, d = startDate tz start + k * days := by
    intro days hdays hmod
    have hfrom := hd.from_start
    obtain ⟨q, hq⟩ := Int.dvd_of_emod_eq_zero hmod
    have hq0 : 0 ≤ q := by
      by_contra hneg
      have hle : days * q ≤ days * -1 := Int.mul_le_mul_of_nonneg_left (by omega) (by omega)
      omega
    refine ⟨q.toNat, ?_⟩
    rw [Int.toNat_of_nonneg hq0, Int.mul_comm]
    omega
  cases freq with
  | daily =>
    obtain ⟨hon, hhold⟩ := hcomplete
    rw [candidateStarts] at hstarts
    rw [expandDaily_eq (span_of_daily hstart hstarts), hcap] at hstarts
    cases hstarts
    obtain ⟨k, rfl⟩ := hsteps rule.interval hpos hd.aligned
    refine days_complete hz hstart hon hpos hhold ?_ ht h0 h1
    by_cases hby : rule.byday = []
    · exact .inl (map_eq_nil_iff.mpr hby)
    · obtain ⟨b, hb, hwd, -⟩ := hd.by_parts.byday hby
      exact .inr (mem_map.mpr ⟨b, hb, hwd.symm⟩)
  | weekly =>
    obtain ⟨hon, hspan, hweeks⟩ := hcomplete
    have hok : spanOk (rule.interval * 7) := (spanOk_of_pos (by omega)).mpr hspan
    have hfits : fitsI64 (rule.interval * 7) := by
      unfold spanLimit at hspan
      unfold fitsI64
      omega
    rw [candidateStarts] at hstarts
    by_cases hby : rule.byday = []
    · rw [if_pos hby] at hweeks
      rw [expandWeekly_eq (by rwa [wrapI64_of_fits hfits]), wrapI64_of_fits hfits, if_pos hby, hcap] at hstarts
      cases hstarts
      have hall : (visits tz (rule.interval * 7) rruleMaxSteps start).filter (onDay tz []) =
          visits tz (rule.interval * 7) rruleMaxSteps start :=
        filter_eq_self.mpr (fun t _ => by simp [onDay])
      have hal : (weekStart d (rule.wkst.getD .monday) -
          weekStart (startDate tz start) (rule.wkst.getD .monday)) %
          (rule.interval * 7) = 0 := hd.aligned
      have hwd : weekday d = weekday (startDate tz start) := hd.defaults hby
      have hback : weekBack d (rule.wkst.getD .monday) =
          weekBack (startDate tz start) (rule.wkst.getD .monday) := by
        unfold weekBack
        rw [hwd]
      have hmod : (d - startDate tz start) % (rule.interval * 7) = 0 := by
        unfold weekStart at hal
        rw [← hal]
        congr 1
        omega
      obtain ⟨k, rfl⟩ := hsteps (rule.interval * 7) (by omega) hmod
      rw [← hall]
      exact days_complete hz hstart hon (by omega) hweeks (.inl rfl) ht h0 h1
    · rw [if_neg hby] at hweeks
      obtain ⟨hnodup, hhold, horder⟩ := hweeks
      rw [expandWeekly_weeks hz hstart hon hpos hok hby hhold, hcap] at hstarts
      cases hstarts
      have hascend : (weeksDates tz start rule (weekCount rule)).Pairwise (· < ·) :=
        weeksDates_ascend hnodup hpos _
      refine mem_emitted (startsOn_ascend horder hascend (fun e he => onWeeks_of_walk hpos he))
        (le_trans (length_horizon hz hstart hascend) (by decide)) (mem_startsOn.mpr ⟨⟨d, ?_, ht⟩, h0⟩) h1
      refine (mem_weeksDates hpos).mpr ⟨onWeeks_of_denotes hd hby, ?_⟩
      have hback := weekBack_range (startDate tz start) (rule.wkst.getD .monday)
      have hle : (801 : Int) * 7 ≤ weekCount rule * (rule.interval * 7) := by
        rw [weekCount_eq hread, hcap]
        exact Int.mul_le_mul_of_nonneg_left (by omega) (by decide)
      have hfirst : firstWeek tz start rule = startDate tz start - weekBack (startDate tz start)
        (rule.wkst.getD .monday) := rfl
      unfold horizonDays at hin
      omega
  | monthly =>
    obtain ⟨hfit, horder⟩ := hcomplete
    have hvalid := Lib.valid_ofDays (startDate tz start)
    have hascend : (monthsDates tz start rule).Pairwise (· < ·) :=
      flatMap_ascend (months_ascend hpos hfit (start_inI32 hz hstart) hvalid.month_pos hvalid.month_le)
    rw [candidateStarts, expandMonthly_dates hstart, hcap] at hstarts
    cases hstarts
    refine mem_emitted (startsOn_ascend horder hascend (fun e he => onMonths_of_walk hz hstart hpos hfit he))
      (le_trans (length_horizon hz hstart hascend) (by decide)) (mem_startsOn.mpr ⟨⟨d, ?_, ht⟩, h0⟩) h1
    refine (mem_monthsDates hz hstart hpos hfit).mpr ⟨hcal, onMonths_of_denotes hd, ?_⟩
    have hyear := year_in_horizon hin
    have hmonth := (Lib.valid_ofDays d).month_le
    have hsteps : (rruleMaxSteps : Int) = 12000 := rfl
    unfold monthLimit monthNumber
    rw [hsteps]
    omega
  | yearly =>
    obtain ⟨hmonths, hsorted, horder, hlen⟩ := hcomplete
    have hascend : (yearsDates tz start rule).Pairwise (· < ·) :=
      flatMap_ascend (yearWalk_ascend hz hstart hread hsorted)
    rw [candidateStarts, expandYearly_dates hstart,
      cap_of_unbounded hcount htil (by decide) (by decide)] at hstarts
    cases hstarts
    have hdates : yearsDates tz start rule = calendarDates.filter (OnYears rule (startDate tz start)) :=
      dates_eq hascend (fun e => mem_yearsDates hz hstart hpos)
    unfold referenceStarts at hlen
    rw [← hdates] at hlen
    exact mem_emitted (startsOn_ascend horder hascend (fun e he => onYears_of_walk hz hstart hpos he)) hlen
      (mem_startsOn.mpr
        ⟨⟨d, (mem_yearsDates hz hstart hpos).mpr ⟨hcal, onYears_of_denotes hd hmonths⟩, ht⟩, h0⟩) h1

end Complete

/-! ## Whole expansions -/

theorem keepsDates_utc {time : Int} (h0 : 0 ≤ time) (h1 : time < daySeconds) (P : Int → Prop) :
    KeepsDates .utc time P := by
  intro d t _ ht
  have hday : daySeconds = 86400 := rfl
  rw [instant_eq_some ht]
  simp only [TimeZone.reading, TimeZone.utc, Date.toDateTime, hday] at *
  omega

theorem inOrder_utc (time : Int) (P : Int → Prop) : InOrder .utc time P := by
  intro d e _ _ hde
  simp only [TimeZone.utc, Date.toDateTime, daySeconds]
  omega

end Ratatoskr.Calendar

import Ratatoskr.Calendar.Picks

/-!
# Calendar.Weeks

The weeks of a weekly rule with weekdays. The walk goes from anchor to anchor, each of them an instant on the
first day of its week; as long as no gap moves an anchor to another day, the weeks are those of the rule.

* `Onward` : the clock is never set back by a whole day.
* `iterate_anchor` : the anchors of a walk.
* `expandWeekly_weeks` : the starts are those of the first weeks.
-/

namespace Ratatoskr.Calendar

open List
open Lib (Weekday weekday)

/-- From DTSTART on, the clock is never set back by a whole day. -/
def Onward (tz : TimeZone) (start : Int) : Prop :=
  ∀ t u, start ≤ u → t ≤ u → tz.reading t < tz.reading u + daySeconds

section Onward

variable {tz : TimeZone} {start : Int}

/-- A reading a day or more ahead of a later instant stands for a later instant still. -/
theorem lt_toInstant (hz : tz.Stepwise) (hon : Onward tz start) {u dt : Int} (hu : start ≤ u)
    (h : tz.reading u + daySeconds ≤ dt) : u < tz.toInstant dt := by
  by_contra hle
  have hlt := hon (tz.toInstant dt) u hu (by omega)
  by_cases hshows : tz.Shows dt
  · rw [hz.reading_toInstant hshows] at hlt
    omega
  · obtain ⟨s, hgap, -, hread⟩ := hz.gap dt hshows
    rw [hread] at hlt
    unfold TimeZone.InGap at hgap
    unfold TimeZone.width at hlt
    omega

theorem lt_stepDays (hz : tz.Stepwise) (hon : Onward tz start) {days : Int} (hdays : 1 ≤ days) {t : Int}
    (ht : start ≤ t) : t < stepDays tz days t := by
  unfold stepDays
  cases hr : ((naive tz t).bind (fun dt => checkedAdd dt (days * daySeconds))).bind (resolve tz) with
  | none =>
    rw [Option.getD_none]
    omega
  | some u =>
    obtain ⟨dt', hdt', hu⟩ := Option.bind_eq_some_iff.mp hr
    obtain ⟨dt, hdt, hadd⟩ := Option.bind_eq_some_iff.mp hdt'
    obtain ⟨t', ht', hread⟩ := Option.map_eq_some_iff.mp hdt
    rw [instant_eq_some hu]
    refine lt_toInstant hz hon ht ?_
    rw [checkedAdd_eq_some hadd, ← hread, instant_eq_some ht', TimeZone.reading]
    unfold daySeconds
    omega

theorem visits_ascend (hz : tz.Stepwise) (hon : Onward tz start) {days : Int} (hdays : 1 ≤ days) {n : Nat}
    {t : Int} (ht : start ≤ t) : (visits tz days n t).Pairwise (· < ·) ∧ ∀ v ∈ visits tz days n t, t ≤ v := by
  induction n generalizing t with
  | zero => exact ⟨List.Pairwise.nil, fun v hv => absurd hv not_mem_nil⟩
  | succ n ih =>
    have hlt := lt_stepDays hz hon hdays ht
    obtain ⟨hpair, hge⟩ := ih (t := stepDays tz days t) (by omega)
    refine ⟨pairwise_cons.mpr ⟨fun v hv => lt_of_lt_of_le hlt (hge v hv), hpair⟩, ?_⟩
    intro v hv
    rcases mem_cons.mp hv with rfl | hv
    · exact Int.le_refl v
    · exact le_trans (Int.le_of_lt hlt) (hge v hv)

theorem visits_eq_map (days : Int) (n : Nat) (t : Int) :
    visits tz days n t = (List.range n).map (fun k => (stepDays tz days)^[k] t) := by
  refine ext_getElem? (fun i => ?_)
  by_cases hi : i < n
  · rw [getElem?_visits hi, getElem?_map, getElem?_range hi, Option.map_some]
  · rw [getElem?_eq_none (by rw [length_visits]; omega), getElem?_eq_none (by simp; omega)]

end Onward

def weekStart (d : Int) (wkst : Weekday) : Int := d - weekBack d wkst

theorem weekBack_range (d : Int) (wkst : Weekday) : 0 ≤ weekBack d wkst ∧ weekBack d wkst < 7 :=
  ⟨Int.emod_nonneg _ (by decide), Int.emod_lt_of_pos _ (by decide)⟩

theorem weekAhead_range (d : Int) (target : Weekday) : 0 ≤ weekAhead d target ∧ weekAhead d target < 7 :=
  ⟨Int.emod_nonneg _ (by decide), Int.emod_lt_of_pos _ (by decide)⟩

theorem weekday_weekStart (d : Int) (wkst : Weekday) : weekday (weekStart d wkst) = wkst := by
  apply Weekday.offset_inj
  have hlt := wkst.offset_lt
  have hsum := offset_weekday (weekStart d wkst)
  have hback : weekBack d wkst = ((d + 3) % 7 - wkst.offset) % 7 := by
    rw [weekBack, offset_weekday]
  unfold weekStart at hsum ⊢
  omega

theorem weekday_add_weeks (d : Int) (k : Int) : weekday (d + 7 * k) = weekday d := by
  apply Weekday.offset_inj
  have h1 := offset_weekday (d + 7 * k)
  have h2 := offset_weekday d
  omega

variable {rule : Rrule}

theorem weekDays_ascend (hnodup : (rule.byday.map (·.day)).Nodup) (wkst : Weekday) :
    (weekDays rule wkst).Pairwise (fun d e =>
      ((d.offset : Int) - wkst.offset) % 7 < ((e.offset : Int) - wkst.offset) % 7) := by
  have hle : (weekDays rule wkst).Pairwise (fun d e =>
      ((d.offset : Int) - wkst.offset) % 7 ≤ ((e.offset : Int) - wkst.offset) % 7) := by
    refine @List.pairwise_insertionSort _ (fun d e : Weekday =>
      ((d.offset : Int) - wkst.offset) % 7 ≤ ((e.offset : Int) - wkst.offset) % 7) _ ?_ ?_ _
    · exact ⟨fun d e => le_total _ _⟩
    · exact ⟨fun d e f hde hef => le_trans hde hef⟩
  have hne : (weekDays rule wkst).Nodup := by
    exact (perm_insertionSort _ _).nodup_iff.mpr hnodup
  refine (hle.and hne).imp ?_
  rintro d e ⟨hde, hdiff⟩
  refine lt_of_le_of_ne hde (fun heq => hdiff (Weekday.offset_inj ?_))
  have hd := d.offset_lt
  have he := e.offset_lt
  omega

def weekDates (wds : List Weekday) (a : Int) : List Int := wds.map (fun wd => a + weekAhead a wd)

theorem weekDates_ascend (hnodup : (rule.byday.map (·.day)).Nodup) (wkst : Weekday) {a : Int}
    (ha : weekday a = wkst) : (weekDates (weekDays rule wkst) a).Pairwise (· < ·) := by
  refine pairwise_map.mpr ((weekDays_ascend hnodup wkst).imp ?_)
  intro d e hde
  unfold weekAhead
  rw [ha]
  omega

theorem mem_weekDays {wkst wd : Weekday} :
    wd ∈ weekDays rule wkst ↔ wd ∈ rule.byday.map (·.day) :=
  mem_insertionSort _

theorem mem_weekDates {wkst : Weekday} {a d : Int} :
    d ∈ weekDates (weekDays rule wkst) a ↔ a ≤ d ∧ d < a + 7 ∧ weekday d ∈ rule.byday.map (·.day) := by
  constructor
  · intro h
    obtain ⟨wd, hwd, rfl⟩ := mem_map.mp h
    have hrange := weekAhead_range a wd
    refine ⟨by omega, by omega, ?_⟩
    rw [weekday_ahead]
    exact mem_weekDays.mp hwd
  · rintro ⟨h0, h1, hwd⟩
    refine mem_map.mpr ⟨weekday d, mem_weekDays.mpr hwd, ?_⟩
    have hd := offset_weekday d
    have ha := offset_weekday a
    unfold weekAhead
    omega

/-! ## Anchors -/

/-- The zone and the calendar have the week: no gap moves a time of its first day to another day, and DTSTART's
time stands for an instant on each of its days. -/
structure WeekClear (tz : TimeZone) (time : Int) (a : Int) : Prop where
  inCalendar : Date.min ≤ a ∧ a + 6 ≤ Date.max
  anchored : ∀ s : Int, 0 ≤ s → s < daySeconds →
    ∃ t, resolve tz (Date.toDateTime a s) = some t ∧ tz.reading t / daySeconds = a
  shown : ∀ i : Int, 0 ≤ i → i < 7 → (resolve tz (Date.toDateTime (a + i) time)).isSome

section Anchors

variable {tz : TimeZone} {start : Int}

theorem toDateTime_reading (tz : TimeZone) (t : Int) :
    Date.toDateTime (tz.reading t / daySeconds) (tz.reading t % daySeconds) = tz.reading t := by
  have := Int.mul_ediv_add_emod (tz.reading t) daySeconds
  simp only [Date.toDateTime]
  linarith

theorem step_clear {time t a days : Int} (hdate : tz.reading t / daySeconds + days = a)
    (hclear : WeekClear tz time a) :
    ∃ u, (checkedAdd (tz.reading t) (days * daySeconds)).bind (resolve tz) = some u ∧ (instant u).isSome ∧
      tz.reading u / daySeconds = a := by
  have hpos : (0 : Int) < daySeconds := by decide
  obtain ⟨u, hu, hon⟩ := hclear.anchored (tz.reading t % daySeconds) (Int.emod_nonneg _ (Int.ne_of_gt hpos))
    (Int.emod_lt_of_pos _ hpos)
  have hsum : tz.reading t + days * daySeconds = Date.toDateTime a (tz.reading t % daySeconds) := by
    have := toDateTime_reading tz t
    simp only [Date.toDateTime] at this ⊢
    rw [← hdate]
    linarith
  have hcivil : InCivilRange (tz.reading t + days * daySeconds) := by
    have hdiv : (tz.reading t + days * daySeconds) / daySeconds = a := by
      rw [Int.add_mul_ediv_right _ _ (Int.ne_of_gt hpos), hdate]
    unfold InCivilRange DateTime.date
    rw [hdiv]
    exact ⟨hclear.inCalendar.1, (Int.le_add_of_nonneg_right (by decide)).trans hclear.inCalendar.2⟩
  refine ⟨u, ?_, ?_, hon⟩
  · unfold checkedAdd
    rw [if_pos hcivil, Option.bind_some, hsum, hu]
  · unfold resolve TimeZone.toZoned at hu
    rw [instant_eq_some hu, hu]
    rfl

theorem stepDays_eq {t u days : Int} (ht : (instant t).isSome)
    (hu : (checkedAdd (tz.reading t) (days * daySeconds)).bind (resolve tz) = some u) :
    stepDays tz days t = u := by
  unfold stepDays
  rw [naive_reading tz ht, Option.bind_some, hu]
  rfl

theorem startOfWeek_clear (wkst : Weekday) (hstart : (instant start).isSome)
    (hclear : WeekClear tz (tz.reading start % daySeconds) (weekStart (tz.reading start / daySeconds) wkst)) :
    (instant (startOfWeek tz start wkst)).isSome ∧
    tz.reading (startOfWeek tz start wkst) / daySeconds = weekStart (tz.reading start / daySeconds) wkst := by
  have hback : tz.reading start / daySeconds + -weekBack (tz.reading start / daySeconds) wkst =
      weekStart (tz.reading start / daySeconds) wkst := by
    unfold weekStart
    omega
  obtain ⟨u, hu, hinst, hdate⟩ := step_clear hback hclear
  have hanchor : startOfWeek tz start wkst = u := by
    unfold startOfWeek
    rw [naive_reading tz hstart]
    exact congrArg (·.getD start) hu
  rw [hanchor]
  exact ⟨hinst, hdate⟩

theorem iterate_anchor {time t a days : Int} {k : Nat} (ht : (instant t).isSome)
    (hdate : tz.reading t / daySeconds = a) (hclear : ∀ j ≤ k, WeekClear tz time (a + j * days)) :
    (instant ((stepDays tz days)^[k] t)).isSome ∧
    tz.reading ((stepDays tz days)^[k] t) / daySeconds = a + k * days := by
  induction k with
  | zero =>
    rw [Function.iterate_zero_apply, hdate]
    exact ⟨ht, by simp⟩
  | succ k ih =>
    obtain ⟨hinst, hon⟩ := ih (fun j hj => hclear j (Nat.le_succ_of_le hj))
    have hnext : tz.reading ((stepDays tz days)^[k] t) / daySeconds + days = a + (k + 1 : Nat) * days := by
      rw [hon]
      push_cast
      ring
    obtain ⟨u, hu, huinst, hudate⟩ := step_clear hnext (hclear (k + 1) (Nat.le_refl _))
    rw [Function.iterate_succ_apply', stepDays_eq hinst hu]
    exact ⟨huinst, hudate⟩

theorem weekPicks_clear {t a : Int} (hstart : (instant start).isSome) (ht : (instant t).isSome)
    (hdate : tz.reading t / daySeconds = a) (hclear : WeekClear tz (tz.reading start % daySeconds) a)
    (wds : List Weekday) : weekPicks tz start wds t = startsOn tz start (weekDates wds a) := by
  have hshift : ∀ wd, resolve tz (Date.toDateTime (a + weekAhead a wd) (tz.reading start % daySeconds)) =
      some (shiftToWeekday tz t wd start) := by
    intro wd
    have hrange := weekAhead_range a wd
    obtain ⟨u, hu⟩ := Option.isSome_iff_exists.mp (hclear.shown (weekAhead a wd) hrange.1 hrange.2)
    have hmax : a + weekAhead a wd ≤ Date.max := by
      have := hclear.inCalendar
      omega
    have hsh : shiftToWeekday tz t wd start = u := by
      unfold shiftToWeekday
      rw [naive_reading tz ht, naive_reading tz hstart]
      simp only
      have hanchor : DateTime.date (tz.reading t) = a := hdate
      rw [hanchor]
      exact (if_pos hmax).trans (congrArg (·.getD t) hu)
    rw [hu, hsh]
  unfold weekPicks startsOn weekDates
  congr 1
  rw [filterMap_map]
  refine (filterMap_eq_map_iff_forall_eq_some.mpr ?_).symm
  intro wd _
  exact hshift wd

end Anchors

def firstWeek (tz : TimeZone) (start : Int) (rule : Rrule) : Int :=
  weekStart (tz.reading start / daySeconds) (rule.wkst.getD .monday)

def weekCount (rule : Rrule) : Nat := min (instanceCap rule 800 + 1) rruleMaxSteps

/-- Every week that a weekly rule with weekdays comes to before its cap is clear. -/
def WeeksHold (tz : TimeZone) (start : Int) (rule : Rrule) : Prop :=
  ∀ k < weekCount rule,
    WeekClear tz (tz.reading start % daySeconds) (firstWeek tz start rule + (k : Nat) * (rule.interval * 7))

/-- The dates of the weekdays in the first `n` weeks of a rule. -/
def weeksDates (tz : TimeZone) (start : Int) (rule : Rrule) (n : Nat) : List Int :=
  (List.range n).flatMap (fun k : Nat =>
    weekDates (weekDays rule (rule.wkst.getD .monday)) (firstWeek tz start rule + k * (rule.interval * 7)))

section Whole

variable {tz : TimeZone} {start : Int} {rule : Rrule}

/-- With a start in every week but the first, there are as many starts as weeks before the last. -/
theorem le_length_flatMap {f : Nat → List Int} {n : Nat} (h : ∀ k, 1 ≤ k → k ≤ n → f k ≠ []) :
    n ≤ ((List.range (n + 1)).flatMap f).length := by
  induction n with
  | zero => exact Nat.zero_le _
  | succ n ih =>
    have hlast := length_pos_of_ne_nil (h (n + 1) (by omega) (Nat.le_refl _))
    have hbefore := ih (fun k h0 h1 => h k h0 (by omega))
    rw [range_succ, flatMap_append, length_append, flatMap_singleton]
    omega

theorem week_nonempty (hz : tz.Stepwise) (hon : Onward tz start) (hpos : 1 ≤ rule.interval)
    (hby : rule.byday ≠ []) {k : Nat} (hk : 1 ≤ k)
    (hclear : WeekClear tz (tz.reading start % daySeconds)
      (firstWeek tz start rule + k * (rule.interval * 7))) :
    startsOn tz start (weekDates (weekDays rule (rule.wkst.getD .monday))
      (firstWeek tz start rule + k * (rule.interval * 7))) ≠ [] := by
  obtain ⟨b, hb⟩ := exists_mem_of_ne_nil _ hby
  have hwd : b.day ∈ weekDays rule (rule.wkst.getD .monday) := mem_weekDays.mpr (mem_map_of_mem hb)
  have hrange := weekAhead_range (firstWeek tz start rule + k * (rule.interval * 7)) b.day
  obtain ⟨t, ht⟩ := Option.isSome_iff_exists.mp (hclear.shown _ hrange.1 hrange.2)
  have hback := weekBack_range (tz.reading start / daySeconds) (rule.wkst.getD .monday)
  have hweeks : 7 ≤ (k : Int) * (rule.interval * 7) := by
    have := Int.mul_le_mul_of_nonneg_right (show (1 : Int) ≤ k by omega) (show 0 ≤ rule.interval * 7 by omega)
    omega
  have hlate : tz.reading start + daySeconds ≤
      Date.toDateTime (firstWeek tz start rule + k * (rule.interval * 7) +
        weekAhead (firstWeek tz start rule + k * (rule.interval * 7)) b.day)
      (tz.reading start % daySeconds) := by
    have hsplit := toDateTime_reading tz start
    have hdate : tz.reading start / daySeconds + 1 ≤ firstWeek tz start rule + k * (rule.interval * 7) +
        weekAhead (firstWeek tz start rule + k * (rule.interval * 7)) b.day := by
      unfold firstWeek weekStart at *
      omega
    simp only [Date.toDateTime, daySeconds] at hsplit hdate ⊢
    omega
  refine ne_nil_of_mem (mem_startsOn.mpr ⟨⟨_, mem_map.mpr ⟨b.day, hwd, rfl⟩, ht⟩, ?_⟩)
  rw [instant_eq_some ht]
  exact Int.le_of_lt (lt_toInstant hz hon (Int.le_refl start) hlate)

/-- The starts of a weekly rule with weekdays are those on the dates of its first weeks. -/
theorem expandWeekly_weeks (hz : tz.Stepwise) (hstart : (instant start).isSome) (hon : Onward tz start)
    (hpos : 1 ≤ rule.interval) (hspan : spanOk (rule.interval * 7)) (hby : rule.byday ≠ [])
    (hweeks : WeeksHold tz start rule) : expandWeekly tz start rule =
      .ok ((startsOn tz start (weeksDates tz start rule (weekCount rule))).take (instanceCap rule 800)) := by
  have hfits : fitsI64 (rule.interval * 7) := by
    unfold spanOk spanLimit at hspan
    unfold fitsI64
    omega
  have hcount : 0 < weekCount rule := by
    have : 0 < rruleMaxSteps := by decide
    unfold weekCount
    omega
  have hfirst := startOfWeek_clear (rule.wkst.getD .monday) hstart (by
    have := hweeks 0 hcount
    rwa [Int.natCast_zero, Int.zero_mul, Int.add_zero] at this)
  obtain ⟨m, hm⟩ : ∃ m, rruleMaxSteps = weekCount rule + m :=
    ⟨rruleMaxSteps - weekCount rule, by unfold weekCount; omega⟩
  -- the picks of the weeks that count
  have hpicks : ∀ k < weekCount rule,
      weekPicks tz start (weekDays rule (rule.wkst.getD .monday))
        ((stepDays tz (rule.interval * 7))^[k] (startOfWeek tz start (rule.wkst.getD .monday))) =
      startsOn tz start (weekDates (weekDays rule (rule.wkst.getD .monday))
        (firstWeek tz start rule + k * (rule.interval * 7))) := by
    intro k hk
    obtain ⟨hinst, hdate⟩ := iterate_anchor hfirst.1 hfirst.2
      (fun j hj => hweeks j (Nat.lt_of_le_of_lt hj hk))
    exact weekPicks_clear hstart hinst hdate (hweeks k hk) _
  have hlist : (List.range (weekCount rule)).flatMap (fun k =>
      weekPicks tz start (weekDays rule (rule.wkst.getD .monday))
        ((stepDays tz (rule.interval * 7))^[k] (startOfWeek tz start (rule.wkst.getD .monday)))) =
      startsOn tz start (weeksDates tz start rule (weekCount rule)) := by
    rw [weeksDates, startsOn_flatMap]
    exact flatMap_congr (fun k hk => hpicks k (mem_range.mp hk))
  rw [expandWeekly_eq (by rwa [wrapI64_of_fits hfits]), wrapI64_of_fits hfits, if_neg hby, visits_eq_map, hm,
    range_add, map_append, flatMap_append, flatMap_map, hlist]
  congr 1
  cases m with
  | zero => rw [range_zero, map_nil, map_nil, flatMap_nil, append_nil]
  | succ m =>
    have hcap : weekCount rule = instanceCap rule 800 + 1 := by
      unfold weekCount at hm ⊢
      omega
    refine take_append_of_le_length ?_
    rw [← hlist, flatMap_congr (fun k hk => hpicks k (mem_range.mp hk)), hcap]
    refine le_length_flatMap (fun k h0 h1 => ?_)
    exact week_nonempty hz hon hpos hby h0 (hweeks k (by omega))

theorem weeksDates_ascend (hnodup : (rule.byday.map (·.day)).Nodup) (hpos : 1 ≤ rule.interval) (n : Nat) :
    (weeksDates tz start rule n).Pairwise (· < ·) := by
  have hanchor : ∀ k : Nat, weekday (firstWeek tz start rule + k * (rule.interval * 7)) =
      rule.wkst.getD .monday := by
    intro k
    have hweeks : firstWeek tz start rule + (k : Int) * (rule.interval * 7) =
        firstWeek tz start rule + 7 * (k * rule.interval) := by ring
    rw [hweeks, weekday_add_weeks]
    exact weekday_weekStart _ _
  refine pairwise_flatMap.mpr ⟨fun k _ => weekDates_ascend hnodup _ (hanchor k), ?_⟩
  refine List.pairwise_lt_range.imp ?_
  intro j k hjk d hd e he
  have hd' := mem_weekDates.mp hd
  have he' := mem_weekDates.mp he
  have hlt : ((j : Int) + 1) * (rule.interval * 7) ≤ k * (rule.interval * 7) :=
    Int.mul_le_mul_of_nonneg_right (by omega) (by omega)
  have hsum : ((j : Int) + 1) * (rule.interval * 7) = j * (rule.interval * 7) + rule.interval * 7 := by ring
  omega

end Whole

end Ratatoskr.Calendar

import Mathlib.Data.List.TakeWhile
import Mathlib.Tactic.Linarith
import Mathlib.Tactic.Ring
import Ratatoskr.Calendar.Faults

/-!
# Calendar.WallClock

The clock time of the instances of a series. Months, years and the weekdays of a week attach the time of
DTSTART to each date; a walk by days goes on from the last instant, so after a gap it goes on late. The zones
here have an offset that is constant between transitions, as `jiff` resolves clock readings in them.

* `TimeZone.Stepwise` : a reading that exists stands for its earliest instant; one in a gap is moved forward by
  the width of the gap.
* `shifting`, `stepwise_shifting` : the zones with one transition are stepwise, be it a gap or a fold.
* `KeepsClock` : the instance shows DTSTART's time, or that time moved out of a gap.
* `iterate_clear` : a walk by days whose steps start at times that exist.
* `instances_keep_clock` : which series keep their time.
-/

namespace Ratatoskr.Calendar

open List
open Lib (Ymd Weekday weekday toDays ofDays)

namespace TimeZone

def reading (tz : TimeZone) (t : Int) : Int := t + tz.offset t

def Shows (tz : TimeZone) (dt : Int) : Prop := ∃ t, tz.reading t = dt

/-- The reading is left out by the transition at `t`. -/
def InGap (tz : TimeZone) (dt : Int) (t : Int) : Prop :=
  t + tz.offset (t - 1) ≤ dt ∧ dt < t + tz.offset t

def width (tz : TimeZone) (t : Int) : Int := tz.offset t - tz.offset (t - 1)

structure Stepwise (tz : TimeZone) : Prop where
  bounded : ∀ t, -93599 ≤ tz.offset t ∧ tz.offset t ≤ 93599
  earliest : ∀ t, tz.toInstant (tz.reading t) ≤ t
  exact : ∀ t, tz.reading (tz.toInstant (tz.reading t)) = tz.reading t
  gap : ∀ dt : Int, ¬ tz.Shows dt → ∃ t, tz.InGap dt t ∧ tz.toInstant dt = dt - tz.offset (t - 1) ∧
    tz.reading (tz.toInstant dt) = dt + tz.width t

section Stepwise

variable {tz : TimeZone}

theorem Stepwise.reading_toInstant (h : tz.Stepwise) {dt : Int} (hdt : tz.Shows dt) :
    tz.reading (tz.toInstant dt) = dt := by
  obtain ⟨t, rfl⟩ := hdt
  exact h.exact t

theorem Stepwise.toInstant_eq (h : tz.Stepwise) (dt : Int) : ∃ u, tz.toInstant dt = dt - tz.offset u := by
  by_cases hdt : tz.Shows dt
  · have hread := h.reading_toInstant hdt
    refine ⟨tz.toInstant dt, ?_⟩
    unfold reading at hread
    omega
  · obtain ⟨t, -, ht, -⟩ := h.gap dt hdt
    exact ⟨t - 1, ht⟩

end Stepwise

/-- A zone with one transition, at `t`. -/
def shifting (name : Option String) (t before after : Int) : TimeZone :=
  ⟨name, fun u => if u < t then before else after,
    fun (dt : Int) => if dt < t + max before after then dt - before else dt - after⟩

theorem stepwise_shifting (name : Option String) (t : Int) {before after : Int}
    (hb : -93599 ≤ before ∧ before ≤ 93599) (ha : -93599 ≤ after ∧ after ≤ 93599) :
    (shifting name t before after).Stepwise := by
  refine ⟨?_, ?_, ?_, ?_⟩
  · intro u
    simp only [shifting]
    split
    · exact hb
    · exact ha
  · intro u
    simp only [reading, shifting]
    split <;> split <;> omega
  · intro u
    simp only [reading, shifting]
    split <;> split <;> split <;> omega
  · intro dt hdt
    have hbefore : ¬ dt - before < t := by
      intro hlt
      apply hdt
      refine ⟨dt - before, ?_⟩
      simp only [reading, shifting]
      rw [if_pos hlt]
      omega
    have hafter : dt - after < t := by
      by_contra hge
      apply hdt
      refine ⟨dt - after, ?_⟩
      simp only [reading, shifting]
      rw [if_neg hge]
      omega
    refine ⟨t, ?_, ?_, ?_⟩
    · simp only [InGap, shifting]
      rw [if_pos (by omega), if_neg (by omega)]
      omega
    · simp only [shifting]
      rw [if_pos (by omega), if_pos (by omega)]
    · simp only [reading, width, shifting]
      rw [if_pos (by omega), if_neg (by omega), if_neg (by omega), if_pos (by omega)]
      omega

theorem stepwise_utc : utc.Stepwise := by
  refine ⟨fun t => ⟨by simp [utc], by simp [utc]⟩, fun t => ?_, fun t => ?_, ?_⟩
  · simp [reading, utc]
  · simp [reading, utc]
  · intro dt hdt
    exact absurd ⟨dt, by simp [reading, utc]⟩ hdt

end TimeZone

/-- The instant shows the clock time, or no instant of a date does and it shows that time moved forward by the
width of the gap. -/
def KeepsClock (tz : TimeZone) (time t : Int) : Prop :=
  tz.reading t % daySeconds = time ∨
  ∃ (d : Date) (s : Int), ¬ tz.Shows (d.toDateTime time) ∧ tz.InGap (d.toDateTime time) s ∧
    tz.reading t = d.toDateTime time + tz.width s

section Clock

variable {tz : TimeZone} {time : Int}

theorem time_toDateTime (d : Date) (h0 : 0 ≤ time) (h1 : time < daySeconds) :
    d.toDateTime time % daySeconds = time := by
  simp only [Date, DateTime, Date.toDateTime, daySeconds] at *
  omega

theorem keepsClock_toInstant (hz : tz.Stepwise) (d : Date) (h0 : 0 ≤ time) (h1 : time < daySeconds) :
    KeepsClock tz time (tz.toInstant (d.toDateTime time)) := by
  by_cases hd : tz.Shows (d.toDateTime time)
  · left
    rw [hz.reading_toInstant hd]
    exact time_toDateTime d h0 h1
  · obtain ⟨s, hgap, -, hread⟩ := hz.gap _ hd
    exact .inr ⟨d, s, hd, hgap, hread⟩

theorem keepsClock_resolve (hz : tz.Stepwise) {d : Date} {t : Int} (h0 : 0 ≤ time) (h1 : time < daySeconds)
    (h : resolve tz (d.toDateTime time) = some t) : KeepsClock tz time t := by
  rw [instant_eq_some h]
  exact keepsClock_toInstant hz d h0 h1

end Clock

/-- The `k`-th date of a walk by days at the time of DTSTART, as an instant. -/
def dayStop (tz : TimeZone) (start days : Int) (k : Nat) : Int :=
  if k = 0 then start else tz.toInstant (tz.reading start + k * days * daySeconds)

/-- The `k`-th date of a walk by days has DTSTART's time, and the calendar has the next date. -/
def StepClear (tz : TimeZone) (start days : Int) (k : Nat) : Prop :=
  tz.Shows (tz.reading start + k * days * daySeconds) ∧
  ((checkedAdd (tz.reading start + k * days * daySeconds) (days * daySeconds)).bind (resolve tz)).isSome

section Days

variable {tz : TimeZone} {start days : Int}

theorem naive_reading (tz : TimeZone) {t : Int} (h : (instant t).isSome) :
    naive tz t = some (tz.reading t) := by
  obtain ⟨u, hu⟩ := Option.isSome_iff_exists.mp h
  rw [naive, hu, instant_eq_some hu]
  rfl

theorem getElem?_visits {n i : Nat} (h : i < n) (t : Int) :
    (visits tz days n t)[i]? = some ((stepDays tz days)^[i] t) := by
  induction n generalizing i t with
  | zero => exact absurd h (Nat.not_lt_zero i)
  | succ n ih =>
    cases i with
    | zero => rfl
    | succ i =>
      rw [visits, getElem?_cons_succ, ih (Nat.lt_of_succ_lt_succ h), Function.iterate_succ_apply]

theorem checkedAdd_eq_some {dt seconds dt' : Int} (h : checkedAdd dt seconds = some dt') :
    dt' = dt + seconds := by
  unfold checkedAdd at h
  split at h
  · exact (Option.some.inj h).symm
  · cases h

theorem stepDays_clear {k : Nat} {t : Int} (ht : naive tz t = some (tz.reading start + k * days * daySeconds))
    (h : StepClear tz start days k) :
    stepDays tz days t = dayStop tz start days (k + 1) ∧ (instant (dayStop tz start days (k + 1))).isSome := by
  obtain ⟨u, hu⟩ := Option.isSome_iff_exists.mp h.2
  obtain ⟨dt', hdt', hres⟩ := Option.bind_eq_some_iff.mp hu
  have hnext : dt' = tz.reading start + (k + 1 : Nat) * days * daySeconds := by
    rw [checkedAdd_eq_some hdt']
    push_cast
    ring_nf
  have hstop : u = dayStop tz start days (k + 1) := by
    rw [dayStop, if_neg (Nat.succ_ne_zero k), ← hnext]
    exact instant_eq_some hres
  refine ⟨?_, ?_⟩
  · unfold stepDays
    rw [ht, Option.bind_some, hu, Option.getD_some, hstop]
  · unfold resolve TimeZone.toZoned at hres
    rw [← hstop, instant_eq_some hres, hres]
    rfl

theorem iterate_clear (hz : tz.Stepwise) (hstart : (instant start).isSome) {i : Nat}
    (h : ∀ k < i, StepClear tz start days k) :
    (stepDays tz days)^[i] start = dayStop tz start days i ∧ (instant (dayStop tz start days i)).isSome := by
  induction i with
  | zero => exact ⟨rfl, hstart⟩
  | succ i ih =>
    obtain ⟨hat, hinst⟩ := ih (fun k hk => h k (Nat.lt_succ_of_lt hk))
    have hclear := h i (Nat.lt_succ_self i)
    have hread : tz.reading (dayStop tz start days i) = tz.reading start + i * days * daySeconds := by
      cases i with
      | zero =>
        rw [dayStop, if_pos rfl]
        simp
      | succ i =>
        rw [dayStop, if_neg (Nat.succ_ne_zero i)]
        exact hz.reading_toInstant hclear.1
    rw [Function.iterate_succ_apply', hat]
    exact stepDays_clear (by rw [naive_reading tz hinst, hread]) hclear

theorem dayStop_keepsClock (hz : tz.Stepwise) (i : Nat) :
    KeepsClock tz (tz.reading start % daySeconds) (dayStop tz start days i) := by
  unfold dayStop
  split
  · exact .inl rfl
  have hsplit : tz.reading start + i * days * daySeconds =
      Date.toDateTime (tz.reading start / daySeconds + i * days) (tz.reading start % daySeconds) := by
    have := Int.mul_ediv_add_emod (tz.reading start) daySeconds
    simp only [Date, Date.toDateTime]
    linarith
  have hpos : (0 : Int) < daySeconds := by decide
  rw [hsplit]
  exact keepsClock_toInstant hz _ (Int.emod_nonneg _ (Int.ne_of_gt hpos)) (Int.emod_lt_of_pos _ hpos)

end Days

/-- A series that was on its dates up to the `k`-th goes on after it. -/
def GoesOn (tz : TimeZone) (start days : Int) (bydayFilter : List Weekday) (cap : Nat) (windowEnd : Int)
    (k : Nat) : Prop :=
  k + 1 < rruleMaxSteps ∧
  (((List.range (k + 1)).map (dayStop tz start days)).filter (onDay tz bydayFilter)).length < cap ∧
  (∀ i ≤ k, onDay tz bydayFilter (dayStop tz start days i) = true → dayStop tz start days i ≤ windowEnd) ∧
  (onDay tz bydayFilter (stepDays tz days (dayStop tz start days k)) = true →
    stepDays tz days (dayStop tz start days k) ≤ windowEnd)

/-- No date after which a walk by days goes on lacks DTSTART's time. -/
def DaysClear (tz : TimeZone) (start days : Int) (bydayFilter : List Weekday) (cap : Nat)
    (windowEnd : Int) : Prop :=
  ∀ k, GoesOn tz start days bydayFilter cap windowEnd k → StepClear tz start days k

def HasWeekday (tz : TimeZone) (start weekAnchor : Int) (target : Weekday) : Prop :=
  ∃ anchor : DateTime, naive tz weekAnchor = some anchor ∧
    anchor.date + weekAhead anchor.date target ≤ Date.max ∧
    (resolve tz (Date.toDateTime (anchor.date + weekAhead anchor.date target)
      (tz.reading start % daySeconds))).isSome

/-- The calendar has the weekdays of each week that a walk by weeks emits. -/
def WeeksClear (tz : TimeZone) (start days weekAnchor : Int) (wds : List Weekday) (cap : Nat)
    (windowEnd : Int) : Prop :=
  ∀ pre a post, visits tz days rruleMaxSteps weekAnchor = pre ++ a :: post →
    (pre.flatMap (weekPicks tz start wds)).length < cap →
    ∀ wd ∈ wds, shiftToWeekday tz a wd start ≤ windowEnd → HasWeekday tz start a wd

/-- The series whose steps do not lose DTSTART's clock time. -/
def ClockHolds (tz : TimeZone) (start : Int) (rule : Rrule) (windowEnd : Int) : Freq → Prop
  | .daily =>
    DaysClear tz start rule.interval (rule.byday.map (·.day)) (instanceCap rule 800) windowEnd
  | .weekly =>
    if rule.byday = [] then
      DaysClear tz start (wrapI64 (rule.interval * 7)) [] (instanceCap rule 800) windowEnd
    else
      WeeksClear tz start (wrapI64 (rule.interval * 7)) (startOfWeek tz start (rule.wkst.getD .monday))
        (weekDays rule (rule.wkst.getD .monday)) (instanceCap rule 800) windowEnd
  | .monthly => True
  | .yearly => True

section Starts

variable {tz : TimeZone} {start : Int} {rule : Rrule} {windowEnd : Int}

/-- An element that a filter lets through, among the first `cap` and before the first one that fails `q`. -/
theorem mem_takeWhile_filter {α : Type} {p q : α → Bool} {cap : Nat} {l : List α} {x : α}
    (h : x ∈ ((l.filter p).take cap).takeWhile q) :
    ∃ pre post, l = pre ++ x :: post ∧ (pre.filter p).length < cap ∧
      (∀ y ∈ pre, p y = true → q y = true) ∧ p x = true ∧ q x = true := by
  induction l generalizing cap with
  | nil => simp at h
  | cons y l ih =>
    by_cases hy : p y = true
    · rw [filter_cons_of_pos hy] at h
      cases cap with
      | zero => simp at h
      | succ cap =>
        rw [take_succ_cons, takeWhile_cons] at h
        split at h
        · rename_i hq
          rcases mem_cons.mp h with rfl | h
          · exact ⟨[], l, rfl, Nat.succ_pos cap, fun z hz => absurd hz not_mem_nil, hy, hq⟩
          obtain ⟨pre, post, rfl, hlen, hpre, hx⟩ := ih h
          refine ⟨y :: pre, post, rfl, ?_, forall_mem_cons.mpr ⟨fun _ => hq, hpre⟩, hx⟩
          rw [filter_cons_of_pos hy, length_cons]
          omega
        · cases h
    · rw [filter_cons_of_neg hy] at h
      obtain ⟨pre, post, rfl, hlen, hpre, hx⟩ := ih h
      refine ⟨y :: pre, post, rfl, ?_, forall_mem_cons.mpr ⟨fun h => absurd h hy, hpre⟩, hx⟩
      rw [filter_cons_of_neg hy]
      exact hlen

theorem mem_take_flatMap {α β : Type} {f : α → List β} {cap : Nat} {l : List α} {x : β}
    (h : x ∈ (l.flatMap f).take cap) :
    ∃ pre a post, l = pre ++ a :: post ∧ x ∈ f a ∧ (pre.flatMap f).length < cap := by
  induction l generalizing cap with
  | nil => simp at h
  | cons a l ih =>
    rw [flatMap_cons, take_append, mem_append] at h
    rcases h with h | h
    · refine ⟨[], a, l, rfl, mem_of_mem_take h, ?_⟩
      cases cap with
      | zero => simp at h
      | succ cap => exact Nat.succ_pos cap
    · obtain ⟨pre, b, post, rfl, hx, hlen⟩ := ih h
      refine ⟨a :: pre, b, post, rfl, hx, ?_⟩
      rw [flatMap_cons, length_append]
      omega

variable {bydayFilter : List Weekday}

/-- The starts that a walk by days emits keep the clock if no step that it goes on with loses it. -/
theorem days_keepClock (hz : tz.Stepwise) (hstart : (instant start).isSome) {days : Int} {cap : Nat}
    (hclear : DaysClear tz start days bydayFilter cap windowEnd) {t : Int}
    (ht : t ∈ (((visits tz days rruleMaxSteps start).filter (onDay tz bydayFilter)).take cap).takeWhile
      (fun t => t ≤ windowEnd)) :
    KeepsClock tz (tz.reading start % daySeconds) t := by
  obtain ⟨pre, post, hvisits, hlen, hpre, hday, hle⟩ := mem_takeWhile_filter ht
  have hat : ∀ i, i < rruleMaxSteps → (pre ++ t :: post)[i]? = some ((stepDays tz days)^[i] start) := by
    intro i hi
    rw [← hvisits]
    exact getElem?_visits hi start
  have hmax : pre.length < rruleMaxSteps := by
    have : (visits tz days rruleMaxSteps start).length = rruleMaxSteps := length_visits _ _
    rw [hvisits, length_append, length_cons] at this
    omega
  have hget : ∀ i ≤ pre.length, (onDay tz bydayFilter ((stepDays tz days)^[i] start) = true →
      (stepDays tz days)^[i] start ≤ windowEnd) := by
    intro i hi hon
    have hi' := hat i (by omega)
    rcases Nat.lt_or_eq_of_le hi with hlt | rfl
    · rw [getElem?_append_left hlt] at hi'
      simpa using hpre _ (mem_of_getElem? hi') hon
    · rw [getElem?_append_right (Nat.le_refl _), Nat.sub_self, getElem?_cons_zero] at hi'
      rw [← Option.some.inj hi']
      simpa using hle
  -- the steps up to this start are clear, the earlier ones first
  have hsteps : ∀ k, k ≤ pre.length → ∀ i < k, StepClear tz start days i := by
    intro k
    induction k with
    | zero => exact fun _ i hi => absurd hi (Nat.not_lt_zero i)
    | succ k ih =>
      intro hk i hi
      have hbefore := ih (by omega)
      rcases Nat.lt_or_eq_of_le (Nat.le_of_lt_succ hi) with hlt | rfl
      · exact hbefore i hlt
      have hstop : ∀ j ≤ i, (stepDays tz days)^[j] start = dayStop tz start days j := fun j hj =>
        (iterate_clear hz hstart (fun m hm => hbefore m (by omega))).1
      refine hclear i ⟨by omega, ?_, ?_, ?_⟩
      · have hhead : (List.range (i + 1)).map (dayStop tz start days) = pre.take (i + 1) := by
          refine ext_getElem? (fun j => ?_)
          rw [getElem?_map, getElem?_take]
          by_cases hj : j < i + 1
          · have hj' := hat j (by omega)
            rw [getElem?_append_left (by omega)] at hj'
            rw [if_pos hj, getElem?_range hj, hj', Option.map_some, hstop j (by omega)]
          · rw [if_neg hj, getElem?_eq_none (by simpa using hj)]
            rfl
        rw [hhead]
        exact Nat.lt_of_le_of_lt ((take_sublist _ _).filter _).length_le hlen
      · intro j hj hon
        rw [← hstop j hj] at hon ⊢
        exact hget j (by omega) hon
      · intro hon
        rw [← hstop i (Nat.le_refl i), ← Function.iterate_succ_apply' (stepDays tz days) i start] at hon ⊢
        exact hget (i + 1) hk hon
  have hlast := hat pre.length hmax
  rw [getElem?_append_right (Nat.le_refl _), Nat.sub_self, getElem?_cons_zero] at hlast
  rw [Option.some.inj hlast, (iterate_clear hz hstart (hsteps _ (Nat.le_refl _))).1]
  exact dayStop_keepsClock hz _

theorem time_range (t : Int) : 0 ≤ tz.reading t % daySeconds ∧ tz.reading t % daySeconds < daySeconds :=
  ⟨Int.emod_nonneg _ (by decide), Int.emod_lt_of_pos _ (by decide)⟩

theorem shift_keepsClock (hz : tz.Stepwise) (hstart : (instant start).isSome) {weekAnchor : Int} {wd : Weekday}
    (h : HasWeekday tz start weekAnchor wd) :
    KeepsClock tz (tz.reading start % daySeconds) (shiftToWeekday tz weekAnchor wd start) := by
  obtain ⟨anchor, hanchor, hmax, hres⟩ := h
  obtain ⟨t, ht⟩ := Option.isSome_iff_exists.mp hres
  have hshift : shiftToWeekday tz weekAnchor wd start = t := by
    unfold shiftToWeekday
    rw [hanchor, naive_reading tz hstart]
    simp only
    exact (if_pos hmax).trans (congrArg (·.getD weekAnchor) ht)
  rw [hshift]
  exact keepsClock_resolve hz (time_range start).1 (time_range start).2 ht

theorem monthPicks_keepsClock (hz : tz.Stepwise) {originalDay : Nat} {m : Int × Nat} {t : Int}
    (h : t ∈ monthPicks tz rule originalDay start (tz.reading start % daySeconds) m) :
    KeepsClock tz (tz.reading start % daySeconds) t := by
  obtain ⟨day, -, hday⟩ := mem_filterMap.mp (mem_of_mem_filter h)
  obtain ⟨d, -, hd⟩ := Option.bind_eq_some_iff.mp hday
  exact keepsClock_resolve hz (time_range start).1 (time_range start).2 hd

variable {starts : List Int}

theorem span_of_daily (hstart : (instant start).isSome) {days : Int}
    (h : dailyLoop tz days bydayFilter (instanceCap rule 800) rruleMaxSteps start [] = .ok starts) :
    spanOk days := by
  obtain ⟨n, hn⟩ : ∃ n, rruleMaxSteps = n + 1 := ⟨11999, rfl⟩
  have hcap : ¬ instanceCap rule 800 ≤ ([] : List Int).length := Nat.not_le_of_lt (instanceCap_pos rule 800)
  rw [hn, dailyLoop, if_neg hcap, addDaysInZone, naive_reading tz hstart] at h
  by_contra hspan
  unfold spanOk at hspan
  simp only [if_neg hspan, bind, Except.bind] at h
  cases h

theorem span_of_weekly {days weekAnchor : Int} (hanchor : (instant weekAnchor).isSome) {wds : List Weekday}
    (h : weeklyLoop tz days wds (instanceCap rule 800) start rruleMaxSteps weekAnchor [] = .ok starts) :
    spanOk days := by
  obtain ⟨n, hn⟩ : ∃ n, rruleMaxSteps = n + 1 := ⟨11999, rfl⟩
  have hcap : ¬ instanceCap rule 800 ≤ ([] : List Int).length := Nat.not_le_of_lt (instanceCap_pos rule 800)
  rw [hn, weeklyLoop, if_neg hcap, addDaysInZone, naive_reading tz hanchor] at h
  by_contra hspan
  unfold spanOk at hspan
  simp only [if_neg hspan, bind, Except.bind] at h
  cases h

theorem span_of_expandWeekly (hstart : (instant start).isSome)
    (h : expandWeekly tz start rule = .ok starts) : spanOk (wrapI64 (rule.interval * 7)) := by
  unfold expandWeekly at h
  simp only at h
  split at h
  · exact span_of_daily hstart h
  · exact span_of_weekly (startOfWeek_instant hstart tz _) h

/-- The starts that are emitted keep the clock, under the condition of their frequency. -/
theorem starts_keepClock (hz : tz.Stepwise) (hstart : (instant start).isSome) {freq : Freq}
    (hstarts : candidateStarts tz freq start rule = .ok starts)
    (hclear : ClockHolds tz start rule windowEnd freq) :
    ∀ t ∈ starts.takeWhile (fun t => t ≤ windowEnd), KeepsClock tz (tz.reading start % daySeconds) t := by
  intro t ht
  have hnaive := naive_reading tz hstart
  have hmem := (takeWhile_sublist _).subset ht
  cases freq with
  | daily =>
    rw [candidateStarts] at hstarts
    rw [expandDaily_eq (span_of_daily hstart hstarts)] at hstarts
    cases hstarts
    exact days_keepClock hz hstart hclear ht
  | weekly =>
    rw [candidateStarts] at hstarts
    rw [expandWeekly_eq (span_of_expandWeekly hstart hstarts)] at hstarts
    cases hstarts
    unfold ClockHolds at hclear
    by_cases hby : rule.byday = []
    · rw [if_pos hby] at hclear ht
      have hall : (visits tz (wrapI64 (rule.interval * 7)) rruleMaxSteps start).filter (onDay tz []) =
          visits tz (wrapI64 (rule.interval * 7)) rruleMaxSteps start :=
        filter_eq_self.mpr (fun t _ => by simp [onDay])
      rw [← hall] at ht
      exact days_keepClock hz hstart hclear ht
    · rw [if_neg hby] at hclear ht hmem
      obtain ⟨pre, a, post, hvisits, hpick, hlen⟩ := mem_take_flatMap hmem
      obtain ⟨wd, hwd, rfl⟩ := mem_map.mp (mem_of_mem_filter hpick)
      have hle : shiftToWeekday tz a wd start ≤ windowEnd := by
        simpa using mem_takeWhile_imp ht
      exact shift_keepsClock hz hstart (hclear pre a post hvisits hlen wd hwd hle)
  | monthly =>
    rw [candidateStarts, expandMonthly_eq hnaive] at hstarts
    cases hstarts
    obtain ⟨m, -, hm⟩ := mem_flatMap.mp (mem_of_mem_take hmem)
    exact monthPicks_keepsClock hz hm
  | yearly =>
    rw [candidateStarts, expandYearly_eq hnaive] at hstarts
    cases hstarts
    obtain ⟨y, -, hy⟩ := mem_flatMap.mp (mem_of_mem_take hmem)
    obtain ⟨m, -, hm⟩ := mem_flatMap.mp hy
    exact monthPicks_keepsClock hz hm

end Starts

/-! ## Whole series -/

section Series

variable {j : Jiff} {event : CalendarViewEvent} {rrule : String} {overrides : List String}

theorem slots_map_fst (windowEnd : Int) (starts : List Int) :
    (slots windowEnd 0 starts).map Prod.fst = starts.takeWhile (fun t => t ≤ windowEnd) := by
  conv_rhs => rw [← zipIdx_map_fst 0 starts, takeWhile_map]
  rfl

theorem emitted_takeWhile {rtz : RecurrenceTz} {windowEnd : Int} {cap : Nat} {starts : List Int}
    (hlen : starts.length ≤ cap) {inst : CalendarViewEvent}
    (h : inst ∈ emitLoop j rtz event overrides windowEnd cap 0 starts []) :
    inst.startTime ∈ starts.takeWhile (fun t => t ≤ windowEnd) := by
  rw [emitLoop_eq (by simpa using hlen), nil_append] at h
  obtain ⟨s, hs, rfl⟩ := mem_map.mp h
  rw [← slots_map_fst]
  exact mem_map_of_mem (mem_of_mem_filter hs)

/-- The instances keep DTSTART's time of day if no step that a walk by days goes on with loses it. -/
theorem instances_keep_clock (j : Jiff) (event : CalendarViewEvent) (rrule : String) (overrides : List String)
    (hz : ((RecurrenceTz.fromEventTimezone j event.timezone).zone j).Stepwise)
    (hstart : (instant event.startTime).isSome)
    (hclear : ∀ rule freq, parseRrule rrule = .ok rule → Freq.parse rule.freq = some freq →
      masterOnly freq rule = false →
      ClockHolds ((RecurrenceTz.fromEventTimezone j event.timezone).zone j) event.startTime rule
        ((windowBound ((RecurrenceTz.fromEventTimezone j event.timezone).zone j) rule event.startTime none).getD
          (2 ^ 63 - 1)) freq) (instances : List CalendarViewEvent)
    (hrun : expandRecurrenceWithOverrides j event rrule overrides = .ok instances) : ∀ inst ∈ instances,
      KeepsClock ((RecurrenceTz.fromEventTimezone j event.timezone).zone j)
        (((RecurrenceTz.fromEventTimezone j event.timezone).zone j).reading event.startTime % daySeconds)
        inst.startTime := by
  intro inst hinst
  unfold expandRecurrenceWithOverrides expandRecurrenceWindowed at hrun
  obtain ⟨rule, hparse, hrun⟩ := Lib.bind_ok hrun
  simp only [bind, Except.bind] at hrun
  cases hfreq : Freq.parse rule.freq with
  | none =>
    rw [hfreq] at hrun
    cases hrun
    rw [mem_singleton.mp hinst]
    exact .inl rfl
  | some freq =>
    rw [hfreq] at hrun
    simp only at hrun
    cases hmaster : masterOnly freq rule with
    | true =>
      rw [hmaster, if_pos rfl] at hrun
      cases hrun
      rw [mem_singleton.mp hinst]
      exact .inl rfl
    | false =>
      rw [hmaster, if_neg Bool.false_ne_true] at hrun
      obtain ⟨starts, hstarts, hrun⟩ := Lib.bind_ok hrun
      cases hrun
      exact starts_keepClock hz hstart hstarts (hclear rule freq hparse hfreq hmaster) _
        (emitted_takeWhile (length_candidateStarts hstarts) hinst)

end Series

/-- Clocks in London go from 01:00 to 02:00 on 2026-03-29. -/
def london : TimeZone := TimeZone.shifting (some "Europe/London") 1774746000 0 3600

def londonHost : Jiff :=
  ⟨.utc, fun name => if name = "Europe/London" then some london else none, fun _ => none, fun _ => none,
    fun _ => none⟩

def londonEvent (startTime : Int) : CalendarViewEvent :=
  { reviewMeeting with startTime := startTime, endTime := startTime + 1800, timezone := some "Europe/London" }

theorem stepwise_london : london.Stepwise :=
  TimeZone.stepwise_shifting _ _ (by decide) (by decide)

theorem zone_london (t : Int) :
    (RecurrenceTz.fromEventTimezone londonHost (londonEvent t).timezone).zone londonHost = london := by
  rfl

/-- Daily at 01:30: the instance of the 29th is at 02:30, past the gap, and so is that of the 30th. -/
theorem gap_shifts_later_instances :
    (expandRecurrenceWithOverrides londonHost (londonEvent 1774661400) "FREQ=DAILY;COUNT=3" []).map
      (·.map (fun inst => london.reading inst.startTime % daySeconds)) = .ok [5400, 9000, 9000] ∧
    ¬ ∀ (j : Jiff) (event : CalendarViewEvent) (rrule : String) (overrides : List String),
      ((RecurrenceTz.fromEventTimezone j event.timezone).zone j).Stepwise → (instant event.startTime).isSome →
      ∀ instances, expandRecurrenceWithOverrides j event rrule overrides = .ok instances → ∀ inst ∈ instances,
        KeepsClock ((RecurrenceTz.fromEventTimezone j event.timezone).zone j)
          (((RecurrenceTz.fromEventTimezone j event.timezone).zone j).reading event.startTime % daySeconds)
          inst.startTime := by
  refine ⟨by decide, ?_⟩
  intro h
  obtain ⟨instances, hrun, hlast⟩ : ∃ instances,
      expandRecurrenceWithOverrides londonHost (londonEvent 1774661400) "FREQ=DAILY;COUNT=3" [] =
        .ok instances ∧
      ∃ inst ∈ instances, inst.startTime = 1774834200 := by
    refine ⟨_, rfl, ?_⟩
    decide
  obtain ⟨inst, hinst, htime⟩ := hlast
  have hkeeps := h londonHost (londonEvent 1774661400) "FREQ=DAILY;COUNT=3" [] stepwise_london (by decide)
    instances hrun inst hinst
  rw [zone_london, htime] at hkeeps
  have hstart : london.reading (londonEvent 1774661400).startTime % daySeconds = 5400 := by decide
  have hread : london.reading 1774834200 = 1774837800 := by decide
  rw [hstart] at hkeeps
  unfold KeepsClock at hkeeps
  rw [hread] at hkeeps
  rcases hkeeps with hsame | ⟨d, s, -, hgap, hshift⟩
  · revert hsame
    decide
  · simp only [TimeZone.InGap, TimeZone.width, london, TimeZone.shifting, Date, Date.toDateTime, daySeconds]
      at hgap hshift
    split at hgap <;> split at hgap <;> omega

theorem mornings_clear (windowEnd : Int) : DaysClear london 1774688400 1 [] 3 windowEnd := by
  rintro k ⟨-, hlen, -, -⟩
  have hall : ∀ l : List Int, l.filter (onDay london []) = l := fun l =>
    filter_eq_self.mpr (fun t _ => by simp [onDay])
  rw [hall, length_map, length_range] at hlen
  obtain rfl | rfl : k = 0 ∨ k = 1 := by omega
  · exact ⟨⟨1774688400, by decide⟩, by decide⟩
  · exact ⟨⟨1774771200, by decide⟩, by decide⟩

theorem instances_keep_clock_mornings :
    ∃ instances, expandRecurrenceWithOverrides londonHost (londonEvent 1774688400) "FREQ=DAILY;COUNT=3" [] =
        .ok instances ∧ instances.length = 3 ∧
      ∀ inst ∈ instances, KeepsClock london 32400 inst.startTime := by
  obtain ⟨instances, hrun, hlen⟩ : ∃ instances,
      expandRecurrenceWithOverrides londonHost (londonEvent 1774688400) "FREQ=DAILY;COUNT=3" [] =
        .ok instances ∧
      instances.length = 3 := ⟨_, rfl, rfl⟩
  refine ⟨instances, hrun, hlen, ?_⟩
  have hparse : parseRrule "FREQ=DAILY;COUNT=3" =
      .ok { Rrule.default with freq := "DAILY", count := some 3 } := by decide
  have hstart : london.reading (londonEvent 1774688400).startTime % daySeconds = 32400 := by decide
  have hkeeps := instances_keep_clock londonHost (londonEvent 1774688400) "FREQ=DAILY;COUNT=3" []
    stepwise_london
    (by decide) ?_ instances hrun
  · rw [zone_london, hstart] at hkeeps
    exact hkeeps
  · intro rule freq hrule hfreq _
    rw [hparse] at hrule
    obtain rfl := Except.ok.inj hrule
    obtain rfl : Freq.daily = freq := by
      simpa [Freq.parse] using hfreq
    rw [zone_london]
    exact mornings_clear _

end Ratatoskr.Calendar

import Ratatoskr.Calendar.Checked

/-!
# Calendar.Faults

Which rules expand without a fault, from a start that is an instant.

* `dailyChecked_eq`, `weeklyChecked_eq` : walks by spans that `jiff` has do not overflow.
* `monthlyChecked_ok_iff` : a walk by months overflows only where the cursor does.
* `expand_faultless_iff` : exactly the rules whose expansion has no fault.
-/

namespace Ratatoskr.Calendar

open List
open Lib (Ymd Weekday weekday toDays ofDays)

def Within (k : Nat) (t : Int) : Prop :=
  -(377705023201 + k * 631107417600) ≤ t ∧ t ≤ 377705023201 + k * 631107417600

theorem Within.mono {k n : Nat} {t : Int} (h : Within k t) (hkn : k ≤ n) : Within n t := by
  unfold Within at *
  omega

theorem within_instant {t u : Int} (h : instant t = some u) : Within 0 u := by
  obtain rfl := instant_eq_some h
  unfold instant at h
  split at h
  · unfold Within
    omega
  · cases h

theorem within_resolve {tz : TimeZone} {dt : DateTime} {u : Int} (h : resolve tz dt = some u) : Within 0 u :=
  within_instant h

section Walk

variable {tz : TimeZone} {days : Int}

theorem within_step (tz : TimeZone) {days : Int} (h : spanOk days) {k : Nat} {t : Int} (ht : Within k t) :
    Within (k + 1) (stepDays tz days t) := by
  unfold stepDays
  cases hr : ((naive tz t).bind (fun dt => checkedAdd dt (days * daySeconds))).bind (resolve tz) with
  | some u =>
    obtain ⟨dt, -, hdt⟩ := Option.bind_eq_some_iff.mp hr
    exact (within_resolve hdt).mono (Nat.zero_le _)
  | none =>
    unfold spanOk spanLimit at h
    unfold Within at *
    simp only [Option.getD_none]
    omega

theorem stepChecked_eq (h : spanOk days) {k : Nat} {t : Int} (ht : Within k t) (hk : k < rruleMaxSteps) :
    stepChecked tz days t = .ok (stepDays tz days t) := by
  obtain ⟨next, hnext, hstep⟩ := addDays_ok tz h t
  have hfits : fitsI64 (days * 86400) ∧ fitsI64 (t + days * 86400) := by
    unfold spanOk spanLimit at h
    unfold Within at ht
    unfold rruleMaxSteps at hk
    unfold fitsI64
    omega
  unfold stepChecked checkI64
  rw [hnext, if_pos hfits.1]
  simp only [orPanic, Except.mapError, bind, Except.bind]
  rw [if_pos hfits.2]
  simp [pure, Except.pure, hstep]

theorem stepChecked_span {t : Int} {dt : DateTime} (hdt : naive tz t = some dt) (h : ¬ spanOk days) :
    stepChecked tz days t = .error (.panic .spanDays) := by
  have hadd : addDaysInZone tz t days = .error .spanDays := by
    unfold addDaysInZone
    rw [hdt]
    exact if_neg h
  unfold stepChecked
  rw [hadd]
  rfl

end Walk

section Loops

variable {tz : TimeZone} {cap : Nat} {start : Int}

theorem dailyChecked_eq {interval : Int} (h : spanOk interval) {bydayFilter : List Weekday} {n k : Nat}
    {t : Int} (ht : Within k t) (hk : n + k ≤ rruleMaxSteps) {out : List Int} :
    dailyChecked tz interval bydayFilter cap n t out =
      orPanic (dailyLoop tz interval bydayFilter cap n t out) := by
  induction n generalizing k t out with
  | zero => rfl
  | succ n ih =>
    rw [dailyChecked, dailyLoop]
    split
    · rfl
    obtain ⟨next, hnext, hstep⟩ := addDays_ok tz h t
    simp only [stepChecked_eq h ht (by omega), hnext, bind, Except.bind]
    rw [hstep]
    exact ih (within_step tz h ht) (by omega)

theorem weeklyChecked_eq {intervalDays : Int} (h : spanOk intervalDays) {days : List Weekday} {n k : Nat}
    {t : Int} (ht : Within k t) (hk : n + k ≤ rruleMaxSteps) {out : List Int} :
    weeklyChecked tz intervalDays days cap start n t out =
      orPanic (weeklyLoop tz intervalDays days cap start n t out) := by
  induction n generalizing k t out with
  | zero => rfl
  | succ n ih =>
    rw [weeklyChecked, weeklyLoop]
    split
    · rfl
    obtain ⟨next, hnext, hstep⟩ := addDays_ok tz h t
    simp only [stepChecked_eq h ht (by omega), hnext, bind, Except.bind]
    rw [hstep]
    exact ih (within_step tz h ht) (by omega)

/-- A month that the walk leaves with the cap not reached, after `done` starts, is one that the cursor can
be advanced from. -/
def MonthsFit (tz : TimeZone) (rule : Rrule) (originalDay cap : Nat) (start time : Int) (done : Nat)
    (ms : List (Int × Nat)) : Prop :=
  ∀ pre m rest, ms = pre ++ m :: rest →
    done + ((pre ++ [m]).flatMap (monthPicks tz rule originalDay start time)).length < cap →
    fitsI64 ((m.2 : Int) - 1 + rule.interval)

variable {rule : Rrule} {originalDay : Nat} {time : Int}

theorem monthsFit_cons {done : Nat} {m : Int × Nat} {ms : List (Int × Nat)} :
    MonthsFit tz rule originalDay cap start time done (m :: ms) ↔
      (done + (monthPicks tz rule originalDay start time m).length < cap →
        fitsI64 ((m.2 : Int) - 1 + rule.interval) ∧ MonthsFit tz rule originalDay cap start time
          (done + (monthPicks tz rule originalDay start time m).length) ms) := by
  constructor
  · intro h hlt
    refine ⟨h [] m ms rfl (by simpa using hlt), ?_⟩
    intro pre x rest hms hx
    refine h (m :: pre) x rest (by rw [hms]; rfl) ?_
    simp only [cons_append, flatMap_cons, length_append] at hx ⊢
    omega
  · intro h pre x rest hms hx
    cases pre with
    | nil =>
      obtain ⟨rfl, rfl⟩ := List.cons.inj hms
      exact (h (by simpa using hx)).1
    | cons m' pre =>
      obtain ⟨rfl, rfl⟩ := List.cons.inj hms
      simp only [cons_append, flatMap_cons, length_append] at hx
      refine (h (by omega)).2 pre x rest rfl ?_
      omega

theorem monthlyChecked_ok_iff {n : Nat} {year : Int} {month : Nat} {out : List Int} (hout : out.length ≤ cap) :
    (∃ r, monthlyChecked tz rule originalDay cap start time n year month out = .ok r) ↔
      MonthsFit tz rule originalDay cap start time out.length (months rule.interval n year month) := by
  induction n generalizing year month out with
  | zero =>
    refine iff_of_true ⟨_, rfl⟩ ?_
    intro pre m rest hms
    cases pre <;> cases hms
  | succ n ih =>
    rw [monthlyChecked, months, monthsFit_cons]
    split
    · exact iff_of_true ⟨_, rfl⟩ (fun hlt => absurd hlt (by omega))
    rename_i hcap
    have hlen : (pushDays tz cap start time year month (monthDays rule originalDay year month) out).length =
        min cap (out.length + (monthPicks tz rule originalDay start time (year, month)).length) := by
      rw [pushDays_picks (Nat.lt_of_not_le hcap), length_take, length_append]
      rfl
    simp only
    split
    · refine iff_of_true ⟨_, rfl⟩ (fun hlt => absurd hlt ?_)
      omega
    have hlt : out.length + (monthPicks tz rule originalDay start time (year, month)).length < cap := by
      omega
    rw [checkI64]
    by_cases hfit : fitsI64 ((month : Int) - 1 + rule.interval)
    · rw [if_pos hfit]
      simp only [bind, Except.bind, hlt, hfit, true_and, forall_const]
      cases advanceMonth rule.interval year month with
      | none =>
        refine iff_of_true ⟨_, rfl⟩ ?_
        intro pre m rest hms
        cases pre <;> cases hms
      | some next =>
        rw [ih (by omega), hlen, Nat.min_eq_right (by omega)]
    · rw [if_neg hfit]
      refine iff_of_false ?_ (fun h => hfit (h hlt).1)
      rintro ⟨r, hr⟩
      cases hr

theorem monthlyChecked_agrees {n : Nat} {year : Int} {month : Nat} {out r : List Int}
    (h : monthlyChecked tz rule originalDay cap start time n year month out = .ok r) :
    monthlyLoop tz rule originalDay cap start time n year month out = r := by
  induction n generalizing year month out with
  | zero =>
    cases h
    rfl
  | succ n ih =>
    rw [monthlyChecked] at h
    rw [monthlyLoop]
    split at h
    · rename_i hcap
      cases h
      rw [if_pos hcap]
    rename_i hcap
    rw [if_neg hcap]
    simp only at h ⊢
    split at h
    · rename_i hfull
      cases h
      -- the next step stops at once
      cases advanceMonth rule.interval year month with
      | none => rfl
      | some next =>
        cases n with
        | zero => rfl
        | succ n => exact if_pos hfull
    · unfold checkI64 at h
      split at h
      · cases hnext : advanceMonth rule.interval year month with
        | none =>
          rw [hnext] at h
          cases h
          rfl
        | some next =>
          rw [hnext] at h
          exact ih h
      · cases h

end Loops

/-! ## Expanders -/

section Expanders

variable {tz : TimeZone} {start : Int} {rule : Rrule}

theorem instanceCap_pos (rule : Rrule) (n : Nat) : 0 < instanceCap rule n := by
  unfold instanceCap rruleMaxCount
  split
  · omega
  · split
    · decide
    · omega

theorem naive_of_instant (h : (instant start).isSome) (tz : TimeZone) : ∃ dt, naive tz start = some dt := by
  obtain ⟨t, ht⟩ := Option.isSome_iff_exists.mp h
  exact ⟨t + tz.offset t, by rw [naive, ht]; rfl⟩

/-- Where the steps of a rule go, as far as the code can follow. -/
def StepsFit (tz : TimeZone) (start : Int) (rule : Rrule) : Freq → Prop
  | .daily => rule.interval ≤ spanLimit
  | .weekly => rule.interval * 7 ≤ spanLimit
  | .monthly => ∀ dt, naive tz start = some dt →
      MonthsFit tz rule (ymdOf dt).day (instanceCap rule 800) start dt.time 0
        (months rule.interval rruleMaxSteps (ymdOf dt).year (ymdOf dt).month)
  | .yearly => True

theorem spanOk_of_pos {interval : Int} (hpos : 1 ≤ interval) : spanOk interval ↔ interval ≤ spanLimit := by
  unfold spanOk spanLimit
  omega

theorem within_start (h : (instant start).isSome) : Within 0 start := by
  obtain ⟨t, ht⟩ := Option.isSome_iff_exists.mp h
  have hwithin := within_instant ht
  rwa [instant_eq_some ht] at hwithin

theorem dailyChecked_ok_iff (hstart : (instant start).isSome) {interval : Int} (hpos : 1 ≤ interval)
    {bydayFilter : List Weekday} :
    (∃ r, dailyChecked tz interval bydayFilter (instanceCap rule 800) rruleMaxSteps start [] = .ok r) ↔
      interval ≤ spanLimit := by
  rw [← spanOk_of_pos hpos]
  by_cases h : spanOk interval
  · refine iff_of_true ?_ h
    rw [dailyChecked_eq h (within_start hstart) (Nat.add_zero rruleMaxSteps).le, dailyLoop_eq h (Nat.zero_le _)]
    exact ⟨_, rfl⟩
  · refine iff_of_false ?_ h
    rintro ⟨r, hr⟩
    obtain ⟨n, hn⟩ : ∃ n, rruleMaxSteps = n + 1 := ⟨11999, rfl⟩
    obtain ⟨dt, hdt⟩ := naive_of_instant hstart tz
    have hcap : ¬ instanceCap rule 800 ≤ ([] : List Int).length := Nat.not_le_of_lt (instanceCap_pos rule 800)
    rw [hn, dailyChecked, if_neg hcap, stepChecked_span hdt h] at hr
    cases hr

theorem startOfWeek_instant (hstart : (instant start).isSome) (tz : TimeZone) (weekStart : Weekday) :
    (instant (startOfWeek tz start weekStart)).isSome := by
  unfold startOfWeek
  split
  · exact hstart
  rename_i dt _
  simp only
  cases hr : (checkedAdd dt (-((((weekday dt.date).offset : Int) - weekStart.offset) % 7) *
      daySeconds)).bind (resolve tz) with
  | none => exact hstart
  | some u =>
    obtain ⟨dt', -, hu⟩ := Option.bind_eq_some_iff.mp hr
    obtain rfl := instant_eq_some hu
    unfold resolve TimeZone.toZoned at hu
    rw [Option.getD_some, hu]
    rfl

theorem weeklyChecked_ok_iff (hstart : (instant start).isSome) (hrule : RuleRead rule) :
    (∃ r, expandWeeklyChecked tz start rule = .ok r) ↔ rule.interval * 7 ≤ spanLimit := by
  have hpos := hrule.interval_pos
  unfold expandWeeklyChecked checkI64
  by_cases hfit : fitsI64 (rule.interval * 7)
  · rw [if_pos hfit]
    simp only [bind, Except.bind]
    split
    · exact dailyChecked_ok_iff hstart (by omega)
    have hpos7 : 1 ≤ rule.interval * 7 := by omega
    rw [← spanOk_of_pos hpos7]
    have hanchor := startOfWeek_instant hstart tz (rule.wkst.getD .monday)
    by_cases h : spanOk (rule.interval * 7)
    · refine iff_of_true ?_ h
      rw [weeklyChecked_eq h (within_start hanchor) (Nat.add_zero rruleMaxSteps).le,
        weeklyLoop_eq h (Nat.zero_le _)]
      exact ⟨_, rfl⟩
    · refine iff_of_false ?_ h
      rintro ⟨r, hr⟩
      obtain ⟨n, hn⟩ : ∃ n, rruleMaxSteps = n + 1 := ⟨11999, rfl⟩
      obtain ⟨dt, hdt⟩ := naive_of_instant hanchor tz
      have hcap : ¬ instanceCap rule 800 ≤ ([] : List Int).length :=
        Nat.not_le_of_lt (instanceCap_pos rule 800)
      rw [hn, weeklyChecked, if_neg hcap, stepChecked_span hdt h] at hr
      cases hr
  · rw [if_neg hfit]
    refine iff_of_false ?_ ?_
    · rintro ⟨r, hr⟩
      cases hr
    · unfold fitsI64 at hfit
      unfold spanLimit
      omega

theorem candidateStartsChecked_ok_iff (tz : TimeZone) (hstart : (instant start).isSome) (hrule : RuleRead rule)
    (freq : Freq) :
    (∃ r, candidateStartsChecked tz freq start rule = .ok r) ↔ StepsFit tz start rule freq := by
  cases freq with
  | daily => exact dailyChecked_ok_iff hstart hrule.interval_pos
  | weekly => exact weeklyChecked_ok_iff hstart hrule
  | monthly =>
    obtain ⟨dt, hdt⟩ := naive_of_instant hstart tz
    rw [candidateStartsChecked, expandMonthlyChecked, StepsFit, hdt]
    simp only [Option.some.injEq, forall_eq']
    exact monthlyChecked_ok_iff (Nat.zero_le _)
  | yearly => exact iff_of_true ⟨_, rfl⟩ trivial

theorem wrapI64_of_fits {n : Int} (h : fitsI64 n) : wrapI64 n = n := by
  unfold fitsI64 at h
  unfold wrapI64
  omega

theorem candidateStarts_agrees (hstart : (instant start).isSome) (hrule : RuleRead rule) {freq : Freq}
    {starts : List Int} (h : candidateStartsChecked tz freq start rule = .ok starts) :
    candidateStarts tz freq start rule = .ok starts := by
  have hfit := (candidateStartsChecked_ok_iff tz hstart hrule freq).mp ⟨starts, h⟩
  have hpos := hrule.interval_pos
  have horPanic : ∀ {r : Except Panic (List Int)}, orPanic r = .ok starts → r = .ok starts := by
    intro r hr
    cases r with
    | error p => cases hr
    | ok l =>
      cases hr
      rfl
  cases freq with
  | daily =>
    rw [candidateStartsChecked, dailyChecked_eq ((spanOk_of_pos hpos).mpr hfit) (within_start hstart)
      (Nat.add_zero rruleMaxSteps).le] at h
    exact horPanic h
  | weekly =>
    have hspan : spanOk (rule.interval * 7) := (spanOk_of_pos (by omega)).mpr hfit
    have hfits : fitsI64 (rule.interval * 7) := by
      unfold spanOk spanLimit at hspan
      unfold fitsI64
      omega
    rw [candidateStartsChecked, expandWeeklyChecked, checkI64, if_pos hfits] at h
    simp only [bind, Except.bind] at h
    rw [candidateStarts, expandWeekly, wrapI64_of_fits hfits]
    split at h
    · rename_i hby
      rw [if_pos hby]
      rw [dailyChecked_eq hspan (within_start hstart) (Nat.add_zero rruleMaxSteps).le] at h
      exact horPanic h
    · rename_i hby
      rw [if_neg hby]
      rw [weeklyChecked_eq hspan (within_start (startOfWeek_instant hstart tz _))
        (Nat.add_zero rruleMaxSteps).le] at h
      exact horPanic h
  | monthly =>
    obtain ⟨dt, hdt⟩ := naive_of_instant hstart tz
    rw [candidateStartsChecked, expandMonthlyChecked, hdt] at h
    rw [candidateStarts, expandMonthly, hdt]
    exact congrArg Except.ok (monthlyChecked_agrees h)
  | yearly =>
    cases h
    rfl

theorem within_visits {days : Int} (h : spanOk days) {n k : Nat} {t : Int} (ht : Within k t) :
    ∀ v ∈ visits tz days n t, Within (k + n) v := by
  induction n generalizing k t with
  | zero =>
    intro v hv
    cases hv
  | succ n ih =>
    intro v hv
    rcases mem_cons.mp hv with rfl | hv
    · exact ht.mono (by omega)
    · have hstep := ih (within_step tz h ht) v hv
      exact hstep.mono (by omega)

theorem within_shift {weekAnchor : Int} {k : Nat} (h : Within k weekAnchor) (target : Weekday) :
    Within k (shiftToWeekday tz weekAnchor target start) := by
  unfold shiftToWeekday
  split
  · simp only
    split
    · cases hr : resolve tz _ with
      | none => exact h
      | some u => exact (within_resolve hr).mono (Nat.zero_le _)
    · exact h
  · exact h

theorem within_monthPicks {originalDay : Nat} {time : Int} {m : Int × Nat} {t : Int}
    (h : t ∈ monthPicks tz rule originalDay start time m) : Within 0 t := by
  obtain ⟨day, -, hday⟩ := mem_filterMap.mp (mem_of_mem_filter h)
  obtain ⟨d, -, hd⟩ := Option.bind_eq_some_iff.mp hday
  exact within_resolve hd

theorem within_starts (hstart : (instant start).isSome) (hrule : RuleRead rule) {freq : Freq}
    {starts : List Int} (h : candidateStartsChecked tz freq start rule = .ok starts) :
    ∀ t ∈ starts, Within rruleMaxSteps t := by
  have hfit := (candidateStartsChecked_ok_iff tz hstart hrule freq).mp ⟨starts, h⟩
  have hpos := hrule.interval_pos
  have hstarts := candidateStarts_agrees hstart hrule h
  obtain ⟨dt, hdt⟩ := naive_of_instant hstart tz
  have hvisits : ∀ {days t v : Int}, spanOk days → (instant t).isSome →
      v ∈ visits tz days rruleMaxSteps t → Within rruleMaxSteps v := by
    intro days t v hspan ht hv
    have := within_visits hspan (within_start ht) v hv
    rwa [Nat.zero_add] at this
  intro t ht
  cases freq with
  | daily =>
    rw [candidateStarts, expandDaily_eq ((spanOk_of_pos hpos).mpr hfit)] at hstarts
    cases hstarts
    exact hvisits ((spanOk_of_pos hpos).mpr hfit) hstart (mem_of_mem_filter (mem_of_mem_take ht))
  | weekly =>
    have hspan : spanOk (rule.interval * 7) := (spanOk_of_pos (by omega)).mpr hfit
    have hfits : fitsI64 (rule.interval * 7) := by
      unfold spanOk spanLimit at hspan
      unfold fitsI64
      omega
    rw [candidateStarts, expandWeekly_eq (by rw [wrapI64_of_fits hfits]; exact hspan),
      wrapI64_of_fits hfits] at hstarts
    cases hstarts
    split at ht
    · exact hvisits hspan hstart (mem_of_mem_take ht)
    · obtain ⟨a, ha, hpick⟩ := mem_flatMap.mp (mem_of_mem_take ht)
      obtain ⟨wd, -, rfl⟩ := mem_map.mp (mem_of_mem_filter hpick)
      exact within_shift (hvisits hspan (startOfWeek_instant hstart tz _) ha) wd
  | monthly =>
    rw [candidateStarts, expandMonthly_eq hdt] at hstarts
    cases hstarts
    obtain ⟨m, -, hm⟩ := mem_flatMap.mp (mem_of_mem_take ht)
    exact (within_monthPicks hm).mono (Nat.zero_le _)
  | yearly =>
    rw [candidateStarts, expandYearly_eq hdt] at hstarts
    cases hstarts
    obtain ⟨y, -, hy⟩ := mem_flatMap.mp (mem_of_mem_take ht)
    obtain ⟨m, -, hm⟩ := mem_flatMap.mp hy
    exact (within_monthPicks hm).mono (Nat.zero_le _)

end Expanders

/-! ## Whole expansions -/

section Expansion

variable {j : Jiff} {event : CalendarViewEvent} {rrule : String} {overrides : List String}
  {expansionHorizon : Option Int}

theorem emitted_start {rtz : RecurrenceTz} {windowEnd : Int} {cap : Nat} {starts : List Int}
    (hlen : starts.length ≤ cap) {inst : CalendarViewEvent}
    (h : inst ∈ emitLoop j rtz event overrides windowEnd cap 0 starts []) : inst.startTime ∈ starts := by
  rw [emitLoop_eq (by simpa using hlen)] at h
  obtain ⟨s, hs, rfl⟩ := mem_map.mp h
  have hmem := (takeWhile_sublist _).subset (mem_of_mem_filter hs)
  exact mem_of_getElem? (mem_zipIdx_iff_getElem?.mp hmem)

theorem mapM_check {raw : Int} {l : List CalendarViewEvent} (h : ∀ inst ∈ l, fitsI64 (inst.startTime + raw)) :
    l.mapM (fun inst => do
      let _ ← checkI64 (inst.startTime + raw)
      (pure inst : Except Fault CalendarViewEvent)) = .ok l := by
  induction l with
  | nil => rfl
  | cons inst l ih =>
    obtain ⟨hinst, hl⟩ := forall_mem_cons.mp h
    rw [mapM_cons, ih hl, checkI64, if_pos hinst]
    rfl

theorem expandChecked_eq (hstart : (instant event.startTime).isSome) (hend : (instant event.endTime).isSome)
    {rule : Rrule} {freq : Freq} (hparse : parseRrule rrule = .ok rule)
    (hfreq : Freq.parse rule.freq = some freq) (hmaster : masterOnly freq rule = false) :
    expandRecurrenceChecked j event rrule overrides expansionHorizon =
      (candidateStartsChecked ((RecurrenceTz.fromEventTimezone j event.timezone).zone j) freq event.startTime
        rule).map (fun starts =>
          emitLoop j (RecurrenceTz.fromEventTimezone j event.timezone) event overrides
            ((windowBound ((RecurrenceTz.fromEventTimezone j event.timezone).zone j) rule event.startTime
              expansionHorizon).getD (2 ^ 63 - 1)) (instanceCap rule 800) 0 starts []) := by
  have hs := within_start hstart
  have he := within_start hend
  have hraw : fitsI64 (event.endTime - event.startTime) ∧ fitsI64 (event.startTime + 730 * 86400) := by
    unfold Within at hs he
    unfold fitsI64
    omega
  unfold expandRecurrenceChecked
  rw [hparse]
  simp only [orPanic, Except.mapError, bind, Except.bind, hfreq, hmaster]
  rw [checkI64, if_pos hraw.1, checkI64, if_pos hraw.2]
  cases hstarts : candidateStartsChecked ((RecurrenceTz.fromEventTimezone j event.timezone).zone j) freq
      event.startTime rule with
  | error f => rfl
  | ok starts =>
    have hrule := ruleRead_of_parse hparse
    have hlen := length_candidateStarts (candidateStarts_agrees hstart hrule hstarts)
    refine mapM_check ?_
    intro inst hinst
    have hwithin := within_starts hstart hrule hstarts _ (emitted_start hlen hinst)
    unfold Within rruleMaxSteps at hwithin
    unfold Within at hs he
    unfold fitsI64
    omega

/-- A rule expands without a fault exactly when each UNTIL is read as a time of the day and the steps of the
rule fit. -/
theorem expand_faultless_iff (j : Jiff) (event : CalendarViewEvent) (rrule : String) (overrides : List String)
    (expansionHorizon : Option Int) (hstart : (instant event.startTime).isSome)
    (hend : (instant event.endTime).isSome) :
    (∃ r, expandRecurrenceChecked j event rrule overrides expansionHorizon = .ok r) ↔
      (∀ part ∈ ruleParts rrule, PartReads part) ∧
      ∀ rule freq, parseRrule rrule = .ok rule → Freq.parse rule.freq = some freq →
        masterOnly freq rule = false →
        StepsFit ((RecurrenceTz.fromEventTimezone j event.timezone).zone j) event.startTime rule freq := by
  rw [← parse_isOk_iff]
  cases hparse : parseRrule rrule with
  | error p =>
    refine iff_of_false ?_ ?_
    · rintro ⟨r, hr⟩
      rw [expandRecurrenceChecked, hparse] at hr
      cases hr
    · rintro ⟨⟨r, hr⟩, -⟩
      cases hr
  | ok rule =>
    have hok : ∃ r, (Except.ok rule : Except Panic Rrule) = .ok r := ⟨rule, rfl⟩
    rw [and_iff_right hok]
    cases hfreq : Freq.parse rule.freq with
    | none =>
      refine iff_of_true ?_ ?_
      · rw [expandRecurrenceChecked, hparse]
        simp only [orPanic, Except.mapError, bind, Except.bind, hfreq]
        exact ⟨_, rfl⟩
      · intro rule' freq hrule hfreq'
        cases hrule
        rw [hfreq] at hfreq'
        cases hfreq'
    | some freq =>
      cases hmaster : masterOnly freq rule with
      | true =>
        refine iff_of_true ?_ ?_
        · rw [expandRecurrenceChecked, hparse]
          simp only [orPanic, Except.mapError, bind, Except.bind, hfreq, hmaster, if_true]
          exact ⟨_, rfl⟩
        · intro rule' freq' hrule hfreq' hmaster'
          cases hrule
          rw [hfreq] at hfreq'
          cases hfreq'
          rw [hmaster] at hmaster'
          cases hmaster'
      | false =>
        rw [expandChecked_eq hstart hend hparse hfreq hmaster]
        have hiff := candidateStartsChecked_ok_iff ((RecurrenceTz.fromEventTimezone j event.timezone).zone j)
          hstart (ruleRead_of_parse hparse) freq
        constructor
        · rintro ⟨r, hr⟩ rule' freq' hrule hfreq' -
          cases hrule
          rw [hfreq] at hfreq'
          cases hfreq'
          refine hiff.mp ?_
          cases hstarts : candidateStartsChecked ((RecurrenceTz.fromEventTimezone j event.timezone).zone j) freq
              event.startTime rule with
          | error f =>
            rw [hstarts] at hr
            cases hr
          | ok starts => exact ⟨starts, rfl⟩
        · intro hall
          obtain ⟨starts, hstarts⟩ := hiff.mpr (hall rule freq rfl hfreq hmaster)
          rw [hstarts]
          exact ⟨_, rfl⟩

end Expansion

def bareHost : Jiff := ⟨.utc, fun _ => none, fun _ => none, fun _ => none, fun _ => none⟩

def reviewMeeting : CalendarViewEvent where
  id := "review"
  title := "Review"
  startTime := 1767603600
  endTime := 1767607200
  allDay := false
  color := ""
  calendarName := none
  location := none
  recurrenceRule := none
  calendarId := none
  accountId := "acct"
  organizerName := none
  organizerEmail := none
  rsvpStatus := none
  description := none
  availability := none
  visibility := none
  timezone := none
  uid := none
  recurrenceIdCanonical := none

/-- An hour that does not exist, days that are no span, and a month that does not fit. -/
theorem server_rules_fault :
    expandRecurrenceChecked bareHost reviewMeeting "FREQ=DAILY;UNTIL=20260101T250000" [] none =
      .error (.panic .dateAt) ∧
    expandRecurrenceChecked bareHost reviewMeeting "FREQ=DAILY;INTERVAL=7304485" [] none =
      .error (.panic .spanDays) ∧
    expandRecurrenceChecked bareHost reviewMeeting "FREQ=WEEKLY;INTERVAL=9223372036854775807" [] none =
      .error .overflow ∧
    ¬ ∀ (j : Jiff) (event : CalendarViewEvent) (rrule : String), (instant event.startTime).isSome →
      (instant event.endTime).isSome → ∃ r, expandRecurrenceChecked j event rrule [] none = .ok r := by
  have huntil : expandRecurrenceChecked bareHost reviewMeeting "FREQ=DAILY;UNTIL=20260101T250000" [] none =
      .error (.panic .dateAt) := by decide
  refine ⟨huntil, by decide, by decide, ?_⟩
  intro h
  obtain ⟨r, hr⟩ := h bareHost reviewMeeting "FREQ=DAILY;UNTIL=20260101T250000" (by decide) (by decide)
  rw [huntil] at hr
  cases hr

theorem expand_faultless_thirdDays :
    ∃ r, expandRecurrenceChecked bareHost reviewMeeting "FREQ=DAILY;INTERVAL=3;UNTIL=20261231T235959Z" [] none =
      .ok r := by
  refine (expand_faultless_iff bareHost reviewMeeting "FREQ=DAILY;INTERVAL=3;UNTIL=20261231T235959Z" [] none
    (by decide) (by decide)).mpr ⟨(parse_isOk_iff _).mp ⟨_, rfl⟩, ?_⟩
  intro rule freq hrule hfreq _
  cases hrule
  cases hfreq
  exact (by decide : (3 : Int) ≤ spanLimit)

end Ratatoskr.Calendar

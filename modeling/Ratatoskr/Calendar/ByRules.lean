import Ratatoskr.Calendar.AllDay

/-!
# Calendar.ByRules

What the walk in UTC gives for an all-day series: starts at midnights, on dates that the BY parts of the
rule allow.

* `nth_occurrence`, `nth_from_end` : ordinals of a weekday in its month, counted by sevens.
* `starts_by` : every start of a walk.
-/

namespace Ratatoskr.Calendar

open List
open Lib (Ymd Weekday weekday ofDays toDays monthLength)

variable {i day month : Nat} {year : Int} {wd : Weekday}

theorem offset_weekday (d : Int) : ((weekday d).offset : Int) = (d + 3) % 7 := by
  rw [weekday, Weekday.offset_ofOffset]
  omega

theorem weekday_ahead (a : Int) (target : Weekday) : weekday (a + weekAhead a target) = target := by
  apply Weekday.offset_inj
  have hlt := target.offset_lt
  have hsum := offset_weekday (a + weekAhead a target)
  have hahead : weekAhead a target = ((target.offset : Int) - (a + 3) % 7) % 7 := by
    rw [weekAhead, offset_weekday]
  omega

theorem length_sevenths {r : Nat} (hr : r < 7) (n : Nat) :
    ((List.range' 1 n).filter (fun d => (d - 1) % 7 = r)).length = (n + 6 - r) / 7 := by
  induction n with
  | zero =>
    have h0 : (0 + 6 - r) / 7 = 0 := by omega
    rw [h0]
    rfl
  | succ n ih =>
    rw [range'_concat, filter_append, length_append, filter_singleton, Bool.cond_decide]
    split
    · rw [length_singleton]
      omega
    · rw [length_nil]
      omega

theorem getElem?_sevenths {r : Nat} (hr : r < 7) {n : Nat}
    (h : ((List.range' 1 n).filter (fun d => (d - 1) % 7 = r))[i]? = some day) :
    day = 7 * i + r + 1 ∧ day ≤ n := by
  induction n with
  | zero => cases h
  | succ n ih =>
    rw [range'_concat, filter_append, getElem?_append, length_sevenths hr] at h
    split at h
    · have := ih h
      omega
    rw [filter_singleton, Bool.cond_decide] at h
    split at h
    · rw [getElem?_singleton] at h
      split at h
      · have hday := Option.some.inj h
        omega
      · cases h
    · cases h

theorem occurrences_eq {day1 : Date} (h : civilDate year month 1 = some day1) :
    weekdayOccurrencesInMonth year month wd = (List.range' 1 (daysInMonth year month)).filter
        (fun d => (d - 1) % 7 = (wd.offset + 7 - (weekday day1).offset) % 7) := by
  have hw := (weekday day1).offset_lt
  have hwd := wd.offset_lt
  rw [weekdayOccurrencesInMonth, h]
  simp only
  congr 1
  funext d
  have hmod : ((weekday day1).offset + (d - 1) % 7) % 7 = wd.offset ↔
      (d - 1) % 7 = (wd.offset + 7 - (weekday day1).offset) % 7 := by omega
  simp only [hmod]

/-- The date is the n-th of its weekday in its month, from the end if `n` is negative. -/
def IsNth (n : Int) (e : Date) : Prop :=
  if 0 < n then (((ofDays e).day : Int) - 1) / 7 + 1 = n
  else ((monthLength (ofDays e).year (ofDays e).month : Int) - (ofDays e).day) / 7 + 1 = -n

theorem nth_occurrence (h : (weekdayOccurrencesInMonth year month wd)[i]? = some day) :
    (day - 1) / 7 = i := by
  cases h1 : civilDate year month 1 with
  | none =>
    rw [weekdayOccurrencesInMonth, h1] at h
    cases h
  | some day1 =>
    rw [occurrences_eq h1] at h
    have hr : (wd.offset + 7 - (weekday day1).offset) % 7 < 7 := Nat.mod_lt _ (by decide)
    have := getElem?_sevenths hr h
    omega

theorem nth_from_end (h : (weekdayOccurrencesInMonth year month wd).reverse[i]? = some day) :
    (daysInMonth year month - day) / 7 = i := by
  cases h1 : civilDate year month 1 with
  | none =>
    rw [weekdayOccurrencesInMonth, h1] at h
    cases h
  | some day1 =>
    rw [occurrences_eq h1] at h
    have hr : (wd.offset + 7 - (weekday day1).offset) % 7 < 7 := Nat.mod_lt _ (by decide)
    have hlen := length_sevenths hr (daysInMonth year month)
    obtain ⟨hi, -⟩ := List.getElem?_eq_some_iff.mp h
    rw [length_reverse, hlen] at hi
    rw [getElem?_reverse (by rw [hlen]; exact hi)] at h
    have := getElem?_sevenths hr h
    omega

/-- The parts of a rule that its frequency is documented to honour. -/
structure Supported (freq : Freq) (rule : Rrule) : Prop where
  expanded : masterOnly freq rule = false
  monthday : rule.bymonthday ≠ [] → freq = .monthly ∨ freq = .yearly
  month : rule.bymonth ≠ [] → freq = .yearly

/-- The date meets the BY parts; ordinals count in the month, and only in monthly and yearly rules. -/
structure SatisfiesBy (freq : Freq) (rule : Rrule) (e : Date) : Prop where
  byday : rule.byday ≠ [] → ∃ b ∈ rule.byday, weekday e = b.day ∧
    (freq = .monthly ∨ freq = .yearly → ∀ n, b.ordinal = some n → IsNth n e)
  bymonthday : rule.bymonthday ≠ [] → ∃ d ∈ rule.bymonthday, ((ofDays e).day : Int) =
    if d < 0 then (monthLength (ofDays e).year (ofDays e).month : Int) + d + 1 else d
  bymonth : rule.bymonth ≠ [] → (ofDays e).month ∈ rule.bymonth

section Months

variable {rule : Rrule} {year : Int} {month day : Nat} {e : Int}

theorem civilDate_ymd (h : civilDate year month day = some e) :
    ofDays e = ⟨year, month, day⟩ ∧ e = toDays ⟨year, month, day⟩ ∧ 1 ≤ day ∧
      day ≤ daysInMonth year month := by
  unfold civilDate at h
  split at h
  · rename_i hcond
    obtain ⟨-, -, hm0, hm1, hd0, hd1⟩ := hcond
    cases h
    exact ⟨Lib.ofDays_toDays ⟨hm0, hm1, hd0, hd1⟩, rfl, hd0, hd1⟩
  · cases h

theorem weekday_of_occurrence {wd : Weekday} (hday : day ∈ weekdayOccurrencesInMonth year month wd)
    (h : civilDate year month day = some e) : weekday e = wd := by
  obtain ⟨-, he, hd0, -⟩ := civilDate_ymd h
  cases h1 : civilDate year month 1 with
  | none =>
    rw [weekdayOccurrencesInMonth, h1] at hday
    cases hday
  | some day1 =>
    rw [weekdayOccurrencesInMonth, h1] at hday
    obtain ⟨-, hmod⟩ := mem_filter.mp hday
    simp only [decide_eq_true_eq] at hmod
    have hday1 : day1 = toDays ⟨year, month, 1⟩ := (civilDate_ymd h1).2.1
    have hsum : toDays ⟨year, month, day⟩ = toDays ⟨year, month, 1⟩ + (day - 1) := by
      simp only [toDays]
      omega
    have hfirst := offset_weekday (toDays ⟨year, month, 1⟩)
    have hthis := offset_weekday (toDays ⟨year, month, day⟩)
    apply Weekday.offset_inj
    rw [he]
    rw [hday1] at hmod
    omega

theorem byday_of_mem {byday : List ByDay} (hday : day ∈ bydayDays year month byday)
    (h : civilDate year month day = some e) :
    ∃ b ∈ byday, weekday e = b.day ∧ ∀ n, b.ordinal = some n → IsNth n e := by
  obtain ⟨hymd, -, hd0, hd1⟩ := civilDate_ymd h
  obtain ⟨b, hb, hmem⟩ := mem_flatMap.mp hday
  refine ⟨b, hb, ?_⟩
  cases hord : b.ordinal with
  | none =>
    rw [hord] at hmem
    exact ⟨weekday_of_occurrence hmem h, fun n hn => by cases hn⟩
  | some n =>
    rw [hord] at hmem
    have hnth : nthWeekdayInMonth year month b.day n = some day := Option.mem_toList.mp hmem
    unfold nthWeekdayInMonth at hnth
    split at hnth
    · rename_i hpos
      refine ⟨weekday_of_occurrence (mem_of_getElem? hnth) h, ?_⟩
      intro n' hn'
      cases hn'
      have hidx := nth_occurrence hnth
      rw [IsNth, if_pos hpos, hymd]
      simp only
      omega
    · rename_i hpos
      split at hnth
      · have hmem' := mem_reverse.mp (mem_of_getElem? hnth)
        refine ⟨weekday_of_occurrence hmem' h, ?_⟩
        intro n' hn'
        cases hn'
        have hidx := nth_from_end hnth
        rw [daysInMonth] at hidx hd1
        rw [IsNth, if_neg hpos, hymd]
        simp only
        omega
      · cases hnth

theorem bymonthday_of_mem {bymonthday : List Int} (hday : day ∈ bymonthdayDays year month bymonthday)
    (h : civilDate year month day = some e) : ∃ d ∈ bymonthday, ((ofDays e).day : Int) =
      if d < 0 then (monthLength (ofDays e).year (ofDays e).month : Int) + d + 1 else d := by
  obtain ⟨d, hd, hres⟩ := mem_filterMap.mp hday
  refine ⟨d, hd, ?_⟩
  rw [(civilDate_ymd h).1]
  have hvalue : ∀ value : Int,
      (if value < 1 ∨ (monthLength year month : Int) < value then none else some value.toNat) =
        some day → (day : Int) = value := by
    intro value hsome
    split at hsome
    · cases hsome
    · have heq := Option.some.inj hsome
      omega
  exact hvalue _ hres

theorem collected_of_mem {originalDay : Nat} (hday : day ∈ monthDays rule originalDay year month)
    (hby : ¬ (rule.byday = [] ∧ rule.bymonthday = [])) :
    day ∈ collectMonthlyDays year month rule.byday rule.bymonthday := by
  rw [monthDays, if_neg hby] at hday
  exact (mem_insertionSort _).mp ((destutter_sublist _ _).subset hday)

theorem by_of_monthDays {freq : Freq} {originalDay : Nat}
    (hday : day ∈ monthDays rule originalDay year month) (h : civilDate year month day = some e)
    (hmonth : rule.bymonth ≠ [] → month ∈ rule.bymonth) : SatisfiesBy freq rule e := by
  refine ⟨?_, ?_, ?_⟩
  · intro hne
    have hmem := collected_of_mem hday (fun hnil => hne hnil.1)
    rw [collectMonthlyDays, if_neg hne] at hmem
    have hbyday : day ∈ bydayDays year month rule.byday := by
      split at hmem
      · exact hmem
      · exact (mem_filter.mp hmem).1
    obtain ⟨b, hb, hwd, hord⟩ := byday_of_mem hbyday h
    exact ⟨b, hb, hwd, fun _ => hord⟩
  · intro hne
    have hmem := collected_of_mem hday (fun hnil => hne hnil.2)
    refine bymonthday_of_mem ?_ h
    rw [collectMonthlyDays] at hmem
    split at hmem
    · exact hmem
    · exact of_decide_eq_true (mem_filter.mp hmem).2
  · rw [(civilDate_ymd h).1]
    exact hmonth

end Months

/-! ## Walks in UTC -/

section Starts

variable {cap : Nat} {d : Int} {rule : Rrule}
variable {e start year : Int} {days : List Weekday} {n originalDay : Nat} {out res : List Int}
  {P : Int → Prop} {months : List Nat}

theorem weekday_of_matches (h : matchesWeekday .utc (midnight e) days = true) : weekday e ∈ days := by
  rcases instant_midnight e with he | he
  · rw [matchesWeekday, naive_midnight_none he] at h
    cases h
  · rw [matchesWeekday, naive_utc, he] at h
    simp only [date_midnight, decide_eq_true_eq] at h
    exact h

theorem daily_starts {interval : Int} {bydayFilter : List Weekday}
    (hP : ∀ e, (bydayFilter ≠ [] → weekday e ∈ bydayFilter) → P (midnight e)) (hout : ∀ s ∈ out, P s)
    (h : dailyLoop .utc interval bydayFilter cap n (midnight d) out = .ok res) : ∀ s ∈ res, P s := by
  induction n generalizing d out with
  | zero =>
    cases h
    exact hout
  | succ n ih =>
    rw [dailyLoop] at h
    split at h
    · cases h
      exact hout
    obtain ⟨next, hadd, h⟩ := Lib.bind_ok h
    simp only [next_midnight hadd] at h
    refine ih ?_ h
    split
    · rename_i hpick
      intro s hs
      rcases mem_append.mp hs with hs | hs
      · exact hout s hs
      rw [mem_singleton.mp hs]
      refine hP d (fun hne => ?_)
      rcases hpick with hnil | hmatch
      · exact absurd hnil hne
      · exact weekday_of_matches hmatch
    · exact hout

theorem instant_none (h : instant (midnight e) = none) : e ≤ -4371586 ∨ 2932896 ≤ e := by
  unfold instant at h
  split at h
  · cases h
  · rename_i hrange
    simp only [midnight, daySeconds] at hrange
    omega

theorem shift_utc (hd : instant (midnight d) = some (midnight d)) (a : Int) (wd : Weekday) :
    shiftToWeekday .utc (midnight a) wd (midnight d) = midnight (a + weekAhead a wd) ∨
    shiftToWeekday .utc (midnight a) wd (midnight d) = midnight a ∧ (a ≤ -4371586 ∨ 2932890 ≤ a) := by
  have hahead : 0 ≤ weekAhead a wd ∧ weekAhead a wd < 7 :=
    ⟨Int.emod_nonneg _ (by decide), Int.emod_lt_of_pos _ (by decide)⟩
  have hmax : Date.max = 2932896 := by decide
  have htime : DateTime.time (midnight d) = 0 := Int.mul_emod_left d 86400
  rcases instant_midnight a with ha | ha
  · right
    refine ⟨by rw [shiftToWeekday, naive_midnight_none ha], ?_⟩
    have := instant_none ha
    omega
  · rw [shiftToWeekday, naive_utc, naive_utc, ha, hd]
    simp only [date_midnight, htime]
    by_cases hle : a + weekAhead a wd ≤ 2932896
    · rw [if_pos (by exact hle)]
      have hreading : Date.toDateTime (a + weekAhead a wd) 0 = midnight (a + weekAhead a wd) :=
        Int.add_zero _
      change (resolve .utc (Date.toDateTime (a + weekAhead a wd) 0)).getD (midnight a) = _ ∨
        (resolve .utc (Date.toDateTime (a + weekAhead a wd) 0)).getD (midnight a) = _ ∧ _
      rw [hreading]
      change (instant (midnight (a + weekAhead a wd))).getD (midnight a) = _ ∨
        (instant (midnight (a + weekAhead a wd))).getD (midnight a) = _ ∧ _
      rcases instant_midnight (a + weekAhead a wd) with ht | ht
      · right
        refine ⟨by rw [ht]; rfl, ?_⟩
        have hout := instant_none ht
        unfold instant at ha
        split at ha
        · rename_i hrange
          omega
        · cases ha
      · left
        rw [ht]
        rfl
    · rw [if_neg (by exact hle)]
      right
      exact ⟨rfl, by omega⟩

theorem week_starts {a : Int} (hd : instant (midnight d) = some (midnight d))
    (hP : ∀ e, weekday e ∈ days ∨ 2932890 ≤ e → P (midnight e)) (hout : ∀ s ∈ out, P s) :
    ∀ s ∈ pushWeek .utc cap (midnight a) (midnight d) days out, P s := by
  induction days generalizing out with
  | nil => exact hout
  | cons wd days ih =>
    have htail : ∀ e, weekday e ∈ days ∨ 2932890 ≤ e → P (midnight e) :=
      fun e he => hP e (he.imp (mem_cons_of_mem _) id)
    rw [pushWeek]
    by_cases hbefore : shiftToWeekday .utc (midnight a) wd (midnight d) < midnight d
    · rw [if_pos hbefore]
      exact ih htail hout
    rw [if_neg hbefore]
    have hnew : P (shiftToWeekday .utc (midnight a) wd (midnight d)) := by
      rcases shift_utc hd a wd with hon | ⟨hfall, hrange⟩
      · rw [hon]
        exact hP _ (.inl (by rw [weekday_ahead]; exact mem_cons_self ..))
      rw [hfall] at hbefore ⊢
      refine hP _ (.inr ?_)
      -- a week before the range lies before the start
      rcases hrange with hlt | hge
      · unfold instant at hd
        split at hd
        · rename_i hrange
          simp only [midnight, daySeconds] at hrange hbefore
          omega
        · cases hd
      · exact hge
    have hout' : ∀ s ∈ out ++ [shiftToWeekday .utc (midnight a) wd (midnight d)], P s := by
      intro s hs
      rcases mem_append.mp hs with hs | hs
      · exact hout s hs
      · rw [mem_singleton.mp hs]
        exact hnew
    split
    · exact hout'
    · exact ih htail hout'

theorem weekly_starts {intervalDays a : Int} (hd : instant (midnight d) = some (midnight d))
    (hP : ∀ e, weekday e ∈ days ∨ 2932890 ≤ e → P (midnight e)) (hout : ∀ s ∈ out, P s)
    (h : weeklyLoop .utc intervalDays days cap (midnight d) n (midnight a) out = .ok res) :
    ∀ s ∈ res, P s := by
  induction n generalizing a out with
  | zero =>
    cases h
    exact hout
  | succ n ih =>
    rw [weeklyLoop] at h
    split at h
    · cases h
      exact hout
    · obtain ⟨next, hadd, h⟩ := Lib.bind_ok h
      simp only [next_midnight hadd] at h
      exact ih (week_starts hd hP hout) h

theorem day_starts {month : Nat} {days : List Nat}
    (hP : ∀ day ∈ days, ∀ e, civilDate year month day = some e → P (midnight e))
    (hout : ∀ s ∈ out, P s) : ∀ s ∈ pushDays .utc cap start 0 year month days out, P s := by
  induction days generalizing out with
  | nil => exact hout
  | cons day days ih =>
    have htail : ∀ x ∈ days, ∀ e, civilDate year month x = some e → P (midnight e) :=
      fun x hx => hP x (mem_cons_of_mem _ hx)
    rw [pushDays]
    split
    · exact ih htail hout
    rename_i ts hts
    have hnew : P ts := by
      obtain ⟨e, he, hres⟩ := Option.bind_eq_some_iff.mp hts
      have hreading : Date.toDateTime e 0 = midnight e := Int.add_zero _
      rw [hreading] at hres
      rw [instant_eq_some hres]
      exact hP day (mem_cons_self ..) e he
    have hout' : ∀ s ∈ out ++ [ts], P s := by
      intro s hs
      rcases mem_append.mp hs with hs | hs
      · exact hout s hs
      · rw [mem_singleton.mp hs]
        exact hnew
    split
    · exact ih htail hout
    · split
      · exact hout'
      · exact ih htail hout'

theorem month_starts {month : Nat}
    (hP : ∀ y m, ∀ day ∈ monthDays rule originalDay y m, ∀ e, civilDate y m day = some e → P (midnight e))
    (hout : ∀ s ∈ out, P s) : ∀ s ∈ monthlyLoop .utc rule originalDay cap start 0 n year month out, P s := by
  induction n generalizing year month out with
  | zero => exact hout
  | succ n ih =>
    rw [monthlyLoop]
    split
    · exact hout
    have hpush : ∀ s ∈ pushDays .utc cap start 0 year month (monthDays rule originalDay year month)
        out, P s := day_starts (hP year month) hout
    split
    · exact hpush
    · exact ih hpush

theorem months_starts
    (hP : ∀ m ∈ months, ∀ day ∈ monthDays rule originalDay year m, ∀ e,
      civilDate year m day = some e → P (midnight e)) (hout : ∀ s ∈ out, P s) :
    ∀ s ∈ pushMonths .utc rule originalDay cap start 0 year months out, P s := by
  induction months generalizing out with
  | nil => exact hout
  | cons month months ih =>
    rw [pushMonths]
    split
    · exact hout
    · exact ih (fun m hm => hP m (mem_cons_of_mem _ hm))
        (day_starts (hP month (mem_cons_self ..)) hout)

theorem year_starts {intervalYears : Int}
    (hP : ∀ y, ∀ m ∈ months, ∀ day ∈ monthDays rule originalDay y m,
      ∀ e, civilDate y m day = some e → P (midnight e)) (hout : ∀ s ∈ out, P s) :
    ∀ s ∈ yearlyLoop .utc rule months originalDay cap start 0 intervalYears n year out, P s := by
  induction n generalizing year out with
  | zero => exact hout
  | succ n ih =>
    rw [yearlyLoop]
    split
    · exact hout
    have hpush : ∀ s ∈ pushMonths .utc rule originalDay cap start 0 year months out, P s :=
      months_starts (hP year) hout
    split
    · exact ih hpush
    · exact hpush

theorem by_of_weekday {freq : Freq} (hsup : Supported freq rule) (hfreq : freq = .daily ∨ freq = .weekly)
    (h : rule.byday ≠ [] → weekday e ∈ rule.byday.map (·.day)) : SatisfiesBy freq rule e := by
  refine ⟨?_, ?_, ?_⟩
  · intro hne
    obtain ⟨b, hb, hday⟩ := mem_map.mp (h hne)
    refine ⟨b, hb, hday.symm, ?_⟩
    rintro (rfl | rfl) <;> rcases hfreq with hf | hf <;> cases hf
  · intro hne
    rcases hsup.monthday hne with rfl | rfl <;> rcases hfreq with hf | hf <;> cases hf
  · intro hne
    rw [hsup.month hne] at hfreq
    rcases hfreq with hf | hf <;> cases hf

theorem starts_by {freq : Freq} (hd : instant (midnight d) = some (midnight d))
    (hsup : Supported freq rule) {starts : List Int}
    (h : candidateStarts .utc freq (midnight d) rule = .ok starts) : ∀ s ∈ starts, ∃ e : Int, s = midnight e ∧
      ((freq = .weekly → rule.byday ≠ [] → e < 2932890) → SatisfiesBy freq rule e) := by
  have hnil : ∀ s ∈ ([] : List Int), ∃ e : Int, s = midnight e ∧
      ((freq = .weekly → rule.byday ≠ [] → e < 2932890) → SatisfiesBy freq rule e) := by
    intro s hs
    cases hs
  have htime : DateTime.time (midnight d) = 0 := Int.mul_emod_left d 86400
  cases freq with
  | daily =>
    refine daily_starts (fun e he => ⟨e, rfl, fun _ => by_of_weekday hsup (.inl rfl) ?_⟩) hnil h
    exact fun hne => he (fun hmap => hne (map_eq_nil_iff.mp hmap))
  | weekly =>
    rw [candidateStarts, expandWeekly] at h
    by_cases hby : rule.byday = []
    · rw [if_pos hby] at h
      refine daily_starts (fun e _ => ⟨e, rfl, fun _ => by_of_weekday hsup (.inr rfl) ?_⟩) hnil h
      exact fun hne => absurd hby hne
    rw [if_neg hby] at h
    obtain ⟨a, ha⟩ := startOfWeek_midnight d (rule.wkst.getD .monday)
    simp only [ha] at h
    refine weekly_starts hd (fun e he => ⟨e, rfl, fun hlast => by_of_weekday hsup (.inr rfl) ?_⟩)
      hnil h
    intro hne
    rcases he with hmem | hlate
    · exact (mem_insertionSort _).mp hmem
    · have := hlast rfl hne
      omega
  | monthly =>
    rw [candidateStarts, expandMonthly, naive_utc, hd] at h
    simp only [htime] at h
    cases h
    refine month_starts (fun y m day hday e he => ⟨e, rfl, fun _ => ?_⟩) hnil
    refine by_of_monthDays hday he (fun hne => ?_)
    cases hsup.month hne
  | yearly =>
    rw [candidateStarts, expandYearly, naive_utc, hd] at h
    simp only [htime] at h
    cases h
    refine year_starts (fun y m hm day hday e he => ⟨e, rfl, fun _ => ?_⟩) hnil
    refine by_of_monthDays hday he (fun hne => ?_)
    rw [if_neg hne] at hm
    exact hm

end Starts

end Ratatoskr.Calendar

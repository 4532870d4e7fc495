import Ratatoskr.Calendar.Instances

/-!
# Calendar.AllDay

All-day series, which are stored at UTC midnights and expanded on the clock of the host. What a walk does
with a UTC midnight is decided by two things: the date that the host shows for it, and what the time of
day that it shows for it stands for on other dates. Where both are as in UTC, so is the walk.

* `addDays_eq`, `startOfWeek_eq`, `shift_eq`, `withYmd_eq` : one step.
* `candidates_eq` : the starts of a whole walk.
-/

namespace Ratatoskr.Calendar

open List
open Lib (Weekday weekday ofDays)

def midnight (d : Date) : Int := d * daySeconds

/-- The host shows UTC midnight of `d` on that date. -/
def Shows (tz : TimeZone) (d : Date) : Prop :=
  (instant (midnight d)).isSome = true →
    0 ≤ tz.offset (midnight d) ∧ tz.offset (midnight d) < daySeconds

/-- The time of day that the host shows at UTC midnight of `d` stands, on date `e`, for UTC midnight. -/
def Keeps (tz : TimeZone) (d e : Date) : Prop :=
  (instant (midnight d)).isSome = true → InCivilRange (midnight e) →
    resolve tz (midnight e + tz.offset (midnight d)) = instant (midnight e)

instance (tz : TimeZone) (d : Date) : Decidable (Shows tz d) := inferInstanceAs (Decidable (_ → _))

instance (tz : TimeZone) (d e : Date) : Decidable (Keeps tz d e) :=
  inferInstanceAs (Decidable (_ → _))

theorem midnight_add (d n : Date) : midnight (d + n) = midnight d + n * daySeconds := by
  simp only [midnight, daySeconds]
  omega

@[simp] theorem midnight_div (d : Date) : midnight d / 86400 = d := by
  simp only [midnight, daySeconds]
  omega

theorem date_reading {d offset : Int} (h0 : 0 ≤ offset) (h1 : offset < daySeconds) :
    DateTime.date (midnight d + offset) = d ∧ DateTime.time (midnight d + offset) = offset := by
  have hdate : (d * 86400 + offset) / 86400 = d ∧ (d * 86400 + offset) % 86400 = offset := by
    rw [daySeconds] at h1
    omega
  exact hdate

@[simp] theorem date_midnight (d : Date) : DateTime.date (midnight d) = d :=
  Int.mul_ediv_cancel d (by decide)

theorem instant_eq_some {t u : Int} (h : instant t = some u) : u = t := by
  unfold instant at h
  split at h
  · exact (Option.some.inj h).symm
  · cases h

theorem naive_utc (t : Int) : naive .utc t = instant t := by
  unfold naive
  cases h : instant t with
  | none => rfl
  | some u =>
    rw [instant_eq_some h]
    exact congrArg some (Int.add_zero t)

section Step

variable {tz : TimeZone} {d e : Int}
variable {n : Int}

theorem naive_midnight (hshows : Shows tz d) (hd : instant (midnight d) = some (midnight d)) :
    naive tz (midnight d) = some (midnight d + tz.offset (midnight d)) ∧
      DateTime.date (midnight d + tz.offset (midnight d)) = d ∧
      DateTime.time (midnight d + tz.offset (midnight d)) = tz.offset (midnight d) := by
  obtain ⟨h0, h1⟩ := hshows (by rw [hd]; rfl)
  exact ⟨by rw [naive, hd]; rfl, date_reading h0 h1⟩

theorem naive_midnight_none {d : Date} (hd : instant (midnight d) = none) (tz : TimeZone) :
    naive tz (midnight d) = none := by
  rw [naive, hd]
  rfl

theorem instant_midnight (d : Date) :
    instant (midnight d) = none ∨ instant (midnight d) = some (midnight d) := by
  cases h : instant (midnight d) with
  | none => exact .inl rfl
  | some t =>
    rw [instant_eq_some h]
    exact .inr rfl

theorem moved_eq (hshows : Shows tz d) (hd : instant (midnight d) = some (midnight d))
    (hkeeps : Keeps tz d (d + n)) :
    (checkedAdd (midnight d + tz.offset (midnight d)) (n * daySeconds)).bind (resolve tz) =
      (checkedAdd (midnight d) (n * daySeconds)).bind (resolve .utc) := by
  obtain ⟨h0, h1⟩ := hshows (by rw [hd]; rfl)
  have hsum : midnight d + tz.offset (midnight d) + n * daySeconds =
      midnight (d + n) + tz.offset (midnight d) := by
    rw [midnight_add]
    omega
  have hdate : DateTime.date (midnight (d + n) + tz.offset (midnight d)) = d + n :=
    (date_reading h0 h1).1
  have hrange : InCivilRange (midnight (d + n) + tz.offset (midnight d)) ↔
      InCivilRange (midnight (d + n)) := by
    rw [InCivilRange, InCivilRange, hdate, date_midnight]
  unfold checkedAdd
  rw [hsum, ← midnight_add]
  by_cases hcivil : InCivilRange (midnight (d + n))
  · rw [if_pos hcivil, if_pos (hrange.mpr hcivil)]
    exact hkeeps (by rw [hd]; rfl) hcivil
  · rw [if_neg hcivil, if_neg (fun h => hcivil (hrange.mp h))]
    rfl

theorem addDays_eq (hshows : Shows tz d) (hkeeps : Keeps tz d (d + n)) :
    addDaysInZone tz (midnight d) n = addDaysInZone .utc (midnight d) n := by
  rcases instant_midnight d with hd | hd
  · rw [addDaysInZone, addDaysInZone, naive_midnight_none hd, naive_midnight_none hd]
  · rw [addDaysInZone, addDaysInZone, (naive_midnight hshows hd).1, naive_utc, hd]
    simp [moved_eq hshows hd hkeeps]

theorem next_midnight {d : Int} {next : Option Int} (h : addDaysInZone .utc (midnight d) n = .ok next) :
    next.getD (midnight d + n * 86400) = midnight (d + n) := by
  have hsum : midnight d + n * 86400 = midnight (d + n) := (midnight_add d n).symm
  rcases instant_midnight d with hd | hd
  · rw [addDaysInZone, naive_midnight_none hd] at h
    cases h
    exact hsum
  rw [addDaysInZone, naive_utc, hd] at h
  simp only at h
  split at h
  · cases h
    unfold checkedAdd
    split
    · cases hres : resolve .utc (midnight d + n * daySeconds) with
      | none =>
        simp only [Option.bind_some, hres]
        exact hsum
      | some t =>
        simp only [Option.bind_some, hres]
        exact (instant_eq_some hres).trans (midnight_add d n).symm
    · exact hsum
  · cases h

theorem matchesWeekday_eq (hshows : Shows tz d) (days : List Weekday) :
    matchesWeekday tz (midnight d) days = matchesWeekday .utc (midnight d) days := by
  rcases instant_midnight d with hd | hd
  · rw [matchesWeekday, matchesWeekday, naive_midnight_none hd, naive_midnight_none hd]
  · rw [matchesWeekday, matchesWeekday, naive_utc, hd, (naive_midnight hshows hd).1]
    simp [(naive_midnight hshows hd).2.1]

/-! ## Weeks and months -/

def weekBack (d : Date) (weekStart : Weekday) : Int := (((weekday d).offset : Int) - weekStart.offset) % 7

def weekAhead (d : Date) (target : Weekday) : Int := ((target.offset : Int) - (weekday d).offset) % 7

theorem startOfWeek_eq (hshows : Shows tz d) {weekStart : Weekday}
    (hkeeps : Keeps tz d (d + -weekBack d weekStart)) :
    startOfWeek tz (midnight d) weekStart = startOfWeek .utc (midnight d) weekStart := by
  rcases instant_midnight d with hd | hd
  · rw [startOfWeek, startOfWeek, naive_midnight_none hd, naive_midnight_none hd]
  · rw [startOfWeek, startOfWeek, (naive_midnight hshows hd).1, naive_utc, hd]
    simp only [(naive_midnight hshows hd).2.1, date_midnight]
    exact congrArg (Option.getD · (midnight d)) (moved_eq hshows hd hkeeps)

theorem startOfWeek_midnight (d : Date) (weekStart : Weekday) :
    ∃ a, startOfWeek .utc (midnight d) weekStart = midnight a := by
  rcases instant_midnight d with hd | hd
  · exact ⟨d, by rw [startOfWeek, naive_midnight_none hd]⟩
  rw [startOfWeek, naive_utc, hd]
  simp only [checkedAdd]
  split
  · rw [← midnight_add]
    rcases instant_midnight (d + -((((weekday (DateTime.date (midnight d))).offset : Int) -
      weekStart.offset) % 7)) with hres | hres
    · exact ⟨d, by rw [Option.bind_some, resolve, TimeZone.toZoned, TimeZone.utc, hres]; rfl⟩
    · exact ⟨_, by rw [Option.bind_some, resolve, TimeZone.toZoned, TimeZone.utc, hres]; rfl⟩
  · exact ⟨d, rfl⟩

theorem civilRange_iff (d : Int) : InCivilRange (midnight d) ↔ -4371587 ≤ d ∧ d ≤ 2932896 := by
  have hmin : Date.min = -4371587 := by decide
  have hmax : Date.max = 2932896 := by decide
  rw [InCivilRange, date_midnight, hmin, hmax]

theorem civil_of_instant (hd : instant (midnight d) = some (midnight d)) : -4371587 ≤ d := by
  unfold instant at hd
  split at hd
  · rename_i hrange
    simp only [midnight, daySeconds] at hrange
    omega
  · cases hd

theorem shift_eq {a : Int} {target : Weekday} (hanchor : Shows tz a) (hshows : Shows tz d)
    (hkeeps : Keeps tz d (a + weekAhead a target)) : shiftToWeekday tz (midnight a) target (midnight d) =
      shiftToWeekday .utc (midnight a) target (midnight d) := by
  rcases instant_midnight a with ha | ha
  · rw [shiftToWeekday, shiftToWeekday, naive_midnight_none ha, naive_midnight_none ha]
  rcases instant_midnight d with hd | hd
  · rw [shiftToWeekday, shiftToWeekday, naive_midnight_none hd, naive_midnight_none hd]
    cases naive tz (midnight a) <;> cases naive .utc (midnight a) <;> rfl
  rw [shiftToWeekday, shiftToWeekday, naive_utc, naive_utc, ha, hd, (naive_midnight hanchor ha).1,
    (naive_midnight hshows hd).1]
  simp only [(naive_midnight hanchor ha).2.1, (naive_midnight hshows hd).2.2, date_midnight]
  split
  · rename_i hmax
    have hcivil : InCivilRange (midnight (a + weekAhead a target)) := by
      have hmin := civil_of_instant ha
      have hahead : 0 ≤ weekAhead a target := Int.emod_nonneg _ (by decide)
      have hmax' : Date.max = 2932896 := by decide
      have hle : a + weekAhead a target ≤ 2932896 := hmax' ▸ hmax
      rw [civilRange_iff]
      omega
    have hutc : DateTime.time (midnight d) = 0 := Int.mul_emod_left d 86400
    have hread := hkeeps (by rw [hd]; rfl) hcivil
    refine congrArg (Option.getD · (midnight a)) ?_
    refine hread.trans ?_
    rw [hutc]
    exact congrArg instant (Int.add_zero _).symm
  · rfl

theorem civilDate_range {year : Int} {month day : Nat} (h : civilDate year month day = some e) :
    InCivilRange (midnight e) := by
  unfold civilDate at h
  split at h
  · rename_i hcond
    cases h
    have hlen : daysInMonth year month ≤ 31 := by
      unfold daysInMonth Lib.monthLength
      repeat' split
      all_goals omega
    have htotal : -4371587 ≤ Lib.toDays ⟨year, month, day⟩ ∧ Lib.toDays ⟨year, month, day⟩ ≤ 2932896 := by
      simp only [Lib.toDays, Lib.marchMonth, Lib.daysBeforeYear, Lib.daysBeforeMonth]
      split <;> omega
    exact (civilRange_iff _).mpr htotal
  · cases h

theorem withYmd_eq (hd : instant (midnight d) = some (midnight d)) {year : Int} {month day : Nat}
    (hkeeps : ∀ e, civilDate year month day = some e → Keeps tz d e) :
    withYmdTime tz (tz.offset (midnight d)) year month day = withYmdTime .utc 0 year month day := by
  unfold withYmdTime
  cases he : civilDate year month day with
  | none => rfl
  | some e =>
    refine (hkeeps e he (by rw [hd]; rfl) (civilDate_range he)).trans ?_
    exact congrArg instant (Int.add_zero _).symm

end Step

/-! ## The dates that the walk in UTC visits

Each definition is the loop of the source, in UTC, with the dates that it stands on instead of the starts
that it collects. -/

def dailyVisits (interval : Int) (bydayFilter : List Weekday) (cap : Nat) : Nat → Date → Nat → List Date
  | 0, _, _ => []
  | n + 1, d, found =>
    if cap ≤ found then []
    else
      d :: dailyVisits interval bydayFilter cap n (d + interval)
        (if bydayFilter = [] ∨ matchesWeekday .utc (midnight d) bydayFilter then found + 1 else found)

def weeklyVisits (intervalDays : Int) (days : List Weekday) (cap : Nat) (start : Int) :
    Nat → Date → List Int → List Date
  | 0, _, _ => []
  | n + 1, a, out =>
    if cap ≤ out.length then []
    else
      a :: weeklyVisits intervalDays days cap start n (a + intervalDays)
        (pushWeek .utc cap (midnight a) start days out)

def monthlyVisits (rule : Rrule) (originalDay cap : Nat) (start : Int) :
    Nat → Int → Nat → List Int → List (Int × Nat)
  | 0, _, _, _ => []
  | n + 1, year, month, out =>
    if cap ≤ out.length then []
    else
      (year, month) ::
        match advanceMonth rule.interval year month with
        | none => []
        | some (year', month') =>
          monthlyVisits rule originalDay cap start n year' month'
            (pushDays .utc cap start 0 year month (monthDays rule originalDay year month) out)

def yearlyVisits (rule : Rrule) (months : List Nat) (originalDay cap : Nat)
    (start intervalYears : Int) : Nat → Int → List Int → List Int
  | 0, _, _ => []
  | n + 1, year, out =>
    if cap ≤ out.length then []
    else
      year ::
        if inI32 (year + intervalYears) then
          yearlyVisits rule months originalDay cap start intervalYears n (year + intervalYears)
            (pushMonths .utc rule originalDay cap start 0 year months out)
        else []

section Walk

variable {tz : TimeZone} {d : Int} {cap : Nat} {rule : Rrule}
variable {n originalDay : Nat} {out : List Int} {days : List Weekday} {start year : Int}
  {months : List Nat}

theorem daily_eq {interval : Int} {bydayFilter : List Weekday}
    (h : ∀ x ∈ dailyVisits interval bydayFilter cap n d out.length, Shows tz x ∧ Keeps tz x (x + interval)) :
    dailyLoop tz interval bydayFilter cap n (midnight d) out =
      dailyLoop .utc interval bydayFilter cap n (midnight d) out := by
  induction n generalizing d out with
  | zero => rfl
  | succ n ih =>
    rw [dailyVisits] at h
    rw [dailyLoop, dailyLoop]
    by_cases hcap : cap ≤ out.length
    · rw [if_pos hcap, if_pos hcap]
    rw [if_neg hcap] at h
    rw [if_neg hcap, if_neg hcap]
    obtain ⟨hshows, hkeeps⟩ := h d (mem_cons_self ..)
    rw [matchesWeekday_eq hshows, addDays_eq hshows hkeeps]
    cases hadd : addDaysInZone .utc (midnight d) interval with
    | error p => rfl
    | ok next =>
      simp only [bind, Except.bind, next_midnight hadd]
      refine ih (fun x hx => h x (mem_cons_of_mem _ ?_))
      split at hx
      · rename_i hpick
        rw [if_pos hpick]
        rw [length_append] at hx
        exact hx
      · rename_i hpick
        rw [if_neg hpick]
        exact hx

theorem pushWeek_eq {a : Int} (hanchor : Shows tz a) (hshows : Shows tz d)
    (h : ∀ wd ∈ days, Keeps tz d (a + weekAhead a wd)) : pushWeek tz cap (midnight a) (midnight d) days out =
      pushWeek .utc cap (midnight a) (midnight d) days out := by
  induction days generalizing out with
  | nil => rfl
  | cons wd days ih =>
    have htail := fun x hx => h x (mem_cons_of_mem _ hx)
    simp [pushWeek, shift_eq hanchor hshows (h wd (mem_cons_self ..)), ih htail]

theorem weekly_eq {intervalDays : Int} {a : Int} (hshows : Shows tz d)
    (h : ∀ x ∈ weeklyVisits intervalDays days cap (midnight d) n a out,
      Shows tz x ∧ Keeps tz x (x + intervalDays) ∧ ∀ wd ∈ days, Keeps tz d (x + weekAhead x wd)) :
    weeklyLoop tz intervalDays days cap (midnight d) n (midnight a) out =
      weeklyLoop .utc intervalDays days cap (midnight d) n (midnight a) out := by
  induction n generalizing a out with
  | zero => rfl
  | succ n ih =>
    rw [weeklyVisits] at h
    rw [weeklyLoop, weeklyLoop]
    by_cases hcap : cap ≤ out.length
    · rw [if_pos hcap, if_pos hcap]
    rw [if_neg hcap] at h
    rw [if_neg hcap, if_neg hcap]
    obtain ⟨hanchor, hnext, hdays⟩ := h a (mem_cons_self ..)
    rw [pushWeek_eq hanchor hshows hdays, addDays_eq hanchor hnext]
    cases hadd : addDaysInZone .utc (midnight a) intervalDays with
    | error p => rfl
    | ok next =>
      simp only [bind, Except.bind, next_midnight hadd]
      exact ih (fun x hx => h x (mem_cons_of_mem _ hx))

/-- The days of the month that the rule picks keep the time of day of `d`. -/
def KeepsMonth (tz : TimeZone) (rule : Rrule) (d : Date) (originalDay : Nat) (year : Int)
    (month : Nat) : Prop :=
  ∀ day ∈ monthDays rule originalDay year month, ∀ e, civilDate year month day = some e → Keeps tz d e

theorem pushDays_eq (hd : instant (midnight d) = some (midnight d)) {month : Nat}
    {days : List Nat} (h : ∀ day ∈ days, ∀ e, civilDate year month day = some e → Keeps tz d e) :
    pushDays tz cap start (tz.offset (midnight d)) year month days out =
      pushDays .utc cap start 0 year month days out := by
  induction days generalizing out with
  | nil => rfl
  | cons day days ih =>
    have htail := fun x hx => h x (mem_cons_of_mem _ hx)
    simp [pushDays, withYmd_eq hd (h day (mem_cons_self ..)), ih htail]

theorem monthly_eq (hd : instant (midnight d) = some (midnight d)) {month : Nat}
    (h : ∀ ym ∈ monthlyVisits rule originalDay cap start n year month out,
      KeepsMonth tz rule d originalDay ym.1 ym.2) :
    monthlyLoop tz rule originalDay cap start (tz.offset (midnight d)) n year month out =
      monthlyLoop .utc rule originalDay cap start 0 n year month out := by
  induction n generalizing year month out with
  | zero => rfl
  | succ n ih =>
    rw [monthlyVisits] at h
    rw [monthlyLoop, monthlyLoop]
    by_cases hcap : cap ≤ out.length
    · rw [if_pos hcap, if_pos hcap]
    rw [if_neg hcap] at h
    rw [if_neg hcap, if_neg hcap, pushDays_eq hd (h _ (mem_cons_self ..))]
    cases hadv : advanceMonth rule.interval year month with
    | none => rfl
    | some ym =>
      refine ih (fun x hx => h x (mem_cons_of_mem _ ?_))
      rw [hadv]
      exact hx

theorem pushMonths_eq (hd : instant (midnight d) = some (midnight d))
    (h : ∀ month ∈ months, KeepsMonth tz rule d originalDay year month) :
    pushMonths tz rule originalDay cap start (tz.offset (midnight d)) year months out =
      pushMonths .utc rule originalDay cap start 0 year months out := by
  induction months generalizing out with
  | nil => rfl
  | cons month months ih =>
    have htail := fun x hx => h x (mem_cons_of_mem _ hx)
    simp [pushMonths, pushDays_eq hd (h month (mem_cons_self ..)), ih htail]

theorem yearly_eq (hd : instant (midnight d) = some (midnight d)) {intervalYears : Int}
    (h : ∀ y ∈ yearlyVisits rule months originalDay cap start intervalYears n year out,
      ∀ month ∈ months, KeepsMonth tz rule d originalDay y month) :
    yearlyLoop tz rule months originalDay cap start (tz.offset (midnight d)) intervalYears n year out =
      yearlyLoop .utc rule months originalDay cap start 0 intervalYears n year out := by
  induction n generalizing year out with
  | zero => rfl
  | succ n ih =>
    rw [yearlyVisits] at h
    rw [yearlyLoop, yearlyLoop]
    by_cases hcap : cap ≤ out.length
    · rw [if_pos hcap, if_pos hcap]
    rw [if_neg hcap] at h
    rw [if_neg hcap, if_neg hcap, pushMonths_eq hd (h _ (mem_cons_self ..))]
    by_cases hnext : inI32 (year + intervalYears)
    · rw [if_pos hnext] at h ⊢
      rw [if_pos hnext]
      exact ih (fun x hx => h x (mem_cons_of_mem _ hx))
    · rw [if_neg hnext, if_neg hnext]

end Walk

end Ratatoskr.Calendar

import Ratatoskr.Calendar.WallClock

/-!
# Calendar.Picks

The dates that a rule picks in one month, and the months and weeks that a walk comes to, without the zone.

* `startsOn` : the starts on given dates.
* `mem_pickedDates`, `pickedDates_ascend` : the dates of a month that the rule allows, in their order.
* `months_eq`, `years_eq` : the months and years of a walk, as long as the cursor holds them.
-/

namespace Ratatoskr.Calendar

open List
open Lib (Ymd Weekday weekday toDays ofDays monthLength)

/-- The instants at the clock time of DTSTART on the dates that have one, from DTSTART on. -/
def startsOn (tz : TimeZone) (start : Int) (dates : List Int) : List Int :=
  (dates.filterMap (fun d => resolve tz (Date.toDateTime d (tz.reading start % daySeconds)))).filter
    (fun t => start ≤ t)

def InOrder (tz : TimeZone) (time : Int) (P : Int → Prop) : Prop :=
  ∀ d e : Int, P d → P e → d < e →
    tz.toInstant (Date.toDateTime d time) < tz.toInstant (Date.toDateTime e time)

section StartsOn

variable {tz : TimeZone} {start : Int}

theorem startsOn_append (l l' : List Int) :
    startsOn tz start (l ++ l') = startsOn tz start l ++ startsOn tz start l' := by
  rw [startsOn, filterMap_append, filter_append]
  rfl

theorem startsOn_flatMap {α : Type} (f : α → List Int) (l : List α) :
    startsOn tz start (l.flatMap f) = l.flatMap (fun a => startsOn tz start (f a)) := by
  rw [startsOn, filterMap_flatMap, List.filter_flatMap]
  rfl

theorem mem_startsOn {l : List Int} {t : Int} : t ∈ startsOn tz start l ↔
      (∃ d ∈ l, resolve tz (Date.toDateTime d (tz.reading start % daySeconds)) = some t) ∧ start ≤ t := by
  rw [startsOn, mem_filter, mem_filterMap, decide_eq_true_iff]

theorem startsOn_ascend {P : Int → Prop} (horder : InOrder tz (tz.reading start % daySeconds) P) {l : List Int}
    (hl : l.Pairwise (· < ·)) (hP : ∀ d ∈ l, P d) : (startsOn tz start l).Pairwise (· < ·) := by
  refine List.Pairwise.filter _ (pairwise_filterMap.mpr ?_)
  refine hl.imp_of_mem ?_
  intro d e hd he hde t ht u hu
  rw [instant_eq_some ht, instant_eq_some hu]
  exact horder d e (hP d hd) (hP e he) hde

end StartsOn

theorem ascend_dedup (l : List Nat) : ((l.insertionSort (· ≤ ·)).destutter (· ≠ ·)).Pairwise (· < ·) := by
  have hle := pairwise_insertionSort (· ≤ ·) l
  rw [hle.destutter_eq_dedup]
  exact (hle.sublist (dedup_sublist _)).imp₂ (fun _ _ => lt_of_le_of_ne) (nodup_dedup _)

theorem monthDays_ascend (rule : Rrule) (originalDay : Nat) (year : Int) (month : Nat) :
    (monthDays rule originalDay year month).Pairwise (· < ·) := by
  unfold monthDays
  split
  · split
    · exact pairwise_singleton _ _
    · exact List.Pairwise.nil
  · exact ascend_dedup _

def pickedDates (rule : Rrule) (originalDay : Nat) (m : Int × Nat) : List Int :=
  (monthDays rule originalDay m.1 m.2).filterMap (civilDate m.1 m.2)

section MonthDates

variable {tz : TimeZone} {start : Int} {rule : Rrule} {originalDay : Nat} {year : Int} {month day : Nat}
    {e : Int}

theorem monthPicks_eq (m : Int × Nat) :
    monthPicks tz rule originalDay start (tz.reading start % daySeconds) m =
      startsOn tz start (pickedDates rule originalDay m) := by
  rw [startsOn, pickedDates, filterMap_filterMap]
  rfl

theorem pickedDates_ascend (m : Int × Nat) : (pickedDates rule originalDay m).Pairwise (· < ·) := by
  refine pairwise_filterMap.mpr ?_
  refine (monthDays_ascend rule originalDay m.1 m.2).imp ?_
  intro x y hxy d hd e he
  rw [(civilDate_ymd hd).2.1, (civilDate_ymd he).2.1]
  simp only [toDays]
  omega

theorem civilDate_of_date {d : Int} (h0 : -9999 ≤ (ofDays d).year) (h1 : (ofDays d).year ≤ 9999) :
    civilDate (ofDays d).year (ofDays d).month (ofDays d).day = some d := by
  obtain ⟨hm0, hm1, hd0, hd1⟩ := Lib.valid_ofDays d
  unfold civilDate
  rw [if_pos ⟨h0, h1, hm0, hm1, hd0, hd1⟩]
  exact congrArg some (Lib.toDays_ofDays d)

end MonthDates

/-- The date meets the BY parts that pick days of a month, or is on the day of DTSTART if there are none. -/
def PicksDate (rule : Rrule) (originalDay : Nat) (d : Int) : Prop :=
  if rule.byday = [] ∧ rule.bymonthday = [] then (ofDays d).day = originalDay
  else
    (rule.byday ≠ [] → ∃ b ∈ rule.byday, weekday d = b.day ∧ ∀ n, b.ordinal = some n → IsNth n d) ∧
    (rule.bymonthday ≠ [] → ∃ k ∈ rule.bymonthday, ((ofDays d).day : Int) =
      if k < 0 then (monthLength (ofDays d).year (ofDays d).month : Int) + k + 1 else k)

instance (n : Int) (e : Date) : Decidable (IsNth n e) := by
  unfold IsNth
  infer_instance

instance (rule : Rrule) (originalDay : Nat) (d : Int) : Decidable (PicksDate rule originalDay d) := by
  unfold PicksDate
  infer_instance

section Allowed

variable {rule : Rrule} {originalDay : Nat} {year : Int} {month day : Nat} {e : Int}

theorem mem_occurrences (h : civilDate year month day = some e) :
    day ∈ weekdayOccurrencesInMonth year month (weekday e) := by
  obtain ⟨-, he, hd0, hd1⟩ := civilDate_ymd h
  have h1 : civilDate year month 1 = some (toDays ⟨year, month, 1⟩) := by
    unfold civilDate at h ⊢
    split at h
    · rw [if_pos (by omega)]
    · cases h
  rw [weekdayOccurrencesInMonth, h1]
  refine mem_filter.mpr ⟨mem_range'_1.mpr (by omega), ?_⟩
  have hsum : toDays ⟨year, month, day⟩ = toDays ⟨year, month, 1⟩ + (day - 1) := by
    simp only [toDays]
    omega
  have hfirst := offset_weekday (toDays ⟨year, month, 1⟩)
  have hthis := offset_weekday (toDays ⟨year, month, day⟩)
  rw [decide_eq_true_iff, he]
  omega

theorem nthWeekday_of_isNth {n : Int} (h : civilDate year month day = some e) (hn : IsNth n e) :
    nthWeekdayInMonth year month (weekday e) n = some day := by
  obtain ⟨hymd, -, hd0, hd1⟩ := civilDate_ymd h
  have hmem := mem_occurrences h
  unfold nthWeekdayInMonth
  rw [IsNth, hymd] at hn
  simp only at hn
  split
  · rename_i hpos
    rw [if_pos hpos] at hn
    obtain ⟨i, hi⟩ := mem_iff_getElem?.mp hmem
    have hidx := nth_occurrence hi
    rw [show (n - 1).toNat = i by omega, hi]
  · rename_i hpos
    rw [if_neg hpos] at hn
    rw [daysInMonth] at hd1
    rw [if_pos (by omega)]
    obtain ⟨i, hi⟩ := mem_iff_getElem?.mp (mem_reverse.mpr hmem)
    have hidx := nth_from_end hi
    rw [daysInMonth] at hidx
    rw [show (-n - 1).toNat = i by omega, hi]

theorem mem_bydayDays (h : civilDate year month day = some e) {byday : List ByDay} :
    day ∈ bydayDays year month byday ↔
      ∃ b ∈ byday, weekday e = b.day ∧ ∀ n, b.ordinal = some n → IsNth n e := by
  refine ⟨fun hday => byday_of_mem hday h, ?_⟩
  rintro ⟨b, hb, hwd, hord⟩
  refine mem_flatMap.mpr ⟨b, hb, ?_⟩
  rw [← hwd]
  cases hn : b.ordinal with
  | none => exact mem_occurrences h
  | some n => exact Option.mem_toList.mpr (nthWeekday_of_isNth h (hord n hn))

theorem mem_bymonthdayDays (h : civilDate year month day = some e) {bymonthday : List Int} :
    day ∈ bymonthdayDays year month bymonthday ↔ ∃ k ∈ bymonthday, ((ofDays e).day : Int) =
        if k < 0 then (monthLength (ofDays e).year (ofDays e).month : Int) + k + 1 else k := by
  refine ⟨fun hday => bymonthday_of_mem hday h, ?_⟩
  rintro ⟨k, hk, hvalue⟩
  obtain ⟨hymd, -, hd0, hd1⟩ := civilDate_ymd h
  rw [hymd] at hvalue
  rw [daysInMonth] at hd1
  refine mem_filterMap.mpr ⟨k, hk, ?_⟩
  have hresolved : ∀ value : Int, (day : Int) = value →
      (if value < 1 ∨ (monthLength year month : Int) < value then none else some value.toNat) = some day := by
    rintro value rfl
    rw [if_neg (by omega), Int.toNat_natCast]
  exact hresolved _ hvalue

theorem mem_monthDays (h : civilDate year month day = some e) :
    day ∈ monthDays rule originalDay year month ↔ PicksDate rule originalDay e := by
  obtain ⟨hymd, -, hd0, hd1⟩ := civilDate_ymd h
  unfold monthDays PicksDate
  split
  · rw [hymd]
    split
    · exact mem_singleton
    · refine iff_of_false not_mem_nil ?_
      simp only
      omega
  · rename_i hby
    rw [(pairwise_insertionSort _ _).destutter_eq_dedup, mem_dedup, mem_insertionSort, ← mem_bydayDays h,
      ← mem_bymonthdayDays h, collectMonthlyDays]
    by_cases hd : rule.byday = []
    · have hm : rule.bymonthday ≠ [] := fun hm => hby ⟨hd, hm⟩
      rw [if_pos hd, if_neg hm]
      exact ⟨fun hmem => ⟨fun hne => absurd hd hne, fun _ => hmem⟩, fun hmem => hmem.2 hm⟩
    · rw [if_neg hd]
      by_cases hm : rule.bymonthday = []
      · rw [if_pos hm]
        exact ⟨fun hmem => ⟨fun _ => hmem, fun hne => absurd hm hne⟩, fun hmem => hmem.1 hd⟩
      · rw [if_neg hm, mem_filter, decide_eq_true_iff]
        exact ⟨fun hmem => ⟨fun _ => hmem.1, fun _ => hmem.2⟩, fun hmem => ⟨hmem.1 hd, hmem.2 hm⟩⟩

/-- The picked dates of a month are the dates of the month that the rule allows. -/
theorem mem_pickedDates {m : Int × Nat} {d : Int} : d ∈ pickedDates rule originalDay m ↔
      (ofDays d).year = m.1 ∧ (ofDays d).month = m.2 ∧ -9999 ≤ m.1 ∧ m.1 ≤ 9999 ∧
        PicksDate rule originalDay d := by
  constructor
  · intro h
    obtain ⟨day, hday, hd⟩ := mem_filterMap.mp h
    obtain ⟨hymd, -⟩ := civilDate_ymd hd
    have hrange : -9999 ≤ m.1 ∧ m.1 ≤ 9999 := by
      unfold civilDate at hd
      split at hd
      · omega
      · cases hd
    rw [hymd]
    exact ⟨rfl, rfl, hrange.1, hrange.2, (mem_monthDays hd).mp hday⟩
  · rintro ⟨hy, hm, h0, h1, hpick⟩
    have hd := civilDate_of_date (hy ▸ h0) (hy ▸ h1)
    rw [hy, hm] at hd
    exact mem_filterMap.mpr ⟨_, (mem_monthDays hd).mpr hpick, hd⟩

end Allowed

/-! ## Months and years of a walk -/

theorem takeWhile_eq_filter {α : Type} {p : α → Bool} {l : List α}
    (h : l.Pairwise (fun a b => p b = true → p a = true)) : l.takeWhile p = l.filter p := by
  induction l with
  | nil => rfl
  | cons a l ih =>
    obtain ⟨hhead, htail⟩ := pairwise_cons.mp h
    by_cases ha : p a = true
    · rw [takeWhile_cons_of_pos ha, filter_cons_of_pos ha, ih htail]
    · rw [takeWhile_cons_of_neg ha, filter_cons_of_neg ha]
      refine (filter_eq_nil_iff.mpr ?_).symm
      exact fun b hb hpb => ha (hhead b hb hpb)

/-- The month with the given number, from January of year 0 on. -/
def monthAt (index : Int) : Int × Nat := (index / 12, (index % 12 + 1).toNat)

def MonthBefore (a b : Int × Nat) : Prop := 12 * a.1 + a.2 < 12 * b.1 + b.2

def CursorFits (interval : Int) : Prop := interval + 11 < 12 * 2 ^ 31

section Cursor

variable {interval year : Int} {month n : Nat}

theorem monthAt_index (hm0 : 1 ≤ month) (hm1 : month ≤ 12) :
    monthAt (12 * year + month - 1) = (year, month) := by
  unfold monthAt
  refine Prod.ext ?_ ?_
  · omega
  · omega

theorem advanceMonth_eq (hpos : 1 ≤ interval) (hfit : CursorFits interval) (hm0 : 1 ≤ month)
    (hm1 : month ≤ 12) : advanceMonth interval year month =
      if inI32 (monthAt (12 * year + month - 1 + interval)).1 then
        some (monthAt (12 * year + month - 1 + interval))
      else none := by
  unfold CursorFits at hfit
  have hwrap : wrapI64 ((month : Int) - 1 + interval) = month - 1 + interval :=
    wrapI64_of_fits (by unfold fitsI64; omega)
  have hstep : inI32 (((month : Int) - 1 + interval) / 12) := by
    unfold inI32
    omega
  have hyear : year + ((month : Int) - 1 + interval) / 12 = (12 * year + month - 1 + interval) / 12 := by omega
  have hmonth : ((month : Int) - 1 + interval) % 12 = (12 * year + month - 1 + interval) % 12 := by omega
  unfold advanceMonth
  simp only [hwrap]
  rw [if_pos hstep, hyear, hmonth]
  rfl

theorem months_eq (hpos : 1 ≤ interval) (hfit : CursorFits interval) (hyear : inI32 year) (hm0 : 1 ≤ month)
    (hm1 : month ≤ 12) : months interval n year month =
      ((List.range n).map (fun k : Nat => monthAt (12 * year + month - 1 + k * interval))).takeWhile
        (fun m => inI32 m.1) := by
  induction n generalizing year month with
  | zero => rfl
  | succ n ih =>
    have hhead : monthAt (12 * year + month - 1 + (0 : Nat) * interval) = (year, month) := by
      rw [Int.natCast_zero, Int.zero_mul, Int.add_zero, monthAt_index hm0 hm1]
    have hshift : (fun k : Nat => monthAt (12 * year + month - 1 + (k + 1 : Nat) * interval)) =
        fun k : Nat => monthAt (12 * year + month - 1 + interval + k * interval) := by
      funext k
      congr 1
      push_cast
      ring
    rw [months, range_succ_eq_map, map_cons, hhead, takeWhile_cons_of_pos (by simpa using hyear),
      map_map, advanceMonth_eq hpos hfit hm0 hm1]
    change _ = (year, month) :: ((List.range n).map (fun k : Nat =>
      monthAt (12 * year + month - 1 + (k + 1 : Nat) * interval))).takeWhile _
    rw [hshift]
    split
    · rename_i hnone
      split at hnone
      · cases hnone
      rename_i hout
      cases n with
      | zero => rfl
      | succ n =>
        rw [range_succ_eq_map, map_cons]
        simpa using hout
    · rename_i y m hsome
      split at hsome
      · rename_i hin
        have hnext := Option.some.inj hsome
        have hy : (12 * year + month - 1 + interval) / 12 = y := congrArg Prod.fst hnext
        have hm : ((12 * year + month - 1 + interval) % 12 + 1).toNat = m := congrArg Prod.snd hnext
        have hindex : 12 * year + month - 1 + interval = 12 * y + m - 1 := by omega
        rw [hnext] at hin
        rw [ih hin (by omega) (by omega), hindex]
      · cases hsome

theorem mem_months (hpos : 1 ≤ interval) (hfit : CursorFits interval) (hyear : inI32 year) (hm0 : 1 ≤ month)
    (hm1 : month ≤ 12) {m : Int × Nat} : m ∈ months interval n year month ↔
      (∃ k < n, monthAt (12 * year + month - 1 + (k : Nat) * interval) = m) ∧ inI32 m.1 := by
  have hmono : ((List.range n).map (fun k : Nat => monthAt (12 * year + month - 1 + k * interval))).Pairwise
      (fun a b => decide (inI32 b.1) = true → decide (inI32 a.1) = true) := by
    refine pairwise_map.mpr (List.pairwise_lt_range.imp ?_)
    intro j k hjk hk
    have hle : (j : Int) * interval ≤ k * interval :=
      Int.mul_le_mul_of_nonneg_right (by omega) (by omega)
    have hj : 0 ≤ (j : Int) * interval := Int.mul_nonneg (by omega) (by omega)
    have hk := of_decide_eq_true hk
    refine decide_eq_true ?_
    unfold monthAt inI32 at *
    omega
  rw [months_eq hpos hfit hyear hm0 hm1, takeWhile_eq_filter hmono, mem_filter]
  simp

theorem months_ascend (hpos : 1 ≤ interval) (hfit : CursorFits interval) (hyear : inI32 year) (hm0 : 1 ≤ month)
    (hm1 : month ≤ 12) : (months interval n year month).Pairwise MonthBefore := by
  rw [months_eq hpos hfit hyear hm0 hm1]
  refine List.Pairwise.sublist (takeWhile_sublist _) ?_
  refine pairwise_map.mpr (List.pairwise_lt_range.imp ?_)
  intro j k hjk
  have hlt : (j : Int) * interval < k * interval := Int.mul_lt_mul_of_pos_right (by omega) (by omega)
  unfold MonthBefore monthAt
  omega

theorem years_eq (hyear : inI32 year) : years interval (n + 1) year =
      ((List.range (n + 1)).map (fun k : Nat => year + k * interval)).takeWhile (fun y => inI32 y) := by
  induction n generalizing year with
  | zero =>
    simp only [years]
    rw [range_one, map_singleton, Int.natCast_zero, Int.zero_mul, Int.add_zero,
      takeWhile_cons_of_pos (by simpa using hyear)]
    split <;> rfl
  | succ n ih =>
    have hshift : (fun k : Nat => year + (k + 1 : Nat) * interval) =
        fun k : Nat => year + interval + k * interval := by
      funext k
      push_cast
      ring
    rw [years, range_succ_eq_map, map_cons, Int.natCast_zero, Int.zero_mul, Int.add_zero,
      takeWhile_cons_of_pos (by simpa using hyear), map_map]
    change _ = year :: ((List.range (n + 1)).map (fun k : Nat => year + (k + 1 : Nat) * interval)).takeWhile _
    rw [hshift]
    split
    · rename_i hin
      rw [ih hin]
    · rename_i hout
      rw [range_succ_eq_map, map_cons]
      simpa using hout

theorem mem_years (hpos : 1 ≤ interval) (hyear : inI32 year) {y : Int} :
    y ∈ years interval (n + 1) year ↔ (∃ k < n + 1, year + (k : Nat) * interval = y) ∧ inI32 y := by
  have hmono : ((List.range (n + 1)).map (fun k : Nat => year + k * interval)).Pairwise
      (fun a b => decide (inI32 b) = true → decide (inI32 a) = true) := by
    refine pairwise_map.mpr (List.pairwise_lt_range.imp ?_)
    intro j k hjk hk
    have hle : (j : Int) * interval ≤ k * interval :=
      Int.mul_le_mul_of_nonneg_right (by omega) (by omega)
    have hj : 0 ≤ (j : Int) * interval := Int.mul_nonneg (by omega) (by omega)
    have hk := of_decide_eq_true hk
    refine decide_eq_true ?_
    unfold inI32 at *
    omega
  rw [years_eq hyear, takeWhile_eq_filter hmono, mem_filter]
  simp

theorem years_ascend (hpos : 1 ≤ interval) (hyear : inI32 year) :
    (years interval (n + 1) year).Pairwise (· < ·) := by
  rw [years_eq hyear]
  refine List.Pairwise.sublist (takeWhile_sublist _) ?_
  refine pairwise_map.mpr (List.pairwise_lt_range.imp ?_)
  intro j k hjk
  have hlt : (j : Int) * interval < k * interval := Int.mul_lt_mul_of_pos_right (by omega) (by omega)
  omega

theorem date_lt {d e : Int}
    (h : 12 * (ofDays d).year + (ofDays d).month < 12 * (ofDays e).year + (ofDays e).month) : d < e := by
  have hlt := Lib.toDays_lt (Lib.valid_ofDays d) (Lib.valid_ofDays e) (by unfold Ymd.monthIndex; omega)
  rwa [Lib.toDays_ofDays, Lib.toDays_ofDays] at hlt

theorem flatMap_ascend {rule : Rrule} {originalDay : Nat} {ms : List (Int × Nat)}
    (h : ms.Pairwise MonthBefore) : (ms.flatMap (pickedDates rule originalDay)).Pairwise (· < ·) := by
  refine pairwise_flatMap.mpr ⟨fun m _ => pickedDates_ascend m, h.imp ?_⟩
  intro a b hab d hd e he
  obtain ⟨hdy, hdm, -⟩ := mem_pickedDates.mp hd
  obtain ⟨hey, hem, -⟩ := mem_pickedDates.mp he
  refine date_lt ?_
  rw [hdy, hdm, hey, hem]
  exact hab

end Cursor

end Ratatoskr.Calendar

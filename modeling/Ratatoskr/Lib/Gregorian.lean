import Mathlib.Order.Lattice
import Mathlib.Data.Int.Order.Basic

/-!
# Lib.Gregorian

Dates of the proleptic Gregorian calendar as numbers of days since 1970-01-01.

* `toDays`, `ofDays` : between a date and its number.
* `ofDays_toDays`, `toDays_ofDays` : the two are inverse to each other, on valid dates.
* `toDays_lt` : the numbers are in the order of the months.
* `weekday` : the day of the week of a number.

Both conversions count years from March on, so that the leap day is the last day of its year.
-/

namespace Ratatoskr.Lib

inductive Weekday where
  | monday | tuesday | wednesday | thursday | friday | saturday | sunday
  deriving DecidableEq

namespace Weekday

def offset : Weekday → Nat
  | monday => 0
  | tuesday => 1
  | wednesday => 2
  | thursday => 3
  | friday => 4
  | saturday => 5
  | sunday => 6

/-- The day of the week `n` days after a Monday. -/
def ofOffset (n : Nat) : Weekday :=
  match n % 7 with
  | 0 => monday
  | 1 => tuesday
  | 2 => wednesday
  | 3 => thursday
  | 4 => friday
  | 5 => saturday
  | _ => sunday

theorem offset_lt (d : Weekday) : d.offset < 7 := by cases d <;> decide

theorem offset_ofOffset (n : Nat) : (ofOffset n).offset = n % 7 := by
  have hn : n % 7 = 0 ∨ n % 7 = 1 ∨ n % 7 = 2 ∨ n % 7 = 3 ∨ n % 7 = 4 ∨ n % 7 = 5 ∨ n % 7 = 6 := by
    omega
  rcases hn with h | h | h | h | h | h | h <;> simp [ofOffset, h, offset]

theorem offset_inj {d e : Weekday} (h : d.offset = e.offset) : d = e := by
  cases d <;> cases e <;> first | rfl | cases h

end Weekday

structure Ymd where
  year : Int
  month : Nat
  day : Nat
  deriving DecidableEq

def IsLeap (year : Int) : Prop := (year % 4 = 0 ∧ year % 100 ≠ 0) ∨ year % 400 = 0

instance (year : Int) : Decidable (IsLeap year) := inferInstanceAs (Decidable (_ ∨ _))

def monthLength (year : Int) (month : Nat) : Nat :=
  match month with
  | 1 | 3 | 5 | 7 | 8 | 10 | 12 => 31
  | 4 | 6 | 9 | 11 => 30
  | 2 => if IsLeap year then 29 else 28
  | _ => 30

structure Ymd.Valid (d : Ymd) : Prop where
  month_pos : 1 ≤ d.month
  month_le : d.month ≤ 12
  day_pos : 1 ≤ d.day
  day_le : d.day ≤ monthLength d.year d.month

def daysBeforeYear (y : Int) : Int := 365 * y + y / 4 - y / 100 + y / 400

/-- Days before a month that is `m` months after March. -/
def daysBeforeMonth (m : Int) : Int := (153 * m + 2) / 5

def marchMonth (year : Int) (month : Nat) : Int × Int :=
  if month ≤ 2 then (year - 1, (month : Int) + 9) else (year, (month : Int) - 3)

def toDays (d : Ymd) : Int :=
  daysBeforeYear (marchMonth d.year d.month).1 + daysBeforeMonth (marchMonth d.year d.month).2 +
    d.day - 719469

/-- The year, counted from March, and the day of it, for a number of days since year 0. -/
def marchYear (n : Int) : Int × Int :=
  let inEra := n % 146097
  let century := min 3 (inEra / 36524)
  let inCentury := inEra - 36524 * century
  let inCycle := inCentury % 1461
  let year := min 3 (inCycle / 365)
  (400 * (n / 146097) + 100 * century + 4 * (inCentury / 1461) + year, inCycle - 365 * year)

def ofDays (n : Int) : Ymd :=
  let (y, dayOfYear) := marchYear (n + 719468)
  let m := (5 * dayOfYear + 2) / 153
  let month := if m < 10 then m + 3 else m - 9
  ⟨if month ≤ 2 then y + 1 else y, month.toNat, (dayOfYear - daysBeforeMonth m + 1).toNat⟩

def weekday (n : Int) : Weekday := Weekday.ofOffset ((n + 3) % 7).toNat

example : ofDays 0 = ⟨1970, 1, 1⟩ ∧ ofDays 19782 = ⟨2024, 2, 29⟩ ∧ weekday 19782 = .thursday := by
  decide

theorem marchYear_daysBeforeYear (y dayOfYear : Int) (h0 : 0 ≤ dayOfYear) (h1 : dayOfYear ≤ 365)
    (hleap : dayOfYear = 365 → IsLeap (y + 1)) :
    marchYear (daysBeforeYear y + dayOfYear) = (y, dayOfYear) := by
  obtain ⟨e, c, q, r, hy, hc0, hc1, hq0, hq1, hr0, hr1⟩ : ∃ e c q r : Int,
      y = 400 * e + 100 * c + 4 * q + r ∧ 0 ≤ c ∧ c < 4 ∧ 0 ≤ q ∧ q < 25 ∧ 0 ≤ r ∧ r < 4 :=
    ⟨y / 400, y % 400 / 100, y % 100 / 4, y % 4, by omega, by omega, by omega, by omega, by omega,
      by omega, by omega⟩
  have hlast : dayOfYear = 365 → r = 3 ∧ (q ≠ 24 ∨ c = 3) := by
    intro h
    have h365 := hleap h
    unfold IsLeap at h365
    omega
  -- one place after the other: years of a cycle, cycles of a century, centuries of an era
  have hsum : daysBeforeYear y + dayOfYear =
      146097 * e + (36524 * c + (1461 * q + (365 * r + dayOfYear))) := by
    unfold daysBeforeYear
    omega
  have hyear : min 3 ((365 * r + dayOfYear) / 365) = r := by omega
  have hcentury : min 3 ((36524 * c + (1461 * q + (365 * r + dayOfYear))) / 36524) = c := by omega
  have hdiv : (146097 * e + (36524 * c + (1461 * q + (365 * r + dayOfYear)))) / 146097 = e := by omega
  have hmod : (146097 * e + (36524 * c + (1461 * q + (365 * r + dayOfYear)))) % 146097 =
      36524 * c + (1461 * q + (365 * r + dayOfYear)) := by omega
  have hsub : 36524 * c + (1461 * q + (365 * r + dayOfYear)) - 36524 * c =
      1461 * q + (365 * r + dayOfYear) := by omega
  have hdiv' : (1461 * q + (365 * r + dayOfYear)) / 1461 = q := by omega
  have hmod' : (1461 * q + (365 * r + dayOfYear)) % 1461 = 365 * r + dayOfYear := by omega
  rw [hsum]
  unfold marchYear
  simp only [hdiv, hmod, hcentury, hsub, hdiv', hmod', hyear, hy]
  congr 1
  omega

theorem daysBeforeMonth_div {m d : Int} (h0 : 1 ≤ d) (h1 : daysBeforeMonth m + d ≤ daysBeforeMonth (m + 1)) :
    (5 * (daysBeforeMonth m + d - 1) + 2) / 153 = m := by
  unfold daysBeforeMonth at *
  omega

theorem daysBeforeMonth_next {d : Ymd} (h : d.Valid) :
    0 ≤ (marchMonth d.year d.month).2 ∧ (marchMonth d.year d.month).2 ≤ 11 ∧
    daysBeforeMonth (marchMonth d.year d.month).2 + d.day ≤
      daysBeforeMonth ((marchMonth d.year d.month).2 + 1) ∧
    daysBeforeMonth (marchMonth d.year d.month).2 + d.day ≤ 366 ∧
    (daysBeforeMonth (marchMonth d.year d.month).2 + d.day = 366 →
      IsLeap ((marchMonth d.year d.month).1 + 1)) := by
  obtain ⟨hm1, hm12, hd1, hdim⟩ := h
  obtain ⟨year, month, day⟩ := d
  simp only at *
  have hmonth : month = 1 ∨ month = 2 ∨ month = 3 ∨ month = 4 ∨ month = 5 ∨ month = 6 ∨ month = 7 ∨
      month = 8 ∨ month = 9 ∨ month = 10 ∨ month = 11 ∨ month = 12 := by omega
  rcases hmonth with rfl | rfl | rfl | rfl | rfl | rfl | rfl | rfl | rfl | rfl | rfl | rfl
  case inr.inl =>
    simp only [monthLength] at hdim
    by_cases hl : IsLeap year
    · rw [if_pos hl] at hdim
      simp [marchMonth, daysBeforeMonth, hl]
      omega
    · rw [if_neg hl] at hdim
      simp [marchMonth, daysBeforeMonth]
      omega
  all_goals
    simp only [monthLength] at hdim
    simp [marchMonth, daysBeforeMonth]
    omega

theorem ofDays_toDays {d : Ymd} (h : d.Valid) : ofDays (toDays d) = d := by
  obtain ⟨hm0, hm11, hnext, hlast, hleap⟩ := daysBeforeMonth_next h
  obtain ⟨hm1, hm12, hd1, -⟩ := h
  have hsum : toDays d + 719468 = daysBeforeYear (marchMonth d.year d.month).1 +
      (daysBeforeMonth (marchMonth d.year d.month).2 + d.day - 1) := by
    unfold toDays
    omega
  have hday0 : 0 ≤ daysBeforeMonth (marchMonth d.year d.month).2 := by
    unfold daysBeforeMonth
    omega
  have hyear := marchYear_daysBeforeYear (marchMonth d.year d.month).1
    (daysBeforeMonth (marchMonth d.year d.month).2 + d.day - 1) (by omega) (by omega)
    (fun h => hleap (by omega))
  have hmonth := daysBeforeMonth_div (by omega) hnext
  have hday : daysBeforeMonth (marchMonth d.year d.month).2 + d.day - 1 -
      daysBeforeMonth (marchMonth d.year d.month).2 + 1 = d.day := by omega
  unfold ofDays
  rw [hsum, hyear]
  simp only [hmonth]
  clear hyear hmonth hday hsum hday0 hleap hlast hnext
  obtain ⟨year, month, day⟩ := d
  simp only [marchMonth, Ymd.mk.injEq] at *
  by_cases hfeb : month ≤ 2
  · simp only [hfeb, if_true] at *
    omega
  · simp only [hfeb, if_false] at *
    omega

/-! ## Numbers -/

theorem marchYear_spec (n : Int) :
    daysBeforeYear (marchYear n).1 + (marchYear n).2 = n ∧ 0 ≤ (marchYear n).2 ∧ (marchYear n).2 ≤ 365 ∧
    ((marchYear n).2 = 365 → IsLeap ((marchYear n).1 + 1)) := by
  obtain ⟨e, inEra, hn, he0, he1⟩ : ∃ e inEra : Int, n = 146097 * e + inEra ∧ 0 ≤ inEra ∧ inEra < 146097 :=
    ⟨n / 146097, n % 146097, by omega, by omega, by omega⟩
  have hdiv : n / 146097 = e := by omega
  have hmod : n % 146097 = inEra := by omega
  obtain ⟨c, hc⟩ : ∃ c, min 3 (inEra / 36524) = c := ⟨_, rfl⟩
  obtain ⟨inCentury, hcent⟩ : ∃ k, inEra - 36524 * c = k := ⟨_, rfl⟩
  have hcrange : 0 ≤ c ∧ c ≤ 3 ∧ 0 ≤ inCentury ∧ inCentury ≤ 36524 ∧ (inCentury = 36524 → c = 3) := by omega
  obtain ⟨q, cycle, hq, hcycle0, hcycle1⟩ : ∃ q cycle : Int, inCentury = 1461 * q + cycle ∧ 0 ≤ cycle ∧
      cycle < 1461 := ⟨inCentury / 1461, inCentury % 1461, by omega, by omega, by omega⟩
  have hqdiv : inCentury / 1461 = q := by omega
  have hqmod : inCentury % 1461 = cycle := by omega
  obtain ⟨r, hr⟩ : ∃ r, min 3 (cycle / 365) = r := ⟨_, rfl⟩
  have hrrange : 0 ≤ r ∧ r ≤ 3 ∧ 0 ≤ cycle - 365 * r ∧ cycle - 365 * r ≤ 365 ∧
      (cycle - 365 * r = 365 → r = 3 ∧ cycle = 1460) := by omega
  have hyear : marchYear n = (400 * e + 100 * c + 4 * q + r, cycle - 365 * r) := by
    unfold marchYear
    simp [hdiv, hmod, hc, hcent, hqdiv, hqmod, hr]
  rw [hyear]
  have hdivs : (400 * e + 100 * c + 4 * q + r) / 4 = 100 * e + 25 * c + q ∧
      (400 * e + 100 * c + 4 * q + r) / 100 = 4 * e + c ∧ (400 * e + 100 * c + 4 * q + r) / 400 = e := by omega
  refine ⟨?_, hrrange.2.2.1, hrrange.2.2.2.1, ?_⟩
  · unfold daysBeforeYear
    rw [hdivs.2.1, hdivs.2.2]
    omega
  · intro h365
    unfold IsLeap
    omega

theorem ofDays_spec (n : Int) : (ofDays n).Valid ∧ toDays (ofDays n) = n := by
  obtain ⟨hsum, h0, h1, hleap⟩ := marchYear_spec (n + 719468)
  obtain ⟨y, hy⟩ : ∃ y, (marchYear (n + 719468)).1 = y := ⟨_, rfl⟩
  obtain ⟨d, hd⟩ : ∃ d, (marchYear (n + 719468)).2 = d := ⟨_, rfl⟩
  rw [hy] at hsum
  rw [hy] at hleap
  have hpair : marchYear (n + 719468) = (y, d) := Prod.ext hy hd
  have hm : (5 * d + 2) / 153 = 0 ∨ (5 * d + 2) / 153 = 1 ∨ (5 * d + 2) / 153 = 2 ∨ (5 * d + 2) / 153 = 3 ∨
      (5 * d + 2) / 153 = 4 ∨ (5 * d + 2) / 153 = 5 ∨ (5 * d + 2) / 153 = 6 ∨ (5 * d + 2) / 153 = 7 ∨
      (5 * d + 2) / 153 = 8 ∨ (5 * d + 2) / 153 = 9 ∨ (5 * d + 2) / 153 = 10 ∨ (5 * d + 2) / 153 = 11 := by
    omega
  unfold ofDays
  rw [hpair]
  simp only
  rcases hm with h | h | h | h | h | h | h | h | h | h | h | h
  case inr.inr.inr.inr.inr.inr.inr.inr.inr.inr.inr =>
    -- February, which has its last day in leap years only
    rw [h]
    simp only [daysBeforeMonth]
    have hday : d ≠ 365 ∨ IsLeap (y + 1) := Decidable.or_iff_not_imp_left.mpr (fun h => hleap (by omega))
    have hlen : (d - 337 + 1).toNat ≤ monthLength (y + 1) 2 := by
      simp only [monthLength]
      split
      · omega
      rename_i hnot
      rcases hday with hne | hyes
      · omega
      · exact absurd hyes hnot
    refine ⟨⟨by simp, by simp, by simp; omega, ?_⟩, ?_⟩
    · simpa using hlen
    · simp [toDays, marchMonth, daysBeforeMonth]
      omega
  all_goals
    rw [h]
    simp [daysBeforeMonth, toDays, marchMonth]
    refine ⟨⟨by simp, by simp, by simp only; omega, by simp only [monthLength]; omega⟩, by omega⟩

theorem valid_ofDays (n : Int) : (ofDays n).Valid := (ofDays_spec n).1

theorem toDays_ofDays (n : Int) : toDays (ofDays n) = n := (ofDays_spec n).2

/-- The months in their order, counted from January of year 0. -/
def Ymd.monthIndex (d : Ymd) : Int := 12 * d.year + d.month - 1

theorem toDays_lt {d e : Ymd} (hd : d.Valid) (he : e.Valid) (h : d.monthIndex < e.monthIndex) :
    toDays d < toDays e := by
  obtain ⟨hd0, hd11, hdnext, hdlast, hdleap⟩ := daysBeforeMonth_next hd
  obtain ⟨he0, he11, -, -, -⟩ := daysBeforeMonth_next he
  have hday := he.day_pos
  have hindex : ∀ x : Ymd, 12 * (marchMonth x.year x.month).1 + (marchMonth x.year x.month).2 =
      x.monthIndex - 2 := by
    intro x
    unfold marchMonth Ymd.monthIndex
    split <;> simp only <;> omega
  have hdi := hindex d
  have hei := hindex e
  unfold toDays
  generalize marchMonth d.year d.month = a at *
  generalize marchMonth e.year e.month = b at *
  rcases Int.lt_or_le a.1 b.1 with hyear | hyear
  · -- a later year starts after the last day of this one
    have hmono : daysBeforeYear (a.1 + 1) ≤ daysBeforeYear b.1 := by
      unfold daysBeforeYear
      omega
    have hlen : daysBeforeMonth a.2 + d.day ≤ daysBeforeYear (a.1 + 1) - daysBeforeYear a.1 := by
      by_cases hleap : daysBeforeMonth a.2 + d.day = 366
      · have := hdleap hleap
        unfold IsLeap at this
        unfold daysBeforeYear
        omega
      · unfold daysBeforeYear
        omega
    have hmonth : 0 ≤ daysBeforeMonth b.2 := by
      unfold daysBeforeMonth
      omega
    omega
  · have hsame : a.1 = b.1 := by omega
    have hmonth : daysBeforeMonth (a.2 + 1) ≤ daysBeforeMonth b.2 := by
      unfold daysBeforeMonth
      omega
    rw [hsame]
    omega

end Ratatoskr.Lib

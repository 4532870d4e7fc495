import Ratatoskr.Calendar.Walks

/-!
# Calendar.Checked

The expansion with every `i64` operation checked: it fails where the code panics or where a result does not
fit.

* `expandRecurrenceChecked` : the checked expansion.
* `untilReads_iff`, `parse_isOk_iff` : which rule texts are read without a panic.
* `ruleRead_of_parse` : the bounds of a rule that was read.

The other integers stay small: ordinals and days of a month are bounded when they are parsed, and the year
cursor is advanced by `checked_add`.
-/

namespace Ratatoskr.Calendar

open Lib (Ymd Weekday weekday toDays ofDays)

inductive Fault where
  | panic (p : Panic)
  | overflow
  deriving DecidableEq

def fitsI64 (n : Int) : Prop := -2 ^ 63 ≤ n ∧ n < 2 ^ 63

instance (n : Int) : Decidable (fitsI64 n) := inferInstanceAs (Decidable (_ ∧ _))

def checkI64 (n : Int) : Except Fault Int := if fitsI64 n then .ok n else .error .overflow

def orPanic {α : Type} (r : Except Panic α) : Except Fault α := r.mapError .panic

/-- The step of a walk by days, with its fallback, which is computed in any case. -/
def stepChecked (tz : TimeZone) (days t : Int) : Except Fault Int := do
  let next ← orPanic (addDaysInZone tz t days)
  let seconds ← checkI64 (days * 86400)
  let fallback ← checkI64 (t + seconds)
  pure (next.getD fallback)

def dailyChecked (tz : TimeZone) (interval : Int) (bydayFilter : List Weekday) (cap : Nat) :
    Nat → Int → List Int → Except Fault (List Int)
  | 0, _, out => .ok out
  | n + 1, current, out =>
    if cap ≤ out.length then .ok out
    else do
      let out :=
        if bydayFilter = [] ∨ matchesWeekday tz current bydayFilter then out ++ [current] else out
      let next ← stepChecked tz interval current
      dailyChecked tz interval bydayFilter cap n next out

def weeklyChecked (tz : TimeZone) (intervalDays : Int) (days : List Weekday) (cap : Nat) (start : Int) :
    Nat → Int → List Int → Except Fault (List Int)
  | 0, _, out => .ok out
  | n + 1, weekAnchor, out =>
    if cap ≤ out.length then .ok out
    else do
      let out := pushWeek tz cap weekAnchor start days out
      let next ← stepChecked tz intervalDays weekAnchor
      weeklyChecked tz intervalDays days cap start n next out

def expandWeeklyChecked (tz : TimeZone) (start : Int) (rule : Rrule) : Except Fault (List Int) := do
  let intervalDays ← checkI64 (rule.interval * 7)
  if rule.byday = [] then dailyChecked tz intervalDays [] (instanceCap rule 800) rruleMaxSteps start []
  else
    let wkst := rule.wkst.getD .monday
    weeklyChecked tz intervalDays (weekDays rule wkst) (instanceCap rule 800) start rruleMaxSteps
      (startOfWeek tz start wkst) []

/-- The cursor is not advanced any more once the cap is reached. -/
def monthlyChecked (tz : TimeZone) (rule : Rrule) (originalDay cap : Nat) (start time : Int) :
    Nat → Int → Nat → List Int → Except Fault (List Int)
  | 0, _, _, out => .ok out
  | n + 1, year, month, out =>
    if cap ≤ out.length then .ok out
    else
      let out := pushDays tz cap start time year month (monthDays rule originalDay year month) out
      if cap ≤ out.length then .ok out
      else do
        let _ ← checkI64 ((month : Int) - 1 + rule.interval)
        match advanceMonth rule.interval year month with
        | none => .ok out
        | some (year, month) => monthlyChecked tz rule originalDay cap start time n year month out

def expandMonthlyChecked (tz : TimeZone) (start : Int) (rule : Rrule) : Except Fault (List Int) :=
  match naive tz start with
  | none => .ok []
  | some startDt =>
    let ymd := ymdOf startDt
    monthlyChecked tz rule ymd.day (instanceCap rule 800) start startDt.time rruleMaxSteps ymd.year
      ymd.month []

def candidateStartsChecked (tz : TimeZone) (freq : Freq) (start : Int) (rule : Rrule) :
    Except Fault (List Int) :=
  match freq with
  | .daily =>
    dailyChecked tz rule.interval (rule.byday.map (·.day)) (instanceCap rule 800) rruleMaxSteps start []
  | .weekly => expandWeeklyChecked tz start rule
  | .monthly => expandMonthlyChecked tz start rule
  | .yearly => .ok (expandYearly tz start rule)

/-- The end of the two-year window, and the fallbacks of the end times, are computed in any case. -/
def expandRecurrenceChecked (j : Jiff) (event : CalendarViewEvent) (rrule : String)
    (overrides : List String) (expansionHorizon : Option Int) :
    Except Fault (List CalendarViewEvent) := do
  let rule ← orPanic (parseRrule rrule)
  let rtz := RecurrenceTz.fromEventTimezone j event.timezone
  match Freq.parse rule.freq with
  | none => pure [event]
  | some freq =>
    if masterOnly freq rule then pure [event]
    else
      let rawDuration ← checkI64 (event.endTime - event.startTime)
      let _ ← checkI64 (event.startTime + 730 * 86400)
      let starts ← candidateStartsChecked (rtz.zone j) freq event.startTime rule
      let windowEnd := (windowBound (rtz.zone j) rule event.startTime expansionHorizon).getD (2 ^ 63 - 1)
      (emitLoop j rtz event overrides windowEnd (instanceCap rule 800) 0 starts []).mapM (fun inst => do
        let _ ← checkI64 (inst.startTime + rawDuration)
        pure inst)

/-- The hour, minute and second that an UNTIL is read with, if it comes to that. -/
def untilClock (val : List Char) : Option (Int × Int × Int) :=
  match parseI32 (val.take 4), parseU32 ((val.drop 4).take 2), parseU32 ((val.drop 6).take 2),
      val.drop 8 with
  | some year, some month, some day, 'T' :: rest =>
    if 1 ≤ year ∧ year ≤ 9999 ∧ (civilDate year month day).isSome ∧ 6 ≤ rest.length then
      match parseI8 (rest.take 2), parseI8 ((rest.drop 2).take 2), parseI8 ((rest.drop 4).take 2) with
      | some hour, some minute, some second => some (hour, minute, second)
      | _, _, _ => none
    else none
  | _, _, _, _ => none

/-- What `Date::at` accepts. -/
def ClockOk (c : Int × Int × Int) : Prop :=
  0 ≤ c.1 ∧ c.1 ≤ 23 ∧ 0 ≤ c.2.1 ∧ c.2.1 ≤ 59 ∧ 0 ≤ c.2.2 ∧ c.2.2 ≤ 59

instance (c : Int × Int × Int) : Decidable (ClockOk c) := inferInstanceAs (Decidable (_ ∧ _))

def UntilReads (val : List Char) : Prop := ∀ c, untilClock val = some c → ClockOk c

def PartReads (part : List Char) : Prop := ∀ val, stripKey "UNTIL=" part = some val → UntilReads val

def ruleParts (rrule : String) : List (List Char) :=
  splitAt ';' ((stripKey "RRULE:" rrule.toList).getD rrule.toList)

theorem clockTime_ok_iff (hour minute second : Int) :
    (∃ t, clockTime hour minute second = .ok t) ↔ ClockOk (hour, minute, second) := by
  unfold clockTime ClockOk
  split
  · rename_i h
    exact iff_of_true ⟨_, rfl⟩ h
  · rename_i h
    refine iff_of_false ?_ h
    rintro ⟨t, ht⟩
    cases ht

theorem parseUntilTime_ok_iff {date : Date} {rest : List Char} (hlen : 6 ≤ rest.length) :
    (∃ u, parseUntilTime date rest = .ok u) ↔ ∀ hour minute second, parseI8 (rest.take 2) = some hour →
        parseI8 ((rest.drop 2).take 2) = some minute → parseI8 ((rest.drop 4).take 2) = some second →
        ClockOk (hour, minute, second) := by
  rw [parseUntilTime, if_neg (by omega)]
  cases parseI8 (rest.take 2) with
  | none => simp
  | some hour =>
    cases parseI8 ((rest.drop 2).take 2) with
    | none => simp
    | some minute =>
      cases parseI8 ((rest.drop 4).take 2) with
      | none => simp
      | some second =>
        simp only
        have hclock := clockTime_ok_iff hour minute second
        cases ht : clockTime hour minute second with
        | error p =>
          rw [ht] at hclock
          refine iff_of_false ?_ ?_
          · rintro ⟨u, hu⟩
            cases hu
          · intro hok
            obtain ⟨t, h⟩ := hclock.mpr (hok _ _ _ rfl rfl rfl)
            cases h
        | ok t =>
          rw [ht] at hclock
          refine iff_of_true ?_ ?_
          · split
            · exact ⟨_, rfl⟩
            · exact ⟨_, rfl⟩
            · exact ⟨_, rfl⟩
          · rintro _ _ _ ⟨⟩ ⟨⟩ ⟨⟩
            exact hclock.mp ⟨t, rfl⟩

theorem untilReads_iff (val : List Char) : (∃ u, parseUntilDate val = .ok u) ↔ UntilReads val := by
  have htrue : ∀ {u : Option Until} {r : Except Panic (Option Until)}, r = .ok u → untilClock val = none →
      ((∃ u, r = .ok u) ↔ UntilReads val) := by
    intro u r hr hnone
    refine iff_of_true ⟨u, hr⟩ ?_
    intro c hc
    rw [hnone] at hc
    cases hc
  unfold parseUntilDate
  by_cases hlen : val.length < 8
  · rw [if_pos hlen]
    refine htrue rfl ?_
    have hdrop : val.drop 8 = [] := List.drop_eq_nil_of_le (by omega)
    unfold untilClock
    rw [hdrop]
    split
    · rename_i hT
      cases hT
    · rfl
  · rw [if_neg hlen]
    cases hy : parseI32 (val.take 4) with
    | none => exact htrue rfl (by simp [untilClock, hy])
    | some year =>
      cases hm : parseU32 ((val.drop 4).take 2) with
      | none => exact htrue rfl (by simp [untilClock, hm])
      | some month =>
        cases hd : parseU32 ((val.drop 6).take 2) with
        | none => exact htrue rfl (by simp [untilClock, hd])
        | some day =>
          simp only
          by_cases hyear : 1 ≤ year ∧ year ≤ 9999
          · rw [if_pos hyear]
            cases hdate : civilDate year month day with
            | none =>
              refine htrue rfl ?_
              unfold untilClock
              rw [hy, hm, hd]
              split
              · rename_i h1 h2 h3 _
                cases h1
                cases h2
                cases h3
                rw [if_neg (by simp [hdate])]
              · rfl
            | some date =>
              simp only
              split
              · rename_i hrest
                exact htrue rfl (by simp [untilClock, hrest])
              · rename_i rest hrest
                by_cases hsix : 6 ≤ rest.length
                · rw [parseUntilTime_ok_iff hsix]
                  unfold UntilReads untilClock
                  rw [hy, hm, hd, hrest]
                  simp only
                  rw [if_pos ⟨hyear.1, hyear.2, by rw [hdate]; rfl, hsix⟩]
                  constructor
                  · intro h c hc
                    split at hc
                    · rename_i h1 h2 h3
                      cases hc
                      exact h _ _ _ h1 h2 h3
                    · cases hc
                  · intro h hour minute second h1 h2 h3
                    apply h
                    rw [h1, h2, h3]
                · rw [parseUntilTime, if_pos (by omega)]
                  refine htrue rfl ?_
                  unfold untilClock
                  rw [hy, hm, hd, hrest]
                  simp only
                  rw [if_neg (fun h => hsix h.2.2.2)]
              · rename_i hnil hT
                refine htrue rfl ?_
                unfold untilClock
                split
                · rename_i h
                  exact absurd h (hT _)
                · rfl
          · rw [if_neg hyear]
            refine htrue rfl ?_
            unfold untilClock
            rw [hy, hm, hd]
            split
            · rename_i h1 h2 h3 _
              cases h1
              rw [if_neg (fun h => hyear ⟨h.1, h.2.1⟩)]
            · rfl

theorem stripKey_head {key : String} {part val : List Char} (h : stripKey key part = some val)
    (hkey : key.toList ≠ []) : part.head? = key.toList.head? := by
  unfold stripKey at h
  split at h
  · rename_i hlead
    obtain ⟨rest, rfl⟩ := List.isPrefixOf_iff_prefix.mp hlead
    exact List.head?_append_of_ne_nil _ hkey
  · cases h

theorem partReads_of_key {key : String} {part val : List Char} (h : stripKey key part = some val)
    (hkey : key.toList.head? ≠ "UNTIL=".toList.head?) (hne : key.toList ≠ []) : PartReads part := by
  intro val' h'
  apply absurd _ hkey
  rw [← stripKey_head h hne, stripKey_head h' (by decide)]

theorem parsePart_ok_iff (rule : Rrule) (part : List Char) :
    (∃ r, parsePart rule part = .ok r) ↔ PartReads part := by
  unfold parsePart
  split
  · rename_i h
    exact iff_of_true ⟨_, rfl⟩ (partReads_of_key h (by decide) (by decide))
  split
  · rename_i h
    exact iff_of_true ⟨_, rfl⟩ (partReads_of_key h (by decide) (by decide))
  split
  · rename_i h
    exact iff_of_true ⟨_, rfl⟩ (partReads_of_key h (by decide) (by decide))
  split
  · rename_i val h
    have hreads : PartReads part ↔ UntilReads val := by
      refine ⟨fun hpart => hpart val h, fun hval val' h' => ?_⟩
      rw [h] at h'
      cases h'
      exact hval
    rw [hreads, ← untilReads_iff]
    cases parseUntilDate val with
    | error p =>
      refine iff_of_false ?_ ?_ <;>
      · rintro ⟨r, hr⟩
        cases hr
    | ok u => exact iff_of_true ⟨_, rfl⟩ ⟨_, rfl⟩
  · -- no other key is read that could be this one
    rename_i h1 h2 h3 hno
    have hpart : PartReads part := fun val h => absurd h (hno val)
    refine iff_of_true ?_ hpart
    split
    · exact ⟨_, rfl⟩
    split
    · exact ⟨_, rfl⟩
    split
    · exact ⟨_, rfl⟩
    split
    · exact ⟨_, rfl⟩
    · exact ⟨_, rfl⟩

theorem parse_isOk_iff (rrule : String) :
    (∃ r, parseRrule rrule = .ok r) ↔ ∀ part ∈ ruleParts rrule, PartReads part :=
  Lib.foldlM_isOk_iff parsePart_ok_iff (fun _ _ _ _ _ => Iff.rfl) (ruleParts rrule) Rrule.default

structure RuleRead (rule : Rrule) : Prop where
  interval_pos : 1 ≤ rule.interval
  interval_lt : rule.interval < 2 ^ 63
  months : ∀ m ∈ rule.bymonth, 1 ≤ m ∧ m ≤ 12
  count_le : ∀ n, rule.count = some n → n ≤ rruleMaxCount

theorem ruleRead_part {rule r : Rrule} {part : List Char} (h : RuleRead rule)
    (hr : parsePart rule part = .ok r) : RuleRead r := by
  obtain ⟨h1, h2, h3, h4⟩ := h
  unfold parsePart at hr
  split at hr
  · cases hr
    exact ⟨h1, h2, h3, h4⟩
  split at hr
  · rename_i val _
    cases hr
    refine ⟨le_max_right _ _, ?_, h3, h4⟩
    have hval : ∀ n, parseI64 val = some n → n ≤ 2 ^ 63 - 1 := by
      intro n hn
      have := (Option.filter_eq_some_iff.mp hn).2
      simp only [decide_eq_true_eq] at this
      exact this.2
    cases hn : parseI64 val with
    | none =>
      show max (1 : Int) 1 < 2 ^ 63
      decide
    | some n =>
      have := hval n hn
      simp only [Option.getD_some]
      omega
  split at hr
  · cases hr
    refine ⟨h1, h2, h3, ?_⟩
    intro n hn
    obtain ⟨m, -, rfl⟩ := Option.map_eq_some_iff.mp hn
    exact Nat.min_le_right _ _
  split at hr
  · obtain ⟨u, hu, hr⟩ := Lib.bind_ok hr
    cases hr
    exact ⟨h1, h2, h3, h4⟩
  split at hr
  · cases hr
    exact ⟨h1, h2, h3, h4⟩
  split at hr
  · cases hr
    exact ⟨h1, h2, h3, h4⟩
  split at hr
  · cases hr
    refine ⟨h1, h2, ?_, h4⟩
    intro m hm
    have := (List.mem_filter.mp hm).2
    simpa using this
  split at hr
  · cases hr
    exact ⟨h1, h2, h3, h4⟩
  · cases hr
    unfold flagUnsupported
    split
    · split <;> exact ⟨h1, h2, h3, h4⟩
    · exact ⟨h1, h2, h3, h4⟩

theorem ruleRead_of_parse {rrule : String} {rule : Rrule} (h : parseRrule rrule = .ok rule) :
    RuleRead rule := by
  have hfold : ∀ (parts : List (List Char)) (r : Rrule), RuleRead r → parts.foldlM parsePart r = .ok rule →
      RuleRead rule := by
    intro parts
    induction parts with
    | nil =>
      intro r hr h
      cases h
      exact hr
    | cons part parts ih =>
      intro r hr h
      obtain ⟨r', hr', hrest⟩ := Lib.foldlM_cons_eq_ok.mp h
      exact ih r' (ruleRead_part hr hr') hrest
  refine hfold _ Rrule.default ⟨by decide, by decide, ?_, ?_⟩ h
  · intro m hm
    cases hm
  · intro n hn
    cases hn

end Ratatoskr.Calendar

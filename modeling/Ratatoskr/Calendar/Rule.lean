import Mathlib.Algebra.Group.Int.Defs
import Ratatoskr.Lib.Gregorian
import Ratatoskr.Threading.Text

/-!
# Calendar.Rule

`calendars/view/rrule/mod.rs`, the rule texts: `parse_rrule` and the values it reads. Everything but
the keys it knows is ignored, except six keys it knows it cannot honour.

The text is handled as a list of characters. The byte positions of `parse_until_date` are positions of
characters here: a character of more than one byte among the first fifteen makes a number unreadable
in both, and behind them both reject it.

Civil times and time zones are what the calendar code sees through `jiff`. A civil date is its number of days
since 1970-01-01, a civil date-time the seconds since midnight of that day on the same clock; an instant is in
Unix seconds. A zone is what the code asks of it: the offset at an instant, and the instant that a clock reading
stands for. Which zone the host is in, the zones with a name and the text forms of dates are parameters (`Jiff`).
-/

namespace Ratatoskr.Calendar

open Lib (Ymd Weekday monthLength toDays ofDays weekday)
open Threading (trim)

abbrev Date := Int

/-- A civil date and time, in seconds since 1970-01-01T00:00:00 on the same clock. -/
abbrev DateTime := Int

def daySeconds : Int := 86400

namespace DateTime

def date (dt : DateTime) : Date := dt / daySeconds

def time (dt : DateTime) : Int := dt % daySeconds

end DateTime

namespace Date

def toDateTime (d : Date) (time : Int) : DateTime := d * daySeconds + time

def min : Date := toDays ⟨-9999, 1, 1⟩

def max : Date := toDays ⟨9999, 12, 31⟩

end Date

/-- Whether `jiff` has the civil time. -/
def InCivilRange (dt : DateTime) : Prop := Date.min ≤ dt.date ∧ dt.date ≤ Date.max

instance (dt : DateTime) : Decidable (InCivilRange dt) := inferInstanceAs (Decidable (_ ∧ _))

/-- `Timestamp::from_second` and the check of every conversion to an instant. -/
def instant (timestamp : Int) : Option Int :=
  if -377705023201 ≤ timestamp ∧ timestamp ≤ 253402207200 then some timestamp else none

def checkedAdd (dt : DateTime) (seconds : Int) : Option DateTime :=
  if InCivilRange (dt + seconds) then some (dt + seconds) else none

structure TimeZone where
  ianaName : Option String
  /-- Seconds east of UTC at an instant. -/
  offset : Int → Int
  /-- The instant of a clock reading: the earlier one of two, and past the gap if there is none. -/
  toInstant : DateTime → Int

namespace TimeZone

def utc : TimeZone := ⟨some "UTC", fun _ => 0, fun dt => dt⟩

/-- A zone that is always `seconds` east of UTC. -/
def fixed (name : String) (seconds : Int) : TimeZone :=
  ⟨some name, fun _ => seconds, fun dt => dt - seconds⟩

def toZoned (tz : TimeZone) (dt : DateTime) : Option Int := instant (tz.toInstant dt)

end TimeZone

/-- What the code gets from `jiff` and the host. -/
structure Jiff where
  /-- `TimeZone::system`. -/
  system : TimeZone
  /-- `TimeZone::get`. -/
  get : String → Option TimeZone
  parseDate : String → Option Date
  /-- Texts with an offset or `Z`. -/
  parseTimestamp : String → Option Int
  /-- Texts without one. -/
  parseDateTime : String → Option DateTime

/-- The only way the calendar code can fail: `Span::days` and `Date::at` panic on values out of range. -/
inductive Panic where
  | spanDays
  | dateAt
  deriving DecidableEq

inductive RecurrenceTz where
  | iana (tz : TimeZone)
  | local

namespace RecurrenceTz

def fromEventTimezone (j : Jiff) (eventTz : Option String) : RecurrenceTz :=
  match eventTz with
  | none => .local
  | some raw =>
    let trimmed := String.ofList (trim raw.toList)
    if trimmed = "" then .local
    else
      match j.get trimmed with
      | some tz => .iana tz
      | none => .local

def zone (j : Jiff) : RecurrenceTz → TimeZone
  | .iana tz => tz
  | .local => j.system

end RecurrenceTz

def naive (tz : TimeZone) (timestamp : Int) : Option DateTime :=
  (instant timestamp).map (fun t => t + tz.offset t)

def resolve (tz : TimeZone) (dt : DateTime) : Option Int := tz.toZoned dt

def daysInMonth (year : Int) (month : Nat) : Nat := monthLength year month

def civilDate (year : Int) (month day : Nat) : Option Date :=
  if -9999 ≤ year ∧ year ≤ 9999 ∧ 1 ≤ month ∧ month ≤ 12 ∧ 1 ≤ day ∧ day ≤ daysInMonth year month then
    some (toDays ⟨year, month, day⟩)
  else none

def ymdOf (dt : DateTime) : Ymd := ofDays dt.date

def spanLimit : Int := 7304484

def addDaysInZone (tz : TimeZone) (timestamp days : Int) : Except Panic (Option Int) :=
  match naive tz timestamp with
  | none => .ok none
  | some dt =>
    if -spanLimit ≤ days ∧ days ≤ spanLimit then
      .ok ((checkedAdd dt (days * daySeconds)).bind (resolve tz))
    else .error .spanDays

/-- A number in decimal digits, with zeros in front up to the width. -/
def padded (width n : Nat) : List Char :=
  let digits := (Nat.repr n).toList
  List.replicate (width - digits.length) '0' ++ digits

/-- `%Y%m%d`. -/
def formatDate (d : Date) : String :=
  let ymd := ofDays d
  let year := if ymd.year < 0 then '-' :: padded 4 ymd.year.natAbs else padded 4 ymd.year.natAbs
  String.ofList (year ++ padded 2 ymd.month ++ padded 2 ymd.day)

/-- `%Y%m%dT%H%M%S`. -/
def formatDateTime (dt : DateTime) : String :=
  let seconds := dt.time.toNat
  formatDate dt.date ++ "T" ++
    String.ofList (padded 2 (seconds / 3600) ++ padded 2 (seconds / 60 % 60) ++ padded 2 (seconds % 60))

example : formatDateTime 1773565205 = "20260315T090005" := by decide

def rruleMaxCount : Nat := 10000

def parseDigits (cs : List Char) : Option Nat :=
  if cs = [] ∨ ¬ cs.all Char.isDigit then none
  else some (cs.foldl (fun n c => 10 * n + (c.toNat - '0'.toNat)) 0)

/-- `str::parse` for a signed type with the given bounds. -/
def parseSigned (lo hi : Int) (cs : List Char) : Option Int :=
  let value : Option Int := match cs with
    | '-' :: ds => (parseDigits ds).map (fun n => -(n : Int))
    | '+' :: ds => (parseDigits ds).map (fun n => (n : Int))
    | ds => (parseDigits ds).map (fun n => (n : Int))
  value.filter (fun n => lo ≤ n ∧ n ≤ hi)

/-- `str::parse` for an unsigned type with the given bound. -/
def parseUnsigned (hi : Nat) (cs : List Char) : Option Nat :=
  let value := match cs with
    | '+' :: ds => parseDigits ds
    | ds => parseDigits ds
  value.filter (fun n => n ≤ hi)

def parseI64 : List Char → Option Int := parseSigned (-2 ^ 63) (2 ^ 63 - 1)

def parseI32 : List Char → Option Int := parseSigned (-2 ^ 31) (2 ^ 31 - 1)

def parseI8 : List Char → Option Int := parseSigned (-128) 127

def parseU32 : List Char → Option Nat := parseUnsigned (2 ^ 32 - 1)

def parseUsize : List Char → Option Nat := parseUnsigned (2 ^ 64 - 1)

/-- `i64` arithmetic, which wraps around. -/
def wrapI64 (n : Int) : Int := (n + 2 ^ 63) % 2 ^ 64 - 2 ^ 63

/-- `str::split` at one character. -/
def splitAt (sep : Char) : List Char → List (List Char)
  | [] => [[]]
  | c :: cs =>
    if c = sep then [] :: splitAt sep cs
    else
      match splitAt sep cs with
      | [] => [[c]]
      | part :: parts => (c :: part) :: parts

def stripKey (key : String) (cs : List Char) : Option (List Char) :=
  if key.toList.isPrefixOf cs then some (cs.drop key.length) else none

inductive Freq where
  | daily | weekly | monthly | yearly
  deriving DecidableEq

def Freq.parse (s : String) : Option Freq :=
  if s = "DAILY" then some .daily
  else if s = "WEEKLY" then some .weekly
  else if s = "MONTHLY" then some .monthly
  else if s = "YEARLY" then some .yearly
  else none

/-- A weekday, or the n-th one of the month, from its end if `n` is negative. -/
structure ByDay where
  ordinal : Option Int
  day : Weekday
  deriving DecidableEq

/-- UNTIL as it is written; a zone turns it into an instant. -/
inductive Until where
  | date (d : Date)
  | floating (dt : DateTime)
  | utc (timestamp : Int)
  deriving DecidableEq

def Until.resolve (tz : TimeZone) : Until → Option Int
  | .date d => Calendar.resolve tz (d.toDateTime (23 * 3600 + 59 * 60 + 59))
  | .floating dt => Calendar.resolve tz dt
  | .utc timestamp => some timestamp

structure Rrule where
  freq : String
  interval : Int
  count : Option Nat
  til : Option Until
  byday : List ByDay
  bymonthday : List Int
  bymonth : List Nat
  wkst : Option Weekday
  unsupportedParts : List String
  deriving DecidableEq

def Rrule.default : Rrule := ⟨"", 1, none, none, [], [], [], none, []⟩

def parseWeekdayCode (code : List Char) : Option Weekday :=
  match code with
  | ['M', 'O'] => some .monday
  | ['T', 'U'] => some .tuesday
  | ['W', 'E'] => some .wednesday
  | ['T', 'H'] => some .thursday
  | ['F', 'R'] => some .friday
  | ['S', 'A'] => some .saturday
  | ['S', 'U'] => some .sunday
  | _ => none

def parseByday (spec : List Char) : Option ByDay :=
  let trimmed := trim spec
  let (sign, rest) : Int × List Char := match trimmed with
    | '-' :: rest => (-1, rest)
    | '+' :: rest => (1, rest)
    | rest => (1, rest)
  let digits := rest.takeWhile Char.isDigit
  let code := rest.dropWhile Char.isDigit
  if digits = [] then (parseWeekdayCode code).map (fun day => ⟨none, day⟩)
  else
    match parseI32 digits with
    | none => none
    | some n =>
      if n = 0 ∨ 53 < n then none
      else (parseWeekdayCode code).map (fun day => ⟨some (sign * n), day⟩)

/-- The clock time of `Date::at`, which panics on an hour, minute or second that does not exist. -/
def clockTime (hour minute second : Int) : Except Panic Int :=
  if 0 ≤ hour ∧ hour ≤ 23 ∧ 0 ≤ minute ∧ minute ≤ 59 ∧ 0 ≤ second ∧ second ≤ 59 then
    .ok (hour * 3600 + minute * 60 + second)
  else .error .dateAt

def parseUntilTime (date : Date) (rest : List Char) : Except Panic (Option Until) :=
  if rest.length < 6 then .ok none
  else
    match parseI8 (rest.take 2), parseI8 ((rest.drop 2).take 2), parseI8 ((rest.drop 4).take 2) with
    | some hour, some minute, some second => do
      let time ← clockTime hour minute second
      let dt := date.toDateTime time
      match rest.drop 6 with
      | [] => pure (some (.floating dt))
      | ['Z'] => pure ((TimeZone.utc.toZoned dt).map .utc)
      | _ => pure none
    | _, _, _ => .ok none

def parseUntilDate (val : List Char) : Except Panic (Option Until) :=
  if val.length < 8 then .ok none
  else
    match parseI32 (val.take 4), parseU32 ((val.drop 4).take 2), parseU32 ((val.drop 6).take 2) with
    | some year, some month, some day =>
      if 1 ≤ year ∧ year ≤ 9999 then
        match civilDate year month day with
        | none => .ok none
        | some date =>
          match val.drop 8 with
          | [] => .ok (some (.date date))
          | 'T' :: rest => parseUntilTime date rest
          | _ => .ok none
      else .ok none
    | _, _, _ => .ok none

/-! ## The rule -/

def unsupportedKeys : List String :=
  ["BYSETPOS", "BYWEEKNO", "BYYEARDAY", "BYHOUR", "BYMINUTE", "BYSECOND"]

def flagUnsupported (rule : Rrule) (part : List Char) : Rrule :=
  match unsupportedKeys.find? (fun key => (key ++ "=").toList.isPrefixOf part) with
  | some key =>
    if key ∈ rule.unsupportedParts then rule
    else { rule with unsupportedParts := rule.unsupportedParts ++ [key] }
  | none => rule

def parseMonthDays (val : List Char) : List Int :=
  ((splitAt ',' val).filterMap (fun s => parseI32 (trim s))).filter
    (fun d => 1 ≤ d.natAbs ∧ d.natAbs ≤ 31)

def parseMonths (val : List Char) : List Nat :=
  ((splitAt ',' val).filterMap (fun s => parseU32 (trim s))).filter (fun m => 1 ≤ m ∧ m ≤ 12)

def parsePart (rule : Rrule) (part : List Char) : Except Panic Rrule :=
  if let some val := stripKey "FREQ=" part then .ok { rule with freq := String.ofList val }
  else if let some val := stripKey "INTERVAL=" part then
    .ok { rule with interval := max ((parseI64 val).getD 1) 1 }
  else if let some val := stripKey "COUNT=" part then
    .ok { rule with count := (parseUsize val).map (fun n => min n rruleMaxCount) }
  else if let some val := stripKey "UNTIL=" part then do
    let til ← parseUntilDate val
    pure { rule with til := til }
  else if let some val := stripKey "BYDAY=" part then
    .ok { rule with byday := (splitAt ',' val).filterMap parseByday }
  else if let some val := stripKey "BYMONTHDAY=" part then
    .ok { rule with bymonthday := parseMonthDays val }
  else if let some val := stripKey "BYMONTH=" part then
    .ok { rule with bymonth := parseMonths val }
  else if let some val := stripKey "WKST=" part then
    .ok { rule with wkst := parseWeekdayCode (trim val) }
  else .ok (flagUnsupported rule part)

def parseRrule (rrule : String) : Except Panic Rrule :=
  let body := (stripKey "RRULE:" rrule.toList).getD rrule.toList
  (splitAt ';' body).foldlM parsePart Rrule.default

def instanceCap (rule : Rrule) (defaultUnbounded : Nat) : Nat :=
  match rule.count with
  | some n => max n 1
  | none =>
    if rule.til.isSome then rruleMaxCount else min (max defaultUnbounded 1) rruleMaxCount

end Ratatoskr.Calendar

/-!
# Dates

An instant is a count of seconds since the start of 1970 and a fraction of a
second. Its date in universal time is found by counting the days of whole
cycles of 400 years, centuries, spans of four years and years, in a year that
starts in March so that the leap day comes last.
-/

namespace PromptTemplate

/-- A point in time. -/
structure Instant where
  /-- Whole seconds since the start of 1970, rounded down. -/
  seconds : Int
  /-- Nanoseconds into the second. -/
  nanos : Nat
  deriving DecidableEq, Repr

/-- A day of the Gregorian calendar. -/
structure Date where
  year : Int
  /-- From one. -/
  month : Nat
  /-- From one. -/
  day : Nat
  deriving DecidableEq, Repr

namespace Date

/-- Every fourth year is a leap year, save centuries that four hundred does not divide. -/
def isLeapYear (year : Int) : Bool := year % 4 = 0 && (year % 100 ≠ 0 || year % 400 = 0)

/-- The date that lies a number of days behind the first of January 1970. -/
def ofDays (days : Int) : Date :=
  let shifted := days + 719468
  let cycle := shifted.fdiv 146097
  let dayOfCycle := (shifted.fmod 146097).toNat
  let yearOfCycle :=
    (dayOfCycle - dayOfCycle / 1460 + dayOfCycle / 36524 - dayOfCycle / 146096) / 365
  let dayOfYear := dayOfCycle - (365 * yearOfCycle + yearOfCycle / 4 - yearOfCycle / 100)
  let marchMonth := (5 * dayOfYear + 2) / 153
  let month := if marchMonth < 10 then marchMonth + 3 else marchMonth - 9
  { year := yearOfCycle + cycle * 400 + (if month ≤ 2 then 1 else 0)
    month
    day := dayOfYear - (153 * marchMonth + 2) / 5 + 1 }

/-- The number of days in a month. -/
def daysInMonth (year : Int) (month : Nat) : Nat :=
  if month = 2 then (if isLeapYear year then 29 else 28)
  else if month = 4 ∨ month = 6 ∨ month = 9 ∨ month = 11 then 30
  else 31

/-- The place of a day in its year, from one. -/
def dayOfYear (d : Date) : Nat :=
  (List.range (d.month - 1)).foldr (fun m n => daysInMonth d.year (m + 1) + n) d.day

/-- The quarter of the year, from one. -/
def quarter (d : Date) : Nat := (d.month - 1) / 3 + 1

/-- The number of weeks, from Monday on, that belong to a year: the year to which most of
a week's days belong. -/
def weeksInYear (year : Int) : Nat :=
  let lastWeekday (y : Int) : Int := (y + y.fdiv 4 - y.fdiv 100 + y.fdiv 400) % 7
  if lastWeekday year = 4 ∨ lastWeekday (year - 1) = 3 then 53 else 52

end Date

namespace Instant

/-- Days since the first of January 1970. -/
def days (t : Instant) : Int := t.seconds.fdiv 86400

/-- Seconds into the day. -/
def secondOfDay (t : Instant) : Nat := (t.seconds.fmod 86400).toNat

/-- The date in universal time. -/
def date (t : Instant) : Date := Date.ofDays t.days

def hour (t : Instant) : Nat := t.secondOfDay / 3600

def minute (t : Instant) : Nat := t.secondOfDay / 60 % 60

def second (t : Instant) : Nat := t.secondOfDay % 60

/-- The hour on a dial of twelve. -/
def hour12 (t : Instant) : Nat := if t.hour % 12 = 0 then 12 else t.hour % 12

/-- The day of the week, Sunday being zero. -/
def weekday (t : Instant) : Nat := ((t.days + 4) % 7).toNat

/-- The day of the week, Monday being one and Sunday seven. -/
def isoWeekday (t : Instant) : Nat := if t.weekday = 0 then 7 else t.weekday

/-- The number of the week when weeks start on Sunday and the first Sunday starts week one. -/
def weekFromSunday (t : Instant) : Nat := (t.date.dayOfYear + 6 - t.weekday) / 7

/-- The number of the week when weeks start on Monday and the first Monday starts week one. -/
def weekFromMonday (t : Instant) : Nat := (t.date.dayOfYear + 7 - t.isoWeekday) / 7

/-- The year and the number of the week to which most of the week's days belong. -/
def isoWeek (t : Instant) : Int × Nat :=
  let year := t.date.year
  let week := (t.date.dayOfYear + 10 - t.isoWeekday) / 7
  if week = 0 then (year - 1, Date.weeksInYear (year - 1))
  else if Date.weeksInYear year < week then (year + 1, 1)
  else (year, week)

end Instant

end PromptTemplate

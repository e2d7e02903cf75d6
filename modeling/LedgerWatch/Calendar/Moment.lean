namespace LedgerWatch

structure Date where
  year : Int
  month : Nat
  day : Nat
  deriving DecidableEq, Repr

namespace Date

def isLeap (year : Int) : Bool := year % 4 = 0 && (year % 100 ≠ 0 || year % 400 = 0)

def monthLength (year : Int) (month : Nat) : Nat :=
  if month = 2 then (if isLeap year then 29 else 28)
  else if month = 4 ∨ month = 6 ∨ month = 9 ∨ month = 11 then 30
  else 31

def Valid (d : Date) : Prop :=
  1 ≤ d.month ∧ d.month ≤ 12 ∧ 1 ≤ d.day ∧ d.day ≤ monthLength d.year d.month

instance (d : Date) : Decidable d.Valid := by unfold Valid; infer_instance

/-- Years that can be told apart from a mistyped text. -/
def firstYear : Int := -262143

def lastYear : Int := 262142

/-- Days since the first of March of the year zero. The year is taken to begin in March, so that
a leap day is its last day. -/
def toDays (d : Date) : Int :=
  let year := if d.month ≤ 2 then d.year - 1 else d.year
  let month := if d.month ≤ 2 then d.month + 9 else d.month - 3
  365 * year + year / 4 - year / 100 + year / 400 + ((153 * month + 2) / 5 : Nat) +
    (d.day - 1 : Nat)

def ofDays (days : Int) : Date :=
  let era := days / 146097
  let dayOfEra := (days % 146097).toNat
  let yearOfEra := (dayOfEra - dayOfEra / 1460 + dayOfEra / 36524 - dayOfEra / 146096) / 365
  let dayOfYear := dayOfEra - (365 * yearOfEra + yearOfEra / 4 - yearOfEra / 100)
  let month := (5 * dayOfYear + 2) / 153
  let day := dayOfYear - (153 * month + 2) / 5 + 1
  let year : Int := era * 400 + yearOfEra
  if month < 10 then ⟨year, month + 3, day⟩ else ⟨year + 1, month - 9, day⟩

end Date

/-- A date with a time of day. A leap second is second 59 with a full second of nanoseconds more. -/
structure Moment where
  date : Date
  hour : Nat
  minute : Nat
  second : Nat
  nanosecond : Nat
  deriving DecidableEq, Repr

namespace Moment

def Valid (t : Moment) : Prop :=
  t.date.Valid ∧ t.hour < 24 ∧ t.minute < 60 ∧ t.second < 60 ∧ t.nanosecond < 2000000000

instance (t : Moment) : Decidable t.Valid := by unfold Valid; infer_instance

/-- A moment from its fields; second 60 is the leap second. -/
def ofFields? (d : Date) (hour minute second nanosecond : Nat) : Option Moment :=
  let t : Moment :=
    if second = 60 then ⟨d, hour, minute, 59, nanosecond + 1000000000⟩
    else ⟨d, hour, minute, second, nanosecond⟩
  if t.Valid then some t else none

/-- Minutes since the midnight that begins the first of March of the year zero. -/
def toMinutes (t : Moment) : Int := t.date.toDays * 1440 + t.hour * 60 + t.minute

/-- The moment a number of minutes later; seconds stay. -/
def addMinutes (t : Moment) (minutes : Int) : Moment :=
  let total := t.toMinutes + minutes
  let ofDay := (total % 1440).toNat
  { t with date := .ofDays (total / 1440), hour := ofDay / 60, minute := ofDay % 60 }

/-- A whole number that grows with time. -/
def rank (t : Moment) : Int :=
  (((((t.date.year * 13 + t.date.month) * 32 + t.date.day) * 24 + t.hour) * 60 + t.minute) * 60 +
    t.second) * 2000000000 + t.nanosecond

end Moment

end LedgerWatch

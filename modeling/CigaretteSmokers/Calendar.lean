namespace CigaretteSmokers

/-- A day of the calendar, also of a year before the first. -/
structure Date where
  year : Int
  month : Nat
  day : Nat
  deriving DecidableEq, Inhabited

namespace Date

def isLeapYear (year : Int) : Bool := year % 4 = 0 && (year % 100 ≠ 0 || year % 400 = 0)

def daysIn (year : Int) (month : Nat) : Nat :=
  if month = 2 then if isLeapYear year then 29 else 28
  else if month = 4 ∨ month = 6 ∨ month = 9 ∨ month = 11 then 30
  else 31

/-- Years go from -262143 to 262142. -/
def isValid (d : Date) : Bool :=
  -262143 ≤ d.year && d.year ≤ 262142 && 1 ≤ d.month && d.month ≤ 12 &&
  1 ≤ d.day && d.day ≤ daysIn d.year d.month

def next (d : Date) : Date :=
  if d.day < daysIn d.year d.month then { d with day := d.day + 1 }
  else if d.month < 12 then { d with month := d.month + 1, day := 1 }
  else { year := d.year + 1, month := 1, day := 1 }

def previous (d : Date) : Date :=
  if 1 < d.day then { d with day := d.day - 1 }
  else if 1 < d.month then { d with month := d.month - 1, day := daysIn d.year (d.month - 1) }
  else { year := d.year - 1, month := 12, day := 31 }

/-- The day so many days after the first of January 1970. Years begin in March here, so that the
leap day is the last of its year. -/
def ofDays (days : Nat) : Date :=
  let n := days + 719468
  let era := n / 146097
  let dayOfEra := n % 146097
  let yearOfEra := (dayOfEra - dayOfEra / 1460 + dayOfEra / 36524 - dayOfEra / 146096) / 365
  let dayOfYear := dayOfEra - (365 * yearOfEra + yearOfEra / 4 - yearOfEra / 100)
  let m := (5 * dayOfYear + 2) / 153
  let month := if m < 10 then m + 3 else m - 9
  { year := yearOfEra + era * 400 + (if month ≤ 2 then 1 else 0), month
    day := dayOfYear - (153 * m + 2) / 5 + 1 }

end Date

/-- A moment in universal time. A minute may have a leap second at its end. -/
structure Timestamp where
  date : Date
  minute : Nat
  second : Nat
  nanosecond : Nat
  valid : date.isValid ∧ minute < 1440 ∧ second ≤ 60 ∧ nanosecond < 1000000000
  deriving DecidableEq

namespace Timestamp

def epoch : Timestamp := ⟨⟨1970, 1, 1⟩, 0, 0, 0, by decide⟩

def ofFields? (date : Date) (minute second nanosecond : Nat) : Option Timestamp :=
  if h : date.isValid ∧ minute < 1440 ∧ second ≤ 60 ∧ nanosecond < 1000000000 then
    some ⟨date, minute, second, nanosecond, h⟩
  else none

/-- The moment so many milliseconds after the epoch, while the calendar lasts. -/
def ofMilliseconds (n : Nat) : Timestamp :=
  let seconds := n / 1000
  (ofFields? (Date.ofDays (seconds / 86400)) (seconds % 86400 / 60) (seconds % 60)
    (n % 1000 * 1000000)).getD epoch

/-- The moment when a clock that is `offset` minutes ahead shows this date and time. -/
def ofLocal? (date : Date) (minute second nanosecond : Nat) (offset : Int) : Option Timestamp :=
  let shifted : Int := minute - offset
  if !date.isValid ∨ 1440 ≤ minute then none
  else if shifted < 0 then ofFields? date.previous (shifted + 1440).toNat second nanosecond
  else if 1440 ≤ shifted then ofFields? date.next (shifted - 1440).toNat second nanosecond
  else ofFields? date shifted.toNat second nanosecond

end Timestamp

end CigaretteSmokers
